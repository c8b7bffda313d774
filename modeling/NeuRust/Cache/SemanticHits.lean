import NeuRust.Cache.SemanticCache
import NeuRust.Machine.Records
import NeuRust.Machine.Run

/-!
What the hit counters of the semantic cache count. The search counts a hit for every entry that it
finds better than those before, of which only the last one is served.
-/

namespace NeuRust.Cache

namespace SemanticEntry

variable {ε ρ : Type*} (entry : SemanticEntry ε ρ)

theorem hits_hit : entry.hit.hits = (entry.hits + 1) % 2 ^ 64 := UInt64.toNat_add entry.hitCount 1

theorem hits_lt : entry.hits < 2 ^ 64 := entry.hitCount.toNat_lt

theorem hits_hit_ne : entry.hit.hits ≠ entry.hits := by
  have hlt := entry.hits_lt
  rw [hits_hit]
  omega

theorem hits_hit_eq_iff : entry.hit.hits = entry.hits + 1 ↔ entry.hits + 1 < 2 ^ 64 := by
  rw [hits_hit]
  omega

end SemanticEntry

namespace SemanticCache

variable {ε ρ : Type*}

def isSimilar (similarity : ε → ε → ℚ) (now : ℕ) (threshold : ℚ) (query : ε)
    (entry : Σ _ : UInt64, SemanticEntry ε ρ) : Bool :=
  !entry.2.isExpired now && decide (threshold ≤ similarity query entry.2.embedding)

def isMatch (similarity : ε → ε → ℚ) (now : ℕ) (threshold : ℚ) (query : ε)
    (entry : Σ _ : UInt64, SemanticEntry ε ρ) : Bool :=
  decide (0 < similarity query entry.2.embedding) && isSimilar similarity now threshold query entry

/-- The entry whose response is returned: of the entries that match, the first most similar one. -/
def served (model : EmbeddingModel ε) (now : ℕ) (query : Str) (cache : SemanticCache ε ρ) :
    Option (Σ _ : UInt64, SemanticEntry ε ρ) :=
  match model.embed query with
  | none => none
  | some query =>
      (cache.entries.entries.filter
        (isMatch model.similarity now cache.similarityThreshold query)).argmax
          fun entry => model.similarity query entry.2.embedding

/-- A lookup counts one hit, for the entry whose response it returns. -/
structure CountsOnce (model : EmbeddingModel ε) (now : ℕ) (query : Str)
    (cache : SemanticCache ε ρ) : Prop where
  answer : (cache.lookup model now query).1 =
    (cache.served model now query).map fun entry => entry.2.response
  stays : ∀ entry ∈ cache.served model now query,
    entry.1 ∈ (cache.lookup model now query).2.entries
  hits : ∀ key e, (cache.lookup model now query).2.entries.lookup key = some e →
    ∃ e₀, cache.entries.lookup key = some e₀ ∧
      e.hits = e₀.hits + if (cache.served model now query).map Sigma.fst = some key then 1 else 0

/-- No unexpired entry is more similar than the first that matches, and another hit of that one
does not overflow its counter. -/
def FirstIsBest (model : EmbeddingModel ε) (now : ℕ) (query : Str) (cache : SemanticCache ε ρ) :
    Prop :=
  ∀ embedding, model.embed query = some embedding → ∀ first,
    cache.entries.entries.find?
      (isMatch model.similarity now cache.similarityThreshold embedding) = some first →
    (∀ entry ∈ cache.entries.entries, entry.2.isExpired now = false →
      model.similarity embedding entry.2.embedding ≤
        model.similarity embedding first.2.embedding) ∧
    first.2.hits + 1 < 2 ^ 64

/-! ### The entries that are counted -/

def countHits (entries : Table UInt64 (SemanticEntry ε ρ))
    (counted : List (Σ _ : UInt64, SemanticEntry ε ρ)) : Table UInt64 (SemanticEntry ε ρ) :=
  counted.foldl (fun entries entry => entries.replace entry.1 entry.2.hit) entries

theorem lookup_countHits_of_notMem {entries : Table UInt64 (SemanticEntry ε ρ)}
    {counted : List (Σ _ : UInt64, SemanticEntry ε ρ)} {key : UInt64}
    (h : key ∉ counted.map Sigma.fst) : (countHits entries counted).lookup key =
      entries.lookup key := by
  induction counted generalizing entries with
  | nil => rfl
  | cons entry counted ih =>
      obtain ⟨hne, hrest⟩ := not_or.mp (mt List.mem_cons.mpr h)
      rw [countHits, List.foldl_cons]
      exact (ih hrest).trans (AList.lookup_replace_ne _ hne)

theorem lookup_countHits_of_mem {entries : Table UInt64 (SemanticEntry ε ρ)}
    {counted : List (Σ _ : UInt64, SemanticEntry ε ρ)} {key : UInt64} {e : SemanticEntry ε ρ}
    (hnodup : (counted.map Sigma.fst).Nodup) (h : ⟨key, e⟩ ∈ counted)
    (hkey : entries.lookup key = some e) :
    (countHits entries counted).lookup key = some e.hit := by
  induction counted generalizing entries with
  | nil => cases h
  | cons entry counted ih =>
      obtain ⟨hnew, hnodup⟩ := List.nodup_cons.mp hnodup
      rw [countHits, List.foldl_cons]
      rcases List.mem_cons.mp h with rfl | hmem
      · exact (lookup_countHits_of_notMem hnew).trans (AList.lookup_replace_of_mem hkey)
      · have hne : key ≠ entry.1 := by
          rintro rfl
          exact hnew (List.mem_map.mpr ⟨_, hmem, rfl⟩)
        exact ih hnodup hmem ((AList.lookup_replace_ne _ hne).trans hkey)

section Search

variable {similarity : ε → ε → ℚ} {now : ℕ} {threshold : ℚ} {query : ε}

/-- The entries that the search finds better than those before, and than a score. -/
def improving (similarity : ε → ε → ℚ) (now : ℕ) (threshold : ℚ) (query : ε) (score : ℚ)
    (entries : List (Σ _ : UInt64, SemanticEntry ε ρ)) : List (Σ _ : UInt64, SemanticEntry ε ρ) :=
  records (fun entry => similarity query entry.2.embedding) score
    (entries.filter (isSimilar similarity now threshold query))

section Cons

variable {score : ℚ} {entry : Σ _ : UInt64, SemanticEntry ε ρ}
  {entries : List (Σ _ : UInt64, SemanticEntry ε ρ)}

theorem improving_cons_of_not_isSimilar
    (h : isSimilar similarity now threshold query entry = false) :
    improving similarity now threshold query score (entry :: entries) =
      improving similarity now threshold query score entries := by
  rw [improving, List.filter_cons_of_neg (by simp [h])]
  rfl

theorem improving_cons_of_better (hfresh : entry.2.isExpired now = false)
    (h : score < similarity query entry.2.embedding ∧
      threshold ≤ similarity query entry.2.embedding) :
    improving similarity now threshold query score (entry :: entries) =
      entry :: improving similarity now threshold query (similarity query entry.2.embedding)
        entries := by
  rw [improving, List.filter_cons_of_pos (by simp [isSimilar, hfresh, h.2]), records, if_pos h.1]
  rfl

theorem improving_cons_of_worse
    (h : ¬ (score < similarity query entry.2.embedding ∧
      threshold ≤ similarity query entry.2.embedding)) :
    improving similarity now threshold query score (entry :: entries) =
      improving similarity now threshold query score entries := by
  cases hsimilar : isSimilar similarity now threshold query entry with
  | false => exact improving_cons_of_not_isSimilar hsimilar
  | true =>
      have hthreshold : threshold ≤ similarity query entry.2.embedding := by
        simp only [isSimilar, Bool.and_eq_true, decide_eq_true_eq] at hsimilar
        exact hsimilar.2
      rw [improving, List.filter_cons_of_pos hsimilar, records,
        if_neg fun hlt => h ⟨hlt, hthreshold⟩]
      rfl

end Cons

/-- The loop counts a hit for each improving entry, and keeps the response of the last one. -/
theorem foldl_searchStep (entries : List (Σ _ : UInt64, SemanticEntry ε ρ)) (acc : Search ε ρ) :
    (entries.foldl (searchStep similarity now threshold query) acc).entries =
      countHits acc.entries (improving similarity now threshold query acc.bestScore entries) ∧
    (entries.foldl (searchStep similarity now threshold query) acc).bestResponse =
      ((improving similarity now threshold query acc.bestScore entries).getLast?.map
        fun entry => entry.2.response).or acc.bestResponse := by
  induction entries generalizing acc with
  | nil => exact ⟨rfl, rfl⟩
  | cons entry entries ih =>
      obtain ⟨hentries, hresponse⟩ := ih (searchStep similarity now threshold query acc entry)
      rw [List.foldl_cons, hentries, hresponse, searchStep]
      split
      next hexpired =>
        rw [improving_cons_of_not_isSimilar (by simp [isSimilar, hexpired])]
        exact ⟨rfl, rfl⟩
      next hfresh =>
        dsimp only
        split
        next hbetter =>
          rw [improving_cons_of_better (Bool.eq_false_iff.mpr hfresh) hbetter, List.getLast?_cons]
          refine ⟨rfl, ?_⟩
          cases (improving similarity now threshold query (similarity query entry.2.embedding)
            entries).getLast? <;> rfl
        next hworse =>
          rw [improving_cons_of_worse hworse]
          exact ⟨rfl, rfl⟩

end Search

/-! ### What a lookup counts -/

/-- The entries for which a lookup counts a hit. -/
def counted (model : EmbeddingModel ε) (now : ℕ) (embedding : ε) (cache : SemanticCache ε ρ) :
    List (Σ _ : UInt64, SemanticEntry ε ρ) :=
  improving model.similarity now cache.similarityThreshold embedding 0 cache.entries.entries

section Lookup

variable {model : EmbeddingModel ε} {now : ℕ} {query : Str} {embedding : ε}
  {cache : SemanticCache ε ρ} {key : UInt64} {e : SemanticEntry ε ρ}

theorem nodup_counted : ((cache.counted model now embedding).map Sigma.fst).Nodup := by
  have hsublist : (cache.counted model now embedding).Sublist cache.entries.entries :=
    records_sublist.trans List.filter_sublist
  exact (hsublist.map Sigma.fst).nodup cache.entries.keys_nodup

theorem of_mem_counted (h : ⟨key, e⟩ ∈ cache.counted model now embedding) :
    cache.entries.lookup key = some e ∧ e.isExpired now = false := by
  obtain ⟨hmem, hsimilar⟩ := List.mem_filter.mp (records_sublist.mem h)
  simp only [isSimilar, Bool.and_eq_true, Bool.not_eq_true'] at hsimilar
  exact ⟨AList.mem_entries_iff.mp hmem, hsimilar.1⟩

/-- The first entry that is counted is the first that matches. -/
theorem head?_counted : (cache.counted model now embedding).head? =
    cache.entries.entries.find?
      (isMatch model.similarity now cache.similarityThreshold embedding) := by
  rw [counted, improving, head?_records, List.find?_filter]
  congr 1
  funext entry
  simp [isMatch, Bool.and_comm]

/-- The last entry that is counted is the one served. -/
theorem served_eq (hembed : model.embed query = some embedding) :
    cache.served model now query = (cache.counted model now embedding).getLast? := by
  rw [served, hembed, counted, improving, getLast?_records, List.filter_filter]
  rfl

theorem lookup_fst_eq (hembed : model.embed query = some embedding) :
    (cache.lookup model now query).1 =
      (cache.served model now query).map fun entry => entry.2.response := by
  rw [served_eq hembed, lookup, hembed]
  exact ((foldl_searchStep _ _).2).trans (Option.or_none)

theorem lookup_snd_of_fresh (hembed : model.embed query = some embedding)
    (hlookup : cache.entries.lookup key = some e) (hfresh : e.isExpired now = false) :
    (cache.lookup model now query).2.entries.lookup key =
      (countHits cache.entries (cache.counted model now embedding)).lookup key := by
  have hmem := (mem_lookup_iff hembed).mpr ⟨e, hlookup, hfresh⟩
  rw [lookup, hembed] at hmem ⊢
  rw [AList.lookup_eraseAll_of_notMem (AList.mem_eraseAll.mp hmem).1]
  exact congrArg (AList.lookup key) (foldl_searchStep _ _).1

theorem lookup_of_mem_counted (hembed : model.embed query = some embedding)
    (h : ⟨key, e⟩ ∈ cache.counted model now embedding) :
    (cache.lookup model now query).2.entries.lookup key = some e.hit := by
  obtain ⟨hlookup, hfresh⟩ := of_mem_counted h
  rw [lookup_snd_of_fresh hembed hlookup hfresh]
  exact lookup_countHits_of_mem nodup_counted h hlookup

theorem lookup_of_notMem_counted (hembed : model.embed query = some embedding)
    (hkey : key ∉ (cache.counted model now embedding).map Sigma.fst)
    (h : (cache.lookup model now query).2.entries.lookup key = some e) :
    cache.entries.lookup key = some e := by
  obtain ⟨e₀, hlookup, hfresh⟩ := (mem_lookup_iff hembed).mp (AList.mem_of_lookup h)
  rwa [lookup_snd_of_fresh hembed hlookup hfresh, lookup_countHits_of_notMem hkey] at h

/-- If a lookup counts once, any entry that is counted is the one served. -/
theorem CountsOnce.served_of_counted (h : cache.CountsOnce model now query)
    (hembed : model.embed query = some embedding)
    (hmem : ⟨key, e⟩ ∈ cache.counted model now embedding) :
    (cache.served model now query).map Sigma.fst = some key ∧ e.hits + 1 < 2 ^ 64 := by
  obtain ⟨e₀, hlookup, hhits⟩ := h.hits key e.hit (lookup_of_mem_counted hembed hmem)
  obtain rfl := Option.some.inj ((of_mem_counted hmem).1.symm.trans hlookup)
  split at hhits
  next hserved => exact ⟨hserved, e.hits_hit_eq_iff.mp hhits⟩
  next => exact absurd hhits e.hits_hit_ne

theorem CountsOnce.counted_eq {first : Σ _ : UInt64, SemanticEntry ε ρ}
    (h : cache.CountsOnce model now query) (hembed : model.embed query = some embedding)
    (hfirst : (cache.counted model now embedding).head? = some first) :
    cache.counted model now embedding = [first] ∧ first.2.hits + 1 < 2 ^ 64 := by
  have hnodup : ((cache.counted model now embedding).map Sigma.fst).Nodup := nodup_counted
  obtain ⟨rest, hcounted⟩ := List.head?_eq_some_iff.mp hfirst
  have hserved := h.served_of_counted hembed (hcounted ▸ List.mem_cons_self : _ ∈ _)
  refine ⟨?_, hserved.2⟩
  cases rest with
  | nil => exact hcounted
  | cons second rest =>
      -- both would have the key of the entry served
      have hsecond : second ∈ cache.counted model now embedding := by simp [hcounted]
      have hkey := (h.served_of_counted hembed hsecond).1.symm.trans hserved.1
      rw [hcounted] at hnodup
      simp [Option.some.inj hkey] at hnodup

theorem stays_of_served (hembed : model.embed query = some embedding)
    {entry : Σ _ : UInt64, SemanticEntry ε ρ} (h : entry ∈ cache.served model now query) :
    entry.1 ∈ (cache.lookup model now query).2.entries := by
  rw [served_eq hembed] at h
  exact AList.mem_of_lookup (lookup_of_mem_counted hembed (List.mem_of_getLast? h))

theorem countsOnce_of_counted_eq_nil (hembed : model.embed query = some embedding)
    (hcounted : cache.counted model now embedding = []) : cache.CountsOnce model now query where
  answer := lookup_fst_eq hembed
  stays := fun _ => stays_of_served hembed
  hits := by
    intro key e h
    refine ⟨e, lookup_of_notMem_counted hembed (by simp [hcounted]) h, ?_⟩
    rw [served_eq hembed, hcounted]
    rfl

theorem countsOnce_of_counted_eq_singleton {first : Σ _ : UInt64, SemanticEntry ε ρ}
    (hembed : model.embed query = some embedding)
    (hcounted : cache.counted model now embedding = [first]) (hlt : first.2.hits + 1 < 2 ^ 64) :
    cache.CountsOnce model now query where
  answer := lookup_fst_eq hembed
  stays := fun _ => stays_of_served hembed
  hits := by
    intro key e h
    have hmem : first ∈ cache.counted model now embedding := by simp [hcounted]
    have hserved : (cache.served model now query).map Sigma.fst = some first.1 := by
      rw [served_eq hembed, hcounted]
      rfl
    rw [hserved]
    by_cases hkey : first.1 = key
    · subst hkey
      obtain rfl := Option.some.inj ((lookup_of_mem_counted hembed hmem).symm.trans h)
      rw [if_pos rfl]
      exact ⟨first.2, (of_mem_counted hmem).1, first.2.hits_hit_eq_iff.mpr hlt⟩
    · rw [if_neg (mt Option.some.inj hkey)]
      exact ⟨e, lookup_of_notMem_counted hembed (by simp [hcounted, Ne.symm hkey]) h, rfl⟩

/-- The first entry that is counted is the only one if no unexpired entry is more similar. -/
theorem counted_eq_singleton_iff {first : Σ _ : UInt64, SemanticEntry ε ρ}
    (hfirst : (cache.counted model now embedding).head? = some first) :
    cache.counted model now embedding = [first] ↔
      ∀ entry ∈ cache.entries.entries, entry.2.isExpired now = false →
        model.similarity embedding entry.2.embedding ≤
          model.similarity embedding first.2.embedding := by
  have hthreshold : cache.similarityThreshold ≤ model.similarity embedding first.2.embedding := by
    have hmem := (List.mem_filter.mp (records_sublist.mem (List.mem_of_head? hfirst))).2
    simp only [isSimilar, Bool.and_eq_true, decide_eq_true_eq] at hmem
    exact hmem.2
  refine (records_eq_singleton_iff hfirst).trans ⟨?_, ?_⟩
  · intro h entry hentry hfresh
    rcases le_or_gt cache.similarityThreshold (model.similarity embedding entry.2.embedding)
      with hle | hlt
    · exact h entry (List.mem_filter.mpr ⟨hentry, by simp [isSimilar, hfresh, hle]⟩)
    · exact hlt.le.trans hthreshold
  · intro h entry hentry
    obtain ⟨hmem, hsimilar⟩ := List.mem_filter.mp hentry
    simp only [isSimilar, Bool.and_eq_true, Bool.not_eq_true'] at hsimilar
    exact h entry hmem hsimilar.1

/-- A lookup counts once exactly if the first entry that matches is a best one. -/
theorem countsOnce_iff_of_embed (hembed : model.embed query = some embedding) :
    cache.CountsOnce model now query ↔ cache.FirstIsBest model now query := by
  constructor
  · intro h embedding' hembed' first hfirst
    obtain rfl := Option.some.inj (hembed.symm.trans hembed')
    rw [← head?_counted] at hfirst
    obtain ⟨hcounted, hlt⟩ := h.counted_eq hembed hfirst
    exact ⟨(counted_eq_singleton_iff hfirst).mp hcounted, hlt⟩
  · intro h
    have hbest := h embedding hembed
    rw [← head?_counted] at hbest
    cases hfirst : (cache.counted model now embedding).head? with
    | none => exact countsOnce_of_counted_eq_nil hembed (List.head?_eq_none_iff.mp hfirst)
    | some first =>
        obtain ⟨hmost, hlt⟩ := hbest first hfirst
        exact countsOnce_of_counted_eq_singleton hembed
          ((counted_eq_singleton_iff hfirst).mpr hmost) hlt

theorem countsOnce_of_not_embed (hembed : model.embed query = none) :
    cache.CountsOnce model now query := by
  have hlookup : cache.lookup model now query = (none, cache) := by rw [lookup, hembed]
  have hserved : cache.served model now query = none := by rw [served, hembed]
  refine ⟨?_, ?_, ?_⟩
  · rw [hlookup, hserved]
    rfl
  · intro entry h
    rw [hserved] at h
    cases h
  · intro key e h
    rw [hlookup] at h
    rw [hserved]
    exact ⟨e, h, rfl⟩

theorem countsOnce_iff : cache.CountsOnce model now query ↔ cache.FirstIsBest model now query := by
  cases hembed : model.embed query with
  | some embedding => exact countsOnce_iff_of_embed hembed
  | none =>
      refine iff_of_true (countsOnce_of_not_embed hembed) ?_
      intro embedding hsome
      rw [hembed] at hsome
      cases hsome

end Lookup

/-! ### What an eviction removes -/

theorem notMem_expiredKeys {now : ℕ} {entries : Table UInt64 (SemanticEntry ε ρ)} {key : UInt64}
    {e : SemanticEntry ε ρ} (hlookup : entries.lookup key = some e)
    (hfresh : e.isExpired now = false) : key ∉ expiredKeys now entries := by
  intro hmem
  obtain ⟨⟨_, e'⟩, hfilter, rfl⟩ := List.mem_map.mp hmem
  obtain ⟨hentry, hexpired⟩ := List.mem_filter.mp hfilter
  obtain rfl := Option.some.inj (hlookup.symm.trans (AList.mem_entries_iff.mp hentry))
  rw [hfresh] at hexpired
  cases hexpired

/-- An unexpired entry that is evicted has no more hits than any unexpired entry. -/
theorem hits_le_of_evicted {now : ℕ} {cache : SemanticCache ε ρ} {key key' : UInt64}
    {e e' : SemanticEntry ε ρ} (hlookup : cache.entries.lookup key = some e)
    (hfresh : e.isExpired now = false)
    (hgone : (cache.evictIfNeeded now).entries.lookup key = none)
    (hlookup' : cache.entries.lookup key' = some e') (hfresh' : e'.isExpired now = false) :
    e.hits ≤ e'.hits := by
  have hkept {k : UInt64} {c : SemanticEntry ε ρ} (hk : cache.entries.lookup k = some c)
      (hc : c.isExpired now = false) :
      (cache.entries.eraseAll (expiredKeys now cache.entries)).lookup k = some c := by
    rw [AList.lookup_eraseAll_of_notMem (notMem_expiredKeys hk hc), hk]
  rw [evictIfNeeded] at hgone
  split at hgone
  next =>
    rw [hlookup] at hgone
    cases hgone
  next =>
    dsimp only at hgone
    split at hgone
    next =>
      rw [hkept hlookup hfresh] at hgone
      cases hgone
    next =>
      split at hgone
      next victim hvictim =>
        obtain ⟨least, hleast, hmin⟩ := AList.minKey_eq_some hvictim
        by_cases hkey : key = victim
        · subst hkey
          obtain rfl := Option.some.inj ((hkept hlookup hfresh).symm.trans hleast)
          exact hmin key' e' (hkept hlookup' hfresh')
        · rw [AList.lookup_erase_ne hkey, hkept hlookup hfresh] at hgone
          cases hgone
      next =>
        rw [hkept hlookup hfresh] at hgone
        cases hgone

/-- After a store, an entry has just been stored, without hits, or it was there before. -/
theorem hits_of_store {model : EmbeddingModel ε} {now : ℕ} {query : Str} {response : ρ}
    {cache : SemanticCache ε ρ} {key : UInt64} {e : SemanticEntry ε ρ}
    (h : (cache.store model now query response).entries.lookup key = some e) :
    (((model.embed query).isSome ∧ cache.nextId = key) ∧ e.hits = 0) ∨
      (¬ ((model.embed query).isSome ∧ cache.nextId = key) ∧
        cache.entries.lookup key = some e) := by
  rw [store] at h
  split at h
  next hnone =>
    right
    rw [hnone]
    exact ⟨fun hsome => Bool.false_ne_true hsome.1, h⟩
  next embedding hembed =>
    have hid : (cache.evictIfNeeded now).nextId = cache.nextId := evictIfNeeded_nextId
    rw [hembed, ← hid]
    rcases AList.lookup_insert_cases h with ⟨rfl, rfl⟩ | ⟨hne, hold⟩
    · exact .inl ⟨⟨rfl, rfl⟩, rfl⟩
    · exact .inr ⟨fun hsome => hne hsome.2.symm, lookup_of_evictIfNeeded hold⟩

end SemanticCache

/-! ### Runs -/

structure SemanticState (ε ρ : Type*) where
  cache : SemanticCache ε ρ
  now : ℕ

/-- A call, with what it answers, or what happens between calls. -/
inductive SemanticOp (ρ : Type*)
  | store (query : Str) (response : ρ)
  | lookup (query : Str) (answer : Option ρ)
  | advance (time : ℕ)
  | reorder

section

variable {ε ρ : Type*} (model : EmbeddingModel ε)

inductive SemanticStep : SemanticState ε ρ → SemanticOp ρ → SemanticState ε ρ → Prop
  | store (s : SemanticState ε ρ) (query : Str) (response : ρ) :
      SemanticStep s (.store query response)
        { s with cache := s.cache.store model s.now query response }
  | lookup (s : SemanticState ε ρ) (query : Str) :
      SemanticStep s (.lookup query (s.cache.lookup model s.now query).1)
        { s with cache := (s.cache.lookup model s.now query).2 }
  | advance (s : SemanticState ε ρ) (time : ℕ) :
      SemanticStep s (.advance time) { s with now := s.now + time }
  | reorder (s : SemanticState ε ρ) (entries : Table UInt64 (SemanticEntry ε ρ))
      (h : entries.entries.Perm s.cache.entries.entries) :
      SemanticStep s .reorder { s with cache := { s.cache with entries := entries } }

/-- How often lookups were answered from the entry under the key, since it was stored. -/
def timesServed (key : UInt64) : List (Transition (SemanticState ε ρ) (SemanticOp ρ)) → ℕ
  | [] => 0
  | ⟨s, .store query _, _⟩ :: earlier =>
      if (model.embed query).isSome ∧ s.cache.nextId = key then 0 else timesServed key earlier
  | ⟨s, .lookup query _, _⟩ :: earlier =>
      timesServed key earlier +
        if (s.cache.served model s.now query).map Sigma.fst = some key then 1 else 0
  | ⟨_, .advance _, _⟩ :: earlier => timesServed key earlier
  | ⟨_, .reorder, _⟩ :: earlier => timesServed key earlier

/-- Hits are the times that an entry was served, so that eviction takes an unexpired entry only if
none was served less often. -/
structure RanksByServed (steps : List (Transition (SemanticState ε ρ) (SemanticOp ρ)))
    (s : SemanticState ε ρ) : Prop where
  hits : ∀ key e, s.cache.entries.lookup key = some e → e.hits = timesServed model key steps
  evicted : ∀ key e, s.cache.entries.lookup key = some e → e.isExpired s.now = false →
    (s.cache.evictIfNeeded s.now).entries.lookup key = none →
    ∀ key' e', s.cache.entries.lookup key' = some e' → e'.isExpired s.now = false →
      timesServed model key steps ≤ timesServed model key' steps

end

section

variable {ε ρ : Type*} {model : EmbeddingModel ε}

/-- Hits stay the times served through a step that counts once if it is a lookup. -/
theorem SemanticStep.hits {steps : List (Transition (SemanticState ε ρ) (SemanticOp ρ))}
    {s s' : SemanticState ε ρ} {op : SemanticOp ρ}
    (hs : ∀ key e, s.cache.entries.lookup key = some e → e.hits = timesServed model key steps)
    (h : SemanticStep model s op s')
    (honce : ∀ query answer, op = .lookup query answer → s.cache.CountsOnce model s.now query)
    (key : UInt64) (e : SemanticEntry ε ρ) (hlookup : s'.cache.entries.lookup key = some e) :
    e.hits = timesServed model key (⟨s, op, s'⟩ :: steps) := by
  cases h with
  | store query response =>
      rw [timesServed]
      rcases SemanticCache.hits_of_store hlookup with ⟨hnew, hzero⟩ | ⟨hkept, hold⟩
      · rw [if_pos hnew, hzero]
      · rw [if_neg hkept, hs key e hold]
  | lookup query =>
      obtain ⟨e₀, hlookup₀, hhits⟩ := (honce query _ rfl).hits key e hlookup
      rw [timesServed, hhits, hs key e₀ hlookup₀]
  | advance => exact hs key e hlookup
  | reorder entries hperm => exact hs key e ((AList.lookup_perm hperm key).symm.trans hlookup)

theorem hits_eq_timesServed {maxEntries defaultTtl now : ℕ} {threshold : ℚ}
    {steps : List (Transition (SemanticState ε ρ) (SemanticOp ρ))} {s : SemanticState ε ρ}
    (run : Run (SemanticStep model) ⟨.new maxEntries defaultTtl threshold, now⟩ steps s)
    (honce : ∀ t ∈ steps, ∀ query answer, t.label = .lookup query answer →
      t.pre.cache.CountsOnce model t.pre.now query) (key : UInt64) (e : SemanticEntry ε ρ)
    (hlookup : s.cache.entries.lookup key = some e) : e.hits = timesServed model key steps := by
  revert key e
  apply run.invariant_if (P := fun _ t => ∀ query answer, t.label = .lookup query answer →
    t.pre.cache.CountsOnce model t.pre.now query)
  · intro key e hlookup
    cases hlookup
  · intro steps s op s' hs h honce
    exact h.hits hs honce
  · intro t earlier hsuffix
    exact honce t (hsuffix.mem List.mem_cons_self)

/-- A lookup counts one hit, for the entry served, exactly if the first entry that matches is one of
the most similar; and a run from the empty cache all of whose lookups are so ranks the entries by
how often they were served. -/
theorem lookup_countsOnce_iff (model : EmbeddingModel ε) :
    (∀ (now : ℕ) (query : Str) (cache : SemanticCache ε ρ),
      cache.CountsOnce model now query ↔ cache.FirstIsBest model now query) ∧
    ∀ (maxEntries defaultTtl now : ℕ) (threshold : ℚ)
      (steps : List (Transition (SemanticState ε ρ) (SemanticOp ρ))) (s : SemanticState ε ρ),
      Run (SemanticStep model) ⟨.new maxEntries defaultTtl threshold, now⟩ steps s →
      (∀ t ∈ steps, ∀ query answer, t.label = .lookup query answer →
        t.pre.cache.FirstIsBest model t.pre.now query) →
      RanksByServed model steps s := by
  refine ⟨fun now query cache => SemanticCache.countsOnce_iff, ?_⟩
  intro maxEntries defaultTtl now threshold steps s run hbest
  have hhits : ∀ key e, s.cache.entries.lookup key = some e →
      e.hits = timesServed model key steps := by
    apply hits_eq_timesServed run
    intro t ht query answer hlabel
    exact SemanticCache.countsOnce_iff.mpr (hbest t ht query answer hlabel)
  refine ⟨hhits, ?_⟩
  intro key e hlookup hfresh hgone key' e' hlookup' hfresh'
  rw [← hhits key e hlookup, ← hhits key' e' hlookup']
  exact SemanticCache.hits_le_of_evicted hlookup hfresh hgone hlookup' hfresh'

end

/-- A model of unit vectors, with the cosine as the similarity. -/
def unitVectors : EmbeddingModel (ℚ × ℚ) where
  embed query :=
    some (if query = "What is the capital of France?".toList then (1, 0) else (24 / 25, 7 / 25))
  similarity a b := max 0 (a.1 * b.1 + a.2 * b.2)

def oneQuestion : SemanticCache (ℚ × ℚ) ℕ :=
  (SemanticCache.new 10 100 (9 / 10)).store unitVectors 0 "What is the capital of France?".toList 7

/-- Stored and looked up once, the answer has one hit. -/
theorem lookup_countsOnce_oneQuestion :
    ∃ (steps : List (Transition (SemanticState (ℚ × ℚ) ℕ) (SemanticOp ℕ)))
      (s : SemanticState (ℚ × ℚ) ℕ),
      Run (SemanticStep unitVectors) ⟨.new 10 100 (9 / 10), 0⟩ steps s ∧
        RanksByServed unitVectors steps s ∧ timesServed unitVectors 0 steps = 1 := by
  have run : Run (SemanticStep unitVectors)
      (⟨.new 10 100 (9 / 10), 0⟩ : SemanticState (ℚ × ℚ) ℕ) _ _ :=
    .snoc (.snoc .nil (.store _ "What is the capital of France?".toList 7))
      (.lookup _ "What is the capital of France?".toList)
  have hbest : ∀ query, oneQuestion.FirstIsBest unitVectors 0 query := by
    intro query embedding _ first hfirst
    have hone : oneQuestion.entries.entries = [⟨0, ⟨(1, 0), 7, 0, 0, 100⟩⟩] := rfl
    rw [hone] at hfirst ⊢
    obtain rfl := List.mem_singleton.mp (List.mem_of_find?_eq_some hfirst)
    refine ⟨?_, by decide⟩
    intro entry hentry _
    rw [List.mem_singleton.mp hentry]
  refine ⟨_, _, run, (lookup_countsOnce_iff unitVectors).2 _ _ _ _ _ _ run ?_, by decide +kernel⟩
  intro t ht query answer hlabel
  rcases List.mem_cons.mp ht with rfl | ht
  · exact hbest query
  · rw [List.mem_singleton.mp ht] at hlabel
    cases hlabel

def twoQuestions : SemanticCache (ℚ × ℚ) ℕ :=
  oneQuestion.store unitVectors 0 "Name the capital of France.".toList 8

def askedAgain : Option ℕ × SemanticCache (ℚ × ℚ) ℕ :=
  twoQuestions.lookup unitVectors 1 "What is the capital of France?".toList

/-- The question is answered from its own entry, and a hit is counted for the other one too. -/
theorem lookup_counts_unserved :
    askedAgain.1 = some 7 ∧
      (askedAgain.2.entries.lookup 0).map SemanticEntry.hits = some 1 ∧
      (askedAgain.2.entries.lookup 1).map SemanticEntry.hits = some 1 ∧
      ¬ twoQuestions.CountsOnce unitVectors 1 "What is the capital of France?".toList := by
  have hserved : (twoQuestions.served unitVectors 1
      "What is the capital of France?".toList).map Sigma.fst = some 0 := by decide +kernel
  have hzero : (twoQuestions.entries.lookup 1).map SemanticEntry.hits = some 0 := by decide +kernel
  have hone : (askedAgain.2.entries.lookup 1).map SemanticEntry.hits = some 1 := by decide +kernel
  refine ⟨by decide +kernel, by decide +kernel, hone, fun h => ?_⟩
  obtain ⟨e, hlookup, he⟩ := Option.map_eq_some_iff.mp hone
  obtain ⟨e₀, hlookup₀, heq⟩ := h.hits 1 e hlookup
  rw [hlookup₀] at hzero
  rw [hserved, he, Option.some.inj hzero] at heq
  cases heq

end NeuRust.Cache
