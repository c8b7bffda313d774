import NeuRust.Cache.SemanticHits

/-!
Runs of the semantic cache. It is bounded, it answers what was stored for a similar query within its
time to live, and it gives up an unexpired entry only where it is full, and then one with the fewest
hits. As long as the ids of its entries do not wrap around, a store overwrites none of them.
-/

namespace NeuRust.Cache

namespace SemanticCache

variable {ε ρ : Type*} {model : EmbeddingModel ε} {now : ℕ} {cache : SemanticCache ε ρ}

/-! ### Sizes -/

theorem size_evictIfNeeded_lt (hbound : cache.entries.size ≤ max 1 cache.maxEntries) :
    (cache.evictIfNeeded now).entries.size < max 1 cache.maxEntries := by
  have herased : (cache.entries.eraseAll (expiredKeys now cache.entries)).size ≤
      max 1 cache.maxEntries := (AList.size_eraseAll_le _ _).trans hbound
  rw [evictIfNeeded]
  split
  next hroom => exact hroom.trans_le (le_max_right _ _)
  next =>
    dsimp only
    split
    next hroom => exact hroom.trans_le (le_max_right _ _)
    next =>
      split
      next victim hvictim =>
        obtain ⟨least, hleast, -⟩ := AList.minKey_eq_some hvictim
        have hsize := AList.size_erase_of_mem (AList.mem_of_lookup hleast)
        dsimp only
        omega
      next hnone =>
        dsimp only
        rw [AList.minKey_eq_none.mp hnone]
        exact zero_lt_one.trans_le (le_max_left _ _)

theorem size_store_le {query : Str} {response : ρ}
    (hbound : cache.entries.size ≤ max 1 cache.maxEntries) :
    (cache.store model now query response).entries.size ≤ max 1 cache.maxEntries := by
  rw [store]
  split
  next => exact hbound
  next => exact (AList.size_insert_le _ _ _).trans (size_evictIfNeeded_lt hbound)

theorem size_lookup_le {query : Str} :
    (cache.lookup model now query).2.entries.size ≤ cache.entries.size := by
  rw [AList.size_eq_length_keys cache.entries]
  apply AList.size_le_of_forall_mem
  intro key hkey
  obtain ⟨e, he⟩ := AList.exists_lookup hkey
  obtain ⟨e₀, he₀, -⟩ := lookup_of_lookup he
  exact AList.mem_keys.mp (AList.mem_of_lookup he₀)

/-! ### What is given up -/

/-- An unexpired entry goes only from a full cache without expired ones, alone, and has as few hits
as any. -/
theorem evictIfNeeded_evicts {key : UInt64} {e : SemanticEntry ε ρ}
    (hbound : cache.entries.size ≤ max 1 cache.maxEntries)
    (hlookup : cache.entries.lookup key = some e) (hfresh : e.isExpired now = false)
    (hgone : (cache.evictIfNeeded now).entries.lookup key = none) :
    cache.maxEntries ≤ cache.entries.size ∧
      (∀ key' e', cache.entries.lookup key' = some e' → e'.isExpired now = false) ∧
      ∀ key', key' ≠ key →
        (cache.evictIfNeeded now).entries.lookup key' = cache.entries.lookup key' := by
  have hkept : (cache.entries.eraseAll (expiredKeys now cache.entries)).lookup key = some e := by
    rw [AList.lookup_eraseAll_of_notMem (notMem_expiredKeys hlookup hfresh), hlookup]
  rw [evictIfNeeded] at hgone ⊢
  split at hgone
  next =>
    rw [hlookup] at hgone
    cases hgone
  next hfull =>
    rw [if_neg hfull]
    dsimp only at hgone ⊢
    split at hgone
    next =>
      rw [hkept] at hgone
      cases hgone
    next hstill =>
      rw [if_neg hstill]
      have hmem : key ∈ cache.entries.eraseAll (expiredKeys now cache.entries) :=
        AList.mem_of_lookup hkept
      have hnone : expiredKeys now cache.entries = [] := by
        -- an expired entry would have made room
        by_contra hexpired
        obtain ⟨other, hother⟩ := List.exists_mem_of_ne_nil _ hexpired
        obtain ⟨⟨_, e'⟩, hfilter, rfl⟩ := List.mem_map.mp hother
        have hin := AList.mem_of_lookup (AList.mem_entries_iff.mp (List.mem_filter.mp hfilter).1)
        have hlt := AList.size_eraseAll_lt hother hin
        have hpos := AList.size_pos_of_mem hmem
        omega
      have hall : ∀ key' e', cache.entries.lookup key' = some e' → e'.isExpired now = false := by
        intro key' e' he'
        have hentry := AList.mem_entries_iff.mpr he'
        by_contra hexpired
        have hin : key' ∈ expiredKeys now cache.entries :=
          List.mem_map.mpr ⟨_, List.mem_filter.mpr ⟨hentry, by simpa using hexpired⟩, rfl⟩
        rw [hnone] at hin
        cases hin
      refine ⟨not_lt.mp hfull, hall, fun key' hne => ?_⟩
      rw [hnone, AList.eraseAll_nil] at hgone ⊢
      split at hgone
      next victim hvictim =>
        dsimp only at hgone ⊢
        by_cases hkey : key = victim
        · subst hkey
          exact AList.lookup_erase_ne hne
        · rw [AList.lookup_erase_ne hkey, hlookup] at hgone
          cases hgone
      next hvictim => rfl

theorem lookup_store_ne {query : Str} {response : ρ} {embedding : ε} {key : UInt64}
    (hembed : model.embed query = some embedding) (hkey : key ≠ cache.nextId) :
    (cache.store model now query response).entries.lookup key =
      (cache.evictIfNeeded now).entries.lookup key := by
  rw [store, hembed]
  dsimp only
  rw [evictIfNeeded_nextId, AList.lookup_insert_ne hkey]

end SemanticCache

/-! ### Runs -/

section

variable {ε ρ : Type*} (model : EmbeddingModel ε)

def SemanticOp.takesId : SemanticOp ρ → Bool
  | .store query _ => (model.embed query).isSome
  | .lookup _ _ | .advance _ | .reorder => false

def idsTaken (steps : List (Transition (SemanticState ε ρ) (SemanticOp ρ))) : ℕ :=
  steps.countP fun t => t.label.takesId model

structure StoredBy (t : Transition (SemanticState ε ρ) (SemanticOp ρ)) (query : Str)
    (e : SemanticEntry ε ρ) : Prop where
  label : t.label = .store query e.response
  embedding : model.embed query = some e.embedding
  createdAt : e.createdAt = t.pre.now
  ttl : e.ttl = t.pre.cache.defaultTtl

/-- What holds of the cache in a run: it keeps its settings and its bound, its entries have been
stored, and have ids that were taken. -/
structure SemanticTracks (start : SemanticCache ε ρ)
    (steps : List (Transition (SemanticState ε ρ) (SemanticOp ρ))) (s : SemanticState ε ρ) :
    Prop where
  config : s.cache.SameConfig start
  bound : s.cache.entries.size ≤ max 1 start.maxEntries
  nextId : s.cache.nextId = UInt64.ofNat (idsTaken model steps)
  stored : ∀ key e, s.cache.entries.lookup key = some e → ∃ t ∈ steps, ∃ query,
    StoredBy model t query e ∧ t.pre.cache.defaultTtl = start.defaultTtl
  taken : ∀ key ∈ s.cache.entries, ∃ i < idsTaken model steps, key = UInt64.ofNat i

section

variable {start : SemanticCache ε ρ}
  {steps : List (Transition (SemanticState ε ρ) (SemanticOp ρ))} {s s' : SemanticState ε ρ}
  {op : SemanticOp ρ}

theorem semanticTracks_start (maxEntries defaultTtl now : ℕ) (threshold : ℚ) :
    SemanticTracks model (.new maxEntries defaultTtl threshold) []
      (⟨.new maxEntries defaultTtl threshold, now⟩ : SemanticState ε ρ) where
  config := .refl _
  bound := Nat.zero_le _
  nextId := rfl
  stored := by
    intro key e hlookup
    cases hlookup
  taken := by
    intro key hkey
    obtain ⟨e, he⟩ := AList.exists_lookup hkey
    cases he

variable {model}

theorem idsTaken_cons (t : Transition (SemanticState ε ρ) (SemanticOp ρ)) :
    idsTaken model (t :: steps) =
      idsTaken model steps + if t.label.takesId model then 1 else 0 := by
  rw [idsTaken, List.countP_cons]
  rfl

/-- A step that takes no id brings in no entry. -/
theorem SemanticTracks.of_kept (hs : SemanticTracks model start steps s)
    (hids : op.takesId model = false)
    (hconfig : s'.cache.SameConfig s.cache)
    (hsize : s'.cache.entries.size ≤ s.cache.entries.size)
    (hid : s'.cache.nextId = s.cache.nextId)
    (hkept : ∀ key e, s'.cache.entries.lookup key = some e →
      ∃ e₀, s.cache.entries.lookup key = some e₀ ∧ SemanticCache.SameContent e e₀) :
    SemanticTracks model start (⟨s, op, s'⟩ :: steps) s' where
  config := hconfig.trans hs.config
  bound := hsize.trans hs.bound
  nextId := by
    rw [hid, hs.nextId, idsTaken_cons, hids]
    rfl
  stored := by
    intro key e he
    obtain ⟨e₀, he₀, hsame⟩ := hkept key e he
    obtain ⟨t, ht, query, hstored, hconfig⟩ := hs.stored key e₀ he₀
    refine ⟨t, List.mem_cons_of_mem _ ht, query, ⟨?_, ?_, ?_, ?_⟩, hconfig⟩
    · rw [hsame.response]
      exact hstored.label
    · rw [hsame.embedding]
      exact hstored.embedding
    · rw [hsame.createdAt]
      exact hstored.createdAt
    · rw [hsame.ttl]
      exact hstored.ttl
  taken := by
    intro key hkey
    obtain ⟨e, he⟩ := AList.exists_lookup hkey
    obtain ⟨e₀, he₀, -⟩ := hkept key e he
    rw [idsTaken_cons, hids]
    exact hs.taken key (AList.mem_of_lookup he₀)

theorem SemanticTracks.of_stored (hs : SemanticTracks model start steps s) {query : Str}
    {embedding : ε} (hembed : model.embed query = some embedding) (response : ρ) :
    SemanticTracks model start
      (⟨s, .store query response, { s with cache := s.cache.store model s.now query response }⟩ ::
        steps)
      { s with cache := s.cache.store model s.now query response } := by
  have hids : idsTaken model (⟨s, .store query response,
      { s with cache := s.cache.store model s.now query response }⟩ :: steps) =
        idsTaken model steps + 1 := by
    rw [idsTaken_cons, if_pos]
    show (model.embed query).isSome = true
    rw [hembed]
    rfl
  have hbound : s.cache.entries.size ≤ max 1 s.cache.maxEntries := by
    rw [hs.config.maxEntries]
    exact hs.bound
  refine ⟨SemanticCache.store_sameConfig.trans hs.config, ?_, ?_, ?_, ?_⟩
  · rw [← hs.config.maxEntries]
    exact SemanticCache.size_store_le hbound
  · show (s.cache.store model s.now query response).nextId = _
    rw [hids, UInt64.ofNat_add, ← hs.nextId, SemanticCache.store, hembed]
    dsimp only
    rw [SemanticCache.evictIfNeeded_nextId]
    rfl
  · intro key e he
    rcases SemanticCache.lookup_of_store he with ⟨hnew, hresponse, hat, httl⟩ | hold
    · exact ⟨_, List.mem_cons_self, query, ⟨by rw [hresponse], hnew, hat, httl⟩,
        hs.config.defaultTtl⟩
    · obtain ⟨t, ht, hrest⟩ := hs.stored key e hold
      exact ⟨t, List.mem_cons_of_mem _ ht, hrest⟩
  · intro key hkey
    obtain ⟨e, he⟩ := AList.exists_lookup hkey
    rw [hids]
    rcases SemanticCache.hits_of_store he with ⟨⟨-, hid⟩, -⟩ | ⟨-, hold⟩
    · exact ⟨idsTaken model steps, Nat.lt_succ_self _, by rw [← hid, hs.nextId]⟩
    · obtain ⟨i, hi, heq⟩ := hs.taken key (AList.mem_of_lookup hold)
      exact ⟨i, Nat.lt_succ_of_lt hi, heq⟩

theorem SemanticTracks.step (hs : SemanticTracks model start steps s)
    (h : SemanticStep model s op s') : SemanticTracks model start (⟨s, op, s'⟩ :: steps) s' := by
  cases h with
  | store query response =>
      cases hembed : model.embed query with
      | some embedding => exact hs.of_stored hembed response
      | none =>
          have hsame : s.cache.store model s.now query response = s.cache := by
            rw [SemanticCache.store, hembed]
          rw [hsame]
          exact hs.of_kept (by rw [SemanticOp.takesId, hembed]; rfl) (.refl _) le_rfl rfl
            fun key e he => ⟨e, he, .refl e⟩
  | lookup query =>
      exact hs.of_kept rfl SemanticCache.lookup_sameConfig SemanticCache.size_lookup_le
        SemanticCache.lookup_nextId fun key e he => SemanticCache.lookup_of_lookup he
  | advance time => exact hs.of_kept rfl (.refl _) le_rfl rfl fun key e he => ⟨e, he, .refl e⟩
  | reorder entries hperm =>
      refine hs.of_kept rfl ⟨rfl, rfl, rfl⟩ (AList.size_perm hperm).le rfl fun key e he => ?_
      exact ⟨e, (AList.lookup_perm hperm key).symm.trans he, .refl e⟩

theorem semanticTracks_of_run {maxEntries defaultTtl now : ℕ} {threshold : ℚ}
    (run : Run (SemanticStep model) ⟨.new maxEntries defaultTtl threshold, now⟩ steps s) :
    SemanticTracks model (.new maxEntries defaultTtl threshold) steps s := by
  apply run.invariant_of_history (I := SemanticTracks model (.new maxEntries defaultTtl threshold))
  · exact semanticTracks_start model maxEntries defaultTtl now threshold
  · exact fun _ hs h => hs.step h

/-- As long as the ids have not wrapped around, the next one is not taken. -/
theorem SemanticTracks.nextId_notMem (hs : SemanticTracks model start steps s)
    (hids : idsTaken model steps < 2 ^ 64) : s.cache.nextId ∉ s.cache.entries := by
  intro hmem
  obtain ⟨i, hi, heq⟩ := hs.taken _ hmem
  rw [hs.nextId] at heq
  have hsame := congrArg UInt64.toNat heq
  rw [UInt64.toNat_ofNat', UInt64.toNat_ofNat', Nat.mod_eq_of_lt hids,
    Nat.mod_eq_of_lt (hi.trans hids)] at hsame
  omega

theorem SemanticStep.lookup_answer {query : Str} {answer : Option ρ}
    (h : SemanticStep model s (.lookup query answer) s') :
    (s.cache.lookup model s.now query).1 = answer := by
  cases h
  rfl

/-- What a lookup answers has been stored for a similar query, and is still fresh. -/
theorem SemanticTracks.answered (hs : SemanticTracks model start steps s) {query : Str}
    {response : ρ} (h : (s.cache.lookup model s.now query).1 = some response) :
    ∃ t ∈ steps, ∃ stored x y, t.label = .store stored response ∧
      model.embed query = some x ∧ model.embed stored = some y ∧
      0 < model.similarity x y ∧ start.similarityThreshold ≤ model.similarity x y ∧
      s.now ≤ t.pre.now + start.defaultTtl ∧
      ∀ key e, s.cache.entries.lookup key = some e → e.isExpired s.now = false →
        model.similarity x e.embedding ≤ model.similarity x y := by
  obtain ⟨entry, ⟨x, hembed, hbest⟩, rfl⟩ := SemanticCache.candidate_of_lookup h
  obtain ⟨key, hmem⟩ := hbest.mem
  obtain ⟨t, ht, stored, hstored, hconfig⟩ := hs.stored key entry (AList.mem_entries_iff.mp hmem)
  refine ⟨t, ht, stored, x, entry.embedding, hstored.label, hembed, hstored.embedding, hbest.pos,
    ?_, ?_, ?_⟩
  · rw [← hs.config.similarityThreshold]
    exact hbest.similar
  · have hfresh := SemanticEntry.not_isExpired_iff.mp hbest.fresh
    rw [hstored.createdAt, hstored.ttl, hconfig] at hfresh
    omega
  · intro key' e he hfresh
    exact hbest.best key' e (AList.mem_entries_iff.mpr he) hfresh

/-- A store leaves an entry as it was, or takes it, and an unexpired one only for want of room. -/
theorem SemanticTracks.kept_of_store (hs : SemanticTracks model start steps s)
    (hids : idsTaken model steps < 2 ^ 64) (query : Str) (response : ρ) {key : UInt64}
    {e : SemanticEntry ε ρ} (hlookup : s.cache.entries.lookup key = some e) :
    (s.cache.store model s.now query response).entries.lookup key = some e ∨
      (s.cache.store model s.now query response).entries.lookup key = none ∧
        (e.isExpired s.now = false → start.maxEntries ≤ s.cache.len ∧
          (∀ key' e', s.cache.entries.lookup key' = some e' →
            e'.isExpired s.now = false ∧ e.hits ≤ e'.hits) ∧
          ∀ key' ∈ s.cache.entries, key' ≠ key →
            (s.cache.store model s.now query response).entries.lookup key' =
              s.cache.entries.lookup key') := by
  cases hembed : model.embed query with
  | none =>
      left
      rw [SemanticCache.store, hembed]
      exact hlookup
  | some embedding =>
      have hne {k : UInt64} (hk : k ∈ s.cache.entries) : k ≠ s.cache.nextId := by
        rintro rfl
        exact hs.nextId_notMem hids hk
      have hbound : s.cache.entries.size ≤ max 1 s.cache.maxEntries := by
        rw [hs.config.maxEntries]
        exact hs.bound
      rw [SemanticCache.lookup_store_ne hembed (hne (AList.mem_of_lookup hlookup))]
      cases hleft : (s.cache.evictIfNeeded s.now).entries.lookup key with
      | some e' =>
          left
          rw [← hlookup, SemanticCache.lookup_of_evictIfNeeded hleft]
      | none =>
          refine .inr ⟨rfl, fun hfresh => ?_⟩
          obtain ⟨hfull, hall, hothers⟩ :=
            SemanticCache.evictIfNeeded_evicts hbound hlookup hfresh hleft
          rw [hs.config.maxEntries] at hfull
          refine ⟨hfull, fun key' e' he' => ⟨hall key' e' he', ?_⟩, fun key' hkey' hother => ?_⟩
          · exact SemanticCache.hits_le_of_evicted hlookup hfresh hleft he' (hall key' e' he')
          · rw [SemanticCache.lookup_store_ne hembed (hne hkey'), hothers key' hother]

/-- In every state that a run from the empty cache reaches: the cache is bounded; a lookup answers
only what was stored for a query similar to its own, within its time to live, and no unexpired entry
is more similar; and as long as fewer than `2 ^ 64` ids have been taken, a store changes no entry,
and takes an unexpired one only from a full cache without expired entries, only that one, and none
with more hits than another. -/
theorem semantic_cache_bounded_fresh_lfu {maxEntries defaultTtl now : ℕ} {threshold : ℚ}
    (run : Run (SemanticStep model) ⟨.new maxEntries defaultTtl threshold, now⟩ steps s) :
    s.cache.len ≤ max 1 maxEntries ∧
    (∀ query response s', SemanticStep model s (.lookup query (some response)) s' →
      ∃ t ∈ steps, ∃ stored x y, t.label = .store stored response ∧
        model.embed query = some x ∧ model.embed stored = some y ∧
        0 < model.similarity x y ∧ threshold ≤ model.similarity x y ∧
        s.now ≤ t.pre.now + defaultTtl ∧
        ∀ key e, s.cache.entries.lookup key = some e → e.isExpired s.now = false →
          model.similarity x e.embedding ≤ model.similarity x y) ∧
    (idsTaken model steps < 2 ^ 64 →
      ∀ query response s', SemanticStep model s (.store query response) s' →
        ∀ key e, s.cache.entries.lookup key = some e →
          s'.cache.entries.lookup key = some e ∨
            s'.cache.entries.lookup key = none ∧
              (e.isExpired s.now = false → maxEntries ≤ s.cache.len ∧
                (∀ key' e', s.cache.entries.lookup key' = some e' →
                  e'.isExpired s.now = false ∧ e.hits ≤ e'.hits) ∧
                ∀ key' ∈ s.cache.entries, key' ≠ key →
                  s'.cache.entries.lookup key' = s.cache.entries.lookup key')) := by
  have hs := semanticTracks_of_run run
  refine ⟨hs.bound, ?_, ?_⟩
  · intro query response s' h
    exact hs.answered h.lookup_answer
  · intro hids query response s' h key e hlookup
    cases h
    exact hs.kept_of_store hids query response hlookup

end

end

/-! ### A cache of one entry -/

def smallSemantic : SemanticState (ℚ × ℚ) ℕ := ⟨.new 1 100 (9 / 10), 0⟩

def filledSemantic : SemanticState (ℚ × ℚ) ℕ :=
  { smallSemantic with
    cache := smallSemantic.cache.store unitVectors 0 "What is the capital of France?".toList 7 }

theorem semantic_cache_of_one :
    filledSemantic.cache.len ≤ max 1 1 ∧
      (filledSemantic.cache.lookup unitVectors 0 "Name the capital of France.".toList).1 = some 7 ∧
      (∃ t ∈ [(⟨smallSemantic, .store "What is the capital of France?".toList 7,
          filledSemantic⟩ : Transition (SemanticState (ℚ × ℚ) ℕ) (SemanticOp ℕ))],
        ∃ stored, t.label = .store stored 7) ∧
      (filledSemantic.cache.store unitVectors 0
          "Name the capital of France.".toList 8).entries.lookup 0 = none ∧
      1 ≤ filledSemantic.cache.len := by
  have run : Run (SemanticStep unitVectors) smallSemantic
      [⟨smallSemantic, .store "What is the capital of France?".toList 7, filledSemantic⟩]
      filledSemantic := .snoc .nil (.store smallSemantic _ 7)
  obtain ⟨hlen, hlookup, hstore⟩ := semantic_cache_bounded_fresh_lfu run
  have hanswer : (filledSemantic.cache.lookup unitVectors 0
      "Name the capital of France.".toList).1 = some 7 := by decide +kernel
  have hgone : (filledSemantic.cache.store unitVectors 0
      "Name the capital of France.".toList 8).entries.lookup 0 = none := by decide +kernel
  have hasks : SemanticStep unitVectors filledSemantic
      (.lookup "Name the capital of France.".toList
        (filledSemantic.cache.lookup unitVectors 0 "Name the capital of France.".toList).1) _ :=
    .lookup filledSemantic _
  rw [hanswer] at hasks
  obtain ⟨t, ht, stored, -, -, hlabel, -⟩ := hlookup _ 7 _ hasks
  have hheld : filledSemantic.cache.entries.lookup 0 = some ⟨(1, 0), 7, 0, 0, 100⟩ := rfl
  have hids : idsTaken unitVectors
      [⟨smallSemantic, .store "What is the capital of France?".toList 7, filledSemantic⟩] <
        2 ^ 64 := by decide +kernel
  have hstep := hstore hids "Name the capital of France.".toList 8 _ (.store filledSemantic _ 8) 0 _
    hheld
  rcases hstep with hkept | ⟨-, htaken⟩
  · cases hgone.symm.trans hkept
  · exact ⟨hlen, hanswer, ⟨t, ht, stored, hlabel⟩, hgone, (htaken rfl).1⟩

end NeuRust.Cache
