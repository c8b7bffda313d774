import NeuRust.Machine.Table
import NeuRust.Text.Utf8
import Mathlib.Algebra.Order.Ring.Rat

/-!
The semantic cache: the entries are searched one by one for the one whose embedding is most similar
to that of the query. The embedding model and the similarity are parameters; the scores are
rational numbers, as every finite `f32` is one.
-/

namespace NeuRust.Cache

structure SemanticEntry (ε ρ : Type*) where
  embedding : ε
  response : ρ
  hitCount : UInt64
  createdAt : ℕ
  ttl : ℕ

namespace SemanticEntry

variable {ε ρ : Type*}

def isExpired (now : ℕ) (entry : SemanticEntry ε ρ) : Bool :=
  decide (entry.ttl < now - entry.createdAt)

def hits (entry : SemanticEntry ε ρ) : ℕ := entry.hitCount.toNat

/-- `fetch_add` on the hit counter, which wraps around. -/
def hit (entry : SemanticEntry ε ρ) : SemanticEntry ε ρ :=
  { entry with hitCount := entry.hitCount + 1 }

theorem not_isExpired_iff {now : ℕ} {entry : SemanticEntry ε ρ} :
    entry.isExpired now = false ↔ now - entry.createdAt ≤ entry.ttl := by
  rw [isExpired, decide_eq_false_iff_not, not_lt]

end SemanticEntry

/-- The model that embeds a text, which can fail, and the similarity of two embeddings. -/
structure EmbeddingModel (ε : Type*) where
  embed : Str → Option ε
  similarity : ε → ε → ℚ

structure SemanticCache (ε ρ : Type*) where
  entries : Table UInt64 (SemanticEntry ε ρ)
  similarityThreshold : ℚ
  maxEntries : ℕ
  defaultTtl : ℕ
  nextId : UInt64

/-- The variables of the search loop, and the entries with the hits counted so far. -/
structure Search (ε ρ : Type*) where
  bestScore : ℚ
  bestResponse : Option ρ
  expiredKeys : List UInt64
  entries : Table UInt64 (SemanticEntry ε ρ)

namespace SemanticCache

variable {ε ρ : Type*}

def new (maxEntries defaultTtl : ℕ) (similarityThreshold : ℚ) : SemanticCache ε ρ :=
  ⟨∅, similarityThreshold, maxEntries, defaultTtl, 0⟩

def searchStep (similarity : ε → ε → ℚ) (now : ℕ) (threshold : ℚ) (query : ε)
    (acc : Search ε ρ) (entry : Σ _ : UInt64, SemanticEntry ε ρ) : Search ε ρ :=
  if entry.2.isExpired now then { acc with expiredKeys := acc.expiredKeys ++ [entry.1] }
  else
    let score := similarity query entry.2.embedding
    if acc.bestScore < score ∧ threshold ≤ score then
      { acc with
        bestScore := score
        bestResponse := some entry.2.response
        entries := acc.entries.replace entry.1 entry.2.hit }
    else acc

def search (similarity : ε → ε → ℚ) (now : ℕ) (query : ε) (cache : SemanticCache ε ρ) :
    Search ε ρ :=
  cache.entries.entries.foldl (searchStep similarity now cache.similarityThreshold query)
    ⟨0, none, [], cache.entries⟩

/-- The response of the most similar entry, unless it is not similar enough. The expired entries
are removed. -/
def lookup (model : EmbeddingModel ε) (now : ℕ) (query : Str) (cache : SemanticCache ε ρ) :
    Option ρ × SemanticCache ε ρ :=
  match model.embed query with
  | none => (none, cache)
  | some query =>
      let found := cache.search model.similarity now query
      (found.bestResponse, { cache with entries := found.entries.eraseAll found.expiredKeys })

def expiredKeys (now : ℕ) (entries : Table UInt64 (SemanticEntry ε ρ)) : List UInt64 :=
  (entries.entries.filter fun entry => entry.2.isExpired now).map Sigma.fst

def evictIfNeeded (now : ℕ) (cache : SemanticCache ε ρ) : SemanticCache ε ρ :=
  if cache.entries.size < cache.maxEntries then cache
  else
    let entries := cache.entries.eraseAll (expiredKeys now cache.entries)
    if entries.size < cache.maxEntries then { cache with entries := entries }
    else
      match entries.minKey SemanticEntry.hits with
      | some victim => { cache with entries := entries.erase victim }
      | none => { cache with entries := entries }

def store (model : EmbeddingModel ε) (now : ℕ) (query : Str) (response : ρ)
    (cache : SemanticCache ε ρ) : SemanticCache ε ρ :=
  match model.embed query with
  | none => cache
  | some embedding =>
      let cache := cache.evictIfNeeded now
      { cache with
        entries := cache.entries.insert cache.nextId
          ⟨embedding, response, 0, now, cache.defaultTtl⟩
        nextId := cache.nextId + 1 }

def len (cache : SemanticCache ε ρ) : ℕ := cache.entries.size

/-! ### What the search finds -/

/-- The entry is one that a search for the query can return: unexpired, similar enough, and as
similar as any unexpired entry. -/
structure BestMatch (similarity : ε → ε → ℚ) (now : ℕ) (threshold : ℚ) (query : ε)
    (entries : List (Σ _ : UInt64, SemanticEntry ε ρ)) (entry : SemanticEntry ε ρ) : Prop where
  mem : ∃ key, ⟨key, entry⟩ ∈ entries
  fresh : entry.isExpired now = false
  pos : 0 < similarity query entry.embedding
  similar : threshold ≤ similarity query entry.embedding
  best : ∀ key e, ⟨key, e⟩ ∈ entries → e.isExpired now = false →
    similarity query e.embedding ≤ similarity query entry.embedding

structure SameContent (e e₀ : SemanticEntry ε ρ) : Prop where
  embedding : e.embedding = e₀.embedding
  response : e.response = e₀.response
  createdAt : e.createdAt = e₀.createdAt
  ttl : e.ttl = e₀.ttl

theorem SameContent.refl (e : SemanticEntry ε ρ) : SameContent e e := ⟨rfl, rfl, rfl, rfl⟩

section Search

variable {similarity : ε → ε → ℚ} {now : ℕ} {threshold : ℚ} {query : ε}

/-- After the loop has seen some entries: no score that it would take is above the best one, and
the best one is that of the entry whose response it holds. -/
structure Searched (similarity : ε → ε → ℚ) (now : ℕ) (threshold : ℚ) (query : ε)
    (seen : List (Σ _ : UInt64, SemanticEntry ε ρ)) (acc : Search ε ρ) : Prop where
  nonneg : 0 ≤ acc.bestScore
  best : ∀ key e, ⟨key, e⟩ ∈ seen → e.isExpired now = false →
    threshold ≤ similarity query e.embedding → similarity query e.embedding ≤ acc.bestScore
  none_zero : acc.bestResponse = none → acc.bestScore = 0
  found : ∀ x, acc.bestResponse = some x → ∃ key e, ⟨key, e⟩ ∈ seen ∧ e.isExpired now = false ∧
    0 < acc.bestScore ∧ threshold ≤ acc.bestScore ∧
    similarity query e.embedding = acc.bestScore ∧ e.response = x
  expired : ∀ key, key ∈ acc.expiredKeys ↔ ∃ e, ⟨key, e⟩ ∈ seen ∧ e.isExpired now = true

theorem Searched.start (entries : Table UInt64 (SemanticEntry ε ρ)) :
    Searched similarity now threshold query [] ⟨0, none, [], entries⟩ where
  nonneg := le_rfl
  best := by
    intro key e hmem
    cases hmem
  none_zero := fun _ => rfl
  found := by
    intro x hx
    cases hx
  expired := by
    intro key
    constructor
    · intro hmem
      cases hmem
    · rintro ⟨e, hmem, -⟩
      cases hmem

section Step

variable {seen : List (Σ _ : UInt64, SemanticEntry ε ρ)} {acc : Search ε ρ}
  {entry : Σ _ : UInt64, SemanticEntry ε ρ}

theorem mem_snoc {key : UInt64} {e : SemanticEntry ε ρ} :
    ⟨key, e⟩ ∈ seen ++ [entry] ↔ ⟨key, e⟩ ∈ seen ∨ ⟨key, e⟩ = entry := by
  rw [List.mem_append, List.mem_singleton]

theorem Searched.found_snoc (h : Searched similarity now threshold query seen acc) (x : ρ)
    (hx : acc.bestResponse = some x) : ∃ key e, ⟨key, e⟩ ∈ seen ++ [entry] ∧
      e.isExpired now = false ∧ 0 < acc.bestScore ∧ threshold ≤ acc.bestScore ∧
      similarity query e.embedding = acc.bestScore ∧ e.response = x := by
  obtain ⟨key, e, hseen, hrest⟩ := h.found x hx
  exact ⟨key, e, mem_snoc.mpr (.inl hseen), hrest⟩

theorem Searched.expired_snoc (h : Searched similarity now threshold query seen acc)
    (hfresh : entry.2.isExpired now = false) (key : UInt64) :
    key ∈ acc.expiredKeys ↔ ∃ e, ⟨key, e⟩ ∈ seen ++ [entry] ∧ e.isExpired now = true := by
  rw [h.expired]
  constructor
  · rintro ⟨e, hseen, he⟩
    exact ⟨e, mem_snoc.mpr (.inl hseen), he⟩
  · rintro ⟨e, he, hexpired⟩
    rcases mem_snoc.mp he with hseen | rfl
    · exact ⟨e, hseen, hexpired⟩
    · rw [hfresh] at hexpired
      cases hexpired

theorem Searched.skip (h : Searched similarity now threshold query seen acc)
    (hexpired : entry.2.isExpired now = true) :
    Searched similarity now threshold query (seen ++ [entry])
      { acc with expiredKeys := acc.expiredKeys ++ [entry.1] } where
  nonneg := h.nonneg
  best := by
    intro key e he hfresh hsimilar
    rcases mem_snoc.mp he with hseen | rfl
    · exact h.best key e hseen hfresh hsimilar
    · rw [hexpired] at hfresh
      cases hfresh
  none_zero := h.none_zero
  found := h.found_snoc
  expired := by
    intro key
    show key ∈ acc.expiredKeys ++ [entry.1] ↔ _
    rw [List.mem_append, List.mem_singleton, h.expired]
    constructor
    · rintro (⟨e, hseen, he⟩ | rfl)
      · exact ⟨e, mem_snoc.mpr (.inl hseen), he⟩
      · exact ⟨entry.2, mem_snoc.mpr (.inr rfl), hexpired⟩
    · rintro ⟨e, he, hexp⟩
      rcases mem_snoc.mp he with hseen | rfl
      · exact .inl ⟨e, hseen, hexp⟩
      · exact .inr rfl

theorem Searched.improve (h : Searched similarity now threshold query seen acc)
    (hfresh : entry.2.isExpired now = false)
    (hbetter : acc.bestScore < similarity query entry.2.embedding)
    (hsimilar : threshold ≤ similarity query entry.2.embedding)
    (entries : Table UInt64 (SemanticEntry ε ρ)) :
    Searched similarity now threshold query (seen ++ [entry])
      { acc with
        bestScore := similarity query entry.2.embedding
        bestResponse := some entry.2.response
        entries := entries } where
  nonneg := h.nonneg.trans hbetter.le
  best := by
    intro key e he hfresh' hsimilar'
    rcases mem_snoc.mp he with hseen | rfl
    · exact (h.best key e hseen hfresh' hsimilar').trans hbetter.le
    · exact le_rfl
  none_zero := nofun
  found := by
    intro x hx
    exact ⟨entry.1, entry.2, mem_snoc.mpr (.inr rfl), hfresh, h.nonneg.trans_lt hbetter, hsimilar,
      rfl, Option.some.inj hx⟩
  expired := h.expired_snoc hfresh

theorem Searched.keep (h : Searched similarity now threshold query seen acc)
    (hfresh : entry.2.isExpired now = false)
    (hworse : ¬ (acc.bestScore < similarity query entry.2.embedding ∧
      threshold ≤ similarity query entry.2.embedding)) :
    Searched similarity now threshold query (seen ++ [entry]) acc where
  nonneg := h.nonneg
  best := by
    intro key e he hfresh' hsimilar
    rcases mem_snoc.mp he with hseen | rfl
    · exact h.best key e hseen hfresh' hsimilar
    · exact not_lt.mp fun hlt => hworse ⟨hlt, hsimilar⟩
  none_zero := h.none_zero
  found := h.found_snoc
  expired := h.expired_snoc hfresh

theorem Searched.step (h : Searched similarity now threshold query seen acc) :
    Searched similarity now threshold query (seen ++ [entry])
      (searchStep similarity now threshold query acc entry) := by
  rw [searchStep]
  split
  next hexpired => exact h.skip hexpired
  next hfresh =>
    have hfresh' : entry.2.isExpired now = false := Bool.eq_false_iff.mpr hfresh
    dsimp only
    split
    next hbetter => exact h.improve hfresh' hbetter.1 hbetter.2 _
    next hworse => exact h.keep hfresh' hworse

end Step

theorem searched_foldl {seen entries : List (Σ _ : UInt64, SemanticEntry ε ρ)} {acc : Search ε ρ}
    (h : Searched similarity now threshold query seen acc) :
    Searched similarity now threshold query (seen ++ entries)
      (entries.foldl (searchStep similarity now threshold query) acc) := by
  induction entries generalizing seen acc with
  | nil =>
      rw [List.append_nil]
      exact h
  | cons entry entries ih =>
      rw [← List.singleton_append, ← List.append_assoc]
      exact ih h.step

theorem search_searched (similarity : ε → ε → ℚ) (now : ℕ) (query : ε)
    (cache : SemanticCache ε ρ) :
    Searched similarity now cache.similarityThreshold query cache.entries.entries
      (cache.search similarity now query) :=
  searched_foldl (.start cache.entries)

/-- The search finds the response of a best match. -/
theorem bestMatch_of_search {cache : SemanticCache ε ρ} {x : ρ}
    (h : (cache.search similarity now query).bestResponse = some x) :
    ∃ entry, BestMatch similarity now cache.similarityThreshold query cache.entries.entries entry ∧
      entry.response = x := by
  have hsearched := search_searched similarity now query cache
  obtain ⟨key, e, hmem, hfresh, hpos, hsimilar, hscore, hx⟩ := hsearched.found x h
  refine ⟨e, ⟨⟨key, hmem⟩, hfresh, hscore ▸ hpos, hscore ▸ hsimilar, ?_⟩, hx⟩
  intro key' e' hmem' hfresh'
  rw [hscore]
  rcases le_or_gt cache.similarityThreshold (similarity query e'.embedding) with hle | hlt
  · exact hsearched.best key' e' hmem' hfresh' hle
  · exact hlt.le.trans hsimilar

theorem not_bestMatch_of_search {cache : SemanticCache ε ρ}
    (h : (cache.search similarity now query).bestResponse = none) (entry : SemanticEntry ε ρ) :
    ¬ BestMatch similarity now cache.similarityThreshold query cache.entries.entries entry := by
  intro hbest
  have hsearched := search_searched similarity now query cache
  obtain ⟨key, hmem⟩ := hbest.mem
  have hle := hsearched.best key entry hmem hbest.fresh hbest.similar
  rw [hsearched.none_zero h] at hle
  exact absurd hbest.pos (not_lt.mpr hle)

theorem mem_search {entries : List (Σ _ : UInt64, SemanticEntry ε ρ)} {acc : Search ε ρ}
    {key : UInt64} :
    key ∈ (entries.foldl (searchStep similarity now threshold query) acc).entries ↔
      key ∈ acc.entries := by
  induction entries generalizing acc with
  | nil => exact Iff.rfl
  | cons entry entries ih =>
      rw [List.foldl_cons, ih, searchStep]
      split
      next => exact Iff.rfl
      next =>
        dsimp only
        split
        next => exact AList.mem_replace
        next => exact Iff.rfl

theorem lookup_of_search {entries : List (Σ _ : UInt64, SemanticEntry ε ρ)}
    {original : Table UInt64 (SemanticEntry ε ρ)} {acc : Search ε ρ}
    (hentries : ∀ entry ∈ entries, entry ∈ original.entries)
    (hacc : ∀ key e, acc.entries.lookup key = some e →
      ∃ e₀, original.lookup key = some e₀ ∧ SameContent e e₀) :
    ∀ key e,
      (entries.foldl (searchStep similarity now threshold query) acc).entries.lookup key = some e →
      ∃ e₀, original.lookup key = some e₀ ∧ SameContent e e₀ := by
  induction entries generalizing acc with
  | nil => exact hacc
  | cons entry entries ih =>
      apply ih (fun e he => hentries e (List.mem_cons_of_mem entry he))
      intro key e h
      have horiginal : original.lookup entry.1 = some entry.2 :=
        AList.mem_entries_iff.mp (hentries entry List.mem_cons_self)
      rw [searchStep] at h
      split at h
      next => exact hacc key e h
      next =>
        dsimp only at h
        split at h
        next =>
          by_cases hkey : key = entry.1
          · subst hkey
            rw [AList.lookup_replace, if_pos rfl] at h
            obtain ⟨-, -, rfl⟩ := Option.map_eq_some_iff.mp h
            exact ⟨entry.2, horiginal, rfl, rfl, rfl, rfl⟩
          · rw [AList.lookup_replace_ne _ hkey] at h
            exact hacc key e h
        next => exact hacc key e h

end Search

/-! ### The operations -/

variable {model : EmbeddingModel ε} {now : ℕ} {query : Str} {cache : SemanticCache ε ρ}

def IsCandidate (model : EmbeddingModel ε) (now : ℕ) (query : Str) (cache : SemanticCache ε ρ)
    (entry : SemanticEntry ε ρ) : Prop :=
  ∃ embedding, model.embed query = some embedding ∧
    BestMatch model.similarity now cache.similarityThreshold embedding cache.entries.entries entry

theorem IsCandidate.exists_lookup {entry : SemanticEntry ε ρ}
    (h : cache.IsCandidate model now query entry) :
    ∃ key, cache.entries.lookup key = some entry := by
  obtain ⟨_, -, hbest⟩ := h
  obtain ⟨key, hmem⟩ := hbest.mem
  exact ⟨key, AList.mem_entries_iff.mp hmem⟩

theorem IsCandidate.isExpired {entry : SemanticEntry ε ρ}
    (h : cache.IsCandidate model now query entry) : entry.isExpired now = false := by
  obtain ⟨_, -, hbest⟩ := h
  exact hbest.fresh

theorem candidate_of_lookup {x : ρ} (h : (cache.lookup model now query).1 = some x) :
    ∃ entry, cache.IsCandidate model now query entry ∧ entry.response = x := by
  rw [lookup] at h
  split at h
  next => cases h
  next embedding hembed =>
    obtain ⟨entry, hbest, hx⟩ := bestMatch_of_search h
    exact ⟨entry, ⟨embedding, hembed, hbest⟩, hx⟩

theorem lookup_of_lookup {key : UInt64} {e : SemanticEntry ε ρ}
    (h : (cache.lookup model now query).2.entries.lookup key = some e) :
    ∃ e₀, cache.entries.lookup key = some e₀ ∧ SameContent e e₀ := by
  rw [lookup] at h
  split at h
  next => exact ⟨e, h, .refl e⟩
  next embedding hembed =>
    refine lookup_of_search (fun _ hentry => hentry) ?_ key e (AList.lookup_of_lookup_eraseAll h).2
    intro key e h
    exact ⟨e, h, .refl e⟩

/-- A lookup misses exactly when no entry is similar enough. -/
theorem lookup_eq_none_iff :
    (cache.lookup model now query).1 = none ↔
      ∀ entry, ¬ cache.IsCandidate model now query entry := by
  constructor
  · rintro h entry ⟨embedding, hembed, hbest⟩
    rw [lookup, hembed] at h
    exact not_bestMatch_of_search h entry hbest
  · intro hnone
    by_contra hsome
    obtain ⟨x, hx⟩ := Option.ne_none_iff_exists'.mp hsome
    obtain ⟨entry, hcandidate, -⟩ := candidate_of_lookup hx
    exact hnone entry hcandidate

/-- A lookup whose query embeds removes the expired entries and no other. -/
theorem mem_lookup_iff {embedding : ε} {key : UInt64}
    (hembed : model.embed query = some embedding) :
    key ∈ (cache.lookup model now query).2.entries ↔
      ∃ e, cache.entries.lookup key = some e ∧ e.isExpired now = false := by
  have hkeys : key ∈ (cache.search model.similarity now embedding).entries ↔ key ∈ cache.entries :=
    mem_search
  have hexpired := (search_searched model.similarity now embedding cache).expired key
  rw [lookup, hembed]
  show key ∈ AList.eraseAll _ _ ↔ _
  rw [AList.mem_eraseAll, hkeys, hexpired]
  constructor
  · rintro ⟨hnot, hmem⟩
    obtain ⟨e, he⟩ := AList.exists_lookup hmem
    refine ⟨e, he, Bool.eq_false_iff.mpr ?_⟩
    intro hexp
    exact hnot ⟨e, AList.mem_entries_iff.mpr he, hexp⟩
  · rintro ⟨e, he, hfresh⟩
    refine ⟨?_, AList.mem_of_lookup he⟩
    rintro ⟨e', he', hexp⟩
    obtain rfl := Option.some.inj (he.symm.trans (AList.mem_entries_iff.mp he'))
    rw [hfresh] at hexp
    cases hexp

/-- Making room changes the entries alone, of which it removes some. -/
theorem exists_evictIfNeeded (now : ℕ) (cache : SemanticCache ε ρ) :
    ∃ entries, cache.evictIfNeeded now = { cache with entries := entries } ∧
      ∀ key e, entries.lookup key = some e → cache.entries.lookup key = some e := by
  rw [evictIfNeeded]
  split
  next => exact ⟨cache.entries, rfl, fun _ _ h => h⟩
  next =>
    dsimp only
    split
    next => exact ⟨_, rfl, fun _ _ h => (AList.lookup_of_lookup_eraseAll h).2⟩
    next =>
      split
      next =>
        refine ⟨_, rfl, fun _ _ h => ?_⟩
        exact (AList.lookup_of_lookup_eraseAll (AList.lookup_of_lookup_erase h)).2
      next => exact ⟨_, rfl, fun _ _ h => (AList.lookup_of_lookup_eraseAll h).2⟩

theorem evictIfNeeded_defaultTtl : (cache.evictIfNeeded now).defaultTtl = cache.defaultTtl := by
  obtain ⟨entries, heq, -⟩ := cache.exists_evictIfNeeded now
  rw [heq]

theorem evictIfNeeded_nextId : (cache.evictIfNeeded now).nextId = cache.nextId := by
  obtain ⟨entries, heq, -⟩ := cache.exists_evictIfNeeded now
  rw [heq]

theorem lookup_of_evictIfNeeded {key : UInt64} {e : SemanticEntry ε ρ}
    (h : (cache.evictIfNeeded now).entries.lookup key = some e) :
    cache.entries.lookup key = some e := by
  obtain ⟨entries, heq, hold⟩ := cache.exists_evictIfNeeded now
  rw [heq] at h
  exact hold key e h

theorem lookup_of_store {response : ρ} {key : UInt64} {e : SemanticEntry ε ρ}
    (h : (cache.store model now query response).entries.lookup key = some e) :
    (model.embed query = some e.embedding ∧ e.response = response ∧ e.createdAt = now ∧
        e.ttl = cache.defaultTtl) ∨ cache.entries.lookup key = some e := by
  rw [store] at h
  split at h
  next => exact .inr h
  next embedding hembed =>
    rcases AList.lookup_insert_cases h with ⟨-, rfl⟩ | ⟨-, hold⟩
    · exact .inl ⟨hembed, rfl, rfl, evictIfNeeded_defaultTtl⟩
    · exact .inr (lookup_of_evictIfNeeded hold)

/-! ### Settings -/

structure SameConfig (cache cache' : SemanticCache ε ρ) : Prop where
  maxEntries : cache.maxEntries = cache'.maxEntries
  defaultTtl : cache.defaultTtl = cache'.defaultTtl
  similarityThreshold : cache.similarityThreshold = cache'.similarityThreshold

theorem SameConfig.refl (cache : SemanticCache ε ρ) : cache.SameConfig cache := ⟨rfl, rfl, rfl⟩

theorem SameConfig.trans {cache₁ cache₂ cache₃ : SemanticCache ε ρ}
    (h : cache₁.SameConfig cache₂) (h' : cache₂.SameConfig cache₃) : cache₁.SameConfig cache₃ :=
  ⟨h.maxEntries.trans h'.maxEntries, h.defaultTtl.trans h'.defaultTtl,
    h.similarityThreshold.trans h'.similarityThreshold⟩

theorem lookup_sameConfig : (cache.lookup model now query).2.SameConfig cache := by
  rw [lookup]
  split <;> exact ⟨rfl, rfl, rfl⟩

theorem lookup_nextId : (cache.lookup model now query).2.nextId = cache.nextId := by
  rw [lookup]
  split <;> rfl

theorem store_sameConfig {response : ρ} :
    (cache.store model now query response).SameConfig cache := by
  obtain ⟨entries, heq, -⟩ := cache.exists_evictIfNeeded now
  rw [store]
  split
  · exact .refl cache
  · rw [heq]
    exact ⟨rfl, rfl, rfl⟩

end SemanticCache

end NeuRust.Cache
