import NeuRust.Cache.CacheKey
import NeuRust.Cache.SemanticCache
import NeuRust.Cache.Warming

/-!
The tiered cache: a lookup under the hash of the request first, then a search for similar queries
if that tier is enabled. A response found by similarity is copied to the exact tier under the hash
of the new request.
-/

namespace NeuRust.Cache

structure TieredCache (κ ε ρ : Type*) where
  exact : ExactCache κ ρ
  semantic : Option (SemanticCache ε ρ)
  warmer : Option CacheWarmer

namespace TieredCache

variable {κ ε ρ : Type*} [DecidableEq κ]

def lookupSemantic (model : EmbeddingModel ε) (now : ℕ) (hash : κ) (query : Str)
    (cache : TieredCache κ ε ρ) : Option ρ × TieredCache κ ε ρ :=
  match cache.semantic with
  | none => (none, cache)
  | some semantic =>
      match semantic.lookup model now query with
      | (some response, semantic) =>
          (some response,
            { cache with
              exact := cache.exact.insert now hash response
              semantic := some semantic })
      | (none, semantic) => (none, { cache with semantic := some semantic })

def lookup (hasher : List UInt8 → κ) (model : EmbeddingModel ε) (now : ℕ)
    (request : UnifiedRequest) (cache : TieredCache κ ε ρ) : Option ρ × TieredCache κ ε ρ :=
  let hash := computeCacheKey hasher request
  match cache.exact.get now hash with
  | (some response, exact) => (some response, { cache with exact := exact })
  | (none, exact) =>
      { cache with exact := exact }.lookupSemantic model now hash request.lastUserMessage

def store (hasher : List UInt8 → κ) (model : EmbeddingModel ε) (now : ℕ)
    (request : UnifiedRequest) (response : ρ) (cache : TieredCache κ ε ρ) : TieredCache κ ε ρ :=
  { cache with
    exact := cache.exact.insert now (computeCacheKey hasher request) response
    semantic := cache.semantic.map (·.store model now request.lastUserMessage response) }

def warm (now : ℕ) (file : DumpFile κ ρ) (cache : TieredCache κ ε ρ) :
    Option ℕ × TieredCache κ ε ρ :=
  match cache.warmer with
  | none => (some 0, cache)
  | some warmer =>
      let result := warmer.warm now file cache.exact
      (result.1, { cache with exact := result.2 })

def dumpOnce (now : ℕ) (written : Bool) (cache : TieredCache κ ε ρ) (file : DumpFile κ ρ) :
    DumpFile κ ρ :=
  match cache.warmer with
  | none => file
  | some warmer => (warmer.dumpOnce now written cache.exact file).2

/-- The longest time to live that a store gives a response. -/
def ttlInForce (cache : TieredCache κ ε ρ) : ℕ :=
  cache.semantic.elim cache.exact.defaultTtl fun semantic =>
    max cache.exact.defaultTtl semantic.defaultTtl

/-- The exact tier has an unexpired entry for the request. -/
def ExactEntry (hasher : List UInt8 → κ) (now : ℕ) (request : UnifiedRequest)
    (cache : TieredCache κ ε ρ) (entry : CacheEntry ρ) : Prop :=
  cache.exact.map.lookup (computeCacheKey hasher request) = some entry ∧
    entry.isExpired now = false

/-- The exact tier has no answer, and the semantic tier may answer with the entry. -/
def SemanticAnswer (hasher : List UInt8 → κ) (model : EmbeddingModel ε) (now : ℕ)
    (request : UnifiedRequest) (cache : TieredCache κ ε ρ) (entry : SemanticEntry ε ρ) : Prop :=
  (∀ e, ¬ cache.ExactEntry hasher now request e) ∧
    ∃ semantic, cache.semantic = some semantic ∧
      semantic.IsCandidate model now request.lastUserMessage entry

variable {hasher : List UInt8 → κ} {model : EmbeddingModel ε} {now : ℕ} {request : UnifiedRequest}
  {cache : TieredCache κ ε ρ}

omit [DecidableEq κ] in
theorem defaultTtl_le_ttlInForce : cache.exact.defaultTtl ≤ cache.ttlInForce := by
  rw [ttlInForce]
  cases cache.semantic with
  | none => exact le_rfl
  | some semantic => exact le_max_left _ _

omit [DecidableEq κ] in
theorem semanticTtl_le_ttlInForce {semantic : SemanticCache ε ρ}
    (h : cache.semantic = some semantic) : semantic.defaultTtl ≤ cache.ttlInForce := by
  rw [ttlInForce, h]
  exact le_max_right _ _

theorem warm_semantic {file : DumpFile κ ρ} :
    (cache.warm now file).2.semantic = cache.semantic := by
  rw [warm]
  split <;> rfl

theorem lookup_of_warm {file : DumpFile κ ρ} {k : κ} {e : CacheEntry ρ}
    (h : (cache.warm now file).2.exact.map.lookup k = some e) :
    (∃ warmer d, cache.warmer = some warmer ∧ d ∈ warmer.loaded file ∧
        e = ⟨d.response, d.hitCount, now, cache.exact.defaultTtl⟩) ∨
      cache.exact.map.lookup k = some e := by
  rw [warm] at h
  split at h
  next => exact .inr h
  next warmer hwarmer =>
    dsimp only at h
    rw [CacheWarmer.warm_eq] at h
    rcases CacheWarmer.lookup_of_load h with ⟨d, hd, -, he⟩ | hold
    · exact .inl ⟨warmer, d, hwarmer, hd, he⟩
    · exact .inr hold

theorem mem_of_dumpOnce {written : Bool} {file : DumpFile κ ρ}
    {dump : List (CacheDumpEntry κ ρ)} (h : cache.dumpOnce now written file = .entries dump) :
    file = .entries dump ∨ ∀ d ∈ dump, ∃ e, cache.exact.map.lookup d.hash = some e ∧
      e.isExpired now = false ∧ d.response = e.response := by
  rw [dumpOnce] at h
  split at h
  next => exact .inl h
  next => exact CacheWarmer.mem_of_dumpOnce h

/-- What a lookup answers, and what it leaves behind. -/
inductive Lookup (hasher : List UInt8 → κ) (model : EmbeddingModel ε) (now : ℕ)
    (request : UnifiedRequest) (cache : TieredCache κ ε ρ) :
    Option ρ × TieredCache κ ε ρ → Prop
  | exact (entry : CacheEntry ρ) (h : cache.ExactEntry hasher now request entry) :
      Lookup hasher model now request cache (some entry.response,
        { cache with exact := (cache.exact.get now (computeCacheKey hasher request)).2 })
  | semantic (semantic : SemanticCache ε ρ) (entry : SemanticEntry ε ρ)
      (hsemantic : cache.semantic = some semantic)
      (h : cache.SemanticAnswer hasher model now request entry) :
      Lookup hasher model now request cache (some entry.response,
        { cache with
          exact := (cache.exact.get now (computeCacheKey hasher request)).2.insert now
            (computeCacheKey hasher request) entry.response
          semantic := some (semantic.lookup model now request.lastUserMessage).2 })
  | miss (semantic : Option (SemanticCache ε ρ)) (h : ∀ e, ¬ cache.ExactEntry hasher now request e)
      (hsemantic : semantic = cache.semantic.map fun semantic =>
        (semantic.lookup model now request.lastUserMessage).2) :
      Lookup hasher model now request cache (none,
        { cache with
          exact := (cache.exact.get now (computeCacheKey hasher request)).2
          semantic := semantic })

theorem lookup_spec (hasher : List UInt8 → κ) (model : EmbeddingModel ε) (now : ℕ)
    (request : UnifiedRequest) (cache : TieredCache κ ε ρ) :
    Lookup hasher model now request cache (cache.lookup hasher model now request) := by
  rw [lookup]
  split
  next response left hget =>
    obtain ⟨entry, hlookup, hfresh, rfl⟩ := ExactCache.get_eq_some (congrArg Prod.fst hget)
    obtain rfl : (cache.exact.get now (computeCacheKey hasher request)).2 = left :=
      congrArg Prod.snd hget
    exact .exact entry ⟨hlookup, hfresh⟩
  next left hget =>
    have hmiss : ∀ e, ¬ cache.ExactEntry hasher now request e :=
      ExactCache.get_eq_none_iff.mp (congrArg Prod.fst hget)
    obtain rfl : (cache.exact.get now (computeCacheKey hasher request)).2 = left :=
      congrArg Prod.snd hget
    rw [lookupSemantic]
    split
    next hsemantic =>
      apply Lookup.miss cache.semantic hmiss
      rw [show cache.semantic = none from hsemantic]
      rfl
    next semantic hsemantic =>
      split
      next response found hfound =>
        obtain ⟨entry, hcandidate, rfl⟩ :=
          SemanticCache.candidate_of_lookup (congrArg Prod.fst hfound)
        obtain rfl : (semantic.lookup model now request.lastUserMessage).2 = found :=
          congrArg Prod.snd hfound
        exact .semantic semantic entry hsemantic ⟨hmiss, semantic, hsemantic, hcandidate⟩
      next found hfound =>
        apply Lookup.miss (some found) hmiss
        rw [show cache.semantic = some semantic from hsemantic, Option.map_some, hfound]

end TieredCache

end NeuRust.Cache
