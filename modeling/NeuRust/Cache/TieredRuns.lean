import NeuRust.Cache.TieredCache
import NeuRust.Machine.Run

/-!
Runs of the tiered cache. The tiers copy responses and never look into them, so that what they hold
may carry a label: the request that the response was stored for, the time of the storing, and the
time to live then in force. A step is one call at one reading of the clock.
-/

namespace NeuRust.Cache

/-- A response as it was first stored. -/
structure Stored (ρ : Type*) where
  response : ρ
  request : UnifiedRequest
  storedAt : ℕ
  ttl : ℕ

/-- The time up to which a stored response may be returned. -/
def Stored.deadline {ρ : Type*} (y : Stored ρ) : ℕ := y.storedAt + y.ttl

structure TieredState (κ ε ρ : Type*) where
  cache : TieredCache κ ε (Stored ρ)
  now : ℕ

structure TierConfig where
  maxEntries : ℕ
  defaultTtl : ℕ
  semanticMaxEntries : ℕ
  semanticTtl : ℕ
  similarityThreshold : ℚ
  maxWarmEntries : ℕ

def TierConfig.fresh {κ ε ρ : Type*} (config : TierConfig) : TieredCache κ ε ρ where
  exact := .new config.maxEntries config.defaultTtl
  semantic := some (.new config.semanticMaxEntries config.semanticTtl config.similarityThreshold)
  warmer := some ⟨config.maxWarmEntries⟩

/-- A call, with what it answers, or what happens between calls. -/
inductive TieredOp (ρ : Type*)
  | store (request : UnifiedRequest) (response : ρ)
  | lookup (request : UnifiedRequest) (answer : Option (Stored ρ))
  | advance (time : ℕ)
  | reorder

section

variable {κ ε ρ : Type*} [DecidableEq κ] (hasher : List UInt8 → κ) (model : EmbeddingModel ε)

def TieredState.stored (s : TieredState κ ε ρ) (request : UnifiedRequest) (response : ρ) :
    Stored ρ :=
  ⟨response, request, s.now, s.cache.ttlInForce⟩

inductive TieredStep : TieredState κ ε ρ → TieredOp ρ → TieredState κ ε ρ → Prop
  | store (s : TieredState κ ε ρ) (request : UnifiedRequest) (response : ρ) :
      TieredStep s (.store request response)
        { s with cache := s.cache.store hasher model s.now request (s.stored request response) }
  | lookup (s : TieredState κ ε ρ) (request : UnifiedRequest) :
      TieredStep s (.lookup request (s.cache.lookup hasher model s.now request).1)
        { s with cache := (s.cache.lookup hasher model s.now request).2 }
  | advance (s : TieredState κ ε ρ) (time : ℕ) :
      TieredStep s (.advance time) { s with now := s.now + time }
  | reorderExact (s : TieredState κ ε ρ) (map : Table κ (CacheEntry (Stored ρ)))
      (h : map.entries.Perm s.cache.exact.map.entries) :
      TieredStep s .reorder
        { s with cache := { s.cache with exact := { s.cache.exact with map := map } } }
  | reorderSemantic (s : TieredState κ ε ρ) (semantic : SemanticCache ε (Stored ρ))
      (entries : Table UInt64 (SemanticEntry ε (Stored ρ)))
      (hsemantic : s.cache.semantic = some semantic)
      (h : entries.entries.Perm semantic.entries.entries) :
      TieredStep s .reorder
        { s with cache := { s.cache with semantic := some { semantic with entries := entries } } }

end

namespace TieredState

variable {κ ε ρ : Type*} [DecidableEq κ] {hasher : List UInt8 → κ} {model : EmbeddingModel ε}
  {s s' : TieredState κ ε ρ} {op : TieredOp ρ}

def HoldsSemantic (s : TieredState κ ε ρ) (e : SemanticEntry ε (Stored ρ)) : Prop :=
  ∃ semantic key, s.cache.semantic = some semantic ∧ semantic.entries.lookup key = some e

def Holds (s : TieredState κ ε ρ) (y : Stored ρ) : Prop :=
  (∃ k e, s.cache.exact.map.lookup k = some e ∧ e.response = y) ∨
    ∃ e, s.HoldsSemantic e ∧ e.response = y

theorem not_holds_fresh (config : TierConfig) (now : ℕ) (y : Stored ρ) :
    ¬ (⟨config.fresh, now⟩ : TieredState κ ε ρ).Holds y := by
  rintro (⟨k, e, hlookup, -⟩ | ⟨e, ⟨semantic, key, hsemantic, hlookup⟩, -⟩)
  · cases hlookup
  · cases hsemantic
    cases hlookup

/-- A response is answered from an unexpired entry of the exact tier, or else from the semantic
tier. -/
theorem answer_origin {request : UnifiedRequest} {y : Stored ρ}
    (h : TieredStep hasher model s (.lookup request (some y)) s') :
    (∃ e, s.cache.ExactEntry hasher s.now request e ∧ e.response = y) ∨
      ∃ e, s.cache.SemanticAnswer hasher model s.now request e ∧ e.response = y := by
  generalize hop : TieredOp.lookup request (some y) = op at h
  cases h with
  | store | advance | reorderExact | reorderSemantic => cases hop
  | lookup request' =>
      obtain ⟨rfl, hanswer⟩ := TieredOp.lookup.inj hop
      have hspec := s.cache.lookup_spec hasher model s.now request
      generalize s.cache.lookup hasher model s.now request = result at hanswer hspec
      cases hspec with
      | exact e he => exact .inl ⟨e, he, (Option.some.inj hanswer).symm⟩
      | semantic _ e _ he => exact .inr ⟨e, he, (Option.some.inj hanswer).symm⟩
      | miss => cases hanswer

/-- The request that a step writes an entry of the exact tier for: it stores a response for it, or
promotes one. -/
def writesFor (hasher : List UInt8 → κ) (s : TieredState κ ε ρ) : TieredOp ρ → Option UnifiedRequest
  | .store request _ => some request
  | .lookup request (some _) =>
      if (s.cache.exact.get s.now (computeCacheKey hasher request)).1.isNone then some request
      else none
  | .lookup _ none | .advance _ | .reorder => none

theorem writesFor_promotion {request : UnifiedRequest} {c : SemanticEntry ε (Stored ρ)}
    (h : s.cache.SemanticAnswer hasher model s.now request c) (y : Stored ρ) :
    s.writesFor hasher (.lookup request (some y)) = some request := by
  have hnone := ExactCache.get_eq_none_iff.mpr h.1
  rw [writesFor, hnone]
  rfl

theorem writesFor_hit {request : UnifiedRequest} {e : CacheEntry (Stored ρ)}
    (h : s.cache.ExactEntry hasher s.now request e) (y : Stored ρ) :
    s.writesFor hasher (.lookup request (some y)) = none := by
  rw [writesFor, if_neg]
  intro hnone
  exact ExactCache.get_eq_none_iff.mp (Option.isNone_iff_eq_none.mp hnone) e h

theorem not_writes {k : κ} (h : s.writesFor hasher op = none) (request : UnifiedRequest)
    (hwrites : s.writesFor hasher op = some request) : k ≠ computeCacheKey hasher request := by
  rw [h] at hwrites
  cases hwrites

/-- Where an entry of the exact tier comes from: it was there, up to its hits, and is not
overwritten, or a response was stored, or one was promoted. -/
theorem exact_origin (h : TieredStep hasher model s op s') {k : κ} {e : CacheEntry (Stored ρ)}
    (hlookup : s'.cache.exact.map.lookup k = some e) :
    (∃ e₀, s.cache.exact.map.lookup k = some e₀ ∧ e.SameInsertion e₀ ∧
      ∀ request, s.writesFor hasher op = some request → k ≠ computeCacheKey hasher request) ∨
    (∃ request response, op = .store request response ∧ k = computeCacheKey hasher request ∧
      e = ⟨s.stored request response, 0, s.now, s.cache.exact.defaultTtl⟩) ∨
    (∃ request c, op = .lookup request (some c.response) ∧
      s.cache.SemanticAnswer hasher model s.now request c ∧ k = computeCacheKey hasher request ∧
      e = ⟨c.response, 0, s.now, s.cache.exact.defaultTtl⟩) := by
  cases h with
  | store request response =>
      rcases ExactCache.lookup_put_cases hlookup with ⟨rfl, rfl⟩ | ⟨hk, hold⟩
      · exact .inr (.inl ⟨request, response, rfl, rfl, rfl⟩)
      · refine .inl ⟨e, hold, .refl e, ?_⟩
        intro request' hwrites
        obtain rfl := Option.some.inj hwrites
        exact hk
  | lookup request =>
      have hspec := s.cache.lookup_spec hasher model s.now request
      generalize s.cache.lookup hasher model s.now request = result at hlookup hspec ⊢
      cases hspec with
      | exact entry hentry =>
          obtain ⟨e₀, hold, hsame⟩ := ExactCache.lookup_of_lookup_get hlookup
          refine .inl ⟨e₀, hold, hsame, ?_⟩
          intro request' hwrites
          rw [writesFor_hit hentry] at hwrites
          cases hwrites
      | miss =>
          obtain ⟨e₀, hold, hsame⟩ := ExactCache.lookup_of_lookup_get hlookup
          exact .inl ⟨e₀, hold, hsame, not_writes rfl⟩
      | semantic semantic c hsemantic hc =>
          rcases ExactCache.lookup_put_cases hlookup with ⟨rfl, rfl⟩ | ⟨hk, hold⟩
          · refine .inr (.inr ⟨request, c, rfl, hc, rfl, ?_⟩)
            rw [(s.cache.exact.get_config s.now _).2]
          · obtain ⟨e₀, hold, hsame⟩ := ExactCache.lookup_of_lookup_get hold
            refine .inl ⟨e₀, hold, hsame, ?_⟩
            intro request' hwrites
            rw [writesFor_promotion hc] at hwrites
            obtain rfl := Option.some.inj hwrites
            exact hk
  | advance | reorderSemantic => exact .inl ⟨e, hlookup, .refl e, not_writes rfl⟩
  | reorderExact map hperm =>
      exact .inl ⟨e, (AList.lookup_perm hperm k).symm.trans hlookup, .refl e, not_writes rfl⟩

/-- Where an entry of the semantic tier comes from: it was there, up to its hits, or a response was
stored. -/
theorem semantic_origin (h : TieredStep hasher model s op s') {e : SemanticEntry ε (Stored ρ)}
    (he : s'.HoldsSemantic e) :
    (∃ e₀, s.HoldsSemantic e₀ ∧ SemanticCache.SameContent e e₀) ∨
    (∃ request response semantic, op = .store request response ∧
      s.cache.semantic = some semantic ∧ e.response = s.stored request response ∧
      e.createdAt = s.now ∧ e.ttl = semantic.defaultTtl) := by
  obtain ⟨semantic', key, hsemantic', hlookup⟩ := he
  cases h with
  | store request response =>
      obtain ⟨semantic, hsemantic, rfl⟩ := Option.map_eq_some_iff.mp hsemantic'
      rcases SemanticCache.lookup_of_store hlookup with ⟨-, hresponse, hcreated, httl⟩ | hold
      · exact .inr ⟨request, response, semantic, rfl, hsemantic, hresponse, hcreated, httl⟩
      · exact .inl ⟨e, ⟨semantic, key, hsemantic, hold⟩, .refl e⟩
  | lookup request =>
      left
      have hspec := s.cache.lookup_spec hasher model s.now request
      generalize s.cache.lookup hasher model s.now request = result at hsemantic' hspec
      cases hspec with
      | exact => exact ⟨e, ⟨semantic', key, hsemantic', hlookup⟩, .refl e⟩
      | semantic semantic c hsemantic hc =>
          obtain rfl := Option.some.inj hsemantic'
          obtain ⟨e₀, hold, hsame⟩ := SemanticCache.lookup_of_lookup hlookup
          exact ⟨e₀, ⟨semantic, key, hsemantic, hold⟩, hsame⟩
      | miss semantic hmiss hleft =>
          obtain ⟨semantic₀, hsemantic, rfl⟩ :=
            Option.map_eq_some_iff.mp (hleft.symm.trans hsemantic')
          obtain ⟨e₀, hold, hsame⟩ := SemanticCache.lookup_of_lookup hlookup
          exact ⟨e₀, ⟨semantic₀, key, hsemantic, hold⟩, hsame⟩
  | advance | reorderExact => exact .inl ⟨e, ⟨semantic', key, hsemantic', hlookup⟩, .refl e⟩
  | reorderSemantic semantic entries hsemantic hperm =>
      obtain rfl := Option.some.inj hsemantic'
      have hold := (AList.lookup_perm hperm key).symm.trans hlookup
      exact .inl ⟨e, ⟨semantic, key, hsemantic, hold⟩, .refl e⟩

theorem holds_of_semanticAnswer {now : ℕ} {request : UnifiedRequest}
    {c : SemanticEntry ε (Stored ρ)}
    (h : s.cache.SemanticAnswer hasher model now request c) : s.HoldsSemantic c := by
  obtain ⟨-, semantic, hsemantic, hcandidate⟩ := h
  obtain ⟨key, hlookup⟩ := hcandidate.exists_lookup
  exact ⟨semantic, key, hsemantic, hlookup⟩

def Stores (s : TieredState κ ε ρ) (op : TieredOp ρ) (y : Stored ρ) : Prop :=
  op = .store y.request y.response ∧ y = s.stored y.request y.response

/-- What a tier holds was stored by the step, or held before. -/
theorem holds_origin (h : TieredStep hasher model s op s') {y : Stored ρ} (hy : s'.Holds y) :
    s.Holds y ∨ s.Stores op y := by
  rcases hy with ⟨k, e, hlookup, rfl⟩ | ⟨e, he, rfl⟩
  · rcases exact_origin h hlookup with ⟨e₀, hold, hsame, -⟩ | ⟨request, response, rfl, -, rfl⟩ |
      ⟨request, c, -, hc, -, rfl⟩
    · exact .inl (.inl ⟨k, e₀, hold, hsame.response.symm⟩)
    · exact .inr ⟨rfl, rfl⟩
    · exact .inl (.inr ⟨c, holds_of_semanticAnswer hc, rfl⟩)
  · rcases semantic_origin h he with ⟨e₀, hold, hsame⟩ |
      ⟨request, response, semantic, rfl, -, hresponse, -, -⟩
    · exact .inl (.inr ⟨e₀, hold, hsame.response.symm⟩)
    · rw [hresponse]
      exact .inr ⟨rfl, rfl⟩

theorem holds_of_answer {request : UnifiedRequest} {y : Stored ρ}
    (h : TieredStep hasher model s (.lookup request (some y)) s') : s.Holds y := by
  rcases answer_origin h with ⟨e, he, rfl⟩ | ⟨e, he, rfl⟩
  · exact .inl ⟨_, e, he.1, rfl⟩
  · exact .inr ⟨e, holds_of_semanticAnswer he, rfl⟩

end TieredState

end NeuRust.Cache
