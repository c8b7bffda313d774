import NeuRust.Cache.TieredRuns
import NeuRust.Cache.Tracing

/-!
Whose answer a lookup of the tiered cache returns. The semantic tier compares the last user message
alone, so that it may find a response that was stored for another model or under another system
text; the promotion then puts that response under the hash of the new request. Which requests may
answer each other is decided by their keys and the similarity of their texts.
-/

namespace NeuRust.Cache

/-- The requests are for the same model, under the same system text. -/
structure SameContext (r₁ r₂ : UnifiedRequest) : Prop where
  model : r₁.model.modelName = r₂.model.modelName
  system : r₁.systemMessageText = r₂.systemMessageText

variable {κ ε ρ : Type*} [DecidableEq κ]

/-- A response that is stored for the one request can be found for the other: they have the same
key, or it is similar to a request that is asked and has the key, and is promoted for that one. -/
def Reaches (hasher : List UInt8 → κ) (model : EmbeddingModel ε) (threshold : ℚ)
    (asked : Set UnifiedRequest) (r₀ r : UnifiedRequest) : Prop :=
  computeCacheKey hasher r₀ = computeCacheKey hasher r ∨
    ∃ r₁ ∈ asked, computeCacheKey hasher r₁ = computeCacheKey hasher r ∧
      ∃ x, model.embed r₀.lastUserMessage = some x ∧
        Resembles model (some threshold) r₁.lastUserMessage x

/-- Stores are for requests of the one set, and lookups for requests of the other. -/
def TieredOp.Within (stored asked : Set UnifiedRequest) : TieredOp ρ → Prop
  | .store request _ => request ∈ stored
  | .lookup request _ => request ∈ asked
  | .advance _ | .reorder => True

/-- Every response that a lookup of the run returns was stored before, for a request with the same
model and the same system text. -/
def AnswersInContext (steps : List (Transition (TieredState κ ε ρ) (TieredOp ρ))) : Prop :=
  ∀ t earlier, t :: earlier <:+ steps → ∀ request y, t.label = .lookup request (some y) →
    ∃ t₀ ∈ earlier, t₀.label = .store y.request y.response ∧ SameContext y.request request

variable {hasher : List UInt8 → κ} {model : EmbeddingModel ε}

theorem TieredStep.lookup_answer {s s' : TieredState κ ε ρ} {request : UnifiedRequest}
    {answer : Option (Stored ρ)} (h : TieredStep hasher model s (.lookup request answer) s') :
    (s.cache.lookup hasher model s.now request).1 = answer := by
  cases h
  rfl

theorem stored_before {config : TierConfig} {now : ℕ}
    {steps : List (Transition (TieredState κ ε ρ) (TieredOp ρ))} {s : TieredState κ ε ρ}
    (run : Run (TieredStep hasher model) ⟨config.fresh, now⟩ steps s) {y : Stored ρ}
    (hy : s.Holds y) : ∃ t ∈ steps, t.pre.Stores t.label y := by
  apply run.exists_source (H := TieredState.Holds) _ _ hy
  · exact TieredState.not_holds_fresh config now
  · intro s op s' h y hy
    exact TieredState.holds_origin h hy

/-! ### Where the tiers have their responses from -/

section

variable {config : TierConfig} {now : ℕ} {stored asked : Set UnifiedRequest}
  {steps : List (Transition (TieredState κ ε ρ) (TieredOp ρ))} {s s' : TieredState κ ε ρ}
  {op : TieredOp ρ}

/-- The exact tier holds under a key what reaches the requests with that key, the semantic tier
what was stored for a text that embeds so. -/
def TracedByRequest (hasher : List UInt8 → κ) (model : EmbeddingModel ε) (threshold : ℚ)
    (asked : Set UnifiedRequest) (s : TieredState κ ε ρ) : Prop :=
  s.cache.Traced
    (fun k y => ∀ r, computeCacheKey hasher r = k →
      Reaches hasher model threshold asked y.request r)
    (fun x y => model.embed y.request.lastUserMessage = some x) (some threshold)

theorem tracedByRequest_fresh (config : TierConfig) (now : ℕ) :
    TracedByRequest hasher model config.similarityThreshold asked
      (⟨config.fresh, now⟩ : TieredState κ ε ρ) where
  limited := rfl
  exact := by
    intro k e he
    cases he
  semantic := by
    intro semantic hsemantic key e he
    obtain rfl := Option.some.inj hsemantic
    cases he

theorem TracedByRequest.step {threshold : ℚ}
    (hs : TracedByRequest hasher model threshold asked s) (h : TieredStep hasher model s op s')
    (hop : op.Within stored asked) : TracedByRequest hasher model threshold asked s' := by
  cases h with
  | store request response =>
      apply TieredCache.Traced.store hs
      · exact fun r hkey => .inl hkey.symm
      · exact fun x hembed => hembed
  | lookup request =>
      apply (TieredCache.Traced.lookup hs _).2
      intro x y hresembles hembed r hkey
      exact .inr ⟨request, hop, hkey.symm, x, hembed, hresembles⟩
  | advance => exact hs
  | reorderExact map hperm =>
      exact ⟨hs.limited, fun k e he => hs.exact k e ((AList.lookup_perm hperm k).symm.trans he),
        hs.semantic⟩
  | reorderSemantic semantic entries hsemantic hperm =>
      refine ⟨?_, hs.exact, fun semantic' hsemantic' key e he => ?_⟩
      · rw [← hs.limited, hsemantic]
        rfl
      · obtain rfl := Option.some.inj hsemantic'
        exact hs.semantic semantic hsemantic key e ((AList.lookup_perm hperm key).symm.trans he)

theorem tracedByRequest_of_run
    (run : Run (TieredStep hasher model) ⟨config.fresh, now⟩ steps s)
    (hwithin : ∀ t ∈ steps, t.label.Within stored asked) :
    TracedByRequest hasher model config.similarityThreshold asked s := by
  apply run.invariant_of_forall (P := fun t => t.label.Within stored asked)
    (I := TracedByRequest hasher model config.similarityThreshold asked)
  · exact tracedByRequest_fresh config now
  · exact fun hs h hop => hs.step h hop
  · exact hwithin

/-- What a lookup of a run answers was stored for a request that reaches the one it is for. -/
theorem reaches_of_answer (run : Run (TieredStep hasher model) ⟨config.fresh, now⟩ steps s)
    (hwithin : ∀ t ∈ steps, t.label.Within stored asked) {request : UnifiedRequest}
    (hasked : request ∈ asked) {y : Stored ρ}
    (h : (s.cache.lookup hasher model s.now request).1 = some y) :
    Reaches hasher model config.similarityThreshold asked y.request request := by
  have hs := tracedByRequest_of_run run hwithin
  refine (TieredCache.Traced.lookup hs ?_).1 y h request rfl
  intro x y hresembles hembed r hkey
  exact .inr ⟨request, hasked, hkey.symm, x, hembed, hresembles⟩

end

/-! ### What a lookup finds for sure -/

omit [DecidableEq κ] in
theorem CacheEntry.isExpired_new (y : ρ) (now ttl : ℕ) :
    (⟨y, 0, now, ttl⟩ : CacheEntry ρ).isExpired now = false := by
  rw [CacheEntry.not_isExpired_iff, Nat.sub_self]
  exact Nat.zero_le _

namespace TieredCache

variable {cache : TieredCache κ ε ρ} {now : ℕ} {request r₁ r : UnifiedRequest}

theorem lookup_of_exactEntry {e : CacheEntry ρ} (h : cache.ExactEntry hasher now request e) :
    (cache.lookup hasher model now request).1 = some e.response := by
  have hspec := cache.lookup_spec hasher model now request
  generalize cache.lookup hasher model now request = result at hspec
  cases hspec with
  | exact e' he' =>
      obtain rfl := Option.some.inj (h.1.symm.trans he'.1)
      rfl
  | semantic _ _ _ hanswer => exact absurd h (hanswer.1 e)
  | miss _ hnone => exact absurd h (hnone e)

theorem lookup_of_stored (hkey : computeCacheKey hasher r₁ = computeCacheKey hasher r) (y : ρ) :
    ((cache.store hasher model now r₁ y).lookup hasher model now r).1 = some y := by
  apply lookup_of_exactEntry (e := ⟨y, 0, now, cache.exact.defaultTtl⟩)
  constructor
  · rw [← hkey]
    exact ExactCache.lookup_put_self _ _ _ _
  · exact CacheEntry.isExpired_new _ _ _

theorem lookup_of_answered (hkey : computeCacheKey hasher r₁ = computeCacheKey hasher r) {y : ρ}
    (h : (cache.lookup hasher model now r₁).1 = some y) :
    ((cache.lookup hasher model now r₁).2.lookup hasher model now r).1 = some y := by
  have hspec := cache.lookup_spec hasher model now r₁
  generalize cache.lookup hasher model now r₁ = result at hspec h
  cases hspec with
  | exact e he =>
      obtain rfl := Option.some.inj h
      apply lookup_of_exactEntry (e := e.hit)
      refine ⟨?_, he.2⟩
      rw [← hkey]
      obtain ⟨hnone, -⟩ | ⟨e', he', hexpired, -⟩ | ⟨e', he', -, hget⟩ :=
        cache.exact.get_cases now (computeCacheKey hasher r₁)
      · cases hnone.symm.trans he.1
      · obtain rfl := Option.some.inj (he'.symm.trans he.1)
        cases hexpired.symm.trans he.2
      · obtain rfl := Option.some.inj (he'.symm.trans he.1)
        rw [hget]
        exact AList.lookup_replace_of_mem he.1
  | semantic semantic c hsemantic hc =>
      obtain rfl := Option.some.inj h
      apply lookup_of_exactEntry (e := ⟨c.response, 0, now, _⟩)
      constructor
      · rw [← hkey]
        exact ExactCache.lookup_put_self _ _ _ _
      · exact CacheEntry.isExpired_new _ _ _
  | miss => cases h

theorem semantic_eq_none {semantic : SemanticCache ε ρ} (hsemantic : cache.semantic = some semantic)
    (h : (cache.lookup hasher model now request).1 = none) :
    (semantic.lookup model now request.lastUserMessage).1 = none := by
  rw [lookup] at h
  split at h
  next => cases h
  next exact hget =>
    rw [lookupSemantic] at h
    dsimp only at h
    rw [hsemantic] at h
    dsimp only at h
    split at h
    next => cases h
    next hnone => exact congrArg Prod.fst hnone

end TieredCache

/-- In a semantic tier with one entry, every text that resembles it finds it. -/
theorem SemanticCache.lookup_of_stored {maxEntries ttl now : ℕ} {threshold : ℚ} {text query : Str}
    {x : ε} (y : ρ) (hembed : model.embed text = some x)
    (h : Resembles model (some threshold) query x) :
    (((SemanticCache.new maxEntries ttl threshold).store model now text y).lookup model now
      query).1 ≠ none := by
  obtain ⟨_, q, hlimit, hquery, hpos, hsimilar⟩ := h
  obtain rfl := Option.some.inj hlimit
  intro hnone
  have hbest : BestMatch model.similarity now threshold q
      ((SemanticCache.new maxEntries ttl threshold).store model now text y).entries.entries
      ⟨x, y, 0, now, ttl⟩ := by
    refine ⟨⟨0, ?_⟩, ?_, hpos, hsimilar, ?_⟩
    · rw [AList.mem_entries_iff, store, hembed]
      dsimp only
      rw [evictIfNeeded_nextId, evictIfNeeded_defaultTtl]
      exact AList.lookup_insert _
    · rw [SemanticEntry.not_isExpired_iff, Nat.sub_self]
      exact Nat.zero_le _
    · intro key e hmem _
      rcases lookup_of_store (AList.mem_entries_iff.mp hmem) with ⟨hembed', -⟩ | hold
      · rw [Option.some.inj (hembed'.symm.trans hembed)]
      · cases hold
  have hthreshold : ((SemanticCache.new maxEntries ttl threshold).store model now text
      y).similarityThreshold = threshold := SemanticCache.store_sameConfig.similarityThreshold
  refine lookup_eq_none_iff.mp hnone ⟨x, y, 0, now, ttl⟩ ⟨q, hquery, ?_⟩
  rw [hthreshold]
  exact hbest

/-! ### Exactly the requests that reach each other -/

/-- Whatever a request reaches is answered in some run with what was stored for it. -/
theorem exists_run_of_reaches {config : TierConfig} {stored asked : Set UnifiedRequest}
    {r₀ r : UnifiedRequest} (hstored : r₀ ∈ stored) (hasked : r ∈ asked)
    (h : Reaches hasher model config.similarityThreshold asked r₀ r) (now : ℕ) (response : ρ) :
    ∃ steps : List (Transition (TieredState κ ε ρ) (TieredOp ρ)), ∃ t s,
      Run (TieredStep hasher model) ⟨config.fresh, now⟩ (t :: steps) s ∧
      (∀ t' ∈ t :: steps, t'.label.Within stored asked) ∧
      ∃ y, t.label = .lookup r (some y) ∧ y.request = r₀ := by
  let s₀ : TieredState κ ε ρ := ⟨config.fresh, now⟩
  let y := s₀.stored r₀ response
  let s₁ : TieredState κ ε ρ := { s₀ with cache := s₀.cache.store hasher model now r₀ y }
  have hstore : Run (TieredStep hasher model) s₀ [⟨s₀, .store r₀ response, s₁⟩] s₁ :=
    .snoc .nil (.store s₀ r₀ response)
  rcases h with hkey | ⟨r₁, hr₁, hkey, x, hembed, hresembles⟩
  · have hfound : (s₁.cache.lookup hasher model now r).1 = some y :=
      TieredCache.lookup_of_stored hkey y
    refine ⟨_, _, _, .snoc hstore (.lookup s₁ r), ?_, y, ?_, rfl⟩
    · simp [TieredOp.Within, hstored, hasked]
    · exact congrArg (TieredOp.lookup r) hfound
  · have hsome : (s₁.cache.lookup hasher model now r₁).1 ≠ none := by
      intro hnone
      exact SemanticCache.lookup_of_stored y hembed hresembles
        (TieredCache.semantic_eq_none rfl hnone)
    obtain ⟨y', hy'⟩ := Option.ne_none_iff_exists'.mp hsome
    let s₂ : TieredState κ ε ρ :=
      { s₁ with cache := (s₁.cache.lookup hasher model now r₁).2 }
    have hpromote : TieredStep hasher model s₁
      (.lookup r₁ (s₁.cache.lookup hasher model now r₁).1) s₂ := .lookup s₁ r₁
    rw [hy'] at hpromote
    have hrequest : y'.request = r₀ := by
      obtain ⟨t, ht, hstores, -⟩ := stored_before hstore (TieredState.holds_of_answer hpromote)
      obtain rfl := List.mem_singleton.mp ht
      exact (TieredOp.store.inj hstores).1.symm
    have hfound : (s₂.cache.lookup hasher model now r).1 = some y' :=
      TieredCache.lookup_of_answered hkey hy'
    refine ⟨_, _, _, .snoc (.snoc hstore hpromote) (.lookup s₂ r), ?_, y', ?_, hrequest⟩
    · simp [TieredOp.Within, hstored, hasked, hr₁]
    · exact congrArg (TieredOp.lookup r) hfound

/-- However the calls of runs are made, for requests to be stored and requests to be asked, every
response that a lookup returns was stored for the same model and the same system text exactly when
no request to be stored reaches one to be asked that has another. -/
theorem lookup_answers_in_context_iff [Inhabited ρ] (hasher : List UInt8 → κ)
    (model : EmbeddingModel ε) (config : TierConfig) (stored asked : Set UnifiedRequest) :
    (∀ now, ∀ steps : List (Transition (TieredState κ ε ρ) (TieredOp ρ)), ∀ s,
      Run (TieredStep hasher model) ⟨config.fresh, now⟩ steps s →
        (∀ t ∈ steps, t.label.Within stored asked) → AnswersInContext steps) ↔
    ∀ r₀ ∈ stored, ∀ r ∈ asked, Reaches hasher model config.similarityThreshold asked r₀ r →
      SameContext r₀ r := by
  constructor
  · intro h r₀ hstored r hasked hreaches
    obtain ⟨steps, t, s, run, hwithin, y, hlabel, rfl⟩ :=
      exists_run_of_reaches hstored hasked hreaches 0 (default : ρ)
    obtain ⟨-, -, -, hcontext⟩ := h 0 _ s run hwithin t steps List.suffix_rfl r y hlabel
    exact hcontext
  · intro h now steps s run hwithin t earlier ht request y hlabel
    obtain ⟨hbefore, hstep⟩ := run.before ht
    have hearlier : ∀ t' ∈ earlier, t'.label.Within stored asked := fun t' ht' =>
      hwithin t' (ht.mem (List.mem_cons_of_mem t ht'))
    have hasked : request ∈ asked := by
      have hlookup := hwithin t (ht.mem List.mem_cons_self)
      rw [hlabel] at hlookup
      exact hlookup
    rw [hlabel] at hstep
    obtain ⟨t₀, ht₀, hstores, -⟩ := stored_before hbefore (TieredState.holds_of_answer hstep)
    have hstored : y.request ∈ stored := by
      have hstore := hearlier t₀ ht₀
      rw [hstores] at hstore
      exact hstore
    exact ⟨t₀, ht₀, hstores, h y.request hstored request hasked
      (reaches_of_answer hbefore hearlier hasked hstep.lookup_answer)⟩

/-! ### One greeting, two models -/

/-- A text embeds as itself, and is similar to itself only. -/
def verbatim : EmbeddingModel Str := ⟨some, fun text text' => if text = text' then 1 else 0⟩

def smallTiers : TierConfig := ⟨10, 60, 10, 60, 1 / 2, 10⟩

def greeting (modelName : Str) : UnifiedRequest :=
  ⟨⟨modelName, none⟩, [⟨.user, ['H', 'i']⟩], none, none, false, {}, ∅, by decide⟩

def greetingAgain (modelName : Str) : UnifiedRequest :=
  ⟨⟨modelName, none⟩, [⟨.assistant, ['?']⟩, ⟨.user, ['H', 'i']⟩], none, none, false, {}, ∅,
    by decide⟩

def greeted (start : TieredState (List UInt8) Str Char) : TieredState (List UInt8) Str Char :=
  { start with
    cache := start.cache.store id verbatim start.now (greeting ['g'])
      (start.stored (greeting ['g']) 'a') }

/-- A greeting reaches the same greeting to another model. -/
theorem reaches_greeting : Reaches id verbatim smallTiers.similarityThreshold {greeting ['c']}
    (greeting ['g']) (greeting ['c']) := by
  refine .inr ⟨greeting ['c'], rfl, rfl, ['H', 'i'], by decide, 1 / 2, ['H', 'i'], rfl, by decide,
    ?_⟩
  constructor <;> decide +kernel

/-- A lookup for another model returns the response that was stored for the first one. -/
theorem answer_of_another_model :
    ¬ ∀ (hasher : List UInt8 → List UInt8) (model : EmbeddingModel Str) (config : TierConfig)
        (steps : List (Transition (TieredState (List UInt8) Str Char) (TieredOp Char)))
        (s : TieredState (List UInt8) Str Char), Function.Injective hasher →
      Run (TieredStep hasher model) ⟨config.fresh, 0⟩ steps s → AnswersInContext steps := by
  intro h
  obtain ⟨steps, t, s, run, -, y, hlabel, hrequest⟩ :=
    exists_run_of_reaches (Set.mem_singleton _) (Set.mem_singleton _) reaches_greeting 0 'a'
  have hanswers := h id verbatim smallTiers _ s Function.injective_id run
  obtain ⟨-, -, -, hcontext⟩ := hanswers t steps List.suffix_rfl _ y hlabel
  rw [hrequest] at hcontext
  have hmodel : (greeting ['g']).model.modelName ≠ (greeting ['c']).model.modelName := by decide
  exact hmodel hcontext.model

end NeuRust.Cache
