import NeuRust.Cache.TieredCache

/-!
Where a tiered cache has its responses from. The exact tier holds them for a key, and the semantic
tier for an embedding. A response that is found by similarity becomes one for the key that was asked
for, but not one for the embedding of what was asked: similarity is not followed twice.
-/

namespace NeuRust.Cache

/-- The embedding of the query is similar enough to the other one, if there is a limit at all. -/
def Resembles {ε : Type*} (model : EmbeddingModel ε) (limit : Option ℚ) (query : Str)
    (embedding : ε) : Prop :=
  ∃ threshold x, limit = some threshold ∧ model.embed query = some x ∧
    0 < model.similarity x embedding ∧ threshold ≤ model.similarity x embedding

namespace TieredCache

variable {κ ε ρ : Type*} [DecidableEq κ]

/-- Everything that the cache holds has a source: in the exact tier one for the key, in the semantic
tier one for the embedding. -/
structure Traced (ofKey : κ → ρ → Prop) (ofEmbedding : ε → ρ → Prop) (limit : Option ℚ)
    (cache : TieredCache κ ε ρ) : Prop where
  limited : cache.semantic.map SemanticCache.similarityThreshold = limit
  exact : ∀ k e, cache.exact.map.lookup k = some e → ofKey k e.response
  semantic : ∀ semantic, cache.semantic = some semantic → ∀ key e,
    semantic.entries.lookup key = some e → ofEmbedding e.embedding e.response

variable {ofKey ofKey' : κ → ρ → Prop} {ofEmbedding ofEmbedding' : ε → ρ → Prop}
  {limit : Option ℚ} {hasher : List UInt8 → κ} {model : EmbeddingModel ε} {now : ℕ}
  {request : UnifiedRequest} {cache : TieredCache κ ε ρ}

theorem Traced.mono (h : cache.Traced ofKey ofEmbedding limit)
    (hkey : ∀ k response, ofKey k response → ofKey' k response)
    (hembedding : ∀ x response, ofEmbedding x response → ofEmbedding' x response) :
    cache.Traced ofKey' ofEmbedding' limit where
  limited := h.limited
  exact := fun k e he => hkey k e.response (h.exact k e he)
  semantic := fun semantic hsemantic key e he =>
    hembedding e.embedding e.response (h.semantic semantic hsemantic key e he)

theorem Traced.exact_of_get (h : cache.Traced ofKey ofEmbedding limit) {hash k : κ}
    {e : CacheEntry ρ} (he : (cache.exact.get now hash).2.map.lookup k = some e) :
    ofKey k e.response := by
  obtain ⟨e₀, he₀, hsame⟩ := ExactCache.lookup_of_lookup_get he
  rw [hsame.response]
  exact h.exact k e₀ he₀

theorem Traced.semantic_of_lookup (h : cache.Traced ofKey ofEmbedding limit) {query : Str}
    {semantic : SemanticCache ε ρ} (hsemantic : cache.semantic = some semantic) {key : UInt64}
    {e : SemanticEntry ε ρ} (he : (semantic.lookup model now query).2.entries.lookup key = some e) :
    ofEmbedding e.embedding e.response := by
  obtain ⟨e₀, he₀, hsame⟩ := SemanticCache.lookup_of_lookup he
  rw [hsame.embedding, hsame.response]
  exact h.semantic semantic hsemantic key e₀ he₀

theorem Traced.of_semanticAnswer (h : cache.Traced ofKey ofEmbedding limit)
    {entry : SemanticEntry ε ρ} (hanswer : cache.SemanticAnswer hasher model now request entry) :
    ∃ y, Resembles model limit request.lastUserMessage y ∧ ofEmbedding y entry.response := by
  obtain ⟨-, semantic, hsemantic, x, hembed, hbest⟩ := hanswer
  obtain ⟨key, hmem⟩ := hbest.mem
  refine ⟨entry.embedding, ⟨semantic.similarityThreshold, x, ?_, hembed, hbest.pos, hbest.similar⟩,
    h.semantic semantic hsemantic key entry (AList.mem_entries_iff.mp hmem)⟩
  rw [← h.limited, hsemantic]
  rfl

/-- A lookup answers what has a source for the key, and keeps the sources, if what the query
resembles is a source for its key. -/
theorem Traced.lookup (h : cache.Traced ofKey ofEmbedding limit)
    (hsimilar : ∀ y response, Resembles model limit request.lastUserMessage y →
      ofEmbedding y response → ofKey (computeCacheKey hasher request) response) :
    (∀ response, (cache.lookup hasher model now request).1 = some response →
        ofKey (computeCacheKey hasher request) response) ∧
      (cache.lookup hasher model now request).2.Traced ofKey ofEmbedding limit := by
  have hlookup := lookup_spec hasher model now request cache
  generalize cache.lookup hasher model now request = result at hlookup ⊢
  cases hlookup with
  | exact entry hentry =>
      refine ⟨?_, h.limited, fun k e he => h.exact_of_get he, h.semantic⟩
      intro response hresponse
      obtain rfl := Option.some.inj hresponse
      exact h.exact _ entry hentry.1
  | semantic semantic entry hsemantic hanswer =>
      obtain ⟨y, hresembles, hsource⟩ := h.of_semanticAnswer hanswer
      have hfound : ofKey (computeCacheKey hasher request) entry.response :=
        hsimilar y entry.response hresembles hsource
      refine ⟨?_, ?_, ?_, ?_⟩
      · intro response hresponse
        obtain rfl := Option.some.inj hresponse
        exact hfound
      · rw [← h.limited, hsemantic, Option.map_some, Option.map_some,
          SemanticCache.lookup_sameConfig.similarityThreshold]
      · intro k e he
        rcases ExactCache.lookup_put_cases he with ⟨rfl, rfl⟩ | ⟨-, hold⟩
        · exact hfound
        · exact h.exact_of_get hold
      · intro left hleft key e he
        obtain rfl := Option.some.inj hleft
        exact h.semantic_of_lookup hsemantic he
  | miss left hnone hleft =>
      refine ⟨?_, ?_, fun k e he => h.exact_of_get he, ?_⟩
      · intro response hresponse
        cases hresponse
      · rw [← h.limited, hleft, Option.map_map]
        exact congrArg (cache.semantic.map ·) (funext fun _ =>
          SemanticCache.lookup_sameConfig.similarityThreshold)
      · intro semantic' hsemantic' key e he
        rw [hleft] at hsemantic'
        obtain ⟨semantic, hsemantic, rfl⟩ := Option.map_eq_some_iff.mp hsemantic'
        exact h.semantic_of_lookup hsemantic he

/-- A store keeps the sources if its response has one for the key and for the embedding. -/
theorem Traced.store {response : ρ} (h : cache.Traced ofKey ofEmbedding limit)
    (hkey : ofKey (computeCacheKey hasher request) response)
    (hembedding : ∀ x, model.embed request.lastUserMessage = some x → ofEmbedding x response) :
    (cache.store hasher model now request response).Traced ofKey ofEmbedding limit where
  limited := by
    rw [← h.limited, TieredCache.store, Option.map_map]
    exact congrArg (cache.semantic.map ·) (funext fun _ =>
      SemanticCache.store_sameConfig.similarityThreshold)
  exact := by
    intro k e he
    rcases ExactCache.lookup_put_cases he with ⟨rfl, rfl⟩ | ⟨-, hold⟩
    · exact hkey
    · exact h.exact k e hold
  semantic := by
    intro semantic' hsemantic' key e he
    obtain ⟨semantic, hsemantic, rfl⟩ := Option.map_eq_some_iff.mp hsemantic'
    rcases SemanticCache.lookup_of_store he with ⟨hembed, rfl, -, -⟩ | hold
    · exact hembedding e.embedding hembed
    · exact h.semantic semantic hsemantic key e hold

end TieredCache

end NeuRust.Cache
