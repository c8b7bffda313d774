import NeuRust.Cache.SemanticCache

/-!
What a semantic lookup answers with a positive threshold: whatever the order of the entries, it
finds one that is most similar to the query, if any is similar enough.
-/

namespace NeuRust.Cache.SemanticCache

variable {ε ρ : Type*} {model : EmbeddingModel ε} {now : ℕ} {query : Str} {embedding : ε}
  {cache : SemanticCache ε ρ}

def HasSimilar (model : EmbeddingModel ε) (now : ℕ) (embedding : ε) (cache : SemanticCache ε ρ) :
    Prop :=
  ∃ key e, cache.entries.lookup key = some e ∧ e.isExpired now = false ∧
    cache.similarityThreshold ≤ model.similarity embedding e.embedding

/-- The response is that of an unexpired entry which no unexpired entry exceeds. -/
def IsMostSimilar (model : EmbeddingModel ε) (now : ℕ) (embedding : ε) (cache : SemanticCache ε ρ)
    (response : ρ) : Prop :=
  ∃ key e, cache.entries.lookup key = some e ∧ e.isExpired now = false ∧ e.response = response ∧
    ∀ key' e', cache.entries.lookup key' = some e' → e'.isExpired now = false →
      model.similarity embedding e'.embedding ≤ model.similarity embedding e.embedding

theorem BestMatch.isMostSimilar {entry : SemanticEntry ε ρ}
    (h : BestMatch model.similarity now cache.similarityThreshold embedding cache.entries.entries
      entry) : cache.IsMostSimilar model now embedding entry.response := by
  obtain ⟨key, hmem⟩ := h.mem
  refine ⟨key, entry, AList.mem_entries_iff.mp hmem, h.fresh, rfl, fun key' e' hlookup' => ?_⟩
  exact h.best key' e' (AList.mem_entries_iff.mpr hlookup')

theorem BestMatch.hasSimilar {entry : SemanticEntry ε ρ}
    (h : BestMatch model.similarity now cache.similarityThreshold embedding cache.entries.entries
      entry) : cache.HasSimilar model now embedding := by
  obtain ⟨key, hmem⟩ := h.mem
  exact ⟨key, entry, AList.mem_entries_iff.mp hmem, h.fresh, h.similar⟩

/-- A search that finds nothing has left its best score at zero, below the threshold. -/
theorem search_isSome_of_hasSimilar (hthreshold : 0 < cache.similarityThreshold)
    (h : cache.HasSimilar model now embedding) :
    ∃ response, (cache.search model.similarity now embedding).bestResponse = some response := by
  obtain ⟨key, e, hlookup, hfresh, hsimilar⟩ := h
  have hsearched := search_searched model.similarity now embedding cache
  apply Option.ne_none_iff_exists'.mp
  intro hnone
  have hbest := hsearched.best key e (AList.mem_entries_iff.mpr hlookup) hfresh hsimilar
  rw [hsearched.none_zero hnone] at hbest
  exact absurd (hthreshold.trans_le hsimilar) hbest.not_gt

theorem lookup_fst (hembed : model.embed query = some embedding) :
    (cache.lookup model now query).1 =
      (cache.search model.similarity now embedding).bestResponse := by
  rw [lookup, hembed]

/-- With a positive threshold a lookup answers exactly if some unexpired entry is similar enough,
with the response of a most similar one, and it removes the expired entries and no other. A query
that does not embed has no similarities, and changes nothing. -/
theorem lookup_most_similar {model : EmbeddingModel ε} {now : ℕ} {query : Str}
    {cache : SemanticCache ε ρ} (hthreshold : 0 < cache.similarityThreshold) :
    (model.embed query = none → cache.lookup model now query = (none, cache)) ∧
      ∀ embedding, model.embed query = some embedding →
        ((∃ response, (cache.lookup model now query).1 = some response) ↔
          cache.HasSimilar model now embedding) ∧
        (∀ response, (cache.lookup model now query).1 = some response →
          cache.IsMostSimilar model now embedding response) ∧
        ∀ key e, cache.entries.lookup key = some e →
          (key ∉ (cache.lookup model now query).2.entries ↔ e.isExpired now = true) := by
  refine ⟨fun hembed => ?_, fun embedding hembed => ⟨?_, fun response h => ?_, ?_⟩⟩
  · rw [lookup, hembed]
  · rw [lookup_fst hembed]
    refine ⟨?_, search_isSome_of_hasSimilar hthreshold⟩
    rintro ⟨response, h⟩
    obtain ⟨entry, hbest, -⟩ := bestMatch_of_search h
    exact hbest.hasSimilar
  · rw [lookup_fst hembed] at h
    obtain ⟨entry, hbest, rfl⟩ := bestMatch_of_search h
    exact hbest.isMostSimilar
  · intro key e hlookup
    rw [mem_lookup_iff hembed]
    simp [hlookup]

def twoEmbeddings : EmbeddingModel Bool where
  embed query := some query.isEmpty
  similarity a b := if a = b then 1 else 0

def oneEmbedding : SemanticCache Bool ℕ :=
  (SemanticCache.new 10 100 1).store twoEmbeddings 0 "What is Lean?".toList 7

theorem lookup_most_similar_oneEmbedding :
    ∃ response, (oneEmbedding.lookup twoEmbeddings 1 "And what is Rust?".toList).1 =
      some response := by
  have hthreshold : 0 < oneEmbedding.similarityThreshold := zero_lt_one' ℚ
  have hembed : twoEmbeddings.embed "And what is Rust?".toList = some false := rfl
  obtain ⟨hfound, -, -⟩ := (lookup_most_similar hthreshold).2 false hembed
  exact hfound.mpr ⟨0, ⟨false, 7, 0, 0, 100⟩, rfl, rfl, le_refl (1 : ℚ)⟩

end NeuRust.Cache.SemanticCache
