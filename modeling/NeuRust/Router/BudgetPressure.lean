import NeuRust.Machine.WeightedChoice
import NeuRust.Router.CostAuctioneer

/-!
The auction under budget pressure. A low budget multiplies the costs and leaves the rest of the
score alone, so that the candidate it chooses is never dearer.
-/

namespace NeuRust

def UnifiedRequest.withBudgetRatio (ratio : ℚ) (request : UnifiedRequest) : UnifiedRequest :=
  { request with context := { request.context with budgetRemainingRatio := ratio } }

namespace Router

def RawScore.FiniteAttributes (s : RawScore) : Prop :=
  (∃ cost, s.cost = .finite cost) ∧ ∃ latency, s.latencyMs = .finite latency

/-- The order of two finite costs is that of their normalised values, if these are told apart. -/
theorem atMost_of_safeNormalize_le {values : List FloatValue} {lo hi x y : ℚ}
    (hbounds : ∀ x, .finite x ∈ values → lo ≤ x ∧ x ≤ hi)
    (hrescale : ∀ x, safeNormalize (.finite x) values = rescale lo hi x)
    (hx : .finite x ∈ values) (hy : .finite y ∈ values)
    (h : safeNormalize (.finite x) values ≤ safeNormalize (.finite y) values) : x ≤ y := by
  by_contra hlt
  rw [hrescale, hrescale] at h
  exact (rescale_lt (hbounds y hy).1 (not_le.mp hlt) (hbounds x hx).2).not_ge h

namespace CostAuctioneer

variable {auctioneer : CostAuctioneer} {request : UnifiedRequest}

def costNorm (auctioneer : CostAuctioneer) (s : RawScore) : ℚ :=
  safeNormalize s.cost (auctioneer.candidates.map RawScore.cost)

/-- What the score of a candidate has besides its cost. -/
def restOfScore (auctioneer : CostAuctioneer) (context : RequestContext) (s : RawScore) : ℚ :=
  safeNormalize s.latencyMs (auctioneer.candidates.map RawScore.latencyMs) *
      (auctioneer.getContextWeights context).latency +
    (1 - s.quality) * (auctioneer.getContextWeights context).quality

theorem combined_low {low : ℚ} (h : low < 0.2) :
    auctioneer.combined (request.withBudgetRatio low).context =
      fun s =>
        auctioneer.costNorm s * ((auctioneer.getContextWeights request.context).cost * 1.5) +
          auctioneer.restOfScore request.context s := by
  ext s
  have hlow : (request.withBudgetRatio low).context.budgetRemainingRatio < 0.2 := h
  simp only [combined, if_pos hlow, restOfScore, costNorm]
  rw [mul_assoc, add_assoc]
  rfl

theorem combined_high {high : ℚ} (h : 0.2 ≤ high) :
    auctioneer.combined (request.withBudgetRatio high).context =
      fun s =>
        auctioneer.costNorm s * (auctioneer.getContextWeights request.context).cost +
          auctioneer.restOfScore request.context s := by
  ext s
  have hhigh : ¬ (request.withBudgetRatio high).context.budgetRemainingRatio < 0.2 := h.not_gt
  simp only [combined, if_neg hhigh, restOfScore, costNorm]
  rw [mul_one, add_assoc]
  rfl

/-- Of the two choices, that of the heavier weight is not the dearer one. -/
theorem cost_atMost {cheap dear : RawScore} {rest : RawScore → ℚ} {weight : ℚ}
    (hweight : 0 ≤ weight) (hfinite : ∀ s ∈ auctioneer.candidates, s.FiniteAttributes)
    (hcheap : IsFirstLeast (fun s => auctioneer.costNorm s * (weight * 1.5) + rest s)
      auctioneer.candidates cheap)
    (hdear : IsFirstLeast (fun s => auctioneer.costNorm s * weight + rest s)
      auctioneer.candidates dear) : AtMost cheap.cost dear.cost := by
  obtain ⟨⟨x, hx⟩, -⟩ := hfinite cheap hcheap.mem
  obtain ⟨⟨y, hy⟩, -⟩ := hfinite dear hdear.mem
  refine ⟨x, y, hx, hy, ?_⟩
  have hsame (h : cheap = dear) : x ≤ y := by
    rw [h, hy] at hx
    exact (FloatValue.finite.inj hx).ge
  rcases hweight.eq_or_lt with rfl | hpos
  · -- the costs count for nothing
    apply hsame
    rw [zero_mul] at hcheap
    exact hcheap.unique hdear
  rcases safeNormalize_cases (auctioneer.candidates.map RawScore.cost) with
    ⟨-, hhalf⟩ | ⟨lo, hi, hbounds, -, hrescale⟩
  · -- the costs are not told apart
    apply hsame
    refine hcheap.eq_of_same_cost (c := 1 / 2) (fun s hs => ?_) hdear
    obtain ⟨⟨z, hz⟩, -⟩ := hfinite s hs
    rw [costNorm, hz, hhalf]
  · have hmem (s : RawScore) (hs : s ∈ auctioneer.candidates) :
        s.cost ∈ auctioneer.candidates.map RawScore.cost := List.mem_map_of_mem hs
    have hcost := hcheap.cost_le_of_heavier (by linarith) hdear
    rw [costNorm, costNorm, hx, hy] at hcost
    exact atMost_of_safeNormalize_le hbounds hrescale (hx ▸ hmem _ hcheap.mem)
      (hy ▸ hmem _ hdear.mem) hcost

/-- The candidate chosen for a request with a low budget costs at most as much as the one chosen
for the same request with budget left. -/
theorem selectBest_low_budget_cheaper {auctioneer : CostAuctioneer} {request : UnifiedRequest}
    {low high draw draw' : ℚ} (choice choice' : ℚ) (hne : auctioneer.candidates ≠ [])
    (hfinite : ∀ s ∈ auctioneer.candidates, s.FiniteAttributes)
    (hweights : (auctioneer.getContextWeights request.context).Nonneg)
    (hlow : low < 0.2) (hhigh : 0.2 ≤ high)
    (hwarm : auctioneer.config.warmupRequests.getD 100 ≤ auctioneer.bandit.totalObservations)
    (hdraw : auctioneer.config.epsilon.getD 0.1 ≤ draw)
    (hdraw' : auctioneer.config.epsilon.getD 0.1 ≤ draw') :
    ∃ cheap dear,
      auctioneer.selectBest draw choice (request.withBudgetRatio low) =
        .ok (toModelSpec cheap.modelId) ∧
      auctioneer.selectBest draw' choice' (request.withBudgetRatio high) =
        .ok (toModelSpec dear.modelId) ∧
      IsFirstLeast (auctioneer.combined (request.withBudgetRatio low).context)
        auctioneer.candidates cheap ∧
      IsFirstLeast (auctioneer.combined (request.withBudgetRatio high).context)
        auctioneer.candidates dear ∧ AtMost cheap.cost dear.cost := by
  obtain ⟨cheap, hcheap, hleast⟩ :=
    selectBest_firstLeast hne hwarm hdraw choice (request.withBudgetRatio low)
  obtain ⟨dear, hdear, hleast'⟩ :=
    selectBest_firstLeast hne hwarm hdraw' choice' (request.withBudgetRatio high)
  refine ⟨cheap, dear, hcheap, hdear, hleast, hleast', ?_⟩
  rw [combined_low hlow] at hleast
  rw [combined_high hhigh] at hleast'
  exact cost_atMost hweights.1 hfinite hleast hleast'

theorem selectBest_low_budget_twoCandidates :
    ∃ cheap dear : RawScore,
      twoCandidates.selectBest 0.5 0 (anyModel.withBudgetRatio 0.1) =
        .ok (toModelSpec cheap.modelId) ∧
      twoCandidates.selectBest 0.5 0 (anyModel.withBudgetRatio 1) =
        .ok (toModelSpec dear.modelId) ∧ AtMost cheap.cost dear.cost := by
  have hfinite : ∀ s ∈ twoCandidates.candidates, s.FiniteAttributes := by
    simp [twoCandidates, RawScore.FiniteAttributes]
  have hlow : (0.1 : ℚ) < 0.2 := by norm_num
  have hhigh : (0.2 : ℚ) ≤ 1 := by norm_num
  obtain ⟨cheap, dear, hcheap, hdear, -, -, hcost⟩ :=
    selectBest_low_budget_cheaper 0 0 (List.cons_ne_nil _ _) hfinite nonneg_twoCandidates hlow hhigh
      (by decide) epsilon_twoCandidates epsilon_twoCandidates
  exact ⟨cheap, dear, hcheap, hdear, hcost⟩

end CostAuctioneer

end Router

end NeuRust
