import NeuRust.Contracts
import Mathlib.Data.List.Infix
import Mathlib.Tactic.NormNum
import Mathlib.Tactic.Linarith
import Mathlib.Tactic.Positivity

/-!
The cost of a response, and the layer that records it. The price of a model is found by the first
of a list of substrings that its name contains. Costs are exact: rationals instead of `f64`.
-/

namespace NeuRust.Observability

/-- What 1,000 tokens cost in USD. -/
structure Prices where
  prompt : ℚ
  completion : ℚ
  prompt_pos : 0 < prompt := by norm_num
  completion_pos : 0 < completion := by norm_num

/-- `str::contains` -/
def contains (text pattern : Str) : Bool := pattern <:+: text

/-- The price table, which the cost tracker and the budget manager both hold. -/
def pricesPer1k (model : Str) : Prices :=
  if contains model "gpt-4o-mini".toList then ⟨0.00015, 0.0006, by norm_num, by norm_num⟩
  else if contains model "gpt-4o".toList then ⟨0.005, 0.015, by norm_num, by norm_num⟩
  else if contains model "gpt-4".toList then ⟨0.03, 0.06, by norm_num, by norm_num⟩
  else if contains model "gpt-3.5".toList then ⟨0.0005, 0.0015, by norm_num, by norm_num⟩
  else if contains model "claude-3-opus".toList then ⟨0.015, 0.075, by norm_num, by norm_num⟩
  else if contains model "claude-sonnet-4".toList || contains model "claude-3.5-sonnet".toList then
    ⟨0.003, 0.015, by norm_num, by norm_num⟩
  else if contains model "claude-haiku".toList then ⟨0.00025, 0.00125, by norm_num, by norm_num⟩
  else ⟨0.001, 0.002, by norm_num, by norm_num⟩

def Prices.cost (prices : Prices) (promptTokens completionTokens : BitVec 32) : ℚ :=
  promptTokens.toNat / 1000 * prices.prompt + completionTokens.toNat / 1000 * prices.completion

def estimateCost (model : Str) (promptTokens completionTokens : BitVec 32) : ℚ :=
  (pricesPer1k model).cost promptTokens completionTokens

/-! ### Bounds on costs -/

theorem Prices.cost_nonneg (prices : Prices) (p c : BitVec 32) : 0 ≤ prices.cost p c := by
  have hp := prices.prompt_pos
  have hc := prices.completion_pos
  rw [Prices.cost]
  positivity

theorem Prices.cost_eq_zero_iff (prices : Prices) {p c : BitVec 32} :
    prices.cost p c = 0 ↔ p = 0 ∧ c = 0 := by
  have hp := prices.prompt_pos
  have hc := prices.completion_pos
  rw [Prices.cost, add_eq_zero_iff_of_nonneg (by positivity) (by positivity)]
  simp [hp.ne', hc.ne', BitVec.toNat_eq]

theorem pricesPer1k_le (model : Str) :
    (pricesPer1k model).prompt ≤ 1 ∧ (pricesPer1k model).completion ≤ 1 := by
  rw [pricesPer1k]
  split_ifs <;> norm_num

theorem estimateCost_lt (model : Str) (p c : BitVec 32) : estimateCost model p c < 9000000 := by
  obtain ⟨hprompt, hcompletion⟩ := pricesPer1k_le model
  have hp : (p.toNat : ℚ) ≤ 4294967296 := by exact_mod_cast p.isLt.le
  have hc : (c.toNat : ℚ) ≤ 4294967296 := by exact_mod_cast c.isLt.le
  have hpcost : p.toNat / 1000 * (pricesPer1k model).prompt ≤ 4294967296 / 1000 * 1 := by
    have := (pricesPer1k model).prompt_pos
    gcongr
  have hccost : c.toNat / 1000 * (pricesPer1k model).completion ≤ 4294967296 / 1000 * 1 := by
    have := (pricesPer1k model).completion_pos
    gcongr
  rw [estimateCost, Prices.cost]
  linarith

/-! ### Recording -/

def cachedFlag (request : UnifiedRequest) : Bool :=
  ((request.extraParams.lookup "cached".toList).bind Json.asBool).getD false

/-- The event that `CostTracker::record` builds at the time `timestampMs`. -/
def costEvent (timestampMs : BitVec 64) (request : UnifiedRequest) (response : UnifiedResponse) :
    CostEvent where
  timestampMs := timestampMs
  providerId := response.providerId
  model := response.model
  promptTokens := response.usage.promptTokens
  completionTokens := response.usage.completionTokens
  costUsd := estimateCost response.model response.usage.promptTokens
    response.usage.completionTokens
  latencyMs := response.latencyMs
  cached := cachedFlag request

/-- `InMemoryEventStore::record_cost` -/
def recordCostEvent (event : CostEvent) (events : List CostEvent) : List CostEvent :=
  events ++ [event]

/-- `CostTracker::record`, over a store that accepts every event -/
def CostTracker.record (timestampMs : BitVec 64) (request : UnifiedRequest)
    (response : UnifiedResponse) (events : List CostEvent) : List CostEvent :=
  recordCostEvent (costEvent timestampMs request response) events

end NeuRust.Observability
