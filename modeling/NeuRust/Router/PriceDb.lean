import NeuRust.Observability.BudgetManager

/-!
The price database of the router, against the price table that costs are recorded with. The one is
a map of model names, the other a chain of substrings; two names in eight have the same prices in
both.
-/

namespace NeuRust.Router

open Observability

/-! ### The database -/

structure ModelPrice where
  inputPer1k : ℚ
  outputPer1k : ℚ
  provider : Str
  deriving DecidableEq

structure PriceDb where
  prices : Table Str ModelPrice

namespace PriceDb

def loadEmbedded : PriceDb where
  prices := (∅ : Table Str ModelPrice)
    |>.insert "gpt-4o".toList ⟨0.0025, 0.01, "openai".toList⟩
    |>.insert "gpt-4o-mini".toList ⟨0.00015, 0.0006, "openai".toList⟩
    |>.insert "gpt-4.1".toList ⟨0.002, 0.008, "openai".toList⟩
    |>.insert "gpt-4.1-mini".toList ⟨0.0004, 0.0016, "openai".toList⟩
    |>.insert "gpt-4.1-nano".toList ⟨0.0001, 0.0004, "openai".toList⟩
    |>.insert "claude-opus-4-6".toList ⟨0.015, 0.075, "anthropic".toList⟩
    |>.insert "claude-sonnet-4-20250514".toList ⟨0.003, 0.015, "anthropic".toList⟩
    |>.insert "claude-haiku-4-5-20251001".toList ⟨0.0008, 0.004, "anthropic".toList⟩

def get (db : PriceDb) (model : Str) : Option ModelPrice := db.prices.lookup model

def estimateCost (db : PriceDb) (model : Str) (inputTokens outputTokens : BitVec 64) : Option ℚ :=
  (db.get model).map fun price =>
    inputTokens.toNat / 1000 * price.inputPer1k + outputTokens.toNat / 1000 * price.outputPer1k

end PriceDb

/-! ### Two prices of one model -/

/-- The prices agree, or both differ, in the same direction. -/
@[mk_iff] inductive ModelPrice.Compared (price : ModelPrice) (prices : Prices) : Prop
  | same (hinput : price.inputPer1k = prices.prompt)
      (houtput : price.outputPer1k = prices.completion)
  | cheaper (hinput : price.inputPer1k < prices.prompt)
      (houtput : price.outputPer1k < prices.completion)
  | dearer (hinput : prices.prompt < price.inputPer1k)
      (houtput : prices.completion < price.outputPer1k)

instance (price : ModelPrice) (prices : Prices) : Decidable (price.Compared prices) :=
  decidable_of_iff _ (ModelPrice.compared_iff price prices).symm

theorem weighted_eq_iff_of_lt {a b a' b' x y : ℚ} (hx : 0 ≤ x) (hy : 0 ≤ y) (ha : a < a')
    (hb : b < b') : x * a + y * b = x * a' + y * b' ↔ x = 0 ∧ y = 0 := by
  constructor
  · intro h
    have hxa : x * a ≤ x * a' := mul_le_mul_of_nonneg_left ha.le hx
    have hyb : y * b ≤ y * b' := mul_le_mul_of_nonneg_left hb.le hy
    constructor
    · by_contra hne
      have : x * a < x * a' := mul_lt_mul_of_pos_left ha (lt_of_le_of_ne hx (Ne.symm hne))
      linarith
    · by_contra hne
      have : y * b < y * b' := mul_lt_mul_of_pos_left hb (lt_of_le_of_ne hy (Ne.symm hne))
      linarith
  · rintro ⟨rfl, rfl⟩
    simp

/-- Unless the prices are the same, the costs agree only where there are no tokens. -/
theorem ModelPrice.Compared.cost_eq_iff {price : ModelPrice} {prices : Prices}
    (h : price.Compared prices) (p c : BitVec 32) :
    p.toNat / 1000 * price.inputPer1k + c.toNat / 1000 * price.outputPer1k = prices.cost p c ↔
      price.inputPer1k = prices.prompt ∨ p = 0 ∧ c = 0 := by
  have hp : (0 : ℚ) ≤ p.toNat / 1000 := by positivity
  have hc : (0 : ℚ) ≤ c.toNat / 1000 := by positivity
  have hzero : (p.toNat : ℚ) / 1000 = 0 ∧ (c.toNat : ℚ) / 1000 = 0 ↔ p = 0 ∧ c = 0 := by
    simp [BitVec.toNat_eq]
  rw [Prices.cost]
  cases h with
  | same hinput houtput => simp [hinput, houtput]
  | cheaper hinput houtput =>
      rw [weighted_eq_iff_of_lt hp hc hinput houtput, hzero, or_iff_right hinput.ne]
  | dearer hinput houtput =>
      rw [eq_comm, weighted_eq_iff_of_lt hp hc hinput houtput, hzero, or_iff_right hinput.ne']

/-! ### The two price models -/

def agreeingModels : List Str := ["gpt-4o-mini".toList, "claude-sonnet-4-20250514".toList]

/-- No model is cheaper in one of its two prices and dearer in the other one. -/
theorem compared_of_get {model : Str} {price : ModelPrice}
    (h : PriceDb.loadEmbedded.get model = some price) :
    price.Compared (pricesPer1k model) := by
  have hall : ∀ entry ∈ PriceDb.loadEmbedded.prices.entries,
      entry.2.Compared (pricesPer1k entry.1) := by
    decide +kernel
  exact hall ⟨model, price⟩ (AList.mem_entries_iff.mpr h)

theorem same_iff_of_get {model : Str} {price : ModelPrice}
    (h : PriceDb.loadEmbedded.get model = some price) :
    price.inputPer1k = (pricesPer1k model).prompt ↔ model ∈ agreeingModels := by
  have hall : ∀ entry ∈ PriceDb.loadEmbedded.prices.entries,
      entry.2.inputPer1k = (pricesPer1k entry.1).prompt ↔ entry.1 ∈ agreeingModels := by
    decide +kernel
  exact hall ⟨model, price⟩ (AList.mem_entries_iff.mpr h)

/-- What is recorded for a response, and what is charged to the budget, is what the database
estimates. -/
structure CostsAgree (model : Str) (p c : BitVec 32) : Prop where
  recorded : PriceDb.loadEmbedded.estimateCost model (p.setWidth 64) (c.setWidth 64) =
    some (estimateCost model p c)
  charged : PriceDb.loadEmbedded.estimateCost model (p.setWidth 64) (c.setWidth 64) =
    some (estimateResponseCost model p c)

/-- For a model of the database the two price models agree on its two common prices, and where
there are no tokens. -/
theorem costsAgree_iff {model : Str} (h : (PriceDb.loadEmbedded.get model).isSome = true)
    (p c : BitVec 32) : CostsAgree model p c ↔ model ∈ agreeingModels ∨ p = 0 ∧ c = 0 := by
  obtain ⟨price, hprice⟩ := Option.isSome_iff_exists.mp h
  have hp : (p.setWidth 64).toNat = p.toNat := BitVec.toNat_setWidth_of_le (by decide)
  have hc : (c.setWidth 64).toNat = c.toNat := BitVec.toNat_setWidth_of_le (by decide)
  have hcost : PriceDb.loadEmbedded.estimateCost model (p.setWidth 64) (c.setWidth 64) =
      some (estimateCost model p c) ↔ model ∈ agreeingModels ∨ p = 0 ∧ c = 0 := by
    rw [PriceDb.estimateCost, hprice, Option.map_some, Option.some.injEq, hp, hc, estimateCost,
      (compared_of_get hprice).cost_eq_iff, same_iff_of_get hprice]
  constructor
  · exact fun hagree => hcost.mp hagree.recorded
  · intro hright
    have hrecorded := hcost.mpr hright
    exact ⟨hrecorded, hrecorded.trans (congrArg some (estimateResponseCost_eq model p c).symm)⟩

theorem costsAgree_iff_mini :
    CostsAgree "gpt-4o-mini".toList 1000 1000 ↔
      "gpt-4o-mini".toList ∈ agreeingModels ∨ (1000 : BitVec 32) = 0 ∧ (1000 : BitVec 32) = 0 :=
  costsAgree_iff (by decide +kernel) 1000 1000

theorem listed_model_misbilled :
    ¬ ∀ model : Str, (PriceDb.loadEmbedded.get model).isSome = true →
      ∀ p c : BitVec 32, CostsAgree model p c := by
  intro h
  have hagree := (h "gpt-4o".toList (by decide +kernel) 1000 1000).recorded
  revert hagree
  decide +kernel

end NeuRust.Router
