import NeuRust.Observability.BudgetManager

/-!
What the counter of the budget manager loses against the exact spend. Every response is charged in
whole micro-USD, so that its fraction is lost, and every wrap of the counter loses `2 ^ 64`
micro-USD more. The hard limit works for a sequence of responses exactly when what it loses does
not exceed the excess of the spend over the budget.
-/

namespace NeuRust.Observability

/-! ### A sequence of responses -/

def BudgetManager.afterResponses (manager : BudgetManager)
    (responses : List (UnifiedRequest × UnifiedResponse)) : BudgetManager :=
  responses.foldl (fun manager r => (manager.onResponse r.1 r.2).state) manager

def exactSpend (responses : List (UnifiedRequest × UnifiedResponse)) : ℚ :=
  (responses.map fun r => responseCost r.2).sum

/-- What is charged: whole micro-USD of each response. -/
def chargedMicro (responses : List (UnifiedRequest × UnifiedResponse)) : ℕ :=
  (responses.map fun r => ⌊responseCost r.2 * 1000000⌋₊).sum

/-- The fractions of a micro-USD that are dropped, one a response. -/
def droppedMicro (responses : List (UnifiedRequest × UnifiedResponse)) : ℚ :=
  (responses.map fun r => Int.fract (responseCost r.2 * 1000000)).sum

/-- All that the counter misses: the dropped fractions, and `2 ^ 64` for each wrap. -/
def lostMicro (responses : List (UnifiedRequest × UnifiedResponse)) : ℚ :=
  droppedMicro responses + (chargedMicro responses / 2 ^ 64 : ℕ) * 2 ^ 64

namespace BudgetManager

@[simp] theorem afterResponses_nil (manager : BudgetManager) :
    manager.afterResponses [] = manager := rfl

@[simp] theorem afterResponses_cons (manager : BudgetManager)
    (r : UnifiedRequest × UnifiedResponse) (rs : List (UnifiedRequest × UnifiedResponse)) :
    manager.afterResponses (r :: rs) =
      (manager.recordCost (responseCost r.2)).afterResponses rs := rfl

@[simp] theorem afterResponses_config (manager : BudgetManager)
    (rs : List (UnifiedRequest × UnifiedResponse)) :
    (manager.afterResponses rs).config = manager.config := by
  induction rs generalizing manager with
  | nil => rfl
  | cons r rs ih => rw [afterResponses_cons, ih, recordCost_config]

theorem toNat_afterResponses (manager : BudgetManager)
    (rs : List (UnifiedRequest × UnifiedResponse)) :
    (manager.afterResponses rs).currentSpendMicro.toNat =
      (manager.currentSpendMicro.toNat + chargedMicro rs) % 2 ^ 64 := by
  induction rs generalizing manager with
  | nil =>
      have := manager.currentSpendMicro.isLt
      simp only [afterResponses_nil, chargedMicro, List.map_nil, List.sum_nil, Nat.add_zero]
      rw [Nat.mod_eq_of_lt this]
  | cons r rs ih =>
      have hcharged : chargedMicro (r :: rs) =
          ⌊responseCost r.2 * 1000000⌋₊ + chargedMicro rs := rfl
      rw [afterResponses_cons, ih, toNat_recordCost, toNat_toMicro_responseCost, hcharged]
      omega

end BudgetManager

/-! ### The loss -/

theorem charged_add_dropped (rs : List (UnifiedRequest × UnifiedResponse)) :
    chargedMicro rs + droppedMicro rs = exactSpend rs * 1000000 := by
  induction rs with
  | nil => simp [chargedMicro, droppedMicro, exactSpend]
  | cons r rs ih =>
      have hfract : (⌊responseCost r.2 * 1000000⌋₊ : ℚ) + Int.fract (responseCost r.2 * 1000000) =
          responseCost r.2 * 1000000 := by
        have hpos : 0 ≤ responseCost r.2 * 1000000 := by
          have := responseCost_nonneg r.2
          positivity
        rw [natCast_floor_eq_intCast_floor hpos, Int.floor_add_fract]
      simp only [chargedMicro, droppedMicro, exactSpend, List.map_cons, List.sum_cons,
        Nat.cast_add, add_mul] at ih ⊢
      linarith

/-- The counter of a fresh manager is the spend less the loss. -/
theorem counter_eq_spend_sub_lost (config : BudgetManagerConfig)
    (rs : List (UnifiedRequest × UnifiedResponse)) :
    (((BudgetManager.new config).afterResponses rs).currentSpendMicro.toNat : ℚ) =
      exactSpend rs * 1000000 - lostMicro rs := by
  have hdiv : (chargedMicro rs : ℚ) =
      (chargedMicro rs % 2 ^ 64 : ℕ) + (chargedMicro rs / 2 ^ 64 : ℕ) * 2 ^ 64 := by
    have := Nat.mod_add_div (chargedMicro rs) (2 ^ 64)
    rw [mul_comm] at this
    exact_mod_cast this.symm
  have hsum := charged_add_dropped rs
  rw [BudgetManager.toNat_afterResponses, BudgetManager.toNat_new, Nat.zero_add, lostMicro]
  linarith

theorem droppedMicro_le_length (rs : List (UnifiedRequest × UnifiedResponse)) :
    droppedMicro rs ≤ rs.length := by
  induction rs with
  | nil => simp [droppedMicro]
  | cons r rs ih =>
      have hfract := (Int.fract_lt_one (responseCost r.2 * 1000000)).le
      simp only [droppedMicro, List.map_cons, List.sum_cons, List.length_cons,
        Nat.cast_succ] at ih ⊢
      linarith

/-! ### The hard limit -/

/-- The limit has been reached: the manager blocks, and rejects every next request. -/
def BudgetManager.Enforces (manager : BudgetManager) : Prop :=
  manager.shouldBlock = true ∧ ∀ request : UnifiedRequest,
    (manager.onRequest request).result = .error (budgetExceeded manager.config)

theorem BudgetManager.enforces_iff {manager : BudgetManager} :
    manager.Enforces ↔ manager.shouldBlock = true := by
  constructor
  · exact And.left
  · intro h
    exact ⟨h, fun request => (onRequest_rejects_iff request manager).mpr h⟩

/-- With the hard limit on, responses that cost at least the budget and one micro-USD are stopped
exactly when the counter loses no more than the spend exceeds the budget by. -/
theorem hard_limit_enforced_iff (config : BudgetManagerConfig)
    (responses : List (UnifiedRequest × UnifiedResponse)) (hbudget : 0 < config.monthlyBudgetUsd)
    (hhard : config.hardLimit = true) :
    (config.monthlyBudgetUsd + 1 / 1000000 ≤ exactSpend responses →
      ((BudgetManager.new config).afterResponses responses).Enforces) ↔
    (config.monthlyBudgetUsd + 1 / 1000000 ≤ exactSpend responses →
      lostMicro responses ≤ (exactSpend responses - config.monthlyBudgetUsd) * 1000000) := by
  apply imp_congr_right
  intro _
  have hconfig : ((BudgetManager.new config).afterResponses responses).config = config := by
    rw [BudgetManager.afterResponses_config, BudgetManager.new_config]
  rw [BudgetManager.enforces_iff, BudgetManager.shouldBlock_iff (by rwa [hconfig]), hconfig,
    counter_eq_spend_sub_lost, and_iff_right hhard]
  constructor
  · intro h
    linarith
  · intro h
    linarith

/-- One micro-USD a response of slack is enough, as long as the counter does not wrap. -/
theorem enforces_of_slack (config : BudgetManagerConfig)
    (responses : List (UnifiedRequest × UnifiedResponse)) (hbudget : 0 < config.monthlyBudgetUsd)
    (hhard : config.hardLimit = true) (hwrap : chargedMicro responses < 2 ^ 64)
    (hspend : config.monthlyBudgetUsd + (responses.length + 1) / 1000000 ≤ exactSpend responses) :
    ((BudgetManager.new config).afterResponses responses).Enforces := by
  have hlength : (0 : ℚ) ≤ responses.length := Nat.cast_nonneg _
  have hmore : config.monthlyBudgetUsd + 1 / 1000000 ≤ exactSpend responses := by
    linarith
  apply (hard_limit_enforced_iff config responses hbudget hhard).mpr _ hmore
  intro _
  have hdropped := droppedMicro_le_length responses
  rw [lostMicro, Nat.div_eq_of_lt hwrap, Nat.cast_zero, zero_mul, add_zero]
  linarith

/-! ### Responses below one micro-USD -/

def question : UnifiedRequest where
  model := ⟨"gpt-4o-mini".toList, none⟩
  messages := [⟨.user, "?".toList⟩]
  temperature := none
  maxTokens := none
  stream := false

/-- One prompt token of the cheapest model: 0.15 micro-USD. -/
def tinyResponse : UnifiedResponse where
  content := []
  model := "gpt-4o-mini".toList
  usage := ⟨1, 0, 1⟩
  providerId := "openai".toList
  latencyMs := 0
  upstreamId := none

/-- A thousand tokens each way of a dear model: nine cents. -/
def dearResponse : UnifiedResponse :=
  { tinyResponse with model := "gpt-4".toList, usage := ⟨1000, 1000, 2000⟩ }

theorem responseCost_tiny : responseCost tinyResponse = 0.00000015 := by
  have hprices : pricesPer1k tinyResponse.model = ⟨0.00015, 0.0006, by norm_num, by norm_num⟩ :=
    if_pos (by decide)
  have hp : tinyResponse.usage.promptTokens.toNat = 1 := rfl
  have hc : tinyResponse.usage.completionTokens.toNat = 0 := rfl
  rw [responseCost, estimateResponseCost, hprices, Prices.cost, hp, hc]
  norm_num

theorem responseCost_dear : responseCost dearResponse = 0.09 := by
  have hprices : pricesPer1k dearResponse.model = ⟨0.03, 0.06, by norm_num, by norm_num⟩ := by
    rw [pricesPer1k, if_neg (by decide), if_neg (by decide), if_pos (by decide)]
  have hp : dearResponse.usage.promptTokens.toNat = 1000 := rfl
  have hc : dearResponse.usage.completionTokens.toNat = 1000 := rfl
  rw [responseCost, estimateResponseCost, hprices, Prices.cost, hp, hc]
  norm_num

section Replicate

variable (r : UnifiedRequest × UnifiedResponse) (n : ℕ)

theorem exactSpend_replicate : exactSpend (List.replicate n r) = n * responseCost r.2 := by
  rw [exactSpend, List.map_replicate, List.sum_replicate, nsmul_eq_mul]

theorem chargedMicro_replicate :
    chargedMicro (List.replicate n r) = n * ⌊responseCost r.2 * 1000000⌋₊ := by
  rw [chargedMicro, List.map_replicate, List.sum_replicate, nsmul_eq_mul, Nat.cast_id]

theorem droppedMicro_replicate :
    droppedMicro (List.replicate n r) = n * Int.fract (responseCost r.2 * 1000000) := by
  rw [droppedMicro, List.map_replicate, List.sum_replicate, nsmul_eq_mul]

end Replicate

theorem two_dear_responses_enforced :
    ((BudgetManager.new { monthlyBudgetUsd := 0.1, hardLimit := true }).afterResponses
      (List.replicate 2 (question, dearResponse))).Enforces := by
  apply (hard_limit_enforced_iff _ _ (by norm_num) rfl).mpr
  · intro _
    rw [lostMicro, droppedMicro_replicate, chargedMicro_replicate, exactSpend_replicate,
      responseCost_dear]
    norm_num
  · rw [exactSpend_replicate, responseCost_dear]
    norm_num

/-- A hundred dollars of one-token responses, of which nothing is charged. -/
theorem tiny_responses_never_block :
    ¬ ∀ (config : BudgetManagerConfig) (responses : List (UnifiedRequest × UnifiedResponse)),
      0 < config.monthlyBudgetUsd → config.hardLimit = true →
      config.monthlyBudgetUsd + 1 / 1000000 ≤ exactSpend responses →
      ((BudgetManager.new config).afterResponses responses).Enforces := by
  intro h
  have henforced := h { hardLimit := true }
    (List.replicate 666666674 (question, tinyResponse)) (by norm_num) rfl (by
      rw [exactSpend_replicate, responseCost_tiny]
      norm_num)
  have hblocks := ((BudgetManager.shouldBlock_iff (by
    rw [BudgetManager.afterResponses_config]
    norm_num)).mp henforced.1).2
  have hcharged : chargedMicro (List.replicate 666666674 (question, tinyResponse)) = 0 := by
    rw [chargedMicro_replicate, responseCost_tiny]
    norm_num
  rw [BudgetManager.toNat_afterResponses, hcharged, BudgetManager.afterResponses_config] at hblocks
  norm_num at hblocks

end NeuRust.Observability
