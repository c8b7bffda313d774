import NeuRust.Observability.CostTracker
import Mathlib.Data.Rat.Floor
import Mathlib.Algebra.Order.Floor.Semiring
import Mathlib.Algebra.Order.BigOperators.Group.List
import Mathlib.Tactic.FieldSimp

/-!
The budget manager: a `u64` counter of the spend in micro-USD, which `fetch_add` wraps around at
`2 ^ 64`, read against a monthly limit. The logging of warnings is left out.
-/

namespace NeuRust.Observability

structure BudgetManagerConfig where
  monthlyBudgetUsd : ℚ := 100
  warnThreshold : ℚ := 0.8
  hardLimit : Bool := false
  resetDay : BitVec 8 := 1

structure BudgetManager where
  config : BudgetManagerConfig
  currentSpendMicro : BitVec 64

/-- `(usd * 1_000_000.0) as u64` of an exact product: the cast drops the fraction and saturates. -/
def toMicro (usd : ℚ) : BitVec 64 := BitVec.ofNat 64 (min ⌊usd * 1000000⌋₊ (2 ^ 64 - 1))

def estimateResponseCost (model : Str) (promptTokens completionTokens : BitVec 32) : ℚ :=
  (pricesPer1k model).cost promptTokens completionTokens

def responseCost (response : UnifiedResponse) : ℚ :=
  estimateResponseCost response.model response.usage.promptTokens response.usage.completionTokens

/-- `{:.2}`: two decimals, ties to even -/
def twoDecimals (x : ℚ) : Str :=
  let n := ⌊|x| * 100⌋₊
  let rest := |x| * 100 - n
  let hundredths := if rest < 1 / 2 ∨ rest = 1 / 2 ∧ n % 2 = 0 then n else n + 1
  (if x < 0 then ['-'] else []) ++ Nat.toDigits 10 (hundredths / 100) ++ ['.'] ++
    Nat.toDigits 10 (hundredths / 10 % 10) ++ Nat.toDigits 10 (hundredths % 10)

example : twoDecimals 100 = "100.00".toList := by decide +kernel

namespace BudgetManager

def new (config : BudgetManagerConfig) : BudgetManager := ⟨config, 0⟩

def recordCost (costUsd : ℚ) (manager : BudgetManager) : BudgetManager :=
  { manager with currentSpendMicro := manager.currentSpendMicro + toMicro costUsd }

def spend (manager : BudgetManager) : ℚ := manager.currentSpendMicro.toNat / 1000000

def usageRatio (manager : BudgetManager) : ℚ := manager.spend / manager.config.monthlyBudgetUsd

def shouldBlock (manager : BudgetManager) : Bool :=
  manager.config.hardLimit && decide (1 ≤ manager.usageRatio)

def periodTotal (periodStartMs : BitVec 64) (events : List CostEvent) : ℚ :=
  ((events.filter fun event => periodStartMs ≤ event.timestampMs).map CostEvent.costUsd).sum

/-- The second half of `refresh_from_store`: the total of the events read is stored. -/
def storeTotal (periodStartMs : BitVec 64) (events : List CostEvent) (manager : BudgetManager) :
    BudgetManager :=
  { manager with currentSpendMicro := toMicro (periodTotal periodStartMs events) }

def budgetExceeded (config : BudgetManagerConfig) : Error :=
  .msg ("budget exceeded: monthly limit of $".toList ++ twoDecimals config.monthlyBudgetUsd ++
    " reached".toList)

def onRequest (request : UnifiedRequest) (manager : BudgetManager) :
    Pass Unit UnifiedRequest BudgetManager where
  result := if manager.shouldBlock then .error (budgetExceeded manager.config) else .ok ()
  value := { request with
    context := { request.context with budgetRemainingRatio := 1 - manager.usageRatio } }
  state := manager

def onResponse (_request : UnifiedRequest) (response : UnifiedResponse) (manager : BudgetManager) :
    Pass Unit UnifiedResponse BudgetManager where
  result := .ok ()
  value := response
  state := manager.recordCost (responseCost response)

/-- `impl PipelineLayer for BudgetManager` -/
def layer : PipelineLayer BudgetManager where
  name := "budget-manager".toList
  onRequest := onRequest
  onResponse := onResponse

/-! ### The counter -/

@[simp] theorem new_config (config : BudgetManagerConfig) : (new config).config = config := rfl

@[simp] theorem toNat_new (config : BudgetManagerConfig) :
    (new config).currentSpendMicro.toNat = 0 := rfl

@[simp] theorem recordCost_config (usd : ℚ) (manager : BudgetManager) :
    (manager.recordCost usd).config = manager.config := rfl

@[simp] theorem storeTotal_config (periodStartMs : BitVec 64) (events : List CostEvent)
    (manager : BudgetManager) : (manager.storeTotal periodStartMs events).config = manager.config :=
  rfl

@[simp] theorem onRequest_state (request : UnifiedRequest) (manager : BudgetManager) :
    (manager.onRequest request).state = manager := rfl

@[simp] theorem onResponse_state (request : UnifiedRequest) (response : UnifiedResponse)
    (manager : BudgetManager) :
    (manager.onResponse request response).state = manager.recordCost (responseCost response) :=
  rfl

theorem toNat_recordCost (usd : ℚ) (manager : BudgetManager) :
    (manager.recordCost usd).currentSpendMicro.toNat =
      (manager.currentSpendMicro.toNat + (toMicro usd).toNat) % 2 ^ 64 :=
  BitVec.toNat_add _ _

theorem shouldBlock_iff {manager : BudgetManager} (h : 0 < manager.config.monthlyBudgetUsd) :
    manager.shouldBlock = true ↔ manager.config.hardLimit = true ∧
      manager.config.monthlyBudgetUsd * 1000000 ≤ manager.currentSpendMicro.toNat := by
  rw [shouldBlock, Bool.and_eq_true, decide_eq_true_eq, usageRatio, spend, one_le_div h,
    le_div_iff₀ (by norm_num)]

theorem onRequest_rejects_iff (request : UnifiedRequest) (manager : BudgetManager) :
    (manager.onRequest request).result = .error (budgetExceeded manager.config) ↔
      manager.shouldBlock = true := by
  rw [onRequest]
  split_ifs with h <;> simp [h]

theorem onRequest_admits_iff (request : UnifiedRequest) (manager : BudgetManager) :
    (manager.onRequest request).result = .ok () ↔ ¬ manager.shouldBlock = true := by
  rw [onRequest]
  split_ifs with h <;> simp [h]

end BudgetManager

/-! ### Micro-USD -/

theorem toNat_toMicro (usd : ℚ) : (toMicro usd).toNat = min ⌊usd * 1000000⌋₊ (2 ^ 64 - 1) := by
  rw [toMicro, BitVec.toNat_ofNat, Nat.mod_eq_of_lt]
  omega

theorem toNat_toMicro_of_lt {usd : ℚ} (h : usd * 1000000 < 2 ^ 64) :
    (toMicro usd).toNat = ⌊usd * 1000000⌋₊ := by
  have hfloor : ⌊usd * 1000000⌋₊ < 2 ^ 64 := by
    rw [Nat.floor_lt' (by norm_num)]
    exact_mod_cast h
  rw [toNat_toMicro]
  omega

theorem toNat_toMicro_of_eq {usd : ℚ} {n : ℕ} (h : usd * 1000000 = n) (hn : n < 2 ^ 64) :
    (toMicro usd).toNat = n := by
  rw [toNat_toMicro_of_lt (by rw [h]; exact_mod_cast hn), h, Nat.floor_natCast]

theorem toNat_toMicro_le {usd : ℚ} (h : 0 ≤ usd) : ((toMicro usd).toNat : ℚ) ≤ usd * 1000000 := by
  have hfloor : (⌊usd * 1000000⌋₊ : ℚ) ≤ usd * 1000000 := Nat.floor_le (by positivity)
  have hmin : (toMicro usd).toNat ≤ ⌊usd * 1000000⌋₊ := by
    rw [toNat_toMicro]
    exact min_le_left _ _
  exact le_trans (by exact_mod_cast hmin) hfloor

theorem estimateResponseCost_eq (model : Str) (p c : BitVec 32) :
    estimateResponseCost model p c = estimateCost model p c := rfl

theorem responseCost_nonneg (response : UnifiedResponse) : 0 ≤ responseCost response :=
  Prices.cost_nonneg _ _ _

/-- The cost of one response does not saturate. -/
theorem toNat_toMicro_responseCost (response : UnifiedResponse) :
    (toMicro (responseCost response)).toNat = ⌊responseCost response * 1000000⌋₊ := by
  apply toNat_toMicro_of_lt
  have := estimateCost_lt response.model response.usage.promptTokens
    response.usage.completionTokens
  rw [responseCost, estimateResponseCost_eq]
  linarith

end NeuRust.Observability
