import NeuRust.Machine.FloatRounding
import NeuRust.Observability.BudgetManager
import Mathlib.Data.List.Infix

/-!
The counter of the budget manager under any sequence of costs, those included that no response
has: a cost is any `f64`, and every operation on one is rounded. The cast in front of the counter
saturates, the addition wraps around, so that the counter runs backwards exactly at the additions
that reach `2 ^ 64`.
-/

namespace NeuRust

/-! ### Arithmetic on `f64` -/

namespace FloatValue

/-- From here on a rounded value is infinite. -/
def overflow : ℚ := 2 ^ 1024

def rounded (x : ℚ) : FloatValue :=
  if overflow ≤ binary64.round x then .infinite false
  else if binary64.round x ≤ -overflow then .infinite true
  else .finite (binary64.round x)

/-- `value * factor`, for a positive factor. -/
def scale (factor : ℚ) : FloatValue → FloatValue
  | .nan => .nan
  | .infinite negative => .infinite negative
  | .finite x => rounded (x * factor)

/-- `value as u64`: a NaN gives 0, and what is out of range the nearest bound. -/
def toU64 : FloatValue → BitVec 64
  | .nan => 0
  | .infinite negative => if negative then 0 else BitVec.allOnes 64
  | .finite x => BitVec.ofNat 64 (min ⌊x⌋₊ (2 ^ 64 - 1))

/-- `a <= b`, which fails for a NaN. -/
def le : FloatValue → FloatValue → Bool
  | .nan, _ | _, .nan => false
  | .infinite negative, .infinite negative' => negative || !negative'
  | .infinite negative, .finite _ => negative
  | .finite _, .infinite negative => !negative
  | .finite x, .finite y => decide (x ≤ y)

variable {a b : FloatValue} {factor x y : ℚ}

theorem le_rounded (x : ℚ) : (infinite true).le (rounded x) = true := by
  rw [rounded]
  split_ifs <;> rfl

theorem rounded_le (x : ℚ) : (rounded x).le (infinite false) = true := by
  rw [rounded]
  split_ifs <;> rfl

theorem rounded_mono (h : x ≤ y) : (rounded x).le (rounded y) = true := by
  have hround : binary64.round x ≤ binary64.round y := FloatFormat.round_mono h
  rw [rounded]
  split_ifs with hover hunder
  · rw [rounded, if_pos (hover.trans hround)]
    rfl
  · exact le_rounded y
  · rw [rounded]
    split_ifs with hover' hunder'
    · rfl
    · exact absurd (hround.trans hunder') hunder
    · exact decide_eq_true hround

theorem scale_mono (hfactor : 0 ≤ factor) (h : a.le b = true) :
    (a.scale factor).le (b.scale factor) = true := by
  cases a with
  | nan => cases h
  | infinite negative =>
      cases b with
      | nan => cases negative <;> cases h
      | infinite negative' => exact h
      | finite y =>
          obtain rfl : negative = true := h
          exact le_rounded _
  | finite x =>
      cases b with
      | nan => cases h
      | infinite negative =>
          cases negative with
          | true => cases h
          | false => exact rounded_le _
      | finite y => exact rounded_mono (mul_le_mul_of_nonneg_right (of_decide_eq_true h) hfactor)

theorem le_trans_finite {b c : FloatValue} (hab : (finite x).le b = true) (hbc : b.le c = true) :
    (finite x).le c = true := by
  cases b with
  | nan => cases hab
  | infinite negative =>
      cases negative with
      | true => cases hab
      | false =>
          cases c with
          | nan => cases hbc
          | infinite negative => exact hbc
          | finite y => cases hbc
  | finite y =>
      cases c with
      | nan => cases hbc
      | infinite negative => exact hbc
      | finite z => exact decide_eq_true ((of_decide_eq_true hab).trans (of_decide_eq_true hbc))

end FloatValue

end NeuRust

namespace NeuRust.Observability

/-- `(cost_usd * 1_000_000.0) as u64` -/
def microOf (costUsd : FloatValue) : BitVec 64 := (costUsd.scale 1000000).toU64

namespace BudgetManager

/-- `record_cost` -/
def recordFloat (costUsd : F64) (manager : BudgetManager) : BudgetManager :=
  { manager with currentSpendMicro := manager.currentSpendMicro + microOf costUsd.value }

/-- `usage_ratio`, for a positive budget. -/
def usageRatioFloat (manager : BudgetManager) : FloatValue :=
  ((FloatValue.rounded manager.currentSpendMicro.toNat).scale (1 / 1000000)).scale
    (1 / manager.config.monthlyBudgetUsd)

/-- `should_block` -/
def shouldBlockFloat (manager : BudgetManager) : Bool :=
  manager.config.hardLimit && (FloatValue.finite 1).le manager.usageRatioFloat

def afterCosts (manager : BudgetManager) (costs : List F64) : BudgetManager :=
  costs.foldl (fun manager costUsd => manager.recordFloat costUsd) manager

/-- From any point of the run to any later one, neither the recorded spend nor the ratio decreases,
and what blocked goes on to block. -/
structure NeverBackwards (manager : BudgetManager) (costs : List F64) : Prop where
  spend : ∀ a b, a ++ b <+: costs →
    (manager.afterCosts a).spend ≤ (manager.afterCosts (a ++ b)).spend
  usageRatio : ∀ a b, a ++ b <+: costs →
    (manager.afterCosts a).usageRatioFloat.le (manager.afterCosts (a ++ b)).usageRatioFloat = true
  shouldBlock : ∀ a b, a ++ b <+: costs → (manager.afterCosts a).shouldBlockFloat = true →
    (manager.afterCosts (a ++ b)).shouldBlockFloat = true

/-- No addition of the run reaches `2 ^ 64`. -/
def NeverWraps (manager : BudgetManager) (costs : List F64) : Prop :=
  ∀ a costUsd, a ++ [costUsd] <+: costs →
    (manager.afterCosts a).currentSpendMicro.toNat + (microOf costUsd.value).toNat < 2 ^ 64

/-! ### One addition -/

@[simp] theorem recordFloat_config (costUsd : F64) (manager : BudgetManager) :
    (manager.recordFloat costUsd).config = manager.config := rfl

theorem toNat_recordFloat (costUsd : F64) (manager : BudgetManager) :
    (manager.recordFloat costUsd).currentSpendMicro.toNat =
      (manager.currentSpendMicro.toNat + (microOf costUsd.value).toNat) % 2 ^ 64 :=
  BitVec.toNat_add _ _

/-- A cost in USD and one as an `f64` are recorded alike if it is a whole number of micro-USD, with
no more digits than an `f64` has. -/
theorem recordFloat_of_whole {costUsd : F64} {usd : ℚ} {n : ℕ} (h : costUsd.value = .finite usd)
    (hwhole : usd * 1000000 = n) (hn : n < 2 ^ 53) (manager : BudgetManager) :
    manager.recordFloat costUsd = manager.recordCost usd := by
  have hround : binary64.round (n : ℚ) = n := FloatFormat.round_natCast hn (by decide)
  have hbound : (n : ℚ) < FloatValue.overflow := by
    have hsmall : (n : ℚ) < 2 ^ 53 := by exact_mod_cast hn
    exact hsmall.trans_le (pow_le_pow_right₀ one_le_two (by norm_num))
  have hnonneg : (0 : ℚ) ≤ n := Nat.cast_nonneg n
  have hrounded : FloatValue.rounded n = .finite n := by
    rw [FloatValue.rounded, hround, if_neg hbound.not_ge, if_neg]
    linarith
  rw [recordFloat, h, microOf, FloatValue.scale, hwhole, hrounded, recordCost, toMicro, hwhole]
  rfl

/-- The counter does not fall at a cost exactly when the addition stays below `2 ^ 64`. -/
theorem le_recordFloat_iff {costUsd : F64} {manager : BudgetManager} :
    manager.currentSpendMicro.toNat ≤ (manager.recordFloat costUsd).currentSpendMicro.toNat ↔
      manager.currentSpendMicro.toNat + (microOf costUsd.value).toNat < 2 ^ 64 := by
  have hcounter := manager.currentSpendMicro.isLt
  have hmicro := (microOf costUsd.value).isLt
  rw [toNat_recordFloat]
  omega

/-! ### Runs -/

section

variable {manager : BudgetManager} {costs : List F64}

theorem afterCosts_append (manager : BudgetManager) (a b : List F64) :
    manager.afterCosts (a ++ b) = (manager.afterCosts a).afterCosts b :=
  List.foldl_append

@[simp] theorem afterCosts_config (manager : BudgetManager) (costs : List F64) :
    (manager.afterCosts costs).config = manager.config := by
  induction costs generalizing manager with
  | nil => rfl
  | cons costUsd costs ih => exact ih (manager.recordFloat costUsd)

theorem spend_le_iff {manager manager' : BudgetManager} :
    manager.spend ≤ manager'.spend ↔
      manager.currentSpendMicro.toNat ≤ manager'.currentSpendMicro.toNat := by
  rw [spend, spend, div_le_div_iff_of_pos_right (by norm_num), Nat.cast_le]

/-- Where no addition wraps, the counter never falls. -/
theorem NeverWraps.counter_le (h : manager.NeverWraps costs) (a b : List F64)
    (hpre : a ++ b <+: costs) : (manager.afterCosts a).currentSpendMicro.toNat ≤
      (manager.afterCosts (a ++ b)).currentSpendMicro.toNat := by
  induction b using List.reverseRecOn with
  | nil => simp
  | append_singleton b costUsd ih =>
      rw [← List.append_assoc] at hpre ⊢
      have hearlier := ih ((List.prefix_append _ _).trans hpre)
      rw [afterCosts_append _ (a ++ b)]
      exact hearlier.trans (le_recordFloat_iff.mpr (h (a ++ b) costUsd hpre))

theorem usageRatioFloat_mono {manager manager' : BudgetManager}
    (hbudget : 0 < manager.config.monthlyBudgetUsd) (hconfig : manager'.config = manager.config)
    (h : manager.currentSpendMicro.toNat ≤ manager'.currentSpendMicro.toNat) :
    manager.usageRatioFloat.le manager'.usageRatioFloat = true := by
  rw [usageRatioFloat, usageRatioFloat, hconfig]
  apply FloatValue.scale_mono (one_div_pos.mpr hbudget).le
  apply FloatValue.scale_mono (by norm_num)
  exact FloatValue.rounded_mono (by exact_mod_cast h)

/-- With a positive budget, a run of costs never takes the manager backwards exactly when none of
its additions reaches `2 ^ 64`. -/
theorem neverBackwards_iff (hbudget : 0 < manager.config.monthlyBudgetUsd) :
    manager.NeverBackwards costs ↔ manager.NeverWraps costs := by
  constructor
  · intro h a costUsd hpre
    have hspend := spend_le_iff.mp (h.spend a [costUsd] hpre)
    rw [afterCosts_append] at hspend
    exact le_recordFloat_iff.mp hspend
  · intro h
    have hratio (a b : List F64) (hpre : a ++ b <+: costs) :
        (manager.afterCosts a).usageRatioFloat.le
          (manager.afterCosts (a ++ b)).usageRatioFloat = true := by
      apply usageRatioFloat_mono
      · rw [afterCosts_config]
        exact hbudget
      · rw [afterCosts_config, afterCosts_config]
      · exact h.counter_le a b hpre
    refine ⟨fun a b hpre => spend_le_iff.mpr (h.counter_le a b hpre), hratio, ?_⟩
    intro a b hpre hblock
    rw [shouldBlockFloat, Bool.and_eq_true, afterCosts_config] at hblock ⊢
    exact ⟨hblock.1, FloatValue.le_trans_finite hblock.2 (hratio a b hpre)⟩

end

def oneDollar : F64 := ⟨0x3FF0000000000000⟩

/-- `f64::INFINITY` -/
def infiniteCost : F64 := ⟨0x7FF0000000000000⟩

theorem neverBackwards_oneDollar : (new {}).NeverBackwards [oneDollar] := by
  have hnever : (new {}).NeverWraps [oneDollar] := by
    intro a costUsd hpre
    cases a with
    | nil =>
        obtain rfl := (List.cons_prefix_cons.mp hpre).1
        decide +kernel
    | cons head tail =>
        have hlength := hpre.length_le
        simp at hlength
  exact (neverBackwards_iff (by norm_num)).mpr hnever

-- the product of 0.29 and a million is rounded up
example : microOf (F64.value ⟨0x3FD28F5C28F5C28F⟩) = 290000 := by decide +kernel

/-- A dollar after an infinite cost takes the counter past its end, and the manager that blocked
admits requests again. -/
theorem infinite_cost_unblocks :
    ¬ ∀ (manager : BudgetManager) (costs : List F64), 0 < manager.config.monthlyBudgetUsd →
      manager.NeverBackwards costs := by
  intro h
  have hblocks : ((new { hardLimit := true }).afterCosts [infiniteCost]).shouldBlockFloat = true :=
    by decide +kernel
  have hadmits : ((new { hardLimit := true }).afterCosts
      ([infiniteCost] ++ [oneDollar])).shouldBlockFloat = false := by decide +kernel
  have hstill := (h (new { hardLimit := true }) [infiniteCost, oneDollar] (by norm_num)).shouldBlock
    [infiniteCost] [oneDollar] List.prefix_rfl hblocks
  rw [hadmits] at hstill
  cases hstill

end BudgetManager

end NeuRust.Observability
