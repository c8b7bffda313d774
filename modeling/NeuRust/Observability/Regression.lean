import NeuRust.Machine.LeastSquares
import NeuRust.Observability.CostForecaster
import Mathlib.Algebra.BigOperators.Fin
import Mathlib.Algebra.BigOperators.Intervals
import Mathlib.Algebra.BigOperators.Ring.Finset
import Mathlib.Tactic.NormNum

/-!
The regression of the forecast as a line of least squares. Its sums are those over the points
`(i, y)` of a series, and it never divides by zero: the days of two values are apart.
-/

namespace NeuRust.Observability

variable {K : Type*} [Field K]

/-! ### The sums of the loop -/

def dayOf (n : ℕ) (i : Fin n) : K := (i : ℕ)

theorem sumEnumerated_eq (f : ℕ → K → K) (values : List K) :
    sumEnumerated f values = ∑ i : Fin values.length, f i (values.get i) := by
  rw [sumEnumerated, ← List.sum_ofFn]
  congr 1
  apply List.ext_getElem
  · simp
  · simp

theorem mean_get (values : List K) :
    mean Finset.univ values.get = values.sum / values.length := by
  rw [mean, ← List.sum_ofFn, List.ofFn_get, Finset.card_univ, Fintype.card_fin]

theorem mean_dayOf [CharZero K] {n : ℕ} (h : 1 ≤ n) :
    mean Finset.univ (dayOf n : Fin n → K) = (n - 1) / 2 := by
  have hn : (n : K) ≠ 0 := Nat.cast_ne_zero.mpr (Nat.one_le_iff_ne_zero.mp h)
  have htwo : (2 : K) ≠ 0 := OfNat.ofNat_ne_zero 2
  have hsum : (∑ i : Fin n, (dayOf n i : K)) * 2 = n * (n - 1) := by
    show (∑ i : Fin n, ((i : ℕ) : K)) * 2 = _
    rw [Fin.sum_univ_eq_sum_range (fun i => (i : K)) n]
    have hgauss := congrArg (Nat.cast (R := K)) (Finset.sum_range_id_mul_two n)
    rwa [Nat.cast_mul, Nat.cast_mul, Nat.cast_sum, Nat.cast_pred h, Nat.cast_two] at hgauss
  rw [mean, Finset.card_univ, Fintype.card_fin, div_eq_div_iff hn htwo, hsum, mul_comm]

/-! ### The regression -/

def xMean (yValues : List K) : K := ((yValues.length : K) - 1) / (2 : ℕ)

def yMean (yValues : List K) : K := yValues.sum / yValues.length

def numerator (yValues : List K) : K :=
  sumEnumerated (fun x y => (x - xMean yValues) * (y - yMean yValues)) yValues

def denominator (yValues : List K) : K :=
  sumEnumerated (fun x _ => (x - xMean yValues) * (x - xMean yValues)) yValues

/-- How far the values are from a line, squared and summed. -/
def lineError (slope intercept : K) (yValues : List K) : K :=
  sumEnumerated (fun i y => (y - (slope * i + intercept)) ^ 2) yValues

theorem lineError_eq (slope intercept : K) (yValues : List K) :
    lineError slope intercept yValues =
      squaredError Finset.univ (dayOf yValues.length) yValues.get slope intercept :=
  sumEnumerated_eq _ yValues

def OnLine (slope intercept : K) (yValues : List K) : Prop :=
  ∀ (i : ℕ) y, yValues[i]? = some y → y = slope * i + intercept

theorem OnLine.lineError_eq_zero {slope intercept : K} {yValues : List K}
    (h : OnLine slope intercept yValues) : lineError slope intercept yValues = 0 := by
  rw [lineError, sumEnumerated]
  apply List.sum_eq_zero
  intro error herror
  obtain ⟨⟨y, i⟩, hmem, rfl⟩ := List.mem_map.mp herror
  have hy := h i y (List.mem_zipIdx_iff_getElem?.mp hmem)
  simp [hy]

section

variable [CharZero K] {yValues : List K}

theorem numerator_eq (h : 2 ≤ yValues.length) :
    numerator yValues = codeviation Finset.univ (dayOf yValues.length) yValues.get := by
  rw [numerator, sumEnumerated_eq, codeviation, mean_dayOf (Nat.one_le_of_lt h), mean_get]
  rfl

theorem denominator_eq (h : 2 ≤ yValues.length) :
    denominator yValues =
      codeviation Finset.univ (dayOf yValues.length : Fin yValues.length → K)
        (dayOf yValues.length) := by
  rw [denominator, sumEnumerated_eq, codeviation, mean_dayOf (Nat.one_le_of_lt h)]
  rfl

end

variable [LinearOrder K] [IsStrictOrderedRing K] {yValues : List K}

theorem half_le_denominator (h : 2 ≤ yValues.length) : 1 / 2 ≤ denominator yValues := by
  have hapart : ((⟨0, by omega⟩ : Fin yValues.length)) ≠ ⟨1, h⟩ := by simp
  have hle := le_codeviation_self (x := (dayOf yValues.length : Fin yValues.length → K))
    (Finset.mem_univ _) (Finset.mem_univ _) hapart
  rw [denominator_eq h]
  simpa [dayOf] using hle

/-- The guard against a small denominator does not hold. -/
theorem linearRegression_eq_div (h : 2 ≤ yValues.length) :
    linearRegression yValues =
      (numerator yValues / denominator yValues,
        yMean yValues - numerator yValues / denominator yValues * xMean yValues) := by
  have hlong : ¬ (yValues.length : K) < 2 := not_lt.mpr (Nat.ofNat_le_cast.mpr h)
  have hguard : ¬ |denominator yValues| < ((2 : K) ^ 52)⁻¹ := by
    have hhalf := half_le_denominator h
    have hsmall : ((2 : K) ^ 52)⁻¹ ≤ 1 / 2 := by norm_num
    rw [abs_of_nonneg (one_half_pos.le.trans hhalf)]
    exact (hsmall.trans hhalf).not_gt
  rw [linearRegression]
  simp only [if_neg hlong]
  exact if_neg hguard

theorem linearRegression_eq (h : 2 ≤ yValues.length) :
    linearRegression yValues =
      (bestSlope Finset.univ (dayOf yValues.length) yValues.get,
        bestIntercept Finset.univ (dayOf yValues.length) yValues.get) := by
  rw [linearRegression_eq_div h, numerator_eq h, denominator_eq h, bestIntercept, bestSlope,
    mean_get, mean_dayOf (Nat.one_le_of_lt h)]
  rfl

theorem card_days_ne_zero (h : 2 ≤ yValues.length) :
    ((Finset.univ : Finset (Fin yValues.length)).card : K) ≠ 0 := by
  rw [Finset.card_univ, Fintype.card_fin]
  exact Nat.cast_ne_zero.mpr (Nat.ne_zero_of_lt h)

theorem denominator_ne_zero (h : 2 ≤ yValues.length) : denominator yValues ≠ 0 :=
  (one_half_pos.trans_le (half_le_denominator h)).ne'

/-- The line of the regression has the least squared error, and no other line has the same one. Of
two values or more, neither their number nor the denominator is zero. -/
theorem linearRegression_leastSquares {yValues : List K} (h : 2 ≤ yValues.length) :
    (yValues.length : K) ≠ 0 ∧ denominator yValues ≠ 0 ∧
      ∀ a b, lineError (linearRegression yValues).1 (linearRegression yValues).2 yValues ≤
          lineError a b yValues ∧
        (lineError a b yValues =
            lineError (linearRegression yValues).1 (linearRegression yValues).2 yValues →
          (a, b) = linearRegression yValues) := by
  have hcard := card_days_ne_zero h
  have hspread := denominator_eq h ▸ denominator_ne_zero h
  refine ⟨by simpa using hcard, denominator_ne_zero h, fun a b => ?_⟩
  simp only [linearRegression_eq h, lineError_eq]
  refine ⟨squaredError_best_le hcard hspread a b, fun heq => ?_⟩
  obtain ⟨rfl, rfl⟩ := eq_best_of_squaredError_le hcard hspread heq.le
  rfl

/-- The line through the costs of two of three days is no closer to all three. -/
theorem linearRegression_leastSquares_threeDays :
    lineError (linearRegression [1, 3, 4]).1 (linearRegression [1, 3, 4]).2 [1, 3, 4] ≤
      lineError 2 1 ([1, 3, 4] : List ℚ) :=
  ((linearRegression_leastSquares (by decide)).2.2 2 1).1

/-! ### Values on a line -/

theorem lineError_nonneg (slope intercept : K) (yValues : List K) :
    0 ≤ lineError slope intercept yValues := by
  apply List.sum_nonneg
  intro error herror
  obtain ⟨⟨y, i⟩, -, rfl⟩ := List.mem_map.mp herror
  exact sq_nonneg _

/-- The regression finds a line that the values are on. -/
theorem linearRegression_of_onLine {slope intercept : K} (h : OnLine slope intercept yValues)
    (hlength : 2 ≤ yValues.length) : linearRegression yValues = (slope, intercept) := by
  have hspread := denominator_eq hlength ▸ denominator_ne_zero hlength
  have hle : lineError slope intercept yValues ≤ lineError (bestSlope Finset.univ
      (dayOf yValues.length) yValues.get) (bestIntercept Finset.univ (dayOf yValues.length)
        yValues.get) yValues := by
    rw [h.lineError_eq_zero]
    exact lineError_nonneg _ _ yValues
  rw [lineError_eq, lineError_eq] at hle
  obtain ⟨hslope, hintercept⟩ :=
    eq_best_of_squaredError_le (card_days_ne_zero hlength) hspread hle
  rw [linearRegression_eq hlength, ← hslope, ← hintercept]

end NeuRust.Observability
