import Mathlib.Algebra.BigOperators.Field
import Mathlib.Algebra.BigOperators.Ring.Finset
import Mathlib.Algebra.Order.BigOperators.Ring.Finset
import Mathlib.Algebra.Order.Field.Basic
import Mathlib.Tactic.FieldSimp
import Mathlib.Tactic.LinearCombination
import Mathlib.Tactic.Linarith
import Mathlib.Tactic.Positivity
import Mathlib.Tactic.Ring

/-!
The line of least squares through finitely many points. The squared error of any line is that of
the best one, and a square for each of the two ways in which it differs: its slope, and its height
at the mean.
-/

namespace NeuRust

open Finset

variable {ι K : Type*} [Field K] (s : Finset ι)

def mean (f : ι → K) : K := (∑ i ∈ s, f i) / s.card

/-- The sum of the products of the deviations from the means. -/
def codeviation (f g : ι → K) : K := ∑ i ∈ s, (f i - mean s f) * (g i - mean s g)

def squaredError (x y : ι → K) (slope intercept : K) : K :=
  ∑ i ∈ s, (y i - (slope * x i + intercept)) ^ 2

def bestSlope (x y : ι → K) : K := codeviation s x y / codeviation s x x

def bestIntercept (x y : ι → K) : K := mean s y - bestSlope s x y * mean s x

variable {s} {x y : ι → K}

theorem sum_sub_mean (hs : (s.card : K) ≠ 0) (f : ι → K) : ∑ i ∈ s, (f i - mean s f) = 0 := by
  rw [sum_sub_distrib, sum_const, nsmul_eq_mul, mean, mul_div_cancel₀ _ hs, sub_self]

theorem squaredError_expand (hs : (s.card : K) ≠ 0) (slope intercept : K) :
    squaredError s x y slope intercept =
      codeviation s y y - 2 * slope * codeviation s x y + slope ^ 2 * codeviation s x x +
        s.card * (mean s y - (slope * mean s x + intercept)) ^ 2 := by
  have hpoint (i : ι) : (y i - (slope * x i + intercept)) ^ 2 =
      (y i - mean s y) * (y i - mean s y) - 2 * slope * ((x i - mean s x) * (y i - mean s y)) +
        slope ^ 2 * ((x i - mean s x) * (x i - mean s x)) +
        (2 * (mean s y - (slope * mean s x + intercept)) * (y i - mean s y) -
          2 * (mean s y - (slope * mean s x + intercept)) * slope * (x i - mean s x)) +
        (mean s y - (slope * mean s x + intercept)) ^ 2 := by
    ring
  simp only [squaredError, hpoint, sum_add_distrib, sum_sub_distrib, ← mul_sum, sum_sub_mean hs,
    sum_const, nsmul_eq_mul, codeviation]
  ring

/-- What a line adds to the error of the best one. -/
theorem squaredError_eq (hs : (s.card : K) ≠ 0) (hx : codeviation s x x ≠ 0)
    (slope intercept : K) :
    squaredError s x y slope intercept =
      squaredError s x y (bestSlope s x y) (bestIntercept s x y) +
        ((slope - bestSlope s x y) ^ 2 * codeviation s x x +
          s.card * (mean s y - (slope * mean s x + intercept)) ^ 2) := by
  have hslope : codeviation s x y = bestSlope s x y * codeviation s x x :=
    (div_mul_cancel₀ _ hx).symm
  have hheight : mean s y - (bestSlope s x y * mean s x + bestIntercept s x y) = 0 := by
    rw [bestIntercept]
    ring
  rw [squaredError_expand hs, squaredError_expand hs, hheight, hslope]
  ring

section

variable [LinearOrder K] [IsStrictOrderedRing K]

theorem codeviation_self_nonneg : 0 ≤ codeviation s x x :=
  sum_nonneg fun i _ => mul_self_nonneg (x i - mean s x)

/-- Two points that differ are apart from the mean. -/
theorem le_codeviation_self {i j : ι} (hi : i ∈ s) (hj : j ∈ s) (hne : i ≠ j) :
    (x i - x j) ^ 2 / 2 ≤ codeviation s x x := by
  classical
  have hpair : ∑ k ∈ {i, j}, (x k - mean s x) * (x k - mean s x) ≤ codeviation s x x := by
    apply sum_le_sum_of_subset_of_nonneg
    · exact insert_subset hi (singleton_subset_iff.mpr hj)
    · exact fun k _ _ => mul_self_nonneg (x k - mean s x)
  rw [sum_pair hne] at hpair
  refine le_trans ?_ hpair
  linarith [sq_nonneg (x i - mean s x + (x j - mean s x))]

/-- No line has a smaller error than the best one. -/
theorem squaredError_best_le (hs : (s.card : K) ≠ 0) (hx : codeviation s x x ≠ 0)
    (slope intercept : K) :
    squaredError s x y (bestSlope s x y) (bestIntercept s x y) ≤
      squaredError s x y slope intercept := by
  rw [squaredError_eq hs hx slope intercept]
  apply le_add_of_nonneg_right
  exact add_nonneg (mul_nonneg (sq_nonneg _) codeviation_self_nonneg)
    (mul_nonneg (Nat.cast_nonneg _) (sq_nonneg _))

/-- No other line has the same error. -/
theorem eq_best_of_squaredError_le (hs : (s.card : K) ≠ 0) (hx : codeviation s x x ≠ 0)
    {slope intercept : K}
    (h : squaredError s x y slope intercept ≤
      squaredError s x y (bestSlope s x y) (bestIntercept s x y)) :
    slope = bestSlope s x y ∧ intercept = bestIntercept s x y := by
  rw [squaredError_eq hs hx slope intercept] at h
  have htilt : 0 ≤ (slope - bestSlope s x y) ^ 2 * codeviation s x x :=
    mul_nonneg (sq_nonneg _) codeviation_self_nonneg
  have hshift : 0 ≤ s.card * (mean s y - (slope * mean s x + intercept)) ^ 2 :=
    mul_nonneg (Nat.cast_nonneg _) (sq_nonneg _)
  have hslope : slope = bestSlope s x y := by
    have hzero : (slope - bestSlope s x y) ^ 2 * codeviation s x x = 0 := by linarith
    exact sub_eq_zero.mp (pow_eq_zero_iff two_ne_zero |>.mp
      ((mul_eq_zero.mp hzero).resolve_right hx))
  have hheight : mean s y - (slope * mean s x + intercept) = 0 := by
    have hzero : s.card * (mean s y - (slope * mean s x + intercept)) ^ 2 = 0 := by linarith
    exact pow_eq_zero_iff two_ne_zero |>.mp ((mul_eq_zero.mp hzero).resolve_left hs)
  refine ⟨hslope, ?_⟩
  rw [bestIntercept, ← hslope]
  linear_combination -hheight

end

end NeuRust
