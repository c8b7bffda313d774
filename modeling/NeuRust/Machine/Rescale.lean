import Mathlib.Algebra.Order.Field.Basic

/-!
Min-max normalisation: an interval is stretched to that from 0 to 1, and what lies outside goes to
the nearer end.
-/

namespace NeuRust

variable {K : Type*} [Field K] [LinearOrder K] [IsStrictOrderedRing K]

def rescale (lo hi x : K) : K := max 0 (min 1 ((x - lo) / (hi - lo)))

variable {lo hi x y : K}

theorem rescale_mono (h : lo ≤ hi) : Monotone (rescale lo hi) := by
  intro x y hxy
  have hdiv : (x - lo) / (hi - lo) ≤ (y - lo) / (hi - lo) :=
    div_le_div_of_nonneg_right (sub_le_sub_right hxy lo) (sub_nonneg.mpr h)
  exact max_le_max le_rfl (min_le_min le_rfl hdiv)

theorem rescale_of_mem (hlo : lo ≤ x) (hhi : x ≤ hi) :
    rescale lo hi x = (x - lo) / (hi - lo) := by
  have hnonneg : 0 ≤ (x - lo) / (hi - lo) :=
    div_nonneg (sub_nonneg.mpr hlo) (sub_nonneg.mpr (hlo.trans hhi))
  have hone : (x - lo) / (hi - lo) ≤ 1 :=
    div_le_one_of_le₀ (sub_le_sub_right hhi lo) (sub_nonneg.mpr (hlo.trans hhi))
  rw [rescale, min_eq_right hone, max_eq_right hnonneg]

theorem rescale_lt (hlo : lo ≤ x) (hxy : x < y) (hhi : y ≤ hi) :
    rescale lo hi x < rescale lo hi y := by
  have hpos : 0 < hi - lo := sub_pos.mpr (hlo.trans_lt (hxy.trans_le hhi))
  rw [rescale_of_mem hlo (hxy.le.trans hhi), rescale_of_mem (hlo.trans hxy.le) hhi]
  exact div_lt_div_of_pos_right (sub_lt_sub_right hxy lo) hpos

end NeuRust
