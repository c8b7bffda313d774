import NeuRust.Machine.FirstLeast
import Mathlib.Algebra.Order.Ring.Defs
import Mathlib.Tactic.Linarith

/-!
The choice with the least weighted cost and what else counts. A heavier weight never leads to a
choice of a greater cost.
-/

namespace NeuRust

variable {α K : Type*} [Field K] [LinearOrder K] [IsStrictOrderedRing K]
  {cost rest : α → K} {l : List α} {a b : α}

/-- The two choices minimise different sums; each is at least as good as the other for its own. -/
theorem IsFirstLeast.cost_le_of_heavier {w w' : K} (hlt : w' < w)
    (ha : IsFirstLeast (fun x => cost x * w + rest x) l a)
    (hb : IsFirstLeast (fun x => cost x * w' + rest x) l b) : cost a ≤ cost b := by
  have hheavy : cost a * w + rest a ≤ cost b * w + rest b := ha.le hb.mem
  have hlight : cost b * w' + rest b ≤ cost a * w' + rest a := hb.le ha.mem
  have hdiff : cost a * (w - w') ≤ cost b * (w - w') := by linarith
  exact le_of_mul_le_mul_right hdiff (sub_pos.mpr hlt)

/-- If the costs are all the same, the weight makes no difference. -/
theorem IsFirstLeast.eq_of_same_cost {w w' c : K} (hcost : ∀ x ∈ l, cost x = c)
    (ha : IsFirstLeast (fun x => cost x * w + rest x) l a)
    (hb : IsFirstLeast (fun x => cost x * w' + rest x) l b) : a = b := by
  refine ha.unique (hb.congr fun x hx y hy => ?_)
  rw [hcost x hx, hcost y hy, add_le_add_iff_left, add_le_add_iff_left]

end NeuRust
