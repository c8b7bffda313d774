import Mathlib.Data.List.Infix
import Mathlib.Data.Finset.Card
import Mathlib.Data.Finset.Basic
import Mathlib.Data.Rat.Cast.Order
import Mathlib.Algebra.Order.Field.Rat

/-!
The stretches of `n` consecutive elements of a list, and the share of them that another list has
as well.
-/

namespace NeuRust

variable {α : Type*}

def windows (n : ℕ) (l : List α) : List (List α) :=
  (List.range (l.length + 1 - n)).map fun i => (l.drop i).take n

theorem mem_windows_iff {n : ℕ} {l w : List α} : w ∈ windows n l ↔ w <:+: l ∧ w.length = n := by
  rw [windows, List.mem_map]
  constructor
  · rintro ⟨i, hi, rfl⟩
    rw [List.mem_range] at hi
    refine ⟨(List.take_prefix _ _).isInfix.trans (List.drop_suffix _ _).isInfix, ?_⟩
    rw [List.length_take, List.length_drop]
    omega
  · rintro ⟨⟨a, b, rfl⟩, rfl⟩
    refine ⟨a.length, ?_, by simp⟩
    rw [List.mem_range]
    simp only [List.length_append]
    omega

theorem windows_ne_nil {n : ℕ} {l : List α} (h : n ≤ l.length) : windows n l ≠ [] := by
  have hfirst : l.take n ∈ windows n l :=
    mem_windows_iff.mpr ⟨(List.take_prefix _ _).isInfix, List.length_take_of_le h⟩
  exact List.ne_nil_of_mem hfirst

/-- What a list has, a longer one has as well. -/
theorem windows_subset {l l' : List α} (h : l <:+: l') (n : ℕ) : windows n l ⊆ windows n l' := by
  intro w hw
  obtain ⟨hwin, hlen⟩ := mem_windows_iff.mp hw
  exact mem_windows_iff.mpr ⟨hwin.trans h, hlen⟩

variable [DecidableEq α]

theorem toFinset_windows_nonempty {n : ℕ} {l : List α} (h : n ≤ l.length) :
    (windows n l).toFinset.Nonempty := by
  rw [Finset.nonempty_iff_ne_empty, Ne, List.toFinset_eq_empty_iff]
  exact windows_ne_nil h

def share (s t : Finset α) : ℚ := (s ∩ t).card / s.card

theorem share_nonneg (s t : Finset α) : 0 ≤ share s t := by
  rw [share]
  exact div_nonneg (Nat.cast_nonneg _) (Nat.cast_nonneg _)

theorem share_le_one (s t : Finset α) : share s t ≤ 1 := by
  apply div_le_one_of_le₀
  · exact_mod_cast Finset.card_le_card Finset.inter_subset_left
  · exact Nat.cast_nonneg _

theorem share_mono (s : Finset α) {t t' : Finset α} (h : t ⊆ t') : share s t ≤ share s t' := by
  apply div_le_div_of_nonneg_right
  · exact_mod_cast Finset.card_le_card (Finset.inter_subset_inter_left h)
  · exact Nat.cast_nonneg _

theorem share_eq_one_iff {s t : Finset α} (h : s.Nonempty) : share s t = 1 ↔ s ⊆ t := by
  have hpos : (s.card : ℚ) ≠ 0 := by exact_mod_cast h.card_ne_zero
  rw [share, div_eq_one_iff_eq hpos, Nat.cast_inj]
  constructor
  · intro hcard
    exact Finset.inter_eq_left.mp (Finset.eq_of_subset_of_card_le Finset.inter_subset_left hcard.ge)
  · intro hsub
    rw [Finset.inter_eq_left.mpr hsub]

end NeuRust
