import Mathlib.Data.List.Basic

/-!
Filtering with a fallback: the elements that pass, or the whole list if none does.
-/

namespace NeuRust

variable {α : Type*} {p q : α → Bool} {l : List α} {a : α}

def filterOrAll (p : α → Bool) (l : List α) : List α :=
  if (l.filter p).isEmpty then l else l.filter p

theorem filterOrAll_sublist (p : α → Bool) (l : List α) : (filterOrAll p l).Sublist l := by
  rw [filterOrAll]
  split
  · exact List.Sublist.refl l
  · exact List.filter_sublist

theorem filterOrAll_ne_nil (p : α → Bool) (h : l ≠ []) : filterOrAll p l ≠ [] := by
  rw [filterOrAll]
  split
  next => exact h
  next hsome => simpa using hsome

theorem mem_filterOrAll : a ∈ filterOrAll p l ↔ a ∈ l ∧ (p a = true ∨ ∀ b ∈ l, p b = false) := by
  by_cases hnone : ∀ b ∈ l, p b = false
  · have hempty : l.filter p = [] := List.filter_eq_nil_iff.mpr fun b hb => by simp [hnone b hb]
    rw [filterOrAll, hempty, if_pos List.isEmpty_nil]
    exact (and_iff_left (.inr hnone)).symm
  · have hsome : l.filter p ≠ [] := fun h => hnone fun b hb => by
      simpa using List.filter_eq_nil_iff.mp h b hb
    rw [filterOrAll, if_neg (by simpa using hsome), List.mem_filter, or_iff_left hnone]

/-- One filter keeps no more than another exactly when the other falls back, or it keeps what the
first one keeps, and all if the first one falls back. -/
theorem filterOrAll_subset_iff :
    (∀ a ∈ filterOrAll p l, a ∈ filterOrAll q l) ↔
      (∀ a ∈ l, q a = false) ∨ (∀ a ∈ l, p a = true → q a = true) ∧
        ((∃ a ∈ l, p a = true) ∨ ∀ a ∈ l, q a = true) := by
  simp only [mem_filterOrAll]
  constructor
  · intro h
    by_cases hnone : ∀ a ∈ l, q a = false
    · exact .inl hnone
    right
    have hkept (a : α) (ha : a ∈ l) (hp : p a = true ∨ ∀ b ∈ l, p b = false) : q a = true :=
      (h a ⟨ha, hp⟩).2.resolve_right hnone
    refine ⟨fun a ha hp => hkept a ha (.inl hp), ?_⟩
    by_cases hsome : ∃ a ∈ l, p a = true
    · exact .inl hsome
    · right
      intro a ha
      exact hkept a ha (.inr fun b hb => Bool.eq_false_iff.mpr fun hb' => hsome ⟨b, hb, hb'⟩)
  · rintro (hnone | ⟨himp, hall⟩) a ⟨ha, hp⟩
    · exact ⟨ha, .inr hnone⟩
    · refine ⟨ha, .inl ?_⟩
      rcases hp with hp | hfallback
      · exact himp a ha hp
      · apply hall.resolve_left _ a ha
        rintro ⟨b, hb, hb'⟩
        simp [hfallback b hb] at hb'

end NeuRust
