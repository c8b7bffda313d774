import Mathlib.Order.Lattice
import Mathlib.Data.List.Basic

/-!
The first of the least elements of a list, which a stable sort brings to the front.
-/

namespace NeuRust

variable {α τ : Type*} [LinearOrder τ]

/-- No element of the list has a lower rank, and none before it has the same. -/
def IsFirstLeast (rank : α → τ) (l : List α) (a : α) : Prop :=
  ∃ before after, l = before ++ a :: after ∧ (∀ b ∈ before, rank a < rank b) ∧
    ∀ b ∈ after, rank a ≤ rank b

namespace IsFirstLeast

variable {rank : α → τ} {l : List α} {a : α}

theorem mem (h : IsFirstLeast rank l a) : a ∈ l := by
  obtain ⟨before, after, rfl, -⟩ := h
  exact List.mem_append_right before List.mem_cons_self

theorem le (h : IsFirstLeast rank l a) {b : α} (hb : b ∈ l) : rank a ≤ rank b := by
  obtain ⟨before, after, rfl, hbefore, hafter⟩ := h
  rcases List.mem_append.mp hb with hb | hb
  · exact (hbefore b hb).le
  · rcases List.mem_cons.mp hb with rfl | hb
    · exact le_rfl
    · exact hafter b hb

/-- The head is the first of the least elements if it is one of them. -/
theorem head_iff {l : List α} : IsFirstLeast rank (a :: l) a ↔ ∀ b ∈ l, rank a ≤ rank b := by
  constructor
  · intro h b hb
    exact h.le (List.mem_cons_of_mem a hb)
  · intro h
    exact ⟨[], l, rfl, nofun, h⟩

/-- If the head is one of the least elements, it is the first of them. -/
theorem eq_head {b : α} (h : IsFirstLeast rank (b :: l) a)
    (hleast : ∀ c ∈ b :: l, rank b ≤ rank c) : a = b := by
  have ha := hleast a h.mem
  obtain ⟨before, after, heq, hbefore, -⟩ := h
  cases before with
  | nil => exact (List.cons.inj heq).1.symm
  | cons c before =>
      obtain ⟨rfl, -⟩ := List.cons.inj heq
      exact absurd ha (not_le_of_gt (hbefore b List.mem_cons_self))

theorem unique {b : α} (ha : IsFirstLeast rank l a) (hb : IsFirstLeast rank l b) : a = b := by
  have hle := ha.le hb.mem
  have hge := hb.le ha.mem
  obtain ⟨before, after, rfl, hbefore, -⟩ := ha
  obtain ⟨before', after', heq, hbefore', -⟩ := hb
  -- whichever comes first would be less than the other
  rcases List.append_eq_append_iff.mp heq with ⟨between, rfl, hrest⟩ | ⟨between, rfl, hrest⟩
  · cases between with
    | nil => exact (List.cons.inj hrest).1
    | cons c between =>
        obtain rfl := (List.cons.inj hrest).1
        exact absurd hle (hbefore' a (by simp)).not_ge
  · cases between with
    | nil => exact (List.cons.inj hrest).1.symm
    | cons c between =>
        obtain rfl := (List.cons.inj hrest).1
        exact absurd hge (hbefore b (by simp)).not_ge

theorem congr {τ' : Type*} [LinearOrder τ'] {rank' : α → τ'} (h : IsFirstLeast rank l a)
    (horder : ∀ b ∈ l, ∀ c ∈ l, rank b ≤ rank c ↔ rank' b ≤ rank' c) :
    IsFirstLeast rank' l a := by
  have ha := h.mem
  obtain ⟨before, after, rfl, hbefore, hafter⟩ := h
  refine ⟨before, after, rfl, fun b hb => ?_, fun b hb => ?_⟩
  · have hmem := List.mem_append_left (a :: after) hb
    exact not_le.mp (mt (horder b hmem a ha).mpr (hbefore b hb).not_ge)
  · exact (horder a ha b (by simp [hb])).mp (hafter b hb)

theorem cons {b : α} (h : IsFirstLeast rank l a) (hlt : rank a < rank b) :
    IsFirstLeast rank (b :: l) a := by
  obtain ⟨before, after, rfl, hbefore, hafter⟩ := h
  exact ⟨b :: before, after, rfl, List.forall_mem_cons.mpr ⟨hlt, hbefore⟩, hafter⟩

theorem of_map {β : Type*} {f : β → α} {l : List β} (h : IsFirstLeast rank (l.map f) a) :
    ∃ b, f b = a ∧ IsFirstLeast (rank ∘ f) l b := by
  obtain ⟨before, after, heq, hbefore, hafter⟩ := h
  obtain ⟨before, rest, rfl, rfl, hrest⟩ := List.map_eq_append_iff.mp heq
  obtain ⟨b, after, rfl, rfl, rfl⟩ := List.map_eq_cons_iff.mp hrest
  refine ⟨b, rfl, before, after, rfl, fun c hc => ?_, fun c hc => ?_⟩
  · exact hbefore (f c) (List.mem_map_of_mem hc)
  · exact hafter (f c) (List.mem_map_of_mem hc)

/-- What a stable sort puts first. -/
theorem of_head_mergeSort
    (h : (l.mergeSort fun a b => decide (rank a ≤ rank b)).head? = some a) :
    IsFirstLeast rank l a := by
  have trans : ∀ a b c : α, decide (rank a ≤ rank b) = true → decide (rank b ≤ rank c) = true →
      decide (rank a ≤ rank c) = true := by
    intro a b c hab hbc
    exact decide_eq_true ((of_decide_eq_true hab).trans (of_decide_eq_true hbc))
  have total : ∀ a b : α, (decide (rank a ≤ rank b) || decide (rank b ≤ rank a)) = true := by
    intro a b
    rw [Bool.or_eq_true, decide_eq_true_eq, decide_eq_true_eq]
    exact le_total _ _
  induction l with
  | nil => simp at h
  | cons x l ih =>
      obtain ⟨l₁, l₂, hcons, hl, hlt⟩ := List.mergeSort_cons trans total x l
      rw [hcons] at h
      cases l₁ with
      | nil =>
          obtain rfl := Option.some.inj h
          have hsorted := List.pairwise_mergeSort trans total (x :: l)
          rw [hcons, List.nil_append, List.pairwise_cons] at hsorted
          rw [List.nil_append] at hl
          apply head_iff.mpr
          intro b hb
          apply of_decide_eq_true
          apply hsorted.1
          rw [← hl]
          exact List.mem_mergeSort.mpr hb
      | cons y l₁ =>
          obtain rfl := Option.some.inj h
          apply (ih (by rw [hl]; rfl)).cons
          have hle := hlt y List.mem_cons_self
          rw [Bool.not_eq_true', decide_eq_false_iff_not, not_le] at hle
          exact hle

end IsFirstLeast

end NeuRust
