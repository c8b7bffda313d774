import Mathlib.Data.List.MinMax

/-!
The records of a list: its elements that rank above a bound and above all elements before them.
They are what a loop for the maximum assigns to its variable, one after the other.
-/

namespace NeuRust

variable {α τ : Type*} [LinearOrder τ]

/-- The elements that rank above the bound and above all before them, in order. -/
def records (rank : α → τ) (bound : τ) : List α → List α
  | [] => []
  | a :: l => if bound < rank a then a :: records rank (rank a) l else records rank bound l

variable {rank : α → τ} {bound : τ} {a : α} {l : List α}

theorem records_cons_of_lt (h : bound < rank a) :
    records rank bound (a :: l) = a :: records rank (rank a) l :=
  if_pos h

theorem records_cons_of_le (h : rank a ≤ bound) :
    records rank bound (a :: l) = records rank bound l :=
  if_neg h.not_gt

theorem records_sublist : (records rank bound l).Sublist l := by
  induction l generalizing bound with
  | nil => exact .slnil
  | cons a l ih =>
      rcases lt_or_ge bound (rank a) with hlt | hle
      · rw [records_cons_of_lt hlt]
        exact ih.cons_cons a
      · rw [records_cons_of_le hle]
        exact ih.cons a

theorem records_eq_nil_iff : records rank bound l = [] ↔ ∀ a ∈ l, rank a ≤ bound := by
  induction l with
  | nil => simp [records]
  | cons a l ih =>
      rw [List.forall_mem_cons]
      rcases lt_or_ge bound (rank a) with hlt | hle
      · rw [records_cons_of_lt hlt]
        exact iff_of_false (List.cons_ne_nil _ _) fun h => h.1.not_gt hlt
      · rw [records_cons_of_le hle, ih, and_iff_right hle]

theorem head?_records :
    (records rank bound l).head? = l.find? fun a => decide (bound < rank a) := by
  induction l with
  | nil => rfl
  | cons a l ih =>
      rcases lt_or_ge bound (rank a) with hlt | hle
      · rw [records_cons_of_lt hlt, List.find?_cons_of_pos (by simp [hlt]), List.head?_cons]
      · rw [records_cons_of_le hle, List.find?_cons_of_neg (by simp [hle]), ih]

/-- A record is the only one if it ranks as high as any element. -/
theorem records_eq_singleton_iff {first : α}
    (hfirst : (records rank bound l).head? = some first) :
    records rank bound l = [first] ↔ ∀ a ∈ l, rank a ≤ rank first := by
  induction l with
  | nil => cases hfirst
  | cons a l ih =>
      rw [List.forall_mem_cons]
      rcases lt_or_ge bound (rank a) with hlt | hle
      · rw [records_cons_of_lt hlt] at hfirst ⊢
        obtain rfl := Option.some.inj hfirst
        rw [List.cons_eq_cons, and_iff_right rfl, records_eq_nil_iff, and_iff_right le_rfl]
      · rw [records_cons_of_le hle] at hfirst ⊢
        rw [ih hfirst]
        have hbound : bound < rank first := by
          rw [head?_records] at hfirst
          simpa using List.find?_some hfirst
        rw [and_iff_right (hle.trans hbound.le)]

/-- The last record, or an element to start from, is the first of the highest elements. -/
theorem getLast?_records_or :
    (records rank (rank a) l).getLast?.or (some a) = (a :: l).argmax rank := by
  have hfold (l : List α) (a : α) : (records rank (rank a) l).getLast?.or (some a) =
      l.foldl (List.argAux fun b c => rank c < rank b) (some a) := by
    induction l generalizing a with
    | nil => rfl
    | cons b l ih =>
        rcases lt_or_ge (rank a) (rank b) with hlt | hle
        · have haux : List.argAux (fun b c => rank c < rank b) (some a) b = some b := if_pos hlt
          rw [records_cons_of_lt hlt, List.foldl_cons, haux, ← ih, List.getLast?_cons,
            Option.some_or]
          cases (records rank (rank b) l).getLast? <;> rfl
        · have haux : List.argAux (fun b c => rank c < rank b) (some a) b = some a :=
            if_neg hle.not_gt
          rw [records_cons_of_le hle, List.foldl_cons, haux, ih]
  exact hfold l a

theorem records_filter :
    records rank bound (l.filter fun a => decide (bound < rank a)) = records rank bound l := by
  have hfilter (l : List α) (b : τ) (hb : bound ≤ b) :
      records rank b (l.filter fun a => decide (bound < rank a)) = records rank b l := by
    induction l generalizing b with
    | nil => rfl
    | cons a l ih =>
        rcases lt_or_ge b (rank a) with hlt | hle
        · rw [List.filter_cons_of_pos (by simp [hb.trans_lt hlt]), records_cons_of_lt hlt,
            records_cons_of_lt hlt, ih _ (hb.trans hlt.le)]
        · rw [records_cons_of_le hle, ← ih b hb, List.filter_cons]
          split
          · exact records_cons_of_le hle
          · rfl
  exact hfilter l bound le_rfl

/-- The last record is the first of the highest elements above the bound. -/
theorem getLast?_records :
    (records rank bound l).getLast? =
      (l.filter fun a => decide (bound < rank a)).argmax rank := by
  rw [← records_filter]
  generalize hl : l.filter (fun a => decide (bound < rank a)) = above
  cases above with
  | nil => rfl
  | cons a above =>
      have ha : bound < rank a := by
        have hmem : a ∈ l.filter fun a => decide (bound < rank a) := by simp [hl]
        exact of_decide_eq_true (List.mem_filter.mp hmem).2
      rw [records_cons_of_lt ha, ← getLast?_records_or, List.getLast?_cons]
      cases (records rank (rank a) above).getLast? <;> rfl

end NeuRust
