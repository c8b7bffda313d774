import Mathlib.Data.List.Induction
import Mathlib.Algebra.Order.Group.Nat

/-!
Half-open intervals taken greedily. From a list of intervals sorted by their starts, `select`
takes each one that does not start before the end of the last one it took. What it takes is
pairwise disjoint, and what it leaves out starts inside something it took. It covers all of
the list exactly when no interval crosses out of the intervals it starts in: that is
`WellNested`.
-/

namespace NeuRust.Intervals

variable {α : Type*} (start stop : α → ℕ)

/-- The greedy choice; `last` is the end of the interval taken last. -/
def select : List α → ℕ → List α
  | [], _ => []
  | a :: l, last => if last ≤ start a then a :: select l (stop a) else select l last

def lastStop : List α → ℕ → ℕ
  | [], last => last
  | a :: l, last => if last ≤ start a then lastStop l (stop a) else lastStop l last

/-- What lies between the intervals, from `last` up to `len`. -/
def gaps : List α → ℕ → ℕ → List (ℕ × ℕ)
  | [], last, len => [(last, len)]
  | a :: l, last, len => (last, start a) :: gaps l (stop a) len

/-- An interval that starts before an earlier one has ended lies inside an earlier one. -/
def WellNested (l : List α) : Prop :=
  ∀ pre a post, l = pre ++ a :: post → (∃ b ∈ pre, start a < stop b) →
    ∃ b ∈ pre, start b ≤ start a ∧ stop a ≤ stop b

variable {start stop} {l : List α} {last : ℕ}

theorem mem_of_mem_select {a : α} (h : a ∈ select start stop l last) : a ∈ l := by
  induction l generalizing last with
  | nil => cases h
  | cons b l ih =>
      rw [select] at h
      split at h
      · rcases List.mem_cons.mp h with rfl | h
        · exact List.mem_cons_self
        · exact List.mem_cons_of_mem b (ih h)
      · exact List.mem_cons_of_mem b (ih h)

theorem select_append (l r : List α) (last : ℕ) :
    select start stop (l ++ r) last =
      select start stop l last ++ select start stop r (lastStop start stop l last) := by
  induction l generalizing last with
  | nil => rfl
  | cons a l ih =>
      simp only [List.cons_append, select, lastStop]
      split
      · rw [ih, List.cons_append]
      · rw [ih]

section Proper

variable (hpos : ∀ a ∈ l, start a < stop a)

include hpos

theorem le_lastStop : last ≤ lastStop start stop l last := by
  induction l generalizing last with
  | nil => exact le_rfl
  | cons a l ih =>
      obtain ⟨ha, hrest⟩ := List.forall_mem_cons.mp hpos
      rw [lastStop]
      split
      case isTrue hle => exact (hle.trans ha.le).trans (ih hrest)
      case isFalse => exact ih hrest

theorem start_lt_lastStop {a : α} (h : a ∈ l) : start a < lastStop start stop l last := by
  induction l generalizing last with
  | nil => cases h
  | cons b l ih =>
      obtain ⟨hb, hrest⟩ := List.forall_mem_cons.mp hpos
      rw [lastStop]
      rcases List.mem_cons.mp h with rfl | h
      · split
        case isTrue => exact hb.trans_le (le_lastStop hrest)
        case isFalse hlt => exact (not_le.mp hlt).trans_le (le_lastStop hrest)
      · split
        · exact ih hrest h
        · exact ih hrest h

theorem le_start_of_mem_select {a : α} (h : a ∈ select start stop l last) : last ≤ start a := by
  induction l generalizing last with
  | nil => cases h
  | cons b l ih =>
      obtain ⟨hb, hrest⟩ := List.forall_mem_cons.mp hpos
      rw [select] at h
      split at h
      case isTrue hle =>
        rcases List.mem_cons.mp h with rfl | h
        · exact hle
        · exact (hle.trans hb.le).trans (ih hrest h)
      case isFalse => exact ih hrest h

theorem select_pairwise : (select start stop l last).Pairwise fun a b => stop a ≤ start b := by
  induction l generalizing last with
  | nil => exact List.Pairwise.nil
  | cons a l ih =>
      obtain ⟨-, hrest⟩ := List.forall_mem_cons.mp hpos
      rw [select]
      split
      · exact List.pairwise_cons.mpr ⟨fun b hb => le_start_of_mem_select hrest hb, ih hrest⟩
      · exact ih hrest

end Proper

theorem exists_of_lt_lastStop {n : ℕ} (h : n < lastStop start stop l last) :
    n < last ∨ ∃ t ∈ select start stop l last, n < stop t := by
  induction l generalizing last with
  | nil => exact Or.inl h
  | cons a l ih =>
      rw [lastStop] at h
      rw [select]
      split at h
      case isTrue hle =>
        rw [if_pos hle]
        rcases ih h with h | ⟨t, ht, hn⟩
        · exact Or.inr ⟨a, List.mem_cons_self, h⟩
        · exact Or.inr ⟨t, List.mem_cons_of_mem a ht, hn⟩
      case isFalse hlt =>
        rw [if_neg hlt]
        exact ih h

/-- What the greedy choice leaves out of a sorted list starts inside something it takes. -/
theorem mem_select_or_overlap (hsorted : l.Pairwise fun a b => start a ≤ start b) {a : α}
    (ha : a ∈ l) : a ∈ select start stop l 0 ∨
      ∃ t ∈ select start stop l 0, start t ≤ start a ∧ start a < stop t := by
  obtain ⟨pre, post, rfl⟩ := List.append_of_mem ha
  rw [select_append]
  by_cases htake : lastStop start stop pre 0 ≤ start a
  · refine .inl (List.mem_append_right _ ?_)
    rw [select, if_pos htake]
    exact List.mem_cons_self
  · obtain ⟨t, ht, hlt⟩ :=
      (exists_of_lt_lastStop (not_le.mp htake)).resolve_left (Nat.not_lt_zero _)
    have hle := (List.pairwise_append.mp hsorted).2.2 t (mem_of_mem_select ht) a
      List.mem_cons_self
    exact .inr ⟨t, List.mem_append_left _ ht, hle, hlt⟩

theorem eq_of_common_point {n : ℕ} (h : l.Pairwise fun a b => stop a ≤ start b) {s t : α}
    (hs : s ∈ l) (ht : t ∈ l) (hsn : start s ≤ n ∧ n < stop s) (htn : start t ≤ n ∧ n < stop t) :
    s = t := by
  induction l with
  | nil => cases hs
  | cons a l ih =>
      obtain ⟨ha, hl⟩ := List.pairwise_cons.mp h
      rcases List.mem_cons.mp hs with rfl | hs
      · rcases List.mem_cons.mp ht with rfl | ht
        · rfl
        · have := ha t ht
          omega
      · rcases List.mem_cons.mp ht with heq | ht
        · have := ha s hs
          rw [heq] at htn
          omega
        · exact ih hl hs ht

/-! ### Gaps -/

/-- The gaps are what the intervals do not cover. -/
theorem mem_gaps_iff {len n : ℕ} (h : l.Pairwise fun a b => stop a ≤ start b)
    (hpos : ∀ a ∈ l, start a < stop a) (hlast : ∀ a ∈ l, last ≤ start a)
    (hlen : ∀ a ∈ l, stop a ≤ len) (hle : last ≤ len) :
    (∃ g ∈ gaps start stop l last len, g.1 ≤ n ∧ n < g.2) ↔
      (last ≤ n ∧ n < len) ∧ ∀ a ∈ l, ¬ (start a ≤ n ∧ n < stop a) := by
  induction l generalizing last with
  | nil => simp [gaps]
  | cons a l ih =>
      obtain ⟨ha, hl⟩ := List.pairwise_cons.mp h
      have hapos := hpos a List.mem_cons_self
      have halast := hlast a List.mem_cons_self
      have halen := hlen a List.mem_cons_self
      have hrest := ih hl (fun b hb => hpos b (List.mem_cons_of_mem a hb)) ha
        (fun b hb => hlen b (List.mem_cons_of_mem a hb)) halen
      rw [List.forall_mem_cons, gaps]
      simp only [List.mem_cons, exists_eq_or_imp]
      rw [hrest]
      constructor
      · rintro (⟨hlo, hhi⟩ | ⟨⟨hlo, hhi⟩, hout⟩)
        · refine ⟨⟨hlo, by omega⟩, by omega, fun b hb hn => ?_⟩
          have := ha b hb
          omega
        · exact ⟨⟨by omega, hhi⟩, by omega, hout⟩
      · rintro ⟨⟨hlo, hhi⟩, hna, hout⟩
        by_cases hn : n < start a
        · exact Or.inl ⟨hlo, hn⟩
        · exact Or.inr ⟨⟨by omega, hhi⟩, hout⟩

/-! ### What the greedy choice covers -/

theorem WellNested.of_append {l r : List α} (h : WellNested start stop (l ++ r)) :
    WellNested start stop l := by
  intro pre a post heq
  refine h pre a (post ++ r) ?_
  rw [heq, List.append_assoc, List.cons_append]

theorem wellNested_singleton (a : α) : WellNested start stop [a] := by
  rintro pre b post heq ⟨c, hc, -⟩
  have hpos := List.length_pos_of_mem hc
  have hlen := congrArg List.length heq
  rw [List.length_singleton, List.length_append, List.length_cons] at hlen
  omega

theorem wellNested_pair {a b : α} (hstart : start a ≤ start b) (hstop : stop b ≤ stop a) :
    WellNested start stop [a, b] := by
  intro pre c post heq hearlier
  cases pre with
  | nil =>
      obtain ⟨d, hd, -⟩ := hearlier
      cases hd
  | cons d pre =>
      obtain ⟨rfl, htail⟩ := List.cons.inj heq
      cases pre with
      | nil =>
          obtain ⟨rfl, -⟩ := List.cons.inj htail
          exact ⟨a, List.mem_cons_self, hstart, hstop⟩
      | cons d' pre =>
          have hlength := congrArg List.length htail
          simp at hlength

/-- In a well nested list everything lies inside something the greedy choice takes. -/
theorem WellNested.inside_selected (h : WellNested start stop l)
    (hsorted : l.Pairwise fun a b => start a ≤ start b) {a : α} (ha : a ∈ l) :
    ∃ t ∈ select start stop l 0, start t ≤ start a ∧ stop a ≤ stop t := by
  induction l using List.reverseRecOn generalizing a with
  | nil => cases ha
  | append_singleton l b ih =>
      have hrest {c : α} (hc : c ∈ l) := ih h.of_append (List.pairwise_append.mp hsorted).1 hc
      rw [select_append]
      rcases List.mem_append.mp ha with ha | ha
      · obtain ⟨t, ht, hin⟩ := hrest ha
        exact ⟨t, List.mem_append_left _ ht, hin⟩
      · rw [List.mem_singleton] at ha
        subst ha
        by_cases htake : lastStop start stop l 0 ≤ start a
        · refine ⟨a, List.mem_append_right _ ?_, le_rfl, le_rfl⟩
          rw [select, if_pos htake]
          exact List.mem_cons_self
        · obtain ⟨t, ht, hlt⟩ :=
            (exists_of_lt_lastStop (not_le.mp htake)).resolve_left (Nat.not_lt_zero _)
          obtain ⟨b, hb, hin⟩ := h l a [] rfl ⟨t, mem_of_mem_select ht, hlt⟩
          obtain ⟨t', ht', hin'⟩ := hrest hb
          exact ⟨t', List.mem_append_left _ ht', hin'.1.trans hin.1, hin.2.trans hin'.2⟩

/-- Conversely, a sorted list is well nested when everything in it lies inside something the
greedy choice takes. -/
theorem wellNested_of_inside_selected (hpos : ∀ a ∈ l, start a < stop a)
    (hsorted : l.Pairwise fun a b => start a ≤ start b)
    (h : ∀ a ∈ l, ∃ t ∈ select start stop l 0, start t ≤ start a ∧ stop a ≤ stop t) :
    WellNested start stop l := by
  rintro pre a post rfl ⟨b, hb, hlt⟩
  have ha : a ∈ pre ++ a :: post := List.mem_append_right _ List.mem_cons_self
  have hba : start b ≤ start a := (List.pairwise_append.mp hsorted).2.2 b hb a List.mem_cons_self
  have hapos := hpos a ha
  obtain ⟨t, ht, hin⟩ := h b (List.mem_append_left _ hb)
  obtain ⟨t', ht', hin'⟩ := h a ha
  -- both hold the start of `a`
  obtain rfl := eq_of_common_point (select_pairwise hpos) ht ht' (n := start a)
    ⟨by omega, by omega⟩ ⟨by omega, by omega⟩
  rw [select_append] at ht
  rcases List.mem_append.mp ht with ht | ht
  · exact ⟨t, mem_of_mem_select ht, hin'⟩
  · -- taken after `b` was looked at, it would start after `b`
    have hle := le_start_of_mem_select
      (fun c hc => hpos c (List.mem_append_right _ hc)) ht
    have hreached : start b < lastStop start stop pre 0 :=
      start_lt_lastStop (fun c hc => hpos c (List.mem_append_left _ hc)) hb
    omega

end NeuRust.Intervals
