import Mathlib.Data.List.DropRight

/-!
Maximal runs at either end of a list: the longest suffix, and the longest prefix, all of whose
elements satisfy a predicate. They exist and are unique, whatever loop finds them.
-/

namespace NeuRust.Runs

variable {α : Type*} {p : α → Bool}

/-- `b` is the longest suffix of `a ++ b` all of whose elements satisfy `p`. -/
structure SuffixRun (p : α → Bool) (a b : List α) : Prop where
  all : ∀ x ∈ b, p x = true
  stop : ∀ x, a.getLast? = some x → p x = false

/-- `a` is the longest prefix of `a ++ b` all of whose elements satisfy `p`. -/
structure PrefixRun (p : α → Bool) (a b : List α) : Prop where
  all : ∀ x ∈ a, p x = true
  stop : ∀ x, b.head? = some x → p x = false

theorem exists_suffixRun (p : α → Bool) (l : List α) : ∃ a b, l = a ++ b ∧ SuffixRun p a b := by
  refine ⟨l.rdropWhile p, l.rtakeWhile p, by simp, ⟨fun x hx => List.mem_rtakeWhile_imp hx, ?_⟩⟩
  intro x hx
  obtain ⟨r, hr⟩ := List.getLast?_eq_some_iff.mp hx
  have hlast := List.rdropWhile_last_not p l (by simp [hr])
  simpa [hr] using hlast

theorem exists_prefixRun (p : α → Bool) (l : List α) : ∃ a b, l = a ++ b ∧ PrefixRun p a b := by
  refine ⟨l.takeWhile p, l.dropWhile p, by simp, ⟨fun x hx => ?_, ?_⟩⟩
  · exact List.mem_takeWhile_imp hx
  · intro x hx
    have := List.head?_dropWhile_not p l
    rw [hx] at this
    simpa using this

theorem SuffixRun.unique {a b a' b' : List α} (h : SuffixRun p a b) (h' : SuffixRun p a' b')
    (heq : a ++ b = a' ++ b') : a = a' ∧ b = b' := by
  -- of two different suffixes the longer one reaches past where the shorter one had to stop
  have key : ∀ {a b a' b' : List α} (m : List α), SuffixRun p a b → SuffixRun p a' b' →
      a' = a ++ m → b = m ++ b' → m = [] := by
    intro a b a' b' m hab hab' ha hb
    by_contra hne
    obtain ⟨x, hx⟩ := Option.ne_none_iff_exists'.mp (mt List.getLast?_eq_none_iff.mp hne)
    have hstop := hab'.stop x (by simp [ha, List.getLast?_append, hx])
    have hall := hab.all x (by simp [hb, List.mem_of_getLast? hx])
    rw [hstop] at hall
    cases hall
  rcases List.append_eq_append_iff.mp heq with ⟨m, ha, hb⟩ | ⟨m, ha, hb⟩
  · have hm := key m h h' ha hb
    subst hm
    exact ⟨by simpa using ha.symm, by simpa using hb⟩
  · have hm := key m h' h ha hb
    subst hm
    exact ⟨by simpa using ha, by simpa using hb.symm⟩

theorem PrefixRun.unique {a b a' b' : List α} (h : PrefixRun p a b) (h' : PrefixRun p a' b')
    (heq : a ++ b = a' ++ b') : a = a' ∧ b = b' := by
  have key : ∀ {a b a' b' : List α} (m : List α), PrefixRun p a b → PrefixRun p a' b' →
      a' = a ++ m → b = m ++ b' → m = [] := by
    intro a b a' b' m hab hab' ha hb
    by_contra hne
    obtain ⟨x, r, rfl⟩ := List.exists_cons_of_ne_nil hne
    have hstop := hab.stop x (by simp [hb])
    have hall := hab'.all x (by simp [ha])
    rw [hstop] at hall
    cases hall
  rcases List.append_eq_append_iff.mp heq with ⟨m, ha, hb⟩ | ⟨m, ha, hb⟩
  · have hm := key m h h' ha hb
    subst hm
    exact ⟨by simpa using ha.symm, by simpa using hb⟩
  · have hm := key m h' h ha hb
    subst hm
    exact ⟨by simpa using ha, by simpa using hb.symm⟩

/-- The elements from `i` up to `j` are a run that no element before or after prolongs. -/
def MaximalRun (p : α → Bool) (l : List α) (i j : ℕ) : Prop :=
  ∃ a b c, l = a ++ b ++ c ∧ a.length = i ∧ a.length + b.length = j ∧ SuffixRun p a b ∧
    PrefixRun p b c

theorem maximalRun_iff {l : List α} {i j : ℕ} (hij : i ≤ j) (hj : j ≤ l.length) :
    MaximalRun p l i j ↔ (∀ x ∈ (l.drop i).take (j - i), p x = true) ∧
      (∀ x, 0 < i → l[i - 1]? = some x → p x = false) ∧ ∀ x, l[j]? = some x → p x = false := by
  constructor
  · rintro ⟨a, b, c, rfl, rfl, rfl, hbefore, hafter⟩
    refine ⟨fun x hx => hbefore.all x (by simpa using hx), fun x hpos hx => ?_, fun x hx => ?_⟩
    · apply hbefore.stop
      rwa [List.append_assoc, List.getElem?_append_left (by omega),
        ← List.getLast?_eq_getElem?] at hx
    · apply hafter.stop
      rwa [List.getElem?_append_right (by simp), List.length_append, Nat.sub_self,
        ← List.head?_eq_getElem?] at hx
  · rintro ⟨hall, hbefore, hafter⟩
    have hsplit : l = l.take i ++ (l.drop i).take (j - i) ++ l.drop j := by
      have hdrop : l.drop j = (l.drop i).drop (j - i) := by
        rw [List.drop_drop, Nat.add_sub_cancel' hij]
      rw [hdrop, List.append_assoc, List.take_append_drop, List.take_append_drop]
    have hi : (l.take i).length = i := by
      rw [List.length_take]
      omega
    refine ⟨_, _, _, hsplit, hi, ?_, ⟨hall, fun x hx => ?_⟩, ⟨hall, fun x hx => ?_⟩⟩
    · rw [hi, List.length_take, List.length_drop]
      omega
    · rw [List.getLast?_eq_getElem?, hi] at hx
      have hpos : 0 < i := by
        by_contra hzero
        obtain rfl := Nat.eq_zero_of_not_pos hzero
        simp at hx
      rw [List.getElem?_take_of_lt (Nat.sub_lt hpos Nat.one_pos)] at hx
      exact hbefore x hpos hx
    · rw [List.head?_drop] at hx
      exact hafter x hx

theorem exists_last_split {x : α} {l : List α} (h : x ∈ l) :
    ∃ a b, l = a ++ x :: b ∧ x ∉ b := by
  obtain ⟨b, a, hl, hb⟩ := List.eq_append_cons_of_mem (List.mem_reverse.mpr h)
  refine ⟨a.reverse, b.reverse, ?_, by simpa using hb⟩
  have := congrArg List.reverse hl
  simpa using this

theorem last_split_unique {x : α} {a b a' b' : List α} (hb : x ∉ b) (hb' : x ∉ b')
    (heq : a ++ x :: b = a' ++ x :: b') : a = a' ∧ b = b' := by
  rcases List.append_eq_append_iff.mp heq with ⟨m, ha, h⟩ | ⟨m, ha, h⟩
  · cases m with
    | nil => exact ⟨by simpa using ha.symm, by simpa using h⟩
    | cons y m =>
        obtain ⟨rfl, rfl⟩ := List.cons.inj h
        exact absurd (by simp) hb
  · cases m with
    | nil => exact ⟨by simpa using ha, by simpa using h.symm⟩
    | cons y m =>
        obtain ⟨rfl, rfl⟩ := List.cons.inj h
        exact absurd (by simp) hb'

end NeuRust.Runs
