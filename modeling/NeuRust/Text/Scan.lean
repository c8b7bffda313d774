import Mathlib.Data.PNat.Basic
import Mathlib.Data.List.Basic

/-!
Left-to-right scans. A scan looks at a position, may add to its state, and moves on by a
positive amount; `scan` is the loop. What a scan that skips over its finds reports is described
without the loop: an occurrence is `Chosen` when no chosen occurrence before it still covers its
start, which is the leftmost selection of pairwise disjoint occurrences.
-/

namespace NeuRust.Scan

variable {σ ε α : Type*}

/-- `while i + w <= len { (st, k) = body(st, i)?; i += k; }` -/
def scan (w len : ℕ) (body : σ → ℕ → Except ε (σ × ℕ+)) (st : σ) (i : ℕ) : Except ε σ :=
  if i + w ≤ len then
    (body st i).bind fun r => scan w len body r.1 (i + r.2)
  else .ok st
termination_by len + 1 - i
decreasing_by
  have := r.2.pos
  omega

/-- The rule for a scan: an invariant that every iteration keeps, and under which no iteration
fails, holds of the final state and of the position past the end that stopped the loop. -/
theorem scan_ok_of_invariant {w len : ℕ} {body : σ → ℕ → Except ε (σ × ℕ+)} (I : σ → ℕ → Prop)
    (hbody : ∀ st i, i + w ≤ len → I st i → ∃ r, body st i = .ok r ∧ I r.1 (i + r.2))
    {st : σ} {i : ℕ} (h : I st i) :
    ∃ st' j, scan w len body st i = .ok st' ∧ I st' j ∧ len < j + w := by
  induction hm : len + 1 - i using Nat.strong_induction_on generalizing st i with
  | h m ih =>
      by_cases hle : i + w ≤ len
      · obtain ⟨r, hr, hI⟩ := hbody st i hle h
        have hpos := r.2.pos
        obtain ⟨st', j, hst', hj⟩ := ih (len + 1 - (i + r.2)) (by omega) hI rfl
        refine ⟨st', j, ?_, hj⟩
        rw [scan, if_pos hle, hr]
        exact hst'
      · refine ⟨st, i, ?_, h, by omega⟩
        rw [scan, if_neg hle]

/-! ### The leftmost selection -/

/-- Whether the occurrence at `i` belongs to the leftmost selection: no selected occurrence
before it reaches past `i`. -/
def Chosen (occ : ℕ → Option ℕ+) (i : ℕ) : Prop :=
  (occ i).isSome ∧ ∀ j, (h : j < i) → Chosen occ j → ∀ k, occ j = some k → j + k ≤ i
termination_by i

section Chosen

variable {occ : ℕ → Option ℕ+} {i j : ℕ} {k : ℕ+}

theorem chosen_iff :
    Chosen occ i ↔
      (occ i).isSome ∧ ∀ j < i, Chosen occ j → ∀ k, occ j = some k → j + k ≤ i := by
  rw [Chosen]

theorem Chosen.isSome (h : Chosen occ i) : (occ i).isSome := (chosen_iff.mp h).1

theorem Chosen.disjoint (hi : Chosen occ i) (hj : Chosen occ j) (h : j < i)
    (hk : occ j = some k) : j + k ≤ i :=
  (chosen_iff.mp hi).2 j h hj k hk

/-- An occurrence that is not selected is overlapped from the left by a selected one. -/
theorem exists_chosen_of_not_chosen (hi : (occ i).isSome) (h : ¬ Chosen occ i) :
    ∃ j < i, Chosen occ j ∧ ∃ k, occ j = some k ∧ i < j + k := by
  rw [chosen_iff] at h
  push Not at h
  obtain ⟨j, hji, hj, k, hk, hlt⟩ := h hi
  exact ⟨j, hji, hj, k, hk, hlt⟩

/-- Everything selected before `i` ends by `i`. -/
def EndedBy (occ : ℕ → Option ℕ+) (i : ℕ) : Prop :=
  ∀ j < i, Chosen occ j → ∀ k, occ j = some k → j + k ≤ i

theorem EndedBy.chosen (h : EndedBy occ i) (hi : occ i = some k) : Chosen occ i :=
  chosen_iff.mpr ⟨by simp [hi], h⟩

theorem EndedBy.skip (h : EndedBy occ i) (hi : occ i = some k) : EndedBy occ (i + k) := by
  intro j hj hch k' hk'
  rcases lt_trichotomy j i with hlt | rfl | hgt
  · have := h j hlt hch k' hk'
    omega
  · rw [hi] at hk'
    cases hk'
    exact le_rfl
  · have := hch.disjoint (h.chosen hi) hgt hi
    omega

theorem EndedBy.next (h : EndedBy occ i) (hi : occ i = none) : EndedBy occ (i + 1) := by
  intro j hj hch k' hk'
  rcases Nat.lt_succ_iff_lt_or_eq.mp hj with hlt | rfl
  · have := h j hlt hch k' hk'
    omega
  · rw [hi] at hk'
    cases hk'

end Chosen

section Leftmost

variable {occ : ℕ → Option ℕ+} {out : ℕ → List α} {st₀ st : List α} {i : ℕ} {k : ℕ+}

/-- At position `i`, with nothing selected reaching past it, the state holds what was there at the
start and what the selected occurrences before `i` gave. -/
structure Leftmost (occ : ℕ → Option ℕ+) (out : ℕ → List α) (st₀ st : List α) (i : ℕ) : Prop where
  ended : EndedBy occ i
  mem : ∀ a, a ∈ st ↔ a ∈ st₀ ∨ ∃ j < i, Chosen occ j ∧ a ∈ out j

theorem Leftmost.before (h : Leftmost occ out st₀ st i) :
    ∀ a ∈ st, a ∈ st₀ ∨ ∃ j k', occ j = some k' ∧ j + k' ≤ i ∧ a ∈ out j := by
  intro a ha
  rcases (h.mem a).mp ha with hold | ⟨j, hj, hchosen, ha'⟩
  · exact .inl hold
  · obtain ⟨k', hk'⟩ := Option.isSome_iff_exists.mp hchosen.isSome
    exact .inr ⟨j, k', hk', h.ended j hj hchosen k' hk', ha'⟩

/-- The same with the order: what was added came from the positions `js`, one after the other. -/
structure LeftmostOrder (occ : ℕ → Option ℕ+) (out : ℕ → List α) (st₀ : List α) (js : List ℕ)
    (st : List α) (i : ℕ) : Prop where
  ended : EndedBy occ i
  increasing : js.Pairwise (· < ·)
  mem : ∀ j, j ∈ js ↔ j < i ∧ Chosen occ j
  added : st = st₀ ++ js.flatMap out

namespace LeftmostOrder

variable {js : List ℕ}

theorem start (occ : ℕ → Option ℕ+) (out : ℕ → List α) (st₀ : List α) :
    LeftmostOrder occ out st₀ [] st₀ 0 where
  ended := fun j hj => absurd hj (Nat.not_lt_zero j)
  increasing := List.Pairwise.nil
  mem := by simp
  added := by simp

theorem leftmost (h : LeftmostOrder occ out st₀ js st i) : Leftmost occ out st₀ st i where
  ended := h.ended
  mem := by
    intro a
    rw [h.added, List.mem_append, List.mem_flatMap]
    simp only [h.mem, and_assoc]

theorem next (h : LeftmostOrder occ out st₀ js st i) (hi : occ i = none) :
    LeftmostOrder occ out st₀ js st (i + 1) where
  ended := h.ended.next hi
  increasing := h.increasing
  mem := by
    intro j
    rw [h.mem]
    constructor
    · rintro ⟨hj, hchosen⟩
      exact ⟨hj.trans (Nat.lt_succ_self i), hchosen⟩
    · rintro ⟨hj, hchosen⟩
      refine ⟨?_, hchosen⟩
      rcases Nat.lt_succ_iff_lt_or_eq.mp hj with hlt | rfl
      · exact hlt
      · have hsome := hchosen.isSome
        rw [hi] at hsome
        cases hsome
  added := h.added

theorem skip (h : LeftmostOrder occ out st₀ js st i) (hi : occ i = some k) :
    LeftmostOrder occ out st₀ (js ++ [i]) (st ++ out i) (i + k) where
  ended := h.ended.skip hi
  increasing := by
    refine List.pairwise_append.mpr ⟨h.increasing, List.pairwise_singleton _ i, ?_⟩
    intro j hj i' hi'
    rw [List.mem_singleton] at hi'
    rw [hi']
    exact ((h.mem j).mp hj).1
  mem := by
    intro j
    have hself := h.ended.chosen hi
    have hpos := k.pos
    rw [List.mem_append, List.mem_singleton, h.mem]
    constructor
    · rintro (⟨hj, hchosen⟩ | rfl)
      · exact ⟨by omega, hchosen⟩
      · exact ⟨by omega, hself⟩
    · rintro ⟨hj, hchosen⟩
      rcases lt_trichotomy j i with hlt | rfl | hgt
      · exact .inl ⟨hlt, hchosen⟩
      · exact .inr rfl
      · have hle := hchosen.disjoint hself hgt hi
        omega
  added := by
    rw [h.added, List.flatMap_append, List.flatMap_singleton, List.append_assoc]

end LeftmostOrder

/-- A scan that appends `out i` for an occurrence at `i` and skips over it, and otherwise moves
on by one, adds exactly what the leftmost selection gives, from left to right. What the body
appends may depend on what it finds in the state: that is what was there at the start, or what an
occurrence that ended before gave. -/
theorem scan_leftmost_ordered {w len : ℕ} {body : List α → ℕ → Except ε (List α × ℕ+)}
    {st₀ : List α} (occ : ℕ → Option ℕ+) (out : ℕ → List α)
    (hocc : ∀ i, (occ i).isSome → i + w ≤ len)
    (hsome : ∀ st i k, i + w ≤ len → st₀ ⊆ st →
      (∀ a ∈ st, a ∈ st₀ ∨ ∃ j k', occ j = some k' ∧ j + k' ≤ i ∧ a ∈ out j) →
      occ i = some k → body st i = .ok (st ++ out i, k))
    (hnone : ∀ st i, i + w ≤ len → occ i = none → body st i = .ok (st, 1)) :
    ∃ js : List ℕ, scan w len body st₀ 0 = .ok (st₀ ++ js.flatMap out) ∧
      js.Pairwise (· < ·) ∧ ∀ j, j ∈ js ↔ Chosen occ j := by
  have hbody : ∀ st i, i + w ≤ len → (∃ js, LeftmostOrder occ out st₀ js st i) →
      ∃ r, body st i = .ok r ∧ ∃ js, LeftmostOrder occ out st₀ js r.1 (i + r.2) := by
    rintro st i hle ⟨js, h⟩
    cases hi : occ i with
    | none => exact ⟨(st, 1), hnone st i hle hi, js, h.next hi⟩
    | some k =>
        have hkept : st₀ ⊆ st := fun a ha => (h.leftmost.mem a).mpr (.inl ha)
        have hstep := hsome st i k hle hkept h.leftmost.before hi
        exact ⟨(st ++ out i, k), hstep, js ++ [i], h.skip hi⟩
  obtain ⟨st', i, hst', ⟨js, h⟩, hend⟩ :=
    scan_ok_of_invariant (fun st i => ∃ js, LeftmostOrder occ out st₀ js st i) hbody
      ⟨[], .start occ out st₀⟩
  refine ⟨js, by rw [hst', h.added], h.increasing, ?_⟩
  intro j
  rw [h.mem]
  constructor
  · exact And.right
  · intro hchosen
    have hle := hocc j hchosen.isSome
    exact ⟨by omega, hchosen⟩

end Leftmost

def fixed (p : ℕ → Bool) (k : ℕ+) (i : ℕ) : Option ℕ+ := if p i then some k else none

theorem fixed_eq_some_iff {p : ℕ → Bool} {k k' : ℕ+} {i : ℕ} :
    fixed p k i = some k' ↔ k' = k ∧ p i = true := by
  rw [fixed]
  split
  case isTrue h => exact ⟨fun hk => ⟨(Option.some.inj hk).symm, h⟩, fun hk => by rw [hk.1]⟩
  case isFalse h => exact ⟨fun hk => (by cases hk), fun hk => absurd hk.2 h⟩

theorem fixed_eq_none_iff {p : ℕ → Bool} {k : ℕ+} {i : ℕ} :
    fixed p k i = none ↔ ¬ p i = true := by
  simp [fixed]

theorem isSome_fixed_iff {p : ℕ → Bool} {k : ℕ+} {i : ℕ} :
    (fixed p k i).isSome ↔ p i = true := by
  rw [Option.isSome_iff_exists]
  exact ⟨fun ⟨_, hk⟩ => (fixed_eq_some_iff.mp hk).2, fun h => ⟨k, fixed_eq_some_iff.mpr ⟨rfl, h⟩⟩⟩

/-- Occurrences that never overlap are all selected. -/
theorem chosen_fixed_iff {p : ℕ → Bool} {k : ℕ+}
    (h : ∀ i j, j < i → p i = true → p j = true → j + k ≤ i) (i : ℕ) :
    Chosen (fixed p k) i ↔ p i = true := by
  rw [chosen_iff, isSome_fixed_iff]
  refine ⟨And.left, fun hi => ⟨hi, fun j hj _ k' hk' => ?_⟩⟩
  obtain ⟨rfl, hpj⟩ := fixed_eq_some_iff.mp hk'
  exact h i j hj hi hpj

end NeuRust.Scan
