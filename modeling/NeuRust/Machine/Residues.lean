import Mathlib.Data.Int.CardIntervalMod
import Mathlib.Data.List.Count

/-!
Numbers that are spread evenly over the residues modulo `k`: no residue is taken by two more of
them than any other one. Numbers that go through the residues in turn are.
-/

namespace NeuRust

/-- The numbers of elements with any two residues differ by at most one. -/
def SpreadEvenly (k : ℕ) (l : List ℕ) : Prop :=
  ∀ i < k, ∀ j < k, (l.countP fun n => n % k = i) ≤ (l.countP fun n => n % k = j) + 1

instance (k : ℕ) (l : List ℕ) : Decidable (SpreadEvenly k l) :=
  inferInstanceAs (Decidable (∀ i < k, ∀ j < k, _ ≤ _))

/-- The residue of each element follows that of the one before it. -/
def InTurn (k : ℕ) (l : List ℕ) : Prop := l.IsChain fun m n => n % k = (m + 1) % k

/-- In turn, the residues are those of consecutive numbers. -/
theorem map_mod_of_inTurn {k a : ℕ} {l : List ℕ} (h : InTurn k (a :: l)) :
    (a :: l).map (· % k) = (List.range (l.length + 1)).map fun i => (a + i) % k := by
  induction l generalizing a with
  | nil => simp
  | cons b l ih =>
      obtain ⟨hb, hl⟩ := List.isChain_cons_cons.mp h
      rw [List.map_cons, ih hl, List.length_cons, List.range_succ_eq_map (n := l.length + 1),
        List.map_cons, List.map_map, Nat.add_zero]
      congr 1
      apply List.map_congr_left
      intro i _
      show (b + i) % k = (a + (i + 1)) % k
      rw [Nat.add_mod, hb, ← Nat.add_mod, Nat.add_right_comm, Nat.add_assoc]

/-- Among the first `n` consecutive numbers each residue is taken `n / k` times or once more. -/
theorem count_shift (a n : ℕ) {k r : ℕ} (hr : r < k) :
    n / k ≤ n.count (fun i => (a + i) % k = r) ∧
      n.count (fun i => (a + i) % k = r) ≤ n / k + 1 := by
  have hk : 0 < k := by omega
  have hzero : a + (k - a % k) = k * (a / k + 1) := by
    have hdiv := Nat.div_add_mod a k
    have hmod := Nat.mod_lt a hk
    rw [Nat.mul_add]
    omega
  have hshift : ∀ i, (a + i) % k = r ↔ i ≡ r + (k - a % k) [MOD k] := by
    intro i
    have hsum : a + i + (k - a % k) = i + k * (a / k + 1) := by omega
    have hi : a + i + (k - a % k) ≡ i [MOD k] := by
      rw [hsum]
      exact Nat.add_mul_mod_self_left i k _
    calc (a + i) % k = r ↔ a + i ≡ r [MOD k] := by rw [Nat.ModEq, Nat.mod_eq_of_lt hr]
      _ ↔ a + i + (k - a % k) ≡ r + (k - a % k) [MOD k] :=
        ⟨fun h => h.add_right _, Nat.ModEq.add_right_cancel' _⟩
      _ ↔ i ≡ r + (k - a % k) [MOD k] := ⟨hi.symm.trans, hi.trans⟩
  simp only [hshift]
  rw [Nat.count_modEq_card n hk]
  split <;> omega

theorem spreadEvenly_of_inTurn {k : ℕ} {l : List ℕ} (h : InTurn k l) : SpreadEvenly k l := by
  intro i hi j hj
  cases l with
  | nil => simp
  | cons a l =>
      have hcount : ∀ r, ((a :: l).countP fun n => n % k = r) =
          (l.length + 1).count fun i => (a + i) % k = r := by
        intro r
        have hmap := congrArg (List.countP fun n => n = r) (map_mod_of_inTurn h)
        rw [List.countP_map, List.countP_map] at hmap
        exact hmap
      obtain ⟨-, hle⟩ := count_shift a (l.length + 1) hi
      obtain ⟨hge, -⟩ := count_shift a (l.length + 1) hj
      rw [hcount, hcount]
      omega

end NeuRust
