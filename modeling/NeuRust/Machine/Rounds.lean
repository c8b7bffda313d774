import Mathlib.Data.List.Infix

/-!
Going through a list again and again. What has been visited, the latest first, is made of whole
rounds and of the part of the current round that is done.
-/

namespace NeuRust

variable {α : Type*} {all pending log : List α}

/-- The log is made of rounds through the list, and the rest of the current round is pending.
Between two rounds nothing is. -/
def InRounds (all pending log : List α) : Prop :=
  ∃ (done : List α) (n : ℕ), log = done.reverse ++ (List.replicate n all.reverse).flatten ∧
    (done ++ pending = all ∨ done = [] ∧ pending = [])

namespace InRounds

theorem start (all : List α) : InRounds all [] [] := ⟨[], 0, rfl, .inr ⟨rfl, rfl⟩⟩

theorem begin (h : InRounds all [] log) : InRounds all all log := by
  obtain ⟨done, n, hlog, hdone | ⟨rfl, -⟩⟩ := h
  · refine ⟨[], n + 1, ?_, .inl rfl⟩
    rw [List.append_nil] at hdone
    rw [hlog, hdone]
    rfl
  · exact ⟨[], n, hlog, .inl rfl⟩

theorem visit {a : α} (h : InRounds all (a :: pending) log) : InRounds all pending (a :: log) := by
  obtain ⟨done, n, hlog, hdone | ⟨-, hnil⟩⟩ := h
  · refine ⟨done ++ [a], n, ?_, .inl ?_⟩
    · rw [List.reverse_append, hlog]
      rfl
    · rw [List.append_assoc, ← hdone]
      rfl
  · cases hnil

/-- Once there have been as many visits as the list is long, the latest ones reach all of it. -/
theorem mem_take (h : InRounds all pending log) (hlength : all.length ≤ log.length) {a : α}
    (ha : a ∈ all) : a ∈ log.take all.length := by
  obtain ⟨done, n, rfl, hdone⟩ := h
  obtain ⟨latest, earlier, hlog, hlatest⟩ : ∃ latest earlier : List α,
      done.reverse ++ (List.replicate n all.reverse).flatten = latest ++ earlier ∧
        latest.Perm all := by
    cases n with
    | zero =>
        rw [List.replicate_zero, List.flatten_nil, List.append_nil, List.length_reverse] at hlength
        obtain hdone | ⟨rfl, -⟩ := hdone
        · have hpending : pending = [] := by
            have hsum := congrArg List.length hdone
            rw [List.length_append] at hsum
            exact List.length_eq_zero_iff.mp (by omega)
          rw [hpending, List.append_nil] at hdone
          exact ⟨done.reverse, [], rfl, hdone ▸ List.reverse_perm done⟩
        · have hall : all = [] := List.length_eq_zero_iff.mp (Nat.le_zero.mp hlength)
          exact ⟨[], [], rfl, hall ▸ List.Perm.refl []⟩
    | succ n =>
        rw [List.replicate_succ, List.flatten_cons]
        obtain rfl | ⟨rfl, -⟩ := hdone
        · refine ⟨done.reverse ++ pending.reverse,
            done.reverse ++ (List.replicate n (done ++ pending).reverse).flatten, ?_, ?_⟩
          · rw [List.reverse_append]
            simp only [List.append_assoc]
          · exact (List.reverse_perm done).append (List.reverse_perm pending)
        · exact ⟨all.reverse, _, rfl, List.reverse_perm all⟩
  rw [hlog, ← hlatest.length_eq, List.take_left]
  exact hlatest.mem_iff.mpr ha

end InRounds

end NeuRust
