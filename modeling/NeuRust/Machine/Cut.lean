import Mathlib.Data.List.Infix

/-!
Calls made one after the other, where each is handed what the earlier ones have left and the first
failure ends the sequence.
-/

namespace NeuRust

/-- How a kind of calls is read: the stage a call belongs to, whether it failed, what it may be
handed, and what it leaves behind. -/
structure Protocol (Call Stage F : Type*) where
  stage : Call → Stage
  failed : Call → Bool
  Sees : F → Call → Prop
  leave : F → Call → F

variable {Call Stage F : Type*} {P : Protocol Call Stage F}

/-- The calls are those of the expected stages, up to and including the first failure. Each sees
what the ones before it have left, and `finish` is what all of them leave. -/
structure Cut (P : Protocol Call Stage F) (expected : List Stage) (start : F) (calls : List Call)
    (ok : Bool) (finish : F) : Prop where
  stages : calls.map P.stage <+: expected
  complete : ok = true → calls.map P.stage = expected ∧ ∀ call ∈ calls, P.failed call = false
  cut : ok = false → ∃ earlier last, calls = earlier ++ [last] ∧ P.failed last = true ∧
    ∀ call ∈ earlier, P.failed call = false
  sees : ∀ before call after, calls = before ++ call :: after →
    P.Sees (before.foldl P.leave start) call
  leaves : calls.foldl P.leave start = finish

namespace Cut

variable {expected expected' : List Stage} {start middle finish : F} {calls calls' : List Call}
  {ok : Bool}

theorem nil (start : F) : Cut P [] start [] true start where
  stages := List.prefix_rfl
  complete := fun _ => ⟨rfl, by simp⟩
  cut := nofun
  sees := by simp
  leaves := rfl

theorem single {st : Stage} {call : Call} (hstage : P.stage call = st)
    (hok : P.failed call = !ok) (hsees : P.Sees start call) (hleave : P.leave start call = finish) :
    Cut P [st] start [call] ok finish where
  stages := by
    rw [List.map_singleton, hstage]
  complete := by
    intro h
    simp [hstage, hok, h]
  cut := fun h => ⟨[], call, rfl, by rw [hok, h, Bool.not_false], by simp⟩
  sees := by
    intro before call' after h
    cases before with
    | nil =>
        obtain ⟨rfl, -⟩ := List.cons.inj h
        exact hsees
    | cons _ before => simp at h
  leaves := hleave

theorem append (h : Cut P expected start calls true middle)
    (h' : Cut P expected' middle calls' ok finish) :
    Cut P (expected ++ expected') start (calls ++ calls') ok finish where
  stages := by
    rw [List.map_append, (h.complete rfl).1]
    exact (List.prefix_append_right_inj _).mpr h'.stages
  complete := by
    intro hok
    obtain ⟨hstages, hgood⟩ := h.complete rfl
    obtain ⟨hstages', hgood'⟩ := h'.complete hok
    rw [List.map_append, hstages, hstages']
    refine ⟨rfl, fun call hcall => ?_⟩
    rcases List.mem_append.mp hcall with hcall | hcall
    · exact hgood call hcall
    · exact hgood' call hcall
  cut := by
    intro hok
    obtain ⟨earlier, last, rfl, hlast, hearlier⟩ := h'.cut hok
    refine ⟨calls ++ earlier, last, by rw [List.append_assoc], hlast, fun call hcall => ?_⟩
    rcases List.mem_append.mp hcall with hcall | hcall
    · exact (h.complete rfl).2 call hcall
    · exact hearlier call hcall
  sees := by
    intro before call after heq
    rcases List.append_eq_append_iff.mp heq with ⟨rest, rfl, hrest⟩ | ⟨rest, rfl, hrest⟩
    · rw [List.foldl_append, h.leaves]
      exact h'.sees rest call after hrest
    · cases rest with
      | nil =>
          rw [List.append_nil] at h
          rw [h.leaves]
          exact h'.sees [] call after hrest.symm
      | cons call' rest =>
          obtain ⟨rfl, -⟩ := List.cons.inj hrest
          exact h.sees before _ rest rfl
  leaves := by
    rw [List.foldl_append, h.leaves, h'.leaves]

theorem abort (h : Cut P expected start calls false finish) (later : List Stage) :
    Cut P (expected ++ later) start calls false finish where
  stages := h.stages.trans (List.prefix_append _ _)
  complete := nofun
  cut := h.cut
  sees := h.sees
  leaves := h.leaves

end Cut

end NeuRust
