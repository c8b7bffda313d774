import Mathlib.Data.List.Infix

/-!
Runs of a labelled transition relation. A run keeps the steps it took, the latest one first, so
that a statement about a run can look back at what was done before a step.
-/

namespace NeuRust

/-- One step: the state before it, what was done, the state after it. -/
structure Transition (σ α : Type*) where
  pre : σ
  label : α
  post : σ

/-- The steps lead from the first state to the last one. -/
inductive Run {σ α : Type*} (step : σ → α → σ → Prop) (start : σ) :
    List (Transition σ α) → σ → Prop
  | nil : Run step start [] start
  | snoc {steps : List (Transition σ α)} {s : σ} {a : α} {s' : σ}
      (run : Run step start steps s) (h : step s a s') :
      Run step start (⟨s, a, s'⟩ :: steps) s'

namespace Run

variable {σ α : Type*} {step : σ → α → σ → Prop} {start s : σ} {steps : List (Transition σ α)}

/-- A property of the state together with the steps that led to it. -/
theorem invariant_of_history {I : List (Transition σ α) → σ → Prop} (hstart : I [] start)
    (hstep : ∀ {steps s a s'}, Run step start steps s → I steps s → step s a s' →
      I (⟨s, a, s'⟩ :: steps) s')
    (run : Run step start steps s) : I steps s := by
  induction run with
  | nil => exact hstart
  | snoc run h ih => exact hstep run ih h

/-- A property that a step keeps if it meets a condition on what it finds. The condition may look
back at the steps before it. -/
theorem invariant_if {I : List (Transition σ α) → σ → Prop}
    {P : List (Transition σ α) → Transition σ α → Prop} (hstart : I [] start)
    (hstep : ∀ {steps s a s'}, I steps s → step s a s' → P steps ⟨s, a, s'⟩ →
      I (⟨s, a, s'⟩ :: steps) s')
    (run : Run step start steps s)
    (hgood : ∀ t earlier, t :: earlier <:+ steps → P earlier t) : I steps s := by
  induction run with
  | nil => exact hstart
  | @snoc steps s a s' run h ih =>
      have hearlier : I steps s := by
        apply ih
        intro t earlier hsuffix
        exact hgood t earlier (hsuffix.trans (List.suffix_cons _ steps))
      exact hstep hearlier h (hgood _ steps List.suffix_rfl)

/-- What came before a step of a run is a run, which ends where the step starts. -/
theorem before {t : Transition σ α} {earlier : List (Transition σ α)}
    (run : Run step start steps s) (h : t :: earlier <:+ steps) :
    Run step start earlier t.pre ∧ step t.pre t.label t.post := by
  induction run with
  | nil => cases List.suffix_nil.mp h
  | @snoc steps s a s' run hstep ih =>
      rcases List.suffix_cons_iff.mp h with heq | hsuffix
      · obtain ⟨rfl, rfl⟩ := List.cons.inj heq
        exact ⟨run, hstep⟩
      · exact ih hsuffix

theorem exists_before {t : Transition σ α} (run : Run step start steps s) (h : t ∈ steps) :
    ∃ earlier, t :: earlier <:+ steps ∧ Run step start earlier t.pre ∧
      step t.pre t.label t.post := by
  obtain ⟨later, earlier, rfl⟩ := List.append_of_mem h
  have hsuffix : t :: earlier <:+ later ++ t :: earlier := List.suffix_append later _
  exact ⟨earlier, hsuffix, run.before hsuffix⟩

/-- A condition on every step that looks at the states alone. -/
theorem invariant_of_forall {I : σ → Prop} {P : Transition σ α → Prop} (hstart : I start)
    (hstep : ∀ {s a s'}, I s → step s a s' → P ⟨s, a, s'⟩ → I s')
    (run : Run step start steps s) (hgood : ∀ t ∈ steps, P t) : I s := by
  apply run.invariant_if (I := fun _ s => I s) (P := fun _ t => P t) hstart
  · intro steps s a s' hs h hgood
    exact hstep hs h hgood
  · intro t earlier hsuffix
    exact hgood t (hsuffix.mem List.mem_cons_self)

/-- What a state holds, and the first one did not, some step has brought in. -/
theorem exists_source {β : Type*} {H : σ → β → Prop} {source : Transition σ α → β → Prop}
    (hstart : ∀ y, ¬ H start y)
    (hstep : ∀ {s a s'}, step s a s' → ∀ y, H s' y → H s y ∨ source ⟨s, a, s'⟩ y)
    (run : Run step start steps s) {y : β} (h : H s y) : ∃ t ∈ steps, source t y := by
  induction run with
  | nil => exact absurd h (hstart y)
  | snoc run hlast ih =>
      rcases hstep hlast y h with hbefore | hsource
      · obtain ⟨t, ht, hsource⟩ := ih hbefore
        exact ⟨t, List.mem_cons_of_mem _ ht, hsource⟩
      · exact ⟨_, List.mem_cons_self, hsource⟩

/-- A run of one system, seen as a run of another: each step that a run can take is one of the
other's, or it is not seen and leaves what is seen as it was. -/
theorem simulate_of_run {σ' β : Type*} {step' : σ' → β → σ' → Prop} (f : σ → σ')
    (view : Transition σ α → Option β)
    (hstep : ∀ {earlier s a s'}, Run step start earlier s → step s a s' →
      (∃ b, view ⟨s, a, s'⟩ = some b ∧ step' (f s) b (f s')) ∨
        view ⟨s, a, s'⟩ = none ∧ f s' = f s)
    (run : Run step start steps s) :
    Run step' (f start)
      (steps.filterMap fun t => (view t).map fun b => ⟨f t.pre, b, f t.post⟩) (f s) := by
  induction run with
  | nil => exact .nil
  | @snoc steps s a s' run h ih =>
      rcases hstep run h with ⟨b, hview, h'⟩ | ⟨hview, hsame⟩
      · rw [List.filterMap_cons_some (b := ⟨f s, b, f s'⟩) (by rw [hview]; rfl)]
        exact .snoc ih h'
      · rw [List.filterMap_cons_none (by rw [hview]; rfl), hsame]
        exact ih

theorem simulate {σ' β : Type*} {step' : σ' → β → σ' → Prop} (f : σ → σ')
    (view : Transition σ α → Option β)
    (hstep : ∀ {s a s'}, step s a s' → (∃ b, view ⟨s, a, s'⟩ = some b ∧ step' (f s) b (f s')) ∨
      view ⟨s, a, s'⟩ = none ∧ f s' = f s)
    (run : Run step start steps s) :
    Run step' (f start)
      (steps.filterMap fun t => (view t).map fun b => ⟨f t.pre, b, f t.post⟩) (f s) :=
  run.simulate_of_run f view fun _ h => hstep h

theorem step_of_mem {t : Transition σ α} (run : Run step start steps s) (h : t ∈ steps) :
    step t.pre t.label t.post := by
  obtain ⟨earlier, -, -, hstep⟩ := run.exists_before h
  exact hstep

end Run

/-- Where one of many moves: what holds of all holds of that one and of the others. -/
theorem forall_mem_middle {α : Type*} {P : α → Prop} {before after : List α} {a : α} :
    (∀ b ∈ before ++ a :: after, P b) ↔ P a ∧ ∀ b ∈ before ++ after, P b := by
  rw [List.forall_mem_append, List.forall_mem_append, List.forall_mem_cons]
  exact and_left_comm

/-! ### Runs that are computed -/

section Exec

variable {σ α : Type*}

/-- The run of a list of labels, where a step may be refused. -/
def exec (next : σ → α → Option σ) (s : σ) : List α → Option (List (Transition σ α) × σ)
  | [] => some ([], s)
  | a :: labels =>
      match next s a with
      | none => none
      | some s' =>
          match exec next s' labels with
          | none => none
          | some (steps, last) => some (steps ++ [⟨s, a, s'⟩], last)

theorem Run.cons {step : σ → α → σ → Prop} {start s s' : σ} {a : α}
    {steps : List (Transition σ α)} (h : step start a s') (run : Run step s' steps s) :
    Run step start (steps ++ [⟨start, a, s'⟩]) s := by
  induction run with
  | nil => exact .snoc .nil h
  | snoc run hstep ih => exact .snoc ih hstep

theorem Run.of_exec {step : σ → α → σ → Prop} {next : σ → α → Option σ}
    (hnext : ∀ {s a s'}, next s a = some s' → step s a s') {s last : σ} {labels : List α}
    {steps : List (Transition σ α)} (h : exec next s labels = some (steps, last)) :
    Run step s steps last := by
  induction labels generalizing s steps with
  | nil =>
      obtain ⟨rfl, rfl⟩ := Prod.mk.inj (Option.some.inj h)
      exact .nil
  | cons a labels ih =>
      rw [exec] at h
      split at h
      · cases h
      next s' hs' =>
        split at h
        · cases h
        next tail final htail =>
          obtain ⟨rfl, rfl⟩ := Prod.mk.inj (Option.some.inj h)
          exact .cons (hnext hs') (ih htail)

/-- A computed run with a property that is computed too. -/
theorem Run.exists_of_exec {step : σ → α → σ → Prop} {next : σ → α → Option σ}
    {s : σ} {labels : List α} {p : List (Transition σ α) × σ → Bool}
    (h : (exec next s labels).any p = true)
    (hnext : ∀ {s a s'}, next s a = some s' → step s a s') :
    ∃ steps last, Run step s steps last ∧ p (steps, last) = true := by
  obtain ⟨⟨steps, last⟩, hexec, hp⟩ := (Option.any_eq_true _ _).mp h
  exact ⟨steps, last, .of_exec hnext hexec, hp⟩

end Exec

end NeuRust
