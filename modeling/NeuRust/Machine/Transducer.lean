import Mathlib.Data.List.Basic
import Mathlib.Logic.Relation

/-!
One-pass transducers: a state that each letter of the input changes, and what each letter writes.
Two inputs are alike if no state tells them apart; a piece of an input may be replaced by one that
is alike.
-/

namespace NeuRust.Transducer

variable {σ α β : Type*}

def run (step : σ → α → σ × List β) : σ → List α → σ × List β
  | s, [] => (s, [])
  | s, a :: input =>
      let (next, written) := step s a
      let (last, rest) := run step next input
      (last, written ++ rest)

variable {step : σ → α → σ × List β}

theorem run_cons (s : σ) (a : α) (input : List α) :
    run step s (a :: input) = ((run step (step s a).1 input).1,
      (step s a).2 ++ (run step (step s a).1 input).2) :=
  rfl

theorem run_singleton (s : σ) (a : α) : run step s [a] = step s a := by
  rw [run_cons, run, List.append_nil]

theorem run_append (s : σ) (input more : List α) :
    run step s (input ++ more) = ((run step (run step s input).1 more).1,
      (run step s input).2 ++ (run step (run step s input).1 more).2) := by
  induction input generalizing s with
  | nil => rfl
  | cons a input ih =>
      rw [List.cons_append, run_cons, run_cons, ih]
      simp only [List.append_assoc]

/-- No state tells the two inputs apart. -/
def Alike (step : σ → α → σ × List β) (x y : List α) : Prop := ∀ s, run step s x = run step s y

theorem Alike.append {x y x' y' : List α} (h : Alike step x y) (h' : Alike step x' y') :
    Alike step (x ++ x') (y ++ y') := by
  intro s
  rw [run_append, run_append, h s, h' _]

theorem Alike.refl (x : List α) : Alike step x x := fun _ => rfl

theorem Alike.replace {x y : List α} (h : Alike step x y) (before after : List α) :
    Alike step (before ++ (x ++ after)) (before ++ (y ++ after)) :=
  (Alike.refl before).append (h.append (Alike.refl after))

theorem Alike.symm {x y : List α} (h : Alike step x y) : Alike step y x := fun s => (h s).symm

theorem Alike.trans {x y z : List α} (h : Alike step x y) (h' : Alike step y z) : Alike step x z :=
  fun s => (h s).trans (h' s)

/-- One piece is replaced by another, somewhere. -/
inductive Replaces (noise : List α → List α → Prop) : List α → List α → Prop
  | intro {x y : List α} (h : noise x y) (before after : List α) :
      Replaces noise (before ++ (x ++ after)) (before ++ (y ++ after))

/-- Any number of pieces are replaced, forth or back, by ones that are alike. -/
theorem alike_of_replaces {noise : List α → List α → Prop}
    (h : ∀ x y, noise x y → Alike step x y) {x y : List α}
    (hxy : Relation.EqvGen (Replaces noise) x y) : Alike step x y := by
  induction hxy with
  | rel x y hreplaces =>
      obtain ⟨hnoise, before, after⟩ := hreplaces
      exact (h _ _ hnoise).replace before after
  | refl x => exact .refl x
  | symm x y _ ih => exact ih.symm
  | trans x y z _ _ ih ih' => exact ih.trans ih'

theorem run_map {δ : Type*} (f : δ → α) (s : σ) (input : List δ) :
    run step s (input.map f) = run (fun s d => step s (f d)) s input := by
  induction input generalizing s with
  | nil => rfl
  | cons d input ih => rw [List.map_cons, run_cons, run_cons, ih]

/-- Of a longer input no less is written. -/
theorem run_prefix (s : σ) {x y : List α} (h : x <+: y) :
    (run step s x).2 <+: (run step s y).2 := by
  obtain ⟨more, rfl⟩ := h
  rw [run_append]
  exact List.prefix_append _ _

/-! ### Transducers that stop -/

/-- Nothing is written any more once there is no state left. -/
def stopping (step : σ → α → Option σ × List β) : Option σ → α → Option σ × List β
  | none, _ => (none, [])
  | some s, a => step s a

theorem run_stopping_none (step : σ → α → Option σ × List β) (input : List α) :
    run (stopping step) none input = (none, []) := by
  induction input with
  | nil => rfl
  | cons a input ih =>
      rw [run_cons, stopping, ih]
      rfl

/-! ### One transducer after the other -/

variable {τ γ : Type*} {step' : τ → β → τ × List γ}

def comp (step : σ → α → σ × List β) (step' : τ → β → τ × List γ) (s : σ × τ) (a : α) :
    (σ × τ) × List γ :=
  let (s₁, letters) := step s.1 a
  let (s₂, written) := run step' s.2 letters
  ((s₁, s₂), written)

theorem run_comp (s : σ × τ) (input : List α) :
    run (comp step step') s input =
      (((run step s.1 input).1, (run step' s.2 (run step s.1 input).2).1),
        (run step' s.2 (run step s.1 input).2).2) := by
  induction input generalizing s with
  | nil => rfl
  | cons a input ih =>
      rw [run_cons, ih, run_cons, run_append]
      rfl

section Cut

variable {first : σ → α → Option σ × List β} {second : τ → β → Option τ × List γ}

/-- Nothing comes out any more once the first one has stopped. -/
theorem run_comp_none_left (t : Option τ) (input : List α) :
    (run (comp (stopping first) (stopping second)) (none, t) input).2 = [] := by
  rw [run_comp, run_stopping_none]
  rfl

/-- Nothing comes out any more once the second one has stopped. -/
theorem run_comp_none_right (s : Option σ) (input : List α) :
    (run (comp (stopping first) (stopping second)) (s, none) input).2 = [] := by
  rw [run_comp, run_stopping_none]

/-- A letter in the place of the rest of the input makes no difference, or it comes when neither
has stopped, after all that has been written of the input before it. -/
theorem run_comp_cut (s : Option σ × Option τ) (input rest : List α) (a : α) :
    (run (comp (stopping first) (stopping second)) s (input ++ [a])).2 =
        (run (comp (stopping first) (stopping second)) s (input ++ rest)).2 ∨
      ∃ s₁ s₂, (run (comp (stopping first) (stopping second)) s (input ++ [a])).2 =
        (run (comp (stopping first) (stopping second)) s input).2 ++
          (run (stopping second) (some s₂) (first s₁ a).2).2 := by
  rw [run_append, run_append]
  rcases (run (comp (stopping first) (stopping second)) s input).1 with ⟨_ | s₁, _ | s₂⟩
  · left
    rw [run_comp_none_left, run_comp_none_left]
  · left
    rw [run_comp_none_left, run_comp_none_left]
  · left
    rw [run_comp_none_right, run_comp_none_right]
  · right
    refine ⟨s₁, s₂, ?_⟩
    rw [run_singleton]
    rfl

end Cut

end NeuRust.Transducer
