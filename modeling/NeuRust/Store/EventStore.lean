import NeuRust.Store.InMemory

/-!
What an event store is for: it keeps the events, and tells what each day of a window cost. The store
in memory is one implementation, and the stores over a database are to be others.
-/

namespace NeuRust.Store

open List

/-- The trait `EventStore`, as far as costs go. A query that leaves the order of its rows open has
more than one answer. -/
structure EventStore (σ : Type) where
  empty : σ
  recordCost : CostEvent → σ → Except Error σ
  dailyCosts : ℤ → BitVec 32 → σ → Except Error (List ℚ)
  allCostEvents : σ → Set (Except Error (List CostEvent))

/-- The events that are at most so many times 24 hours old. -/
def recent (now : ℤ) (days : BitVec 32) (events : List CostEvent) : List CostEvent :=
  events.filter fun event => now - event.timestampMs.toNat ≤ days.toNat * dayMs

def spentByDay (now : ℤ) (days : BitVec 32) (events : List CostEvent) : List (ℕ × ℚ) :=
  groupSums dayKey CostEvent.costUsd (recent now days events)

namespace EventStore

variable {σ : Type} {store : EventStore σ}

def recordAll (store : EventStore σ) (events : List CostEvent) : Except Error σ :=
  events.foldlM (fun s event => store.recordCost event s) store.empty

/-- After the events have been recorded, the store answers with the recent costs by day and with
all events, each as it was recorded. -/
def Answers (store : EventStore σ) (now : ℤ) (days : BitVec 32) (events : List CostEvent) : Prop :=
  ∃ s, store.recordAll events = .ok s ∧
    store.dailyCosts now days s = .ok ((spentByDay now days events).map Prod.snd) ∧
    (store.allCostEvents s).Nonempty ∧
    ∀ answer ∈ store.allCostEvents s, ∃ events', answer = .ok events' ∧ events'.Perm events

def Appends {ρ : Type} (store : EventStore (List ρ)) (fits : CostEvent → Prop)
    (row : CostEvent → ρ) : Prop :=
  store.empty = [] ∧ ∀ event s, fits event → store.recordCost event s = .ok (s ++ [row event])

theorem Appends.recordAll {ρ : Type} {store : EventStore (List ρ)} {fits : CostEvent → Prop}
    {row : CostEvent → ρ} (h : store.Appends fits row) {events : List CostEvent}
    (hfits : ∀ event ∈ events, fits event) : store.recordAll events = .ok (events.map row) := by
  obtain ⟨hempty, hrecord⟩ := h
  -- over any rows that are there already
  have hrun : ∀ s, events.foldlM (fun s event => store.recordCost event s) s =
      Except.ok (s ++ events.map row) := by
    induction events with
    | nil => exact fun s => by rw [foldlM_nil, map_nil, append_nil]; rfl
    | cons event events ih =>
        obtain ⟨hevent, hrest⟩ := forall_mem_cons.mp hfits
        intro s
        rw [foldlM_cons, hrecord event s hevent, map_cons,
          append_cons s (row event) (events.map row)]
        exact ih hrest (s ++ [row event])
  rw [EventStore.recordAll, hempty]
  exact hrun []

end EventStore

/-! ### The store in memory -/

namespace InMemoryEventStore

def store : EventStore (List CostEvent) where
  empty := []
  recordCost event events := .ok (Observability.recordCostEvent event events)
  dailyCosts now days events := .ok (dailyCosts now days events)
  allCostEvents events := {.ok events}

theorem store_appends : store.Appends (fun _ => True) id :=
  ⟨rfl, fun _ _ _ => rfl⟩

end InMemoryEventStore

theorem clockMs_toNat {now : ℤ} (h : now < 2 ^ 64) : (clockMs now).toNat = now.toNat := by
  rw [clockMs, BitVec.toNat_ofNat, Nat.mod_eq_of_lt]
  omega

/-- What the cutoff lets through is recent. -/
theorem cutoffMs_le_iff {now : ℤ} (h : now < 2 ^ 64) (days : BitVec 32) (timestampMs : ℕ) :
    cutoffMs now days ≤ timestampMs ↔ now - timestampMs ≤ days.toNat * dayMs := by
  rw [cutoffMs, clockMs_toNat h]
  omega

theorem inWindow_eq_recent {now : ℤ} (h : now < 2 ^ 64) (days : BitVec 32)
    (events : List CostEvent) : inWindow now days events = recent now days events := by
  simp only [inWindow, recent, cutoffMs_le_iff h]

theorem InMemoryEventStore.answers {now : ℤ} (h : now < 2 ^ 64) (days : BitVec 32)
    (events : List CostEvent) : InMemoryEventStore.store.Answers now days events := by
  refine ⟨events, ?_, ?_, ⟨_, rfl⟩, ?_⟩
  · rw [store_appends.recordAll fun _ _ => trivial, map_id]
  · rw [spentByDay, ← inWindow_eq_recent h, ← dailySeries_eq]
    rfl
  · rintro answer rfl
    exact ⟨events, rfl, .refl events⟩

end NeuRust.Store
