import NeuRust.Observability.BudgetRounding
import NeuRust.Machine.Run
import Mathlib.Algebra.BigOperators.Group.Multiset.Basic

/-!
Responses and refreshes that interleave. A response appends its event to the store and charges the
counter, in the order in which the two layers run; a refresh reads all events and, later, stores
their total over the counter. The events that a refresh misses, and the charges that it overwrites,
have to be the same spend, or else the counter and the store part for good.
-/

namespace NeuRust.Observability

open BudgetManager

inductive ResponseOrder where
  | trackFirst
  | chargeFirst

/-- A response within the billing period that costs whole micro-USD. -/
structure WholeResponse (periodStartMs : BitVec 64) where
  request : UnifiedRequest
  response : UnifiedResponse
  timestampMs : BitVec 64
  micro : ℕ
  micro_eq : responseCost response * 1000000 = micro
  in_period : periodStartMs ≤ timestampMs

/-- The store and the manager, the responses between their two steps, and for each refresh between
its two steps the events that it has read. -/
structure SpendState (periodStartMs : BitVec 64) where
  events : List CostEvent
  manager : BudgetManager
  half : Multiset (WholeResponse periodStartMs)
  reads : Multiset (List CostEvent)

inductive SpendOp (periodStartMs : BitVec 64) where
  | first (r : WholeResponse periodStartMs)
  | second (r : WholeResponse periodStartMs)
  | read
  | write (events : List CostEvent)

variable {periodStartMs : BitVec 64}

namespace SpendState

def fresh (config : BudgetManagerConfig) : SpendState periodStartMs := ⟨[], .new config, 0, 0⟩

def track (r : WholeResponse periodStartMs) (s : SpendState periodStartMs) :
    SpendState periodStartMs :=
  { s with events := CostTracker.record r.timestampMs r.request r.response s.events }

def charge (r : WholeResponse periodStartMs) (s : SpendState periodStartMs) :
    SpendState periodStartMs :=
  { s with manager := (s.manager.onResponse r.request r.response).state }

def firstLayer (order : ResponseOrder) (r : WholeResponse periodStartMs)
    (s : SpendState periodStartMs) : SpendState periodStartMs :=
  match order with
  | .trackFirst => s.track r
  | .chargeFirst => s.charge r

def secondLayer (order : ResponseOrder) (r : WholeResponse periodStartMs)
    (s : SpendState periodStartMs) : SpendState periodStartMs :=
  match order with
  | .trackFirst => s.charge r
  | .chargeFirst => s.track r

def stored (s : SpendState periodStartMs) : ℚ := periodTotal periodStartMs s.events * 1000000

def counter (s : SpendState periodStartMs) : ℕ := s.manager.currentSpendMicro.toNat

def halfMicro (s : SpendState periodStartMs) : ℕ := (s.half.map WholeResponse.micro).sum

def Quiet (s : SpendState periodStartMs) : Prop := s.half = 0 ∧ s.reads = 0

end SpendState

inductive SpendStep (order : ResponseOrder) :
    SpendState periodStartMs → SpendOp periodStartMs → SpendState periodStartMs → Prop
  | first (s : SpendState periodStartMs) (r : WholeResponse periodStartMs) :
      SpendStep order s (.first r) { s.firstLayer order r with half := r ::ₘ s.half }
  | second (s : SpendState periodStartMs) (r : WholeResponse periodStartMs)
      (rest : Multiset (WholeResponse periodStartMs)) (h : s.half = r ::ₘ rest) :
      SpendStep order s (.second r) { s.secondLayer order r with half := rest }
  | read (s : SpendState periodStartMs) :
      SpendStep order s .read { s with reads := s.events ::ₘ s.reads }
  | write (s : SpendState periodStartMs) (events : List CostEvent)
      (rest : Multiset (List CostEvent)) (h : s.reads = events ::ₘ rest) :
      SpendStep order s (.write events)
        { s with manager := s.manager.storeTotal periodStartMs events, reads := rest }

/-- The counter and the store agree, up to the responses between their two steps. -/
def InStep (order : ResponseOrder) (s : SpendState periodStartMs) : Prop :=
  match order with
  | .trackFirst => (s.counter : ℚ) + s.halfMicro = s.stored
  | .chargeFirst => (s.counter : ℚ) = s.stored + s.halfMicro

/-- The responses between their two steps cost as much as the events that a refresh has missed,
where the events come first, and nothing is missing, where the charges come first. -/
def Settled (order : ResponseOrder) (s : SpendState periodStartMs) (events : List CostEvent) :
    Prop :=
  match order with
  | .trackFirst => periodTotal periodStartMs events * 1000000 + s.halfMicro = s.stored
  | .chargeFirst => periodTotal periodStartMs events * 1000000 = s.stored + s.halfMicro

def Fits (s : SpendState periodStartMs) (r : WholeResponse periodStartMs) : Prop :=
  s.counter + r.micro < 2 ^ 64

/-- A charge that does not wrap the counter around, a refresh that overwrites what it missed. -/
def Harmless (order : ResponseOrder)
    (t : Transition (SpendState periodStartMs) (SpendOp periodStartMs)) : Prop :=
  match order, t.label with
  | .chargeFirst, .first r => Fits t.pre r
  | .trackFirst, .second r => Fits t.pre r
  | order, .write events => Settled order t.pre events
  | _, _ => True

/-! ### What a step does to the counter and to the store -/

theorem periodTotal_append (events : List CostEvent) (event : CostEvent)
    (h : periodStartMs ≤ event.timestampMs) :
    periodTotal periodStartMs (events ++ [event]) =
      periodTotal periodStartMs events + event.costUsd := by
  simp [periodTotal, h]

theorem toNat_toMicro_whole (r : WholeResponse periodStartMs) :
    (toMicro (responseCost r.response)).toNat = r.micro := by
  rw [toNat_toMicro_responseCost, r.micro_eq, Nat.floor_natCast]

namespace SpendState

variable (s : SpendState periodStartMs) (r : WholeResponse periodStartMs)

@[simp] theorem counter_track : (s.track r).counter = s.counter := rfl

@[simp] theorem stored_charge : (s.charge r).stored = s.stored := rfl

@[simp] theorem stored_track : (s.track r).stored = s.stored + r.micro := by
  have hcost : (costEvent r.timestampMs r.request r.response).costUsd = responseCost r.response :=
    rfl
  rw [stored, stored, track, CostTracker.record, recordCostEvent,
    periodTotal_append _ _ r.in_period, add_mul, hcost, r.micro_eq]

theorem counter_charge (h : Fits s r) : (s.charge r).counter = s.counter + r.micro := by
  rw [counter, charge, onResponse_state, toNat_recordCost, toNat_toMicro_whole]
  exact Nat.mod_eq_of_lt h

end SpendState

theorem halfMicro_cons {s : SpendState periodStartMs} {r : WholeResponse periodStartMs}
    {rest : Multiset (WholeResponse periodStartMs)} (h : s.half = r ::ₘ rest) :
    s.halfMicro = r.micro + (rest.map WholeResponse.micro).sum := by
  rw [SpendState.halfMicro, h, Multiset.map_cons, Multiset.sum_cons]

/-- A settled refresh stores what the counter already holds. -/
theorem storeTotal_of_settled {order : ResponseOrder} {s : SpendState periodStartMs}
    {events : List CostEvent} (hs : InStep order s) (h : Settled order s events) :
    s.manager.storeTotal periodStartMs events = s.manager := by
  have htotal : periodTotal periodStartMs events * 1000000 = s.counter := by
    cases order with
    | trackFirst =>
        simp only [InStep, Settled] at hs h
        linarith
    | chargeFirst =>
        simp only [InStep, Settled] at hs h
        linarith
  have hmicro : toMicro (periodTotal periodStartMs events) = s.manager.currentSpendMicro := by
    apply BitVec.eq_of_toNat_eq
    exact toNat_toMicro_of_eq htotal s.manager.currentSpendMicro.isLt
  rw [storeTotal, hmicro]

/-! ### Runs -/

theorem InStep.step {order : ResponseOrder} {s s' : SpendState periodStartMs}
    {op : SpendOp periodStartMs} (hs : InStep order s) (h : SpendStep order s op s')
    (hgood : Harmless order ⟨s, op, s'⟩) : InStep order s' := by
  cases h with
  | first r =>
      cases order with
      | trackFirst =>
          show ((s.track r).counter : ℚ) + ((r ::ₘ s.half).map WholeResponse.micro).sum =
            (s.track r).stored
          rw [SpendState.counter_track, SpendState.stored_track, Multiset.map_cons,
            Multiset.sum_cons, Nat.cast_add]
          have : (s.counter : ℚ) + (s.half.map WholeResponse.micro).sum = s.stored := hs
          linarith
      | chargeFirst =>
          show ((s.charge r).counter : ℚ) = (s.charge r).stored +
            ((r ::ₘ s.half).map WholeResponse.micro).sum
          rw [SpendState.counter_charge s r hgood, SpendState.stored_charge, Multiset.map_cons,
            Multiset.sum_cons, Nat.cast_add, Nat.cast_add]
          have : (s.counter : ℚ) = s.stored + (s.half.map WholeResponse.micro).sum := hs
          linarith
  | second r rest hhalf =>
      have hmicro := halfMicro_cons hhalf
      cases order with
      | trackFirst =>
          show ((s.charge r).counter : ℚ) + (rest.map WholeResponse.micro).sum =
            (s.charge r).stored
          rw [SpendState.counter_charge s r hgood, SpendState.stored_charge, Nat.cast_add]
          have : (s.counter : ℚ) + s.halfMicro = s.stored := hs
          rw [hmicro, Nat.cast_add] at this
          linarith
      | chargeFirst =>
          show ((s.track r).counter : ℚ) = (s.track r).stored +
            (rest.map WholeResponse.micro).sum
          rw [SpendState.counter_track, SpendState.stored_track]
          have : (s.counter : ℚ) = s.stored + s.halfMicro := hs
          rw [hmicro, Nat.cast_add] at this
          linarith
  | read => exact hs
  | write events rest hreads =>
      have hsettled : Settled order s events := by
        cases order with
        | trackFirst => exact hgood
        | chargeFirst => exact hgood
      rw [storeTotal_of_settled hs hsettled]
      exact hs

theorem InStep.fresh (order : ResponseOrder) (config : BudgetManagerConfig) :
    InStep order (SpendState.fresh config : SpendState periodStartMs) := by
  cases order with
  | trackFirst => simp [InStep, SpendState.fresh, SpendState.counter, SpendState.halfMicro,
      SpendState.stored, periodTotal]
  | chargeFirst => simp [InStep, SpendState.fresh, SpendState.counter, SpendState.halfMicro,
      SpendState.stored, periodTotal]

/-- In a run of harmless steps the counter holds the spend in the store whenever nothing is in
progress. -/
theorem counter_eq_stored_of_harmless {order : ResponseOrder} {config : BudgetManagerConfig}
    {steps : List (Transition (SpendState periodStartMs) (SpendOp periodStartMs))}
    {s : SpendState periodStartMs} (run : Run (SpendStep order) (.fresh config) steps s)
    (hgood : ∀ t ∈ steps, Harmless order t) (hquiet : s.Quiet) : (s.counter : ℚ) = s.stored := by
  have hs : InStep order s :=
    run.invariant_of_forall (I := InStep order) (P := Harmless order) (.fresh order config)
      (fun hs h hgood => hs.step h hgood) hgood
  have hhalf : s.halfMicro = 0 := by
    rw [SpendState.halfMicro, hquiet.1, Multiset.map_zero, Multiset.sum_zero]
  cases order with
  | trackFirst => simpa [InStep, hhalf, SpendState.stored] using hs
  | chargeFirst => simpa [InStep, hhalf, SpendState.stored] using hs

/-! ### A refresh while a response is halfway -/

def nineCents : WholeResponse 0 where
  request := question
  response := dearResponse
  timestampMs := 0
  micro := 90000
  micro_eq := by
    rw [responseCost_dear]
    norm_num
  in_period := by simp

theorem stored_fresh (config : BudgetManagerConfig) :
    (SpendState.fresh config : SpendState periodStartMs).stored = 0 := by
  simp [SpendState.stored, SpendState.fresh, periodTotal]

def halfway (order : ResponseOrder) : SpendState 0 :=
  { (SpendState.fresh {}).firstLayer order nineCents with half := nineCents ::ₘ 0 }

/-- A refresh has read the empty store, and the first layer has seen the response since. -/
def overtaken : SpendState 0 :=
  { halfway .trackFirst with reads := [] ::ₘ 0 }

/-- The refresh overwrites the counter while the response is still to be charged. -/
def overwritten : SpendState 0 :=
  { overtaken with manager := overtaken.manager.storeTotal 0 [], reads := 0 }

/-- A refresh that reads before a response and writes in the middle of it is harmless: what it
missed is what is still to be charged. -/
theorem refresh_during_response :
    ∃ (steps : List (Transition (SpendState 0) (SpendOp 0))) (s : SpendState 0),
      Run (SpendStep .trackFirst) (.fresh {}) steps s ∧
        (∃ t ∈ steps, t.label = .write [] ∧ t.pre.half = nineCents ::ₘ 0) ∧
        (s.counter : ℚ) = s.stored := by
  have run : Run (SpendStep .trackFirst) (.fresh {}) _ _ :=
    .snoc (.snoc (.snoc (.snoc .nil (.read _)) (.first _ nineCents))
      (.write overtaken [] 0 rfl)) (.second overwritten nineCents 0 rfl)
  refine ⟨_, _, run, ⟨_, List.mem_cons_of_mem _ List.mem_cons_self, rfl, rfl⟩, ?_⟩
  apply counter_eq_stored_of_harmless run _ ⟨rfl, rfl⟩
  have hstored : overtaken.stored = 90000 := by
    show ((SpendState.fresh {}).track nineCents).stored = 90000
    rw [SpendState.stored_track, stored_fresh]
    norm_num [nineCents]
  have hcounter : overwritten.counter = 0 := by
    apply toNat_toMicro_of_eq _ (by norm_num)
    simp [periodTotal]
  simp only [List.forall_mem_cons]
  refine ⟨?_, ?_, trivial, trivial, by simp⟩
  · show overwritten.counter + 90000 < 2 ^ 64
    rw [hcounter]
    norm_num
  · show periodTotal 0 [] * 1000000 + ((90000 : ℕ) : ℚ) = overtaken.stored
    rw [hstored]
    norm_num [periodTotal]

/-- A refresh between the two steps of a response counts it twice, or not at all. -/
theorem refresh_halfway_breaks_counter :
    (¬ ∀ (steps : List (Transition (SpendState 0) (SpendOp 0))) (s : SpendState 0),
      Run (SpendStep .trackFirst) (.fresh {}) steps s → s.Quiet → (s.counter : ℚ) = s.stored) ∧
    ¬ ∀ (steps : List (Transition (SpendState 0) (SpendOp 0))) (s : SpendState 0),
      Run (SpendStep .chargeFirst) (.fresh {}) steps s → s.Quiet → (s.counter : ℚ) = s.stored := by
  have htracked : ((SpendState.fresh {}).track nineCents).stored = 90000 := by
    rw [SpendState.stored_track, stored_fresh]
    norm_num [nineCents]
  constructor
  · intro h
    -- the refresh reads the event and stores it, and the response is charged once more
    let refreshed : SpendState 0 :=
      { halfway .trackFirst with
        manager := (halfway .trackFirst).manager.storeTotal 0 (halfway .trackFirst).events
        reads := 0 }
    have run : Run (SpendStep .trackFirst) (.fresh {}) _ _ :=
      .snoc (.snoc (.snoc (.snoc .nil (.first _ nineCents)) (.read (halfway .trackFirst)))
        (.write _ (halfway .trackFirst).events 0 rfl)) (.second refreshed nineCents 0 rfl)
    have hcounter : refreshed.counter = 90000 := by
      apply toNat_toMicro_of_eq htracked
      norm_num
    have hcharged : (refreshed.charge nineCents).counter = 180000 := by
      rw [SpendState.counter_charge, hcounter]
      · rfl
      · rw [Fits, hcounter]
        decide
    have hquiet := h _ _ run ⟨rfl, rfl⟩
    have hend : ((refreshed.charge nineCents).counter : ℚ) =
        ((SpendState.fresh {}).track nineCents).stored := hquiet
    rw [hcharged, htracked] at hend
    norm_num at hend
  · intro h
    -- the refresh has read before the event is there, and overwrites the charge
    have run : Run (SpendStep .chargeFirst) (.fresh {}) _ _ :=
      .snoc (.snoc (.snoc (.snoc .nil (.first _ nineCents)) (.read (halfway .chargeFirst)))
        (.second _ nineCents 0 rfl)) (.write _ [] 0 rfl)
    have hcounter : (toMicro (periodTotal 0 [])).toNat = 0 := by
      apply toNat_toMicro_of_eq _ (by norm_num)
      simp [periodTotal]
    have hquiet := h _ _ run ⟨rfl, rfl⟩
    have hend : ((toMicro (periodTotal 0 [])).toNat : ℚ) =
        ((SpendState.fresh {}).track nineCents).stored := hquiet
    rw [hcounter, htracked] at hend
    norm_num at hend

end NeuRust.Observability
