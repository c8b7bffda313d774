import NeuRust.Observability.BudgetRounding
import NeuRust.Machine.Run
import Mathlib.Algebra.Order.Nonneg.Field
import Mathlib.Data.Multiset.Basic

/-!
Requests that are admitted and charged at different times. A request is checked against the limit
when it enters and is charged when its response passes, so that all requests in flight when the
limit is reached are charged on top of it. No more than that gets past the limit.
-/

namespace NeuRust.Observability

open BudgetManager

/-- The manager, and the requests that it has admitted and that have neither failed nor passed
`on_response`. -/
structure AdmissionState where
  manager : BudgetManager
  inFlight : Multiset UnifiedRequest

inductive AdmissionOp where
  | enter (request : UnifiedRequest)
  | reject (request : UnifiedRequest)
  | fail (request : UnifiedRequest)
  | record (request : UnifiedRequest) (response : UnifiedResponse)

inductive AdmissionStep : AdmissionState → AdmissionOp → AdmissionState → Prop
  | enter (s : AdmissionState) (request : UnifiedRequest)
      (h : (s.manager.onRequest request).result = .ok ()) :
      AdmissionStep s (.enter request) ⟨(s.manager.onRequest request).state,
        (s.manager.onRequest request).value ::ₘ s.inFlight⟩
  | reject (s : AdmissionState) (request : UnifiedRequest) (e : Error)
      (h : (s.manager.onRequest request).result = .error e) :
      AdmissionStep s (.reject request) ⟨(s.manager.onRequest request).state, s.inFlight⟩
  | fail (s : AdmissionState) (request : UnifiedRequest) (rest : Multiset UnifiedRequest)
      (h : s.inFlight = request ::ₘ rest) :
      AdmissionStep s (.fail request) ⟨s.manager, rest⟩
  | record (s : AdmissionState) (request : UnifiedRequest) (response : UnifiedResponse)
      (rest : Multiset UnifiedRequest) (h : s.inFlight = request ::ₘ rest) :
      AdmissionStep s (.record request response)
        ⟨(s.manager.onResponse request response).state, rest⟩

def AdmissionState.counter (s : AdmissionState) : ℕ := s.manager.currentSpendMicro.toNat

def BudgetManagerConfig.budgetMicro (config : BudgetManagerConfig) : ℚ :=
  config.monthlyBudgetUsd * 1000000

/-- At most `N` requests are in flight after the step, and a response that it records costs at
most `C` micro-USD. -/
structure WithinLimits (N : ℕ) (C : ℚ≥0) (t : Transition AdmissionState AdmissionOp) : Prop where
  inFlight : t.post.inFlight.card ≤ N
  cost : ∀ request response, t.label = .record request response →
    responseCost response * 1000000 ≤ C

/-- The counter would stay below the bound even if every request in flight cost `C`. -/
structure Reserved (config : BudgetManagerConfig) (N : ℕ) (C : ℚ≥0) (s : AdmissionState) :
    Prop where
  config_eq : s.manager.config = config
  reserve : (s.counter : ℚ) + s.inFlight.card * C < config.budgetMicro + N * C

variable {config : BudgetManagerConfig} {N : ℕ} {C : ℚ≥0}

/-- A response is charged at most what it costs, whether or not the counter wraps around. -/
theorem toNat_recordCost_le (manager : BudgetManager) (response : UnifiedResponse) :
    ((manager.recordCost (responseCost response)).currentSpendMicro.toNat : ℚ) ≤
      manager.currentSpendMicro.toNat + responseCost response * 1000000 := by
  have hcharge := toNat_toMicro_le (responseCost_nonneg response)
  have hmod : (manager.recordCost (responseCost response)).currentSpendMicro.toNat ≤
      manager.currentSpendMicro.toNat + (toMicro (responseCost response)).toNat := by
    rw [toNat_recordCost]
    exact Nat.mod_le _ _
  calc ((manager.recordCost (responseCost response)).currentSpendMicro.toNat : ℚ)
      ≤ manager.currentSpendMicro.toNat + (toMicro (responseCost response)).toNat := by
        exact_mod_cast hmod
    _ ≤ manager.currentSpendMicro.toNat + responseCost response * 1000000 := by
        gcongr

theorem Reserved.fresh (hbudget : 0 < config.budgetMicro) :
    Reserved config N C ⟨.new config, 0⟩ := by
  refine ⟨rfl, ?_⟩
  have hroom : (0 : ℚ) ≤ N * C := by positivity
  simp only [AdmissionState.counter, toNat_new, Multiset.card_zero, Nat.cast_zero, zero_mul,
    add_zero]
  linarith

theorem Reserved.step (hbudget : 0 < config.budgetMicro) (hhard : config.hardLimit = true)
    {s s' : AdmissionState} {op : AdmissionOp} (hs : Reserved config N C s)
    (h : AdmissionStep s op s') (hlimits : WithinLimits N C ⟨s, op, s'⟩) :
    Reserved config N C s' := by
  have hC : (0 : ℚ) ≤ C := C.2
  cases h with
  | enter request hadmit =>
      refine ⟨hs.config_eq, ?_⟩
      -- what is admitted finds the counter below the budget
      have hbelow : (s.counter : ℚ) < config.budgetMicro := by
        have hpos : 0 < s.manager.config.monthlyBudgetUsd := by
          rw [hs.config_eq]
          rw [BudgetManagerConfig.budgetMicro] at hbudget
          linarith
        have hopen := (onRequest_admits_iff request s.manager).mp hadmit
        rw [shouldBlock_iff hpos, hs.config_eq, hhard] at hopen
        simpa [AdmissionState.counter, BudgetManagerConfig.budgetMicro] using hopen
      have hroom : ((s.manager.onRequest request).value ::ₘ s.inFlight).card * (C : ℚ) ≤
          N * C := by
        have hcard : ((s.manager.onRequest request).value ::ₘ s.inFlight).card ≤ N :=
          hlimits.inFlight
        gcongr
      show (s.counter : ℚ) + ((s.manager.onRequest request).value ::ₘ s.inFlight).card * C < _
      linarith
  | reject request e hreject => exact hs
  | fail request rest hinFlight =>
      refine ⟨hs.config_eq, ?_⟩
      have hreserve := hs.reserve
      rw [hinFlight, Multiset.card_cons, Nat.cast_succ, add_mul] at hreserve
      show (s.counter : ℚ) + rest.card * C < _
      linarith
  | record request response rest hinFlight =>
      refine ⟨hs.config_eq, ?_⟩
      have hreserve := hs.reserve
      rw [hinFlight, Multiset.card_cons, Nat.cast_succ, add_mul] at hreserve
      have hcharge := toNat_recordCost_le s.manager response
      have hcost := hlimits.cost request response rfl
      show ((s.manager.recordCost (responseCost response)).currentSpendMicro.toNat : ℚ) +
        rest.card * C < _
      rw [AdmissionState.counter] at hreserve
      linarith

/-- With the hard limit on, the counter stays below the budget and what is in flight. -/
theorem overshoot_lt (N : ℕ) (C : ℚ≥0) (hbudget : 0 < config.budgetMicro)
    (hhard : config.hardLimit = true) {steps : List (Transition AdmissionState AdmissionOp)}
    {s : AdmissionState} (run : Run AdmissionStep ⟨.new config, 0⟩ steps s)
    (hlimits : ∀ t ∈ steps, WithinLimits N C t) :
    (s.counter : ℚ) < config.budgetMicro + N * C := by
  have hs : Reserved config N C s :=
    run.invariant_of_forall (I := Reserved config N C) (P := WithinLimits N C) (.fresh hbudget)
      (fun hs h hlimits => hs.step hbudget hhard h hlimits) hlimits
  have hinFlight : (0 : ℚ) ≤ s.inFlight.card * C := by
    have := C.2
    positivity
  have hreserve := hs.reserve
  linarith

/-! ### Two requests in flight -/

def tenCents : BudgetManagerConfig := { monthlyBudgetUsd := 0.1, hardLimit := true }

theorem onRequest_tenCents : ((BudgetManager.new tenCents).onRequest question).result = .ok () := by
  rw [onRequest_admits_iff, shouldBlock_iff (by norm_num [tenCents])]
  norm_num [tenCents]

/-- Two requests of nine cents both get past a budget of ten. -/
theorem two_in_flight_overshoot :
    ∃ (steps : List (Transition AdmissionState AdmissionOp)) (s : AdmissionState),
      Run AdmissionStep ⟨.new tenCents, 0⟩ steps s ∧ tenCents.budgetMicro ≤ s.counter ∧
        (s.counter : ℚ) < tenCents.budgetMicro + (2 : ℕ) * (90000 : ℚ≥0) := by
  let admitted : UnifiedRequest := ((BudgetManager.new tenCents).onRequest question).value
  let once : BudgetManager := (BudgetManager.new tenCents).recordCost (responseCost dearResponse)
  have run : Run AdmissionStep ⟨.new tenCents, 0⟩ _ _ :=
    .snoc (.snoc (.snoc (.snoc .nil (.enter _ question onRequest_tenCents))
      (.enter ⟨.new tenCents, admitted ::ₘ 0⟩ question onRequest_tenCents))
      (.record ⟨.new tenCents, admitted ::ₘ admitted ::ₘ 0⟩ admitted dearResponse
        (admitted ::ₘ 0) rfl))
      (.record ⟨once, admitted ::ₘ 0⟩ admitted dearResponse 0 rfl)
  refine ⟨_, _, run, ?_, ?_⟩
  · show tenCents.budgetMicro ≤ (((BudgetManager.new tenCents).afterResponses
      (List.replicate 2 (admitted, dearResponse))).currentSpendMicro.toNat : ℚ)
    rw [toNat_afterResponses, chargedMicro_replicate, responseCost_dear]
    norm_num [BudgetManagerConfig.budgetMicro, tenCents]
  · apply overshoot_lt 2 90000 (by norm_num [BudgetManagerConfig.budgetMicro, tenCents]) rfl run
    have hcost : responseCost dearResponse * 1000000 ≤ ((90000 : ℚ≥0) : ℚ) := by
      rw [responseCost_dear]
      norm_num
    have hrecord : ∀ (s s' : AdmissionState), s'.inFlight.card ≤ 2 →
        WithinLimits 2 90000 ⟨s, .record admitted dearResponse, s'⟩ := by
      refine fun s s' hcard => ⟨hcard, ?_⟩
      rintro request response ⟨rfl, rfl⟩
      exact hcost
    have hadmit : ∀ (s s' : AdmissionState), s'.inFlight.card ≤ 2 →
        WithinLimits 2 90000 ⟨s, .enter question, s'⟩ := by
      refine fun s s' hcard => ⟨hcard, fun request response h => ?_⟩
      cases h
    simp only [List.forall_mem_cons]
    exact ⟨hrecord _ _ (by simp), hrecord _ _ (by simp), hadmit _ _ (by simp),
      hadmit _ _ (by simp), by simp⟩

end NeuRust.Observability
