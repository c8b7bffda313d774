import NeuRust.Provider.Registry
import NeuRust.Machine.Residues

/-!
The load balancer. One counter goes up with every request that finds a provider, of whatever model,
and the position in the list of the providers of the model at hand is the counter modulo the length
of that list. How even one model is distributed is decided by the turns that fall to its requests.
-/

namespace NeuRust.Router

variable {σ : Type*}

namespace LoadBalancer

def onRequest (providers : ProviderRegistry σ) (request : UnifiedRequest) (counter : BitVec 64) :
    Pass Unit UnifiedRequest (BitVec 64) :=
  if request.model.providerId.isSome then ⟨.ok (), request, counter⟩
  else
    let matching := providers.supporting request.model.modelName
    match matching[counter.toNat % matching.length]? with
    | some selected =>
        ⟨.ok (), { request with model := { request.model with providerId := some selected.name } },
          counter + 1⟩
    | none => ⟨.ok (), request, counter⟩

def layer (providers : ProviderRegistry σ) : PipelineLayer (BitVec 64) where
  name := "load_balancer".toList
  onRequest := onRequest providers

/-- The request is left to the balancer, and there is a provider to choose. -/
def Served (providers : ProviderRegistry σ) (request : UnifiedRequest) : Prop :=
  request.model.providerId = none ∧ providers.supporting request.model.modelName ≠ []

instance (providers : ProviderRegistry σ) : DecidablePred (Served providers) :=
  fun _ => inferInstanceAs (Decidable (_ ∧ ¬ _ = []))

section OnRequest

variable {providers : ProviderRegistry σ} {request : UnifiedRequest} (counter : BitVec 64)

/-- Where a provider is to be chosen, the counter modulo the number of providers of the model is
the position of the one that is named. -/
theorem onRequest_of_served (h : Served providers request) :
    ∃ selected, (providers.supporting request.model.modelName)[counter.toNat %
        (providers.supporting request.model.modelName).length]? = some selected ∧
      onRequest providers request counter = ⟨.ok (),
        { request with model := { request.model with providerId := some selected.name } },
        counter + 1⟩ := by
  obtain ⟨hid, hmatching⟩ := h
  have hlt : counter.toNat % (providers.supporting request.model.modelName).length <
      (providers.supporting request.model.modelName).length :=
    Nat.mod_lt _ (List.length_pos_iff.mpr hmatching)
  refine ⟨_, List.getElem?_eq_getElem hlt, ?_⟩
  simp [onRequest, hid, hlt]

theorem onRequest_of_not_served (h : ¬ Served providers request) :
    onRequest providers request counter = ⟨.ok (), request, counter⟩ := by
  rw [onRequest]
  by_cases hid : request.model.providerId = none
  · have hmatching : providers.supporting request.model.modelName = [] := by
      simpa [Served, hid] using h
    simp [hmatching]
  · simp [Option.isSome_iff_ne_none, hid]

end OnRequest

/-! ### Runs -/

/-- The requests that a provider is chosen for, by their models, with the position of the provider
among those of the model. -/
def assignments (providers : ProviderRegistry σ) :
    List UnifiedRequest → BitVec 64 → List (Str × ℕ)
  | [], _ => []
  | request :: requests, counter =>
      let rest := assignments providers requests (onRequest providers request counter).state
      if Served providers request then
        (request.model.modelName,
          counter.toNat % (providers.supporting request.model.modelName).length) :: rest
      else rest

/-- Of the requests for each model, no provider gets two more than any other one. -/
def Fair (providers : ProviderRegistry σ) (assigned : List (Str × ℕ)) : Prop :=
  ∀ model, ∀ i < (providers.supporting model).length, ∀ j < (providers.supporting model).length,
    assigned.count (model, i) ≤ assigned.count (model, j) + 1

/-- The turns of a model: the numbers of its requests, when all those that a provider is chosen for
are numbered from `start` on. -/
def turns (providers : ProviderRegistry σ) (requests : List UnifiedRequest) (start : ℕ)
    (model : Str) : List ℕ :=
  (((requests.filter (Served providers ·)).zipIdx start).filter
    fun r => r.1.model.modelName = model).map Prod.snd

/-- While the counter does not wrap, the assignments follow the numbers of the requests. -/
theorem assignments_eq (providers : ProviderRegistry σ) (requests : List UnifiedRequest)
    (counter : BitVec 64)
    (h : counter.toNat + (requests.filter (Served providers ·)).length ≤ 2 ^ 64) :
    assignments providers requests counter =
      ((requests.filter (Served providers ·)).zipIdx counter.toNat).map fun r =>
        (r.1.model.modelName, r.2 % (providers.supporting r.1.model.modelName).length) := by
  induction requests generalizing counter with
  | nil => rfl
  | cons request requests ih =>
      rw [assignments]
      by_cases hserved : Served providers request
      · rw [List.filter_cons_of_pos (by simpa using hserved), List.length_cons] at h
        obtain ⟨selected, -, hpass⟩ := onRequest_of_served counter hserved
        rw [if_pos hserved, List.filter_cons_of_pos (by simpa using hserved), List.zipIdx_cons,
          List.map_cons, hpass]
        congr 1
        -- the last number may be `2 ^ 64 - 1`, and then no request is left for the wrapped counter
        by_cases hlast : counter.toNat + 1 < 2 ^ 64
        · have hnext : (counter + 1).toNat = counter.toNat + 1 := by
            rw [BitVec.toNat_add_of_lt]
            · rfl
            · exact hlast
          rw [ih (counter + 1) (by omega), hnext]
        · have hnone : requests.filter (Served providers ·) = [] := by
            apply List.eq_nil_of_length_eq_zero
            omega
          have hwrap : (counter + 1).toNat = 0 := by
            have hcounter := counter.isLt
            have hone : BitVec.toNat (1 : BitVec 64) = 1 := rfl
            rw [BitVec.toNat_add, hone]
            omega
          rw [ih (counter + 1) (by rw [hnone, hwrap]; decide), hnone]
          rfl
      · rw [if_neg hserved, List.filter_cons_of_neg (by simpa using hserved),
          onRequest_of_not_served counter hserved]
        rw [List.filter_cons_of_neg (by simpa using hserved)] at h
        exact ih counter h

/-- A provider gets the requests of those turns that leave its position as their remainder. -/
theorem count_assignments {providers : ProviderRegistry σ} {requests : List UnifiedRequest}
    {counter : BitVec 64}
    (h : counter.toNat + (requests.filter (Served providers ·)).length ≤ 2 ^ 64) (model : Str)
    (i : ℕ) :
    (assignments providers requests counter).count (model, i) =
      (turns providers requests counter.toNat model).countP
        fun n => n % (providers.supporting model).length = i := by
  rw [assignments_eq providers requests counter h, turns, List.count, List.countP_map,
    List.countP_map, List.countP_filter]
  apply List.countP_congr
  intro r _
  simp only [Function.comp_apply, beq_iff_eq, Prod.mk.injEq, Bool.and_eq_true, decide_eq_true_eq]
  constructor
  · rintro ⟨rfl, hi⟩
    exact ⟨hi, rfl⟩
  · rintro ⟨hi, rfl⟩
    exact ⟨rfl, hi⟩

/-- The balancer is fair exactly when the turns of each model are spread evenly over the remainders
that its providers stand for. -/
theorem fair_iff_turns_spread (providers : ProviderRegistry σ) (requests : List UnifiedRequest)
    (counter : BitVec 64)
    (h : counter.toNat + (requests.filter (Served providers ·)).length ≤ 2 ^ 64) :
    Fair providers (assignments providers requests counter) ↔
      ∀ model, SpreadEvenly (providers.supporting model).length
        (turns providers requests counter.toNat model) := by
  apply forall_congr'
  intro model
  simp only [SpreadEvenly, count_assignments h]

/-- Without requests for other models in between, or with as many of them as bring the counter back
to where it was, each model is distributed fairly. -/
theorem fair_of_inTurn {providers : ProviderRegistry σ} {requests : List UnifiedRequest}
    {counter : BitVec 64}
    (h : counter.toNat + (requests.filter (Served providers ·)).length ≤ 2 ^ 64)
    (hturns : ∀ model, InTurn (providers.supporting model).length
      (turns providers requests counter.toNat model)) :
    Fair providers (assignments providers requests counter) := by
  intro model i hi j hj
  rw [count_assignments h, count_assignments h]
  exact spreadEvenly_of_inTurn (hturns model) i hi j hj

/-! ### Two models by turns -/

def silent (name : Str) (models : List Str) : Provider Unit where
  name := name
  supportedModels := models
  complete := fun _ s => (.error (.msg "silent".toList), s)
  completeStream := fun _ s => (.ok [], s)

def asking (model : Str) : UnifiedRequest where
  model := ⟨model, none⟩
  messages := [⟨.user, ['h', 'i']⟩]
  temperature := none
  maxTokens := none
  stream := false

def twoAndOne : ProviderRegistry Unit :=
  ⟨[silent ['x'] [['a']], silent ['y'] [['a']], silent ['z'] [['b']]]⟩

theorem fair_iff_turns_spread_alone :
    Fair twoAndOne (assignments twoAndOne [asking ['a'], asking ['a']] 0) ↔
      ∀ model, SpreadEvenly (twoAndOne.supporting model).length
        (turns twoAndOne [asking ['a'], asking ['a']] 0 model) :=
  fair_iff_turns_spread twoAndOne [asking ['a'], asking ['a']] 0 (by decide +kernel)

/-- When the requests for the other model take every second turn, the first provider gets all. -/
theorem mixed_models_starve_provider :
    ¬ ∀ (providers : ProviderRegistry Unit) (requests : List UnifiedRequest),
      (∀ request ∈ requests, request.model.providerId = none) → requests.length < 2 ^ 64 →
        Fair providers (assignments providers requests 0) := by
  intro h
  have hfair := h twoAndOne [asking ['a'], asking ['b'], asking ['a'], asking ['b']]
    (by decide +kernel) (by decide +kernel) ['a'] 0 (by decide +kernel) 1 (by decide +kernel)
  revert hfair
  decide +kernel

end LoadBalancer

end NeuRust.Router
