import NeuRust.Provider.Registry

/-!
The fallback executor against the law that it is named for: the first success among the first
`max_retries + 1` providers that support the model. The loop counts its attempts by the position in
the registry, so that every provider it skips uses one up.
-/

namespace NeuRust.Router

variable {σ : Type*}

structure FallbackExecutor (σ : Type*) where
  providers : ProviderRegistry σ
  maxRetries : ℕ

def noProviders (model : Str) : Error :=
  .msg ("No providers available for model: ".toList ++ model)

/-- The loop, from the position `attempt` on. -/
def tryProviders (maxRetries : ℕ) (request : UnifiedRequest) (attempt : ℕ)
    (providers : List (Provider σ)) (lastError : Option Error) (s : σ) :
    Except Error UnifiedResponse × σ :=
  match providers with
  | [] => (.error (lastError.getD (noProviders request.model.modelName)), s)
  | provider :: providers =>
      if attempt > maxRetries then
        (.error (lastError.getD (noProviders request.model.modelName)), s)
      else if ¬ provider.Supports request.model.modelName then
        tryProviders maxRetries request (attempt + 1) providers lastError s
      else
        match provider.complete request s with
        | (.ok response, s') => (.ok response, s')
        | (.error e, s') => tryProviders maxRetries request (attempt + 1) providers (some e) s'

def FallbackExecutor.executeWithFallback (executor : FallbackExecutor σ)
    (request : UnifiedRequest) (s : σ) : Except Error UnifiedResponse × σ :=
  tryProviders executor.maxRetries request 0 executor.providers.providers none s

/-! ### What the executor is for -/

def outcomes (request : UnifiedRequest) :
    List (Provider σ) → σ → List (Except Error UnifiedResponse)
  | [], _ => []
  | provider :: providers, s =>
      (provider.complete request s).1 :: outcomes request providers (provider.complete request s).2

def lastOutcome {ρ : Type*} (absent : Error) (outcomes : List (Except Error ρ)) : Except Error ρ :=
  outcomes.getLast?.getD (.error absent)

/-- The first success, or else the last failure, or else the given error. -/
def firstSuccess {ρ : Type*} (absent : Error) (outcomes : List (Except Error ρ)) :
    Except Error ρ :=
  (outcomes.find? Except.isOk).getD (lastOutcome absent outcomes)

namespace FallbackExecutor

/-- The providers to be tried: the first `max_retries + 1` that support the model. -/
def allowed (executor : FallbackExecutor σ) (model : Str) : List (Provider σ) :=
  (executor.providers.supporting model).take (executor.maxRetries + 1)

/-- The providers that the loop reaches: those among the first `max_retries + 1` registered ones. -/
def reached (executor : FallbackExecutor σ) (model : Str) : List (Provider σ) :=
  (executor.providers.providers.take (executor.maxRetries + 1)).filter fun p => p.Supports model

theorem reached_prefix (executor : FallbackExecutor σ) (model : Str) :
    executor.reached model <+: executor.allowed model := by
  rw [allowed, List.prefix_take_iff]
  constructor
  · rw [ProviderRegistry.supporting]
    exact (List.take_prefix _ _).filter _
  · exact (List.length_filter_le _ _).trans (List.length_take_le _ _)

end FallbackExecutor

/-! ### First successes -/

section FirstSuccess

variable {ρ : Type*} {absent : Error}

@[simp] theorem firstSuccess_nil : firstSuccess absent ([] : List (Except Error ρ)) =
    .error absent := rfl

@[simp] theorem firstSuccess_ok_cons (r : ρ) (rest : List (Except Error ρ)) :
    firstSuccess absent (.ok r :: rest) = .ok r := rfl

/-- A failure is the error to report until a later one replaces it. -/
@[simp] theorem firstSuccess_error_cons (e : Error) (rest : List (Except Error ρ)) :
    firstSuccess absent (.error e :: rest) = firstSuccess e rest := by
  cases rest with
  | nil => rfl
  | cons o rest => simp [firstSuccess, lastOutcome, List.getLast?_cons, Except.isOk, Except.toBool]

theorem firstSuccess_of_failures {outcomes : List (Except Error ρ)}
    (h : ∀ o ∈ outcomes, o.isOk = false) :
    firstSuccess absent outcomes = lastOutcome absent outcomes := by
  rw [firstSuccess, List.find?_eq_none.mpr (by simpa using h), Option.getD_none]

theorem firstSuccess_of_success {outcomes rest : List (Except Error ρ)}
    (h : ∃ o ∈ outcomes, o.isOk = true) :
    firstSuccess absent (outcomes ++ rest) = firstSuccess absent outcomes := by
  obtain ⟨o, ho⟩ := Option.isSome_iff_exists.mp (List.find?_isSome.mpr h)
  rw [firstSuccess, firstSuccess, List.find?_append, ho]
  rfl

theorem isOk_lastOutcome {outcomes : List (Except Error ρ)} (h : ∀ o ∈ outcomes, o.isOk = false) :
    (lastOutcome absent outcomes).isOk = false := by
  rw [lastOutcome]
  cases hlast : outcomes.getLast? with
  | none => rfl
  | some o => exact h o (List.mem_of_getLast? hlast)

theorem isOk_firstSuccess {outcomes : List (Except Error ρ)} (h : ∃ o ∈ outcomes, o.isOk = true) :
    (firstSuccess absent outcomes).isOk = true := by
  obtain ⟨o, ho⟩ := Option.isSome_iff_exists.mp (List.find?_isSome.mpr h)
  rw [firstSuccess, ho]
  exact List.find?_some ho

/-- Leaving outcomes out at the end changes nothing if a success comes before them, if there are
none, or if all fail and the last failures are the same. -/
theorem firstSuccess_append_iff {outcomes rest : List (Except Error ρ)} :
    firstSuccess absent outcomes = firstSuccess absent (outcomes ++ rest) ↔
      (∃ o ∈ outcomes, o.isOk = true) ∨ rest = [] ∨
        (∀ o ∈ outcomes ++ rest, o.isOk = false) ∧
          lastOutcome absent outcomes = lastOutcome absent (outcomes ++ rest) := by
  by_cases hsuccess : ∃ o ∈ outcomes, o.isOk = true
  · simp only [hsuccess, true_or, iff_true]
    exact (firstSuccess_of_success hsuccess).symm
  · have hfailures : ∀ o ∈ outcomes, o.isOk = false := by
      simpa using hsuccess
    by_cases hrest : ∃ o ∈ rest, o.isOk = true
    · obtain ⟨o, ho, hok⟩ := hrest
      have hall : (firstSuccess absent (outcomes ++ rest)).isOk = true :=
        isOk_firstSuccess ⟨o, List.mem_append_right _ ho, hok⟩
      have hnone : (firstSuccess absent outcomes).isOk = false := by
        rw [firstSuccess_of_failures hfailures]
        exact isOk_lastOutcome hfailures
      constructor
      · intro h
        rw [h, hall] at hnone
        cases hnone
      · rintro (h | rfl | ⟨h, _⟩)
        · exact absurd h hsuccess
        · cases ho
        · rw [h o (List.mem_append_right _ ho)] at hok
          cases hok
    · have hall : ∀ o ∈ outcomes ++ rest, o.isOk = false := by
        intro o ho
        rcases List.mem_append.mp ho with ho | ho
        · exact hfailures o ho
        · simpa using mt (fun hok => ⟨o, ho, hok⟩) hrest
      rw [firstSuccess_of_failures hfailures, firstSuccess_of_failures hall]
      constructor
      · exact fun h => .inr (.inr ⟨hall, h⟩)
      · rintro (h | rfl | ⟨_, h⟩)
        · exact absurd h hsuccess
        · rw [List.append_nil]
        · exact h

end FirstSuccess

/-! ### The loop -/

/-- The loop ends with the first success of the providers it reaches. -/
theorem tryProviders_eq (maxRetries : ℕ) (request : UnifiedRequest) (attempt : ℕ)
    (providers : List (Provider σ)) (lastError : Option Error) (s : σ) :
    (tryProviders maxRetries request attempt providers lastError s).1 =
      firstSuccess (lastError.getD (noProviders request.model.modelName))
        (outcomes request ((providers.take (maxRetries + 1 - attempt)).filter
          fun p => p.Supports request.model.modelName) s) := by
  induction providers generalizing attempt lastError s with
  | nil => simp [tryProviders, outcomes]
  | cons provider providers ih =>
      rw [tryProviders]
      by_cases hbreak : attempt > maxRetries
      · have hnone : maxRetries + 1 - attempt = 0 := by omega
        rw [if_pos hbreak, hnone]
        rfl
      · have hleft : maxRetries + 1 - attempt = maxRetries + 1 - (attempt + 1) + 1 := by omega
        rw [if_neg hbreak, hleft, List.take_succ_cons]
        by_cases hsupports : provider.Supports request.model.modelName
        · rw [if_neg (not_not.mpr hsupports), List.filter_cons_of_pos (by simpa using hsupports),
            outcomes]
          rcases hcall : provider.complete request s with ⟨outcome, s'⟩
          cases outcome with
          | ok response => rw [firstSuccess_ok_cons]
          | error e => rw [firstSuccess_error_cons, ih, Option.getD_some]
        · rw [if_pos hsupports, List.filter_cons_of_neg (by simpa using hsupports), ih]

theorem executeWithFallback_eq (executor : FallbackExecutor σ) (request : UnifiedRequest) (s : σ) :
    (executor.executeWithFallback request s).1 = firstSuccess (noProviders request.model.modelName)
      (outcomes request (executor.reached request.model.modelName) s) :=
  tryProviders_eq executor.maxRetries request 0 executor.providers.providers none s

/-! ### The law -/

theorem length_outcomes (request : UnifiedRequest) (providers : List (Provider σ)) (s : σ) :
    (outcomes request providers s).length = providers.length := by
  induction providers generalizing s with
  | nil => rfl
  | cons provider providers ih => simp [outcomes, ih]

theorem exists_outcomes_append (request : UnifiedRequest) (providers rest : List (Provider σ))
    (s : σ) : ∃ s', outcomes request (providers ++ rest) s =
      outcomes request providers s ++ outcomes request rest s' := by
  induction providers generalizing s with
  | nil => exact ⟨s, rfl⟩
  | cons provider providers ih =>
      obtain ⟨s', hs'⟩ := ih (provider.complete request s).2
      refine ⟨s', ?_⟩
      rw [List.cons_append, outcomes, hs', outcomes, List.cons_append]

/-- The executor returns the first success of the first `max_retries + 1` providers that support
the model, or else the last failure, exactly when one of those that it reaches succeeds, when it
reaches them all, or when all fail and the last failure is one that it reaches. -/
theorem executeWithFallback_lawful_iff (executor : FallbackExecutor σ) (request : UnifiedRequest)
    (s : σ) :
    (executor.executeWithFallback request s).1 = firstSuccess (noProviders request.model.modelName)
        (outcomes request (executor.allowed request.model.modelName) s) ↔
      (∃ o ∈ outcomes request (executor.reached request.model.modelName) s, o.isOk = true) ∨
      executor.reached request.model.modelName = executor.allowed request.model.modelName ∨
      (∀ o ∈ outcomes request (executor.allowed request.model.modelName) s, o.isOk = false) ∧
        lastOutcome (noProviders request.model.modelName)
            (outcomes request (executor.reached request.model.modelName) s) =
          lastOutcome (noProviders request.model.modelName)
            (outcomes request (executor.allowed request.model.modelName) s) := by
  obtain ⟨rest, hrest⟩ := executor.reached_prefix request.model.modelName
  obtain ⟨s', hs'⟩ := exists_outcomes_append request
    (executor.reached request.model.modelName) rest s
  have hempty : outcomes request rest s' = [] ↔ rest = [] := by
    rw [← List.length_eq_zero_iff, length_outcomes, List.length_eq_zero_iff]
  rw [executeWithFallback_eq, ← hrest, hs', firstSuccess_append_iff, hempty,
    List.self_eq_append_right]

/-! ### A provider behind one of another model -/

def steady (models : List Str) (answer : Except Error UnifiedResponse) : Provider Unit where
  name := "steady".toList
  supportedModels := models
  complete := fun _ s => (answer, s)
  completeStream := fun _ s => (.ok [], s)

def greeting : UnifiedRequest where
  model := ⟨['a'], none⟩
  messages := [⟨.user, ['?']⟩]
  temperature := none
  maxTokens := none
  stream := false

def reply : UnifiedResponse := ⟨['!'], ['a'], ⟨1, 1, 2⟩, "steady".toList, 0, none⟩

/-- With one retry, a provider behind one of another model is reached. -/
def oneRetry : FallbackExecutor Unit :=
  ⟨⟨[steady [['b']] (.ok reply), steady [['a']] (.ok reply)]⟩, 1⟩

/-- Without retries, the only provider of the model is not. -/
theorem skipped_provider_uses_up_attempt :
    ¬ ∀ (executor : FallbackExecutor Unit) (request : UnifiedRequest) (s : Unit),
      (executor.executeWithFallback request s).1 =
        firstSuccess (noProviders request.model.modelName)
          (outcomes request (executor.allowed request.model.modelName) s) := by
  intro h
  have hlaw := h ⟨oneRetry.providers, 0⟩ greeting ()
  rw [executeWithFallback_eq] at hlaw
  cases hlaw

end NeuRust.Router
