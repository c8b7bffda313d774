import NeuRust.Gateway.Outcomes
import NeuRust.Gateway.Spend

/-!
The completions that the providers have given, written down beside their state, against what the
gateway keeps of them: each one is on its way to the event store or has arrived there, once.
-/

namespace NeuRust.Gateway

open Cache Observability

variable {κ ε τ : Type*} [DecidableEq κ]

/-! ### Writing down what is answered -/

structure Answered where
  request : UnifiedRequest
  response : UnifiedResponse

/-- The provider, with every completion that it gives written down. -/
def logging (provider : Provider τ) : Provider (τ × List Answered) where
  name := provider.name
  supportedModels := provider.supportedModels
  complete request s :=
    match provider.complete request s.1 with
    | (.ok response, t) => (.ok response, (t, s.2 ++ [⟨request, response⟩]))
    | (.error e, t) => (.error e, (t, s.2))
  completeStream request s :=
    ((provider.completeStream request s.1).1, ((provider.completeStream request s.1).2, s.2))

def logged (app : AppState κ ε τ) : AppState κ ε (τ × List Answered) :=
  ⟨app.providers.map logging, app.config, app.hasher, app.embedding⟩

def unused (upstream : τ) (cache : Option (TieredCache κ ε UnifiedResponse)) :
    GatewayState κ ε (τ × List Answered) :=
  { upstream := (upstream, []), cache := cache }

omit [DecidableEq κ] in
theorem exists_logging {app : AppState κ ε τ} {model : Str}
    {provider : Provider (τ × List Answered)}
    (h : (logged app).findProvider model = some provider) :
    ∃ p ∈ app.providers, p.Supports model ∧ provider = logging p := by
  obtain ⟨hmem, hsupports⟩ := AppState.supports_of_findProvider h
  obtain ⟨p, hp, rfl⟩ := List.mem_map.mp hmem
  exact ⟨p, hp, hsupports, rfl⟩

section

variable {provider : Provider τ} {request : UnifiedRequest} {s s' : τ × List Answered}

theorem logging_complete_ok {response : UnifiedResponse}
    (h : (logging provider).complete request s = (.ok response, s')) :
    (provider.complete request s.1).1 = .ok response ∧ s'.2 = s.2 ++ [⟨request, response⟩] := by
  simp only [logging] at h
  split at h
  next response' t hcall =>
    obtain ⟨hresponse, rfl⟩ := Prod.mk.inj h
    obtain rfl := Except.ok.inj hresponse
    exact ⟨congrArg Prod.fst hcall, rfl⟩
  next => cases h

theorem logging_complete_error {e : Error}
    (h : (logging provider).complete request s = (.error e, s')) :
    (provider.complete request s.1).1 = .error e ∧ s'.2 = s.2 := by
  simp only [logging] at h
  split at h
  next => cases h
  next e' t hcall =>
    obtain ⟨he, rfl⟩ := Prod.mk.inj h
    obtain rfl := Except.error.inj he
    exact ⟨congrArg Prod.fst hcall, rfl⟩

theorem logging_stream {result : Except Error (List (Except Error StreamChunk))}
    (h : (logging provider).completeStream request s = (result, s')) : s'.2 = s.2 := by
  obtain ⟨-, rfl⟩ := Prod.mk.inj h
  rfl

end

omit [DecidableEq κ] in
theorem mem_log_of_complete {app : AppState κ ε τ} {model : Str}
    {provider : Provider (τ × List Answered)}
    (hprovider : (logged app).findProvider model = some provider) {request : UnifiedRequest}
    {response : UnifiedResponse} {s s' : τ × List Answered}
    (hcall : provider.complete request s = (.ok response, s')) : ⟨request, response⟩ ∈ s'.2 := by
  obtain ⟨p, -, -, rfl⟩ := exists_logging hprovider
  rw [(logging_complete_ok hcall).2]
  exact List.mem_append_right _ List.mem_cons_self

/-! ### What one request adds -/

/-- A request either adds nothing to the log and spawns no task, or adds the completion that it is
answered with and spawns the task for it. -/
theorem Outcome.log {app : AppState κ ε τ} {readings : Readings} {req : ChatCompletionRequest}
    {s : GatewayState κ ε (τ × List Answered)}
    {result : Reply × GatewayState κ ε (τ × List Answered)}
    (h : Outcome (logged app) readings req s result) :
    (result.2.upstream.2 = s.upstream.2 ∧ result.2.tasks = s.tasks) ∨
      ∃ response, result.1 = .completion (completionResponse readings response) ∧
        result.2.upstream.2 = s.upstream.2 ++ [⟨toUnifiedRequest req, response⟩] ∧
        result.2.tasks = s.tasks ++ [completionCostEvent readings response] := by
  cases h with
  | invalid | unknown | hit => exact .inl ⟨rfl, rfl⟩
  | streamFailed provider hrouted e upstream hcall =>
      obtain ⟨p, -, -, rfl⟩ := exists_logging hrouted.provider
      exact .inl ⟨logging_stream hcall, rfl⟩
  | streamed provider hrouted items upstream hcall =>
      obtain ⟨p, -, -, rfl⟩ := exists_logging hrouted.provider
      exact .inl ⟨logging_stream hcall, rfl⟩
  | failed provider hrouted e upstream hlookup hcall =>
      obtain ⟨p, -, -, rfl⟩ := exists_logging hrouted.provider
      exact .inl ⟨(logging_complete_error hcall).2, rfl⟩
  | completed provider hrouted response upstream hlookup hcall =>
      obtain ⟨p, -, -, rfl⟩ := exists_logging hrouted.provider
      exact .inr ⟨response, rfl, (logging_complete_ok hcall).2, rfl⟩

theorem Outcome.eventStore {σ : Type*} {app : AppState κ ε σ} {readings : Readings}
    {req : ChatCompletionRequest} {s : GatewayState κ ε σ} {result : Reply × GatewayState κ ε σ}
    (h : Outcome app readings req s result) : result.2.eventStore = s.eventStore := by
  cases h <;> rfl

/-! ### Charges -/

def untimed (event : CostEvent) : CostEvent := { event with timestampMs := 0 }

/-- What is to be stored about a completion. -/
def charge (response : UnifiedResponse) : CostEvent where
  timestampMs := 0
  providerId := response.providerId
  model := response.model
  promptTokens := response.usage.promptTokens
  completionTokens := response.usage.completionTokens
  costUsd := 0
  latencyMs := response.latencyMs
  cached := false

def charges (log : List Answered) : List CostEvent := log.map fun a => charge a.response

theorem charges_concat (log : List Answered) (a : Answered) :
    charges (log ++ [a]) = charges log ++ [charge a.response] :=
  List.map_append

/-- The events that are stored, or wait to be, are the charges of the completions, in some order. -/
def Charged (s : GatewayState κ ε (τ × List Answered)) : Prop :=
  ((s.eventStore ++ s.tasks).map untimed).Perm (charges s.upstream.2)

theorem Charged.step {app : AppState κ ε τ} {s s' : GatewayState κ ε (τ × List Answered)}
    {op : GatewayOp} (hs : Charged s) (h : GatewayStep (logged app) s op s') : Charged s' := by
  cases h with
  | request readings req =>
      have houtcome := chatCompletions_outcome (logged app) readings req s
      rw [Charged, houtcome.eventStore]
      obtain ⟨hlog, htasks⟩ | ⟨response, -, hlog, htasks⟩ := houtcome.log
      · rw [hlog, htasks]
        exact hs
      · have hsplit : (s.eventStore ++ (s.tasks ++ [completionCostEvent readings response])).map
            untimed = (s.eventStore ++ s.tasks).map untimed ++ [charge response] := by
          rw [← List.append_assoc, List.map_append]
          rfl
        rw [hlog, htasks, hsplit, charges_concat]
        exact hs.append_right [charge response]
  | finish before event after htasks =>
      have hmove :
          (s.eventStore ++ [event] ++ (before ++ after)).Perm (s.eventStore ++ s.tasks) := by
        rw [htasks, List.append_assoc, List.singleton_append]
        exact (List.perm_middle.symm).append_left _
      exact (hmove.map untimed).trans hs

/-! ### Completions -/

def Reply.isCompletion : Reply → Bool
  | .completion _ => true
  | .stream _ => false
  | .error _ _ => false

def GatewayEvent.isCacheHit (event : GatewayEvent) : Bool :=
  match event.eventType with
  | .cacheHit _ _ => true
  | .requestCompleted _ _ _ _ _ => false

def replyOf {σ : Type*} (app : AppState κ ε σ)
    (t : Transition (GatewayState κ ε σ) GatewayOp) : Option Reply :=
  match t.label with
  | .request readings req => some (chatCompletions app readings req t.pre).1
  | .finish _ => none

def completions {σ : Type*} (app : AppState κ ε σ)
    (steps : List (Transition (GatewayState κ ε σ) GatewayOp)) : List Reply :=
  (steps.filterMap (replyOf app)).filter Reply.isCompletion

theorem published_streamBody_isCacheHit (ctx : StreamContext)
    (items : List (Except Error StreamChunk)) :
    (streamBody ctx items).2.countP GatewayEvent.isCacheHit = 0 := by
  rw [List.countP_eq_zero]
  intro event hevent
  have hpublished : event ∈ (finalChunk items).toList.flatMap ctx.published := by
    rw [← published_streamLoop ctx true items]
    exact hevent
  obtain ⟨chunk, -, hchunk⟩ := List.mem_flatMap.mp hpublished
  rw [StreamContext.published] at hchunk
  split at hchunk
  · rw [List.mem_singleton.mp hchunk]
    exact Bool.false_ne_true
  · cases hchunk

/-- A completion was either given by a provider or found in the cache, and published as a hit. -/
theorem Outcome.completions {app : AppState κ ε τ} {readings : Readings}
    {req : ChatCompletionRequest} {s : GatewayState κ ε (τ × List Answered)}
    {result : Reply × GatewayState κ ε (τ × List Answered)}
    (h : Outcome (logged app) readings req s result) :
    result.2.upstream.2.length + result.2.bus.countP GatewayEvent.isCacheHit =
      s.upstream.2.length + s.bus.countP GatewayEvent.isCacheHit +
        if result.1.isCompletion then 1 else 0 := by
  cases h with
  | invalid | unknown => rfl
  | hit => rw [List.countP_append]; rfl
  | streamFailed provider hrouted e upstream hcall =>
      obtain ⟨p, -, -, rfl⟩ := exists_logging hrouted.provider
      rw [logging_stream hcall]
      rfl
  | streamed provider hrouted items upstream hcall =>
      obtain ⟨p, -, -, rfl⟩ := exists_logging hrouted.provider
      rw [logging_stream hcall, List.countP_append, published_streamBody_isCacheHit]
      rfl
  | failed provider hrouted e upstream hlookup hcall =>
      obtain ⟨p, -, -, rfl⟩ := exists_logging hrouted.provider
      rw [(logging_complete_error hcall).2]
      rfl
  | completed provider hrouted response upstream hlookup hcall =>
      obtain ⟨p, -, -, rfl⟩ := exists_logging hrouted.provider
      rw [(logging_complete_ok hcall).2, List.length_append, List.countP_append]
      exact Nat.add_right_comm _ _ _

/-- As many completions as the providers have given and the cache has hit. -/
def Balanced (app : AppState κ ε τ)
    (steps : List (Transition (GatewayState κ ε (τ × List Answered)) GatewayOp))
    (s : GatewayState κ ε (τ × List Answered)) : Prop :=
  s.upstream.2.length + s.bus.countP GatewayEvent.isCacheHit =
    (completions (logged app) steps).length

theorem Balanced.step {app : AppState κ ε τ}
    {steps : List (Transition (GatewayState κ ε (τ × List Answered)) GatewayOp)}
    {s s' : GatewayState κ ε (τ × List Answered)} {op : GatewayOp} (hs : Balanced app steps s)
    (h : GatewayStep (logged app) s op s') : Balanced app (⟨s, op, s'⟩ :: steps) s' := by
  cases h with
  | request readings req =>
      have hcount := (chatCompletions_outcome (logged app) readings req s).completions
      have hreply : replyOf (logged app)
          ⟨s, .request readings req, (chatCompletions (logged app) readings req s).2⟩ =
          some (chatCompletions (logged app) readings req s).1 := rfl
      rw [Balanced, hcount, hs, completions, completions, List.filterMap_cons_some hreply,
        List.filter_cons]
      split_ifs <;> rfl
  | finish before event after htasks =>
      rw [Balanced, completions, List.filterMap_cons_none rfl]
      exact hs

/-- In every run from the start, with the spawned tasks taking their turns in any order, the cost
events that are stored and those that wait to be are the charges of the completions that the
providers have given, none lost and none twice; and every completion that a client got was one of
these or a published cache hit. -/
theorem completions_charged_once (app : AppState κ ε τ) (upstream : τ)
    (cache : Option (TieredCache κ ε UnifiedResponse))
    {steps : List (Transition (GatewayState κ ε (τ × List Answered)) GatewayOp)}
    {s : GatewayState κ ε (τ × List Answered)}
    (run : Run (GatewayStep (logged app)) (unused upstream cache) steps s) :
    ((s.eventStore ++ s.tasks).map untimed).Perm (charges s.upstream.2) ∧
      s.upstream.2.length + s.bus.countP GatewayEvent.isCacheHit =
        (completions (logged app) steps).length := by
  constructor
  · apply run.invariant_of_history (I := fun _ s => Charged s)
    · exact List.Perm.refl []
    · exact fun _ hs h => hs.step h
  · apply run.invariant_of_history (I := Balanced app)
    · rfl
    · exact fun _ hs h => hs.step h

def askedOnce : GatewayState Unit Unit (Unit × List Answered) :=
  (chatCompletions (logged (oneProvider dearResponse)) atStart ask (unused () none)).2

theorem completions_charged_once_asked :
    ((askedOnce.eventStore ++ askedOnce.tasks).map untimed).Perm
      (charges askedOnce.upstream.2) :=
  (completions_charged_once (oneProvider dearResponse) () none
    (.snoc .nil (.request (unused () none) atStart ask))).1

end NeuRust.Gateway
