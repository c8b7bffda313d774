import NeuRust.Gateway.Identities

/-!
Runs of the HTTP side. Nothing reaches the gateway but the requests that are admitted: seen from
its state, a run is one of their chat requests, and a refused client learns from its answer only
what its own request and the configuration tell.
-/

namespace NeuRust.Gateway

variable {κ ε σ : Type*} [DecidableEq κ]

/-! ### Runs -/

inductive HttpOp (σ : Type*) where
  | request (around : Surroundings σ) (req : HttpRequest) (response : HttpResponse)
  | finish (event : CostEvent)

/-- A request is answered, or one of the spawned tasks stores its event. -/
inductive HttpStep (app : HttpApp κ ε σ) :
    GatewayState κ ε σ → HttpOp σ → GatewayState κ ε σ → Prop
  | request (s : GatewayState κ ε σ) (around : Surroundings σ) (req : HttpRequest) :
      HttpStep app s (.request around req (serve app around req s).1) (serve app around req s).2
  | finish (s : GatewayState κ ε σ) (before : List CostEvent) (event : CostEvent)
      (after : List CostEvent) (h : s.tasks = before ++ event :: after) :
      HttpStep app s (.finish event)
        { s with
          tasks := before ++ after
          eventStore := Observability.recordCostEvent event s.eventStore }

/-- No key is asked for, or the request shows one that is configured. -/
def Admitted (app : HttpApp κ ε σ) (req : HttpRequest) : Prop :=
  configuredKeys app.auth = [] ∨ req.route.path ∈ openPaths ∨
    ∃ entry ∈ configuredKeys app.auth, extractToken req = some entry.key

def refusal (freshId : Str) (req : HttpRequest) : HttpResponse :=
  echoId (requestIdOf freshId req)
    (authError (if extractToken req = none then missingKey else invalidKey))

/-! ### What the middleware lets through -/

section

variable {app : HttpApp κ ε σ} {around : Surroundings σ} {req : HttpRequest}
  {s : GatewayState κ ε σ}

omit [DecidableEq κ] in
theorem authorize_of_not_admitted (h : ¬ Admitted app req) :
    authorize app req = .error (if extractToken req = none then missingKey else invalidKey) := by
  rw [Admitted, not_or, not_or] at h
  obtain ⟨hkeys, hroute, hentry⟩ := h
  rw [authorize_of_guarded ⟨hkeys, hroute⟩]
  cases htoken : extractToken req with
  | none => rfl
  | some token =>
      have hnone : matchedEntry (configuredKeys app.auth) token = none := by
        rw [matchedEntry_eq_none_iff]
        intro entry hmem hkey
        exact hentry ⟨entry, hmem, hkey ▸ htoken⟩
      simp only [hnone]
      rfl

omit [DecidableEq κ] in
theorem authorize_of_admitted (h : Admitted app req) :
    ∃ client, authorize app req = .ok client := by
  by_cases hguard : Guarded app req
  · obtain ⟨hkeys, hroute⟩ := hguard
    obtain hnil | hopen | ⟨entry, hmem, htoken⟩ := h
    · exact absurd hnil hkeys
    · exact absurd hopen hroute
    · have hsome : matchedEntry (configuredKeys app.auth) entry.key ≠ none := by
        rw [Ne, matchedEntry_eq_none_iff]
        exact fun hnone => hnone entry hmem rfl
      obtain ⟨found, hfound⟩ := Option.ne_none_iff_exists'.mp hsome
      rw [authorize_of_guarded ⟨hkeys, hroute⟩, htoken]
      simp only [hfound]
      exact ⟨_, rfl⟩
  · exact ⟨none, authorize_of_not_guarded hguard⟩

theorem serve_of_not_admitted (h : ¬ Admitted app req) :
    serve app around req s = (refusal around.freshId req, s) := by
  have hid : authorize app { req with requestId := some (requestIdOf around.freshId req) } =
      authorize app req := rfl
  rw [serve, requestIdMiddleware, authMiddleware, hid, authorize_of_not_admitted h]
  rfl

/-- The handlers do not look at what the middleware attaches to a request. -/
theorem handleRoute_attach (id : Option Str) (client : Option ClientIdentity) :
    handleRoute app around { req with requestId := id, client := client } s =
      handleRoute app around req s := rfl

theorem serve_of_admitted (h : Admitted app req) :
    serve app around req s =
      (echoId (requestIdOf around.freshId req) (handleRoute app around req s).1,
        (handleRoute app around req s).2) := by
  have hid : authorize app { req with requestId := some (requestIdOf around.freshId req) } =
      authorize app req := rfl
  obtain ⟨client, hclient⟩ := authorize_of_admitted h
  rw [serve, requestIdMiddleware, authMiddleware, hid, hclient]
  cases client with
  | none => rfl
  | some client => rfl

omit [DecidableEq κ] in
theorem echoId_body (id : Str) (response : HttpResponse) :
    (echoId id response).body = response.body := by
  rw [echoId]
  split <;> rfl

omit [DecidableEq κ] in
theorem echoId_status (id : Str) (response : HttpResponse) :
    (echoId id response).status = response.status := by
  rw [echoId]
  split <;> rfl

theorem handleRoute_body_ne (e : AuthErrorDetail) :
    (handleRoute app around req s).1.body ≠ .unauthorized e := by
  rw [handleRoute]
  split
  · split <;> exact ResponseBody.noConfusion
  all_goals exact ResponseBody.noConfusion

/-- A client is turned away exactly when it is not admitted. -/
theorem exists_unauthorized_iff :
    (∃ e, (serve app around req s).1.body = .unauthorized e) ↔ ¬ Admitted app req := by
  constructor
  · rintro ⟨e, he⟩ hadmitted
    rw [serve_of_admitted hadmitted, echoId_body] at he
    exact handleRoute_body_ne e he
  · intro h
    rw [serve_of_not_admitted h, refusal, echoId_body]
    exact ⟨_, rfl⟩

end

/-! ### What reaches the gateway -/

/-- The chat request that a request brings to the gateway, if it is admitted and its body parses. -/
def HttpRequest.chat (app : HttpApp κ ε σ) (req : HttpRequest) : Option ChatCompletionRequest :=
  if req.route = .chatCompletions then (app.parseBody req.headers req.body).toOption else none

instance (app : HttpApp κ ε σ) (req : HttpRequest) : Decidable (Admitted app req) :=
  inferInstanceAs (Decidable (_ ∨ _))

def HttpOp.seen (app : HttpApp κ ε σ) : HttpOp σ → Option GatewayOp
  | .request around req _ =>
      if Admitted app req then (req.chat app).map (.request around.readings) else none
  | .finish event => some (.finish event)

def seenSteps (app : HttpApp κ ε σ) (steps : List (Transition (GatewayState κ ε σ) (HttpOp σ))) :
    List (Transition (GatewayState κ ε σ) GatewayOp) :=
  steps.filterMap fun t => (t.label.seen app).map fun op => ⟨t.pre, op, t.post⟩

theorem handleRoute_of_chat {app : HttpApp κ ε σ} {around : Surroundings σ} {req : HttpRequest}
    {chat : ChatCompletionRequest} (h : req.chat app = some chat) (s : GatewayState κ ε σ) :
    handleRoute app around req s =
      (⟨(chatCompletions app.toAppState around.readings chat s).1.status, [],
          .chat (chatCompletions app.toAppState around.readings chat s).1⟩,
        (chatCompletions app.toAppState around.readings chat s).2) := by
  rw [HttpRequest.chat] at h
  split at h
  next hroute =>
    cases hparse : app.parseBody req.headers req.body with
    | error rejection =>
        rw [hparse] at h
        cases h
    | ok parsed =>
        rw [hparse] at h
        obtain rfl := Option.some.inj h
        simp only [handleRoute, hroute, hparse]
  next => cases h

theorem handleRoute_of_not_chat {app : HttpApp κ ε σ} {around : Surroundings σ} {req : HttpRequest}
    (h : req.chat app = none) (s : GatewayState κ ε σ) :
    (handleRoute app around req s).2 = s ∧
      ∀ reply, (handleRoute app around req s).1.body ≠ .chat reply := by
  cases hroute : req.route with
  | chatCompletions =>
      rw [HttpRequest.chat, if_pos hroute] at h
      cases hparse : app.parseBody req.headers req.body with
      | ok parsed =>
          rw [hparse] at h
          cases h
      | error rejection =>
          simp only [handleRoute, hroute, hparse]
          exact ⟨trivial, fun _ => ResponseBody.noConfusion⟩
  | liveness | readiness | metrics | listModels =>
      simp only [handleRoute, hroute]
      exact ⟨trivial, fun _ => ResponseBody.noConfusion⟩

/-- A step is seen as a step of the gateway, or leaves its state as it was. -/
theorem HttpStep.seen {app : HttpApp κ ε σ} {s s' : GatewayState κ ε σ} {op : HttpOp σ}
    (h : HttpStep app s op s') :
    (∃ b, op.seen app = some b ∧ GatewayStep app.toAppState s b s') ∨
      op.seen app = none ∧ s' = s := by
  cases h with
  | finish before event after h => exact .inl ⟨_, rfl, .finish s before event after h⟩
  | request around req =>
      by_cases hadmitted : Admitted app req
      · rw [serve_of_admitted hadmitted, HttpOp.seen, if_pos hadmitted]
        cases hchat : req.chat app with
        | none =>
            exact .inr ⟨rfl, (handleRoute_of_not_chat hchat s).1⟩
        | some chat =>
            rw [handleRoute_of_chat hchat]
            exact .inl ⟨_, rfl, .request s around.readings chat⟩
      · rw [serve_of_not_admitted hadmitted, HttpOp.seen, if_neg hadmitted]
        exact .inr ⟨rfl, rfl⟩

/-- Every run ends in the state that its admitted chat requests lead to by themselves, and every
request that is not admitted gets the refusal, whatever the state. -/
theorem run_is_mediated (app : HttpApp κ ε σ) {start s : GatewayState κ ε σ}
    {steps : List (Transition (GatewayState κ ε σ) (HttpOp σ))}
    (run : Run (HttpStep app) start steps s) :
    Run (GatewayStep app.toAppState) start (seenSteps app steps) s ∧
      ∀ t ∈ steps, ∀ around req response, t.label = .request around req response →
        ((∃ e, response.body = .unauthorized e) ↔ ¬ Admitted app req) ∧
          (¬ Admitted app req → response = refusal around.freshId req ∧ t.post = t.pre) := by
  refine ⟨run.simulate id (fun t => t.label.seen app) HttpStep.seen, ?_⟩
  rintro ⟨pre, label, post⟩ ht around req response rfl
  have hstep : HttpStep app pre (.request around req response) post := run.step_of_mem ht
  cases hstep with
  | request =>
      refine ⟨exists_unauthorized_iff, fun hadmitted => ?_⟩
      rw [serve_of_not_admitted hadmitted]
      exact ⟨rfl, rfl⟩

/-! ### A client without a key -/

def unkeyed : HttpRequest := { route := .listModels, headers := [], body := [] }

def idle : GatewayState Unit Unit Unit := { upstream := (), cache := none }

def here : Surroundings Unit := ⟨atStart, fun _ => ⟨.down, 0, none⟩, "id".toList⟩

theorem unkeyed_is_refused :
    (serve twoEntries here unkeyed idle).1 = refusal here.freshId unkeyed ∧
      (serve twoEntries here unkeyed idle).2 = idle :=
  ((run_is_mediated twoEntries (.snoc .nil (.request idle here unkeyed))).2 _ List.mem_cons_self
    here unkeyed _ rfl).2 (by decide)

end NeuRust.Gateway
