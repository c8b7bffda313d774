import NeuRust.Gateway.Mediation
import NeuRust.Gateway.Outcomes

/-!
What the endpoints for operators tell, against what the chat requests of the same run got, each of
them answered before the next one comes: the counters of `/metrics` count their replies, and
`/v1/models` lists the models that they can have.
-/

namespace NeuRust.Gateway

open Cache

variable {κ ε σ : Type*} [DecidableEq κ]

/-! ### What a step shows -/

namespace HttpOp

def reply : HttpOp σ → Option Reply
  | .request _ _ response =>
      match response.body with
      | .chat reply => some reply
      | _ => none
  | .finish _ => none

def listing : HttpOp σ → Option (List ModelObject)
  | .request _ _ response =>
      match response.body with
      | .models list => some list.data
      | _ => none
  | .finish _ => none

def metricsText : HttpOp σ → Option Str
  | .request _ _ response =>
      match response.body with
      | .metrics text => some text
      | _ => none
  | .finish _ => none

def chat (app : HttpApp κ ε σ) : HttpOp σ → Option ChatCompletionRequest
  | .request _ req _ => req.chat app
  | .finish _ => none

end HttpOp

def chatReplies (steps : List (Transition (GatewayState κ ε σ) (HttpOp σ))) : List Reply :=
  steps.filterMap fun t => t.label.reply

def Reply.isServerError (reply : Reply) : Bool := decide (reply.status = 500)

variable {app : HttpApp κ ε σ} {s s' : GatewayState κ ε σ}

/-- A step that shows a chat reply is an admitted chat request, and the reply is what the handler
answered. -/
theorem HttpStep.of_reply {op : HttpOp σ} {reply : Reply} (h : HttpStep app s op s')
    (hreply : op.reply = some reply) : ∃ readings chat, op.chat app = some chat ∧
      (reply, s') = chatCompletions app.toAppState readings chat s := by
  cases h with
  | finish => cases hreply
  | request around req =>
      by_cases hadmitted : Admitted app req
      · rw [serve_of_admitted hadmitted] at hreply ⊢
        cases hchat : req.chat app with
        | some chat =>
            rw [handleRoute_of_chat hchat] at hreply ⊢
            rw [HttpOp.reply, echoId_body] at hreply
            obtain rfl := Option.some.inj hreply
            exact ⟨around.readings, chat, hchat, rfl⟩
        | none =>
            have hnot : ∀ other, (handleRoute app around req s).1.body ≠ .chat other :=
              (handleRoute_of_not_chat hchat s).2
            rw [HttpOp.reply, echoId_body] at hreply
            split at hreply
            next other hbody => exact absurd hbody (hnot other)
            next => cases hreply
      · rw [serve_of_not_admitted hadmitted, HttpOp.reply, refusal, echoId_body] at hreply
        cases hreply

theorem HttpStep.of_no_reply {op : HttpOp σ} (h : HttpStep app s op s') (hreply : op.reply = none) :
    s'.requestCount = s.requestCount ∧ s'.errorCount = s.errorCount := by
  cases h with
  | finish => exact ⟨rfl, rfl⟩
  | request around req =>
      by_cases hadmitted : Admitted app req
      · rw [serve_of_admitted hadmitted] at hreply ⊢
        cases hchat : req.chat app with
        | some chat =>
            rw [handleRoute_of_chat hchat, HttpOp.reply, echoId_body] at hreply
            cases hreply
        | none =>
            rw [(handleRoute_of_not_chat hchat s).1]
            exact ⟨rfl, rfl⟩
      · rw [serve_of_not_admitted hadmitted]
        exact ⟨rfl, rfl⟩

/-! ### Counters -/

theorem Outcome.counts {app : AppState κ ε σ} {readings : Readings} {req : ChatCompletionRequest}
    {result : Reply × GatewayState κ ε σ} (h : Outcome app readings req s result) :
    result.2.requestCount = s.requestCount + 1 ∧
      result.2.errorCount =
        if result.1.isServerError then s.errorCount + 1 else s.errorCount := by
  cases h <;> exact ⟨rfl, rfl⟩

theorem HttpStep.counts {op : HttpOp σ} (h : HttpStep app s op s') :
    s'.requestCount = s.requestCount + BitVec.ofNat 64 op.reply.toList.length ∧
      s'.errorCount =
        s.errorCount + BitVec.ofNat 64 (op.reply.toList.countP Reply.isServerError) := by
  cases hreply : op.reply with
  | none =>
      obtain ⟨hrequests, herrors⟩ := h.of_no_reply hreply
      simp [hrequests, herrors]
  | some reply =>
      obtain ⟨readings, chat, -, hchat⟩ := h.of_reply hreply
      have hcounts := (chatCompletions_outcome app.toAppState readings chat s).counts
      rw [← hchat] at hcounts
      obtain ⟨hrequests, herrors⟩ := hcounts
      refine ⟨hrequests, herrors.trans ?_⟩
      cases hfailure : reply.isServerError <;> simp [hfailure]

omit [DecidableEq κ] in
theorem chatReplies_cons (t : Transition (GatewayState κ ε σ) (HttpOp σ))
    (steps : List (Transition (GatewayState κ ε σ) (HttpOp σ))) :
    chatReplies (t :: steps) = t.label.reply.toList ++ chatReplies steps := by
  rw [chatReplies, List.filterMap_cons]
  cases t.label.reply <;> rfl

theorem counts_of_run {start : GatewayState κ ε σ}
    {steps : List (Transition (GatewayState κ ε σ) (HttpOp σ))}
    (run : Run (HttpStep app) start steps s) :
    s.requestCount = start.requestCount + BitVec.ofNat 64 (chatReplies steps).length ∧
      s.errorCount =
        start.errorCount + BitVec.ofNat 64 ((chatReplies steps).countP Reply.isServerError) := by
  have hmove (a : BitVec 64) (m n : ℕ) :
      a + BitVec.ofNat 64 n + BitVec.ofNat 64 m = a + BitVec.ofNat 64 (m + n) := by
    rw [BitVec.ofNat_add, BitVec.add_assoc, BitVec.add_comm (BitVec.ofNat 64 m)]
  induction run with
  | nil => simp [chatReplies]
  | snoc run h ih =>
      obtain ⟨hrequests, herrors⟩ := h.counts
      rw [hrequests, herrors, ih.1, ih.2, chatReplies_cons, List.length_append, List.countP_append]
      exact ⟨hmove _ _ _, hmove _ _ _⟩

theorem handleRoute_metrics {around : Surroundings σ} {req : HttpRequest} {text : Str}
    (h : (handleRoute app around req s).1.body = .metrics text) :
    text = metricsText s.requestCount s.errorCount app.providers.length := by
  cases hroute : req.route with
  | chatCompletions =>
      cases hparse : app.parseBody req.headers req.body <;>
        simp only [handleRoute, hroute, hparse] at h <;> cases h
  | liveness | readiness | listModels =>
      simp only [handleRoute, hroute] at h
      cases h
  | metrics =>
      simp only [handleRoute, hroute] at h
      exact (ResponseBody.metrics.inj h).symm

theorem handleRoute_models {around : Surroundings σ} {req : HttpRequest} {list : ModelsResponse}
    (h : (handleRoute app around req s).1.body = .models list) :
    list.data = app.allModels.map fun m => ⟨m.1, "model".toList, 0, m.2⟩ := by
  cases hroute : req.route with
  | chatCompletions =>
      cases hparse : app.parseBody req.headers req.body <;>
        simp only [handleRoute, hroute, hparse] at h <;> cases h
  | liveness | readiness | metrics =>
      simp only [handleRoute, hroute] at h
      cases h
  | listModels =>
      simp only [handleRoute, hroute] at h
      obtain rfl := ResponseBody.models.inj h
      rfl

theorem HttpStep.metricsText_eq {op : HttpOp σ} {text : Str} (h : HttpStep app s op s')
    (htext : op.metricsText = some text) :
    text = Gateway.metricsText s.requestCount s.errorCount app.providers.length := by
  cases h with
  | finish => cases htext
  | request around req =>
      by_cases hadmitted : Admitted app req
      · rw [serve_of_admitted hadmitted, HttpOp.metricsText, echoId_body] at htext
        split at htext
        next text' hbody =>
          obtain rfl := Option.some.inj htext
          exact handleRoute_metrics hbody
        next => cases htext
      · rw [serve_of_not_admitted hadmitted, HttpOp.metricsText, refusal, echoId_body] at htext
        cases htext

theorem HttpStep.listing_eq {op : HttpOp σ} {data : List ModelObject} (h : HttpStep app s op s')
    (hlist : op.listing = some data) :
    data = app.allModels.map fun m => ⟨m.1, "model".toList, 0, m.2⟩ := by
  cases h with
  | finish => cases hlist
  | request around req =>
      by_cases hadmitted : Admitted app req
      · rw [serve_of_admitted hadmitted, HttpOp.listing, echoId_body] at hlist
        split at hlist
        next list hbody =>
          obtain rfl := Option.some.inj hlist
          exact handleRoute_models hbody
        next => cases hlist
      · rw [serve_of_not_admitted hadmitted, HttpOp.listing, refusal, echoId_body] at hlist
        cases hlist

/-- In every run from a start with both counters at zero, in which each request is answered before
the next one comes, the metrics give the number of chat replies before them and the number of server
errors among these, up to wraparound. -/
theorem metrics_count_replies (app : HttpApp κ ε σ) {start : GatewayState κ ε σ}
    {steps : List (Transition (GatewayState κ ε σ) (HttpOp σ))}
    (hrequests : start.requestCount = 0) (herrors : start.errorCount = 0)
    (run : Run (HttpStep app) start steps s) :
    ∀ t earlier, t :: earlier <:+ steps → ∀ text, t.label.metricsText = some text →
      text = metricsText (BitVec.ofNat 64 (chatReplies earlier).length)
        (BitVec.ofNat 64 ((chatReplies earlier).countP Reply.isServerError))
        app.providers.length := by
  intro t earlier hsuffix text htext
  obtain ⟨hbefore, hstep⟩ := run.before hsuffix
  obtain ⟨hcount, hfailures⟩ := counts_of_run hbefore
  rw [hrequests] at hcount
  rw [herrors] at hfailures
  rw [hstep.metricsText_eq htext, hcount.trans (BitVec.zero_add _),
    hfailures.trans (BitVec.zero_add _)]

/-! ### Models -/

omit [DecidableEq κ] in
theorem mem_allModels {app : AppState κ ε σ} {model name : Str} :
    (model, name) ∈ app.allModels ↔
      ∃ provider ∈ app.providers, provider.Supports model ∧ provider.name = name := by
  simp [AppState.allModels, Provider.Supports]

omit [DecidableEq κ] in
/-- A provider is found for exactly the models that are listed. -/
theorem findProvider_eq_none_iff_unlisted {app : AppState κ ε σ} {model : Str} :
    app.findProvider model = none ↔
      ∀ object ∈ app.allModels.map fun m => ModelObject.mk m.1 "model".toList 0 m.2,
        object.id ≠ model := by
  rw [AppState.findProvider_eq_none_iff]
  constructor
  · intro h object hobject
    obtain ⟨⟨id, name⟩, hmem, rfl⟩ := List.mem_map.mp hobject
    obtain ⟨provider, hprovider, hsupports, -⟩ := mem_allModels.mp hmem
    rintro rfl
    exact h provider hprovider hsupports
  · intro h provider hprovider hsupports
    exact h ⟨model, "model".toList, 0, provider.name⟩
      (List.mem_map.mpr ⟨(model, provider.name),
        mem_allModels.mpr ⟨provider, hprovider, hsupports, rfl⟩, rfl⟩) rfl

/-- The status of a reply. A request that is turned down changes nothing but the count, and one
that fails publishes nothing and spawns no task. -/
structure StatusMeans (app : AppState κ ε σ) (req : ChatCompletionRequest)
    (s : GatewayState κ ε σ) (result : Reply × GatewayState κ ε σ) : Prop where
  cases : result.1.status = 200 ∨ result.1.status = 400 ∨ result.1.status = 500
  badRequest : result.1.status = 400 ↔
    validationError req ≠ none ∨ app.findProvider req.model = none
  untouched : result.1.status = 400 → result.2 = s.countRequest
  unpublished : result.1.status = 500 →
    result.2.bus = s.bus ∧ result.2.tasks = s.tasks ∧ result.2.eventStore = s.eventStore
  unknown : result.1 = invalidRequest (noSuchModel req.model) ↔
    validationError req = none ∧ app.findProvider req.model = none

/-- No check complains about an unknown model. -/
theorem validationError_ne_noSuchModel (req : ChatCompletionRequest) (model : Str) :
    validationError req ≠ some (noSuchModel model) := by
  have hhead {message : Str} (h : message.head? ≠ some 'T') : message ≠ noSuchModel model :=
    fun heq => h (by rw [heq]; rfl)
  rw [validationError]
  split_ifs
  · exact fun h => hhead (by decide) (Option.some.inj h)
  · exact fun h => hhead (by decide) (Option.some.inj h)
  · exact fun h => hhead (by decide) (Option.some.inj h)
  · exact Option.some_ne_none _ ∘ Eq.symm

theorem invalidRequest_inj {a b : Str} (h : invalidRequest a = invalidRequest b) : a = b :=
  congrArg ErrorDetail.message (Reply.error.inj h).2

omit [DecidableEq κ] in
theorem StatusMeans.of_routed {app : AppState κ ε σ} {req : ChatCompletionRequest}
    {provider : Provider σ} {streamed : Bool} {result : Reply × GatewayState κ ε σ}
    (hrouted : Routed app req provider streamed)
    (h : result.1.status = 200 ∨ result.1.status = 500 ∧ result.2.bus = s.bus ∧
      result.2.tasks = s.tasks ∧ result.2.eventStore = s.eventStore) :
    StatusMeans app req s result := by
  have hne : result.1.status ≠ 400 := by
    rcases h with h | ⟨h, -⟩ <;> rw [h] <;> decide
  refine ⟨h.imp_right fun h => .inr h.1, iff_of_false hne ?_, fun h => absurd h hne, ?_, ?_⟩
  · simp [hrouted.valid, hrouted.provider]
  · intro hstatus
    rcases h with h | ⟨-, h⟩
    · rw [h] at hstatus
      cases hstatus
    · exact h
  · apply iff_of_false
    · intro heq
      exact hne (by rw [heq]; rfl)
    · simp [hrouted.provider]

theorem Outcome.statusMeans {app : AppState κ ε σ} {readings : Readings}
    {req : ChatCompletionRequest} {result : Reply × GatewayState κ ε σ}
    (h : Outcome app readings req s result) : StatusMeans app req s result := by
  cases h with
  | invalid message hmessage =>
      refine ⟨.inr (.inl rfl), iff_of_true rfl (.inl (by simp [hmessage])), fun _ => rfl,
        by simp [invalidRequest, Reply.status], ?_⟩
      apply iff_of_false
      · intro heq
        exact validationError_ne_noSuchModel req req.model
          (hmessage.trans (congrArg some (invalidRequest_inj heq)))
      · simp [hmessage]
  | unknown hvalid hnone =>
      exact ⟨.inr (.inl rfl), iff_of_true rfl (.inr hnone), fun _ => rfl,
        by simp [invalidRequest, Reply.status], iff_of_true rfl ⟨hvalid, hnone⟩⟩
  | streamFailed provider hrouted | failed provider hrouted =>
      exact .of_routed hrouted (.inr ⟨rfl, rfl, rfl, rfl⟩)
  | streamed provider hrouted | hit provider hrouted | completed provider hrouted =>
      exact .of_routed hrouted (.inl rfl)

/-- In every run, any list of models decides about every chat request: a request is turned down
exactly when it does not pass the checks or its model is not listed, the latter with the message
that points to the list, and it changes nothing then but the count of requests. -/
theorem listing_decides (app : HttpApp κ ε σ) {start : GatewayState κ ε σ}
    {steps : List (Transition (GatewayState κ ε σ) (HttpOp σ))}
    (run : Run (HttpStep app) start steps s) :
    ∀ t ∈ steps, ∀ t' ∈ steps, ∀ data chat reply, t.label.listing = some data →
      t'.label.chat app = some chat → t'.label.reply = some reply →
        (reply.status = 400 ↔
          validationError chat ≠ none ∨ ∀ object ∈ data, object.id ≠ chat.model) ∧
        (reply = invalidRequest (noSuchModel chat.model) ↔
          validationError chat = none ∧ ∀ object ∈ data, object.id ≠ chat.model) ∧
        (reply.status = 400 → t'.post = t'.pre.countRequest) := by
  intro t ht t' ht' data chat reply hdata hchat hreply
  obtain ⟨readings, chat', hchat', hresult⟩ := (run.step_of_mem ht').of_reply hreply
  obtain rfl : chat = chat' := Option.some.inj (hchat.symm.trans hchat')
  have hmeans := (chatCompletions_outcome app.toAppState readings chat t'.pre).statusMeans
  rw [← hresult] at hmeans
  rw [(run.step_of_mem ht).listing_eq hdata, ← findProvider_eq_none_iff_unlisted]
  exact ⟨hmeans.badRequest, hmeans.unknown, hmeans.untouched⟩

/-! ### A gateway without providers -/

def openGateway : HttpApp Unit Unit Unit :=
  { twoEntries with auth := none, parseBody := fun _ _ => .ok ask }

def plain (route : Route) : HttpRequest := { route := route, headers := [], body := [] }

def firstStep : Transition (GatewayState Unit Unit Unit) (HttpOp Unit) where
  pre := idle
  label := .request here (plain .chatCompletions)
    (serve openGateway here (plain .chatCompletions) idle).1
  post := (serve openGateway here (plain .chatCompletions) idle).2

theorem metrics_after_one : ∃ text,
    (HttpOp.request here (plain .metrics)
      (serve openGateway here (plain .metrics) firstStep.post).1).metricsText = some text ∧
    text = metricsText (BitVec.ofNat 64 (chatReplies [firstStep]).length)
      (BitVec.ofNat 64 ((chatReplies [firstStep]).countP Reply.isServerError)) 0 :=
  ⟨_, rfl, metrics_count_replies openGateway rfl rfl
    (.snoc (.snoc .nil (.request idle here (plain .chatCompletions)))
      (.request firstStep.post here (plain .metrics))) _ _ List.suffix_rfl _ rfl⟩

theorem listing_decides_one : ∃ reply, firstStep.label.reply = some reply ∧
    (reply.status = 400 ↔
      validationError ask ≠ none ∨ ∀ object ∈ [], ModelObject.id object ≠ ask.model) ∧
    (reply = invalidRequest (noSuchModel ask.model) ↔
      validationError ask = none ∧ ∀ object ∈ [], ModelObject.id object ≠ ask.model) ∧
    (reply.status = 400 → firstStep.post = firstStep.pre.countRequest) :=
  ⟨_, rfl, listing_decides openGateway
    (.snoc (.snoc .nil (.request idle here (plain .chatCompletions)))
      (.request firstStep.post here (plain .listModels))) _ List.mem_cons_self firstStep
    (List.mem_cons_of_mem _ List.mem_cons_self) [] ask _ rfl rfl rfl⟩

end NeuRust.Gateway
