import NeuRust.Pipeline.Layers
import NeuRust.Pipeline.Trace

/-!
What the layers of the repository leave alone. However they are stacked, a request reaches a
provider as it was asked, up to its model, its text and the budget that its context tells of, and an
answer comes back with the figures that it is charged by.
-/

namespace NeuRust

variable {σ τ β : Type*}

/-! ### What the loops leave alone in what they hand on -/

section Keep

variable {layers : List (PipelineLayer σ)}

theorem runOnRequest_value {f : UnifiedRequest → β}
    (h : ∀ layer ∈ layers, ∀ request s, f (layer.onRequest request s).value = f request)
    (request : UnifiedRequest) (s : σ) : f (runOnRequest layers request s).value = f request := by
  induction layers generalizing request s with
  | nil => rfl
  | cons layer layers ih =>
      obtain ⟨hlayer, hlayers⟩ := List.forall_mem_cons.mp h
      have hkeep := hlayer request s
      rcases hpass : layer.onRequest request s with ⟨e | _, request', s'⟩
      · rw [runOnRequest_failed hpass]
        rwa [hpass] at hkeep
      · rw [runOnRequest_passed hpass, ih hlayers]
        rwa [hpass] at hkeep

theorem runOnResponse_value {request : UnifiedRequest} {f : UnifiedResponse → β}
    (h : ∀ layer ∈ layers, ∀ response s,
      f (layer.onResponse request response s).value = f response)
    (response : UnifiedResponse) (s : σ) :
    f (runOnResponse request layers response s).value = f response := by
  induction layers generalizing response s with
  | nil => rfl
  | cons layer layers ih =>
      obtain ⟨hlayer, hlayers⟩ := List.forall_mem_cons.mp h
      have hkeep := hlayer response s
      rcases hpass : layer.onResponse request response s with ⟨e | _, response', s'⟩
      · rw [runOnResponse_failed hpass]
        rwa [hpass] at hkeep
      · rw [runOnResponse_passed hpass, ih hlayers]
        rwa [hpass] at hkeep

end Keep

/-! ### What is asked, and what is charged -/

/-- What a request asks for, but for the model and the text. -/
structure Ask where
  roles : List Role
  temperature : Option F64
  maxTokens : Option (BitVec 32)
  stream : Bool
  requestType : Option Str
  clientId : Option Str
  apiKey : Option Str
  extraParams : Table Str Json

def UnifiedRequest.ask (request : UnifiedRequest) : Ask where
  roles := request.messages.map Message.role
  temperature := request.temperature
  maxTokens := request.maxTokens
  stream := request.stream
  requestType := request.context.requestType
  clientId := request.context.clientId
  apiKey := request.context.apiKey
  extraParams := request.extraParams

/-- What a response is charged and learned from: everything but the text. -/
structure Figures where
  model : Str
  usage : TokenUsage
  providerId : Str
  latencyMs : BitVec 64
  upstreamId : Option Str

def UnifiedResponse.figures (response : UnifiedResponse) : Figures where
  model := response.model
  usage := response.usage
  providerId := response.providerId
  latencyMs := response.latencyMs
  upstreamId := response.upstreamId

/-- The result is what the provider answered, up to the text of a completion. A stream is as the
provider opened it. -/
inductive AnsweredBy (provider : Provider σ) (request : UnifiedRequest) (s s' : σ) :
    PipelineResult → Prop
  | stream (chunks : List (Except Error StreamChunk)) (h : request.stream = true)
      (hcall : provider.completeStream request s = (.ok chunks, s')) :
      AnsweredBy provider request s s' (.stream chunks)
  | complete (answer response : UnifiedResponse) (h : request.stream = false)
      (hcall : provider.complete request s = (.ok answer, s'))
      (hfigures : response.figures = answer.figures) :
      AnsweredBy provider request s s' (.complete response)

/-! ### The layers of the repository -/

section Layers

variable {table : Security.CharTable}

theorem length_of_maskContents {messages : List Message} {contents : List Str}
    (h : Security.maskContents table messages = .ok contents) :
    contents.length = messages.length := by
  induction messages generalizing contents with
  | nil =>
      obtain rfl := Except.ok.inj h
      rfl
  | cons message messages ih =>
      rw [Security.maskContents, List.map_cons, List.mapM_cons] at h
      cases hmask : Security.maskText table message.content with
      | error p =>
          rw [hmask] at h
          cases h
      | ok masked =>
          cases hrest : Security.maskContents table messages with
          | error p =>
              rw [Security.maskContents] at hrest
              rw [hmask, hrest] at h
              cases h
          | ok rest =>
              have hlength := ih hrest
              rw [Security.maskContents] at hrest
              rw [hmask, hrest] at h
              obtain rfl := Except.ok.inj h
              rw [List.length_cons, List.length_cons, hlength]

theorem map_role_zipWith {roles : List Role} {contents : List Str}
    (h : contents.length = roles.length) :
    (List.zipWith Message.mk roles contents).map Message.role = roles := by
  induction roles generalizing contents with
  | nil => rfl
  | cons role roles ih =>
      cases contents with
      | nil => cases h
      | cons content contents =>
          rw [List.zipWith_cons_cons, List.map_cons, ih (Nat.succ.inj h)]

theorem ask_withContents {request : UnifiedRequest} {contents : List Str}
    (h : contents.length = request.messages.length) :
    (request.withContents contents).ask = request.ask := by
  have hroles : (request.withContents contents).messages.map Message.role =
      request.messages.map Message.role :=
    map_role_zipWith (h.trans (List.length_map _).symm)
  rw [UnifiedRequest.ask, UnifiedRequest.ask, hroles]
  rfl

theorem LearningAuctioneer.ask_onRequest {K : Type*} [Field K] [LinearOrder K]
    (request : UnifiedRequest) (s : (ℚ × ℚ) × Router.LearningAuctioneer K) :
    (Router.LearningAuctioneer.layer.onRequest request s).value.ask = request.ask := by
  show (Router.LearningAuctioneer.passRequest request s).value.ask = _
  rw [Router.LearningAuctioneer.passRequest, Router.LearningAuctioneer.onRequest]
  cases s.2.selectBest s.1.1 s.1.2 request <;> rfl

theorem RepositoryLayer.ask_onRequest {layer : PipelineLayer σ} (h : RepositoryLayer table layer)
    (request : UnifiedRequest) (s : σ) : (layer.onRequest request s).value.ask = request.ask := by
  cases h with
  | budgetManager part => rfl
  | costTracker recordCost part => rfl
  | loadBalancer providers part =>
      show (Router.LoadBalancer.onRequest providers request (part.get s)).value.ask = _
      rw [Router.LoadBalancer.onRequest]
      split_ifs
      · rfl
      · simp only
        split <;> rfl
  | tieredCache hasher model part => rfl
  | costAuctioneer part =>
      exact LearningAuctioneer.ask_onRequest request (part.get s)
  | piiMasker direction part =>
      show (Security.PiiMasker.onRequest table direction request).2.ask = _
      rw [Security.PiiMasker.onRequest]
      split_ifs
      · rfl
      · cases hmask : Security.maskContents table request.messages with
        | ok contents => exact ask_withContents (length_of_maskContents hmask)
        | error p => rfl

theorem RepositoryLayer.figures_onResponse {layer : PipelineLayer σ}
    (h : RepositoryLayer table layer) (request : UnifiedRequest) (response : UnifiedResponse)
    (s : σ) : (layer.onResponse request response s).value.figures = response.figures := by
  cases h with
  | budgetManager part => rfl
  | costTracker recordCost part => rfl
  | loadBalancer providers part => rfl
  | tieredCache hasher model part => rfl
  | costAuctioneer part => rfl
  | piiMasker direction part =>
      show (Security.PiiMasker.onResponse table direction response).2.figures = _
      rw [Security.PiiMasker.onResponse]
      split_ifs
      · rfl
      · cases Security.maskText table response.content <;> rfl

theorem dispatch_footprint {layers : List (PipelineLayer σ)}
    (hlayers : ∀ layer ∈ layers, RepositoryLayer table layer) (provider : Provider σ)
    (request : UnifiedRequest) (s : σ) :
    (dispatch layers provider request s).value = request ∧
      ∀ result, (dispatch layers provider request s).result = .ok result →
        ∃ s', AnsweredBy provider request s s' result := by
  rw [dispatch]
  cases hstream : request.stream with
  | true =>
      simp only [if_true]
      rcases hcall : provider.completeStream request s with ⟨e | chunks, s'⟩
      · exact ⟨rfl, fun _ hok => by cases hok⟩
      · refine ⟨rfl, fun result hok => ?_⟩
        obtain rfl := Except.ok.inj hok
        exact ⟨s', .stream chunks hstream hcall⟩
  | false =>
      simp only [Bool.false_eq_true, if_false]
      rcases hcall : provider.complete request s with ⟨e | answer, s'⟩
      · exact ⟨rfl, fun _ hok => by cases hok⟩
      · have hfigures := runOnResponse_value (f := UnifiedResponse.figures)
          (fun layer hlayer response s =>
            (hlayers layer (List.mem_reverse.mp hlayer)).figures_onResponse request response s)
          answer s'
        rcases hpass : runOnResponse request layers.reverse answer s' with ⟨e | _, response, s''⟩
        · simp only [hpass]
          exact ⟨trivial, fun _ hok => by cases hok⟩
        · rw [hpass] at hfigures
          simp only [hpass]
          refine ⟨trivial, fun result hok => ?_⟩
          obtain rfl := Except.ok.inj hok
          exact ⟨s', .complete answer response hstream hcall hfigures⟩

/-- However the layers of the repository are stacked, and whether the request succeeds or not: the
request is left as it was asked. If there is a result, a registered provider was called with that
request, and the result is its answer, up to the text of a completion. -/
theorem execute_footprint {pipeline : Pipeline σ}
    (hlayers : ∀ layer ∈ pipeline.layers, RepositoryLayer table layer) (request : UnifiedRequest)
    (s : σ) :
    (pipeline.execute request s).value.ask = request.ask ∧
      ∀ result, (pipeline.execute request s).result = .ok result →
        ∃ provider ∈ pipeline.providers.providers, ∃ s₁ s₂,
          AnsweredBy provider (pipeline.execute request s).value s₁ s₂ result := by
  have hask := runOnRequest_value (f := UnifiedRequest.ask)
    (fun layer hlayer request s => (hlayers layer hlayer).ask_onRequest request s) request s
  rcases hpass : runOnRequest pipeline.layers request s with ⟨e | _, left, s₁⟩
  · rw [Pipeline.execute_failed hpass]
    rw [hpass] at hask
    exact ⟨hask, fun _ hok => by cases hok⟩
  · rw [hpass] at hask
    cases hresolve : pipeline.providers.resolve left with
    | error e =>
        rw [Pipeline.execute_unresolved hpass hresolve]
        exact ⟨hask, fun _ hok => by cases hok⟩
    | ok provider =>
        rw [Pipeline.execute_resolved hpass hresolve]
        obtain ⟨hleft, hanswered⟩ := dispatch_footprint hlayers provider left s₁
        rw [hleft]
        refine ⟨hask, fun result hresult => ?_⟩
        obtain ⟨s₂, hanswer⟩ := hanswered result hresult
        exact ⟨provider, ProviderRegistry.mem_of_resolve hresolve, s₁, s₂, hanswer⟩

end Layers

/-! ### A load balancer and a masker -/

def balancer : PipelineLayer Unit :=
  (Router.LoadBalancer.layer ⟨[echo]⟩).over ⟨fun _ => 0, fun _ s => s⟩

def maskedEcho : Pipeline Unit :=
  ⟨[balancer, (Security.PiiMasker.layer .hangul .bidirectional).over ⟨id, fun _ s => s⟩], ⟨[echo]⟩⟩

def telling (content : Str) : UnifiedRequest where
  model := ⟨['e'], none⟩
  messages := [⟨.user, content⟩]
  temperature := none
  maxTokens := none
  stream := false
  messages_lt := by simp

theorem maskedEcho_layers : ∀ layer ∈ maskedEcho.layers, RepositoryLayer .hangul layer := by
  intro layer hlayer
  rcases List.mem_cons.mp hlayer with rfl | hlayer
  · exact .loadBalancer _ _
  · obtain rfl := List.mem_singleton.mp hlayer
    exact .piiMasker _ _

/-- The number is masked, and the provider is asked and answers as `execute` passes it on. -/
theorem execute_footprint_maskedEcho :
    (maskedEcho.execute (telling "call 010-1234-5678".toList) ()).value.lastUserMessage =
        "call ***-****-****".toList ∧
      (maskedEcho.execute (telling "call 010-1234-5678".toList) ()).value.ask =
        (telling "call 010-1234-5678".toList).ask ∧
      ∀ result, (maskedEcho.execute (telling "call 010-1234-5678".toList) ()).result = .ok result →
        ∃ provider ∈ maskedEcho.providers.providers, ∃ s₁ s₂, AnsweredBy provider
          (maskedEcho.execute (telling "call 010-1234-5678".toList) ()).value s₁ s₂ result :=
  ⟨by decide +kernel,
    execute_footprint maskedEcho_layers (telling "call 010-1234-5678".toList) ()⟩

end NeuRust
