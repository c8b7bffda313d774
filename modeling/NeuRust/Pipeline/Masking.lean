import NeuRust.Pipeline.Footprint

/-!
What a masker hides from everything that comes after it. Two requests that it masks to the same text
cannot be told apart by a provider, by the layers behind it, nor by the client's answer, wherever it
stands among the other layers.
-/

namespace NeuRust

variable {σ τ α β : Type*}

/-! ### Passes that agree -/

/-- Two passes with the same result and the same state, and with related values unless they fail. -/
structure Pass.Agree (R : β → β → Prop) (p p' : Pass α β σ) : Prop where
  result : p.result = p'.result
  state : p.state = p'.state
  value : ∀ a, p.result = .ok a → R p.value p'.value

/-- From related requests, the layer makes requests that are related in another way. -/
def PipelineLayer.Carries (R R' : UnifiedRequest → UnifiedRequest → Prop)
    (layer : PipelineLayer σ) : Prop :=
  ∀ request request' s, R request request' →
    (layer.onRequest request s).Agree R' (layer.onRequest request' s)

section Agree

variable {R R' : UnifiedRequest → UnifiedRequest → Prop} {layer : PipelineLayer σ}
  {layers before behind : List (PipelineLayer σ)} {request request' : UnifiedRequest}

theorem PipelineLayer.Carries.mono {R'' : UnifiedRequest → UnifiedRequest → Prop}
    (h : layer.Carries R R')
    (hle : ∀ request request', R' request request' → R'' request request') :
    layer.Carries R R'' := by
  intro request request' s hrelated
  obtain ⟨hresult, hstate, hvalue⟩ := h request request' s hrelated
  exact ⟨hresult, hstate, fun a ha => hle _ _ (hvalue a ha)⟩

theorem PipelineLayer.Carries.over {layer : PipelineLayer τ} (h : layer.Carries R R')
    (part : Part σ τ) : (layer.over part).Carries R R' := by
  intro request request' s hrelated
  obtain ⟨hresult, hstate, hvalue⟩ := h request request' (part.get s) hrelated
  exact ⟨hresult, congrArg (part.set · s) hstate, hvalue⟩

def Pass.through (layers : List (PipelineLayer σ)) :
    Pass Unit UnifiedRequest σ → Pass Unit UnifiedRequest σ
  | ⟨.ok (), request, s⟩ => runOnRequest layers request s
  | ⟨.error e, request, s⟩ => ⟨.error e, request, s⟩

theorem runOnRequest_append (before behind : List (PipelineLayer σ)) (request : UnifiedRequest)
    (s : σ) :
    runOnRequest (before ++ behind) request s =
      (runOnRequest before request s).through behind := by
  induction before generalizing request s with
  | nil => rfl
  | cons layer before ih =>
      rcases hpass : layer.onRequest request s with ⟨e | _, request', s'⟩
      · rw [List.cons_append, runOnRequest_failed hpass, runOnRequest_failed hpass]
        rfl
      · rw [List.cons_append, runOnRequest_passed hpass, runOnRequest_passed hpass, ih]

theorem Pass.Agree.through {pass pass' : Pass Unit UnifiedRequest σ} (h : pass.Agree R pass')
    (hlayers : ∀ request request' s, R request request' →
      (runOnRequest layers request s).Agree R' (runOnRequest layers request' s)) :
    (pass.through layers).Agree R' (pass'.through layers) := by
  obtain ⟨result, request, s⟩ := pass
  obtain ⟨result', request', s'⟩ := pass'
  obtain ⟨hresult, hstate, hvalue⟩ := h
  obtain rfl : result = result' := hresult
  obtain rfl : s = s' := hstate
  cases result with
  | error e => exact ⟨rfl, rfl, fun _ hok => by cases hok⟩
  | ok => exact hlayers _ _ s (hvalue () rfl)

theorem runOnRequest_singleton (h : layer.Carries R R') (hrelated : R request request') (s : σ) :
    (runOnRequest [layer] request s).Agree R' (runOnRequest [layer] request' s) := by
  obtain ⟨hresult, hstate, hvalue⟩ := h request request' s hrelated
  rcases hpass : layer.onRequest request s with ⟨result, left, s₁⟩
  rcases hpass' : layer.onRequest request' s with ⟨result', left', s₁'⟩
  rw [hpass, hpass'] at hresult hstate hvalue
  obtain rfl : result = result' := hresult
  obtain rfl : s₁ = s₁' := hstate
  cases result with
  | error e =>
      rw [runOnRequest_failed hpass, runOnRequest_failed hpass']
      exact ⟨rfl, rfl, fun _ hok => by cases hok⟩
  | ok =>
      rw [runOnRequest_passed hpass, runOnRequest_passed hpass']
      exact ⟨rfl, rfl, hvalue⟩

theorem runOnRequest_carries (h : ∀ layer ∈ layers, layer.Carries R R)
    (hrelated : R request request') (s : σ) :
    (runOnRequest layers request s).Agree R (runOnRequest layers request' s) := by
  induction layers generalizing request request' s with
  | nil => exact ⟨rfl, rfl, fun _ _ => hrelated⟩
  | cons layer layers ih =>
      obtain ⟨hlayer, hlayers⟩ := List.forall_mem_cons.mp h
      rw [← List.singleton_append, runOnRequest_append, runOnRequest_append]
      exact (runOnRequest_singleton hlayer hrelated s).through
        fun _ _ s hrelated => ih hlayers hrelated s

theorem carries_eq (layer : PipelineLayer σ) : layer.Carries Eq Eq := by
  rintro request _ s rfl
  exact ⟨rfl, rfl, fun _ _ => rfl⟩

/-- A layer that makes related requests equal, behind layers that keep them related. -/
theorem runOnRequest_merged (hbefore : ∀ layer ∈ before, layer.Carries R R)
    (hlayer : layer.Carries R Eq) (hrelated : R request request') (s : σ) :
    (runOnRequest (before ++ layer :: behind) request s).Agree Eq
      (runOnRequest (before ++ layer :: behind) request' s) := by
  have hmerged : ∀ request request' s, R request request' →
      (runOnRequest (layer :: behind) request s).Agree Eq
        (runOnRequest (layer :: behind) request' s) := by
    intro request request' s hrelated
    rw [← List.singleton_append, runOnRequest_append, runOnRequest_append]
    exact (runOnRequest_singleton hlayer hrelated s).through
      fun _ _ s heq => runOnRequest_carries (fun layer _ => carries_eq layer) heq s
  rw [runOnRequest_append, runOnRequest_append]
  exact (runOnRequest_carries hbefore hrelated s).through hmerged

theorem Pipeline.execute_of_agree {pipeline : Pipeline σ} {s : σ}
    (h : (runOnRequest pipeline.layers request s).Agree Eq
      (runOnRequest pipeline.layers request' s)) :
    (pipeline.execute request s).result = (pipeline.execute request' s).result ∧
      (pipeline.execute request s).state = (pipeline.execute request' s).state := by
  obtain ⟨hresult, hstate, hvalue⟩ := h
  rw [execute, execute]
  rcases hpass : runOnRequest pipeline.layers request s with ⟨result, left, s₁⟩
  rcases hpass' : runOnRequest pipeline.layers request' s with ⟨result', left', s₁'⟩
  rw [hpass, hpass'] at hresult hstate hvalue
  obtain rfl : result = result' := hresult
  obtain rfl : s₁ = s₁' := hstate
  cases result with
  | error e => exact ⟨rfl, rfl⟩
  | ok =>
      obtain rfl : left = left' := hvalue () rfl
      exact ⟨rfl, rfl⟩

end Agree

/-! ### What the layers make of the contents -/

/-- The two requests differ in the contents of their messages only, and not in what the masker
makes of these. -/
structure SameMasked (table : Security.CharTable) (request request' : UnifiedRequest) : Prop where
  model : request.model = request'.model
  temperature : request.temperature = request'.temperature
  maxTokens : request.maxTokens = request'.maxTokens
  stream : request.stream = request'.stream
  context : request.context = request'.context
  extraParams : request.extraParams = request'.extraParams
  roles : request.messages.map Message.role = request'.messages.map Message.role
  contents : Security.maskContents table request.messages =
    Security.maskContents table request'.messages

section Layers

variable {table : Security.CharTable}

theorem SameMasked.refl (request : UnifiedRequest) : SameMasked table request request :=
  ⟨rfl, rfl, rfl, rfl, rfl, rfl, rfl, rfl⟩

theorem BudgetManager.carries_sameMasked :
    Observability.BudgetManager.layer.Carries (SameMasked table) (SameMasked table) := by
  intro request request' manager h
  refine ⟨rfl, rfl, fun _ _ => { h with context := ?_ }⟩
  show { request.context with budgetRemainingRatio := 1 - manager.usageRatio } = _
  rw [h.context]
  rfl

theorem LoadBalancer.carries_sameMasked (providers : ProviderRegistry σ) :
    (Router.LoadBalancer.layer providers).Carries (SameMasked table) (SameMasked table) := by
  intro request request' counter h
  show (Router.LoadBalancer.onRequest providers request counter).Agree _
    (Router.LoadBalancer.onRequest providers request' counter)
  rw [Router.LoadBalancer.onRequest, Router.LoadBalancer.onRequest, h.model]
  split_ifs with hchosen
  · exact ⟨rfl, rfl, fun _ _ => h⟩
  · simp only
    split
    · exact ⟨rfl, rfl, fun _ _ => { h with model := rfl }⟩
    · exact ⟨rfl, rfl, fun _ _ => h⟩

/-- The selection reads the context of a request, and nothing else. -/
theorem LearningAuctioneer.selectBest_congr {ω : Type*} {request request' : UnifiedRequest}
    (h : request.context = request'.context) (draw choice : ℚ)
    (auctioneer : Router.LearningAuctioneer ω) :
    auctioneer.selectBest draw choice request = auctioneer.selectBest draw choice request' := by
  rw [Router.LearningAuctioneer.selectBest, Router.LearningAuctioneer.selectBest,
    Router.CostAuctioneer.selectBest, Router.CostAuctioneer.selectBest]
  simp only [h]

theorem LearningAuctioneer.carries_sameMasked {K : Type*} [Field K] [LinearOrder K] :
    (Router.LearningAuctioneer.layer (K := K)).Carries (SameMasked table) (SameMasked table) := by
  intro request request' s h
  show (Router.LearningAuctioneer.passRequest request s).Agree _
    (Router.LearningAuctioneer.passRequest request' s)
  rw [Router.LearningAuctioneer.passRequest, Router.LearningAuctioneer.passRequest,
    Router.LearningAuctioneer.onRequest, Router.LearningAuctioneer.onRequest,
    LearningAuctioneer.selectBest_congr h.context]
  cases s.2.selectBest s.1.1 s.1.2 request' with
  | ok selected => exact ⟨rfl, rfl, fun _ _ => { h with model := rfl }⟩
  | error e => exact ⟨rfl, rfl, fun _ hok => by cases hok⟩

theorem carries_of_pass {layer : PipelineLayer σ}
    (h : ∀ request s, layer.onRequest request s = ⟨.ok (), request, s⟩)
    (R : UnifiedRequest → UnifiedRequest → Prop) : layer.Carries R R := by
  intro request request' s hrelated
  rw [h, h]
  exact ⟨rfl, rfl, fun _ _ => hrelated⟩

theorem SameMasked.withContents {request request' : UnifiedRequest}
    (h : SameMasked table request request') (contents : List Str) :
    request.withContents contents = request'.withContents contents := by
  obtain ⟨model, messages, temperature, maxTokens, stream, context, extraParams, hlt⟩ := request
  obtain ⟨model', messages', temperature', maxTokens', stream', context', extraParams', hlt'⟩ :=
    request'
  obtain rfl : model = model' := h.model
  obtain rfl : temperature = temperature' := h.temperature
  obtain rfl : maxTokens = maxTokens' := h.maxTokens
  obtain rfl : stream = stream' := h.stream
  obtain rfl : context = context' := h.context
  obtain rfl : extraParams = extraParams' := h.extraParams
  have hroles : messages.map Message.role = messages'.map Message.role := h.roles
  simp only [UnifiedRequest.withContents, hroles]

theorem PiiMasker.carries_eq {direction : Security.Direction} (h : direction ≠ .response) :
    (Security.PiiMasker.layer table direction).Carries (SameMasked table) Eq := by
  intro request request' s hsame
  show Pass.Agree _ ⟨(Security.PiiMasker.onRequest table direction request).1,
      (Security.PiiMasker.onRequest table direction request).2, ()⟩
    ⟨(Security.PiiMasker.onRequest table direction request').1,
      (Security.PiiMasker.onRequest table direction request').2, ()⟩
  rw [Security.PiiMasker.onRequest, Security.PiiMasker.onRequest, if_neg h, if_neg h,
    hsame.contents]
  cases Security.maskContents table request'.messages with
  | ok contents => exact ⟨rfl, rfl, fun _ _ => hsame.withContents contents⟩
  | error p => exact ⟨rfl, rfl, fun _ hok => by cases hok⟩

theorem PiiMasker.carries_sameMasked (direction : Security.Direction) :
    (Security.PiiMasker.layer table direction).Carries (SameMasked table) (SameMasked table) := by
  by_cases h : direction = .response
  · refine carries_of_pass (fun request s => ?_) _
    show (⟨(Security.PiiMasker.onRequest table direction request).1,
      (Security.PiiMasker.onRequest table direction request).2, ()⟩ : Pass _ _ _) = _
    rw [Security.PiiMasker.onRequest, if_pos h]
  · exact (PiiMasker.carries_eq h).mono fun request _ heq => heq ▸ SameMasked.refl request

theorem RepositoryLayer.carries_sameMasked {layer : PipelineLayer σ}
    (h : RepositoryLayer table layer) : layer.Carries (SameMasked table) (SameMasked table) := by
  cases h with
  | budgetManager part => exact BudgetManager.carries_sameMasked.over part
  | costTracker recordCost part => exact (carries_of_pass (fun _ _ => rfl) _).over part
  | loadBalancer providers part => exact (LoadBalancer.carries_sameMasked providers).over part
  | tieredCache hasher model part => exact (carries_of_pass (fun _ _ => rfl) _).over part
  | costAuctioneer part => exact LearningAuctioneer.carries_sameMasked.over part
  | piiMasker direction part => exact (PiiMasker.carries_sameMasked direction).over part

end Layers

/-- Two requests that are masked to the same text go the same way and have the same answer, and
leave the same state, if a masker of requests is among the layers: the layers of the repository may
stand in front of it, in any order, and any layers behind it. -/
theorem execute_of_sameMasked {table : Security.CharTable} {before behind : List (PipelineLayer σ)}
    (hbefore : ∀ layer ∈ before, RepositoryLayer table layer) {direction : Security.Direction}
    (hdirection : direction ≠ .response) (part : Part σ Unit) {pipeline : Pipeline σ}
    (hlayers : pipeline.layers =
      before ++ (Security.PiiMasker.layer table direction).over part :: behind)
    {request request' : UnifiedRequest} (h : SameMasked table request request') (s : σ) :
    (pipeline.execute request s).result = (pipeline.execute request' s).result ∧
      (pipeline.execute request s).state = (pipeline.execute request' s).state := by
  apply Pipeline.execute_of_agree
  rw [hlayers]
  exact runOnRequest_merged (fun layer hlayer => (hbefore layer hlayer).carries_sameMasked)
    ((PiiMasker.carries_eq hdirection).over part) h s

/-! ### Two phone numbers -/

theorem sameMasked_telling {content content' masked : Str}
    (h : Security.maskText .hangul content = .ok masked)
    (h' : Security.maskText .hangul content' = .ok masked) :
    SameMasked .hangul (telling content) (telling content') := by
  refine ⟨rfl, rfl, rfl, rfl, rfl, rfl, rfl, ?_⟩
  show [content].mapM (Security.maskText .hangul) = [content'].mapM (Security.maskText .hangul)
  rw [List.mapM_cons, List.mapM_cons, h, h']

theorem execute_of_sameMasked_phones :
    (maskedEcho.execute (telling "call 010-1234-5678 now".toList) ()).result =
        (maskedEcho.execute (telling "call 010-9876-5432 now".toList) ()).result ∧
      (maskedEcho.execute (telling "call 010-1234-5678 now".toList) ()).state =
        (maskedEcho.execute (telling "call 010-9876-5432 now".toList) ()).state := by
  have hbefore : ∀ layer ∈ [balancer], RepositoryLayer .hangul layer := by
    intro layer hlayer
    obtain rfl := List.mem_singleton.mp hlayer
    exact .loadBalancer _ _
  have hlayers : maskedEcho.layers = [balancer] ++
      (Security.PiiMasker.layer .hangul .bidirectional).over ⟨id, fun _ s => s⟩ :: [] := rfl
  have hmask : Security.maskText .hangul "call 010-1234-5678 now".toList =
      .ok "call ***-****-**** now".toList := by
    decide +kernel
  have hmask' : Security.maskText .hangul "call 010-9876-5432 now".toList =
      .ok "call ***-****-**** now".toList := by
    decide +kernel
  exact execute_of_sameMasked hbefore (by decide) _ hlayers (sameMasked_telling hmask hmask') ()

end NeuRust
