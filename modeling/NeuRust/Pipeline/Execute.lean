import NeuRust.Provider.Registry

/-!
The pipeline: the layers rewrite a request in their order, a provider is resolved from what they
leave, and the layers rewrite its response in the reverse order. A stream is handed on as it is.
-/

namespace NeuRust

variable {σ τ : Type*}

structure Pipeline (σ : Type*) where
  layers : List (PipelineLayer σ)
  providers : ProviderRegistry σ

inductive PipelineResult where
  | complete (response : UnifiedResponse)
  | stream (chunks : List (Except Error StreamChunk))

def failedOnRequest (layer : Str) : Str :=
  "Pipeline layer '".toList ++ layer ++ "' failed on request".toList

def failedOnResponse (layer : Str) : Str :=
  "Pipeline layer '".toList ++ layer ++ "' failed on response".toList

def requestFailed (provider : Str) : Str :=
  "Request failed on provider '".toList ++ provider ++ "'".toList

def streamRequestFailed (provider : Str) : Str :=
  "Stream request failed on provider '".toList ++ provider ++ "'".toList

def providerNotFound (id : Str) : Error :=
  .msg ("Provider '".toList ++ id ++ "' not found".toList)

def noProviderForModel (model : Str) : Error :=
  .msg ("No provider for model '".toList ++ model ++ "'".toList)

/-- `Option::with_context` -/
def orError {α : Type*} (absent : Error) : Option α → Except Error α
  | some a => .ok a
  | none => .error absent

/-- The first loop of `execute`. -/
def runOnRequest : List (PipelineLayer σ) → UnifiedRequest → σ → Pass Unit UnifiedRequest σ
  | [], request, s => ⟨.ok (), request, s⟩
  | layer :: layers, request, s =>
      match layer.onRequest request s with
      | ⟨.error e, request', s'⟩ => ⟨.error (e.context (failedOnRequest layer.name)), request', s'⟩
      | ⟨.ok (), request', s'⟩ => runOnRequest layers request' s'

/-- The second loop of `execute`, over the layers in the order in which it meets them. -/
def runOnResponse (request : UnifiedRequest) :
    List (PipelineLayer σ) → UnifiedResponse → σ → Pass Unit UnifiedResponse σ
  | [], response, s => ⟨.ok (), response, s⟩
  | layer :: layers, response, s =>
      match layer.onResponse request response s with
      | ⟨.error e, response', s'⟩ =>
          ⟨.error (e.context (failedOnResponse layer.name)), response', s'⟩
      | ⟨.ok (), response', s'⟩ => runOnResponse request layers response' s'

def ProviderRegistry.resolve (providers : ProviderRegistry σ) (request : UnifiedRequest) :
    Except Error (Provider σ) :=
  match request.model.providerId with
  | some pid => orError (providerNotFound pid) (providers.getByName pid)
  | none => orError (noProviderForModel request.model.modelName)
      (providers.getProvider request.model.modelName)

/-- The dual path of `execute`, once the provider is known. -/
def dispatch (layers : List (PipelineLayer σ)) (provider : Provider σ) (request : UnifiedRequest)
    (s : σ) : Pass PipelineResult UnifiedRequest σ :=
  if request.stream then
    match provider.completeStream request s with
    | (.error e, s') => ⟨.error (e.context (streamRequestFailed provider.name)), request, s'⟩
    | (.ok chunks, s') => ⟨.ok (.stream chunks), request, s'⟩
  else
    match provider.complete request s with
    | (.error e, s') => ⟨.error (e.context (requestFailed provider.name)), request, s'⟩
    | (.ok response, s') =>
        match runOnResponse request layers.reverse response s' with
        | ⟨.error e, _, s''⟩ => ⟨.error e, request, s''⟩
        | ⟨.ok (), response', s''⟩ => ⟨.ok (.complete response'), request, s''⟩

namespace Pipeline

def new (providers : ProviderRegistry σ) : Pipeline σ := ⟨[], providers⟩

def addLayer (layer : PipelineLayer σ) (pipeline : Pipeline σ) : Pipeline σ :=
  { pipeline with layers := pipeline.layers ++ [layer] }

def execute (pipeline : Pipeline σ) (request : UnifiedRequest) (s : σ) :
    Pass PipelineResult UnifiedRequest σ :=
  match runOnRequest pipeline.layers request s with
  | ⟨.error e, request', s'⟩ => ⟨.error e, request', s'⟩
  | ⟨.ok (), request', s'⟩ =>
      match pipeline.providers.resolve request' with
      | .error e => ⟨.error e, request', s'⟩
      | .ok provider => dispatch pipeline.layers provider request' s'

end Pipeline

/-! ### One turn of the loops -/

section Turn

variable {layer : PipelineLayer σ} {layers : List (PipelineLayer σ)}
  {request request' : UnifiedRequest} {response response' : UnifiedResponse} {s s' : σ} {e : Error}

theorem runOnRequest_failed (h : layer.onRequest request s = ⟨.error e, request', s'⟩) :
    runOnRequest (layer :: layers) request s =
      ⟨.error (e.context (failedOnRequest layer.name)), request', s'⟩ := by
  rw [runOnRequest, h]

theorem runOnRequest_passed (h : layer.onRequest request s = ⟨.ok (), request', s'⟩) :
    runOnRequest (layer :: layers) request s = runOnRequest layers request' s' := by
  rw [runOnRequest, h]

theorem runOnResponse_failed
    (h : layer.onResponse request response s = ⟨.error e, response', s'⟩) :
    runOnResponse request (layer :: layers) response s =
      ⟨.error (e.context (failedOnResponse layer.name)), response', s'⟩ := by
  rw [runOnResponse, h]

theorem runOnResponse_passed (h : layer.onResponse request response s = ⟨.ok (), response', s'⟩) :
    runOnResponse request (layer :: layers) response s =
      runOnResponse request layers response' s' := by
  rw [runOnResponse, h]

end Turn

/-- Layers that let a response pass hand it on to the ones that come next, and a failure leaves
those out. -/
theorem runOnResponse_append (request : UnifiedRequest) (first later : List (PipelineLayer σ))
    (response : UnifiedResponse) (s : σ) :
    runOnResponse request (first ++ later) response s =
      match runOnResponse request first response s with
      | ⟨.ok (), response', s'⟩ => runOnResponse request later response' s'
      | ⟨.error e, response', s'⟩ => ⟨.error e, response', s'⟩ := by
  induction first generalizing response s with
  | nil => rfl
  | cons layer first ih =>
      rcases hpass : layer.onResponse request response s with ⟨e | _, response', s'⟩
      · rw [List.cons_append, runOnResponse_failed hpass, runOnResponse_failed hpass]
      · rw [List.cons_append, runOnResponse_passed hpass, runOnResponse_passed hpass, ih]

/-! ### What the loops leave alone -/

section Keep

variable {β : Type*} {f : σ → β} {layers : List (PipelineLayer σ)}

theorem runOnRequest_keeps
    (h : ∀ layer ∈ layers, ∀ request s, f (layer.onRequest request s).state = f s)
    (request : UnifiedRequest) (s : σ) : f (runOnRequest layers request s).state = f s := by
  induction layers generalizing request s with
  | nil => rfl
  | cons layer layers ih =>
      obtain ⟨hlayer, hlayers⟩ := List.forall_mem_cons.mp h
      have hkeep := hlayer request s
      rcases hpass : layer.onRequest request s with ⟨e | _, request', s'⟩
      · rw [runOnRequest_failed hpass]
        rwa [hpass] at hkeep
      · rw [runOnRequest_passed hpass, ih hlayers]
        rwa [hpass] at hkeep

theorem runOnResponse_keeps {request : UnifiedRequest}
    (h : ∀ layer ∈ layers, ∀ response s, f (layer.onResponse request response s).state = f s)
    (response : UnifiedResponse) (s : σ) :
    f (runOnResponse request layers response s).state = f s := by
  induction layers generalizing response s with
  | nil => rfl
  | cons layer layers ih =>
      obtain ⟨hlayer, hlayers⟩ := List.forall_mem_cons.mp h
      have hkeep := hlayer response s
      rcases hpass : layer.onResponse request response s with ⟨e | _, response', s'⟩
      · rw [runOnResponse_failed hpass]
        rwa [hpass] at hkeep
      · rw [runOnResponse_passed hpass, ih hlayers]
        rwa [hpass] at hkeep

end Keep

/-! ### The three ways of a request -/

theorem ProviderRegistry.mem_of_resolve {providers : ProviderRegistry σ} {request : UnifiedRequest}
    {provider : Provider σ} (h : providers.resolve request = .ok provider) :
    provider ∈ providers.providers := by
  have hfound : ∀ {absent : Error} {q : Provider σ → Bool},
      orError absent (providers.providers.find? q) = .ok provider →
        provider ∈ providers.providers := by
    intro absent q hq
    cases hfind : providers.providers.find? q with
    | none =>
        rw [hfind] at hq
        cases hq
    | some p =>
        rw [hfind] at hq
        obtain rfl := Except.ok.inj hq
        exact List.mem_of_find?_eq_some hfind
  rw [resolve] at h
  split at h
  · exact hfound h
  · exact hfound h

namespace Pipeline

variable {pipeline : Pipeline σ} {request left : UnifiedRequest} {s s' : σ} {e : Error}

theorem execute_failed (h : runOnRequest pipeline.layers request s = ⟨.error e, left, s'⟩) :
    pipeline.execute request s = ⟨.error e, left, s'⟩ := by
  rw [execute, h]

theorem execute_unresolved (h : runOnRequest pipeline.layers request s = ⟨.ok (), left, s'⟩)
    (hresolve : pipeline.providers.resolve left = .error e) :
    pipeline.execute request s = ⟨.error e, left, s'⟩ := by
  rw [execute, h]
  simp only [hresolve]

theorem execute_resolved {provider : Provider σ}
    (h : runOnRequest pipeline.layers request s = ⟨.ok (), left, s'⟩)
    (hresolve : pipeline.providers.resolve left = .ok provider) :
    pipeline.execute request s = dispatch pipeline.layers provider left s' := by
  rw [execute, h]
  simp only [hresolve]

end Pipeline

/-! ### Layers and providers over a part of the state -/

def PipelineLayer.onFst (layer : PipelineLayer σ) : PipelineLayer (σ × τ) where
  name := layer.name
  onRequest request s :=
    let pass := layer.onRequest request s.1
    ⟨pass.result, pass.value, (pass.state, s.2)⟩
  onResponse request response s :=
    let pass := layer.onResponse request response s.1
    ⟨pass.result, pass.value, (pass.state, s.2)⟩

def PipelineLayer.onSnd (layer : PipelineLayer τ) : PipelineLayer (σ × τ) where
  name := layer.name
  onRequest request s :=
    let pass := layer.onRequest request s.2
    ⟨pass.result, pass.value, (s.1, pass.state)⟩
  onResponse request response s :=
    let pass := layer.onResponse request response s.2
    ⟨pass.result, pass.value, (s.1, pass.state)⟩

def Provider.onSnd (provider : Provider τ) : Provider (σ × τ) where
  name := provider.name
  supportedModels := provider.supportedModels
  complete request s :=
    let (answer, t) := provider.complete request s.2
    (answer, (s.1, t))
  completeStream request s :=
    let (answer, t) := provider.completeStream request s.2
    (answer, (s.1, t))

def ProviderRegistry.onSnd (registry : ProviderRegistry τ) : ProviderRegistry (σ × τ) :=
  ⟨registry.providers.map Provider.onSnd⟩

end NeuRust
