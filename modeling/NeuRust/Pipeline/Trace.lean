import NeuRust.Pipeline.Execute
import NeuRust.Machine.Cut

/-!
The calls that a pipeline makes. The layers and the providers are replaced by ones that write down
each call in a log that is part of the state; `execute` itself is left as it is. The log is the
sequence of stages that the pipeline prescribes, cut after the first failing call.
-/

namespace NeuRust

variable {σ : Type*}

inductive Call where
  | onRequest (layer : ℕ) (seen : UnifiedRequest) (result : Except Error Unit)
      (left : UnifiedRequest)
  | complete (provider : ℕ) (seen : UnifiedRequest) (answer : Except Error UnifiedResponse)
  | completeStream (provider : ℕ) (seen : UnifiedRequest)
      (answer : Except Error (List (Except Error StreamChunk)))
  | onResponse (layer : ℕ) (request : UnifiedRequest) (seen : UnifiedResponse)
      (result : Except Error Unit) (left : UnifiedResponse)

inductive Stage where
  | onRequest (layer : ℕ)
  | complete
  | completeStream
  | onResponse (layer : ℕ)
  deriving DecidableEq

/-- What is on its way through the pipeline: the request, and the result once there is one. -/
structure Flow where
  request : UnifiedRequest
  result : Option PipelineResult

namespace Call

def stage : Call → Stage
  | .onRequest layer _ _ _ => .onRequest layer
  | .complete _ _ _ => .complete
  | .completeStream _ _ _ => .completeStream
  | .onResponse layer _ _ _ _ => .onResponse layer

def failed : Call → Bool
  | .onRequest _ _ result _ => !result.isOk
  | .complete _ _ answer => !answer.isOk
  | .completeStream _ _ answer => !answer.isOk
  | .onResponse _ _ _ result _ => !result.isOk

/-- The position of the provider called, and the request it is called with. -/
def toProvider : Call → Option (ℕ × UnifiedRequest)
  | .complete provider seen _ => some (provider, seen)
  | .completeStream provider seen _ => some (provider, seen)
  | _ => none

def Sees (flow : Flow) : Call → Prop
  | .onRequest _ seen _ _ => seen = flow.request
  | .complete _ seen _ => seen = flow.request
  | .completeStream _ seen _ => seen = flow.request
  | .onResponse _ request seen _ _ =>
      request = flow.request ∧ flow.result = some (.complete seen)

def leave (flow : Flow) : Call → Flow
  | .onRequest _ _ _ left => { flow with request := left }
  | .complete _ _ (.ok response) => { flow with result := some (.complete response) }
  | .completeStream _ _ (.ok chunks) => { flow with result := some (.stream chunks) }
  | .onResponse _ _ _ _ left => { flow with result := some (.complete left) }
  | _ => flow

end Call

def pipelineCalls : Protocol Call Stage Flow := ⟨Call.stage, Call.failed, Call.Sees, Call.leave⟩

/-! ### Logs -/

def PipelineLayer.logged (layer : PipelineLayer σ) (i : ℕ) : PipelineLayer (σ × List Call) where
  name := layer.name
  onRequest request s :=
    let pass := layer.onRequest request s.1
    ⟨pass.result, pass.value, (pass.state, s.2 ++ [.onRequest i request pass.result pass.value])⟩
  onResponse request response s :=
    let pass := layer.onResponse request response s.1
    ⟨pass.result, pass.value,
      (pass.state, s.2 ++ [.onResponse i request response pass.result pass.value])⟩

def Provider.logged (provider : Provider σ) (i : ℕ) : Provider (σ × List Call) where
  name := provider.name
  supportedModels := provider.supportedModels
  complete request s :=
    let (answer, t) := provider.complete request s.1
    (answer, (t, s.2 ++ [.complete i request answer]))
  completeStream request s :=
    let (answer, t) := provider.completeStream request s.1
    (answer, (t, s.2 ++ [.completeStream i request answer]))

def ProviderRegistry.logged (registry : ProviderRegistry σ) : ProviderRegistry (σ × List Call) :=
  ⟨registry.providers.zipIdx.map fun p => p.1.logged p.2⟩

namespace Pipeline

def logged (pipeline : Pipeline σ) : Pipeline (σ × List Call) :=
  ⟨pipeline.layers.zipIdx.map fun l => l.1.logged l.2, pipeline.providers.logged⟩

def calls (pipeline : Pipeline σ) (request : UnifiedRequest) (s : σ) : List Call :=
  (pipeline.logged.execute request (s, [])).state.2

/-- The stages that the pipeline prescribes for a request that is to be streamed or not. -/
def stages (pipeline : Pipeline σ) (stream : Bool) : List Stage :=
  (List.range pipeline.layers.length).map .onRequest ++
    if stream then [.completeStream]
    else .complete :: (List.range pipeline.layers.length).reverse.map .onResponse

end Pipeline

/-! ### The two loops -/

@[simp] theorem isOk_ok {ε α : Type*} (a : α) : (Except.ok a : Except ε α).isOk = true := rfl

@[simp] theorem isOk_error {ε α : Type*} (e : ε) : (Except.error e : Except ε α).isOk = false := rfl

theorem single_onRequest (i : ℕ) (request left : UnifiedRequest) (r : Option PipelineResult)
    (result : Except Error Unit) :
    Cut pipelineCalls [.onRequest i] ⟨request, r⟩ [.onRequest i request result left] result.isOk
      ⟨left, r⟩ :=
  .single rfl rfl rfl rfl

theorem runOnRequest_logged (layers : List (PipelineLayer σ × ℕ)) (request : UnifiedRequest)
    (r : Option PipelineResult) (s : σ) (log : List Call) :
    ∃ calls, runOnRequest (layers.map fun l => l.1.logged l.2) request (s, log) =
        ⟨(runOnRequest (layers.map Prod.fst) request s).result,
          (runOnRequest (layers.map Prod.fst) request s).value,
          ((runOnRequest (layers.map Prod.fst) request s).state, log ++ calls)⟩ ∧
      Cut pipelineCalls (layers.map fun l => .onRequest l.2) ⟨request, r⟩ calls
        (runOnRequest (layers.map Prod.fst) request s).result.isOk
        ⟨(runOnRequest (layers.map Prod.fst) request s).value, r⟩ := by
  induction layers generalizing request s log with
  | nil => exact ⟨[], by simp [runOnRequest], .nil _⟩
  | cons l layers ih =>
      obtain ⟨layer, i⟩ := l
      rcases hpass : layer.onRequest request s with ⟨result, request', s'⟩
      have hlogged : (layer.logged i).onRequest request (s, log) =
          ⟨result, request', (s', log ++ [.onRequest i request result request'])⟩ := by
        simp only [PipelineLayer.logged, hpass]
      have hcall := single_onRequest i request request' r result
      rw [List.map_cons, List.map_cons, List.map_cons]
      cases result with
      | error e =>
          rw [runOnRequest_failed hlogged, runOnRequest_failed hpass]
          exact ⟨_, rfl, hcall.abort _⟩
      | ok _ =>
          obtain ⟨calls, hcalls, hcut⟩ :=
            ih request' s' (log ++ [.onRequest i request (.ok ()) request'])
          rw [runOnRequest_passed hlogged, runOnRequest_passed hpass, hcalls]
          exact ⟨_, by rw [List.append_assoc], hcall.append hcut⟩

theorem single_onResponse (i : ℕ) (request : UnifiedRequest) (response left : UnifiedResponse)
    (result : Except Error Unit) :
    Cut pipelineCalls [.onResponse i] ⟨request, some (.complete response)⟩
      [.onResponse i request response result left] result.isOk
      ⟨request, some (.complete left)⟩ :=
  .single rfl rfl ⟨rfl, rfl⟩ rfl

theorem runOnResponse_logged (layers : List (PipelineLayer σ × ℕ)) (request : UnifiedRequest)
    (response : UnifiedResponse) (s : σ) (log : List Call) :
    ∃ calls, runOnResponse request (layers.map fun l => l.1.logged l.2) response (s, log) =
        ⟨(runOnResponse request (layers.map Prod.fst) response s).result,
          (runOnResponse request (layers.map Prod.fst) response s).value,
          ((runOnResponse request (layers.map Prod.fst) response s).state, log ++ calls)⟩ ∧
      Cut pipelineCalls (layers.map fun l => .onResponse l.2)
        ⟨request, some (.complete response)⟩ calls
        (runOnResponse request (layers.map Prod.fst) response s).result.isOk
        ⟨request,
          some (.complete (runOnResponse request (layers.map Prod.fst) response s).value)⟩ := by
  induction layers generalizing response s log with
  | nil => exact ⟨[], by simp [runOnResponse], .nil _⟩
  | cons l layers ih =>
      obtain ⟨layer, i⟩ := l
      rcases hpass : layer.onResponse request response s with ⟨result, response', s'⟩
      have hlogged : (layer.logged i).onResponse request response (s, log) =
          ⟨result, response', (s', log ++ [.onResponse i request response result response'])⟩ := by
        simp only [PipelineLayer.logged, hpass]
      have hcall := single_onResponse i request response response' result
      rw [List.map_cons, List.map_cons, List.map_cons]
      cases result with
      | error e =>
          rw [runOnResponse_failed hlogged, runOnResponse_failed hpass]
          exact ⟨_, rfl, hcall.abort _⟩
      | ok _ =>
          obtain ⟨calls, hcalls, hcut⟩ :=
            ih response' s' (log ++ [.onResponse i request response (.ok ()) response'])
          rw [runOnResponse_passed hlogged, runOnResponse_passed hpass, hcalls]
          exact ⟨_, by rw [List.append_assoc], hcall.append hcut⟩

/-! ### The provider -/

section Resolve

variable {provider : Provider σ} {request : UnifiedRequest}

theorem find?_logged {q : Provider σ → Bool} {q' : Provider (σ × List Call) → Bool}
    (hq : ∀ p i, q' (p.logged i) = q p) (providers : List (Provider σ)) (k : ℕ) :
    (providers.find? q = none →
      ((providers.zipIdx k).map fun p => p.1.logged p.2).find? q' = none) ∧
    ∀ p, providers.find? q = some p → ∃ i, providers[i]? = some p ∧
      ((providers.zipIdx k).map fun p => p.1.logged p.2).find? q' = some (p.logged (k + i)) := by
  induction providers generalizing k with
  | nil => simp
  | cons p providers ih =>
      rw [List.zipIdx_cons, List.map_cons, List.find?_cons, List.find?_cons, hq]
      cases q p with
      | true =>
          refine ⟨nofun, fun p' hp' => ⟨0, ?_⟩⟩
          obtain rfl := Option.some.inj hp'
          exact ⟨rfl, rfl⟩
      | false =>
          refine ⟨(ih (k + 1)).1, fun p' hp' => ?_⟩
          obtain ⟨i, hi, hfind⟩ := (ih (k + 1)).2 p' hp'
          exact ⟨i + 1, by simpa using hi, by rw [hfind, Nat.add_right_comm, Nat.add_assoc]⟩

theorem orError_find?_logged {q : Provider σ → Bool} {q' : Provider (σ × List Call) → Bool}
    (hq : ∀ p i, q' (p.logged i) = q p) (providers : List (Provider σ)) (absent : Error) :
    (∀ e, orError absent (providers.find? q) = .error e →
      orError absent ((providers.zipIdx.map fun p => p.1.logged p.2).find? q') = .error e) ∧
    ∀ p, orError absent (providers.find? q) = .ok p → ∃ i, providers[i]? = some p ∧
      orError absent ((providers.zipIdx.map fun p => p.1.logged p.2).find? q') =
        .ok (p.logged i) := by
  obtain ⟨hnone, hsome⟩ := find?_logged hq providers 0
  cases hfind : providers.find? q with
  | none =>
      rw [hnone hfind]
      exact ⟨fun e he => congrArg Except.error (Except.error.inj he), nofun⟩
  | some p =>
      obtain ⟨i, hi, hlogged⟩ := hsome p hfind
      rw [hlogged, Nat.zero_add]
      refine ⟨nofun, fun p' hp' => ⟨i, ?_⟩⟩
      obtain rfl := Except.ok.inj hp'
      exact ⟨hi, rfl⟩

theorem resolve_logged (registry : ProviderRegistry σ) (request : UnifiedRequest) :
    (∀ e, registry.resolve request = .error e → registry.logged.resolve request = .error e) ∧
    ∀ provider, registry.resolve request = .ok provider → ∃ i,
      registry.providers[i]? = some provider ∧
        registry.logged.resolve request = .ok (provider.logged i) := by
  rw [ProviderRegistry.resolve, ProviderRegistry.resolve]
  cases request.model.providerId with
  | some pid => exact orError_find?_logged (fun _ _ => rfl) registry.providers _
  | none => exact orError_find?_logged (fun _ _ => rfl) registry.providers _

end Resolve

/-! ### The dual path -/

def dispatchStages (layers : List (PipelineLayer σ × ℕ)) (stream : Bool) : List Stage :=
  if stream then [.completeStream] else .complete :: layers.reverse.map fun l => .onResponse l.2

theorem toProvider_of_layers {β : Type*} {f : β → Stage} {expected : List β} {calls : List Call}
    (hf : ∀ b, f b ≠ .complete ∧ f b ≠ .completeStream)
    (h : calls.map Call.stage <+: expected.map f) : ∀ call ∈ calls, call.toProvider = none := by
  intro call hcall
  obtain ⟨b, -, hb⟩ := List.mem_map.mp (h.subset (List.mem_map_of_mem hcall))
  cases call with
  | onRequest => rfl
  | complete => exact absurd hb (hf b).1
  | completeStream => exact absurd hb (hf b).2
  | onResponse => rfl

theorem single_complete (i : ℕ) (request : UnifiedRequest) (response : UnifiedResponse) :
    Cut pipelineCalls [.complete] ⟨request, none⟩ [.complete i request (.ok response)] true
      ⟨request, some (.complete response)⟩ :=
  .single rfl rfl rfl rfl

/-- With logged layers and a logged provider, a dispatch gives what it gives without, and logs its
calls: a cut of the prescribed sequence, all of them to the one provider with the request. -/
def DispatchLogged (layers : List (PipelineLayer σ × ℕ)) (provider : Provider σ) (i : ℕ)
    (request : UnifiedRequest) (s : σ) (log : List Call) : Prop :=
  ∃ calls finish, dispatch (layers.map fun l => l.1.logged l.2) (provider.logged i) request
      (s, log) = ⟨(dispatch (layers.map Prod.fst) provider request s).result,
        (dispatch (layers.map Prod.fst) provider request s).value,
        ((dispatch (layers.map Prod.fst) provider request s).state, log ++ calls)⟩ ∧
    Cut pipelineCalls (dispatchStages layers request.stream) ⟨request, none⟩ calls
      (dispatch (layers.map Prod.fst) provider request s).result.isOk finish ∧
    finish.request = request ∧
    (∀ call ∈ calls, ∀ target, call.toProvider = some target → target = (i, request)) ∧
    ∀ result, (dispatch (layers.map Prod.fst) provider request s).result = .ok result →
      finish.result = some result

section

variable (layers : List (PipelineLayer σ × ℕ)) (provider : Provider σ) (i : ℕ)

theorem dispatch_logged_stream {request : UnifiedRequest} (hstream : request.stream = true) (s : σ)
    (log : List Call) : DispatchLogged layers provider i request s log := by
  rw [DispatchLogged, dispatch, dispatch, dispatchStages, if_pos hstream, if_pos hstream,
    if_pos hstream]
  rcases hcall : provider.completeStream request s with ⟨answer, s'⟩
  have hlogged : (provider.logged i).completeStream request (s, log) =
      (answer, (s', log ++ [.completeStream i request answer])) := by
    simp only [Provider.logged, hcall]
  rw [hlogged]
  cases answer with
  | error e =>
      refine ⟨_, ⟨request, none⟩, rfl, .single rfl rfl rfl rfl, rfl, ?_, nofun⟩
      simp [Call.toProvider]
  | ok chunks =>
      refine ⟨_, ⟨request, some (.stream chunks)⟩, rfl, .single rfl rfl rfl rfl, rfl, ?_, ?_⟩
      · simp [Call.toProvider]
      · rintro result ⟨rfl⟩
        rfl

theorem dispatch_logged_complete {request : UnifiedRequest} (hstream : ¬ request.stream = true)
    (s : σ) (log : List Call) : DispatchLogged layers provider i request s log := by
  rw [DispatchLogged, dispatch, dispatch, dispatchStages, if_neg hstream, if_neg hstream,
    if_neg hstream]
  rcases hcall : provider.complete request s with ⟨answer, s'⟩
  have hlogged : (provider.logged i).complete request (s, log) =
      (answer, (s', log ++ [.complete i request answer])) := by
    simp only [Provider.logged, hcall]
  rw [hlogged]
  cases answer with
  | error e =>
      have hfailed : Cut pipelineCalls [.complete] ⟨request, none⟩
          [.complete i request (.error e)] false ⟨request, none⟩ := .single rfl rfl rfl rfl
      exact ⟨_, _, rfl, hfailed.abort _, rfl, by simp [Call.toProvider], nofun⟩
  | ok response =>
      obtain ⟨calls, hcalls, hcut⟩ := runOnResponse_logged layers.reverse request response s'
        (log ++ [.complete i request (.ok response)])
      rw [List.map_reverse, List.map_reverse] at hcalls
      rw [List.map_reverse (f := Prod.fst)] at hcut
      simp only [hcalls]
      rcases hpass : runOnResponse request (layers.map Prod.fst).reverse response s' with
        ⟨result, response', s''⟩
      rw [hpass] at hcut
      have hboth := (single_complete i request response).append hcut
      have htarget : ∀ call ∈ Call.complete i request (.ok response) :: calls, ∀ target,
          call.toProvider = some target → target = (i, request) := by
        have hlayers := toProvider_of_layers (by simp) hcut.stages
        refine List.forall_mem_cons.mpr ⟨by simp [Call.toProvider], ?_⟩
        intro call hcall target htarget
        rw [hlayers call hcall] at htarget
        cases htarget
      cases result with
      | error e => exact ⟨_, _, by rw [List.append_assoc], hboth, rfl, htarget, nofun⟩
      | ok _ =>
          refine ⟨_, _, by rw [List.append_assoc], hboth, rfl, htarget, ?_⟩
          rintro result ⟨rfl⟩
          rfl

theorem dispatch_logged (request : UnifiedRequest) (s : σ) (log : List Call) :
    DispatchLogged layers provider i request s log := by
  by_cases hstream : request.stream = true
  · exact dispatch_logged_stream layers provider i hstream s log
  · exact dispatch_logged_complete layers provider i hstream s log

end

/-- Behind the choice of a provider, the provider is the first to be called. -/
theorem exists_toProvider_of_cut {layers : List (PipelineLayer σ × ℕ)} {stream : Bool}
    {start finish : Flow} {calls : List Call} {ok : Bool}
    (h : Cut pipelineCalls (dispatchStages layers stream) start calls ok finish) :
    ∃ call ∈ calls, ∃ target, call.toProvider = some target := by
  obtain ⟨st, later, hstages, hst⟩ : ∃ st later, dispatchStages layers stream = st :: later ∧
      (st = .complete ∨ st = .completeStream) := by
    rw [dispatchStages]
    split
    · exact ⟨_, _, rfl, .inr rfl⟩
    · exact ⟨_, _, rfl, .inl rfl⟩
  rw [hstages] at h
  cases calls with
  | nil =>
      cases ok with
      | true => cases (h.complete rfl).1
      | false =>
          obtain ⟨earlier, last, hnil, -⟩ := h.cut rfl
          simp at hnil
  | cons call calls =>
      refine ⟨call, List.mem_cons_self, ?_⟩
      have hfirst : call.stage = st := (List.cons_prefix_cons.mp h.stages).1
      cases call with
      | onRequest => simp [← hfirst, Call.stage] at hst
      | complete provider seen => exact ⟨(provider, seen), rfl⟩
      | completeStream provider seen => exact ⟨(provider, seen), rfl⟩
      | onResponse => simp [← hfirst, Call.stage] at hst

/-! ### The whole pipeline -/

/-- The calls made for a request: the stages are those that the pipeline prescribes for the request
as the layers leave it, and the result tells how far the calls have come. -/
structure Lawful (pipeline : Pipeline σ) (request : UnifiedRequest) (left : UnifiedRequest)
    (calls : List Call) (result : Except Error PipelineResult) : Prop where
  /-- The calls are the first ones of the prescribed sequence. -/
  stages : calls.map Call.stage <+: pipeline.stages left.stream
  /-- The result is a success exactly when they are all of it and none has failed. -/
  ok_iff : result.isOk = true ↔
    calls.map Call.stage = pipeline.stages left.stream ∧ ∀ call ∈ calls, call.failed = false
  /-- Otherwise the last call, and no other one, has failed, or there is no provider. -/
  cut : result.isOk = false →
    (∃ earlier last, calls = earlier ++ [last] ∧ last.failed = true ∧
      ∀ call ∈ earlier, call.failed = false) ∨
    (calls.map Call.stage = (List.range pipeline.layers.length).map .onRequest ∧
      (∀ call ∈ calls, call.failed = false) ∧
      ∃ e, pipeline.providers.resolve left = .error e)
  /-- Each call sees what the ones before it have left. -/
  sees : ∀ before call after, calls = before ++ call :: after →
    call.Sees (before.foldl Call.leave ⟨request, none⟩)
  /-- The layers leave `left`, if all of them have been called. -/
  leaves : (calls.foldl Call.leave ⟨request, none⟩).request = left
  /-- The provider called is the one resolved from the request it is called with. -/
  provider : ∀ call ∈ calls, ∀ i seen, call.toProvider = some (i, seen) → seen = left ∧
    ∃ provider, pipeline.providers.providers[i]? = some provider ∧
      pipeline.providers.resolve left = .ok provider
  /-- What is returned is what the last call has left. -/
  returned : ∀ r, result = .ok r → (calls.foldl Call.leave ⟨request, none⟩).result = some r

/-- Without a lookup that fails, the calls are one cut sequence. -/
theorem Lawful.of_cut {pipeline : Pipeline σ} {request left : UnifiedRequest} {calls : List Call}
    {result : Except Error PipelineResult} {finish : Flow}
    (hcut : Cut pipelineCalls (pipeline.stages left.stream) ⟨request, none⟩ calls result.isOk
      finish)
    (hfinish : finish.request = left)
    (hprovider : ∀ call ∈ calls, ∀ i seen, call.toProvider = some (i, seen) → seen = left ∧
      ∃ provider, pipeline.providers.providers[i]? = some provider ∧
        pipeline.providers.resolve left = .ok provider)
    (hreturned : ∀ r, result = .ok r → finish.result = some r) :
    Lawful pipeline request left calls result where
  stages := hcut.stages
  ok_iff := by
    constructor
    · exact hcut.complete
    · rintro ⟨-, hgood⟩
      by_contra hresult
      obtain ⟨earlier, last, rfl, hlast, -⟩ := hcut.cut (by simpa using hresult)
      have hlast' : last.failed = false := hgood last (by simp)
      rw [show last.failed = true from hlast] at hlast'
      cases hlast'
  cut := fun h => .inl (hcut.cut h)
  sees := hcut.sees
  leaves := by
    rw [← hfinish, ← hcut.leaves]
    rfl
  provider := hprovider
  returned := by
    intro r hr
    rw [← hreturned r hr, ← hcut.leaves]
    rfl

theorem stages_eq (pipeline : Pipeline σ) (stream : Bool) :
    pipeline.stages stream =
      (pipeline.layers.zipIdx.map fun l => .onRequest l.2) ++
        dispatchStages pipeline.layers.zipIdx stream := by
  have hrange : pipeline.layers.zipIdx.map Prod.snd = List.range pipeline.layers.length := by
    rw [List.zipIdx_map_snd, List.range_eq_range']
  rw [Pipeline.stages, dispatchStages, ← hrange, ← List.map_reverse, List.map_map, List.map_map]
  rfl

theorem stages_ne (pipeline : Pipeline σ) (stream : Bool) :
    (pipeline.layers.zipIdx.map fun l => .onRequest l.2) ≠ pipeline.stages stream := by
  rw [stages_eq, Ne, List.self_eq_append_right, dispatchStages]
  split <;> exact List.cons_ne_nil _ _

/-- A lookup that fails leaves the provider and the layers behind it out. -/
theorem Lawful.of_unresolved {pipeline : Pipeline σ} {request left : UnifiedRequest}
    {calls : List Call} {e : Error}
    (hcut : Cut pipelineCalls (pipeline.layers.zipIdx.map fun l => .onRequest l.2)
      ⟨request, none⟩ calls true ⟨left, none⟩)
    (hresolve : pipeline.providers.resolve left = .error e) :
    Lawful pipeline request left calls (.error e) where
  stages := by
    rw [stages_eq]
    exact hcut.stages.trans (List.prefix_append _ _)
  ok_iff := by
    refine ⟨nofun, fun h => ?_⟩
    exact absurd ((hcut.complete rfl).1.symm.trans h.1) (stages_ne pipeline left.stream)
  cut := by
    intro _
    refine .inr ⟨?_, (hcut.complete rfl).2, e, hresolve⟩
    rw [List.range_eq_range', ← List.zipIdx_map_snd, List.map_map]
    exact (hcut.complete rfl).1
  sees := hcut.sees
  leaves := congrArg Flow.request hcut.leaves
  provider := by
    intro call hcall i seen htarget
    rw [toProvider_of_layers (by simp) hcut.stages call hcall] at htarget
    cases htarget
  returned := nofun

/-- The log does not change what `execute` does, and holds the calls in their order. -/
theorem execute_logged (pipeline : Pipeline σ) (request : UnifiedRequest) (s : σ)
    (log : List Call) :
    ∃ calls, pipeline.logged.execute request (s, log) =
        ⟨(pipeline.execute request s).result, (pipeline.execute request s).value,
          ((pipeline.execute request s).state, log ++ calls)⟩ ∧
      Lawful pipeline request (runOnRequest pipeline.layers request s).value calls
        (pipeline.execute request s).result ∧
      ((runOnRequest pipeline.layers request s).result = .ok () → ∀ provider,
        pipeline.providers.resolve (runOnRequest pipeline.layers request s).value = .ok provider →
        ∃ call ∈ calls, ∃ target, call.toProvider = some target) := by
  obtain ⟨calls, hlogged, hcut⟩ := runOnRequest_logged pipeline.layers.zipIdx request none s log
  have hlayers := toProvider_of_layers (by simp) hcut.stages
  rw [List.zipIdx_map_fst] at hlogged hcut
  rcases hpass : runOnRequest pipeline.layers request s with ⟨result, left, s'⟩
  rw [hpass] at hcut hlogged
  cases result with
  | error e =>
      rw [Pipeline.execute_failed hlogged, Pipeline.execute_failed hpass]
      have hcut' : Cut pipelineCalls (pipeline.stages left.stream) ⟨request, none⟩ calls false
          ⟨left, none⟩ := by
        rw [stages_eq]
        exact hcut.abort _
      refine ⟨calls, rfl, .of_cut hcut' rfl ?_ nofun, nofun⟩
      intro call hcall i seen htarget
      rw [hlayers call hcall] at htarget
      cases htarget
  | ok _ =>
      obtain ⟨hnone, hsome⟩ := resolve_logged pipeline.providers left
      cases hresolve : pipeline.providers.resolve left with
      | error e =>
          rw [Pipeline.execute_unresolved hlogged (hnone e hresolve),
            Pipeline.execute_unresolved hpass hresolve]
          exact ⟨calls, rfl, .of_unresolved hcut hresolve, nofun⟩
      | ok provider =>
          obtain ⟨i, hi, hlogged'⟩ := hsome provider hresolve
          obtain ⟨calls', finish, hdispatch, hcut', hfinish, htarget, hreturned⟩ :=
            dispatch_logged pipeline.layers.zipIdx provider i left s' (log ++ calls)
          rw [List.zipIdx_map_fst] at hdispatch hcut' hreturned
          rw [Pipeline.execute_resolved hlogged hlogged',
            Pipeline.execute_resolved hpass hresolve, Pipeline.logged, hdispatch]
          have hboth : Cut pipelineCalls (pipeline.stages left.stream) ⟨request, none⟩
              (calls ++ calls') (dispatch pipeline.layers provider left s').result.isOk finish := by
            rw [stages_eq]
            exact hcut.append hcut'
          refine ⟨calls ++ calls', by rw [List.append_assoc],
            .of_cut hboth hfinish ?_ hreturned, fun _ _ _ => ?_⟩
          · intro call hcall j seen hcalled
            rcases List.mem_append.mp hcall with hcall | hcall
            · rw [hlayers call hcall] at hcalled
              cases hcalled
            · obtain ⟨rfl, rfl⟩ := Prod.mk.inj (htarget call hcall _ hcalled)
              exact ⟨rfl, provider, hi, hresolve⟩
          · obtain ⟨call, hcall, htarget⟩ := exists_toProvider_of_cut hcut'
            exact ⟨call, List.mem_append_right _ hcall, htarget⟩

/-- The calls of a request follow the order of the layers, and are cut after the first failure. -/
theorem execute_lawful (pipeline : Pipeline σ) (request : UnifiedRequest) (s : σ) :
    Lawful pipeline request (runOnRequest pipeline.layers request s).value
      (pipeline.calls request s) (pipeline.execute request s).result := by
  obtain ⟨calls, hlogged, hlawful, -⟩ := execute_logged pipeline request s []
  rwa [Pipeline.calls, hlogged]

def Pipeline.Calls (pipeline : Pipeline σ) (request : UnifiedRequest) (s : σ)
    (provider : Provider σ) : Prop :=
  ∃ call ∈ pipeline.calls request s, ∃ i seen, call.toProvider = some (i, seen) ∧
    pipeline.providers.providers[i]? = some provider

/-- Once the layers have let a request pass, the provider called is the one resolved. -/
theorem calls_iff_of_resolved {pipeline : Pipeline σ} {request left : UnifiedRequest} {s s' : σ}
    {provider : Provider σ} (hpass : runOnRequest pipeline.layers request s = ⟨.ok (), left, s'⟩)
    (hresolve : pipeline.providers.resolve left = .ok provider) (called : Provider σ) :
    pipeline.Calls request s called ↔ called = provider := by
  obtain ⟨calls, hlogged, hlawful, hexists⟩ := execute_logged pipeline request s []
  have hcalls : pipeline.calls request s = calls := by
    rw [Pipeline.calls, hlogged]
    rfl
  rw [Pipeline.Calls, hcalls]
  rw [hpass] at hlawful hexists
  constructor
  · rintro ⟨call, hcall, i, seen, htarget, hi⟩
    obtain ⟨-, provider', hi', hresolve'⟩ := hlawful.provider call hcall i seen htarget
    rw [hresolve] at hresolve'
    rw [hi, ← Except.ok.inj hresolve'] at hi'
    exact Option.some.inj hi'
  · rintro rfl
    obtain ⟨call, hcall, ⟨i, seen⟩, htarget⟩ := hexists rfl called hresolve
    obtain ⟨-, provider', hi', hresolve'⟩ := hlawful.provider call hcall i seen htarget
    obtain rfl := Except.ok.inj (hresolve.symm.trans hresolve')
    exact ⟨call, hcall, i, seen, htarget, hi'⟩

/-! ### Two requests that leave the prescribed path -/

def streaming : PipelineLayer Unit where
  name := "streaming".toList
  onRequest request s := ⟨.ok (), { request with stream := true }, s⟩

def refusing : PipelineLayer Unit where
  name := "refusing".toList
  onResponse _ response s := ⟨.error (.msg "refused".toList), response, s⟩

def echo : Provider Unit where
  name := "echo".toList
  supportedModels := [['e']]
  complete request s :=
    (.ok ⟨request.lastUserMessage, request.model.modelName, ⟨1, 1, 2⟩, "echo".toList, 0, none⟩, s)
  completeStream request s := (.ok [.ok ⟨request.lastUserMessage, true, none⟩], s)

def hello : UnifiedRequest where
  model := ⟨['e'], none⟩
  messages := [⟨.user, "hello".toList⟩]
  temperature := none
  maxTokens := none
  stream := false

/-- A request that is not streaming when it comes in may be streamed, and the last call of a
complete sequence may fail. -/
theorem layers_leave_prescribed_path :
    (¬ ∀ (pipeline : Pipeline Unit) (request : UnifiedRequest), request.stream = false →
      (pipeline.calls request ()).map Call.stage <+: pipeline.stages false) ∧
    ¬ ∀ (pipeline : Pipeline Unit) (request : UnifiedRequest), request.stream = false →
      ((pipeline.execute request ()).result.isOk = true ↔
        (pipeline.calls request ()).map Call.stage = pipeline.stages false) := by
  constructor
  · intro h
    have hprefix := h ⟨[streaming], ⟨[echo]⟩⟩ hello rfl
    revert hprefix
    decide +kernel
  · intro h
    have hok := (h ⟨[refusing], ⟨[echo]⟩⟩ hello rfl).mpr (by decide +kernel)
    cases hok

end NeuRust
