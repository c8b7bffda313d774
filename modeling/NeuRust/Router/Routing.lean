import NeuRust.Router.LoadBalancer
import NeuRust.Pipeline.Trace

/-!
The way from the load balancer's choice to the provider that is called. The balancer chooses among
the providers of a model but hands on a name, and the pipeline takes the first provider of that
name, whatever its models are.
-/

namespace NeuRust

variable {σ τ : Type*}

/-! ### Lookups in a registry over a part of the state -/

namespace ProviderRegistry

@[simp] theorem getByName_onSnd (registry : ProviderRegistry τ) (name : Str) :
    (registry.onSnd : ProviderRegistry (σ × τ)).getByName name =
      (registry.getByName name).map Provider.onSnd :=
  List.find?_map ..

@[simp] theorem getProvider_onSnd (registry : ProviderRegistry τ) (model : Str) :
    (registry.onSnd : ProviderRegistry (σ × τ)).getProvider model =
      (registry.getProvider model).map Provider.onSnd :=
  List.find?_map ..

theorem getByName_of_nodup {registry : ProviderRegistry σ}
    (h : (registry.providers.map Provider.name).Nodup) {provider : Provider σ}
    (hmem : provider ∈ registry.providers) :
    registry.getByName provider.name = some provider := by
  obtain ⟨found, hfound⟩ := exists_getByName hmem
  have hname := name_of_getByName hfound
  rw [hfound, List.inj_on_of_nodup_map h (List.mem_of_find?_eq_some hfound) hmem hname]

end ProviderRegistry

namespace Router

/-! ### Errors -/

def NotFound (e : Error) : Prop :=
  (∃ id, e = providerNotFound id) ∨ ∃ model, e = noProviderForModel model

/-- A context that starts with another letter is seen to be another error. -/
theorem not_notFound_context {text : Str} {c : Char} (e : Error) (htext : text.head? = some c)
    (hp : c ≠ 'P') (hn : c ≠ 'N') : ¬ NotFound (e.context text) := by
  rintro (⟨id, h⟩ | ⟨model, h⟩)
  · have hfirst : text.head? = some 'P' := congrArg (fun e => e.display.head?) h
    exact hp (Option.some.inj (htext.symm.trans hfirst))
  · have hfirst : text.head? = some 'N' := congrArg (fun e => e.display.head?) h
    exact hn (Option.some.inj (htext.symm.trans hfirst))

/-- Behind the choice of a provider, only a layer can fail as if there were none. -/
theorem not_notFound_of_dispatch {layers : List (PipelineLayer σ)} {provider : Provider σ}
    {request : UnifiedRequest} {s : σ} {e : Error}
    (hlayers : ∀ response s, (runOnResponse request layers.reverse response s).result = .ok ())
    (h : (dispatch layers provider request s).result = .error e) : ¬ NotFound e := by
  rw [dispatch] at h
  split at h
  · rcases hcall : provider.completeStream request s with ⟨answer | chunks, s'⟩
    · rw [hcall] at h
      obtain rfl := Except.error.inj h
      exact not_notFound_context (c := 'S') answer rfl (by decide) (by decide)
    · rw [hcall] at h
      cases h
  · rcases hcall : provider.complete request s with ⟨answer | response, s'⟩
    · rw [hcall] at h
      obtain rfl := Except.error.inj h
      exact not_notFound_context (c := 'R') answer rfl (by decide) (by decide)
    · have hpass := hlayers response s'
      rcases hresponse : runOnResponse request layers.reverse response s' with
        ⟨result, response', s''⟩
      rw [hresponse] at hpass
      obtain rfl : result = .ok () := hpass
      rw [hcall] at h
      simp only [hresponse] at h
      cases h

/-! ### A pipeline behind a balancer -/

def balanced (registry : ProviderRegistry σ) : Pipeline (BitVec 64 × σ) :=
  ⟨[(LoadBalancer.layer registry).onFst], registry.onSnd⟩

/-- No provider is found, or one that supports the model is called. -/
def ExecutedBySupporter (pipeline : Pipeline σ) (request : UnifiedRequest) (s : σ) : Prop :=
  (∃ e, (pipeline.execute request s).result = .error e ∧ NotFound e) ∨
    ∃ provider, pipeline.Calls request s provider ∧ provider.Supports request.model.modelName

section Balanced

variable {registry : ProviderRegistry σ} {request : UnifiedRequest} {counter : BitVec 64} {s : σ}

theorem runOnRequest_balanced :
    runOnRequest (balanced registry).layers request (counter, s) =
      ⟨.ok (), (LoadBalancer.onRequest registry request counter).value,
        ((LoadBalancer.onRequest registry request counter).state, s)⟩ := by
  have hok : (LoadBalancer.onRequest registry request counter).result = .ok () := by
    by_cases h : LoadBalancer.Served registry request
    · obtain ⟨selected, -, hpass⟩ := LoadBalancer.onRequest_of_served counter h
      rw [hpass]
    · rw [LoadBalancer.onRequest_of_not_served counter h]
  apply runOnRequest_passed
  show Pass.mk (LoadBalancer.onRequest registry request counter).result _ _ = _
  rw [hok]
  rfl

/-- Without a provider of the model, none is found. -/
theorem execute_of_no_supporter (hid : request.model.providerId = none)
    (h : registry.supporting request.model.modelName = []) :
    ((balanced registry).execute request (counter, s)).result =
      .error (noProviderForModel request.model.modelName) := by
  have hpass : LoadBalancer.onRequest registry request counter = ⟨.ok (), request, counter⟩ :=
    LoadBalancer.onRequest_of_not_served counter fun hserved => hserved.2 h
  have hresolve : (balanced registry).providers.resolve request =
      .error (noProviderForModel request.model.modelName) := by
    rw [ProviderRegistry.resolve, hid]
    simp only [balanced, ProviderRegistry.getProvider_onSnd,
      ProviderRegistry.getProvider_eq_none_iff.mpr h]
    rfl
  rw [Pipeline.execute_unresolved runOnRequest_balanced (by rw [hpass]; exact hresolve)]

/-- Otherwise the provider called is the first one with the name of the one selected. -/
theorem calls_of_selected {selected found : Provider σ} (hid : request.model.providerId = none)
    (hselected : (registry.supporting request.model.modelName)[counter.toNat %
      (registry.supporting request.model.modelName).length]? = some selected)
    (hfound : registry.getByName selected.name = some found) :
    (∀ called, (balanced registry).Calls request (counter, s) called ↔ called = found.onSnd) ∧
      ∀ e, ((balanced registry).execute request (counter, s)).result = .error e →
        ¬ NotFound e := by
  have hserved : LoadBalancer.Served registry request := by
    refine ⟨hid, fun hnil => ?_⟩
    simp [hnil] at hselected
  obtain ⟨selected', hselected', hpass⟩ :=
    LoadBalancer.onRequest_of_served counter hserved
  obtain rfl := Option.some.inj (hselected.symm.trans hselected')
  have hresolve : (balanced registry).providers.resolve
      (LoadBalancer.onRequest registry request counter).value = .ok found.onSnd := by
    rw [ProviderRegistry.resolve, hpass]
    simp only [balanced, ProviderRegistry.getByName_onSnd, hfound]
    rfl
  refine ⟨fun called => calls_iff_of_resolved runOnRequest_balanced hresolve called,
    fun e he => ?_⟩
  rw [Pipeline.execute_resolved runOnRequest_balanced hresolve] at he
  exact not_notFound_of_dispatch (fun _ _ => rfl) he

end Balanced

/-- A request that is left to the balancer is executed by a provider of its model, or fails because
there is none, exactly when the first provider with the name of the selected one supports the
model too. -/
theorem executedBySupporter_iff (registry : ProviderRegistry σ) (request : UnifiedRequest)
    (hid : request.model.providerId = none) (counter : BitVec 64) (s : σ) :
    ExecutedBySupporter (balanced registry) request (counter, s) ↔
      ∀ selected, (registry.supporting request.model.modelName)[counter.toNat %
          (registry.supporting request.model.modelName).length]? = some selected →
        ∀ found, registry.getByName selected.name = some found →
          found.Supports request.model.modelName := by
  constructor
  · intro h selected hselected found hfound
    obtain ⟨hcalls, herror⟩ := calls_of_selected (s := s) hid hselected hfound
    rcases h with ⟨e, he, hnone⟩ | ⟨called, hcalled, hsupports⟩
    · exact absurd hnone (herror e he)
    · obtain rfl := (hcalls called).mp hcalled
      exact hsupports
  · intro h
    by_cases hmatching : registry.supporting request.model.modelName = []
    · exact .inl ⟨_, execute_of_no_supporter hid hmatching, .inr ⟨_, rfl⟩⟩
    · obtain ⟨selected, hselected, -⟩ :=
        LoadBalancer.onRequest_of_served counter ⟨hid, hmatching⟩
      obtain ⟨hmem, -⟩ := ProviderRegistry.mem_supporting.mp (List.mem_of_getElem? hselected)
      obtain ⟨found, hfound⟩ := ProviderRegistry.exists_getByName hmem
      obtain ⟨hcalls, -⟩ := calls_of_selected (s := s) hid hselected hfound
      exact .inr ⟨found.onSnd, (hcalls _).mpr rfl, h selected hselected found hfound⟩

/-- With distinct names, the balancer's choice is what is called. -/
theorem calls_selected_of_nodup {registry : ProviderRegistry σ} {request : UnifiedRequest}
    {counter : BitVec 64} {s : σ} {selected : Provider σ}
    (hnames : (registry.providers.map Provider.name).Nodup)
    (hid : request.model.providerId = none)
    (hselected : (registry.supporting request.model.modelName)[counter.toNat %
      (registry.supporting request.model.modelName).length]? = some selected)
    (called : Provider (BitVec 64 × σ)) :
    (balanced registry).Calls request (counter, s) called ↔ called = selected.onSnd := by
  obtain ⟨hmem, -⟩ := ProviderRegistry.mem_supporting.mp (List.mem_of_getElem? hselected)
  exact (calls_of_selected hid hselected (ProviderRegistry.getByName_of_nodup hnames hmem)).1 called

/-! ### Two providers of one name -/

open LoadBalancer (silent asking twoAndOne)

theorem executedBySupporter_iff_alone :
    ExecutedBySupporter (balanced twoAndOne) (asking ['b']) (0, ()) ↔
      ∀ selected, (twoAndOne.supporting ['b'])[BitVec.toNat (0 : BitVec 64) %
          (twoAndOne.supporting ['b']).length]? = some selected →
        ∀ found, twoAndOne.getByName selected.name = some found → found.Supports ['b'] :=
  executedBySupporter_iff twoAndOne (asking ['b']) rfl 0 ()

/-- The second of two providers of one name is selected for its model, and the first is called. -/
theorem shared_name_calls_other_provider :
    ¬ ∀ (registry : ProviderRegistry Unit) (request : UnifiedRequest) (counter : BitVec 64),
      request.model.providerId = none →
        ExecutedBySupporter (balanced registry) request (counter, ()) := by
  intro h
  let first := silent ['x'] [['a']]
  let second := silent ['x'] [['b']]
  let registry : ProviderRegistry Unit := ⟨[first, second]⟩
  have hselected : (registry.supporting (asking ['b']).model.modelName)[BitVec.toNat
      (0 : BitVec 64) % (registry.supporting (asking ['b']).model.modelName).length]? =
        some second := rfl
  have hfound : registry.getByName second.name = some first := rfl
  obtain ⟨hcalls, herror⟩ := calls_of_selected (s := ()) rfl hselected hfound
  rcases h registry (asking ['b']) 0 rfl with ⟨e, he, hnone⟩ | ⟨called, hcalled, hsupports⟩
  · exact herror e he hnone
  · obtain rfl := (hcalls called).mp hcalled
    revert hsupports
    decide +kernel

end Router

end NeuRust
