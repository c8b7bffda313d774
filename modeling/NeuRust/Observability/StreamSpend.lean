import NeuRust.Pipeline.Execute
import NeuRust.Provider.Reports
import NeuRust.Observability.BudgetRounding
import NeuRust.Machine.Run

/-!
The budget manager inside a pipeline, against what the providers report. A response passes the
manager on its way back and is charged there; a stream is handed on without passing any layer, so
that nothing of what it costs is charged.
-/

namespace NeuRust.Observability

variable {τ : Type*}

/-- What the budget manager has to count for a report. -/
def reportMicro (report : Report) : ℕ :=
  (toMicro (estimateResponseCost report.model report.usage.promptTokens
    report.usage.completionTokens)).toNat

def totalMicro (reports : List Report) : ℕ := (reports.map reportMicro).sum

/-! ### The pipeline -/

/-- The manager, the state of the other layers and the providers, and what has been reported. -/
abbrev MeteredState (τ : Type*) : Type _ := BudgetManager × τ × List Report

/-- A layer that does not see the manager. -/
def beside (layer : PipelineLayer τ) : PipelineLayer (MeteredState τ) := layer.onFst.onSnd

def budgeted (before behind : List (PipelineLayer τ)) (registry : ProviderRegistry τ) :
    Pipeline (MeteredState τ) :=
  ⟨before.map beside ++ BudgetManager.layer.onFst :: behind.map beside,
    ⟨registry.providers.map fun p => (reporting p).onSnd⟩⟩

/-- What the manager is charged with for a response: the cost that the layers behind it leave, and
nothing if one of them fails. -/
def charge (behind : List (PipelineLayer τ)) (request : UnifiedRequest)
    (response : UnifiedResponse) (s : MeteredState τ) : ℕ :=
  match runOnResponse request (behind.map beside).reverse response s with
  | ⟨.ok (), response', _⟩ => reportMicro (responseReport response')
  | ⟨.error _, _, _⟩ => 0

def Balanced (s : MeteredState τ) : Prop := s.1.currentSpendMicro.toNat = totalMicro s.2.2

/-- The stream costs less than one micro-USD, or the response comes to the manager with the cost
that the provider reports. -/
structure CountedBy (behind : List (PipelineLayer τ)) (provider : Provider (MeteredState τ))
    (request : UnifiedRequest) (s : MeteredState τ) : Prop where
  stream : request.stream = true → ∀ chunks s',
    provider.completeStream request s = (.ok chunks, s') →
      totalMicro (streamReport request.model.modelName chunks) = 0
  complete : request.stream = false → ∀ response s',
    provider.complete request s = (.ok response, s') →
      charge behind request response s' = reportMicro (responseReport response)

/-- If a provider is called for the request, all that it reports is counted. -/
def Counted (before behind : List (PipelineLayer τ)) (registry : ProviderRegistry τ)
    (request : UnifiedRequest) (s : MeteredState τ) : Prop :=
  ∀ left s' provider,
    runOnRequest (budgeted before behind registry).layers request s = ⟨.ok (), left, s'⟩ →
    (budgeted before behind registry).providers.resolve left = .ok provider →
      CountedBy behind provider left s'

/-! ### Totals -/

@[simp] theorem totalMicro_nil : totalMicro [] = 0 := rfl

@[simp] theorem totalMicro_append (reports more : List Report) :
    totalMicro (reports ++ more) = totalMicro reports + totalMicro more := by
  simp [totalMicro]

@[simp] theorem totalMicro_singleton (report : Report) :
    totalMicro [report] = reportMicro report := by
  simp [totalMicro]

theorem reportMicro_lt (report : Report) : reportMicro report < 2 ^ 64 := BitVec.isLt _

theorem charge_lt (behind : List (PipelineLayer τ)) (request : UnifiedRequest)
    (response : UnifiedResponse) (s : MeteredState τ) :
    charge behind request response s < 2 ^ 64 := by
  rw [charge]
  split
  · exact reportMicro_lt _
  · norm_num

/-! ### One request -/

/-- What stays as it is when a layer other than the manager is called. -/
def ledger (s : MeteredState τ) : BudgetManager × List Report := (s.1, s.2.2)

theorem ledger_runOnRequest (before behind : List (PipelineLayer τ))
    (registry : ProviderRegistry τ) (request : UnifiedRequest) (s : MeteredState τ) :
    ledger (runOnRequest (budgeted before behind registry).layers request s).state = ledger s := by
  apply runOnRequest_keeps
  intro layer hlayer request s
  rcases List.mem_append.mp hlayer with hbefore | hlayer
  · obtain ⟨layer, -, rfl⟩ := List.mem_map.mp hbefore
    rfl
  rcases List.mem_cons.mp hlayer with rfl | hbehind
  · rfl
  · obtain ⟨layer, -, rfl⟩ := List.mem_map.mp hbehind
    rfl

theorem ledger_runOnResponse (layers : List (PipelineLayer τ)) (request : UnifiedRequest)
    (response : UnifiedResponse) (s : MeteredState τ) :
    ledger (runOnResponse request (layers.map beside).reverse response s).state = ledger s := by
  apply runOnResponse_keeps
  intro layer hlayer response s
  obtain ⟨layer, -, rfl⟩ := List.mem_map.mp (List.mem_reverse.mp hlayer)
  rfl

/-- On its way back, a response is charged once. -/
theorem counter_runOnResponse (before behind : List (PipelineLayer τ))
    (registry : ProviderRegistry τ) (request : UnifiedRequest) (response : UnifiedResponse)
    (s : MeteredState τ) :
    (runOnResponse request (budgeted before behind registry).layers.reverse response
        s).state.1.currentSpendMicro.toNat =
      (s.1.currentSpendMicro.toNat + charge behind request response s) % 2 ^ 64 ∧
    (runOnResponse request (budgeted before behind registry).layers.reverse response
        s).state.2.2 = s.2.2 := by
  have hlayers : (budgeted before behind registry).layers.reverse =
      (behind.map beside).reverse ++ BudgetManager.layer.onFst :: (before.map beside).reverse := by
    simp [budgeted]
  have hkeep := ledger_runOnResponse behind request response s
  rw [hlayers, charge, runOnResponse_append]
  rcases hbehind : runOnResponse request (behind.map beside).reverse response s with
    ⟨e | _, response', s'⟩
  · rw [hbehind] at hkeep
    obtain ⟨hmanager, hreports⟩ := Prod.mk.inj hkeep
    have := s.1.currentSpendMicro.isLt
    exact ⟨by rw [hmanager, Nat.add_zero, Nat.mod_eq_of_lt this], hreports⟩
  · rw [hbehind] at hkeep
    obtain ⟨hmanager, hreports⟩ := Prod.mk.inj hkeep
    have hcharged : (BudgetManager.layer.onFst : PipelineLayer (MeteredState τ)).onResponse request
        response' s' = ⟨.ok (), response', (s'.1.recordCost (responseCost response'), s'.2)⟩ := rfl
    simp only [runOnResponse_passed hcharged]
    obtain ⟨hmanager', hreports'⟩ := Prod.mk.inj (ledger_runOnResponse before request response'
      (s'.1.recordCost (responseCost response'), s'.2))
    refine ⟨?_, hreports'.trans hreports⟩
    rw [hmanager', BudgetManager.toNat_recordCost, show s'.1 = s.1 from hmanager]
    rfl

structure Turn (s s' : MeteredState τ) (reports : List Report) (charged : ℕ) : Prop where
  reports_eq : s'.2.2 = s.2.2 ++ reports
  counter_eq : s'.1.currentSpendMicro.toNat = (s.1.currentSpendMicro.toNat + charged) % 2 ^ 64
  charged_lt : charged < 2 ^ 64

theorem Turn.of_ledger {s s' : MeteredState τ} (h : ledger s' = ledger s) : Turn s s' [] 0 := by
  obtain ⟨hmanager, hreports⟩ := Prod.mk.inj h
  have := s.1.currentSpendMicro.isLt
  exact ⟨by rw [hreports, List.append_nil],
    by rw [hmanager, Nat.add_zero, Nat.mod_eq_of_lt this], by norm_num⟩

theorem Turn.after_ledger {s s' s'' : MeteredState τ} {reports : List Report} {charged : ℕ}
    (h : Turn s' s'' reports charged) (hkeep : ledger s' = ledger s) :
    Turn s s'' reports charged := by
  obtain ⟨hmanager, hreports⟩ := Prod.mk.inj hkeep
  exact ⟨by rw [h.reports_eq, hreports], by rw [h.counter_eq, hmanager], h.charged_lt⟩

section Step

variable (before behind : List (PipelineLayer τ)) (registry : ProviderRegistry τ) (p : Provider τ)
  (request : UnifiedRequest) (s : MeteredState τ)

/-- A stream is reported, and not charged. -/
theorem turn_of_stream (hstream : request.stream = true) :
    ∃ reports, Turn s (dispatch (budgeted before behind registry).layers (reporting p).onSnd
        request s).state reports 0 ∧
      (CountedBy behind (reporting p).onSnd request s ↔ 0 = totalMicro reports) := by
  have hcounted : CountedBy behind (reporting p).onSnd request s ↔ ∀ chunks s',
      (reporting p).onSnd.completeStream request s = (.ok chunks, s') →
        totalMicro (streamReport request.model.modelName chunks) = 0 :=
    ⟨fun h => h.stream hstream, fun h => ⟨fun _ => h, by simp [hstream]⟩⟩
  obtain ⟨manager, t, reports⟩ := s
  rw [dispatch, if_pos hstream, hcounted]
  rcases hcall : p.completeStream request t with ⟨e | chunks, t'⟩
  · have hlifted : (reporting p).onSnd.completeStream request (manager, t, reports) =
        (.error e, (manager, t', reports)) := by
      simp only [Provider.onSnd, reporting, hcall]
    rw [hlifted]
    exact ⟨[], .of_ledger rfl, by simp⟩
  · have hlifted : (reporting p).onSnd.completeStream request (manager, t, reports) =
        (.ok chunks, (manager, t', reports ++ streamReport request.model.modelName chunks)) := by
      simp only [Provider.onSnd, reporting, hcall]
    rw [hlifted]
    refine ⟨streamReport request.model.modelName chunks, ⟨rfl, ?_, by norm_num⟩, ?_⟩
    · have := manager.currentSpendMicro.isLt
      rw [Nat.add_zero, Nat.mod_eq_of_lt this]
    · simp [eq_comm]

/-- A response is reported, and charged when it comes to the manager. -/
theorem turn_of_complete (hstream : request.stream = false) :
    ∃ reports charged, Turn s (dispatch (budgeted before behind registry).layers
        (reporting p).onSnd request s).state reports charged ∧
      (CountedBy behind (reporting p).onSnd request s ↔ charged = totalMicro reports) := by
  have hcounted : CountedBy behind (reporting p).onSnd request s ↔ ∀ response s',
      (reporting p).onSnd.complete request s = (.ok response, s') →
        charge behind request response s' = reportMicro (responseReport response) :=
    ⟨fun h => h.complete hstream, fun h => ⟨by simp [hstream], fun _ => h⟩⟩
  obtain ⟨manager, t, reports⟩ := s
  rw [dispatch, if_neg (by simp [hstream]), hcounted]
  rcases hcall : p.complete request t with ⟨e | response, t'⟩
  · have hlifted : (reporting p).onSnd.complete request (manager, t, reports) =
        (.error e, (manager, t', reports)) := by
      simp only [Provider.onSnd, reporting, hcall]
    rw [hlifted]
    exact ⟨[], 0, .of_ledger rfl, by simp⟩
  · let s' : MeteredState τ := (manager, t', reports ++ [responseReport response])
    have hlifted : (reporting p).onSnd.complete request (manager, t, reports) =
        (.ok response, s') := by
      simp only [Provider.onSnd, reporting, hcall]
      rfl
    obtain ⟨hcounter, hreports⟩ :=
      counter_runOnResponse before behind registry request response s'
    rw [hlifted]
    refine ⟨[responseReport response], charge behind request response s', ?_, by simp⟩
    -- the layers before the manager may still fail, but the response has been charged by then
    rcases hpass : runOnResponse request (budgeted before behind registry).layers.reverse response
      s' with ⟨e | _, response', s''⟩
    · rw [hpass] at hcounter hreports
      simp only [hpass]
      exact ⟨hreports, hcounter, charge_lt _ _ _ _⟩
    · rw [hpass] at hcounter hreports
      simp only [hpass]
      exact ⟨hreports, hcounter, charge_lt _ _ _ _⟩

/-- Whether a request is counted is seen from what it reports and what it is charged with. -/
theorem exists_turn :
    ∃ reports charged,
      Turn s ((budgeted before behind registry).execute request s).state reports charged ∧
      (Counted before behind registry request s ↔ charged = totalMicro reports) := by
  have hkeep := ledger_runOnRequest before behind registry request s
  rcases hpass : runOnRequest (budgeted before behind registry).layers request s with
    ⟨e | _, left, s'⟩
  · rw [hpass] at hkeep
    rw [Pipeline.execute_failed hpass]
    refine ⟨[], 0, .of_ledger hkeep, fun _ => rfl, fun _ left' u provider hpass' => ?_⟩
    cases (Pass.mk.inj (hpass.symm.trans hpass')).1
  · rw [hpass] at hkeep
    cases hresolve : (budgeted before behind registry).providers.resolve left with
    | error e =>
        rw [Pipeline.execute_unresolved hpass hresolve]
        refine ⟨[], 0, .of_ledger hkeep, fun _ => rfl, fun _ left' u provider hpass' h => ?_⟩
        obtain ⟨-, rfl, -⟩ := Pass.mk.inj (hpass.symm.trans hpass')
        cases hresolve.symm.trans h
    | ok provider =>
        have hcounted : Counted before behind registry request s ↔
            CountedBy behind provider left s' := by
          constructor
          · intro h
            exact h left s' provider hpass hresolve
          · intro h left' u provider' hpass' hresolve'
            obtain ⟨-, rfl, rfl⟩ := Pass.mk.inj (hpass.symm.trans hpass')
            obtain rfl := Except.ok.inj (hresolve.symm.trans hresolve')
            exact h
        obtain ⟨p, -, rfl⟩ := List.mem_map.mp (ProviderRegistry.mem_of_resolve hresolve)
        rw [Pipeline.execute_resolved hpass hresolve, hcounted]
        cases hstream : left.stream with
        | true =>
            obtain ⟨reports, hturn, hiff⟩ :=
              turn_of_stream before behind registry p left s' hstream
            exact ⟨reports, 0, hturn.after_ledger hkeep, hiff⟩
        | false =>
            obtain ⟨reports, charged, hturn, hiff⟩ :=
              turn_of_complete before behind registry p left s' hstream
            exact ⟨reports, charged, hturn.after_ledger hkeep, hiff⟩

end Step

/-! ### Runs -/

def MeteredStep (pipeline : Pipeline (MeteredState τ)) (s : MeteredState τ)
    (request : UnifiedRequest) (s' : MeteredState τ) : Prop :=
  s' = (pipeline.execute request s).state

/-- The counter agrees with the reports in every state of a run exactly when every request is
counted and the total stays below `2 ^ 64` micro-USD. -/
theorem balanced_run_iff (before behind : List (PipelineLayer τ)) (registry : ProviderRegistry τ)
    (config : BudgetManagerConfig) (t : τ)
    {steps : List (Transition (MeteredState τ) UnifiedRequest)} {s : MeteredState τ}
    (run : Run (MeteredStep (budgeted before behind registry)) (.new config, t, []) steps s) :
    ((∀ step ∈ steps, Balanced step.pre) ∧ Balanced s) ↔
      (∀ step ∈ steps, Counted before behind registry step.label step.pre) ∧
        totalMicro s.2.2 < 2 ^ 64 := by
  induction run with
  | nil => simp [Balanced]
  | @snoc steps s request s' run h ih =>
      obtain ⟨reports, charged, hturn, hcounted⟩ := exists_turn before behind registry request s
      rw [show (_ : MeteredState τ) = s' from h.symm] at hturn
      have hreports : totalMicro s'.2.2 = totalMicro s.2.2 + totalMicro reports := by
        rw [hturn.reports_eq, totalMicro_append]
      have hcounter := hturn.counter_eq
      have hcharged := hturn.charged_lt
      have hlt := s.1.currentSpendMicro.isLt
      rw [List.forall_mem_cons, List.forall_mem_cons, hcounted, hreports]
      constructor
      · rintro ⟨⟨hs, hsteps⟩, hs'⟩
        obtain ⟨hgood, htotal⟩ := ih.mp ⟨hsteps, hs⟩
        have hbefore : s.1.currentSpendMicro.toNat = totalMicro s.2.2 := hs
        rw [Balanced] at hs'
        -- a wrap would take the counter below what it was, and the total does not go down
        have hboth : charged = totalMicro reports ∧
            totalMicro s.2.2 + totalMicro reports < 2 ^ 64 := by
          omega
        exact ⟨⟨hboth.1, hgood⟩, hboth.2⟩
      · rintro ⟨⟨hrequest, hgood⟩, htotal⟩
        obtain ⟨hsteps, hs⟩ := ih.mpr ⟨hgood, by omega⟩
        refine ⟨⟨hs, hsteps⟩, ?_⟩
        rw [Balanced] at hs ⊢
        omega

/-! ### What is counted -/

/-- The layer neither fails on a response nor touches what it costs. -/
def Transparent (layer : PipelineLayer τ) : Prop :=
  ∀ request response t, (layer.onResponse request response t).result = .ok () ∧
    responseReport (layer.onResponse request response t).value = responseReport response

theorem runOnResponse_transparent {layers : List (PipelineLayer τ)}
    (h : ∀ layer ∈ layers, Transparent layer) (request : UnifiedRequest)
    (response : UnifiedResponse) (s : MeteredState τ) :
    ∃ response' s', runOnResponse request (layers.map beside) response s =
        ⟨.ok (), response', s'⟩ ∧ responseReport response' = responseReport response := by
  induction layers generalizing response s with
  | nil => exact ⟨response, s, rfl, rfl⟩
  | cons layer layers ih =>
      obtain ⟨hlayer, hlayers⟩ := List.forall_mem_cons.mp h
      obtain ⟨hok, hreport⟩ := hlayer request response s.2.1
      have hcall : (beside layer).onResponse request response s =
          ⟨.ok (), (layer.onResponse request response s.2.1).value,
            (s.1, (layer.onResponse request response s.2.1).state, s.2.2)⟩ := by
        rw [← hok]
        rfl
      rw [List.map_cons, runOnResponse_passed hcall]
      obtain ⟨response', s', hrun, hreport'⟩ := ih hlayers _ _
      exact ⟨response', s', hrun, hreport'.trans hreport⟩

/-- Behind layers that are transparent, every response is counted. -/
theorem charge_of_transparent {behind : List (PipelineLayer τ)}
    (h : ∀ layer ∈ behind, Transparent layer) (request : UnifiedRequest)
    (response : UnifiedResponse) (s : MeteredState τ) :
    charge behind request response s = reportMicro (responseReport response) := by
  have hreverse : ∀ layer ∈ behind.reverse, Transparent layer :=
    fun layer hlayer => h layer (List.mem_reverse.mp hlayer)
  obtain ⟨response', s', hrun, hreport⟩ :=
    runOnResponse_transparent hreverse request response s
  rw [charge, ← List.map_reverse, hrun, ← hreport]

/-- Whatever a stream costs, the counter stays as it is. -/
theorem counter_of_stream (before behind : List (PipelineLayer τ)) (registry : ProviderRegistry τ)
    {request left : UnifiedRequest} {s s' : MeteredState τ}
    (hpass : runOnRequest (budgeted before behind registry).layers request s =
      ⟨.ok (), left, s'⟩) (hstream : left.stream = true) :
    ((budgeted before behind registry).execute request s).state.1.currentSpendMicro.toNat =
      s.1.currentSpendMicro.toNat := by
  have hkeep := ledger_runOnRequest before behind registry request s
  rw [hpass] at hkeep
  obtain ⟨hmanager, -⟩ := Prod.mk.inj hkeep
  cases hresolve : (budgeted before behind registry).providers.resolve left with
  | error e =>
      rw [Pipeline.execute_unresolved hpass hresolve, hmanager]
  | ok provider =>
      obtain ⟨p, -, rfl⟩ := List.mem_map.mp (ProviderRegistry.mem_of_resolve hresolve)
      obtain ⟨reports, hturn, -⟩ := turn_of_stream before behind registry p left s' hstream
      rw [Pipeline.execute_resolved hpass hresolve, hturn.counter_eq, hmanager, Nat.add_zero,
        Nat.mod_eq_of_lt s.1.currentSpendMicro.isLt]

/-! ### A stream of nine cents -/

/-- The provider succeeds and reports usage, whatever it is asked. -/
def Dependable (provider : Provider τ) : Prop :=
  ∀ request t, (provider.complete request t).1.isOk = true ∧
    ∃ chunks usage, (provider.completeStream request t).1 = .ok chunks ∧
      streamUsage chunks = some usage

def dear : Provider Unit where
  name := "openai".toList
  supportedModels := ["gpt-4".toList]
  complete := fun _ t => (.ok dearResponse, t)
  completeStream := fun _ t => (.ok [.ok ⟨"!".toList, true, some dearResponse.usage⟩], t)

def dearRequest (stream : Bool) : UnifiedRequest :=
  { question with model := ⟨"gpt-4".toList, none⟩, stream := stream }

theorem balanced_run_iff_dear :
    ((∀ step ∈ [Transition.mk ((.new {}, (), []) : MeteredState Unit) (dearRequest false)
        ((budgeted [] [] ⟨[dear]⟩).execute (dearRequest false) (.new {}, (), [])).state],
      Balanced step.pre) ∧
      Balanced ((budgeted [] [] ⟨[dear]⟩).execute (dearRequest false) (.new {}, (), [])).state) ↔
    (∀ step ∈ [Transition.mk ((.new {}, (), []) : MeteredState Unit) (dearRequest false)
        ((budgeted [] [] ⟨[dear]⟩).execute (dearRequest false) (.new {}, (), [])).state],
      Counted [] [] ⟨[dear]⟩ step.label step.pre) ∧
      totalMicro ((budgeted [] [] ⟨[dear]⟩).execute (dearRequest false)
        (.new {}, (), [])).state.2.2 < 2 ^ 64 :=
  balanced_run_iff [] [] ⟨[dear]⟩ {} () (.snoc .nil rfl)

/-- A stream of nine cents is not charged. -/
theorem stream_escapes_counter :
    ¬ ∀ (before behind : List (PipelineLayer Unit)) (registry : ProviderRegistry Unit)
      (config : BudgetManagerConfig) (steps : List (Transition (MeteredState Unit) UnifiedRequest))
      (s : MeteredState Unit), (∀ p ∈ registry.providers, Dependable p) →
      Run (MeteredStep (budgeted before behind registry)) (.new config, (), []) steps s →
        Balanced s := by
  intro h
  have hdear : ∀ p ∈ [dear], Dependable p := by
    intro p hp request t
    obtain rfl := List.mem_singleton.mp hp
    exact ⟨rfl, _, dearResponse.usage, rfl, rfl⟩
  have hstep : MeteredStep (budgeted [] [] ⟨[dear]⟩) (.new {}, (), []) (dearRequest true) _ := rfl
  have hbalanced := h [] [] ⟨[dear]⟩ {} _ _ hdear (.snoc .nil hstep)
  have hmicro : (toMicro (responseCost dearResponse)).toNat = 90000 := by
    rw [responseCost_dear]
    exact toNat_toMicro_of_eq (by norm_num) (by norm_num)
  have hzero : 0 = (toMicro (responseCost dearResponse)).toNat + 0 := hbalanced
  omega

end NeuRust.Observability
