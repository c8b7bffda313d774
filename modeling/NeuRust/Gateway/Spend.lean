import NeuRust.Gateway.Inference
import NeuRust.Provider.Reports
import NeuRust.Observability.BudgetRounding
import NeuRust.Machine.Run

/-!
The event store of the gateway against what the providers report. A completion is recorded with a
cost of zero, a stream is not recorded at all, and nothing computes a cost afterwards, so that the
store adds up to zero whatever has been spent.
-/

namespace NeuRust.Gateway

open Cache Observability

variable {κ ε τ : Type*} [DecidableEq κ]

/-! ### Runs -/

inductive GatewayOp where
  | request (readings : Readings) (req : ChatCompletionRequest)
  | finish (event : CostEvent)

/-- A request is handled, or one of the spawned tasks stores its event. -/
inductive GatewayStep {σ : Type*} (app : AppState κ ε σ) :
    GatewayState κ ε σ → GatewayOp → GatewayState κ ε σ → Prop
  | request (s : GatewayState κ ε σ) (readings : Readings) (req : ChatCompletionRequest) :
      GatewayStep app s (.request readings req) (chatCompletions app readings req s).2
  | finish (s : GatewayState κ ε σ) (before : List CostEvent) (event : CostEvent)
      (after : List CostEvent) (h : s.tasks = before ++ event :: after) :
      GatewayStep app s (.finish event)
        { s with
          tasks := before ++ after
          eventStore := recordCostEvent event s.eventStore }

/-- The gateway, with everything that its providers report written down. -/
def metered (app : AppState κ ε τ) : AppState κ ε (τ × List Report) :=
  ⟨app.providers.map reporting, app.config, app.hasher, app.embedding⟩

def fresh (upstream : τ) (cache : Option (TieredCache κ ε UnifiedResponse)) :
    GatewayState κ ε (τ × List Report) :=
  { upstream := (upstream, []), cache := cache }

def reportCost (report : Report) : ℚ :=
  estimateCost report.model report.usage.promptTokens report.usage.completionTokens

def recordedTotal (events : List CostEvent) : ℚ := (events.map CostEvent.costUsd).sum

def reportedTotal (reports : List Report) : ℚ := (reports.map reportCost).sum

/-! ### What a request adds to the tasks -/

section Tasks

variable {σ : Type*} (app : AppState κ ε σ) (readings : Readings) (provider : Provider σ)
  (request : UnifiedRequest) (req : ChatCompletionRequest) (s : GatewayState κ ε σ)

/-- The store is as it was, and the new tasks carry no cost. -/
def AddsFreeTasks (s s' : GatewayState κ ε σ) : Prop :=
  s'.eventStore = s.eventStore ∧ ∃ spawned, s'.tasks = s.tasks ++ spawned ∧
    ∀ event ∈ spawned, event.costUsd = 0

omit [DecidableEq κ] in
theorem addsFreeTasks_of_eq {s s' : GatewayState κ ε σ} (hstore : s'.eventStore = s.eventStore)
    (htasks : s'.tasks = s.tasks) : AddsFreeTasks s s' :=
  ⟨hstore, [], by rw [htasks, List.append_nil], by simp⟩

theorem handleComplete_tasks :
    AddsFreeTasks s (handleComplete app readings provider request s).2 := by
  rw [handleComplete]
  rcases provider.complete request s.upstream with ⟨e | response, upstream⟩
  · exact addsFreeTasks_of_eq rfl rfl
  · exact ⟨rfl, [completionCostEvent readings response], rfl, by simp [completionCostEvent]⟩

omit [DecidableEq κ] in
theorem handleStream_tasks : AddsFreeTasks s (handleStream readings provider request s).2 := by
  rw [handleStream]
  rcases provider.completeStream request s.upstream with ⟨e | items, upstream⟩
  · exact addsFreeTasks_of_eq rfl rfl
  · exact addsFreeTasks_of_eq rfl rfl

theorem lookupCache_tasks :
    (lookupCache app readings request s).2.eventStore = s.eventStore ∧
      (lookupCache app readings request s).2.tasks = s.tasks := by
  rw [lookupCache]
  split <;> exact ⟨rfl, rfl⟩

theorem answer_tasks : AddsFreeTasks s (answer app readings provider req s).2 := by
  rw [answer]
  split
  · have hstream := handleStream_tasks readings provider (toUnifiedRequest req) s
    rcases hcall : handleStream readings provider (toUnifiedRequest req) s with ⟨e | events, s'⟩
    · rw [hcall] at hstream
      exact hstream
    · rw [hcall] at hstream
      exact hstream
  · obtain ⟨hstore, htasks⟩ := lookupCache_tasks app readings (toUnifiedRequest req) s
    rcases hlookup : lookupCache app readings (toUnifiedRequest req) s with ⟨_ | response, s'⟩
    · rw [hlookup] at hstore htasks
      have hcomplete := handleComplete_tasks app readings provider (toUnifiedRequest req) s'
      rcases hcall : handleComplete app readings provider (toUnifiedRequest req) s' with
        ⟨e | body, s''⟩
      · rw [hcall, AddsFreeTasks, hstore, htasks] at hcomplete
        simp only [hcall]
        exact hcomplete
      · rw [hcall, AddsFreeTasks, hstore, htasks] at hcomplete
        simp only [hcall]
        exact hcomplete
    · rw [hlookup] at hstore htasks
      exact addsFreeTasks_of_eq hstore htasks

theorem chatCompletions_tasks : AddsFreeTasks s (chatCompletions app readings req s).2 := by
  rw [chatCompletions]
  split
  · exact addsFreeTasks_of_eq rfl rfl
  · split
    · exact addsFreeTasks_of_eq rfl rfl
    · exact answer_tasks app readings _ req { s with requestCount := s.requestCount + 1 }

end Tasks

/-! ### Totals -/

def Free {σ : Type*} (s : GatewayState κ ε σ) : Prop :=
  (∀ event ∈ s.tasks, event.costUsd = 0) ∧ ∀ event ∈ s.eventStore, event.costUsd = 0

theorem Free.step {σ : Type*} {app : AppState κ ε σ} {s s' : GatewayState κ ε σ} {op : GatewayOp}
    (hs : Free s) (h : GatewayStep app s op s') : Free s' := by
  obtain ⟨htasks, hstore⟩ := hs
  cases h with
  | request readings req =>
      obtain ⟨hstore', spawned, htasks', hspawned⟩ := chatCompletions_tasks app readings req s
      rw [Free, hstore', htasks']
      refine ⟨fun event hevent => ?_, hstore⟩
      rcases List.mem_append.mp hevent with hevent | hevent
      · exact htasks event hevent
      · exact hspawned event hevent
  | finish before event after h =>
      rw [h] at htasks
      obtain ⟨hevent, hothers⟩ := forall_mem_middle.mp htasks
      refine ⟨hothers, fun other hother => ?_⟩
      rcases List.mem_append.mp hother with hother | hother
      · exact hstore other hother
      · rw [List.mem_singleton.mp hother]
        exact hevent

theorem recordedTotal_eq_zero {events : List CostEvent} (h : ∀ event ∈ events, event.costUsd = 0) :
    recordedTotal events = 0 := by
  apply List.sum_eq_zero
  simpa using h

theorem reportCost_nonneg (report : Report) : 0 ≤ reportCost report := Prices.cost_nonneg _ _ _

theorem reportedTotal_nonneg (reports : List Report) : 0 ≤ reportedTotal reports := by
  apply List.sum_nonneg
  simpa using fun report _ => reportCost_nonneg report

/-- Reports add up to nothing only if none of them has a token. -/
theorem reportedTotal_eq_zero_iff (reports : List Report) :
    reportedTotal reports = 0 ↔ ∀ report ∈ reports,
      report.usage.promptTokens = 0 ∧ report.usage.completionTokens = 0 := by
  induction reports with
  | nil => simp [reportedTotal]
  | cons report reports ih =>
      have hcons : reportedTotal (report :: reports) = reportCost report + reportedTotal reports :=
        rfl
      rw [hcons, add_eq_zero_iff_of_nonneg (reportCost_nonneg report)
        (reportedTotal_nonneg reports), ih, List.forall_mem_cons, reportCost, estimateCost,
        Prices.cost_eq_zero_iff]

/-- After any run of requests, the recorded events cost what the providers have reported exactly
when they have reported no tokens. -/
theorem recordedTotal_eq_reportedTotal_iff (app : AppState κ ε τ) (upstream : τ)
    (cache : Option (TieredCache κ ε UnifiedResponse))
    {steps : List (Transition (GatewayState κ ε (τ × List Report)) GatewayOp)}
    {s : GatewayState κ ε (τ × List Report)}
    (run : Run (GatewayStep (metered app)) (fresh upstream cache) steps s) :
    recordedTotal s.eventStore = reportedTotal s.upstream.2 ↔ ∀ report ∈ s.upstream.2,
      report.usage.promptTokens = 0 ∧ report.usage.completionTokens = 0 := by
  have hfree : Free s := by
    apply run.invariant_of_forall (I := Free) (P := fun _ => True)
    · exact ⟨by simp [fresh], by simp [fresh]⟩
    · exact fun hs h _ => hs.step h
    · exact fun _ _ => trivial
  rw [recordedTotal_eq_zero hfree.2, eq_comm, reportedTotal_eq_zero_iff]

/-! ### A completion of nine cents -/

/-- A gateway without a cache, over one provider that answers every request alike. -/
def oneProvider (response : UnifiedResponse) : AppState Unit Unit Unit where
  providers := [{
    name := "openai".toList
    supportedModels := ["gpt-4".toList]
    complete := fun _ t => (.ok response, t)
    completeStream := fun _ t => (.ok [.ok ⟨response.content, true, some response.usage⟩], t) }]
  config := []
  hasher := fun _ => ()
  embedding := ⟨fun _ => none, fun _ _ => 0⟩

def ask : ChatCompletionRequest where
  model := "gpt-4".toList
  messages := [⟨"user".toList, "?".toList⟩]
  temperature := none
  maxTokens := none
  stream := none

def atStart : Readings := ⟨0, 0, 0, 0, 0, 0, [], 0⟩

def afterRequest : GatewayState Unit Unit (Unit × List Report) where
  upstream := ((), [responseReport dearResponse])
  cache := none
  bus := [⟨0, .requestCompleted dearResponse.providerId dearResponse.model
    dearResponse.latencyMs dearResponse.usage false⟩]
  tasks := [completionCostEvent atStart dearResponse]
  requestCount := 1

def afterTask : GatewayState Unit Unit (Unit × List Report) :=
  { afterRequest with
    tasks := []
    eventStore := recordCostEvent (completionCostEvent atStart dearResponse) [] }

theorem chatCompletions_ask :
    (chatCompletions (metered (oneProvider dearResponse)) atStart ask (fresh () none)).2 =
      afterRequest := by
  have hvalid : validationError ask = none := by decide +kernel
  rw [chatCompletions, hvalid, AppState.findProvider_of_unique rfl]
  rfl

theorem run_ask : Run (GatewayStep (metered (oneProvider dearResponse))) (fresh () none)
    [⟨afterRequest, .finish (completionCostEvent atStart dearResponse), afterTask⟩,
      ⟨fresh () none, .request atStart ask, afterRequest⟩] afterTask := by
  have hrequest : GatewayStep (metered (oneProvider dearResponse)) (fresh () none)
      (.request atStart ask) _ := .request _ atStart ask
  rw [chatCompletions_ask] at hrequest
  exact .snoc (.snoc .nil hrequest) (.finish afterRequest [] _ [] rfl)

theorem recordedTotal_eq_reportedTotal_iff_ask :
    recordedTotal afterTask.eventStore = reportedTotal afterTask.upstream.2 ↔
      ∀ report ∈ afterTask.upstream.2,
        report.usage.promptTokens = 0 ∧ report.usage.completionTokens = 0 :=
  recordedTotal_eq_reportedTotal_iff (oneProvider dearResponse) () none run_ask

/-- The completion is recorded once its task has run, at no cost. -/
theorem completion_recorded_without_cost :
    ¬ ∀ (app : AppState Unit Unit Unit)
      (steps : List (Transition (GatewayState Unit Unit (Unit × List Report)) GatewayOp))
      (s : GatewayState Unit Unit (Unit × List Report)),
      Run (GatewayStep (metered app)) (fresh () none) steps s → s.tasks = [] →
        recordedTotal s.eventStore = reportedTotal s.upstream.2 := by
  intro h
  have htotal := h (oneProvider dearResponse) _ _ run_ask rfl
  have hrecorded : (0 : ℚ) + 0 = responseCost dearResponse + 0 := htotal
  rw [responseCost_dear] at hrecorded
  norm_num at hrecorded

end NeuRust.Gateway
