import NeuRust.Gateway.CachedAnswers
import NeuRust.Gateway.Handlers

/-!
What the ledger, the provenance of completions and the work that the cache saves come to when the
handlers take turns. The first two do not depend on the order. The third does: a request is sent
upstream although another one with its key is waiting, but not once that one has been answered.
-/

namespace NeuRust.Gateway

open Cache Observability

variable {κ ε τ : Type*} [DecidableEq κ]

def KeepsLog (s s' : τ × List Answered) : Prop := s'.2 = s.2

abbrev LoggedServer (κ ε τ : Type*) := Server κ ε (τ × List Answered)

abbrev LoggedStep (app : AppState κ ε τ) :=
  HandlerStep (logged app) (KeepsLog : τ × List Answered → τ × List Answered → Prop)

section

variable {app : AppState κ ε τ} {readings : Readings} {req : ChatCompletionRequest}
  {g g' : GatewayState κ ε (τ × List Answered)}

/-! ### What one handler adds -/

theorem Arrival.log {progress : Progress (Provider (τ × List Answered)) (GatewayState κ ε _)}
    (h : Arrival (logged app) readings req g progress) :
    progress.state.upstream = g.upstream ∧ progress.state.tasks = g.tasks ∧
      progress.state.eventStore = g.eventStore := by
  cases h <;> exact ⟨rfl, rfl, rfl⟩

/-- A handler that goes on adds nothing to the log and spawns no task, or adds the completion that
it replies with and spawns the task for it. -/
theorem Resumption.log {p : Provider τ}
    {progress : Progress (List (Except Error StreamChunk)) (GatewayState κ ε (τ × List Answered))}
    (h : Resumption (logged app) readings (logging p) req g progress) :
    progress.state.eventStore = g.eventStore ∧
      ((progress.state.upstream.2 = g.upstream.2 ∧ progress.state.tasks = g.tasks) ∨
        ∃ response, progress.reply = some (.completion (completionResponse readings response)) ∧
          progress.state.upstream.2 = g.upstream.2 ++ [⟨toUnifiedRequest req, response⟩] ∧
          progress.state.tasks = g.tasks ++ [completionCostEvent readings response]) := by
  cases h with
  | streamFailed e upstream hstream hcall => exact ⟨rfl, .inl ⟨logging_stream hcall, rfl⟩⟩
  | streams items upstream hstream hcall => exact ⟨rfl, .inl ⟨logging_stream hcall, rfl⟩⟩
  | failed e upstream hstream hcall =>
      exact ⟨rfl, .inl ⟨(logging_complete_error hcall).2, rfl⟩⟩
  | completed response upstream hstream hcall =>
      exact ⟨rfl, .inr ⟨response, rfl, (logging_complete_ok hcall).2, rfl⟩⟩

/-- Hits are published for the completions that come from no provider. -/
theorem Arrival.hits {progress : Progress (Provider (τ × List Answered)) (GatewayState κ ε _)}
    (h : Arrival (logged app) readings req g progress) :
    progress.state.bus.countP GatewayEvent.isCacheHit =
      g.bus.countP GatewayEvent.isCacheHit + progress.reply.toList.countP Reply.isCompletion := by
  cases h with
  | invalid | unknown | opens | misses => rfl
  | hit => exact List.countP_append

theorem Resumption.hits {p : Provider τ}
    {progress : Progress (List (Except Error StreamChunk)) (GatewayState κ ε (τ × List Answered))}
    (h : Resumption (logged app) readings (logging p) req g progress) :
    progress.state.upstream.2.length + progress.state.bus.countP GatewayEvent.isCacheHit =
      g.upstream.2.length + g.bus.countP GatewayEvent.isCacheHit +
        progress.reply.toList.countP Reply.isCompletion := by
  cases h with
  | streamFailed e upstream hstream hcall =>
      show upstream.2.length + _ = _
      rw [logging_stream hcall]
      rfl
  | streams items upstream hstream hcall =>
      show upstream.2.length + _ = _
      rw [logging_stream hcall]
      rfl
  | failed e upstream hstream hcall =>
      show upstream.2.length + _ = _
      rw [(logging_complete_error hcall).2]
      rfl
  | completed response upstream hstream hcall =>
      show upstream.2.length + (g.bus ++ [completedEvent readings response]).countP _ = _
      rw [(logging_complete_ok hcall).2, List.length_append, List.countP_append]
      exact Nat.add_right_comm _ _ _

end

/-! ### The ledger -/

/-- The ledger is in order: the events that are stored or wait to be are the charges of the
completions, and the completions that were replied are those and the published hits. -/
structure InOrder (steps : List (Transition (LoggedServer κ ε τ) (HandlerOp (τ × List Answered))))
    (s : LoggedServer κ ε τ) : Prop where
  charged : Charged s.gateway
  balanced : s.gateway.upstream.2.length + s.gateway.bus.countP GatewayEvent.isCacheHit =
    (repliesOf steps).countP Reply.isCompletion

section

variable {app : AppState κ ε τ} {s s' : LoggedServer κ ε τ}
  {op : HandlerOp (τ × List Answered)}

/-- A step either adds nothing to the ledger, or a completion with its task, or moves a task to the
store. -/
inductive LedgerMove (g g' : GatewayState κ ε (τ × List Answered)) : Prop
  | same (hlog : g'.upstream.2 = g.upstream.2) (htasks : g'.tasks = g.tasks)
      (hstore : g'.eventStore = g.eventStore)
  | given (readings : Readings) (a : Answered) (hlog : g'.upstream.2 = g.upstream.2 ++ [a])
      (htasks : g'.tasks = g.tasks ++ [completionCostEvent readings a.response])
      (hstore : g'.eventStore = g.eventStore)
  | stored (before : List CostEvent) (event : CostEvent) (after : List CostEvent)
      (hlog : g'.upstream.2 = g.upstream.2) (hbefore : g.tasks = before ++ event :: after)
      (htasks : g'.tasks = before ++ after) (hstore : g'.eventStore = g.eventStore ++ [event])

theorem Move.ledger {g g' : GatewayState κ ε (τ × List Answered)}
    (h : Move (logged app) KeepsLog g op g') : LedgerMove g g' := by
  cases h with
  | arrive readings req progress h =>
      obtain ⟨hupstream, htasks, hstore⟩ := h.log
      exact .same (by rw [hupstream]) htasks hstore
  | resume readings req provider hrouted progress h =>
      obtain ⟨p, -, -, rfl⟩ := exists_logging hrouted.provider
      obtain ⟨hstore, ⟨hlog, htasks⟩ | ⟨response, -, hlog, htasks⟩⟩ := h.log
      · exact .same hlog htasks hstore
      · exact .given readings ⟨toUnifiedRequest req, response⟩ hlog htasks hstore
  | read | drop => exact .same rfl rfl rfl
  | drift upstream h => exact .same h rfl rfl
  | finish before event after htasks => exact .stored before event after rfl htasks rfl rfl

omit [DecidableEq κ] in
theorem LedgerMove.charged {g g' : GatewayState κ ε (τ × List Answered)} (hg : Charged g)
    (h : LedgerMove g g') : Charged g' := by
  cases h with
  | same hlog htasks hstore =>
      rw [Charged, hlog, htasks, hstore]
      exact hg
  | given readings a hlog htasks hstore =>
      rw [Charged, hlog, htasks, hstore, charges_concat, ← List.append_assoc, List.map_append]
      exact List.Perm.append_right [charge a.response] hg
  | stored before event after hlog hbefore htasks hstore =>
      have hmove : (g'.eventStore ++ g'.tasks).Perm (g.eventStore ++ g.tasks) := by
        rw [hstore, htasks, hbefore, List.append_assoc, List.singleton_append]
        exact List.perm_middle.symm.append_left _
      rw [Charged, hlog]
      exact (hmove.map untimed).trans hg

theorem Move.balanced {g g' : GatewayState κ ε (τ × List Answered)}
    (h : Move (logged app) KeepsLog g op g') :
    g'.upstream.2.length + g'.bus.countP GatewayEvent.isCacheHit =
      g.upstream.2.length + g.bus.countP GatewayEvent.isCacheHit +
        op.reply.toList.countP Reply.isCompletion := by
  cases h with
  | arrive readings req progress h =>
      rw [h.log.1, h.hits, Nat.add_assoc]
      rfl
  | resume readings req provider hrouted progress h =>
      obtain ⟨p, -, -, rfl⟩ := exists_logging hrouted.provider
      exact h.hits
  | read readings req provider items =>
      show _ + (g.bus ++ (streamBody _ items).2).countP _ = _
      rw [List.countP_append, published_streamBody_isCacheHit]
      rfl
  | drop | finish => rfl
  | drift upstream h => exact congrArg (fun log => log.length + _) h

theorem InOrder.step
    {steps : List (Transition (LoggedServer κ ε τ) (HandlerOp (τ × List Answered)))}
    (hs : InOrder steps s) (hrouted : AllRouted (logged app) s) (h : LoggedStep app s op s') :
    InOrder (⟨s, op, s'⟩ :: steps) s' := by
  have hmove := h.move hrouted
  refine ⟨hmove.ledger.charged hs.charged, ?_⟩
  rw [hmove.balanced, hs.balanced, repliesOf_cons, List.countP_append, Nat.add_comm]

end

/-- However the handlers and the tasks take turns, the cost events that are stored and those that
wait to be are the charges of the completions that the providers have given, none lost and none
twice; and the completions that clients got are as many as these and the published hits. -/
theorem completions_charged_interleaved (app : AppState κ ε τ) (upstream : τ)
    (cache : Option (TieredCache κ ε UnifiedResponse))
    {steps : List (Transition (LoggedServer κ ε τ) (HandlerOp (τ × List Answered)))}
    {s : LoggedServer κ ε τ}
    (run : Run (LoggedStep app) (unvisited (upstream, []) cache) steps s) :
    ((s.gateway.eventStore ++ s.gateway.tasks).map untimed).Perm (charges s.gateway.upstream.2) ∧
      s.gateway.upstream.2.length + s.gateway.bus.countP GatewayEvent.isCacheHit =
        (repliesOf steps).countP Reply.isCompletion := by
  have h : InOrder steps s := by
    apply run.invariant_of_history (I := InOrder)
    · exact ⟨List.Perm.refl [], rfl⟩
    · exact fun before hs h => hs.step (allRouted_of_run before) h
  exact ⟨h.charged, h.balanced⟩

/-! ### Where a completion comes from -/

def HandlerOp.request {σ : Type*} : HandlerOp σ → Option (Readings × ChatCompletionRequest)
  | .arrive readings req _ | .resume readings req _ | .read readings req _ => some (readings, req)
  | .drop _ | .drift | .finish _ => none

section

variable {app : AppState κ ε τ} {initial : Option (TieredCache κ ε UnifiedResponse)}
  {g g' : GatewayState κ ε (τ × List Answered)} {op : HandlerOp (τ × List Answered)}

theorem Move.log_subset (h : Move (logged app) KeepsLog g op g') :
    g.upstream.2 ⊆ g'.upstream.2 := by
  cases h.ledger with
  | same hlog | stored before event after hlog =>
      rw [hlog]
      exact List.Subset.refl _
  | given readings a hlog =>
      rw [hlog]
      exact List.subset_append_left _ _

theorem Sourced.of_same (hg : Sourced app.hasher initial g) (hcache : g'.cache = g.cache)
    (hlog : g.upstream.2 ⊆ g'.upstream.2) : Sourced app.hasher initial g' := by
  refine ⟨hcache ▸ hg.exactOnly, fun k e he => ?_⟩
  rw [hcache] at he
  exact (hg.given k e he).mono hlog

theorem Sourced.move (hg : Sourced app.hasher initial g)
    (h : Move (logged app) KeepsLog g op g') : Sourced app.hasher initial g' := by
  have hlog := h.log_subset
  cases h with
  | arrive readings req progress h =>
      cases h with
      | invalid | unknown | opens => exact hg.of_same rfl hlog
      | hit | misses =>
          refine ⟨exactOnly_cacheLookup hg.exactOnly, fun k e he => ?_⟩
          obtain ⟨e₀, he₀, hsame⟩ := holds_of_cacheLookup hg.exactOnly he
          rw [hsame.response]
          exact hg.given k e₀ he₀
  | resume readings req provider hrouted progress h =>
      cases h with
      | streamFailed | streams | failed => exact hg.of_same rfl hlog
      | completed response upstream hstream hcall =>
          obtain ⟨p, -, -, rfl⟩ := exists_logging hrouted.provider
          refine ⟨exactOnly_storedCache hg.exactOnly response, fun k e he => ?_⟩
          rcases holds_of_storedCache he with ⟨hk, rfl⟩ | hbefore
          · refine .inl ⟨⟨toUnifiedRequest req, e.response⟩, ?_, hk.symm, rfl⟩
            show _ ∈ upstream.2
            rw [(logging_complete_ok hcall).2]
            exact List.mem_append_right _ List.mem_cons_self
          · exact (hg.given k e hbefore).mono hlog
  | read | drop | finish => exact hg.of_same rfl hlog
  | drift upstream h => exact hg.of_same rfl hlog

theorem Sourced.replied (hg : Sourced app.hasher initial g)
    (h : Move (logged app) KeepsLog g op g') {body : ChatCompletionResponse}
    (hbody : op.reply = some (.completion body)) : ∃ readings req response,
      op.request = some (readings, req) ∧ body = completionResponse readings response ∧
        Given app.hasher initial g'.upstream.2 (chatKey app req) response := by
  cases h with
  | arrive readings req progress h =>
      cases h with
      | invalid | unknown | opens | misses => cases hbody
      | hit provider hrouted response hlookup =>
          obtain rfl := Reply.completion.inj (Option.some.inj hbody)
          obtain ⟨e, hholds, -, rfl⟩ := holds_of_found hg.exactOnly hlookup
          exact ⟨readings, req, e.response, rfl, rfl, hg.given _ e hholds⟩
  | resume readings req provider hrouted progress h =>
      cases h with
      | streamFailed | streams | failed => cases hbody
      | completed response upstream hstream hcall =>
          obtain ⟨p, -, -, rfl⟩ := exists_logging hrouted.provider
          obtain rfl := Reply.completion.inj (Option.some.inj hbody)
          refine ⟨readings, req, response, rfl, rfl,
            .inl ⟨⟨toUnifiedRequest req, response⟩, ?_, rfl, rfl⟩⟩
          show _ ∈ upstream.2
          rw [(logging_complete_ok hcall).2]
          exact List.mem_append_right _ List.mem_cons_self
  | read | drop | drift | finish => cases hbody

end

/-- However the handlers take turns over an exact cache, each completion that a client gets was
given by a provider for a request with the same key before, or was in the cache at the start under
that key. -/
theorem completion_was_given_interleaved (app : AppState κ ε τ) (upstream : τ)
    (initial : Option (TieredCache κ ε UnifiedResponse)) (hexact : ExactOnly initial)
    {steps : List (Transition (LoggedServer κ ε τ) (HandlerOp (τ × List Answered)))}
    {s : LoggedServer κ ε τ}
    (run : Run (LoggedStep app) (unvisited (upstream, []) initial) steps s) :
    ∀ t ∈ steps, ∀ body, t.label.reply = some (.completion body) → ∃ readings req response,
      t.label.request = some (readings, req) ∧ body = completionResponse readings response ∧
        Given app.hasher initial t.post.gateway.upstream.2 (chatKey app req) response := by
  intro t ht body hbody
  obtain ⟨earlier, -, hbefore, hstep⟩ := run.exists_before ht
  have hs : Sourced app.hasher initial t.pre.gateway := by
    apply hbefore.invariant_of_history (I := fun _ s => Sourced app.hasher initial s.gateway)
    · exact ⟨hexact, fun k e he => .inr ⟨e, he, rfl⟩⟩
    · exact fun run hs h => hs.move (h.move (allRouted_of_run run))
  exact hs.replied (hstep.move (allRouted_of_run hbefore)) hbody

/-! ### Two at once -/

/-- What a request that arrives leaves, and what it leaves when it is answered. -/
def arrived (req : ChatCompletionRequest)
    (g : GatewayState (List UInt8) Unit (Unit × List Answered)) :
    GatewayState (List UInt8) Unit (Unit × List Answered) :=
  { g.countRequest with cache := (cacheLookup (logged spelling) atStart req g).2 }

def answered (req : ChatCompletionRequest)
    (g : GatewayState (List UInt8) Unit (Unit × List Answered)) :
    GatewayState (List UInt8) Unit (Unit × List Answered) :=
  (resume (logged spelling) atStart (logging speller) req g).state

def spelledReply (req : ChatCompletionRequest) : Reply :=
  .completion (completionResponse atStart (spelledOut (chatKey spelling req)))

theorem resume_spelling {req : ChatCompletionRequest} (h : req.stream = none)
    (g : GatewayState (List UInt8) Unit (Unit × List Answered)) :
    resume (logged spelling) atStart (logging speller) req g =
      .replied (spelledReply req) (answered req g) := by
  rw [answered, resume, h]
  rfl

theorem routed_ask_spelling : Routed (logged spelling) ask (logging speller) false :=
  ⟨by decide +kernel, AppState.findProvider_of_unique rfl, rfl⟩

theorem routed_askOther : Routed (logged spelling) askOther (logging speller) false :=
  ⟨by decide +kernel, AppState.findProvider_of_unique rfl, rfl⟩

theorem chatKey_askOther_ne : chatKey spelling askOther ≠ chatKey spelling ask := by
  decide +kernel

theorem exactOnly_roomyCache : ExactOnly roomyCache := by
  rintro c ⟨⟩
  rfl

def before : GatewayState (List UInt8) Unit (Unit × List Answered) :=
  (unvisited ((), []) roomyCache).gateway

def bothArrived (other : ChatCompletionRequest) :
    GatewayState (List UInt8) Unit (Unit × List Answered) :=
  arrived other (arrived ask before)

def bothAnswered (other : ChatCompletionRequest) : LoggedServer (List UInt8) Unit Unit :=
  ⟨answered ask (answered other (bothArrived other)), []⟩

abbrev asker (req : ChatCompletionRequest) : Pending (Unit × List Answered) :=
  .waiting atStart req (logging speller)

/-- Two clients ask at once, and the second one is answered first. -/
def bothAsk (other : ChatCompletionRequest) :
    List (Transition (LoggedServer (List UInt8) Unit Unit) (HandlerOp (Unit × List Answered))) :=
  [⟨⟨answered other (bothArrived other), [asker ask]⟩,
      .resume atStart ask (some (spelledReply ask)), bothAnswered other⟩,
    ⟨⟨bothArrived other, [asker other, asker ask]⟩,
      .resume atStart other (some (spelledReply other)),
      ⟨answered other (bothArrived other), [asker ask]⟩⟩,
    ⟨⟨arrived ask before, [asker ask]⟩, .arrive atStart other none,
      ⟨bothArrived other, [asker other, asker ask]⟩⟩,
    ⟨⟨before, []⟩, .arrive atStart ask none, ⟨arrived ask before, [asker ask]⟩⟩]

theorem run_bothAsk {other : ChatCompletionRequest} (hstream : other.stream = none)
    (hrouted : Routed (logged spelling) other (logging speller) false) :
    Run (LoggedStep spelling) (unvisited ((), []) roomyCache) (bothAsk other)
      (bothAnswered other) := by
  have hmiss : (cacheLookup (logged spelling) atStart other (arrived ask before)).1 = none := rfl
  apply Run.snoc
  · apply Run.snoc
    · apply Run.snoc
      · apply Run.snoc .nil
        exact .asked _ atStart ask (logging speller) _
          (arrive_of_miss atStart routed_ask_spelling rfl)
      · exact .asked _ atStart other (logging speller) _ (arrive_of_miss atStart hrouted hmiss)
    · exact .answered _ [] atStart other (logging speller) [asker ask] _ _ rfl
        (resume_spelling hstream _)
  · exact .answered _ [] atStart ask (logging speller) [] _ _ rfl (resume_spelling rfl _)

theorem completions_charged_both :
    (((bothAnswered askOther).gateway.eventStore ++ (bothAnswered askOther).gateway.tasks).map
        untimed).Perm (charges (bothAnswered askOther).gateway.upstream.2) ∧
      (bothAnswered askOther).gateway.upstream.2.length +
          (bothAnswered askOther).gateway.bus.countP GatewayEvent.isCacheHit =
        (repliesOf (bothAsk askOther)).countP Reply.isCompletion :=
  completions_charged_interleaved spelling () roomyCache (run_bothAsk rfl routed_askOther)

/-- Each of the two was given the completion for its own key. -/
theorem completion_was_given_both : chatKey spelling askOther ≠ chatKey spelling ask ∧
    ∃ readings req response,
      some (atStart, ask) = some (readings, req) ∧
        completionResponse atStart (spelledOut (chatKey spelling ask)) =
          completionResponse readings response ∧
        Given spelling.hasher roomyCache (bothAnswered askOther).gateway.upstream.2
          (chatKey spelling req) response :=
  ⟨chatKey_askOther_ne, completion_was_given_interleaved spelling () roomyCache
    exactOnly_roomyCache (run_bothAsk rfl routed_askOther) _ List.mem_cons_self _ rfl⟩

end NeuRust.Gateway
