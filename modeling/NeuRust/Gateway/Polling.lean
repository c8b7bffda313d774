import NeuRust.Gateway.Handlers

/-!
Streams that are read event by event. Between two events of a body other handlers move and other
bodies are read, and a client may leave after any of them. Nothing but the bus is touched on the
way, and that at the finished chunk alone: from there on the body may as well have been read in one
step.
-/

namespace NeuRust.Gateway

open Cache Observability

/-! ### A body, from one event to the next -/

/-- Where a body stands: it reads on, or has only the end to send, or has sent it. -/
inductive BodyState where
  | reading (first : Bool) (items : List (Except Error StreamChunk))
  | closing
  | ended

/-- An event, what is published before it, and where the body stands after it. -/
structure Poll where
  event : SseData
  published : List GatewayEvent
  left : BodyState

namespace BodyState

def isReading : BodyState → Bool
  | .reading _ _ => true
  | .closing | .ended => false

def poll (ctx : StreamContext) : BodyState → Option Poll
  | .reading _ [] => some ⟨.done, [], .ended⟩
  | .reading _ (.error e :: _) => some ⟨.error (streamError e), [], .closing⟩
  | .reading first (.ok chunk :: items) =>
      let event := SseData.chunk (ctx.chunkResponse first chunk)
      if chunk.finished then some ⟨event, ctx.published chunk, .closing⟩
      else some ⟨event, [], .reading false items⟩
  | .closing => some ⟨.done, [], .ended⟩
  | .ended => none

def rest (ctx : StreamContext) : BodyState → List SseData × List GatewayEvent
  | .reading first items =>
      ((streamLoop ctx first items).1 ++ [.done], (streamLoop ctx first items).2)
  | .closing => ([.done], [])
  | .ended => ([], [])

variable {ctx : StreamContext} {body : BodyState} {next : Poll}

inductive Polls (ctx : StreamContext) : BodyState → Option Poll → Prop
  | empty (first : Bool) : Polls ctx (.reading first []) (some ⟨.done, [], .ended⟩)
  | failed (first : Bool) (e : Error) (items : List (Except Error StreamChunk)) :
      Polls ctx (.reading first (.error e :: items)) (some ⟨.error (streamError e), [], .closing⟩)
  | finished (first : Bool) (chunk : StreamChunk) (items : List (Except Error StreamChunk))
      (h : chunk.finished = true) :
      Polls ctx (.reading first (.ok chunk :: items))
        (some ⟨.chunk (ctx.chunkResponse first chunk), ctx.published chunk, .closing⟩)
  | more (first : Bool) (chunk : StreamChunk) (items : List (Except Error StreamChunk))
      (h : chunk.finished = false) :
      Polls ctx (.reading first (.ok chunk :: items))
        (some ⟨.chunk (ctx.chunkResponse first chunk), [], .reading false items⟩)
  | closing : Polls ctx .closing (some ⟨.done, [], .ended⟩)
  | ended : Polls ctx .ended none

theorem poll_polls (ctx : StreamContext) (body : BodyState) : Polls ctx body (body.poll ctx) := by
  cases body with
  | reading first items =>
      cases items with
      | nil => exact .empty first
      | cons item items =>
          cases item with
          | error e => exact .failed first e items
          | ok chunk =>
              rw [poll]
              cases hfinished : chunk.finished with
              | true => exact .finished first chunk items hfinished
              | false => exact .more first chunk items hfinished
  | closing => exact .closing
  | ended => exact .ended

theorem polls_of_eq {result : Option Poll} (h : body.poll ctx = result) : Polls ctx body result :=
  h ▸ poll_polls ctx body

/-- An event comes off the front of what is still to be sent. -/
theorem rest_of_poll (h : body.poll ctx = some next) :
    body.rest ctx =
      (next.event :: (next.left.rest ctx).1, next.published ++ (next.left.rest ctx).2) := by
  cases polls_of_eq h with
  | empty | failed | closing => rfl
  | finished first chunk items hfinished => simp [rest, streamLoop, hfinished]
  | more first chunk items hfinished => simp [rest, streamLoop, hfinished]

theorem rest_of_poll_eq_none (h : body.poll ctx = none) : (body.rest ctx).1 = [] := by
  cases polls_of_eq h with
  | ended => rfl

theorem published_of_isReading (h : body.poll ctx = some next)
    (hleft : next.left.isReading = true) : next.published = [] := by
  cases polls_of_eq h with
  | more => rfl
  | empty | failed | finished | closing => cases hleft

theorem rest_published (h : body.isReading = false) : (body.rest ctx).2 = [] := by
  cases body with
  | reading => cases h
  | closing | ended => rfl

theorem isReading_of_poll (h : body.poll ctx = some next) (hbody : body.isReading = false) :
    next.left.isReading = false := by
  cases polls_of_eq h with
  | closing => rfl
  | empty | failed | finished | more => cases hbody

end BodyState

/-- A stream that is being read, with the events that its client has got. -/
structure OpenStream (σ : Type*) where
  readings : Readings
  req : ChatCompletionRequest
  provider : Provider σ
  items : List (Except Error StreamChunk)
  sent : List SseData
  body : BodyState

namespace OpenStream

variable {σ : Type*}

def start (readings : Readings) (req : ChatCompletionRequest) (provider : Provider σ)
    (items : List (Except Error StreamChunk)) : OpenStream σ :=
  ⟨readings, req, provider, items, [], .reading true items⟩

def context (stream : OpenStream σ) : StreamContext :=
  streamContext stream.readings stream.provider stream.req

def poll (stream : OpenStream σ) : Option Poll := stream.body.poll stream.context

def polled (stream : OpenStream σ) (next : Poll) : OpenStream σ :=
  { stream with sent := stream.sent ++ [next.event], body := next.left }

def whole (stream : OpenStream σ) : List SseData × List GatewayEvent :=
  streamBody stream.context stream.items

/-- What was sent and what is still to be sent are the whole, and as long as the body reads on,
everything is still to be published. -/
structure Faithful (stream : OpenStream σ) : Prop where
  sent : stream.sent ++ (stream.body.rest stream.context).1 = stream.whole.1
  published : stream.body.isReading = true →
    (stream.body.rest stream.context).2 = stream.whole.2

variable {stream : OpenStream σ} {next : Poll}

theorem faithful_start (readings : Readings) (req : ChatCompletionRequest) (provider : Provider σ)
    (items : List (Except Error StreamChunk)) : (start readings req provider items).Faithful :=
  ⟨rfl, fun _ => rfl⟩

theorem Faithful.polled (h : stream.Faithful) (hpoll : stream.poll = some next) :
    (stream.polled next).Faithful := by
  have hrest := BodyState.rest_of_poll hpoll
  constructor
  · rw [OpenStream.polled, List.append_assoc, List.singleton_append]
    have hsent := h.sent
    rw [hrest] at hsent
    exact hsent
  · intro hleft
    have hreading : stream.body.isReading = true := by
      by_contra hnot
      rw [Bool.not_eq_true] at hnot
      have hstill : (stream.polled next).body.isReading = false :=
        BodyState.isReading_of_poll hpoll hnot
      rw [hstill] at hleft
      cases hleft
    have hpublished := h.published hreading
    rw [hrest, BodyState.published_of_isReading hpoll hleft] at hpublished
    exact hpublished

/-- Where a body stops reading, it publishes all that the stream does. -/
theorem Faithful.published_at_end (h : stream.Faithful) (hpoll : stream.poll = some next)
    (hreading : stream.body.isReading = true) (hleft : next.left.isReading = false) :
    next.published = stream.whole.2 := by
  have hrest := BodyState.rest_of_poll hpoll
  rw [← h.published hreading, hrest, BodyState.rest_published hleft, List.append_nil]

end OpenStream

/-! ### The server -/

variable {κ ε σ : Type*} [DecidableEq κ]

inductive PolledHandler (σ : Type*) where
  | waiting (readings : Readings) (req : ChatCompletionRequest) (provider : Provider σ)
  | streaming (stream : OpenStream σ)

/-- A handler, as the server has it that reads streams in one step: a stream that does not read on
has been read. -/
def PolledHandler.pending : PolledHandler σ → Option (Pending σ)
  | .waiting readings req provider => some (.waiting readings req provider)
  | .streaming stream =>
      if stream.body.isReading then
        some (.streaming stream.readings stream.req stream.provider stream.items)
      else none

structure PolledServer (κ ε σ : Type*) where
  gateway : GatewayState κ ε σ
  handlers : List (PolledHandler σ) := []

def PolledServer.atomic (s : PolledServer κ ε σ) : Server κ ε σ :=
  ⟨s.gateway, s.handlers.filterMap PolledHandler.pending⟩

def unpolled (upstream : σ) (cache : Option (TieredCache κ ε UnifiedResponse)) :
    PolledServer κ ε σ :=
  ⟨(unvisited upstream cache).gateway, []⟩

inductive PolledOp (σ : Type*) where
  | handler (op : HandlerOp σ)
  | poll (stream : OpenStream σ) (next : Poll)
  | leave (handler : PolledHandler σ)

def PolledOp.seen : PolledOp σ → Option (HandlerOp σ)
  | .handler op => some op
  | .poll stream next =>
      if stream.body.isReading && !next.left.isReading then
        some (.read stream.readings stream.req (.stream stream.whole.1))
      else none
  | .leave left => left.pending.map HandlerOp.drop

/-- Any handler and any body may go on whenever it likes, by one event. -/
inductive PolledStep (app : AppState κ ε σ) (drift : σ → σ → Prop) :
    PolledServer κ ε σ → PolledOp σ → PolledServer κ ε σ → Prop
  | refused (s : PolledServer κ ε σ) (readings : Readings) (req : ChatCompletionRequest)
      (reply : Reply) (g : GatewayState κ ε σ)
      (h : arrive app readings req s.gateway = .replied reply g) :
      PolledStep app drift s (.handler (.arrive readings req (some reply))) ⟨g, s.handlers⟩
  | asked (s : PolledServer κ ε σ) (readings : Readings) (req : ChatCompletionRequest)
      (provider : Provider σ) (g : GatewayState κ ε σ)
      (h : arrive app readings req s.gateway = .waits provider g) :
      PolledStep app drift s (.handler (.arrive readings req none))
        ⟨g, .waiting readings req provider :: s.handlers⟩
  | answered (s : PolledServer κ ε σ) (before : List (PolledHandler σ)) (readings : Readings)
      (req : ChatCompletionRequest) (provider : Provider σ) (after : List (PolledHandler σ))
      (reply : Reply) (g : GatewayState κ ε σ)
      (hhandlers : s.handlers = before ++ .waiting readings req provider :: after)
      (h : resume app readings provider req s.gateway = .replied reply g) :
      PolledStep app drift s (.handler (.resume readings req (some reply))) ⟨g, before ++ after⟩
  | opened (s : PolledServer κ ε σ) (before : List (PolledHandler σ)) (readings : Readings)
      (req : ChatCompletionRequest) (provider : Provider σ) (after : List (PolledHandler σ))
      (items : List (Except Error StreamChunk)) (g : GatewayState κ ε σ)
      (hhandlers : s.handlers = before ++ .waiting readings req provider :: after)
      (h : resume app readings provider req s.gateway = .waits items g) :
      PolledStep app drift s (.handler (.resume readings req none))
        ⟨g, before ++ .streaming (.start readings req provider items) :: after⟩
  | polled (s : PolledServer κ ε σ) (before : List (PolledHandler σ)) (stream : OpenStream σ)
      (after : List (PolledHandler σ)) (next : Poll)
      (hhandlers : s.handlers = before ++ .streaming stream :: after)
      (h : stream.poll = some next) :
      PolledStep app drift s (.poll stream next)
        ⟨{ s.gateway with bus := s.gateway.bus ++ next.published },
          before ++ .streaming (stream.polled next) :: after⟩
  | left (s : PolledServer κ ε σ) (before : List (PolledHandler σ)) (handler : PolledHandler σ)
      (after : List (PolledHandler σ)) (hhandlers : s.handlers = before ++ handler :: after) :
      PolledStep app drift s (.leave handler) ⟨s.gateway, before ++ after⟩
  | drifted (s : PolledServer κ ε σ) (upstream : σ) (h : drift s.gateway.upstream upstream) :
      PolledStep app drift s (.handler .drift)
        ⟨{ s.gateway with upstream := upstream }, s.handlers⟩
  | finished (s : PolledServer κ ε σ) (before : List CostEvent) (event : CostEvent)
      (after : List CostEvent) (htasks : s.gateway.tasks = before ++ event :: after) :
      PolledStep app drift s (.handler (.finish event))
        ⟨{ s.gateway with
            tasks := before ++ after
            eventStore := recordCostEvent event s.gateway.eventStore }, s.handlers⟩

section

variable {app : AppState κ ε σ} {drift : σ → σ → Prop} {s s' : PolledServer κ ε σ}
  {op : PolledOp σ}

def AllFaithful (s : PolledServer κ ε σ) : Prop :=
  ∀ stream, .streaming stream ∈ s.handlers → stream.Faithful

omit [DecidableEq κ] in
theorem allFaithful_iff : AllFaithful s ↔
    ∀ handler ∈ s.handlers, ∀ stream, handler = .streaming stream → stream.Faithful := by
  constructor
  · rintro hs handler hmem stream rfl
    exact hs stream hmem
  · intro hs stream hmem
    exact hs _ hmem stream rfl

theorem PolledStep.allFaithful (hs : AllFaithful s) (h : PolledStep app drift s op s') :
    AllFaithful s' := by
  rw [allFaithful_iff] at hs ⊢
  cases h with
  | refused | drifted | finished => exact hs
  | asked readings req provider g h =>
      refine List.forall_mem_cons.mpr ⟨fun stream heq => ?_, hs⟩
      cases heq
  | answered before readings req provider after reply g hhandlers h =>
      rw [hhandlers] at hs
      exact (forall_mem_middle.mp hs).2
  | left before handler after hhandlers =>
      rw [hhandlers] at hs
      exact (forall_mem_middle.mp hs).2
  | opened before readings req provider after items g hhandlers h =>
      rw [hhandlers] at hs
      refine forall_mem_middle.mpr ⟨fun stream heq => ?_, (forall_mem_middle.mp hs).2⟩
      obtain rfl := PolledHandler.streaming.inj heq
      exact OpenStream.faithful_start readings req provider items
  | polled before stream after next hhandlers h =>
      rw [hhandlers] at hs
      obtain ⟨hstream, hothers⟩ := forall_mem_middle.mp hs
      refine forall_mem_middle.mpr ⟨fun stream' heq => ?_, hothers⟩
      obtain rfl := PolledHandler.streaming.inj heq
      exact (hstream stream rfl).polled h

omit [DecidableEq κ] in
theorem atomic_append (g : GatewayState κ ε σ) (before after : List (PolledHandler σ)) :
    (⟨g, before ++ after⟩ : PolledServer κ ε σ).atomic =
      ⟨g, before.filterMap PolledHandler.pending ++ after.filterMap PolledHandler.pending⟩ := by
  rw [PolledServer.atomic, List.filterMap_append]

omit [DecidableEq κ] in
theorem atomic_insert (g : GatewayState κ ε σ) (before : List (PolledHandler σ))
    (handler : PolledHandler σ) (after : List (PolledHandler σ)) :
    (⟨g, before ++ handler :: after⟩ : PolledServer κ ε σ).atomic =
      ⟨g, before.filterMap PolledHandler.pending ++
        (handler.pending.toList ++ after.filterMap PolledHandler.pending)⟩ := by
  rw [atomic_append, List.filterMap_cons]
  cases handler.pending <;> rfl

omit [DecidableEq κ] in
theorem atomic_pending {before after : List (PolledHandler σ)} {handler : PolledHandler σ}
    (hhandlers : s.handlers = before ++ handler :: after) :
    s.atomic = ⟨s.gateway, before.filterMap PolledHandler.pending ++
      (handler.pending.toList ++ after.filterMap PolledHandler.pending)⟩ := by
  rw [← atomic_insert, ← hhandlers]

/-! ### Reading in one step -/

omit [DecidableEq κ] in
theorem pending_of_isReading {stream : OpenStream σ} (h : stream.body.isReading = true) :
    (PolledHandler.streaming stream).pending =
      some (.streaming stream.readings stream.req stream.provider stream.items) := by
  rw [PolledHandler.pending, if_pos h]

omit [DecidableEq κ] in
theorem pending_of_read {stream : OpenStream σ} (h : stream.body.isReading = false) :
    (PolledHandler.streaming stream).pending = none := by
  rw [PolledHandler.pending, h]
  rfl

/-- A poll is the reading of the whole stream if the body stops reading there, and is not seen
otherwise. -/
theorem atomic_of_poll {before after : List (PolledHandler σ)} {stream : OpenStream σ} {next : Poll}
    (hstream : stream.Faithful) (hhandlers : s.handlers = before ++ .streaming stream :: after)
    (h : stream.poll = some next) {polled : PolledServer κ ε σ}
    (hpolled : polled = ⟨{ s.gateway with bus := s.gateway.bus ++ next.published },
      before ++ .streaming (stream.polled next) :: after⟩) :
    (∃ seen, (PolledOp.poll stream next).seen = some seen ∧
        HandlerStep app drift s.atomic seen polled.atomic) ∨
      (PolledOp.poll stream next).seen = none ∧ polled.atomic = s.atomic := by
  have hbefore := atomic_pending hhandlers
  have hsilent (hpublished : next.published = [])
      (hsame : (PolledHandler.streaming (stream.polled next)).pending =
        (PolledHandler.streaming stream).pending) : polled.atomic = s.atomic := by
    rw [hpolled, atomic_insert, hbefore, hpublished, List.append_nil, hsame]
  cases hreading : stream.body.isReading with
  | false =>
      have hleft := BodyState.isReading_of_poll h hreading
      have hpublished : next.published = [] := by
        have hrest := congrArg Prod.snd (BodyState.rest_of_poll h)
        rw [BodyState.rest_published hreading] at hrest
        exact (List.append_eq_nil_iff.mp hrest.symm).1
      refine .inr ⟨by rw [PolledOp.seen, hreading]; rfl, hsilent hpublished ?_⟩
      rw [pending_of_read hreading]
      exact pending_of_read hleft
  | true =>
      cases hleft : next.left.isReading with
      | true =>
          refine .inr ⟨by rw [PolledOp.seen, hreading, hleft]; rfl, ?_⟩
          refine hsilent (BodyState.published_of_isReading h hleft) ?_
          rw [pending_of_isReading hreading]
          exact pending_of_isReading hleft
      | false =>
          refine .inl ⟨.read stream.readings stream.req (.stream stream.whole.1),
            by rw [PolledOp.seen, hreading, hleft]; rfl, ?_⟩
          have hgone : (PolledHandler.streaming (stream.polled next)).pending = none :=
            pending_of_read hleft
          have hread : polled.atomic =
              ⟨(readStream stream.readings stream.provider stream.req stream.items s.gateway).2,
                before.filterMap PolledHandler.pending ++
                  after.filterMap PolledHandler.pending⟩ := by
            rw [hpolled, atomic_insert, hgone, hstream.published_at_end h hreading hleft]
            rfl
          rw [pending_of_isReading hreading] at hbefore
          rw [hread]
          exact .read s.atomic _ stream.readings stream.req stream.provider stream.items _
            (congrArg Server.pending hbefore)

/-- A step is one of the server that reads streams in one step, or that one does not see it. -/
theorem PolledStep.atomic (hs : AllFaithful s) (h : PolledStep app drift s op s') :
    (∃ seen, op.seen = some seen ∧ HandlerStep app drift s.atomic seen s'.atomic) ∨
      op.seen = none ∧ s'.atomic = s.atomic := by
  cases h with
  | refused readings req reply g h => exact .inl ⟨_, rfl, .refused s.atomic readings req reply g h⟩
  | asked readings req provider g h =>
      exact .inl ⟨_, rfl, .asked s.atomic readings req provider g h⟩
  | drifted upstream h => exact .inl ⟨_, rfl, .drifted s.atomic upstream h⟩
  | finished before event after htasks =>
      exact .inl ⟨_, rfl, .finished s.atomic before event after htasks⟩
  | answered before readings req provider after reply g hhandlers h =>
      refine .inl ⟨_, rfl, ?_⟩
      rw [atomic_append]
      exact .answered s.atomic _ readings req provider _ reply g
        (congrArg Server.pending (atomic_pending hhandlers)) h
  | opened before readings req provider after items g hhandlers h =>
      refine .inl ⟨_, rfl, ?_⟩
      rw [atomic_insert]
      exact .opened s.atomic _ readings req provider _ items g
        (congrArg Server.pending (atomic_pending hhandlers)) h
  | polled before stream after next hhandlers h =>
      have hmem : .streaming stream ∈ s.handlers := by
        rw [hhandlers]
        exact List.mem_append_right _ List.mem_cons_self
      exact atomic_of_poll (hs stream hmem) hhandlers h rfl
  | left before handler after hhandlers =>
      have hbefore := atomic_pending hhandlers
      rw [atomic_append, PolledOp.seen]
      cases hleft : handler.pending with
      | none =>
          rw [hleft] at hbefore
          exact .inr ⟨rfl, hbefore.symm⟩
      | some pending =>
          rw [hleft] at hbefore
          exact .inl ⟨.drop pending, rfl,
            .dropped s.atomic _ pending _ (congrArg Server.pending hbefore)⟩

theorem allFaithful_of_run {upstream : σ} {cache : Option (TieredCache κ ε UnifiedResponse)}
    {steps : List (Transition (PolledServer κ ε σ) (PolledOp σ))}
    (run : Run (PolledStep app drift) (unpolled upstream cache) steps s) : AllFaithful s := by
  apply run.invariant_of_history (I := fun _ s => AllFaithful s)
  · intro stream hmem
    cases hmem
  · exact fun _ hs h => h.allFaithful hs

/-- A run of the server, as the one that reads streams in one step has it. -/
def atomicSteps (steps : List (Transition (PolledServer κ ε σ) (PolledOp σ))) :
    List (Transition (Server κ ε σ) (HandlerOp σ)) :=
  steps.filterMap fun t => t.label.seen.map fun op => ⟨t.pre.atomic, op, t.post.atomic⟩

/-- However the events of the streams, the handlers and the clients that leave take turns, the state
that they share is always one that the server leads to that reads each stream in one step, where its
body stops reading; and what each client has got of its stream is the beginning of the whole, and
the whole once there is no more. -/
theorem polled_refines_atomic (upstream : σ) (cache : Option (TieredCache κ ε UnifiedResponse))
    {steps : List (Transition (PolledServer κ ε σ) (PolledOp σ))}
    (run : Run (PolledStep app drift) (unpolled upstream cache) steps s) :
    Run (HandlerStep app drift) (unvisited upstream cache) (atomicSteps steps) s.atomic ∧
      ∀ stream, .streaming stream ∈ s.handlers →
        stream.sent <+: stream.whole.1 ∧ (stream.poll = none → stream.sent = stream.whole.1) := by
  constructor
  · exact run.simulate_of_run PolledServer.atomic (fun t => t.label.seen)
      fun before h => h.atomic (allFaithful_of_run before)
  · intro stream hmem
    have hfaithful := allFaithful_of_run run stream hmem
    refine ⟨⟨_, hfaithful.sent⟩, fun hnone => ?_⟩
    rw [← hfaithful.sent, BodyState.rest_of_poll_eq_none hnone, List.append_nil]

end

/-! ### One stream -/

def askStream : ChatCompletionRequest := { ask with stream := some true }

theorem routed_askStream : Routed (oneProvider dearResponse) askStream dear true :=
  ⟨by decide +kernel, AppState.findProvider_of_unique rfl, rfl⟩

def dearStream : OpenStream Unit :=
  .start atStart askStream dear [.ok ⟨dearResponse.content, true, some dearResponse.usage⟩]

def dearPoll : Poll :=
  ⟨.chunk (dearStream.context.chunkResponse true
      ⟨dearResponse.content, true, some dearResponse.usage⟩),
    [dearStream.context.completedEvent dearResponse.usage], .closing⟩

def streamAsked : GatewayState Unit Unit Unit := (unvisited () none).gateway.countRequest

def streamPolled : GatewayState Unit Unit Unit :=
  { streamAsked with bus := streamAsked.bus ++ dearPoll.published }

def getsChunk : List (Transition (PolledServer Unit Unit Unit) (PolledOp Unit)) :=
  [⟨⟨streamAsked, [.streaming dearStream]⟩, .poll dearStream dearPoll,
      ⟨streamPolled, [.streaming (dearStream.polled dearPoll)]⟩⟩,
    ⟨⟨streamAsked, [.waiting atStart askStream dear]⟩, .handler (.resume atStart askStream none),
      ⟨streamAsked, [.streaming dearStream]⟩⟩,
    ⟨unpolled () none, .handler (.arrive atStart askStream none),
      ⟨streamAsked, [.waiting atStart askStream dear]⟩⟩]

theorem run_getsChunk : Run (PolledStep (oneProvider dearResponse) Eq) (unpolled () none)
    getsChunk ⟨streamPolled, [.streaming (dearStream.polled dearPoll)]⟩ := by
  apply Run.snoc
  · apply Run.snoc
    · apply Run.snoc .nil
      exact .asked _ atStart askStream dear _ (arrive_of_stream atStart routed_askStream)
    · exact .opened _ [] atStart askStream dear [] _ _ rfl rfl
  · exact .polled _ [] dearStream [] dearPoll rfl rfl

theorem polled_refines_atomic_chunk :
    Run (HandlerStep (oneProvider dearResponse) Eq) (unvisited () none) (atomicSteps getsChunk)
        ⟨streamPolled, []⟩ ∧
      ∀ stream : OpenStream Unit,
        PolledHandler.streaming stream ∈ [PolledHandler.streaming (dearStream.polled dearPoll)] →
          stream.sent <+: stream.whole.1 ∧
            (stream.poll = none → stream.sent = stream.whole.1) :=
  polled_refines_atomic () none run_getsChunk

end NeuRust.Gateway
