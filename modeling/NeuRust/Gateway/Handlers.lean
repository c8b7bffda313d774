import NeuRust.Gateway.Operations
import NeuRust.Gateway.Spend

/-!
Chat requests that are handled at the same time. A handler runs by itself from one `await` to the
next: it looks into the cache and asks its provider, it goes on with what the provider says, and a
stream is read after that. In between other handlers move, and a handler that waits may be dropped
with its connection.
-/

namespace NeuRust.Gateway

open Cache Observability

variable {κ ε σ : Type*} [DecidableEq κ]

/-! ### A handler, from one await to the next -/

/-- How far a handler gets: it replies, or has to wait. -/
inductive Progress (ω σ : Type*) where
  | replied (reply : Reply) (s : σ)
  | waits (on : ω) (s : σ)

def Progress.state {ω σ : Type*} : Progress ω σ → σ
  | .replied _ s | .waits _ s => s

def Progress.reply {ω σ : Type*} : Progress ω σ → Option Reply
  | .replied reply _ => some reply
  | .waits _ _ => none

section

variable (app : AppState κ ε σ) (readings : Readings)

/-- From the arrival of a request up to the call of its provider. -/
def arrive (req : ChatCompletionRequest) (s : GatewayState κ ε σ) :
    Progress (Provider σ) (GatewayState κ ε σ) :=
  match validationError req with
  | some message => .replied (invalidRequest message) s.countRequest
  | none =>
      match app.findProvider req.model with
      | none => .replied (invalidRequest (noSuchModel req.model)) s.countRequest
      | some provider =>
          if req.stream.getD false then .waits provider s.countRequest
          else
            match lookupCache app readings (toUnifiedRequest req) s.countRequest with
            | (some response, s) =>
                .replied (.completion (completionResponse readings response))
                  { s with bus := s.bus ++ [cacheHitEvent readings req] }
            | (none, s) => .waits provider s

/-- What the handler does once the provider has said something. -/
def resume (provider : Provider σ) (req : ChatCompletionRequest) (s : GatewayState κ ε σ) :
    Progress (List (Except Error StreamChunk)) (GatewayState κ ε σ) :=
  let request := toUnifiedRequest req
  if req.stream.getD false then
    match provider.completeStream request s.upstream with
    | (.ok items, upstream) => .waits items { s with upstream := upstream }
    | (.error e, upstream) =>
        .replied (serverError ("Streaming error: ".toList ++ e.display))
          { s with upstream := upstream }.countError
  else
    match handleComplete app readings provider request s with
    | (.ok response, s) => .replied (.completion response) s
    | (.error e, s) =>
        .replied (serverError ("Completion error: ".toList ++ e.display)) s.countError

omit [DecidableEq κ] in
def readStream (provider : Provider σ) (req : ChatCompletionRequest)
    (items : List (Except Error StreamChunk)) (s : GatewayState κ ε σ) :
    Reply × GatewayState κ ε σ :=
  let body := streamBody (streamContext readings provider req) items
  (.stream body.1, { s with bus := s.bus ++ body.2 })

/-- A request that is handled with no other in between. -/
def alone (req : ChatCompletionRequest) (s : GatewayState κ ε σ) : Reply × GatewayState κ ε σ :=
  match arrive app readings req s with
  | .replied reply s => (reply, s)
  | .waits provider s =>
      match resume app readings provider req s with
      | .replied reply s => (reply, s)
      | .waits items s => readStream readings provider req items s

inductive Arrival (req : ChatCompletionRequest) (s : GatewayState κ ε σ) :
    Progress (Provider σ) (GatewayState κ ε σ) → Prop
  | invalid (message : Str) (h : validationError req = some message) :
      Arrival req s (.replied (invalidRequest message) s.countRequest)
  | unknown (hvalid : validationError req = none) (h : app.findProvider req.model = none) :
      Arrival req s (.replied (invalidRequest (noSuchModel req.model)) s.countRequest)
  | hit (provider : Provider σ) (h : Routed app req provider false) (response : UnifiedResponse)
      (hlookup : (cacheLookup app readings req s).1 = some response) :
      Arrival req s (.replied (.completion (completionResponse readings response))
        { s.countRequest with
          cache := (cacheLookup app readings req s).2
          bus := s.bus ++ [cacheHitEvent readings req] })
  | opens (provider : Provider σ) (h : Routed app req provider true) :
      Arrival req s (.waits provider s.countRequest)
  | misses (provider : Provider σ) (h : Routed app req provider false)
      (hlookup : (cacheLookup app readings req s).1 = none) :
      Arrival req s (.waits provider
        { s.countRequest with cache := (cacheLookup app readings req s).2 })

inductive Resumption (provider : Provider σ) (req : ChatCompletionRequest)
    (s : GatewayState κ ε σ) :
    Progress (List (Except Error StreamChunk)) (GatewayState κ ε σ) → Prop
  | streamFailed (e : Error) (upstream : σ) (h : req.stream.getD false = true)
      (hcall : provider.completeStream (toUnifiedRequest req) s.upstream = (.error e, upstream)) :
      Resumption provider req s
        (.replied (serverError ("Streaming error: ".toList ++ e.display))
          { s with upstream := upstream }.countError)
  | streams (items : List (Except Error StreamChunk)) (upstream : σ)
      (h : req.stream.getD false = true)
      (hcall : provider.completeStream (toUnifiedRequest req) s.upstream = (.ok items, upstream)) :
      Resumption provider req s (.waits items { s with upstream := upstream })
  | failed (e : Error) (upstream : σ) (h : req.stream.getD false = false)
      (hcall : provider.complete (toUnifiedRequest req) s.upstream = (.error e, upstream)) :
      Resumption provider req s
        (.replied (serverError ("Completion error: ".toList ++ e.display))
          { s with upstream := upstream }.countError)
  | completed (response : UnifiedResponse) (upstream : σ) (h : req.stream.getD false = false)
      (hcall : provider.complete (toUnifiedRequest req) s.upstream = (.ok response, upstream)) :
      Resumption provider req s
        (.replied (.completion (completionResponse readings response))
          { s with
            upstream := upstream
            cache := s.cache.map
              (·.store app.hasher app.embedding readings.storeAt (toUnifiedRequest req) response)
            tasks := s.tasks ++ [completionCostEvent readings response]
            bus := s.bus ++ [completedEvent readings response] })

theorem arrive_arrival (req : ChatCompletionRequest) (s : GatewayState κ ε σ) :
    Arrival app readings req s (arrive app readings req s) := by
  have hsame : cacheLookup app readings req s.countRequest = cacheLookup app readings req s := rfl
  rw [arrive]
  cases hvalid : validationError req with
  | some message => exact .invalid message hvalid
  | none =>
      cases hprovider : app.findProvider req.model with
      | none => exact .unknown hvalid hprovider
      | some provider =>
          cases hstream : req.stream.getD false with
          | true => exact .opens provider ⟨hvalid, hprovider, hstream⟩
          | false =>
              have hrouted : Routed app req provider false := ⟨hvalid, hprovider, hstream⟩
              have hlooked : lookupCache app readings (toUnifiedRequest req) s.countRequest = _ :=
                lookupCache_eq
              rw [hsame] at hlooked
              simp only [Bool.false_eq_true, if_false]
              rw [hlooked]
              cases hlookup : (cacheLookup app readings req s).1 with
              | some response => exact .hit provider hrouted response hlookup
              | none => exact .misses provider hrouted hlookup

theorem resume_resumption (provider : Provider σ) (req : ChatCompletionRequest)
    (s : GatewayState κ ε σ) :
    Resumption app readings provider req s (resume app readings provider req s) := by
  rw [resume]
  cases hstream : req.stream.getD false with
  | true =>
      rcases hcall : provider.completeStream (toUnifiedRequest req) s.upstream with
        ⟨e | items, upstream⟩
      · exact .streamFailed e upstream hstream hcall
      · exact .streams items upstream hstream hcall
  | false =>
      rcases hcall : provider.complete (toUnifiedRequest req) s.upstream with
        ⟨e | response, upstream⟩
      · simp only [handleComplete, hcall]
        exact .failed e upstream hstream hcall
      · simp only [handleComplete, hcall]
        exact .completed response upstream hstream hcall

variable {app} in
theorem arrive_of_miss {provider : Provider σ} {req : ChatCompletionRequest}
    {s : GatewayState κ ε σ} (hrouted : Routed app req provider false)
    (hlookup : (cacheLookup app readings req s).1 = none) :
    arrive app readings req s =
      .waits provider { s.countRequest with cache := (cacheLookup app readings req s).2 } := by
  have harrival := arrive_arrival app readings req s
  generalize arrive app readings req s = progress at harrival
  cases harrival with
  | invalid message h => cases hrouted.valid.symm.trans h
  | unknown hvalid h => cases hrouted.provider.symm.trans h
  | hit other h response hfound => cases hlookup.symm.trans hfound
  | opens other h => cases hrouted.stream.symm.trans h.stream
  | misses other h =>
      obtain rfl := Option.some.inj (hrouted.provider.symm.trans h.provider)
      rfl

variable {app} in
theorem arrive_of_stream {provider : Provider σ} {req : ChatCompletionRequest}
    {s : GatewayState κ ε σ} (hrouted : Routed app req provider true) :
    arrive app readings req s = .waits provider s.countRequest := by
  have harrival := arrive_arrival app readings req s
  generalize arrive app readings req s = progress at harrival
  cases harrival with
  | invalid message h => cases hrouted.valid.symm.trans h
  | unknown hvalid h => cases hrouted.provider.symm.trans h
  | hit other h | misses other h => cases hrouted.stream.symm.trans h.stream
  | opens other h =>
      obtain rfl := Option.some.inj (hrouted.provider.symm.trans h.provider)
      rfl

variable {app} in
theorem arrive_of_hit {provider : Provider σ} {req : ChatCompletionRequest}
    {s : GatewayState κ ε σ} {response : UnifiedResponse} (hrouted : Routed app req provider false)
    (hlookup : (cacheLookup app readings req s).1 = some response) :
    arrive app readings req s =
      .replied (.completion (completionResponse readings response))
        { s.countRequest with
          cache := (cacheLookup app readings req s).2
          bus := s.bus ++ [cacheHitEvent readings req] } := by
  have harrival := arrive_arrival app readings req s
  generalize arrive app readings req s = progress at harrival
  cases harrival with
  | invalid message h => cases hrouted.valid.symm.trans h
  | unknown hvalid h => cases hrouted.provider.symm.trans h
  | misses other h hnone => cases hlookup.symm.trans hnone
  | opens other h => cases hrouted.stream.symm.trans h.stream
  | hit other h found hfound =>
      obtain rfl := Option.some.inj (hlookup.symm.trans hfound)
      rfl

/-- A handler that is not interrupted does what the sequential one does. -/
theorem chatCompletions_eq_alone (req : ChatCompletionRequest) (s : GatewayState κ ε σ) :
    chatCompletions app readings req s = alone app readings req s := by
  cases hvalid : validationError req with
  | some message => simp only [chatCompletions, alone, arrive, GatewayState.countRequest, hvalid]
  | none =>
      cases hprovider : app.findProvider req.model with
      | none =>
          simp only [chatCompletions, alone, arrive, GatewayState.countRequest, hvalid, hprovider]
      | some provider =>
          simp only [chatCompletions, answer, alone, arrive, GatewayState.countRequest, hvalid,
            hprovider]
          cases hstream : req.stream.getD false with
          | true =>
              simp only [handleStream, resume, hstream, if_true]
              rcases provider.completeStream (toUnifiedRequest req) s.upstream with
                ⟨e | items, upstream⟩ <;> rfl
          | false =>
              simp only [Bool.false_eq_true, if_false]
              rcases hlookup : lookupCache app readings (toUnifiedRequest req) s.countRequest with
                ⟨_ | response, s₁⟩
              · rw [GatewayState.countRequest] at hlookup
                simp only [hlookup, resume, hstream, Bool.false_eq_true, if_false]
                rcases handleComplete app readings provider (toUnifiedRequest req) s₁ with
                  ⟨e | body, s₂⟩ <;> rfl
              · rw [GatewayState.countRequest] at hlookup
                simp only [hlookup]
                rfl

end

/-! ### Handlers that take turns -/

/-- A handler that waits: for its provider, or for its client to read the stream. -/
inductive Pending (σ : Type*) where
  | waiting (readings : Readings) (req : ChatCompletionRequest) (provider : Provider σ)
  | streaming (readings : Readings) (req : ChatCompletionRequest) (provider : Provider σ)
      (items : List (Except Error StreamChunk))

structure Server (κ ε σ : Type*) where
  gateway : GatewayState κ ε σ
  pending : List (Pending σ) := []

def unvisited (upstream : σ) (cache : Option (TieredCache κ ε UnifiedResponse)) : Server κ ε σ :=
  ⟨{ upstream := upstream, cache := cache }, []⟩

/-- What happens next. A handler that has to wait makes no reply. -/
inductive HandlerOp (σ : Type*) where
  | arrive (readings : Readings) (req : ChatCompletionRequest) (reply : Option Reply)
  | resume (readings : Readings) (req : ChatCompletionRequest) (reply : Option Reply)
  | read (readings : Readings) (req : ChatCompletionRequest) (reply : Reply)
  | drop (handler : Pending σ)
  | drift
  | finish (event : CostEvent)

def HandlerOp.reply : HandlerOp σ → Option Reply
  | .arrive _ _ reply | .resume _ _ reply => reply
  | .read _ _ reply => some reply
  | .drop _ | .drift | .finish _ => none

/-- Any handler may go on whenever it likes. What the providers do by themselves, and with the calls
of handlers that are dropped, is left to the relation. -/
inductive HandlerStep (app : AppState κ ε σ) (drift : σ → σ → Prop) :
    Server κ ε σ → HandlerOp σ → Server κ ε σ → Prop
  | refused (s : Server κ ε σ) (readings : Readings) (req : ChatCompletionRequest) (reply : Reply)
      (g : GatewayState κ ε σ) (h : arrive app readings req s.gateway = .replied reply g) :
      HandlerStep app drift s (.arrive readings req (some reply)) ⟨g, s.pending⟩
  | asked (s : Server κ ε σ) (readings : Readings) (req : ChatCompletionRequest)
      (provider : Provider σ) (g : GatewayState κ ε σ)
      (h : arrive app readings req s.gateway = .waits provider g) :
      HandlerStep app drift s (.arrive readings req none)
        ⟨g, .waiting readings req provider :: s.pending⟩
  | answered (s : Server κ ε σ) (before : List (Pending σ)) (readings : Readings)
      (req : ChatCompletionRequest) (provider : Provider σ) (after : List (Pending σ))
      (reply : Reply) (g : GatewayState κ ε σ)
      (hpending : s.pending = before ++ .waiting readings req provider :: after)
      (h : resume app readings provider req s.gateway = .replied reply g) :
      HandlerStep app drift s (.resume readings req (some reply)) ⟨g, before ++ after⟩
  | opened (s : Server κ ε σ) (before : List (Pending σ)) (readings : Readings)
      (req : ChatCompletionRequest) (provider : Provider σ) (after : List (Pending σ))
      (items : List (Except Error StreamChunk)) (g : GatewayState κ ε σ)
      (hpending : s.pending = before ++ .waiting readings req provider :: after)
      (h : resume app readings provider req s.gateway = .waits items g) :
      HandlerStep app drift s (.resume readings req none)
        ⟨g, before ++ .streaming readings req provider items :: after⟩
  | read (s : Server κ ε σ) (before : List (Pending σ)) (readings : Readings)
      (req : ChatCompletionRequest) (provider : Provider σ)
      (items : List (Except Error StreamChunk)) (after : List (Pending σ))
      (hpending : s.pending = before ++ .streaming readings req provider items :: after) :
      HandlerStep app drift s
        (.read readings req (readStream readings provider req items s.gateway).1)
        ⟨(readStream readings provider req items s.gateway).2, before ++ after⟩
  | dropped (s : Server κ ε σ) (before : List (Pending σ)) (handler : Pending σ)
      (after : List (Pending σ)) (hpending : s.pending = before ++ handler :: after) :
      HandlerStep app drift s (.drop handler) ⟨s.gateway, before ++ after⟩
  | drifted (s : Server κ ε σ) (upstream : σ) (h : drift s.gateway.upstream upstream) :
      HandlerStep app drift s .drift ⟨{ s.gateway with upstream := upstream }, s.pending⟩
  | finished (s : Server κ ε σ) (before : List CostEvent) (event : CostEvent)
      (after : List CostEvent) (htasks : s.gateway.tasks = before ++ event :: after) :
      HandlerStep app drift s (.finish event)
        ⟨{ s.gateway with
            tasks := before ++ after
            eventStore := recordCostEvent event s.gateway.eventStore }, s.pending⟩

/-! ### Providers -/

def Pending.Routed (app : AppState κ ε σ) : Pending σ → Prop
  | .waiting _ req provider => Gateway.Routed app req provider (req.stream.getD false)
  | .streaming _ req provider _ => Gateway.Routed app req provider true

def AllRouted (app : AppState κ ε σ) (s : Server κ ε σ) : Prop :=
  ∀ handler ∈ s.pending, handler.Routed app

omit [DecidableEq κ] in
theorem forall_pending {s : Server κ ε σ} {P : Pending σ → Prop}
    (hs : ∀ handler ∈ s.pending, P handler) {before after : List (Pending σ)} {handler : Pending σ}
    (hpending : s.pending = before ++ handler :: after) :
    P handler ∧ ∀ other ∈ before ++ after, P other := by
  rw [hpending] at hs
  exact forall_mem_middle.mp hs

omit [DecidableEq κ] in
theorem AllRouted.of_pending {app : AppState κ ε σ} {s : Server κ ε σ} (hs : AllRouted app s)
    {before after : List (Pending σ)} {handler : Pending σ}
    (hpending : s.pending = before ++ handler :: after) :
    handler.Routed app ∧ ∀ other ∈ before ++ after, other.Routed app :=
  forall_pending hs hpending

theorem HandlerStep.allRouted {app : AppState κ ε σ} {drift : σ → σ → Prop} {s s' : Server κ ε σ}
    {op : HandlerOp σ} (hs : AllRouted app s) (h : HandlerStep app drift s op s') :
    AllRouted app s' := by
  cases h with
  | refused | drifted | finished => exact hs
  | asked readings req provider g h =>
      have harrival := arrive_arrival app readings req s.gateway
      rw [h] at harrival
      refine List.forall_mem_cons.mpr ⟨?_, hs⟩
      cases harrival with
      | opens provider hrouted | misses provider hrouted =>
          rw [Pending.Routed, hrouted.stream]
          exact hrouted
  | answered before readings req provider after reply g hpending => exact (hs.of_pending hpending).2
  | read before readings req provider items after hpending => exact (hs.of_pending hpending).2
  | dropped before handler after hpending => exact (hs.of_pending hpending).2
  | opened before readings req provider after items g hpending h =>
      obtain ⟨hrouted, hothers⟩ := hs.of_pending hpending
      have hresumption := resume_resumption app readings provider req s.gateway
      rw [h] at hresumption
      have hstreaming : (Pending.streaming readings req provider items).Routed app := by
        cases hresumption with
        | streams items upstream hstream =>
            rw [Pending.Routed, hstream] at hrouted
            exact hrouted
      exact forall_mem_middle.mpr ⟨hstreaming, hothers⟩

theorem allRouted_of_run {app : AppState κ ε σ} {drift : σ → σ → Prop} {upstream : σ}
    {cache : Option (TieredCache κ ε UnifiedResponse)} {s : Server κ ε σ}
    {steps : List (Transition (Server κ ε σ) (HandlerOp σ))}
    (run : Run (HandlerStep app drift) (unvisited upstream cache) steps s) : AllRouted app s := by
  apply run.invariant_of_history (I := fun _ s => AllRouted app s)
  · simp [AllRouted, unvisited]
  · exact fun _ hs h => h.allRouted hs

/-- What a step does to the state that the handlers share. -/
inductive Move (app : AppState κ ε σ) (drift : σ → σ → Prop) (g : GatewayState κ ε σ) :
    HandlerOp σ → GatewayState κ ε σ → Prop
  | arrive (readings : Readings) (req : ChatCompletionRequest)
      (progress : Progress (Provider σ) (GatewayState κ ε σ))
      (h : Arrival app readings req g progress) :
      Move app drift g (.arrive readings req progress.reply) progress.state
  | resume (readings : Readings) (req : ChatCompletionRequest) (provider : Provider σ)
      (hrouted : Routed app req provider (req.stream.getD false))
      (progress : Progress (List (Except Error StreamChunk)) (GatewayState κ ε σ))
      (h : Resumption app readings provider req g progress) :
      Move app drift g (.resume readings req progress.reply) progress.state
  | read (readings : Readings) (req : ChatCompletionRequest) (provider : Provider σ)
      (items : List (Except Error StreamChunk)) :
      Move app drift g (.read readings req (readStream readings provider req items g).1)
        (readStream readings provider req items g).2
  | drop (handler : Pending σ) : Move app drift g (.drop handler) g
  | drift (upstream : σ) (h : drift g.upstream upstream) :
      Move app drift g .drift { g with upstream := upstream }
  | finish (before : List CostEvent) (event : CostEvent) (after : List CostEvent)
      (htasks : g.tasks = before ++ event :: after) :
      Move app drift g (.finish event)
        { g with
          tasks := before ++ after
          eventStore := recordCostEvent event g.eventStore }

theorem HandlerStep.move {app : AppState κ ε σ} {drift : σ → σ → Prop} {s s' : Server κ ε σ}
    {op : HandlerOp σ} (hs : AllRouted app s) (h : HandlerStep app drift s op s') :
    Move app drift s.gateway op s'.gateway := by
  cases h with
  | refused readings req reply g h =>
      have harrival := arrive_arrival app readings req s.gateway
      rw [h] at harrival
      exact .arrive readings req _ harrival
  | asked readings req provider g h =>
      have harrival := arrive_arrival app readings req s.gateway
      rw [h] at harrival
      exact .arrive readings req _ harrival
  | answered before readings req provider after reply g hpending h =>
      have hresumption := resume_resumption app readings provider req s.gateway
      rw [h] at hresumption
      exact .resume readings req provider (hs.of_pending hpending).1 _ hresumption
  | opened before readings req provider after items g hpending h =>
      have hresumption := resume_resumption app readings provider req s.gateway
      rw [h] at hresumption
      exact .resume readings req provider (hs.of_pending hpending).1 _ hresumption
  | read before readings req provider items => exact .read readings req provider items
  | dropped before handler => exact .drop handler
  | drifted upstream h => exact .drift upstream h
  | finished before event after htasks => exact .finish before event after htasks

/-! ### Every request is accounted for -/

namespace HandlerOp

def isArrival : HandlerOp σ → Bool
  | .arrive _ _ _ => true
  | .resume _ _ _ | .read _ _ _ | .drop _ | .drift | .finish _ => false

def isDrop : HandlerOp σ → Bool
  | .drop _ => true
  | .arrive _ _ _ | .resume _ _ _ | .read _ _ _ | .drift | .finish _ => false

end HandlerOp

def repliesOf (steps : List (Transition (Server κ ε σ) (HandlerOp σ))) : List Reply :=
  steps.filterMap fun t => t.label.reply

def arrivals (steps : List (Transition (Server κ ε σ) (HandlerOp σ))) : ℕ :=
  steps.countP fun t => t.label.isArrival

def drops (steps : List (Transition (Server κ ε σ) (HandlerOp σ))) : ℕ :=
  steps.countP fun t => t.label.isDrop

/-- Each request that came in has got its reply, or was dropped, or is being handled; and the
counters say how many came in and how many failed. -/
structure Accounted (steps : List (Transition (Server κ ε σ) (HandlerOp σ))) (s : Server κ ε σ) :
    Prop where
  requests : arrivals steps = (repliesOf steps).length + drops steps + s.pending.length
  requestCount : s.gateway.requestCount = BitVec.ofNat 64 (arrivals steps)
  errorCount : s.gateway.errorCount =
    BitVec.ofNat 64 ((repliesOf steps).countP Reply.isServerError)

section

variable {app : AppState κ ε σ} {drift : σ → σ → Prop} {s s' : Server κ ε σ} {op : HandlerOp σ}

omit [DecidableEq κ] in
theorem repliesOf_cons (t : Transition (Server κ ε σ) (HandlerOp σ))
    (steps : List (Transition (Server κ ε σ) (HandlerOp σ))) :
    repliesOf (t :: steps) = t.label.reply.toList ++ repliesOf steps := by
  rw [repliesOf, List.filterMap_cons]
  cases t.label.reply <;> rfl

omit [DecidableEq κ] in
theorem arrivals_cons (t : Transition (Server κ ε σ) (HandlerOp σ))
    (steps : List (Transition (Server κ ε σ) (HandlerOp σ))) :
    arrivals (t :: steps) = arrivals steps + t.label.isArrival.toNat := by
  rw [arrivals, List.countP_cons]
  cases t.label.isArrival <;> rfl

omit [DecidableEq κ] in
theorem drops_cons (t : Transition (Server κ ε σ) (HandlerOp σ))
    (steps : List (Transition (Server κ ε σ) (HandlerOp σ))) :
    drops (t :: steps) = drops steps + t.label.isDrop.toNat := by
  rw [drops, List.countP_cons]
  cases t.label.isDrop <;> rfl

/-- A step moves a request from one place to the next. -/
theorem HandlerStep.pending_eq (h : HandlerStep app drift s op s') :
    s'.pending.length + op.reply.toList.length + op.isDrop.toNat =
      s.pending.length + op.isArrival.toNat := by
  cases h with
  | refused | asked | drifted | finished => rfl
  | answered before readings req provider after reply g hpending h =>
      rw [hpending, List.length_append, List.length_append, List.length_cons]
      rfl
  | opened before readings req provider after items g hpending h =>
      rw [hpending, List.length_append, List.length_append, List.length_cons]
      rfl
  | read before readings req provider items after hpending =>
      rw [hpending, List.length_append, List.length_append, List.length_cons]
      rfl
  | dropped before handler after hpending =>
      rw [hpending, List.length_append, List.length_append, List.length_cons]
      rfl

theorem Resumption.counts {readings : Readings} {provider : Provider σ}
    {req : ChatCompletionRequest} {g : GatewayState κ ε σ}
    {progress : Progress (List (Except Error StreamChunk)) (GatewayState κ ε σ)}
    (h : Resumption app readings provider req g progress) :
    progress.state.requestCount = g.requestCount ∧
      progress.state.errorCount =
        g.errorCount + BitVec.ofNat 64 (progress.reply.toList.countP Reply.isServerError) := by
  cases h with
  | streamFailed | failed => exact ⟨rfl, rfl⟩
  | streams | completed => exact ⟨rfl, (BitVec.add_zero _).symm⟩

theorem Arrival.counts {readings : Readings} {req : ChatCompletionRequest} {g : GatewayState κ ε σ}
    {progress : Progress (Provider σ) (GatewayState κ ε σ)}
    (h : Arrival app readings req g progress) :
    progress.state.requestCount = g.requestCount + 1 ∧
      progress.state.errorCount =
        g.errorCount + BitVec.ofNat 64 (progress.reply.toList.countP Reply.isServerError) := by
  cases h with
  | invalid | unknown | hit | opens | misses => exact ⟨rfl, (BitVec.add_zero _).symm⟩

/-- The counters move with the requests that arrive and the replies that are errors. -/
theorem Move.counts {g g' : GatewayState κ ε σ} (h : Move app drift g op g') :
    g'.requestCount = g.requestCount + BitVec.ofNat 64 op.isArrival.toNat ∧
      g'.errorCount =
        g.errorCount + BitVec.ofNat 64 (op.reply.toList.countP Reply.isServerError) := by
  cases h with
  | arrive readings req progress h => exact h.counts
  | resume readings req provider hrouted progress h =>
      exact ⟨h.counts.1.trans (BitVec.add_zero _).symm, h.counts.2⟩
  | read | drop | drift | finish => exact ⟨(BitVec.add_zero _).symm, (BitVec.add_zero _).symm⟩

theorem Accounted.step {steps : List (Transition (Server κ ε σ) (HandlerOp σ))}
    (hs : Accounted steps s) (hrouted : AllRouted app s) (h : HandlerStep app drift s op s') :
    Accounted (⟨s, op, s'⟩ :: steps) s' := by
  have hpending := h.pending_eq
  obtain ⟨hrequests, herrors⟩ := (h.move hrouted).counts
  refine ⟨?_, ?_, ?_⟩
  · rw [arrivals_cons, drops_cons, repliesOf_cons, List.length_append, hs.requests]
    dsimp only
    omega
  · rw [hrequests, hs.requestCount, arrivals_cons, BitVec.ofNat_add]
  · rw [herrors, hs.errorCount, repliesOf_cons, List.countP_append, BitVec.ofNat_add,
      BitVec.add_comm]

/-- However the handlers take turns, every request that came in has got one reply, or was dropped,
or is still being handled; and the counters, as `u64`s, say how many came in and how many got an
error of the server. -/
theorem requests_accounted (upstream : σ) (cache : Option (TieredCache κ ε UnifiedResponse))
    {steps : List (Transition (Server κ ε σ) (HandlerOp σ))}
    (run : Run (HandlerStep app drift) (unvisited upstream cache) steps s) :
    arrivals steps = (repliesOf steps).length + drops steps + s.pending.length ∧
      s.gateway.requestCount = BitVec.ofNat 64 (arrivals steps) ∧
      s.gateway.errorCount =
        BitVec.ofNat 64 ((repliesOf steps).countP Reply.isServerError) := by
  have h : Accounted steps s := by
    apply run.invariant_of_history (I := Accounted)
    · exact ⟨rfl, rfl, rfl⟩
    · exact fun before hs h => hs.step (allRouted_of_run before) h
  exact ⟨h.requests, h.requestCount, h.errorCount⟩

end

def dear : Provider Unit := (oneProvider dearResponse).providers.head (List.cons_ne_nil _ _)

theorem routed_ask : Routed (oneProvider dearResponse) ask dear false :=
  ⟨by decide +kernel, AppState.findProvider_of_unique rfl, rfl⟩

def asking : Server Unit Unit Unit :=
  ⟨(arrive (oneProvider dearResponse) atStart ask (unvisited () none).gateway).state,
    [.waiting atStart ask dear]⟩

def leaving : List (Transition (Server Unit Unit Unit) (HandlerOp Unit)) :=
  [⟨asking, .drop (.waiting atStart ask dear), ⟨asking.gateway, []⟩⟩,
    ⟨unvisited () none, .arrive atStart ask none, asking⟩]

theorem requests_accounted_leaving :
    arrivals leaving = (repliesOf leaving).length + drops leaving + 0 ∧
      asking.gateway.requestCount = BitVec.ofNat 64 (arrivals leaving) ∧
      asking.gateway.errorCount =
        BitVec.ofNat 64 ((repliesOf leaving).countP Reply.isServerError) := by
  have harrive : arrive (oneProvider dearResponse) atStart ask
      (unvisited () none : Server Unit Unit Unit).gateway = .waits dear asking.gateway := by
    rw [asking, arrive_of_miss atStart routed_ask rfl]
    rfl
  have run : Run (HandlerStep (oneProvider dearResponse) Eq) (unvisited () none) leaving _ :=
    .snoc (.snoc .nil (.asked _ atStart ask dear _ harrive)) (.dropped asking [] _ [] rfl)
  exact requests_accounted () none run

end NeuRust.Gateway
