import NeuRust.Gateway.Inference

/-!
The ways a chat request can end, each with what it answers and what it leaves behind. Everything
that is proved about runs of chat requests goes through these cases.
-/

namespace NeuRust.Gateway

open Cache

variable {κ ε σ : Type*} [DecidableEq κ]

def streamContext (readings : Readings) (provider : Provider σ) (req : ChatCompletionRequest) :
    StreamContext where
  completionId := readings.completionId
  created := readings.created
  model := req.model
  providerName := provider.name
  finishedMs := readings.completedMs
  latencyMs := readings.latencyMs

def cacheHitEvent (readings : Readings) (req : ChatCompletionRequest) : GatewayEvent :=
  ⟨readings.cacheHitMs, .cacheHit "tiered".toList req.model⟩

def completedEvent (readings : Readings) (response : UnifiedResponse) : GatewayEvent :=
  ⟨readings.completedMs,
    .requestCompleted response.providerId response.model response.latencyMs response.usage false⟩

def GatewayState.countRequest (s : GatewayState κ ε σ) : GatewayState κ ε σ :=
  { s with requestCount := s.requestCount + 1 }

section

variable (app : AppState κ ε σ) (readings : Readings) (req : ChatCompletionRequest)
  (s : GatewayState κ ε σ)

def cacheLookup : Option UnifiedResponse × Option (TieredCache κ ε UnifiedResponse) :=
  match s.cache with
  | none => (none, none)
  | some cache =>
      let (found, cache) :=
        cache.lookup app.hasher app.embedding readings.lookupAt (toUnifiedRequest req)
      (found, some cache)

/-- The request passes the checks and has a provider. -/
structure Routed (provider : Provider σ) (streamed : Bool) : Prop where
  valid : validationError req = none
  provider : app.findProvider req.model = some provider
  stream : req.stream.getD false = streamed

inductive Outcome : Reply × GatewayState κ ε σ → Prop
  | invalid (message : Str) (h : validationError req = some message) :
      Outcome (invalidRequest message, s.countRequest)
  | unknown (hvalid : validationError req = none) (h : app.findProvider req.model = none) :
      Outcome (invalidRequest (noSuchModel req.model), s.countRequest)
  | streamFailed (provider : Provider σ) (h : Routed app req provider true) (e : Error)
      (upstream : σ)
      (hcall : provider.completeStream (toUnifiedRequest req) s.upstream = (.error e, upstream)) :
      Outcome (serverError ("Streaming error: ".toList ++ e.display),
        { s.countRequest.countError with upstream := upstream })
  | streamed (provider : Provider σ) (h : Routed app req provider true)
      (items : List (Except Error StreamChunk)) (upstream : σ)
      (hcall : provider.completeStream (toUnifiedRequest req) s.upstream = (.ok items, upstream)) :
      Outcome (.stream (streamBody (streamContext readings provider req) items).1,
        { s.countRequest with
          upstream := upstream
          bus := s.bus ++ (streamBody (streamContext readings provider req) items).2 })
  | hit (provider : Provider σ) (h : Routed app req provider false) (response : UnifiedResponse)
      (hlookup : (cacheLookup app readings req s).1 = some response) :
      Outcome (.completion (completionResponse readings response),
        { s.countRequest with
          cache := (cacheLookup app readings req s).2
          bus := s.bus ++ [cacheHitEvent readings req] })
  | failed (provider : Provider σ) (h : Routed app req provider false) (e : Error) (upstream : σ)
      (hlookup : (cacheLookup app readings req s).1 = none)
      (hcall : provider.complete (toUnifiedRequest req) s.upstream = (.error e, upstream)) :
      Outcome (serverError ("Completion error: ".toList ++ e.display),
        { s.countRequest.countError with
          upstream := upstream
          cache := (cacheLookup app readings req s).2 })
  | completed (provider : Provider σ) (h : Routed app req provider false)
      (response : UnifiedResponse) (upstream : σ)
      (hlookup : (cacheLookup app readings req s).1 = none)
      (hcall : provider.complete (toUnifiedRequest req) s.upstream = (.ok response, upstream)) :
      Outcome (.completion (completionResponse readings response),
        { s.countRequest with
          upstream := upstream
          cache := (cacheLookup app readings req s).2.map
            (·.store app.hasher app.embedding readings.storeAt (toUnifiedRequest req) response)
          tasks := s.tasks ++ [completionCostEvent readings response]
          bus := s.bus ++ [completedEvent readings response] })

end

variable {app : AppState κ ε σ} {readings : Readings} {req : ChatCompletionRequest}
  {s : GatewayState κ ε σ}

theorem lookupCache_eq : lookupCache app readings (toUnifiedRequest req) s =
    ((cacheLookup app readings req s).1,
      { s with cache := (cacheLookup app readings req s).2 }) := by
  rw [lookupCache, cacheLookup]
  cases hcache : s.cache with
  | none =>
      cases s
      cases hcache
      rfl
  | some cache => rfl

theorem answer_outcome (provider : Provider σ) (hvalid : validationError req = none)
    (hprovider : app.findProvider req.model = some provider) :
    Outcome app readings req s (answer app readings provider req s.countRequest) := by
  rw [answer]
  cases hstream : req.stream.getD false with
  | true =>
      have hrouted : Routed app req provider true := ⟨hvalid, hprovider, hstream⟩
      rcases hcall : provider.completeStream (toUnifiedRequest req) s.upstream with
        ⟨e | items, upstream⟩
      · have hhandle : handleStream readings provider (toUnifiedRequest req) s.countRequest =
            (.error e, { s.countRequest with upstream := upstream }) := by
          rw [handleStream]
          simp only [GatewayState.countRequest, hcall]
        rw [if_pos rfl, hhandle]
        exact .streamFailed provider hrouted e upstream hcall
      · have hhandle : handleStream readings provider (toUnifiedRequest req) s.countRequest =
            (.ok (streamBody (streamContext readings provider req) items).1,
              { s.countRequest with
                upstream := upstream
                bus := s.bus ++ (streamBody (streamContext readings provider req) items).2 }) := by
          rw [handleStream]
          simp only [GatewayState.countRequest, hcall]
          rfl
        rw [if_pos rfl, hhandle]
        exact .streamed provider hrouted items upstream hcall
  | false =>
      have hrouted : Routed app req provider false := ⟨hvalid, hprovider, hstream⟩
      have hsame : cacheLookup app readings req s.countRequest =
          cacheLookup app readings req s := rfl
      rw [if_neg Bool.false_ne_true, lookupCache_eq, hsame]
      cases hlookup : (cacheLookup app readings req s).1 with
      | some response => exact .hit provider hrouted response hlookup
      | none =>
          rcases hcall : provider.complete (toUnifiedRequest req) s.upstream with
            ⟨e | response, upstream⟩
          · simp only [handleComplete, GatewayState.countRequest, hcall]
            exact .failed provider hrouted e upstream hlookup hcall
          · simp only [handleComplete, GatewayState.countRequest, hcall]
            exact .completed provider hrouted response upstream hlookup hcall

theorem chatCompletions_outcome (app : AppState κ ε σ) (readings : Readings)
    (req : ChatCompletionRequest) (s : GatewayState κ ε σ) :
    Outcome app readings req s (chatCompletions app readings req s) := by
  rw [chatCompletions]
  cases hvalid : validationError req with
  | some message => exact .invalid message hvalid
  | none =>
      cases hprovider : app.findProvider req.model with
      | none => exact .unknown hvalid hprovider
      | some provider => exact answer_outcome provider hvalid hprovider

end NeuRust.Gateway
