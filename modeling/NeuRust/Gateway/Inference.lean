import NeuRust.Gateway.StreamBody
import NeuRust.Provider.Registry
import NeuRust.Cache.TieredCache

/-!
`POST /v1/chat/completions`. A request that passes the checks goes to a provider of its model,
after a look into the cache if it is not to be streamed. Readings of clocks and fresh ids are given
with the request. A spawned task is a cost event that waits to be stored.
-/

namespace NeuRust

/-! ### Comparing floats -/

namespace F64

/-- The exponent is all ones and the fraction is not zero. -/
def isNan (x : F64) : Bool := decide (0x7FF0000000000000 < x.bits &&& 0x7FFFFFFFFFFFFFFF)

/-- A number that orders all floats but the NaNs as their values do. Both zeros give `0`. -/
def rank (x : F64) : ℤ :=
  let magnitude : ℤ := (x.bits &&& 0x7FFFFFFFFFFFFFFF).toNat
  if x.bits.msb then -magnitude else magnitude

/-- `<=` -/
def le (x y : F64) : Bool := !x.isNan && !y.isNan && decide (x.rank ≤ y.rank)

def zero : F64 := ⟨0⟩

def two : F64 := ⟨0x4000000000000000⟩

end F64

namespace Gateway

open Cache

variable {κ ε σ : Type*} [DecidableEq κ]

/-! ### Requests and answers -/

structure OpenAiMessage where
  role : Str
  content : Str
  deriving DecidableEq

structure ChatCompletionRequest where
  model : Str
  messages : List OpenAiMessage
  temperature : Option F64
  maxTokens : Option (BitVec 32)
  stream : Option Bool
  extra : Table Str Json := ∅
  messages_lt : messages.length < 2 ^ 64 := by decide

structure Choice where
  index : BitVec 32
  message : OpenAiMessage
  finishReason : Str
  deriving DecidableEq

structure ChatCompletionResponse where
  id : Str
  object : Str
  created : BitVec 64
  model : Str
  choices : List Choice
  usage : UsageResponse
  deriving DecidableEq

/-- What the handler answers. A stream is read to its end. -/
inductive Reply where
  | completion (body : ChatCompletionResponse)
  | stream (events : List SseData)
  | error (status : ℕ) (detail : ErrorDetail)
  deriving DecidableEq

def parseRole (s : Str) : Role :=
  if s = "system".toList then .system
  else if s = "assistant".toList then .assistant
  else .user

def toUnifiedRequest (req : ChatCompletionRequest) : UnifiedRequest where
  model := ⟨req.model, none⟩
  messages := req.messages.map fun m => ⟨parseRole m.role, m.content⟩
  temperature := req.temperature
  maxTokens := req.maxTokens
  stream := req.stream.getD false
  context := {}
  extraParams := req.extra
  messages_lt := by
    rw [List.length_map]
    exact req.messages_lt

def validationError (req : ChatCompletionRequest) : Option Str :=
  if req.messages = [] then some "messages must be a non-empty array".toList
  else if req.temperature.any fun t => !(F64.zero.le t && t.le F64.two) then
    some "temperature must be between 0 and 2".toList
  else if req.maxTokens = some 0 then some "max_tokens must be greater than 0".toList
  else none

def noSuchModel (model : Str) : Str :=
  "The model '".toList ++ model ++
    "' does not exist. Check /v1/models for available models.".toList

/-! ### State -/

/-- What does not change between two requests. -/
structure AppState (κ ε σ : Type*) where
  providers : List (Provider σ)
  config : List ProviderConfig
  hasher : List UInt8 → κ
  embedding : EmbeddingModel ε

structure GatewayState (κ ε σ : Type*) where
  upstream : σ
  cache : Option (TieredCache κ ε UnifiedResponse)
  bus : List GatewayEvent := []
  /-- The cost events whose tasks have been spawned and have not run. -/
  tasks : List CostEvent := []
  eventStore : List CostEvent := []
  requestCount : BitVec 64 := 0
  errorCount : BitVec 64 := 0

/-- What is read from clocks and from the source of ids while a request is handled. -/
structure Readings where
  lookupAt : ℕ
  storeAt : ℕ
  cacheHitMs : BitVec 64
  costMs : BitVec 64
  completedMs : BitVec 64
  latencyMs : BitVec 64
  completionId : Str
  created : BitVec 64

namespace AppState

/-- The priorities by provider id. A later entry for an id replaces an earlier one. -/
def priorityMap (app : AppState κ ε σ) : Table Str (BitVec 32) :=
  app.config.foldl (fun map p => map.insert p.id (p.priority.getD (.allOnes 32))) ∅

def priority (app : AppState κ ε σ) (provider : Provider σ) : BitVec 32 :=
  (app.priorityMap.lookup provider.name).getD (.allOnes 32)

/-- The provider of the model with the least priority, the first one among equals. -/
def findProvider (app : AppState κ ε σ) (model : Str) : Option (Provider σ) :=
  let candidates := app.providers.filter fun p => p.Supports model
  (candidates.mergeSort fun p q => decide (app.priority p ≤ app.priority q)).head?

omit [DecidableEq κ] in
theorem supports_of_findProvider {app : AppState κ ε σ} {model : Str} {provider : Provider σ}
    (h : app.findProvider model = some provider) :
    provider ∈ app.providers ∧ provider.Supports model := by
  have hmem := List.mem_of_head? h
  rw [List.mem_mergeSort, List.mem_filter, decide_eq_true_eq] at hmem
  exact hmem

omit [DecidableEq κ] in
theorem findProvider_of_unique {app : AppState κ ε σ} {model : Str} {provider : Provider σ}
    (h : (app.providers.filter fun p => p.Supports model) = [provider]) :
    app.findProvider model = some provider := by
  rw [findProvider, h, List.mergeSort_singleton]
  rfl

end AppState

/-! ### Handlers -/

def completionResponse (readings : Readings) (response : UnifiedResponse) :
    ChatCompletionResponse where
  id := readings.completionId
  object := "chat.completion".toList
  created := readings.created
  model := response.model
  choices := [⟨0, ⟨"assistant".toList, response.content⟩, "stop".toList⟩]
  usage := usageResponse response.usage

/-- The cost event of a completion. Its cost is left to the cost tracker. -/
def completionCostEvent (readings : Readings) (response : UnifiedResponse) : CostEvent where
  timestampMs := readings.costMs
  providerId := response.providerId
  model := response.model
  promptTokens := response.usage.promptTokens
  completionTokens := response.usage.completionTokens
  costUsd := 0
  latencyMs := response.latencyMs
  cached := false

def handleComplete (app : AppState κ ε σ) (readings : Readings) (provider : Provider σ)
    (request : UnifiedRequest) (s : GatewayState κ ε σ) :
    Except Error ChatCompletionResponse × GatewayState κ ε σ :=
  match provider.complete request s.upstream with
  | (.error e, upstream) => (.error e, { s with upstream := upstream })
  | (.ok response, upstream) =>
      (.ok (completionResponse readings response),
        { s with
          upstream := upstream
          cache := s.cache.map (·.store app.hasher app.embedding readings.storeAt request response)
          tasks := s.tasks ++ [completionCostEvent readings response]
          bus := s.bus ++ [⟨readings.completedMs, .requestCompleted response.providerId
            response.model response.latencyMs response.usage false⟩] })

def handleStream (readings : Readings) (provider : Provider σ) (request : UnifiedRequest)
    (s : GatewayState κ ε σ) : Except Error (List SseData) × GatewayState κ ε σ :=
  match provider.completeStream request s.upstream with
  | (.error e, upstream) => (.error e, { s with upstream := upstream })
  | (.ok items, upstream) =>
      let body := streamBody {
        completionId := readings.completionId
        created := readings.created
        model := request.model.modelName
        providerName := provider.name
        finishedMs := readings.completedMs
        latencyMs := readings.latencyMs } items
      (.ok body.1, { s with upstream := upstream, bus := s.bus ++ body.2 })

def lookupCache (app : AppState κ ε σ) (readings : Readings) (request : UnifiedRequest)
    (s : GatewayState κ ε σ) : Option UnifiedResponse × GatewayState κ ε σ :=
  match s.cache with
  | none => (none, s)
  | some cache =>
      let (found, cache) := cache.lookup app.hasher app.embedding readings.lookupAt request
      (found, { s with cache := some cache })

def invalidRequest (message : Str) : Reply :=
  .error 400 { message := message, type := "invalid_request_error".toList }

def serverError (message : Str) : Reply :=
  .error 500 { message := message, type := "server_error".toList }

def GatewayState.countError (s : GatewayState κ ε σ) : GatewayState κ ε σ :=
  { s with errorCount := s.errorCount + 1 }

/-- The second half of `chat_completions`, once a provider is known. -/
def answer (app : AppState κ ε σ) (readings : Readings) (provider : Provider σ)
    (req : ChatCompletionRequest) (s : GatewayState κ ε σ) : Reply × GatewayState κ ε σ :=
  let request := toUnifiedRequest req
  if req.stream.getD false then
    match handleStream readings provider request s with
    | (.ok events, s) => (.stream events, s)
    | (.error e, s) => (serverError ("Streaming error: ".toList ++ e.display), s.countError)
  else
    match lookupCache app readings request s with
    | (some response, s) =>
        (.completion (completionResponse readings response),
          { s with
            bus := s.bus ++ [⟨readings.cacheHitMs, .cacheHit "tiered".toList req.model⟩] })
    | (none, s) =>
        match handleComplete app readings provider request s with
        | (.ok response, s) => (.completion response, s)
        | (.error e, s) => (serverError ("Completion error: ".toList ++ e.display), s.countError)

def chatCompletions (app : AppState κ ε σ) (readings : Readings) (req : ChatCompletionRequest)
    (s : GatewayState κ ε σ) : Reply × GatewayState κ ε σ :=
  let s := { s with requestCount := s.requestCount + 1 }
  match validationError req with
  | some message => (invalidRequest message, s)
  | none =>
      match app.findProvider req.model with
      | none => (invalidRequest (noSuchModel req.model), s)
      | some provider => answer app readings provider req s

end Gateway

end NeuRust
