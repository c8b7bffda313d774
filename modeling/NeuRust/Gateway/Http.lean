import NeuRust.Gateway.Auth
import NeuRust.Gateway.ProviderChoice
import NeuRust.Gateway.Spend
import NeuRust.Provider.Health

/-!
The HTTP side of the gateway: the routes, the middleware that asks for an API key, and around it
the one that gives every request an id. The framework finds the route and reads the body; what it
answers by itself, to an unknown path or a body that does not parse, is its own.
-/

namespace NeuRust.Gateway

open Utf8

/-! ### Headers -/

def isHeaderByte (b : UInt8) : Bool := (decide (32 ≤ b.toNat) && decide (b.toNat ≠ 127)) || b == 9

/-- A byte that `to_str` lets through. -/
def isVisibleAscii (b : UInt8) : Bool := (decide (32 ≤ b.toNat) && decide (b.toNat < 127)) || b == 9

structure HeaderValue where
  bytes : List UInt8
  valid : bytes.all isHeaderByte = true

namespace HeaderValue

def toStr (value : HeaderValue) : Option Str :=
  if value.bytes.all isVisibleAscii then some (value.bytes.map Char.ofUInt8) else none

def fromStr (s : Str) : Option HeaderValue :=
  if h : (encode s).all isHeaderByte = true then some ⟨encode s, h⟩ else none

end HeaderValue

abbrev HeaderMap := List (Str × HeaderValue)

namespace HeaderMap

/-- The first value under a name. Names are in lower case. -/
def get (headers : HeaderMap) (name : Str) : Option HeaderValue :=
  (headers.find? fun header => header.1 = name).map Prod.snd

def insert (name : Str) (value : HeaderValue) (headers : HeaderMap) : HeaderMap :=
  (headers.filter fun header => header.1 ≠ name) ++ [(name, value)]

def text (headers : HeaderMap) (name : Str) : Option Str :=
  (headers.get name).bind HeaderValue.toStr

end HeaderMap

/-! ### Requests and responses -/

inductive Route where
  | chatCompletions
  | liveness
  | readiness
  | metrics
  | listModels
  deriving DecidableEq

def Route.path : Route → Str
  | .chatCompletions => "/v1/chat/completions".toList
  | .liveness => "/health/live".toList
  | .readiness => "/health/ready".toList
  | .metrics => "/metrics".toList
  | .listModels => "/v1/models".toList

structure ClientIdentity where
  name : Str
  rateLimit : Option (BitVec 32)
  deriving DecidableEq

/-- A request whose route is known, with what the middleware attaches to it. -/
structure HttpRequest where
  route : Route
  headers : HeaderMap
  body : List UInt8
  requestId : Option Str := none
  client : Option ClientIdentity := none

/-- A body that the framework turns down: the status and the text of its answer. -/
structure JsonRejection where
  status : ℕ
  text : Str

structure AuthErrorDetail where
  message : Str
  type : Str
  deriving DecidableEq

structure ProviderStatus where
  name : Str
  status : Str
  latencyMs : BitVec 64
  error : Option Str

structure ReadinessResponse where
  status : Str
  providers : List ProviderStatus

structure ModelObject where
  id : Str
  object : Str
  created : BitVec 64
  ownedBy : Str

structure ModelsResponse where
  object : Str
  data : List ModelObject

inductive ResponseBody where
  | chat (reply : Reply)
  | rejection (rejection : JsonRejection)
  | unauthorized (error : AuthErrorDetail)
  | live (status : Str)
  | ready (response : ReadinessResponse)
  | metrics (text : Str)
  | models (response : ModelsResponse)

structure HttpResponse where
  status : ℕ
  headers : HeaderMap
  body : ResponseBody

/-- The gateway with its keys, and the part of the framework that reads a body. -/
structure HttpApp (κ ε σ : Type*) extends AppState κ ε σ where
  auth : Option AuthConfig
  parseBody : HeaderMap → List UInt8 → Except JsonRejection ChatCompletionRequest

/-- What a request finds: the readings of its handler, the health of the providers, a fresh id. -/
structure Surroundings (σ : Type*) where
  readings : Readings
  health : Provider σ → ProviderHealth
  freshId : Str

abbrev Handler (κ ε σ : Type*) :=
  HttpRequest → GatewayState κ ε σ → HttpResponse × GatewayState κ ε σ

variable {κ ε σ : Type*}

/-! ### Handlers -/

def Reply.status : Reply → ℕ
  | .completion _ => 200
  | .stream _ => 200
  | .error status _ => status

def AppState.allModels (app : AppState κ ε σ) : List (Str × Str) :=
  app.providers.flatMap fun p => p.supportedModels.map fun m => (m, p.name)

def listModels (app : AppState κ ε σ) : HttpResponse where
  status := 200
  headers := []
  body := .models {
    object := "list".toList
    data := app.allModels.map fun m => ⟨m.1, "model".toList, 0, m.2⟩ }

def liveness : HttpResponse := ⟨200, [], .live "ok".toList⟩

def readiness (app : AppState κ ε σ) (health : Provider σ → ProviderHealth) : HttpResponse :=
  let results := app.providers.map fun p => (p.name, health p)
  let anyHealthy := results.any fun result => decide (result.2.status = .healthy)
  { status := if anyHealthy then 200 else 503
    headers := []
    body := .ready {
      status := if anyHealthy then "ready".toList else "not_ready".toList
      providers := results.map fun result =>
        ⟨result.1, result.2.status.display, result.2.latencyMs, result.2.error⟩ } }

def decimal (n : ℕ) : Str := n.repr.toList

def metricsText (requestCount errorCount : BitVec 64) (providerCount : ℕ) : Str :=
  "# HELP neurust_requests_total Total number of requests processed.\n".toList ++
  "# TYPE neurust_requests_total counter\n".toList ++
  "neurust_requests_total ".toList ++ decimal requestCount.toNat ++ "\n\n".toList ++
  "# HELP neurust_errors_total Total number of errors.\n".toList ++
  "# TYPE neurust_errors_total counter\n".toList ++
  "neurust_errors_total ".toList ++ decimal errorCount.toNat ++ "\n\n".toList ++
  "# HELP neurust_providers_registered Number of registered providers.\n".toList ++
  "# TYPE neurust_providers_registered gauge\n".toList ++
  "neurust_providers_registered ".toList ++ decimal providerCount ++ "\n".toList

def contentType : HeaderMap :=
  ((HeaderValue.fromStr "text/plain; version=0.0.4; charset=utf-8".toList).map
    (Prod.mk "content-type".toList)).toList

def metrics (app : AppState κ ε σ) (s : GatewayState κ ε σ) : HttpResponse where
  status := 200
  headers := contentType
  body := .metrics (metricsText s.requestCount s.errorCount app.providers.length)

def handleRoute [DecidableEq κ] (app : HttpApp κ ε σ) (around : Surroundings σ) :
    Handler κ ε σ := fun req s =>
  match req.route with
  | .chatCompletions =>
      match app.parseBody req.headers req.body with
      | .error rejection => (⟨rejection.status, [], .rejection rejection⟩, s)
      | .ok chat =>
          let (reply, s) := chatCompletions app.toAppState around.readings chat s
          (⟨reply.status, [], .chat reply⟩, s)
  | .liveness => (liveness, s)
  | .readiness => (readiness app.toAppState around.health, s)
  | .metrics => (metrics app.toAppState s, s)
  | .listModels => (listModels app.toAppState, s)

/-! ### Middleware -/

def authError (message : Str) : HttpResponse :=
  ⟨401, [], .unauthorized ⟨message, "authentication_error".toList⟩⟩

def invalidKey : Str := "Invalid API key. Check your authentication credentials.".toList

def missingKey : Str :=
  "Missing API key. Provide via 'Authorization: Bearer <key>' or 'x-api-key' header.".toList

def openPaths : List Str := ["/health/live".toList, "/health/ready".toList, "/metrics".toList]

/-- The key from the `Authorization` header or, unless that carries one, from `x-api-key`. -/
def extractToken (req : HttpRequest) : Option Str :=
  match (req.headers.text "authorization".toList).bind (stripPrefix "Bearer ".toList) with
  | some token => some (trim token)
  | none => (req.headers.text "x-api-key".toList).map trim

/-- All keys are compared; the last one that is equal is left. -/
def matchedEntry (apiKeys : List ApiKeyEntry) (token : Str) : Option ApiKeyEntry :=
  apiKeys.foldl
    (fun matched entry => if AuthManager.ctEq entry.key token then some entry else matched) none

/-- Whom the middleware lets through, or the message of the refusal. -/
def authorize (app : HttpApp κ ε σ) (req : HttpRequest) : Except Str (Option ClientIdentity) :=
  let apiKeys := configuredKeys app.auth
  if apiKeys.isEmpty then .ok none
  else if req.route.path ∈ openPaths then .ok none
  else
    match extractToken req with
    | some token =>
        match matchedEntry apiKeys token with
        | some entry => .ok (some ⟨entry.name, entry.rateLimit⟩)
        | none => .error invalidKey
    | none => .error missingKey

def authMiddleware (app : HttpApp κ ε σ) (next : Handler κ ε σ) : Handler κ ε σ := fun req s =>
  match authorize app req with
  | .ok none => next req s
  | .ok (some client) => next { req with client := some client } s
  | .error message => (authError message, s)

def requestIdOf (freshId : Str) (req : HttpRequest) : Str :=
  (req.headers.text "x-request-id".toList).getD freshId

def echoId (id : Str) (response : HttpResponse) : HttpResponse :=
  match HeaderValue.fromStr id with
  | some value => { response with headers := response.headers.insert "x-request-id".toList value }
  | none => response

def requestIdMiddleware (freshId : Str) (next : Handler κ ε σ) : Handler κ ε σ := fun req s =>
  let id := requestIdOf freshId req
  let (response, s) := next { req with requestId := some id } s
  (echoId id response, s)

/-- The middleware around the handlers, the outermost first. -/
def serve [DecidableEq κ] (app : HttpApp κ ε σ) (around : Surroundings σ) : Handler κ ε σ :=
  requestIdMiddleware around.freshId (authMiddleware app (handleRoute app around))

end NeuRust.Gateway
