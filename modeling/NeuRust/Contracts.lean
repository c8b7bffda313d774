import NeuRust.Text.Utf8
import NeuRust.Machine.Table
import Mathlib.Data.Rat.Defs
import Mathlib.Algebra.Order.Ring.Unbundled.Rat

/-!
The shared types of requests, responses, stream chunks and cost events, and the two projections of
a request's messages that the caches and the providers use. An `f64` is its 64 bits where it is
only hashed, copied or compared with constants, and a rational where it is computed with.

Providers and pipeline layers act on a state of type `σ`, which holds whatever they keep between
two calls and whatever the network will answer.
-/

namespace NeuRust

/-- An `f64`, as `to_bits` shows it. -/
structure F64 where
  bits : BitVec 64
  deriving DecidableEq, Repr

/-- What an `f64` stands for. -/
inductive FloatValue where
  | nan
  | infinite (negative : Bool)
  | finite (value : ℚ)
  deriving DecidableEq

/-- The sign, eleven bits of exponent, and the fraction. -/
def F64.value (x : F64) : FloatValue :=
  let negative := x.bits.msb
  let exponent := (x.bits >>> 52 &&& 0x7FF).toNat
  let fraction := (x.bits &&& 0xFFFFFFFFFFFFF).toNat
  if exponent = 2047 then if fraction = 0 then .infinite negative else .nan
  else
    let significand := if exponent = 0 then fraction else 2 ^ 52 + fraction
    let power := if exponent = 0 then 1 else exponent
    let magnitude : ℚ := (significand * 2 ^ power : ℕ) / (2 ^ 1075 : ℕ)
    .finite (if negative then -magnitude else magnitude)

/-! ### Values and errors -/

/-- A `serde_json::Number`. -/
inductive JsonNumber where
  | posInt (n : BitVec 64)
  | negInt (n : BitVec 64)
  | float (x : F64)
  deriving DecidableEq, Repr

/-- A `serde_json::Value`. -/
inductive Json where
  | null
  | bool (b : Bool)
  | number (n : JsonNumber)
  | string (s : Str)
  | array (items : List Json)
  | object (members : List (Str × Json))

/-- `Value::as_bool` -/
def Json.asBool : Json → Option Bool
  | .bool b => some b
  | _ => none

/-- An `anyhow::Error`: its messages, the outermost context first. -/
structure Error where
  chain : List Str
  deriving DecidableEq, Repr

namespace Error

/-- `anyhow::anyhow!` -/
def msg (text : Str) : Error := ⟨[text]⟩

/-- `with_context` on an error -/
def context (text : Str) (e : Error) : Error := ⟨text :: e.chain⟩

def display (e : Error) : Str := e.chain.headD []

@[simp] theorem display_msg (text : Str) : (msg text).display = text := rfl

@[simp] theorem display_context (text : Str) (e : Error) : (e.context text).display = text := rfl

end Error

/-! ### Requests -/

inductive Role where
  | system
  | user
  | assistant
  deriving DecidableEq, Repr

structure Message where
  role : Role
  content : Str
  deriving DecidableEq, Repr

structure ModelSpec where
  modelName : Str
  providerId : Option Str
  deriving DecidableEq, Repr

structure RequestContext where
  requestType : Option Str := none
  budgetRemainingRatio : ℚ := 0
  clientId : Option Str := none
  apiKey : Option Str := none
  deriving DecidableEq

/-- A request. The messages are a `Vec`, whose length fits into 64 bits. -/
structure UnifiedRequest where
  model : ModelSpec
  messages : List Message
  temperature : Option F64
  maxTokens : Option (BitVec 32)
  stream : Bool
  context : RequestContext := {}
  extraParams : Table Str Json := ∅
  messages_lt : messages.length < 2 ^ 64 := by decide

namespace UnifiedRequest

def systemMessageText (request : UnifiedRequest) : Str :=
  ['\n'].intercalate ((request.messages.filter fun m => m.role = .system).map Message.content)

def lastUserMessage (request : UnifiedRequest) : Str :=
  ((request.messages.reverse.find? fun m => m.role = .user).map Message.content).getD []

end UnifiedRequest

/-! ### Responses -/

structure TokenUsage where
  promptTokens : BitVec 32
  completionTokens : BitVec 32
  totalTokens : BitVec 32
  deriving DecidableEq, Repr

structure UnifiedResponse where
  content : Str
  model : Str
  usage : TokenUsage
  providerId : Str
  latencyMs : BitVec 64
  upstreamId : Option Str
  deriving DecidableEq, Repr

structure StreamChunk where
  delta : Str
  finished : Bool
  usage : Option TokenUsage
  deriving DecidableEq, Repr

/-! ### Providers and layers -/

structure Provider (σ : Type*) where
  name : Str
  supportedModels : List Str
  complete : UnifiedRequest → σ → Except Error UnifiedResponse × σ
  /-- The stream, if one is opened, as the items it yields when it is read to its end. -/
  completeStream : UnifiedRequest → σ → Except Error (List (Except Error StreamChunk)) × σ

/-- `supported_models().contains(model)` -/
def Provider.Supports {σ : Type*} (provider : Provider σ) (model : Str) : Prop :=
  model ∈ provider.supportedModels

instance {σ : Type*} (provider : Provider σ) : DecidablePred provider.Supports :=
  fun model => inferInstanceAs (Decidable (model ∈ provider.supportedModels))

/-- What a call leaves behind: its result, the value it was free to rewrite, the state. -/
structure Pass (α β σ : Type*) where
  result : Except Error α
  value : β
  state : σ

structure PipelineLayer (σ : Type*) where
  name : Str
  onRequest : UnifiedRequest → σ → Pass Unit UnifiedRequest σ :=
    fun request s => ⟨.ok (), request, s⟩
  onResponse : UnifiedRequest → UnifiedResponse → σ → Pass Unit UnifiedResponse σ :=
    fun _ response s => ⟨.ok (), response, s⟩

/-! ### Cost events -/

structure CostEvent where
  timestampMs : BitVec 64
  providerId : Str
  model : Str
  promptTokens : BitVec 32
  completionTokens : BitVec 32
  costUsd : ℚ
  latencyMs : BitVec 64
  cached : Bool
  deriving DecidableEq

end NeuRust
