import NeuRust.Cache.TieredCache
import NeuRust.Observability.BudgetManager
import NeuRust.Pipeline.Execute
import NeuRust.Router.AuctionRuns
import NeuRust.Router.LoadBalancer
import NeuRust.Security.PiiMasker

/-!
The layers of the repository, each over a part of one state. A layer reads from its part what it
gets from outside as well: the clock, or what a generator draws.
-/

namespace NeuRust

variable {σ τ : Type*}

/-! ### Parts of a state -/

structure Part (σ τ : Type*) where
  get : σ → τ
  set : τ → σ → σ

/-- The layer, over a state that its own is a part of. -/
def PipelineLayer.over (part : Part σ τ) (layer : PipelineLayer τ) : PipelineLayer σ where
  name := layer.name
  onRequest request s :=
    let pass := layer.onRequest request (part.get s)
    ⟨pass.result, pass.value, part.set pass.state s⟩
  onResponse request response s :=
    let pass := layer.onResponse request response (part.get s)
    ⟨pass.result, pass.value, part.set pass.state s⟩

/-! ### The masker -/

def UnifiedRequest.withContents (contents : List Str) (request : UnifiedRequest) :
    UnifiedRequest :=
  { request with
    messages := List.zipWith Message.mk (request.messages.map Message.role) contents
    messages_lt := by
      have hlt := request.messages_lt
      rw [List.length_zipWith, List.length_map]
      omega }

namespace Security

inductive Direction where
  | request
  | response
  | bidirectional
  deriving DecidableEq

def maskContents (table : CharTable) (messages : List Message) : Checked (List Str) :=
  (messages.map Message.content).mapM (maskText table)

/-- A panic ends the request as a failure does. -/
def panicked (_ : Panic) : Error := .msg "panicked".toList

namespace PiiMasker

def onRequest (table : CharTable) (direction : Direction) (request : UnifiedRequest) :
    Except Error Unit × UnifiedRequest :=
  if direction = .response then (.ok (), request)
  else
    match maskContents table request.messages with
    | .ok contents => (.ok (), request.withContents contents)
    | .error p => (.error (panicked p), request)

def onResponse (table : CharTable) (direction : Direction) (response : UnifiedResponse) :
    Except Error Unit × UnifiedResponse :=
  if direction = .request then (.ok (), response)
  else
    match maskText table response.content with
    | .ok masked => (.ok (), { response with content := masked })
    | .error p => (.error (panicked p), response)

def layer (table : CharTable) (direction : Direction) : PipelineLayer Unit where
  name := "pii-masker".toList
  onRequest request _ :=
    let (result, request) := onRequest table direction request
    ⟨result, request, ()⟩
  onResponse _ response _ :=
    let (result, response) := onResponse table direction response
    ⟨result, response, ()⟩

end PiiMasker

end Security

/-! ### The other layers -/

/-- `impl PipelineLayer for CostTracker`, with the clock and the store. -/
def Observability.CostTracker.layer (recordCost : CostEvent → τ → Except Error Unit × τ) :
    PipelineLayer (BitVec 64 × τ) where
  name := "cost-tracker".toList
  onResponse request response s :=
    let (result, store) := recordCost (costEvent s.1 request response) s.2
    ⟨result, response, (s.1, store)⟩

/-- `impl PipelineLayer for TieredCache`, with the clock. A request is not looked up here. -/
def Cache.TieredCache.layer {κ ε : Type*} [DecidableEq κ] (hasher : List UInt8 → κ)
    (model : EmbeddingModel ε) : PipelineLayer (ℕ × TieredCache κ ε UnifiedResponse) where
  name := "tiered-cache".toList
  onResponse request response s :=
    ⟨.ok (), response, (s.1, s.2.store hasher model s.1 request response)⟩

def Router.LearningAuctioneer.passRequest {K : Type*} (request : UnifiedRequest)
    (s : (ℚ × ℚ) × LearningAuctioneer K) :
    Pass Unit UnifiedRequest ((ℚ × ℚ) × LearningAuctioneer K) :=
  match s.2.onRequest s.1.1 s.1.2 request with
  | .ok request => ⟨.ok (), request, s⟩
  | .error e => ⟨.error e, request, s⟩

def Router.LearningAuctioneer.layer {K : Type*} [Field K] [LinearOrder K] :
    PipelineLayer ((ℚ × ℚ) × LearningAuctioneer K) where
  name := "cost-auctioneer".toList
  onRequest := passRequest
  onResponse request response s := ⟨.ok (), response, (s.1, s.2.onResponse request response)⟩

inductive RepositoryLayer (table : Security.CharTable) : PipelineLayer σ → Prop
  | budgetManager (part : Part σ Observability.BudgetManager) :
      RepositoryLayer table (Observability.BudgetManager.layer.over part)
  | costTracker {τ : Type} (recordCost : CostEvent → τ → Except Error Unit × τ)
      (part : Part σ (BitVec 64 × τ)) :
      RepositoryLayer table ((Observability.CostTracker.layer recordCost).over part)
  | loadBalancer (providers : ProviderRegistry σ) (part : Part σ (BitVec 64)) :
      RepositoryLayer table ((Router.LoadBalancer.layer providers).over part)
  | tieredCache {κ ε : Type} [DecidableEq κ] (hasher : List UInt8 → κ)
      (model : Cache.EmbeddingModel ε) (part : Part σ (ℕ × Cache.TieredCache κ ε UnifiedResponse)) :
      RepositoryLayer table ((Cache.TieredCache.layer hasher model).over part)
  | costAuctioneer {K : Type} [Field K] [LinearOrder K]
      (part : Part σ ((ℚ × ℚ) × Router.LearningAuctioneer K)) :
      RepositoryLayer table (Router.LearningAuctioneer.layer.over part)
  | piiMasker (direction : Security.Direction) (part : Part σ Unit) :
      RepositoryLayer table ((Security.PiiMasker.layer table direction).over part)

end NeuRust
