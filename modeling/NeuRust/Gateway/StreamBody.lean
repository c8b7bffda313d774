import NeuRust.Contracts

/-!
The body of a streamed answer: one event for each chunk up to the finished one, an error event in
its place if the stream fails first, and `[DONE]` at the end of them all. What is published on the
event bus is decided by the finished chunk alone.
-/

namespace NeuRust.Gateway

/-! ### Events -/

inductive GatewayEventType where
  | requestCompleted (providerId model : Str) (latencyMs : BitVec 64) (tokens : TokenUsage)
      (cached : Bool)
  | cacheHit (cacheTier model : Str)
  deriving DecidableEq

structure GatewayEvent where
  timestampMs : BitVec 64
  eventType : GatewayEventType
  deriving DecidableEq

def GatewayEvent.isRequestCompleted (event : GatewayEvent) : Bool :=
  match event.eventType with
  | .requestCompleted _ _ _ _ _ => true
  | .cacheHit _ _ => false

/-! ### Server-sent events -/

structure UsageResponse where
  promptTokens : BitVec 32
  completionTokens : BitVec 32
  totalTokens : BitVec 32
  deriving DecidableEq

def usageResponse (usage : TokenUsage) : UsageResponse :=
  ⟨usage.promptTokens, usage.completionTokens, usage.totalTokens⟩

structure DeltaContent where
  role : Option Str
  content : Option Str
  deriving DecidableEq

structure StreamChoice where
  index : BitVec 32
  delta : DeltaContent
  finishReason : Option Str
  deriving DecidableEq

structure StreamChunkResponse where
  id : Str
  object : Str
  created : BitVec 64
  model : Str
  choices : List StreamChoice
  usage : Option UsageResponse
  deriving DecidableEq

structure ErrorDetail where
  message : Str
  type : Str
  code : Option Str := none
  deriving DecidableEq

inductive SseData where
  | chunk (response : StreamChunkResponse)
  | error (detail : ErrorDetail)
  | done
  deriving DecidableEq

/-! ### The body -/

/-- What the body knows from the start, and the two clock readings at the finished chunk. -/
structure StreamContext where
  completionId : Str
  created : BitVec 64
  model : Str
  providerName : Str
  finishedMs : BitVec 64
  latencyMs : BitVec 64

def StreamContext.chunkResponse (ctx : StreamContext) (first : Bool) (chunk : StreamChunk) :
    StreamChunkResponse where
  id := ctx.completionId
  object := "chat.completion.chunk".toList
  created := ctx.created
  model := ctx.model
  choices := [{
    index := 0
    delta := {
      role := if first then some "assistant".toList else none
      content := if chunk.delta = [] then none else some chunk.delta }
    finishReason := if chunk.finished then some "stop".toList else none }]
  usage := chunk.usage.map usageResponse

def StreamContext.completedEvent (ctx : StreamContext) (usage : TokenUsage) : GatewayEvent where
  timestampMs := ctx.finishedMs
  eventType := .requestCompleted ctx.providerName ctx.model ctx.latencyMs usage false

/-- What the finished chunk publishes: nothing if it carries no usage. -/
def StreamContext.published (ctx : StreamContext) (chunk : StreamChunk) : List GatewayEvent :=
  match chunk.usage with
  | some usage => [ctx.completedEvent usage]
  | none => []

def streamError (e : Error) : ErrorDetail :=
  { message := "Stream error: ".toList ++ e.display, type := "server_error".toList }

/-- The loop over the items of the stream: the events sent, and those published. -/
def streamLoop (ctx : StreamContext) (first : Bool) :
    List (Except Error StreamChunk) → List SseData × List GatewayEvent
  | [] => ([], [])
  | .error e :: _ => ([.error (streamError e)], [])
  | .ok chunk :: items =>
      let sent := SseData.chunk (ctx.chunkResponse first chunk)
      if chunk.finished then ([sent], ctx.published chunk)
      else
        let rest := streamLoop ctx false items
        (sent :: rest.1, rest.2)

/-- The stream that `handle_stream` returns, read to its end. -/
def streamBody (ctx : StreamContext) (items : List (Except Error StreamChunk)) :
    List SseData × List GatewayEvent :=
  let loop := streamLoop ctx true items
  (loop.1 ++ [.done], loop.2)

/-! ### What is published -/

def finalChunk : List (Except Error StreamChunk) → Option StreamChunk
  | [] => none
  | .error _ :: _ => none
  | .ok chunk :: items => if chunk.finished then some chunk else finalChunk items

theorem published_streamLoop (ctx : StreamContext) (first : Bool)
    (items : List (Except Error StreamChunk)) :
    (streamLoop ctx first items).2 = (finalChunk items).toList.flatMap ctx.published := by
  induction items generalizing first with
  | nil => rfl
  | cons item items ih =>
      cases item with
      | error e => rfl
      | ok chunk =>
          rw [streamLoop, finalChunk]
          by_cases hfinished : chunk.finished = true
          · simp [hfinished]
          · simp only [hfinished, Bool.false_eq_true, if_false]
            exact ih false

theorem published_streamBody (ctx : StreamContext) (items : List (Except Error StreamChunk)) :
    (streamBody ctx items).2 = (finalChunk items).toList.flatMap ctx.published :=
  published_streamLoop ctx true items

/-- Exactly one event tells that the request has been completed when the finished chunk that ends
the stream carries usage, and none does otherwise. -/
theorem countP_published (ctx : StreamContext) (items : List (Except Error StreamChunk)) :
    (streamBody ctx items).2.countP GatewayEvent.isRequestCompleted =
      ((finalChunk items).bind StreamChunk.usage).toList.length := by
  rw [published_streamBody]
  cases finalChunk items with
  | none => rfl
  | some chunk =>
      simp only [Option.toList_some, List.flatMap_cons, List.flatMap_nil, List.append_nil,
        Option.bind_some, StreamContext.published]
      cases chunk.usage with
      | none => rfl
      | some usage => rfl

/-! ### What is sent -/

def okChunks (items : List (Except Error StreamChunk)) : List StreamChunk :=
  (items.takeWhile Except.isOk).filterMap Except.toOption

/-- The chunks up to the first finished one, or to the first failure, or to the end. -/
def delivered (items : List (Except Error StreamChunk)) : List StreamChunk :=
  let chunks := okChunks items
  chunks.takeWhile (fun chunk => !chunk.finished) ++ (chunks.find? StreamChunk.finished).toList

def failureOf : Except Error StreamChunk → Option Error
  | .error e => some e
  | .ok _ => none

/-- The first failure, unless a finished chunk comes before it. -/
def endingFailure (items : List (Except Error StreamChunk)) : Option Error :=
  if (okChunks items).any StreamChunk.finished then none else items.findSome? failureOf

theorem delivered_ok (chunk : StreamChunk) (items : List (Except Error StreamChunk)) :
    delivered (.ok chunk :: items) =
      chunk :: if chunk.finished then [] else delivered items := by
  have hok : okChunks (.ok chunk :: items) = chunk :: okChunks items := rfl
  rw [delivered, hok]
  cases hfinished : chunk.finished with
  | true => simp [hfinished]
  | false => simp [hfinished, delivered]

theorem endingFailure_ok (chunk : StreamChunk) (items : List (Except Error StreamChunk)) :
    endingFailure (.ok chunk :: items) =
      if chunk.finished then none else endingFailure items := by
  have hok : okChunks (.ok chunk :: items) = chunk :: okChunks items := rfl
  rw [endingFailure, hok, List.any_cons]
  cases chunk.finished with
  | true => rfl
  | false => rfl

theorem length_of_finished {items : List (Except Error StreamChunk)} {i : ℕ} {chunk : StreamChunk}
    (h : (delivered items)[i]? = some chunk) (hfinished : chunk.finished = true) :
    i + 1 = (delivered items).length := by
  induction items generalizing i with
  | nil => cases h
  | cons item items ih =>
      cases item with
      | error e => cases h
      | ok first =>
          rw [delivered_ok] at h ⊢
          cases hfirst : first.finished with
          | true =>
              rw [hfirst, if_pos rfl] at h
              obtain ⟨hi, -⟩ := List.getElem?_eq_some_iff.mp h
              simp only [if_true, List.length_singleton] at hi ⊢
              omega
          | false =>
              rw [hfirst, if_neg Bool.false_ne_true] at h
              cases i with
              | zero =>
                  obtain rfl := Option.some.inj h
                  rw [hfirst] at hfinished
                  cases hfinished
              | succ i =>
                  have hlast := ih h
                  simp only [Bool.false_eq_true, if_false, List.length_cons]
                  omega

def StreamContext.responses (ctx : StreamContext) (first : Bool) :
    List StreamChunk → List StreamChunkResponse
  | [] => []
  | chunk :: chunks => ctx.chunkResponse first chunk :: chunks.map (ctx.chunkResponse false)

theorem StreamContext.responses_false (ctx : StreamContext) (chunks : List StreamChunk) :
    ctx.responses false chunks = chunks.map (ctx.chunkResponse false) := by
  cases chunks <;> rfl

theorem sent_streamLoop (ctx : StreamContext) (first : Bool)
    (items : List (Except Error StreamChunk)) :
    (streamLoop ctx first items).1 =
      (ctx.responses first (delivered items)).map SseData.chunk ++
        (endingFailure items).toList.map (SseData.error ∘ streamError) := by
  induction items generalizing first with
  | nil => rfl
  | cons item items ih =>
      cases item with
      | error e => rfl
      | ok chunk =>
          rw [streamLoop, delivered_ok, endingFailure_ok]
          cases chunk.finished with
          | true => rfl
          | false =>
              simp only [Bool.false_eq_true, if_false, StreamContext.responses, List.map_cons,
                List.cons_append]
              rw [ih false, ctx.responses_false]

def SseData.response : SseData → Option StreamChunkResponse
  | .chunk response => some response
  | .error _ | .done => none

def sentResponses (events : List SseData) : List StreamChunkResponse :=
  events.filterMap SseData.response

def StreamChunkResponse.content (response : StreamChunkResponse) : Str :=
  response.choices.flatMap fun choice => choice.delta.content.getD []

def StreamChunkResponse.roles (response : StreamChunkResponse) : List Str :=
  response.choices.filterMap fun choice => choice.delta.role

def StreamChunkResponse.finishReasons (response : StreamChunkResponse) : List Str :=
  response.choices.filterMap StreamChoice.finishReason

/-- The events frame the items: a response for each chunk delivered, then the failure that ends
the stream if one does, then the end. The first response and no other names the role, the one of
a finished chunk and no other a reason to finish. -/
structure Framed (items : List (Except Error StreamChunk)) (events : List SseData) : Prop where
  frame : events = (sentResponses events).map SseData.chunk ++
    (endingFailure items).toList.map (SseData.error ∘ streamError) ++ [.done]
  done_once : events.count .done = 1
  length : (sentResponses events).length = (delivered items).length
  content : (sentResponses events).flatMap StreamChunkResponse.content =
    (delivered items).flatMap StreamChunk.delta
  role : ∀ (i : ℕ) (response : StreamChunkResponse), (sentResponses events)[i]? = some response →
    response.roles = if i = 0 then ["assistant".toList] else []
  finish : ∀ (i : ℕ) (response : StreamChunkResponse) (chunk : StreamChunk),
    (sentResponses events)[i]? = some response → (delivered items)[i]? = some chunk →
      response.finishReasons = if chunk.finished then ["stop".toList] else []
  finished_last : ∀ (i : ℕ) (chunk : StreamChunk), (delivered items)[i]? = some chunk →
    chunk.finished = true → i + 1 = (delivered items).length

@[simp] theorem StreamContext.content_chunkResponse (ctx : StreamContext) (first : Bool)
    (chunk : StreamChunk) : (ctx.chunkResponse first chunk).content = chunk.delta := by
  have hcontent : (if chunk.delta = [] then none else some chunk.delta).getD [] = chunk.delta := by
    split_ifs with hempty
    · exact hempty.symm
    · rfl
  exact (List.append_nil _).trans hcontent

@[simp] theorem StreamContext.roles_chunkResponse (ctx : StreamContext) (first : Bool)
    (chunk : StreamChunk) :
    (ctx.chunkResponse first chunk).roles = if first then ["assistant".toList] else [] := by
  cases first <;> rfl

@[simp] theorem StreamContext.finishReasons_chunkResponse (ctx : StreamContext) (first : Bool)
    (chunk : StreamChunk) : (ctx.chunkResponse first chunk).finishReasons =
      if chunk.finished then ["stop".toList] else [] := by
  simp only [chunkResponse, StreamChunkResponse.finishReasons]
  cases chunk.finished <;> rfl

theorem StreamContext.getElem?_responses (ctx : StreamContext) (chunks : List StreamChunk) (i : ℕ) :
    (ctx.responses true chunks)[i]? = chunks[i]?.map (ctx.chunkResponse (decide (i = 0))) := by
  cases chunks with
  | nil => rfl
  | cons chunk chunks =>
      cases i with
      | zero => rfl
      | succ i => simp [responses]

theorem StreamContext.content_responses (ctx : StreamContext) (first : Bool)
    (chunks : List StreamChunk) :
    (ctx.responses first chunks).flatMap StreamChunkResponse.content =
      chunks.flatMap StreamChunk.delta := by
  cases chunks with
  | nil => rfl
  | cons chunk chunks => simp [responses, List.flatMap_map]

theorem sentResponses_streamBody (ctx : StreamContext) (items : List (Except Error StreamChunk)) :
    sentResponses (streamBody ctx items).1 = ctx.responses true (delivered items) := by
  have hchunks : ∀ responses : List StreamChunkResponse,
      (responses.map SseData.chunk).filterMap SseData.response = responses := by
    intro responses
    rw [List.filterMap_map]
    exact List.filterMap_some
  have herrors : ((endingFailure items).toList.map (SseData.error ∘ streamError)).filterMap
      SseData.response = [] := by
    cases endingFailure items <;> rfl
  rw [streamBody, sentResponses, sent_streamLoop, List.filterMap_append, List.filterMap_append,
    hchunks, herrors, List.append_nil]
  exact List.append_nil _

/-- Whatever a provider yields, the body frames it. -/
theorem streamBody_framed (ctx : StreamContext) (items : List (Except Error StreamChunk)) :
    Framed items (streamBody ctx items).1 where
  frame := by
    rw [sentResponses_streamBody, streamBody, sent_streamLoop]
  done_once := by
    rw [streamBody, sent_streamLoop, List.count_append, List.count_append]
    have hchunks : ((ctx.responses true (delivered items)).map SseData.chunk).count .done = 0 := by
      rw [List.count_eq_zero]
      simp
    have herrors :
        ((endingFailure items).toList.map (SseData.error ∘ streamError)).count .done = 0 := by
      rw [List.count_eq_zero]
      simp
    rw [hchunks, herrors]
    rfl
  length := by
    rw [sentResponses_streamBody]
    cases delivered items with
    | nil => rfl
    | cons chunk chunks => simp [StreamContext.responses]
  content := by
    rw [sentResponses_streamBody, ctx.content_responses]
  role := by
    intro i response h
    rw [sentResponses_streamBody, ctx.getElem?_responses] at h
    obtain ⟨chunk, -, rfl⟩ := Option.map_eq_some_iff.mp h
    rw [ctx.roles_chunkResponse]
    cases i <;> rfl
  finish := by
    intro i response chunk h hchunk
    rw [sentResponses_streamBody, ctx.getElem?_responses, hchunk] at h
    obtain rfl := Option.some.inj h
    exact ctx.finishReasons_chunkResponse _ chunk
  finished_last := fun _ _ => length_of_finished

end NeuRust.Gateway
