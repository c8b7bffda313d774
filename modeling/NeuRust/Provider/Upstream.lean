import NeuRust.Provider.RequestBody
import NeuRust.Text.Lines

/-!
The two upstream protocols. Both providers read the body of a streamed answer line by line. The
one looks at every data line by itself, the other keeps the name of the current event. JSON is
parsed by functions that are given.
-/

namespace NeuRust.Provider

variable {σ : Type*}

/-! ### HTTP -/

/-- An answer, once its head has been received. -/
structure HttpResponse where
  status : ℕ
  /-- The status as it is printed. -/
  statusText : Str
  /-- What `text().await.unwrap_or_default()` gives. -/
  text : Str
  body : ByteStream
  elapsedMs : BitVec 64

def HttpResponse.isSuccess (resp : HttpResponse) : Bool :=
  decide (200 ≤ resp.status) && decide (resp.status < 300)

def streamReadError (message : Str) : Error := .msg ("Stream read error: ".toList ++ message)

/-! ### OpenAI -/

structure OpenAiChoiceMessage where
  content : Option Str

structure OpenAiChoice where
  message : OpenAiChoiceMessage

structure OpenAiUsage where
  promptTokens : BitVec 32
  completionTokens : BitVec 32
  totalTokens : BitVec 32

structure OpenAiResponse where
  id : Str
  model : Str
  choices : List OpenAiChoice
  usage : OpenAiUsage

structure OpenAiDelta where
  content : Option Str

structure OpenAiStreamChoice where
  delta : OpenAiDelta
  finishReason : Option Str

structure OpenAiStreamChunk where
  choices : List OpenAiStreamChoice

/-- The network and the parsers that an `OpenAiProvider` works with. -/
structure OpenAiBackend (σ : Type*) where
  send : OpenAiRequest → σ → Except Error HttpResponse × σ
  parseResponse : ByteStream → Except Error OpenAiResponse
  parseChunk : Str → Option OpenAiStreamChunk

/-- The chunk of a data line that parses. -/
def openAiChunk (chunk : OpenAiStreamChunk) : StreamChunk where
  delta := (chunk.choices.head?.bind fun c => c.delta.content).getD []
  finished := (chunk.choices.head?.bind fun c => c.finishReason).isSome
  usage := none

def openAiLoop (parse : Str → Option OpenAiStreamChunk) :
    List (Except Str Str) → List (Except Error StreamChunk)
  | [] => []
  | .error message :: _ => [.error (streamReadError message)]
  | .ok raw :: lines =>
      let line := trim raw
      if line = [] ∨ line.head? = some ':' then openAiLoop parse lines
      else
        match stripPrefix "data: ".toList line with
        | none => openAiLoop parse lines
        | some data =>
            if data = "[DONE]".toList then [.ok ⟨[], true, none⟩]
            else
              match parse data with
              | some chunk => .ok (openAiChunk chunk) :: openAiLoop parse lines
              | none => openAiLoop parse lines

def openAiComplete (id : Str) (backend : OpenAiBackend σ) (request : UnifiedRequest) (s : σ) :
    Except Error UnifiedResponse × σ :=
  match backend.send (openAiRequestBody request) s with
  | (.error e, s) => (.error (e.context "OpenAI request failed".toList), s)
  | (.ok resp, s) =>
      if resp.isSuccess then
        match backend.parseResponse resp.body with
        | .error e => (.error (e.context "Failed to parse OpenAI response".toList), s)
        | .ok body =>
            match body.choices.head? with
            | none => (.error (.msg "No choices in OpenAI response".toList), s)
            | some choice =>
                (.ok {
                  content := choice.message.content.getD []
                  model := body.model
                  usage := ⟨body.usage.promptTokens, body.usage.completionTokens,
                    body.usage.totalTokens⟩
                  providerId := id
                  latencyMs := resp.elapsedMs
                  upstreamId := some body.id }, s)
      else
        (.error (.msg ("OpenAI API error (".toList ++ resp.statusText ++ "): ".toList ++
          resp.text)), s)

def openAiCompleteStream (backend : OpenAiBackend σ) (request : UnifiedRequest) (s : σ) :
    Except Error (List (Except Error StreamChunk)) × σ :=
  match backend.send { openAiRequestBody request with stream := true } s with
  | (.error e, s) => (.error (e.context "OpenAI stream request failed".toList), s)
  | (.ok resp, s) =>
      if resp.isSuccess then (.ok (openAiLoop backend.parseChunk (readLines resp.body)), s)
      else (.error (.msg ("OpenAI API error: ".toList ++ resp.text)), s)

def openAiProvider (id : Str) (models : List Str) (backend : OpenAiBackend σ) : Provider σ where
  name := id
  supportedModels := models
  complete := openAiComplete id backend
  completeStream := openAiCompleteStream backend

/-! ### Anthropic -/

structure ContentBlock where
  contentType : Str
  text : Option Str

structure AnthropicUsage where
  inputTokens : BitVec 32
  outputTokens : BitVec 32

structure AnthropicResponse where
  id : Str
  model : Str
  content : List ContentBlock
  usage : AnthropicUsage

structure AnthropicTextDelta where
  text : Option Str

structure AnthropicStreamDelta where
  delta : Option AnthropicTextDelta

structure AnthropicDeltaUsage where
  outputTokens : BitVec 32

structure AnthropicMessageDelta where
  usage : Option AnthropicDeltaUsage

structure AnthropicParsers where
  streamDelta : Str → Option AnthropicStreamDelta
  messageDelta : Str → Option AnthropicMessageDelta

/-- The network and the parsers that an `AnthropicProvider` works with. -/
structure AnthropicBackend (σ : Type*) extends AnthropicParsers where
  send : AnthropicRequest → σ → Except Error HttpResponse × σ
  parseResponse : ByteStream → Except Error AnthropicResponse

def contentChunks (parsers : AnthropicParsers) (data : Str) : List (Except Error StreamChunk) :=
  match parsers.streamDelta data with
  | some ⟨some delta⟩ => [.ok ⟨delta.text.getD [], false, none⟩]
  | _ => []

def finishingChunk (delta : AnthropicMessageDelta) : StreamChunk :=
  ⟨[], true, delta.usage.map fun u => ⟨0, u.outputTokens, u.outputTokens⟩⟩

def messageDeltaChunks (parsers : AnthropicParsers) (data : Str) :
    List (Except Error StreamChunk) :=
  match parsers.messageDelta data with
  | some delta => [.ok (finishingChunk delta)]
  | none => []

def isContentBlockDelta (event : Str) : Bool := decide (event = "content_block_delta".toList)

def isMessageDelta (event : Str) : Bool := decide (event = "message_delta".toList)

def isMessageStop (event : Str) : Bool := decide (event = "message_stop".toList)

def eventChunks (parsers : AnthropicParsers) (event data : Str) :
    List (Except Error StreamChunk) :=
  if isContentBlockDelta event then contentChunks parsers data
  else if isMessageDelta event then messageDeltaChunks parsers data
  else []

theorem eventChunks_of_other {parsers : AnthropicParsers} {event : Str}
    (hcontent : isContentBlockDelta event = false) (hmessage : isMessageDelta event = false)
    (data : Str) : eventChunks parsers event data = [] := by
  simp [eventChunks, hcontent, hmessage]

def anthropicLoop (parsers : AnthropicParsers) (event : Str) :
    List (Except Str Str) → List (Except Error StreamChunk)
  | [] => []
  | .error message :: _ => [.error (streamReadError message)]
  | .ok raw :: lines =>
      let line := trim raw
      if line = [] then anthropicLoop parsers [] lines
      else
        match stripPrefix "event: ".toList line with
        | some event => anthropicLoop parsers event lines
        | none =>
            match stripPrefix "data: ".toList line with
            | none => anthropicLoop parsers event lines
            | some data =>
                if isMessageStop event then []
                else eventChunks parsers event data ++ anthropicLoop parsers event lines

def contentText (blocks : List ContentBlock) : Str :=
  (blocks.filterMap fun block =>
    if block.contentType = "text".toList then block.text else none).flatten

def anthropicComplete (id : Str) (backend : AnthropicBackend σ) (request : UnifiedRequest)
    (s : σ) : Except Error UnifiedResponse × σ :=
  match backend.send (anthropicRequestBody request) s with
  | (.error e, s) => (.error (e.context "Anthropic request failed".toList), s)
  | (.ok resp, s) =>
      if resp.isSuccess then
        match backend.parseResponse resp.body with
        | .error e => (.error (e.context "Failed to parse Anthropic response".toList), s)
        | .ok body =>
            (.ok {
              content := contentText body.content
              model := body.model
              -- the sum wraps around, as it does in a release build
              usage := ⟨body.usage.inputTokens, body.usage.outputTokens,
                body.usage.inputTokens + body.usage.outputTokens⟩
              providerId := id
              latencyMs := resp.elapsedMs
              upstreamId := some body.id }, s)
      else
        (.error (.msg ("Anthropic API error (".toList ++ resp.statusText ++ "): ".toList ++
          resp.text)), s)

def anthropicCompleteStream (backend : AnthropicBackend σ) (request : UnifiedRequest) (s : σ) :
    Except Error (List (Except Error StreamChunk)) × σ :=
  match backend.send { anthropicRequestBody request with stream := true } s with
  | (.error e, s) => (.error (e.context "Anthropic stream request failed".toList), s)
  | (.ok resp, s) =>
      if resp.isSuccess then
        (.ok (anthropicLoop backend.toAnthropicParsers [] (readLines resp.body)), s)
      else (.error (.msg ("Anthropic API error: ".toList ++ resp.text)), s)

def anthropicProvider (id : Str) (models : List Str) (backend : AnthropicBackend σ) :
    Provider σ where
  name := id
  supportedModels := models
  complete := anthropicComplete id backend
  completeStream := anthropicCompleteStream backend

/-! ### What the loops yield -/

/-- No chunk of the one protocol carries usage. -/
theorem usage_of_mem_openAiLoop {parse : Str → Option OpenAiStreamChunk}
    {lines : List (Except Str Str)} {chunk : StreamChunk}
    (h : .ok chunk ∈ openAiLoop parse lines) : chunk.usage = none := by
  induction lines with
  | nil => simp [openAiLoop] at h
  | cons line lines ih =>
      cases line with
      | error message => simp [openAiLoop] at h
      | ok raw =>
          rw [openAiLoop] at h
          split_ifs at h with hskip
          · exact ih h
          · split at h
            · exact ih h
            · split_ifs at h with hdone
              · obtain rfl := Except.ok.inj (List.mem_singleton.mp h)
                rfl
              · split at h
                · rcases List.mem_cons.mp h with heq | hmem
                  · obtain rfl := Except.ok.inj heq
                    rfl
                  · exact ih hmem
                · exact ih h

/-- The data lines of the other one, up to the first error, each with the event that it stands
under. -/
def dataLines (event : Str) : List (Except Str Str) → List (Str × Str)
  | [] => []
  | .error _ :: _ => []
  | .ok raw :: lines =>
      let line := trim raw
      if line = [] then dataLines [] lines
      else
        match stripPrefix "event: ".toList line with
        | some event => dataLines event lines
        | none =>
            match stripPrefix "data: ".toList line with
            | none => dataLines event lines
            | some data => (event, data) :: dataLines event lines

def beforeStop (event : Str) (lines : List (Except Str Str)) : List (Str × Str) :=
  (dataLines event lines).takeWhile fun e => !isMessageStop e.1

/-- The loop yields what the data lines before the end of the message yield, and at most an error
after that, which only a line that cannot be read gives. -/
theorem anthropicLoop_eq (parsers : AnthropicParsers) (event : Str)
    (lines : List (Except Str Str)) :
    ∃ failure, anthropicLoop parsers event lines =
        (beforeStop event lines).flatMap (fun e => eventChunks parsers e.1 e.2) ++ failure ∧
      (∀ item ∈ failure, item.isOk = false) ∧
      ((∀ line ∈ lines, line.isOk = true) → failure = []) := by
  rw [beforeStop]
  induction lines generalizing event with
  | nil => exact ⟨[], rfl, by simp, fun _ => rfl⟩
  | cons line lines ih =>
      cases line with
      | error message =>
          refine ⟨[.error (streamReadError message)], rfl, fun item hitem => ?_, fun hread => ?_⟩
          · rw [List.mem_singleton.1 hitem]
            rfl
          · cases (List.forall_mem_cons.mp hread).1
      | ok raw =>
          have hrest : (∀ line ∈ .ok raw :: lines, line.isOk = true) →
              ∀ line ∈ lines, line.isOk = true := fun hread => (List.forall_mem_cons.mp hread).2
          rw [anthropicLoop, dataLines]
          by_cases hblank : trim raw = []
          · simp only [hblank, if_true]
            obtain ⟨failure, hloop, hfailure, hread⟩ := ih []
            exact ⟨failure, hloop, hfailure, hread ∘ hrest⟩
          · simp only [hblank, if_false]
            cases hevent : stripPrefix "event: ".toList (trim raw) with
            | some name =>
                obtain ⟨failure, hloop, hfailure, hread⟩ := ih name
                exact ⟨failure, hloop, hfailure, hread ∘ hrest⟩
            | none =>
                cases hdata : stripPrefix "data: ".toList (trim raw) with
                | none =>
                    obtain ⟨failure, hloop, hfailure, hread⟩ := ih event
                    exact ⟨failure, hloop, hfailure, hread ∘ hrest⟩
                | some data =>
                    cases hstop : isMessageStop event with
                    | true => exact ⟨[], by simp [hstop], by simp, fun _ => rfl⟩
                    | false =>
                        obtain ⟨failure, hloop, hfailure, hread⟩ := ih event
                        exact ⟨failure, by simp [hstop, hloop], hfailure, hread ∘ hrest⟩

theorem isMessageDelta_of_isContentBlockDelta {event : Str} (h : isContentBlockDelta event = true) :
    isMessageDelta event = false := by
  rw [of_decide_eq_true h]
  decide +kernel

def firstMessageDelta (parsers : AnthropicParsers) (events : List (Str × Str)) :
    Option AnthropicMessageDelta :=
  ((events.filter fun e => isMessageDelta e.1).filterMap fun e => parsers.messageDelta e.2).head?

end NeuRust.Provider
