import NeuRust.Gateway.StreamEvents
import NeuRust.Machine.Transducer

/-!
A connection to an upstream that breaks. The two decoders and the loop that sends the events are
transducers, one reading what the other writes, and both stop. What a client has been sent when the
connection breaks is therefore what it would have been sent first had the connection held.
-/

namespace NeuRust.Gateway

open NeuRust.Provider

variable {κ ε σ : Type*}

/-! ### The decoders -/

/-- What a line is to the first decoder. -/
def openAiStep (parse : Str → Option OpenAiStreamChunk) (event : Str) :
    Except Str Str → Option Str × List (Except Error StreamChunk)
  | .error message => (none, [.error (streamReadError message)])
  | .ok raw =>
      let line := trim raw
      if line = [] ∨ line.head? = some ':' then (some event, [])
      else
        match stripPrefix "data: ".toList line with
        | none => (some event, [])
        | some data =>
            if data = "[DONE]".toList then (none, [.ok ⟨[], true, none⟩])
            else
              match parse data with
              | some chunk => (some event, [.ok (openAiChunk chunk)])
              | none => (some event, [])

/-- What a line is to the other one, under the current event. -/
def anthropicStep (parsers : AnthropicParsers) (event : Str) :
    Except Str Str → Option Str × List (Except Error StreamChunk)
  | .error message => (none, [.error (streamReadError message)])
  | .ok raw =>
      let line := trim raw
      if line = [] then (some [], [])
      else
        match stripPrefix "event: ".toList line with
        | some event => (some event, [])
        | none =>
            match stripPrefix "data: ".toList line with
            | none => (some event, [])
            | some data =>
                if isMessageStop event then (none, [])
                else (some event, eventChunks parsers event data)

theorem openAiLoop_eq_run (parse : Str → Option OpenAiStreamChunk) (event : Str)
    (lines : List (Except Str Str)) :
    openAiLoop parse lines =
      (Transducer.run (Transducer.stopping (openAiStep parse)) (some event) lines).2 := by
  induction lines with
  | nil => rfl
  | cons line lines ih =>
      rw [Transducer.run_cons, Transducer.stopping]
      cases line with
      | error message =>
          rw [openAiStep, Transducer.run_stopping_none]
          rfl
      | ok raw =>
          rw [openAiLoop, openAiStep]
          by_cases hskip : trim raw = [] ∨ (trim raw).head? = some ':'
          · simp only [if_pos hskip]
            exact ih
          · simp only [if_neg hskip]
            cases hdata : stripPrefix "data: ".toList (trim raw) with
            | none => exact ih
            | some data =>
                by_cases hdone : data = "[DONE]".toList
                · simp only [if_pos hdone, Transducer.run_stopping_none]
                  rfl
                · simp only [if_neg hdone]
                  cases parse data with
                  | some chunk => exact congrArg (.ok (openAiChunk chunk) :: ·) ih
                  | none => exact ih

theorem anthropicLoop_eq_run (parsers : AnthropicParsers) (event : Str)
    (lines : List (Except Str Str)) :
    anthropicLoop parsers event lines =
      (Transducer.run (Transducer.stopping (anthropicStep parsers)) (some event) lines).2 := by
  induction lines generalizing event with
  | nil => rfl
  | cons line lines ih =>
      rw [Transducer.run_cons, Transducer.stopping]
      cases line with
      | error message =>
          rw [anthropicStep, Transducer.run_stopping_none]
          rfl
      | ok raw =>
          rw [anthropicLoop, anthropicStep]
          by_cases hblank : trim raw = []
          · simp only [if_pos hblank]
            exact ih []
          · simp only [if_neg hblank]
            cases hevent : stripPrefix "event: ".toList (trim raw) with
            | some name => exact ih name
            | none =>
                cases hdata : stripPrefix "data: ".toList (trim raw) with
                | none => exact ih event
                | some data =>
                    cases hstop : isMessageStop event with
                    | true => simp [Transducer.run_stopping_none]
                    | false => exact congrArg (eventChunks parsers event data ++ ·) (ih event)

/-! ### The loop that sends the events -/

/-- What an item is to the loop. The state tells whether it is the first. -/
def bodyStep (ctx : StreamContext) (first : Bool) :
    Except Error StreamChunk → Option Bool × List SseData
  | .error e => (none, [.error (streamError e)])
  | .ok chunk =>
      (if chunk.finished then none else some false, [.chunk (ctx.chunkResponse first chunk)])

theorem streamLoop_eq_run (ctx : StreamContext) (first : Bool)
    (items : List (Except Error StreamChunk)) :
    (streamLoop ctx first items).1 =
      (Transducer.run (Transducer.stopping (bodyStep ctx)) (some first) items).2 := by
  induction items generalizing first with
  | nil => rfl
  | cons item items ih =>
      rw [Transducer.run_cons, Transducer.stopping]
      cases item with
      | error e =>
          rw [bodyStep, Transducer.run_stopping_none]
          rfl
      | ok chunk =>
          rw [streamLoop, bodyStep]
          simp only
          split_ifs with hfinished
          · rw [Transducer.run_stopping_none]
            rfl
          · exact congrArg (_ :: ·) (ih false)

/-! ### From the bytes to the events -/

namespace Upstream

def step : Upstream σ → Str → Except Str Str → Option Str × List (Except Error StreamChunk)
  | .openAi _ _ backend => openAiStep backend.parseChunk
  | .anthropic _ _ backend => anthropicStep backend.toAnthropicParsers

theorem decode_eq_run (upstream : Upstream σ) (body : ByteStream) :
    upstream.decode body =
      (Transducer.run (Transducer.stopping upstream.step) (some []) (readLines body)).2 := by
  cases upstream with
  | openAi id models backend => exact openAiLoop_eq_run _ [] _
  | anthropic id models backend => exact anthropicLoop_eq_run _ [] _

/-- A line that cannot be read is the end, with the error as the last item. -/
theorem step_error (upstream : Upstream σ) (event message : Str) :
    upstream.step event (.error message) = (none, [.error (streamReadError message)]) := by
  cases upstream <;> rfl

end Upstream

def eventStep (upstream : Upstream σ) (ctx : StreamContext) :
    Option Str × Option Bool → Except Str Str → (Option Str × Option Bool) × List SseData :=
  Transducer.comp (Transducer.stopping upstream.step) (Transducer.stopping (bodyStep ctx))

theorem streamBody_decode (upstream : Upstream σ) (ctx : StreamContext) (body : ByteStream) :
    (streamBody ctx (upstream.decode body)).1 =
      (Transducer.run (eventStep upstream ctx) (some [], some true) (readLines body)).2 ++
        [.done] := by
  rw [streamBody, streamLoop_eq_run, upstream.decode_eq_run, eventStep, Transducer.run_comp]

/-! ### A broken connection -/

/-- The error event of a line that cannot be read, and the end of the body. -/
def brokenOff (message : Str) : List SseData :=
  [.error (streamError (streamReadError message)), .done]

theorem bodyStep_error (ctx : StreamContext) (first : Bool) (message : Str) :
    (Transducer.run (Transducer.stopping (bodyStep ctx)) (some first)
      [.error (streamReadError message)]).2 ++ [.done] = brokenOff message :=
  rfl

theorem finalChunk_of_endingFailure {items : List (Except Error StreamChunk)} {e : Error}
    (h : endingFailure items = some e) : finalChunk items = none := by
  induction items with
  | nil => rfl
  | cons item items ih =>
      cases item with
      | error e => rfl
      | ok chunk =>
          rw [endingFailure_ok] at h
          rw [finalChunk]
          split_ifs at h ⊢ with hfinished
          exact ih h

theorem sentResponses_chunks (responses : List StreamChunkResponse) :
    sentResponses (responses.map SseData.chunk) = responses := by
  rw [sentResponses, List.filterMap_map]
  exact List.filterMap_some

/-- Before an error event there are responses only, and nothing is published. -/
theorem responses_of_brokenOff {ctx : StreamContext} {items : List (Except Error StreamChunk)}
    {written : List SseData} {message : Str}
    (h : (streamBody ctx items).1 = written ++ brokenOff message) :
    (∃ responses : List StreamChunkResponse, written = responses.map SseData.chunk) ∧
      (streamBody ctx items).2 = [] := by
  have hend : (streamBody ctx items).1 =
      written ++ [.error (streamError (streamReadError message))] ++ [.done] := by
    rw [h, List.append_assoc]
    rfl
  have hframe := hend.symm.trans (streamBody_framed ctx items).frame
  have hbefore := (List.append_inj' hframe rfl).1
  cases hfailure : endingFailure items with
  | none =>
      rw [hfailure, Option.toList_none, List.map_nil, List.append_nil] at hbefore
      have herror : SseData.error (streamError (streamReadError message)) ∈
          (sentResponses (streamBody ctx items).1).map SseData.chunk :=
        hbefore ▸ List.mem_append_right _ List.mem_cons_self
      obtain ⟨response, -, hresponse⟩ := List.mem_map.mp herror
      cases hresponse
  | some e =>
      rw [hfailure, Option.toList_some, List.map_singleton] at hbefore
      refine ⟨⟨_, (List.append_inj' hbefore rfl).1⟩, ?_⟩
      rw [published_streamBody, finalChunk_of_endingFailure hfailure]
      rfl

/-- When the connection breaks, the body is what it would be if it held, or it ends with an error
event after the first responses that it would have. -/
theorem streamBody_broken (upstream : Upstream σ) (ctx : StreamContext) (bytes : List UInt8)
    (ending : Option Str) (n : ℕ) (message : Str) :
    (streamBody ctx (upstream.decode ⟨bytes.take n, some message⟩)).1 =
        (streamBody ctx (upstream.decode ⟨bytes, ending⟩)).1 ∨
      ∃ written, written <+: (streamBody ctx (upstream.decode ⟨bytes, ending⟩)).1 ∧
        (streamBody ctx (upstream.decode ⟨bytes.take n, some message⟩)).1 =
          written ++ brokenOff message := by
  obtain ⟨lines, rest, hbroken, hheld⟩ := exists_readLines_take bytes ending n message
  rw [streamBody_decode, streamBody_decode, hbroken, hheld]
  rcases Transducer.run_comp_cut (some [], some true) lines rest (.error message) with
    hsame | ⟨event, first, hcut⟩
  · left
    rw [eventStep, hsame]
  · right
    refine ⟨(Transducer.run (eventStep upstream ctx) (some [], some true) lines).2, ?_, ?_⟩
    · exact (Transducer.run_prefix _ (List.prefix_append lines rest)).trans
        (List.prefix_append _ _)
    · rw [eventStep, hcut, upstream.step_error, List.append_assoc, bodyStep_error]

def Upstream.Streams (upstream : Upstream σ) (request : UnifiedRequest) (s : σ)
    (body : ByteStream) : Prop :=
  ∃ resp s', upstream.send request s = (.ok resp, s') ∧ resp.isSuccess = true ∧ resp.body = body

def bodyContext (readings : Readings) (provider : Provider σ) (request : UnifiedRequest) :
    StreamContext where
  completionId := readings.completionId
  created := readings.created
  model := request.model.modelName
  providerName := provider.name
  finishedMs := readings.completedMs
  latencyMs := readings.latencyMs

theorem handleStream_of_streams {upstream : Upstream σ} {request : UnifiedRequest}
    {s : GatewayState κ ε σ} {body : ByteStream} (h : upstream.Streams request s.upstream body)
    (readings : Readings) :
    (handleStream readings upstream.provider request s).1 =
        .ok (streamBody (bodyContext readings upstream.provider request)
          (upstream.decode body)).1 ∧
      (handleStream readings upstream.provider request s).2.bus =
        s.bus ++ (streamBody (bodyContext readings upstream.provider request)
          (upstream.decode body)).2 := by
  obtain ⟨resp, s', hsend, hsuccess, rfl⟩ := h
  rw [handleStream, Upstream.completeStream_of_send hsend hsuccess]
  exact ⟨rfl, rfl⟩

/-- Two upstreams that send the same bytes, until the connection to the second one breaks. The
client of the second one is sent the same events as that of the first, or the first of its
responses, then the error and the end; and then nothing is reported as completed. -/
theorem handleStream_broken (upstream : Upstream σ) (readings : Readings)
    (request : UnifiedRequest) {s s' : GatewayState κ ε σ} (bytes : List UInt8)
    (ending : Option Str) (n : ℕ) (message : Str)
    (hheld : upstream.Streams request s.upstream ⟨bytes, ending⟩)
    (hbroken : upstream.Streams request s'.upstream ⟨bytes.take n, some message⟩) :
    ∃ held broken, (handleStream readings upstream.provider request s).1 = .ok held ∧
      (handleStream readings upstream.provider request s').1 = .ok broken ∧
      (broken = held ∨ ∃ responses, responses <+: sentResponses held ∧
        broken = responses.map SseData.chunk ++ brokenOff message ∧
        (handleStream readings upstream.provider request s').2.bus = s'.bus) := by
  obtain ⟨hevents, -⟩ := handleStream_of_streams hheld readings
  obtain ⟨hevents', hbus⟩ := handleStream_of_streams hbroken readings
  refine ⟨_, _, hevents, hevents', ?_⟩
  rcases streamBody_broken upstream (bodyContext readings upstream.provider request) bytes ending n
    message with hsame | ⟨written, hwritten, hcut⟩
  · exact .inl hsame
  · obtain ⟨⟨responses, rfl⟩, hpublished⟩ := responses_of_brokenOff hcut
    refine .inr ⟨responses, ?_, hcut, ?_⟩
    · have hsent := hwritten.filterMap SseData.response
      rwa [← sentResponses, sentResponses_chunks] at hsent
    · rw [hbus, hpublished, List.append_nil]

def streamer : Upstream ByteStream :=
  .openAi "openai".toList ["any".toList] {
    send := fun _ body => (.ok (received body), body)
    parseResponse := fun _ => .error (.msg [])
    parseChunk := fun data =>
      if data = hiData then some ⟨[⟨⟨some "hi".toList⟩, some "stop".toList⟩]⟩ else none }

def streaming (body : ByteStream) : GatewayState Unit Unit ByteStream :=
  { upstream := body, cache := none }

theorem handleStream_broken_hi :
    ∃ held broken,
      (handleStream noon streamer.provider streamRequest (streaming (linesBody hiLines))).1 =
        .ok held ∧
      (handleStream noon streamer.provider streamRequest
        (streaming ⟨(linesBody hiLines).bytes.take 10, some "reset".toList⟩)).1 = .ok broken ∧
      (broken = held ∨ ∃ responses, responses <+: sentResponses held ∧
        broken = responses.map SseData.chunk ++ brokenOff "reset".toList ∧
        (handleStream noon streamer.provider streamRequest
          (streaming ⟨(linesBody hiLines).bytes.take 10, some "reset".toList⟩)).2.bus = []) :=
  handleStream_broken streamer noon streamRequest (linesBody hiLines).bytes none 10 "reset".toList
    ⟨received (linesBody hiLines), linesBody hiLines, rfl, rfl, rfl⟩
    ⟨received _, _, rfl, rfl, rfl⟩

end NeuRust.Gateway
