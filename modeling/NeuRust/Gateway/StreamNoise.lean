import NeuRust.Gateway.ChunkProtocol
import NeuRust.Gateway.Interruption

/-!
What a client of a stream does not see. Both decoders pass over lines that are not theirs, over
white space around a line, and over data that does not parse; the second one also over whole events,
where an event may begin. Any amount of it leaves what is sent and what is published as it was.
-/

namespace NeuRust.Gateway

open NeuRust.Provider

variable {κ ε σ : Type*}

/-! ### Noise -/

/-- A line that the first decoder passes over: a blank line, a comment, a field other than data, or
data that does not parse. -/
def OpenAiNoise (parse : Str → Option OpenAiStreamChunk) (line : Str) : Prop :=
  (trim line = [] ∨ (trim line).head? = some ':') ∨
    ∀ data, lineData line = some data → isDone data = false ∧ parse data = none

/-- A line inside an event that the other decoder passes over, whatever the event is: a comment or a
field that is neither event nor data. -/
structure AnthropicNoise (line : Str) : Prop where
  notBlank : trim line ≠ []
  notEvent : lineEvent line = none
  notData : lineData line = none

/-- An event from which the other decoder reads nothing. -/
structure SilentEvent (parsers : AnthropicParsers) (lines : List Str) : Prop where
  parts : ∃ header name fields, lines = header :: fields ∧ trim header ≠ [] ∧
    lineEvent header = some name ∧ ∀ field ∈ fields, trim field ≠ [] ∧ lineEvent field = none ∧
      ∀ data, lineData field = some data → isMessageStop name = false ∧
        eventChunks parsers name data = []

/-- A line that ends the event before it: a blank line, or the name of the next one. -/
def EndsEvent (line : Str) : Prop := trim line = [] ∨ ∃ name, lineEvent line = some name

/-- A piece of the lines, and a piece that is the same to the decoder. -/
inductive Upstream.Noise : Upstream σ → List Str → List Str → Prop
  | spaces (upstream : Upstream σ) (line line' : Str) (h : trim line = trim line') :
      Noise upstream [line] [line']
  | openAi (id : Str) (models : List Str) (backend : OpenAiBackend σ) (line : Str)
      (h : OpenAiNoise backend.parseChunk line) : Noise (.openAi id models backend) [] [line]
  | anthropic (id : Str) (models : List Str) (backend : AnthropicBackend σ) (line : Str)
      (h : AnthropicNoise line) : Noise (.anthropic id models backend) [] [line]
  | event (id : Str) (models : List Str) (backend : AnthropicBackend σ) (lines : List Str)
      (h : SilentEvent backend.toAnthropicParsers lines) (line : Str) (hends : EndsEvent line) :
      Noise (.anthropic id models backend) [line] (lines ++ [line])
  | blank (id : Str) (models : List Str) (backend : AnthropicBackend σ) (blank : Str)
      (h : trim blank = []) (line : Str) (hends : EndsEvent line) :
      Noise (.anthropic id models backend) [line] [blank, line]

/-- The lines differ by noise, put in or taken out anywhere and any number of times. -/
def Upstream.UpToNoise (upstream : Upstream σ) : List Str → List Str → Prop :=
  Relation.EqvGen (Transducer.Replaces upstream.Noise)

/-! ### What the decoders make of it -/

def Upstream.lineStep (upstream : Upstream σ) (event : Option Str) (line : Str) :
    Option Str × List (Except Error StreamChunk) :=
  Transducer.stopping upstream.step event (asRead line)

theorem Upstream.step_of_trim (upstream : Upstream σ) {line line' : Str}
    (h : trim line = trim line') (event : Str) :
    upstream.step event (asRead line) = upstream.step event (asRead line') := by
  have htrim : trim (line ++ ['\n']) = trim (line' ++ ['\n']) := by
    rw [trim_newline, trim_newline, h]
  cases upstream with
  | openAi id models backend =>
      simp only [Upstream.step, openAiStep, asRead, htrim]
  | anthropic id models backend =>
      simp only [Upstream.step, anthropicStep, asRead, htrim]

theorem openAiStep_of_noise {parse : Str → Option OpenAiStreamChunk} {line : Str}
    (h : OpenAiNoise parse line) (event : Str) :
    openAiStep parse event (asRead line) = (some event, []) := by
  rw [asRead, openAiStep]
  simp only [trim_newline]
  by_cases hskip : trim line = [] ∨ (trim line).head? = some ':'
  · rw [if_pos hskip]
  · rw [if_neg hskip]
    have hdata := h.resolve_left hskip
    rw [lineData] at hdata
    cases hline : stripPrefix "data: ".toList (trim line) with
    | none => rfl
    | some data =>
        obtain ⟨hdone, hparse⟩ := hdata data hline
        simp only [if_neg (of_decide_eq_false hdone), hparse]

theorem anthropicStep_blank {parsers : AnthropicParsers} {line : Str} (h : trim line = [])
    (event : Str) : anthropicStep parsers event (asRead line) = (some [], []) := by
  rw [asRead, anthropicStep]
  simp only [trim_newline, if_pos h]

theorem anthropicStep_of_noise {parsers : AnthropicParsers} {line : Str} (h : AnthropicNoise line)
    (event : Str) : anthropicStep parsers event (asRead line) = (some event, []) := by
  have hevent := h.notEvent
  have hdata := h.notData
  rw [lineEvent] at hevent
  rw [lineData] at hdata
  rw [asRead, anthropicStep]
  simp only [trim_newline, if_neg h.notBlank, hevent, hdata]

theorem anthropicStep_header {parsers : AnthropicParsers} {header name : Str}
    (hheader : trim header ≠ []) (hname : lineEvent header = some name) (event : Str) :
    anthropicStep parsers event (asRead header) = (some name, []) := by
  rw [lineEvent] at hname
  rw [asRead, anthropicStep]
  simp only [trim_newline, if_neg hheader, hname]

/-- A line that ends an event leads to the same state from every one. -/
theorem anthropicStep_of_endsEvent {parsers : AnthropicParsers} {line : Str} (h : EndsEvent line)
    (event event' : Str) :
    anthropicStep parsers event (asRead line) = anthropicStep parsers event' (asRead line) := by
  by_cases hblank : trim line = []
  · rw [anthropicStep_blank hblank, anthropicStep_blank hblank]
  · obtain ⟨name, hname⟩ := h.resolve_left hblank
    rw [anthropicStep_header hblank hname, anthropicStep_header hblank hname]

theorem anthropicStep_of_field {parsers : AnthropicParsers} {name field : Str}
    (hblank : trim field ≠ []) (hevent : lineEvent field = none)
    (hdata : ∀ data, lineData field = some data → isMessageStop name = false ∧
      eventChunks parsers name data = []) :
    anthropicStep parsers name (asRead field) = (some name, []) := by
  rw [lineEvent] at hevent
  rw [lineData] at hdata
  rw [asRead, anthropicStep]
  simp only [trim_newline, if_neg hblank, hevent]
  cases hline : stripPrefix "data: ".toList (trim field) with
  | none => rfl
  | some data =>
      obtain ⟨hstop, hchunks⟩ := hdata data hline
      simp [hstop, hchunks]

/-- An event is silent if its name is not known, or if it is known but no data under it parses. -/
theorem silentEvent_of_unparsed {parsers : AnthropicParsers} {header name : Str}
    {fields : List Str} (hheader : trim header ≠ []) (hname : lineEvent header = some name)
    (hstop : isMessageStop name = false)
    (hfields : ∀ field ∈ fields, trim field ≠ [] ∧ lineEvent field = none)
    (hcontent : isContentBlockDelta name = true → ∀ field ∈ fields, ∀ data,
      lineData field = some data → parsers.streamDelta data = none)
    (hmessage : isMessageDelta name = true → ∀ field ∈ fields, ∀ data,
      lineData field = some data → parsers.messageDelta data = none) :
    SilentEvent parsers (header :: fields) := by
  refine ⟨header, name, fields, rfl, hheader, hname, fun field hfield => ?_⟩
  obtain ⟨hblank, hevent⟩ := hfields field hfield
  refine ⟨hblank, hevent, fun data hline => ⟨hstop, ?_⟩⟩
  rw [eventChunks]
  split_ifs with hdelta hdelta'
  · rw [contentChunks, hcontent hdelta field hfield data hline]
  · rw [messageDeltaChunks, hmessage hdelta' field hfield data hline]
  · rfl

theorem Upstream.run_lineStep (upstream : Upstream σ) (event : Option Str) (lines : List Str) :
    Transducer.run upstream.lineStep event lines =
      Transducer.run (Transducer.stopping upstream.step) event (lines.map asRead) :=
  (Transducer.run_map asRead event lines).symm

/-- It is enough to look at the states in which the decoder has not stopped. -/
theorem Upstream.alike_of_some {upstream : Upstream σ} {x y : List Str}
    (h : ∀ event, Transducer.run upstream.lineStep (some event) x =
      Transducer.run upstream.lineStep (some event) y) :
    Transducer.Alike upstream.lineStep x y := by
  intro s
  cases s with
  | none => rw [upstream.run_lineStep, upstream.run_lineStep, Transducer.run_stopping_none,
      Transducer.run_stopping_none]
  | some event => exact h event

theorem run_fields {id : Str} {models : List Str} {backend : AnthropicBackend σ} {name : Str}
    {fields : List Str} (hfields : ∀ field ∈ fields, trim field ≠ [] ∧ lineEvent field = none ∧
      ∀ data, lineData field = some data → isMessageStop name = false ∧
        eventChunks backend.toAnthropicParsers name data = []) :
    Transducer.run (Upstream.anthropic id models backend).lineStep (some name) fields =
      (some name, []) := by
  induction fields with
  | nil => rfl
  | cons field fields ih =>
      obtain ⟨⟨hblank, hevent, hdata⟩, hfields⟩ := List.forall_mem_cons.mp hfields
      have hfield : (Upstream.anthropic id models backend).lineStep (some name) field =
          (some name, []) := anthropicStep_of_field hblank hevent hdata
      rw [Transducer.run_cons, hfield, ih hfields]
      rfl

/-- A silent event writes nothing, and leaves its name as the current one. -/
theorem run_silentEvent {id : Str} {models : List Str} {backend : AnthropicBackend σ}
    {lines : List Str} (h : SilentEvent backend.toAnthropicParsers lines) (event : Str) :
    ∃ name, Transducer.run (Upstream.anthropic id models backend).lineStep (some event) lines =
      (some name, []) := by
  obtain ⟨header, name, fields, rfl, hheader, hname, hfields⟩ := h.parts
  have hopens : (Upstream.anthropic id models backend).lineStep (some event) header =
      (some name, []) := anthropicStep_header hheader hname event
  refine ⟨name, ?_⟩
  rw [Transducer.run_cons, hopens, run_fields hfields]
  rfl

/-- In front of a line that ends the event, whatever writes nothing makes no difference. -/
theorem run_append_of_endsEvent {id : Str} {models : List Str} {backend : AnthropicBackend σ}
    {event name line : Str} {lines : List Str} (hends : EndsEvent line)
    (h : Transducer.run (Upstream.anthropic id models backend).lineStep (some event) lines =
      (some name, [])) :
    Transducer.run (Upstream.anthropic id models backend).lineStep (some event) [line] =
      Transducer.run (Upstream.anthropic id models backend).lineStep (some event)
        (lines ++ [line]) := by
  rw [Transducer.run_append, h, Transducer.run_singleton, Transducer.run_singleton,
    List.nil_append]
  exact anthropicStep_of_endsEvent hends event name

theorem Upstream.Noise.alike {upstream : Upstream σ} {x y : List Str} (h : upstream.Noise x y) :
    Transducer.Alike upstream.lineStep x y := by
  apply Upstream.alike_of_some
  intro event
  cases h with
  | spaces _ line line' h =>
      rw [Transducer.run_singleton, Transducer.run_singleton]
      exact upstream.step_of_trim h event
  | openAi id models backend line h =>
      rw [Transducer.run_singleton]
      exact (openAiStep_of_noise h event).symm
  | anthropic id models backend line h =>
      rw [Transducer.run_singleton]
      exact (anthropicStep_of_noise h event).symm
  | event id models backend lines h line hends =>
      obtain ⟨name, hrun⟩ := run_silentEvent h event
      exact run_append_of_endsEvent hends hrun
  | blank id models backend blank hblank line hends =>
      have hrun : Transducer.run (Upstream.anthropic id models backend).lineStep (some event)
          [blank] = (some [], []) := by
        rw [Transducer.run_singleton]
        exact anthropicStep_blank hblank event
      exact run_append_of_endsEvent hends hrun

theorem Upstream.decode_of_upToNoise {upstream : Upstream σ} {lines lines' : List Str}
    (h : upstream.UpToNoise lines lines') (hfeed : ∀ line ∈ lines, '\n' ∉ line)
    (hfeed' : ∀ line ∈ lines', '\n' ∉ line) (rest : List UInt8) (failure : Option Str) :
    upstream.decode ⟨Utf8.encode (lines.flatMap (· ++ ['\n'])) ++ rest, failure⟩ =
      upstream.decode ⟨Utf8.encode (lines'.flatMap (· ++ ['\n'])) ++ rest, failure⟩ := by
  have hread {lines : List Str} (hfeed : ∀ line ∈ lines, '\n' ∉ line) :
      readLines ⟨Utf8.encode (lines.flatMap (· ++ ['\n'])) ++ rest, failure⟩ =
        lines.map asRead ++ readLines ⟨rest, failure⟩ := readLines_append hfeed rest failure
  have halike : Transducer.Alike upstream.lineStep lines lines' :=
    Transducer.alike_of_replaces (fun x y hnoise => hnoise.alike) h
  have hrun := halike (some [])
  rw [upstream.run_lineStep, upstream.run_lineStep] at hrun
  rw [upstream.decode_eq_run, upstream.decode_eq_run, hread hfeed, hread hfeed',
    Transducer.run_append, Transducer.run_append, hrun]

/-- Two upstreams whose bodies differ by noise alone, up to where they go on alike in any way: their
clients are sent the same events, and the same is published. -/
theorem handleStream_of_upToNoise (upstream : Upstream σ) (readings : Readings)
    (request : UnifiedRequest) {s s' : GatewayState κ ε σ} {lines lines' : List Str}
    (h : upstream.UpToNoise lines lines') (hfeed : ∀ line ∈ lines, '\n' ∉ line)
    (hfeed' : ∀ line ∈ lines', '\n' ∉ line) (rest : List UInt8) (failure : Option Str)
    (hplain : upstream.Streams request s.upstream
      ⟨Utf8.encode (lines.flatMap (· ++ ['\n'])) ++ rest, failure⟩)
    (hnoisy : upstream.Streams request s'.upstream
      ⟨Utf8.encode (lines'.flatMap (· ++ ['\n'])) ++ rest, failure⟩) :
    (handleStream readings upstream.provider request s).1 =
        (handleStream readings upstream.provider request s').1 ∧
      ∃ published, (handleStream readings upstream.provider request s).2.bus =
          s.bus ++ published ∧
        (handleStream readings upstream.provider request s').2.bus = s'.bus ++ published := by
  obtain ⟨hevents, hbus⟩ := handleStream_of_streams hplain readings
  obtain ⟨hevents', hbus'⟩ := handleStream_of_streams hnoisy readings
  rw [← Upstream.decode_of_upToNoise h hfeed hfeed'] at hevents' hbus'
  exact ⟨hevents.trans hevents'.symm, _, hbus, hbus'⟩

def hiNoisy : List Str :=
  [": ping".toList, "data: ".toList ++ hiData ++ ['\r'], [], "data: [DONE]".toList, []]

theorem upToNoise_hi : streamer.UpToNoise hiLines hiNoisy := by
  have hcomment : streamer.Noise [] [": ping".toList] :=
    .openAi _ _ _ _ (.inl (.inr (by decide +kernel)))
  have hreturn : streamer.Noise ["data: ".toList ++ hiData] ["data: ".toList ++ hiData ++ ['\r']] :=
    .spaces _ _ _ (trim_append_whitespace (by decide) _).symm
  apply Relation.EqvGen.trans _ (": ping".toList :: hiLines)
  · exact .rel _ _ (.intro hcomment [] hiLines)
  · exact .rel _ _ (.intro hreturn [": ping".toList] [[], "data: [DONE]".toList, []])

theorem handleStream_of_upToNoise_hi :
    (handleStream noon streamer.provider streamRequest (streaming (linesBody hiLines))).1 =
        (handleStream noon streamer.provider streamRequest (streaming (linesBody hiNoisy))).1 ∧
      ∃ published : List GatewayEvent,
        (handleStream noon streamer.provider streamRequest (streaming (linesBody hiLines))).2.bus =
          [] ++ published ∧
        (handleStream noon streamer.provider streamRequest (streaming (linesBody hiNoisy))).2.bus =
          [] ++ published := by
  have hstreams (lines : List Str) : streamer.Streams streamRequest
      (streaming (linesBody lines)).upstream
      ⟨Utf8.encode (lines.flatMap (· ++ ['\n'])) ++ [], none⟩ := by
    rw [List.append_nil]
    exact ⟨received (linesBody lines), linesBody lines, rfl, rfl, rfl⟩
  exact handleStream_of_upToNoise streamer noon streamRequest upToNoise_hi (by decide +kernel)
    (by decide +kernel) [] none (hstreams hiLines) (hstreams hiNoisy)

end NeuRust.Gateway
