import NeuRust.Gateway.StreamNoise

/-!
A gateway whose upstream is another gateway. The events that `handle_stream` sends are lines that
the decoder of the OpenAI protocol reads. The text goes through; what else the events say does not:
the usage is not read, and an error event is passed over, so that its stream ends like any other.
-/

namespace NeuRust.Gateway

open NeuRust.Provider

variable {κ ε σ τ : Type*}

/-! ### Events as lines -/

/-- The lines of events: a data line for each, and a blank line after it. -/
def wireLines (render : SseData → Str) (events : List SseData) : List Str :=
  events.flatMap fun e => ["data: ".toList ++ render e, []]

def StreamChunkResponse.parsed (response : StreamChunkResponse) : OpenAiStreamChunk :=
  ⟨response.choices.map fun choice => ⟨⟨choice.delta.content⟩, choice.finishReason⟩⟩

/-- An event is rendered in one line that ends without white space, and parsed for what it is: a
response has choices, and an error has none. -/
structure RendersAs (render : SseData → Str) (parse : Str → Option OpenAiStreamChunk)
    (e : SseData) : Prop where
  oneLine : '\n' ∉ render e
  trimmed : trim ("data: ".toList ++ render e) = "data: ".toList ++ render e
  isDone : isDone (render e) = true ↔ e = .done
  chunk : ∀ response, e = .chunk response → parse (render e) = some response.parsed
  error : ∀ detail, e = .error detail → parse (render e) = none

def relayed : List SseData → List (Except Error StreamChunk)
  | [] => []
  | .chunk response :: events => .ok (openAiChunk response.parsed) :: relayed events
  | .error _ :: events => relayed events
  | .done :: _ => [.ok ⟨[], true, none⟩]

theorem notMem_wireLines {render : SseData → Str} {parse : Str → Option OpenAiStreamChunk}
    {events : List SseData} (h : ∀ e ∈ events, RendersAs render parse e) :
    ∀ line ∈ wireLines render events, '\n' ∉ line := by
  intro line hline
  obtain ⟨e, he, hmem⟩ := List.mem_flatMap.mp hline
  rcases List.mem_pair.mp hmem with rfl | rfl
  · rw [List.mem_append, not_or]
    exact ⟨by decide, (h e he).oneLine⟩
  · exact List.not_mem_nil

theorem openAiLoop_wireLines {render : SseData → Str} {parse : Str → Option OpenAiStreamChunk}
    {events : List SseData} (h : ∀ e ∈ events, RendersAs render parse e) :
    openAiLoop parse ((wireLines render events).map asRead) = relayed events := by
  induction events with
  | nil => rfl
  | cons e events ih =>
      obtain ⟨he, hevents⟩ := List.forall_mem_cons.mp h
      have hblank : openAiLoop parse (asRead [] :: (wireLines render events).map asRead) =
          relayed events := by
        rw [asRead, openAiLoop]
        exact ih hevents
      have hdata : lineData ("data: ".toList ++ render e) = some (render e) := by
        rw [lineData, he.trimmed]
        exact stripPrefix_eq_some_iff.mpr rfl
      have hskip := not_skipped_of_lineData hdata
      rw [lineData] at hdata
      show openAiLoop parse (asRead ("data: ".toList ++ render e) :: asRead [] ::
        (wireLines render events).map asRead) = _
      rw [asRead, openAiLoop]
      simp only [trim_newline, if_neg hskip, hdata]
      cases e with
      | chunk response =>
          have hdone : render (.chunk response) ≠ "[DONE]".toList := fun heq =>
            by cases he.isDone.mp (decide_eq_true heq)
          rw [if_neg hdone, he.chunk response rfl]
          exact congrArg (_ :: ·) hblank
      | error detail =>
          have hdone : render (.error detail) ≠ "[DONE]".toList := fun heq =>
            by cases he.isDone.mp (decide_eq_true heq)
          rw [if_neg hdone, he.error detail rfl]
          exact hblank
      | done => rw [if_pos (of_decide_eq_true (he.isDone.mpr rfl)), relayed]

/-! ### What comes through -/

def unmetered (chunk : StreamChunk) : StreamChunk := ⟨chunk.delta, chunk.finished, none⟩

theorem openAiChunk_parsed (ctx : StreamContext) (first : Bool) (chunk : StreamChunk) :
    openAiChunk (ctx.chunkResponse first chunk).parsed = unmetered chunk := by
  have hdelta : (if chunk.delta = [] then none else some chunk.delta).getD [] = chunk.delta := by
    split_ifs with hempty
    · exact hempty.symm
    · rfl
  have hfinished : (if chunk.finished then some "stop".toList else none).isSome =
      chunk.finished := by
    cases chunk.finished <;> rfl
  rw [openAiChunk, unmetered]
  exact congrArg₂ (fun delta finished => (⟨delta, finished, none⟩ : StreamChunk)) hdelta hfinished

theorem relayed_responses (ctx : StreamContext) (first : Bool) (chunks : List StreamChunk)
    (rest : List SseData) :
    relayed ((ctx.responses first chunks).map SseData.chunk ++ rest) =
      chunks.map (fun chunk => .ok (unmetered chunk)) ++ relayed rest := by
  induction chunks generalizing first with
  | nil => rfl
  | cons chunk chunks ih =>
      rw [StreamContext.responses, ← ctx.responses_false, List.map_cons, List.cons_append, relayed,
        openAiChunk_parsed, ih]
      rfl

/-- The chunks that were delivered come through, and then the end. -/
theorem relayed_streamBody (ctx : StreamContext) (items : List (Except Error StreamChunk)) :
    relayed (streamBody ctx items).1 =
      (delivered items).map (fun chunk => .ok (unmetered chunk)) ++ [.ok ⟨[], true, none⟩] := by
  rw [streamBody, sent_streamLoop, List.append_assoc, relayed_responses]
  cases endingFailure items <;> rfl

def endChunk : StreamChunk := ⟨[], true, none⟩

/-- The second gateway delivers the chunks that the first one does, and ends the stream by itself if
none of them does. -/
theorem delivered_relayed (items : List (Except Error StreamChunk)) :
    delivered ((delivered items).map (fun chunk => .ok (unmetered chunk)) ++ [.ok endChunk]) =
      (delivered items).map unmetered ++
        if (delivered items).any StreamChunk.finished then [] else [endChunk] := by
  induction items with
  | nil => rfl
  | cons item items ih =>
      cases item with
      | error e => rfl
      | ok chunk =>
          rw [delivered_ok]
          cases hfinished : chunk.finished with
          | true =>
              have hsame : (unmetered chunk).finished = true := hfinished
              simp [delivered_ok, hsame, hfinished]
          | false =>
              have hsame : (unmetered chunk).finished = false := hfinished
              simp only [Bool.false_eq_true, if_false, List.map_cons, List.cons_append,
                delivered_ok, hsame, ih, List.any_cons, hfinished, Bool.false_or]

theorem endingFailure_of_ok {items : List (Except Error StreamChunk)}
    (h : ∀ item ∈ items, item.isOk = true) : endingFailure items = none := by
  induction items with
  | nil => rfl
  | cons item items ih =>
      cases item with
      | error e => cases (List.forall_mem_cons.mp h).1
      | ok chunk =>
          rw [endingFailure_ok, ih (List.forall_mem_cons.mp h).2, ite_self]

def sentText (events : List SseData) : Str :=
  (sentResponses events).flatMap StreamChunkResponse.content

theorem StreamContext.map_responses {β : Type*} (ctx : StreamContext)
    {f : StreamChunkResponse → β} {g : StreamChunk → β}
    (h : ∀ first chunk, f (ctx.chunkResponse first chunk) = g chunk) (first : Bool)
    (chunks : List StreamChunk) : (ctx.responses first chunks).map f = chunks.map g := by
  cases chunks with
  | nil => rfl
  | cons chunk chunks =>
      rw [StreamContext.responses, List.map_cons, List.map_cons, List.map_map, h]
      exact congrArg (g chunk :: ·) (List.map_congr_left fun chunk _ => h false chunk)

/-- Only the last chunk that is delivered is finished. -/
theorem getLast?_of_finished {items : List (Except Error StreamChunk)}
    (h : (delivered items).any StreamChunk.finished = true) :
    (delivered items).getLast?.map StreamChunk.finished = some true := by
  obtain ⟨chunk, hmem, hfinished⟩ := List.any_eq_true.mp h
  obtain ⟨i, hi⟩ := List.mem_iff_getElem?.mp hmem
  have hlast := length_of_finished hi hfinished
  rw [List.getLast?_eq_getElem?, ← hlast, Nat.add_sub_cancel, hi, Option.map_some, hfinished]

theorem contents_streamBody (ctx : StreamContext) (items : List (Except Error StreamChunk)) :
    (sentResponses (streamBody ctx items).1).map StreamChunkResponse.content =
      (delivered items).map StreamChunk.delta := by
  rw [sentResponses_streamBody]
  exact ctx.map_responses ctx.content_chunkResponse true (delivered items)

theorem finishReasons_streamBody (ctx : StreamContext) (items : List (Except Error StreamChunk)) :
    (sentResponses (streamBody ctx items).1).map StreamChunkResponse.finishReasons =
      (delivered items).map fun chunk => if chunk.finished then ["stop".toList] else [] := by
  rw [sentResponses_streamBody]
  exact ctx.map_responses ctx.finishReasons_chunkResponse true (delivered items)

def saysStop (events : List SseData) : Bool :=
  (sentResponses events).any fun response => response.finishReasons ≠ []

theorem saysStop_streamBody (ctx : StreamContext) (items : List (Except Error StreamChunk)) :
    saysStop (streamBody ctx items).1 = (delivered items).any StreamChunk.finished := by
  have hany (l : List StreamChunkResponse) : l.any (fun response => response.finishReasons ≠ []) =
      (l.map StreamChunkResponse.finishReasons).any fun reasons => reasons ≠ [] := by
    rw [List.any_map]
    rfl
  rw [saysStop, hany, finishReasons_streamBody, List.any_map]
  congr 1
  funext chunk
  cases hfinished : chunk.finished <;> simp [hfinished]

theorem delivered_relayed_streamBody (ctx : StreamContext)
    (items : List (Except Error StreamChunk)) :
    delivered (relayed (streamBody ctx items).1) = (delivered items).map unmetered ++
      if saysStop (streamBody ctx items).1 then [] else [endChunk] := by
  rw [relayed_streamBody, saysStop_streamBody]
  exact delivered_relayed items

theorem relayed_ok (ctx : StreamContext) (items : List (Except Error StreamChunk)) :
    ∀ item ∈ relayed (streamBody ctx items).1, ∃ chunk, item = .ok chunk ∧ chunk.usage = none := by
  intro item hitem
  rw [relayed_streamBody] at hitem
  rcases List.mem_append.mp hitem with hmem | hmem
  · obtain ⟨chunk, -, rfl⟩ := List.mem_map.mp hmem
    exact ⟨unmetered chunk, rfl, rfl⟩
  · exact ⟨endChunk, List.mem_singleton.mp hmem, rfl⟩

theorem getLast?_relayed (ctx : StreamContext) (items : List (Except Error StreamChunk)) :
    (delivered (relayed (streamBody ctx items).1)).getLast?.map StreamChunk.finished =
      some true := by
  rw [delivered_relayed_streamBody, saysStop_streamBody]
  split_ifs with hstop
  · rw [List.append_nil, List.getLast?_map, Option.map_map]
    exact getLast?_of_finished hstop
  · rw [List.getLast?_append, List.getLast?_singleton]
    rfl

/-- What the client of the second gateway gets: the same pieces of text, and an empty one if the
first gateway has not said that the end was reached, no error, and a reason to stop at the end. -/
structure Relays (events events' : List SseData) : Prop where
  contents : (sentResponses events').map StreamChunkResponse.content =
    (sentResponses events).map StreamChunkResponse.content ++
      if saysStop events then [] else [[]]
  noError : ∀ detail, .error detail ∉ events'
  stops : (sentResponses events').getLast?.map StreamChunkResponse.finishReasons =
    some ["stop".toList]

theorem relays_streamBody (ctx ctx' : StreamContext) (items : List (Except Error StreamChunk)) :
    Relays (streamBody ctx items).1 (streamBody ctx' (relayed (streamBody ctx items).1)).1 where
  contents := by
    rw [contents_streamBody, contents_streamBody, delivered_relayed_streamBody, List.map_append,
      List.map_map]
    split_ifs <;> rfl
  noError := by
    intro detail hmem
    have hnone : endingFailure (relayed (streamBody ctx items).1) = none := by
      apply endingFailure_of_ok
      intro item hitem
      obtain ⟨chunk, rfl, -⟩ := relayed_ok ctx items item hitem
      rfl
    rw [streamBody, sent_streamLoop, hnone] at hmem
    simp at hmem
  stops := by
    rw [← List.getLast?_map, finishReasons_streamBody, List.getLast?_map]
    obtain ⟨chunk, hlast, hfinished⟩ := Option.map_eq_some_iff.mp (getLast?_relayed ctx items)
    rw [hlast, Option.map_some, if_pos hfinished]

theorem published_relayed (ctx ctx' : StreamContext) (items : List (Except Error StreamChunk)) :
    (streamBody ctx' (relayed (streamBody ctx items).1)).2 = [] := by
  rw [published_streamBody]
  cases hfinal : finalChunk (relayed (streamBody ctx items).1) with
  | none => rfl
  | some chunk =>
      obtain ⟨chunk', heq, husage⟩ := relayed_ok ctx items _ (mem_of_finalChunk hfinal)
      obtain rfl := Except.ok.inj heq
      rw [Option.toList_some, List.flatMap_singleton, StreamContext.published, husage]

theorem Relays.sentText {events events' : List SseData} (h : Relays events events') :
    sentText events' = sentText events := by
  rw [Gateway.sentText, Gateway.sentText, List.flatMap_def, List.flatMap_def, h.contents]
  split_ifs <;> simp

/-! ### Through the second gateway -/

theorem exists_items_of_handleStream {provider : Provider σ} {readings : Readings}
    {request : UnifiedRequest} {s : GatewayState κ ε σ} {events : List SseData}
    (h : (handleStream readings provider request s).1 = .ok events) :
    ∃ ctx items, events = (streamBody ctx items).1 := by
  rw [handleStream] at h
  rcases hcall : provider.completeStream request s.upstream with ⟨e | items, upstream⟩
  · simp only [hcall] at h
    cases h
  · simp only [hcall] at h
    exact ⟨_, items, (Except.ok.inj h).symm⟩

/-- The second gateway reads the events back, whatever noise there is. -/
theorem decode_wireLines (id : Str) (models : List Str) (backend : OpenAiBackend τ)
    {render : SseData → Str} {events : List SseData}
    (hrenders : ∀ e ∈ events, RendersAs render backend.parseChunk e) {lines : List Str}
    (hnoise : (Upstream.openAi id models backend).UpToNoise (wireLines render events) lines)
    (hfeed : ∀ line ∈ lines, '\n' ∉ line) :
    (Upstream.openAi id models backend).decode (linesBody lines) = relayed events := by
  have hsame := Upstream.decode_of_upToNoise hnoise (notMem_wireLines hrenders) hfeed [] none
  rw [List.append_nil, List.append_nil] at hsame
  rw [linesBody, ← hsame]
  show openAiLoop backend.parseChunk (readLines _) = _
  rw [readLines_encode (notMem_wireLines hrenders)]
  exact openAiLoop_wireLines hrenders

/-- A stream that any provider gives to one gateway, and that another gateway gets from this one,
with keep-alive comments and other noise in between. The client of the second gateway gets the text
that the first one has sent, and the end with a reason to stop, also where the first one has sent an
error or has not come to the end; and the second gateway publishes nothing. -/
theorem handleStream_relays (provider : Provider σ) (readings readings' : Readings)
    (request request' : UnifiedRequest) {s : GatewayState κ ε σ} {s' : GatewayState κ ε τ}
    (id : Str) (models : List Str) (backend : OpenAiBackend τ) (render : SseData → Str)
    {events : List SseData} (hevents : (handleStream readings provider request s).1 = .ok events)
    (hrenders : ∀ e ∈ events, RendersAs render backend.parseChunk e) {lines : List Str}
    (hnoise : (Upstream.openAi id models backend).UpToNoise (wireLines render events) lines)
    (hfeed : ∀ line ∈ lines, '\n' ∉ line)
    (hstreams : (Upstream.openAi id models backend).Streams request' s'.upstream
      (linesBody lines)) :
    ∃ events', (handleStream readings' (openAiProvider id models backend) request' s').1 =
        .ok events' ∧
      sentText events' = sentText events ∧ Relays events events' ∧
      (handleStream readings' (openAiProvider id models backend) request' s').2.bus = s'.bus := by
  obtain ⟨ctx, items, rfl⟩ := exists_items_of_handleStream hevents
  obtain ⟨hevents', hbus⟩ := handleStream_of_streams hstreams readings'
  rw [decode_wireLines id models backend hrenders hnoise hfeed] at hevents' hbus
  rw [published_relayed, List.append_nil] at hbus
  exact ⟨_, hevents', (relays_streamBody ctx _ items).sentText, relays_streamBody ctx _ items, hbus⟩

def greeter : Provider Unit where
  name := "greeter".toList
  supportedModels := ["any".toList]
  complete := fun _ t => (.error (.msg []), t)
  completeStream := fun _ t => (.ok [.ok ⟨"hi".toList, true, none⟩], t)

def greeting : List SseData :=
  (streamBody (bodyContext noon greeter streamRequest) [.ok ⟨"hi".toList, true, none⟩]).1

def renderHi : SseData → Str
  | .chunk _ => hiData
  | .error _ => "\x7b\x7d".toList
  | .done => "[DONE]".toList

def streamerBackend : OpenAiBackend ByteStream where
  send := fun _ body => (.ok (received body), body)
  parseResponse := fun _ => .error (.msg [])
  parseChunk := fun data =>
    if data = hiData then some ⟨[⟨⟨some "hi".toList⟩, some "stop".toList⟩]⟩ else none

theorem rendersAs_greeting : ∀ e ∈ greeting, RendersAs renderHi streamerBackend.parseChunk e := by
  have htrimmed : trim ("data: ".toList ++ hiData) = "data: ".toList ++ hiData := by decide +kernel
  have hdone : isDone hiData = false := by decide +kernel
  intro e he
  rcases List.mem_pair.mp he with rfl | rfl
  · exact {
      oneLine := by decide +kernel
      trimmed := htrimmed
      isDone := iff_of_false (by rw [renderHi, hdone]; exact Bool.false_ne_true) nofun
      chunk := fun response heq => by
        obtain rfl := SseData.chunk.inj heq
        rfl
      error := nofun }
  · exact ⟨by decide, by decide +kernel, iff_of_true rfl rfl, nofun, nofun⟩

theorem handleStream_relays_hi :
    ∃ events', (handleStream noon (openAiProvider "openai".toList ["any".toList] streamerBackend)
        streamRequest (streaming (linesBody hiNoisy))).1 = .ok events' ∧
      sentText events' = sentText greeting ∧ Relays greeting events' ∧
      (handleStream noon (openAiProvider "openai".toList ["any".toList] streamerBackend)
        streamRequest (streaming (linesBody hiNoisy))).2.bus = [] := by
  have hevents : (handleStream noon greeter streamRequest quiet).1 = .ok greeting := rfl
  exact handleStream_relays greeter noon noon streamRequest streamRequest _ _ streamerBackend
    renderHi hevents rendersAs_greeting upToNoise_hi (by decide +kernel)
    ⟨received (linesBody hiNoisy), linesBody hiNoisy, rfl, rfl, rfl⟩

end NeuRust.Gateway
