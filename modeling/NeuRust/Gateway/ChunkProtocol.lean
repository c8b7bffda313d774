import NeuRust.Gateway.StreamEvents

/-!
How a stream that is well formed on the wire ends once it is decoded. Both protocols signal the
end of a message twice. The one decoder turns each signal into a finished chunk, the other one
only the first.
-/

namespace NeuRust.Gateway

open NeuRust.Provider

variable {σ : Type*}

/-- The last item is a finished chunk, and the items before it are chunks that are not. -/
def FinishesOnce (items : List (Except Error StreamChunk)) : Prop :=
  ∃ earlier last, items = earlier ++ [.ok last] ∧ last.finished = true ∧
    ∀ item ∈ earlier, ∃ chunk, item = .ok chunk ∧ chunk.finished = false

/-! ### Lines -/

def lineEvent (line : Str) : Option Str := stripPrefix "event: ".toList (trim line)

def lineData (line : Str) : Option Str := stripPrefix "data: ".toList (trim line)

def asRead (line : Str) : Except Str Str := .ok (line ++ ['\n'])

theorem trim_newline (line : Str) : trim (line ++ ['\n']) = trim line :=
  trim_append_whitespace (by decide) line

/-! ### The first protocol -/

def isDone (data : Str) : Bool := decide (data = "[DONE]".toList)

/-- The chunks on the data lines before the end of the message. What does not parse is an event
that the decoder does not know. -/
def messageChunks (parse : Str → Option OpenAiStreamChunk) (lines : List Str) :
    List OpenAiStreamChunk :=
  ((lines.filterMap lineData).takeWhile fun data => !isDone data).filterMap parse

/-- The last choice of the message has a reason to finish, and the end of the message comes. -/
structure OpenAiWellFormed (parse : Str → Option OpenAiStreamChunk) (lines : List Str) : Prop where
  finish : ∃ choice, ((messageChunks parse lines).flatMap OpenAiStreamChunk.choices).getLast? =
    some choice ∧ choice.finishReason.isSome = true
  done : ∃ data ∈ lines.filterMap lineData, isDone data = true

theorem not_skipped_of_lineData {line data : Str} (h : lineData line = some data) :
    ¬ (trim line = [] ∨ (trim line).head? = some ':') := by
  rw [stripPrefix_eq_some_iff.mp h]
  simp

theorem exists_done_of_cons {data : Str} {rest : List Str}
    (h : ∃ data' ∈ data :: rest, isDone data' = true) (hdone : isDone data = false) :
    ∃ data' ∈ rest, isDone data' = true := by
  obtain ⟨data', hmem, hdone'⟩ := h
  rcases List.mem_cons.mp hmem with rfl | hmem
  · rw [hdone] at hdone'
    cases hdone'
  · exact ⟨data', hmem, hdone'⟩

theorem openAiLoop_of_done (parse : Str → Option OpenAiStreamChunk) {lines : List Str}
    (h : ∃ data ∈ lines.filterMap lineData, isDone data = true) :
    openAiLoop parse (lines.map asRead) =
      (messageChunks parse lines).map (fun chunk => .ok (openAiChunk chunk)) ++
        [.ok ⟨[], true, none⟩] := by
  induction lines with
  | nil => simp at h
  | cons line lines ih =>
      rw [List.map_cons, asRead, openAiLoop, trim_newline]
      cases hdata : lineData line with
      | none =>
          rw [List.filterMap_cons_none hdata] at h
          have hchunks : messageChunks parse (line :: lines) = messageChunks parse lines := by
            rw [messageChunks, List.filterMap_cons_none hdata, messageChunks]
          rw [hchunks, ← ih h]
          rw [lineData] at hdata
          simp only [hdata, ite_self]
      | some data =>
          have hline := not_skipped_of_lineData hdata
          rw [List.filterMap_cons_some hdata] at h
          rw [messageChunks, List.filterMap_cons_some hdata]
          rw [lineData] at hdata
          simp only [if_neg hline, hdata]
          cases hdone : isDone data with
          | true =>
              -- the loop ends here, with the chunk of `[DONE]`
              rw [List.takeWhile_cons_of_neg (by simp [hdone]), if_pos (of_decide_eq_true hdone)]
              rfl
          | false =>
              rw [List.takeWhile_cons_of_pos (by simp [hdone]),
                if_neg (of_decide_eq_false hdone)]
              have hrest := exists_done_of_cons h hdone
              cases hparse : parse data with
              | none => rw [List.filterMap_cons_none hparse, ih hrest, messageChunks]
              | some chunk =>
                  rw [List.filterMap_cons_some hparse, ih hrest, messageChunks]
                  rfl

/-! ### The other protocol -/

/-- A line that stands within an event and does not name it: data, a comment, another field. -/
def IsField (line : Str) : Prop := trim line ≠ [] ∧ lineEvent line = none

instance : DecidablePred IsField := fun line =>
  inferInstanceAs (Decidable (trim line ≠ [] ∧ lineEvent line = none))

def namedData (name : Str) (lines : List Str) : List (Str × Str) :=
  (lines.filterMap lineData).map fun data => (name, data)

/-- The lines are blocks, each ended by a blank line, that carry the data listed. A block without
fields is a blank line more. -/
inductive Blocks : List Str → List (Str × Str) → Prop
  | nil : Blocks [] []
  | unnamed {fields : List Str} {blank : Str} {lines : List Str} {events : List (Str × Str)}
      (hfields : ∀ line ∈ fields, IsField line) (hblank : trim blank = [])
      (h : Blocks lines events) :
      Blocks (fields ++ blank :: lines) (namedData [] fields ++ events)
  | named {head name : Str} {fields : List Str} {blank : Str} {lines : List Str}
      {events : List (Str × Str)} (hhead : lineEvent head = some name)
      (hfields : ∀ line ∈ fields, IsField line) (hblank : trim blank = [])
      (h : Blocks lines events) :
      Blocks (head :: (fields ++ blank :: lines)) (namedData name fields ++ events)

theorem dataLines_fields {name : Str} {fields : List Str} {rest : List (Except Str Str)}
    (h : ∀ line ∈ fields, IsField line) :
    dataLines name (fields.map asRead ++ rest) = namedData name fields ++ dataLines name rest := by
  induction fields with
  | nil => rfl
  | cons line fields ih =>
      obtain ⟨⟨hblank, hevent⟩, hfields⟩ := List.forall_mem_cons.mp h
      rw [lineEvent] at hevent
      rw [List.map_cons, List.cons_append, asRead, dataLines, trim_newline]
      simp only [hblank, if_false, hevent]
      cases hdata : lineData line with
      | none =>
          rw [namedData, List.filterMap_cons_none hdata, ← namedData, ← ih hfields]
          rw [lineData] at hdata
          simp only [hdata]
      | some data =>
          rw [namedData, List.filterMap_cons_some hdata, List.map_cons, ← namedData,
            List.cons_append, ← ih hfields]
          rw [lineData] at hdata
          simp only [hdata]

theorem dataLines_blank {name blank : Str} (h : trim blank = []) (rest : List (Except Str Str)) :
    dataLines name (asRead blank :: rest) = dataLines [] rest := by
  rw [asRead, dataLines, trim_newline]
  simp only [h, if_true]

theorem dataLines_event {name head : Str} {event : Str} (h : lineEvent head = some name)
    (rest : List (Except Str Str)) :
    dataLines event (asRead head :: rest) = dataLines name rest := by
  have hblank : trim head ≠ [] := by
    intro hblank
    rw [lineEvent, hblank] at h
    cases h
  rw [lineEvent] at h
  rw [asRead, dataLines, trim_newline]
  simp only [hblank, if_false, h]

/-- The decoder finds the data that the blocks carry. -/
theorem Blocks.dataLines_eq {lines : List Str} {events : List (Str × Str)}
    (h : Blocks lines events) : dataLines [] (lines.map asRead) = events := by
  induction h with
  | nil => rfl
  | unnamed hfields hblank h ih =>
      rw [List.map_append, List.map_cons, dataLines_fields hfields, dataLines_blank hblank, ih]
  | named hhead hfields hblank h ih =>
      rw [List.map_cons, List.map_append, List.map_cons, dataLines_event hhead,
        dataLines_fields hfields, dataLines_blank hblank, ih]

/-- One `message_delta`, which parses, comes after the content and before the end of the message,
with events that the decoder does not know between them. -/
structure AnthropicWellFormed (parsers : AnthropicParsers) (lines : List Str)
    (content : List (Str × Str)) (data : Str) (between after : List (Str × Str)) : Prop where
  blocks : ∃ event stop, isMessageDelta event = true ∧ isMessageStop stop.1 = true ∧
    Blocks lines (content ++ (event, data) :: between ++ stop :: after)
  content_events : ∀ e ∈ content, isMessageDelta e.1 = false ∧ isMessageStop e.1 = false
  parses : (parsers.messageDelta data).isSome = true
  between_events : ∀ e ∈ between, isContentBlockDelta e.1 = false ∧ isMessageDelta e.1 = false ∧
    isMessageStop e.1 = false

/-- Apart from a `message_delta`, an event yields chunks that are not finished. -/
theorem unfinished_of_mem_eventChunks {parsers : AnthropicParsers} {event data : Str}
    (h : isMessageDelta event = false) {item : Except Error StreamChunk}
    (hitem : item ∈ eventChunks parsers event data) :
    ∃ chunk, item = .ok chunk ∧ chunk.finished = false := by
  simp only [eventChunks, h, Bool.false_eq_true, if_false] at hitem
  split at hitem
  · rw [contentChunks] at hitem
    split at hitem
    · exact ⟨_, List.mem_singleton.mp hitem, rfl⟩
    · cases hitem
  · cases hitem

theorem isMessageStop_of_isMessageDelta {event : Str} (h : isMessageDelta event = true) :
    isMessageStop event = false := by
  rw [of_decide_eq_true h]
  decide +kernel

theorem isContentBlockDelta_of_isMessageDelta {event : Str} (h : isMessageDelta event = true) :
    isContentBlockDelta event = false := by
  rw [of_decide_eq_true h]
  decide +kernel

theorem AnthropicWellFormed.finishesOnce {parsers : AnthropicParsers} {lines : List Str}
    {content : List (Str × Str)} {data : Str} {between after : List (Str × Str)}
    (h : AnthropicWellFormed parsers lines content data between after) :
    FinishesOnce (anthropicLoop parsers [] (lines.map asRead)) := by
  obtain ⟨event, stop, hevent, hstop, hblocks⟩ := h.blocks
  obtain ⟨delta, hdelta⟩ := Option.isSome_iff_exists.mp h.parses
  obtain ⟨failure, hloop, -, hread⟩ := anthropicLoop_eq parsers [] (lines.map asRead)
  have hfailure : failure = [] := by
    apply hread
    intro line hline
    obtain ⟨text, -, rfl⟩ := List.mem_map.mp hline
    rfl
  have hbefore : beforeStop [] (lines.map asRead) = content ++ (event, data) :: between := by
    rw [beforeStop, hblocks.dataLines_eq, List.takeWhile_append_of_pos]
    · rw [List.takeWhile_cons_of_neg (by simp [hstop]), List.append_nil]
    · intro e he
      rcases List.mem_append.mp he with he | he
      · simp [(h.content_events e he).2]
      · rcases List.mem_cons.mp he with rfl | he
        · simp [isMessageStop_of_isMessageDelta hevent]
        · simp [(h.between_events e he).2.2]
  have hdeltaChunks : eventChunks parsers event data = [.ok (finishingChunk delta)] := by
    rw [eventChunks, if_neg (by simp [isContentBlockDelta_of_isMessageDelta hevent]),
      if_pos hevent, messageDeltaChunks, hdelta]
  have hbetween : between.flatMap (fun e => eventChunks parsers e.1 e.2) = [] := by
    rw [List.flatMap_eq_nil_iff]
    intro e he
    obtain ⟨hcontent, hmessage, -⟩ := h.between_events e he
    exact eventChunks_of_other hcontent hmessage e.2
  refine ⟨content.flatMap fun e => eventChunks parsers e.1 e.2, finishingChunk delta, ?_, rfl, ?_⟩
  · rw [hloop, hfailure, hbefore, List.append_nil, List.flatMap_append, List.flatMap_cons,
      hdeltaChunks, hbetween, List.append_nil]
  · intro item hitem
    obtain ⟨e, he, hitem⟩ := List.mem_flatMap.mp hitem
    exact unfinished_of_mem_eventChunks (h.content_events e he).1 hitem

/-! ### Both of them -/

def Upstream.WellFormed (lines : List Str) : Upstream σ → Prop
  | .openAi _ _ backend => OpenAiWellFormed backend.parseChunk lines
  | .anthropic _ _ backend => ∃ content data between after,
      AnthropicWellFormed backend.toAnthropicParsers lines content data between after

/-- The end of the message itself is the only finished chunk: the upstream is of the other
protocol, or no chunk has a reason to finish in its first choice. -/
def Upstream.SignalsOnce (lines : List Str) : Upstream σ → Prop
  | .openAi _ _ backend => ∀ chunk ∈ messageChunks backend.parseChunk lines,
      chunk.choices.head?.bind OpenAiStreamChoice.finishReason = none
  | .anthropic _ _ _ => True

theorem finishesOnce_openAi_iff {chunks : List OpenAiStreamChunk} :
    FinishesOnce (chunks.map (fun chunk => .ok (openAiChunk chunk)) ++ [.ok ⟨[], true, none⟩]) ↔
      ∀ chunk ∈ chunks, chunk.choices.head?.bind OpenAiStreamChoice.finishReason = none := by
  constructor
  · rintro ⟨earlier, last, heq, -, hearlier⟩ chunk hchunk
    obtain ⟨rfl, -⟩ := List.append_inj' heq rfl
    obtain ⟨decoded, hdecoded, hfinished⟩ := hearlier _ (List.mem_map_of_mem hchunk)
    obtain rfl := Except.ok.inj hdecoded
    exact Option.not_isSome_iff_eq_none.mp (Bool.eq_false_iff.mp hfinished)
  · intro h
    refine ⟨_, _, rfl, rfl, ?_⟩
    intro item hitem
    obtain ⟨chunk, hchunk, rfl⟩ := List.mem_map.mp hitem
    exact ⟨openAiChunk chunk, rfl, by rw [openAiChunk, h chunk hchunk]; rfl⟩

/-- A well-formed stream is decoded into chunks of which exactly the last one is finished, if and
only if its end is signalled to the decoder once. -/
theorem finishesOnce_iff (upstream : Upstream σ) (lines : List Str)
    (hlines : ∀ line ∈ lines, '\n' ∉ line) (h : upstream.WellFormed lines) :
    FinishesOnce (upstream.decode (linesBody lines)) ↔ upstream.SignalsOnce lines := by
  cases upstream with
  | openAi id models backend =>
      rw [Upstream.decode, linesBody, readLines_encode hlines]
      show FinishesOnce (openAiLoop backend.parseChunk (lines.map asRead)) ↔ _
      rw [openAiLoop_of_done _ h.done]
      exact finishesOnce_openAi_iff
  | anthropic id models backend =>
      obtain ⟨content, data, between, after, h⟩ := h
      rw [Upstream.decode, linesBody, readLines_encode hlines]
      exact iff_of_true h.finishesOnce trivial

theorem wellFormed_stop : stopUpstream.WellFormed stopLines := by
  have hstop : Blocks ("event: message_stop".toList :: (["data: \x7b\x7d".toList] ++ [] :: []))
      (namedData "message_stop".toList ["data: \x7b\x7d".toList] ++ []) :=
    .named (by decide +kernel) (by decide +kernel) rfl .nil
  have hdelta : Blocks
      ("event: message_delta".toList :: (["data: ".toList ++ stopData] ++ [] :: stopLines.drop 3))
      (namedData "message_delta".toList ["data: ".toList ++ stopData] ++
        (namedData "message_stop".toList ["data: \x7b\x7d".toList] ++ [])) :=
    .named (by decide +kernel) (by decide +kernel) rfl hstop
  have hdata : lineData ("data: ".toList ++ stopData) = some stopData := by decide +kernel
  refine ⟨[], stopData, [], [], ⟨?_, by simp, by decide +kernel, by simp⟩⟩
  refine ⟨"message_delta".toList, ("message_stop".toList, "\x7b\x7d".toList), by decide +kernel,
    by decide +kernel, ?_⟩
  convert hdelta using 1
  · decide +kernel
  · decide +kernel

theorem wellFormed_hi : hiUpstream.WellFormed hiLines where
  finish := ⟨⟨⟨some "hi".toList⟩, some "stop".toList⟩, rfl, rfl⟩
  done := by decide +kernel

/-- One stream of each protocol: only the second one finishes once. -/
theorem finishesOnce_iff_hi_stop :
    ¬ FinishesOnce (hiUpstream.decode (linesBody hiLines)) ∧
      FinishesOnce (stopUpstream.decode (linesBody stopLines)) := by
  constructor
  · rw [finishesOnce_iff hiUpstream hiLines (by decide +kernel) wellFormed_hi]
    intro h
    cases h _ (List.mem_singleton_self _)
  · rw [finishesOnce_iff stopUpstream stopLines (by decide +kernel) wellFormed_stop]
    trivial

/-- The chunk that carries the reason to finish is not the last one. -/
theorem end_signalled_twice :
    ¬ ∀ (upstream : Upstream Unit) (lines : List Str), (∀ line ∈ lines, '\n' ∉ line) →
      upstream.WellFormed lines → FinishesOnce (upstream.decode (linesBody lines)) := by
  intro h
  obtain ⟨earlier, last, heq, -, hearlier⟩ :=
    h hiUpstream hiLines (by decide +kernel) wellFormed_hi
  rw [decode_hi] at heq
  have hfirst : .ok ⟨"hi".toList, true, none⟩ ∈ earlier := by
    obtain ⟨hearlier, -⟩ := List.append_inj' (show [_] ++ [_] = _ from heq) rfl
    exact hearlier ▸ List.mem_singleton_self _
  obtain ⟨chunk, hchunk, hfinished⟩ := hearlier _ hfirst
  obtain rfl := Except.ok.inj hchunk
  cases hfinished

end NeuRust.Gateway
