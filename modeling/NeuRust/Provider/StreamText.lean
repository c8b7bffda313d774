import NeuRust.Provider.Upstream

/-!
The text of a streamed answer. The loop over the lines keeps the name of the current event, which an
event line sets and a blank line clears; of a stream of complete blocks it yields what the data of
each block gives, and nothing that stands between the blocks changes that.
-/

namespace NeuRust.Provider

/-! ### Blocks of lines -/

/-- Not empty, and without white space at either end. -/
def IsTrimmed (s : Str) : Prop := s ≠ [] ∧ trim s = s

structure IsBlock (head content blank name data : Str) : Prop where
  head : trim head = "event: ".toList ++ name
  content : trim content = "data: ".toList ++ data
  blank : trim blank = []

inductive CompleteBlocks : List (Str × Str) → List Str → Prop
  | nil : CompleteBlocks [] []
  | block {head content blank name data : Str} {events : List (Str × Str)} {lines : List Str}
      (hblock : IsBlock head content blank name data) (h : CompleteBlocks events lines) :
      CompleteBlocks ((name, data) :: events) (head :: content :: blank :: lines)

def IsOther (name : Str) : Prop :=
  isContentBlockDelta name = false ∧ isMessageDelta name = false ∧ isMessageStop name = false

/-- The lines are complete blocks of these events, and between them comments, blank lines and blocks
of other events. -/
inductive Inserted : List (Str × Str) → List Str → Prop
  | nil : Inserted [] []
  | block {head content blank name data : Str} {events : List (Str × Str)} {lines : List Str}
      (hblock : IsBlock head content blank name data) (h : Inserted events lines) :
      Inserted ((name, data) :: events) (head :: content :: blank :: lines)
  | comment {line : Str} {events : List (Str × Str)} {lines : List Str}
      (hcomment : (trim line).head? = some ':') (h : Inserted events lines) :
      Inserted events (line :: lines)
  | blank {line : Str} {events : List (Str × Str)} {lines : List Str} (hblank : trim line = [])
      (h : Inserted events lines) : Inserted events (line :: lines)
  | other {head content blank name data : Str} {events : List (Str × Str)} {lines : List Str}
      (hblock : IsBlock head content blank name data) (hother : IsOther name)
      (h : Inserted events lines) : Inserted events (head :: content :: blank :: lines)

theorem CompleteBlocks.inserted {events : List (Str × Str)} {lines : List Str}
    (h : CompleteBlocks events lines) : Inserted events lines := by
  induction h with
  | nil => exact .nil
  | block hblock _ ih => exact .block hblock ih

/-- White space is not trimmed off in front of a prefix, nor off the end of trimmed text. -/
theorem IsTrimmed.trim_append {s : Str} (h : IsTrimmed s) {c : Char} (hc : isWhitespace c = false)
    (front : Str) : trim (c :: front ++ s) = c :: front ++ s := by
  obtain ⟨hne, htrim⟩ := h
  rw [trim, List.cons_append, List.dropWhile_cons_of_neg (by simp [hc]),
    List.rdropWhile_eq_self_iff]
  intro hne'
  have hlast : (c :: (front ++ s)).getLast hne' = s.getLast hne := by
    rw [List.getLast_cons (List.append_ne_nil_of_right_ne_nil front hne),
      List.getLast_append_of_right_ne_nil]
  rw [hlast]
  have hend := List.rdropWhile_last_not isWhitespace (s.dropWhile isWhitespace)
  rw [← trim, htrim] at hend
  exact hend hne

theorem isBlock_of_trimmed {name data : Str} (hname : IsTrimmed name) (hdata : IsTrimmed data) :
    IsBlock ("event: ".toList ++ name) ("data: ".toList ++ data) [] name data where
  head := hname.trim_append (by decide) _
  content := hdata.trim_append (by decide) _
  blank := rfl

/-! ### What the loop makes of a line -/

section Lines

variable {parsers : AnthropicParsers} {line : Str} (event : Str) (lines : List (Except Str Str))

theorem anthropicLoop_blank (h : trim line = []) :
    anthropicLoop parsers event (.ok line :: lines) = anthropicLoop parsers [] lines := by
  simp only [anthropicLoop, h, if_true]

theorem anthropicLoop_event {name : Str} (h : trim line = "event: ".toList ++ name) :
    anthropicLoop parsers event (.ok line :: lines) = anthropicLoop parsers name lines := by
  have hne : trim line ≠ [] := by simp [h]
  have hname : stripPrefix "event: ".toList (trim line) = some name :=
    stripPrefix_eq_some_iff.mpr h
  simp only [anthropicLoop, hne, if_false, hname]

/-- A line that starts otherwise names no event. -/
theorem stripPrefix_event_of_head {c : Char} (h : (trim line).head? = some c) (hc : c ≠ 'e') :
    stripPrefix "event: ".toList (trim line) = none := by
  by_contra hsome
  obtain ⟨name, hname⟩ := Option.ne_none_iff_exists'.mp hsome
  rw [stripPrefix_eq_some_iff.mp hname] at h
  exact hc (Option.some.inj h).symm

theorem anthropicLoop_data {data : Str} (h : trim line = "data: ".toList ++ data) :
    anthropicLoop parsers event (.ok line :: lines) =
      if isMessageStop event then []
      else eventChunks parsers event data ++ anthropicLoop parsers event lines := by
  have hne : trim line ≠ [] := by simp [h]
  have hhead : (trim line).head? = some 'd' := by
    rw [h]
    rfl
  have hdata : stripPrefix "data: ".toList (trim line) = some data :=
    stripPrefix_eq_some_iff.mpr h
  have hevent := stripPrefix_event_of_head hhead (by decide)
  simp only [anthropicLoop, hne, if_false, hevent, hdata]

theorem anthropicLoop_comment (h : (trim line).head? = some ':') :
    anthropicLoop parsers event (.ok line :: lines) = anthropicLoop parsers event lines := by
  have hne : trim line ≠ [] := by
    intro hnil
    rw [hnil] at h
    cases h
  have hevent := stripPrefix_event_of_head h (by decide)
  have hdata : stripPrefix "data: ".toList (trim line) = none := by
    by_contra hsome
    obtain ⟨data, hdata⟩ := Option.ne_none_iff_exists'.mp hsome
    rw [stripPrefix_eq_some_iff.mp hdata] at h
    cases h
  simp only [anthropicLoop, hne, if_false, hevent, hdata]

/-- A block yields what its data gives, or ends the stream. -/
theorem anthropicLoop_block {head content blank name data : Str}
    (h : IsBlock head content blank name data) :
    anthropicLoop parsers event (.ok head :: .ok content :: .ok blank :: lines) =
      if isMessageStop name then []
      else eventChunks parsers name data ++ anthropicLoop parsers [] lines := by
  rw [anthropicLoop_event event _ h.head, anthropicLoop_data name _ h.content,
    anthropicLoop_blank name lines h.blank]

end Lines

/-! ### What the loop makes of a stream -/

variable {parsers : AnthropicParsers} {events : List (Str × Str)} {lines : List Str}

def emitted (parsers : AnthropicParsers) (events : List (Str × Str)) :
    List (Except Error StreamChunk) :=
  (events.takeWhile fun e => !isMessageStop e.1).flatMap fun e => eventChunks parsers e.1 e.2

theorem emitted_cons (name data : Str) (events : List (Str × Str)) :
    emitted parsers ((name, data) :: events) =
      if isMessageStop name then []
      else eventChunks parsers name data ++ emitted parsers events := by
  rw [emitted]
  cases hstop : isMessageStop name with
  | true => simp [hstop]
  | false => simp [hstop, emitted]

/-- What is inserted between the blocks yields nothing. -/
theorem Inserted.anthropicLoop_eq (h : Inserted events lines) :
    anthropicLoop parsers [] (lines.map .ok) = emitted parsers events := by
  induction h with
  | nil => rfl
  | block hblock _ ih =>
      simp only [List.map_cons]
      rw [anthropicLoop_block [] _ hblock, ih, emitted_cons]
  | comment hcomment _ ih =>
      rw [List.map_cons, anthropicLoop_comment [] _ hcomment, ih]
  | blank hblank _ ih => rw [List.map_cons, anthropicLoop_blank [] _ hblank, ih]
  | other hblock hother _ ih =>
      simp only [List.map_cons]
      rw [anthropicLoop_block [] _ hblock, hother.2.2, if_neg Bool.false_ne_true,
        eventChunks_of_other hother.1 hother.2.1, ih, List.nil_append]

/-! ### The text -/

def deltas (items : List (Except Error StreamChunk)) : Str :=
  items.flatMap fun item => match item with
    | .ok chunk => chunk.delta
    | .error _ => []

def textField (parsers : AnthropicParsers) (data : Str) : Option Str := do
  let message ← parsers.streamDelta data
  let delta ← message.delta
  delta.text

/-- The text fields before the end of the message, put together. -/
def streamText (parsers : AnthropicParsers) (events : List (Str × Str)) : Str :=
  (((events.takeWhile fun e => !isMessageStop e.1).filter
    fun e => isContentBlockDelta e.1).filterMap fun e => textField parsers e.2).flatten

theorem deltas_append (items items' : List (Except Error StreamChunk)) :
    deltas (items ++ items') = deltas items ++ deltas items' :=
  List.flatMap_append

theorem deltas_eventChunks (parsers : AnthropicParsers) (name data : Str) :
    deltas (eventChunks parsers name data) =
      if isContentBlockDelta name then (textField parsers data).getD [] else [] := by
  rw [eventChunks]
  split
  · rw [contentChunks, textField]
    rcases parsers.streamDelta data with _ | ⟨_ | ⟨_ | text⟩⟩ <;> simp [deltas]
  · split
    · rw [messageDeltaChunks]
      cases parsers.messageDelta data <;> rfl
    · rfl

theorem streamText_cons (name data : Str) (events : List (Str × Str)) :
    streamText parsers ((name, data) :: events) =
      if isMessageStop name then []
      else (if isContentBlockDelta name then (textField parsers data).getD [] else []) ++
        streamText parsers events := by
  rw [streamText]
  cases hstop : isMessageStop name with
  | true => simp [hstop]
  | false =>
      rw [List.takeWhile_cons_of_pos (by simp [hstop])]
      cases hcontent : isContentBlockDelta name with
      | true =>
          rw [List.filter_cons_of_pos (by simp [hcontent])]
          cases htext : textField parsers data with
          | none => simp [htext, streamText]
          | some text => simp [htext, streamText]
      | false =>
          rw [List.filter_cons_of_neg (by simp [hcontent])]
          rfl

theorem deltas_emitted (parsers : AnthropicParsers) (events : List (Str × Str)) :
    deltas (emitted parsers events) = streamText parsers events := by
  induction events with
  | nil => rfl
  | cons e events ih =>
      obtain ⟨name, data⟩ := e
      rw [emitted_cons, streamText_cons]
      split
      · rfl
      · rw [deltas_append, deltas_eventChunks, ih]

/-- Of a stream of complete blocks, the chunks carry the text before the end of the message, in
order; comments, blank lines and blocks of other events between them leave the chunks as they
are. -/
theorem anthropicLoop_text {parsers : AnthropicParsers} {events : List (Str × Str)}
    {lines : List Str} (h : CompleteBlocks events lines) :
    deltas (anthropicLoop parsers [] (lines.map .ok)) = streamText parsers events ∧
      ∀ lines', Inserted events lines' →
        anthropicLoop parsers [] (lines'.map .ok) = anthropicLoop parsers [] (lines.map .ok) := by
  rw [h.inserted.anthropicLoop_eq]
  exact ⟨deltas_emitted parsers events, fun lines' hinserted => hinserted.anthropicLoop_eq⟩

def plainText : AnthropicParsers where
  streamDelta data := some ⟨some ⟨some data⟩⟩
  messageDelta _ := none

theorem anthropicLoop_text_comment :
    deltas (anthropicLoop plainText [] ([": keep-alive".toList,
      "event: ".toList ++ "content_block_delta".toList, "data: ".toList ++ "hi".toList,
      []].map .ok)) = "hi".toList := by
  have hname : IsTrimmed "content_block_delta".toList := ⟨by decide, by decide⟩
  have hdata : IsTrimmed "hi".toList := ⟨by decide, by decide⟩
  have hcomment : (trim ": keep-alive".toList).head? = some ':' := by decide
  have htext : deltas (anthropicLoop plainText [] _) = streamText plainText _ ∧ _ :=
    anthropicLoop_text (.block (isBlock_of_trimmed hname hdata) .nil)
  rw [htext.2 _ (.comment hcomment (.block (isBlock_of_trimmed hname hdata) .nil)), htext.1]
  decide

end NeuRust.Provider
