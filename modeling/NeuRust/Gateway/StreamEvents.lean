import NeuRust.Gateway.Inference
import NeuRust.Provider.Upstream

/-!
The events of a streamed answer: those it sends, and those it publishes, from the bytes that come
from upstream to the bus. The handler publishes that a request is completed when the finished chunk
carries usage, and what the decoders put into that chunk depends on the protocol.
-/

namespace NeuRust.Gateway

open NeuRust.Provider

variable {κ ε σ : Type*}

/-! ### What is sent -/

/-- Whatever a stream yields, the events that `handle_stream` sends frame it. -/
theorem handleStream_framed {readings : Readings} {provider : Provider σ} {request : UnifiedRequest}
    {s : GatewayState κ ε σ} {items : List (Except Error StreamChunk)} {upstream : σ}
    (h : provider.completeStream request s.upstream = (.ok items, upstream)) :
    ∃ events, (handleStream readings provider request s).1 = .ok events ∧
      Framed items events := by
  rw [handleStream, h]
  exact ⟨_, rfl, streamBody_framed _ items⟩

/-! ### The finished chunk of a decoded stream -/

theorem mem_of_finalChunk {items : List (Except Error StreamChunk)} {chunk : StreamChunk}
    (h : finalChunk items = some chunk) : .ok chunk ∈ items := by
  induction items with
  | nil => cases h
  | cons item items ih =>
      cases item with
      | error e => cases h
      | ok first =>
          rw [finalChunk] at h
          split at h
          · obtain rfl := Option.some.inj h
            exact List.mem_cons_self
          · exact List.mem_cons_of_mem _ (ih h)

theorem finalChunk_of_failure {items : List (Except Error StreamChunk)}
    (h : ∀ item ∈ items, item.isOk = false) : finalChunk items = none := by
  cases items with
  | nil => rfl
  | cons item items =>
      cases item with
      | error e => rfl
      | ok chunk => cases (List.forall_mem_cons.mp h).1

/-- Before a `message_delta` that parses, no chunk is finished, and its own chunk is. -/
theorem finalChunk_of_events (parsers : AnthropicParsers) (events : List (Str × Str))
    {failure : List (Except Error StreamChunk)} (h : ∀ item ∈ failure, item.isOk = false) :
    finalChunk (events.flatMap (fun e => eventChunks parsers e.1 e.2) ++ failure) =
      (firstMessageDelta parsers events).map finishingChunk := by
  induction events with
  | nil => exact finalChunk_of_failure h
  | cons e events ih =>
      obtain ⟨event, data⟩ := e
      rw [firstMessageDelta] at ih ⊢
      rw [List.flatMap_cons, List.append_assoc, eventChunks]
      cases hcontent : isContentBlockDelta event with
      | true =>
          have hdelta := isMessageDelta_of_isContentBlockDelta hcontent
          rw [List.filter_cons_of_neg (by simp [hdelta]), ← ih, if_pos rfl, contentChunks]
          rcases parsers.streamDelta data with _ | ⟨_ | delta⟩ <;> rfl
      | false =>
          rw [if_neg Bool.false_ne_true]
          cases hdelta : isMessageDelta event with
          | true =>
              rw [List.filter_cons_of_pos (by simp [hdelta]), List.filterMap_cons, if_pos rfl,
                messageDeltaChunks]
              cases parsers.messageDelta data with
              | none => exact ih
              | some delta => rfl
          | false =>
              rw [List.filter_cons_of_neg (by simp [hdelta]), ← ih, if_neg Bool.false_ne_true]
              rfl

/-! ### The two upstreams -/

inductive Upstream (σ : Type*) where
  | openAi (id : Str) (models : List Str) (backend : OpenAiBackend σ)
  | anthropic (id : Str) (models : List Str) (backend : AnthropicBackend σ)

namespace Upstream

def provider : Upstream σ → Provider σ
  | .openAi id models backend => openAiProvider id models backend
  | .anthropic id models backend => anthropicProvider id models backend

def send (request : UnifiedRequest) (s : σ) : Upstream σ → Except Error HttpResponse × σ
  | .openAi _ _ backend => backend.send { openAiRequestBody request with stream := true } s
  | .anthropic _ _ backend => backend.send { anthropicRequestBody request with stream := true } s

def decode (body : ByteStream) : Upstream σ → List (Except Error StreamChunk)
  | .openAi _ _ backend => openAiLoop backend.parseChunk (readLines body)
  | .anthropic _ _ backend => anthropicLoop backend.toAnthropicParsers [] (readLines body)

/-- The upstream is of the protocol that reports usage, and the first `message_delta` before the
end of the message has some. -/
def CarriesUsage (body : ByteStream) : Upstream σ → Prop
  | .openAi _ _ _ => False
  | .anthropic _ _ backend => ∃ delta usage,
      firstMessageDelta backend.toAnthropicParsers (beforeStop [] (readLines body)) = some delta ∧
        delta.usage = some usage

theorem completeStream_of_send {upstream : Upstream σ} {request : UnifiedRequest} {s s' : σ}
    {resp : HttpResponse} (hsend : upstream.send request s = (.ok resp, s'))
    (hsuccess : resp.isSuccess = true) :
    upstream.provider.completeStream request s = (.ok (upstream.decode resp.body), s') := by
  cases upstream with
  | openAi id models backend =>
      show openAiCompleteStream backend request s = _
      rw [openAiCompleteStream, show backend.send _ s = (.ok resp, s') from hsend]
      exact if_pos hsuccess
  | anthropic id models backend =>
      show anthropicCompleteStream backend request s = _
      rw [anthropicCompleteStream, show backend.send _ s = (.ok resp, s') from hsend]
      exact if_pos hsuccess

theorem usage_of_finalChunk_iff {upstream : Upstream σ} {body : ByteStream} :
    ((finalChunk (upstream.decode body)).bind StreamChunk.usage).isSome = true ↔
      upstream.CarriesUsage body := by
  cases upstream with
  | openAi id models backend =>
      rw [CarriesUsage, iff_false, decode]
      cases hfinal : finalChunk (openAiLoop backend.parseChunk (readLines body)) with
      | none => simp
      | some chunk =>
          have husage := usage_of_mem_openAiLoop (mem_of_finalChunk hfinal)
          simp [husage]
  | anthropic id models backend =>
      obtain ⟨failure, hloop, hfailure, -⟩ :=
        anthropicLoop_eq backend.toAnthropicParsers [] (readLines body)
      rw [CarriesUsage, decode, hloop, finalChunk_of_events _ _ hfailure]
      cases firstMessageDelta backend.toAnthropicParsers (beforeStop [] (readLines body)) with
      | none => simp
      | some delta => simp [finishingChunk, Option.isSome_iff_exists]

end Upstream

/-! ### From the bytes to the bus -/

/-- When a stream is answered, the bus tells exactly once that the request is completed if and only
if the upstream carries usage. -/
theorem completed_once_iff (upstream : Upstream σ) (readings : Readings) (request : UnifiedRequest)
    (s : GatewayState κ ε σ) (resp : HttpResponse) (s' : σ)
    (hsend : upstream.send request s.upstream = (.ok resp, s'))
    (hsuccess : resp.isSuccess = true) :
    (handleStream readings upstream.provider request s).2.bus.countP
        GatewayEvent.isRequestCompleted =
      s.bus.countP GatewayEvent.isRequestCompleted + 1 ↔ upstream.CarriesUsage resp.body := by
  rw [handleStream, Upstream.completeStream_of_send hsend hsuccess]
  simp only [List.countP_append, countP_published, Nat.add_left_cancel_iff]
  rw [← Upstream.usage_of_finalChunk_iff]
  cases (finalChunk (upstream.decode resp.body)).bind StreamChunk.usage with
  | none => simp
  | some usage => simp

/-! ### A stream of each protocol -/

def linesBody (lines : List Str) : ByteStream := ⟨Utf8.encode (lines.flatMap (· ++ ['\n'])), none⟩

def received (body : ByteStream) : HttpResponse := ⟨200, "200 OK".toList, [], body, 0⟩

def streamRequest : UnifiedRequest where
  model := ⟨"any".toList, none⟩
  messages := [⟨.user, "and now?".toList⟩]
  temperature := none
  maxTokens := none
  stream := true

def quiet : GatewayState Unit Unit Unit := { upstream := (), cache := none }

def noon : Readings := ⟨0, 0, 0, 0, 0, 0, [], 0⟩

def stopData : Str := "\x7b\"usage\":\x7b\"output_tokens\":5\x7d\x7d".toList

def stopLines : List Str :=
  ["event: message_delta".toList, "data: ".toList ++ stopData, [], "event: message_stop".toList,
    "data: \x7b\x7d".toList, []]

def stopUpstream : Upstream Unit :=
  .anthropic "anthropic".toList ["any".toList] {
    send := fun _ s => (.ok (received (linesBody stopLines)), s)
    parseResponse := fun _ => .error (.msg [])
    streamDelta := fun _ => none
    messageDelta := fun data => if data = stopData then some ⟨some ⟨5⟩⟩ else none }

theorem completed_once_iff_stop :
    (handleStream noon stopUpstream.provider streamRequest quiet).2.bus.countP
        GatewayEvent.isRequestCompleted =
      quiet.bus.countP GatewayEvent.isRequestCompleted + 1 ↔
        stopUpstream.CarriesUsage (linesBody stopLines) :=
  completed_once_iff stopUpstream noon streamRequest quiet (received (linesBody stopLines)) ()
    rfl rfl

def hiData : Str :=
  "\x7b\"choices\":[\x7b\"delta\":\x7b\"content\":\"hi\"\x7d,".toList ++
    "\"finish_reason\":\"stop\"\x7d]\x7d".toList

def hiLines : List Str := ["data: ".toList ++ hiData, [], "data: [DONE]".toList, []]

def hiUpstream : Upstream Unit :=
  .openAi "openai".toList ["any".toList] {
    send := fun _ s => (.ok (received (linesBody hiLines)), s)
    parseResponse := fun _ => .error (.msg [])
    parseChunk := fun data =>
      if data = hiData then some ⟨[⟨⟨some "hi".toList⟩, some "stop".toList⟩]⟩ else none }

theorem decode_hi : hiUpstream.decode (linesBody hiLines) =
    [.ok ⟨"hi".toList, true, none⟩, .ok ⟨[], true, none⟩] := by
  rw [hiUpstream, Upstream.decode, linesBody, readLines_encode (by decide +kernel)]
  decide +kernel

theorem handleStream_framed_hi :
    ∃ events, (handleStream noon hiUpstream.provider streamRequest quiet).1 = .ok events ∧
      Framed [.ok ⟨"hi".toList, true, none⟩, .ok ⟨[], true, none⟩] events := by
  have hsend : hiUpstream.send streamRequest () = (.ok (received (linesBody hiLines)), ()) := rfl
  have hcomplete : hiUpstream.provider.completeStream streamRequest () =
      (.ok (hiUpstream.decode (linesBody hiLines)), ()) :=
    Upstream.completeStream_of_send hsend rfl
  rw [decode_hi] at hcomplete
  exact handleStream_framed hcomplete

/-- A stream that ends as it should publishes nothing, because its chunks carry no usage. -/
theorem finished_stream_publishes_nothing :
    ¬ ∀ (upstream : Upstream Unit) (readings : Readings) (request : UnifiedRequest)
      (s : GatewayState Unit Unit Unit) (resp : HttpResponse) (s' : Unit),
      upstream.send request s.upstream = (.ok resp, s') → resp.isSuccess = true →
      (∀ item ∈ upstream.decode resp.body, item.isOk = true) →
      (∃ chunk, .ok chunk ∈ upstream.decode resp.body ∧ chunk.finished = true) →
        (handleStream readings upstream.provider request s).2.bus.countP
          GatewayEvent.isRequestCompleted = s.bus.countP GatewayEvent.isRequestCompleted + 1 := by
  intro h
  have hsend : hiUpstream.send streamRequest () = (.ok (received (linesBody hiLines)), ()) := rfl
  have hdecode : hiUpstream.decode (received (linesBody hiLines)).body =
      [.ok ⟨"hi".toList, true, none⟩, .ok ⟨[], true, none⟩] := decode_hi
  have honce := h hiUpstream noon streamRequest quiet (received (linesBody hiLines)) () hsend rfl
    (by rw [hdecode]; decide) (by rw [hdecode]; exact ⟨_, List.mem_cons_self, rfl⟩)
  rw [handleStream, Upstream.completeStream_of_send hsend rfl, hdecode] at honce
  revert honce
  decide +kernel

end NeuRust.Gateway
