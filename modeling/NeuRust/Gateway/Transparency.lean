import NeuRust.Gateway.CachedAnswers

/-!
Where the cache key decides what is answered, the exact cache cannot be noticed: a gateway with it
and one without give the same replies to the same requests.
-/

namespace NeuRust.Gateway

open Cache

variable {κ ε σ : Type*} [DecidableEq κ]

def serveAll (app : AppState κ ε σ) :
    List (Readings × ChatCompletionRequest) → GatewayState κ ε σ → List Reply
  | [], _ => []
  | (readings, req) :: calls, s =>
      (chatCompletions app readings req s).1 ::
        serveAll app calls (chatCompletions app readings req s).2

/-- A completion is answered by its key alone, whichever provider is asked and whatever has been
asked before; a stream may depend on its provider and on the whole request. -/
structure AnswersByKey (app : AppState κ ε σ) (answer : κ → Except Error UnifiedResponse)
    (stream : Provider σ → UnifiedRequest → Except Error (List (Except Error StreamChunk))) :
    Prop where
  complete : ∀ provider ∈ app.providers, ∀ request upstream,
    provider.Supports request.model.modelName →
      (provider.complete request upstream).1 = answer (computeCacheKey app.hasher request)
  completeStream : ∀ provider ∈ app.providers, ∀ request upstream,
    (provider.completeStream request upstream).1 = stream provider request

structure HoldsAnswers (answer : κ → Except Error UnifiedResponse) (s : GatewayState κ ε σ) :
    Prop where
  exactOnly : ExactOnly s.cache
  answers : ∀ k e, Holds s.cache k e → answer k = .ok e.response

theorem HoldsAnswers.of_none {answer : κ → Except Error UnifiedResponse} {s : GatewayState κ ε σ}
    (h : s.cache = none) : HoldsAnswers answer s where
  exactOnly := by
    intro c hc
    rw [h] at hc
    cases hc
  answers := by
    rintro k e ⟨c, hc, -⟩
    rw [h] at hc
    cases hc

variable {app : AppState κ ε σ} {answer : κ → Except Error UnifiedResponse}
  {stream : Provider σ → UnifiedRequest → Except Error (List (Except Error StreamChunk))}
  {readings : Readings} {req : ChatCompletionRequest} {s : GatewayState κ ε σ}
  {result : Reply × GatewayState κ ε σ}

omit [DecidableEq κ] in
theorem AnswersByKey.answer_eq {provider : Provider σ} {streamed : Bool} {upstream upstream' : σ}
    {response : Except Error UnifiedResponse} (h : AnswersByKey app answer stream)
    (hrouted : Routed app req provider streamed)
    (hcall : provider.complete (toUnifiedRequest req) upstream = (response, upstream')) :
    answer (chatKey app req) = response := by
  obtain ⟨hmem, hsupports⟩ := AppState.supports_of_findProvider hrouted.provider
  rw [chatKey, ← h.complete provider hmem (toUnifiedRequest req) upstream hsupports, hcall]

omit [DecidableEq κ] in
theorem AnswersByKey.stream_eq {provider : Provider σ} {streamed : Bool} {upstream upstream' : σ}
    {response : Except Error (List (Except Error StreamChunk))} (h : AnswersByKey app answer stream)
    (hrouted : Routed app req provider streamed)
    (hcall : provider.completeStream (toUnifiedRequest req) upstream = (response, upstream')) :
    stream provider (toUnifiedRequest req) = response := by
  obtain ⟨hmem, -⟩ := AppState.supports_of_findProvider hrouted.provider
  rw [← h.completeStream provider hmem (toUnifiedRequest req) upstream, hcall]

theorem HoldsAnswers.outcome (h : AnswersByKey app answer stream) (hs : HoldsAnswers answer s)
    (houtcome : Outcome app readings req s result) : HoldsAnswers answer result.2 := by
  obtain ⟨hexact, hholds⟩ := houtcome.holds hs.exactOnly
  refine ⟨hexact, fun k e he => ?_⟩
  rcases hholds k e he with ⟨e₀, hbefore, hresponse⟩ | ⟨rfl, provider, hrouted, hcall⟩
  · rw [hresponse]
    exact hs.answers k e₀ hbefore
  · exact h.answer_eq hrouted hcall

/-- The reply that the key and the request decide. -/
def plainReply (app : AppState κ ε σ) (answer : κ → Except Error UnifiedResponse)
    (stream : Provider σ → UnifiedRequest → Except Error (List (Except Error StreamChunk)))
    (readings : Readings) (req : ChatCompletionRequest) : Reply :=
  match validationError req with
  | some message => invalidRequest message
  | none =>
      match app.findProvider req.model with
      | none => invalidRequest (noSuchModel req.model)
      | some provider =>
          if req.stream.getD false then
            match stream provider (toUnifiedRequest req) with
            | .ok items => .stream (streamBody (streamContext readings provider req) items).1
            | .error e => serverError ("Streaming error: ".toList ++ e.display)
          else
            match answer (chatKey app req) with
            | .ok response => .completion (completionResponse readings response)
            | .error e => serverError ("Completion error: ".toList ++ e.display)

omit [DecidableEq κ] in
theorem plainReply_of_stream {provider : Provider σ} (hrouted : Routed app req provider true) :
    plainReply app answer stream readings req =
      match stream provider (toUnifiedRequest req) with
      | .ok items => .stream (streamBody (streamContext readings provider req) items).1
      | .error e => serverError ("Streaming error: ".toList ++ e.display) := by
  rw [plainReply, hrouted.valid, hrouted.provider, hrouted.stream]
  rfl

omit [DecidableEq κ] in
theorem plainReply_of_complete {provider : Provider σ} (hrouted : Routed app req provider false) :
    plainReply app answer stream readings req =
      match answer (chatKey app req) with
      | .ok response => .completion (completionResponse readings response)
      | .error e => serverError ("Completion error: ".toList ++ e.display) := by
  rw [plainReply, hrouted.valid, hrouted.provider, hrouted.stream]
  rfl

theorem HoldsAnswers.reply (h : AnswersByKey app answer stream) (hs : HoldsAnswers answer s)
    (houtcome : Outcome app readings req s result) :
    result.1 = plainReply app answer stream readings req := by
  cases houtcome with
  | invalid message hmessage => rw [plainReply, hmessage]
  | unknown hvalid hnone => rw [plainReply, hvalid, hnone]
  | streamFailed provider hrouted e upstream hcall =>
      rw [plainReply_of_stream hrouted, h.stream_eq hrouted hcall]
  | streamed provider hrouted items upstream hcall =>
      rw [plainReply_of_stream hrouted, h.stream_eq hrouted hcall]
  | hit provider hrouted response hlookup =>
      obtain ⟨e, hholds, -, rfl⟩ := holds_of_found hs.exactOnly hlookup
      rw [plainReply_of_complete hrouted, hs.answers _ e hholds]
  | failed provider hrouted e upstream hlookup hcall =>
      rw [plainReply_of_complete hrouted, h.answer_eq hrouted hcall]
  | completed provider hrouted response upstream hlookup hcall =>
      rw [plainReply_of_complete hrouted, h.answer_eq hrouted hcall]

theorem serveAll_eq (h : AnswersByKey app answer stream)
    (calls : List (Readings × ChatCompletionRequest)) (hs : HoldsAnswers answer s) :
    serveAll app calls s = calls.map fun call => plainReply app answer stream call.1 call.2 := by
  induction calls generalizing s with
  | nil => rfl
  | cons call calls ih =>
      have houtcome := chatCompletions_outcome app call.1 call.2 s
      rw [serveAll, hs.reply h houtcome, ih (hs.outcome h houtcome)]
      rfl

/-- For providers that answer by the key, all requests get the replies with the exact cache that
they get without it, from any states of the two that may have been reached. -/
theorem exact_cache_transparent (app : AppState κ ε σ)
    (answer : κ → Except Error UnifiedResponse)
    (stream : Provider σ → UnifiedRequest → Except Error (List (Except Error StreamChunk)))
    (h : AnswersByKey app answer stream) (cached uncached : GatewayState κ ε σ)
    (hcached : HoldsAnswers answer cached) (huncached : uncached.cache = none)
    (calls : List (Readings × ChatCompletionRequest)) :
    serveAll app calls cached = serveAll app calls uncached := by
  have hnone : HoldsAnswers answer uncached := .of_none huncached
  rw [serveAll_eq h calls hcached, serveAll_eq h calls hnone]

/-! ### A request sent twice -/

theorem oneProvider_answersByKey (response : UnifiedResponse) :
    AnswersByKey (oneProvider response) (fun _ => .ok response)
      (fun _ _ => .ok [.ok ⟨response.content, true, some response.usage⟩]) where
  complete := by
    intro provider hprovider request upstream _
    rw [List.mem_singleton.mp hprovider]
  completeStream := by
    intro provider hprovider request upstream
    rw [List.mem_singleton.mp hprovider]

theorem holdsAnswers_smallCache (answer : Unit → Except Error UnifiedResponse) :
    HoldsAnswers answer (⟨(), smallCache, [], [], [], 0, 0⟩ : GatewayState Unit Unit Unit) where
  exactOnly := by
    intro c hc
    obtain rfl := Option.some.inj hc
    rfl
  answers := by
    rintro k e ⟨c, hc, he⟩
    obtain rfl := Option.some.inj hc
    cases he

theorem exact_cache_transparent_twice :
    serveAll (oneProvider Observability.dearResponse) [(atStart, ask), (atStart, ask)]
        ⟨(), smallCache, [], [], [], 0, 0⟩ =
      serveAll (oneProvider Observability.dearResponse) [(atStart, ask), (atStart, ask)]
        ⟨(), none, [], [], [], 0, 0⟩ :=
  exact_cache_transparent _ _ _ (oneProvider_answersByKey Observability.dearResponse) _ _
    (holdsAnswers_smallCache _) rfl _

end NeuRust.Gateway
