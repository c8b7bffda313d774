import NeuRust.Gateway.Interleavings
import NeuRust.Gateway.Transparency

/-!
What clients notice of each other when handlers take turns: nothing, where the cache key decides
what a completion is answered. Whatever the order and whatever is in the cache by then, each reply
is the one that its request gets from a gateway that has no cache and handles nothing else.
-/

namespace NeuRust.Gateway

open Cache Observability

variable {κ ε σ : Type*} [DecidableEq κ]

section

variable {app : AppState κ ε σ} {answer : κ → Except Error UnifiedResponse}
  {stream : Provider σ → UnifiedRequest → Except Error (List (Except Error StreamChunk))}
  {drift : σ → σ → Prop} {readings : Readings} {req : ChatCompletionRequest}
  {g g' : GatewayState κ ε σ} {s s' : Server κ ε σ} {op : HandlerOp σ}

/-! ### What is in the cache -/

theorem HoldsAnswers.of_same (hg : HoldsAnswers answer g) (h : g'.cache = g.cache) :
    HoldsAnswers answer g' := by
  refine ⟨h ▸ hg.exactOnly, fun k e he => ?_⟩
  rw [h] at he
  exact hg.answers k e he

theorem HoldsAnswers.arrival {progress : Progress (Provider σ) (GatewayState κ ε σ)}
    (hg : HoldsAnswers answer g) (h : Arrival app readings req g progress) :
    HoldsAnswers answer progress.state := by
  cases h with
  | invalid | unknown | opens => exact hg.of_same rfl
  | hit | misses =>
      refine ⟨exactOnly_cacheLookup hg.exactOnly, fun k e he => ?_⟩
      obtain ⟨e₀, he₀, hsame⟩ := holds_of_cacheLookup hg.exactOnly he
      rw [hsame.response]
      exact hg.answers k e₀ he₀

/-- Also a response that comes late is stored under the key that it answers. -/
theorem HoldsAnswers.resumption {provider : Provider σ}
    {progress : Progress (List (Except Error StreamChunk)) (GatewayState κ ε σ)}
    (hanswers : AnswersByKey app answer stream) (hg : HoldsAnswers answer g)
    (hrouted : Routed app req provider (req.stream.getD false))
    (h : Resumption app readings provider req g progress) : HoldsAnswers answer progress.state := by
  cases h with
  | streamFailed | streams | failed => exact hg.of_same rfl
  | completed response upstream hstream hcall =>
      refine ⟨exactOnly_storedCache hg.exactOnly response, fun k e he => ?_⟩
      rcases holds_of_storedCache he with ⟨rfl, rfl⟩ | hbefore
      · exact hanswers.answer_eq hrouted hcall
      · exact hg.answers k e hbefore

theorem HoldsAnswers.move (hanswers : AnswersByKey app answer stream) (hg : HoldsAnswers answer g)
    (h : Move app drift g op g') : HoldsAnswers answer g' := by
  cases h with
  | arrive readings req progress h => exact hg.arrival h
  | resume readings req provider hrouted progress h => exact hg.resumption hanswers hrouted h
  | read | drop | drift | finish => exact hg.of_same rfl

/-! ### What is replied -/

theorem HoldsAnswers.reply_arrival {progress : Progress (Provider σ) (GatewayState κ ε σ)}
    (hg : HoldsAnswers answer g) (h : Arrival app readings req g progress) {reply : Reply}
    (hreply : progress.reply = some reply) :
    reply = plainReply app answer stream readings req := by
  cases h with
  | invalid message hmessage =>
      obtain rfl := Option.some.inj hreply
      rw [plainReply, hmessage]
  | unknown hvalid hnone =>
      obtain rfl := Option.some.inj hreply
      rw [plainReply, hvalid, hnone]
  | hit provider hrouted response hlookup =>
      obtain rfl := Option.some.inj hreply
      obtain ⟨e, hholds, -, rfl⟩ := holds_of_found hg.exactOnly hlookup
      rw [plainReply_of_complete hrouted, hg.answers _ e hholds]
  | opens | misses => cases hreply

omit [DecidableEq κ] in
theorem Routed.of_stream {provider : Provider σ} {streamed : Bool}
    (h : Routed app req provider (req.stream.getD false))
    (hstream : req.stream.getD false = streamed) : Routed app req provider streamed :=
  hstream ▸ h

theorem AnswersByKey.reply_resumption {provider : Provider σ}
    {progress : Progress (List (Except Error StreamChunk)) (GatewayState κ ε σ)}
    (hanswers : AnswersByKey app answer stream)
    (hrouted : Routed app req provider (req.stream.getD false))
    (h : Resumption app readings provider req g progress) {reply : Reply}
    (hreply : progress.reply = some reply) :
    reply = plainReply app answer stream readings req := by
  cases h with
  | streamFailed e upstream hstream hcall =>
      obtain rfl := Option.some.inj hreply
      rw [plainReply_of_stream (hrouted.of_stream hstream), hanswers.stream_eq hrouted hcall]
  | failed e upstream hstream hcall =>
      obtain rfl := Option.some.inj hreply
      rw [plainReply_of_complete (hrouted.of_stream hstream), hanswers.answer_eq hrouted hcall]
  | completed response upstream hstream hcall =>
      obtain rfl := Option.some.inj hreply
      rw [plainReply_of_complete (hrouted.of_stream hstream), hanswers.answer_eq hrouted hcall]
  | streams => cases hreply

def Pending.Opened
    (stream : Provider σ → UnifiedRequest → Except Error (List (Except Error StreamChunk))) :
    Pending σ → Prop
  | .waiting _ _ _ => True
  | .streaming _ req provider items => stream provider (toUnifiedRequest req) = .ok items

theorem HandlerStep.opened_of_step (hanswers : AnswersByKey app answer stream)
    (hrouted : AllRouted app s) (hs : ∀ handler ∈ s.pending, handler.Opened stream)
    (h : HandlerStep app drift s op s') : ∀ handler ∈ s'.pending, handler.Opened stream := by
  cases h with
  | refused | drifted | finished => exact hs
  | asked readings req provider g h => exact List.forall_mem_cons.mpr ⟨trivial, hs⟩
  | answered before readings req provider after reply g hpending =>
      exact (forall_pending hs hpending).2
  | read before readings req provider items after hpending => exact (forall_pending hs hpending).2
  | dropped before handler after hpending => exact (forall_pending hs hpending).2
  | opened before readings req provider after items g hpending h =>
      have hresumption := resume_resumption app readings provider req s.gateway
      rw [h] at hresumption
      have hopened : (Pending.streaming readings req provider items).Opened stream := by
        cases hresumption with
        | streams items upstream hstream hcall =>
            exact hanswers.stream_eq (hrouted.of_pending hpending).1 hcall
      exact forall_mem_middle.mpr ⟨hopened, (forall_pending hs hpending).2⟩

structure AnswersAlone (app : AppState κ ε σ) (answer : κ → Except Error UnifiedResponse)
    (stream : Provider σ → UnifiedRequest → Except Error (List (Except Error StreamChunk)))
    (s : Server κ ε σ) : Prop where
  holds : HoldsAnswers answer s.gateway
  routed : AllRouted app s
  opened : ∀ handler ∈ s.pending, handler.Opened stream

theorem AnswersAlone.step (hanswers : AnswersByKey app answer stream)
    (hs : AnswersAlone app answer stream s) (h : HandlerStep app drift s op s') :
    AnswersAlone app answer stream s' where
  holds := hs.holds.move hanswers (h.move hs.routed)
  routed := h.allRouted hs.routed
  opened := h.opened_of_step hanswers hs.routed hs.opened

theorem AnswersAlone.replied (hanswers : AnswersByKey app answer stream)
    (hs : AnswersAlone app answer stream s) (h : HandlerStep app drift s op s') {reply : Reply}
    (hreply : op.reply = some reply) : ∃ readings req, op.request = some (readings, req) ∧
      reply = plainReply app answer stream readings req := by
  cases h with
  | refused readings req reply g h =>
      have harrival := arrive_arrival app readings req s.gateway
      rw [h] at harrival
      exact ⟨readings, req, rfl, hs.holds.reply_arrival harrival hreply⟩
  | answered before readings req provider after reply g hpending h =>
      have hresumption := resume_resumption app readings provider req s.gateway
      rw [h] at hresumption
      have hrouted := (hs.routed.of_pending hpending).1
      exact ⟨readings, req, rfl, hanswers.reply_resumption hrouted hresumption hreply⟩
  | read before readings req provider items after hpending =>
      have hrouted := (hs.routed.of_pending hpending).1
      have hopened := (forall_pending hs.opened hpending).1
      rw [Pending.Opened] at hopened
      obtain rfl := Option.some.inj hreply
      refine ⟨readings, req, rfl, ?_⟩
      rw [plainReply_of_stream hrouted, hopened]
      rfl
  | asked | opened | dropped | drifted | finished => cases hreply

end

/-- However the handlers take turns, each reply of a server with the exact cache is the one that its
request gets from a gateway without a cache, whatever that one has done before: no client can tell
from its replies that there are others, or a cache. -/
theorem replies_alone (app : AppState κ ε σ) (answer : κ → Except Error UnifiedResponse)
    (stream : Provider σ → UnifiedRequest → Except Error (List (Except Error StreamChunk)))
    (h : AnswersByKey app answer stream) (drift : σ → σ → Prop) (upstream : σ)
    (cache : Option (TieredCache κ ε UnifiedResponse))
    (hcache : HoldsAnswers answer (unvisited upstream cache).gateway)
    {steps : List (Transition (Server κ ε σ) (HandlerOp σ))} {s : Server κ ε σ}
    (run : Run (HandlerStep app drift) (unvisited upstream cache) steps s) :
    ∀ t ∈ steps, ∀ reply, t.label.reply = some reply → ∃ readings req,
      t.label.request = some (readings, req) ∧
        ∀ uncached : GatewayState κ ε σ, uncached.cache = none →
          reply = (chatCompletions app readings req uncached).1 := by
  intro t ht reply hreply
  obtain ⟨earlier, -, hbefore, hstep⟩ := run.exists_before ht
  have hs : AnswersAlone app answer stream t.pre := by
    apply hbefore.invariant_of_history (I := fun _ s => AnswersAlone app answer stream s)
    · exact ⟨hcache, by simp [AllRouted, unvisited], by simp [unvisited]⟩
    · exact fun _ hs h' => hs.step h h'
  obtain ⟨readings, req, hrequest, rfl⟩ := hs.replied h hstep hreply
  refine ⟨readings, req, hrequest, fun uncached huncached => ?_⟩
  have hnone : HoldsAnswers answer uncached := .of_none huncached
  exact (hnone.reply h (chatCompletions_outcome app readings req uncached)).symm

/-! ### Two at once -/

theorem spelling_answersByKey : AnswersByKey (logged spelling) (fun key => .ok (spelledOut key))
    (fun _ request => .ok [.ok ⟨(spelledOut (keyBytes request)).content, true, none⟩]) where
  complete := by
    intro provider hprovider request upstream _
    rw [List.mem_singleton.mp hprovider]
    rfl
  completeStream := by
    intro provider hprovider request upstream
    rw [List.mem_singleton.mp hprovider]
    rfl

theorem holdsAnswers_roomyCache (answer : List UInt8 → Except Error UnifiedResponse) :
    HoldsAnswers answer before where
  exactOnly := exactOnly_roomyCache
  answers := by
    rintro k e ⟨c, hc, he⟩
    obtain rfl := Option.some.inj hc
    cases he

/-- Each of the two gets what it would have got alone. -/
theorem replies_alone_both : chatKey spelling askOther ≠ chatKey spelling ask ∧
    ∃ readings req, some (atStart, ask) = some (readings, req) ∧
      ∀ uncached : GatewayState (List UInt8) Unit (Unit × List Answered), uncached.cache = none →
        spelledReply ask = (chatCompletions (logged spelling) readings req uncached).1 :=
  ⟨chatKey_askOther_ne, replies_alone (logged spelling) _ _ spelling_answersByKey KeepsLog
    ((), []) roomyCache (holdsAnswers_roomyCache _) (run_bothAsk rfl routed_askOther) _
    List.mem_cons_self _ rfl⟩

end NeuRust.Gateway
