import NeuRust.Cache.Tracing
import NeuRust.Gateway.Interleavings

/-!
Where a completion comes from when the cache has a semantic tier, and handlers take turns. It was
given for a request with the same key, or one with the same key was asked whose text resembles that
of a request that it was given for. However often responses are passed on from one request to the
next, what they are compared with is what they were given for.
-/

namespace NeuRust.Gateway

open Cache Observability

variable {κ ε τ : Type*} [DecidableEq κ]

/-! ### Sources -/

def similarityLimit (cache : Option (TieredCache κ ε UnifiedResponse)) : Option ℚ :=
  (cache.bind TieredCache.semantic).map SemanticCache.similarityThreshold

/-- A response that was given for a request whose text embeds so, or was in the semantic tier at
the start with that embedding. -/
def GivenFor (model : EmbeddingModel ε) (initial : Option (TieredCache κ ε UnifiedResponse))
    (log : List Answered) (x : ε) (response : UnifiedResponse) : Prop :=
  (∃ a ∈ log, model.embed a.request.lastUserMessage = some x ∧ a.response = response) ∨
    ∃ c semantic key e, initial = some c ∧ c.semantic = some semantic ∧
      semantic.entries.lookup key = some e ∧ e.embedding = x ∧ e.response = response

/-- The text of the request resembles the embedding, as the semantic tier takes it. -/
def ResemblesRequest {σ : Type*} (app : AppState κ ε σ)
    (initial : Option (TieredCache κ ε UnifiedResponse)) (req : ChatCompletionRequest) (x : ε) :
    Prop :=
  Resembles app.embedding (similarityLimit initial) (toUnifiedRequest req).lastUserMessage x

def Asked {σ : Type*} (steps : List (Transition (Server κ ε σ) (HandlerOp σ)))
    (req : ChatCompletionRequest) : Prop :=
  ∃ t ∈ steps, ∃ readings, t.label.request = some (readings, req)

/-- A response was given for the key; or a request with the key was asked whose text resembles what
the response was given for. -/
def GivenNear (app : AppState κ ε τ) (initial : Option (TieredCache κ ε UnifiedResponse))
    (steps : List (Transition (LoggedServer κ ε τ) (HandlerOp (τ × List Answered))))
    (log : List Answered) (k : κ) (response : UnifiedResponse) : Prop :=
  Given app.hasher initial log k response ∨
    ∃ req, Asked steps req ∧ chatKey app req = k ∧
      ∃ y, ResemblesRequest app initial req y ∧ GivenFor app.embedding initial log y response

omit [DecidableEq κ] in
theorem GivenFor.mono {model : EmbeddingModel ε}
    {initial : Option (TieredCache κ ε UnifiedResponse)} {log log' : List Answered} {x : ε}
    {response : UnifiedResponse} (h : GivenFor model initial log x response) (hsub : log ⊆ log') :
    GivenFor model initial log' x response :=
  h.imp_left fun ⟨a, ha, hgiven⟩ => ⟨a, hsub ha, hgiven⟩

omit [DecidableEq κ] in
theorem Asked.cons {σ : Type*} {steps : List (Transition (Server κ ε σ) (HandlerOp σ))}
    {req : ChatCompletionRequest} (h : Asked steps req)
    (t : Transition (Server κ ε σ) (HandlerOp σ)) : Asked (t :: steps) req := by
  obtain ⟨t', hmem, hrequest⟩ := h
  exact ⟨t', List.mem_cons_of_mem t hmem, hrequest⟩

section

variable {app : AppState κ ε τ} {initial : Option (TieredCache κ ε UnifiedResponse)}
  {steps : List (Transition (LoggedServer κ ε τ) (HandlerOp (τ × List Answered)))}
  {g g' : GatewayState κ ε (τ × List Answered)} {s s' : LoggedServer κ ε τ}
  {op : HandlerOp (τ × List Answered)}

theorem GivenNear.mono {log log' : List Answered} {k : κ} {response : UnifiedResponse}
    (h : GivenNear app initial steps log k response)
    (t : Transition (LoggedServer κ ε τ) (HandlerOp (τ × List Answered))) (hsub : log ⊆ log') :
    GivenNear app initial (t :: steps) log' k response := by
  rcases h with hgiven | ⟨req, hasked, hkey, y, hresembles, hfor⟩
  · exact .inl (hgiven.mono hsub)
  · exact .inr ⟨req, hasked.cons t, hkey, y, hresembles, hfor.mono hsub⟩

def TracedCache (app : AppState κ ε τ) (initial : Option (TieredCache κ ε UnifiedResponse))
    (steps : List (Transition (LoggedServer κ ε τ) (HandlerOp (τ × List Answered))))
    (g : GatewayState κ ε (τ × List Answered)) : Prop :=
  ∀ c, g.cache = some c → c.Traced (GivenNear app initial steps g.upstream.2)
    (GivenFor app.embedding initial g.upstream.2) (similarityLimit initial)

theorem tracedCache_start (app : AppState κ ε τ) (upstream : τ)
    (initial : Option (TieredCache κ ε UnifiedResponse)) :
    TracedCache app initial [] (unvisited (upstream, []) initial).gateway := by
  intro c hc
  have hinitial : initial = some c := hc
  refine ⟨?_, fun k e he => ?_, fun semantic hsemantic key e he => ?_⟩
  · rw [similarityLimit, hinitial]
    rfl
  · exact .inl (.inr ⟨e, ⟨c, hinitial, he⟩, rfl⟩)
  · exact .inr ⟨c, semantic, key, e, hinitial, hsemantic, he, rfl, rfl⟩

theorem TracedCache.mono (h : TracedCache app initial steps g)
    (t : Transition (LoggedServer κ ε τ) (HandlerOp (τ × List Answered)))
    (hsub : g.upstream.2 ⊆ g'.upstream.2) {c : TieredCache κ ε UnifiedResponse}
    (hc : g.cache = some c) : c.Traced (GivenNear app initial (t :: steps) g'.upstream.2)
      (GivenFor app.embedding initial g'.upstream.2) (similarityLimit initial) :=
  (h c hc).mono (fun _ _ hnear => hnear.mono t hsub) (fun _ _ hfor => hfor.mono hsub)

/-! ### Steps -/

/-- A lookup finds what has its source, and a response that it passes on has the request that asks
for it as one. -/
theorem TracedCache.lookup {readings : Readings} {req : ChatCompletionRequest}
    {t : Transition (LoggedServer κ ε τ) (HandlerOp (τ × List Answered))}
    (h : TracedCache app initial steps g) (ht : t.label.request = some (readings, req)) :
    (∀ response, (cacheLookup (logged app) readings req g).1 = some response →
        GivenNear app initial (t :: steps) g.upstream.2 (chatKey app req) response) ∧
      ∀ c, (cacheLookup (logged app) readings req g).2 = some c →
        c.Traced (GivenNear app initial (t :: steps) g.upstream.2)
          (GivenFor app.embedding initial g.upstream.2) (similarityLimit initial) := by
  have hasked : Asked (t :: steps) req := ⟨t, List.mem_cons_self, readings, ht⟩
  rw [cacheLookup]
  cases hbefore : g.cache with
  | none =>
      refine ⟨fun response hfound => ?_, fun c hleft => ?_⟩
      · cases hfound
      · cases hleft
  | some c =>
      have hc := h.mono t (List.Subset.refl _) hbefore
      have hsimilar : ∀ y response, ResemblesRequest app initial req y →
            GivenFor app.embedding initial g.upstream.2 y response →
              GivenNear app initial (t :: steps) g.upstream.2
                (computeCacheKey app.hasher (toUnifiedRequest req)) response :=
        fun y response hresembles hfor => .inr ⟨req, hasked, rfl, y, hresembles, hfor⟩
      obtain ⟨hfound, hleft⟩ := hc.lookup hsimilar
      refine ⟨hfound, fun c' hc' => ?_⟩
      obtain rfl := Option.some.inj hc'
      exact hleft

theorem TracedCache.move {t : Transition (LoggedServer κ ε τ) (HandlerOp (τ × List Answered))}
    (hg : TracedCache app initial steps g) (h : Move (logged app) KeepsLog g t.label g') :
    TracedCache app initial (t :: steps) g' := by
  have hsub := h.log_subset
  have hsame (hcache : g'.cache = g.cache) : TracedCache app initial (t :: steps) g' :=
    fun c hc => hg.mono t hsub (hcache ▸ hc)
  generalize hlabel : t.label = op at h
  cases h with
  | arrive readings req progress h =>
      have hrequest : t.label.request = some (readings, req) := by rw [hlabel]; rfl
      cases h with
      | invalid | unknown | opens => exact hsame rfl
      | hit | misses => exact (hg.lookup hrequest).2
  | resume readings req provider hrouted progress h =>
      cases h with
      | streamFailed | streams | failed => exact hsame rfl
      | completed response upstream hstream hcall =>
          have hgiven : (⟨toUnifiedRequest req, response⟩ : Answered) ∈ upstream.2 :=
            mem_log_of_complete hrouted.provider hcall
          intro c hc
          obtain ⟨c₀, hc₀, rfl⟩ := Option.map_eq_some_iff.mp hc
          apply (hg.mono t hsub hc₀).store
          · exact .inl (.inl ⟨_, hgiven, rfl, rfl⟩)
          · exact fun x hembed => .inl ⟨_, hgiven, hembed, rfl⟩
  | read | drop | finish => exact hsame rfl
  | drift => exact hsame rfl

theorem TracedCache.replied {t : Transition (LoggedServer κ ε τ) (HandlerOp (τ × List Answered))}
    (hg : TracedCache app initial steps g) (h : Move (logged app) KeepsLog g t.label g')
    {body : ChatCompletionResponse} (hbody : t.label.reply = some (.completion body)) :
    ∃ readings req response, t.label.request = some (readings, req) ∧
      body = completionResponse readings response ∧
        GivenNear app initial (t :: steps) g'.upstream.2 (chatKey app req) response := by
  generalize hlabel : t.label = op at h hbody ⊢
  cases h with
  | arrive readings req progress h =>
      have hrequest : t.label.request = some (readings, req) := by rw [hlabel]; rfl
      cases h with
      | invalid | unknown | opens | misses => cases hbody
      | hit provider hrouted response hlookup =>
          obtain rfl := Reply.completion.inj (Option.some.inj hbody)
          exact ⟨readings, req, response, rfl, rfl, (hg.lookup hrequest).1 response hlookup⟩
  | resume readings req provider hrouted progress h =>
      cases h with
      | streamFailed | streams | failed => cases hbody
      | completed response upstream hstream hcall =>
          obtain rfl := Reply.completion.inj (Option.some.inj hbody)
          exact ⟨readings, req, response, rfl, rfl,
            .inl (.inl ⟨_, mem_log_of_complete hrouted.provider hcall, rfl, rfl⟩)⟩
  | read | drop | drift | finish => cases hbody

end

/-- However the handlers take turns, and with the semantic tier, the completion that a step replies
with was given for a request with the same key or is in the cache at the start under it; or else a
request with the key has been asked by then whose text resembles, to the threshold of the tier, that
of a request that the response was given for, or an embedding that is there at the start. -/
theorem completion_was_given_near (app : AppState κ ε τ) (upstream : τ)
    (initial : Option (TieredCache κ ε UnifiedResponse))
    {steps : List (Transition (LoggedServer κ ε τ) (HandlerOp (τ × List Answered)))}
    {t : Transition (LoggedServer κ ε τ) (HandlerOp (τ × List Answered))} {s : LoggedServer κ ε τ}
    (run : Run (LoggedStep app) (unvisited (upstream, []) initial) (t :: steps) s)
    {body : ChatCompletionResponse} (hbody : t.label.reply = some (.completion body)) :
    ∃ readings req response, t.label.request = some (readings, req) ∧
      body = completionResponse readings response ∧
        GivenNear app initial (t :: steps) s.gateway.upstream.2 (chatKey app req) response := by
  obtain ⟨hbefore, hstep⟩ := run.before List.suffix_rfl
  have hg : TracedCache app initial steps t.pre.gateway := by
    apply hbefore.invariant_of_history (I := fun steps s => TracedCache app initial steps s.gateway)
    · exact tracedCache_start app upstream initial
    · intro steps s a s' run hs h
      exact hs.move (t := ⟨s, a, s'⟩) (h.move (allRouted_of_run run))
  obtain rfl : t.post = s := by
    cases run
    rfl
  exact hg.replied (hstep.move (allRouted_of_run hbefore)) hbody

/-! ### Another way to ask -/

/-- All texts resemble each other. -/
def alike : AppState (List UInt8) Unit Unit :=
  ⟨(oneProvider dearResponse).providers, [], id, ⟨fun _ => some (), fun _ _ => 1⟩⟩

def bothTiers : Option (TieredCache (List UInt8) Unit UnifiedResponse) :=
  some ⟨.new 2 60, some (.new 2 60 (9 / 10)), none⟩

def beforeAsk : GatewayState (List UInt8) Unit (Unit × List Answered) :=
  (unvisited ((), []) bothTiers).gateway

def asked : GatewayState (List UInt8) Unit (Unit × List Answered) :=
  { beforeAsk.countRequest with cache := (cacheLookup (logged alike) atStart ask beforeAsk).2 }

def afterAsk : GatewayState (List UInt8) Unit (Unit × List Answered) :=
  (resume (logged alike) atStart (logging dear) ask asked).state

def afterOther : GatewayState (List UInt8) Unit (Unit × List Answered) :=
  { afterAsk.countRequest with
    cache := (cacheLookup (logged alike) atStart askOther afterAsk).2
    bus := afterAsk.bus ++ [cacheHitEvent atStart askOther] }

theorem routed_alike {req : ChatCompletionRequest} (hvalid : validationError req = none)
    (hmodel : req.model = "gpt-4".toList) (hstream : req.stream = none) :
    Routed (logged alike) req (logging dear) false := by
  refine ⟨hvalid, ?_, by rw [hstream]; rfl⟩
  rw [hmodel]
  exact AppState.findProvider_of_unique rfl

theorem cacheLookup_ask : (cacheLookup (logged alike) atStart ask beforeAsk).1 = none := rfl

theorem cacheLookup_askOther :
    (cacheLookup (logged alike) atStart askOther afterAsk).1 = some dearResponse := by
  decide +kernel

def asksFirst : List (Transition (LoggedServer (List UInt8) Unit Unit)
    (HandlerOp (Unit × List Answered))) :=
  [⟨⟨asked, [.waiting atStart ask (logging dear)]⟩,
      .resume atStart ask (some (.completion (completionResponse atStart dearResponse))),
      ⟨afterAsk, []⟩⟩,
    ⟨⟨beforeAsk, []⟩, .arrive atStart ask none,
      ⟨asked, [.waiting atStart ask (logging dear)]⟩⟩]

/-- The second one asks otherwise, and gets the answer to the first. -/
def asksOtherwise : Transition (LoggedServer (List UInt8) Unit Unit)
    (HandlerOp (Unit × List Answered)) :=
  ⟨⟨afterAsk, []⟩,
    .arrive atStart askOther (some (.completion (completionResponse atStart dearResponse))),
    ⟨afterOther, []⟩⟩

theorem run_asksOtherwise : Run (LoggedStep alike) (unvisited ((), []) bothTiers)
    (asksOtherwise :: asksFirst) ⟨afterOther, []⟩ := by
  have hask : Routed (logged alike) ask (logging dear) false :=
    routed_alike (by decide +kernel) rfl rfl
  have hother : Routed (logged alike) askOther (logging dear) false :=
    routed_alike (by decide +kernel) rfl rfl
  apply Run.snoc
  · apply Run.snoc
    · apply Run.snoc .nil
      exact .asked _ atStart ask (logging dear) _ (arrive_of_miss atStart hask cacheLookup_ask)
    · exact .answered _ [] atStart ask (logging dear) [] _ _ rfl rfl
  · exact .refused _ atStart askOther _ _ (arrive_of_hit atStart hother cacheLookup_askOther)

theorem completion_was_given_near_otherwise : ∃ readings req response,
    some (atStart, askOther) = some (readings, req) ∧
      completionResponse atStart dearResponse = completionResponse readings response ∧
        GivenNear alike bothTiers (asksOtherwise :: asksFirst) afterOther.upstream.2
          (chatKey alike req) response :=
  completion_was_given_near alike () bothTiers run_asksOtherwise rfl

end NeuRust.Gateway
