import NeuRust.Gateway.Interleavings

/-!
What the exact cache saves when handlers take turns. The cache is filled when the first answer
comes, so that handlers that wait by then for the same key each ask their provider. As long as
nothing expires and the keys fit into the cache, there are no more answers for a key than handlers
that have waited for it at once.
-/

namespace NeuRust.Gateway

open Cache Observability

variable {κ ε σ τ : Type*} [DecidableEq κ]

/-! ### What the cache keeps -/

/-- The cache has the key of every completion that was given, and room for one key more. -/
structure Keeps (hasher : List UInt8 → κ) (keys : List κ) (begin ttl : ℕ)
    (c : TieredCache κ ε UnifiedResponse) (log : List Answered) : Prop where
  exactOnly : c.semantic = none
  room : keys.length < c.exact.maxEntries
  timeToLive : c.exact.defaultTtl = ttl
  entries : ∀ k e, c.exact.map.lookup k = some e → k ∈ keys ∧ begin ≤ e.createdAt ∧ e.ttl = ttl
  answered : ∀ a ∈ log, computeCacheKey hasher a.request ∈ c.exact.map

section

variable {app : AppState κ ε τ} {keys : List κ} {begin ttl : ℕ} {readings : Readings}
  {req : ChatCompletionRequest} {c : TieredCache κ ε UnifiedResponse} {log : List Answered}

theorem Keeps.get (h : Keeps app.hasher keys begin ttl c log) {now : ℕ} (k : κ)
    (hnow : now ≤ begin + ttl) :
    Keeps app.hasher keys begin ttl { c with exact := (c.exact.get now k).2 } log ∧
      ((c.exact.get now k).1 = none → k ∉ c.exact.map) := by
  obtain ⟨hmiss, hget⟩ | ⟨e, hlookup, hget⟩ := get_cases_of_unexpired h.entries k hnow
  · rw [hget]
    exact ⟨h, fun _ => hmiss⟩
  · refine ⟨⟨h.exactOnly, ?_, ?_, fun k' e' he' => ?_, fun a ha => ?_⟩, ?_⟩
    · rw [hget]
      exact h.room
    · rw [hget]
      exact h.timeToLive
    · obtain ⟨e₀, he₀, hsame⟩ := ExactCache.lookup_of_lookup_get he'
      rw [hsame.createdAt, hsame.ttl]
      exact h.entries k' e₀ he₀
    · rw [hget]
      exact AList.mem_replace.mpr (h.answered a ha)
    · rw [hget]
      exact nofun

/-- There is room for one more completion, whether or not its key is there. -/
theorem Keeps.store (h : Keeps app.hasher keys begin ttl c log)
    (hasks : AsksWithin app keys begin ttl readings req) (response : UnifiedResponse) :
    Keeps app.hasher keys begin ttl
      (c.store app.hasher app.embedding readings.storeAt (toUnifiedRequest req) response)
      (log ++ [⟨toUnifiedRequest req, response⟩]) := by
  have hsize : c.exact.map.size < c.exact.maxEntries := by
    apply lt_of_le_of_lt _ h.room
    apply AList.size_le_of_forall_mem
    intro k hk
    obtain ⟨e, he⟩ := AList.exists_lookup hk
    exact (h.entries k e he).1
  refine ⟨?_, h.room, h.timeToLive, fun k e he => ?_, answered_store hsize h.answered response⟩
  · rw [TieredCache.store, h.exactOnly]
    rfl
  · rw [map_store_of_lt hsize] at he
    rcases AList.lookup_insert_cases he with ⟨rfl, rfl⟩ | ⟨-, hold⟩
    · exact ⟨hasks.key, hasks.stored, h.timeToLive⟩
    · exact h.entries k e hold

def KeepsAnswers (app : AppState κ ε τ) (keys : List κ) (begin ttl : ℕ)
    (g : GatewayState κ ε (τ × List Answered)) : Prop :=
  ∃ c, g.cache = some c ∧ Keeps app.hasher keys begin ttl c g.upstream.2

theorem KeepsAnswers.of_same {g g' : GatewayState κ ε (τ × List Answered)}
    (hg : KeepsAnswers app keys begin ttl g) (hcache : g'.cache = g.cache)
    (hlog : g'.upstream.2 = g.upstream.2) : KeepsAnswers app keys begin ttl g' := by
  obtain ⟨c, hc, hkeeps⟩ := hg
  exact ⟨c, hcache.trans hc, hlog ▸ hkeeps⟩

theorem KeepsAnswers.lookup {g : GatewayState κ ε (τ × List Answered)}
    (hg : KeepsAnswers app keys begin ttl g) (hasks : AsksWithin app keys begin ttl readings req) :
    KeepsAnswers app keys begin ttl
        { g with cache := (cacheLookup (logged app) readings req g).2 } ∧
      ((cacheLookup (logged app) readings req g).1 = none →
        ∀ a ∈ g.upstream.2, computeCacheKey app.hasher a.request ≠ chatKey app req) := by
  obtain ⟨c, hcache, hc⟩ := hg
  have hexact : ExactOnly g.cache := by
    intro c' hc'
    obtain rfl : c = c' := Option.some.inj (hcache.symm.trans hc')
    exact hc.exactOnly
  have hlookup : ExactLookup (logged app) readings req g.cache
      (cacheLookup (logged app) readings req g) := cacheLookup_exact hexact
  generalize cacheLookup (logged app) readings req g = looked at hlookup
  rw [hcache] at hlookup
  cases hlookup
  obtain ⟨hget, hmiss⟩ := hc.get (chatKey app req) hasks.lookedUp
  refine ⟨⟨_, rfl, hget⟩, fun hnone a ha heq => hmiss hnone ?_⟩
  rw [← heq]
  exact hc.answered a ha

end

/-! ### The herd -/

def Pending.waitsFor (app : AppState κ ε σ) (k : κ) : Pending σ → Bool
  | .waiting _ req _ => !req.stream.getD false && decide (chatKey app req = k)
  | .streaming _ _ _ _ => false

def waitingFor (app : AppState κ ε σ) (k : κ) (s : Server κ ε σ) : ℕ :=
  s.pending.countP (Pending.waitsFor app k)

def answersFor (hasher : List UInt8 → κ) (k : κ) (log : List Answered) : ℕ :=
  log.countP fun a => computeCacheKey hasher a.request = k

/-- What a step does to the answers for a key and to those who wait for one: nobody new waits, or
somebody does and there is no answer yet, or somebody gets one. -/
inductive HerdMove (waiting answers waiting' answers' : ℕ) : Prop
  | less (hwaiting : waiting' ≤ waiting) (hanswers : answers' = answers)
  | unanswered (hanswers : answers' = 0)
  | answered (hwaiting : waiting' + 1 = waiting) (hanswers : answers' = answers + 1)

section

variable {app : AppState κ ε τ} {keys : List κ} {begin ttl : ℕ} {s s' : LoggedServer κ ε τ}
  {op : HandlerOp (τ × List Answered)}

theorem Pending.waitsFor_iff {app : AppState κ ε σ} {k : κ} {readings : Readings}
    {req : ChatCompletionRequest} {provider : Provider σ} :
    (Pending.waiting readings req provider).waitsFor app k = true ↔
      req.stream.getD false = false ∧ chatKey app req = k := by
  rw [Pending.waitsFor, Bool.and_eq_true, Bool.not_eq_true', decide_eq_true_eq]

theorem waitingFor_le {app : AppState κ ε σ} {s : Server κ ε σ} {before after : List (Pending σ)}
    {handler : Pending σ} (hpending : s.pending = before ++ handler :: after)
    (g : GatewayState κ ε σ) (k : κ) :
    waitingFor app k ⟨g, before ++ after⟩ ≤ waitingFor app k s := by
  rw [waitingFor, waitingFor, hpending]
  exact (List.Sublist.append_left (List.sublist_cons_self handler after) before).countP_le

theorem HandlerStep.herd (hs : KeepsAnswers app keys begin ttl s.gateway)
    (hrouted : AllRouted (logged app) s) (h : LoggedStep app s op s')
    (hasks : ∀ readings req, op.request = some (readings, req) →
      AsksWithin app keys begin ttl readings req) :
    KeepsAnswers app keys begin ttl s'.gateway ∧ ∀ k,
      HerdMove (waitingFor (logged app) k s) (answersFor app.hasher k s.gateway.upstream.2)
        (waitingFor (logged app) k s') (answersFor app.hasher k s'.gateway.upstream.2) := by
  cases h with
  | refused readings req reply g h =>
      have harrival := arrive_arrival (logged app) readings req s.gateway
      rw [h] at harrival
      cases harrival with
      | invalid | unknown => exact ⟨hs.of_same rfl rfl, fun _ => .less le_rfl rfl⟩
      | hit =>
          obtain ⟨hkeeps, -⟩ := hs.lookup (hasks readings req rfl)
          exact ⟨hkeeps.of_same rfl rfl, fun _ => .less le_rfl rfl⟩
  | asked readings req provider g h =>
      have harrival := arrive_arrival (logged app) readings req s.gateway
      rw [h] at harrival
      cases harrival with
      | opens provider hrouted =>
          refine ⟨hs.of_same rfl rfl, fun k => .less ?_ rfl⟩
          rw [waitingFor, List.countP_cons_of_neg]
          · exact le_rfl
          · simp [Pending.waitsFor, hrouted.stream]
      | misses provider hrouted hlookup =>
          obtain ⟨hkeeps, hnew⟩ := hs.lookup (hasks readings req rfl)
          refine ⟨hkeeps.of_same rfl rfl, fun k => ?_⟩
          by_cases hk : chatKey app req = k
          · apply HerdMove.unanswered
            rw [answersFor, List.countP_eq_zero]
            intro a ha
            rw [decide_eq_true_eq, ← hk]
            exact hnew hlookup a ha
          · apply HerdMove.less _ rfl
            rw [waitingFor, List.countP_cons_of_neg]
            · exact le_rfl
            · exact fun hwaits => hk (Pending.waitsFor_iff.mp hwaits).2
  | answered before readings req provider after reply g hpending h =>
      obtain ⟨p, -, -, rfl⟩ := exists_logging (hrouted.of_pending hpending).1.provider
      have hresumption := resume_resumption (logged app) readings (logging p) req s.gateway
      rw [h] at hresumption
      cases hresumption with
      | streamFailed e upstream hstream hcall =>
          have hlog : upstream.2 = s.gateway.upstream.2 := logging_stream hcall
          refine ⟨hs.of_same rfl hlog, fun k => .less (waitingFor_le hpending _ k) ?_⟩
          exact congrArg (answersFor app.hasher k) hlog
      | failed e upstream hstream hcall =>
          have hlog : upstream.2 = s.gateway.upstream.2 := (logging_complete_error hcall).2
          refine ⟨hs.of_same rfl hlog, fun k => .less (waitingFor_le hpending _ k) ?_⟩
          exact congrArg (answersFor app.hasher k) hlog
      | completed response upstream hstream hcall =>
          have hlog : upstream.2 = s.gateway.upstream.2 ++ [⟨toUnifiedRequest req, response⟩] :=
            (logging_complete_ok hcall).2
          obtain ⟨c, hcache, hc⟩ := hs
          refine ⟨⟨_, by rw [hcache]; rfl, ?_⟩, fun k => ?_⟩
          · rw [hlog]
            exact hc.store (hasks readings req rfl) response
          · have hanswers : answersFor app.hasher k upstream.2 =
                answersFor app.hasher k s.gateway.upstream.2 +
                  if chatKey app req = k then 1 else 0 := by
              rw [hlog, answersFor, List.countP_append, List.countP_singleton]
              simp only [decide_eq_true_eq]
              rfl
            by_cases hk : chatKey app req = k
            · rw [if_pos hk] at hanswers
              have hwaits : (Pending.waiting readings req (logging p)).waitsFor (logged app) k :=
                Pending.waitsFor_iff.mpr ⟨hstream, hk⟩
              refine .answered ?_ hanswers
              rw [waitingFor, waitingFor, hpending, List.countP_append, List.countP_append,
                List.countP_cons_of_pos hwaits, Nat.add_assoc]
            · rw [if_neg hk] at hanswers
              exact .less (waitingFor_le hpending _ k) hanswers
  | opened before readings req provider after items g hpending h =>
      obtain ⟨p, -, -, rfl⟩ := exists_logging (hrouted.of_pending hpending).1.provider
      have hresumption := resume_resumption (logged app) readings (logging p) req s.gateway
      rw [h] at hresumption
      cases hresumption with
      | streams items upstream hstream hcall =>
          have hlog : upstream.2 = s.gateway.upstream.2 := logging_stream hcall
          refine ⟨hs.of_same rfl hlog, fun k => .less ?_ (congrArg (answersFor app.hasher k) hlog)⟩
          rw [waitingFor, waitingFor, hpending, List.countP_append, List.countP_append,
            List.countP_cons_of_neg Bool.false_ne_true]
          exact Nat.add_le_add_left (List.sublist_cons_self _ _).countP_le _
  | read before readings req provider items after hpending =>
      exact ⟨hs.of_same rfl rfl, fun k => .less (waitingFor_le hpending _ k) rfl⟩
  | dropped before handler after hpending =>
      exact ⟨hs, fun k => .less (waitingFor_le hpending _ k) rfl⟩
  | drifted upstream h =>
      exact ⟨hs.of_same rfl h, fun k => .less le_rfl (congrArg (answersFor app.hasher k) h)⟩
  | finished before event after htasks => exact ⟨hs.of_same rfl rfl, fun _ => .less le_rfl rfl⟩

/-- While there is an answer, it and those who still wait for one are not more than the herd. -/
def WithinHerd (app : AppState κ ε τ) (keys : List κ) (begin ttl n : ℕ) (s : LoggedServer κ ε τ) :
    Prop :=
  KeepsAnswers app keys begin ttl s.gateway ∧ ∀ k,
    answersFor app.hasher k s.gateway.upstream.2 = 0 ∨
      answersFor app.hasher k s.gateway.upstream.2 + waitingFor (logged app) k s ≤ n

theorem WithinHerd.step {n : ℕ} (hs : WithinHerd app keys begin ttl n s)
    (hrouted : AllRouted (logged app) s) (h : LoggedStep app s op s')
    (hasks : ∀ readings req, op.request = some (readings, req) →
      AsksWithin app keys begin ttl readings req)
    (hherd : ∀ k, waitingFor (logged app) k s ≤ n) : WithinHerd app keys begin ttl n s' := by
  obtain ⟨hkeeps, hmove⟩ := h.herd hs.1 hrouted hasks
  refine ⟨hkeeps, fun k => ?_⟩
  have hk := hs.2 k
  have hn := hherd k
  cases hmove k with
  | less hwaiting hanswers => omega
  | unanswered hanswers => exact .inl hanswers
  | answered hwaiting hanswers => omega

end

/-- In every run from an empty exact cache that has room for one key more than are asked for, as
long as nothing expires: if never more than `n` handlers wait for one key at once, then at most `n`
completions are given for a key. -/
theorem answers_le_herd (app : AppState κ ε τ) (upstream : τ) (keys : List κ)
    (maxEntries ttl begin n : ℕ) {warmer : Option CacheWarmer} (hroom : keys.length < maxEntries)
    {steps : List (Transition (LoggedServer κ ε τ) (HandlerOp (τ × List Answered)))}
    {s : LoggedServer κ ε τ}
    (run : Run (LoggedStep app)
      (unvisited (upstream, []) (some ⟨.new maxEntries ttl, none, warmer⟩)) steps s)
    (hasks : ∀ t ∈ steps, ∀ readings req, t.label.request = some (readings, req) →
      AsksWithin app keys begin ttl readings req)
    (hherd : ∀ t ∈ steps, ∀ k, waitingFor (logged app) k t.pre ≤ n) (k : κ) :
    answersFor app.hasher k s.gateway.upstream.2 ≤ n := by
  have h : AllRouted (logged app) s ∧ WithinHerd app keys begin ttl n s := by
    apply run.invariant_of_forall
      (I := fun s => AllRouted (logged app) s ∧ WithinHerd app keys begin ttl n s)
      (P := fun t => (∀ readings req, t.label.request = some (readings, req) →
        AsksWithin app keys begin ttl readings req) ∧ ∀ k, waitingFor (logged app) k t.pre ≤ n)
    · refine ⟨by simp [AllRouted, unvisited], ⟨_, rfl, ?_⟩, fun k => .inl rfl⟩
      exact ⟨rfl, hroom, rfl, by simp [ExactCache.new], by simp [unvisited]⟩
    · intro s op s' hs h hgood
      exact ⟨h.allRouted hs.1, hs.2.step hs.1 h hgood.1 hgood.2⟩
    · exact fun t ht => ⟨hasks t ht, hherd t ht⟩
  have hk := h.2.2 k
  omega

theorem answers_le_herd_both :
    answersFor spelling.hasher (chatKey spelling ask) (bothAnswered ask).gateway.upstream.2 ≤
      2 := by
  have hpending : ∀ t ∈ bothAsk ask, t.pre.pending.length ≤ 2 := by simp [bothAsk]
  have hrequests : ∀ t ∈ bothAsk ask, t.label.request = some (atStart, ask) := by
    simp [bothAsk, HandlerOp.request]
  apply answers_le_herd spelling () [chatKey spelling ask] 2 60 0 2 Nat.one_lt_two
    (run_bothAsk rfl routed_ask_spelling)
  · intro t ht readings req hrequest
    rw [hrequests t ht] at hrequest
    cases hrequest
    exact ⟨List.mem_singleton_self _, Nat.zero_le _, Nat.zero_le _⟩
  · exact fun t ht k => List.countP_le_length.trans (hpending t ht)

end NeuRust.Gateway
