import NeuRust.Gateway.Ledger

/-!
The gateway with the exact cache, as it is set up, where requests are handled one after the other.
What a client gets as a completion was given by a provider for a request with the same key; and
while nothing expires and the keys fit into the cache, a key is answered upstream once.
-/

namespace NeuRust.Gateway

open Cache Observability

variable {κ ε σ τ : Type*} [DecidableEq κ]

/-! ### The exact tier alone -/

/-- There is a cache only if it has no semantic tier. -/
def ExactOnly (cache : Option (TieredCache κ ε UnifiedResponse)) : Prop :=
  ∀ c, cache = some c → c.semantic = none

def chatKey (app : AppState κ ε σ) (req : ChatCompletionRequest) : κ :=
  computeCacheKey app.hasher (toUnifiedRequest req)

def Holds (cache : Option (TieredCache κ ε UnifiedResponse)) (k : κ)
    (e : CacheEntry UnifiedResponse) : Prop :=
  ∃ c, cache = some c ∧ c.exact.map.lookup k = some e

section

variable {app : AppState κ ε σ} {readings : Readings} {req : ChatCompletionRequest}
  {s : GatewayState κ ε σ}

/-- What a look into the cache finds, and what it leaves. -/
inductive ExactLookup (app : AppState κ ε σ) (readings : Readings) (req : ChatCompletionRequest) :
    Option (TieredCache κ ε UnifiedResponse) →
      Option UnifiedResponse × Option (TieredCache κ ε UnifiedResponse) → Prop
  | absent : ExactLookup app readings req none (none, none)
  | present (c : TieredCache κ ε UnifiedResponse) :
      ExactLookup app readings req (some c)
        ((c.exact.get readings.lookupAt (chatKey app req)).1,
          some { c with exact := (c.exact.get readings.lookupAt (chatKey app req)).2 })

theorem cacheLookup_exact (h : ExactOnly s.cache) :
    ExactLookup app readings req s.cache (cacheLookup app readings req s) := by
  rw [cacheLookup]
  cases hcache : s.cache with
  | none => exact .absent
  | some c =>
      have hsemantic := h c hcache
      have hlookup : c.lookup app.hasher app.embedding readings.lookupAt (toUnifiedRequest req) =
          ((c.exact.get readings.lookupAt (chatKey app req)).1,
            { c with exact := (c.exact.get readings.lookupAt (chatKey app req)).2 }) := by
        rw [TieredCache.lookup]
        split
        next response exact hget =>
          rw [chatKey, hget]
        next exact hget =>
          rw [TieredCache.lookupSemantic, hsemantic, chatKey, hget]
      simp only [hlookup]
      exact .present c

theorem exactOnly_cacheLookup (h : ExactOnly s.cache) :
    ExactOnly (cacheLookup app readings req s).2 := by
  have hlookup : ExactLookup app readings req s.cache _ := cacheLookup_exact h
  generalize cacheLookup app readings req s = result at hlookup
  intro c' hc'
  cases hcache : s.cache with
  | none =>
      rw [hcache] at hlookup
      cases hlookup
      cases hc'
  | some c =>
      rw [hcache] at hlookup
      cases hlookup
      obtain rfl := Option.some.inj hc'
      exact h c hcache

theorem holds_of_cacheLookup (h : ExactOnly s.cache) {k : κ} {e : CacheEntry UnifiedResponse}
    (hholds : Holds (cacheLookup app readings req s).2 k e) :
    ∃ e₀, Holds s.cache k e₀ ∧ e.SameInsertion e₀ := by
  have hlookup : ExactLookup app readings req s.cache _ := cacheLookup_exact h
  generalize cacheLookup app readings req s = result at hlookup hholds
  obtain ⟨c', hc', he⟩ := hholds
  cases hcache : s.cache with
  | none =>
      rw [hcache] at hlookup
      cases hlookup
      cases hc'
  | some c =>
      rw [hcache] at hlookup
      cases hlookup
      obtain rfl := Option.some.inj hc'
      obtain ⟨e₀, hlookup₀, hsame⟩ := ExactCache.lookup_of_lookup_get he
      exact ⟨e₀, ⟨c, rfl, hlookup₀⟩, hsame⟩

theorem holds_of_found (h : ExactOnly s.cache) {response : UnifiedResponse}
    (hfound : (cacheLookup app readings req s).1 = some response) :
    ∃ e, Holds s.cache (chatKey app req) e ∧ e.isExpired readings.lookupAt = false ∧
      e.response = response := by
  have hlookup : ExactLookup app readings req s.cache _ := cacheLookup_exact h
  generalize cacheLookup app readings req s = result at hlookup hfound
  cases hcache : s.cache with
  | none =>
      rw [hcache] at hlookup
      cases hlookup
      cases hfound
  | some c =>
      rw [hcache] at hlookup
      cases hlookup
      obtain ⟨e, he, hfresh, hresponse⟩ := ExactCache.get_eq_some hfound
      exact ⟨e, ⟨c, rfl, he⟩, hfresh, hresponse⟩

def storedCache (app : AppState κ ε σ) (readings : Readings) (req : ChatCompletionRequest)
    (response : UnifiedResponse) (cache : Option (TieredCache κ ε UnifiedResponse)) :
    Option (TieredCache κ ε UnifiedResponse) :=
  cache.map (·.store app.hasher app.embedding readings.storeAt (toUnifiedRequest req) response)

theorem exactOnly_storedCache {cache : Option (TieredCache κ ε UnifiedResponse)}
    (h : ExactOnly cache) (response : UnifiedResponse) :
    ExactOnly (storedCache app readings req response cache) := by
  intro c' hc'
  obtain ⟨c, hc, rfl⟩ := Option.map_eq_some_iff.mp hc'
  rw [TieredCache.store, h c hc]
  rfl

/-- What is held after a response was stored is that response, or was held before. -/
theorem holds_of_storedCache {cache : Option (TieredCache κ ε UnifiedResponse)}
    {response : UnifiedResponse} {k : κ} {e : CacheEntry UnifiedResponse}
    (h : Holds (storedCache app readings req response cache) k e) :
    (k = chatKey app req ∧ e.response = response) ∨ Holds cache k e := by
  obtain ⟨c', hc', he⟩ := h
  obtain ⟨c, hc, rfl⟩ := Option.map_eq_some_iff.mp hc'
  rcases ExactCache.lookup_put_cases he with ⟨hk, rfl⟩ | ⟨-, hold⟩
  · exact .inl ⟨hk, rfl⟩
  · exact .inr ⟨c, hc, hold⟩

/-- A request leaves the exact tier alone, and leaves in it what was there before or the completion
that it is answered with. -/
theorem Outcome.holds {result : Reply × GatewayState κ ε σ} (hexact : ExactOnly s.cache)
    (h : Outcome app readings req s result) :
    ExactOnly result.2.cache ∧ ∀ k e, Holds result.2.cache k e →
      (∃ e₀, Holds s.cache k e₀ ∧ e.response = e₀.response) ∨
        k = chatKey app req ∧ ∃ provider, Routed app req provider false ∧
          provider.complete (toUnifiedRequest req) s.upstream =
            (.ok e.response, result.2.upstream) := by
  have hkept {k : κ} {e : CacheEntry UnifiedResponse}
      (hholds : Holds (cacheLookup app readings req s).2 k e) :
      ∃ e₀, Holds s.cache k e₀ ∧ e.response = e₀.response := by
    obtain ⟨e₀, hholds₀, hsame⟩ := holds_of_cacheLookup hexact hholds
    exact ⟨e₀, hholds₀, hsame.response⟩
  cases h with
  | invalid | unknown | streamFailed | streamed =>
      exact ⟨hexact, fun k e hholds => .inl ⟨e, hholds, rfl⟩⟩
  | hit | failed =>
      exact ⟨exactOnly_cacheLookup hexact, fun k e hholds => .inl (hkept hholds)⟩
  | completed provider hrouted response upstream hlookup hcall =>
      refine ⟨exactOnly_storedCache (exactOnly_cacheLookup hexact) response, fun k e hholds => ?_⟩
      rcases holds_of_storedCache hholds with ⟨hk, rfl⟩ | hbefore
      · exact .inr ⟨hk, provider, hrouted, hcall⟩
      · exact .inl (hkept hbefore)

end

/-! ### Where a completion comes from -/

/-- A response that was given for a request with the key, or was in the cache at the start. -/
def Given (hasher : List UInt8 → κ) (initial : Option (TieredCache κ ε UnifiedResponse))
    (log : List Answered) (k : κ) (response : UnifiedResponse) : Prop :=
  (∃ a ∈ log, computeCacheKey hasher a.request = k ∧ a.response = response) ∨
    ∃ e, Holds initial k e ∧ e.response = response

theorem Given.mono {hasher : List UInt8 → κ} {initial : Option (TieredCache κ ε UnifiedResponse)}
    {log log' : List Answered} {k : κ} {response : UnifiedResponse}
    (h : Given hasher initial log k response) (hsub : log ⊆ log') :
    Given hasher initial log' k response :=
  h.imp_left fun ⟨a, ha, hgiven⟩ => ⟨a, hsub ha, hgiven⟩

/-- Everything in the cache was given for its key. -/
structure Sourced (hasher : List UInt8 → κ) (initial : Option (TieredCache κ ε UnifiedResponse))
    (s : GatewayState κ ε (τ × List Answered)) : Prop where
  exactOnly : ExactOnly s.cache
  given : ∀ k e, Holds s.cache k e → Given hasher initial s.upstream.2 k e.response

section

variable {app : AppState κ ε τ} {initial : Option (TieredCache κ ε UnifiedResponse)}
  {readings : Readings} {req : ChatCompletionRequest} {s s' : GatewayState κ ε (τ × List Answered)}
  {result : Reply × GatewayState κ ε (τ × List Answered)}

theorem Outcome.log_subset (h : Outcome (logged app) readings req s result) :
    s.upstream.2 ⊆ result.2.upstream.2 := by
  obtain ⟨hlog, -⟩ | ⟨response, -, hlog, -⟩ := h.log
  · rw [hlog]
    exact List.Subset.refl _
  · rw [hlog]
    exact List.subset_append_left _ _

theorem Sourced.outcome (hs : Sourced app.hasher initial s)
    (h : Outcome (logged app) readings req s result) : Sourced app.hasher initial result.2 := by
  obtain ⟨hexact, hholds⟩ := h.holds hs.exactOnly
  refine ⟨hexact, fun k e he => ?_⟩
  rcases hholds k e he with ⟨e₀, hbefore, hresponse⟩ | ⟨rfl, provider, hrouted, hcall⟩
  · rw [hresponse]
    exact Given.mono (hs.given k e₀ hbefore) h.log_subset
  · exact .inl ⟨_, mem_log_of_complete hrouted.provider hcall, rfl, rfl⟩

theorem Sourced.step {op : GatewayOp} (hs : Sourced app.hasher initial s)
    (h : GatewayStep (logged app) s op s') : Sourced app.hasher initial s' := by
  cases h with
  | request readings req => exact hs.outcome (chatCompletions_outcome (logged app) readings req s)
  | finish before event after htasks => exact ⟨hs.exactOnly, hs.given⟩

/-- The completion that a request is answered with was given for its key. -/
theorem Sourced.completion (hs : Sourced app.hasher initial s)
    (h : Outcome (logged app) readings req s result) {body : ChatCompletionResponse}
    (hbody : result.1 = .completion body) : ∃ response,
      body = completionResponse readings response ∧
        Given app.hasher initial result.2.upstream.2 (chatKey app req) response := by
  cases h with
  | invalid | unknown | streamFailed | streamed | failed => cases hbody
  | hit provider hrouted response hlookup =>
      obtain rfl := Reply.completion.inj hbody
      obtain ⟨e, hholds, -, rfl⟩ := holds_of_found hs.exactOnly hlookup
      exact ⟨e.response, rfl, hs.given _ e hholds⟩
  | completed provider hrouted response upstream hlookup hcall =>
      obtain rfl := Reply.completion.inj hbody
      exact ⟨response, rfl, .inl ⟨_, mem_log_of_complete hrouted.provider hcall, rfl, rfl⟩⟩

end

/-- In every run from a cache with the exact tier alone, each completion that a client gets was
given by a provider for a request with the same key before, or was in the cache at the start under
that key. -/
theorem completion_was_given (app : AppState κ ε τ) (upstream : τ)
    (initial : Option (TieredCache κ ε UnifiedResponse)) (hexact : ExactOnly initial)
    {steps : List (Transition (GatewayState κ ε (τ × List Answered)) GatewayOp)}
    {s : GatewayState κ ε (τ × List Answered)}
    (run : Run (GatewayStep (logged app)) (unused upstream initial) steps s) :
    ∀ t ∈ steps, ∀ readings req body, t.label = .request readings req →
      replyOf (logged app) t = some (.completion body) → ∃ response,
        body = completionResponse readings response ∧
          Given app.hasher initial t.post.upstream.2 (chatKey app req) response := by
  rintro ⟨pre, label, post⟩ ht readings req body rfl hbody
  obtain ⟨earlier, -, hbefore, hstep⟩ := run.exists_before ht
  have hs : Sourced app.hasher initial pre := by
    apply hbefore.invariant_of_history (I := fun _ s => Sourced app.hasher initial s)
    · exact ⟨hexact, fun k e he => .inr ⟨e, he, rfl⟩⟩
    · exact fun _ hs h => hs.step h
  have hrequest : GatewayStep (logged app) pre (.request readings req) post := hstep
  cases hrequest with
  | request =>
      exact hs.completion (chatCompletions_outcome (logged app) readings req pre)
        (Option.some.inj hbody)

/-! ### Once for each key -/

/-- The requests of a run look for keys of the list, at times at which nothing that was stored in
the run has expired. -/
structure AsksWithin (app : AppState κ ε σ) (keys : List κ) (begin ttl : ℕ) (readings : Readings)
    (req : ChatCompletionRequest) : Prop where
  key : chatKey app req ∈ keys
  stored : begin ≤ readings.storeAt
  lookedUp : readings.lookupAt ≤ begin + ttl

/-- The cache has the key of every completion that was given, and room for all the keys. -/
structure Remembers (hasher : List UInt8 → κ) (keys : List κ) (begin ttl : ℕ)
    (c : TieredCache κ ε UnifiedResponse) (log : List Answered) : Prop where
  exactOnly : c.semantic = none
  room : keys.length ≤ c.exact.maxEntries
  timeToLive : c.exact.defaultTtl = ttl
  entries : ∀ k e, c.exact.map.lookup k = some e → k ∈ keys ∧ begin ≤ e.createdAt ∧ e.ttl = ttl
  answered : ∀ a ∈ log, computeCacheKey hasher a.request ∈ c.exact.map
  once : (log.map fun a => computeCacheKey hasher a.request).Nodup

section

variable {app : AppState κ ε τ} {keys : List κ} {begin ttl : ℕ} {readings : Readings}
  {req : ChatCompletionRequest} {c : TieredCache κ ε UnifiedResponse} {log : List Answered}

theorem get_cases_of_unexpired
    (hentries : ∀ k e, c.exact.map.lookup k = some e → k ∈ keys ∧ begin ≤ e.createdAt ∧ e.ttl = ttl)
    {now : ℕ} (k : κ) (hnow : now ≤ begin + ttl) :
    (k ∉ c.exact.map ∧ c.exact.get now k = (none, c.exact)) ∨
      ∃ e, c.exact.map.lookup k = some e ∧ c.exact.get now k =
        (some e.response, { c.exact with map := c.exact.map.replace k e.hit }) := by
  obtain ⟨hnone, hget⟩ | ⟨e, hlookup, hexpired, -⟩ | ⟨e, hlookup, -, hget⟩ :=
    c.exact.get_cases now k
  · refine .inl ⟨fun hmem => ?_, hget⟩
    obtain ⟨e, he⟩ := AList.exists_lookup hmem
    rw [hnone] at he
    cases he
  · obtain ⟨-, hcreated, httl⟩ := hentries k e hlookup
    rw [CacheEntry.isExpired_iff] at hexpired
    omega
  · exact .inr ⟨e, hlookup, hget⟩

theorem Remembers.get (h : Remembers app.hasher keys begin ttl c log) (now : ℕ) (k : κ)
    (hnow : now ≤ begin + ttl) :
    Remembers app.hasher keys begin ttl { c with exact := (c.exact.get now k).2 } log ∧
      ((c.exact.get now k).1 = none → k ∉ c.exact.map ∧ (c.exact.get now k).2 = c.exact) := by
  obtain ⟨hmiss, hget⟩ | ⟨e, hlookup, hget⟩ := get_cases_of_unexpired h.entries k hnow
  · rw [hget]
    exact ⟨h, fun _ => ⟨hmiss, rfl⟩⟩
  · rw [hget]
    refine ⟨⟨h.exactOnly, h.room, h.timeToLive, fun k' e' he' => ?_, fun a ha => ?_, h.once⟩, nofun⟩
    · have hold : (c.exact.get now k).2.map.lookup k' = some e' := by
        rw [hget]
        exact he'
      obtain ⟨e₀, he₀, hsame⟩ := ExactCache.lookup_of_lookup_get hold
      rw [hsame.createdAt, hsame.ttl]
      exact h.entries k' e₀ he₀
    · exact AList.mem_replace.mpr (h.answered a ha)

/-- Where there is room, a store evicts nothing. -/
theorem map_store_of_lt (hsize : c.exact.map.size < c.exact.maxEntries)
    (response : UnifiedResponse) :
    (c.store app.hasher app.embedding readings.storeAt (toUnifiedRequest req) response).exact.map =
      c.exact.map.insert (chatKey app req)
        ⟨response, 0, readings.storeAt, c.exact.defaultTtl⟩ := by
  show AList.insert _ _ _ = _
  rw [makeRoom_of_lt hsize]
  rfl

theorem answered_store (hsize : c.exact.map.size < c.exact.maxEntries)
    (hanswered : ∀ a ∈ log, computeCacheKey app.hasher a.request ∈ c.exact.map)
    (response : UnifiedResponse) :
    ∀ a ∈ log ++ [⟨toUnifiedRequest req, response⟩], computeCacheKey app.hasher a.request ∈
      (c.store app.hasher app.embedding readings.storeAt (toUnifiedRequest req)
        response).exact.map := by
  intro a ha
  rw [map_store_of_lt hsize, AList.mem_insert]
  rcases List.mem_append.mp ha with hold | hnew
  · exact .inr (hanswered a hold)
  · rw [List.mem_singleton.mp hnew]
    exact .inl rfl

/-- A completion that is stored after a miss is remembered beside all others. -/
theorem Remembers.store (h : Remembers app.hasher keys begin ttl c log)
    (hasks : AsksWithin app keys begin ttl readings req) (hmiss : chatKey app req ∉ c.exact.map)
    (response : UnifiedResponse) :
    Remembers app.hasher keys begin ttl
      (c.store app.hasher app.embedding readings.storeAt (toUnifiedRequest req) response)
      (log ++ [⟨toUnifiedRequest req, response⟩]) := by
  have hsize : c.exact.map.size < c.exact.maxEntries := by
    apply lt_of_lt_of_le _ h.room
    have hsub : c.exact.map.size ≤ (keys.filter (· ≠ chatKey app req)).length := by
      apply AList.size_le_of_forall_mem
      intro k hk
      obtain ⟨e, he⟩ := AList.exists_lookup hk
      refine List.mem_filter.mpr ⟨(h.entries k e he).1, decide_eq_true ?_⟩
      rintro rfl
      exact hmiss hk
    apply lt_of_le_of_lt hsub
    rw [List.length_filter_lt_length_iff_exists]
    exact ⟨_, hasks.key, by simp⟩
  refine ⟨?_, h.room, h.timeToLive, fun k e he => ?_, answered_store hsize h.answered response, ?_⟩
  · rw [TieredCache.store, h.exactOnly]
    rfl
  · rw [map_store_of_lt hsize] at he
    rcases AList.lookup_insert_cases he with ⟨rfl, rfl⟩ | ⟨-, hold⟩
    · exact ⟨hasks.key, hasks.stored, h.timeToLive⟩
    · exact h.entries k e hold
  · rw [List.map_append, List.nodup_append]
    refine ⟨h.once, List.nodup_singleton _, ?_⟩
    intro k hk k' hk' heq
    obtain ⟨a, ha, rfl⟩ := List.mem_map.mp hk
    rw [List.map_singleton, List.mem_singleton] at hk'
    apply hmiss
    rw [chatKey, ← hk', ← heq]
    exact h.answered a ha

def RemembersAll (app : AppState κ ε τ) (keys : List κ) (begin ttl : ℕ)
    (s : GatewayState κ ε (τ × List Answered)) : Prop :=
  ∃ c, s.cache = some c ∧ Remembers app.hasher keys begin ttl c s.upstream.2

theorem RemembersAll.outcome {s : GatewayState κ ε (τ × List Answered)}
    {result : Reply × GatewayState κ ε (τ × List Answered)}
    (hs : RemembersAll app keys begin ttl s) (hasks : AsksWithin app keys begin ttl readings req)
    (h : Outcome (logged app) readings req s result) :
    RemembersAll app keys begin ttl result.2 := by
  obtain ⟨c, hcache, hc⟩ := hs
  have hexact : ExactOnly s.cache := by
    intro c' hc'
    obtain rfl : c = c' := Option.some.inj (hcache.symm.trans hc')
    exact hc.exactOnly
  have hlookup : ExactLookup (logged app) readings req s.cache
      (cacheLookup (logged app) readings req s) := cacheLookup_exact hexact
  generalize hresult : cacheLookup (logged app) readings req s = looked at hlookup
  rw [hcache] at hlookup
  cases hlookup
  obtain ⟨hget, hmiss⟩ := hc.get readings.lookupAt (chatKey app req) hasks.lookedUp
  cases h with
  | invalid | unknown => exact ⟨c, hcache, hc⟩
  | streamFailed provider hrouted e upstream hcall =>
      obtain ⟨p, -, -, rfl⟩ := exists_logging hrouted.provider
      exact ⟨c, hcache, (logging_stream hcall).symm ▸ hc⟩
  | streamed provider hrouted items upstream hcall =>
      obtain ⟨p, -, -, rfl⟩ := exists_logging hrouted.provider
      exact ⟨c, hcache, (logging_stream hcall).symm ▸ hc⟩
  | hit provider hrouted response hfound =>
      rw [hresult]
      exact ⟨_, rfl, hget⟩
  | failed provider hrouted e upstream hnone hcall =>
      obtain ⟨p, -, -, rfl⟩ := exists_logging hrouted.provider
      rw [hresult]
      exact ⟨_, rfl, (logging_complete_error hcall).2.symm ▸ hget⟩
  | completed provider hrouted response upstream hnone hcall =>
      obtain ⟨p, -, -, rfl⟩ := exists_logging hrouted.provider
      rw [hresult] at hnone ⊢
      obtain ⟨hnew, hsame⟩ := hmiss hnone
      refine ⟨_, rfl, ?_⟩
      rw [(logging_complete_ok hcall).2]
      apply hget.store hasks
      rw [hsame]
      exact hnew

end

/-- In every run of requests one after the other, from an empty exact cache that has room for all
keys that are asked for, and as long as nothing expires: no two completions are fetched upstream for
one key, so that there are at most as many as there are keys. -/
theorem fetched_once_for_each_key (app : AppState κ ε τ) (upstream : τ) (keys : List κ)
    (maxEntries ttl begin : ℕ) {warmer : Option CacheWarmer} (hroom : keys.length ≤ maxEntries)
    {steps : List (Transition (GatewayState κ ε (τ × List Answered)) GatewayOp)}
    {s : GatewayState κ ε (τ × List Answered)}
    (run : Run (GatewayStep (logged app))
      (unused upstream (some ⟨.new maxEntries ttl, none, warmer⟩)) steps s)
    (hasks : ∀ t ∈ steps, ∀ readings req, t.label = .request readings req →
      AsksWithin app keys begin ttl readings req) :
    (s.upstream.2.map fun a => computeCacheKey app.hasher a.request).Nodup ∧
      s.upstream.2.length ≤ keys.length := by
  obtain ⟨c, -, hc⟩ : RemembersAll app keys begin ttl s := by
    apply run.invariant_of_forall (I := RemembersAll app keys begin ttl)
      (P := fun t => ∀ readings req, t.label = .request readings req →
        AsksWithin app keys begin ttl readings req)
    · exact ⟨_, rfl, rfl, hroom, rfl, by simp [ExactCache.new], by simp [unused], by simp [unused]⟩
    · intro s op s' hs h hop
      cases h with
      | request readings req =>
          exact hs.outcome (hop readings req rfl)
            (chatCompletions_outcome (logged app) readings req s)
      | finish before event after htasks => exact hs
    · exact hasks
  refine ⟨hc.once, ?_⟩
  have hkeys : (s.upstream.2.map fun a => computeCacheKey app.hasher a.request) ⊆ keys := by
    intro k hk
    obtain ⟨a, ha, rfl⟩ := List.mem_map.mp hk
    obtain ⟨e, he⟩ := AList.exists_lookup (hc.answered a ha)
    exact (hc.entries _ e he).1
  rw [← List.length_map (f := fun a => computeCacheKey app.hasher a.request)]
  exact (List.subperm_of_subset hc.once hkeys).length_le

/-! ### One request -/

theorem replyOf_ask : replyOf (logged (oneProvider dearResponse))
    ⟨unused () none, .request atStart ask, askedOnce⟩ =
      some (.completion (completionResponse atStart dearResponse)) := by
  have hvalid : validationError ask = none := by decide +kernel
  rw [replyOf]
  dsimp only
  rw [chatCompletions, hvalid, AppState.findProvider_of_unique rfl]
  rfl

def noCache : Option (TieredCache Unit Unit UnifiedResponse) := none

theorem exactOnly_noCache : ExactOnly noCache := by
  intro c hc
  cases hc

theorem completion_was_given_asked : ∃ response,
    completionResponse atStart dearResponse = completionResponse atStart response ∧
      Given (oneProvider dearResponse).hasher noCache askedOnce.upstream.2
        (chatKey (oneProvider dearResponse) ask) response :=
  completion_was_given (oneProvider dearResponse) () noCache exactOnly_noCache
    (.snoc .nil (.request (unused () none) atStart ask)) _ List.mem_cons_self atStart ask _ rfl
    replyOf_ask

def smallCache : Option (TieredCache Unit Unit UnifiedResponse) := some ⟨.new 1 60, none, none⟩

/-! ### Two keys -/

def spelledOut (key : List UInt8) : UnifiedResponse :=
  { dearResponse with content := key.map fun b => Char.ofNat b.toNat }

def speller : Provider Unit where
  name := "openai".toList
  supportedModels := ["gpt-4".toList]
  complete := fun request t => (.ok (spelledOut (keyBytes request)), t)
  completeStream := fun request t =>
    (.ok [.ok ⟨(spelledOut (keyBytes request)).content, true, none⟩], t)

/-- A key is the bytes that would be hashed. -/
def spelling : AppState (List UInt8) Unit Unit :=
  ⟨[speller], [], id, ⟨fun _ => none, fun _ _ => 0⟩⟩

def askOther : ChatCompletionRequest := { ask with messages := [⟨"user".toList, "!".toList⟩] }

def roomyCache : Option (TieredCache (List UInt8) Unit UnifiedResponse) :=
  some ⟨.new 2 60, none, none⟩

/-- The gateway after each of three requests, of which the last one is the first one again. -/
def afterFirst : GatewayState (List UInt8) Unit (Unit × List Answered) :=
  (chatCompletions (logged spelling) atStart ask (unused () roomyCache)).2

def afterSecond : GatewayState (List UInt8) Unit (Unit × List Answered) :=
  (chatCompletions (logged spelling) atStart askOther afterFirst).2

def afterThird : GatewayState (List UInt8) Unit (Unit × List Answered) :=
  (chatCompletions (logged spelling) atStart ask afterSecond).2

theorem fetched_once_asked_again :
    (afterThird.upstream.2.map fun a => computeCacheKey spelling.hasher a.request).Nodup ∧
      afterThird.upstream.2.length ≤ 2 := by
  apply fetched_once_for_each_key spelling () [chatKey spelling ask, chatKey spelling askOther]
    2 60 0 le_rfl
    (.snoc (.snoc (.snoc .nil (.request (unused () roomyCache) atStart ask))
      (.request afterFirst atStart askOther)) (.request afterSecond atStart ask))
  intro t ht readings req hlabel
  simp only [List.mem_cons, List.not_mem_nil, or_false] at ht
  rcases ht with rfl | rfl | rfl
  · cases hlabel
    exact ⟨List.mem_cons_self, Nat.zero_le _, Nat.zero_le _⟩
  · cases hlabel
    exact ⟨List.mem_cons_of_mem _ List.mem_cons_self, Nat.zero_le _, Nat.zero_le _⟩
  · cases hlabel
    exact ⟨List.mem_cons_self, Nat.zero_le _, Nat.zero_le _⟩

end NeuRust.Gateway
