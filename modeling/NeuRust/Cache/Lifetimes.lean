import NeuRust.Cache.TieredContext

/-!
How long a response is returned. Every copy of a response to the exact tier, by a promotion or by a
warm after a restart, starts a new time to live; the file that is dumped has the time to live of an
entry but not its age, and neither is read when the file is loaded.
-/

namespace NeuRust.Cache

/-- A process with its two tiers, and the dump file, which outlives it. -/
structure Service (κ ε ρ : Type*) where
  tiers : TieredState κ ε ρ
  file : DumpFile κ (Stored ρ)

/-- A call, or a turn of the dump loop, or a new process, or its warming. -/
inductive ServiceOp (ρ : Type*)
  | call (op : TieredOp ρ)
  | dump (written : Bool)
  | restart (config : TierConfig)
  | warm

section

variable {κ ε ρ : Type*} [DecidableEq κ] (hasher : List UInt8 → κ) (model : EmbeddingModel ε)

inductive ServiceStep : Service κ ε ρ → ServiceOp ρ → Service κ ε ρ → Prop
  | call (s : Service κ ε ρ) {op : TieredOp ρ} {tiers : TieredState κ ε ρ}
      (h : TieredStep hasher model s.tiers op tiers) :
      ServiceStep s (.call op) { s with tiers := tiers }
  | dump (s : Service κ ε ρ) (written : Bool) :
      ServiceStep s (.dump written)
        { s with file := s.tiers.cache.dumpOnce s.tiers.now written s.file }
  | restart (s : Service κ ε ρ) (config : TierConfig) :
      ServiceStep s (.restart config) { s with tiers := ⟨config.fresh, s.tiers.now⟩ }
  | warm (s : Service κ ε ρ) :
      ServiceStep s .warm
        { s with tiers := { s.tiers with cache := (s.tiers.cache.warm s.tiers.now s.file).2 } }

end

namespace Service

variable {κ ε ρ : Type*} [DecidableEq κ] {hasher : List UInt8 → κ} {model : EmbeddingModel ε}

def Holds (s : Service κ ε ρ) (y : Stored ρ) : Prop :=
  s.tiers.Holds y ∨ ∃ dump, s.file = .entries dump ∧ ∃ d ∈ dump, d.response = y

/-- The step stores the response, and the label tells when and for how long. -/
def Stores (s : Service κ ε ρ) (op : ServiceOp ρ) (y : Stored ρ) : Prop :=
  op = .call (.store y.request y.response) ∧ y = s.tiers.stored y.request y.response

theorem not_holds_fresh (config : TierConfig) (now : ℕ) (y : Stored ρ) :
    ¬ (⟨⟨config.fresh, now⟩, .absent⟩ : Service κ ε ρ).Holds y := by
  rintro (hy | ⟨dump, hfile, -⟩)
  · exact TieredState.not_holds_fresh config now y hy
  · cases hfile

theorem tiered_of_call {s s' : Service κ ε ρ} {op : TieredOp ρ}
    (h : ServiceStep hasher model s (.call op) s') :
    TieredStep hasher model s.tiers op s'.tiers := by
  cases h with
  | call h => exact h

theorem holds_origin {s s' : Service κ ε ρ} {op : ServiceOp ρ}
    (h : ServiceStep hasher model s op s') {y : Stored ρ} (hy : s'.Holds y) :
    s.Holds y ∨ s.Stores op y := by
  cases h with
  | call h =>
      rcases hy with hy | hy
      · rcases TieredState.holds_origin h hy with hold | ⟨rfl, hstored⟩
        · exact .inl (.inl hold)
        · exact .inr ⟨rfl, hstored⟩
      · exact .inl (.inr hy)
  | dump written =>
      left
      rcases hy with hy | ⟨dump, hfile, d, hd, rfl⟩
      · exact .inl hy
      · rcases TieredCache.mem_of_dumpOnce hfile with hold | hmem
        · exact .inr ⟨dump, hold, d, hd, rfl⟩
        · obtain ⟨e, hlookup, -, hresponse⟩ := hmem d hd
          exact .inl (.inl ⟨d.hash, e, hlookup, hresponse.symm⟩)
  | restart config =>
      rcases hy with hy | hy
      · exact absurd hy (TieredState.not_holds_fresh config _ y)
      · exact .inl (.inr hy)
  | warm =>
      left
      rcases hy with (⟨k, e, hlookup, rfl⟩ | ⟨e, ⟨semantic, key, hsemantic, hlookup⟩, rfl⟩) | hy
      · rcases TieredCache.lookup_of_warm hlookup with ⟨warmer, d, -, hd, rfl⟩ | hold
        · obtain ⟨dump, hfile, hmem⟩ := CacheWarmer.mem_of_mem_loaded hd
          exact .inr ⟨dump, hfile, d, hmem, rfl⟩
        · exact .inl (.inl ⟨k, e, hold, rfl⟩)
      · rw [TieredCache.warm_semantic] at hsemantic
        exact .inl (.inr ⟨e, ⟨semantic, key, hsemantic, hlookup⟩, rfl⟩)
      · exact .inr hy

/-! ### The deadlines -/

/-- No copy that the step may make outlives the response that is copied. -/
structure KeepsDeadlines (hasher : List UInt8 → κ) (model : EmbeddingModel ε)
    (t : Transition (Service κ ε ρ) (ServiceOp ρ)) : Prop where
  promotion : ∀ request answer c, t.label = .call (.lookup request answer) →
    t.pre.tiers.cache.SemanticAnswer hasher model t.pre.tiers.now request c →
    t.pre.tiers.now + t.pre.tiers.cache.exact.defaultTtl ≤ c.response.deadline
  warm : ∀ warmer d, t.label = .warm → t.pre.tiers.cache.warmer = some warmer →
    d ∈ warmer.loaded t.pre.file →
    t.pre.tiers.now + t.pre.tiers.cache.exact.defaultTtl ≤ d.response.deadline

def copies : ServiceOp ρ → Bool
  | .call (.lookup _ _) | .warm => true
  | .call (.store _ _) | .call (.advance _) | .call .reorder | .dump _ | .restart _ => false

theorem KeepsDeadlines.of_not_copies {t : Transition (Service κ ε ρ) (ServiceOp ρ)}
    (h : copies t.label = false) : KeepsDeadlines hasher model t where
  promotion := by
    intro request answer c hlabel
    rw [hlabel] at h
    cases h
  warm := by
    intro warmer d hlabel
    rw [hlabel] at h
    cases h

/-- No entry lives longer than the response that it holds. -/
structure WithinDeadlines (s : TieredState κ ε ρ) : Prop where
  exact : ∀ k e, s.cache.exact.map.lookup k = some e → e.createdAt + e.ttl ≤ e.response.deadline
  semantic : ∀ e, s.HoldsSemantic e → e.createdAt + e.ttl ≤ e.response.deadline

theorem WithinDeadlines.fresh (config : TierConfig) (now : ℕ) :
    WithinDeadlines (⟨config.fresh, now⟩ : TieredState κ ε ρ) where
  exact := by
    intro k e hlookup
    cases hlookup
  semantic := by
    rintro e ⟨semantic, key, hsemantic, hlookup⟩
    cases hsemantic
    cases hlookup

theorem WithinDeadlines.call {s s' : TieredState κ ε ρ} {op : TieredOp ρ}
    (hs : WithinDeadlines s) (h : TieredStep hasher model s op s')
    (hpromotion : ∀ request answer c, op = .lookup request answer →
      s.cache.SemanticAnswer hasher model s.now request c →
      s.now + s.cache.exact.defaultTtl ≤ c.response.deadline) : WithinDeadlines s' where
  exact := by
    intro k e hlookup
    rcases TieredState.exact_origin h hlookup with ⟨e₀, hold, hsame, -⟩ |
      ⟨request, response, -, -, rfl⟩ | ⟨request, c, rfl, hc, -, rfl⟩
    · rw [hsame.createdAt, hsame.ttl, hsame.response]
      exact hs.exact k e₀ hold
    · exact Nat.add_le_add_left TieredCache.defaultTtl_le_ttlInForce s.now
    · exact hpromotion request _ c rfl hc
  semantic := by
    intro e he
    rcases TieredState.semantic_origin h he with ⟨e₀, hold, hsame⟩ |
      ⟨request, response, semantic, -, hsemantic, hresponse, hcreated, httl⟩
    · rw [hsame.createdAt, hsame.ttl, hsame.response]
      exact hs.semantic e₀ hold
    · rw [hresponse, hcreated, httl]
      exact Nat.add_le_add_left (TieredCache.semanticTtl_le_ttlInForce hsemantic) s.now

theorem WithinDeadlines.step {s s' : Service κ ε ρ} {op : ServiceOp ρ}
    (hs : WithinDeadlines s.tiers) (h : ServiceStep hasher model s op s')
    (hkeeps : KeepsDeadlines hasher model ⟨s, op, s'⟩) : WithinDeadlines s'.tiers := by
  cases h with
  | call h =>
      apply hs.call h
      intro request answer c hop hc
      exact hkeeps.promotion request answer c (congrArg _ hop) hc
  | dump => exact hs
  | restart config => exact .fresh config _
  | warm =>
      constructor
      · intro k e hlookup
        rcases TieredCache.lookup_of_warm hlookup with ⟨warmer, d, hwarmer, hd, rfl⟩ | hold
        · exact hkeeps.warm warmer d rfl hwarmer hd
        · exact hs.exact k e hold
      · rintro e ⟨semantic, key, hsemantic, hlookup⟩
        rw [TieredCache.warm_semantic] at hsemantic
        exact hs.semantic e ⟨semantic, key, hsemantic, hlookup⟩

theorem WithinDeadlines.answer {s s' : TieredState κ ε ρ} {request : UnifiedRequest}
    {y : Stored ρ} (hs : WithinDeadlines s)
    (h : TieredStep hasher model s (.lookup request (some y)) s') : s.now ≤ y.deadline := by
  rcases TieredState.answer_origin h with ⟨e, ⟨hlookup, hfresh⟩, rfl⟩ | ⟨c, hc, rfl⟩
  · have hwithin := hs.exact _ e hlookup
    rw [CacheEntry.not_isExpired_iff] at hfresh
    omega
  · have hwithin := hs.semantic c (TieredState.holds_of_semanticAnswer hc)
    obtain ⟨-, semantic, -, hcandidate⟩ := hc
    have hfresh := hcandidate.isExpired
    rw [SemanticEntry.not_isExpired_iff] at hfresh
    omega

/-- In a run whose copies keep the deadlines, across restarts, a lookup returns a response within
the time to live in force when it was stored. -/
theorem lookup_answers_within_ttl {config : TierConfig} {now : ℕ}
    {steps : List (Transition (Service κ ε ρ) (ServiceOp ρ))} {s : Service κ ε ρ}
    (run : Run (ServiceStep hasher model) ⟨⟨config.fresh, now⟩, .absent⟩ steps s)
    (hkeeps : ∀ t ∈ steps, KeepsDeadlines hasher model t) :
    ∀ t earlier, t :: earlier <:+ steps →
      ∀ request y, t.label = .call (.lookup request (some y)) →
        ∃ t₀ ∈ earlier, ∃ r₀, t₀.label = .call (.store r₀ y.response) ∧
          t.pre.tiers.now ≤ t₀.pre.tiers.now + t₀.pre.tiers.cache.ttlInForce := by
  intro t earlier ht request y hlabel
  obtain ⟨hbefore, hstep⟩ := run.before ht
  rw [hlabel] at hstep
  have hwithin : WithinDeadlines t.pre.tiers := by
    apply hbefore.invariant_of_forall (I := fun s => WithinDeadlines s.tiers)
      (P := KeepsDeadlines hasher model) (.fresh config now)
    · intro s op s' hs h hgood
      exact hs.step h hgood
    · intro t' ht'
      exact hkeeps t' (ht.mem (List.mem_cons_of_mem t ht'))
  have hcall := tiered_of_call hstep
  obtain ⟨t₀, ht₀, hstores, hstored⟩ : ∃ t₀ ∈ earlier, t₀.pre.Stores t₀.label y := by
    apply hbefore.exists_source (H := Holds) (not_holds_fresh config now)
    · exact .inl (TieredState.holds_of_answer hcall)
    · intro s op s' h y hy
      exact holds_origin h hy
  refine ⟨t₀, ht₀, y.request, hstores, ?_⟩
  have hdeadline := hwithin.answer hcall
  rw [hstored] at hdeadline
  exact hdeadline

/-! ### One greeting, renewed -/

section

variable (s : TieredState (List UInt8) Str Char)

def after (time : ℕ) : TieredState (List UInt8) Str Char := { s with now := s.now + time }

/-- The same greeting is looked up later in the conversation. -/
def askedAgain : TieredState (List UInt8) Str Char :=
  { s with cache := (s.cache.lookup id verbatim s.now (greetingAgain ['g'])).2 }

end

/-- The greeting is stored for 60 units of time, found by similarity after 50, and 100 units of
time have passed in the end. -/
theorem renewed_run :
    let s₀ : Service (List UInt8) Str Char := ⟨⟨smallTiers.fresh, 0⟩, .absent⟩
    let s₁ : Service (List UInt8) Str Char := ⟨greeted s₀.tiers, .absent⟩
    let s₂ : Service (List UInt8) Str Char := ⟨after s₁.tiers 50, .absent⟩
    let s₃ : Service (List UInt8) Str Char := ⟨askedAgain s₂.tiers, .absent⟩
    let s₄ : Service (List UInt8) Str Char := ⟨after s₃.tiers 50, .absent⟩
    ∃ answer y s₅, Run (ServiceStep id verbatim) s₀
      [⟨s₄, .call (.lookup (greetingAgain ['g']) (some y)), s₅⟩,
        ⟨s₃, .call (.advance 50), s₄⟩,
        ⟨s₂, .call (.lookup (greetingAgain ['g']) answer), s₃⟩,
        ⟨s₁, .call (.advance 50), s₂⟩,
        ⟨s₀, .call (.store (greeting ['g']) 'a'), s₁⟩] s₅ := by
  intro s₀ s₁ s₂ s₃ s₄
  have hfound : (s₄.tiers.cache.lookup id verbatim s₄.tiers.now
      (greetingAgain ['g'])).1.isSome = true := by
    decide +kernel
  obtain ⟨y, hy⟩ := Option.isSome_iff_exists.mp hfound
  have hstore : ServiceStep id verbatim s₀ (.call (.store (greeting ['g']) 'a')) s₁ :=
    .call s₀ (.store s₀.tiers _ _)
  have hwait : ServiceStep id verbatim s₁ (.call (.advance 50)) s₂ :=
    .call s₁ (.advance s₁.tiers 50)
  have hpromote : ServiceStep id verbatim s₂ (.call (.lookup (greetingAgain ['g'])
      (s₂.tiers.cache.lookup id verbatim s₂.tiers.now (greetingAgain ['g'])).1)) s₃ :=
    .call s₂ (.lookup s₂.tiers _)
  have hwait' : ServiceStep id verbatim s₃ (.call (.advance 50)) s₄ :=
    .call s₃ (.advance s₃.tiers 50)
  have hlookup : ServiceStep id verbatim s₄ (.call (.lookup (greetingAgain ['g']) (some y)))
      ⟨askedAgain s₄.tiers, .absent⟩ := by
    rw [← hy]
    exact .call s₄ (.lookup s₄.tiers _)
  exact ⟨_, y, _,
    .snoc (.snoc (.snoc (.snoc (.snoc .nil hstore) hwait) hpromote) hwait') hlookup⟩

/-- A promotion renews the time to live of a response. -/
theorem promotion_outlives_ttl :
    ¬ ∀ (config : TierConfig)
        (steps : List (Transition (Service (List UInt8) Str Char) (ServiceOp Char)))
        (s : Service (List UInt8) Str Char),
      Run (ServiceStep id verbatim) ⟨⟨config.fresh, 0⟩, .absent⟩ steps s →
      ∀ t earlier, t :: earlier <:+ steps →
        ∀ request y, t.label = .call (.lookup request (some y)) →
          ∃ t₀ ∈ earlier, ∃ r₀, t₀.label = .call (.store r₀ y.response) ∧
            t.pre.tiers.now ≤ t₀.pre.tiers.now + t₀.pre.tiers.cache.ttlInForce := by
  intro h
  obtain ⟨answer, y, s, run⟩ := renewed_run
  obtain ⟨t₀, ht₀, r₀, hstore, hnow⟩ := h smallTiers _ _ run _ _ List.suffix_rfl _ _ rfl
  simp only [List.mem_cons, List.not_mem_nil, or_false] at ht₀
  rcases ht₀ with rfl | rfl | rfl | rfl
  · cases hstore
  · cases hstore
  · cases hstore
  · have hlate : (100 : ℕ) ≤ 60 := hnow
    omega

/-- A greeting that is dumped and loaded at once keeps its time to live. -/
theorem warmed_at_once : ∃ t earlier s, ∃ y : Stored Char,
    Run (ServiceStep id verbatim) ⟨⟨smallTiers.fresh, 0⟩, .absent⟩ (t :: earlier) s ∧
    t.label = .call (.lookup (greeting ['g']) (some y)) ∧
    ∃ t₀ ∈ earlier, ∃ r₀, t₀.label = .call (.store r₀ y.response) ∧
      t.pre.tiers.now ≤ t₀.pre.tiers.now + t₀.pre.tiers.cache.ttlInForce := by
  let s₀ : Service (List UInt8) Str Char := ⟨⟨smallTiers.fresh, 0⟩, .absent⟩
  let s₁ : Service (List UInt8) Str Char := ⟨greeted s₀.tiers, .absent⟩
  let s₂ : Service (List UInt8) Str Char := ⟨s₁.tiers, s₁.tiers.cache.dumpOnce 0 true .absent⟩
  let s₃ : Service (List UInt8) Str Char := ⟨⟨smallTiers.fresh, 0⟩, s₂.file⟩
  let s₄ : Service (List UInt8) Str Char := ⟨⟨(s₃.tiers.cache.warm 0 s₃.file).2, 0⟩, s₃.file⟩
  let s₅ : Service (List UInt8) Str Char := ⟨after s₄.tiers 50, s₄.file⟩
  have hfound : (s₅.tiers.cache.lookup id verbatim s₅.tiers.now
      (greeting ['g'])).1.isSome = true := by
    decide +kernel
  obtain ⟨y, hy⟩ := Option.isSome_iff_exists.mp hfound
  have hstore : ServiceStep id verbatim s₀ (.call (.store (greeting ['g']) 'a')) s₁ :=
    .call s₀ (.store s₀.tiers _ _)
  have hdump : ServiceStep id verbatim s₁ (.dump true) s₂ := .dump s₁ true
  have hrestart : ServiceStep id verbatim s₂ (.restart smallTiers) s₃ := .restart s₂ smallTiers
  have hwarm : ServiceStep id verbatim s₃ .warm s₄ := .warm s₃
  have hwait : ServiceStep id verbatim s₄ (.call (.advance 50)) s₅ :=
    .call s₄ (.advance s₄.tiers 50)
  have hlookup : ServiceStep id verbatim s₅ (.call (.lookup (greeting ['g']) (some y)))
      ⟨⟨(s₅.tiers.cache.lookup id verbatim s₅.tiers.now (greeting ['g'])).2, s₅.tiers.now⟩,
        s₅.file⟩ := by
    rw [← hy]
    exact .call s₅ (.lookup s₅.tiers _)
  have run := Run.snoc (.snoc (.snoc (.snoc (.snoc (.snoc .nil hstore) hdump) hrestart) hwarm)
    hwait) hlookup
  have hloaded : ∀ d ∈ (CacheWarmer.mk 10).loaded s₃.file, 0 + 60 ≤ d.response.deadline := by
    decide +kernel
  -- the new process has nothing in its semantic tier
  have hnone : ∀ request c, ¬ s₅.tiers.cache.SemanticAnswer id verbatim s₅.tiers.now request c := by
    rintro request c ⟨-, semantic, hsemantic, hcandidate⟩
    obtain ⟨key, hkey⟩ := hcandidate.exists_lookup
    have hfresh : s₅.tiers.cache.semantic = s₃.tiers.cache.semantic := TieredCache.warm_semantic
    rw [hfresh] at hsemantic
    cases hsemantic
    cases hkey
  refine ⟨_, _, _, y, run, rfl, ?_⟩
  apply lookup_answers_within_ttl run _ _ _ List.suffix_rfl _ y rfl
  intro t ht
  simp only [List.mem_cons, List.not_mem_nil, or_false] at ht
  rcases ht with rfl | rfl | rfl | rfl | rfl | rfl
  · exact ⟨fun request _ c _ hc => absurd hc (hnone request c), fun _ _ hlabel => nomatch hlabel⟩
  · exact .of_not_copies rfl
  · refine ⟨(fun _ _ _ hlabel => nomatch hlabel), ?_⟩
    intro warmer d _ hwarmer hd
    cases hwarmer
    exact hloaded d hd
  · exact .of_not_copies rfl
  · exact .of_not_copies rfl
  · exact .of_not_copies rfl

end Service

end NeuRust.Cache
