import NeuRust.Cache.Warming
import NeuRust.Cache.ExactRuns

/-!
Runs of a cache and its dump file across restarts. A dump that finds nothing to write counts as a
success and leaves the file as it was, so that a restart brings back what an earlier dump wrote.
-/

namespace NeuRust.Cache

variable {κ ρ : Type*} [DecidableEq κ]

/-! ### Runs -/

structure WarmedState (κ ρ : Type*) where
  exact : ExactState κ ρ
  file : DumpFile κ ρ

/-- A call of the cache, a turn of the dump loop, or a restart that warms an empty cache. -/
inductive WarmedOp (κ ρ : Type*)
  | call (op : ExactOp κ ρ)
  | dump
  | restart (maxEntries defaultTtl : ℕ)

def WarmedState.dump (warmer : CacheWarmer) (s : WarmedState κ ρ) : WarmedState κ ρ :=
  { s with file := (warmer.dumpOnce s.exact.now true s.exact.cache s.file).2 }

def WarmedState.restart (warmer : CacheWarmer) (maxEntries defaultTtl : ℕ) (s : WarmedState κ ρ) :
    WarmedState κ ρ :=
  { s with exact := { s.exact with
      cache := (warmer.warm s.exact.now s.file (.new maxEntries defaultTtl)).2 } }

inductive WarmedStep (warmer : CacheWarmer) :
    WarmedState κ ρ → WarmedOp κ ρ → WarmedState κ ρ → Prop
  | call (s : WarmedState κ ρ) {op : ExactOp κ ρ} {exact : ExactState κ ρ}
      (h : ExactStep s.exact op exact) : WarmedStep warmer s (.call op) { s with exact := exact }
  | dump (s : WarmedState κ ρ) : WarmedStep warmer s .dump (s.dump warmer)
  | restart (s : WarmedState κ ρ) (maxEntries defaultTtl : ℕ) :
      WarmedStep warmer s (.restart maxEntries defaultTtl)
        (s.restart warmer maxEntries defaultTtl)

def WarmedOp.isDump : WarmedOp κ ρ → Bool
  | .dump => true
  | .call _ | .restart _ _ => false

def WarmedOp.isRestart : WarmedOp κ ρ → Bool
  | .restart _ _ => true
  | .call _ | .dump => false

def lastDump (steps : List (Transition (WarmedState κ ρ) (WarmedOp κ ρ))) :
    Option (Transition (WarmedState κ ρ) (WarmedOp κ ρ)) :=
  steps.find? fun t => t.label.isDump

/-! ### What a dump leaves -/

def ExactState.HoldsFresh (s : ExactState κ ρ) (k : κ) (response : ρ) : Prop :=
  ∃ e, s.cache.map.lookup k = some e ∧ e.isExpired s.now = false ∧ e.response = response

/-- All that the later state holds, the earlier one holds unexpired. -/
def HoldsOnlyFresh (earlier later : ExactState κ ρ) : Prop :=
  ∀ k e, later.cache.map.lookup k = some e → earlier.HoldsFresh k e.response

/-- A dump leaves nothing old in the file: the cache has an unexpired entry, so that the file is
written, or the file has nothing to load. -/
def LeavesCurrent (warmer : CacheWarmer) (s : WarmedState κ ρ) : Prop :=
  (∃ k response, s.exact.HoldsFresh k response) ∨ warmer.loaded s.file = []

theorem topByHitCount_eq_nil_iff {now n : ℕ} {cache : ExactCache κ ρ} :
    cache.topByHitCount now n = [] ↔
      n = 0 ∨ ∀ k e, cache.map.lookup k = some e → e.isExpired now = true := by
  rw [ExactCache.topByHitCount, List.take_eq_nil_iff, ← List.length_eq_zero_iff,
    List.length_insertionSort, List.length_map, List.length_eq_zero_iff, List.filter_eq_nil_iff]
  apply or_congr_right
  constructor
  · intro h k e hlookup
    simpa using h ⟨k, e⟩ (AList.mem_entries_iff.mpr hlookup)
  · rintro h ⟨k, e⟩ hentry
    simpa using h k e (AList.mem_entries_iff.mp hentry)

/-- After a dump that leaves nothing old, the file loads unexpired entries of the cache. -/
theorem holdsFresh_of_dump {warmer : CacheWarmer} {s : WarmedState κ ρ}
    (h : LeavesCurrent warmer s) {d : CacheDumpEntry κ ρ}
    (hd : d ∈ warmer.loaded (s.dump warmer).file) : s.exact.HoldsFresh d.hash d.response := by
  rw [WarmedState.dump, CacheWarmer.dumpOnce] at hd
  by_cases hempty : s.exact.cache.topByHitCount s.exact.now warmer.maxWarmEntries = []
  · rw [hempty, List.isEmpty_nil, if_pos rfl] at hd
    rcases h with ⟨k, response, e, hlookup, hfresh, -⟩ | hnone
    · rcases topByHitCount_eq_nil_iff.mp hempty with hzero | hexpired
      · obtain ⟨dump, hfile, -⟩ := CacheWarmer.mem_of_mem_loaded hd
        rw [hfile, CacheWarmer.loaded, hzero, List.take_zero] at hd
        cases hd
      · rw [hexpired k e hlookup] at hfresh
        cases hfresh
    · rw [hnone] at hd
      cases hd
  · rw [if_neg (by simpa using hempty), if_pos rfl] at hd
    obtain ⟨e, hlookup, hfresh, hresponse, -⟩ :=
      ExactCache.mem_topByHitCount (List.mem_of_mem_take hd)
    exact ⟨e, hlookup, hfresh, hresponse.symm⟩

theorem exists_loaded_of_restart {warmer : CacheWarmer} {maxEntries defaultTtl : ℕ}
    {s : WarmedState κ ρ} {k : κ} {e : CacheEntry ρ}
    (h : (s.restart warmer maxEntries defaultTtl).exact.cache.map.lookup k = some e) :
    ∃ d ∈ warmer.loaded s.file, d.hash = k ∧ d.response = e.response := by
  rw [WarmedState.restart, CacheWarmer.warm_eq] at h
  rcases CacheWarmer.lookup_of_load h with ⟨d, hd, hhash, rfl⟩ | hnone
  · exact ⟨d, hd, hhash, rfl⟩
  · cases hnone

theorem exists_lookup_load {now : ℕ} {dump : List (CacheDumpEntry κ ρ)} (h : dump ≠ [])
    (cache : ExactCache κ ρ) : ∃ k e, (CacheWarmer.load now dump cache).map.lookup k = some e := by
  obtain ⟨earlier, last, rfl⟩ := (List.eq_nil_or_concat' dump).resolve_left h
  rw [CacheWarmer.load, List.foldl_append]
  exact ⟨last.hash, _, AList.lookup_insert _⟩

/-- A restart right after a dump brings back only what the cache holds unexpired, exactly when the
dump leaves nothing old in the file. -/
theorem restart_after_dump_iff {warmer : CacheWarmer} {s : WarmedState κ ρ}
    {maxEntries defaultTtl : ℕ} :
    HoldsOnlyFresh s.exact ((s.dump warmer).restart warmer maxEntries defaultTtl).exact ↔
      LeavesCurrent warmer s := by
  constructor
  · intro h
    by_contra hnot
    obtain ⟨hexpired, hloaded⟩ := not_or.mp hnot
    have hempty : s.exact.cache.topByHitCount s.exact.now warmer.maxWarmEntries = [] := by
      apply topByHitCount_eq_nil_iff.mpr
      right
      intro k e hlookup
      by_contra hfresh
      exact hexpired ⟨k, e.response, e, hlookup, Bool.eq_false_iff.mpr hfresh, rfl⟩
    have hfile : (s.dump warmer).file = s.file := by
      rw [WarmedState.dump, CacheWarmer.dumpOnce, hempty]
      rfl
    obtain ⟨k, e, hlookup⟩ : ∃ k e, (CacheWarmer.load s.exact.now (warmer.loaded s.file)
        (.new maxEntries defaultTtl)).map.lookup k = some e :=
      exists_lookup_load hloaded _
    apply hexpired
    refine ⟨k, e.response, h k e ?_⟩
    rw [WarmedState.restart, CacheWarmer.warm_eq, hfile]
    exact hlookup
  · intro h k e hlookup
    obtain ⟨d, hd, rfl, hresponse⟩ := exists_loaded_of_restart hlookup
    rw [← hresponse]
    exact holdsFresh_of_dump h hd

/-! ### What a restart brings back -/

/-- The file loads what was in the cache, unexpired, at the last dump. -/
def FileCurrent (warmer : CacheWarmer)
    (steps : List (Transition (WarmedState κ ρ) (WarmedOp κ ρ))) (s : WarmedState κ ρ) : Prop :=
  ∀ dump, lastDump steps = some dump →
    ∀ d ∈ warmer.loaded s.file, dump.pre.exact.HoldsFresh d.hash d.response

theorem FileCurrent.step {warmer : CacheWarmer}
    {steps : List (Transition (WarmedState κ ρ) (WarmedOp κ ρ))} {s s' : WarmedState κ ρ}
    {op : WarmedOp κ ρ} (hs : FileCurrent warmer steps s) (h : WarmedStep warmer s op s')
    (hcurrent : op.isDump = true → LeavesCurrent warmer s) :
    FileCurrent warmer (⟨s, op, s'⟩ :: steps) s' := by
  intro dump hdump d hd
  cases h with
  | call => exact hs dump hdump d hd
  | dump =>
      obtain rfl := Option.some.inj hdump
      exact holdsFresh_of_dump (hcurrent rfl) hd
  | restart => exact hs dump hdump d hd

theorem WarmedStep.exists_loaded {warmer : CacheWarmer} {s s' : WarmedState κ ρ}
    {op : WarmedOp κ ρ} (h : WarmedStep warmer s op s') (hrestart : op.isRestart = true) {k : κ}
    {e : CacheEntry ρ} (hlookup : s'.exact.cache.map.lookup k = some e) :
    ∃ d ∈ warmer.loaded s.file, d.hash = k ∧ d.response = e.response := by
  cases h with
  | call => cases hrestart
  | dump => cases hrestart
  | restart => exact exists_loaded_of_restart hlookup

/-- If every dump of a run leaves nothing old in the file, then a restart brings back only what was
in the cache, unexpired, at the last dump before it. -/
theorem restart_holdsOnlyFresh {warmer : CacheWarmer} {start s : WarmedState κ ρ}
    {steps : List (Transition (WarmedState κ ρ) (WarmedOp κ ρ))}
    (run : Run (WarmedStep warmer) start steps s)
    (hcurrent : ∀ t ∈ steps, t.label.isDump = true → LeavesCurrent warmer t.pre)
    {restart dump : Transition (WarmedState κ ρ) (WarmedOp κ ρ)}
    {earlier : List (Transition (WarmedState κ ρ) (WarmedOp κ ρ))}
    (hsuffix : restart :: earlier <:+ steps) (hrestart : restart.label.isRestart = true)
    (hdump : lastDump earlier = some dump) :
    HoldsOnlyFresh dump.pre.exact restart.post.exact := by
  obtain ⟨before, hstep⟩ := run.before hsuffix
  have hfile : FileCurrent warmer earlier restart.pre := by
    apply before.invariant_if (I := FileCurrent warmer)
      (P := fun _ t => t.label.isDump = true → LeavesCurrent warmer t.pre)
    · intro dump hdump
      cases hdump
    · intro steps s a s' hs h hgood
      exact hs.step h hgood
    · intro t rest hrest
      apply hcurrent
      exact hsuffix.mem (List.mem_cons_of_mem _ (hrest.mem List.mem_cons_self))
  intro k e hlookup
  obtain ⟨d, hd, rfl, hresponse⟩ := hstep.exists_loaded hrestart hlookup
  rw [← hresponse]
  exact hfile dump hdump d hd

/-! ### A cache that is cleared before the last dump -/

def emptyStart : WarmedState ℕ ℕ := ⟨⟨.new 10 100, 0⟩, .absent⟩

def oneEntry : WarmedState ℕ ℕ := ⟨⟨(ExactCache.new 10 100).insert 0 1 7, 0⟩, .absent⟩

/-- The cache of one entry, dumped and then cleared. -/
def clearedAfterDump : WarmedState ℕ ℕ :=
  { oneEntry.dump ⟨10⟩ with exact := ⟨oneEntry.exact.cache.clear, 0⟩ }

theorem restart_holdsOnlyFresh_oneEntry :
    HoldsOnlyFresh oneEntry.exact ((oneEntry.dump ⟨10⟩).restart ⟨10⟩ 10 100).exact := by
  have run : Run (WarmedStep ⟨10⟩) emptyStart
      [⟨oneEntry.dump ⟨10⟩, .restart 10 100, (oneEntry.dump ⟨10⟩).restart ⟨10⟩ 10 100⟩,
        ⟨oneEntry, .dump, oneEntry.dump ⟨10⟩⟩, ⟨emptyStart, .call (.insert 1 7), oneEntry⟩]
      ((oneEntry.dump ⟨10⟩).restart ⟨10⟩ 10 100) :=
    ((Run.nil.snoc (.call emptyStart (.insert _ 1 7))).snoc (.dump oneEntry)).snoc
      (.restart _ 10 100)
  refine restart_holdsOnlyFresh run ?_ List.suffix_rfl rfl rfl
  intro t ht hlabel
  rcases List.mem_cons.mp ht with rfl | ht
  · cases hlabel
  · rcases List.mem_cons.mp ht with rfl | ht
    · exact .inl ⟨1, 7, ⟨7, 0, 0, 100⟩, rfl, rfl, rfl⟩
    · rw [List.mem_singleton.mp ht] at hlabel
      cases hlabel

/-- The dump after the clear succeeds without writing, and the entry is back after the restart. -/
theorem cleared_entry_comes_back :
    ¬ ∀ (warmer : CacheWarmer) (start s : WarmedState ℕ ℕ)
      (steps : List (Transition (WarmedState ℕ ℕ) (WarmedOp ℕ ℕ))),
      Run (WarmedStep warmer) start steps s →
        ∀ (restart dump : Transition (WarmedState ℕ ℕ) (WarmedOp ℕ ℕ)) earlier,
          restart :: earlier <:+ steps → restart.label.isRestart = true →
            lastDump earlier = some dump → HoldsOnlyFresh dump.pre.exact restart.post.exact := by
  intro h
  have run : Run (WarmedStep ⟨10⟩) emptyStart _
      ((clearedAfterDump.dump ⟨10⟩).restart ⟨10⟩ 10 100) :=
    ((((Run.nil.snoc (.call emptyStart (.insert _ 1 7))).snoc (.dump oneEntry)).snoc
      (.call _ (.clear _))).snoc (.dump clearedAfterDump)).snoc (.restart _ 10 100)
  obtain ⟨e, hlookup, -⟩ := h _ _ _ _ run _ _ _ List.suffix_rfl rfl rfl 1 ⟨7, 0, 0, 100⟩ rfl
  cases hlookup

end NeuRust.Cache
