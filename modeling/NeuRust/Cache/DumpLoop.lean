import NeuRust.Cache.Warming
import NeuRust.Cache.ExactRuns

/-!
The dump loop, with the process around it. A dump takes the hottest entries at one moment, then
writes them beside the file and renames what it wrote, while the cache goes on; each of these may
fail, and the process may go down anywhere and come up again.
-/

namespace NeuRust.Cache

variable {κ ρ : Type*} [DecidableEq κ]

/-! ### The loop -/

/-- Where the loop waits. The last dump is the one on shutdown. -/
inductive LoopPhase (κ ρ : Type*)
  | waiting
  | writing (dump : List (CacheDumpEntry κ ρ)) (last : Bool)
  | moving (dump : List (CacheDumpEntry κ ρ)) (last : Bool)
  | sleeping
  | stopped

structure LoopState (κ ρ : Type*) where
  exact : ExactState κ ρ
  file : DumpFile κ ρ
  tmp : DumpFile κ ρ := .absent
  consecutiveFailures : BitVec 32 := 0
  phase : LoopPhase κ ρ := .waiting

namespace LoopState

def topEntries (warmer : CacheWarmer) (s : LoopState κ ρ) : List (CacheDumpEntry κ ρ) :=
  s.exact.cache.topByHitCount s.exact.now warmer.maxWarmEntries

/-- What the loop does with the result of a dump. -/
def dumped (success last : Bool) (s : LoopState κ ρ) : LoopState κ ρ :=
  if last then { s with phase := .stopped }
  else if success then { s with consecutiveFailures := 0, phase := .waiting }
  else
    { s with
      consecutiveFailures := s.consecutiveFailures + 1
      phase := if 5 ≤ s.consecutiveFailures + 1 then .sleeping else .waiting }

/-- The process comes up with what is under the dump path. -/
def restart (warmer : CacheWarmer) (maxEntries defaultTtl : ℕ) (tmp : DumpFile κ ρ)
    (s : LoopState κ ρ) : LoopState κ ρ where
  exact := { s.exact with
    cache := (warmer.warm s.exact.now s.file (.new maxEntries defaultTtl)).2 }
  file := s.file
  tmp := tmp

end LoopState

/-- A call of the cache, a move of the loop, or a crash. -/
inductive LoopOp (κ ρ : Type*)
  | call (op : ExactOp κ ρ)
  | take (last : Bool)
  | skip (last : Bool)
  | write
  | rename (last : Bool)
  | fail (last : Bool)
  | wake
  | restart (maxEntries defaultTtl : ℕ)

inductive LoopStep (warmer : CacheWarmer) :
    LoopState κ ρ → LoopOp κ ρ → LoopState κ ρ → Prop
  | call (s : LoopState κ ρ) {op : ExactOp κ ρ} {exact : ExactState κ ρ}
      (h : ExactStep s.exact op exact) : LoopStep warmer s (.call op) { s with exact := exact }
  /-- A tick, or the shutdown, with entries to dump. -/
  | take (s : LoopState κ ρ) (last : Bool) (hphase : s.phase = .waiting)
      (h : s.topEntries warmer ≠ []) :
      LoopStep warmer s (.take last) { s with phase := .writing (s.topEntries warmer) last }
  | skip (s : LoopState κ ρ) (last : Bool) (hphase : s.phase = .waiting)
      (h : s.topEntries warmer = []) : LoopStep warmer s (.skip last) (s.dumped true last)
  | encodeError (s : LoopState κ ρ) (last : Bool) (hphase : s.phase = .waiting)
      (h : s.topEntries warmer ≠ []) : LoopStep warmer s (.fail last) (s.dumped false last)
  | write (s : LoopState κ ρ) (dump : List (CacheDumpEntry κ ρ)) (last : Bool)
      (hphase : s.phase = .writing dump last) :
      LoopStep warmer s .write { s with tmp := .entries dump, phase := .moving dump last }
  /-- Anything may be left beside the file. -/
  | writeError (s : LoopState κ ρ) (dump : List (CacheDumpEntry κ ρ)) (last : Bool)
      (hphase : s.phase = .writing dump last) (tmp : DumpFile κ ρ) :
      LoopStep warmer s (.fail last) ({ s with tmp := tmp }.dumped false last)
  | rename (s : LoopState κ ρ) (dump : List (CacheDumpEntry κ ρ)) (last : Bool)
      (hphase : s.phase = .moving dump last) :
      LoopStep warmer s (.rename last) ({ s with file := s.tmp, tmp := .absent }.dumped true last)
  | renameError (s : LoopState κ ρ) (dump : List (CacheDumpEntry κ ρ)) (last : Bool)
      (hphase : s.phase = .moving dump last) :
      LoopStep warmer s (.fail last) (s.dumped false last)
  | wake (s : LoopState κ ρ) (hphase : s.phase = .sleeping) :
      LoopStep warmer s .wake { s with phase := .waiting }
  | restart (s : LoopState κ ρ) (maxEntries defaultTtl : ℕ) (tmp : DumpFile κ ρ) :
      LoopStep warmer s (.restart maxEntries defaultTtl)
        (s.restart warmer maxEntries defaultTtl tmp)

/-! ### The file -/

namespace LoopOp

def isTake : LoopOp κ ρ → Bool
  | .take _ => true
  | .call _ | .skip _ | .write | .rename _ | .fail _ | .wake | .restart _ _ => false

def isRename : LoopOp κ ρ → Bool
  | .rename _ => true
  | .call _ | .take _ | .skip _ | .write | .fail _ | .wake | .restart _ _ => false

end LoopOp

abbrev LoopTransition (κ ρ : Type*) := Transition (LoopState κ ρ) (LoopOp κ ρ)

def lastTaken (warmer : CacheWarmer) (steps : List (LoopTransition κ ρ)) :
    Option (List (CacheDumpEntry κ ρ)) :=
  (steps.find? fun t => t.label.isTake).map fun t => t.pre.topEntries warmer

/-- What the latest dump took that was renamed. -/
def lastRenamed (warmer : CacheWarmer) :
    List (LoopTransition κ ρ) → Option (List (CacheDumpEntry κ ρ))
  | [] => none
  | t :: earlier =>
      if t.label.isRename then lastTaken warmer earlier else lastRenamed warmer earlier

/-- The file is the latest renamed dump, whole; what is being written was taken last. -/
structure Whole (warmer : CacheWarmer) (found : DumpFile κ ρ) (steps : List (LoopTransition κ ρ))
    (s : LoopState κ ρ) : Prop where
  file : s.file = (lastRenamed warmer steps).elim found .entries
  writing : ∀ dump last, s.phase = .writing dump last → lastTaken warmer steps = some dump
  moving : ∀ dump last, s.phase = .moving dump last →
    lastTaken warmer steps = some dump ∧ s.tmp = .entries dump

section

variable {warmer : CacheWarmer} {found : DumpFile κ ρ} {steps : List (LoopTransition κ ρ)}
  {s s' : LoopState κ ρ} {op : LoopOp κ ρ}

omit [DecidableEq κ] in
theorem LoopState.dumped_file (s : LoopState κ ρ) (success last : Bool) :
    (s.dumped success last).file = s.file := by
  rw [dumped]
  split_ifs <;> rfl

omit [DecidableEq κ] in
theorem LoopState.dumped_phase (s : LoopState κ ρ) (success last : Bool) :
    (s.dumped success last).phase = .stopped ∨ (s.dumped success last).phase = .waiting ∨
      (s.dumped success last).phase = .sleeping := by
  rw [dumped]
  split_ifs
  · exact .inl rfl
  · exact .inr (.inl rfl)
  · exact .inr (.inr rfl)
  · exact .inr (.inl rfl)

omit [DecidableEq κ] in
theorem Whole.of_dumped {s : LoopState κ ρ} {success last : Bool}
    {steps : List (LoopTransition κ ρ)}
    (hfile : s.file = (lastRenamed warmer steps).elim found .entries) :
    Whole warmer found steps (s.dumped success last) := by
  refine ⟨(s.dumped_file success last).trans hfile, fun dump last' hwriting => ?_,
    fun dump last' hmoving => ?_⟩
  · obtain h | h | h := s.dumped_phase success last <;> cases h.symm.trans hwriting
  · obtain h | h | h := s.dumped_phase success last <;> cases h.symm.trans hmoving

theorem Whole.step (hs : Whole warmer found steps s) (h : LoopStep warmer s op s') :
    Whole warmer found (⟨s, op, s'⟩ :: steps) s' := by
  cases h with
  | call h => exact ⟨hs.file, hs.writing, hs.moving⟩
  | take last hphase h =>
      refine ⟨hs.file, fun dump last' hwriting => ?_, fun dump last' hmoving => ?_⟩
      · obtain ⟨rfl, -⟩ := LoopPhase.writing.inj hwriting
        rfl
      · cases hmoving
  | skip last hphase h => exact .of_dumped hs.file
  | encodeError last hphase h => exact .of_dumped hs.file
  | write dump last hphase =>
      refine ⟨hs.file, fun dump' last' hwriting => ?_, fun dump' last' hmoving => ?_⟩
      · cases hwriting
      · obtain ⟨rfl, -⟩ := LoopPhase.moving.inj hmoving
        exact ⟨hs.writing dump last hphase, rfl⟩
  | writeError dump last hphase tmp => exact .of_dumped hs.file
  | rename dump last hphase =>
      obtain ⟨htaken, htmp⟩ := hs.moving dump last hphase
      apply Whole.of_dumped
      show s.tmp = (lastTaken warmer steps).elim found .entries
      rw [htaken]
      exact htmp
  | renameError dump last hphase => exact .of_dumped hs.file
  | wake hphase =>
      refine ⟨hs.file, fun dump last hwriting => ?_, fun dump last hmoving => ?_⟩
      · cases hwriting
      · cases hmoving
  | restart maxEntries defaultTtl tmp =>
      refine ⟨hs.file, fun dump last hwriting => ?_, fun dump last hmoving => ?_⟩
      · cases hwriting
      · cases hmoving

end

/-! ### Failures and the end -/

/-- The failures in a row after one more step. The last dump is not counted. -/
def LoopOp.failures (n : ℕ) : LoopOp κ ρ → ℕ
  | .fail false => n + 1
  | .skip false | .rename false | .restart _ _ => 0
  | .fail true | .skip true | .rename true | .call _ | .take _ | .write | .wake => n

/-- The dumps that have failed since the latest that did not, or since the start. -/
def failuresOf : List (LoopTransition κ ρ) → ℕ
  | [] => 0
  | t :: earlier => t.label.failures (failuresOf earlier)

def LoopOp.isCall : LoopOp κ ρ → Bool
  | .call _ => true
  | .take _ | .skip _ | .write | .rename _ | .fail _ | .wake | .restart _ _ => false

def lastMove (steps : List (LoopTransition κ ρ)) : Option (LoopOp κ ρ) :=
  (steps.find? fun t => !t.label.isCall).map fun t => t.label

/-- The ways the loop can end: with nothing to dump, with a dump that failed, or with a dump that is
in the file. -/
inductive Ended (warmer : CacheWarmer) (steps : List (LoopTransition κ ρ)) (file : DumpFile κ ρ) :
    Prop
  | nothing (h : lastMove steps = some (.skip true))
  | failed (h : lastMove steps = some (.fail true))
  | written (h : lastMove steps = some (.rename true)) (dump : List (CacheDumpEntry κ ρ))
      (htaken : lastTaken warmer steps = some dump) (hfile : file = .entries dump)

structure Counted (warmer : CacheWarmer) (steps : List (LoopTransition κ ρ)) (s : LoopState κ ρ) :
    Prop where
  failures : s.consecutiveFailures = BitVec.ofNat 32 (failuresOf steps)
  backsOff : s.phase = .sleeping → 5 ≤ s.consecutiveFailures
  ends : s.phase = .stopped → Ended warmer steps s.file

section

variable {warmer : CacheWarmer} {found : DumpFile κ ρ} {steps : List (LoopTransition κ ρ)}
  {s s' : LoopState κ ρ} {op : LoopOp κ ρ}

omit [DecidableEq κ] in
theorem Ended.call {t : LoopTransition κ ρ} {file : DumpFile κ ρ} (ht : t.label.isCall = true)
    (h : Ended warmer steps file) : Ended warmer (t :: steps) file := by
  have hmove : lastMove (t :: steps) = lastMove steps := by
    rw [lastMove, List.find?_cons_of_neg (by simp [ht])]
    rfl
  have htake : t.label.isTake = false := by
    cases hlabel : t.label <;> rw [hlabel] at ht <;> first | rfl | cases ht
  have htaken : lastTaken warmer (t :: steps) = lastTaken warmer steps := by
    rw [lastTaken, List.find?_cons_of_neg (by simp [htake])]
    rfl
  cases h with
  | nothing h => exact .nothing (hmove.trans h)
  | failed h => exact .failed (hmove.trans h)
  | written h dump hdump hfile => exact .written (hmove.trans h) dump (htaken.trans hdump) hfile

omit [DecidableEq κ] in
/-- What the counter and the phase are after a dump. -/
theorem Counted.of_dumped {t : LoopTransition κ ρ} {success last : Bool}
    (hs : s.consecutiveFailures = BitVec.ofNat 32 (failuresOf steps))
    (hcount : ∀ n, t.label.failures n = if last then n else if success then 0 else n + 1)
    (hends : last = true → Ended warmer (t :: steps) s.file) :
    Counted warmer (t :: steps) (s.dumped success last) := by
  have hfailures : failuresOf (t :: steps) = _ := hcount (failuresOf steps)
  cases last with
  | true =>
      refine ⟨?_, fun hphase => ?_, fun _ => hends rfl⟩
      · rw [hfailures]
        exact hs
      · cases hphase
  | false =>
      cases success with
      | true =>
          refine ⟨?_, fun hphase => ?_, fun hphase => ?_⟩
          · rw [hfailures]
            rfl
          · cases hphase
          · cases hphase
      | false =>
          have hphase : (s.dumped false false).phase =
              if 5 ≤ s.consecutiveFailures + 1 then .sleeping else .waiting := rfl
          refine ⟨?_, fun hsleeping => ?_, fun hstopped => ?_⟩
          · rw [hfailures]
            show s.consecutiveFailures + 1 = BitVec.ofNat 32 (failuresOf steps + 1)
            rw [hs, BitVec.ofNat_add]
            rfl
          · by_contra hfew
            cases ((if_neg hfew).symm.trans hphase.symm).trans hsleeping
          · split at hphase <;> cases hphase.symm.trans hstopped

theorem Counted.step (hs : Counted warmer steps s) (hwhole : Whole warmer found steps s)
    (h : LoopStep warmer s op s') : Counted warmer (⟨s, op, s'⟩ :: steps) s' := by
  cases h with
  | call h => exact ⟨hs.failures, hs.backsOff, fun hphase => (hs.ends hphase).call rfl⟩
  | take last hphase h => exact ⟨hs.failures, nofun, nofun⟩
  | write dump last hphase => exact ⟨hs.failures, nofun, nofun⟩
  | wake hphase => exact ⟨hs.failures, nofun, nofun⟩
  | restart maxEntries defaultTtl tmp => exact ⟨rfl, nofun, nofun⟩
  | skip last hphase h =>
      apply Counted.of_dumped hs.failures
      · cases last <;> exact fun n => rfl
      · rintro rfl
        exact .nothing rfl
  | encodeError last hphase h =>
      apply Counted.of_dumped hs.failures
      · cases last <;> exact fun n => rfl
      · rintro rfl
        exact .failed rfl
  | writeError dump last hphase tmp =>
      apply Counted.of_dumped (s := { s with tmp := tmp }) hs.failures
      · cases last <;> exact fun n => rfl
      · rintro rfl
        exact .failed rfl
  | renameError dump last hphase =>
      apply Counted.of_dumped hs.failures
      · cases last <;> exact fun n => rfl
      · rintro rfl
        exact .failed rfl
  | rename dump last hphase =>
      obtain ⟨htaken, htmp⟩ := hwhole.moving dump last hphase
      apply Counted.of_dumped (s := { s with file := s.tmp, tmp := .absent }) hs.failures
      · cases last <;> exact fun n => rfl
      · rintro rfl
        exact .written rfl dump htaken htmp

/-- In every run of the loop, with calls of the cache, failures and crashes anywhere: what is under
the dump path is what was found there at the start or the whole of what the latest renamed dump
took; the counter is that of the failures in a row, as a `u32`, and the loop backs off only from
five on; and it ends only after a last dump, which found nothing to write, or failed, or is in the
file. -/
theorem dumpLoop_of_run (exact : ExactState κ ρ)
    (run : Run (LoopStep warmer) { exact := exact, file := found } steps s) :
    s.file = (lastRenamed warmer steps).elim found .entries ∧
      s.consecutiveFailures = BitVec.ofNat 32 (failuresOf steps) ∧
      (s.phase = .sleeping → 5 ≤ s.consecutiveFailures) ∧
      (s.phase = .stopped → Ended warmer steps s.file) := by
  have h : Whole warmer found steps s ∧ Counted warmer steps s := by
    apply run.invariant_of_history (I := fun steps s => Whole warmer found steps s ∧
      Counted warmer steps s)
    · exact ⟨⟨rfl, nofun, nofun⟩, ⟨rfl, nofun, nofun⟩⟩
    · exact fun _ hs h => ⟨hs.1.step h, hs.2.step hs.1 h⟩
  exact ⟨h.1.file, h.2.failures, h.2.backsOff, h.2.ends⟩

end

/-! ### Where a response comes from -/

def LoopOp.inserted (s : LoopState κ ρ) : LoopOp κ ρ → Option (κ × ρ)
  | .call op => (op.inserted s.exact).map fun inserted => (inserted.1, inserted.2.response)
  | .take _ | .skip _ | .write | .rename _ | .fail _ | .wake | .restart _ _ => none

/-- The response was inserted under the key in the run, or found in the file at its start. -/
def Stems (found : DumpFile κ ρ) (steps : List (LoopTransition κ ρ)) (k : κ) (response : ρ) :
    Prop :=
  (∃ t ∈ steps, t.label.inserted t.pre = some (k, response)) ∨
    ∃ dump, found = .entries dump ∧ ∃ d ∈ dump, d.hash = k ∧ d.response = response

/-- All that the cache holds, and all that it held before, stems from the run or the file. -/
structure AllStem (found : DumpFile κ ρ) (steps : List (LoopTransition κ ρ)) (s : LoopState κ ρ) :
    Prop where
  now : ∀ k e, s.exact.cache.map.lookup k = some e → Stems found steps k e.response
  before : ∀ t ∈ steps, ∀ k e, t.pre.exact.cache.map.lookup k = some e →
    Stems found steps k e.response

section

variable {warmer : CacheWarmer} {found : DumpFile κ ρ} {steps : List (LoopTransition κ ρ)}
  {s s' : LoopState κ ρ} {op : LoopOp κ ρ} {k : κ} {response : ρ}

omit [DecidableEq κ] in
theorem Stems.cons (h : Stems found steps k response) (t : LoopTransition κ ρ) :
    Stems found (t :: steps) k response :=
  h.imp_left fun ⟨t', ht', hinserted⟩ => ⟨t', List.mem_cons_of_mem _ ht', hinserted⟩

omit [DecidableEq κ] in
theorem exists_of_lastTaken {dump : List (CacheDumpEntry κ ρ)}
    (h : lastTaken warmer steps = some dump) : ∃ t ∈ steps, dump = t.pre.topEntries warmer := by
  obtain ⟨t, ht, rfl⟩ := Option.map_eq_some_iff.mp h
  exact ⟨t, List.mem_of_find?_eq_some ht, rfl⟩

omit [DecidableEq κ] in
theorem exists_of_lastRenamed {dump : List (CacheDumpEntry κ ρ)}
    (h : lastRenamed warmer steps = some dump) : ∃ t ∈ steps, dump = t.pre.topEntries warmer := by
  induction steps with
  | nil => cases h
  | cons t earlier ih =>
      rw [lastRenamed] at h
      split at h
      · obtain ⟨t', ht', hdump⟩ := exists_of_lastTaken h
        exact ⟨t', List.mem_cons_of_mem _ ht', hdump⟩
      · obtain ⟨t', ht', hdump⟩ := ih h
        exact ⟨t', List.mem_cons_of_mem _ ht', hdump⟩

/-- What is under the dump path stems from the run or from what was found there. -/
theorem AllStem.file (hs : AllStem found steps s) (hwhole : Whole warmer found steps s)
    {dump : List (CacheDumpEntry κ ρ)} (hfile : s.file = .entries dump)
    {d : CacheDumpEntry κ ρ} (hd : d ∈ dump) : Stems found steps d.hash d.response := by
  rw [hwhole.file] at hfile
  cases hrenamed : lastRenamed warmer steps with
  | none =>
      rw [hrenamed] at hfile
      exact .inr ⟨dump, hfile, d, hd, rfl, rfl⟩
  | some taken =>
      rw [hrenamed] at hfile
      obtain rfl := DumpFile.entries.inj hfile
      obtain ⟨t, ht, rfl⟩ := exists_of_lastRenamed hrenamed
      obtain ⟨e, hlookup, -, hresponse, -⟩ := ExactCache.mem_topByHitCount hd
      rw [hresponse]
      exact hs.before t ht _ e hlookup

theorem AllStem.step (hs : AllStem found steps s) (hwhole : Whole warmer found steps s)
    (h : LoopStep warmer s op s') : AllStem found (⟨s, op, s'⟩ :: steps) s' := by
  have hbefore : ∀ t ∈ (⟨s, op, s'⟩ :: steps : List (LoopTransition κ ρ)), ∀ k e,
      t.pre.exact.cache.map.lookup k = some e →
        Stems found (⟨s, op, s'⟩ :: steps) k e.response := by
    intro t ht k e hlookup
    rcases List.mem_cons.mp ht with rfl | ht
    · exact (hs.now k e hlookup).cons _
    · exact (hs.before t ht k e hlookup).cons _
  have hkept (hexact : s'.exact = s.exact) : ∀ k e, s'.exact.cache.map.lookup k = some e →
      Stems found (⟨s, op, s'⟩ :: steps) k e.response := by
    intro k e hlookup
    rw [hexact] at hlookup
    exact (hs.now k e hlookup).cons _
  have hdumped {success last : Bool} (s : LoopState κ ρ) :
      (s.dumped success last).exact = s.exact := by
    rw [LoopState.dumped]
    split_ifs <;> rfl
  refine ⟨?_, hbefore⟩
  cases h with
  | take | write | wake => exact hkept rfl
  | skip | encodeError | writeError | rename | renameError => exact hkept (hdumped _)
  | @call op exact h =>
      intro k e hlookup
      obtain ⟨hash, entry, hins⟩ | ⟨-, rfl⟩ | ⟨-, -, -, -, hheld⟩ := h.cases_op
      · obtain rfl := h.of_inserted hins
        rcases ExactCache.lookup_put_cases hlookup with ⟨rfl, rfl⟩ | ⟨-, hold⟩
        · refine .inl ⟨_, List.mem_cons_self, ?_⟩
          rw [LoopOp.inserted, hins]
          rfl
        · exact (hs.now k e hold).cons _
      · cases hlookup
      · obtain ⟨e₀, hbefore, hsame⟩ := hheld k e hlookup
        rw [hsame.response]
        exact (hs.now k e₀ hbefore).cons _
  | restart maxEntries defaultTtl tmp =>
      intro k e hlookup
      rw [LoopState.restart, CacheWarmer.warm_eq] at hlookup
      rcases CacheWarmer.lookup_of_load hlookup with ⟨d, hd, rfl, rfl⟩ | hnone
      · obtain ⟨dump, hfile, hmem⟩ := CacheWarmer.mem_of_mem_loaded hd
        exact (hs.file hwhole hfile hmem).cons _
      · cases hnone

/-- Whatever fails and wherever the process goes down, all that the cache ever answers with was
inserted under that key in the run, before or after a restart, or was in the file at its start. -/
theorem response_stems_of_run (maxEntries defaultTtl now : ℕ)
    (run : Run (LoopStep warmer) { exact := ⟨.new maxEntries defaultTtl, now⟩, file := found }
      steps s) (hfound : (s.exact.cache.get s.exact.now k).1 = some response) :
    Stems found steps k response := by
  have h : Whole warmer found steps s ∧ AllStem found steps s := by
    apply run.invariant_of_history (I := fun steps s => Whole warmer found steps s ∧
      AllStem found steps s)
    · refine ⟨⟨rfl, nofun, nofun⟩, ⟨fun k e hlookup => ?_, by simp⟩⟩
      cases hlookup
    · exact fun _ hs h => ⟨hs.1.step h, hs.2.step hs.1 h⟩
  obtain ⟨e, hlookup, -, rfl⟩ := ExactCache.get_eq_some hfound
  exact h.2.now k e hlookup

end

/-! ### One restart -/

def atFirst : LoopState Bool ℕ := { exact := ⟨.new 2 0, 0⟩, file := .absent }

def oneInserted : LoopState Bool ℕ :=
  { atFirst with exact := ⟨atFirst.exact.cache.insert 0 false 10, 0⟩ }

def bothInserted : LoopState Bool ℕ :=
  { oneInserted with exact := ⟨oneInserted.exact.cache.insert 0 true 20, 0⟩ }

def bothTaken : List (CacheDumpEntry Bool ℕ) := bothInserted.topEntries ⟨2⟩

def bothWriting : LoopState Bool ℕ := { bothInserted with phase := .writing bothTaken false }

def bothMoving : LoopState Bool ℕ :=
  { bothInserted with tmp := .entries bothTaken, phase := .moving bothTaken false }

def bothMoved : LoopState Bool ℕ :=
  { bothMoving with file := bothMoving.tmp, tmp := .absent }.dumped true false

/-- Two entries are dumped, and the process goes down and comes up. -/
def dumpedOnce : List (LoopTransition Bool ℕ) :=
  [⟨bothMoved, .restart 2 0, bothMoved.restart ⟨2⟩ 2 0 .absent⟩,
    ⟨bothMoving, .rename false, bothMoved⟩, ⟨bothWriting, .write, bothMoving⟩,
    ⟨bothInserted, .take false, bothWriting⟩,
    ⟨oneInserted, .call (.insert true 20), bothInserted⟩,
    ⟨atFirst, .call (.insert false 10), oneInserted⟩]

theorem run_dumpedOnce :
    Run (LoopStep ⟨2⟩) atFirst dumpedOnce (bothMoved.restart ⟨2⟩ 2 0 .absent) := by
  apply Run.snoc
  · apply Run.snoc
    · apply Run.snoc
      · apply Run.snoc
        · apply Run.snoc
          · exact .snoc .nil (.call atFirst (.insert _ false 10))
          · exact .call oneInserted (.insert _ true 20)
        · exact .take bothInserted false rfl (by decide)
      · exact .write bothWriting bothTaken false rfl
    · exact .rename bothMoving bothTaken false rfl
  · exact .restart bothMoved 2 0 .absent

theorem dumpLoop_of_run_dumpedOnce :
    bothMoved.file = (lastRenamed ⟨2⟩ dumpedOnce).elim .absent .entries ∧
      (0 : BitVec 32) = BitVec.ofNat 32 (failuresOf dumpedOnce) := by
  obtain ⟨hfile, hfailures, -, -⟩ := dumpLoop_of_run atFirst.exact run_dumpedOnce
  exact ⟨hfile, hfailures⟩

/-- After the restart each key has its own response. -/
theorem response_stems_of_run_dumpedOnce :
    Stems (.absent : DumpFile Bool ℕ) dumpedOnce false 10 ∧
      Stems (.absent : DumpFile Bool ℕ) dumpedOnce true 20 :=
  ⟨response_stems_of_run 2 0 0 run_dumpedOnce (by decide +kernel),
    response_stems_of_run 2 0 0 run_dumpedOnce (by decide +kernel)⟩

end NeuRust.Cache
