import NeuRust.Cache.ExactCache
import NeuRust.Machine.Run
import Mathlib.Logic.Function.Basic

/-!
The exact cache under concurrent calls. Each client is at one point of one call; the reads of the
length, the scans, the removals and the insertions are single steps on the shared map, which the
clients take in any order. A lookup checks an entry and counts its hit under one guard, but removes
an expired entry only after it has dropped the guard.
-/

namespace NeuRust.Cache

structure Insertion (κ ρ : Type*) where
  hash : κ
  response : ρ
  ttl : ℕ

def Insertion.entry {κ ρ : Type*} (now : ℕ) (ins : Insertion κ ρ) : CacheEntry ρ :=
  ⟨ins.response, 0, now, ins.ttl⟩

/-- What a client does next. -/
inductive Pc (κ ρ : Type*)
  /-- No call is under way; the last lookup answered this. -/
  | idle (answer : Option ρ)
  /-- Compare the length with the capacity, after this many attempts to evict. -/
  | readLen (ins : Insertion κ ρ) (attempts : ℕ)
  /-- Find what to evict. -/
  | scan (ins : Insertion κ ρ) (attempts : ℕ)
  /-- Remove what the scan found, key by key. -/
  | remove (ins : Insertion κ ρ) (attempts : ℕ) (keys : List κ)
  | insert (ins : Insertion κ ρ)
  /-- Find the entry, and check whether it has expired. -/
  | read (hash : κ)
  /-- Remove what is under the hash, where the check found an expired entry. -/
  | drop (hash : κ) (seen : CacheEntry ρ)

/-- The clients, the map that they share, and the time. -/
structure Contended (ι κ ρ : Type*) where
  cache : ExactCache κ ρ
  now : ℕ
  pc : ι → Pc κ ρ

inductive Action (ι κ ρ : Type*)
  | callInsert (client : ι) (ins : Insertion κ ρ)
  | callGet (client : ι) (hash : κ)
  /-- The next step of the client's call. -/
  | act (client : ι)
  | advance (time : ℕ)
  | reorder

/-- Where an eviction goes on once it has these keys left to remove. -/
def Pc.afterScan {κ ρ : Type*} (ins : Insertion κ ρ) (attempts : ℕ) : List κ → Pc κ ρ
  | [] => .readLen ins (attempts + 1)
  | key :: keys => .remove ins attempts (key :: keys)

namespace Contended

variable {ι κ ρ : Type*}

def start (maxEntries defaultTtl now : ℕ) : Contended ι κ ρ :=
  ⟨.new maxEntries defaultTtl, now, fun _ => .idle none⟩

def withMap (s : Contended ι κ ρ) (map : Table κ (CacheEntry ρ)) : Contended ι κ ρ :=
  { s with cache := { s.cache with map := map } }

def isIdle (s : Contended ι κ ρ) (client : ι) : Bool :=
  match s.pc client with
  | .idle _ => true
  | _ => false

section

variable (s : Contended ι κ ρ) (map : Table κ (CacheEntry ρ))

@[simp] theorem withMap_pc : (s.withMap map).pc = s.pc := rfl

end

theorem exists_idle {s : Contended ι κ ρ} {i : ι} (h : s.isIdle i = true) :
    ∃ answer, s.pc i = .idle answer := by
  rw [isIdle] at h
  split at h
  next answer hpc => exact ⟨answer, hpc⟩
  next => cases h

variable [DecidableEq ι]

def goto (s : Contended ι κ ρ) (client : ι) (pc : Pc κ ρ) : Contended ι κ ρ :=
  { s with pc := Function.update s.pc client pc }

section

variable (s : Contended ι κ ρ) (client : ι) (pc : Pc κ ρ)

@[simp] theorem goto_cache : (s.goto client pc).cache = s.cache := rfl

theorem goto_pc : (s.goto client pc).pc = Function.update s.pc client pc := rfl

end

variable [DecidableEq κ]

def actAt (s : Contended ι κ ρ) (client : ι) : Pc κ ρ → Option (Contended ι κ ρ)
  | .idle _ => none
  | .readLen ins attempts =>
      if s.cache.maxEntries ≤ s.cache.len ∧ attempts < 5 then
        some (s.goto client (.scan ins attempts))
      else some (s.goto client (.insert ins))
  | .scan ins attempts =>
      some (s.goto client (.afterScan ins attempts (evictTargets s.now s.cache.map)))
  | .remove ins attempts [] => some (s.goto client (.readLen ins (attempts + 1)))
  | .remove ins attempts (key :: keys) =>
      some ((s.withMap (s.cache.map.erase key)).goto client (.afterScan ins attempts keys))
  | .insert ins =>
      some ((s.withMap (s.cache.map.insert ins.hash (ins.entry s.now))).goto client (.idle none))
  | .read hash =>
      match s.cache.map.lookup hash with
      | none => some (s.goto client (.idle none))
      | some entry =>
          if entry.isExpired s.now then some (s.goto client (.drop hash entry))
          else some ((s.withMap (s.cache.map.replace hash entry.hit)).goto client
            (.idle (some entry.response)))
  | .drop hash _ => some ((s.withMap (s.cache.map.erase hash)).goto client (.idle none))

def next (s : Contended ι κ ρ) : Action ι κ ρ → Option (Contended ι κ ρ)
  | .callInsert client ins =>
      if s.isIdle client then some (s.goto client (.readLen ins 0)) else none
  | .callGet client hash => if s.isIdle client then some (s.goto client (.read hash)) else none
  | .act client => s.actAt client (s.pc client)
  | .advance time => some { s with now := s.now + time }
  | .reorder => none

/-- A step of one client, or the passing of time, or a change of the order of iteration. -/
inductive Step : Contended ι κ ρ → Action ι κ ρ → Contended ι κ ρ → Prop
  | next {s s' : Contended ι κ ρ} {a : Action ι κ ρ} (h : s.next a = some s') : Step s a s'
  | reorder (s : Contended ι κ ρ) (map : Table κ (CacheEntry ρ))
      (h : map.entries.Perm s.cache.map.entries) : Step s .reorder (s.withMap map)

/-- What a step does, to the last detail. -/
inductive Effect (s : Contended ι κ ρ) : Action ι κ ρ → Contended ι κ ρ → Prop
  | callInsert {i : ι} {answer : Option ρ} (ins : Insertion κ ρ) (hpc : s.pc i = .idle answer) :
      Effect s (.callInsert i ins) (s.goto i (.readLen ins 0))
  | callGet {i : ι} {answer : Option ρ} (hash : κ) (hpc : s.pc i = .idle answer) :
      Effect s (.callGet i hash) (s.goto i (.read hash))
  | full {i : ι} {ins : Insertion κ ρ} {attempts : ℕ} (hpc : s.pc i = .readLen ins attempts)
      (hfull : s.cache.maxEntries ≤ s.cache.len) (hattempts : attempts < 5) :
      Effect s (.act i) (s.goto i (.scan ins attempts))
  | permitted {i : ι} {ins : Insertion κ ρ} {attempts : ℕ} (hpc : s.pc i = .readLen ins attempts)
      (hroom : s.cache.len < s.cache.maxEntries ∨ 5 ≤ attempts) :
      Effect s (.act i) (s.goto i (.insert ins))
  | scan {i : ι} {ins : Insertion κ ρ} {attempts : ℕ} (hpc : s.pc i = .scan ins attempts) :
      Effect s (.act i) (s.goto i (.afterScan ins attempts (evictTargets s.now s.cache.map)))
  | removed {i : ι} {ins : Insertion κ ρ} {attempts : ℕ} (hpc : s.pc i = .remove ins attempts []) :
      Effect s (.act i) (s.goto i (.readLen ins (attempts + 1)))
  | remove {i : ι} {ins : Insertion κ ρ} {attempts : ℕ} {key : κ} {keys : List κ}
      (hpc : s.pc i = .remove ins attempts (key :: keys)) :
      Effect s (.act i)
        ((s.withMap (s.cache.map.erase key)).goto i (.afterScan ins attempts keys))
  | insert {i : ι} {ins : Insertion κ ρ} (hpc : s.pc i = .insert ins) :
      Effect s (.act i)
        ((s.withMap (s.cache.map.insert ins.hash (ins.entry s.now))).goto i (.idle none))
  | miss {i : ι} {hash : κ} (hpc : s.pc i = .read hash) (hnone : s.cache.map.lookup hash = none) :
      Effect s (.act i) (s.goto i (.idle none))
  | expired {i : ι} {hash : κ} {entry : CacheEntry ρ} (hpc : s.pc i = .read hash)
      (hlookup : s.cache.map.lookup hash = some entry) (hexpired : entry.isExpired s.now = true) :
      Effect s (.act i) (s.goto i (.drop hash entry))
  | hit {i : ι} {hash : κ} {entry : CacheEntry ρ} (hpc : s.pc i = .read hash)
      (hlookup : s.cache.map.lookup hash = some entry) (hfresh : entry.isExpired s.now = false) :
      Effect s (.act i)
        ((s.withMap (s.cache.map.replace hash entry.hit)).goto i (.idle (some entry.response)))
  | drop {i : ι} {hash : κ} {seen : CacheEntry ρ} (hpc : s.pc i = .drop hash seen) :
      Effect s (.act i) ((s.withMap (s.cache.map.erase hash)).goto i (.idle none))
  | advance (time : ℕ) : Effect s (.advance time) { s with now := s.now + time }
  | reorder (map : Table κ (CacheEntry ρ)) (h : map.entries.Perm s.cache.map.entries) :
      Effect s .reorder (s.withMap map)

theorem effect_of_actAt {s s' : Contended ι κ ρ} {i : ι} (h : s.actAt i (s.pc i) = some s') :
    Effect s (.act i) s' := by
  cases hpc : s.pc i with
  | idle answer =>
      rw [hpc, actAt] at h
      cases h
  | readLen ins attempts =>
      rw [hpc, actAt] at h
      split at h
      next hfull =>
        cases h
        exact .full hpc hfull.1 hfull.2
      next hroom =>
        cases h
        apply Effect.permitted hpc
        omega
  | scan ins attempts =>
      rw [hpc, actAt] at h
      cases h
      exact .scan hpc
  | remove ins attempts keys =>
      cases keys with
      | nil =>
          rw [hpc, actAt] at h
          cases h
          exact .removed hpc
      | cons key keys =>
          rw [hpc, actAt] at h
          cases h
          exact .remove hpc
  | insert ins =>
      rw [hpc, actAt] at h
      cases h
      exact .insert hpc
  | read hash =>
      rw [hpc, actAt] at h
      split at h
      next hnone =>
        cases h
        exact .miss hpc hnone
      next entry hlookup =>
        split at h
        next hexpired =>
          cases h
          exact .expired hpc hlookup hexpired
        next hfresh =>
          cases h
          exact .hit hpc hlookup (Bool.eq_false_iff.mpr hfresh)
  | drop hash seen =>
      rw [hpc, actAt] at h
      cases h
      exact .drop hpc

theorem Step.effect {s s' : Contended ι κ ρ} {a : Action ι κ ρ} (h : Step s a s') :
    Effect s a s' := by
  cases h with
  | reorder map hperm => exact .reorder map hperm
  | next h =>
      cases a with
      | callInsert client ins =>
          rw [Contended.next] at h
          split at h
          next hidle =>
            obtain ⟨answer, hpc⟩ := exists_idle hidle
            cases h
            exact .callInsert ins hpc
          next => cases h
      | callGet client hash =>
          rw [Contended.next] at h
          split at h
          next hidle =>
            obtain ⟨answer, hpc⟩ := exists_idle hidle
            cases h
            exact .callGet hash hpc
          next => cases h
      | act client => exact effect_of_actAt h
      | advance time =>
          cases h
          exact .advance time
      | reorder => cases h

end Contended

end NeuRust.Cache
