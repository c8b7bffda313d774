import NeuRust.Cache.Contention
import Mathlib.Algebra.Group.Action.Defs
import Mathlib.Algebra.Order.BigOperators.Group.Finset
import Mathlib.Data.Fintype.BigOperators

/-!
How far the exact cache overshoots its capacity under concurrent insertions. Several clients can
choose the same victim, so that one removal counts as an attempt for all of them; after five
attempts a client inserts whatever the length is. While at most five clients insert, a removal pays
for all the attempts it is counted for: five times the length, plus the attempts made so far, does
not grow except below the capacity.
-/

namespace NeuRust.Cache

open Finset

section Weight

variable {κ ρ : Type*} [DecidableEq κ]

/-- The attempts a client has made, a pending removal of a key that has gone included. A client
that may insert has made all five. -/
def Pc.attempts (map : Table κ (CacheEntry ρ)) : Pc κ ρ → ℕ
  | .readLen _ attempts | .scan _ attempts => attempts
  | .remove _ attempts [] => attempts + 1
  | .remove _ attempts (key :: _) => attempts + if key ∈ map then 0 else 1
  | .insert _ => 5
  | .idle _ | .read _ | .drop _ _ => 0

/-- A client makes five attempts at most, and removes one key at each. -/
def Pc.WithinBudget : Pc κ ρ → Prop
  | .readLen _ attempts => attempts ≤ 5
  | .scan _ attempts => attempts < 5
  | .remove _ attempts keys => attempts < 5 ∧ keys.length ≤ 1
  | .insert _ | .idle _ | .read _ | .drop _ _ => True

theorem Pc.attempts_le {pc : Pc κ ρ} (h : pc.WithinBudget) (map : Table κ (CacheEntry ρ)) :
    pc.attempts map ≤ 5 := by
  cases pc with
  | readLen ins attempts => exact h
  | scan ins attempts => exact Nat.le_of_lt h
  | remove ins attempts keys =>
      cases keys with
      | nil => exact h.1
      | cons key keys =>
          have hlt := h.1
          rw [Pc.attempts]
          split <;> omega
  | insert | idle | read | drop => exact Nat.le_of_ble_eq_true rfl

/-- Only a removal whose key comes or goes weighs differently in another map. -/
theorem Pc.attempts_congr {map map' : Table κ (CacheEntry ρ)} (h : ∀ k, k ∈ map' ↔ k ∈ map)
    (pc : Pc κ ρ) : pc.attempts map' = pc.attempts map := by
  cases pc with
  | remove ins attempts keys =>
      cases keys with
      | nil => rfl
      | cons key keys => rw [Pc.attempts, Pc.attempts, if_congr (h key) rfl rfl]
  | readLen | scan | insert | idle | read | drop => rfl

theorem Pc.attempts_erase_le (map : Table κ (CacheEntry ρ)) (key : κ) (pc : Pc κ ρ) :
    pc.attempts (map.erase key) ≤ pc.attempts map + 1 := by
  cases pc with
  | remove ins attempts keys =>
      cases keys with
      | nil => exact Nat.le_succ _
      | cons key' keys =>
          rw [Pc.attempts, Pc.attempts]
          split <;> split <;> omega
  | readLen | scan | insert | idle | read | drop => exact Nat.le_succ _

theorem Pc.attempts_insert_le (map : Table κ (CacheEntry ρ)) (key : κ) (entry : CacheEntry ρ)
    (pc : Pc κ ρ) : pc.attempts (map.insert key entry) ≤ pc.attempts map := by
  cases pc with
  | remove ins attempts keys =>
      cases keys with
      | nil => exact le_rfl
      | cons key' keys =>
          rw [Pc.attempts, Pc.attempts]
          by_cases hmem : key' ∈ map
          · rw [if_pos hmem, if_pos ((AList.mem_insert map).mpr (.inr hmem))]
          · rw [if_neg hmem]
            split <;> omega
  | readLen | scan | insert | idle | read | drop => exact le_rfl

end Weight

namespace Contended

variable {ι κ ρ : Type*} [Fintype ι] [DecidableEq ι] [DecidableEq κ]

def total (map : Table κ (CacheEntry ρ)) (pc : ι → Pc κ ρ) : ℕ := ∑ i, (pc i).attempts map

def NoneExpired (s : Contended ι κ ρ) : Prop :=
  ∀ k e, s.cache.map.lookup k = some e → e.isExpired s.now = false

theorem total_update (map : Table κ (CacheEntry ρ)) (pc : ι → Pc κ ρ) (i : ι) (p : Pc κ ρ) :
    total map (Function.update pc i p) + (pc i).attempts map = total map pc + p.attempts map := by
  have hrest : ∑ j ∈ univ.erase i, (Function.update pc i p j).attempts map =
      ∑ j ∈ univ.erase i, (pc j).attempts map := by
    apply sum_congr rfl
    intro j hj
    rw [Function.update_of_ne (ne_of_mem_erase hj)]
  have hnew := add_sum_erase univ (fun j => (Function.update pc i p j).attempts map) (mem_univ i)
  have hold := add_sum_erase univ (fun j => (pc j).attempts map) (mem_univ i)
  simp only [Function.update_self] at hnew
  rw [total, total]
  omega

omit [DecidableEq ι] in
theorem total_le {map : Table κ (CacheEntry ρ)} {pc : ι → Pc κ ρ}
    (h : ∀ i, (pc i).WithinBudget) : total map pc ≤ 5 * Fintype.card ι := by
  have hsum := sum_le_card_nsmul univ (fun i => (pc i).attempts map) 5
    fun i _ => Pc.attempts_le (h i) map
  rw [smul_eq_mul, mul_comm] at hsum
  exact hsum

omit [DecidableEq ι] in
theorem total_congr {map map' : Table κ (CacheEntry ρ)} (h : ∀ k, k ∈ map' ↔ k ∈ map)
    (pc : ι → Pc κ ρ) : total map' pc = total map pc :=
  sum_congr rfl fun i _ => Pc.attempts_congr h (pc i)

omit [DecidableEq ι] in
theorem total_erase_le (map : Table κ (CacheEntry ρ)) (key : κ) (pc : ι → Pc κ ρ) :
    total (map.erase key) pc ≤ total map pc + Fintype.card ι := by
  have hsum : total (map.erase key) pc ≤ ∑ i, ((pc i).attempts map + 1) :=
    sum_le_sum fun i _ => Pc.attempts_erase_le map key (pc i)
  rw [sum_add_distrib, sum_const, smul_eq_mul, mul_one] at hsum
  exact hsum

omit [DecidableEq ι] in
theorem total_insert_le (map : Table κ (CacheEntry ρ)) (key : κ) (entry : CacheEntry ρ)
    (pc : ι → Pc κ ρ) : total (map.insert key entry) pc ≤ total map pc :=
  sum_le_sum fun i _ => Pc.attempts_insert_le map key entry (pc i)

/-- The map and the attempts together stay within what the clients may overshoot by. -/
structure WithinRoom (maxEntries : ℕ) (s : Contended ι κ ρ) : Prop where
  capacity : s.cache.maxEntries = maxEntries
  budget : ∀ i, (s.pc i).WithinBudget
  room : 5 * s.cache.len + total s.cache.map s.pc + 5 ≤ 5 * (maxEntries + Fintype.card ι)

omit [Fintype ι] [DecidableEq κ] in
theorem budget_goto {s : Contended ι κ ρ} (h : ∀ i, (s.pc i).WithinBudget) {i : ι} {pc : Pc κ ρ}
    (hpc : pc.WithinBudget) (j : ι) : ((s.goto i pc).pc j).WithinBudget := by
  rw [goto_pc]
  by_cases hj : j = i
  · subst hj
    rw [Function.update_self]
    exact hpc
  · rw [Function.update_of_ne hj]
    exact h j

variable {maxEntries : ℕ} {s s' : Contended ι κ ρ}

omit [DecidableEq ι] in
theorem WithinRoom.start {defaultTtl now : ℕ} (h : 1 ≤ maxEntries) :
    WithinRoom maxEntries (start maxEntries defaultTtl now : Contended ι κ ρ) where
  capacity := rfl
  budget := fun _ => trivial
  room := by
    have hlen : (Contended.start maxEntries defaultTtl now : Contended ι κ ρ).cache.len = 0 := rfl
    have htotal : total ∅ (Contended.start maxEntries defaultTtl now : Contended ι κ ρ).pc = 0 :=
      sum_eq_zero fun _ _ => rfl
    show 5 * 0 + total ∅ (Contended.start maxEntries defaultTtl now : Contended ι κ ρ).pc + 5 ≤ _
    omega

theorem WithinRoom.goto (hs : WithinRoom maxEntries s) {i : ι} {pc : Pc κ ρ}
    (hbudget : pc.WithinBudget)
    (heq : pc.attempts s.cache.map = (s.pc i).attempts s.cache.map) :
    WithinRoom maxEntries (s.goto i pc) where
  capacity := hs.capacity
  budget := budget_goto hs.budget hbudget
  room := by
    have hupdate := total_update s.cache.map s.pc i pc
    have hroom := hs.room
    rw [goto_cache, goto_pc]
    omega

theorem WithinRoom.of_lt (hs : WithinRoom maxEntries s) {i : ι} {pc : Pc κ ρ}
    (hbudget : pc.WithinBudget) (hlt : s.cache.len < maxEntries) :
    WithinRoom maxEntries (s.goto i pc) where
  capacity := hs.capacity
  budget := budget_goto hs.budget hbudget
  room := by
    have htotal : total s.cache.map (s.goto i pc).pc ≤ _ := total_le (budget_goto hs.budget hbudget)
    rw [goto_cache]
    omega

omit [DecidableEq ι] in
theorem WithinRoom.withMap (hs : WithinRoom maxEntries s) {map : Table κ (CacheEntry ρ)}
    (hmem : ∀ k, k ∈ map ↔ k ∈ s.cache.map) (hsize : map.size = s.cache.map.size) :
    WithinRoom maxEntries (s.withMap map) where
  capacity := hs.capacity
  budget := hs.budget
  room := by
    have hroom := hs.room
    show 5 * map.size + total map s.pc + 5 ≤ _
    rw [hsize, total_congr hmem]
    exact hroom

/-- A removal pays for the attempts it is counted for. -/
theorem WithinRoom.erase (hs : WithinRoom maxEntries s) (hclients : Fintype.card ι ≤ 5) {i : ι}
    {pc : Pc κ ρ} {key : κ} (hbudget : pc.WithinBudget)
    (heq : pc.attempts (s.cache.map.erase key) = (s.pc i).attempts (s.cache.map.erase key)) :
    WithinRoom maxEntries ((s.withMap (s.cache.map.erase key)).goto i pc) := by
  by_cases hmem : key ∈ s.cache.map
  · refine ⟨hs.capacity, budget_goto hs.budget hbudget, ?_⟩
    have hupdate := total_update (s.cache.map.erase key) s.pc i pc
    have herase := total_erase_le s.cache.map key s.pc
    have hsize := AList.size_erase_of_mem hmem
    have hroom : 5 * s.cache.map.size + total s.cache.map s.pc + 5 ≤ _ := hs.room
    show 5 * (s.cache.map.erase key).size +
      total (s.cache.map.erase key) (Function.update s.pc i pc) + 5 ≤ _
    omega
  · rw [AList.erase_of_notMem hmem] at heq ⊢
    exact hs.goto hbudget heq

/-- An insertion uses up the attempts of its client. -/
theorem WithinRoom.insert (hs : WithinRoom maxEntries s) {i : ι} {ins : Insertion κ ρ}
    (hpc : s.pc i = .insert ins) (key : κ) (entry : CacheEntry ρ) :
    WithinRoom maxEntries
      ((s.withMap (s.cache.map.insert key entry)).goto i (.idle none)) where
  capacity := hs.capacity
  budget := budget_goto hs.budget trivial
  room := by
    have hupdate := total_update (s.cache.map.insert key entry) s.pc i (.idle none)
    have hinsert := total_insert_le s.cache.map key entry s.pc
    have hsize := AList.size_insert_le s.cache.map key entry
    have hfive : (s.pc i).attempts (s.cache.map.insert key entry) = 5 := by rw [hpc, Pc.attempts]
    have hzero : (Pc.idle none).attempts (s.cache.map.insert key entry) = 0 := rfl
    have hroom : 5 * s.cache.map.size + total s.cache.map s.pc + 5 ≤ _ := hs.room
    show 5 * (s.cache.map.insert key entry).size +
      total (s.cache.map.insert key entry) (Function.update s.pc i (.idle none)) + 5 ≤ _
    omega

/-- Without expired entries, a scan finds one victim, unless the map is empty. -/
theorem WithinRoom.scan (hs : WithinRoom maxEntries s) (hpos : 1 ≤ maxEntries)
    (hfresh : NoneExpired s) {i : ι} {ins : Insertion κ ρ} {attempts : ℕ}
    (hpc : s.pc i = .scan ins attempts) :
    WithinRoom maxEntries
      (s.goto i (.afterScan ins attempts (evictTargets s.now s.cache.map))) := by
  have hattempts : attempts < 5 := by
    have hbudget := hs.budget i
    rwa [hpc] at hbudget
  have hexpired : expiredKeys s.now s.cache.map = [] := expiredKeys_eq_nil.mpr hfresh
  rw [evictTargets, if_neg (not_not.mpr hexpired)]
  cases hmin : s.cache.map.minKey CacheEntry.hits with
  | none =>
      have hempty : s.cache.len = 0 := AList.minKey_eq_none.mp hmin
      apply hs.of_lt
      · exact Nat.succ_le_of_lt hattempts
      · omega
  | some key =>
      obtain ⟨e, hlookup, -⟩ := AList.minKey_eq_some hmin
      apply hs.goto
      · exact ⟨hattempts, le_rfl⟩
      · show attempts + (if key ∈ s.cache.map then 0 else 1) = _
        rw [if_pos (AList.mem_of_lookup hlookup), hpc, Pc.attempts]
        rfl

theorem WithinRoom.step (hclients : Fintype.card ι ≤ 5) (hpos : 1 ≤ maxEntries)
    {a : Action ι κ ρ} (hs : WithinRoom maxEntries s) (hfresh : NoneExpired s)
    (h : Effect s a s') : WithinRoom maxEntries s' := by
  cases h with
  | callInsert ins hpc =>
      apply hs.goto
      · exact Nat.zero_le 5
      · rw [hpc]
        rfl
  | callGet hash hpc =>
      apply hs.goto
      · exact trivial
      · rw [hpc]
        rfl
  | full hpc hfull hattempts =>
      apply hs.goto
      · exact hattempts
      · rw [hpc]
        rfl
  | @permitted i ins attempts hpc hroom =>
      have hbudget := hs.budget i
      rw [hpc] at hbudget
      rcases hroom with hlt | hattempts
      · apply hs.of_lt
        · exact trivial
        · rw [← hs.capacity]
          exact hlt
      · apply hs.goto
        · exact trivial
        · rw [hpc]
          exact Nat.le_antisymm hattempts hbudget
  | scan hpc => exact hs.scan hpos hfresh hpc
  | @removed i ins attempts hpc =>
      have hbudget := hs.budget i
      rw [hpc] at hbudget
      apply hs.goto
      · exact Nat.succ_le_of_lt hbudget.1
      · rw [hpc]
        rfl
  | @remove i ins attempts key keys hpc =>
      have hbudget := hs.budget i
      rw [hpc] at hbudget
      obtain rfl : keys = [] := by
        have hlen := hbudget.2
        rw [List.length_cons] at hlen
        exact List.length_eq_zero_iff.mp (by omega)
      apply hs.erase hclients
      · exact Nat.succ_le_of_lt hbudget.1
      · rw [hpc, Pc.attempts, if_neg (fun hmem => (AList.mem_erase.mp hmem).1 rfl)]
        rfl
  | insert hpc => exact hs.insert hpc _ _
  | miss hpc | expired hpc =>
      apply hs.goto
      · exact trivial
      · rw [hpc]
        rfl
  | hit hpc =>
      apply (hs.withMap (fun _ => AList.mem_replace) (AList.size_replace _ _ _)).goto
      · exact trivial
      · rw [withMap_pc, hpc]
        rfl
  | drop hpc =>
      apply hs.erase hclients
      · exact trivial
      · rw [hpc]
        rfl
  | advance => exact ⟨hs.capacity, hs.budget, hs.room⟩
  | reorder map hperm => exact hs.withMap (fun _ => AList.mem_of_perm hperm) (AList.size_perm hperm)

/-- While no entry expires, at most five clients keep the cache within its capacity and their
number. -/
theorem contended_len_le {defaultTtl now : ℕ}
    {steps : List (Transition (Contended ι κ ρ) (Action ι κ ρ))}
    (hclients : Fintype.card ι ≤ 5) (hpos : 1 ≤ maxEntries)
    (run : Run Step (Contended.start maxEntries defaultTtl now) steps s)
    (hfresh : ∀ t ∈ steps, NoneExpired t.pre) :
    s.cache.len ≤ maxEntries + Fintype.card ι := by
  have hs : WithinRoom maxEntries s := by
    apply run.invariant_of_forall (P := fun t => NoneExpired t.pre) (.start hpos)
    · intro s a s' hs h hfresh
      exact hs.step hclients hpos hfresh h.effect
    · exact hfresh
  have hroom := hs.room
  omega

/-! ### Clients in step -/

/-- Each client takes a step of its call. -/
def sweep (clients : ℕ) : List (Action (Fin clients) ℕ Char) :=
  (List.finRange clients).map .act

def insertInStep (clients sweeps : ℕ) (round : ℕ) : List (Action (Fin clients) ℕ Char) :=
  ((List.finRange clients).map fun i => .callInsert i ⟨clients * round + i, 'a', 60⟩) ++
    (List.replicate sweeps (sweep clients)).flatten

/-- Nobody waits at first. Later each client evicts five times, and inserts. -/
def threeRounds (clients : ℕ) : List (Action (Fin clients) ℕ Char) :=
  insertInStep clients 2 0 ++ insertInStep clients 17 1 ++ insertInStep clients 17 2

/-- Nothing expires in the run, and it ends with more entries than this. -/
def endsAbove (bound : ℕ) (clients : ℕ)
    (run : List (Transition (Contended (Fin clients) ℕ Char) (Action (Fin clients) ℕ Char)) ×
      Contended (Fin clients) ℕ Char) : Bool :=
  (run.1.all fun t => (expiredKeys t.pre.now t.pre.cache.map).isEmpty) && bound < run.2.cache.len

theorem exists_run_above {clients bound : ℕ} {labels : List (Action (Fin clients) ℕ Char)}
    (h : (exec Contended.next (Contended.start 1 60 0) labels).any
      (endsAbove bound clients) = true) :
    ∃ steps s, Run Step (Contended.start 1 60 0 : Contended (Fin clients) ℕ Char) steps s ∧
      (∀ t ∈ steps, NoneExpired t.pre) ∧ bound < s.cache.len := by
  obtain ⟨steps, s, run, hends⟩ := Run.exists_of_exec h Step.next
  obtain ⟨hall, hlen⟩ := (Bool.and_eq_true_iff).mp hends
  refine ⟨steps, s, run, ?_, of_decide_eq_true hlen⟩
  intro t ht
  exact expiredKeys_eq_nil.mp (List.isEmpty_iff.mp (List.all_eq_true.mp hall t ht))

/-- Two clients that find room at the same time overshoot by one. -/
theorem two_clients_overshoot :
    ∃ steps s, Run Step (Contended.start 1 60 0 : Contended (Fin 2) ℕ Char) steps s ∧
      1 < s.cache.len ∧ s.cache.len ≤ 1 + Fintype.card (Fin 2) := by
  have hgrow : (exec Contended.next (Contended.start 1 60 0) (insertInStep 2 2 0)).any
      (endsAbove 1 2) = true := by
    decide +kernel
  obtain ⟨steps, s, run, hfresh, hlen⟩ := exists_run_above hgrow
  exact ⟨steps, s, run, hlen, contended_len_le (by decide) le_rfl run hfresh⟩

/-- Six clients add one entry more than they remove at each round. -/
theorem six_clients_outgrow :
    ¬ ∀ maxEntries, 1 ≤ maxEntries → ∀ clients steps s,
      Run Step (Contended.start maxEntries 60 0 : Contended (Fin clients) ℕ Char) steps s →
      (∀ t ∈ steps, NoneExpired t.pre) → s.cache.len ≤ maxEntries + clients := by
  intro hbounded
  have hgrow : (exec Contended.next (Contended.start 1 60 0) (threeRounds 6)).any
      (endsAbove 7 6) = true := by
    decide +kernel
  obtain ⟨steps, s, run, hfresh, hlen⟩ := exists_run_above hgrow
  have hle := hbounded 1 le_rfl 6 steps s run hfresh
  omega

end Contended

end NeuRust.Cache
