import NeuRust.Store.EventStore
import Mathlib.Data.List.Perm.Basic

/-!
The event stores over SQLite and PostgreSQL. Their integer columns are signed: SQLite refuses a
number that does not fit, PostgreSQL is handed the same bits. The queries have the meaning of
standard SQL.
-/

namespace NeuRust.Store

open List

/-- A row of the table `cost_events`. The flag has another type in each of the databases. -/
structure CostRow (φ : Type) where
  timestampMs : ℤ
  providerId : Str
  model : Str
  promptTokens : ℤ
  completionTokens : ℤ
  costUsd : ℚ
  latencyMs : ℤ
  cached : φ

variable {φ : Type}

/-- `SELECT (timestamp_ms / ?1) AS day_key, SUM(cost_usd) FROM cost_events WHERE timestamp_ms >= ?2
GROUP BY day_key ORDER BY day_key ASC`, the sums only -/
def selectDailyCosts (dayMs cutoffMs : ℤ) (table : List (CostRow φ)) : List ℚ :=
  (groupSums (fun row => row.timestampMs.tdiv dayMs) CostRow.costUsd
    (table.filter fun row => cutoffMs ≤ row.timestampMs)).map Prod.snd

/-- `SELECT .. FROM cost_events ORDER BY timestamp_ms ASC`, rows of one timestamp in any order -/
def selectByTimestamp (table : List (CostRow φ)) : Set (List (CostRow φ)) :=
  {rows | rows.Perm table ∧ rows.Pairwise fun a b => a.timestampMs ≤ b.timestampMs}

/-! ### SQLite -/

namespace SqliteEventStore

/-- `i64::try_from`, which binds a `u64` -/
def i64OfU64 (n : ℕ) : Except Error ℤ :=
  if n < 2 ^ 63 then .ok n
  else .error (.msg "out of range integral type conversion attempted".toList)

def insertedRow (event : CostEvent) : Except Error (CostRow ℤ) := do
  let timestampMs ← i64OfU64 event.timestampMs.toNat
  let latencyMs ← i64OfU64 event.latencyMs.toNat
  return {
    timestampMs
    providerId := event.providerId
    model := event.model
    promptTokens := event.promptTokens.toNat
    completionTokens := event.completionTokens.toNat
    costUsd := event.costUsd
    latencyMs
    cached := if event.cached then 1 else 0 }

def recordCost (event : CostEvent) (table : List (CostRow ℤ)) :
    Except Error (List (CostRow ℤ)) := do
  let row ← (insertedRow event).mapError (Error.context "Failed to insert cost event".toList)
  return table ++ [row]

def dailyCosts (now : ℤ) (days : BitVec 32) (table : List (CostRow ℤ)) :
    Except Error (List ℚ) := do
  let cutoff ← i64OfU64 (cutoffMs now days)
  return selectDailyCosts dayMs cutoff table

def outOfRange (index : ℕ) (n : ℤ) : Error :=
  .msg ("Integer ".toList ++ (toString n).toList ++ " out of range at index ".toList ++
    (toString index).toList)

/-- `row.get` of a `u64` or a `u32` -/
def unsignedColumn (w index : ℕ) (n : ℤ) : Except Error (BitVec w) :=
  if 0 ≤ n ∧ n < 2 ^ w then .ok (.ofInt w n) else .error (outOfRange index n)

/-- `row.get` of an `i32` -/
def i32Column (index : ℕ) (n : ℤ) : Except Error ℤ :=
  if -2 ^ 31 ≤ n ∧ n < 2 ^ 31 then .ok n else .error (outOfRange index n)

def readEvent (row : CostRow ℤ) : Except Error CostEvent := do
  let timestampMs ← unsignedColumn 64 0 row.timestampMs
  let promptTokens ← unsignedColumn 32 3 row.promptTokens
  let completionTokens ← unsignedColumn 32 4 row.completionTokens
  let latencyMs ← unsignedColumn 64 6 row.latencyMs
  let cached ← i32Column 7 row.cached
  return {
    timestampMs
    providerId := row.providerId
    model := row.model
    promptTokens
    completionTokens
    costUsd := row.costUsd
    latencyMs
    cached := cached != 0 }

def readEvents (rows : List (CostRow ℤ)) : Except Error (List CostEvent) :=
  (rows.mapM readEvent).mapError (Error.context "Failed to query cost events".toList)

def store : EventStore (List (CostRow ℤ)) where
  empty := []
  recordCost := recordCost
  dailyCosts := dailyCosts
  allCostEvents table := readEvents '' selectByTimestamp table

end SqliteEventStore

/-! ### PostgreSQL -/

namespace PostgresEventStore

/-- The casts to `i64` and `i32` keep the bits. -/
def insertedRow (event : CostEvent) : CostRow Bool where
  timestampMs := event.timestampMs.toInt
  providerId := event.providerId
  model := event.model
  promptTokens := event.promptTokens.toInt
  completionTokens := event.completionTokens.toInt
  costUsd := event.costUsd
  latencyMs := event.latencyMs.toInt
  cached := event.cached

def recordCost (event : CostEvent) (table : List (CostRow Bool)) : List (CostRow Bool) :=
  table ++ [insertedRow event]

/-- `i64::saturating_sub` -/
def saturatingSub (a b : ℤ) : ℤ := max (-2 ^ 63) (min (2 ^ 63 - 1) (a - b))

def dailyCosts (now : ℤ) (days : BitVec 32) (table : List (CostRow Bool)) : List ℚ :=
  selectDailyCosts dayMs (saturatingSub (clockMs now).toInt (days.toNat * dayMs)) table

/-- The casts back to `u64` and `u32`. -/
def readEvent (row : CostRow Bool) : CostEvent where
  timestampMs := .ofInt 64 row.timestampMs
  providerId := row.providerId
  model := row.model
  promptTokens := .ofInt 32 row.promptTokens
  completionTokens := .ofInt 32 row.completionTokens
  costUsd := row.costUsd
  latencyMs := .ofInt 64 row.latencyMs
  cached := row.cached

def store : EventStore (List (CostRow Bool)) where
  empty := []
  recordCost event table := .ok (recordCost event table)
  dailyCosts now days table := .ok (dailyCosts now days table)
  allCostEvents table := (fun rows => .ok (rows.map readEvent)) '' selectByTimestamp table

end PostgresEventStore

/-! ### The queries -/

section

variable {row : CostEvent → CostRow φ} {events : List CostEvent}

/-- Over rows that have the timestamps and costs of the events, the first query gives the recent
costs by day if its bound lets the recent events through. -/
theorem selectDailyCosts_eq {now cutoff : ℤ} {days : BitVec 32}
    (htimestamp : ∀ event ∈ events, (row event).timestampMs = event.timestampMs.toNat)
    (hcost : ∀ event, (row event).costUsd = event.costUsd)
    (hcutoff : ∀ timestampMs : ℕ, cutoff ≤ timestampMs ↔ now - timestampMs ≤ days.toNat * dayMs) :
    selectDailyCosts dayMs cutoff (events.map row) =
      (spentByDay now days events).map Prod.snd := by
  have hfilter : (events.map row).filter (fun row => cutoff ≤ row.timestampMs) =
      (recent now days events).map row := by
    rw [filter_map, recent]
    congr 1
    apply filter_congr
    intro event hevent
    simp only [Function.comp_apply, htimestamp event hevent, hcutoff]
  have hkey : ∀ event ∈ recent now days events,
      ((fun row : CostRow φ => row.timestampMs.tdiv dayMs) ∘ row) event =
        ((Nat.cast : ℕ → ℤ) ∘ dayKey) event := by
    intro event hevent
    rw [Function.comp_apply, htimestamp event (mem_of_mem_filter hevent)]
    exact (Int.ofNat_tdiv _ _).symm
  have hvalue : CostRow.costUsd ∘ row = CostEvent.costUsd := funext hcost
  rw [selectDailyCosts, hfilter, groupSums_map, groupSums_congr hkey, hvalue,
    groupSums_comp Nat.strictMono_cast, spentByDay]

theorem selectByTimestamp_nonempty (table : List (CostRow φ)) :
    (selectByTimestamp table).Nonempty := by
  let le (a b : CostRow φ) : Prop := a.timestampMs ≤ b.timestampMs
  have htotal : Std.Total le := ⟨fun a b => le_total a.timestampMs b.timestampMs⟩
  have htrans : IsTrans (CostRow φ) le := ⟨fun a b c => le_trans⟩
  exact ⟨table.insertionSort le, perm_insertionSort le table, pairwise_insertionSort le table⟩

/-- The selected rows are those of the events in some order. -/
theorem exists_of_mem_selectByTimestamp {rows : List (CostRow φ)}
    (h : rows ∈ selectByTimestamp (events.map row)) :
    ∃ events' : List CostEvent, rows = events'.map row ∧ events'.Perm events := by
  have hcomp : Relation.Comp (· = map row ·) (· ~ ·) rows events := by
    rw [eq_map_comp_perm]
    exact h.1
  exact hcomp

end

/-! ### Agreement -/

def FitsSigned (event : CostEvent) : Prop :=
  event.timestampMs.toNat < 2 ^ 63 ∧ event.latencyMs.toNat < 2 ^ 63

theorem toInt_eq_toNat {n : BitVec 64} (h : n.toNat < 2 ^ 63) : n.toInt = n.toNat :=
  BitVec.toInt_eq_toNat_of_lt (by omega)

namespace SqliteEventStore

theorem ok_bind {α β : Type} (a : α) (f : α → Except Error β) : (Except.ok a >>= f) = f a := rfl

def rowOf (event : CostEvent) : CostRow ℤ where
  timestampMs := event.timestampMs.toNat
  providerId := event.providerId
  model := event.model
  promptTokens := event.promptTokens.toNat
  completionTokens := event.completionTokens.toNat
  costUsd := event.costUsd
  latencyMs := event.latencyMs.toNat
  cached := if event.cached then 1 else 0

theorem store_appends : store.Appends FitsSigned rowOf := by
  refine ⟨rfl, ?_⟩
  rintro event table ⟨htimestamp, hlatency⟩
  have hrow : insertedRow event = .ok (rowOf event) := by
    rw [insertedRow, i64OfU64, i64OfU64, if_pos htimestamp, if_pos hlatency]
    rfl
  change recordCost event table = _
  rw [recordCost, hrow]
  rfl

theorem unsignedColumn_toNat {w : ℕ} (index : ℕ) (n : BitVec w) :
    unsignedColumn w index n.toNat = .ok n := by
  have hfits : (0 : ℤ) ≤ n.toNat ∧ (n.toNat : ℤ) < 2 ^ w :=
    ⟨Int.natCast_nonneg _, by exact_mod_cast n.isLt⟩
  rw [unsignedColumn, if_pos hfits, BitVec.ofInt_natCast, BitVec.ofNat_toNat, BitVec.setWidth_eq]

theorem i32Column_flag (index : ℕ) (flag : Bool) :
    i32Column index (if flag then 1 else 0) = .ok (if flag then 1 else 0) := by
  cases flag <;> rfl

theorem readEvent_rowOf (event : CostEvent) : readEvent (rowOf event) = .ok event := by
  have hflag : ((if event.cached then 1 else 0 : ℤ) != 0) = event.cached := by
    cases event.cached <;> rfl
  simp only [readEvent, rowOf, unsignedColumn_toNat, i32Column_flag]
  simp only [bind, Except.bind, pure, Except.pure, hflag]

theorem mapM_readEvent (events : List CostEvent) :
    (events.map rowOf).mapM readEvent = .ok events := by
  induction events with
  | nil => rfl
  | cons event events ih =>
      rw [map_cons, mapM_cons, readEvent_rowOf, ih]
      rfl

theorem readEvents_map (events : List CostEvent) : readEvents (events.map rowOf) = .ok events := by
  rw [readEvents, mapM_readEvent, Except.mapError]

theorem answers {now : ℤ} (hnow : now < 2 ^ 63) (days : BitVec 32) {events : List CostEvent}
    (hevents : ∀ event ∈ events, FitsSigned event) : store.Answers now days events := by
  refine ⟨events.map rowOf, store_appends.recordAll hevents, ?_,
    (selectByTimestamp_nonempty _).image _, ?_⟩
  · have hcutoff : cutoffMs now days < 2 ^ 63 := by
      rw [cutoffMs, clockMs_toNat (by omega)]
      omega
    change dailyCosts now days (events.map rowOf) = _
    rw [dailyCosts, i64OfU64, if_pos hcutoff]
    apply congrArg Except.ok
    apply selectDailyCosts_eq (fun _ _ => rfl) (fun _ => rfl)
    intro timestampMs
    rw [← cutoffMs_le_iff (by omega), Nat.cast_le]
  · rintro answer ⟨rows, hrows, rfl⟩
    obtain ⟨events', rfl, hperm⟩ := exists_of_mem_selectByTimestamp hrows
    exact ⟨events', readEvents_map events', hperm⟩

end SqliteEventStore

namespace PostgresEventStore

theorem store_appends : store.Appends (fun _ => True) insertedRow :=
  ⟨rfl, fun _ _ _ => rfl⟩

@[simp] theorem readEvent_insertedRow (event : CostEvent) :
    readEvent (insertedRow event) = event := by
  simp only [readEvent, insertedRow, BitVec.ofInt_toInt]

theorem answers {now : ℤ} (hnow : now < 2 ^ 63) (days : BitVec 32) {events : List CostEvent}
    (hevents : ∀ event ∈ events, FitsSigned event) : store.Answers now days events := by
  refine ⟨events.map insertedRow, store_appends.recordAll fun _ _ => trivial, ?_,
    (selectByTimestamp_nonempty _).image _, ?_⟩
  · apply congrArg Except.ok
    apply selectDailyCosts_eq
    · intro event hevent
      exact toInt_eq_toNat (hevents event hevent).1
    · exact fun _ => rfl
    · intro timestampMs
      -- the clock fits, so that its cast keeps it, and the subtraction does not saturate
      have hclock : (clockMs now).toNat = now.toNat := clockMs_toNat (by omega)
      have hday : (dayMs : ℤ) = 86400000 := rfl
      have hdays := days.isLt
      rw [toInt_eq_toNat (by omega), hclock, saturatingSub, hday]
      omega
  · rintro answer ⟨rows, hrows, rfl⟩
    obtain ⟨events', rfl, hperm⟩ := exists_of_mem_selectByTimestamp hrows
    refine ⟨events', congrArg Except.ok ?_, hperm⟩
    rw [map_map]
    exact map_id'' readEvent_insertedRow events'

end PostgresEventStore

end NeuRust.Store
