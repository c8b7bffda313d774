import NeuRust.Observability.CostTracker
import NeuRust.Machine.GroupSum

/-!
The event store in memory: the events in the order in which they were recorded, and what they cost
day by day. A window of days is a span of so many times 24 hours that ends now, while a day is one
of the UTC calendar.
-/

namespace NeuRust.Store

open List

def dayMs : ℕ := 86400000

/-- The time since the epoch in milliseconds, as the stores read it from the system clock; 0 if the
clock is set before the epoch. -/
def clockMs (now : ℤ) : BitVec 64 := BitVec.ofNat 64 now.toNat

/-- Where the window of the last days begins. The product stays below 2^64. -/
def cutoffMs (now : ℤ) (days : BitVec 32) : ℕ := (clockMs now).toNat - days.toNat * dayMs

def dayKey (event : CostEvent) : ℕ := event.timestampMs.toNat / dayMs

namespace InMemoryEventStore

def daily (now : ℤ) (days : BitVec 32) (events : List CostEvent) : Table ℕ ℚ :=
  events.foldl
    (fun daily event =>
      if cutoffMs now days ≤ event.timestampMs.toNat then
        accumulate daily (dayKey event) event.costUsd
      else daily)
    ∅

def dailySeries (now : ℤ) (days : BitVec 32) (events : List CostEvent) : List (ℕ × ℚ) :=
  if events.isEmpty then []
  else
    ((daily now days events).keys.insertionSort (· ≤ ·)).map fun day =>
      (day, ((daily now days events).lookup day).getD 0)

def dailyCosts (now : ℤ) (days : BitVec 32) (events : List CostEvent) : List ℚ :=
  (dailySeries now days events).map Prod.snd

end InMemoryEventStore

/-! ### The groups of a window -/

def inWindow (now : ℤ) (days : BitVec 32) (events : List CostEvent) : List CostEvent :=
  events.filter fun event => cutoffMs now days ≤ event.timestampMs.toNat

def beforeWindow (now : ℤ) (days : BitVec 32) (events : List CostEvent) : List CostEvent :=
  events.filter fun event => event.timestampMs.toNat < cutoffMs now days

def dayTotal (events : List CostEvent) (day : ℕ) : ℚ :=
  groupTotal dayKey CostEvent.costUsd events day

namespace InMemoryEventStore

theorem daily_eq (now : ℤ) (days : BitVec 32) (events : List CostEvent) :
    daily now days events =
      accumulateAll dayKey CostEvent.costUsd ∅ (inWindow now days events) := by
  rw [accumulateAll, inWindow, foldl_filter]
  simp only [daily, decide_eq_true_eq]

theorem dailySeries_eq (now : ℤ) (days : BitVec 32) (events : List CostEvent) :
    dailySeries now days events =
      groupSums dayKey CostEvent.costUsd (inWindow now days events) := by
  cases events with
  | nil => rfl
  | cons event events =>
      rw [dailySeries, if_neg (by simp), daily_eq]
      exact accumulateAll_sorted _

theorem sum_dailyCosts (now : ℤ) (days : BitVec 32) (events : List CostEvent) :
    (dailyCosts now days events).sum = ((inWindow now days events).map CostEvent.costUsd).sum := by
  rw [dailyCosts, dailySeries_eq, sum_groupSums]

end InMemoryEventStore

/-! ### The series as a time axis -/

/-- At most one entry for each day that was asked for, and neighbours that are the full costs of two
days that follow each other. -/
@[mk_iff] structure IsTimeAxis (days : BitVec 32) (events : List CostEvent)
    (series : List (ℕ × ℚ)) : Prop where
  length_le : series.length ≤ days.toNat
  consecutive : series.IsChain fun a b =>
    b.1 = a.1 + 1 ∧ a.2 = dayTotal events a.1 ∧ b.2 = dayTotal events b.1

/-- On a time axis an entry stands as many places behind the first one as its day is later. -/
theorem IsTimeAxis.day_eq {days : BitVec 32} {events : List CostEvent} {series : List (ℕ × ℚ)}
    (h : IsTimeAxis days events series) {i : ℕ} {first entry : ℕ × ℚ}
    (hfirst : series[0]? = some first) (hentry : series[i]? = some entry) :
    entry.1 = first.1 + i := by
  induction i generalizing entry with
  | zero =>
      obtain rfl := Option.some.inj (hfirst.symm.trans hentry)
      rfl
  | succ i ih =>
      obtain ⟨hi, rfl⟩ := List.getElem?_eq_some_iff.mp hentry
      have hday := (isChain_iff_getElem.mp h.consecutive i hi).1
      rw [hday, ih (List.getElem?_eq_getElem (Nat.lt_of_succ_lt hi)), Nat.add_assoc]

def activeDays (now : ℤ) (days : BitVec 32) (events : List CostEvent) : Finset ℕ :=
  ((inWindow now days events).map dayKey).toFinset

theorem card_activeDays (now : ℤ) (days : BitVec 32) (events : List CostEvent) :
    (activeDays now days events).card = (groupKeys dayKey (inWindow now days events)).length := by
  rw [activeDays, card_toFinset, length_groupKeys]

theorem mem_activeDays {now : ℤ} {days : BitVec 32} {events : List CostEvent} {day : ℕ} :
    day ∈ activeDays now days events ↔ day ∈ groupKeys dayKey (inWindow now days events) := by
  rw [activeDays, mem_toFinset, mem_map, mem_groupKeys]

/-- The window of a day's events is all of them if those before it were free. -/
theorem windowTotal_eq_iff (now : ℤ) (days : BitVec 32) (events : List CostEvent) (day : ℕ) :
    dayTotal (inWindow now days events) day = dayTotal events day ↔
      dayTotal (beforeWindow now days events) day = 0 := by
  have hsplit : dayTotal (inWindow now days events) day +
      dayTotal (events.filter fun event =>
        !decide (cutoffMs now days ≤ event.timestampMs.toNat)) day = dayTotal events day :=
    groupTotal_filter_add _ day
  have hbefore : (events.filter fun event =>
      !decide (cutoffMs now days ≤ event.timestampMs.toNat)) = beforeWindow now days events := by
    simp only [beforeWindow, ← decide_not, not_le]
  rw [← hsplit, hbefore]
  exact left_eq_add

/-- The series is a time axis if the window has events on no more days than were asked for, on each
day between two active ones, and on more than one day only if nothing of an active day was spent
before the window. -/
theorem dailySeries_isTimeAxis_iff (now : ℤ) (days : BitVec 32) (events : List CostEvent) :
    IsTimeAxis days events (InMemoryEventStore.dailySeries now days events) ↔
      (activeDays now days events).card ≤ days.toNat ∧
        (∀ a ∈ activeDays now days events, ∀ b ∈ activeDays now days events, a < b →
          a + 1 ∈ activeDays now days events) ∧
        (1 < (activeDays now days events).card →
          ∀ a ∈ activeDays now days events, dayTotal (beforeWindow now days events) a = 0) := by
  have hchain : (InMemoryEventStore.dailySeries now days events).IsChain (fun a b =>
        b.1 = a.1 + 1 ∧ a.2 = dayTotal events a.1 ∧ b.2 = dayTotal events b.1) ↔
      (groupKeys dayKey (inWindow now days events)).IsChain (fun a b => b = a + 1 ∧
        dayTotal (beforeWindow now days events) a = 0 ∧
        dayTotal (beforeWindow now days events) b = 0) := by
    rw [InMemoryEventStore.dailySeries_eq, groupSums, isChain_map]
    apply IsChain.iff
    intro a b
    -- an entry is the full cost of its day if the cutoff takes nothing away from it
    rw [← windowTotal_eq_iff, ← windowTotal_eq_iff]
    exact Iff.rfl
  have hlength : (InMemoryEventStore.dailySeries now days events).length =
      (activeDays now days events).card := by
    rw [InMemoryEventStore.dailySeries_eq, groupSums, length_map, card_activeDays]
  rw [isTimeAxis_iff, hchain, hlength, isChain_and, isChain_succ_iff (groupKeys_pairwise _ _),
    isChain_and_iff, card_activeDays]
  simp only [mem_activeDays]

def makeCostEvent (cost : ℚ) (timestampMs : BitVec 64) : CostEvent where
  timestampMs := timestampMs
  providerId := "openai".toList
  model := "gpt-4o".toList
  promptTokens := 100
  completionTokens := 200
  costUsd := cost
  latencyMs := 150
  cached := false

def idleDayBetween : List CostEvent := [makeCostEvent 1 864000000, makeCostEvent 2 1036800000]

/-- The idle day is skipped, and no two days in a row have the costs that are returned. -/
theorem idle_day_is_skipped :
    InMemoryEventStore.dailyCosts 1123200000 7 idleDayBetween = [1, 2] ∧
      ¬ IsTimeAxis 7 idleDayBetween
        (InMemoryEventStore.dailySeries 1123200000 7 idleDayBetween) ∧
      ¬ ∃ day, dayTotal idleDayBetween day = 1 ∧ dayTotal idleDayBetween (day + 1) = 2 := by
  refine ⟨by decide +kernel, ?_, ?_⟩
  · intro haxis
    have hseries : InMemoryEventStore.dailySeries 1123200000 7 idleDayBetween =
        [(10, 1), (12, 2)] := by
      decide +kernel
    have hchain := haxis.consecutive
    rw [hseries, isChain_pair] at hchain
    exact absurd hchain.1 (by decide)
  · rintro ⟨day, hday, hnext⟩
    by_cases h10 : day = 10
    · subst h10
      exact absurd hnext (by decide +kernel)
    · by_cases h12 : day = 12
      · subst h12
        exact absurd hday (by decide +kernel)
      · have hzero : dayTotal idleDayBetween day = 0 := by
          apply groupTotal_eq_zero
          rintro event hevent rfl
          rcases mem_pair.mp hevent with rfl | rfl
          · exact h10 (by decide)
          · exact h12 (by decide)
        rw [hzero] at hday
        exact absurd hday (by decide)

end NeuRust.Store
