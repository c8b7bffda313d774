import NeuRust.Store.InMemory
import NeuRust.Observability.CostForecaster
import Mathlib.Data.Rat.Sqrt
import Mathlib.Algebra.Order.BigOperators.Group.List

/-!
The forecast over the store in memory. It takes the costs of a window as those of the month, but the
window begins so many times 24 hours ago, and the month with its first day.
-/

namespace NeuRust.Observability

open List Store

/-! ### What was spent when -/

def spentWhere (p : CostEvent → Prop) [DecidablePred p] (events : List CostEvent) : ℚ :=
  ((events.filter fun event => p event).map CostEvent.costUsd).sum

def spentBetween (start finish : ℕ) (events : List CostEvent) : ℚ :=
  spentWhere (fun event => start ≤ event.timestampMs.toNat ∧ event.timestampMs.toNat < finish)
    events

def spentAfter (now : ℕ) (events : List CostEvent) : ℚ :=
  spentWhere (fun event => now < event.timestampMs.toNat) events

/-- The costs of the calendar month of `now`, up to `now`. -/
def monthToDate (now : ℕ) (events : List CostEvent) : ℚ :=
  spentWhere
    (fun event =>
      (dateOf (dayKey event)).SameMonth (dateOf (now / dayMs)) ∧ event.timestampMs.toNat ≤ now)
    events

def monthStartMs (now : ℕ) : ℕ := monthStart (now / dayMs) * dayMs

theorem spentWhere_eq_sum (p : CostEvent → Prop) [DecidablePred p] (events : List CostEvent) :
    spentWhere p events = (events.map fun event => if p event then event.costUsd else 0).sum := by
  induction events with
  | nil => rfl
  | cons event events ih =>
      rw [map_cons, sum_cons, ← ih]
      by_cases hp : p event
      · rw [spentWhere, filter_cons_of_pos (by simpa using hp), map_cons, sum_cons, if_pos hp]
        rfl
      · rw [spentWhere, filter_cons_of_neg (by simpa using hp), if_neg hp, zero_add]
        rfl

theorem spentWhere_congr {p q : CostEvent → Prop} [DecidablePred p] [DecidablePred q]
    (h : ∀ event, p event ↔ q event) (events : List CostEvent) :
    spentWhere p events = spentWhere q events := by
  simp only [spentWhere_eq_sum, h]

theorem spentWhere_eq_zero_iff (p : CostEvent → Prop) [DecidablePred p] {events : List CostEvent}
    (hcost : ∀ event ∈ events, 0 ≤ event.costUsd) :
    spentWhere p events = 0 ↔ ∀ event ∈ events, p event → event.costUsd = 0 := by
  constructor
  · intro hsum event hevent hp
    apply all_zero_of_le_zero_le_of_sum_eq_zero _ hsum
    · exact mem_map.mpr ⟨event, mem_filter.mpr ⟨hevent, by simpa using hp⟩, rfl⟩
    · exact forall_mem_map.mpr fun event hevent => hcost event (mem_of_mem_filter hevent)
  · intro hfree
    apply sum_eq_zero
    rintro cost hmem
    obtain ⟨event, hevent, rfl⟩ := mem_map.mp hmem
    obtain ⟨hevent, hp⟩ := mem_filter.mp hevent
    exact hfree event hevent (by simpa using hp)

/-- The events of the month are those since its start. -/
theorem monthToDate_eq (now : ℕ) (events : List CostEvent) :
    monthToDate now events =
      spentWhere
        (fun event => monthStartMs now ≤ event.timestampMs.toNat ∧ event.timestampMs.toNat ≤ now)
        events := by
  apply spentWhere_congr
  intro event
  apply and_congr_left
  intro hle
  rw [dayKey, sameMonth_iff (Nat.div_le_div_right hle), monthStartMs]
  exact Nat.le_div_iff_mul_le (by decide)

theorem monthStartMs_le (now : ℕ) : monthStartMs now ≤ now :=
  (Nat.mul_le_mul_right dayMs (monthStart_le (now / dayMs))).trans (Nat.div_mul_le_self now dayMs)

theorem cutoffMs_le (now : ℕ) (days : BitVec 32) : cutoffMs now days ≤ now := by
  rw [cutoffMs, clockMs, BitVec.toNat_ofNat, Int.toNat_natCast]
  have hmod := Nat.mod_le now (2 ^ 64)
  omega

/-- Where a time lies with respect to two others, both not after `now`. -/
theorem value_balance {cutoff start now : ℕ} (hcutoff : cutoff ≤ now) (hstart : start ≤ now)
    (time : ℕ) (v : ℚ) :
    (if cutoff ≤ time then v else 0) + (if start ≤ time ∧ time < cutoff then v else 0) =
      (if start ≤ time ∧ time ≤ now then v else 0) +
        ((if cutoff ≤ time ∧ time < start then v else 0) + if now < time then v else 0) := by
  split_ifs <;> first | omega | simp only [add_zero, zero_add]

/-- The window and the month differ by the events between their beginnings and by those that are
dated after `now`. -/
theorem spent_balance (now : ℕ) (days : BitVec 32) (events : List CostEvent) :
    (InMemoryEventStore.dailyCosts now days events).sum +
        spentBetween (monthStartMs now) (cutoffMs now days) events =
      monthToDate now events +
        (spentBetween (cutoffMs now days) (monthStartMs now) events + spentAfter now events) := by
  have hwindow : (InMemoryEventStore.dailyCosts now days events).sum =
      spentWhere (fun event => cutoffMs now days ≤ event.timestampMs.toNat) events :=
    InMemoryEventStore.sum_dailyCosts now days events
  -- both sides are sums over all events, equal event by event
  rw [hwindow, monthToDate_eq, spentBetween, spentBetween, spentAfter]
  simp only [spentWhere_eq_sum, ← sum_map_add]
  congr 1
  apply map_congr_left
  intro event _
  exact value_balance (cutoffMs_le now days) (monthStartMs_le now) event.timestampMs.toNat
    event.costUsd

/-! ### What the forecast takes as spent -/

/-- A forecast is built on the costs of the window. They are those of the month so far if the events
between the beginnings of the two, and those dated after `now`, make up for each other. -/
theorem forecast_currentTotal_iff {sqrt : ℚ → ℚ} {config : ForecastConfig ℚ} {now : ℕ}
    {events : List CostEvent} {f : CostForecast ℚ}
    (h : forecast sqrt config (dateOf (now / dayMs))
      (fun days => .ok (InMemoryEventStore.dailyCosts now days events)) = .ok f) :
    f = forecastFrom sqrt config (dateOf (now / dayMs))
        (InMemoryEventStore.dailyCosts now config.forecastHorizonDays events) ∧
      (currentTotal (InMemoryEventStore.dailyCosts now config.forecastHorizonDays events) =
          monthToDate now events ↔
        spentBetween (cutoffMs now config.forecastHorizonDays) (monthStartMs now) events +
            spentAfter now events =
          spentBetween (monthStartMs now) (cutoffMs now config.forecastHorizonDays) events) := by
  have hbalance := spent_balance now config.forecastHorizonDays events
  refine ⟨((forecast_eq_ok_iff rfl).mp h).2.symm, ?_⟩
  rw [currentTotal]
  constructor
  · intro hspent
    rw [hspent] at hbalance
    exact (add_left_cancel hbalance).symm
  · intro hcancel
    rw [hcancel] at hbalance
    exact add_right_cancel hbalance

/-- Without refunds and without events from the future, the forecast counts the month only if all
events between the beginning of the window and that of the month were free. -/
theorem currentTotal_eq_iff_of_nonneg {now : ℕ} {days : BitVec 32} {events : List CostEvent}
    (hcost : ∀ event ∈ events, 0 ≤ event.costUsd)
    (hpast : ∀ event ∈ events, event.timestampMs.toNat ≤ now) :
    currentTotal (InMemoryEventStore.dailyCosts now days events) = monthToDate now events ↔
      ∀ event ∈ events, min (cutoffMs now days) (monthStartMs now) ≤ event.timestampMs.toNat →
        event.timestampMs.toNat < max (cutoffMs now days) (monthStartMs now) →
          event.costUsd = 0 := by
  have hbalance := spent_balance now days events
  have hafter : spentAfter now events = 0 :=
    (spentWhere_eq_zero_iff _ hcost).mpr fun event hevent hlt =>
      absurd (hpast event hevent) (Nat.not_le.mpr hlt)
  have hempty : ∀ {start finish : ℕ}, finish ≤ start → spentBetween start finish events = 0 := by
    intro start finish hle
    apply (spentWhere_eq_zero_iff _ hcost).mpr
    rintro event - ⟨hstart, hfinish⟩
    omega
  rw [hafter, add_zero] at hbalance
  rw [currentTotal]
  simp only [← and_imp]
  -- one of the two ranges is empty
  rcases le_total (cutoffMs now days) (monthStartMs now) with hle | hle
  · rw [hempty hle, add_zero] at hbalance
    rw [min_eq_left hle, max_eq_right hle, hbalance, add_eq_left]
    simp only [spentBetween, spentWhere_eq_zero_iff _ hcost, and_imp]
  · rw [hempty hle, add_zero] at hbalance
    rw [min_eq_right hle, max_eq_left hle, ← hbalance, left_eq_add]
    simp only [spentBetween, spentWhere_eq_zero_iff _ hcost, and_imp]

def februaryOnly : List CostEvent :=
  [makeCostEvent 3 2678400000, makeCostEvent 2 2764800000, makeCostEvent 1 2851200000]

theorem february_currentTotal_iff :
    ∃ f, forecast Rat.sqrt .default (dateOf (2894400000 / dayMs))
        (fun days => .ok (InMemoryEventStore.dailyCosts 2894400000 days februaryOnly)) = .ok f ∧
      (f = forecastFrom Rat.sqrt .default (dateOf (2894400000 / dayMs))
          (InMemoryEventStore.dailyCosts 2894400000 30 februaryOnly) ∧
        (currentTotal (InMemoryEventStore.dailyCosts 2894400000 30 februaryOnly) =
            monthToDate 2894400000 februaryOnly ↔
          spentBetween (cutoffMs 2894400000 30) (monthStartMs 2894400000) februaryOnly +
              spentAfter 2894400000 februaryOnly =
            spentBetween (monthStartMs 2894400000) (cutoffMs 2894400000 30) februaryOnly)) := by
  have hlength : 3 ≤ (InMemoryEventStore.dailyCosts 2894400000 30 februaryOnly).length := by
    decide +kernel
  refine ⟨_, (forecast_eq_ok_iff rfl).mpr ⟨hlength, rfl⟩, ?_⟩
  exact forecast_currentTotal_iff ((forecast_eq_ok_iff rfl).mpr ⟨hlength, rfl⟩)

def sinceJanuary : List CostEvent :=
  [makeCostEvent 3 2419200000, makeCostEvent 2 2678400000, makeCostEvent 1 2764800000]

/-- On the third of February the forecast counts what was spent in January. -/
theorem january_counts_in_february :
    ∃ f, forecast Rat.sqrt .default (dateOf (2894400000 / dayMs))
        (fun days => .ok (InMemoryEventStore.dailyCosts 2894400000 days sinceJanuary)) = .ok f ∧
      f.lowerBound = 6 ∧
      currentTotal (InMemoryEventStore.dailyCosts 2894400000 30 sinceJanuary) = 6 ∧
      monthToDate 2894400000 sinceJanuary = 3 := by
  have hlength : 3 ≤ (InMemoryEventStore.dailyCosts 2894400000 30 sinceJanuary).length := by
    decide +kernel
  refine ⟨_, (forecast_eq_ok_iff rfl).mpr ⟨hlength, rfl⟩, ?_, ?_, ?_⟩
  · decide +kernel
  · decide +kernel
  · decide +kernel

end NeuRust.Observability
