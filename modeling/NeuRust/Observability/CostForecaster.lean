import NeuRust.Contracts
import NeuRust.Machine.Calendar
import Mathlib.Algebra.Order.Field.Basic
import Mathlib.Algebra.BigOperators.Group.List.Basic
import Mathlib.Tactic.IntervalCases

/-!
The forecast of the monthly cost: what was spent so far, and what the line through the daily costs
gives for the rest of the month. Numbers are those of an ordered field instead of `f64`; its square
root is a parameter.
-/

namespace NeuRust.Observability

open List

inductive CostTrend where
  | rising
  | stable
  | falling
  deriving DecidableEq, Repr

structure CostForecast (K : Type*) where
  estimatedMonthlyCost : K
  lowerBound : K
  upperBound : K
  confidenceLevel : K
  trend : CostTrend
  forecastDate : Str
  dataPoints : ℕ

structure ForecastConfig (K : Type*) where
  confidenceInterval : K
  forecastHorizonDays : BitVec 32

/-! ### The calendar -/

def daysUntilMonthEnd (today : Date) : ℕ :=
  let daysInMonth :=
    match today.month with
    | 1 | 3 | 5 | 7 | 8 | 10 | 12 => 31
    | 4 | 6 | 9 | 11 => 30
    | 2 =>
        if today.year % 4 == 0 && (today.year % 100 != 0 || today.year % 400 == 0) then 29 else 28
    | _ => 30
  daysInMonth - today.day

def padded (width n : ℕ) : Str :=
  replicate (width - (Nat.toDigits 10 n).length) '0' ++ Nat.toDigits 10 n

/-- The date as `%Y-%m-%d`; years of more than four digits have a sign. -/
def todayStr (today : Date) : Str :=
  (if 9999 < today.year then ['+'] else []) ++ padded 4 today.year ++ '-' ::
    (padded 2 today.month ++ '-' :: padded 2 today.day)

theorem daysUntilMonthEnd_eq (today : Date) :
    daysUntilMonthEnd today = daysInMonth today.year today.month - today.day := by
  obtain ⟨year, month, day, hpos, hle, -, -⟩ := today
  interval_cases month <;> rfl

/-- The remaining days are those of the month that are still to come. -/
theorem sameMonth_iff_le_daysUntilMonthEnd (n i : ℕ) :
    (dateOf (n + i)).SameMonth (dateOf n) ↔ i ≤ daysUntilMonthEnd (dateOf n) := by
  have hle := (dateOf n).day_le
  rw [sameMonth_add_iff, daysUntilMonthEnd_eq]
  omega

/-! ### The statistics -/

section

variable {K : Type*} [Field K] [LinearOrder K]

def ForecastConfig.default : ForecastConfig K := ⟨0.85, 30⟩

/-- The sum of a loop over `enumerate()`. -/
def sumEnumerated (f : ℕ → K → K) (values : List K) : K :=
  (values.zipIdx.map fun (y, i) => f i y).sum

/-- Slope and intercept of the line through the values, which stand at 0, 1, 2, .. -/
def linearRegression (yValues : List K) : K × K :=
  let n : K := yValues.length
  if n < 2 then (0, yValues.head?.getD 0)
  else
    let xMean := (n - 1) / 2
    let yMean := yValues.sum / n
    let numerator := sumEnumerated (fun x y => (x - xMean) * (y - yMean)) yValues
    let denominator := sumEnumerated (fun x _ => (x - xMean) * (x - xMean)) yValues
    if |denominator| < ((2 : K) ^ 52)⁻¹ then (0, yMean)
    else
      let slope := numerator / denominator
      (slope, yMean - slope * xMean)

def standardDeviation (sqrt : K → K) (values : List K) : K :=
  if values.length < 2 then 0
  else
    let n : K := values.length
    let mean := values.sum / n
    let variance := (values.map fun v => (v - mean) ^ 2).sum / (n - 1)
    sqrt variance

def zScore (confidence : K) : K :=
  if 0.99 ≤ confidence then 2.576
  else if 0.95 ≤ confidence then 1.960
  else if 0.90 ≤ confidence then 1.645
  else if 0.85 ≤ confidence then 1.440
  else if 0.80 ≤ confidence then 1.282
  else 1.0

/-! ### The forecast -/

def currentTotal (dailyCosts : List K) : K := dailyCosts.sum

def projectedRemaining (slope intercept : K) (length remainingDays : ℕ) : K :=
  ((range remainingDays).map fun d => max (slope * (length + d : ℕ) + intercept) 0).sum

def residuals (slope intercept : K) (dailyCosts : List K) : List K :=
  dailyCosts.zipIdx.map fun (actual, i) => actual - (slope * i + intercept)

def trendOf (slope : K) : CostTrend :=
  if 0.01 < slope then .rising else if slope < -0.01 then .falling else .stable

def forecastFrom (sqrt : K → K) (config : ForecastConfig K) (today : Date) (dailyCosts : List K) :
    CostForecast K :=
  let (slope, intercept) := linearRegression dailyCosts
  let remainingDays := daysUntilMonthEnd today
  let estimated := currentTotal dailyCosts +
    projectedRemaining slope intercept dailyCosts.length remainingDays
  let stdDev := standardDeviation sqrt (residuals slope intercept dailyCosts)
  let margin := zScore config.confidenceInterval * stdDev * sqrt remainingDays
  { estimatedMonthlyCost := estimated
    lowerBound := max (estimated - margin) (currentTotal dailyCosts)
    upperBound := estimated + margin
    confidenceLevel := config.confidenceInterval
    trend := trendOf slope
    forecastDate := todayStr today
    dataPoints := dailyCosts.length }

/-- `CostForecaster::forecast`, over the `daily_costs` of a store -/
def forecast (sqrt : K → K) (config : ForecastConfig K) (today : Date)
    (dailyCosts : BitVec 32 → Except Error (List K)) : Except Error (CostForecast K) := do
  let dailyCosts ← dailyCosts config.forecastHorizonDays
  if dailyCosts.length < 3 then
    .error (.msg ("Insufficient data: at least 3 days of cost data required, got ".toList ++
      Nat.toDigits 10 dailyCosts.length))
  else .ok (forecastFrom sqrt config today dailyCosts)

/-- A forecast succeeds over a series of three days or more. -/
theorem forecast_eq_ok_iff {sqrt : K → K} {config : ForecastConfig K} {today : Date}
    {dailyCosts : BitVec 32 → Except Error (List K)} {series : List K} {f : CostForecast K}
    (h : dailyCosts config.forecastHorizonDays = .ok series) :
    forecast sqrt config today dailyCosts = .ok f ↔
      3 ≤ series.length ∧ forecastFrom sqrt config today series = f := by
  rw [forecast, h]
  change (if series.length < 3 then _ else Except.ok (forecastFrom sqrt config today series)) =
    _ ↔ _
  split_ifs with hshort
  · exact ⟨nofun, fun h => absurd hshort (Nat.not_lt.mpr h.1)⟩
  · rw [Except.ok.injEq]
    exact (and_iff_right (Nat.not_lt.mp hshort)).symm

end

end NeuRust.Observability
