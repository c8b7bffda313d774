import NeuRust.Observability.Regression
import Mathlib.Analysis.Real.Sqrt

/-!
The bounds of a forecast, over the real numbers and for any number of remaining days. They bracket
the estimate, and they meet it where the costs are on a line.
-/

namespace NeuRust.Observability

open List

section

variable {K : Type*} [Field K] [LinearOrder K]

def forecastOver (sqrt : K → K) (config : ForecastConfig K) (remainingDays : ℕ)
    (forecastDate : Str) (dailyCosts : List K) : CostForecast K :=
  let (slope, intercept) := linearRegression dailyCosts
  let estimated := currentTotal dailyCosts +
    projectedRemaining slope intercept dailyCosts.length remainingDays
  let stdDev := standardDeviation sqrt (residuals slope intercept dailyCosts)
  let margin := zScore config.confidenceInterval * stdDev * sqrt remainingDays
  { estimatedMonthlyCost := estimated
    lowerBound := max (estimated - margin) (currentTotal dailyCosts)
    upperBound := estimated + margin
    confidenceLevel := config.confidenceInterval
    trend := trendOf slope
    forecastDate := forecastDate
    dataPoints := dailyCosts.length }

theorem forecastFrom_eq (sqrt : K → K) (config : ForecastConfig K) (today : Date)
    (dailyCosts : List K) : forecastFrom sqrt config today dailyCosts =
      forecastOver sqrt config (daysUntilMonthEnd today) (todayStr today) dailyCosts :=
  rfl

/-- What is spent already, the bounds and the estimate, in their order. -/
structure Brackets (spent : K) (forecast : CostForecast K) : Prop where
  spent_le : spent ≤ forecast.lowerBound
  lower_le : forecast.lowerBound ≤ forecast.estimatedMonthlyCost
  le_upper : forecast.estimatedMonthlyCost ≤ forecast.upperBound

structure IsExactly (total : K) (forecast : CostForecast K) : Prop where
  lowerBound : forecast.lowerBound = total
  estimate : forecast.estimatedMonthlyCost = total
  upperBound : forecast.upperBound = total

variable [IsStrictOrderedRing K]

theorem zScore_nonneg (confidence : K) : 0 ≤ zScore confidence := by
  rw [zScore]
  split_ifs <;> norm_num

theorem projectedRemaining_nonneg (slope intercept : K) (length remainingDays : ℕ) :
    0 ≤ projectedRemaining slope intercept length remainingDays := by
  apply sum_nonneg
  intro cost hcost
  obtain ⟨d, -, rfl⟩ := mem_map.mp hcost
  exact le_max_right _ _

omit [IsStrictOrderedRing K] in
theorem projectedRemaining_of_nonneg {slope intercept : K} {length remainingDays : ℕ}
    (h : ∀ d < remainingDays, 0 ≤ slope * (length + d : ℕ) + intercept) :
    projectedRemaining slope intercept length remainingDays =
      ((range remainingDays).map fun d => slope * (length + d : ℕ) + intercept).sum := by
  rw [projectedRemaining]
  congr 1
  apply map_congr_left
  intro d hd
  exact max_eq_left (h d (mem_range.mp hd))

omit [LinearOrder K] [IsStrictOrderedRing K] in
theorem residuals_of_onLine {slope intercept : K} {dailyCosts : List K}
    (h : OnLine slope intercept dailyCosts) :
    residuals slope intercept dailyCosts = replicate dailyCosts.length 0 := by
  rw [eq_replicate_iff]
  refine ⟨by rw [residuals, length_map, length_zipIdx], ?_⟩
  intro residual hresidual
  obtain ⟨⟨actual, i⟩, hmem, rfl⟩ := mem_map.mp hresidual
  exact sub_eq_zero.mpr (h i actual (mem_zipIdx_iff_getElem?.mp hmem))

omit [LinearOrder K] [IsStrictOrderedRing K] in
theorem standardDeviation_replicate_zero {sqrt : K → K} (hsqrt : sqrt 0 = 0) (n : ℕ) :
    standardDeviation sqrt (replicate n 0) = 0 := by
  rw [standardDeviation]
  split
  · rfl
  · simp [hsqrt]

end

theorem standardDeviation_nonneg (values : List ℝ) : 0 ≤ standardDeviation Real.sqrt values := by
  rw [standardDeviation]
  split
  · exact le_rfl
  · exact Real.sqrt_nonneg _

variable {config : ForecastConfig ℝ} {dailyCosts : List ℝ}

/-- The bounds are in order, whatever the slope of the line and the noise around it. -/
theorem forecastOver_brackets (remainingDays : ℕ) (forecastDate : Str) :
    Brackets (currentTotal dailyCosts)
      (forecastOver Real.sqrt config remainingDays forecastDate dailyCosts) := by
  have hprojected := projectedRemaining_nonneg (linearRegression dailyCosts).1
    (linearRegression dailyCosts).2 dailyCosts.length remainingDays
  have hmargin : 0 ≤ zScore config.confidenceInterval *
      standardDeviation Real.sqrt (residuals (linearRegression dailyCosts).1
        (linearRegression dailyCosts).2 dailyCosts) * Real.sqrt remainingDays :=
    mul_nonneg (mul_nonneg (zScore_nonneg _) (standardDeviation_nonneg _)) (Real.sqrt_nonneg _)
  have hestimate := le_add_of_nonneg_right (a := currentTotal dailyCosts) hprojected
  exact ⟨le_max_right _ _, max_le (sub_le_self _ hmargin) hestimate,
    le_add_of_nonneg_right hmargin⟩

/-- Without noise nothing is added to the line or taken away. -/
theorem forecastOver_of_onLine {slope intercept : ℝ} {remainingDays : ℕ} (forecastDate : Str)
    (hlength : 2 ≤ dailyCosts.length) (hline : OnLine slope intercept dailyCosts)
    (hnonneg : ∀ d < remainingDays, 0 ≤ slope * (dailyCosts.length + d : ℕ) + intercept) :
    IsExactly
      (currentTotal dailyCosts +
        ((range remainingDays).map fun d =>
          slope * (dailyCosts.length + d : ℕ) + intercept).sum)
      (forecastOver Real.sqrt config remainingDays forecastDate dailyCosts) := by
  have hprojected := projectedRemaining_of_nonneg hnonneg
  have hmargin : zScore config.confidenceInterval *
      standardDeviation Real.sqrt (residuals slope intercept dailyCosts) *
        Real.sqrt remainingDays = 0 := by
    rw [residuals_of_onLine hline, standardDeviation_replicate_zero Real.sqrt_zero, mul_zero,
      zero_mul]
  have hestimate : currentTotal dailyCosts ≤ currentTotal dailyCosts +
      projectedRemaining slope intercept dailyCosts.length remainingDays :=
    le_add_of_nonneg_right (projectedRemaining_nonneg _ _ _ _)
  rw [← hprojected, forecastOver, linearRegression_of_onLine hline hlength]
  simp only [hmargin, sub_zero, add_zero]
  exact ⟨max_eq_left hestimate, rfl, rfl⟩

/-- A forecast from three days or more is that of the days that remain of the month. For any number
of them, what is spent is at most the lower bound, that is at most the estimate, and that is at most
the upper bound; the three are one if the series is on a line that does not become negative. -/
theorem forecast_bounds {config : ForecastConfig ℝ} {store : BitVec 32 → Except Error (List ℝ)}
    {dailyCosts : List ℝ} (hstore : store config.forecastHorizonDays = .ok dailyCosts)
    (hlength : 3 ≤ dailyCosts.length) :
    (∀ today, forecast Real.sqrt config today store = .ok
        (forecastOver Real.sqrt config (daysUntilMonthEnd today) (todayStr today) dailyCosts)) ∧
      ∀ remainingDays forecastDate,
        Brackets (currentTotal dailyCosts)
            (forecastOver Real.sqrt config remainingDays forecastDate dailyCosts) ∧
          ∀ slope intercept, OnLine slope intercept dailyCosts →
            (∀ d < remainingDays, 0 ≤ slope * (dailyCosts.length + d : ℕ) + intercept) →
            IsExactly
              (currentTotal dailyCosts +
                ((range remainingDays).map fun d =>
                  slope * (dailyCosts.length + d : ℕ) + intercept).sum)
              (forecastOver Real.sqrt config remainingDays forecastDate dailyCosts) := by
  refine ⟨fun today => ?_, fun remainingDays forecastDate => ⟨?_, ?_⟩⟩
  · exact (forecast_eq_ok_iff hstore).mpr ⟨hlength, forecastFrom_eq _ config today dailyCosts⟩
  · exact forecastOver_brackets remainingDays forecastDate
  · intro slope intercept hline hnonneg
    exact forecastOver_of_onLine forecastDate (Nat.le_of_succ_le hlength) hline hnonneg

theorem forecast_bounds_risingCosts :
    IsExactly 15 (forecastOver Real.sqrt .default 2 [] [1, 2, 3]) := by
  obtain ⟨-, hbounds⟩ := @forecast_bounds .default (fun _ => .ok [1, 2, 3]) [1, 2, 3] rfl (by simp)
  have hline : OnLine 1 1 ([1, 2, 3] : List ℝ) := by
    intro i y h
    obtain ⟨hi, rfl⟩ := List.getElem?_eq_some_iff.mp h
    simp only [length_cons, length_nil] at hi
    interval_cases i <;> norm_num
  have hnonneg : ∀ d < 2, (0 : ℝ) ≤ 1 * (([1, 2, 3] : List ℝ).length + d : ℕ) + 1 := by
    intro d _
    positivity
  have htotal : currentTotal ([1, 2, 3] : List ℝ) +
      ((range 2).map fun d => 1 * ((([1, 2, 3] : List ℝ).length + d : ℕ) : ℝ) + 1).sum = 15 := by
    norm_num [currentTotal, range_succ]
  have hexactly := (hbounds 2 []).2 1 1 hline hnonneg
  rwa [htotal] at hexactly

end NeuRust.Observability
