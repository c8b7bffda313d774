import NeuRust.Router.Bandit
import Mathlib.Analysis.Real.Sqrt
import Mathlib.Analysis.SpecialFunctions.Log.Basic

/-!
The upper confidence bound of a model: the mean of its window, and a bonus that shrinks as the
window fills. The numbers are those of an ordered field, whose logarithm and square root are
parameters; over the real numbers they are the functions themselves.
-/

namespace NeuRust.Router.Bandit

namespace SlidingWindowUCB

section

variable {K : Type*} [Field K] [LinearOrder K]

/-- The observations in all windows, `total_n`. -/
def totalN (bandit : SlidingWindowUCB K) : K :=
  (bandit.arms.entries.map fun arm => (arm.2.length : K)).sum

def getScore (ln sqrt : K → K) (model : Str) (bandit : SlidingWindowUCB K) : K :=
  match bandit.arms.lookup model with
  | none | some [] => 0.5
  | some (oldest :: rest) =>
      let arm := oldest :: rest
      let n : K := arm.length
      if bandit.totalN ≤ 0 ∨ n ≤ 0 then 0.5
      else
        let meanReward := arm.sum / n
        let lnTotal := ln bandit.totalN
        let exploration := if 0 < lnTotal then sqrt (2.0 * lnTotal / n) else 0
        meanReward + exploration

theorem length_le_totalN [IsStrictOrderedRing K] {bandit : SlidingWindowUCB K} {model : Str}
    {window : List K} (h : bandit.arms.lookup model = some window) :
    (window.length : K) ≤ bandit.totalN := by
  have hmem : (window.length : K) ∈ bandit.arms.entries.map fun arm => (arm.2.length : K) :=
    List.mem_map_of_mem (AList.mem_entries_iff.mpr h)
  refine List.single_le_sum ?_ _ hmem
  intro x hx
  obtain ⟨arm, -, rfl⟩ := List.mem_map.mp hx
  exact Nat.cast_nonneg _

end

noncomputable def score (model : Str) (bandit : SlidingWindowUCB ℝ) : ℝ :=
  bandit.getScore Real.log Real.sqrt model

end SlidingWindowUCB

noncomputable def meanReward (window : List ℝ) : ℝ := window.sum / window.length

variable {bandit : SlidingWindowUCB ℝ} {model other : Str} {window window' : List ℝ}

/-- The score of a model with observations. -/
theorem score_eq (h : bandit.arms.lookup model = some window) (hne : window ≠ []) :
    bandit.score model = meanReward window +
      if 0 < Real.log bandit.totalN then Real.sqrt (2 * Real.log bandit.totalN / window.length)
      else 0 := by
  obtain ⟨oldest, rest, rfl⟩ := List.exists_cons_of_ne_nil hne
  have hn : (0 : ℝ) < (oldest :: rest).length := Nat.cast_pos.mpr (Nat.succ_pos _)
  have htotal := hn.trans_le (SlidingWindowUCB.length_le_totalN h)
  have hguard : ¬ (bandit.totalN ≤ 0 ∨ ((oldest :: rest).length : ℝ) ≤ 0) :=
    not_or.mpr ⟨htotal.not_ge, hn.not_ge⟩
  have htwo : (2.0 : ℝ) = 2 := by norm_num
  rw [SlidingWindowUCB.score, SlidingWindowUCB.getScore, h]
  simp only [if_neg hguard, meanReward, htwo]

/-- The fewer observations, the greater the bonus. -/
theorem bonus_lt {total : ℝ} (htotal : 1 < total) {n n' : ℕ} (hpos : 0 < n) (hlt : n < n') :
    Real.sqrt (2 * Real.log total / n') < Real.sqrt (2 * Real.log total / n) := by
  have hlog : 0 < 2 * Real.log total := mul_pos two_pos (Real.log_pos htotal)
  have hn : (0 : ℝ) < n := Nat.cast_pos.mpr hpos
  have hn' : (n : ℝ) < n' := Nat.cast_lt.mpr hlt
  apply Real.sqrt_lt_sqrt (div_nonneg hlog.le (hn.trans hn').le)
  exact div_lt_div_of_pos_left hlog hn hn'

/-- Of two models with the same mean reward, the one with fewer observations has the greater score,
and with as many observations the scores are the same. -/
theorem score_of_equal_means (h : bandit.arms.lookup model = some window)
    (h' : bandit.arms.lookup other = some window') (hne : window ≠ []) (hne' : window' ≠ [])
    (hmean : meanReward window = meanReward window') :
    (window.length < window'.length → bandit.score other < bandit.score model) ∧
      (window.length = window'.length → bandit.score model = bandit.score other) := by
  rw [score_eq h hne, score_eq h' hne', hmean]
  constructor
  · intro hlt
    have hpos : 1 ≤ window.length := List.length_pos_iff.mpr hne
    -- the longer window alone has two observations
    have htwo : (1 : ℝ) < window'.length := Nat.one_lt_cast.mpr (hpos.trans_lt hlt)
    have htotal := htwo.trans_le (SlidingWindowUCB.length_le_totalN h')
    rw [if_pos (Real.log_pos htotal), if_pos (Real.log_pos htotal)]
    exact (add_lt_add_iff_left _).mpr (bonus_lt htotal hpos hlt)
  · intro heq
    rw [heq]

noncomputable def threeUpdates : SlidingWindowUCB ℝ :=
  (((SlidingWindowUCB.new 100).update "gpt-4o".toList 0.6).update "gpt-4o".toList 0.6).update
    "claude-sonnet".toList 0.6

theorem score_of_equal_means_threeUpdates :
    threeUpdates.score "gpt-4o".toList < threeUpdates.score "claude-sonnet".toList := by
  have hfew : threeUpdates.arms.lookup "claude-sonnet".toList = some [0.6] := rfl
  have hmany : threeUpdates.arms.lookup "gpt-4o".toList = some [0.6, 0.6] := rfl
  have hmean : meanReward [0.6] = meanReward [0.6, 0.6] := by norm_num [meanReward]
  obtain ⟨hless, -⟩ := score_of_equal_means hfew hmany (by simp) (by simp) hmean
  exact hless (by simp)

end NeuRust.Router.Bandit
