import NeuRust.Router.BanditScore
import NeuRust.Router.CostAuctioneer

/-!
The auctioneer with the bandit that the responses train. The auction asks the bandit for the number
of observations and for nothing else, so that what was observed does not reach the selection.
-/

namespace NeuRust.Router

open Bandit (Update)

def counterOf {ω : Type*} (bandit : Bandit.SlidingWindowUCB ω) : SlidingWindowUCB :=
  ⟨bandit.totalRequests⟩

structure LearningRouterConfig extends CostRouterConfig where
  slidingWindowSize : Option ℕ := none

structure LearningAuctioneer (ω : Type*) where
  config : LearningRouterConfig
  bandit : Bandit.SlidingWindowUCB ω
  candidates : List RawScore

/-- The lower the latency, the higher the reward. -/
def rewardOf {K : Type*} [Field K] [LinearOrder K] (latencyMs : BitVec 64) : K :=
  1 - min ((latencyMs.toNat : K) / 5000) 1

section

variable {K : Type*} [Field K] [LinearOrder K] [IsStrictOrderedRing K]

theorem rewardOf_nonneg (latencyMs : BitVec 64) : (0 : K) ≤ rewardOf latencyMs :=
  sub_nonneg.mpr (min_le_right _ _)

theorem rewardOf_le_one (latencyMs : BitVec 64) : (rewardOf latencyMs : K) ≤ 1 := by
  have hnonneg : (0 : K) ≤ latencyMs.toNat / 5000 := div_nonneg (Nat.cast_nonneg _) (by norm_num)
  exact sub_le_self 1 (le_min hnonneg zero_le_one)

theorem rewardOf_anti {latencyMs latencyMs' : BitVec 64} (h : latencyMs ≤ latencyMs') :
    (rewardOf latencyMs' : K) ≤ rewardOf latencyMs := by
  have hcast : (latencyMs.toNat : K) ≤ latencyMs'.toNat := Nat.cast_le.mpr h
  have hdiv : (latencyMs.toNat / 5000 : K) ≤ latencyMs'.toNat / 5000 :=
    div_le_div_of_nonneg_right hcast (by norm_num)
  exact sub_le_sub_left (min_le_min hdiv le_rfl) 1

end

namespace LearningAuctioneer

section

variable {ω : Type*}

def new (config : LearningRouterConfig) (candidates : List RawScore) : LearningAuctioneer ω :=
  ⟨config, .new (config.slidingWindowSize.getD 500), candidates⟩

def auction (auctioneer : LearningAuctioneer ω) : CostAuctioneer :=
  ⟨auctioneer.config.toCostRouterConfig, counterOf auctioneer.bandit, auctioneer.candidates⟩

def selectBest (draw choice : ℚ) (request : UnifiedRequest) (auctioneer : LearningAuctioneer ω) :
    Except Error ModelSpec :=
  auctioneer.auction.selectBest draw choice request

def recordObservation (u : Update ω) (auctioneer : LearningAuctioneer ω) : LearningAuctioneer ω :=
  { auctioneer with bandit := auctioneer.bandit.update u.model u.reward }

end

def onResponse {K : Type*} [Field K] [LinearOrder K] (request : UnifiedRequest)
    (response : UnifiedResponse) (auctioneer : LearningAuctioneer K) : LearningAuctioneer K :=
  auctioneer.recordObservation ⟨request.model.modelName, rewardOf response.latencyMs⟩

/-! ### What the selection sees of the observations -/

section

variable {ω : Type*}

def observe (observations : List (Update ω)) (auctioneer : LearningAuctioneer ω) :
    LearningAuctioneer ω :=
  observations.foldl (fun auctioneer u => auctioneer.recordObservation u) auctioneer

theorem auction_recordObservation (u : Update ω) (auctioneer : LearningAuctioneer ω) :
    (auctioneer.recordObservation u).auction = auctioneer.auction.recordObservation :=
  rfl

theorem auction_observe (observations : List (Update ω)) (auctioneer : LearningAuctioneer ω) :
    (auctioneer.observe observations).auction =
      CostAuctioneer.recordObservation^[observations.length] auctioneer.auction := by
  induction observations generalizing auctioneer with
  | nil => rfl
  | cons u observations ih =>
      rw [observe, List.foldl_cons, ← observe, ih, auction_recordObservation, List.length_cons,
        Function.iterate_succ_apply]

/-- As many observations, of whatever model and reward, lead to the same selection. -/
theorem selectBest_observe_congr {observations observations' : List (Update ω)}
    (h : observations.length = observations'.length) (draw choice : ℚ) (request : UnifiedRequest)
    (auctioneer : LearningAuctioneer ω) :
    (auctioneer.observe observations).selectBest draw choice request =
      (auctioneer.observe observations').selectBest draw choice request := by
  rw [selectBest, selectBest, auction_observe, auction_observe, h]

end

/-! ### Candidates with equal attributes -/

def EqualAttributes (first : RawScore) (rest : List RawScore) : Prop :=
  ∀ s ∈ rest, s.cost = first.cost ∧ s.latencyMs = first.latencyMs ∧ s.quality = first.quality

def BestScored (auctioneer : LearningAuctioneer ℝ) (model : Str) : Prop :=
  ∀ s ∈ auctioneer.candidates, auctioneer.bandit.score s.modelId ≤ auctioneer.bandit.score model

/-- Of equal candidates the first one is selected, whatever was learned. -/
theorem selectBest_of_equalAttributes {ω : Type*} {auctioneer : LearningAuctioneer ω}
    {first : RawScore} {rest : List RawScore} {draw : ℚ}
    (hcandidates : auctioneer.candidates = first :: rest) (hequal : EqualAttributes first rest)
    (hwarm : auctioneer.config.warmupRequests.getD 100 ≤ auctioneer.bandit.totalRequests)
    (hepsilon : auctioneer.config.epsilon = some 0) (hdraw : 0 ≤ draw) (choice : ℚ)
    (request : UnifiedRequest) :
    auctioneer.selectBest draw choice request =
      .ok (CostAuctioneer.toModelSpec first.modelId) := by
  have hcons : auctioneer.auction.candidates = first :: rest := hcandidates
  have hne : auctioneer.auction.candidates ≠ [] := by simp [hcons]
  have hexploit : auctioneer.auction.config.epsilon.getD 0.1 ≤ draw := by
    show auctioneer.config.epsilon.getD 0.1 ≤ draw
    simpa [hepsilon] using hdraw
  obtain ⟨winner, hselected, hleast⟩ :=
    CostAuctioneer.selectBest_firstLeast hne hwarm hexploit choice request
  have hfirst : winner = first := by
    rw [hcons] at hleast
    apply hleast.eq_head
    intro s hs
    rcases List.mem_cons.mp hs with rfl | hs
    · exact le_rfl
    · obtain ⟨hcost, hlatency, hquality⟩ := hequal s hs
      simp [CostAuctioneer.combined, hcost, hlatency, hquality]
  rw [selectBest, hselected, hfirst]

/-- The selected model has the best score of the bandit exactly when the first candidate has. -/
theorem selectBest_bestScored_iff {auctioneer : LearningAuctioneer ℝ} {first : RawScore}
    {rest : List RawScore} {draw : ℚ} (hcandidates : auctioneer.candidates = first :: rest)
    (hequal : EqualAttributes first rest)
    (hwarm : auctioneer.config.warmupRequests.getD 100 ≤ auctioneer.bandit.totalRequests)
    (hepsilon : auctioneer.config.epsilon = some 0) (hdraw : 0 ≤ draw) (choice : ℚ)
    (request : UnifiedRequest) :
    (∃ model, auctioneer.selectBest draw choice request = .ok model ∧
      auctioneer.BestScored model.modelName) ↔ auctioneer.BestScored first.modelId := by
  rw [selectBest_of_equalAttributes hcandidates hequal hwarm hepsilon hdraw]
  constructor
  · rintro ⟨model, hmodel, hbest⟩
    obtain rfl := Except.ok.inj hmodel
    exact hbest
  · exact fun hbest => ⟨_, rfl, hbest⟩

/-! ### Two candidates that were tried once -/

noncomputable def triedOnce (reward reward' : ℝ) : LearningAuctioneer ℝ :=
  (new { warmupRequests := some 2, epsilon := some 0 }
    [⟨"gpt-4o".toList, .finite 0.01, .finite 100, 0.9⟩,
      ⟨"claude-sonnet".toList, .finite 0.01, .finite 100, 0.9⟩]).observe
    [⟨"gpt-4o".toList, reward⟩, ⟨"claude-sonnet".toList, reward'⟩]

theorem equalAttributes_triedOnce :
    EqualAttributes ⟨"gpt-4o".toList, .finite 0.01, .finite 100, 0.9⟩
      [⟨"claude-sonnet".toList, .finite 0.01, .finite 100, 0.9⟩] := by
  intro s hs
  obtain rfl := List.mem_singleton.mp hs
  exact ⟨rfl, rfl, rfl⟩

theorem score_triedOnce (reward reward' : ℝ) :
    ∃ bonus, (triedOnce reward reward').bandit.score "gpt-4o".toList = reward + bonus ∧
      (triedOnce reward reward').bandit.score "claude-sonnet".toList = reward' + bonus := by
  have hfirst : (triedOnce reward reward').bandit.arms.lookup "gpt-4o".toList = some [reward] := rfl
  have hsecond : (triedOnce reward reward').bandit.arms.lookup "claude-sonnet".toList =
      some [reward'] := rfl
  rw [Bandit.score_eq hfirst (by simp), Bandit.score_eq hsecond (by simp)]
  simp [Bandit.meanReward]

theorem selectBest_bestScored_triedOnce :
    ∃ model, (triedOnce 1 0).selectBest 0 0 CostAuctioneer.anyModel = .ok model ∧
      (triedOnce 1 0).BestScored model.modelName := by
  obtain ⟨bonus, hfirst, hsecond⟩ := score_triedOnce 1 0
  apply (selectBest_bestScored_iff rfl equalAttributes_triedOnce (by decide) rfl le_rfl 0
    CostAuctioneer.anyModel).mpr
  intro s hs
  rcases List.mem_cons.mp hs with rfl | hs
  · exact le_rfl
  · obtain rfl := List.mem_singleton.mp hs
    show (triedOnce 1 0).bandit.score "claude-sonnet".toList ≤
      (triedOnce 1 0).bandit.score "gpt-4o".toList
    rw [hfirst, hsecond]
    linarith

/-- Of two models with equal attributes, the second is rewarded and the first is selected. -/
theorem learned_model_not_selected :
    ¬ ∀ (auctioneer : LearningAuctioneer ℝ) (first : RawScore) (rest : List RawScore)
      (draw choice : ℚ) (request : UnifiedRequest), auctioneer.candidates = first :: rest →
        EqualAttributes first rest →
        auctioneer.config.warmupRequests.getD 100 ≤ auctioneer.bandit.totalRequests →
        auctioneer.config.epsilon = some 0 → 0 ≤ draw →
        ∃ model, auctioneer.selectBest draw choice request = .ok model ∧
          auctioneer.BestScored model.modelName := by
  intro h
  obtain ⟨model, hmodel, hbest⟩ := h (triedOnce 0 1) _ _ 0 0 CostAuctioneer.anyModel rfl
    equalAttributes_triedOnce (by decide) rfl le_rfl
  rw [selectBest_of_equalAttributes rfl equalAttributes_triedOnce (by decide) rfl le_rfl] at hmodel
  obtain rfl := Except.ok.inj hmodel
  obtain ⟨bonus, hfirst, hsecond⟩ := score_triedOnce 0 1
  have hle : (triedOnce 0 1).bandit.score "claude-sonnet".toList ≤
      (triedOnce 0 1).bandit.score "gpt-4o".toList :=
    hbest _ (List.mem_cons_of_mem _ List.mem_cons_self)
  rw [hfirst, hsecond] at hle
  linarith

end LearningAuctioneer

end NeuRust.Router
