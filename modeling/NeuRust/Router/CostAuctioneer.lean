import NeuRust.Contracts
import NeuRust.Machine.FirstLeast
import NeuRust.Machine.Rescale
import Mathlib.Algebra.Order.Floor.Semiring
import Mathlib.Data.List.ReduceOption
import Mathlib.Data.Rat.Floor

/-!
The auction between the candidate models. Costs and latencies are normalised over the list of all
candidates, a quality is taken as it is, and the lowest weighted sum wins. Floats that are computed
with are exact, and the two draws of the pseudo-random generator are arguments.
-/

namespace NeuRust.Router

/-- `f64::EPSILON` -/
def epsilonF64 : ℚ := 1 / 2 ^ 52

structure RawScore where
  modelId : Str
  cost : FloatValue
  latencyMs : FloatValue
  quality : ℚ

structure ContextWeights where
  cost : ℚ
  latency : ℚ
  quality : ℚ

structure CostRouterConfig where
  warmupRequests : Option (BitVec 64) := none
  epsilon : Option ℚ := none
  contextWeights : Option (Table Str ContextWeights) := none

/-- The bandit. Its arms do not take part in the auction. -/
structure SlidingWindowUCB where
  totalObservations : BitVec 64 := 0

/-- One more observation, `saturating_add`. -/
def SlidingWindowUCB.update (bandit : SlidingWindowUCB) : SlidingWindowUCB :=
  ⟨BitVec.ofNat 64 (min (bandit.totalObservations.toNat + 1) (2 ^ 64 - 1))⟩

structure CostAuctioneer where
  config : CostRouterConfig
  bandit : SlidingWindowUCB
  candidates : List RawScore

/-- The value if `is_finite` -/
def finite? : FloatValue → Option ℚ
  | .finite value => some value
  | _ => none

def safeNormalize (value : FloatValue) (allValues : List FloatValue) : ℚ :=
  match value with
  | .finite value =>
      let finiteValues := allValues.filterMap finite?
      if h : finiteValues.length ≤ 1 then 1 / 2
      else
        have hpos := Nat.zero_lt_of_lt (not_le.mp h)
        let min := List.minimum_of_length_pos hpos
        let max := List.maximum_of_length_pos hpos
        if max - min < epsilonF64 then 1 / 2 else rescale min max value
  | _ => 1 / 2

namespace CostAuctioneer

def new (config : CostRouterConfig) (candidates : List RawScore) : CostAuctioneer :=
  ⟨config, {}, candidates⟩

def recordObservation (auctioneer : CostAuctioneer) : CostAuctioneer :=
  { auctioneer with bandit := auctioneer.bandit.update }

def getContextWeights (auctioneer : CostAuctioneer) (context : RequestContext) : ContextWeights :=
  let requestType := context.requestType.getD "interactive".toList
  (auctioneer.config.contextWeights.bind fun weightsMap => weightsMap.lookup requestType).getD
    ⟨0.2, 0.6, 0.2⟩

def toModelSpec (modelId : Str) : ModelSpec := ⟨modelId, none⟩

def selectFirst (auctioneer : CostAuctioneer) : Except Error ModelSpec :=
  match auctioneer.candidates with
  | [] => .error (.msg "No candidates".toList)
  | first :: _ => .ok (toModelSpec first.modelId)

def randomChoice (choice : ℚ) (scored : List (Str × ℚ)) : Except Error ModelSpec :=
  match scored with
  | [] => .error (.msg "No scored candidates".toList)
  | first :: rest =>
      let idx := min ⌊choice * (rest.length + 1)⌋₊ rest.length
      .ok (toModelSpec ((first :: rest).getD idx first).1)

def combined (auctioneer : CostAuctioneer) (context : RequestContext) (s : RawScore) : ℚ :=
  let costNorm := safeNormalize s.cost (auctioneer.candidates.map RawScore.cost)
  let latNorm := safeNormalize s.latencyMs (auctioneer.candidates.map RawScore.latencyMs)
  let weights := auctioneer.getContextWeights context
  let budgetFactor := if context.budgetRemainingRatio < 0.2 then 1.5 else 1
  costNorm * weights.cost * budgetFactor + latNorm * weights.latency +
    (1 - s.quality) * weights.quality

def scored (auctioneer : CostAuctioneer) (context : RequestContext) : List (Str × ℚ) :=
  auctioneer.candidates.map fun s => (s.modelId, auctioneer.combined context s)

def sorted (auctioneer : CostAuctioneer) (context : RequestContext) : List (Str × ℚ) :=
  (auctioneer.scored context).mergeSort fun a b => decide (a.2 ≤ b.2)

theorem sorted_ne_nil {auctioneer : CostAuctioneer} (h : auctioneer.candidates ≠ [])
    (context : RequestContext) : auctioneer.sorted context ≠ [] := by
  rw [← List.length_pos_iff] at h ⊢
  rwa [sorted, List.length_mergeSort, scored, List.length_map]

/-- `select_best`, with what the generator draws against epsilon and for the choice. -/
def selectBest (draw choice : ℚ) (request : UnifiedRequest) (auctioneer : CostAuctioneer) :
    Except Error ModelSpec :=
  if h : auctioneer.candidates = [] then .error (.msg "No candidate models available".toList)
  else if auctioneer.bandit.totalObservations < auctioneer.config.warmupRequests.getD 100 then
    auctioneer.selectFirst
  else if draw < auctioneer.config.epsilon.getD 0.1 then
    randomChoice choice (auctioneer.scored request.context)
  else .ok (toModelSpec ((auctioneer.sorted request.context).head (sorted_ne_nil h _)).1)

end CostAuctioneer

/-! ### The normalisation -/

theorem mem_filterMap_finite? {x : ℚ} {values : List FloatValue} :
    x ∈ values.filterMap finite? ↔ .finite x ∈ values := by
  rw [List.mem_filterMap]
  constructor
  · rintro ⟨value, hmem, hvalue⟩
    cases value with
    | nan => cases hvalue
    | infinite negative => cases hvalue
    | finite y =>
        obtain rfl := Option.some.inj hvalue
        exact hmem
  · exact fun hmem => ⟨.finite x, hmem, rfl⟩

theorem epsilonF64_pos : 0 < epsilonF64 := by
  norm_num [epsilonF64]

/-- Either the values lie too close together and nothing is told apart, or they are stretched to
the interval from 0 to 1. -/
theorem safeNormalize_cases (values : List FloatValue) :
    ((∀ lo hi, .finite lo ∈ values → .finite hi ∈ values → hi - lo < epsilonF64) ∧
        ∀ x, safeNormalize (.finite x) values = 1 / 2) ∨
      ∃ lo hi, (∀ x, .finite x ∈ values → lo ≤ x ∧ x ≤ hi) ∧ lo ≤ hi ∧
        ∀ x, safeNormalize (.finite x) values = rescale lo hi x := by
  simp only [← mem_filterMap_finite?, safeNormalize]
  by_cases hlength : (values.filterMap finite?).length ≤ 1
  · left
    refine ⟨fun lo hi hlo hhi => ?_, fun x => dif_pos hlength⟩
    have heq : lo = hi := by
      rcases Nat.le_one_iff_eq_zero_or_eq_one.mp hlength with hzero | hone
      · rw [List.length_eq_zero_iff.mp hzero] at hlo
        cases hlo
      · obtain ⟨y, hy⟩ := List.length_eq_one_iff.mp hone
        rw [hy, List.mem_singleton] at hlo hhi
        exact hlo.trans hhi.symm
    rw [heq, sub_self]
    exact epsilonF64_pos
  · have hpos := Nat.zero_lt_of_lt (not_le.mp hlength)
    have hmin (x : ℚ) (hx : x ∈ values.filterMap finite?) : List.minimum_of_length_pos hpos ≤ x :=
      List.minimum_of_length_pos_le_of_mem hx hpos
    have hmax (x : ℚ) (hx : x ∈ values.filterMap finite?) : x ≤ List.maximum_of_length_pos hpos :=
      List.le_maximum_of_length_pos_of_mem hx hpos
    by_cases hrange :
        List.maximum_of_length_pos hpos - List.minimum_of_length_pos hpos < epsilonF64
    · left
      refine ⟨fun lo hi hlo hhi => ?_, fun x => (dif_neg hlength).trans (if_pos hrange)⟩
      linarith [hmin lo hlo, hmax hi hhi]
    · right
      refine ⟨_, _, fun x hx => ⟨hmin x hx, hmax x hx⟩, ?_,
        fun x => (dif_neg hlength).trans (if_neg hrange)⟩
      linarith [epsilonF64_pos]

/-! ### Domination -/

def ContextWeights.Nonneg (weights : ContextWeights) : Prop :=
  0 ≤ weights.cost ∧ 0 ≤ weights.latency ∧ 0 ≤ weights.quality

def AtMost (a b : FloatValue) : Prop := ∃ x y, a = .finite x ∧ b = .finite y ∧ x ≤ y

/-- A value is below another of a list that spreads by at least `f64::EPSILON`. -/
def Below (values : List FloatValue) (a b : FloatValue) : Prop :=
  (∃ x y, a = .finite x ∧ b = .finite y ∧ x < y) ∧
    ∃ lo hi, .finite lo ∈ values ∧ .finite hi ∈ values ∧ epsilonF64 ≤ hi - lo

theorem AtMost.safeNormalize_le {a b : FloatValue} (h : AtMost a b) (values : List FloatValue) :
    safeNormalize a values ≤ safeNormalize b values := by
  obtain ⟨x, y, rfl, rfl, hle⟩ := h
  rcases safeNormalize_cases values with ⟨-, hhalf⟩ | ⟨lo, hi, -, hlohi, hrescale⟩
  · rw [hhalf, hhalf]
  · rw [hrescale, hrescale]
    exact rescale_mono hlohi hle

variable {values : List FloatValue}

theorem Below.safeNormalize_lt {a b : FloatValue} (h : Below values a b) (ha : a ∈ values)
    (hb : b ∈ values) : safeNormalize a values < safeNormalize b values := by
  obtain ⟨⟨x, y, rfl, rfl, hlt⟩, lo, hi, hlo, hhi, hspread⟩ := h
  rcases safeNormalize_cases values with ⟨hclose, -⟩ | ⟨least, greatest, hbounds, -, hrescale⟩
  · exact absurd (hclose lo hi hlo hhi) hspread.not_gt
  · rw [hrescale, hrescale]
    exact rescale_lt (hbounds x ha).1 hlt (hbounds y hb).2

/-- The spread may be that of the two values. -/
theorem Below.of_spread {x y : ℚ} (hx : .finite x ∈ values)
    (hy : .finite y ∈ values) (h : epsilonF64 ≤ y - x) :
    Below values (.finite x) (.finite y) := by
  have hlt : x < y := by linarith [epsilonF64_pos]
  exact ⟨⟨x, y, rfl, rfl, hlt⟩, x, y, hx, hy, h⟩

namespace CostAuctioneer

/-- A candidate beats or equals another on all three attributes, and beats it on one that has a
positive weight. -/
structure Dominates (auctioneer : CostAuctioneer) (context : RequestContext)
    (better worse : RawScore) : Prop where
  cost : AtMost better.cost worse.cost
  latency : AtMost better.latencyMs worse.latencyMs
  quality : worse.quality ≤ better.quality
  strictly :
    (worse.quality < better.quality ∧ 0 < (auctioneer.getContextWeights context).quality) ∨
      (Below (auctioneer.candidates.map RawScore.cost) better.cost worse.cost ∧
        0 < (auctioneer.getContextWeights context).cost) ∨
      (Below (auctioneer.candidates.map RawScore.latencyMs) better.latencyMs worse.latencyMs ∧
        0 < (auctioneer.getContextWeights context).latency)

variable {auctioneer : CostAuctioneer} {context : RequestContext} {better worse : RawScore}

theorem budgetFactor_pos (ratio : ℚ) : (0 : ℚ) < if ratio < 0.2 then 1.5 else 1 := by
  split_ifs <;> norm_num

theorem combined_lt_of_dominates (hbetter : better ∈ auctioneer.candidates)
    (hworse : worse ∈ auctioneer.candidates)
    (hweights : (auctioneer.getContextWeights context).Nonneg)
    (h : auctioneer.Dominates context better worse) :
    auctioneer.combined context better < auctioneer.combined context worse := by
  obtain ⟨hwCost, hwLat, hwQual⟩ := hweights
  have hmem {β : Type} (f : RawScore → β) := List.mem_map_of_mem (f := f) hbetter
  have hmem' {β : Type} (f : RawScore → β) := List.mem_map_of_mem (f := f) hworse
  have hfactor := budgetFactor_pos context.budgetRemainingRatio
  -- no term is greater, and one of them is less
  have hnormCost := h.cost.safeNormalize_le (auctioneer.candidates.map RawScore.cost)
  have hnormLat := h.latency.safeNormalize_le (auctioneer.candidates.map RawScore.latencyMs)
  have hcost := mul_le_mul_of_nonneg_right (mul_le_mul_of_nonneg_right hnormCost hwCost) hfactor.le
  have hlat := mul_le_mul_of_nonneg_right hnormLat hwLat
  have hqual := mul_le_mul_of_nonneg_right (sub_le_sub_left h.quality 1) hwQual
  rw [combined, combined]
  rcases h.strictly with ⟨hlt, hpos⟩ | ⟨hbelow, hpos⟩ | ⟨hbelow, hpos⟩
  · have hless := mul_lt_mul_of_pos_right (sub_lt_sub_left hlt 1) hpos
    exact add_lt_add_of_le_of_lt (add_le_add hcost hlat) hless
  · have hless := mul_lt_mul_of_pos_right
      (mul_lt_mul_of_pos_right (hbelow.safeNormalize_lt (hmem _) (hmem' _)) hpos) hfactor
    exact add_lt_add_of_lt_of_le (add_lt_add_of_lt_of_le hless hlat) hqual
  · have hless := mul_lt_mul_of_pos_right (hbelow.safeNormalize_lt (hmem _) (hmem' _)) hpos
    exact add_lt_add_of_lt_of_le (add_lt_add_of_le_of_lt hcost hless) hqual

theorem head_sorted (h : auctioneer.candidates ≠ []) (context : RequestContext) :
    ∃ winner, ((auctioneer.sorted context).head (sorted_ne_nil h context)).1 = winner.modelId ∧
      IsFirstLeast (auctioneer.combined context) auctioneer.candidates winner := by
  have hhead := List.head?_eq_some_head (sorted_ne_nil h context)
  obtain ⟨winner, hwinner, hleast⟩ := (IsFirstLeast.of_head_mergeSort hhead).of_map
  exact ⟨winner, congrArg Prod.fst hwinner.symm, hleast⟩

/-- Past the warm-up and without exploration, the first of the candidates with the least score is
selected. -/
theorem selectBest_firstLeast {draw : ℚ} (hne : auctioneer.candidates ≠ [])
    (hwarm : auctioneer.config.warmupRequests.getD 100 ≤ auctioneer.bandit.totalObservations)
    (hdraw : auctioneer.config.epsilon.getD 0.1 ≤ draw) (choice : ℚ) (request : UnifiedRequest) :
    ∃ winner, auctioneer.selectBest draw choice request = .ok (toModelSpec winner.modelId) ∧
      IsFirstLeast (auctioneer.combined request.context) auctioneer.candidates winner := by
  have hcold : ¬ auctioneer.bandit.totalObservations <
      auctioneer.config.warmupRequests.getD 100 := BitVec.not_lt.mpr hwarm
  obtain ⟨winner, hwinner, hleast⟩ := head_sorted hne request.context
  refine ⟨winner, ?_, hleast⟩
  rw [selectBest, dif_neg hne, if_neg hcold, if_neg hdraw.not_gt, hwinner]

/-- Past the warm-up and without exploration, the first of the candidates with the least score is
selected, and no candidate dominates it. -/
theorem selectBest_least_undominated {auctioneer : CostAuctioneer} {request : UnifiedRequest}
    {draw : ℚ} (choice : ℚ) (hne : auctioneer.candidates ≠ [])
    (hweights : (auctioneer.getContextWeights request.context).Nonneg)
    (hwarm : auctioneer.config.warmupRequests.getD 100 ≤ auctioneer.bandit.totalObservations)
    (hdraw : auctioneer.config.epsilon.getD 0.1 ≤ draw) :
    ∃ winner, auctioneer.selectBest draw choice request = .ok (toModelSpec winner.modelId) ∧
      IsFirstLeast (auctioneer.combined request.context) auctioneer.candidates winner ∧
      ∀ other ∈ auctioneer.candidates, ¬ auctioneer.Dominates request.context other winner := by
  obtain ⟨winner, hselected, hleast⟩ := selectBest_firstLeast hne hwarm hdraw choice request
  refine ⟨winner, hselected, hleast, fun other hother hdominates => ?_⟩
  exact (hleast.le hother).not_gt (combined_lt_of_dominates hother hleast.mem hweights hdominates)

/-! ### The warm-up -/

theorem toNat_update (bandit : SlidingWindowUCB) :
    bandit.update.totalObservations.toNat =
      min (bandit.totalObservations.toNat + 1) (2 ^ 64 - 1) := by
  rw [SlidingWindowUCB.update, BitVec.toNat_ofNat]
  omega

theorem toNat_recordObservation_iterate (auctioneer : CostAuctioneer) (n : ℕ) :
    (recordObservation^[n] auctioneer).bandit.totalObservations.toNat =
      min (auctioneer.bandit.totalObservations.toNat + n) (2 ^ 64 - 1) := by
  induction n with
  | zero =>
      have := auctioneer.bandit.totalObservations.isLt
      rw [Function.iterate_zero, id, Nat.add_zero]
      omega
  | succ n ih =>
      rw [Function.iterate_succ_apply', recordObservation, toNat_update, ih]
      omega

/-- From the start, the auction is open after as many observations as the warm-up takes. -/
theorem warm_iff (config : CostRouterConfig) (candidates : List RawScore) (n : ℕ) :
    config.warmupRequests.getD 100 ≤
        (recordObservation^[n] (.new config candidates)).bandit.totalObservations ↔
      (config.warmupRequests.getD 100).toNat ≤ n := by
  have hlt := (config.warmupRequests.getD 100).isLt
  have hzero : (new config candidates).bandit.totalObservations.toNat = 0 := rfl
  rw [BitVec.le_def, toNat_recordObservation_iterate, hzero]
  omega

/-! ### Two candidates -/

def twoCandidates : CostAuctioneer where
  config := {}
  bandit := ⟨100⟩
  candidates :=
    [⟨"gpt-4o".toList, .finite 0.03, .finite 200, 0.9⟩,
      ⟨"gpt-4o-mini".toList, .finite 0.01, .finite 100, 0.9⟩]

def anyModel : UnifiedRequest where
  model := ⟨"auto".toList, none⟩
  messages := [⟨.user, "Which model?".toList⟩]
  temperature := none
  maxTokens := none
  stream := false

theorem weights_twoCandidates :
    twoCandidates.getContextWeights anyModel.context = ⟨0.2, 0.6, 0.2⟩ := rfl

theorem nonneg_twoCandidates : (twoCandidates.getContextWeights anyModel.context).Nonneg := by
  rw [weights_twoCandidates]
  norm_num [ContextWeights.Nonneg]

theorem epsilon_twoCandidates : twoCandidates.config.epsilon.getD 0.1 ≤ 0.5 := by
  norm_num [twoCandidates]

theorem selectBest_twoCandidates :
    twoCandidates.selectBest 0.5 0 anyModel = .ok (toModelSpec "gpt-4o-mini".toList) := by
  obtain ⟨winner, hselected, hleast, hundominated⟩ := selectBest_least_undominated 0
    (List.cons_ne_nil _ _) nonneg_twoCandidates (by decide) epsilon_twoCandidates
  rcases List.mem_cons.mp hleast.mem with rfl | hsecond
  · -- the first candidate is dominated by the second
    refine absurd ?_ (hundominated _ (List.mem_cons_of_mem _ List.mem_cons_self))
    refine ⟨⟨_, _, rfl, rfl, by norm_num⟩, ⟨_, _, rfl, rfl, by norm_num⟩, le_rfl, .inr (.inl ?_)⟩
    rw [weights_twoCandidates]
    refine ⟨Below.of_spread ?_ ?_ ?_, by norm_num⟩
    · exact List.mem_cons_of_mem _ List.mem_cons_self
    · exact List.mem_cons_self
    · norm_num [epsilonF64]
  · rw [hselected, List.mem_singleton.mp hsecond]

end CostAuctioneer

end NeuRust.Router
