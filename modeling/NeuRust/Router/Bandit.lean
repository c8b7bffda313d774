import NeuRust.Contracts
import NeuRust.Machine.Run
import Mathlib.Data.List.DropRight

/-!
The sliding-window bandit. For each model it keeps the latest rewards, as many as the window holds,
and for as many models as there may be arms. What the windows hold is read off the history of the
updates: `rewardsSinceCreated` are the rewards of a model since its arm was last created.
-/

namespace NeuRust.Router.Bandit

def maxArms : ℕ := 1000

structure SlidingWindowUCB (ω : Type*) where
  windowSize : ℕ
  arms : Table Str (List ω)
  totalObservations : BitVec 64

/-- `pop_front` until the window holds what is left. -/
def popExcess {ω : Type*} (windowSize : ℕ) : List ω → List ω
  | [] => []
  | oldest :: rest =>
      if windowSize < (oldest :: rest).length then popExcess windowSize rest else oldest :: rest

/-- Room for the arm of a model: if it is a new one and there are too many, the first arm with the
fewest observations is removed. -/
def evictLeastUsed {ω : Type*} (model : Str) (arms : Table Str (List ω)) : Table Str (List ω) :=
  if model ∉ arms ∧ maxArms ≤ arms.size then
    match arms.minKey List.length with
    | some leastUsed => arms.erase leastUsed
    | none => arms
  else arms

namespace SlidingWindowUCB

variable {ω : Type*}

def new (windowSize : ℕ) : SlidingWindowUCB ω := ⟨windowSize, ∅, 0⟩

def update (model : Str) (reward : ω) (bandit : SlidingWindowUCB ω) : SlidingWindowUCB ω :=
  let arms := evictLeastUsed model bandit.arms
  let arm := (arms.lookup model).getD [] ++ [reward]
  { bandit with
    arms := arms.insert model (popExcess bandit.windowSize arm)
    totalObservations := BitVec.ofNat 64 (min (bandit.totalObservations.toNat + 1) (2 ^ 64 - 1)) }

def totalRequests (bandit : SlidingWindowUCB ω) : BitVec 64 := bandit.totalObservations

def armCount (model : Str) (bandit : SlidingWindowUCB ω) : ℕ :=
  ((bandit.arms.lookup model).map List.length).getD 0

end SlidingWindowUCB

/-! ### One update -/

section Update

variable {ω : Type*}

theorem popExcess_eq_rtake (windowSize : ℕ) (arm : List ω) :
    popExcess windowSize arm = arm.rtake windowSize := by
  induction arm with
  | nil => rw [popExcess, List.rtake_nil]
  | cons oldest rest ih =>
      rw [popExcess, List.rtake]
      split
      next hlong =>
        have hdrop : (oldest :: rest).length - windowSize = rest.length - windowSize + 1 := by
          rw [List.length_cons] at hlong ⊢
          omega
        rw [ih, hdrop, List.drop_succ_cons, List.rtake]
      next hshort => rw [Nat.sub_eq_zero_of_le (not_lt.mp hshort), List.drop_zero]

/-- Nothing that a window has dropped comes back. -/
theorem rtake_rtake_concat (n : ℕ) (l : List ω) (x : ω) :
    (l.rtake n ++ [x]).rtake n = (l ++ [x]).rtake n := by
  cases n with
  | zero => rw [List.rtake_zero, List.rtake_zero]
  | succ n =>
      rw [List.rtake_concat_succ, List.rtake_concat_succ]
      congr 1
      simp [List.rtake_eq_reverse_take_reverse, List.take_take]

/-- The eviction leaves the arms alone, or it removes one with as few observations as any. -/
theorem evictLeastUsed_cases (model : Str) (arms : Table Str (List ω)) :
    (¬ (model ∉ arms ∧ maxArms ≤ arms.size) ∧ evictLeastUsed model arms = arms) ∨
      (model ∉ arms ∧ maxArms ≤ arms.size) ∧ ∃ leastUsed window,
        arms.lookup leastUsed = some window ∧
        (∀ other window', arms.lookup other = some window' → window.length ≤ window'.length) ∧
        evictLeastUsed model arms = arms.erase leastUsed := by
  rw [evictLeastUsed]
  split
  next hfull =>
    refine .inr ⟨hfull, ?_⟩
    obtain ⟨leastUsed, hmin⟩ : ∃ leastUsed, arms.minKey List.length = some leastUsed := by
      apply Option.ne_none_iff_exists'.mp
      apply mt AList.minKey_eq_none.mp
      have hpos : 0 < maxArms := Nat.zero_lt_succ _
      exact (hpos.trans_le hfull.2).ne'
    obtain ⟨window, hlookup, hfewest⟩ := AList.minKey_eq_some hmin
    refine ⟨leastUsed, window, hlookup, hfewest, ?_⟩
    rw [hmin]
  next hroom => exact .inl ⟨hroom, rfl⟩

theorem lookup_update_self (model : Str) (reward : ω) (bandit : SlidingWindowUCB ω) :
    (bandit.update model reward).arms.lookup model =
      some ((((bandit.arms.lookup model).getD []) ++ [reward]).rtake bandit.windowSize) := by
  have hevict : (evictLeastUsed model bandit.arms).lookup model = bandit.arms.lookup model := by
    rcases evictLeastUsed_cases model bandit.arms with ⟨-, heq⟩ | ⟨⟨hnew, -⟩, _, _, hold, -, heq⟩
    · rw [heq]
    · rw [heq]
      apply AList.lookup_erase_ne
      rintro rfl
      exact hnew (AList.mem_of_lookup hold)
  show (AList.insert model _ _).lookup model = _
  rw [AList.lookup_insert, popExcess_eq_rtake, hevict]

theorem lookup_update_ne {model other : Str} (h : other ≠ model) (reward : ω)
    (bandit : SlidingWindowUCB ω) :
    (bandit.update model reward).arms.lookup other =
      (evictLeastUsed model bandit.arms).lookup other :=
  AList.lookup_insert_ne h

theorem size_update_le {bandit : SlidingWindowUCB ω} (h : bandit.arms.size ≤ maxArms)
    (model : Str) (reward : ω) : (bandit.update model reward).arms.size ≤ maxArms := by
  show (AList.insert model _ _).size ≤ maxArms
  rcases evictLeastUsed_cases model bandit.arms with ⟨hroom, heq⟩ | ⟨hfull, _, _, hold, -, heq⟩
  · rw [heq]
    by_cases hmem : model ∈ bandit.arms
    · rwa [AList.size_insert_of_mem hmem]
    · have hless : bandit.arms.size < maxArms := not_le.mp fun hle => hroom ⟨hmem, hle⟩
      exact (AList.size_insert_le _ _ _).trans hless
  · have herase := AList.size_erase_of_mem (AList.mem_of_lookup hold)
    rw [heq]
    refine (AList.size_insert_le _ _ _).trans ?_
    rwa [herase]

theorem toNat_update (model : Str) (reward : ω) (bandit : SlidingWindowUCB ω) :
    (bandit.update model reward).totalObservations.toNat =
      min (bandit.totalObservations.toNat + 1) (2 ^ 64 - 1) := by
  show (BitVec.ofNat 64 _).toNat = _
  rw [BitVec.toNat_ofNat]
  omega

end Update

/-! ### Runs -/

structure Update (ω : Type*) where
  model : Str
  reward : ω

/-- An update, before which the order in which the arms are iterated over may change. -/
inductive UpdateStep {ω : Type*} :
    SlidingWindowUCB ω → Update ω → SlidingWindowUCB ω → Prop
  | update (bandit : SlidingWindowUCB ω) (arms : Table Str (List ω))
      (h : arms.entries.Perm bandit.arms.entries) (u : Update ω) :
      UpdateStep bandit u ({ bandit with arms := arms }.update u.model u.reward)

variable {ω : Type*}

/-- The rewards of a model since its arm was last created, the latest one last. -/
def rewardsSinceCreated (model : Str) :
    List (Transition (SlidingWindowUCB ω) (Update ω)) → List ω
  | [] => []
  | ⟨bandit, u, _⟩ :: earlier =>
      if u.model = model then
        (if model ∈ bandit.arms then rewardsSinceCreated model earlier else []) ++ [u.reward]
      else rewardsSinceCreated model earlier

def MeetsLimit (t : Transition (SlidingWindowUCB ω) (Update ω)) : Prop :=
  t.label.model ∉ t.pre.arms ∧ maxArms ≤ t.pre.arms.size

/-- One arm disappears, and it has as few observations as any. -/
def LosesLeastUsed (t : Transition (SlidingWindowUCB ω) (Update ω)) : Prop :=
  ∃ leastUsed window, t.pre.arms.lookup leastUsed = some window ∧
    (∀ other window', t.pre.arms.lookup other = some window' → window.length ≤ window'.length) ∧
    leastUsed ∉ t.post.arms ∧ ∀ other ∈ t.pre.arms, other ≠ leastUsed → other ∈ t.post.arms

def KeepsArms (t : Transition (SlidingWindowUCB ω) (Update ω)) : Prop :=
  ∀ model ∈ t.pre.arms, model ∈ t.post.arms

/-! ### What a step does -/

variable {bandit bandit' : SlidingWindowUCB ω} {u : Update ω}

theorem UpdateStep.windowSize (h : UpdateStep bandit u bandit') :
    bandit'.windowSize = bandit.windowSize := by
  cases h
  rfl

theorem UpdateStep.size_le (h : UpdateStep bandit u bandit')
    (hbound : bandit.arms.size ≤ maxArms) : bandit'.arms.size ≤ maxArms := by
  cases h with
  | update arms hperm =>
      apply size_update_le
      rwa [AList.size_perm hperm]

theorem UpdateStep.totalObservations (h : UpdateStep bandit u bandit') :
    bandit'.totalObservations.toNat = min (bandit.totalObservations.toNat + 1) (2 ^ 64 - 1) := by
  cases h
  exact toNat_update _ _ _

theorem UpdateStep.lookup_self (h : UpdateStep bandit u bandit') :
    bandit'.arms.lookup u.model =
      some ((((bandit.arms.lookup u.model).getD []) ++ [u.reward]).rtake bandit.windowSize) := by
  cases h with
  | update arms hperm => rw [lookup_update_self, AList.lookup_perm hperm]

/-- The other arms stay as they are, or one with as few observations as any disappears. -/
theorem UpdateStep.lookup_other (h : UpdateStep bandit u bandit') :
    (¬ (u.model ∉ bandit.arms ∧ maxArms ≤ bandit.arms.size) ∧
        ∀ other, other ≠ u.model → bandit'.arms.lookup other = bandit.arms.lookup other) ∨
      (u.model ∉ bandit.arms ∧ maxArms ≤ bandit.arms.size) ∧ ∃ leastUsed window,
        bandit.arms.lookup leastUsed = some window ∧
        (∀ other window', bandit.arms.lookup other = some window' →
          window.length ≤ window'.length) ∧
        bandit'.arms.lookup leastUsed = none ∧
        ∀ other, other ≠ u.model → other ≠ leastUsed →
          bandit'.arms.lookup other = bandit.arms.lookup other := by
  cases h with
  | update arms hperm =>
      have hlookup := AList.lookup_perm hperm
      have hmem (model : Str) : model ∈ arms ↔ model ∈ bandit.arms := by
        rw [← AList.lookup_isSome, hlookup, AList.lookup_isSome]
      have hsize := AList.size_perm hperm
      rcases evictLeastUsed_cases u.model arms with
        ⟨hroom, heq⟩ | ⟨hfull, leastUsed, window, hold, hfewest, heq⟩
      · rw [hmem, hsize] at hroom
        refine .inl ⟨hroom, fun other hother => ?_⟩
        rw [lookup_update_ne hother]
        show (evictLeastUsed u.model arms).lookup other = _
        rw [heq, hlookup]
      · rw [hmem, hsize] at hfull
        simp only [hlookup] at hold hfewest
        have hne : leastUsed ≠ u.model := by
          rintro rfl
          exact hfull.1 (AList.mem_of_lookup hold)
        refine .inr ⟨hfull, leastUsed, window, hold, hfewest, ?_, fun other hother hkept => ?_⟩
        · rw [lookup_update_ne hne]
          show (evictLeastUsed u.model arms).lookup leastUsed = _
          rw [heq, AList.lookup_erase]
        · rw [lookup_update_ne hother]
          show (evictLeastUsed u.model arms).lookup other = _
          rw [heq, AList.lookup_erase_ne hkept, hlookup]

theorem UpdateStep.lookup_of_ne (h : UpdateStep bandit u bandit') {other : Str}
    (hother : other ≠ u.model) {window : List ω} (hw : bandit'.arms.lookup other = some window) :
    bandit.arms.lookup other = some window := by
  rcases h.lookup_other with ⟨-, hkept⟩ | ⟨-, leastUsed, _, -, -, hgone, hkept⟩
  · rwa [← hkept other hother]
  · by_cases hleast : other = leastUsed
    · rw [hleast, hgone] at hw
      cases hw
    · rwa [← hkept other hother hleast]

theorem keepsArms_of_room (h : UpdateStep bandit u bandit')
    (hroom : ¬ MeetsLimit ⟨bandit, u, bandit'⟩) : KeepsArms ⟨bandit, u, bandit'⟩ := by
  intro model hmem
  rcases h.lookup_other with ⟨-, hkept⟩ | ⟨hfull, -⟩
  · by_cases hmodel : model = u.model
    · rw [hmodel]
      exact AList.mem_of_lookup h.lookup_self
    · rw [← AList.lookup_isSome, hkept model hmodel, AList.lookup_isSome]
      exact hmem
  · exact absurd hfull hroom

theorem losesLeastUsed_of_limit (h : UpdateStep bandit u bandit')
    (hfull : MeetsLimit ⟨bandit, u, bandit'⟩) : LosesLeastUsed ⟨bandit, u, bandit'⟩ := by
  rcases h.lookup_other with ⟨hroom, -⟩ | ⟨-, leastUsed, window, hold, hfewest, hgone, hkept⟩
  · exact absurd hfull hroom
  · refine ⟨leastUsed, window, hold, hfewest, AList.lookup_eq_none.mp hgone, ?_⟩
    intro other hmem hne
    have hother : other ≠ u.model := by
      rintro rfl
      exact hfull.1 hmem
    rw [← AList.lookup_isSome, hkept other hother hne, AList.lookup_isSome]
    exact hmem

/-! ### What a run leaves -/

/-- The windows hold the latest rewards, and the updates are counted. -/
structure Tracks (W : ℕ) (steps : List (Transition (SlidingWindowUCB ω) (Update ω)))
    (bandit : SlidingWindowUCB ω) : Prop where
  windowSize : bandit.windowSize = W
  size_le : bandit.arms.size ≤ maxArms
  window : ∀ model window, bandit.arms.lookup model = some window →
    window = (rewardsSinceCreated model steps).rtake W
  total : bandit.totalObservations.toNat = min steps.length (2 ^ 64 - 1)

theorem Tracks.new (W : ℕ) : Tracks W [] (SlidingWindowUCB.new W : SlidingWindowUCB ω) where
  windowSize := rfl
  size_le := Nat.zero_le _
  window := nofun
  total := rfl

theorem Tracks.window_self {W : ℕ} {steps : List (Transition (SlidingWindowUCB ω) (Update ω))}
    (h : Tracks W steps bandit) (hstep : UpdateStep bandit u bandit') :
    bandit'.arms.lookup u.model =
      some ((rewardsSinceCreated u.model (⟨bandit, u, bandit'⟩ :: steps)).rtake W) := by
  rw [hstep.lookup_self, h.windowSize, rewardsSinceCreated, if_pos rfl]
  cases hlookup : bandit.arms.lookup u.model with
  | none => rw [if_neg (AList.lookup_eq_none.mp hlookup), Option.getD_none]
  | some window =>
      rw [if_pos (AList.mem_of_lookup hlookup), Option.getD_some, h.window _ _ hlookup,
        rtake_rtake_concat]

theorem Tracks.step {W : ℕ} {steps : List (Transition (SlidingWindowUCB ω) (Update ω))}
    (h : Tracks W steps bandit) (hstep : UpdateStep bandit u bandit') :
    Tracks W (⟨bandit, u, bandit'⟩ :: steps) bandit' where
  windowSize := hstep.windowSize.trans h.windowSize
  size_le := hstep.size_le h.size_le
  window := by
    intro model window hwindow
    by_cases hmodel : model = u.model
    · rw [hmodel, h.window_self hstep] at hwindow
      rw [hmodel]
      exact (Option.some.inj hwindow).symm
    · rw [rewardsSinceCreated, if_neg (Ne.symm hmodel)]
      exact h.window model window (hstep.lookup_of_ne hmodel hwindow)
  total := by
    rw [hstep.totalObservations, h.total, List.length_cons]
    omega

theorem tracks_of_run {W : ℕ} {steps : List (Transition (SlidingWindowUCB ω) (Update ω))}
    (run : Run UpdateStep (.new W) steps bandit) : Tracks W steps bandit :=
  run.invariant_of_history (I := Tracks W) (.new W) fun _ h hstep => h.step hstep

/-- The window of an arm fills up to its size. -/
theorem armCount_of_run {W : ℕ} {steps : List (Transition (SlidingWindowUCB ω) (Update ω))}
    (run : Run UpdateStep (.new W) steps bandit) {model : Str} (h : model ∈ bandit.arms) :
    bandit.armCount model = min W (rewardsSinceCreated model steps).length := by
  obtain ⟨window, hlookup⟩ := AList.exists_lookup h
  have hwindow := (tracks_of_run run).window model window hlookup
  rw [SlidingWindowUCB.armCount, hlookup, Option.map_some, Option.getD_some, hwindow, List.rtake,
    List.length_drop]
  omega

/-- From the start, the arms are bounded, the window of each holds the latest rewards since it was
created, and one disappears only where a new model meets the limit. -/
theorem windows_of_run {W : ℕ} {steps : List (Transition (SlidingWindowUCB ω) (Update ω))}
    {bandit : SlidingWindowUCB ω} (run : Run UpdateStep (.new W) steps bandit) :
    bandit.arms.size ≤ maxArms ∧
      (∀ model window, bandit.arms.lookup model = some window →
        window = (rewardsSinceCreated model steps).rtake W) ∧
      (∀ t ∈ steps, (MeetsLimit t → LosesLeastUsed t) ∧ (¬ MeetsLimit t → KeepsArms t)) ∧
      bandit.totalRequests.toNat = min steps.length (2 ^ 64 - 1) := by
  have htracks := tracks_of_run run
  refine ⟨htracks.size_le, htracks.window, fun t ht => ?_, htracks.total⟩
  obtain ⟨_, -, -, hstep⟩ := run.exists_before ht
  exact ⟨losesLeastUsed_of_limit hstep, keepsArms_of_room hstep⟩

theorem windows_of_two_updates :
    ∃ (steps : List (Transition (SlidingWindowUCB ℕ) (Update ℕ))) (bandit : SlidingWindowUCB ℕ),
      Run UpdateStep (.new 1) steps bandit ∧
      bandit.arms.lookup "gpt-4o".toList =
        some ((rewardsSinceCreated "gpt-4o".toList steps).rtake 1) ∧
      bandit.totalRequests.toNat = 2 := by
  have run : Run UpdateStep (.new 1) _ _ := ((Run.nil.snoc
    (.update _ _ (.refl _) (⟨"gpt-4o".toList, 3⟩ : Update ℕ))).snoc
    (.update _ _ (.refl _) ⟨"gpt-4o".toList, 5⟩))
  obtain ⟨-, hwindow, -, htotal⟩ := windows_of_run run
  exact ⟨_, _, run, congrArg some (hwindow _ [5] rfl), htotal⟩

end NeuRust.Router.Bandit
