import NeuRust.Router.Learning

/-!
The auctioneer as a layer that many requests pass at once. A request is given a model on its way in
and trains the bandit on its way back, which may be much later, or never if the call fails or the
answer is a stream. Whatever the order, the bandit holds what came back and nothing else.
-/

namespace NeuRust.Router

open Bandit (UpdateStep maxArms)

namespace LearningAuctioneer

variable {ω : Type*}

/-- `on_request`, with what the generator draws. -/
def onRequest (draw choice : ℚ) (request : UnifiedRequest) (auctioneer : LearningAuctioneer ω) :
    Except Error UnifiedRequest :=
  (auctioneer.selectBest draw choice request).map fun selected => { request with model := selected }

def reorder (arms : Table Str (List ω)) (auctioneer : LearningAuctioneer ω) :
    LearningAuctioneer ω :=
  { auctioneer with bandit := { auctioneer.bandit with arms := arms } }

end LearningAuctioneer

/-! ### The selection -/

namespace CostAuctioneer

variable {auctioneer : CostAuctioneer} {first : RawScore} {rest : List RawScore}

/-- Before the end of the warm-up the first candidate is selected. -/
theorem selectBest_cold (hcandidates : auctioneer.candidates = first :: rest)
    (hcold : auctioneer.bandit.totalObservations < auctioneer.config.warmupRequests.getD 100)
    (draw choice : ℚ) (request : UnifiedRequest) :
    auctioneer.selectBest draw choice request = .ok (toModelSpec first.modelId) := by
  have hne : auctioneer.candidates ≠ [] := by simp [hcandidates]
  rw [selectBest, dif_neg hne, if_pos hcold, selectFirst, hcandidates]

theorem randomChoice_scored (hcandidates : auctioneer.candidates = first :: rest) (choice : ℚ)
    (context : RequestContext) :
    ∃ s ∈ auctioneer.candidates,
      randomChoice choice (auctioneer.scored context) = .ok (toModelSpec s.modelId) := by
  have hmem {s : Str × ℚ} (hs : s ∈ auctioneer.scored context) :
      ∃ c ∈ auctioneer.candidates, s.1 = c.modelId := by
    obtain ⟨c, hc, rfl⟩ := List.mem_map.mp hs
    exact ⟨c, hc, rfl⟩
  cases hscored : auctioneer.scored context with
  | nil => simp [scored, hcandidates] at hscored
  | cons s scored =>
      rw [hscored] at hmem
      rw [randomChoice]
      have hidx : min ⌊choice * (scored.length + 1)⌋₊ scored.length < (s :: scored).length := by
        rw [List.length_cons]
        omega
      rw [List.getD_eq_getElem?_getD, List.getElem?_eq_getElem hidx, Option.getD_some]
      obtain ⟨c, hc, hid⟩ := hmem (List.getElem_mem hidx)
      exact ⟨c, hc, by rw [hid]⟩

theorem exists_selectBest (hcandidates : auctioneer.candidates = first :: rest)
    (draw choice : ℚ) (request : UnifiedRequest) :
    ∃ s ∈ auctioneer.candidates,
      auctioneer.selectBest draw choice request = .ok (toModelSpec s.modelId) := by
  have hne : auctioneer.candidates ≠ [] := by simp [hcandidates]
  by_cases hcold : auctioneer.bandit.totalObservations < auctioneer.config.warmupRequests.getD 100
  · refine ⟨first, ?_, selectBest_cold hcandidates hcold draw choice request⟩
    rw [hcandidates]
    exact List.mem_cons_self
  · by_cases hdraw : draw < auctioneer.config.epsilon.getD 0.1
    · rw [selectBest, dif_neg hne, if_neg hcold, if_pos hdraw]
      exact randomChoice_scored hcandidates choice request.context
    · obtain ⟨winner, hselected, hleast⟩ := selectBest_firstLeast hne (BitVec.not_lt.mp hcold)
        (not_lt.mp hdraw) choice request
      exact ⟨winner, hleast.mem, hselected⟩

end CostAuctioneer

theorem LearningAuctioneer.model_of_onRequest {ω : Type*} {auctioneer : LearningAuctioneer ω}
    {draw choice : ℚ} {request admitted : UnifiedRequest}
    (h : auctioneer.onRequest draw choice request = .ok admitted) :
    ∃ s ∈ auctioneer.candidates,
      admitted = { request with model := CostAuctioneer.toModelSpec s.modelId } := by
  cases hcandidates : auctioneer.candidates with
  | nil =>
      have hempty : auctioneer.auction.candidates = [] := hcandidates
      rw [onRequest, selectBest, CostAuctioneer.selectBest, dif_pos hempty] at h
      cases h
  | cons first rest =>
      have hcons : auctioneer.auction.candidates = first :: rest := hcandidates
      obtain ⟨c, hc, hselected⟩ := CostAuctioneer.exists_selectBest hcons draw choice request
      rw [onRequest, selectBest, hselected] at h
      rw [hcons] at hc
      exact ⟨c, hc, (Except.ok.inj h).symm⟩

/-- With no more candidates than there may be arms, the arms of the candidates never meet the
limit. -/
theorem not_meets_limit {ω : Type*} {arms : Table Str (List ω)} {model : Str}
    {candidates : List RawScore}
    (hlength : candidates.length ≤ maxArms)
    (harms : ∀ other ∈ arms, other ∈ candidates.map RawScore.modelId)
    (hmodel : model ∈ candidates.map RawScore.modelId) :
    ¬ (model ∉ arms ∧ maxArms ≤ arms.size) := by
  rintro ⟨hnew, hfull⟩
  have hnodup : (model :: arms.keys).Nodup :=
    List.nodup_cons.mpr ⟨fun hkey => hnew (AList.mem_keys.mpr hkey), arms.keys_nodup⟩
  have hsubset : model :: arms.keys ⊆ candidates.map RawScore.modelId :=
    List.cons_subset.mpr ⟨hmodel, fun other hother => harms other (AList.mem_keys.mpr hother)⟩
  have hle := (List.subperm_of_subset hnodup hsubset).length_le
  have hsize : arms.keys.length = arms.size := List.length_map _
  rw [List.length_cons, List.length_map, hsize] at hle
  omega

/-! ### Requests in flight -/

/-- The auctioneer, and the requests that have passed it and may come back. -/
structure Auction (ω : Type*) where
  auctioneer : LearningAuctioneer ω
  inFlight : List UnifiedRequest

inductive AuctionOp where
  | onRequest (request : UnifiedRequest) (answer : Except Error UnifiedRequest)
  | onResponse (request : UnifiedRequest) (response : UnifiedResponse)
  /-- A failed call, a stream, a client that has gone: nothing comes back. -/
  | lost (request : UnifiedRequest)

section Steps

variable {K : Type*} [Field K] [LinearOrder K]

def Auction.start (config : LearningRouterConfig) (candidates : List RawScore) : Auction K :=
  ⟨.new config candidates, []⟩

inductive AuctionStep : Auction K → AuctionOp → Auction K → Prop
  | admitted (s : Auction K) (draw choice : ℚ) (request admitted : UnifiedRequest)
      (h : s.auctioneer.onRequest draw choice request = .ok admitted) :
      AuctionStep s (.onRequest request (.ok admitted))
        { s with inFlight := admitted :: s.inFlight }
  | refused (s : Auction K) (draw choice : ℚ) (request : UnifiedRequest) (e : Error)
      (h : s.auctioneer.onRequest draw choice request = .error e) :
      AuctionStep s (.onRequest request (.error e)) s
  | onResponse (s : Auction K) (before after : List UnifiedRequest) (request : UnifiedRequest)
      (response : UnifiedResponse) (h : s.inFlight = before ++ request :: after)
      (arms : Table Str (List K))
      (harms : arms.entries.Perm s.auctioneer.bandit.arms.entries) :
      AuctionStep s (.onResponse request response)
        ⟨(s.auctioneer.reorder arms).onResponse request response, before ++ after⟩
  | lost (s : Auction K) (before after : List UnifiedRequest) (request : UnifiedRequest)
      (h : s.inFlight = before ++ request :: after) :
      AuctionStep s (.lost request) { s with inFlight := before ++ after }

/-! ### What comes back -/

def AuctionOp.isResponse : AuctionOp → Bool
  | .onResponse _ _ => true
  | .onRequest _ _ | .lost _ => false

def AuctionOp.reward (model : Str) : AuctionOp → Option K
  | .onResponse request response =>
      if request.model.modelName = model then some (rewardOf response.latencyMs) else none
  | .onRequest _ _ | .lost _ => none

def responseCount (steps : List (Transition (Auction K) AuctionOp)) : ℕ :=
  steps.countP fun t => t.label.isResponse

def rewards (model : Str) : List (Transition (Auction K) AuctionOp) → List K
  | [] => []
  | t :: earlier => rewards model earlier ++ (t.label.reward model).toList

def windowOf (W : ℕ) (rewards : List K) : Option (List K) :=
  if rewards = [] then none else some (rewards.rtake W)

omit [Field K] [LinearOrder K] in
theorem windowOf_concat (W : ℕ) (rewards : List K) (reward : K) :
    some ((((windowOf W rewards).getD []) ++ [reward]).rtake W) =
      windowOf W (rewards ++ [reward]) := by
  rw [windowOf, windowOf, if_neg (List.append_ne_nil_of_right_ne_nil _ (List.cons_ne_nil _ _))]
  split_ifs with hempty
  · rw [hempty]
    rfl
  · rw [Option.getD_some, Bandit.rtake_rtake_concat]

/-! ### Runs -/

/-- The arms are those of the models that rewards have come back for, and each holds the latest of
them. -/
structure Learned (config : LearningRouterConfig) (candidates : List RawScore)
    (steps : List (Transition (Auction K) AuctionOp)) (s : Auction K) : Prop where
  sameConfig : s.auctioneer.config = config
  sameCandidates : s.auctioneer.candidates = candidates
  windowSize : s.auctioneer.bandit.windowSize = config.slidingWindowSize.getD 500
  total : s.auctioneer.bandit.totalObservations.toNat = min (responseCount steps) (2 ^ 64 - 1)
  inFlight : ∀ request ∈ s.inFlight, request.model.modelName ∈ candidates.map RawScore.modelId
  arms : ∀ model ∈ s.auctioneer.bandit.arms, model ∈ candidates.map RawScore.modelId
  window : candidates.length ≤ maxArms → ∀ model,
    s.auctioneer.bandit.arms.lookup model =
      windowOf (config.slidingWindowSize.getD 500) (rewards model steps)

variable {config : LearningRouterConfig} {candidates : List RawScore} {s s' : Auction K}
  {steps : List (Transition (Auction K) AuctionOp)} {op : AuctionOp}

theorem Learned.start (config : LearningRouterConfig) (candidates : List RawScore) :
    Learned config candidates [] (Auction.start config candidates : Auction K) where
  sameConfig := rfl
  sameCandidates := rfl
  windowSize := rfl
  total := rfl
  inFlight := fun _ h => nomatch h
  arms := fun model h => absurd h (AList.notMem_empty model)
  window := fun _ _ => rfl

theorem Learned.of_eq (hs : Learned config candidates steps s)
    (hauctioneer : s'.auctioneer = s.auctioneer) (hresponse : op.isResponse = false)
    (hinFlight : ∀ request ∈ s'.inFlight,
      request.model.modelName ∈ candidates.map RawScore.modelId) :
    Learned config candidates (⟨s, op, s'⟩ :: steps) s' := by
  have hcount : responseCount (⟨s, op, s'⟩ :: steps) = responseCount steps :=
    List.countP_cons_of_neg (by simp [hresponse])
  have hrewards (model : Str) : rewards model (⟨s, op, s'⟩ :: steps) = rewards model steps := by
    have hnone : (op.reward model : Option K) = none := by
      cases op with
      | onResponse => cases hresponse
      | onRequest | lost => rfl
    rw [rewards, hnone]
    exact List.append_nil _
  exact {
    sameConfig := hauctioneer ▸ hs.sameConfig
    sameCandidates := hauctioneer ▸ hs.sameCandidates
    windowSize := hauctioneer ▸ hs.windowSize
    total := by rw [hauctioneer, hcount, hs.total]
    inFlight := hinFlight
    arms := hauctioneer ▸ hs.arms
    window := fun hlength model => by rw [hauctioneer, hrewards, hs.window hlength] }

theorem mem_of_removed {inFlight before after : List UnifiedRequest}
    {request other : UnifiedRequest} (h : inFlight = before ++ request :: after)
    (hother : other ∈ before ++ after) : other ∈ inFlight :=
  h ▸ ((List.sublist_cons_self request after).append_left before).subset hother

theorem Learned.step (hs : Learned config candidates steps s) (h : AuctionStep s op s') :
    Learned config candidates (⟨s, op, s'⟩ :: steps) s' := by
  cases h with
  | admitted draw choice request admitted h =>
      refine hs.of_eq rfl rfl (List.forall_mem_cons.mpr ⟨?_, hs.inFlight⟩)
      obtain ⟨c, hc, rfl⟩ := LearningAuctioneer.model_of_onRequest h
      rw [hs.sameCandidates] at hc
      exact List.mem_map_of_mem hc
  | refused draw choice request e h => exact hs.of_eq rfl rfl hs.inFlight
  | lost before after request h =>
      exact hs.of_eq rfl rfl fun other hother => hs.inFlight other (mem_of_removed h hother)
  | onResponse before after request response h arms harms =>
      have hin : request.model.modelName ∈ candidates.map RawScore.modelId :=
        hs.inFlight request (h ▸ List.mem_append_right _ List.mem_cons_self)
      have hupdate : UpdateStep s.auctioneer.bandit
          ⟨request.model.modelName, rewardOf response.latencyMs⟩
          ((s.auctioneer.reorder arms).onResponse request response).bandit :=
        .update _ arms harms _
      refine ⟨hs.sameConfig, hs.sameCandidates, hupdate.windowSize.trans hs.windowSize, ?_,
        fun other hother => hs.inFlight other (mem_of_removed h hother), ?_, ?_⟩
      · have hcount (post : Auction K) :
            responseCount (⟨s, .onResponse request response, post⟩ :: steps) =
              responseCount steps + 1 := List.countP_cons_of_pos rfl
        rw [hupdate.totalObservations, hs.total, hcount]
        omega
      · intro model hmodel
        by_cases hself : model = request.model.modelName
        · rwa [hself]
        · obtain ⟨window, hwindow⟩ := AList.exists_lookup hmodel
          exact hs.arms model (AList.mem_of_lookup (hupdate.lookup_of_ne hself hwindow))
      · intro hlength model
        rw [rewards]
        by_cases hself : model = request.model.modelName
        · rw [hself, AuctionOp.reward, if_pos rfl, Option.toList_some, ← windowOf_concat,
            ← hs.window hlength, ← hs.windowSize]
          exact hupdate.lookup_self
        · rw [AuctionOp.reward, if_neg (Ne.symm hself), Option.toList_none, List.append_nil,
            ← hs.window hlength model]
          rcases hupdate.lookup_other with ⟨-, hkept⟩ | ⟨hfull, -⟩
          · exact hkept model hself
          · exact absurd hfull (not_meets_limit hlength hs.arms hin)

theorem Learned.of_run (run : Run AuctionStep (.start config candidates) steps s) :
    Learned config candidates steps s := by
  apply run.invariant_of_history (I := Learned config candidates)
  · exact .start config candidates
  · exact fun _ hs h => hs.step h

/-- What the selection sees of a run before it: how many responses have come back. -/
theorem Learned.cold (hs : Learned config candidates steps s)
    (hcold : responseCount steps < (config.warmupRequests.getD 100).toNat) :
    s.auctioneer.auction.bandit.totalObservations <
      s.auctioneer.auction.config.warmupRequests.getD 100 := by
  have htotal : s.auctioneer.auction.bandit.totalObservations.toNat = _ := hs.total
  have hconfig : s.auctioneer.auction.config = config.toCostRouterConfig :=
    congrArg LearningRouterConfig.toCostRouterConfig hs.sameConfig
  rw [BitVec.lt_def, htotal, hconfig]
  omega

/-- In every run of requests that pass and come back in any order, or do not come back: an admitted
request goes on as it came, but to one of the candidates, and to the first of them as long as fewer
responses than the warm-up takes have come back. And if there are no more candidates than there may
be arms, then the arms are those of the models that responses have come back for, and each window
holds the latest rewards of its model. -/
theorem auction_of_run (run : Run AuctionStep (.start config candidates) steps s) :
    (∀ t earlier, t :: earlier <:+ steps → ∀ request answer, t.label = .onRequest request answer →
      ∀ first rest, candidates = first :: rest → ∃ c ∈ candidates,
        answer = .ok { request with model := CostAuctioneer.toModelSpec c.modelId } ∧
          (responseCount earlier < (config.warmupRequests.getD 100).toNat → c = first)) ∧
      (candidates.length ≤ maxArms → ∀ model, s.auctioneer.bandit.arms.lookup model =
        windowOf (config.slidingWindowSize.getD 500) (rewards model steps)) := by
  refine ⟨?_, (Learned.of_run run).window⟩
  rintro ⟨pre, label, post⟩ earlier hsuffix request answer rfl first rest hcandidates
  obtain ⟨hbefore, hstep⟩ := run.before hsuffix
  have hs := Learned.of_run hbefore
  have hcons : pre.auctioneer.auction.candidates = first :: rest :=
    hs.sameCandidates.trans hcandidates
  have hpassed : AuctionStep pre (.onRequest request answer) post := hstep
  obtain ⟨draw, choice, hanswer⟩ :
      ∃ draw choice, pre.auctioneer.onRequest draw choice request = answer := by
    cases hpassed with
    | admitted draw choice _ admitted h => exact ⟨draw, choice, h⟩
    | refused draw choice _ e h => exact ⟨draw, choice, h⟩
  rw [LearningAuctioneer.onRequest, LearningAuctioneer.selectBest] at hanswer
  by_cases hcold : responseCount earlier < (config.warmupRequests.getD 100).toNat
  · rw [CostAuctioneer.selectBest_cold hcons (hs.cold hcold)] at hanswer
    exact ⟨first, hcandidates ▸ List.mem_cons_self, hanswer.symm, fun _ => rfl⟩
  · obtain ⟨c, hc, hselected⟩ := CostAuctioneer.exists_selectBest hcons draw choice request
    rw [hselected] at hanswer
    rw [hcons, ← hcandidates] at hc
    exact ⟨c, hc, hanswer.symm, fun h => absurd h hcold⟩

/-! ### A run -/

theorem auction_of_run_twice :
    ∃ (steps : List (Transition (Auction ℚ) AuctionOp)) (s : Auction ℚ),
      Run AuctionStep (.start {} CostAuctioneer.twoCandidates.candidates) steps s ∧
      ∀ model, s.auctioneer.bandit.arms.lookup model = windowOf 500 (rewards model steps) := by
  have start : Run AuctionStep
      (.start {} CostAuctioneer.twoCandidates.candidates : Auction ℚ) [] _ := .nil
  have run := start
    |>.snoc (.admitted _ 0 0 CostAuctioneer.anyModel _ rfl)
    |>.snoc (.admitted _ 0 0 CostAuctioneer.anyModel _ rfl)
    |>.snoc (.onResponse _ [] _ _ ⟨[], [], ⟨0, 0, 0⟩, [], 40, none⟩ rfl _ (.refl _))
  exact ⟨_, _, run, (auction_of_run run).2 (by decide)⟩

end Steps

end NeuRust.Router
