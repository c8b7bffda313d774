import NeuRust.Contracts
import NeuRust.Machine.FilterOrAll
import NeuRust.Text.Utf8
import Mathlib.Algebra.Order.Floor.Semiring
import Mathlib.Data.List.Forall2
import Mathlib.Data.List.Infix
import Mathlib.Data.Rat.Floor

/-!
The gate in front of the router. A request is classified by the tokens of its messages, and the
models that are offered for it are chosen by their names. Tokens are computed exactly; lowercasing a
name is a parameter.
-/

namespace NeuRust.Router

open Utf8 (byteLen)

inductive ComplexityLevel where
  | simple
  | medium
  | complex
  deriving DecidableEq, Repr

namespace ComplexityLevel

def rank : ComplexityLevel → ℕ
  | simple => 0
  | medium => 1
  | complex => 2

instance : LE ComplexityLevel := ⟨fun level level' => level.rank ≤ level'.rank⟩

theorem simple_le (level : ComplexityLevel) : simple ≤ level := Nat.zero_le level.rank

theorem le_complex (level : ComplexityLevel) : level ≤ complex := by
  show level.rank ≤ 2
  cases level <;> decide

theorem le_refl (level : ComplexityLevel) : level ≤ level := Nat.le_refl level.rank

end ComplexityLevel

structure ComplexityGateConfig where
  simpleMaxTokens : ℕ := 200
  complexMinTokens : ℕ := 2000
  systemPromptWeight : ℚ := 1.5

structure ComplexityGate where
  config : ComplexityGateConfig

/-- Four bytes are a token, and every text has one. -/
def estimateTokens (text : Str) : ℕ := max (byteLen text / 4) 1

namespace ComplexityGate

def weigh (gate : ComplexityGate) (msg : Message) : ℚ :=
  let msgTokens := estimateTokens msg.content
  if msg.role = .system then msgTokens * gate.config.systemPromptWeight else msgTokens

def estimate (gate : ComplexityGate) (estimatedTokens : ℚ) (messages : List Message) : ℚ :=
  messages.foldl (fun estimatedTokens msg => estimatedTokens + gate.weigh msg) estimatedTokens

def hasTools (request : UnifiedRequest) : Bool :=
  "tools".toList ∈ request.extraParams || "functions".toList ∈ request.extraParams ||
    "tool_choice".toList ∈ request.extraParams

def boost (messageCount : ℕ) (estimatedTokens : ℚ) : ℚ :=
  if 10 < messageCount then estimatedTokens * 1.3
  else if 5 < messageCount then estimatedTokens * 1.1
  else estimatedTokens

/-- `as usize`, which truncates and saturates -/
def asUsize (x : ℚ) : ℕ := min ⌊x⌋₊ (2 ^ 64 - 1)

def levelOf (gate : ComplexityGate) (total : ℕ) : ComplexityLevel :=
  if total ≤ gate.config.simpleMaxTokens then .simple
  else if gate.config.complexMinTokens ≤ total then .complex
  else .medium

def classify (gate : ComplexityGate) (request : UnifiedRequest) : ComplexityLevel :=
  let estimatedTokens := gate.estimate 0 request.messages
  if hasTools request then .complex
  else gate.levelOf (asUsize (boost request.messages.length estimatedTokens))

def nameContains (toLowercase : Str → Str) (parts : List Str) (model : ModelSpec) : Bool :=
  let name := toLowercase model.modelName
  parts.any fun part => part <:+: name

def simpleNames : List Str := ["nano".toList, "mini".toList, "haiku".toList]

def mediumNames : List Str :=
  ["mini".toList, "haiku".toList, "sonnet".toList, "4o".toList, "4.1".toList]

def filterModels (toLowercase : Str → Str) (level : ComplexityLevel) (models : List ModelSpec) :
    List ModelSpec :=
  if models.isEmpty then []
  else
    let filtered :=
      match level with
      | .simple => models.filter (nameContains toLowercase simpleNames)
      | .medium => models.filter (nameContains toLowercase mediumNames)
      | .complex => models
    if filtered.isEmpty then models else filtered

end ComplexityGate

/-! ### Growing requests -/

/-- The message is of the same role, and it is not shorter. -/
structure Grows (message message' : Message) : Prop where
  role : message.role = message'.role
  length : byteLen message.content ≤ byteLen message'.content

/-- Messages are inserted, some of those there are made longer, and parameters are added. -/
structure Extends (request request' : UnifiedRequest) : Prop where
  messages : List.SublistForall₂ Grows request.messages request'.messages
  extraParams : ∀ key ∈ request.extraParams, key ∈ request'.extraParams

theorem estimateTokens_mono {text text' : Str} (h : byteLen text ≤ byteLen text') :
    estimateTokens text ≤ estimateTokens text' :=
  max_le_max (Nat.div_le_div_right h) le_rfl

namespace ComplexityGate

variable {gate : ComplexityGate} {messages messages' : List Message}

theorem weigh_nonneg (hweight : 0 ≤ gate.config.systemPromptWeight) (msg : Message) :
    0 ≤ gate.weigh msg := by
  simp only [weigh]
  split
  · exact mul_nonneg (Nat.cast_nonneg _) hweight
  · exact Nat.cast_nonneg _

theorem weigh_mono (hweight : 0 ≤ gate.config.systemPromptWeight) {message message' : Message}
    (h : Grows message message') : gate.weigh message ≤ gate.weigh message' := by
  have htokens : (estimateTokens message.content : ℚ) ≤ estimateTokens message'.content :=
    Nat.cast_le.mpr (estimateTokens_mono h.length)
  simp only [weigh, h.role]
  by_cases hsystem : message'.role = .system
  · rw [if_pos hsystem, if_pos hsystem]
    exact mul_le_mul_of_nonneg_right htokens hweight
  · rwa [if_neg hsystem, if_neg hsystem]

theorem le_estimate (hweight : 0 ≤ gate.config.systemPromptWeight) (messages : List Message)
    (x : ℚ) : x ≤ gate.estimate x messages := by
  induction messages generalizing x with
  | nil => exact le_rfl
  | cons message messages ih =>
      exact (le_add_of_nonneg_right (weigh_nonneg hweight message)).trans (ih _)

/-- Inserting and lengthening messages does not lower the estimate. -/
theorem estimate_mono (hweight : 0 ≤ gate.config.systemPromptWeight)
    (h : List.SublistForall₂ Grows messages messages') {x x' : ℚ} (hx : x ≤ x') :
    gate.estimate x messages ≤ gate.estimate x' messages' := by
  induction h generalizing x x' with
  | nil => exact hx.trans (le_estimate hweight _ x')
  | cons hgrows _ ih => exact ih (add_le_add hx (weigh_mono hweight hgrows))
  | cons_right _ ih => exact ih (hx.trans (le_add_of_nonneg_right (weigh_nonneg hweight _)))

theorem length_le_of_sublistForall₂ (h : List.SublistForall₂ Grows messages messages') :
    messages.length ≤ messages'.length := by
  obtain ⟨kept, hkept, hsublist⟩ := List.sublistForall₂_iff.mp h
  rw [hkept.length_eq]
  exact hsublist.length_le

theorem boost_mono {n n' : ℕ} (hn : n ≤ n') {x x' : ℚ} (hpos : 0 ≤ x) (hx : x ≤ x') :
    boost n x ≤ boost n' x' := by
  simp only [boost]
  -- the shorter conversation has no greater factor
  split_ifs <;> first | omega | linarith

theorem asUsize_mono {x x' : ℚ} (h : x ≤ x') : asUsize x ≤ asUsize x' :=
  min_le_min (Nat.floor_mono h) le_rfl

/-- The thresholds may be crossed: what is above the first one stays above it. -/
theorem levelOf_mono (gate : ComplexityGate) {total total' : ℕ} (h : total ≤ total') :
    gate.levelOf total ≤ gate.levelOf total' := by
  by_cases hsimple : total ≤ gate.config.simpleMaxTokens
  · rw [levelOf, if_pos hsimple]
    exact ComplexityLevel.simple_le _
  · have hsimple' : ¬ total' ≤ gate.config.simpleMaxTokens := fun hle => hsimple (h.trans hle)
    rw [levelOf, levelOf, if_neg hsimple, if_neg hsimple']
    by_cases hcomplex' : gate.config.complexMinTokens ≤ total'
    · rw [if_pos hcomplex']
      exact ComplexityLevel.le_complex _
    · rw [if_neg hcomplex', if_neg fun hle => hcomplex' (hle.trans h)]
      exact ComplexityLevel.le_refl _

theorem hasTools_of_extends {request request' : UnifiedRequest} (h : Extends request request')
    (htools : hasTools request = true) : hasTools request' = true := by
  simp only [hasTools, Bool.or_eq_true, decide_eq_true_eq] at htools ⊢
  exact htools.imp (Or.imp (h.extraParams _) (h.extraParams _)) (h.extraParams _)

theorem classify_of_tools {request : UnifiedRequest} (h : hasTools request = true) :
    gate.classify request = .complex := by
  simp [classify, h]

theorem classify_of_no_tools {request : UnifiedRequest} (h : hasTools request = false) :
    gate.classify request =
      gate.levelOf
        (asUsize (boost request.messages.length (gate.estimate 0 request.messages))) := by
  simp [classify, h]

/-- A request that grows is not classified lower. -/
theorem classify_mono {gate : ComplexityGate} {request request' : UnifiedRequest}
    (hweight : 0 ≤ gate.config.systemPromptWeight) (h : Extends request request') :
    gate.classify request ≤ gate.classify request' := by
  cases htools' : hasTools request' with
  | true =>
      rw [classify_of_tools htools']
      exact ComplexityLevel.le_complex _
  | false =>
      have htools : hasTools request = false :=
        Bool.eq_false_iff.mpr fun htools => by simp [hasTools_of_extends h htools] at htools'
      have hestimate := estimate_mono hweight h.messages (le_refl 0)
      have hboost := boost_mono (length_le_of_sublistForall₂ h.messages)
        (le_estimate hweight request.messages 0) hestimate
      rw [classify_of_no_tools htools, classify_of_no_tools htools']
      exact levelOf_mono gate (asUsize_mono hboost)

def greeting : UnifiedRequest where
  model := ⟨"auto".toList, none⟩
  messages := [⟨.user, "Hello".toList⟩]
  temperature := none
  maxTokens := none
  stream := false

def conversation : UnifiedRequest where
  model := ⟨"auto".toList, none⟩
  messages := [⟨.system, "Answer in one line.".toList⟩, ⟨.user, "Hello, who are you?".toList⟩]
  temperature := none
  maxTokens := none
  stream := false

theorem classify_mono_greeting :
    (⟨{}⟩ : ComplexityGate).classify greeting ≤ (⟨{}⟩ : ComplexityGate).classify conversation := by
  have hweight : (0 : ℚ) ≤ 1.5 := by norm_num
  have hgrows : Grows ⟨.user, "Hello".toList⟩ ⟨.user, "Hello, who are you?".toList⟩ :=
    ⟨rfl, by decide⟩
  exact classify_mono hweight ⟨.cons_right (.cons hgrows .nil), nofun⟩

/-! ### The tiers of the models -/

def allowed (toLowercase : Str → Str) : ComplexityLevel → ModelSpec → Bool
  | .simple => nameContains toLowercase simpleNames
  | .medium => nameContains toLowercase mediumNames
  | .complex => fun _ => true

theorem filterModels_eq (toLowercase : Str → Str) (level : ComplexityLevel)
    (models : List ModelSpec) :
    filterModels toLowercase level models = filterOrAll (allowed toLowercase level) models := by
  cases models with
  | nil => rfl
  | cons model models => cases level <;> simp [filterModels, filterOrAll, allowed]

/-- Either no name is offered for medium requests, or each that is offered for simple ones is, and
all are if none is offered for simple ones. -/
def TiersNest (toLowercase : Str → Str) (models : List ModelSpec) : Prop :=
  (∀ m ∈ models, nameContains toLowercase mediumNames m = false) ∨
    (∀ m ∈ models, nameContains toLowercase simpleNames m = true →
        nameContains toLowercase mediumNames m = true) ∧
      ((∃ m ∈ models, nameContains toLowercase simpleNames m = true) ∨
        ∀ m ∈ models, nameContains toLowercase mediumNames m = true)

/-- What is offered for simple requests is offered for medium ones exactly when the tiers nest, and
what is offered for medium ones is offered for complex ones. Each offer keeps the order, and there
is one if there are models. -/
theorem filterModels_tiers (toLowercase : Str → Str) (models : List ModelSpec) :
    ((∀ m ∈ filterModels toLowercase .simple models, m ∈ filterModels toLowercase .medium models) ↔
        TiersNest toLowercase models) ∧
      (∀ m ∈ filterModels toLowercase .medium models,
        m ∈ filterModels toLowercase .complex models) ∧
      ∀ level, (filterModels toLowercase level models).Sublist models ∧
        (models ≠ [] → filterModels toLowercase level models ≠ []) := by
  simp only [filterModels_eq]
  refine ⟨filterOrAll_subset_iff, fun m hm => ?_, fun level => ?_⟩
  · exact mem_filterOrAll.mpr ⟨(filterOrAll_sublist _ models).mem hm, .inl rfl⟩
  · exact ⟨filterOrAll_sublist _ models, filterOrAll_ne_nil _⟩

/-- A nano model is offered for simple requests and denied for medium ones. -/
theorem nano_denied_for_medium :
    ¬ ∀ models : List ModelSpec,
      ∀ m ∈ filterModels (List.map Char.toLower) .simple models,
        m ∈ filterModels (List.map Char.toLower) .medium models := by
  intro h
  have hdenied : (⟨"gpt-5-nano".toList, none⟩ : ModelSpec) ∉
      filterModels (List.map Char.toLower) .medium
        [⟨"gpt-5-nano".toList, none⟩, ⟨"claude-sonnet-4-5".toList, none⟩] := by
    decide +kernel
  exact hdenied (h _ _ (by decide +kernel))

end ComplexityGate

end NeuRust.Router
