import NeuRust.Security.PromptGuard
import NeuRust.Machine.Windows

/-!
The check of a response for the system prompt. The words of the prompt and of the response are
cut into stretches of four; the share of the prompt's stretches that the response has as well is
compared with the threshold. A prompt of fewer than four words has no stretch, and its share is 0.
-/

namespace NeuRust.Security

/-! ### The check -/

inductive OutputValidationResult where
  | pass
  | leak (overlapRatio threshold : ℚ)
  deriving DecidableEq

/-- The share of the `n`-grams of `source` that are in `target`. `windows(0)` panics, so that `n`
is positive. -/
def computeNgramOverlap {α : Type*} [DecidableEq α] (source target : List α) (n : ℕ+) : ℚ :=
  if source.length < n then 0
  else
    let sourceNgrams := (windows n source).toFinset
    let targetNgrams := (windows n target).toFinset
    if sourceNgrams = ∅ then 0
    else (sourceNgrams ∩ targetNgrams).card / sourceNgrams.card

def PromptGuard.validateOutput (guard : PromptGuard) (request : UnifiedRequest)
    (response : UnifiedResponse) : OutputValidationResult :=
  if !guard.config.outputValidation then .pass
  else
    let systemPrompt := request.systemMessageText
    if systemPrompt.isEmpty then .pass
    else
      let systemWords := splitWhitespace systemPrompt
      let responseWords := splitWhitespace response.content
      let overlapRatio := computeNgramOverlap systemWords responseWords 4
      let check (threshold : ℚ) : OutputValidationResult :=
        if threshold < overlapRatio then .leak overlapRatio threshold else .pass
      match guard.config.outputOverlapMode with
      | .ratio => check guard.config.outputOverlapThreshold
      | .absolute =>
          if systemWords.isEmpty then .pass
          else check (guard.config.outputOverlapThreshold / systemWords.length)

def OutputValidationResult.IsLeak : OutputValidationResult → Prop
  | .pass => False
  | .leak _ _ => True

/-! ### The overlap -/

section Overlap

variable {α : Type*} [DecidableEq α] (source target : List α) (n : ℕ+)

theorem computeNgramOverlap_of_lt {source : List α} (h : source.length < n) :
    computeNgramOverlap source target n = 0 :=
  if_pos h

theorem computeNgramOverlap_of_le {source : List α} (h : n ≤ source.length) :
    computeNgramOverlap source target n =
      share (windows n source).toFinset (windows n target).toFinset := by
  rw [computeNgramOverlap, if_neg (Nat.not_lt.mpr h)]
  exact if_neg (toFinset_windows_nonempty h).ne_empty

theorem computeNgramOverlap_mem_unit :
    0 ≤ computeNgramOverlap source target n ∧ computeNgramOverlap source target n ≤ 1 := by
  rcases Nat.lt_or_ge source.length n with h | h
  · rw [computeNgramOverlap_of_lt target n h]
    exact ⟨le_rfl, zero_le_one⟩
  · rw [computeNgramOverlap_of_le target n h]
    exact ⟨share_nonneg _ _, share_le_one _ _⟩

theorem computeNgramOverlap_eq_one_iff :
    computeNgramOverlap source target n = 1 ↔ n ≤ source.length ∧
      ∀ w : List α, w.length = n → w <:+: source → w <:+: target := by
  rcases Nat.lt_or_ge source.length n with h | h
  · rw [computeNgramOverlap_of_lt target n h]
    simp [Nat.not_le.mpr h]
  · rw [computeNgramOverlap_of_le target n h, share_eq_one_iff (toFinset_windows_nonempty h)]
    simp only [Finset.subset_iff, List.mem_toFinset, mem_windows_iff, h, true_and]
    constructor
    · exact fun hsub w hlen hw => (hsub ⟨hw, hlen⟩).1
    · exact fun hsub w hw => ⟨hsub w hw.2 hw.1, hw.2⟩

theorem computeNgramOverlap_mono {target target' : List α} (h : target <:+: target') :
    computeNgramOverlap source target n ≤ computeNgramOverlap source target' n := by
  rcases Nat.lt_or_ge source.length n with hlt | hle
  · rw [computeNgramOverlap_of_lt target n hlt, computeNgramOverlap_of_lt target' n hlt]
  · rw [computeNgramOverlap_of_le target n hle, computeNgramOverlap_of_le target' n hle]
    apply share_mono
    intro w hw
    rw [List.mem_toFinset] at hw ⊢
    exact windows_subset h n hw

end Overlap

/-! ### The verdict -/

/-- The threshold that an overlap has to exceed, if the options set one for so many words. -/
def PromptGuardOptions.Exceeds (options : PromptGuardOptions) (words : List Str) (overlap : ℚ) :
    Prop :=
  match options.outputOverlapMode with
  | .ratio => options.outputOverlapThreshold < overlap
  | .absolute => words ≠ [] ∧ options.outputOverlapThreshold / words.length < overlap

theorem PromptGuardOptions.Exceeds.mono {options : PromptGuardOptions} {words : List Str}
    {overlap overlap' : ℚ} (h : options.Exceeds words overlap) (hle : overlap ≤ overlap') :
    options.Exceeds words overlap' := by
  rw [Exceeds] at h ⊢
  cases hmode : options.outputOverlapMode with
  | ratio =>
      rw [hmode] at h
      exact lt_of_lt_of_le h hle
  | absolute =>
      rw [hmode] at h
      exact ⟨h.1, h.2.trans_le hle⟩

section

variable {guard : PromptGuard} {request : UnifiedRequest} {response : UnifiedResponse}

theorem isLeak_iff : (guard.validateOutput request response).IsLeak ↔
    guard.config.outputValidation = true ∧ request.systemMessageText ≠ [] ∧
      guard.config.Exceeds (splitWhitespace request.systemMessageText)
        (computeNgramOverlap (splitWhitespace request.systemMessageText)
          (splitWhitespace response.content) 4) := by
  have hcheck (overlap threshold : ℚ) :
      (if threshold < overlap then OutputValidationResult.leak overlap threshold
        else .pass).IsLeak ↔ threshold < overlap := by
    split_ifs with h <;> simp [OutputValidationResult.IsLeak, h]
  rw [PromptGuard.validateOutput, PromptGuardOptions.Exceeds]
  cases guard.config.outputValidation with
  | false => simp [OutputValidationResult.IsLeak]
  | true =>
      by_cases hprompt : request.systemMessageText = []
      · simp [hprompt, OutputValidationResult.IsLeak]
      · cases guard.config.outputOverlapMode with
        | ratio => simp [hprompt, hcheck]
        | absolute =>
            by_cases hwords : splitWhitespace request.systemMessageText = []
            · simp [hprompt, hwords, OutputValidationResult.IsLeak]
            · simp [hprompt, hwords, hcheck]

/-- A response that holds the words of the whole prompt is flagged exactly when the prompt has
four words or more, or when the threshold is negative. -/
theorem echo_isLeak_iff (hon : guard.config.outputValidation = true)
    (hmode : guard.config.outputOverlapMode = .ratio)
    (hthreshold : guard.config.outputOverlapThreshold < 1)
    (hwords : splitWhitespace request.systemMessageText ≠ [])
    (hecho : splitWhitespace request.systemMessageText <:+: splitWhitespace response.content) :
    (guard.validateOutput request response).IsLeak ↔
      4 ≤ (splitWhitespace request.systemMessageText).length ∨
        guard.config.outputOverlapThreshold < 0 := by
  have hprompt : request.systemMessageText ≠ [] := by
    intro hnil
    rw [hnil] at hwords
    exact hwords rfl
  rw [isLeak_iff, PromptGuardOptions.Exceeds, hmode]
  simp only [hon, hprompt, true_and, ne_eq, not_false_eq_true]
  rcases Nat.lt_or_ge (splitWhitespace request.systemMessageText).length 4 with hlt | hle
  · rw [computeNgramOverlap_of_lt _ 4 hlt]
    simp [Nat.not_le.mpr hlt]
  · have hone : computeNgramOverlap (splitWhitespace request.systemMessageText)
        (splitWhitespace response.content) 4 = 1 :=
      (computeNgramOverlap_eq_one_iff _ _ 4).mpr ⟨hle, fun w _ hw => hw.trans hecho⟩
    rw [hone]
    simp [hle, hthreshold]

end

def instructed (prompt : Str) : UnifiedRequest where
  model := ⟨"gpt-4o".toList, none⟩
  messages := [⟨.system, prompt⟩]
  temperature := none
  maxTokens := none
  stream := false
  messages_lt := by simp

def answering (content : Str) : UnifiedResponse :=
  ⟨content, "gpt-4o".toList, ⟨0, 0, 0⟩, "openai".toList, 0, none⟩

theorem echo_isLeak_five_words :
    ((PromptGuard.mk {}).validateOutput (instructed "You are a helpful assistant".toList)
        (answering "I was told: You are a helpful assistant".toList)).IsLeak ↔
      4 ≤ (splitWhitespace
          (instructed "You are a helpful assistant".toList).systemMessageText).length ∨
        (PromptGuard.mk {}).config.outputOverlapThreshold < 0 := by
  apply echo_isLeak_iff rfl rfl
  · decide +kernel
  · decide +kernel
  · exact ⟨["I".toList, "was".toList, "told:".toList], [], by decide +kernel⟩

/-- A prompt of three words is not recognised in a response that consists of it. -/
theorem short_prompt_leaks :
    ¬ ∀ (guard : PromptGuard) (request : UnifiedRequest) (response : UnifiedResponse),
      guard.config.outputValidation = true → guard.config.outputOverlapMode = .ratio →
      guard.config.outputOverlapThreshold < 1 →
      splitWhitespace request.systemMessageText ≠ [] →
      splitWhitespace request.systemMessageText <:+: splitWhitespace response.content →
      (guard.validateOutput request response).IsLeak := by
  intro h
  have hleak := h ⟨{}⟩ (instructed "Answer in French".toList)
    (answering "Answer in French".toList) rfl rfl (by decide +kernel) (by decide +kernel)
    List.infix_rfl
  have hpass : (PromptGuard.mk {}).validateOutput (instructed "Answer in French".toList)
      (answering "Answer in French".toList) = .pass := by
    decide +kernel
  rw [hpass] at hleak
  exact hleak

/-! ### More text around a response -/

def EndsInSpace (s : Str) : Prop := ∀ c, s.getLast? = some c → isWhitespace c = true

def StartsWithSpace (s : Str) : Prop := ∀ c, s.head? = some c → isWhitespace c = true

theorem splitWhitespace_append_left {before : Str} (h : EndsInSpace before) (s : Str) :
    splitWhitespace (before ++ s) = splitWhitespace before ++ splitWhitespace s := by
  induction before using List.reverseRecOn with
  | nil => rfl
  | append_singleton b c _ =>
      have hc : isWhitespace c = true := h c (by simp)
      rw [List.append_assoc, List.singleton_append, splitWhitespace_append_cons hc,
        splitWhitespace_append_cons hc, splitWhitespace_nil, List.append_nil]

theorem splitWhitespace_append_right {after : Str} (h : StartsWithSpace after) (s : Str) :
    splitWhitespace (s ++ after) = splitWhitespace s ++ splitWhitespace after := by
  cases after with
  | nil => simp
  | cons c after =>
      have hc : isWhitespace c = true := h c rfl
      have hself := splitWhitespace_append_cons hc [] after
      rw [List.nil_append, splitWhitespace_nil, List.nil_append] at hself
      rw [splitWhitespace_append_cons hc, hself]

/-- The overlap is a share; it is whole exactly when the source has `n` words and the target has
all of their `n`-grams, and it does not shrink when words are added around the target. So a
flagged response stays flagged when text is added around it, apart from it by white space. -/
theorem overlap_share_and_growth :
    (∀ (source target before after : List Str) (n : ℕ+),
      (0 ≤ computeNgramOverlap source target n ∧ computeNgramOverlap source target n ≤ 1) ∧
      (computeNgramOverlap source target n = 1 ↔ n ≤ source.length ∧
        ∀ w : List Str, w.length = n → w <:+: source → w <:+: target) ∧
      computeNgramOverlap source target n ≤
        computeNgramOverlap source (before ++ target ++ after) n) ∧
    ∀ (guard : PromptGuard) (request : UnifiedRequest) (response : UnifiedResponse)
      (before after : Str), EndsInSpace before → StartsWithSpace after →
      (guard.validateOutput request response).IsLeak →
      (guard.validateOutput request
        { response with content := before ++ response.content ++ after }).IsLeak := by
  constructor
  · intro source target before after n
    exact ⟨computeNgramOverlap_mem_unit source target n,
      computeNgramOverlap_eq_one_iff source target n,
      computeNgramOverlap_mono source n ⟨before, after, rfl⟩⟩
  · intro guard request response before after hbefore hafter hleak
    obtain ⟨hon, hprompt, hexceeds⟩ := isLeak_iff.mp hleak
    refine isLeak_iff.mpr ⟨hon, hprompt, hexceeds.mono ?_⟩
    apply computeNgramOverlap_mono
    show _ <:+: splitWhitespace (before ++ response.content ++ after)
    rw [splitWhitespace_append_right hafter, splitWhitespace_append_left hbefore]
    exact ⟨_, _, rfl⟩

end NeuRust.Security
