import NeuRust.Cache.CacheKey

/-!
What the two providers send upstream, against what the cache key covers. The key covers of the
conversation its system text, its length and its last user message; the bodies carry all of it. So
for two requests that agree on the covered fields the bodies are the same exactly when the rest
of the conversation is.
-/

namespace NeuRust.Provider

open Cache

/-! ### The bodies -/

structure OpenAiMessage where
  role : Str
  content : Str
  deriving DecidableEq

structure OpenAiRequest where
  model : Str
  messages : List OpenAiMessage
  temperature : Option F64
  maxTokens : Option (BitVec 32)
  stream : Bool
  deriving DecidableEq

structure AnthropicMessage where
  role : Str
  content : Str
  deriving DecidableEq

structure AnthropicRequest where
  model : Str
  system : Option Str
  messages : List AnthropicMessage
  maxTokens : BitVec 32
  temperature : Option F64
  stream : Bool
  deriving DecidableEq

def roleName : Role → Str
  | .system => "system".toList
  | .user => "user".toList
  | .assistant => "assistant".toList

/-- `OpenAiProvider::build_request_body` -/
def openAiRequestBody (request : UnifiedRequest) : OpenAiRequest where
  model := request.model.modelName
  messages := request.messages.map fun m => ⟨roleName m.role, m.content⟩
  temperature := request.temperature
  maxTokens := request.maxTokens
  stream := request.stream

/-- `AnthropicProvider::build_request_body` -/
def anthropicRequestBody (request : UnifiedRequest) : AnthropicRequest where
  model := request.model.modelName
  system := if request.systemMessageText.isEmpty then none else some request.systemMessageText
  messages := (request.messages.filter fun m => m.role ≠ .system).map fun m =>
    ⟨roleName m.role, m.content⟩
  maxTokens := request.maxTokens.getD 4096
  temperature := request.temperature
  stream := request.stream

/-- Both bodies carry the same model, messages and sampling parameters. -/
structure SameUpstream (r₁ r₂ : UnifiedRequest) : Prop where
  openAi : { openAiRequestBody r₁ with stream := r₂.stream } = openAiRequestBody r₂
  anthropic : { anthropicRequestBody r₁ with stream := r₂.stream } = anthropicRequestBody r₂

theorem roleName_injective : Function.Injective roleName := by
  intro a b h
  cases a <;> cases b <;> first | rfl | exact absurd h (by decide +kernel)

/-! ### The rest of the conversation -/

def blankUser : List Message → List (Option Message)
  | [] => []
  | m :: ms => if m.role = .user then none :: ms.map some else some m :: blankUser ms

def history (request : UnifiedRequest) : List (Option Message) :=
  (blankUser request.messages.reverse).reverse

/-- The first user message, put back in its place, restores the messages. -/
theorem blankUser_inj {ms ms' : List Message} (h : blankUser ms = blankUser ms')
    (huser : ((ms.find? fun m => m.role = .user).map Message.content).getD [] =
      ((ms'.find? fun m => m.role = .user).map Message.content).getD []) : ms = ms' := by
  induction ms generalizing ms' with
  | nil =>
      cases ms' with
      | nil => rfl
      | cons m' ms' =>
          rw [blankUser, blankUser] at h
          split at h <;> cases h
  | cons m ms ih =>
      cases ms' with
      | nil =>
          rw [blankUser, blankUser] at h
          split at h <;> cases h
      | cons m' ms' =>
          rw [blankUser, blankUser] at h
          by_cases hm : m.role = .user
          · rw [if_pos hm] at h
            by_cases hm' : m'.role = .user
            · rw [if_pos hm'] at h
              have hrest : ms = ms' :=
                List.map_injective_iff.mpr (fun _ _ => Option.some.inj) (List.cons.inj h).2
              simp only [List.find?_cons, hm, hm', decide_true, Option.map_some,
                Option.getD_some] at huser
              obtain ⟨role, content⟩ := m
              obtain ⟨role', content'⟩ := m'
              rw [hrest]
              simp only at hm hm' huser
              rw [hm, hm', huser]
            · rw [if_neg hm'] at h
              cases (List.cons.inj h).1
          · rw [if_neg hm] at h
            by_cases hm' : m'.role = .user
            · rw [if_pos hm'] at h
              cases (List.cons.inj h).1
            · rw [if_neg hm'] at h
              obtain ⟨hhead, htail⟩ := List.cons.inj h
              simp only [List.find?_cons, hm, hm', decide_false] at huser
              rw [Option.some.inj hhead, ih htail huser]

theorem messages_eq_iff {r₁ r₂ : UnifiedRequest} (huser : r₁.lastUserMessage = r₂.lastUserMessage) :
    r₁.messages = r₂.messages ↔ history r₁ = history r₂ := by
  constructor
  · intro h
    rw [history, history, h]
  · intro h
    exact List.reverse_injective (blankUser_inj (List.reverse_injective h) huser)

/-- For two requests that agree on the fields of the cache key, the upstream bodies are the same
exactly when the conversations are the same apart from their last user message. -/
theorem sameUpstream_iff {r₁ r₂ : UnifiedRequest} (h : SameFields r₁ r₂) :
    SameUpstream r₁ r₂ ↔ history r₁ = history r₂ := by
  rw [← messages_eq_iff h.user]
  constructor
  · intro hsame
    have hmessages := congrArg OpenAiRequest.messages hsame.openAi
    apply List.map_injective_iff.mpr _ hmessages
    rintro ⟨role, content⟩ ⟨role', content'⟩ heq
    have hrole : role = role' := roleName_injective (OpenAiMessage.mk.inj heq).1
    have hcontent : content = content' := (OpenAiMessage.mk.inj heq).2
    rw [hrole, hcontent]
  · intro hmessages
    constructor
    · simp only [openAiRequestBody, hmessages, h.model, h.temperature, h.maxTokens]
    · simp only [anthropicRequestBody, hmessages, h.system, h.model, h.temperature, h.maxTokens]

def twoTurns (topic : String) (providerId : Option Str) (stream : Bool) : UnifiedRequest where
  model := ⟨"gpt-4o".toList, providerId⟩
  messages := [⟨.user, topic.toList⟩, ⟨.assistant, "Yes?".toList⟩, ⟨.user, "Tell me more".toList⟩]
  temperature := none
  maxTokens := none
  stream := stream
  messages_lt := by simp

theorem sameUpstream_routed :
    SameUpstream (twoTurns "Whales" none true)
      (twoTurns "Whales" (some "openai".toList) false) := by
  have hfields : SameFields (twoTurns "Whales" none true)
      (twoTurns "Whales" (some "openai".toList) false) :=
    ⟨rfl, rfl, rfl, rfl, rfl, rfl⟩
  exact (sameUpstream_iff hfields).mpr rfl

/-- Two conversations that begin differently and end with the same message. -/
theorem earlier_turns_not_covered :
    ¬ ∀ r₁ r₂ : UnifiedRequest, SameFields r₁ r₂ → SameUpstream r₁ r₂ := by
  intro h
  have hfields : SameFields (twoTurns "Whales" none false) (twoTurns "Taxes" none false) :=
    ⟨rfl, rfl, rfl, rfl, rfl, rfl⟩
  have hmessages := congrArg OpenAiRequest.messages (h _ _ hfields).openAi
  have hdiffer : (openAiRequestBody (twoTurns "Whales" none false)).messages ≠
      (openAiRequestBody (twoTurns "Taxes" none false)).messages := by
    decide +kernel
  exact hdiffer hmessages

end NeuRust.Provider
