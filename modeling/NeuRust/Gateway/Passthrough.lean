import NeuRust.Gateway.Inference
import NeuRust.Provider.RequestBody

/-!
What becomes of a client's request on its way upstream. The gateway keeps the fields that it does
not know beside the others; the body that the provider sends has no place for them.
-/

namespace NeuRust.Gateway

open NeuRust.Provider

/-! ### The body as it is sent -/

def messageJson (message : Provider.OpenAiMessage) : Json :=
  .object [("role".toList, .string message.role), ("content".toList, .string message.content)]

def bodyFields (body : OpenAiRequest) : List (Str × Json) :=
  [("model".toList, .string body.model),
    ("messages".toList, .array (body.messages.map messageJson))] ++
  (body.temperature.map fun t => ("temperature".toList, Json.number (.float t))).toList ++
  (body.maxTokens.map fun n =>
    ("max_tokens".toList, Json.number (.posInt (n.setWidth 64)))).toList ++
  [("stream".toList, .bool body.stream)]

def fieldNames : List Str :=
  ["model".toList, "messages".toList, "temperature".toList, "max_tokens".toList, "stream".toList]

def roleNames : List Str := ["system".toList, "user".toList, "assistant".toList]

theorem mem_fieldNames_of_mem_bodyFields {body : OpenAiRequest} {field : Str × Json}
    (h : field ∈ bodyFields body) : field.1 ∈ fieldNames := by
  simp only [bodyFields, List.mem_append, List.mem_cons, List.not_mem_nil, or_false,
    Option.mem_toList, Option.map_eq_some_iff] at h
  rcases h with (((rfl | rfl) | ⟨t, -, rfl⟩) | ⟨n, -, rfl⟩) | rfl
  · exact List.mem_of_getElem? (i := 0) rfl
  · exact List.mem_of_getElem? (i := 1) rfl
  · exact List.mem_of_getElem? (i := 2) rfl
  · exact List.mem_of_getElem? (i := 3) rfl
  · exact List.mem_of_getElem? (i := 4) rfl

/-! ### From the client to the provider -/

/-- The request passes the checks, its roles are the known ones, and its extra fields are those
that it has no other place for, as `#[serde(flatten)]` collects them. -/
structure Accepted (req : ChatCompletionRequest) : Prop where
  valid : validationError req = none
  roles : ∀ message ∈ req.messages, message.role ∈ roleNames
  extra : ∀ name ∈ fieldNames, name ∉ req.extra

/-- The body carries all that the request holds. -/
structure Carries (req : ChatCompletionRequest) (body : OpenAiRequest) : Prop where
  model : body.model = req.model
  messages : body.messages.map (fun m => (m.role, m.content)) =
    req.messages.map fun m => (m.role, m.content)
  temperature : body.temperature = req.temperature
  maxTokens : body.maxTokens = req.maxTokens
  stream : body.stream = req.stream.getD false
  extra : ∀ name value, req.extra.lookup name = some value → (name, value) ∈ bodyFields body

theorem roleName_parseRole {role : Str} (h : role ∈ roleNames) :
    roleName (parseRole role) = role := by
  rw [roleNames, List.mem_cons, List.mem_cons, List.mem_singleton] at h
  rcases h with rfl | rfl | rfl
  · decide +kernel
  · decide +kernel
  · decide +kernel

theorem messages_kept {req : ChatCompletionRequest} (h : Accepted req) :
    (openAiRequestBody (toUnifiedRequest req)).messages.map (fun m => (m.role, m.content)) =
      req.messages.map fun m => (m.role, m.content) := by
  rw [openAiRequestBody, toUnifiedRequest, List.map_map, List.map_map]
  apply List.map_congr_left
  intro message hmessage
  show (roleName (parseRole message.role), message.content) = _
  rw [roleName_parseRole (h.roles message hmessage)]

/-- The body carries all of an accepted request exactly when the request has no extra fields. -/
theorem carries_iff {req : ChatCompletionRequest} (h : Accepted req) :
    Carries req (openAiRequestBody (toUnifiedRequest req)) ↔ req.extra = ∅ := by
  constructor
  · intro hcarries
    have hnone : ∀ name, name ∉ req.extra := by
      intro name hmem
      obtain ⟨value, hlookup⟩ := AList.exists_lookup hmem
      have hfield := mem_fieldNames_of_mem_bodyFields (hcarries.extra name value hlookup)
      exact h.extra name hfield hmem
    have hkeys : req.extra.keys = [] := List.eq_nil_iff_forall_not_mem.mpr hnone
    exact AList.ext (List.map_eq_nil_iff.mp hkeys)
  · intro hempty
    refine ⟨rfl, messages_kept h, rfl, rfl, rfl, ?_⟩
    intro name value hlookup
    rw [hempty] at hlookup
    cases hlookup

/-- What the body lacks is still there in the request that the provider is given. -/
theorem extraParams_toUnifiedRequest (req : ChatCompletionRequest) :
    (toUnifiedRequest req).extraParams = req.extra := rfl

/-! ### A request with an extra field -/

def plainRequest : ChatCompletionRequest where
  model := "gpt-4o".toList
  messages := [⟨"user".toList, "Hello".toList⟩]
  temperature := none
  maxTokens := none
  stream := none

theorem accepted_plainRequest : Accepted plainRequest where
  valid := rfl
  roles := by decide +kernel
  extra := by
    intro name _
    exact AList.notMem_empty name

theorem carries_plainRequest_iff :
    Carries plainRequest (openAiRequestBody (toUnifiedRequest plainRequest)) ↔
      plainRequest.extra = ∅ :=
  carries_iff accepted_plainRequest

def seededRequest : ChatCompletionRequest :=
  { plainRequest with extra := AList.singleton "seed".toList (.number (.posInt 7)) }

theorem accepted_seededRequest : Accepted seededRequest where
  valid := rfl
  roles := by decide +kernel
  extra := by decide +kernel

theorem extra_field_lost :
    ¬ ∀ req : ChatCompletionRequest, Accepted req →
      Carries req (openAiRequestBody (toUnifiedRequest req)) := by
  intro h
  have hfield : ("seed".toList, Json.number (.posInt 7)) ∈
      bodyFields (openAiRequestBody (toUnifiedRequest seededRequest)) :=
    (h seededRequest accepted_seededRequest).extra _ _ rfl
  have hname : "seed".toList ∈ fieldNames := mem_fieldNames_of_mem_bodyFields hfield
  revert hname
  decide +kernel

end NeuRust.Gateway
