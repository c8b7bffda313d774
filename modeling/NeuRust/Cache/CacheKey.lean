import NeuRust.Contracts

/-!
The bytes that a cache key is the hash of. Three texts of any length are written one after the
other, then the message count, then the temperature and the token limit if they are set; nothing
marks where one ends. Two requests that differ in these fields can write the same bytes in two
ways only: they cut the same text differently (`Recut`), or one has an optional field that the
other has not, whose bytes the other has at the end of its text (`Reread`).
-/

namespace NeuRust.Cache

open Utf8

/-! ### Fixed-width numbers -/

/-- `n.to_le_bytes()` of a number of `w` bytes. -/
def leBytes : ℕ → ℕ → List UInt8
  | 0, _ => []
  | w + 1, n => n.toUInt8 :: leBytes w (n / 256)

@[simp] theorem length_leBytes (w n : ℕ) : (leBytes w n).length = w := by
  induction w generalizing n with
  | zero => rfl
  | succ w ih => rw [leBytes, List.length_cons, ih]

theorem leBytes_inj {w m n : ℕ} (hm : m < 256 ^ w) (hn : n < 256 ^ w)
    (h : leBytes w m = leBytes w n) : m = n := by
  induction w generalizing m n with
  | zero =>
      rw [pow_zero] at hm hn
      omega
  | succ w ih =>
      obtain ⟨hlow, hhigh⟩ := List.cons.inj h
      have hdiv : m / 256 = n / 256 := by
        apply ih _ _ hhigh
        · rw [pow_succ] at hm
          omega
        · rw [pow_succ] at hn
          omega
      have hmod : m % 256 = n % 256 := by
        simpa using congrArg UInt8.toNat hlow
      omega

/-- The bytes of a number that may be absent. -/
def optBytes (w : ℕ) (n : Option ℕ) : List UInt8 := n.elim [] (leBytes w)

theorem optBytes_inj {w : ℕ} {m n : Option ℕ} (hm : ∀ x, m = some x → x < 256 ^ w)
    (hn : ∀ x, n = some x → x < 256 ^ w) (hsome : m.isSome = n.isSome)
    (h : optBytes w m = optBytes w n) : m = n := by
  cases m with
  | none =>
      cases n with
      | none => rfl
      | some y => cases hsome
  | some x =>
      cases n with
      | none => cases hsome
      | some y => exact congrArg some (leBytes_inj (hm x rfl) (hn y rfl) h)

/-! ### The key -/

/-- The bytes written to the hasher, write by write. -/
def keyWrites (request : UnifiedRequest) : List (List UInt8) :=
  [encode request.systemMessageText, encode request.lastUserMessage,
    encode request.model.modelName, leBytes 8 request.messages.length] ++
  (match request.temperature with
    | some temp => [leBytes 8 temp.bits.toNat]
    | none => []) ++
  (match request.maxTokens with
    | some maxTokens => [leBytes 4 maxTokens.toNat]
    | none => [])

def keyBytes (request : UnifiedRequest) : List UInt8 := (keyWrites request).flatten

def computeCacheKey {κ : Type*} (hash : List UInt8 → κ) (request : UnifiedRequest) : κ :=
  hash (keyBytes request)

/-- The fields that the key is documented to cover. -/
structure SameFields (r₁ r₂ : UnifiedRequest) : Prop where
  system : r₁.systemMessageText = r₂.systemMessageText
  user : r₁.lastUserMessage = r₂.lastUserMessage
  model : r₁.model.modelName = r₂.model.modelName
  count : r₁.messages.length = r₂.messages.length
  temperature : r₁.temperature = r₂.temperature
  maxTokens : r₁.maxTokens = r₂.maxTokens

/-! ### The two parts of the bytes -/

def keyText (request : UnifiedRequest) : Str :=
  request.systemMessageText ++ request.lastUserMessage ++ request.model.modelName

def keyTail (request : UnifiedRequest) : List UInt8 :=
  leBytes 8 request.messages.length ++
    optBytes 8 ((request.temperature.map F64.bits).map BitVec.toNat) ++
    optBytes 4 (request.maxTokens.map BitVec.toNat)

theorem keyBytes_eq (request : UnifiedRequest) :
    keyBytes request = encode (keyText request) ++ keyTail request := by
  rw [keyBytes, keyWrites, keyText, keyTail]
  cases request.temperature <;> cases request.maxTokens <;> simp [optBytes]

def tailLength (hasTemperature hasMaxTokens : Bool) : ℕ :=
  8 + (if hasTemperature then 8 else 0) + (if hasMaxTokens then 4 else 0)

theorem length_keyTail (request : UnifiedRequest) :
    (keyTail request).length =
      tailLength request.temperature.isSome request.maxTokens.isSome := by
  rw [keyTail]
  cases request.temperature <;> cases request.maxTokens <;> simp [optBytes, tailLength]

theorem tailLength_inj : ∀ a b c d : Bool, tailLength a b = tailLength c d → a = c ∧ b = d := by
  decide

/-- The length of the tail tells which optional fields are set. -/
theorem isSome_eq_of_length {r₁ r₂ : UnifiedRequest}
    (h : (keyTail r₁).length = (keyTail r₂).length) :
    r₁.temperature.isSome = r₂.temperature.isSome ∧
      r₁.maxTokens.isSome = r₂.maxTokens.isSome := by
  rw [length_keyTail, length_keyTail] at h
  exact tailLength_inj _ _ _ _ h

theorem keyTail_inj {r₁ r₂ : UnifiedRequest} (h : keyTail r₁ = keyTail r₂) :
    r₁.messages.length = r₂.messages.length ∧ r₁.temperature = r₂.temperature ∧
      r₁.maxTokens = r₂.maxTokens := by
  obtain ⟨htempSome, hmaxSome⟩ := isSome_eq_of_length (congrArg List.length h)
  have htempLen : (optBytes 8 ((r₁.temperature.map F64.bits).map BitVec.toNat)).length =
      (optBytes 8 ((r₂.temperature.map F64.bits).map BitVec.toNat)).length := by
    cases htemp₁ : r₁.temperature <;> cases htemp₂ : r₂.temperature <;>
      simp_all [optBytes]
  rw [keyTail, keyTail] at h
  obtain ⟨hfront, hmax⟩ := List.append_inj h (by
    rw [List.length_append, List.length_append, length_leBytes, length_leBytes, htempLen])
  obtain ⟨hcount, htemp⟩ := List.append_inj hfront (by simp)
  have hbound {w : ℕ} {v : Option (BitVec w)} : ∀ x, v.map BitVec.toNat = some x → x < 2 ^ w := by
    intro x hx
    obtain ⟨y, -, rfl⟩ := Option.map_eq_some_iff.mp hx
    exact y.isLt
  have htoNat {w : ℕ} : Function.Injective (Option.map (BitVec.toNat (w := w))) :=
    Option.map_injective fun _ _ => BitVec.eq_of_toNat_eq
  have hbits : Function.Injective F64.bits := fun x y hxy => by
    cases x
    cases y
    exact congrArg F64.mk hxy
  refine ⟨leBytes_inj r₁.messages_lt r₂.messages_lt hcount, ?_, ?_⟩
  · apply Option.map_injective hbits
    exact htoNat (optBytes_inj (w := 8) hbound hbound (by simpa using htempSome) htemp)
  · exact htoNat (optBytes_inj (w := 4) hbound hbound (by simpa using hmaxSome) hmax)

theorem SameFields.keyTail_eq {r₁ r₂ : UnifiedRequest} (h : SameFields r₁ r₂) :
    keyTail r₁ = keyTail r₂ := by
  rw [keyTail, keyTail, h.count, h.temperature, h.maxTokens]

/-! ### Which requests share a key -/

/-- The requests agree on everything but on where the system text, the user text and the model
name are cut out of the same text. -/
structure Recut (r₁ r₂ : UnifiedRequest) : Prop where
  text : keyText r₁ = keyText r₂
  count : r₁.messages.length = r₂.messages.length
  temperature : r₁.temperature = r₂.temperature
  maxTokens : r₁.maxTokens = r₂.maxTokens
  cut : ¬ (r₁.systemMessageText = r₂.systemMessageText ∧
    r₁.lastUserMessage = r₂.lastUserMessage ∧ r₁.model.modelName = r₂.model.modelName)

/-- The numbers of the first request start with bytes that the second one has at the end of its
texts. -/
def Reread (r₁ r₂ : UnifiedRequest) : Prop :=
  ∃ w, w ≠ [] ∧ encode (keyText r₂) = encode (keyText r₁) ++ w ∧ keyTail r₁ = w ++ keyTail r₂

theorem Recut.keyBytes_eq {r₁ r₂ : UnifiedRequest} (h : Recut r₁ r₂) :
    keyBytes r₁ = keyBytes r₂ := by
  rw [Cache.keyBytes_eq, Cache.keyBytes_eq, h.text, keyTail, keyTail, h.count, h.temperature,
    h.maxTokens]

theorem Reread.keyBytes_eq {r₁ r₂ : UnifiedRequest} (h : Reread r₁ r₂) :
    keyBytes r₁ = keyBytes r₂ := by
  obtain ⟨w, -, htext, htail⟩ := h
  rw [Cache.keyBytes_eq, Cache.keyBytes_eq, htext, htail, List.append_assoc]

theorem Reread.not_sameFields {r₁ r₂ : UnifiedRequest} (h : Reread r₁ r₂) :
    ¬ SameFields r₁ r₂ := by
  intro hsame
  obtain ⟨w, hw, -, htail⟩ := h
  rw [hsame.keyTail_eq] at htail
  exact hw (List.self_eq_append_left.mp htail)

theorem SameFields.symm {r₁ r₂ : UnifiedRequest} (h : SameFields r₁ r₂) : SameFields r₂ r₁ :=
  ⟨h.system.symm, h.user.symm, h.model.symm, h.count.symm, h.temperature.symm, h.maxTokens.symm⟩

/-- Two requests for which the same bytes are hashed agree on the covered fields, unless one is a
recut or a reread of the other. -/
theorem keyBytes_determine_iff (r₁ r₂ : UnifiedRequest) :
    (keyBytes r₁ = keyBytes r₂ → SameFields r₁ r₂) ↔
      ¬ Recut r₁ r₂ ∧ ¬ Reread r₁ r₂ ∧ ¬ Reread r₂ r₁ := by
  constructor
  · intro h
    refine ⟨?_, ?_, ?_⟩
    · intro hrecut
      have hsame := h hrecut.keyBytes_eq
      exact hrecut.cut ⟨hsame.system, hsame.user, hsame.model⟩
    · exact fun hreread => hreread.not_sameFields (h hreread.keyBytes_eq)
    · exact fun hreread => hreread.not_sameFields (h hreread.keyBytes_eq.symm).symm
  · rintro ⟨hrecut, hreread, hreread'⟩ hbytes
    rw [keyBytes_eq, keyBytes_eq] at hbytes
    -- the shorter text ends inside the longer one, or the texts are the same
    obtain ⟨htext, htail⟩ : encode (keyText r₁) = encode (keyText r₂) ∧
        keyTail r₁ = keyTail r₂ := by
      rcases List.append_eq_append_iff.mp hbytes with ⟨w, htext, htail⟩ | ⟨w, htext, htail⟩
      · by_cases hw : w = []
        · rw [hw, List.append_nil] at htext
          rw [hw, List.nil_append] at htail
          exact ⟨htext.symm, htail⟩
        · exact absurd ⟨w, hw, htext, htail⟩ hreread
      · by_cases hw : w = []
        · rw [hw, List.append_nil] at htext
          rw [hw, List.nil_append] at htail
          exact ⟨htext, htail.symm⟩
        · exact absurd ⟨w, hw, htext, htail⟩ hreread'
    obtain ⟨hcount, htemp, hmax⟩ := keyTail_inj htail
    by_cases hcut : r₁.systemMessageText = r₂.systemMessageText ∧
        r₁.lastUserMessage = r₂.lastUserMessage ∧ r₁.model.modelName = r₂.model.modelName
    · exact ⟨hcut.1, hcut.2.1, hcut.2.2, hcount, htemp, hmax⟩
    · exact absurd ⟨encode_injective htext, hcount, htemp, hmax, hcut⟩ hrecut

/-- A system message and a user message with the same text give the same bytes. -/
theorem system_and_user_share_key :
    ¬ ∀ r₁ r₂ : UnifiedRequest, keyBytes r₁ = keyBytes r₂ → SameFields r₁ r₂ := by
  intro h
  let model : ModelSpec := ⟨"gpt-4o".toList, none⟩
  let r₁ : UnifiedRequest :=
    ⟨model, [⟨.system, "Hello".toList⟩], none, none, false, {}, ∅, by decide⟩
  let r₂ : UnifiedRequest :=
    ⟨model, [⟨.user, "Hello".toList⟩], none, none, false, {}, ∅, by decide⟩
  have hsame := h r₁ r₂ (by decide +kernel)
  have hsystem : r₁.systemMessageText ≠ r₂.systemMessageText := by decide +kernel
  exact hsystem hsame.system

end NeuRust.Cache
