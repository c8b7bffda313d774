import NeuRust.Security.PiiDetector

/-!
The check of API keys. Every configured key is compared with the one that came in, and the last
entry that matches gives the name. A key that matches none is cut after four bytes for the log.
-/

namespace NeuRust.Gateway

open Utf8 Security

/-! ### The check -/

structure ApiKeyEntry where
  key : Str
  name : Str
  rateLimit : Option (BitVec 32)

structure AuthConfig where
  apiKeys : Option (List ApiKeyEntry)

structure ApiKeyInfo where
  key : Str
  name : Str
  rateLimit : Option (BitVec 32)

structure AuthManager where
  apiKeys : List ApiKeyInfo

inductive NeuRustError where
  | provider (message : Str)
  | config (message : Str)
  | auth (message : Str)
  | pipeline (message : Str)
  | noProvider (model : Str)
  | rateLimited
  deriving DecidableEq

namespace AuthManager

def fromConfig (config : Option AuthConfig) : AuthManager where
  apiKeys := ((config.bind AuthConfig.apiKeys).map fun keys =>
    keys.map fun k => ApiKeyInfo.mk k.key k.name k.rateLimit).getD []

/-- `k.key.as_bytes().ct_eq(key.as_bytes())` -/
def ctEq (a b : Str) : Bool := encode a == encode b

/-- The name left after all keys have been looked at. -/
def matchedName (keys : List ApiKeyInfo) (key : Str) : Option Str :=
  keys.foldl (fun matched k => if ctEq k.key key then some k.name else matched) none

/-- The arguments of the warning are evaluated, which can panic. -/
def validateKey (manager : AuthManager) (key : Str) : Checked (Except NeuRustError Str) := do
  if manager.apiKeys.isEmpty then return .ok "anonymous".toList
  match matchedName manager.apiKeys key with
  | some name => return .ok name
  | none =>
      let _keyPrefix ← strRange key 0 (min (byteLen key) 4)
      return .error (.auth "Invalid API key".toList)

end AuthManager

/-! ### The verdict -/

def configuredKeys (config : Option AuthConfig) : List ApiKeyEntry :=
  (config.bind AuthConfig.apiKeys).getD []

/-- A key is accepted when none is configured or when it is a configured one, under the name of
such an entry; any other key is rejected. -/
structure KeyVerdict (config : Option AuthConfig) (key : Str) (r : Except NeuRustError Str) :
    Prop where
  accepts : (∃ name, r = .ok name) ↔
    configuredKeys config = [] ∨ ∃ entry ∈ configuredKeys config, entry.key = key
  name : ∀ name, r = .ok name → configuredKeys config = [] ∧ name = "anonymous".toList ∨
    ∃ entry ∈ configuredKeys config, entry.key = key ∧ entry.name = name
  rejects : ∀ e, r = .error e → e = .auth "Invalid API key".toList

namespace AuthManager

theorem fromConfig_apiKeys (config : Option AuthConfig) :
    (fromConfig config).apiKeys =
      (configuredKeys config).map fun k => ApiKeyInfo.mk k.key k.name k.rateLimit := by
  rw [fromConfig, configuredKeys]
  cases config.bind AuthConfig.apiKeys with
  | none => rfl
  | some keys => rfl

@[simp] theorem ctEq_iff {a b : Str} : ctEq a b = true ↔ a = b := by
  rw [ctEq, beq_iff_eq]
  exact encode_injective.eq_iff

theorem matchedName_eq (keys : List ApiKeyInfo) (key : Str) :
    matchedName keys key = ((keys.filter fun k => k.key = key).getLast?).map ApiKeyInfo.name := by
  induction keys using List.reverseRecOn with
  | nil => rfl
  | append_singleton keys k ih =>
      rw [matchedName, List.foldl_append, List.filter_append]
      by_cases hk : k.key = key
      · simp [hk]
      · have hrest : matchedName keys key = _ := ih
        simpa [hk, matchedName] using hrest

theorem matchedName_eq_none_iff {keys : List ApiKeyInfo} {key : Str} :
    matchedName keys key = none ↔ ∀ k ∈ keys, k.key ≠ key := by
  rw [matchedName_eq]
  simp

theorem of_matchedName_eq_some {keys : List ApiKeyInfo} {key name : Str}
    (h : matchedName keys key = some name) : ∃ k ∈ keys, k.key = key ∧ k.name = name := by
  rw [matchedName_eq] at h
  obtain ⟨k, hk, rfl⟩ := Option.map_eq_some_iff.mp h
  have hmem := List.mem_filter.mp (List.mem_of_getLast? hk)
  exact ⟨k, hmem.1, of_decide_eq_true hmem.2, rfl⟩

theorem exists_strRange_iff {key : Str} :
    (∃ s, strRange key 0 (min (byteLen key) 4) = .ok s) ↔
      IsCharBoundary key (min (byteLen key) 4) := by
  have hsome := @slice_isSome_iff key 0 (min (byteLen key) 4)
  simp only [Nat.zero_le, isCharBoundary_zero, true_and] at hsome
  rw [← hsome, strRange]
  cases slice key 0 (min (byteLen key) 4) with
  | none => simp
  | some s => simp

section

variable {config : Option AuthConfig} {key : Str}

theorem validateKey_of_nil (h : configuredKeys config = []) :
    (fromConfig config).validateKey key = .ok (.ok "anonymous".toList) := by
  rw [validateKey, fromConfig_apiKeys, h]
  rfl

theorem validateKey_of_some (h : configuredKeys config ≠ []) {name : Str}
    (hname : matchedName (fromConfig config).apiKeys key = some name) :
    (fromConfig config).validateKey key = .ok (.ok name) := by
  rw [validateKey, hname, fromConfig_apiKeys]
  simp [h]
  rfl

/-- A key that matches no entry is cut for the log first. -/
theorem validateKey_of_none (h : configuredKeys config ≠ [])
    (hnone : matchedName (fromConfig config).apiKeys key = none) :
    (fromConfig config).validateKey key =
      (strRange key 0 (min (byteLen key) 4)).map fun _ =>
        .error (.auth "Invalid API key".toList) := by
  rw [validateKey, hnone, fromConfig_apiKeys]
  simp [h]
  rfl

theorem fromConfig_matches_iff :
    (∃ name, matchedName (fromConfig config).apiKeys key = some name) ↔
      ∃ entry ∈ configuredKeys config, entry.key = key := by
  rw [← Option.isSome_iff_exists, ← Option.ne_none_iff_isSome, Ne, matchedName_eq_none_iff,
    fromConfig_apiKeys]
  simp

theorem verdict_anonymous (h : configuredKeys config = []) :
    KeyVerdict config key (.ok "anonymous".toList) where
  accepts := ⟨fun _ => .inl h, fun _ => ⟨_, rfl⟩⟩
  name := fun _ heq => .inl ⟨h, (Except.ok.inj heq).symm⟩
  rejects := nofun

theorem verdict_named {name : Str}
    (hname : matchedName (fromConfig config).apiKeys key = some name) :
    KeyVerdict config key (.ok name) where
  accepts := ⟨fun _ => .inr (fromConfig_matches_iff.mp ⟨name, hname⟩), fun _ => ⟨name, rfl⟩⟩
  name := by
    intro name' heq
    obtain rfl := Except.ok.inj heq
    obtain ⟨k, hk, hkey, hk'⟩ := of_matchedName_eq_some hname
    rw [fromConfig_apiKeys] at hk
    obtain ⟨entry, hentry, rfl⟩ := List.mem_map.mp hk
    exact .inr ⟨entry, hentry, hkey, hk'⟩
  rejects := nofun

theorem verdict_rejected (h : configuredKeys config ≠ [])
    (hnone : ¬ ∃ entry ∈ configuredKeys config, entry.key = key) :
    KeyVerdict config key (.error (.auth "Invalid API key".toList)) where
  accepts := ⟨nofun, fun hkey => absurd hkey (not_or.mpr ⟨h, hnone⟩)⟩
  name := nofun
  rejects := fun _ heq => (Except.error.inj heq).symm

/-- For every configuration and key, the check returns with the verdict exactly when no key is
configured, the key is a configured one, or its fourth byte ends a character. -/
theorem validateKey_verdict_iff (config : Option AuthConfig) (key : Str) :
    (∃ r, (fromConfig config).validateKey key = .ok r ∧ KeyVerdict config key r) ↔
      configuredKeys config = [] ∨ (∃ entry ∈ configuredKeys config, entry.key = key) ∨
        IsCharBoundary key (min (byteLen key) 4) := by
  by_cases hconfigured : configuredKeys config = []
  · rw [validateKey_of_nil hconfigured]
    exact iff_of_true ⟨_, rfl, verdict_anonymous hconfigured⟩ (.inl hconfigured)
  cases hname : matchedName (fromConfig config).apiKeys key with
  | some name =>
      rw [validateKey_of_some hconfigured hname]
      exact iff_of_true ⟨_, rfl, verdict_named hname⟩
        (.inr (.inl (fromConfig_matches_iff.mp ⟨name, hname⟩)))
  | none =>
      have hno : ¬ ∃ entry ∈ configuredKeys config, entry.key = key := by
        rw [← fromConfig_matches_iff, hname]
        simp
      rw [validateKey_of_none hconfigured hname, ← exists_strRange_iff]
      simp only [hconfigured, hno, false_or]
      constructor
      · rintro ⟨r, hr, -⟩
        cases hs : strRange key 0 (min (byteLen key) 4) with
        | ok s => exact ⟨s, rfl⟩
        | error e =>
            rw [hs] at hr
            cases hr
      · rintro ⟨s, hs⟩
        rw [hs]
        exact ⟨_, rfl, verdict_rejected hconfigured hno⟩

/-- A wrong key whose second character takes bytes 3 to 5 makes the check panic. -/
theorem wrong_key_panics :
    ¬ ∀ (config : Option AuthConfig) (key : Str),
      ∃ r, (fromConfig config).validateKey key = .ok r ∧ KeyVerdict config key r := by
  intro h
  obtain ⟨r, hr, -⟩ := h (some ⟨some [⟨"sk-test-123".toList, "test-client".toList, none⟩]⟩)
    "키키".toList
  have hpanic : (fromConfig (some ⟨some [⟨"sk-test-123".toList, "test-client".toList, none⟩]⟩)
      ).validateKey "키키".toList = .error .charBoundary := by
    decide +kernel
  rw [hpanic] at hr
  cases hr

end

end AuthManager

end NeuRust.Gateway
