import NeuRust.Gateway.Http

/-!
Which keys a request can show, and whom they identify. The middleware and the authentication
manager decide alike, and what the middleware hands on never makes the manager panic.
-/

namespace NeuRust.Gateway

open Utf8

/-! ### What a header can say -/

def isVisible (c : Char) : Bool := (decide (32 ≤ c.toNat) && decide (c.toNat < 127)) || c == '\t'

theorem toNat_ofUInt8 (b : UInt8) : (Char.ofUInt8 b).toNat = b.toNat := by
  have hval : (Char.ofUInt8 b).val = b.toUInt32 := rfl
  rw [Char.toNat, hval, UInt8.toNat_toUInt32]

theorem isVisible_ofUInt8 (b : UInt8) : isVisible (Char.ofUInt8 b) = isVisibleAscii b := by
  have htab : (Char.ofUInt8 b == '\t') = (b == 9) := by
    rw [Bool.eq_iff_iff, beq_iff_eq, beq_iff_eq, ← Char.toNat_inj, toNat_ofUInt8, ← UInt8.toNat_inj]
    rfl
  rw [isVisible, isVisibleAscii, toNat_ofUInt8, htab]

theorem toNat_lt_of_isVisibleAscii {b : UInt8} (h : isVisibleAscii b = true) : b.toNat < 128 := by
  rw [isVisibleAscii, Bool.or_eq_true, Bool.and_eq_true, decide_eq_true_eq, decide_eq_true_eq,
    beq_iff_eq] at h
  rcases h with ⟨-, hlt⟩ | rfl
  · omega
  · decide

theorem toNat_lt_of_isVisible {c : Char} (h : isVisible c = true) : c.toNat < 128 := by
  rw [isVisible, Bool.or_eq_true, Bool.and_eq_true, decide_eq_true_eq, decide_eq_true_eq,
    beq_iff_eq] at h
  rcases h with ⟨-, hlt⟩ | rfl
  · omega
  · decide

theorem isHeaderByte_of_isVisibleAscii {b : UInt8} (h : isVisibleAscii b = true) :
    isHeaderByte b = true := by
  rw [isVisibleAscii, Bool.or_eq_true, Bool.and_eq_true, decide_eq_true_eq, decide_eq_true_eq] at h
  rw [isHeaderByte, Bool.or_eq_true, Bool.and_eq_true, decide_eq_true_eq, decide_eq_true_eq]
  rcases h with ⟨hle, hlt⟩ | htab
  · exact .inl ⟨hle, by omega⟩
  · exact .inr htab

theorem encode_map_ofUInt8 {bytes : List UInt8} (h : bytes.all isVisibleAscii = true) :
    encode (bytes.map Char.ofUInt8) = bytes := by
  induction bytes with
  | nil => rfl
  | cons b bytes ih =>
      rw [List.all_cons, Bool.and_eq_true] at h
      have hbyte := utf8EncodeChar_ofUInt8 (toNat_lt_of_isVisibleAscii h.1)
      rw [List.map_cons, encode_cons, ih h.2, hbyte]
      rfl

theorem exists_bytes {s : Str} (h : s.all isVisible = true) :
    ∃ bytes : List UInt8, bytes.all isVisibleAscii = true ∧ bytes.map Char.ofUInt8 = s := by
  induction s with
  | nil => exact ⟨[], rfl, rfl⟩
  | cons c s ih =>
      rw [List.all_cons, Bool.and_eq_true] at h
      obtain ⟨bytes, hbytes, hmap⟩ := ih h.2
      have hc : Char.ofUInt8 (UInt8.ofNat c.toNat) = c := by
        rw [← Char.toNat_inj, toNat_ofUInt8, UInt8.toNat_ofNat']
        exact Nat.mod_eq_of_lt (lt_trans (toNat_lt_of_isVisible h.1) (by norm_num))
      refine ⟨UInt8.ofNat c.toNat :: bytes, ?_, ?_⟩
      · rw [List.all_cons, ← isVisible_ofUInt8, hc, h.1, hbytes]
        rfl
      · rw [List.map_cons, hc, hmap]

namespace HeaderValue

theorem of_toStr {value : HeaderValue} {s : Str} (h : value.toStr = some s) :
    value.bytes.all isVisibleAscii = true ∧ s = value.bytes.map Char.ofUInt8 := by
  rw [toStr] at h
  split at h
  next hvisible => exact ⟨hvisible, (Option.some.inj h).symm⟩
  next => cases h

/-- A text that was read from a header goes back into one as it was. -/
theorem fromStr_of_toStr {value : HeaderValue} {s : Str} (h : value.toStr = some s) :
    fromStr s = some value := by
  obtain ⟨hvisible, rfl⟩ := of_toStr h
  have hencode := encode_map_ofUInt8 hvisible
  rw [fromStr, dif_pos (by rw [hencode]; exact value.valid)]
  cases value
  simpa using hencode

/-- The texts that a header can carry. -/
theorem exists_toStr_iff {s : Str} : (∃ value, toStr value = some s) ↔ s.all isVisible = true := by
  constructor
  · rintro ⟨value, h⟩
    obtain ⟨hvisible, rfl⟩ := of_toStr h
    rw [List.all_map]
    simpa only [Function.comp_def, isVisible_ofUInt8] using hvisible
  · intro h
    obtain ⟨bytes, hbytes, rfl⟩ := exists_bytes h
    have hvalid : bytes.all isHeaderByte = true := by
      rw [List.all_eq_true] at hbytes ⊢
      exact fun b hb => isHeaderByte_of_isVisibleAscii (hbytes b hb)
    exact ⟨⟨bytes, hvalid⟩, if_pos hbytes⟩

end HeaderValue

/-! ### Tokens -/

def keyRequest (route : Route) (value : HeaderValue) : HttpRequest where
  route := route
  headers := [("x-api-key".toList, value)]
  body := []

theorem text_eq_some {headers : HeaderMap} {name s : Str} (h : headers.text name = some s) :
    ∃ value, HeaderValue.toStr value = some s := by
  obtain ⟨value, -, hvalue⟩ := Option.bind_eq_some_iff.mp h
  exact ⟨value, hvalue⟩

/-- A token has been trimmed, out of a visible text. -/
theorem of_extractToken {req : HttpRequest} {token : Str} (h : extractToken req = some token) :
    token.all isVisible = true ∧ trim token = token := by
  obtain ⟨text, htext, rfl⟩ : ∃ text : Str, text.all isVisible = true ∧ trim text = token := by
    rw [extractToken] at h
    split at h
    next rest hrest =>
      obtain ⟨text, htext, hstrip⟩ := Option.bind_eq_some_iff.mp hrest
      have hvisible := HeaderValue.exists_toStr_iff.mp (text_eq_some htext)
      rw [stripPrefix_eq_some_iff.mp hstrip, List.all_append, Bool.and_eq_true] at hvisible
      exact ⟨rest, hvisible.2, Option.some.inj h⟩
    next =>
      obtain ⟨text, htext, rfl⟩ := Option.map_eq_some_iff.mp h
      exact ⟨text, HeaderValue.exists_toStr_iff.mp (text_eq_some htext), rfl⟩
  refine ⟨?_, trim_trim text⟩
  rw [List.all_eq_true] at htext ⊢
  exact fun c hc => htext c (mem_of_mem_trim hc)

/-- The keys that a request can show. -/
theorem exists_extractToken_iff {key : Str} (route : Route) :
    (∃ req, req.route = route ∧ extractToken req = some key) ↔
      key.all isVisible = true ∧ trim key = key := by
  constructor
  · rintro ⟨req, -, h⟩
    exact of_extractToken h
  · rintro ⟨hvisible, htrim⟩
    obtain ⟨value, hvalue⟩ := HeaderValue.exists_toStr_iff.mpr hvisible
    refine ⟨keyRequest route value, rfl, ?_⟩
    have hauth : (keyRequest route value).headers.text "authorization".toList = none := rfl
    have hkey : (keyRequest route value).headers.text "x-api-key".toList = value.toStr := rfl
    rw [extractToken, hauth, hkey, hvalue, Option.bind_none, Option.map_some, htrim]

/-! ### Identities -/

/-- The last entry with the token as its key. -/
theorem matchedEntry_eq_some_iff {apiKeys : List ApiKeyEntry} {token : Str} {entry : ApiKeyEntry} :
    matchedEntry apiKeys token = some entry ↔ ∃ before after, apiKeys = before ++ entry :: after ∧
      entry.key = token ∧ ∀ later ∈ after, later.key ≠ token := by
  induction apiKeys using List.reverseRecOn with
  | nil => simp [matchedEntry]
  | append_singleton apiKeys last ih =>
      rw [matchedEntry, List.foldl_append, List.foldl_cons, List.foldl_nil]
      by_cases hlast : last.key = token
      · rw [if_pos (AuthManager.ctEq_iff.mpr hlast)]
        constructor
        · intro h
          obtain rfl := Option.some.inj h
          exact ⟨apiKeys, [], rfl, hlast, by simp⟩
        · rintro ⟨before, after, heq, -, hafter⟩
          rcases List.eq_nil_or_concat after with rfl | ⟨rest, x, rfl⟩
          · rw [List.append_singleton_inj.mp heq |>.2]
          · rw [List.concat_eq_append, ← List.cons_append, ← List.append_assoc,
              List.append_singleton_inj] at heq
            exact absurd (heq.2 ▸ hlast) (hafter x (by simp))
      · rw [if_neg (mt AuthManager.ctEq_iff.mp hlast)]
        rw [matchedEntry] at ih
        rw [ih]
        constructor
        · rintro ⟨before, after, rfl, hentry, hafter⟩
          refine ⟨before, after ++ [last], by simp, hentry, ?_⟩
          intro later hlater
          rcases List.mem_append.mp hlater with hmem | hmem
          · exact hafter later hmem
          · rwa [List.mem_singleton.mp hmem]
        · rintro ⟨before, after, heq, hentry, hafter⟩
          rcases List.eq_nil_or_concat after with rfl | ⟨rest, x, rfl⟩
          · exact absurd ((List.append_singleton_inj.mp heq).2 ▸ hentry) hlast
          · rw [List.concat_eq_append, ← List.cons_append, ← List.append_assoc,
              List.append_singleton_inj] at heq
            exact ⟨before, rest, heq.1, hentry, fun later hlater => hafter later (by simp [hlater])⟩

theorem matchedEntry_eq_none_iff {apiKeys : List ApiKeyEntry} {token : Str} :
    matchedEntry apiKeys token = none ↔ ∀ entry ∈ apiKeys, entry.key ≠ token := by
  induction apiKeys using List.reverseRecOn with
  | nil => simp [matchedEntry]
  | append_singleton apiKeys last ih =>
      rw [matchedEntry, List.foldl_append, List.foldl_cons, List.foldl_nil, List.forall_mem_append,
        List.forall_mem_singleton]
      by_cases hlast : last.key = token
      · rw [if_pos (AuthManager.ctEq_iff.mpr hlast)]
        simp [hlast]
      · rw [if_neg (mt AuthManager.ctEq_iff.mp hlast), ← ih]
        simp [hlast, matchedEntry]

section

variable {κ ε σ : Type*} {app : HttpApp κ ε σ} {req : HttpRequest} {token : Str}

/-- The route asks for a key, and there are keys. -/
def Guarded (app : HttpApp κ ε σ) (req : HttpRequest) : Prop :=
  configuredKeys app.auth ≠ [] ∧ req.route.path ∉ openPaths

theorem authorize_of_not_guarded (h : ¬ Guarded app req) : authorize app req = .ok none := by
  rw [authorize]
  by_cases hkeys : configuredKeys app.auth = []
  · rw [hkeys]
    rfl
  · have hroute : req.route.path ∈ openPaths := not_not.mp fun hroute => h ⟨hkeys, hroute⟩
    simp only [List.isEmpty_iff, hkeys, if_false, hroute, if_true]

theorem authorize_of_guarded (h : Guarded app req) :
    authorize app req = match extractToken req with
      | some token =>
          match matchedEntry (configuredKeys app.auth) token with
          | some entry => .ok (some ⟨entry.name, entry.rateLimit⟩)
          | none => .error invalidKey
      | none => .error missingKey := by
  have hkeys : ¬ (configuredKeys app.auth).isEmpty = true := by
    rw [List.isEmpty_iff]
    exact h.1
  exact (if_neg hkeys).trans (if_neg h.2)

theorem authorize_eq_client_iff {client : ClientIdentity} :
    authorize app req = .ok (some client) ↔ Guarded app req ∧ ∃ token entry,
      extractToken req = some token ∧
        matchedEntry (configuredKeys app.auth) token = some entry ∧
          client = ⟨entry.name, entry.rateLimit⟩ := by
  by_cases hguard : Guarded app req
  · rw [authorize_of_guarded hguard]
    constructor
    · intro h
      split at h
      next token htoken =>
        split at h
        next entry hentry =>
          exact ⟨hguard, token, entry, htoken, hentry, (Option.some.inj (Except.ok.inj h)).symm⟩
        next => cases h
      next => cases h
    · rintro ⟨-, token, entry, htoken, hentry, rfl⟩
      simp only [htoken, hentry]
  · rw [authorize_of_not_guarded hguard]
    simp [hguard]

/-- Clients are identified by the last entry of each key that is visible ASCII without white space
at its ends. All other entries are never used, whatever is sent. -/
theorem exists_authorize_client_iff (app : HttpApp κ ε σ) (client : ClientIdentity) :
    (∃ req, authorize app req = .ok (some client)) ↔
      ∃ before entry after, configuredKeys app.auth = before ++ entry :: after ∧
        (∀ later ∈ after, later.key ≠ entry.key) ∧ entry.key.all isVisible = true ∧
          trim entry.key = entry.key ∧ client = ⟨entry.name, entry.rateLimit⟩ := by
  constructor
  · rintro ⟨req, h⟩
    obtain ⟨-, token, entry, htoken, hentry, hclient⟩ := authorize_eq_client_iff.mp h
    obtain ⟨before, after, hsplit, rfl, hafter⟩ := matchedEntry_eq_some_iff.mp hentry
    obtain ⟨hvisible, htrim⟩ := of_extractToken htoken
    exact ⟨before, entry, after, hsplit, hafter, hvisible, htrim, hclient⟩
  · rintro ⟨before, entry, after, hsplit, hafter, hvisible, htrim, hclient⟩
    obtain ⟨req, hroute, htoken⟩ :=
      (exists_extractToken_iff .listModels).mpr ⟨hvisible, htrim⟩
    have hguard : Guarded app req := by
      rw [Guarded, hroute, hsplit]
      exact ⟨by simp, by decide⟩
    have hentry := matchedEntry_eq_some_iff.mpr ⟨before, after, hsplit, rfl, hafter⟩
    exact ⟨req, authorize_eq_client_iff.mpr ⟨hguard, entry.key, entry, htoken, hentry, hclient⟩⟩

/-! ### The authentication manager -/

/-- The manager's answer that goes with a decision of the middleware. -/
def managerVerdict : Except Str (Option ClientIdentity) → Except NeuRustError Str
  | .ok client => .ok ((client.map ClientIdentity.name).getD "anonymous".toList)
  | .error _ => .error (.auth "Invalid API key".toList)

theorem matchedName_fromConfig (config : Option AuthConfig) (token : Str) :
    AuthManager.matchedName (AuthManager.fromConfig config).apiKeys token =
      (matchedEntry (configuredKeys config) token).map ApiKeyEntry.name := by
  rw [AuthManager.fromConfig_apiKeys, AuthManager.matchedName, matchedEntry, List.foldl_map]
  -- the two accumulators stay in step
  suffices h : ∀ (keys : List ApiKeyEntry) (matched : Option ApiKeyEntry),
      keys.foldl (fun name entry => if AuthManager.ctEq entry.key token then some entry.name
          else name) (matched.map ApiKeyEntry.name) =
        (keys.foldl (fun matched entry => if AuthManager.ctEq entry.key token then some entry
          else matched) matched).map ApiKeyEntry.name from h _ none
  intro keys
  induction keys with
  | nil => exact fun matched => rfl
  | cons entry keys ih =>
      intro matched
      rw [List.foldl_cons, List.foldl_cons, ← ih]
      split_ifs <;> rfl

theorem byteLen_of_visible {s : Str} (h : s.all isVisible = true) : byteLen s = s.length := by
  induction s with
  | nil => rfl
  | cons c s ih =>
      rw [List.all_cons, Bool.and_eq_true] at h
      have hsize : c.utf8Size = 1 := by
        rw [Char.utf8Size_eq_one_iff, UInt32.le_iff_toNat_le]
        exact Nat.le_of_lt_succ (toNat_lt_of_isVisible h.1)
      rw [byteLen_cons, hsize, ih h.2, List.length_cons, Nat.add_comm]

/-- Every cut of a visible text falls between two characters. -/
theorem isCharBoundary_of_visible {s : Str} (h : s.all isVisible = true) {n : ℕ}
    (hn : n ≤ byteLen s) : IsCharBoundary s n := by
  rw [byteLen_of_visible h] at hn
  have htake : (s.take n).all isVisible = true := by
    rw [List.all_eq_true] at h ⊢
    exact fun c hc => h c (List.mem_of_mem_take hc)
  have hlength : byteLen (s.take n) = n := by
    rw [byteLen_of_visible htake, List.length_take, min_eq_left hn]
  have hboundary := isCharBoundary_append (s.take n) (s.drop n)
  rwa [List.take_append_drop, hlength] at hboundary

/-- Whatever key the middleware reads from a request to a guarded path, the manager answers for it
without a panic, and as the middleware decides. -/
theorem validateKey_eq_managerVerdict (app : HttpApp κ ε σ) {req : HttpRequest} {token : Str}
    (hroute : req.route.path ∉ openPaths) (htoken : extractToken req = some token) :
    (AuthManager.fromConfig app.auth).validateKey token =
      .ok (managerVerdict (authorize app req)) := by
  by_cases hkeys : configuredKeys app.auth = []
  · rw [AuthManager.validateKey_of_nil hkeys, authorize_of_not_guarded fun h => h.1 hkeys]
    rfl
  · have hdecision := authorize_of_guarded ⟨hkeys, hroute⟩
    have hname := matchedName_fromConfig app.auth token
    cases hentry : matchedEntry (configuredKeys app.auth) token with
    | some entry =>
        simp only [htoken, hentry] at hdecision
        rw [hentry] at hname
        rw [AuthManager.validateKey_of_some hkeys hname, hdecision]
        rfl
    | none =>
        simp only [htoken, hentry] at hdecision
        rw [hentry] at hname
        have hboundary := isCharBoundary_of_visible (of_extractToken htoken).1
          (min_le_left (byteLen token) 4)
        obtain ⟨s, hs⟩ := AuthManager.exists_strRange_iff.mpr hboundary
        rw [AuthManager.validateKey_of_none hkeys hname, hs, hdecision]
        rfl

end

def twoEntries : HttpApp Unit Unit Unit where
  providers := []
  config := []
  hasher := fun _ => ()
  embedding := ⟨fun _ => none, fun _ _ => 0⟩
  auth := some ⟨some [⟨"sk-1".toList, "first".toList, none⟩, ⟨"sk-1".toList, "last".toList, none⟩]⟩
  parseBody := fun _ _ => .error ⟨400, []⟩

def paddedKey : HeaderValue := ⟨encode " sk-1 ".toList, by decide⟩

theorem validateKey_paddedKey :
    (AuthManager.fromConfig twoEntries.auth).validateKey "sk-1".toList =
      .ok (managerVerdict (authorize twoEntries (keyRequest .listModels paddedKey))) :=
  validateKey_eq_managerVerdict twoEntries (by decide) (by decide)

example : managerVerdict (authorize twoEntries (keyRequest .listModels paddedKey)) =
    .ok "last".toList := by rfl

end NeuRust.Gateway
