import NeuRust.Security.PiiPatterns

/-!
The scanners for resident, phone and card numbers report exactly the occurrences of their
patterns, and none of their reads panics. Each test of the source is in range because the guard
before it is, and computes a template; each loop is then a scan over the occurrences of its
pattern.
-/

namespace NeuRust.Security

open Utf8 Scan

/-! ### Checked reads that are in range -/

@[simp] theorem ok_bind {α β : Type} (a : α) (f : α → Checked β) :
    ((.ok a : Checked α) >>= f) = f a := rfl

@[simp] theorem pure_eq_ok {α : Type} (a : α) : (pure a : Checked α) = .ok a := rfl

section Reads

variable {bytes : List UInt8} {i : ℕ}

theorem getAt_of_lt {α : Type} {xs : List α} {i : ℕ} (h : i < xs.length) :
    getAt xs i = .ok xs[i] := by
  simp [getAt, h]

theorem byteIs_of_lt (h : i < bytes.length) (c : Char) :
    byteIs bytes i c = .ok ((bytes[i]?).any (· == c.toUInt8)) := by
  rw [byteIs, getAt_of_lt h, List.getElem?_eq_getElem h]
  rfl

theorem digitAt_of_lt (h : i < bytes.length) :
    digitAt bytes i = .ok ((bytes[i]?).any isAsciiDigit) := by
  rw [digitAt, getAt_of_lt h, List.getElem?_eq_getElem h]
  rfl

theorem digits_succ (n : ℕ) : digits (n + 1) = .digit :: digits n := rfl

theorem all_take_drop_eq_fitsAt (n : ℕ) (h : i + n ≤ bytes.length) :
    ((bytes.drop i).take n).all isAsciiDigit = fitsAt (digits n) bytes i := by
  induction n generalizing i with
  | zero => rfl
  | succ n ih =>
      have hi : i < bytes.length := by omega
      rw [List.drop_eq_getElem_cons hi, List.take_succ_cons, List.all_cons, ih (by omega),
        digits_succ, fitsAt_cons, List.getElem?_eq_getElem hi]
      rfl

theorem digitsIn_of_le {j : ℕ} (n : ℕ) (hj : j = i + n) (h : j ≤ bytes.length) :
    digitsIn bytes i j = .ok (fitsAt (digits n) bytes i) := by
  subst hj
  rw [digitsIn, getRange, if_pos ⟨by omega, h⟩, Nat.add_sub_cancel_left]
  exact congrArg Except.ok (all_take_drop_eq_fitsAt n h)

end Reads

@[simp] theorem allOf_nil : allOf [] = .ok true := rfl

@[simp] theorem allOf_cons_ok (b : Bool) (as : List (Checked Bool)) :
    allOf (.ok b :: as) = if b then allOf as else .ok false := rfl

theorem ite_ok_false (a b : Bool) :
    (if a then (.ok b : Checked Bool) else .ok false) = .ok (a && b) := by
  cases a <;> rfl

/-! ### The tests compute the templates -/

/-- A guard that keeps a template in range is false only where the template does not fit. -/
theorem fitsAt_eq_false {tpl : Template} {bytes : List UInt8} {i : ℕ} (hne : tpl ≠ [])
    (h : bytes.length < i + tpl.length) : fitsAt tpl bytes i = false := by
  by_contra hfit
  have := fitsAt_length_le hne (Bool.eq_true_of_not_eq_false hfit)
  omega

theorem mobileAt_eq (bytes : List UInt8) (i : ℕ) :
    mobileAt bytes i = .ok (fitsAt mobile bytes i) := by
  by_cases h : i + 13 ≤ bytes.length
  · rw [mobileAt, byteIs_of_lt (by omega), byteIs_of_lt (by omega), byteIs_of_lt (by omega),
      byteIs_of_lt (by omega), digitsIn_of_le 4 (by omega) (by omega), byteIs_of_lt (by omega),
      digitsIn_of_le 4 (by omega) (by omega)]
    simp [h, ite_ok_false, mobile, fitsAt_append, fitsAt_cons, Nat.add_assoc]
  · rw [fitsAt_eq_false (by decide) (by simp; omega), mobileAt]
    simp [h]

theorem landlineAt_eq (bytes : List UInt8) (i : ℕ) :
    landlineAt bytes i = .ok (fitsAt landline bytes i) := by
  by_cases h : i + 11 ≤ bytes.length
  · rw [landlineAt, byteIs_of_lt (by omega), digitAt_of_lt (by omega), byteIs_of_lt (by omega),
      digitsIn_of_le 3 (by omega) (by omega), byteIs_of_lt (by omega),
      digitsIn_of_le 4 (by omega) (by omega)]
    simp [h, ite_ok_false, landline, fitsAt_append, fitsAt_cons, Nat.add_assoc]
  · rw [fitsAt_eq_false (by decide) (by simp; omega), landlineAt]
    simp [h]

theorem groupsAt_eq {bytes : List UInt8} {i : ℕ} (h : i + 19 ≤ bytes.length) {sep : Char}
    {slot : Slot} (hslot : slot.accepts = fun b => b == sep.toUInt8) :
    groupsAt sep bytes i = .ok (fitsAt (grouped slot) bytes i) := by
  rw [groupsAt, digitsIn_of_le 4 (by omega) (by omega), byteIs_of_lt (by omega),
    digitsIn_of_le 4 (by omega) (by omega), byteIs_of_lt (by omega),
    digitsIn_of_le 4 (by omega) (by omega), byteIs_of_lt (by omega),
    digitsIn_of_le 4 (by omega) (by omega)]
  simp [hslot, ite_ok_false, grouped, fitsAt_append, fitsAt_cons, Nat.add_assoc]

theorem notInDigits_eq {bytes : List UInt8} {i j : ℕ} (h : i ≤ bytes.length) :
    notInDigits bytes i j = .ok (clearOfDigits bytes i j) := by
  have hprev : orElse (.ok (i == 0)) ((digitAt bytes (i - 1)).map not) =
      .ok (i == 0 || !(bytes[i - 1]?).any isAsciiDigit) := by
    cases i with
    | zero => rfl
    | succ i =>
        rw [digitAt_of_lt (by omega)]
        rfl
  have hnext : orElse (.ok (bytes.length ≤ j)) ((digitAt bytes j).map not) =
      .ok (!(bytes[j]?).any isAsciiDigit) := by
    by_cases hj : bytes.length ≤ j
    · rw [List.getElem?_eq_none hj]
      simp [orElse, hj, Except.bind]
    · rw [digitAt_of_lt (by omega)]
      simp [orElse, hj, Except.bind, Except.map]
  rw [notInDigits, hprev, hnext]
  rfl

theorem fitsAt_ssn_eq {bytes : List UInt8} {i : ℕ} (h : i + 7 < bytes.length) :
    fitsAt ssn bytes i =
      (fitsAt (digits 6 ++ .dash :: digits 7) bytes i && Slot.oneToFour.accepts bytes[i + 7]) := by
  have himp : Slot.oneToFour.accepts bytes[i + 7] = true → isAsciiDigit bytes[i + 7] = true := by
    simp only [Slot.accepts, isAsciiDigit, Bool.and_eq_true, decide_eq_true_eq]
    rintro ⟨hlo, hhi⟩
    exact ⟨UInt8.le_trans (by decide) hlo, UInt8.le_trans hhi (by decide)⟩
  simp only [ssn, digits_succ 6, fitsAt_append, fitsAt_cons, length_digits, Nat.add_assoc,
    Nat.reduceAdd, List.getElem?_eq_getElem h, Option.any_some, Slot.accepts_digit]
  cases hone : Slot.oneToFour.accepts bytes[i + 7] with
  | false => simp
  | true => simp [himp hone]

/-! ### The numeric scanners -/

def spanMatch (text : Str) (ty : PiiType) (confidence : ℚ) (i n : ℕ) : PiiMatch :=
  ⟨ty, i, i + n, (slice text i (i + n)).getD [], confidence⟩

theorem strRange_of_boundaries {text : Str} {i j : ℕ} (hle : i ≤ j) (hi : IsCharBoundary text i)
    (hj : IsCharBoundary text j) : strRange text i j = .ok ((slice text i j).getD []) := by
  obtain ⟨s, hs⟩ := Option.isSome_iff_exists.mp (slice_isSome_iff.mpr ⟨hle, hi, hj⟩)
  simp [strRange, hs]

theorem pushSpan_of_fits {text : Str} {tpl : Template} {i n : ℕ} (hn : tpl.length = n)
    (hpos : 0 < n) (h : fitsAt tpl (encode text) i = true) (ty : PiiType) (confidence : ℚ)
    (found : List PiiMatch) :
    pushSpan text ty confidence i n found = .ok (found ++ [spanMatch text ty confidence i n]) := by
  subst hn
  obtain ⟨hi, hj⟩ := fitsAt_boundaries (List.ne_nil_of_length_pos hpos) h
  rw [pushSpan, strRange_of_boundaries (by omega) hi hj]
  rfl

theorem koreanSsnStep_eq {text : Str} {i : ℕ} (h : i + 14 ≤ (encode text).length)
    (found : List PiiMatch) :
    koreanSsnStep text found i =
      if fitsAt ssn (encode text) i then
        .ok (found ++ [spanMatch text .koreanSsn (85 / 100) i 14], 1)
      else .ok (found, 1) := by
  have htest : allOf [.ok (i + 13 < (encode text).length), digitsIn (encode text) i (i + 6),
      byteIs (encode text) (i + 6) '-', digitsIn (encode text) (i + 7) (i + 14)] =
      .ok (fitsAt (digits 6 ++ .dash :: digits 7) (encode text) i) := by
    rw [digitsIn_of_le 6 (by omega) (by omega), byteIs_of_lt (by omega),
      digitsIn_of_le 7 (by omega) (by omega)]
    simp [show i + 13 < byteLen text by simp at h; omega, ite_ok_false, fitsAt_append, fitsAt_cons,
      Nat.add_assoc]
  have hlead : i + 7 < (encode text).length := by omega
  rw [koreanSsnStep, htest, getAt_of_lt hlead]
  by_cases hfit : fitsAt ssn (encode text) i = true
  · have hboth := hfit
    rw [fitsAt_ssn_eq hlead, Bool.and_eq_true] at hboth
    obtain ⟨hgroups, hone⟩ := hboth
    simp only [Slot.accepts] at hone
    rw [pushSpan_of_fits length_ssn (by decide) hfit]
    simp only [hgroups, hone, hfit, ok_bind, if_true, pure_eq_ok]
  · rw [if_neg hfit]
    rw [fitsAt_ssn_eq hlead] at hfit
    cases hgroups : fitsAt (digits 6 ++ .dash :: digits 7) (encode text) i with
    | false => rfl
    | true =>
        simp only [hgroups, Bool.true_and, Slot.accepts] at hfit
        simp only [ok_bind, if_true, if_neg hfit, pure_eq_ok]

theorem mem_append_flatMap {out : ℕ → List PiiMatch} {found : List PiiMatch} {js : List ℕ}
    {p : ℕ → Prop} (hjs : ∀ j, j ∈ js ↔ p j) (m : PiiMatch) :
    m ∈ found ++ js.flatMap out ↔ m ∈ found ∨ ∃ j, p j ∧ m ∈ out j := by
  rw [List.mem_append, List.mem_flatMap]
  simp only [hjs]

theorem detectKoreanSsn_ordered (text : Str) (found : List PiiMatch) :
    ∃ js : List ℕ, detectKoreanSsn text found =
        .ok (found ++ js.flatMap fun i => [spanMatch text .koreanSsn (85 / 100) i 14]) ∧
      js.Pairwise (· < ·) ∧ ∀ j, j ∈ js ↔ fitsAt ssn (encode text) j = true := by
  have hchosen := chosen_fixed_iff (p := fitsAt ssn (encode text)) (k := 1) fun i j h _ _ => h
  simp only [← hchosen]
  refine scan_leftmost_ordered _ (fun i => [spanMatch text .koreanSsn (85 / 100) i 14]) ?_ ?_ ?_
  · intro i hi
    exact fitsAt_length_le (by decide) (isSome_fixed_iff.mp hi)
  · intro st i k hle _ _ hk
    obtain ⟨rfl, hfit⟩ := fixed_eq_some_iff.mp hk
    rw [koreanSsnStep_eq hle, if_pos hfit]
  · intro st i hle hk
    rw [koreanSsnStep_eq hle, if_neg (fixed_eq_none_iff.mp hk)]

theorem detectKoreanSsn_spec (text : Str) (found : List PiiMatch) :
    ∃ found', detectKoreanSsn text found = .ok found' ∧ ∀ m, m ∈ found' ↔ m ∈ found ∨
      ∃ i, fitsAt ssn (encode text) i = true ∧
        m ∈ [spanMatch text .koreanSsn (85 / 100) i 14] := by
  obtain ⟨js, hscan, -, hjs⟩ := detectKoreanSsn_ordered text found
  exact ⟨_, hscan, mem_append_flatMap hjs⟩

def phoneMatch (text : Str) (i : ℕ) : PiiMatch :=
  if fitsAt mobile (encode text) i then spanMatch text .phoneNumber (90 / 100) i 13
  else spanMatch text .phoneNumber (80 / 100) i 11

theorem phoneAt_eq_some_iff {bytes : List UInt8} {i : ℕ} {k : ℕ+} :
    phoneAt bytes i = some k ↔ k = 13 ∧ fitsAt mobile bytes i = true ∨
      k = 11 ∧ fitsAt landline bytes i = true ∧ ¬ fitsAt mobile bytes i = true := by
  have h13 : Nat.toPNat' 13 = 13 := rfl
  have h11 : Nat.toPNat' 11 = 11 := rfl
  rw [phoneAt, h13, h11]
  by_cases hmobile : fitsAt mobile bytes i = true
  · rw [if_pos hmobile, Option.some.injEq, eq_comm]
    simp [hmobile]
  · rw [if_neg hmobile]
    by_cases hland : fitsAt landline bytes i = true
    · rw [if_pos hland, Option.some.injEq, eq_comm]
      simp [hmobile, hland]
    · simp [hmobile, hland]

theorem phoneMatch_span {text : Str} {i : ℕ} {k : ℕ+} (h : phoneAt (encode text) i = some k) :
    (phoneMatch text i).piiType = .phoneNumber ∧ (phoneMatch text i).start = i ∧
      (phoneMatch text i).stop = i + k := by
  rw [phoneMatch]
  rcases phoneAt_eq_some_iff.mp h with ⟨rfl, hmobile⟩ | ⟨rfl, -, hmobile⟩
  · rw [if_pos hmobile]
    exact ⟨rfl, rfl, rfl⟩
  · rw [if_neg hmobile]
    exact ⟨rfl, rfl, rfl⟩

theorem phoneNumberStep_some {text : Str} {i : ℕ} {k : ℕ+} (h : phoneAt (encode text) i = some k)
    (found : List PiiMatch) :
    phoneNumberStep text found i = .ok (found ++ [phoneMatch text i], k) := by
  rw [phoneNumberStep, mobileAt_eq, landlineAt_eq, phoneMatch]
  rcases phoneAt_eq_some_iff.mp h with ⟨rfl, hmobile⟩ | ⟨rfl, hland, hmobile⟩
  · rw [pushSpan_of_fits length_mobile (by decide) hmobile]
    simp only [hmobile, ok_bind, if_true, pure_eq_ok]
  · rw [pushSpan_of_fits length_landline (by decide) hland]
    simp only [hmobile, hland, ok_bind, if_true, pure_eq_ok]
    rfl

theorem phoneNumberStep_none {text : Str} {i : ℕ} (h : phoneAt (encode text) i = none)
    (found : List PiiMatch) : phoneNumberStep text found i = .ok (found, 1) := by
  rw [phoneNumberStep, mobileAt_eq, landlineAt_eq]
  simp only [phoneAt] at h
  split at h
  case isTrue => cases h
  case isFalse hmobile =>
    split at h
    case isTrue => cases h
    case isFalse hland => simp [hmobile, hland]

theorem phoneAt_le {bytes : List UInt8} {i : ℕ} {k : ℕ+} (h : phoneAt bytes i = some k) :
    i + k ≤ bytes.length := by
  rcases phoneAt_eq_some_iff.mp h with ⟨rfl, hfit⟩ | ⟨rfl, hfit, -⟩
  · exact fitsAt_length_le (by decide) hfit
  · exact fitsAt_length_le (by decide) hfit

theorem detectPhoneNumbers_ordered (text : Str) (found : List PiiMatch) :
    ∃ js : List ℕ,
      detectPhoneNumbers text found = .ok (found ++ js.flatMap fun i => [phoneMatch text i]) ∧
      js.Pairwise (· < ·) ∧ ∀ j, j ∈ js ↔ Chosen (phoneAt (encode text)) j := by
  refine scan_leftmost_ordered (phoneAt (encode text)) (fun i => [phoneMatch text i]) ?_
    (fun st _ _ _ _ _ hk => phoneNumberStep_some hk st)
    (fun st _ _ hk => phoneNumberStep_none hk st)
  intro i hi
  obtain ⟨k, hk⟩ := Option.isSome_iff_exists.mp hi
  have := phoneAt_le hk
  have := k.pos
  omega

theorem detectPhoneNumbers_spec (text : Str) (found : List PiiMatch) :
    ∃ found', detectPhoneNumbers text found = .ok found' ∧ ∀ m, m ∈ found' ↔ m ∈ found ∨
      ∃ i, Chosen (phoneAt (encode text)) i ∧ m ∈ [phoneMatch text i] := by
  obtain ⟨js, hscan, -, hjs⟩ := detectPhoneNumbers_ordered text found
  exact ⟨_, hscan, mem_append_flatMap hjs⟩

def cardMatch (text : Str) (i : ℕ) : PiiMatch :=
  if fitsAt (grouped .dash) (encode text) i then spanMatch text .cardNumber (90 / 100) i 19
  else spanMatch text .cardNumber (85 / 100) i 19

theorem cardAt_eq_some_iff {bytes : List UInt8} {i : ℕ} {k : ℕ+} :
    cardAt bytes i = some k ↔ k = 19 ∧ (fitsAt (grouped .dash) bytes i = true ∨
      fitsAt (grouped .space) bytes i = true ∧ clearOfDigits bytes i (i + 19) = true) := by
  have h19 : Nat.toPNat' 19 = 19 := rfl
  rw [cardAt, h19]
  split
  case isTrue hdash =>
    exact ⟨fun hk => ⟨(Option.some.inj hk).symm, Or.inl hdash⟩, fun h => by rw [h.1]⟩
  case isFalse hdash =>
    split
    case isTrue hspace =>
      rw [Bool.and_eq_true] at hspace
      exact ⟨fun hk => ⟨(Option.some.inj hk).symm, Or.inr hspace⟩, fun h => by rw [h.1]⟩
    case isFalse hspace =>
      rw [Bool.and_eq_true] at hspace
      constructor
      · intro hk
        cases hk
      · rintro ⟨-, h | h⟩
        · exact absurd h hdash
        · exact absurd h hspace

theorem groupedCardStep_some {text : Str} {i : ℕ} {k : ℕ+} (hle : i + 19 ≤ (encode text).length)
    (h : cardAt (encode text) i = some k) (found : List PiiMatch) :
    groupedCardStep text found i = .ok (found ++ [cardMatch text i], k) := by
  obtain ⟨rfl, hfit⟩ := cardAt_eq_some_iff.mp h
  rw [groupedCardStep, groupsAt_eq hle Slot.accepts_dash, groupsAt_eq hle Slot.accepts_space,
    notInDigits_eq (by omega), cardMatch]
  by_cases hdash : fitsAt (grouped .dash) (encode text) i = true
  · rw [pushSpan_of_fits (length_grouped _) (by decide) hdash]
    simp only [hdash, ok_bind, if_true, pure_eq_ok]
  · obtain ⟨hspace, hclear⟩ := hfit.resolve_left hdash
    rw [pushSpan_of_fits (length_grouped _) (by decide) hspace .cardNumber (85 / 100)]
    simp only [hdash, hspace, hclear, ok_bind, if_true, Bool.false_eq_true, if_false, pure_eq_ok]

theorem groupedCardStep_none {text : Str} {i : ℕ} (hle : i + 19 ≤ (encode text).length)
    (h : cardAt (encode text) i = none) (found : List PiiMatch) :
    groupedCardStep text found i = .ok (found, 1) := by
  have hno : ¬ (fitsAt (grouped .dash) (encode text) i = true ∨
      fitsAt (grouped .space) (encode text) i = true ∧
        clearOfDigits (encode text) i (i + 19) = true) := by
    intro hfit
    rw [cardAt_eq_some_iff.mpr ⟨rfl, hfit⟩] at h
    cases h
  rw [not_or, not_and] at hno
  rw [groupedCardStep, groupsAt_eq hle Slot.accepts_dash, groupsAt_eq hle Slot.accepts_space,
    notInDigits_eq (by omega)]
  by_cases hspace : fitsAt (grouped .space) (encode text) i = true
  · simp [hno.1, hspace, hno.2 hspace]
  · simp [hno.1, hspace]

theorem detectGroupedCards_ordered (text : Str) (found : List PiiMatch) :
    ∃ js : List ℕ, scan 19 (encode text).length (groupedCardStep text) found 0 =
        .ok (found ++ js.flatMap fun i => [cardMatch text i]) ∧
      js.Pairwise (· < ·) ∧ ∀ j, j ∈ js ↔ Chosen (cardAt (encode text)) j := by
  refine scan_leftmost_ordered (cardAt (encode text)) (fun i => [cardMatch text i]) ?_
    (fun st _ _ hle _ _ hk => groupedCardStep_some hle hk st)
    (fun st _ hle hk => groupedCardStep_none hle hk st)
  intro i hi
  obtain ⟨k, hk⟩ := Option.isSome_iff_exists.mp hi
  obtain ⟨-, hdash | ⟨hspace, -⟩⟩ := cardAt_eq_some_iff.mp hk
  · exact fitsAt_length_le (by decide) hdash
  · exact fitsAt_length_le (by decide) hspace

theorem detectGroupedCards_spec (text : Str) (found : List PiiMatch) :
    ∃ found', scan 19 (encode text).length (groupedCardStep text) found 0 = .ok found' ∧
      ∀ m, m ∈ found' ↔ m ∈ found ∨
        ∃ i, Chosen (cardAt (encode text)) i ∧ m ∈ [cardMatch text i] := by
  obtain ⟨js, hscan, -, hjs⟩ := detectGroupedCards_ordered text found
  exact ⟨_, hscan, mem_append_flatMap hjs⟩

/-! ### Card numbers without separators -/

/-- A digit of an occurrence sits directly before any later start inside it, so occurrences of
the plain pattern are apart. -/
theorem plainCardAt_disjoint {bytes : List UInt8} {i j : ℕ} (hj : plainCardAt bytes j = true)
    (hi : plainCardAt bytes i = true) (h : j < i) : j + 16 ≤ i := by
  simp only [plainCardAt, Bool.and_eq_true, clearOfDigits, Bool.or_eq_true, beq_iff_eq,
    Bool.not_eq_true'] at hi hj
  by_contra hlt
  obtain ⟨b, hb, hdigit, -⟩ := fitsAt_byte hj.1 (k := i - 1 - j) (by simp; omega)
  rw [show j + (i - 1 - j) = i - 1 by omega] at hb
  have hbefore := hi.2.1.resolve_left (by omega)
  rw [hb, Option.any_some] at hbefore
  simp only [plain, digits, List.getElem_replicate, Slot.accepts_digit] at hdigit
  rw [hdigit] at hbefore
  cases hbefore

/-- No match found so far covers the sixteen bytes from `j` on. -/
def Uncovered (found : List PiiMatch) (j : ℕ) : Prop :=
  ∀ m ∈ found, ¬ (m.start ≤ j ∧ j + 16 ≤ m.stop)

instance (found : List PiiMatch) (j : ℕ) : Decidable (Uncovered found j) :=
  inferInstanceAs (Decidable (∀ m ∈ found, _))

theorem plainCardStep_eq {text : Str} {j : ℕ} (hle : j + 16 ≤ (encode text).length)
    (found : List PiiMatch) :
    plainCardStep text found j =
      if plainCardAt (encode text) j then
        if Uncovered found j then
          .ok (found ++ [spanMatch text .cardNumber (75 / 100) j 16], 16)
        else .ok (found, 16)
      else .ok (found, 1) := by
  rw [plainCardStep, digitsIn_of_le 16 rfl hle, notInDigits_eq (by omega), plainCardAt]
  by_cases hfit : fitsAt plain (encode text) j = true
  · obtain ⟨hi, hj⟩ := fitsAt_boundaries (by decide) hfit
    rw [length_plain] at hj
    rw [strRange_of_boundaries (by omega) hi hj]
    have hany : (found.any fun m => decide (m.start ≤ j) && decide (j + 16 ≤ m.stop)) =
        !decide (Uncovered found j) := by
      rw [Bool.eq_iff_iff]
      simp [Uncovered]
    rw [plain] at hfit
    cases clearOfDigits (encode text) j (j + 16) with
    | false => simp [hfit]
    | true =>
        by_cases hfree : Uncovered found j
        · simp [hfit, plain, hany, hfree, spanMatch]
        · simp [hfit, plain, hany, hfree]
  · rw [plain] at hfit
    simp [plain, hfit]

theorem detectPlainCards_ordered (text : Str) (found : List PiiMatch) :
    ∃ js : List ℕ, scan 16 (encode text).length (plainCardStep text) found 0 =
        .ok (found ++ js.flatMap fun j =>
          if Uncovered found j then [spanMatch text .cardNumber (75 / 100) j 16] else []) ∧
      js.Pairwise (· < ·) ∧ ∀ j, j ∈ js ↔ plainCardAt (encode text) j = true := by
  have hchosen := chosen_fixed_iff (p := plainCardAt (encode text)) (k := 16)
    fun i j h hi hj => plainCardAt_disjoint hj hi h
  simp only [← hchosen]
  refine scan_leftmost_ordered _
    (fun j => if Uncovered found j then [spanMatch text .cardNumber (75 / 100) j 16] else [])
    ?_ ?_ ?_
  · intro j hj
    have hhit := isSome_fixed_iff.mp hj
    rw [plainCardAt, Bool.and_eq_true] at hhit
    exact fitsAt_length_le (by decide) hhit.1
  · intro st j k hle hsub hst hk
    obtain ⟨rfl, hhit⟩ := fixed_eq_some_iff.mp hk
    -- the plain matches reported so far end before `j`, so only the earlier ones can cover it
    have hcov : Uncovered st j ↔ Uncovered found j := by
      refine ⟨fun h m hm => h m (hsub hm), fun h m hm => ?_⟩
      rcases hst m hm with hold | ⟨i, k', hi, hend, hmem⟩
      · exact h m hold
      · obtain ⟨rfl, -⟩ := fixed_eq_some_iff.mp hi
        split at hmem
        · rw [List.mem_singleton] at hmem
          subst hmem
          simp only [PNat.val_ofNat] at hend
          simp only [spanMatch]
          omega
        · cases hmem
    rw [plainCardStep_eq hle, if_pos hhit]
    by_cases hfree : Uncovered found j
    · rw [if_pos (hcov.mpr hfree), if_pos hfree]
    · rw [if_neg (fun h => hfree (hcov.mp h)), if_neg hfree, List.append_nil]
  · intro st j hle hk
    rw [plainCardStep_eq hle, if_neg (fixed_eq_none_iff.mp hk)]

theorem detectPlainCards_spec (text : Str) (found : List PiiMatch) :
    ∃ found', scan 16 (encode text).length (plainCardStep text) found 0 = .ok found' ∧
      ∀ m, m ∈ found' ↔ m ∈ found ∨ ∃ j, plainCardAt (encode text) j = true ∧
        m ∈ if Uncovered found j then [spanMatch text .cardNumber (75 / 100) j 16] else [] := by
  obtain ⟨js, hscan, -, hjs⟩ := detectPlainCards_ordered text found
  exact ⟨_, hscan, mem_append_flatMap hjs⟩

end NeuRust.Security
