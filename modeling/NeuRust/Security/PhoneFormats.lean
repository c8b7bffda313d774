import NeuRust.Security.NumberReports

/-!
The documented formats of phone numbers against the two shapes that the scanner knows. The shape
for landlines has room for one digit after the leading zero only, so that no number of twelve
characters is found, and it takes any digit there. A number of the other two formats that stands
alone is found, unless an accepted shape took its first bytes away.
-/

namespace NeuRust.Security

open Utf8 Scan

/-- `01X-XXX-XXXX` -/
def shortMobile : Template := [.zero, .one, .digit, .dash] ++ digits 3 ++ .dash :: digits 4

/-- `0XX-XXX-XXXX` -/
def regional : Template := [.zero, .digit, .digit, .dash] ++ digits 3 ++ .dash :: digits 4

/-- A phone number of `n` bytes in one of the documented formats. -/
inductive PhoneNumberAt (bytes : List UInt8) (i : ℕ) : ℕ → Prop
  | mobile : fitsAt mobile bytes i = true → PhoneNumberAt bytes i 13
  | shortMobile : fitsAt shortMobile bytes i = true → PhoneNumberAt bytes i 12
  | seoul : fitsAt landline bytes i = true → bytes[i + 1]? = some '2'.toUInt8 →
      PhoneNumberAt bytes i 11
  | regional : fitsAt regional bytes i = true → PhoneNumberAt bytes i 12

structure StandsAlone (bytes : List UInt8) (i n : ℕ) : Prop where
  number : PhoneNumberAt bytes i n
  clear : clearOfDigits bytes i (i + n) = true

/-- The matches cover every phone number that stands alone, are such numbers, and follow each
other. -/
structure PhoneReports (text : Str) (ms : List PiiMatch) : Prop where
  covers : ∀ i n, StandsAlone (encode text) i n →
    ∃ m ∈ ms, m.piiType = .phoneNumber ∧ m.start ≤ i ∧ i + n ≤ m.stop
  sound : ∀ m ∈ ms, m.piiType = .phoneNumber ∧
    ∃ n, m.stop = m.start + n ∧ StandsAlone (encode text) m.start n
  ordered : ms.Pairwise fun a b => a.stop ≤ b.start

/-- No number of twelve bytes stands alone, none of thirteen starts inside one of eleven, and
whatever has an accepted shape stands alone as a number or starts inside one that does. -/
structure FormatsKnown (bytes : List UInt8) : Prop where
  noTwelve : ∀ i, ¬ StandsAlone bytes i 12
  noChain : ∀ i, StandsAlone bytes i 11 → ¬ StandsAlone bytes (i + 3) 13
  shapes : ∀ i k, phoneAt bytes i = some k → StandsAlone bytes i k ∨
    ∃ j n, StandsAlone bytes j n ∧ j < i ∧ i < j + n

/-! ### Digits and dashes -/

def IsDigitAt (bytes : List UInt8) (p : ℕ) : Prop := (bytes[p]?).any isAsciiDigit = true

def IsDashAt (bytes : List UInt8) (p : ℕ) : Prop := bytes[p]? = some '-'.toUInt8

theorem not_digit_of_dash {bytes : List UInt8} {p : ℕ} (h : IsDashAt bytes p) :
    ¬ IsDigitAt bytes p := by
  rw [IsDigitAt, h]
  decide

/-- A template of digits, except for dashes at the positions of `dashes`. -/
structure DigitsAndDashes (tpl : Template) (dashes : List ℕ) : Prop where
  dash : ∀ c < tpl.length, c ∈ dashes → tpl[c]? = some .dash
  digit : ∀ c < tpl.length, c ∉ dashes →
    tpl[c]? = some .digit ∨ tpl[c]? = some .zero ∨ tpl[c]? = some .one

theorem digitsAndDashes_mobile : DigitsAndDashes mobile [3, 8] := ⟨by decide, by decide⟩

theorem digitsAndDashes_landline : DigitsAndDashes landline [2, 6] := ⟨by decide, by decide⟩

theorem digitsAndDashes_regional : DigitsAndDashes regional [3, 7] := ⟨by decide, by decide⟩

namespace DigitsAndDashes

variable {tpl : Template} {dashes : List ℕ} {bytes : List UInt8} {i c : ℕ}

theorem isDashAt (h : DigitsAndDashes tpl dashes) (hfit : fitsAt tpl bytes i = true)
    (hc : c < tpl.length) (hmem : c ∈ dashes) : IsDashAt bytes (i + c) := by
  obtain ⟨b, hb, hslot⟩ := fitsAt_iff.mp hfit c _ (h.dash c hc hmem)
  rw [Slot.accepts_dash, beq_iff_eq] at hslot
  rw [IsDashAt, hb, hslot]

theorem isDigitAt (h : DigitsAndDashes tpl dashes) (hfit : fitsAt tpl bytes i = true)
    (hc : c < tpl.length) (hmem : c ∉ dashes) : IsDigitAt bytes (i + c) := by
  obtain ⟨s, hs, hdigit⟩ : ∃ s, tpl[c]? = some s ∧
      ∀ b, s.accepts b = true → isAsciiDigit b = true := by
    rcases h.digit c hc hmem with hs | hs | hs
    · exact ⟨_, hs, fun b hb => hb⟩
    · refine ⟨_, hs, fun b hb => ?_⟩
      rw [Slot.accepts_zero, beq_iff_eq] at hb
      rw [hb]
      decide
    · refine ⟨_, hs, fun b hb => ?_⟩
      rw [Slot.accepts_one, beq_iff_eq] at hb
      rw [hb]
      decide
  obtain ⟨b, hb, hslot⟩ := fitsAt_iff.mp hfit c s hs
  rw [IsDigitAt, hb]
  exact hdigit b hslot

end DigitsAndDashes

/-! ### Numbers and shapes -/

section

variable {bytes : List UInt8} {i j n : ℕ} {k k' : ℕ+}

theorem StandsAlone.not_digit_before (h : StandsAlone bytes i n) (hpos : 0 < i) :
    ¬ IsDigitAt bytes (i - 1) := by
  have hclear := h.clear
  simp only [clearOfDigits, Bool.and_eq_true, Bool.or_eq_true, beq_iff_eq, hpos.ne',
    false_or] at hclear
  simpa [IsDigitAt] using hclear.1

theorem fitsAt_regional_of_twelve (h : PhoneNumberAt bytes i 12) :
    fitsAt regional bytes i = true := by
  cases h with
  | regional h => exact h
  | shortMobile h =>
      refine fitsAt_iff.mpr fun c s hs => ?_
      by_cases hc : c = 1
      · subst hc
        obtain rfl : s = .digit := (Option.some.inj hs).symm
        obtain ⟨b, hb, hone⟩ := fitsAt_iff.mp h 1 .one rfl
        refine ⟨b, hb, ?_⟩
        rw [Slot.accepts_one, beq_iff_eq] at hone
        rw [hone]
        decide
      · apply fitsAt_iff.mp h c s
        rw [← hs]
        rcases c with _ | _ | c
        · rfl
        · exact absurd rfl hc
        · rfl

/-- A documented number of eleven or thirteen bytes has an accepted shape. -/
theorem PhoneNumberAt.phoneAt (h : PhoneNumberAt bytes i n) (hn : n ≠ 12) :
    ∃ k : ℕ+, (k : ℕ) = n ∧ phoneAt bytes i = some k := by
  cases h with
  | shortMobile h => exact absurd rfl hn
  | regional h => exact absurd rfl hn
  | mobile h => exact ⟨13, rfl, phoneAt_eq_some_iff.mpr (.inl ⟨rfl, h⟩)⟩
  | seoul h htwo =>
      refine ⟨11, rfl, phoneAt_eq_some_iff.mpr (.inr ⟨rfl, h, fun hmobile => ?_⟩)⟩
      obtain ⟨b, hb, hone⟩ := fitsAt_iff.mp hmobile 1 .one rfl
      rw [htwo, Option.some.injEq] at hb
      subst hb
      exact absurd hone (by decide)

theorem phoneAt_length (h : phoneAt bytes i = some k) : (k : ℕ) = 13 ∨ (k : ℕ) = 11 := by
  rcases phoneAt_eq_some_iff.mp h with ⟨rfl, -⟩ | ⟨rfl, -⟩
  · exact .inl rfl
  · exact .inr rfl

theorem phoneAt_bytes (h : phoneAt bytes i = some k) :
    ∃ tpl dashes, DigitsAndDashes tpl dashes ∧ fitsAt tpl bytes i = true ∧ tpl.length = k ∧
      ((k : ℕ) = 13 ∧ dashes = [3, 8] ∨ (k : ℕ) = 11 ∧ dashes = [2, 6]) := by
  rcases phoneAt_eq_some_iff.mp h with ⟨rfl, hfit⟩ | ⟨rfl, hfit, -⟩
  · exact ⟨mobile, _, digitsAndDashes_mobile, hfit, rfl, .inl ⟨rfl, rfl⟩⟩
  · exact ⟨landline, _, digitsAndDashes_landline, hfit, rfl, .inr ⟨rfl, rfl⟩⟩

/-- A shape that no digit precedes starts inside another one only as the last groups of
`0X-010-XXXX-XXXX`. -/
theorem overlap_cases (hj : phoneAt bytes j = some k) (hi : phoneAt bytes i = some k')
    (hlt : j < i) (hle : i < j + k) (hbefore : ¬ IsDigitAt bytes (i - 1)) :
    (k : ℕ) = 11 ∧ (k' : ℕ) = 13 ∧ i = j + 3 := by
  obtain ⟨tpl, dashes, hshape, hfit, hlen, hk⟩ := phoneAt_bytes hj
  obtain ⟨tpl', dashes', hshape', hfit', hlen', hk'⟩ := phoneAt_bytes hi
  obtain ⟨o, rfl⟩ := Nat.exists_eq_add_of_lt hlt
  -- the byte before the second shape is a dash of the first
  have hdash : o ∈ dashes := by
    by_contra hno
    exact hbefore (hshape.isDigitAt hfit (by omega) hno)
  -- a dash of the second shape is not a digit of the first
  have hapart (c : ℕ) (hc : c < tpl'.length) (hmem : c ∈ dashes') (hin : o + 1 + c < tpl.length) :
      o + 1 + c ∈ dashes := by
    by_contra hno
    have hd := hshape'.isDashAt hfit' hc hmem
    rw [Nat.add_assoc, Nat.add_assoc, ← Nat.add_assoc o] at hd
    exact not_digit_of_dash hd (hshape.isDigitAt hfit hin hno)
  rcases hk with ⟨hk, rfl⟩ | ⟨hk, rfl⟩ <;> rcases hk' with ⟨hk', rfl⟩ | ⟨hk', rfl⟩ <;>
    rw [hlen, hlen', hk, hk'] at hapart <;>
    simp only [List.mem_cons, List.not_mem_nil, or_false] at hdash hapart
  · have := hapart 3 (by omega) (.inl rfl)
    omega
  · have := hapart 2 (by omega) (.inl rfl)
    omega
  · have := hapart 3 (by omega) (.inl rfl)
    omega
  · have := hapart 2 (by omega) (.inl rfl)
    omega

theorem StandsAlone.chosen_eleven (h : StandsAlone bytes i 11) :
    Chosen (phoneAt bytes) i ∧ phoneAt bytes i = some 11 := by
  obtain ⟨k, hk, hi⟩ := h.number.phoneAt (by decide)
  obtain rfl : k = 11 := PNat.eq hk
  refine ⟨?_, hi⟩
  by_contra hnot
  obtain ⟨j, hlt, -, k', hj, hle⟩ := exists_chosen_of_not_chosen (by rw [hi]; rfl) hnot
  obtain ⟨-, h13, -⟩ := overlap_cases hj hi hlt hle (h.not_digit_before (by omega))
  exact absurd h13 (by decide)

theorem StandsAlone.chosen_thirteen (h : StandsAlone bytes i 13) :
    phoneAt bytes i = some 13 ∧ (Chosen (phoneAt bytes) i ∨
      ∃ j, i = j + 3 ∧ Chosen (phoneAt bytes) j ∧ phoneAt bytes j = some 11) := by
  obtain ⟨k, hk, hi⟩ := h.number.phoneAt (by decide)
  obtain rfl : k = 13 := PNat.eq hk
  refine ⟨hi, ?_⟩
  by_cases hchosen : Chosen (phoneAt bytes) i
  · exact .inl hchosen
  · obtain ⟨j, hlt, hj, k', hk', hle⟩ := exists_chosen_of_not_chosen (by rw [hi]; rfl) hchosen
    obtain ⟨h11, -, heq⟩ := overlap_cases hk' hi hlt hle (h.not_digit_before (by omega))
    obtain rfl : k' = 11 := PNat.eq h11
    exact .inr ⟨j, heq, hj, hk'⟩

theorem StandsAlone.length (h : StandsAlone bytes i n) : n = 11 ∨ n = 12 ∨ n = 13 := by
  cases h.number with
  | mobile => exact .inr (.inr rfl)
  | shortMobile => exact .inr (.inl rfl)
  | seoul => exact .inl rfl
  | regional => exact .inr (.inl rfl)

/-- Nothing of an accepted shape holds a number of twelve bytes that stands alone. -/
theorem StandsAlone.twelve_not_covered (h : StandsAlone bytes i 12)
    (hj : phoneAt bytes j = some k) (hle : j ≤ i) : j + k < i + 12 := by
  obtain ⟨tpl, dashes, hshape, hfit, hlen, hk⟩ := phoneAt_bytes hj
  have hregional := fitsAt_regional_of_twelve h.number
  by_contra hend
  have hk13 : (k : ℕ) = 13 := by
    rcases phoneAt_length hj with hk | hk <;> omega
  obtain rfl : dashes = [3, 8] := by
    rcases hk with ⟨-, rfl⟩ | ⟨hk, -⟩
    · rfl
    · omega
  rcases Nat.eq_or_lt_of_le hle with rfl | hlt
  · -- the second dash of the number stands where the shape has a digit
    have hdash := digitsAndDashes_regional.isDashAt hregional (c := 7) (by decide) (by decide)
    exact not_digit_of_dash hdash (hshape.isDigitAt hfit (by omega) (by decide))
  · -- the shape starts with a digit directly before the number
    apply h.not_digit_before (by omega)
    obtain rfl : i = j + 1 := by omega
    exact hshape.isDigitAt hfit (c := 0) (by omega) (by decide)

/-- Among known formats everything that is found is a number that stands alone. -/
theorem FormatsKnown.chosen_alone (h : FormatsKnown bytes) (hi : Chosen (phoneAt bytes) i)
    (hk : phoneAt bytes i = some k) : StandsAlone bytes i k := by
  induction i using Nat.strong_induction_on generalizing k with
  | h i ih =>
      rcases h.shapes i k hk with halone | ⟨j, n, hj, hlt, hin⟩
      · exact halone
      -- the number that the shape starts in would have been found instead
      rcases hj.length with rfl | rfl | rfl
      · obtain ⟨hchosen, h11⟩ := hj.chosen_eleven
        exact absurd (hi.disjoint hchosen hlt h11) (by simpa using hin)
      · exact absurd hj (h.noTwelve j)
      · obtain ⟨h13, hchosen | ⟨l, rfl, hl, h11⟩⟩ := hj.chosen_thirteen
        · exact absurd (hi.disjoint hchosen hlt h13) (by simpa using hin)
        · exact absurd hj (h.noChain l (ih l (by omega) hl h11))

/-- Among known formats every number that stands alone is found. -/
theorem FormatsKnown.alone_chosen (h : FormatsKnown bytes) (hi : StandsAlone bytes i n) :
    ∃ k : ℕ+, (k : ℕ) = n ∧ Chosen (phoneAt bytes) i ∧ phoneAt bytes i = some k := by
  rcases hi.length with rfl | rfl | rfl
  · obtain ⟨hchosen, h11⟩ := hi.chosen_eleven
    exact ⟨11, rfl, hchosen, h11⟩
  · exact absurd hi (h.noTwelve i)
  · obtain ⟨h13, hchosen | ⟨l, rfl, hl, h11⟩⟩ := hi.chosen_thirteen
    · exact ⟨13, rfl, hchosen, h13⟩
    · exact absurd hi (h.noChain l (h.chosen_alone hl h11))

end

/-! ### What is found -/

section

variable {text : Str} {js : List ℕ}

theorem phoneReports_of_formatsKnown (hjs : ∀ j, j ∈ js ↔ Chosen (phoneAt (encode text)) j)
    (hinc : js.Pairwise (· < ·)) (h : FormatsKnown (encode text)) :
    PhoneReports text (js.map (phoneMatch text)) where
  covers := by
    intro i n hi
    obtain ⟨k, rfl, hchosen, hk⟩ := h.alone_chosen hi
    obtain ⟨htype, hstart, hstop⟩ := phoneMatch_span hk
    exact ⟨_, List.mem_map_of_mem ((hjs i).mpr hchosen), htype, hstart.le, hstop.ge⟩
  sound := by
    intro m hm
    obtain ⟨i, hi, rfl⟩ := List.mem_map.mp hm
    have hchosen := (hjs i).mp hi
    obtain ⟨k, hk⟩ := Option.isSome_iff_exists.mp hchosen.isSome
    obtain ⟨htype, hstart, hstop⟩ := phoneMatch_span hk
    refine ⟨htype, k, by rw [hstop, hstart], ?_⟩
    rw [hstart]
    exact h.chosen_alone hchosen hk
  ordered := by
    rw [List.pairwise_map]
    refine hinc.imp_of_mem fun {i j} hi hj hlt => ?_
    obtain ⟨k, hk⟩ := Option.isSome_iff_exists.mp ((hjs i).mp hi).isSome
    obtain ⟨k', hk'⟩ := Option.isSome_iff_exists.mp ((hjs j).mp hj).isSome
    rw [(phoneMatch_span hk).2.2, (phoneMatch_span hk').2.1]
    exact ((hjs j).mp hj).disjoint ((hjs i).mp hi) hlt hk

theorem PhoneReports.standsAlone (h : PhoneReports text (js.map (phoneMatch text)))
    (hjs : ∀ j, j ∈ js ↔ Chosen (phoneAt (encode text)) j) {i : ℕ} {k : ℕ+}
    (hi : Chosen (phoneAt (encode text)) i) (hk : phoneAt (encode text) i = some k) :
    StandsAlone (encode text) i k := by
  obtain ⟨-, hstart, hstop⟩ := phoneMatch_span hk
  obtain ⟨-, n, hn, hself⟩ := h.sound _ (List.mem_map_of_mem ((hjs i).mpr hi))
  rw [hstart] at hself hn
  rw [hstop] at hn
  rwa [Nat.add_left_cancel hn]

theorem PhoneReports.exists_chosen (h : PhoneReports text (js.map (phoneMatch text)))
    (hjs : ∀ j, j ∈ js ↔ Chosen (phoneAt (encode text)) j) {i n : ℕ}
    (hi : StandsAlone (encode text) i n) :
    ∃ j k, Chosen (phoneAt (encode text)) j ∧ phoneAt (encode text) j = some k ∧ j ≤ i ∧
      i + n ≤ j + k := by
  obtain ⟨m, hm, -, hle, hend⟩ := h.covers i n hi
  obtain ⟨j, hj, rfl⟩ := List.mem_map.mp hm
  obtain ⟨k, hk⟩ := Option.isSome_iff_exists.mp ((hjs j).mp hj).isSome
  obtain ⟨-, hstart, hstop⟩ := phoneMatch_span hk
  rw [hstart] at hle
  rw [hstop] at hend
  exact ⟨j, k, (hjs j).mp hj, hk, hle, hend⟩

theorem formatsKnown_of_phoneReports (hjs : ∀ j, j ∈ js ↔ Chosen (phoneAt (encode text)) j)
    (h : PhoneReports text (js.map (phoneMatch text))) : FormatsKnown (encode text) := by
  constructor
  case noTwelve =>
    intro i hi
    obtain ⟨j, k, -, hk, hle, hend⟩ := h.exists_chosen hjs hi
    exact absurd (hi.twelve_not_covered hk hle) (Nat.not_lt.mpr hend)
  case noChain =>
    intro i hi hnext
    obtain ⟨j, k, hj, hk, hle, hend⟩ := h.exists_chosen hjs hnext
    obtain ⟨hchosen, h11⟩ := hi.chosen_eleven
    have hlen := phoneAt_length hk
    have hdisjoint := hj.disjoint hchosen (by omega) h11
    rw [PNat.val_ofNat] at hdisjoint
    omega
  case shapes =>
    intro i k hk
    by_cases hi : Chosen (phoneAt (encode text)) i
    · exact .inl (h.standsAlone hjs hi hk)
    · obtain ⟨j, hlt, hj, k', hk', hin⟩ := exists_chosen_of_not_chosen (by rw [hk]; rfl) hi
      exact .inr ⟨j, k', h.standsAlone hjs hj hk', hlt, hin⟩

end

/-- For every text, what the scanner for phone numbers appends covers the documented numbers that
stand alone and consists of such numbers, following each other, exactly when the text has known
formats only. -/
theorem phone_formats_iff (text : Str) (found : List PiiMatch) :
    ∃ ms, detectPhoneNumbers text found = .ok (found ++ ms) ∧
      (PhoneReports text ms ↔ FormatsKnown (encode text)) := by
  obtain ⟨js, hscan, hinc, hjs⟩ := detectPhoneNumbers_ordered text found
  rw [← List.map_eq_flatMap] at hscan
  exact ⟨_, hscan, formatsKnown_of_phoneReports hjs, phoneReports_of_formatsKnown hjs hinc⟩

/-- The scanner finds nothing in a number with a regional code. -/
theorem regional_number_missed :
    ¬ ∀ text found, ∃ ms, detectPhoneNumbers text found = .ok (found ++ ms) ∧
      PhoneReports text ms := by
  intro h
  obtain ⟨ms, hms, hreports⟩ := h "031-234-5678".toList []
  have hnone : detectPhoneNumbers "031-234-5678".toList [] = .ok [] := by decide +kernel
  rw [hnone] at hms
  obtain rfl := (Except.ok.inj hms).symm
  obtain ⟨m, hm, -⟩ := hreports.covers 0 12 ⟨.regional (by decide +kernel), by decide +kernel⟩
  cases hm

end NeuRust.Security
