import NeuRust.Security.PiiDetector
import NeuRust.Text.Runs

/-!
What counts as PII in a text, stated without the scanning loops. The numeric patterns are
templates: lists of byte classes, all of them ASCII. An e-mail address is a decomposition of the
text around an `@`. A span of the text is PII when it is an occurrence of one of them; where
occurrences of phone numbers, or of separated card numbers, overlap one another, only the
leftmost selection counts.
-/

namespace NeuRust.Security

open Utf8 Scan Runs

inductive Slot where
  | digit
  | oneToFour
  | zero
  | one
  | dash
  | space
  deriving DecidableEq, Repr

def Slot.accepts : Slot → UInt8 → Bool
  | .digit, b => isAsciiDigit b
  | .oneToFour, b => '1'.toUInt8 ≤ b && b ≤ '4'.toUInt8
  | .zero, b => b == '0'.toUInt8
  | .one, b => b == '1'.toUInt8
  | .dash, b => b == '-'.toUInt8
  | .space, b => b == ' '.toUInt8

abbrev Template := List Slot

/-- Whether the bytes from `i` on start with an instance of the template. -/
def fitsAt : Template → List UInt8 → ℕ → Bool
  | [], _, _ => true
  | s :: tpl, bytes, i => (bytes[i]?).any s.accepts && fitsAt tpl bytes (i + 1)

def digits (n : ℕ) : Template := List.replicate n .digit

def ssn : Template := digits 6 ++ .dash :: .oneToFour :: digits 6

def mobile : Template := [.zero, .one, .zero, .dash] ++ digits 4 ++ .dash :: digits 4

def landline : Template := [.zero, .digit, .dash] ++ digits 3 ++ .dash :: digits 4

def grouped (sep : Slot) : Template :=
  digits 4 ++ sep :: digits 4 ++ sep :: digits 4 ++ sep :: digits 4

def plain : Template := digits 16

/-- No digit directly before `i` nor at `j`. -/
def clearOfDigits (bytes : List UInt8) (i j : ℕ) : Bool :=
  (i == 0 || !(bytes[i - 1]?).any isAsciiDigit) && !(bytes[j]?).any isAsciiDigit

def phoneAt (bytes : List UInt8) (i : ℕ) : Option ℕ+ :=
  if fitsAt mobile bytes i then some (Nat.toPNat' 13)
  else if fitsAt landline bytes i then some (Nat.toPNat' 11)
  else none

def cardAt (bytes : List UInt8) (i : ℕ) : Option ℕ+ :=
  if fitsAt (grouped .dash) bytes i then some (Nat.toPNat' 19)
  else if fitsAt (grouped .space) bytes i && clearOfDigits bytes i (i + 19) then
    some (Nat.toPNat' 19)
  else none

def plainCardAt (bytes : List UInt8) (i : ℕ) : Bool :=
  fitsAt plain bytes i && clearOfDigits bytes i (i + 16)

/-- A domain whose last label is two ASCII letters or more. -/
def ValidTld (dom : List Char) : Prop :=
  ∃ labels tld, dom = labels ++ '.' :: tld ∧ 2 ≤ tld.length ∧ ∀ c ∈ tld, c.isAlpha = true

/-- The text is `pre`, then the address `loc@dom`, then `post`, and the address extends as far
as its characters go on both sides. -/
structure EmailAt (table : CharTable) (text pre loc dom post : List Char) : Prop where
  split : text = pre ++ loc ++ '@' :: (dom ++ post)
  localRun : SuffixRun (isLocalChar table) pre loc
  domainRun : PrefixRun (isDomainChar table) dom post
  loc_ne : loc ≠ []
  tld : ValidTld dom

def emailStop (pre loc dom : List Char) : ℕ := byteLen pre + byteLen loc + 1 + byteLen dom

/-- The spans of a text that are PII. -/
inductive PiiSpan (table : CharTable) (text : Str) : PiiType → ℕ → ℕ → Prop where
  | koreanSsn {i : ℕ} : fitsAt ssn (encode text) i = true →
      PiiSpan table text .koreanSsn i (i + 14)
  | phoneNumber {i : ℕ} {k : ℕ+} : Chosen (phoneAt (encode text)) i →
      phoneAt (encode text) i = some k → PiiSpan table text .phoneNumber i (i + k)
  | email {pre loc dom post : List Char} : EmailAt table text pre loc dom post →
      PiiSpan table text .email (byteLen pre) (emailStop pre loc dom)
  | groupedCard {i : ℕ} : Chosen (cardAt (encode text)) i →
      PiiSpan table text .cardNumber i (i + 19)
  | plainCard {i : ℕ} : plainCardAt (encode text) i = true →
      (∀ pre loc dom post, EmailAt table text pre loc dom post →
        ¬ (byteLen pre ≤ i ∧ i + 16 ≤ emailStop pre loc dom)) →
      PiiSpan table text .cardNumber i (i + 16)

/-! ### Templates -/

theorem Slot.lt_of_accepts {s : Slot} {b : UInt8} (h : s.accepts b = true) : b.toNat < 128 := by
  have hle (c : UInt8) (hc : c.toNat < 128) (hb : b ≤ c) : b.toNat < 128 :=
    lt_of_le_of_lt (UInt8.le_iff_toNat_le.mp hb) hc
  cases s with
  | digit =>
      simp only [accepts, isAsciiDigit, Bool.and_eq_true, decide_eq_true_eq] at h
      exact hle _ (by decide) h.2
  | oneToFour =>
      simp only [accepts, Bool.and_eq_true, decide_eq_true_eq] at h
      exact hle _ (by decide) h.2
  | zero | one | dash | space =>
      simp only [accepts, beq_iff_eq] at h
      rw [h]
      decide

@[simp] theorem Slot.accepts_digit : Slot.digit.accepts = isAsciiDigit := rfl

@[simp] theorem Slot.accepts_zero : Slot.zero.accepts = fun b => b == '0'.toUInt8 := rfl

@[simp] theorem Slot.accepts_one : Slot.one.accepts = fun b => b == '1'.toUInt8 := rfl

@[simp] theorem Slot.accepts_dash : Slot.dash.accepts = fun b => b == '-'.toUInt8 := rfl

@[simp] theorem Slot.accepts_space : Slot.space.accepts = fun b => b == ' '.toUInt8 := rfl

@[simp] theorem fitsAt_nil (bytes : List UInt8) (i : ℕ) : fitsAt [] bytes i = true := rfl

theorem fitsAt_cons (s : Slot) (tpl : Template) (bytes : List UInt8) (i : ℕ) :
    fitsAt (s :: tpl) bytes i = ((bytes[i]?).any s.accepts && fitsAt tpl bytes (i + 1)) := rfl

theorem fitsAt_append (a b : Template) (bytes : List UInt8) (i : ℕ) :
    fitsAt (a ++ b) bytes i = (fitsAt a bytes i && fitsAt b bytes (i + a.length)) := by
  induction a generalizing i with
  | nil => simp
  | cons s a ih =>
      rw [List.cons_append, fitsAt_cons, ih, fitsAt_cons, List.length_cons, Bool.and_assoc,
        Nat.add_assoc, Nat.add_comm 1]

theorem fitsAt_iff {tpl : Template} {bytes : List UInt8} {i : ℕ} :
    fitsAt tpl bytes i = true ↔
      ∀ k s, tpl[k]? = some s → ∃ b, bytes[i + k]? = some b ∧ s.accepts b = true := by
  induction tpl generalizing i with
  | nil => simp
  | cons s tpl ih =>
      rw [fitsAt_cons, Bool.and_eq_true, Option.any_eq_true, ih]
      constructor
      · rintro ⟨⟨b, hb, hs⟩, h⟩ k s' hk
        cases k with
        | zero =>
            simp only [List.getElem?_cons_zero, Option.some.injEq] at hk
            subst hk
            exact ⟨b, hb, hs⟩
        | succ k =>
            obtain ⟨b', hb', hs'⟩ := h k s' (by simpa using hk)
            exact ⟨b', by rw [← hb']; congr 1; omega, hs'⟩
      · intro h
        refine ⟨?_, fun k s' hk => ?_⟩
        · obtain ⟨b, hb, hs⟩ := h 0 s (by simp)
          exact ⟨b, hb, hs⟩
        · obtain ⟨b, hb, hs⟩ := h (k + 1) s' (by simpa using hk)
          exact ⟨b, by rw [← hb]; congr 1; omega, hs⟩

theorem fitsAt_byte {tpl : Template} {bytes : List UInt8} {i k : ℕ}
    (h : fitsAt tpl bytes i = true) (hk : k < tpl.length) :
    ∃ b, bytes[i + k]? = some b ∧ tpl[k].accepts b = true ∧ b.toNat < 128 := by
  obtain ⟨b, hb, hs⟩ := fitsAt_iff.mp h k tpl[k] (List.getElem?_eq_getElem hk)
  exact ⟨b, hb, hs, Slot.lt_of_accepts hs⟩

theorem fitsAt_length_le {tpl : Template} {bytes : List UInt8} {i : ℕ} (hne : tpl ≠ [])
    (h : fitsAt tpl bytes i = true) : i + tpl.length ≤ bytes.length := by
  have hpos := List.length_pos_iff.mpr hne
  obtain ⟨b, hb, -⟩ := fitsAt_byte h (k := tpl.length - 1) (by omega)
  have := (List.getElem?_eq_some_iff.mp hb).1
  omega

theorem fitsAt_boundaries {tpl : Template} {text : Str} {i : ℕ} (hne : tpl ≠ [])
    (h : fitsAt tpl (encode text) i = true) :
    IsCharBoundary text i ∧ IsCharBoundary text (i + tpl.length) := by
  have hpos := List.length_pos_iff.mpr hne
  obtain ⟨b, hb, -, hlt⟩ := fitsAt_byte h hpos
  obtain ⟨b', hb', -, hlt'⟩ := fitsAt_byte h (k := tpl.length - 1) (by omega)
  refine ⟨isCharBoundary_of_ascii hb hlt, ?_⟩
  have := isCharBoundary_succ_of_ascii hb' hlt'
  rwa [show i + (tpl.length - 1) + 1 = i + tpl.length by omega] at this

@[simp] theorem length_digits (n : ℕ) : (digits n).length = n := by
  simp [digits]

@[simp] theorem length_ssn : ssn.length = 14 := rfl

@[simp] theorem length_mobile : mobile.length = 13 := rfl

@[simp] theorem length_landline : landline.length = 11 := rfl

@[simp] theorem length_grouped (sep : Slot) : (grouped sep).length = 19 := rfl

@[simp] theorem length_plain : plain.length = 16 := rfl

/-! ### Addresses -/

theorem emailStop_eq (pre loc dom : List Char) :
    emailStop pre loc dom = byteLen (pre ++ loc ++ '@' :: dom) := by
  have hat : Char.utf8Size '@' = 1 := rfl
  rw [emailStop, byteLen_append, byteLen_append, byteLen_cons, hat]
  omega

theorem EmailAt.split_stop {table : CharTable} {text pre loc dom post : List Char}
    (h : EmailAt table text pre loc dom post) : text = pre ++ loc ++ '@' :: dom ++ post := by
  rw [h.split]
  simp

end NeuRust.Security
