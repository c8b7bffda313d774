import NeuRust.Text.Utf8
import NeuRust.Text.Scan
import Mathlib.Algebra.Order.Ring.Unbundled.Rat
import Mathlib.Data.List.Infix

/-!
The PII detector: four scanners over one text and a context check over what they found.

The Rust code panics when an index or a slice is out of range and when a string slice does not
start and end between characters, so every read of the text here is `Checked`, and a result
`.ok` says that nothing panicked. `&&` and `||` stay short-circuiting, since a later operand
is only in range when the earlier ones hold. The three scanners for numbers work on bytes, the
one for e-mail addresses on characters; every reported offset counts bytes.
-/

namespace NeuRust.Security

open Utf8 Scan

inductive Panic where
  | index
  | range
  | charBoundary
  deriving DecidableEq, Repr

abbrev Checked := Except Panic

/-- `char::is_alphanumeric`, whose table outside ASCII depends on the Unicode version of the
standard library; on ASCII it is letters and digits. -/
structure CharTable where
  isAlphanumeric : Char → Bool
  ascii : ∀ c : Char, c.val < 128 → isAlphanumeric c = c.isAlphanum

/-- The table cut down to ASCII and the Hangul syllables. -/
def CharTable.hangul : CharTable where
  isAlphanumeric c := c.isAlphanum || ('가' ≤ c && c ≤ '힣')
  ascii := by
    intro c hc
    have hlow : ¬ '가' ≤ c := by
      intro h
      have hle : 44032 ≤ c.toNat := by
        simpa [Char.le_def, UInt32.le_iff_toNat_le] using h
      have hlt : c.toNat < 128 := by
        simpa [UInt32.lt_iff_toNat_lt] using hc
      omega
    simp [hlow]

inductive PiiType where
  | koreanSsn
  | phoneNumber
  | email
  | cardNumber
  deriving DecidableEq, Repr

structure PiiMatch where
  piiType : PiiType
  start : ℕ
  stop : ℕ
  matchedText : Str
  confidence : ℚ
  deriving DecidableEq

/-! ### Reads that can panic -/

/-- `xs[i]` -/
def getAt {α : Type} (xs : List α) (i : ℕ) : Checked α :=
  match xs[i]? with
  | some x => .ok x
  | none => .error .index

/-- `&xs[i..j]` -/
def getRange {α : Type} (xs : List α) (i j : ℕ) : Checked (List α) :=
  if i ≤ j ∧ j ≤ xs.length then .ok ((xs.drop i).take (j - i)) else .error .range

/-- `&text[i..j]` -/
def strRange (text : Str) (i j : ℕ) : Checked Str :=
  match slice text i j with
  | some s => .ok s
  | none => .error .charBoundary

/-- `a && b && ..`, each operand evaluated only when the ones before it hold. -/
def allOf : List (Checked Bool) → Checked Bool
  | [] => .ok true
  | a :: as => a.bind fun x => if x then allOf as else .ok false

/-- `a || b` -/
def orElse (a b : Checked Bool) : Checked Bool := a.bind fun x => if x then .ok true else b

/-- `u8::is_ascii_digit` -/
def isAsciiDigit (b : UInt8) : Bool := '0'.toUInt8 ≤ b && b ≤ '9'.toUInt8

/-- `bytes[i] == b'c'` -/
def byteIs (bytes : List UInt8) (i : ℕ) (c : Char) : Checked Bool :=
  (getAt bytes i).map (· == c.toUInt8)

/-- `bytes[i].is_ascii_digit()` -/
def digitAt (bytes : List UInt8) (i : ℕ) : Checked Bool := (getAt bytes i).map isAsciiDigit

/-- `bytes[i..j].iter().all(|b| b.is_ascii_digit())` -/
def digitsIn (bytes : List UInt8) (i j : ℕ) : Checked Bool :=
  (getRange bytes i j).map (·.all isAsciiDigit)

/-- `matches.push(PiiMatch { .. })` for the `n` bytes from `i` on. -/
def pushSpan (text : Str) (ty : PiiType) (confidence : ℚ) (i n : ℕ) (found : List PiiMatch) :
    Checked (List PiiMatch) := do
  let matched ← strRange text i (i + n)
  return found ++ [⟨ty, i, i + n, matched, confidence⟩]

/-! ### The scanners

Each loop `while i + w <= len { .. }` is a `scan` whose body returns the matches so far and the
amount added to `i`. -/

/-- One iteration for resident registration numbers: `NNNNNN-NNNNNNN`, the back part starting
with 1 to 4. -/
def koreanSsnStep (text : Str) (found : List PiiMatch) (i : ℕ) :
    Checked (List PiiMatch × ℕ+) := do
  let bytes := encode text
  if ← allOf [.ok (i + 13 < bytes.length), digitsIn bytes i (i + 6), byteIs bytes (i + 6) '-',
      digitsIn bytes (i + 7) (i + 14)] then
    let lead ← getAt bytes (i + 7)
    if '1'.toUInt8 ≤ lead && lead ≤ '4'.toUInt8 then
      let found ← pushSpan text .koreanSsn (85 / 100) i 14 found
      return (found, 1)
  return (found, 1)

def detectKoreanSsn (text : Str) (found : List PiiMatch) : Checked (List PiiMatch) :=
  scan 14 (encode text).length (koreanSsnStep text) found 0

/-- `010-XXXX-XXXX` -/
def mobileAt (bytes : List UInt8) (i : ℕ) : Checked Bool :=
  allOf [.ok (i + 13 ≤ bytes.length), byteIs bytes i '0', byteIs bytes (i + 1) '1',
    byteIs bytes (i + 2) '0', byteIs bytes (i + 3) '-', digitsIn bytes (i + 4) (i + 8),
    byteIs bytes (i + 8) '-', digitsIn bytes (i + 9) (i + 13)]

/-- `0X-XXX-XXXX` -/
def landlineAt (bytes : List UInt8) (i : ℕ) : Checked Bool :=
  allOf [.ok (i + 11 ≤ bytes.length), byteIs bytes i '0', digitAt bytes (i + 1),
    byteIs bytes (i + 2) '-', digitsIn bytes (i + 3) (i + 6), byteIs bytes (i + 6) '-',
    digitsIn bytes (i + 7) (i + 11)]

def phoneNumberStep (text : Str) (found : List PiiMatch) (i : ℕ) :
    Checked (List PiiMatch × ℕ+) := do
  let bytes := encode text
  if ← mobileAt bytes i then
    let found ← pushSpan text .phoneNumber (90 / 100) i 13 found
    return (found, 13)
  if ← landlineAt bytes i then
    let found ← pushSpan text .phoneNumber (80 / 100) i 11 found
    return (found, 11)
  return (found, 1)

def detectPhoneNumbers (text : Str) (found : List PiiMatch) : Checked (List PiiMatch) :=
  scan 1 (encode text).length (phoneNumberStep text) found 0

def isLocalChar (table : CharTable) (c : Char) : Bool :=
  table.isAlphanumeric c || c == '.' || c == '_' || c == '-' || c == '+'

def isDomainChar (table : CharTable) (c : Char) : Bool :=
  table.isAlphanumeric c || c == '.' || c == '-'

/-- `while local_start > 0 && .. { local_start -= 1; }` -/
def localStart (table : CharTable) (chars : List Char) : ℕ → Checked ℕ
  | 0 => .ok 0
  | n + 1 => do
      let c ← getAt chars n
      if isLocalChar table c then localStart table chars n else return n + 1

/-- `while domain_end < len && .. { .. domain_end += 1; }`, with the last dot seen. -/
def domainEnd (table : CharTable) (chars : List Char) (stop : ℕ) (lastDot : Option ℕ) :
    Checked (ℕ × Option ℕ) :=
  if stop < chars.length then do
    let c ← getAt chars stop
    if isDomainChar table c then
      domainEnd table chars (stop + 1) (if c == '.' then some stop else lastDot)
    else return (stop, lastDot)
  else return (stop, lastDot)
termination_by chars.length - stop

/-- The last label must have two characters or more, all of them ASCII letters. -/
def hasValidTld (chars : List Char) (stop : ℕ) : Option ℕ → Checked Bool
  | some dotPos => do
      let tld ← getRange chars (dotPos + 1) stop
      return 2 ≤ tld.length && tld.all Char.isAlpha
  | none => return false

/-- `text.char_indices().nth(k).map(|(idx, _)| idx)` -/
def charOffset (text : Str) (k : ℕ) : Option ℕ :=
  if k < text.length then some (byteLen (text.take k)) else none

/-- One iteration for e-mail addresses, over characters: from an `@` outwards. -/
def emailStep (table : CharTable) (text : Str) (found : List PiiMatch) (i : ℕ) :
    Checked (List PiiMatch × ℕ+) := do
  let chars := text
  let c ← getAt chars i
  if c == '@' && 0 < i then
    let start ← localStart table chars i
    let (stop, lastDot) ← domainEnd table chars (i + 1) none
    let valid ← hasValidTld chars stop lastDot
    if start < i && i + 1 < stop && valid then
      let byteStart := (charOffset text start).getD 0
      let byteEnd := (charOffset text stop).getD (byteLen text)
      let matched ← strRange text byteStart byteEnd
      return (found ++ [⟨.email, byteStart, byteEnd, matched, 95 / 100⟩], (stop - i).toPNat')
  return (found, 1)

def detectEmails (table : CharTable) (text : Str) (found : List PiiMatch) :
    Checked (List PiiMatch) :=
  scan 1 text.length (emailStep table text) found 0

/-- Four groups of four digits with `sep` between them. -/
def groupsAt (sep : Char) (bytes : List UInt8) (i : ℕ) : Checked Bool :=
  allOf [digitsIn bytes i (i + 4), byteIs bytes (i + 4) sep, digitsIn bytes (i + 5) (i + 9),
    byteIs bytes (i + 9) sep, digitsIn bytes (i + 10) (i + 14), byteIs bytes (i + 14) sep,
    digitsIn bytes (i + 15) (i + 19)]

/-- `prev_ok && next_ok`: no digit directly before `i` nor at `j`. -/
def notInDigits (bytes : List UInt8) (i j : ℕ) : Checked Bool := do
  let prevOk ← orElse (.ok (i == 0)) ((digitAt bytes (i - 1)).map not)
  let nextOk ← orElse (.ok (bytes.length ≤ j)) ((digitAt bytes j).map not)
  return prevOk && nextOk

/-- One iteration for card numbers with dashes or spaces between the groups. -/
def groupedCardStep (text : Str) (found : List PiiMatch) (i : ℕ) :
    Checked (List PiiMatch × ℕ+) := do
  let bytes := encode text
  if ← groupsAt '-' bytes i then
    let found ← pushSpan text .cardNumber (90 / 100) i 19 found
    return (found, 19)
  if ← groupsAt ' ' bytes i then
    if ← notInDigits bytes i (i + 19) then
      let found ← pushSpan text .cardNumber (85 / 100) i 19 found
      return (found, 19)
  return (found, 1)

def plainCardStep (text : Str) (found : List PiiMatch) (j : ℕ) :
    Checked (List PiiMatch × ℕ+) := do
  let bytes := encode text
  if ← digitsIn bytes j (j + 16) then
    if ← notInDigits bytes j (j + 16) then
      let matched ← strRange text j (j + 16)
      let alreadyFound := found.any fun m => m.start ≤ j && j + 16 ≤ m.stop
      if !alreadyFound then
        return (found ++ [⟨.cardNumber, j, j + 16, matched, 75 / 100⟩], 16)
      return (found, 16)
  return (found, 1)

def detectCardNumbers (text : Str) (found : List PiiMatch) : Checked (List PiiMatch) := do
  let found ← scan 19 (encode text).length (groupedCardStep text) found 0
  scan 16 (encode text).length (plainCardStep text) found 0

/-! ### The context check and the whole pipeline -/

def contextKeywords : List Str :=
  ["주민번호".toList, "주민등록번호".toList, "전화번호".toList, "핸드폰".toList, "휴대폰".toList,
    "이메일".toList, "카드번호".toList, "신용카드".toList, "계좌번호".toList]

/-- The confidence of a match, raised when a keyword stands within 50 bytes of it. -/
def validateMatch (text : Str) (m : PiiMatch) : Checked PiiMatch := do
  let windowStart := m.start - 50
  let windowEnd := min (m.stop + 50) (byteLen text)
  let window ← strRange text windowStart windowEnd
  if contextKeywords.any fun keyword => decide (keyword <:+: window) then
    return { m with confidence := min (m.confidence + 1 / 10) 1 }
  return m

def validateContext (text : Str) (found : List PiiMatch) : Checked (List PiiMatch) :=
  found.mapM (validateMatch text)

/-- What the four scanners report, in the order they run. -/
def detectPatterns (table : CharTable) (text : Str) : Checked (List PiiMatch) := do
  let found ← detectKoreanSsn text []
  let found ← detectPhoneNumbers text found
  let found ← detectEmails table text found
  detectCardNumbers text found

def detect (table : CharTable) (text : Str) : Checked (List PiiMatch) := do
  let found ← detectPatterns table text
  validateContext text found

end NeuRust.Security
