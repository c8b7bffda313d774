import Mathlib.Data.List.Basic
import Mathlib.Algebra.Order.Ring.Nat
import Mathlib.Algebra.BigOperators.Group.List.Basic

/-!
Byte offsets into UTF-8 text. A text is the list of its scalar values; an offset counts
encoded bytes. Slicing a text by offsets is partial: it succeeds exactly when both offsets
fall between two characters. An ASCII byte of the encoding is a whole character, which is
what makes offsets found by scanning the bytes for ASCII patterns safe to slice at.
-/

namespace NeuRust

/-- A `str` is the sequence of its Unicode scalar values. -/
abbrev Str := List Char

namespace Utf8

def byteLen (t : List Char) : ℕ := (t.map Char.utf8Size).sum

def encode (t : List Char) : List UInt8 := t.flatMap String.utf8EncodeChar

@[simp] theorem byteLen_nil : byteLen [] = 0 := rfl

@[simp] theorem byteLen_cons (c : Char) (t : List Char) :
    byteLen (c :: t) = c.utf8Size + byteLen t := by
  simp [byteLen]

@[simp] theorem byteLen_append (a b : List Char) :
    byteLen (a ++ b) = byteLen a + byteLen b := by
  simp [byteLen]

@[simp] theorem encode_cons (c : Char) (t : List Char) :
    encode (c :: t) = String.utf8EncodeChar c ++ encode t := by
  simp [encode]

@[simp] theorem encode_append (a b : List Char) : encode (a ++ b) = encode a ++ encode b := by
  simp [encode]

@[simp] theorem length_encode (t : List Char) : (encode t).length = byteLen t := by
  induction t with
  | nil => rfl
  | cons c t ih => simp [ih]

theorem encode_injective : Function.Injective encode := by
  intro a b h
  have hbytes : a.utf8Encode = b.utf8Encode := congrArg List.toByteArray h
  have hstr : String.ofList a = String.ofList b := String.toByteArray_inj.mp (by simpa using hbytes)
  simpa using congrArg String.toList hstr

theorem byteLen_eq_zero {t : List Char} : byteLen t = 0 ↔ t = [] := by
  cases t with
  | nil => simp
  | cons c t =>
      have := Char.utf8Size_pos c
      simp
      omega

theorem byteLen_le (t : List Char) : byteLen t ≤ 4 * t.length := by
  induction t with
  | nil => exact le_rfl
  | cons c t ih =>
      have := Char.utf8Size_le_four c
      rw [byteLen_cons, List.length_cons]
      omega

/-- Two beginnings of one text are ordered as their byte lengths are. -/
theorem append_split {a b a' b' : List Char} (h : a ++ b = a' ++ b')
    (hle : byteLen a ≤ byteLen a') : ∃ m, a' = a ++ m ∧ b = m ++ b' := by
  rcases List.append_eq_append_iff.mp h with ⟨m, rfl, rfl⟩ | ⟨m, rfl, rfl⟩
  · exact ⟨m, rfl, rfl⟩
  · have hm : m = [] := byteLen_eq_zero.mp (by simp at hle; omega)
    subst hm
    exact ⟨[], by simp, by simp⟩

theorem append_inj {a b a' b' : List Char} (h : a ++ b = a' ++ b')
    (hlen : byteLen a = byteLen a') : a = a' ∧ b = b' := by
  obtain ⟨m, rfl, rfl⟩ := append_split h hlen.le
  have hm : m = [] := byteLen_eq_zero.mp (by simp at hlen; omega)
  subst hm
  simp

/-! ### Cutting a text at an offset -/

/-- The two halves of a text around the byte offset `n`, when it falls between characters. -/
def cut : List Char → ℕ → Option (List Char × List Char)
  | t, 0 => some ([], t)
  | [], _ + 1 => none
  | c :: t, n + 1 =>
      if c.utf8Size ≤ n + 1 then
        (cut t (n + 1 - c.utf8Size)).map fun p => (c :: p.1, p.2)
      else none

theorem cut_append (a b : List Char) : cut (a ++ b) (byteLen a) = some (a, b) := by
  induction a with
  | nil => simp [cut]
  | cons c a ih =>
      have hpos := Char.utf8Size_pos c
      obtain ⟨n, hn⟩ : ∃ n, byteLen (c :: a) = n + 1 := ⟨byteLen (c :: a) - 1, by simp; omega⟩
      have hrest : n + 1 - c.utf8Size = byteLen a := by simp at hn; omega
      have hle : c.utf8Size ≤ n + 1 := by simp at hn; omega
      rw [hn, List.cons_append, cut, if_pos hle, hrest, ih]
      rfl

theorem of_cut_eq_some {t : List Char} {n : ℕ} {a b : List Char}
    (h : cut t n = some (a, b)) : t = a ++ b ∧ byteLen a = n := by
  induction t generalizing n a b with
  | nil =>
      cases n with
      | zero => simp [cut] at h; obtain ⟨rfl, rfl⟩ := h; simp
      | succ n => simp [cut] at h
  | cons c t ih =>
      cases n with
      | zero => simp [cut] at h; obtain ⟨rfl, rfl⟩ := h; simp
      | succ n =>
          rw [cut] at h
          split at h
          case isTrue hle =>
            obtain ⟨⟨a', b'⟩, hcut, hpair⟩ := Option.map_eq_some_iff.mp h
            obtain ⟨rfl, hlen⟩ := ih hcut
            simp only [Prod.mk.injEq] at hpair
            obtain ⟨rfl, rfl⟩ := hpair
            exact ⟨rfl, by simp; omega⟩
          case isFalse => cases h

theorem cut_eq_some_iff {t : List Char} {n : ℕ} {a b : List Char} :
    cut t n = some (a, b) ↔ t = a ++ b ∧ byteLen a = n := by
  constructor
  · exact of_cut_eq_some
  · rintro ⟨rfl, rfl⟩
    exact cut_append a b

/-- The offset is the start of the text, its end, or lies between two characters. -/
def IsCharBoundary (t : List Char) (n : ℕ) : Prop := (cut t n).isSome

instance (t : List Char) (n : ℕ) : Decidable (IsCharBoundary t n) :=
  inferInstanceAs (Decidable ((cut t n).isSome = true))

theorem isCharBoundary_iff {t : List Char} {n : ℕ} :
    IsCharBoundary t n ↔ ∃ a b, t = a ++ b ∧ byteLen a = n := by
  rw [IsCharBoundary, Option.isSome_iff_exists]
  constructor
  · rintro ⟨⟨a, b⟩, h⟩
    exact ⟨a, b, of_cut_eq_some h⟩
  · rintro ⟨a, b, h⟩
    exact ⟨(a, b), cut_eq_some_iff.mpr h⟩

theorem isCharBoundary_append (a b : List Char) : IsCharBoundary (a ++ b) (byteLen a) :=
  isCharBoundary_iff.mpr ⟨a, b, rfl, rfl⟩

theorem isCharBoundary_zero (t : List Char) : IsCharBoundary t 0 := isCharBoundary_append [] t

theorem isCharBoundary_byteLen (t : List Char) : IsCharBoundary t (byteLen t) := by
  simpa using isCharBoundary_append t []

theorem IsCharBoundary.le {t : List Char} {n : ℕ} (h : IsCharBoundary t n) : n ≤ byteLen t := by
  obtain ⟨a, b, rfl, rfl⟩ := isCharBoundary_iff.mp h
  simp

/-! ### Slices -/

/-- The text from offset `i` up to offset `j`; nothing when an offset splits a character, lies
past the end, or the offsets are crossed. -/
def slice (t : List Char) (i j : ℕ) : Option (List Char) :=
  if i ≤ j then
    (cut t i).bind fun p => (cut p.2 (j - i)).map Prod.fst
  else none

theorem slice_append (a m b : List Char) :
    slice (a ++ m ++ b) (byteLen a) (byteLen a + byteLen m) = some m := by
  simp [slice, cut_append]

theorem slice_eq_some_iff {t : List Char} {i j : ℕ} {m : List Char} :
    slice t i j = some m ↔
      ∃ a b, t = a ++ m ++ b ∧ byteLen a = i ∧ byteLen a + byteLen m = j := by
  constructor
  · intro h
    rw [slice] at h
    split at h
    case isTrue hle =>
      obtain ⟨⟨a, r⟩, ha, hr⟩ := Option.bind_eq_some_iff.mp h
      obtain ⟨⟨m', b⟩, hb, rfl⟩ := Option.map_eq_some_iff.mp hr
      obtain ⟨rfl, rfl⟩ := of_cut_eq_some ha
      obtain ⟨rfl, hlen⟩ := of_cut_eq_some hb
      exact ⟨a, b, by simp, rfl, by dsimp only; omega⟩
    case isFalse => cases h
  · rintro ⟨a, b, rfl, rfl, rfl⟩
    exact slice_append a m b

theorem slice_isSome_iff {t : List Char} {i j : ℕ} :
    (slice t i j).isSome ↔ i ≤ j ∧ IsCharBoundary t i ∧ IsCharBoundary t j := by
  rw [Option.isSome_iff_exists]
  constructor
  · rintro ⟨m, hm⟩
    obtain ⟨a, b, rfl, rfl, rfl⟩ := slice_eq_some_iff.mp hm
    refine ⟨by omega, isCharBoundary_iff.mpr ⟨a, m ++ b, by simp, rfl⟩, ?_⟩
    exact isCharBoundary_iff.mpr ⟨a ++ m, b, rfl, by simp⟩
  · rintro ⟨hle, hi, hj⟩
    obtain ⟨a, r, rfl, rfl⟩ := isCharBoundary_iff.mp hi
    obtain ⟨a', b, h, rfl⟩ := isCharBoundary_iff.mp hj
    obtain ⟨m, rfl, rfl⟩ := append_split h hle
    exact ⟨m, by simpa using slice_append a m b⟩

/-! ### ASCII bytes -/

theorem toNat_le_toNat_or (x y : UInt8) : y.toNat ≤ (x ||| y).toNat := by
  rw [UInt8.toNat_or]
  exact Nat.right_le_or

/-- Every byte of a character that takes more than one is at least `0x80`. -/
theorem le_of_mem_utf8EncodeChar {c : Char} (hc : c.utf8Size ≠ 1) {b : UInt8}
    (hb : b ∈ String.utf8EncodeChar c) : 128 ≤ b.toNat := by
  have hlarge : ¬ c.val ≤ 0x7f := fun h => hc (Char.utf8Size_eq_one_iff.mpr h)
  rw [String.utf8EncodeChar_eq_utf8EncodeCharFast] at hb
  simp only [String.utf8EncodeCharFast, if_neg hlarge] at hb
  have high (x y : UInt8) (hy : 128 ≤ y.toNat) : 128 ≤ (x ||| y).toNat :=
    hy.trans (toNat_le_toNat_or x y)
  split at hb
  · simp only [List.mem_cons, List.not_mem_nil, or_false] at hb
    rcases hb with rfl | rfl <;> exact high _ _ (by decide)
  split at hb
  · simp only [List.mem_cons, List.not_mem_nil, or_false] at hb
    rcases hb with rfl | rfl | rfl <;> exact high _ _ (by decide)
  · simp only [List.mem_cons, List.not_mem_nil, or_false] at hb
    rcases hb with rfl | rfl | rfl | rfl <;> exact high _ _ (by decide)

/-- An ASCII byte of the encoding is the whole encoding of one character. -/
theorem exists_char_of_ascii {t : List Char} {n : ℕ} {b : UInt8}
    (hb : (encode t)[n]? = some b) (hlt : b.toNat < 128) :
    ∃ a c r, t = a ++ c :: r ∧ byteLen a = n ∧ String.utf8EncodeChar c = [b] := by
  induction t generalizing n with
  | nil => simp at hb
  | cons c t ih =>
      rw [encode_cons] at hb
      by_cases hn : n < (String.utf8EncodeChar c).length
      · rw [List.getElem?_append_left hn] at hb
        have hsize : c.utf8Size = 1 := by
          by_contra hne
          have := le_of_mem_utf8EncodeChar hne (List.mem_of_getElem? hb)
          omega
        have hlen : (String.utf8EncodeChar c).length = 1 := by simpa using hsize
        obtain ⟨b', hb'⟩ := List.length_eq_one_iff.mp hlen
        have hzero : n = 0 := by omega
        subst hzero
        rw [hb'] at hb
        simp only [List.getElem?_cons_zero, Option.some.injEq] at hb
        exact ⟨[], c, t, rfl, rfl, by rw [hb', hb]⟩
      · rw [List.getElem?_append_right (by omega)] at hb
        obtain ⟨a, d, r, rfl, hlen, hd⟩ := ih hb
        refine ⟨c :: a, d, r, rfl, ?_, hd⟩
        rw [String.length_utf8EncodeChar] at hlen hn
        simp
        omega

theorem toNat_of_utf8EncodeChar {c : Char} {b : UInt8} (h : String.utf8EncodeChar c = [b]) :
    c.toNat = b.toNat := by
  have hsize : c.utf8Size = 1 := by
    rw [← String.length_utf8EncodeChar, h]
    rfl
  have hle : c.val ≤ 0x7f := Char.utf8Size_eq_one_iff.mp hsize
  rw [String.utf8EncodeChar_eq_utf8EncodeCharFast] at h
  simp only [String.utf8EncodeCharFast, if_pos hle, List.cons.injEq, and_true] at h
  have hlt : c.toNat < 256 := by
    have := UInt32.le_iff_toNat_le.mp hle
    simp at this
    omega
  rw [← h, UInt32.toNat_toUInt8]
  exact (Nat.mod_eq_of_lt hlt).symm

theorem utf8EncodeChar_ofUInt8 {b : UInt8} (h : b.toNat < 128) :
    String.utf8EncodeChar (Char.ofUInt8 b) = [b] := by
  have hval : (Char.ofUInt8 b).val = b.toUInt32 := rfl
  have hle : (Char.ofUInt8 b).val ≤ 0x7f := by
    rw [hval, UInt32.le_iff_toNat_le]
    simp
    omega
  rw [String.utf8EncodeChar_eq_utf8EncodeCharFast, String.utf8EncodeCharFast, if_pos hle, hval]
  simp

theorem head_of_ascii {p q : List Char} {b : UInt8}
    (hb : (encode (p ++ q))[byteLen p]? = some b) (hlt : b.toNat < 128) :
    ∃ c r, q = c :: r ∧ c.toNat = b.toNat := by
  obtain ⟨a, c, r, heq, hlen, hc⟩ := exists_char_of_ascii hb hlt
  obtain ⟨-, rfl⟩ := append_inj heq hlen.symm
  exact ⟨c, r, rfl, toNat_of_utf8EncodeChar hc⟩

theorem last_of_ascii {p q : List Char} {n : ℕ} {b : UInt8} (hn : byteLen p = n + 1)
    (hb : (encode (p ++ q))[n]? = some b) (hlt : b.toNat < 128) :
    ∃ a c, p = a ++ [c] ∧ c.toNat = b.toNat := by
  obtain ⟨a, c, r, heq, hlen, hc⟩ := exists_char_of_ascii hb hlt
  have hsize : c.utf8Size = 1 := by
    rw [← String.length_utf8EncodeChar, hc]
    rfl
  have hsplit : p ++ q = (a ++ [c]) ++ r := by
    rw [heq, List.append_assoc, List.singleton_append]
  obtain ⟨rfl, -⟩ := append_inj hsplit (by simp [hsize]; omega)
  exact ⟨a, c, rfl, toNat_of_utf8EncodeChar hc⟩

theorem isCharBoundary_of_ascii {t : List Char} {n : ℕ} {b : UInt8}
    (hb : (encode t)[n]? = some b) (hlt : b.toNat < 128) : IsCharBoundary t n := by
  obtain ⟨a, c, r, rfl, rfl, -⟩ := exists_char_of_ascii hb hlt
  exact isCharBoundary_append a (c :: r)

theorem isCharBoundary_succ_of_ascii {t : List Char} {n : ℕ} {b : UInt8}
    (hb : (encode t)[n]? = some b) (hlt : b.toNat < 128) : IsCharBoundary t (n + 1) := by
  obtain ⟨a, c, r, rfl, rfl, hc⟩ := exists_char_of_ascii hb hlt
  have hsize : c.utf8Size = 1 := by
    rw [← String.length_utf8EncodeChar, hc]
    rfl
  exact isCharBoundary_iff.mpr ⟨a ++ [c], r, by simp, by simp [hsize]⟩

end Utf8

end NeuRust
