import NeuRust.Text.Utf8
import Mathlib.Data.List.DropRight

/-!
Reading a byte stream line by line, and the string functions that take lines apart. A line keeps
its line feed; the last one may lack it, and is lost if the stream fails before one comes.
-/

namespace NeuRust

/-! ### Strings -/

/-- The characters with the property `White_Space`. -/
def isWhitespace (c : Char) : Bool :=
  let n := c.toNat
  (0x9 ≤ n && n ≤ 0xD) || n = 0x20 || n = 0x85 || n = 0xA0 || n = 0x1680 ||
    (0x2000 ≤ n && n ≤ 0x200A) || n = 0x2028 || n = 0x2029 || n = 0x202F || n = 0x205F ||
    n = 0x3000

/-- `str::trim` -/
def trim (s : Str) : Str := (s.dropWhile isWhitespace).rdropWhile isWhitespace

theorem trim_append_whitespace {c : Char} (hc : isWhitespace c = true) (s : Str) :
    trim (s ++ [c]) = trim s := by
  rw [trim, trim, List.dropWhile_append]
  split_ifs with hblank
  · have hempty : s.dropWhile isWhitespace = [] := List.isEmpty_iff.mp hblank
    rw [hempty, List.dropWhile_cons_of_pos hc]
    rfl
  · exact List.rdropWhile_concat_pos _ _ _ hc

theorem trim_cons_whitespace {c : Char} (hc : isWhitespace c = true) (s : Str) :
    trim (c :: s) = trim s := by
  rw [trim, trim, List.dropWhile_cons_of_pos hc]

theorem mem_of_mem_trim {s : Str} {c : Char} (h : c ∈ trim s) : c ∈ s :=
  (List.dropWhile_suffix _).subset ((List.rdropWhile_prefix _ _).subset h)

theorem trim_trim (s : Str) : trim (trim s) = trim s := by
  have hhead : (trim s).dropWhile isWhitespace = trim s := by
    rw [List.dropWhile_eq_self_iff]
    intro hpos
    have hinit : trim s <+: s.dropWhile isWhitespace := List.rdropWhile_prefix _ _
    have hlength := lt_of_lt_of_le hpos hinit.length_le
    rw [hinit.getElem hpos]
    exact List.dropWhile_get_zero_not isWhitespace s hlength
  rw [trim, hhead, trim, List.rdropWhile_idempotent]

/-- `str::split_whitespace` -/
def splitWhitespace (s : Str) : List Str := (s.splitOnP isWhitespace).filter (· ≠ [])

@[simp] theorem splitWhitespace_nil : splitWhitespace [] = [] := rfl

/-- The words on both sides of white space are words by themselves. -/
theorem splitWhitespace_append_cons {c : Char} (hc : isWhitespace c = true) (s t : Str) :
    splitWhitespace (s ++ c :: t) = splitWhitespace s ++ splitWhitespace t := by
  rw [splitWhitespace, List.splitOnP_append_cons s t hc, List.filter_append]
  rfl

/-- `str::strip_prefix` -/
def stripPrefix : Str → Str → Option Str
  | [], s => some s
  | _ :: _, [] => none
  | c :: p, d :: s => if c = d then stripPrefix p s else none

theorem stripPrefix_eq_some_iff {p s rest : Str} :
    stripPrefix p s = some rest ↔ s = p ++ rest := by
  induction p generalizing s with
  | nil => simp [stripPrefix]
  | cons c p ih =>
      cases s with
      | nil => simp [stripPrefix]
      | cons d s =>
          rw [stripPrefix, List.cons_append]
          by_cases hcd : c = d
          · simp [hcd, ih]
          · simp [hcd, Ne.symm hcd]

/-! ### Bytes -/

/-- `String::from_utf8` -/
def decodeUtf8 (bytes : List UInt8) : Option Str := bytes.toByteArray.utf8Decode?.map Array.toList

@[simp] theorem decodeUtf8_encode (s : Str) : decodeUtf8 (Utf8.encode s) = some s := by
  have h : (Utf8.encode s).toByteArray = s.utf8Encode := rfl
  rw [decodeUtf8, h, List.utf8Decode?_utf8Encode]
  simp

/-- The bytes up to each line feed, and what comes after the last one. -/
def splitLines : List UInt8 → List (List UInt8)
  | [] => []
  | b :: bytes =>
      if b = 10 then [b] :: splitLines bytes
      else
        match splitLines bytes with
        | [] => [[b]]
        | line :: lines => (b :: line) :: lines

/-- A byte stream, and the error that it ends with if it fails. -/
structure ByteStream where
  bytes : List UInt8
  failure : Option Str := none

def readLine (line : List UInt8) : Except Str Str :=
  match decodeUtf8 line with
  | some s => .ok s
  | none => .error "stream did not contain valid UTF-8".toList

/-- What the calls of `read_line` give one after the other, as if none were the last. -/
def readLines (stream : ByteStream) : List (Except Str Str) :=
  match stream.failure with
  | none => (splitLines stream.bytes).map readLine
  | some message =>
      ((splitLines stream.bytes).filter fun line => line.getLast? = some 10).map readLine ++
        [.error message]

/-! ### Lines of a text -/

theorem splitLines_append {line : List UInt8} (h : 10 ∉ line) (bytes : List UInt8) :
    splitLines (line ++ 10 :: bytes) = (line ++ [10]) :: splitLines bytes := by
  induction line with
  | nil => simp [splitLines]
  | cons b line ih =>
      obtain ⟨hb, hline⟩ := not_or.mp (mt List.mem_cons.mpr h)
      rw [List.cons_append, splitLines, if_neg (Ne.symm hb), ih hline]
      rfl

/-- Bytes are line after line, and a last piece without a line feed. -/
theorem lines_induction {P : List UInt8 → Prop} (hlast : ∀ line, 10 ∉ line → P line)
    (hline : ∀ line bytes, 10 ∉ line → P bytes → P (line ++ 10 :: bytes)) (bytes : List UInt8) :
    P bytes := by
  induction hlength : bytes.length using Nat.strong_induction_on generalizing bytes with
  | _ n ih =>
      by_cases hfeed : 10 ∈ bytes
      · obtain ⟨line, rest, rfl, hfresh⟩ := List.eq_append_cons_of_mem hfeed
        refine hline line rest hfresh (ih rest.length ?_ rest rfl)
        rw [← hlength, List.length_append, List.length_cons]
        omega
      · exact hlast bytes hfeed

def wholeLines (bytes : List UInt8) : List (List UInt8) :=
  (splitLines bytes).filter fun line => line.getLast? = some 10

theorem wholeLines_append {line : List UInt8} (h : 10 ∉ line) (bytes : List UInt8) :
    wholeLines (line ++ 10 :: bytes) = (line ++ [10]) :: wholeLines bytes := by
  rw [wholeLines, splitLines_append h, List.filter_cons_of_pos (by simp)]
  rfl

theorem wholeLines_of_notMem {line : List UInt8} (h : 10 ∉ line) : wholeLines line = [] := by
  have hsplit : splitLines line = if line = [] then [] else [line] := by
    induction line with
    | nil => rfl
    | cons b line ih =>
        obtain ⟨hb, hline⟩ := not_or.mp (mt List.mem_cons.mpr h)
        rw [splitLines, if_neg (Ne.symm hb), ih hline]
        split_ifs <;> simp_all
  rw [wholeLines, hsplit, List.filter_eq_nil_iff]
  intro piece hpiece hlast
  split_ifs at hpiece
  · cases hpiece
  · obtain rfl := List.mem_singleton.mp hpiece
    exact h (List.mem_of_getLast? (of_decide_eq_true hlast))

/-- The whole lines of some bytes are lines of more bytes, in the first place. -/
theorem wholeLines_prefix (bytes more : List UInt8) :
    wholeLines bytes <+: wholeLines (bytes ++ more) ∧
      wholeLines bytes <+: splitLines (bytes ++ more) := by
  induction bytes using lines_induction with
  | hlast line hline =>
      rw [wholeLines_of_notMem hline]
      exact ⟨List.nil_prefix, List.nil_prefix⟩
  | hline line bytes hline ih =>
      rw [List.append_assoc, List.cons_append, wholeLines_append hline, wholeLines_append hline,
        splitLines_append hline, List.prefix_cons_inj, List.prefix_cons_inj]
      exact ih

/-- What has been read of a stream when it fails is read of a longer one first. -/
theorem exists_readLines_take (bytes : List UInt8) (ending : Option Str) (n : ℕ) (message : Str) :
    ∃ lines rest, readLines ⟨bytes.take n, some message⟩ = lines ++ [.error message] ∧
      readLines ⟨bytes, ending⟩ = lines ++ rest := by
  obtain ⟨hwhole, hsplit⟩ := wholeLines_prefix (bytes.take n) (bytes.drop n)
  rw [List.take_append_drop] at hwhole hsplit
  refine ⟨(wholeLines (bytes.take n)).map readLine, ?_⟩
  cases ending with
  | none =>
      obtain ⟨rest, hrest⟩ := hsplit
      refine ⟨rest.map readLine, rfl, ?_⟩
      rw [readLines, ← hrest, List.map_append]
  | some failure =>
      obtain ⟨rest, hrest⟩ := hwhole
      refine ⟨rest.map readLine ++ [.error failure], rfl, ?_⟩
      rw [← List.append_assoc, ← List.map_append, hrest]
      rfl

/-- A line feed is encoded by itself, and by nothing else. -/
theorem ten_notMem_encode {s : Str} (h : '\n' ∉ s) : 10 ∉ Utf8.encode s := by
  intro hten
  obtain ⟨n, hn⟩ := List.mem_iff_getElem?.mp hten
  obtain ⟨a, c, r, rfl, -, hc⟩ := Utf8.exists_char_of_ascii hn (by decide)
  have hfeed : c = '\n' := Char.toNat_inj.mp (Utf8.toNat_of_utf8EncodeChar hc)
  apply h
  simp [hfeed]

theorem readLines_cons {line : Str} (h : '\n' ∉ line) (bytes : List UInt8) (failure : Option Str) :
    readLines ⟨Utf8.encode (line ++ ['\n']) ++ bytes, failure⟩ =
      .ok (line ++ ['\n']) :: readLines ⟨bytes, failure⟩ := by
  have hfeed : Utf8.encode ['\n'] = [10] := rfl
  have hline : Utf8.encode (line ++ ['\n']) ++ bytes = Utf8.encode line ++ 10 :: bytes := by
    rw [Utf8.encode_append, hfeed, List.append_assoc, List.singleton_append]
  have hread : readLine (Utf8.encode line ++ [10]) = .ok (line ++ ['\n']) := by
    rw [readLine, ← hfeed, ← Utf8.encode_append, decodeUtf8_encode]
  rw [hline]
  cases failure with
  | none =>
      show (splitLines _).map readLine = _
      rw [splitLines_append (ten_notMem_encode h), List.map_cons, hread]
      rfl
  | some message =>
      show (wholeLines _).map readLine ++ _ = _
      rw [wholeLines_append (ten_notMem_encode h), List.map_cons, hread]
      rfl

/-- The lines of a text are read one by one, before whatever comes after them. -/
theorem readLines_append {lines : List Str} (h : ∀ line ∈ lines, '\n' ∉ line)
    (bytes : List UInt8) (failure : Option Str) :
    readLines ⟨Utf8.encode (lines.flatMap (· ++ ['\n'])) ++ bytes, failure⟩ =
      (lines.map fun line => .ok (line ++ ['\n'])) ++ readLines ⟨bytes, failure⟩ := by
  induction lines with
  | nil => rfl
  | cons line lines ih =>
      obtain ⟨hline, hlines⟩ := List.forall_mem_cons.mp h
      rw [List.flatMap_cons, Utf8.encode_append, List.append_assoc, readLines_cons hline, ih hlines]
      rfl

/-- The bytes of a text are read back line by line. -/
theorem readLines_encode {lines : List Str} (h : ∀ line ∈ lines, '\n' ∉ line) :
    readLines ⟨Utf8.encode (lines.flatMap (· ++ ['\n'])), none⟩ =
      lines.map fun line => .ok (line ++ ['\n']) := by
  have hread := readLines_append h [] none
  rw [List.append_nil] at hread
  rw [hread]
  exact List.append_nil _

end NeuRust
