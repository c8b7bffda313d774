import NeuRust.Security.PiiReports
import NeuRust.Text.Intervals
import Mathlib.Data.List.Sort

/-!
The masker. `apply_masks` sorts the matches by start and walks over them, replacing each match
that does not start before the end of the last one it replaced; what lies between the replaced
matches is copied. The loop is the greedy choice of `Intervals`, and its slices fall between
characters, so masking returns whenever `detect` does.
-/

namespace NeuRust.Security

open Utf8 Intervals

def maskOf : PiiType → Str
  | .koreanSsn => "******-*******".toList
  | .phoneNumber => "***-****-****".toList
  | .email => "****@****.***".toList
  | .cardNumber => "****-****-****-****".toList

/-- What the loop of `apply_masks` carries. `copied` is the record of the ranges of the text that
were appended to the result as they are. -/
structure Masking where
  result : Str
  lastEnd : ℕ
  copied : List (ℕ × ℕ)
  deriving DecidableEq

/-- `result.push_str(&text[last_end..stop])` -/
def Masking.copyUpTo (text : Str) (stop : ℕ) (st : Masking) : Checked Masking := do
  let piece ← strRange text st.lastEnd stop
  return { st with result := st.result ++ piece, copied := st.copied ++ [(st.lastEnd, stop)] }

def maskStep (text : Str) (st : Masking) (m : PiiMatch) : Checked Masking :=
  if m.start ≥ st.lastEnd then do
    let st ← st.copyUpTo text m.start
    return { st with result := st.result ++ maskOf m.piiType, lastEnd := m.stop }
  else return st

/-- The order that `sort_by_key(|m| m.start)` sorts by. -/
def StartLE (a b : PiiMatch) : Prop := a.start ≤ b.start

instance : DecidableRel StartLE := fun a b => inferInstanceAs (Decidable (a.start ≤ b.start))

instance : Std.Total StartLE := ⟨fun a b => Nat.le_total a.start b.start⟩

instance : IsTrans PiiMatch StartLE := ⟨fun _ _ _ hab hbc => Nat.le_trans hab hbc⟩

/-- `sorted.sort_by_key(|m| m.start)`. The sort is stable: matches with the same start stay in
the order in which they were found. -/
def sortByStart (ms : List PiiMatch) : List PiiMatch := ms.insertionSort StartLE

/-- Apply masks to text, with the record of what was copied. -/
def maskMatches (text : Str) (ms : List PiiMatch) : Checked Masking :=
  if ms.isEmpty then return ⟨text, 0, [(0, byteLen text)]⟩
  else do
    let st ← (sortByStart ms).foldlM (maskStep text) ⟨[], 0, []⟩
    st.copyUpTo text (byteLen text)

def applyMasks (text : Str) (ms : List PiiMatch) : Checked Str :=
  (maskMatches text ms).map Masking.result

/-- Mask all detected PII in the given text. -/
def maskText (table : CharTable) (text : Str) : Checked Str := do
  let ms ← detect table text
  if ms.isEmpty then return text
  applyMasks text ms

/-! ### The loop -/

def between (text : Str) (i j : ℕ) : Str := (slice text i j).getD []

theorem between_split {text : Str} {i j : ℕ} (hle : i ≤ j) (hi : IsCharBoundary text i)
    (hj : IsCharBoundary text j) :
    ∃ p q, text = p ++ between text i j ++ q ∧ byteLen p = i ∧
      byteLen p + byteLen (between text i j) = j := by
  obtain ⟨m, hm⟩ := Option.isSome_iff_exists.mp (slice_isSome_iff.mpr ⟨hle, hi, hj⟩)
  rw [between, hm, Option.getD_some]
  exact slice_eq_some_iff.mp hm

def maskedFrom (text : Str) : List PiiMatch → ℕ → Str
  | [], last => between text last (byteLen text)
  | m :: ms, last => between text last m.start ++ maskOf m.piiType ++ maskedFrom text ms m.stop

structure PiiMatch.Fits (text : Str) (m : PiiMatch) : Prop where
  start_boundary : IsCharBoundary text m.start
  stop_boundary : IsCharBoundary text m.stop
  start_lt_stop : m.start < m.stop

abbrev selectMatches (ms : List PiiMatch) (last : ℕ) : List PiiMatch :=
  select PiiMatch.start PiiMatch.stop ms last

theorem copyUpTo_eq {text : Str} {stop : ℕ} {st : Masking} (hle : st.lastEnd ≤ stop)
    (hlast : IsCharBoundary text st.lastEnd) (hstop : IsCharBoundary text stop) :
    st.copyUpTo text stop = .ok { st with
      result := st.result ++ between text st.lastEnd stop
      copied := st.copied ++ [(st.lastEnd, stop)] } := by
  rw [Masking.copyUpTo, strRange_of_boundaries hle hlast hstop]
  rfl

/-- The walk over any list of matches copies the gaps of its greedy choice. -/
theorem foldlM_maskStep {text : Str} {ms : List PiiMatch} (hfits : ∀ m ∈ ms, m.Fits text)
    {st : Masking} (hlast : IsCharBoundary text st.lastEnd) :
    (ms.foldlM (maskStep text) st >>= Masking.copyUpTo text (byteLen text)) =
      .ok ⟨st.result ++ maskedFrom text (selectMatches ms st.lastEnd) st.lastEnd,
        lastStop PiiMatch.start PiiMatch.stop ms st.lastEnd,
        st.copied ++ gaps PiiMatch.start PiiMatch.stop (selectMatches ms st.lastEnd) st.lastEnd
          (byteLen text)⟩ := by
  induction ms generalizing st with
  | nil => exact copyUpTo_eq hlast.le hlast (isCharBoundary_byteLen text)
  | cons m ms ih =>
      obtain ⟨hs, he, -⟩ := hfits m List.mem_cons_self
      have hrest : ∀ m' ∈ ms, m'.Fits text := fun m' hm' => hfits m' (List.mem_cons_of_mem m hm')
      rw [List.foldlM_cons, selectMatches, select, lastStop]
      by_cases htake : st.lastEnd ≤ m.start
      · rw [maskStep, if_pos htake, copyUpTo_eq htake hlast hs, if_pos htake, if_pos htake]
        let next : Masking :=
          ⟨st.result ++ between text st.lastEnd m.start ++ maskOf m.piiType, m.stop,
            st.copied ++ [(st.lastEnd, m.start)]⟩
        apply (ih hrest (show IsCharBoundary text next.lastEnd from he)).trans
        simp only [next, maskedFrom, gaps, List.append_assoc, List.singleton_append]
      · rw [maskStep, if_neg htake, if_neg htake, if_neg htake]
        exact ih hrest hlast

/-! ### Sorted matches -/

theorem mem_sortByStart {ms : List PiiMatch} {m : PiiMatch} : m ∈ sortByStart ms ↔ m ∈ ms :=
  List.mem_insertionSort StartLE

theorem sortByStart_sorted (ms : List PiiMatch) :
    (sortByStart ms).Pairwise fun a b => a.start ≤ b.start :=
  List.pairwise_insertionSort StartLE ms

theorem detect_fits {table : CharTable} {text : Str} {ms : List PiiMatch}
    (h : detect table text = .ok ms) : ∀ m ∈ ms, m.Fits text := by
  intro m hm
  obtain ⟨hs, he, hlt⟩ := ((detect_reports h _ _ _).mp ⟨m, hm, rfl, rfl, rfl⟩).boundaries
  exact ⟨hs, he, hlt⟩

/-- Masking what `detect` returned never panics; it keeps the gaps of the greedy choice. -/
theorem maskMatches_eq {text : Str} {ms : List PiiMatch} (hfits : ∀ m ∈ ms, m.Fits text) :
    ∃ last, maskMatches text ms =
      .ok ⟨maskedFrom text (selectMatches (sortByStart ms) 0) 0, last,
        gaps PiiMatch.start PiiMatch.stop (selectMatches (sortByStart ms) 0) 0
          (byteLen text)⟩ := by
  rw [maskMatches]
  by_cases hnil : ms = []
  · subst hnil
    have hwhole : between text 0 (byteLen text) = text := by
      have := slice_append [] text []
      simp only [List.nil_append, List.append_nil, byteLen_nil, Nat.zero_add] at this
      rw [between, this, Option.getD_some]
    refine ⟨0, ?_⟩
    simp [sortByStart, select, gaps, maskedFrom, hwhole]
  · rw [if_neg (by simpa using hnil)]
    have hsorted : ∀ m ∈ sortByStart ms, m.Fits text := fun m hm => hfits m (mem_sortByStart.mp hm)
    exact ⟨_, foldlM_maskStep hsorted (isCharBoundary_zero text)⟩

theorem maskText_eq {table : CharTable} {text : Str} {ms : List PiiMatch}
    (h : detect table text = .ok ms) :
    maskText table text = .ok (maskedFrom text (selectMatches (sortByStart ms) 0) 0) := by
  obtain ⟨last, hmask⟩ := maskMatches_eq (detect_fits h)
  have happly : applyMasks text ms =
      .ok (maskedFrom text (selectMatches (sortByStart ms) 0) 0) := by
    rw [applyMasks, hmask]
    rfl
  rw [maskText, h, ok_bind]
  split
  case isTrue hempty =>
    rw [applyMasks, maskMatches, if_pos hempty] at happly
    exact happly
  case isFalse => exact happly

/-! ### Panics -/

/-- `detect` and `mask_text` return normally exactly when, for every span of the text that is
PII, the offsets 50 bytes before and after it fall between characters. -/
theorem detect_maskText_ok_iff (table : CharTable) (text : Str) :
    ((∃ ms, detect table text = .ok ms) ∧ ∃ out, maskText table text = .ok out) ↔
      ∀ ty s e, PiiSpan table text ty s e →
        IsCharBoundary text (s - 50) ∧ IsCharBoundary text (min (e + 50) (byteLen text)) := by
  constructor
  · rintro ⟨hdetect, -⟩
    exact (detect_ok_iff table text).mp hdetect
  · intro hwindows
    obtain ⟨ms, hms⟩ := (detect_ok_iff table text).mpr hwindows
    exact ⟨⟨ms, hms⟩, _, maskText_eq hms⟩

/-- Seventeen syllables before a phone number put the start of its context window, at byte 1,
inside the first of them. -/
theorem detect_panics_in_syllable :
    ¬ ∀ table text, (∃ ms, detect table text = .ok ms) ∧ ∃ out, maskText table text = .ok out := by
  intro h
  obtain ⟨⟨ms, hms⟩, -⟩ := h .hangul "가가가가가가가가가가가가가가가가가010-1234-5678".toList
  have herr : detect .hangul "가가가가가가가가가가가가가가가가가010-1234-5678".toList =
      .error .charBoundary := by
    decide +kernel
  rw [herr] at hms
  cases hms

end NeuRust.Security
