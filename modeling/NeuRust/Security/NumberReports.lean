import NeuRust.Security.NumberScanners

/-!
The matches for resident numbers and for card numbers without separators as lists: the scanners
append one match for each occurrence, from left to right.
-/

namespace NeuRust.Security

open Utf8 Scan Runs

structure IsReport (text : Str) (ty : PiiType) (n : ℕ) (m : PiiMatch) : Prop where
  type : m.piiType = ty
  stop : m.stop = m.start + n
  text : slice text m.start m.stop = some m.matchedText

/-- Each start once, and from left to right. -/
def InOrder (ms : List PiiMatch) : Prop := ms.Pairwise fun a b => a.start < b.start

def SeparatorFree (m : PiiMatch) : Prop := ∀ b ∈ encode m.matchedText, isAsciiDigit b = true

/-! ### Matches from positions -/

theorem spanMatch_isReport {text : Str} {tpl : Template} {i n : ℕ} (hn : tpl.length = n)
    (hpos : 0 < n) (h : fitsAt tpl (encode text) i = true) (ty : PiiType) (confidence : ℚ) :
    IsReport text ty n (spanMatch text ty confidence i n) := by
  subst hn
  obtain ⟨hi, hj⟩ := fitsAt_boundaries (List.ne_nil_of_length_pos hpos) h
  obtain ⟨s, hs⟩ := Option.isSome_iff_exists.mp
    (slice_isSome_iff.mpr ⟨Nat.le_add_right i tpl.length, hi, hj⟩)
  refine ⟨rfl, rfl, ?_⟩
  simp only [spanMatch]
  rw [hs, Option.getD_some]

theorem encode_slice {text s : Str} {i j : ℕ} (h : slice text i j = some s) :
    encode s = ((encode text).drop i).take (j - i) := by
  obtain ⟨a, b, rfl, rfl, rfl⟩ := slice_eq_some_iff.mp h
  rw [Nat.add_sub_cancel_left, List.append_assoc, encode_append, encode_append,
    List.drop_left' (length_encode a), List.take_left' (length_encode s)]

section

variable {f : ℕ → PiiMatch} {js : List ℕ}

theorem inOrder_map (hstart : ∀ j, (f j).start = j) (hjs : js.Pairwise (· < ·)) :
    InOrder (js.map f) := by
  rw [InOrder, List.pairwise_map]
  simpa only [hstart] using hjs

theorem flatMap_ite_singleton (p : ℕ → Prop) [DecidablePred p] :
    (js.flatMap fun j => if p j then [f j] else []) = (js.filter p).map f := by
  induction js with
  | nil => rfl
  | cons j js ih =>
      by_cases hj : p j
      · simp [List.flatMap_cons, ih, hj]
      · simp [List.flatMap_cons, ih, hj]

theorem exists_start_iff (hstart : ∀ j, (f j).start = j) (i : ℕ) :
    (∃ m ∈ js.map f, m.start = i) ↔ i ∈ js := by
  constructor
  · rintro ⟨m, hm, rfl⟩
    obtain ⟨j, hj, rfl⟩ := List.mem_map.mp hm
    rwa [hstart]
  · exact fun hi => ⟨f i, List.mem_map_of_mem hi, hstart i⟩

end

/-! ### Digits -/

/-- The plain pattern fits at the runs of sixteen digits. -/
theorem plainCardAt_iff {bytes : List UInt8} {i : ℕ} :
    plainCardAt bytes i = true ↔ MaximalRun isAsciiDigit bytes i (i + 16) := by
  by_cases hle : i + 16 ≤ bytes.length
  · rw [maximalRun_iff (Nat.le_add_right i 16) hle, plainCardAt, Bool.and_eq_true, plain,
      ← all_take_drop_eq_fitsAt 16 hle, List.all_eq_true, Nat.add_sub_cancel_left, clearOfDigits,
      Bool.and_eq_true]
    apply and_congr Iff.rfl
    apply and_congr
    · cases i with
      | zero => simp
      | succ i => cases hb : bytes[i]? <;> simp [hb]
    · cases hb : bytes[i + 16]? <;> simp
  · constructor
    · intro h
      rw [plainCardAt, Bool.and_eq_true] at h
      exact absurd (fitsAt_length_le (by decide) h.1) hle
    · rintro ⟨a, b, c, rfl, rfl, hlen, -, -⟩
      simp only [List.length_append] at hle
      omega

/-- A match for a card number with separators has one at its fifth byte. -/
theorem cardMatch_not_separatorFree {text : Str} {i : ℕ} {k : ℕ+}
    (h : cardAt (encode text) i = some k) : ¬ SeparatorFree (cardMatch text i) := by
  obtain ⟨sep, confidence, hsep, hfit, hmatch⟩ : ∃ (sep : Slot) (confidence : ℚ),
      (∀ b, sep.accepts b = true → isAsciiDigit b = false) ∧
      fitsAt (grouped sep) (encode text) i = true ∧
      cardMatch text i = spanMatch text .cardNumber confidence i 19 := by
    rw [cardMatch]
    split_ifs with hdash
    · refine ⟨.dash, _, fun b hb => ?_, hdash, rfl⟩
      rw [Slot.accepts_dash, beq_iff_eq] at hb
      rw [hb]
      decide
    · obtain ⟨-, hfit⟩ := cardAt_eq_some_iff.mp h
      refine ⟨.space, _, fun b hb => ?_, (hfit.resolve_left hdash).1, rfl⟩
      rw [Slot.accepts_space, beq_iff_eq] at hb
      rw [hb]
      decide
  intro hfree
  obtain ⟨b, hb, hslot, -⟩ := fitsAt_byte hfit (k := 4) (by simp)
  have hreport := spanMatch_isReport (length_grouped sep) (by decide) hfit .cardNumber confidence
  have hbytes := encode_slice hreport.text
  rw [hreport.stop, Nat.add_sub_cancel_left] at hbytes
  have hmem : b ∈ encode (cardMatch text i).matchedText := by
    rw [hmatch, hbytes]
    apply List.mem_of_getElem? (i := 4)
    rw [List.getElem?_take_of_lt (by decide), List.getElem?_drop]
    exact hb
  have hdigit := hfree b hmem
  rw [hsep b hslot] at hdigit
  cases hdigit

theorem plainCard_separatorFree {text : Str} {i : ℕ}
    (h : plainCardAt (encode text) i = true) (confidence : ℚ) :
    IsReport text .cardNumber 16 (spanMatch text .cardNumber confidence i 16) ∧
      SeparatorFree (spanMatch text .cardNumber confidence i 16) := by
  rw [plainCardAt, Bool.and_eq_true] at h
  have hreport := spanMatch_isReport length_plain (by decide) h.1 .cardNumber confidence
  refine ⟨hreport, ?_⟩
  have hle := fitsAt_length_le (by decide) h.1
  rw [SeparatorFree, encode_slice hreport.text, hreport.stop, Nat.add_sub_cancel_left,
    ← List.all_eq_true]
  exact (all_take_drop_eq_fitsAt 16 hle).trans h.1

/-! ### The reports -/

theorem ssn_reports_exact (text : Str) (found : List PiiMatch) :
    ∃ ssns, detectKoreanSsn text found = .ok (found ++ ssns) ∧ InOrder ssns ∧
      (∀ m ∈ ssns, IsReport text .koreanSsn 14 m) ∧
      ∀ i, (∃ m ∈ ssns, m.start = i) ↔ fitsAt ssn (encode text) i = true := by
  obtain ⟨js, hscan, hinc, hjs⟩ := detectKoreanSsn_ordered text found
  let report (i : ℕ) := spanMatch text .koreanSsn (85 / 100) i 14
  have hstart (i : ℕ) : (report i).start = i := rfl
  refine ⟨js.map report, by rw [hscan, List.map_eq_flatMap], inOrder_map hstart hinc, ?_, ?_⟩
  · intro m hm
    obtain ⟨i, hi, rfl⟩ := List.mem_map.mp hm
    exact spanMatch_isReport length_ssn (by decide) ((hjs i).mp hi) _ _
  · intro i
    rw [exists_start_iff hstart, hjs]

theorem card_reports_exact (text : Str) (found : List PiiMatch) :
    ∃ grouped plains, detectCardNumbers text found = .ok (found ++ grouped ++ plains) ∧
      (∀ m ∈ grouped, ¬ SeparatorFree m) ∧ InOrder plains ∧
      (∀ m ∈ plains, IsReport text .cardNumber 16 m ∧ SeparatorFree m) ∧
      ∀ i, (∃ m ∈ plains, m.start = i) ↔
        MaximalRun isAsciiDigit (encode text) i (i + 16) ∧ Uncovered (found ++ grouped) i := by
  obtain ⟨ks, hgroups, -, hks⟩ := detectGroupedCards_ordered text found
  obtain ⟨js, hscan, hinc, hjs⟩ :=
    detectPlainCards_ordered text (found ++ ks.flatMap fun i => [cardMatch text i])
  let grouped := ks.flatMap fun i => [cardMatch text i]
  let report (j : ℕ) := spanMatch text .cardNumber (75 / 100) j 16
  have hstart (i : ℕ) : (report i).start = i := rfl
  let free := js.filter fun j => decide (Uncovered (found ++ grouped) j)
  refine ⟨grouped, free.map report, ?_, ?_, inOrder_map hstart (hinc.filter _), ?_, ?_⟩
  · rw [detectCardNumbers, hgroups, ok_bind, hscan, flatMap_ite_singleton]
  · intro m hm
    obtain ⟨i, hi, hm⟩ := List.mem_flatMap.mp hm
    obtain rfl := List.mem_singleton.mp hm
    obtain ⟨k, hk⟩ := Option.isSome_iff_exists.mp ((hks i).mp hi).isSome
    exact cardMatch_not_separatorFree hk
  · intro m hm
    obtain ⟨i, hi, rfl⟩ := List.mem_map.mp hm
    exact plainCard_separatorFree ((hjs i).mp (List.mem_filter.mp hi).1) _
  · intro i
    rw [exists_start_iff hstart, List.mem_filter, hjs, plainCardAt_iff, decide_eq_true_eq]

/-- For every text, the matches for resident numbers are the occurrences of the pattern, each once
and from left to right, and those for card numbers without separators are the runs of sixteen
digits that do not lie inside a match reported before. -/
theorem number_reports_exact (text : Str) (found : List PiiMatch) :
    (∃ ssns, detectKoreanSsn text found = .ok (found ++ ssns) ∧ InOrder ssns ∧
      (∀ m ∈ ssns, IsReport text .koreanSsn 14 m) ∧
      ∀ i, (∃ m ∈ ssns, m.start = i) ↔ fitsAt ssn (encode text) i = true) ∧
    ∃ grouped plains, detectCardNumbers text found = .ok (found ++ grouped ++ plains) ∧
      (∀ m ∈ grouped, ¬ SeparatorFree m) ∧ InOrder plains ∧
      (∀ m ∈ plains, IsReport text .cardNumber 16 m ∧ SeparatorFree m) ∧
      ∀ i, (∃ m ∈ plains, m.start = i) ↔
        MaximalRun isAsciiDigit (encode text) i (i + 16) ∧ Uncovered (found ++ grouped) i :=
  ⟨ssn_reports_exact text found, card_reports_exact text found⟩

end NeuRust.Security
