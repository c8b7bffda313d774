import NeuRust.Security.EmailScanner

/-!
The four scanners together: none of them panics, and the spans they report are the spans of the
text that are PII. What is left that can panic in `detect` is the context window of a match.
-/

namespace NeuRust.Security

open Utf8 Scan

def Reports (found : List PiiMatch) (ty : PiiType) (s e : ℕ) : Prop :=
  ∃ m ∈ found, m.piiType = ty ∧ m.start = s ∧ m.stop = e

/-! ### The offsets of PII -/

theorem PiiSpan.boundaries {table : CharTable} {text : Str} {ty : PiiType} {s e : ℕ}
    (h : PiiSpan table text ty s e) : IsCharBoundary text s ∧ IsCharBoundary text e ∧ s < e := by
  have ofFits : ∀ {tpl : Template} {i : ℕ}, tpl ≠ [] → fitsAt tpl (encode text) i = true →
      IsCharBoundary text i ∧ IsCharBoundary text (i + tpl.length) ∧ i < i + tpl.length := by
    intro tpl i hne hfit
    obtain ⟨hi, hj⟩ := fitsAt_boundaries hne hfit
    have := List.length_pos_iff.mpr hne
    exact ⟨hi, hj, by omega⟩
  cases h with
  | koreanSsn hfit => exact ofFits (by decide) hfit
  | phoneNumber hch hk =>
      rcases phoneAt_eq_some_iff.mp hk with ⟨rfl, hfit⟩ | ⟨rfl, hfit, -⟩
      · exact ofFits (by decide) hfit
      · exact ofFits (by decide) hfit
  | email hat =>
      rename_i pre loc dom post
      refine ⟨?_, ?_, by rw [emailStop]; omega⟩
      · rw [hat.split, List.append_assoc]
        exact isCharBoundary_append pre _
      · rw [hat.split_stop, emailStop_eq]
        exact isCharBoundary_append _ post
  | groupedCard hch =>
      obtain ⟨k, hk⟩ := Option.isSome_iff_exists.mp hch.isSome
      obtain ⟨-, hfit | ⟨hfit, -⟩⟩ := cardAt_eq_some_iff.mp hk
      · exact ofFits (by decide) hfit
      · exact ofFits (by decide) hfit
  | plainCard hfit _ =>
      rw [plainCardAt, Bool.and_eq_true] at hfit
      exact ofFits (by decide) hfit.1

/-! ### What the scanners report -/

theorem cardMatch_span (text : Str) (i : ℕ) :
    (cardMatch text i).piiType = .cardNumber ∧ (cardMatch text i).start = i ∧
      (cardMatch text i).stop = i + 19 := by
  rw [cardMatch]
  split <;> exact ⟨rfl, rfl, rfl⟩

theorem not_plain_in_grouped {sep : Slot}
    (hsep : ∀ b, sep.accepts b = true → isAsciiDigit b = false)
    {bytes : List UInt8} {i j : ℕ} (hcard : fitsAt (grouped sep) bytes i = true)
    (hplain : fitsAt plain bytes j = true) : ¬ (i ≤ j ∧ j + 16 ≤ i + 19) := by
  intro ⟨hle, hend⟩
  obtain ⟨b, hb, hacc, -⟩ := fitsAt_byte hcard (k := 4) (by simp)
  obtain ⟨b', hb', hdigit, -⟩ := fitsAt_byte hplain (k := i + 4 - j) (by simp; omega)
  rw [show j + (i + 4 - j) = i + 4 by omega, hb, Option.some.injEq] at hb'
  subst hb'
  have hnot := hsep b hacc
  simp only [plain, digits, List.getElem_replicate, Slot.accepts_digit] at hdigit
  rw [hdigit] at hnot
  cases hnot

theorem Slot.not_digit_of_separator {sep : Slot} (h : sep = .dash ∨ sep = .space) {b : UInt8}
    (hb : sep.accepts b = true) : isAsciiDigit b = false := by
  rcases h with rfl | rfl
  · simp only [accepts_dash, beq_iff_eq] at hb
    rw [hb]
    decide
  · simp only [accepts_space, beq_iff_eq] at hb
    rw [hb]
    decide

/-- Sixteen plain digits do not lie inside a card number with separators. -/
theorem not_plain_in_card {text : Str} {i j : ℕ} (hcard : Chosen (cardAt (encode text)) i)
    (hplain : fitsAt plain (encode text) j = true) : ¬ (i ≤ j ∧ j + 16 ≤ i + 19) := by
  obtain ⟨k, hk⟩ := Option.isSome_iff_exists.mp hcard.isSome
  obtain ⟨-, hfit | ⟨hfit, -⟩⟩ := cardAt_eq_some_iff.mp hk
  · exact not_plain_in_grouped (fun b => Slot.not_digit_of_separator (.inl rfl)) hfit hplain
  · exact not_plain_in_grouped (fun b => Slot.not_digit_of_separator (.inr rfl)) hfit hplain

inductive FoundFirst (table : CharTable) (text : Str) : PiiMatch → Prop
  | koreanSsn {i : ℕ} (hfit : fitsAt ssn (encode text) i = true) :
      FoundFirst table text (spanMatch text .koreanSsn (85 / 100) i 14)
  | phoneNumber {i : ℕ} (hchosen : Chosen (phoneAt (encode text)) i) :
      FoundFirst table text (phoneMatch text i)
  | email {pre loc dom post : List Char} (hat : EmailAt table text pre loc dom post) :
      FoundFirst table text (emailMatch pre loc dom)
  | groupedCard {i : ℕ} (hchosen : Chosen (cardAt (encode text)) i) :
      FoundFirst table text (cardMatch text i)

section

variable {table : CharTable} {text : Str}

theorem FoundFirst.span {m : PiiMatch} (h : FoundFirst table text m) :
    PiiSpan table text m.piiType m.start m.stop := by
  cases h with
  | koreanSsn hfit => exact .koreanSsn hfit
  | @phoneNumber i hchosen =>
      obtain ⟨k, hk⟩ := Option.isSome_iff_exists.mp hchosen.isSome
      obtain ⟨htype, hstart, hstop⟩ := phoneMatch_span hk
      rw [htype, hstart, hstop]
      exact .phoneNumber hchosen hk
  | email hat => exact .email hat
  | @groupedCard i hchosen =>
      obtain ⟨htype, hstart, hstop⟩ := cardMatch_span text i
      rw [htype, hstart, hstop]
      exact .groupedCard hchosen

/-- Only an address can cover sixteen plain digits: the other patterns are too short, or have
separators in them. -/
theorem FoundFirst.not_covers {m : PiiMatch} {j : ℕ} (h : FoundFirst table text m)
    (hplain : fitsAt plain (encode text) j = true)
    (hfree : ∀ pre loc dom post, EmailAt table text pre loc dom post →
      ¬ (byteLen pre ≤ j ∧ j + 16 ≤ emailStop pre loc dom)) :
    ¬ (m.start ≤ j ∧ j + 16 ≤ m.stop) := by
  cases h with
  | @koreanSsn i =>
      show ¬ (i ≤ j ∧ j + 16 ≤ i + 14)
      omega
  | @phoneNumber i hchosen =>
      obtain ⟨k, hk⟩ := Option.isSome_iff_exists.mp hchosen.isSome
      obtain ⟨-, hstart, hstop⟩ := phoneMatch_span hk
      have hlen : (k : ℕ) ≤ 13 := by
        rcases phoneAt_eq_some_iff.mp hk with ⟨rfl, -⟩ | ⟨rfl, -⟩ <;> decide
      omega
  | email hat => exact hfree _ _ _ _ hat
  | @groupedCard i hchosen =>
      obtain ⟨-, hstart, hstop⟩ := cardMatch_span text i
      rw [hstart, hstop]
      exact not_plain_in_card hchosen hplain

/-- Before the search for plain card numbers, the scanners do not panic. -/
theorem detectPatterns_first (table : CharTable) (text : Str) :
    ∃ first, detectPatterns table text = scan 16 (encode text).length (plainCardStep text) first 0 ∧
      ∀ m, m ∈ first ↔ FoundFirst table text m := by
  obtain ⟨ssns, hssns, memSsns⟩ := detectKoreanSsn_spec text []
  obtain ⟨phones, hphones, memPhones⟩ := detectPhoneNumbers_spec text ssns
  obtain ⟨emails, hemails, memEmails⟩ := detectEmails_spec table text phones
  obtain ⟨cards, hcards, memCards⟩ := detectGroupedCards_spec text emails
  refine ⟨cards, ?_, ?_⟩
  · rw [detectPatterns, hssns, ok_bind, hphones, ok_bind, hemails, ok_bind, detectCardNumbers,
      hcards, ok_bind]
  · intro m
    simp only [memCards, memEmails, memPhones, memSsns, List.not_mem_nil, false_or,
      List.mem_singleton]
    constructor
    · rintro (((⟨i, hfit, rfl⟩ | ⟨i, hchosen, rfl⟩) | ⟨pre, loc, dom, post, hat, rfl⟩) |
        ⟨i, hchosen, rfl⟩)
      · exact .koreanSsn hfit
      · exact .phoneNumber hchosen
      · exact .email hat
      · exact .groupedCard hchosen
    · rintro (hfit | hchosen | hat | hchosen)
      · exact .inl (.inl (.inl ⟨_, hfit, rfl⟩))
      · exact .inl (.inl (.inr ⟨_, hchosen, rfl⟩))
      · exact .inl (.inr ⟨_, _, _, _, hat, rfl⟩)
      · exact .inr ⟨_, hchosen, rfl⟩

end

/-- The scanners never panic, and what they report is the PII of the text. -/
theorem detectPatterns_spec (table : CharTable) (text : Str) :
    ∃ found, detectPatterns table text = .ok found ∧
      ∀ ty s e, Reports found ty s e ↔ PiiSpan table text ty s e := by
  obtain ⟨first, hfirst, memFirst⟩ := detectPatterns_first table text
  obtain ⟨found, hfound, memFound⟩ := detectPlainCards_spec text first
  have found_of_first : ∀ {m}, FoundFirst table text m → m ∈ found := by
    intro m hm
    exact (memFound m).mpr (.inl ((memFirst m).mpr hm))
  refine ⟨found, hfirst.trans hfound, ?_⟩
  intro ty s e
  constructor
  · rintro ⟨m, hm, rfl, rfl, rfl⟩
    rcases (memFound m).mp hm with hm | ⟨j, hplain, hm⟩
    · exact ((memFirst m).mp hm).span
    · split at hm
      case isTrue hfree =>
        obtain rfl := List.mem_singleton.mp hm
        apply PiiSpan.plainCard hplain
        intro pre loc dom post hat
        exact hfree _ ((memFirst _).mpr (.email hat))
      case isFalse => cases hm
  · intro hspan
    cases hspan with
    | koreanSsn hfit => exact ⟨_, found_of_first (.koreanSsn hfit), rfl, rfl, rfl⟩
    | phoneNumber hchosen hk =>
        exact ⟨_, found_of_first (.phoneNumber hchosen), phoneMatch_span hk⟩
    | email hat => exact ⟨_, found_of_first (.email hat), rfl, rfl, rfl⟩
    | groupedCard hchosen =>
        exact ⟨_, found_of_first (.groupedCard hchosen), cardMatch_span text s⟩
    | plainCard hplain hfree =>
        refine ⟨spanMatch text .cardNumber (75 / 100) s 16, ?_, rfl, rfl, rfl⟩
        refine (memFound _).mpr (.inr ⟨s, hplain, ?_⟩)
        rw [plainCardAt, Bool.and_eq_true] at hplain
        have hcovers : Uncovered first s := by
          intro m hm
          exact ((memFirst m).mp hm).not_covers hplain.1 hfree
        rw [if_pos hcovers]
        exact List.mem_singleton_self _

/-! ### The context check -/

theorem mapM_eq_ok_iff {α β : Type} {f : α → Checked β} {xs : List α} {ys : List β} :
    xs.mapM f = .ok ys ↔ List.Forall₂ (fun x y => f x = .ok y) xs ys := by
  induction xs generalizing ys with
  | nil => simp [eq_comm]
  | cons x xs ih =>
      rw [List.mapM_cons, List.forall₂_cons_left_iff]
      cases hx : f x with
      | error e =>
          constructor
          · intro h
            cases h
          · rintro ⟨y, ys', hy, -⟩
            cases hy
      | ok y =>
          cases hxs : xs.mapM f with
          | error e =>
              constructor
              · intro h
                cases h
              · rintro ⟨y', ys', -, hys, -⟩
                rw [← ih, hxs] at hys
                cases hys
          | ok ys' =>
              constructor
              · intro h
                cases h
                exact ⟨y, ys', rfl, ih.mp hxs, rfl⟩
              · rintro ⟨y', ys'', hy, hys, rfl⟩
                rw [← ih, hxs] at hys
                cases hy
                cases hys
                rfl

theorem exists_forall₂_iff {α β : Type} {R : α → β → Prop} {xs : List α} :
    (∃ ys, List.Forall₂ R xs ys) ↔ ∀ x ∈ xs, ∃ y, R x y := by
  induction xs with
  | nil => exact ⟨fun _ x hx => absurd hx List.not_mem_nil, fun _ => ⟨[], .nil⟩⟩
  | cons x xs ih =>
      rw [List.forall_mem_cons, ← ih]
      constructor
      · rintro ⟨_, h⟩
        obtain ⟨y, ys, hy, hys, rfl⟩ := List.forall₂_cons_left_iff.mp h
        exact ⟨⟨y, hy⟩, ys, hys⟩
      · rintro ⟨⟨y, hy⟩, ys, hys⟩
        exact ⟨y :: ys, .cons hy hys⟩

/-- The two offsets of the context window fall between characters. -/
def WindowFits (text : Str) (s e : ℕ) : Prop :=
  IsCharBoundary text (s - 50) ∧ IsCharBoundary text (min (e + 50) (byteLen text))

instance (text : Str) (s e : ℕ) : Decidable (WindowFits text s e) :=
  inferInstanceAs (Decidable (_ ∧ _))

theorem validateMatch_ok_iff {text : Str} {m : PiiMatch} (hle : m.start ≤ m.stop)
    (hend : m.stop ≤ byteLen text) :
    (∃ m', validateMatch text m = .ok m') ↔ WindowFits text m.start m.stop := by
  have hwindow : m.start - 50 ≤ min (m.stop + 50) (byteLen text) := by omega
  constructor
  · rintro ⟨m', hm'⟩
    rw [WindowFits]
    by_contra hnot
    have hslice : slice text (m.start - 50) (min (m.stop + 50) (byteLen text)) = none := by
      rw [← Option.not_isSome_iff_eq_none, slice_isSome_iff]
      exact fun h => hnot h.2
    rw [validateMatch, strRange, hslice] at hm'
    cases hm'
  · rintro ⟨hs, he⟩
    rw [validateMatch, strRange_of_boundaries hwindow hs he, ok_bind]
    split <;> exact ⟨_, rfl⟩

theorem validateMatch_span {text : Str} {m m' : PiiMatch} (h : validateMatch text m = .ok m') :
    m'.piiType = m.piiType ∧ m'.start = m.start ∧ m'.stop = m.stop := by
  rw [validateMatch] at h
  cases hrange : strRange text (m.start - 50) (min (m.stop + 50) (byteLen text)) with
  | error e =>
      rw [hrange] at h
      cases h
  | ok window =>
      rw [hrange, ok_bind] at h
      split at h <;> (cases h; exact ⟨rfl, rfl, rfl⟩)

theorem forall₂_reports {R : PiiMatch → PiiMatch → Prop}
    (hR : ∀ m m', R m m' → m'.piiType = m.piiType ∧ m'.start = m.start ∧ m'.stop = m.stop)
    {ms ms' : List PiiMatch} (h : List.Forall₂ R ms ms') (ty : PiiType) (s e : ℕ) :
    Reports ms' ty s e ↔ Reports ms ty s e := by
  induction h with
  | nil => exact Iff.rfl
  | cons hab _ ih =>
      obtain ⟨hty, hs, he⟩ := hR _ _ hab
      simp only [Reports, List.mem_cons, exists_eq_or_imp] at ih ⊢
      rw [hty, hs, he, ih]

theorem detect_reports {table : CharTable} {text : Str} {ms : List PiiMatch}
    (h : detect table text = .ok ms) (ty : PiiType) (s e : ℕ) :
    Reports ms ty s e ↔ PiiSpan table text ty s e := by
  obtain ⟨found, hfound, hreports⟩ := detectPatterns_spec table text
  rw [detect, hfound, ok_bind, validateContext, mapM_eq_ok_iff] at h
  rw [forall₂_reports (fun m m' => validateMatch_span) h, hreports]

/-- `detect` returns exactly when every context window falls between characters. -/
theorem detect_ok_iff (table : CharTable) (text : Str) :
    (∃ ms, detect table text = .ok ms) ↔
      ∀ ty s e, PiiSpan table text ty s e → WindowFits text s e := by
  obtain ⟨found, hfound, hreports⟩ := detectPatterns_spec table text
  have hmatch : ∀ m ∈ found, m.start ≤ m.stop ∧ m.stop ≤ byteLen text := by
    intro m hm
    obtain ⟨-, he, hlt⟩ := ((hreports _ _ _).mp ⟨m, hm, rfl, rfl, rfl⟩).boundaries
    exact ⟨hlt.le, he.le⟩
  rw [detect, hfound, ok_bind, validateContext]
  simp only [mapM_eq_ok_iff, exists_forall₂_iff]
  constructor
  · intro hall ty s e hspan
    obtain ⟨m, hm, rfl, rfl, rfl⟩ := (hreports ty s e).mpr hspan
    obtain ⟨hle, hend⟩ := hmatch m hm
    exact (validateMatch_ok_iff hle hend).mp (hall m hm)
  · intro hfits m hm
    obtain ⟨hle, hend⟩ := hmatch m hm
    exact (validateMatch_ok_iff hle hend).mpr
      (hfits _ _ _ ((hreports _ _ _).mp ⟨m, hm, rfl, rfl, rfl⟩))

end NeuRust.Security
