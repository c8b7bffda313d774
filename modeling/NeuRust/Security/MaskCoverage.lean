import NeuRust.Security.PiiMasker
import NeuRust.Security.PiiOverlaps

/-!
What masking hides. `apply_masks` leaves out a match that starts before the end of the last one
it replaced, and the part of it that reaches past that end is copied. So every match is hidden
exactly when the matches, sorted by start, are well nested.
-/

namespace NeuRust.Security

open Utf8 Intervals

/-- No byte of the copied range lies in the match. -/
def Apart (copied : ℕ × ℕ) (m : PiiMatch) : Prop :=
  ∀ n, copied.1 ≤ n → n < copied.2 → ¬ (m.start ≤ n ∧ n < m.stop)

abbrev replaced (ms : List PiiMatch) : List PiiMatch := selectMatches (sortByStart ms) 0

section Replaced

variable {table : CharTable} {text : Str} {ms : List PiiMatch}

theorem mem_of_mem_replaced {m : PiiMatch} (hm : m ∈ replaced ms) : m ∈ ms :=
  mem_sortByStart.mp (mem_of_mem_select hm)

theorem detect_span (h : detect table text = .ok ms) {m : PiiMatch} (hm : m ∈ ms) :
    PiiSpan table text m.piiType m.start m.stop :=
  (detect_reports h _ _ _).mp ⟨m, hm, rfl, rfl, rfl⟩

theorem sorted_proper (h : detect table text = .ok ms) :
    ∀ m ∈ sortByStart ms, m.start < m.stop :=
  fun m hm => (detect_fits h m (mem_sortByStart.mp hm)).start_lt_stop

theorem replaced_disjoint (h : detect table text = .ok ms) :
    (replaced ms).Pairwise fun a b => a.stop ≤ b.start :=
  select_pairwise (sorted_proper h)

/-- A byte of the text is copied exactly when it lies in no match that was replaced. -/
theorem copied_iff (h : detect table text = .ok ms) {n : ℕ} :
    (∃ g ∈ gaps PiiMatch.start PiiMatch.stop (replaced ms) 0 (byteLen text),
      g.1 ≤ n ∧ n < g.2) ↔ n < byteLen text ∧ ∀ t ∈ replaced ms, ¬ (t.start ≤ n ∧ n < t.stop) := by
  have hfits : ∀ t ∈ replaced ms, t.Fits text := fun t ht =>
    detect_fits h t (mem_of_mem_replaced ht)
  rw [mem_gaps_iff (replaced_disjoint h) (fun t ht => (hfits t ht).start_lt_stop)
    (fun t _ => Nat.zero_le _) (fun t ht => (hfits t ht).stop_boundary.le) (Nat.zero_le _)]
  simp only [Nat.zero_le, true_and]

end Replaced

/-- Every piece that `apply_masks` copies is disjoint from every span that `detect` reported
exactly when, in the order of their starts, every match that starts before the end of an earlier
one lies inside an earlier one. -/
theorem copied_apart_iff {table : CharTable} {text : Str} {ms : List PiiMatch}
    (h : detect table text = .ok ms) :
    (∃ st, maskMatches text ms = .ok st ∧ ∀ g ∈ st.copied, ∀ m ∈ ms, Apart g m) ↔
      WellNested PiiMatch.start PiiMatch.stop (sortByStart ms) := by
  obtain ⟨last, hmask⟩ := maskMatches_eq (detect_fits h)
  constructor
  · rintro ⟨st, hst, hapart⟩
    rw [hmask] at hst
    cases hst
    apply wellNested_of_inside_selected (sorted_proper h) (sortByStart_sorted ms)
    intro m hm
    have hmem := mem_sortByStart.mp hm
    apply (detect_span h hmem).inside_of_covered
      (fun t ht => detect_span h (mem_of_mem_replaced ht)) (replaced_disjoint h)
    intro n hs he
    by_contra hnone
    push Not at hnone
    have hend := (detect_fits h m hmem).stop_boundary.le
    obtain ⟨g, hg, hgs, hge⟩ := (copied_iff h).mpr
      ⟨he.trans_le hend, fun t ht hin => absurd hin.2 (not_lt.mpr (hnone t ht hin.1))⟩
    exact hapart g hg m hmem n hgs hge ⟨hs, he⟩
  · intro hnested
    refine ⟨_, hmask, ?_⟩
    intro g hg m hm n hgs hge hin
    obtain ⟨t, ht, hts, hte⟩ :=
      hnested.inside_selected (sortByStart_sorted ms) (mem_sortByStart.mpr hm)
    exact ((copied_iff h).mp ⟨g, hg, hgs, hge⟩).2 t ht
      ⟨hts.trans hin.1, hin.2.trans_le hte⟩

/-- An address with a phone number in its local part. -/
theorem copied_apart_address :
    ∃ ms, detect .hangul "me.010-1234-5678@mail.com".toList = .ok ms ∧ ms.length = 2 ∧
      ∃ st, maskMatches "me.010-1234-5678@mail.com".toList ms = .ok st ∧
        ∀ g ∈ st.copied, ∀ m ∈ ms, Apart g m := by
  have hdetect : detect .hangul "me.010-1234-5678@mail.com".toList =
      .ok [⟨.phoneNumber, 3, 16, "010-1234-5678".toList, 90 / 100⟩,
        ⟨.email, 0, 25, "me.010-1234-5678@mail.com".toList, 95 / 100⟩] := by
    decide +kernel
  have hsorted : sortByStart [⟨.phoneNumber, 3, 16, "010-1234-5678".toList, 90 / 100⟩,
        ⟨.email, 0, 25, "me.010-1234-5678@mail.com".toList, 95 / 100⟩] =
      [⟨.email, 0, 25, "me.010-1234-5678@mail.com".toList, 95 / 100⟩,
        ⟨.phoneNumber, 3, 16, "010-1234-5678".toList, 90 / 100⟩] := by
    decide +kernel
  refine ⟨_, hdetect, rfl, (copied_apart_iff hdetect).mpr ?_⟩
  rw [hsorted]
  exact wellNested_pair (by decide) (by decide)

/-- Two resident numbers that share seven digits: the second one starts inside the first, and its
other seven digits are copied. -/
theorem chained_numbers_survive :
    ¬ ∀ table text ms, detect table text = .ok ms →
      ∃ st, maskMatches text ms = .ok st ∧ ∀ g ∈ st.copied, ∀ m ∈ ms, Apart g m := by
  intro h
  have hdetect : detect .hangul "901234-1234567-1234567".toList =
      .ok [⟨.koreanSsn, 0, 14, "901234-1234567".toList, 85 / 100⟩,
        ⟨.koreanSsn, 8, 22, "234567-1234567".toList, 85 / 100⟩] := by
    decide +kernel
  obtain ⟨st, hst, hapart⟩ := h _ _ _ hdetect
  have hmask : maskMatches "901234-1234567-1234567".toList
      [⟨.koreanSsn, 0, 14, "901234-1234567".toList, 85 / 100⟩,
        ⟨.koreanSsn, 8, 22, "234567-1234567".toList, 85 / 100⟩] =
      .ok ⟨"******-*******-1234567".toList, 14, [(0, 0), (14, 22)]⟩ := by
    decide +kernel
  rw [hmask] at hst
  cases hst
  exact hapart (14, 22) (by decide) _ (List.mem_cons_of_mem _ List.mem_cons_self) 14 (by decide)
    (by decide) ⟨by decide, by decide⟩

end NeuRust.Security
