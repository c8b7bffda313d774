import NeuRust.Security.MaskCoverage

/-!
What masking keeps, for any list of matches and not only for what `detect` reports. The masked
text is related to the text piece by piece: the text is cut at the spans that were replaced, and
every piece between them reappears where it was.
-/

namespace NeuRust.Security

open Utf8 Intervals

/-- From byte offset `n` on, the text is `rest`; with masks in place of the spans of `ms`, which
follow each other, it becomes `out`. The `pieces` are what was kept. -/
inductive Replaces : ℕ → Str → List PiiMatch → List Str → Str → Prop
  | keep (n : ℕ) (rest : Str) : Replaces n rest [] [rest] rest
  | mask {n : ℕ} {piece span rest out : Str} {m : PiiMatch} {ms : List PiiMatch}
      {pieces : List Str} (hstart : m.start = n + byteLen piece)
      (hstop : m.stop = m.start + byteLen span) (h : Replaces m.stop rest ms pieces out) :
      Replaces n (piece ++ span ++ rest) (m :: ms) (piece :: pieces)
        (piece ++ maskOf m.piiType ++ out)

def outsideOf (ms : List PiiMatch) (i : ℕ) : Bool := ms.all fun m => !(m.start ≤ i && i < m.stop)

def bytesAt (bytes : List UInt8) (offsets : List ℕ) : List UInt8 :=
  offsets.filterMap fun i => bytes[i]?

/-- What masking the matches `ms` does: the spans of `sel` are replaced, and the `pieces` kept. -/
structure MaskFrame (text : Str) (ms sel : List PiiMatch) (pieces : List Str) (out : Str) :
    Prop where
  replaces : Replaces 0 text sel pieces out
  kept : encode pieces.flatten =
    bytesAt (encode text) ((List.range (byteLen text)).filter (outsideOf sel))
  listed : ∀ t ∈ sel, t ∈ ms
  disjoint : sel.Pairwise fun a b => a.stop ≤ b.start
  overlapped : ∀ m ∈ ms, m ∈ sel ∨ ∃ t ∈ sel, t.start < m.stop ∧ m.start < t.stop

/-! ### The walk -/

theorem maskedFrom_replaces {text : Str} {sel : List PiiMatch} (hfits : ∀ m ∈ sel, m.Fits text)
    (hdisjoint : sel.Pairwise fun a b => a.stop ≤ b.start) {front rest : Str}
    (hsplit : text = front ++ rest) (hlast : ∀ m ∈ sel, byteLen front ≤ m.start) :
    ∃ pieces, Replaces (byteLen front) rest sel pieces (maskedFrom text sel (byteLen front)) := by
  induction sel generalizing front rest with
  | nil =>
      have hend : byteLen text = byteLen front + byteLen rest := by simp [hsplit]
      have hslice : slice text (byteLen front) (byteLen text) = some rest :=
        slice_eq_some_iff.mpr ⟨front, [], by simp [hsplit], rfl, hend.symm⟩
      rw [maskedFrom, between, hslice]
      exact ⟨[rest], .keep _ rest⟩
  | cons m sel ih =>
      obtain ⟨hs, he, hlt⟩ := hfits m List.mem_cons_self
      obtain ⟨hafter, hrest⟩ := List.pairwise_cons.mp hdisjoint
      have hfront : IsCharBoundary text (byteLen front) := hsplit ▸ isCharBoundary_append front rest
      -- the text is cut where the span starts and where it stops
      obtain ⟨p, q, hp, hplen, hpiece⟩ := between_split (hlast m List.mem_cons_self) hfront hs
      obtain ⟨p', rest', hp', hplen', hspan⟩ := between_split hlt.le hs he
      rw [maskedFrom]
      generalize between text (byteLen front) m.start = piece at *
      generalize between text m.start m.stop = span at *
      obtain ⟨rfl, hq⟩ := append_inj (hsplit.symm.trans (by rw [hp, List.append_assoc])) hplen.symm
      have hcut : front ++ piece ++ q = p' ++ (span ++ rest') := by
        rw [← hp, hp', List.append_assoc]
      obtain ⟨rfl, hq'⟩ := append_inj hcut (by simp; omega)
      have hstop : byteLen (front ++ piece ++ span) = m.stop := by
        rw [byteLen_append]
        exact hspan
      obtain ⟨pieces, htail⟩ := ih (fun t ht => hfits t (List.mem_cons_of_mem m ht)) hrest hp'
        (fun t ht => hstop.trans_le (hafter t ht))
      rw [hstop] at htail
      rw [hq, hq', ← List.append_assoc]
      exact ⟨piece :: pieces, .mask hpiece.symm (by rw [← hspan, hplen']) htail⟩

/-! ### What was kept -/

theorem Replaces.le_start {n : ℕ} {rest out : Str} {ms : List PiiMatch} {pieces : List Str}
    (h : Replaces n rest ms pieces out) : ∀ m ∈ ms, n ≤ m.start := by
  induction h with
  | keep n rest => simp
  | mask hstart hstop h ih =>
      intro t ht
      rcases List.mem_cons.mp ht with rfl | ht
      · omega
      · have := ih t ht
        omega

theorem bytesAt_append (bytes : List UInt8) (is js : List ℕ) :
    bytesAt bytes (is ++ js) = bytesAt bytes is ++ bytesAt bytes js :=
  List.filterMap_append

theorem bytesAt_stretch (a m b : List UInt8) :
    bytesAt (a ++ m ++ b) (List.range' a.length m.length) = m := by
  induction m generalizing a with
  | nil => rfl
  | cons x m ih =>
      have hx : (a ++ x :: m ++ b)[a.length]? = some x := by simp
      have hrest := ih (a ++ [x])
      rw [List.length_cons, List.range'_succ, bytesAt, List.filterMap_cons, hx]
      simp only [List.length_append, List.length_singleton, List.append_assoc,
        List.cons_append] at hrest ⊢
      exact congrArg (x :: ·) hrest

theorem outsideOf_cons (m : PiiMatch) (ms : List PiiMatch) (i : ℕ) :
    outsideOf (m :: ms) i = (!(m.start ≤ i && i < m.stop) && outsideOf ms i) := rfl

theorem outsideOf_of_lt {ms : List PiiMatch} {i : ℕ} (h : ∀ m ∈ ms, i < m.start) :
    outsideOf ms i = true := by
  simp only [outsideOf, List.all_eq_true, Bool.not_eq_true', Bool.and_eq_false_iff,
    decide_eq_false_iff_not]
  exact fun m hm => .inl (Nat.not_le.mpr (h m hm))

/-- Of a piece, the span after it and the rest, the positions outside are those of the piece and
those outside of the later spans. -/
theorem filter_outsideOf_cons {m : PiiMatch} {ms : List PiiMatch} {n a b c : ℕ}
    (hstart : m.start = n + a) (hstop : m.stop = m.start + b)
    (hlater : ∀ t ∈ ms, m.stop ≤ t.start) :
    (List.range' n (a + b + c)).filter (outsideOf (m :: ms)) =
      List.range' n a ++ (List.range' m.stop c).filter (outsideOf ms) := by
  have hpiece : (List.range' n a).filter (outsideOf (m :: ms)) = List.range' n a := by
    refine List.filter_eq_self.mpr fun i hi => outsideOf_of_lt fun t ht => ?_
    rw [List.mem_range'_1] at hi
    rcases List.mem_cons.mp ht with rfl | ht
    · omega
    · have := hlater t ht
      omega
  have hspan : (List.range' m.start b).filter (outsideOf (m :: ms)) = [] := by
    refine List.filter_eq_nil_iff.mpr fun i hi => ?_
    rw [List.mem_range'_1, ← hstop] at hi
    simp [outsideOf_cons, hi]
  have hrest : (List.range' m.stop c).filter (outsideOf (m :: ms)) =
      (List.range' m.stop c).filter (outsideOf ms) := by
    refine List.filter_congr fun i hi => ?_
    rw [List.mem_range'_1] at hi
    simp [outsideOf_cons, hi.1]
  have hrange : List.range' n (a + b + c) =
      List.range' n a ++ List.range' m.start b ++ List.range' m.stop c := by
    rw [hstop, hstart, List.range'_append_1, Nat.add_assoc n, List.range'_append_1]
  rw [hrange, List.filter_append, List.filter_append, hpiece, hspan, hrest, List.append_nil]

/-- The pieces hold the bytes outside of the spans, once each and in order. -/
theorem Replaces.kept {front rest out : Str} {n : ℕ} {ms : List PiiMatch} {pieces : List Str}
    (h : Replaces n rest ms pieces out) (hfront : byteLen front = n) :
    encode pieces.flatten = bytesAt (encode (front ++ rest))
      ((List.range' n (byteLen rest)).filter (outsideOf ms)) := by
  induction h generalizing front with
  | keep n rest =>
      have hnone : outsideOf [] = fun _ => true := rfl
      have hall := bytesAt_stretch (encode front) (encode rest) []
      rw [← hfront, List.flatten_singleton, hnone, List.filter_true]
      simpa using hall.symm
  | @mask n piece span rest out m ms pieces hstart hstop h ih =>
      have hself := bytesAt_stretch (encode front) (encode piece) (encode (span ++ rest))
      have htail := @ih (front ++ piece ++ span) (by simp; omega)
      rw [length_encode, length_encode, hfront] at hself
      rw [byteLen_append, byteLen_append, filter_outsideOf_cons hstart hstop h.le_start,
        bytesAt_append, List.flatten_cons, encode_append, htail]
      simp only [← encode_append, List.append_assoc] at hself ⊢
      rw [hself]

/-! ### The masked text -/

/-- Masking returns for every list of matches whose spans are proper and fall between characters,
in any order and overlapping or not. -/
theorem applyMasks_replaces {text : Str} {ms : List PiiMatch} (hfits : ∀ m ∈ ms, m.Fits text) :
    ∃ sel pieces out, applyMasks text ms = .ok out ∧ MaskFrame text ms sel pieces out := by
  have hsel : ∀ t ∈ replaced ms, t.Fits text := fun t ht => hfits t (mem_of_mem_replaced ht)
  have hproper : ∀ m ∈ sortByStart ms, m.start < m.stop := fun m hm =>
    (hfits m (mem_sortByStart.mp hm)).start_lt_stop
  obtain ⟨last, hmask⟩ := maskMatches_eq hfits
  obtain ⟨pieces, hpieces⟩ := maskedFrom_replaces hsel (select_pairwise hproper)
    (List.nil_append text).symm fun t _ => Nat.zero_le _
  refine ⟨replaced ms, pieces, _, by rw [applyMasks, hmask]; rfl, ?_⟩
  exact {
    replaces := hpieces
    kept := by
      rw [hpieces.kept byteLen_nil, List.range_eq_range']
      rfl
    listed := fun t => mem_of_mem_replaced
    disjoint := select_pairwise hproper
    overlapped := by
      intro m hm
      rcases mem_select_or_overlap (sortByStart_sorted ms) (mem_sortByStart.mpr hm) with
        hmem | ⟨t, ht, hle, hlt⟩
      · exact .inl hmem
      · exact .inr ⟨t, ht, hle.trans_lt (hfits m hm).start_lt_stop, hlt⟩ }

/-- Two numbers that share a group, the later one listed first. -/
theorem applyMasks_replaces_chained :
    ∃ sel pieces out, applyMasks "901234-1234567-1234567".toList
        [⟨.koreanSsn, 8, 22, "234567-1234567".toList, 1⟩,
          ⟨.koreanSsn, 0, 14, "901234-1234567".toList, 1⟩] = .ok out ∧
      MaskFrame "901234-1234567-1234567".toList
        [⟨.koreanSsn, 8, 22, "234567-1234567".toList, 1⟩,
          ⟨.koreanSsn, 0, 14, "901234-1234567".toList, 1⟩] sel pieces out := by
  apply applyMasks_replaces
  simp only [List.forall_mem_cons]
  exact ⟨⟨by decide, by decide, by decide⟩, ⟨by decide, by decide, by decide⟩, nofun⟩

end NeuRust.Security
