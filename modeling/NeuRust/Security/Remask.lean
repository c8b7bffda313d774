import NeuRust.Security.MaskCoverage

/-!
Masked text, scanned again. No pattern has an asterisk in it, and every mask is asterisks with
single characters between them, so a match in the masked text lies in a piece that was copied.
There the original text shows the same characters; what can differ is what stands directly before
and after the piece. That is why an address that could not end before can end at a mask, and why a
card number that had a digit next to it can be found once the digit is masked. Nothing else new is
found.
-/

namespace NeuRust.Security

open Utf8 Scan Runs Intervals

/-! ### Stretches without asterisks -/

/-- Asterisks, with at most one other character before each of them. -/
def starred : List Char → Bool
  | [] => true
  | c :: w =>
      if c == '*' then starred w
      else match w with
        | [] => false
        | d :: w => d == '*' && starred w

theorem maskOf_starred (ty : PiiType) :
    (maskOf ty).head? = some '*' ∧ starred (maskOf ty).tail = true := by
  cases ty <;> decide +kernel

/-- A stretch that avoids a separator lies before or after it. -/
theorem before_or_after_separator {α : Type} {z : α} {g r a x b : List α} (hz : z ∉ x)
    (h : g ++ z :: r = a ++ x ++ b) :
    (∃ y, g = a ++ x ++ y ∧ b = y ++ z :: r) ∨ ∃ a', a = g ++ z :: a' ∧ r = a' ++ x ++ b := by
  rcases List.append_eq_append_iff.mp h with ⟨m, hax, hb⟩ | ⟨m, hg, hb⟩
  · cases m with
    | nil => exact Or.inl ⟨[], by simpa using hax.symm, by simpa using hb.symm⟩
    | cons c m =>
        obtain ⟨rfl, hr⟩ := List.cons.inj hb
        right
        -- the separator is in `a ++ x`, and not in `x`
        rcases List.append_eq_append_iff.mp hax with ⟨k, ha, hm⟩ | ⟨k, ha, hm⟩
        · exact absurd (by simp [hm]) hz
        · cases k with
          | nil =>
              rw [List.nil_append] at hm
              exact absurd (hm ▸ List.mem_cons_self) hz
          | cons d k =>
              obtain ⟨rfl, rfl⟩ := List.cons.inj hm
              refine ⟨k, ha, ?_⟩
              rw [hr]
              rfl
  · exact Or.inl ⟨m, hg, hb⟩

/-- A stretch of two characters or more without asterisks does not begin in a mask. -/
theorem after_starred {w r a x b : List Char} (hw : starred w = true) (hx : '*' ∉ x)
    (hlen : 2 ≤ x.length) (h : w ++ r = a ++ x ++ b) : ∃ a', a = w ++ a' ∧ r = a' ++ x ++ b := by
  fun_induction starred w generalizing a with
  | case1 => exact ⟨a, rfl, h⟩
  | case2 c w hc ih =>
      rw [beq_iff_eq] at hc
      subst hc
      rcases before_or_after_separator (g := []) hx h with ⟨y, hnil, -⟩ | ⟨a', rfl, hr⟩
      · have := congrArg List.length hnil
        simp only [List.length_nil, List.length_append] at this
        omega
      · obtain ⟨a'', rfl, hr'⟩ := ih hw hr
        exact ⟨a'', rfl, hr'⟩
  | case3 => cases hw
  | case4 c d w hc ih =>
      rw [Bool.and_eq_true, beq_iff_eq] at hw
      obtain ⟨rfl, hw⟩ := hw
      rcases before_or_after_separator (g := [c]) hx h with ⟨y, hone, -⟩ | ⟨a', rfl, hr⟩
      · have := congrArg List.length hone
        simp only [List.length_singleton, List.length_append] at this
        omega
      · obtain ⟨a'', rfl, hr'⟩ := ih hw hr
        exact ⟨a'', rfl, hr'⟩

/-! ### Where a stretch of the masked text comes from -/

/-- The matches with the offsets at which their masks start in the masked text. The text from
`last` on goes to offset `n` on. -/
def maskPositions : List PiiMatch → ℕ → ℕ → List (PiiMatch × ℕ)
  | [], _, _ => []
  | m :: ms, last, n =>
      (m, n + (m.start - last)) ::
        maskPositions ms m.stop (n + (m.start - last) + byteLen (maskOf m.piiType))

/-- The stretch `x` of the masked text, after `a` and before `b`, comes from the piece `u ++ x ++ v`
of the text, after `p` and before `q`. The piece starts at the beginning or after a mask, and stops
at the end or before a mask. -/
structure Origin (text : Str) (sel : List PiiMatch) (last n : ℕ) (a x b p u v q : List Char) :
    Prop where
  split : text = p ++ (u ++ x ++ v) ++ q
  gap : (byteLen p, byteLen (p ++ (u ++ x ++ v))) ∈
    gaps PiiMatch.start PiiMatch.stop sel last (byteLen text)
  left : (byteLen p = last ∧ a = u) ∨ ∃ a' t o, a = a' ++ u ∧ (t, o) ∈ maskPositions sel last n ∧
    t.stop = byteLen p ∧ n + byteLen a' = o + byteLen (maskOf t.piiType)
  right : (q = [] ∧ b = v) ∨ ∃ b' t o, b = v ++ b' ∧ (t, o) ∈ maskPositions sel last n ∧
    t.start = byteLen (p ++ (u ++ x ++ v)) ∧ n + byteLen (a ++ x ++ v) = o

section

variable {text : Str} {sel : List PiiMatch} {m : PiiMatch} {last n : ℕ}
  {a x b p q : List Char}

theorem Origin.of_nil (hsplit : text = p ++ (a ++ x ++ b) ++ q) (hp : byteLen p = last)
    (hend : byteLen p + byteLen (a ++ x ++ b) = byteLen text) :
    Origin text [] last n a x b p a b q where
  split := hsplit
  gap := by
    rw [gaps, byteLen_append, hend, hp]
    exact List.mem_singleton_self _
  left := .inl ⟨hp, rfl⟩
  right := by
    have hlen := congrArg byteLen hsplit
    rw [byteLen_append, byteLen_append] at hlen
    exact .inl ⟨byteLen_eq_zero.mp (by omega), rfl⟩

theorem Origin.of_first {v r : List Char} (hsplit : text = p ++ (a ++ x ++ v) ++ q)
    (hp : byteLen p = last) (hend : byteLen p + byteLen (a ++ x ++ v) = m.start) :
    Origin text (m :: sel) last n a x (v ++ r) p a v q where
  split := hsplit
  gap := by
    rw [gaps, byteLen_append, hend, hp]
    exact List.mem_cons_self
  left := .inl ⟨hp, rfl⟩
  right := by
    refine .inr ⟨r, m, _, rfl, List.mem_cons_self, ?_, ?_⟩
    · rw [byteLen_append, hend]
    · omega

theorem Origin.of_rest {g u v : List Char} (hg : byteLen g = m.start - last)
    (h : Origin text sel m.stop (n + (m.start - last) + byteLen (maskOf m.piiType))
      a x b p u v q) :
    Origin text (m :: sel) last n (g ++ maskOf m.piiType ++ a) x b p u v q where
  split := h.split
  gap := List.mem_cons_of_mem _ h.gap
  left := by
    right
    rcases h.left with ⟨hp, rfl⟩ | ⟨a', t, o, rfl, hmem, hstop, hlen⟩
    · refine ⟨g ++ maskOf m.piiType, m, _, rfl, List.mem_cons_self, hp.symm, ?_⟩
      rw [byteLen_append, hg, Nat.add_assoc]
    · refine ⟨g ++ maskOf m.piiType ++ a', t, o, ?_, List.mem_cons_of_mem _ hmem, hstop, ?_⟩
      · rw [List.append_assoc _ a']
      · rw [← hlen, byteLen_append, byteLen_append, hg]
        omega
  right := by
    rcases h.right with hend | ⟨b', t, o, hb, hmem, hstart, hlen⟩
    · exact .inl hend
    · refine .inr ⟨b', t, o, hb, List.mem_cons_of_mem _ hmem, hstart, ?_⟩
      rw [← hlen]
      simp only [byteLen_append, hg]
      omega

end

theorem exists_origin {text : Str} {sel : List PiiMatch} (hfits : ∀ t ∈ sel, t.Fits text)
    (hdisjoint : sel.Pairwise fun s t => s.stop ≤ t.start) {last n : ℕ}
    (hlast : ∀ t ∈ sel, last ≤ t.start) (hboundary : IsCharBoundary text last)
    {a x b : List Char} (hx : '*' ∉ x) (hlen : 2 ≤ x.length)
    (h : maskedFrom text sel last = a ++ x ++ b) :
    ∃ p u v q, Origin text sel last n a x b p u v q := by
  induction sel generalizing last n a with
  | nil =>
      obtain ⟨p, q, hsplit, hp, hend⟩ :=
        between_split hboundary.le hboundary (isCharBoundary_byteLen text)
      rw [maskedFrom] at h
      rw [h] at hsplit hend
      exact ⟨p, a, b, q, .of_nil hsplit hp hend⟩
  | cons m sel ih =>
      obtain ⟨hs, he, -⟩ := hfits m List.mem_cons_self
      obtain ⟨hafter, hrest⟩ := List.pairwise_cons.mp hdisjoint
      obtain ⟨p, q, hsplit, hp, hend⟩ := between_split (hlast m List.mem_cons_self) hboundary hs
      obtain ⟨hhead, hstarred⟩ := maskOf_starred m.piiType
      have hmask : maskOf m.piiType = '*' :: (maskOf m.piiType).tail :=
        (List.cons_head?_tail hhead).symm
      rw [maskedFrom, List.append_assoc, hmask, List.cons_append] at h
      generalize between text last m.start = g at hsplit hend h
      rcases before_or_after_separator hx h with ⟨v, rfl, rfl⟩ | ⟨a', ha, hr⟩
      · exact ⟨p, a, v, q, .of_first hsplit hp hend⟩
      · obtain ⟨a'', rfl, hr'⟩ := after_starred hstarred hx hlen hr
        have hfront : a = g ++ maskOf m.piiType ++ a'' := by
          rw [ha, hmask]
          simp
        obtain ⟨p, u, v, q, horigin⟩ :=
          ih (fun t ht => hfits t (List.mem_cons_of_mem m ht)) hrest hafter he hr'
        rw [hfront]
        exact ⟨p, u, v, q, .of_rest (by omega) horigin⟩

/-! ### The same characters in the text -/

/-- Whether a template fits depends only on the bytes it covers. -/
theorem fitsAt_middle {tpl : Template} {f x r : List UInt8} (hlen : tpl.length ≤ x.length) :
    fitsAt tpl (f ++ x ++ r) f.length = fitsAt tpl x 0 := by
  rw [Bool.eq_iff_iff, fitsAt_iff, fitsAt_iff]
  refine forall_congr' fun k => forall_congr' fun slot => imp_congr_right fun hk => ?_
  have hlt : k < x.length := ((List.getElem?_eq_some_iff.mp hk).1).trans_le hlen
  rw [List.append_assoc, List.getElem?_append_right (Nat.le_add_right _ _), Nat.add_sub_cancel_left,
    List.getElem?_append_left hlt, Nat.zero_add]

theorem fitsAt_encode_middle {tpl : Template} {f x r : List Char}
    (hlen : tpl.length ≤ byteLen x) :
    fitsAt tpl (encode (f ++ x ++ r)) (byteLen f) = fitsAt tpl (encode x) 0 := by
  rw [encode_append, encode_append, ← length_encode]
  exact fitsAt_middle (by rwa [length_encode])

theorem Slot.not_accepts_star (s : Slot) : s.accepts '*'.toUInt8 = false := by
  cases s <;> decide

theorem exists_stretch {tpl : Template} {text : Str} {i : ℕ} (hne : tpl ≠ [])
    (h : fitsAt tpl (encode text) i = true) :
    ∃ a x b, text = a ++ x ++ b ∧ byteLen a = i ∧ byteLen x = tpl.length ∧ '*' ∉ x := by
  obtain ⟨hi, hj⟩ := fitsAt_boundaries hne h
  obtain ⟨x, hx⟩ := Option.isSome_iff_exists.mp
    (slice_isSome_iff.mpr ⟨Nat.le_add_right i tpl.length, hi, hj⟩)
  obtain ⟨a, b, rfl, rfl, hlen⟩ := slice_eq_some_iff.mp hx
  refine ⟨a, x, b, rfl, rfl, by omega, ?_⟩
  intro hstar
  rw [fitsAt_encode_middle (by omega)] at h
  -- an asterisk would be a byte that no slot accepts
  obtain ⟨x₁, x₂, rfl⟩ := List.append_of_mem hstar
  have hbyte : (encode (x₁ ++ '*' :: x₂))[byteLen x₁]? = some '*'.toUInt8 := by
    rw [encode_append, ← length_encode, List.getElem?_append_right le_rfl, Nat.sub_self]
    rfl
  have hk : byteLen x₁ < tpl.length := by
    have hpos := Char.utf8Size_pos '*'
    simp only [byteLen_append, byteLen_cons] at hlen
    omega
  obtain ⟨b', hb', hacc, -⟩ := fitsAt_byte h hk
  rw [Nat.zero_add, hbyte, Option.some.injEq] at hb'
  rw [← hb', Slot.not_accepts_star] at hacc
  cases hacc

theorem NumberSpan.exists_stretch {out : Str} {tpl : Template} {s e : ℕ}
    (h : NumberSpan (encode out) tpl s e) :
    ∃ a x b, out = a ++ x ++ b ∧ byteLen a = s ∧ byteLen (a ++ x) = e ∧ byteLen x = tpl.length ∧
      '*' ∉ x ∧ 2 ≤ x.length ∧ NumberSpan (encode x) tpl 0 (byteLen x) := by
  have hlong : 11 ≤ tpl.length := by
    have hall : ∀ tpl ∈ openTemplates ++ guardedTemplates, 11 ≤ tpl.length := by decide
    exact hall tpl h.mem
  obtain ⟨a, x, b, rfl, rfl, hlen, hstar⟩ :=
    Security.exists_stretch (List.ne_nil_of_length_pos (by omega)) h.fits
  refine ⟨a, x, b, rfl, rfl, ?_, hlen, hstar, ?_, h.mem, ?_, ?_, ?_⟩
  · rw [byteLen_append, hlen, h.stop_eq]
  · have hbytes := byteLen_le x
    omega
  · rw [← fitsAt_encode_middle (f := a) (r := b) hlen.ge]
    exact h.fits
  · rw [hlen, Nat.zero_add]
  · intro _
    have hnone : (encode x)[byteLen x]? = none :=
      List.getElem?_eq_none (length_encode x).le
    rw [clearOfDigits, hnone]
    rfl

/-- An instance of a numeric pattern starts inside some span of PII. -/
theorem NumberSpan.covered {table : CharTable} {text : Str} {tpl : Template} {i e : ℕ}
    (h : NumberSpan (encode text) tpl i e) :
    ∃ ty s e', PiiSpan table text ty s e' ∧ s ≤ i ∧ i < e' := by
  have self {ty : PiiType} {e' : ℕ} (hspan : PiiSpan table text ty i e') :
      ∃ ty s e', PiiSpan table text ty s e' ∧ s ≤ i ∧ i < e' :=
    ⟨ty, i, e', hspan, le_rfl, hspan.boundaries.2.2⟩
  have phone (hsome : (phoneAt (encode text) i).isSome) :
      ∃ ty s e', PiiSpan table text ty s e' ∧ s ≤ i ∧ i < e' := by
    by_cases hch : Chosen (phoneAt (encode text)) i
    · obtain ⟨k, hk⟩ := Option.isSome_iff_exists.mp hsome
      exact self (.phoneNumber hch hk)
    · obtain ⟨j, hj, hchj, k, hk, hlt⟩ := exists_chosen_of_not_chosen hsome hch
      exact ⟨_, _, _, .phoneNumber hchj hk, hj.le, hlt⟩
  have card (hsome : (cardAt (encode text) i).isSome) :
      ∃ ty s e', PiiSpan table text ty s e' ∧ s ≤ i ∧ i < e' := by
    by_cases hch : Chosen (cardAt (encode text)) i
    · exact self (.groupedCard hch)
    · obtain ⟨j, hj, hchj, k, hk, hlt⟩ := exists_chosen_of_not_chosen hsome hch
      obtain ⟨rfl, -⟩ := cardAt_eq_some_iff.mp hk
      exact ⟨_, _, _, .groupedCard hchj, hj.le, hlt⟩
  obtain ⟨hmem, hfit, rfl, hclear⟩ := h
  simp only [openTemplates, guardedTemplates, List.cons_append, List.nil_append, List.mem_cons,
    List.not_mem_nil, or_false] at hmem
  rcases hmem with rfl | rfl | rfl | rfl | rfl | rfl
  · exact self (.koreanSsn hfit)
  · exact phone (by rw [phoneAt, if_pos hfit]; rfl)
  · apply phone
    rw [phoneAt, if_pos hfit]
    split <;> rfl
  · exact card (Option.isSome_iff_exists.mpr ⟨19, cardAt_eq_some_iff.mpr ⟨rfl, Or.inl hfit⟩⟩)
  · refine card (Option.isSome_iff_exists.mpr ⟨19, cardAt_eq_some_iff.mpr ⟨rfl, Or.inr ?_⟩⟩)
    exact ⟨hfit, hclear (by decide)⟩
  · have hplain : plainCardAt (encode text) i = true := by
      rw [plainCardAt, hfit, Bool.true_and]
      exact hclear (by decide)
    by_cases hfree : ∀ pre loc dom post, EmailAt table text pre loc dom post →
        ¬ (byteLen pre ≤ i ∧ i + 16 ≤ emailStop pre loc dom)
    · exact self (.plainCard hplain hfree)
    · push Not at hfree
      obtain ⟨pre, loc, dom, post, hat, hle, hend⟩ := hfree
      exact ⟨_, _, _, .email hat, hle, by omega⟩

theorem getElem?_middle {f y r : List UInt8} {k : ℕ} (hk : k < y.length ∨ r = []) :
    (f ++ y ++ r)[f.length + k]? = y[k]? := by
  rw [List.append_assoc, List.getElem?_append_right (Nat.le_add_right _ _), Nat.add_sub_cancel_left]
  rcases hk with hk | rfl
  · exact List.getElem?_append_left hk
  · rw [List.append_nil]

/-- What stands next to a stretch depends only on the characters around it. -/
theorem clearOfDigits_middle {f u x v r : List UInt8} (hf : f = [] ∨ u ≠ [])
    (hr : r = [] ∨ v ≠ []) :
    clearOfDigits (f ++ (u ++ x ++ v) ++ r) (f ++ u).length (f ++ u ++ x).length =
      clearOfDigits (u ++ x ++ v) u.length (u ++ x).length := by
  have hafter : (f ++ (u ++ x ++ v) ++ r)[(f ++ u ++ x).length]? =
      (u ++ x ++ v)[(u ++ x).length]? := by
    rw [List.append_assoc f u x, @List.length_append _ f]
    apply getElem?_middle
    rcases hr with hr | hv
    · exact Or.inr hr
    · have := List.length_pos_iff.mpr hv
      exact Or.inl (by rw [@List.length_append _ (u ++ x)]; omega)
  rw [clearOfDigits, clearOfDigits, hafter]
  congr 1
  by_cases hu : u = []
  · rw [hf.resolve_right (not_not.mpr hu), hu]
    rfl
  · have hpos := List.length_pos_iff.mpr hu
    have hlen : (f ++ u).length - 1 = f.length + (u.length - 1) := by
      rw [List.length_append]
      omega
    have hbefore : (f ++ (u ++ x ++ v) ++ r)[(f ++ u).length - 1]? =
        (u ++ x ++ v)[u.length - 1]? := by
      rw [hlen]
      exact getElem?_middle (Or.inl (by simp; omega))
    rw [hbefore, beq_false_of_ne (by simp [hu]), beq_false_of_ne (by omega)]

theorem clearOfDigits_encode_middle {f u x v r : List Char} (hf : f = [] ∨ u ≠ [])
    (hr : r = [] ∨ v ≠ []) :
    clearOfDigits (encode (f ++ (u ++ x ++ v) ++ r)) (byteLen (f ++ u)) (byteLen (f ++ u ++ x)) =
      clearOfDigits (encode (u ++ x ++ v)) (byteLen u) (byteLen (u ++ x)) := by
  have hnil {y : List Char} : encode y = [] ↔ y = [] := by
    rw [← List.length_eq_zero_iff, length_encode, byteLen_eq_zero]
  have := clearOfDigits_middle (x := encode x) (hf.imp hnil.mpr (mt hnil.mp))
    (hr.imp hnil.mpr (mt hnil.mp))
  simpa only [← encode_append, length_encode] using this

/-- When the matches are well nested, no byte of a span is copied. -/
theorem not_copied {table : CharTable} {text : Str} {ms : List PiiMatch}
    (h : detect table text = .ok ms)
    (hnested : WellNested PiiMatch.start PiiMatch.stop (sortByStart ms))
    {ty : PiiType} {s e n : ℕ} (hspan : PiiSpan table text ty s e) (hs : s ≤ n) (he : n < e)
    {g : ℕ × ℕ} (hg : g ∈ gaps PiiMatch.start PiiMatch.stop (replaced ms) 0 (byteLen text)) :
    ¬ (g.1 ≤ n ∧ n < g.2) := by
  intro ⟨hgs, hge⟩
  obtain ⟨m, hm, -, rfl, rfl⟩ := (detect_reports h ty s e).mpr hspan
  obtain ⟨t, ht, hts, hte⟩ :=
    hnested.inside_selected (sortByStart_sorted ms) (mem_sortByStart.mpr hm)
  exact ((copied_iff h).mp ⟨g, hg, hgs, hge⟩).2 t ht ⟨hts.trans hs, he.trans_le hte⟩

/-! ### What is found in masked text -/

def PrecededBy (text : Str) (n : ℕ) (f : Char → Bool) : Prop :=
  ∃ p c q, text = p ++ c :: q ∧ byteLen (p ++ [c]) = n ∧ f c = true

def FollowedBy (text : Str) (n : ℕ) (f : Char → Bool) : Prop :=
  ∃ p c q, text = p ++ c :: q ∧ byteLen p = n ∧ f c = true

/-- What a span of the masked text can be: an address that ends at a mask which a letter preceded
in the text, or a spaced or plain card number that ends at a mask which a digit preceded, or that
starts after a mask which a digit followed. -/
inductive AtMask (text out : Str) (masks : List (PiiMatch × ℕ)) : PiiType → ℕ → ℕ → Prop where
  | email {t : PiiMatch} {s e : ℕ} : (t, e) ∈ masks → PrecededBy text t.start Char.isAlpha →
      AtMask text out masks .email s e
  | cardBefore {t : PiiMatch} {tpl : Template} {s e : ℕ} : tpl ∈ guardedTemplates →
      fitsAt tpl (encode out) s = true → (t, e) ∈ masks → PrecededBy text t.start Char.isDigit →
      AtMask text out masks .cardNumber s e
  | cardAfter {t : PiiMatch} {tpl : Template} {s e o : ℕ} : tpl ∈ guardedTemplates →
      fitsAt tpl (encode out) s = true → (t, o) ∈ masks → o + byteLen (maskOf t.piiType) = s →
      FollowedBy text t.stop Char.isDigit → AtMask text out masks .cardNumber s e

theorem not_precededBy {a r : List Char} {d : Char} {f : Char → Bool} (hd : f d = false) :
    ¬ PrecededBy (a ++ d :: r) (byteLen (a ++ [d])) f := by
  rintro ⟨p, c, q, hsplit, hlen, hc⟩
  have hsplit' : a ++ [d] ++ r = p ++ [c] ++ q := by
    rw [List.append_assoc, List.append_assoc]
    exact hsplit
  obtain ⟨hfront, -⟩ := append_inj hsplit' hlen.symm
  obtain ⟨-, rfl⟩ := List.append_singleton_inj.mp hfront
  rw [hd] at hc
  cases hc

theorem not_followedBy {a r : List Char} {d : Char} {f : Char → Bool} (hd : f d = false) :
    ¬ FollowedBy (a ++ d :: r) (byteLen a) f := by
  rintro ⟨p, c, q, hsplit, hlen, hc⟩
  obtain ⟨-, hback⟩ := append_inj hsplit hlen.symm
  rw [← (List.cons.inj hback).1, hd] at hc
  cases hc

section Remasked

variable {table : CharTable} {text out : Str} {ms : List PiiMatch}

theorem replaced_fits (h : detect table text = .ok ms) : ∀ t ∈ replaced ms, t.Fits text :=
  fun t ht => detect_fits h t (mem_of_mem_replaced ht)

/-- What comes before a number in the masked text came before it in the text, unless it starts
after a mask which a digit followed. -/
theorem Origin.mask_or_before {sel : List PiiMatch} {tpl : Template} {a x b p u v q : List Char}
    {e : ℕ} (h : Origin text sel 0 0 a x b p u v q) (hguard : tpl ∈ guardedTemplates)
    (hself : NumberSpan (encode x) tpl 0 (byteLen x))
    (hfits : fitsAt tpl (encode (a ++ x ++ b)) (byteLen a) = true) :
    AtMask text (a ++ x ++ b) (maskPositions sel 0 0) .cardNumber (byteLen a) e ∨
      ∃ f, a = f ++ u ∧ (f = [] ∨ u ≠ []) ∧ (p = [] ∨ u ≠ []) := by
  rcases h.left with ⟨hp, hau⟩ | ⟨f, t, o, hau, hmem, hstop, hlen⟩
  · exact .inr ⟨[], hau, .inl rfl, .inl (byteLen_eq_zero.mp hp)⟩
  · by_cases hu : u = []
    · left
      obtain ⟨d, hd, hdigit⟩ := hself.first_digit
      obtain ⟨c, x', rfl, hc⟩ :=
        head_of_ascii (p := []) hd (Slot.lt_of_accepts (s := .digit) hdigit)
      refine .cardAfter hguard hfits hmem ?_ ⟨p, c, x' ++ v ++ q, ?_, hstop.symm,
        isDigit_of_isAsciiDigit hc hdigit⟩
      · rw [← hlen, Nat.zero_add, hau, hu, List.append_nil]
      · rw [h.split, hu]
        simp
    · exact .inr ⟨f, hau, .inr hu, .inr hu⟩

/-- What comes after a number in the masked text came after it in the text, unless it ends at a
mask which a digit preceded. -/
theorem Origin.mask_or_after {sel : List PiiMatch} {tpl : Template} {a x b p u v q : List Char}
    (h : Origin text sel 0 0 a x b p u v q) (hguard : tpl ∈ guardedTemplates)
    (hself : NumberSpan (encode x) tpl 0 (byteLen x))
    (hfits : fitsAt tpl (encode (a ++ x ++ b)) (byteLen a) = true) :
    AtMask text (a ++ x ++ b) (maskPositions sel 0 0) .cardNumber (byteLen a) (byteLen (a ++ x)) ∨
      ∃ r, b = v ++ r ∧ (r = [] ∨ v ≠ []) ∧ (q = [] ∨ v ≠ []) := by
  rcases h.right with ⟨hq, hbv⟩ | ⟨r, t, o, hbv, hmem, hstart, hlen⟩
  · exact .inr ⟨[], by rw [hbv, List.append_nil], .inl rfl, .inl hq⟩
  · by_cases hv : v = []
    · left
      obtain ⟨d, hd, hdigit⟩ := hself.last_digit
      have hlast : byteLen x = byteLen x - 1 + 1 := (Nat.sub_add_cancel hself.lt).symm
      obtain ⟨x', c, rfl, hc⟩ := last_of_ascii (p := x) (q := []) hlast
        (by rwa [List.append_nil]) (Slot.lt_of_accepts (s := .digit) hdigit)
      rw [hv, List.append_nil, Nat.zero_add] at hlen
      rw [← hlen] at hmem
      refine .cardBefore hguard hfits hmem ⟨p ++ u ++ x', c, q, ?_, ?_,
        isDigit_of_isAsciiDigit hc hdigit⟩
      · rw [h.split, hv]
        simp
      · rw [hstart, hv]
        simp
    · exact .inr ⟨r, hbv, .inr hv, .inr hv⟩

theorem remasked_number (h : detect table text = .ok ms)
    (hnested : WellNested PiiMatch.start PiiMatch.stop (sortByStart ms))
    (hout : maskedFrom text (replaced ms) 0 = out) {tpl : Template} {s e : ℕ}
    (hnum : NumberSpan (encode out) tpl s e) :
    tpl ∈ guardedTemplates ∧ AtMask text out (maskPositions (replaced ms) 0 0) .cardNumber s e := by
  obtain ⟨a, x, b, rfl, rfl, rfl, hxlen, hstar, htwo, hself⟩ := hnum.exists_stretch
  obtain ⟨p, u, v, q, horigin⟩ : ∃ p u v q, Origin text (replaced ms) 0 0 a x b p u v q :=
    exists_origin (replaced_fits h) (replaced_disjoint h) (fun t _ => Nat.zero_le _)
      (isCharBoundary_zero text) hstar htwo hout
  have hfit : fitsAt tpl (encode text) (byteLen (p ++ u)) = true := by
    have hsplit : text = p ++ u ++ x ++ (v ++ q) := by
      rw [horigin.split]
      simp
    rw [hsplit, fitsAt_encode_middle hxlen.ge]
    exact hself.fits
  -- in the text the same characters do not count, since they were copied
  have hno : ¬ NumberSpan (encode text) tpl (byteLen (p ++ u)) (byteLen (p ++ u) + tpl.length) := by
    intro hspan
    obtain ⟨ty, s', e', hpii, hs, he⟩ : ∃ ty s' e', PiiSpan table text ty s' e' ∧
      s' ≤ byteLen (p ++ u) ∧ byteLen (p ++ u) < e' := hspan.covered
    apply not_copied h hnested hpii hs he horigin.gap
    have hpos := hself.lt
    simp only [byteLen_append]
    omega
  have hguard : tpl ∈ guardedTemplates := by
    by_contra hopen
    exact hno ⟨hnum.mem, hfit, rfl, fun hg => absurd hg hopen⟩
  refine ⟨hguard, ?_⟩
  rcases horigin.mask_or_before hguard hself hnum.fits with hmask | ⟨f, rfl, hf, hp⟩
  · exact hmask
  rcases horigin.mask_or_after hguard hself hnum.fits with hmask | ⟨r, rfl, hr, hq⟩
  · exact hmask
  -- no mask touches it, so nothing has changed next to it
  refine absurd ⟨hnum.mem, hfit, rfl, fun _ => ?_⟩ hno
  have hclear := hnum.clear hguard
  rw [show f ++ u ++ x ++ (v ++ r) = f ++ (u ++ x ++ v) ++ r by simp,
    clearOfDigits_encode_middle hf hr, ← clearOfDigits_encode_middle hp hq, ← horigin.split,
    byteLen_append (p ++ u), hxlen] at hclear
  exact hclear

theorem not_isLocalChar_star (table : CharTable) : isLocalChar table '*' = false := by
  rw [isLocalChar, table.ascii '*' (by decide)]
  rfl

theorem not_isDomainChar_star (table : CharTable) : isDomainChar table '*' = false := by
  rw [isDomainChar, table.ascii '*' (by decide)]
  rfl

theorem EmailAt.no_star {pre loc dom post : List Char} (hat : EmailAt table text pre loc dom post) :
    '*' ∉ loc ++ '@' :: dom := by
  intro hmem
  rcases List.mem_append.mp hmem with hloc | hdom
  · have hlocal := hat.localRun.all '*' hloc
    rw [not_isLocalChar_star] at hlocal
    cases hlocal
  · have hdomain := hat.domainRun.all '*' ((List.mem_cons.mp hdom).resolve_left (by decide))
    rw [not_isDomainChar_star] at hdomain
    cases hdomain

/-- The characters before an `@` give an address in any text in which the domain ends. -/
theorem EmailAt.exists_in (front : List Char) {rest pre loc dom post : List Char}
    (hat : EmailAt table out pre loc dom post)
    (hstop : ∀ c, rest.head? = some c → isDomainChar table c = false) :
    ∃ pre' loc', EmailAt table (front ++ loc ++ '@' :: (dom ++ rest)) pre' loc' dom rest ∧
      pre' ++ loc' = front ++ loc := by
  obtain ⟨pre', loc', hfront, hrun⟩ := exists_suffixRun (isLocalChar table) (front ++ loc)
  refine ⟨pre', loc', ⟨by rw [hfront], hrun, ⟨hat.domainRun.all, hstop⟩, ?_, hat.tld⟩, hfront.symm⟩
  rintro rfl
  have hlast : (loc.getLast hat.loc_ne) ∈ loc := List.getLast_mem hat.loc_ne
  have hnot := hrun.stop (loc.getLast hat.loc_ne) (by
    rw [List.append_nil] at hfront
    rw [← hfront, List.getLast?_append, List.getLast?_eq_some_getLast hat.loc_ne]
    rfl)
  rw [hat.localRun.all _ hlast] at hnot
  cases hnot

/-- In the text a copied address goes on: it would be an address there, and its `@` was copied. -/
theorem EmailAt.goes_on (h : detect table text = .ok ms)
    (hnested : WellNested PiiMatch.start PiiMatch.stop (sortByStart ms))
    {pre loc dom post p u v q : List Char} (hat : EmailAt table out pre loc dom post)
    (hsplit : text = p ++ (u ++ (loc ++ '@' :: dom) ++ v) ++ q)
    (hgap : (byteLen p, byteLen (p ++ (u ++ (loc ++ '@' :: dom) ++ v))) ∈
      gaps PiiMatch.start PiiMatch.stop (replaced ms) 0 (byteLen text)) :
    ¬ ∀ c, (v ++ q).head? = some c → isDomainChar table c = false := by
  intro hstop
  obtain ⟨pre', loc', hat', hfront⟩ := hat.exists_in (p ++ u) hstop
  have htext : p ++ u ++ loc ++ '@' :: (dom ++ (v ++ q)) = text := by
    rw [hsplit]
    simp
  rw [htext] at hat'
  have hwidth : Char.utf8Size '@' = 1 := rfl
  have hlen := congrArg byteLen hfront
  have hinside : byteLen pre' ≤ byteLen (p ++ u ++ loc) ∧
      byteLen (p ++ u ++ loc) < emailStop pre' loc' dom := by
    rw [emailStop, ← hlen, byteLen_append]
    omega
  apply not_copied h hnested (.email hat') hinside.1 hinside.2 hgap
  simp only [byteLen_append, byteLen_cons, hwidth]
  omega

theorem EmailAt.exists_last_letter {pre loc dom post : List Char}
    (hat : EmailAt table out pre loc dom post) :
    ∃ front c, dom = front ++ [c] ∧ c.isAlpha = true := by
  obtain ⟨labels, tld, rfl, htld, halpha⟩ := hat.tld
  have hne : tld ≠ [] := List.ne_nil_of_length_pos (by omega)
  refine ⟨labels ++ '.' :: tld.dropLast, tld.getLast hne, ?_, halpha _ (List.getLast_mem hne)⟩
  rw [List.append_assoc, List.cons_append, List.dropLast_append_getLast hne]

theorem remasked_email (h : detect table text = .ok ms)
    (hnested : WellNested PiiMatch.start PiiMatch.stop (sortByStart ms))
    (hout : maskedFrom text (replaced ms) 0 = out) {pre loc dom post : List Char}
    (hat : EmailAt table out pre loc dom post) :
    AtMask text out (maskPositions (replaced ms) 0 0) .email (byteLen pre)
      (emailStop pre loc dom) := by
  have hsplitOut : out = pre ++ (loc ++ '@' :: dom) ++ post := by
    rw [hat.split_stop]
    simp
  have htwo : 2 ≤ (loc ++ '@' :: dom).length := by
    have := List.length_pos_iff.mpr hat.loc_ne
    rw [List.length_append, List.length_cons]
    omega
  obtain ⟨p, u, v, q, hsplit, hgap, -, hright⟩ :=
    exists_origin (n := 0) (replaced_fits h) (replaced_disjoint h) (fun t _ => Nat.zero_le _)
      (isCharBoundary_zero text) hat.no_star htwo (hout.trans hsplitOut)
  have hno := hat.goes_on h hnested hsplit hgap
  have hv : v = [] := by
    cases v with
    | nil => rfl
    | cons c v =>
        refine absurd (fun d hd => hat.domainRun.stop d ?_) hno
        rcases hright with ⟨-, rfl⟩ | ⟨b', t, o, rfl, -⟩ <;> exact hd
  subst hv
  rcases hright with ⟨rfl, -⟩ | ⟨b', t, o, -, hmem, hstart, hlen⟩
  · exact absurd (fun c hc => by cases hc) hno
  · have ho : o = emailStop pre loc dom := by
      rw [← hlen, emailStop_eq, List.append_nil, Nat.zero_add, List.append_assoc]
    rw [ho] at hmem
    obtain ⟨front, c, rfl, halpha⟩ := hat.exists_last_letter
    refine .email hmem ⟨p ++ u ++ loc ++ '@' :: front, c, q, ?_, ?_, halpha⟩
    · rw [hsplit]
      simp
    · rw [hstart]
      congr 1
      simp

/-- Every span of the masked text touches a mask. -/
theorem PiiSpan.atMask (h : detect table text = .ok ms)
    (hnested : WellNested PiiMatch.start PiiMatch.stop (sortByStart ms))
    (hout : maskedFrom text (replaced ms) 0 = out) {ty : PiiType} {s e : ℕ}
    (hspan : PiiSpan table out ty s e) :
    AtMask text out (maskPositions (replaced ms) 0 0) ty s e := by
  rcases hspan.number_or_email with ⟨tpl, hnum, hty⟩ | ⟨rfl, pre, loc, dom, post, hat, rfl, rfl⟩
  · obtain ⟨hguard, hmask⟩ := remasked_number h hnested hout hnum
    rw [hty hguard]
    exact hmask
  · exact remasked_email h hnested hout hat

theorem mem_of_mem_maskPositions {sel : List PiiMatch} {last n : ℕ} {t : PiiMatch} {o : ℕ}
    (h : (t, o) ∈ maskPositions sel last n) : t ∈ sel := by
  induction sel generalizing last n with
  | nil => cases h
  | cons m sel ih =>
      rcases List.mem_cons.mp h with heq | h
      · rw [(Prod.mk.inj heq).1]
        exact List.mem_cons_self
      · exact List.mem_cons_of_mem m (ih h)

theorem detect_eq_nil (hnone : ∀ ty s e, ¬ PiiSpan table text ty s e) :
    detect table text = .ok [] := by
  obtain ⟨found, hfound, hreports⟩ := detectPatterns_spec table text
  cases found with
  | nil =>
      rw [detect, hfound]
      rfl
  | cons m found =>
      exact absurd ((hreports _ _ _).mp ⟨m, List.mem_cons_self, rfl, rfl, rfl⟩) (hnone _ _ _)

theorem maskText_of_detect_nil (h : detect table text = .ok []) :
    maskText table text = .ok text := by
  rw [maskText, h]
  rfl

end Remasked

/-- A match in the masked text ends at a mask or starts after one, where the text had a letter or
a digit next to what was masked. Where it had none, masking leaves nothing to detect. -/
theorem remask_spec {table : CharTable} {text out : Str} {ms : List PiiMatch}
    (h : detect table text = .ok ms)
    (hnested : WellNested PiiMatch.start PiiMatch.stop (sortByStart ms))
    (hmask : maskText table text = .ok out) :
    (∀ ms', detect table out = .ok ms' → ∀ m ∈ ms',
      AtMask text out (maskPositions (replaced ms) 0 0) m.piiType m.start m.stop) ∧
    ((∀ t ∈ replaced ms, ¬ PrecededBy text t.start Char.isAlphanum ∧
      ¬ FollowedBy text t.stop Char.isDigit) →
        detect table out = .ok [] ∧ maskText table out = .ok out) := by
  have hout : maskedFrom text (replaced ms) 0 = out := by
    rw [maskText_eq h] at hmask
    exact Except.ok.inj hmask
  refine ⟨fun ms' h' m hm => (detect_span h' hm).atMask h hnested hout, fun hdetached => ?_⟩
  have hnone : ∀ ty s e, ¬ PiiSpan table out ty s e := by
    intro ty s e hspan
    have hdetached' {t : PiiMatch} {o : ℕ} (hmem : (t, o) ∈ maskPositions (replaced ms) 0 0) :=
      hdetached t (mem_of_mem_maskPositions hmem)
    cases hspan.atMask h hnested hout with
    | email hmem hbefore =>
        obtain ⟨p, c, q, hsplit, hlen, hc⟩ := hbefore
        exact (hdetached' hmem).1 ⟨p, c, q, hsplit, hlen, by rw [Char.isAlphanum, hc]; rfl⟩
    | cardBefore _ _ hmem hbefore =>
        obtain ⟨p, c, q, hsplit, hlen, hc⟩ := hbefore
        refine (hdetached' hmem).1 ⟨p, c, q, hsplit, hlen, ?_⟩
        rw [Char.isAlphanum, hc, Bool.or_true]
    | cardAfter _ _ hmem _ hafter => exact (hdetached' hmem).2 hafter
  have hdetect := detect_eq_nil hnone
  exact ⟨hdetect, maskText_of_detect_nil hdetect⟩

theorem remask_phone : detect .hangul "call ***-****-**** now".toList = .ok [] ∧
    maskText .hangul "call ***-****-**** now".toList = .ok "call ***-****-**** now".toList := by
  have hdetect : detect .hangul "call 010-1234-5678 now".toList =
      .ok [⟨.phoneNumber, 5, 18, "010-1234-5678".toList, 90 / 100⟩] := by
    decide +kernel
  have hmask : maskText .hangul "call 010-1234-5678 now".toList =
      .ok "call ***-****-**** now".toList := by
    decide +kernel
  apply (remask_spec hdetect (wellNested_singleton _) hmask).2
  intro t ht
  have hreplaced : replaced [⟨.phoneNumber, 5, 18, "010-1234-5678".toList, 90 / 100⟩] =
      [⟨.phoneNumber, 5, 18, "010-1234-5678".toList, 90 / 100⟩] := rfl
  rw [hreplaced, List.mem_singleton] at ht
  subst ht
  have hbefore : "call 010-1234-5678 now".toList =
      "call".toList ++ ' ' :: "010-1234-5678 now".toList := by
    decide +kernel
  have hafter : "call 010-1234-5678 now".toList =
      "call 010-1234-5678".toList ++ ' ' :: "now".toList := by
    decide +kernel
  constructor
  · rw [hbefore]
    exact not_precededBy (by decide)
  · rw [hafter]
    exact not_followedBy (by decide)

/-- An address whose last label runs into a resident number ends in a digit and is no address;
once the number is masked it is one. -/
theorem address_found_after_masking :
    ¬ ∀ table text out ms', maskText table text = .ok out → detect table out = .ok ms' →
      ms' = [] ∧ maskText table out = .ok out := by
  intro h
  have hmask : maskText .hangul "a@b.com901234-1234567".toList =
      .ok "a@b.com******-*******".toList := by
    decide +kernel
  have hdetect : detect .hangul "a@b.com******-*******".toList =
      .ok [⟨.email, 0, 7, "a@b.com".toList, 95 / 100⟩] := by
    decide +kernel
  cases (h _ _ _ _ hmask hdetect).1

end NeuRust.Security
