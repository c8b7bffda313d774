import NeuRust.Security.PiiReports
import NeuRust.Text.Intervals

/-!
How spans of PII meet. Every number starts and ends with a digit, an address extends over
letters and digits on both sides, and spaced and plain card numbers have no digit next to them;
so little can follow directly on a span. What is left is a question about pairs of templates,
settled by comparing them slot by slot: a span that is covered by disjoint spans lies inside one
of them.
-/

namespace NeuRust.Security

open Utf8 Scan Runs Intervals

/-! ### Templates against each other -/

/-- What a slot says about a byte when digits are not told apart. -/
def Slot.kind : Slot → Option UInt8
  | .digit | .oneToFour | .zero | .one => none
  | .dash => some '-'.toUInt8
  | .space => some ' '.toUInt8

def byteKind (b : UInt8) : Option UInt8 := if isAsciiDigit b then none else some b

theorem isAsciiDigit_of_byteKind {b : UInt8} (h : byteKind b = none) : isAsciiDigit b = true := by
  rw [byteKind] at h
  split at h
  case isTrue hdigit => exact hdigit
  case isFalse => cases h

theorem Slot.byteKind_of_accepts {s : Slot} {b : UInt8} (h : s.accepts b = true) :
    byteKind b = s.kind := by
  have inDigits {lo hi : UInt8} (hlo : '0'.toUInt8 ≤ lo) (hhi : hi ≤ '9'.toUInt8)
      (hb : (decide (lo ≤ b) && decide (b ≤ hi)) = true) : byteKind b = none := by
    rw [Bool.and_eq_true, decide_eq_true_eq, decide_eq_true_eq] at hb
    have hdigit : isAsciiDigit b = true := by
      rw [isAsciiDigit, Bool.and_eq_true, decide_eq_true_eq, decide_eq_true_eq]
      exact ⟨UInt8.le_trans hlo hb.1, UInt8.le_trans hb.2 hhi⟩
    rw [byteKind, if_pos hdigit]
  cases s with
  | digit => exact inDigits (by decide) (by decide) h
  | oneToFour => exact inDigits (by decide) (by decide) h
  | zero | one | dash | space =>
      simp only [accepts, beq_iff_eq] at h
      rw [h]
      decide

/-- Slot by slot, as far as both templates go, the kinds are the same. -/
def agree : Template → Template → Bool
  | s :: a, s' :: b => decide (s.kind = s'.kind) && agree a b
  | _, _ => true

theorem agree_of_fits {a b : Template} {bytes : List UInt8} {i : ℕ}
    (ha : fitsAt a bytes i = true) (hb : fitsAt b bytes i = true) : agree a b = true := by
  induction a generalizing b i with
  | nil => cases b <;> rfl
  | cons s a ih =>
      cases b with
      | nil => rfl
      | cons s' b =>
          simp only [fitsAt_cons, Bool.and_eq_true, Option.any_eq_true] at ha hb
          obtain ⟨⟨x, hx, hs⟩, ha⟩ := ha
          obtain ⟨⟨y, hy, hs'⟩, hb⟩ := hb
          rw [hx] at hy
          cases hy
          have hkind : s.kind = s'.kind := by
            rw [← Slot.byteKind_of_accepts hs, Slot.byteKind_of_accepts hs']
          rw [agree, ih ha hb, decide_eq_true hkind]
          rfl

theorem fitsAt_drop {tpl : Template} {bytes : List UInt8} {i : ℕ} (h : fitsAt tpl bytes i = true)
    {k : ℕ} (hk : k ≤ tpl.length) : fitsAt (tpl.drop k) bytes (i + k) = true := by
  have hsplit := h
  rw [← List.take_append_drop k tpl, fitsAt_append, Bool.and_eq_true, List.length_take,
    min_eq_left hk] at hsplit
  exact hsplit.2

/-! ### Numbers -/

/-- The patterns that are found whatever stands next to them. -/
def openTemplates : List Template := [ssn, mobile, landline, grouped .dash]

/-- The patterns that are found only with no digit next to them. -/
def guardedTemplates : List Template := [grouped .space, plain]

structure NumberSpan (bytes : List UInt8) (tpl : Template) (s e : ℕ) : Prop where
  mem : tpl ∈ openTemplates ++ guardedTemplates
  fits : fitsAt tpl bytes s = true
  stop_eq : e = s + tpl.length
  clear : tpl ∈ guardedTemplates → clearOfDigits bytes s e = true

theorem PiiSpan.number_or_email {table : CharTable} {text : Str} {ty : PiiType} {s e : ℕ}
    (h : PiiSpan table text ty s e) :
    (∃ tpl, NumberSpan (encode text) tpl s e ∧ (tpl ∈ guardedTemplates → ty = .cardNumber)) ∨
      ty = .email ∧ ∃ pre loc dom post,
        EmailAt table text pre loc dom post ∧ s = byteLen pre ∧ e = emailStop pre loc dom := by
  have noGuard {P : Prop} {tpl : Template} (hopen : tpl ∉ guardedTemplates) :
      tpl ∈ guardedTemplates → P := fun h => absurd h hopen
  cases h with
  | koreanSsn hfit =>
      exact Or.inl ⟨ssn, ⟨by decide, hfit, rfl, noGuard (by decide)⟩, noGuard (by decide)⟩
  | phoneNumber hch hk =>
      rcases phoneAt_eq_some_iff.mp hk with ⟨rfl, hfit⟩ | ⟨rfl, hfit, -⟩
      · exact Or.inl ⟨mobile, ⟨by decide, hfit, rfl, noGuard (by decide)⟩, noGuard (by decide)⟩
      · exact Or.inl ⟨landline, ⟨by decide, hfit, rfl, noGuard (by decide)⟩, noGuard (by decide)⟩
  | email hat => exact Or.inr ⟨rfl, _, _, _, _, hat, rfl, rfl⟩
  | groupedCard hch =>
      obtain ⟨k, hk⟩ := Option.isSome_iff_exists.mp hch.isSome
      obtain ⟨-, hfit | ⟨hfit, hclear⟩⟩ := cardAt_eq_some_iff.mp hk
      · exact Or.inl ⟨grouped .dash, ⟨by decide, hfit, rfl, noGuard (by decide)⟩, fun _ => rfl⟩
      · exact Or.inl ⟨grouped .space, ⟨by decide, hfit, rfl, fun _ => hclear⟩, fun _ => rfl⟩
  | plainCard hplain _ =>
      rw [plainCardAt, Bool.and_eq_true] at hplain
      exact Or.inl ⟨plain, ⟨by decide, hplain.1, rfl, fun _ => hplain.2⟩, fun _ => rfl⟩

section Numbers

variable {bytes : List UInt8} {tpl : Template} {s e : ℕ}

theorem ends_in_digits : ∀ tpl ∈ openTemplates ++ guardedTemplates, 0 < tpl.length ∧
    (tpl[0]?).map Slot.kind = some none ∧ (tpl[tpl.length - 1]?).map Slot.kind = some none := by
  decide

theorem NumberSpan.digit_at {k : ℕ} (h : NumberSpan bytes tpl s e)
    (hk : (tpl[k]?).map Slot.kind = some none) :
    ∃ b, bytes[s + k]? = some b ∧ isAsciiDigit b = true := by
  obtain ⟨slot, hslot, hkind⟩ := Option.map_eq_some_iff.mp hk
  obtain ⟨b, hb, hacc⟩ := fitsAt_iff.mp h.fits k slot hslot
  exact ⟨b, hb, isAsciiDigit_of_byteKind ((Slot.byteKind_of_accepts hacc).trans hkind)⟩

theorem NumberSpan.first_digit (h : NumberSpan bytes tpl s e) :
    ∃ b, bytes[s]? = some b ∧ isAsciiDigit b = true :=
  h.digit_at (ends_in_digits tpl h.mem).2.1

theorem NumberSpan.last_digit (h : NumberSpan bytes tpl s e) :
    ∃ b, bytes[e - 1]? = some b ∧ isAsciiDigit b = true := by
  obtain ⟨hpos, -, hlast⟩ := ends_in_digits tpl h.mem
  have he : e - 1 = s + (tpl.length - 1) := by
    have := h.stop_eq
    omega
  rw [he]
  exact h.digit_at hlast

theorem NumberSpan.lt (h : NumberSpan bytes tpl s e) : s < e := by
  have := (ends_in_digits tpl h.mem).1
  have := h.stop_eq
  omega

theorem NumberSpan.open_of_digit_after (h : NumberSpan bytes tpl s e) {b : UInt8}
    (hb : bytes[e]? = some b) (hdigit : isAsciiDigit b = true) : tpl ∈ openTemplates := by
  refine (List.mem_append.mp h.mem).resolve_right fun hguarded => ?_
  have hclear := h.clear hguarded
  rw [clearOfDigits, hb, Option.any_some, hdigit, Bool.not_true, Bool.and_false] at hclear
  cases hclear

theorem NumberSpan.open_of_digit_before (h : NumberSpan bytes tpl s e) {b : UInt8} (hs : 0 < s)
    (hb : bytes[s - 1]? = some b) (hdigit : isAsciiDigit b = true) : tpl ∈ openTemplates := by
  refine (List.mem_append.mp h.mem).resolve_right fun hguarded => ?_
  have hclear := h.clear hguarded
  rw [clearOfDigits, hb, Option.any_some, hdigit, Bool.not_true, Bool.or_false, Bool.and_eq_true,
    beq_iff_eq] at hclear
  omega

/-- The one way in which an instance can begin inside another and reach into a third that follows
directly on it. -/
theorem straddling_templates : ∀ a ∈ openTemplates, ∀ b ∈ openTemplates ++ guardedTemplates,
    ∀ c ∈ openTemplates, ∀ k ∈ List.range b.length, 0 < k ∧ k ≤ a.length ∧
      agree ((a ++ c).drop (a.length - k)) b = true → b = grouped .dash ∧ c = mobile ∧ k = 1 := by
  decide +kernel

theorem NumberSpan.straddle {a b c : Template} {s₁ s₂ e₂ mid e₃ : ℕ}
    (ha : NumberSpan bytes a s₁ mid) (hb : NumberSpan bytes b s₂ e₂)
    (hc : NumberSpan bytes c mid e₃) (hs : s₁ ≤ s₂) (hmid : s₂ < mid) (he : mid < e₂) :
    b = grouped .dash ∧ c = mobile ∧ s₂ + 1 = mid := by
  obtain ⟨x, hx, hxdigit⟩ := hc.first_digit
  obtain ⟨y, hy, hydigit⟩ := ha.last_digit
  have haopen := ha.open_of_digit_after hx hxdigit
  have hcopen := hc.open_of_digit_before (by have := ha.lt; omega) hy hydigit
  have halen := ha.stop_eq
  have hblen := hb.stop_eq
  -- `a` and `c` together are one template, of which `b` sees the part from its own start on
  have hboth : fitsAt (a ++ c) bytes s₁ = true := by
    rw [fitsAt_append, ha.fits, ← halen, hc.fits]
    rfl
  have hpart := fitsAt_drop hboth (k := a.length - (mid - s₂)) (by rw [List.length_append]; omega)
  rw [show s₁ + (a.length - (mid - s₂)) = s₂ by omega] at hpart
  obtain ⟨hbt, hct, hk⟩ := straddling_templates a haopen b hb.mem c hcopen (mid - s₂)
    (List.mem_range.mpr (by omega)) ⟨by omega, by omega, agree_of_fits hpart hb.fits⟩
  exact ⟨hbt, hct, by omega⟩

end Numbers

/-! ### What follows directly on a span -/

section Neighbours

variable {table : CharTable} {text : Str} {ty ty' : PiiType} {s e e' : ℕ}

theorem isDigit_of_isAsciiDigit {c : Char} {b : UInt8} (hcb : c.toNat = b.toNat)
    (hb : isAsciiDigit b = true) : c.isDigit = true := by
  rw [isAsciiDigit, Bool.and_eq_true, decide_eq_true_eq, decide_eq_true_eq,
    UInt8.le_iff_toNat_le, UInt8.le_iff_toNat_le, ← hcb] at hb
  rw [Char.isDigit, Bool.and_eq_true, decide_eq_true_eq, decide_eq_true_eq, ge_iff_le,
    UInt32.le_iff_toNat_le, UInt32.le_iff_toNat_le]
  exact hb

theorem isAlphanumeric_of_digit {c : Char} {b : UInt8} (hcb : c.toNat = b.toNat)
    (hb : isAsciiDigit b = true) : table.isAlphanumeric c = true :=
  isAlphanumeric_of_isAlphanum (by
    rw [Char.isAlphanum, isDigit_of_isAsciiDigit hcb hb, Bool.or_true])

theorem isAlphanumeric_of_isAlpha {c : Char} (hc : c.isAlpha = true) :
    table.isAlphanumeric c = true :=
  isAlphanumeric_of_isAlphanum (by rw [Char.isAlphanum, hc, Bool.true_or])

theorem PiiSpan.last_alphanumeric (h : PiiSpan table text ty s e) {p q : List Char}
    (hsplit : text = p ++ q) (hlen : byteLen p = e) :
    ∃ a c, p = a ++ [c] ∧ table.isAlphanumeric c = true := by
  rcases h.number_or_email with ⟨tpl, hnum, -⟩ | ⟨-, pre, loc, dom, post, hat, -, rfl⟩
  · obtain ⟨b, hb, hdigit⟩ := hnum.last_digit
    have hpos := hnum.lt
    rw [hsplit] at hb
    obtain ⟨a, c, rfl, hc⟩ := last_of_ascii (by omega) hb (Slot.lt_of_accepts (s := .digit) hdigit)
    exact ⟨a, c, rfl, isAlphanumeric_of_digit hc hdigit⟩
  · obtain ⟨labels, tld, rfl, htwo, halpha⟩ := hat.tld
    obtain ⟨front, c, rfl⟩ : ∃ front c, tld = front ++ [c] := by
      have hne : tld ≠ [] := List.ne_nil_of_length_pos (by omega)
      exact ⟨_, _, (List.dropLast_append_getLast hne).symm⟩
    have heq : p ++ q = (pre ++ loc ++ '@' :: (labels ++ '.' :: (front ++ [c]))) ++ post := by
      rw [← hsplit, hat.split_stop]
    obtain ⟨rfl, -⟩ := append_inj heq (by rw [hlen, emailStop_eq])
    refine ⟨pre ++ loc ++ '@' :: (labels ++ '.' :: front), c, by simp, ?_⟩
    exact isAlphanumeric_of_isAlpha (halpha c (by simp))

/-- No address starts where another span ends. -/
theorem PiiSpan.not_email_after (h : PiiSpan table text ty s e) {pre loc dom post : List Char}
    (hat : EmailAt table text pre loc dom post) : byteLen pre ≠ e := by
  intro hlen
  have hsplit : text = pre ++ (loc ++ '@' :: (dom ++ post)) := by
    rw [← List.append_assoc]
    exact hat.split
  obtain ⟨a, c, rfl, hc⟩ := h.last_alphanumeric hsplit hlen
  have hstop := hat.localRun.stop c (by simp)
  rw [isLocalChar, hc] at hstop
  cases hstop

/-- No number starts where an address ends. -/
theorem NumberSpan.not_after_email {tpl : Template} (h : NumberSpan (encode text) tpl s e)
    {pre loc dom post : List Char} (hat : EmailAt table text pre loc dom post) :
    emailStop pre loc dom ≠ s := by
  intro hlen
  obtain ⟨b, hb, hdigit⟩ := h.first_digit
  rw [hat.split_stop, ← hlen, emailStop_eq] at hb
  obtain ⟨c, r, rfl, hc⟩ := head_of_ascii hb (Slot.lt_of_accepts (s := .digit) hdigit)
  have hstop := hat.domainRun.stop c rfl
  rw [isDomainChar, isAlphanumeric_of_digit hc hdigit] at hstop
  cases hstop

end Neighbours

/-! ### Covered spans -/

section Covered

variable {table : CharTable} {text : Str}

theorem EmailAt.byte_at {pre loc dom post : List Char} (h : EmailAt table text pre loc dom post) :
    (encode text)[byteLen (pre ++ loc)]? = some '@'.toUInt8 := by
  rw [h.split, encode_append, ← length_encode, List.getElem?_append_right le_rfl, Nat.sub_self]
  rfl

theorem Slot.not_accepts_at (s : Slot) : s.accepts '@'.toUInt8 = false := by
  cases s <;> decide

theorem NumberSpan.no_at {tpl : Template} {s e n : ℕ} (h : NumberSpan (encode text) tpl s e)
    (hs : s ≤ n) (he : n < e) : (encode text)[n]? ≠ some '@'.toUInt8 := by
  intro hat
  have hlen := h.stop_eq
  obtain ⟨b, hb, hacc, -⟩ := fitsAt_byte h.fits (k := n - s) (by omega)
  rw [show s + (n - s) = n by omega, hat, Option.some.injEq] at hb
  rw [← hb, Slot.not_accepts_at] at hacc
  cases hacc

/-- The `@` of an address that lies inside another address is the other one's `@`. -/
theorem EmailAt.eq_of_at_inside {pre loc dom post pre' loc' dom' post' : List Char}
    (h : EmailAt table text pre loc dom post) (h' : EmailAt table text pre' loc' dom' post')
    (hs : byteLen pre' ≤ byteLen (pre ++ loc))
    (he : byteLen (pre ++ loc) < emailStop pre' loc' dom') :
    pre = pre' ∧ loc = loc' ∧ dom = dom' ∧ post = post' := by
  have heq : pre ++ loc ++ '@' :: (dom ++ post) = pre' ++ loc' ++ '@' :: (dom' ++ post') := by
    rw [← h.split, ← h'.split]
  have hwidth : Char.utf8Size '@' = 1 := rfl
  rcases lt_trichotomy (byteLen (pre ++ loc)) (byteLen (pre' ++ loc')) with hlt | hlen | hgt
  · -- it would be a character of the other local part
    obtain ⟨m, hfront, hback⟩ := append_split heq hlt.le
    cases m with
    | nil =>
        rw [hfront, List.append_nil] at hlt
        exact absurd hlt (lt_irrefl _)
    | cons c m =>
        obtain ⟨rfl, -⟩ := List.cons.inj hback
        obtain ⟨x, -, hloc⟩ := append_split hfront hs
        have hall := h'.localRun.all '@' (by simp [hloc])
        rw [not_isLocalChar_at] at hall
        cases hall
  · obtain ⟨hfront, -⟩ := append_inj heq hlen
    exact h.eq_of_runs h'.split h'.localRun h'.domainRun (congrArg List.length hfront)
  · -- it would be a character of the other domain
    obtain ⟨m, hfront, hback⟩ := append_split heq.symm hgt.le
    cases m with
    | nil =>
        rw [hfront, List.append_nil] at hgt
        exact absurd hgt (lt_irrefl _)
    | cons c m =>
        obtain ⟨rfl, hrest⟩ := List.cons.inj hback
        have hsplit : m ++ ['@'] ++ (dom ++ post) = dom' ++ post' := by
          rw [List.append_assoc]
          exact hrest.symm
        have hle : byteLen (m ++ ['@']) ≤ byteLen dom' := by
          rw [hfront, emailStop] at he
          simp only [byteLen_append, byteLen_cons, byteLen_nil, hwidth] at he ⊢
          omega
        obtain ⟨x, hdom, -⟩ := append_split hsplit hle
        have hall := h'.domainRun.all '@' (by simp [hdom])
        rw [not_isDomainChar_at] at hall
        cases hall

section

variable {sel : List PiiMatch}

/-- Where a covered stretch goes on past a span, another span starts. -/
theorem exists_next {s e : ℕ} (hsel : ∀ t ∈ sel, PiiSpan table text t.piiType t.start t.stop)
    (hdisjoint : sel.Pairwise fun a b => a.stop ≤ b.start)
    (hcover : ∀ n, s ≤ n → n < e → ∃ t ∈ sel, t.start ≤ n ∧ n < t.stop) {t : PiiMatch}
    (ht : t ∈ sel) (hs : s < t.stop) (he : t.stop < e) : ∃ u ∈ sel, u.start = t.stop := by
  obtain ⟨u, hu, hus, hue⟩ := hcover t.stop hs.le he
  refine ⟨u, hu, ?_⟩
  by_contra hne
  have hlt := (hsel t ht).boundaries.2.2
  have hsame := eq_of_common_point (n := max u.start t.start) hdisjoint hu ht
    ⟨by omega, by omega⟩ ⟨by omega, by omega⟩
  rw [hsame] at hue
  exact absurd hue (lt_irrefl _)

/-- A number that disjoint spans cover lies inside one of them. -/
theorem NumberSpan.inside_of_covered {tpl : Template} {s e : ℕ}
    (h : NumberSpan (encode text) tpl s e)
    (hsel : ∀ t ∈ sel, PiiSpan table text t.piiType t.start t.stop)
    (hdisjoint : sel.Pairwise fun a b => a.stop ≤ b.start)
    (hcover : ∀ n, s ≤ n → n < e → ∃ t ∈ sel, t.start ≤ n ∧ n < t.stop) :
    ∃ t ∈ sel, t.start ≤ s ∧ e ≤ t.stop := by
  obtain ⟨t, ht, hts, hte⟩ := hcover s le_rfl h.lt
  refine ⟨t, ht, hts, ?_⟩
  by_contra hnot
  -- what covers the byte at the end of `t` starts there
  obtain ⟨v, hv, hvs⟩ := exists_next hsel hdisjoint hcover ht hte (by omega)
  rcases (hsel v hv).number_or_email with ⟨c, hc, -⟩ | ⟨-, pre, loc, dom, post, hat, hstart, -⟩
  · rcases (hsel t ht).number_or_email with ⟨a, ha, -⟩ | ⟨-, pre, loc, dom, post, hat, -, hstop⟩
    · rw [hvs] at hc
      obtain ⟨rfl, rfl, hone⟩ := ha.straddle h hc hts hte (by omega)
      -- the byte after the mobile number is the last dash of the card number
      have hvstop := hc.stop_eq
      have hstop := h.stop_eq
      rw [length_mobile] at hvstop
      rw [length_grouped] at hstop
      obtain ⟨w, hw, hws⟩ := exists_next hsel hdisjoint hcover hv (by omega) (by omega)
      rcases (hsel w hw).number_or_email with
        ⟨d, hd, -⟩ | ⟨-, pre, loc, dom, post, hat, hstart, -⟩
      · obtain ⟨b, hb, hdigit⟩ := hd.first_digit
        obtain ⟨b', hb', hacc, -⟩ := fitsAt_byte h.fits (k := 14) (by simp)
        rw [show s + 14 = w.start by omega, hb, Option.some.injEq] at hb'
        subst hb'
        rw [Slot.not_digit_of_separator (Or.inl rfl) hacc] at hdigit
        cases hdigit
      · exact (hsel v hv).not_email_after hat (by omega)
    · exact hc.not_after_email hat (by omega)
  · exact (hsel t ht).not_email_after hat (by omega)

/-- An address whose `@` a span covers lies inside it. -/
theorem EmailAt.inside_of_covered {pre loc dom post : List Char}
    (h : EmailAt table text pre loc dom post)
    (hsel : ∀ t ∈ sel, PiiSpan table text t.piiType t.start t.stop)
    (hcover : ∃ t ∈ sel, t.start ≤ byteLen (pre ++ loc) ∧ byteLen (pre ++ loc) < t.stop) :
    ∃ t ∈ sel, t.start ≤ byteLen pre ∧ emailStop pre loc dom ≤ t.stop := by
  obtain ⟨t, ht, hts, hte⟩ := hcover
  refine ⟨t, ht, ?_⟩
  rcases (hsel t ht).number_or_email with
    ⟨tpl, hnum, -⟩ | ⟨-, pre', loc', dom', post', hat', hs, he⟩
  · exact absurd h.byte_at (hnum.no_at hts hte)
  · rw [hs] at hts ⊢
    rw [he] at hte ⊢
    obtain ⟨rfl, rfl, rfl, -⟩ := h.eq_of_at_inside hat' hts hte
    exact ⟨le_rfl, le_rfl⟩

/-- A span that disjoint spans cover lies inside one of them. -/
theorem PiiSpan.inside_of_covered {ty : PiiType} {s e : ℕ} (h : PiiSpan table text ty s e)
    (hsel : ∀ t ∈ sel, PiiSpan table text t.piiType t.start t.stop)
    (hdisjoint : sel.Pairwise fun a b => a.stop ≤ b.start)
    (hcover : ∀ n, s ≤ n → n < e → ∃ t ∈ sel, t.start ≤ n ∧ n < t.stop) :
    ∃ t ∈ sel, t.start ≤ s ∧ e ≤ t.stop := by
  rcases h.number_or_email with ⟨tpl, hnum, -⟩ | ⟨-, pre, loc, dom, post, hat, rfl, rfl⟩
  · exact hnum.inside_of_covered hsel hdisjoint hcover
  · apply hat.inside_of_covered hsel
    apply hcover
    · rw [byteLen_append]
      omega
    · rw [emailStop, byteLen_append]
      omega

end

end Covered

end NeuRust.Security
