import NeuRust.Security.NumberScanners

/-!
The e-mail scanner reports exactly the addresses of the text. Its two inner loops find the
maximal runs of address characters on both sides of an `@`; it moves on past the domain, in which
there is no further `@`, so every `@` of the text is looked at once.
-/

namespace NeuRust.Security

open Utf8 Scan Runs

/-! ### The inner loops -/

theorem isAlphanumeric_of_isAlphanum {table : CharTable} {c : Char} (h : c.isAlphanum = true) :
    table.isAlphanumeric c = true := by
  have hascii : c.val < 128 := by
    unfold Char.isAlphanum Char.isAlpha Char.isUpper Char.isLower Char.isDigit at h
    simp only [Bool.or_eq_true, Bool.and_eq_true, decide_eq_true_eq, ge_iff_le,
      UInt32.le_iff_toNat_le] at h
    rw [UInt32.lt_iff_toNat_lt]
    change c.val.toNat < 128
    change (65 ≤ c.val.toNat ∧ c.val.toNat ≤ 90 ∨ 97 ≤ c.val.toNat ∧ c.val.toNat ≤ 122) ∨
      48 ≤ c.val.toNat ∧ c.val.toNat ≤ 57 at h
    omega
  rw [table.ascii c hascii, h]

theorem getAt_append_cons {α : Type} (a : List α) (x : α) (b : List α) :
    getAt (a ++ x :: b) a.length = .ok x := by
  simp [getAt]

theorem localStart_eq {table : CharTable} {a b : List Char} (h : SuffixRun (isLocalChar table) a b)
    (r : List Char) : localStart table (a ++ b ++ r) (a.length + b.length) = .ok a.length := by
  obtain ⟨hall, hstop⟩ := h
  induction b using List.reverseRecOn generalizing r with
  | nil =>
      induction a using List.reverseRecOn with
      | nil => rfl
      | append_singleton a x _ =>
          have hx : isLocalChar table x = false := hstop x (by simp)
          have hget : getAt (a ++ [x] ++ [] ++ r) a.length = .ok x := by
            simpa using getAt_append_cons a x r
          rw [List.length_append, List.length_singleton, List.length_nil, Nat.add_zero, localStart,
            hget]
          simp [hx]
  | append_singleton b x ih =>
      have hx : isLocalChar table x = true := hall x (by simp)
      have hget : getAt (a ++ (b ++ [x]) ++ r) (a.length + b.length) = .ok x := by
        simpa using getAt_append_cons (a ++ b) x r
      have hrec := ih (x :: r) fun c hc => hall c (by simp [hc])
      rw [List.length_append, List.length_singleton, ← Nat.add_assoc, localStart, hget, ok_bind,
        if_pos hx, ← hrec]
      simp

/-- The last dot that the domain loop has seen. -/
def lastDotFrom (start : ℕ) (last : Option ℕ) : List Char → Option ℕ
  | [] => last
  | c :: cs => lastDotFrom (start + 1) (if c == '.' then some start else last) cs

theorem lastDotFrom_append (start : ℕ) (last : Option ℕ) (a b : List Char) :
    lastDotFrom start last (a ++ b) =
      lastDotFrom (start + a.length) (lastDotFrom start last a) b := by
  induction a generalizing start last with
  | nil => rfl
  | cons c a ih =>
      rw [List.cons_append, lastDotFrom, ih, lastDotFrom, List.length_cons, Nat.add_assoc,
        Nat.add_comm 1]

theorem lastDotFrom_of_notMem {d : List Char} (h : '.' ∉ d) (start : ℕ) (last : Option ℕ) :
    lastDotFrom start last d = last := by
  induction d generalizing start last with
  | nil => rfl
  | cons c d ih =>
      rw [List.mem_cons, not_or] at h
      have hc : ¬ (c == '.') = true := fun he => h.1 (beq_iff_eq.mp he).symm
      rw [lastDotFrom, ih h.2, if_neg hc]

theorem domainEnd_eq {table : CharTable} {dom post : List Char}
    (h : PrefixRun (isDomainChar table) dom post) (pre : List Char) (last : Option ℕ) :
    domainEnd table (pre ++ dom ++ post) pre.length last =
      .ok (pre.length + dom.length, lastDotFrom pre.length last dom) := by
  obtain ⟨hall, hstop⟩ := h
  induction dom generalizing pre last with
  | nil =>
      rw [domainEnd]
      cases post with
      | nil => simp [lastDotFrom]
      | cons c post =>
          have hc : isDomainChar table c = false := hstop c rfl
          have hget : getAt (pre ++ [] ++ c :: post) pre.length = .ok c := by
            simpa using getAt_append_cons pre c post
          rw [if_pos (by simp), hget]
          simp [hc, lastDotFrom]
  | cons c dom ih =>
      have hc : isDomainChar table c = true := hall c (by simp)
      have hget : getAt (pre ++ c :: dom ++ post) pre.length = .ok c := by
        simpa using getAt_append_cons pre c (dom ++ post)
      have hrec := ih (pre ++ [c]) (if c == '.' then some pre.length else last)
        fun x hx => hall x (List.mem_cons_of_mem c hx)
      rw [domainEnd, if_pos (by simp), hget, ok_bind, if_pos hc]
      have hsplit : pre ++ c :: dom ++ post = pre ++ [c] ++ dom ++ post := by simp
      rw [← hsplit, List.length_append, List.length_singleton] at hrec
      rw [hrec, lastDotFrom, List.length_cons, Nat.add_assoc,
        Nat.add_comm 1]

theorem getRange_append {α : Type} {a b c : List α} {i j : ℕ} (hi : a.length = i)
    (hj : i + b.length = j) : getRange (a ++ b ++ c) i j = .ok b := by
  have hbounds : i ≤ j ∧ j ≤ (a ++ b ++ c).length := by
    rw [List.length_append, List.length_append]
    omega
  rw [getRange, if_pos hbounds, List.append_assoc, ← hi, List.drop_left, hi, ← hj,
    Nat.add_sub_cancel_left, List.take_left]

theorem hasValidTld_eq (pre dom post : List Char) :
    ∃ b, hasValidTld (pre ++ dom ++ post) (pre.length + dom.length)
      (lastDotFrom pre.length none dom) = .ok b ∧ (b = true ↔ ValidTld dom) := by
  by_cases hdot : '.' ∈ dom
  · obtain ⟨labels, tld, rfl, htld⟩ := exists_last_split hdot
    have hlast : lastDotFrom pre.length none (labels ++ '.' :: tld) =
        some (pre.length + labels.length) := by
      rw [lastDotFrom_append, lastDotFrom, lastDotFrom_of_notMem htld]
      simp
    have hrange : getRange (pre ++ (labels ++ '.' :: tld) ++ post)
        (pre.length + labels.length + 1) (pre.length + (labels ++ '.' :: tld).length) =
        .ok tld := by
      have hsplit : pre ++ (labels ++ '.' :: tld) ++ post =
          pre ++ labels ++ ['.'] ++ tld ++ post := by simp
      rw [hsplit]
      exact getRange_append (by simp; omega) (by simp; omega)
    refine ⟨2 ≤ tld.length && tld.all Char.isAlpha, ?_, ?_⟩
    · rw [hlast, hasValidTld, hrange]
      rfl
    · rw [Bool.and_eq_true, decide_eq_true_eq, List.all_eq_true]
      constructor
      · rintro ⟨hlen, halpha⟩
        exact ⟨labels, tld, rfl, hlen, halpha⟩
      · rintro ⟨labels', tld', heq, hlen, halpha⟩
        have htld' : '.' ∉ tld' := fun h => absurd (halpha _ h) (by decide)
        obtain ⟨-, rfl⟩ := last_split_unique htld htld' heq
        exact ⟨hlen, halpha⟩
  · refine ⟨false, by rw [lastDotFrom_of_notMem hdot]; rfl, ?_⟩
    constructor
    · intro h
      cases h
    · rintro ⟨labels, tld, rfl, -, -⟩
      exact absurd (by simp) hdot

/-! ### One `@` -/

def emailMatch (pre loc dom : List Char) : PiiMatch :=
  ⟨.email, byteLen pre, emailStop pre loc dom, loc ++ '@' :: dom, 95 / 100⟩

theorem charOffset_append_cons (a : List Char) (c : Char) (b : List Char) :
    charOffset (a ++ c :: b) a.length = some (byteLen a) := by
  simp [charOffset]

theorem charOffset_getD (a b : List Char) :
    (charOffset (a ++ b) a.length).getD (byteLen (a ++ b)) = byteLen a := by
  cases b with
  | nil => simp [charOffset]
  | cons c b => rw [charOffset_append_cons, Option.getD_some]

theorem strRange_append (a m b : List Char) :
    strRange (a ++ m ++ b) (byteLen a) (byteLen a + byteLen m) = .ok m := by
  rw [strRange, slice_append]

section

variable (pre loc dom post : List Char)

theorem charOffset_start :
    (charOffset (pre ++ loc ++ '@' :: (dom ++ post)) pre.length).getD 0 = byteLen pre := by
  obtain ⟨x, r, hr⟩ : ∃ x r, loc ++ '@' :: (dom ++ post) = x :: r := by
    cases loc with
    | nil => exact ⟨_, _, rfl⟩
    | cons x loc => exact ⟨_, _, rfl⟩
  rw [List.append_assoc, hr, charOffset_append_cons, Option.getD_some]

theorem charOffset_stop :
    (charOffset (pre ++ loc ++ '@' :: (dom ++ post))
      ((pre ++ loc).length + 1 + dom.length)).getD (byteLen (pre ++ loc ++ '@' :: (dom ++ post))) =
      emailStop pre loc dom := by
  have hlen : (pre ++ loc).length + 1 + dom.length = (pre ++ loc ++ '@' :: dom).length := by
    simp
    omega
  have hsplit : pre ++ loc ++ '@' :: (dom ++ post) = pre ++ loc ++ '@' :: dom ++ post := by
    simp
  rw [hsplit, hlen, charOffset_getD, emailStop_eq]

theorem strRange_address :
    strRange (pre ++ loc ++ '@' :: (dom ++ post)) (byteLen pre) (emailStop pre loc dom) =
      .ok (loc ++ '@' :: dom) := by
  have hbytes : emailStop pre loc dom = byteLen pre + byteLen (loc ++ '@' :: dom) := by
    rw [emailStop_eq, List.append_assoc, byteLen_append]
  have hrange := strRange_append pre (loc ++ '@' :: dom) post
  rw [hbytes, ← hrange]
  simp

/-- How far the loop moves on: past the `@` and the domain. -/
theorem email_advance :
    ((pre ++ loc).length + 1 + dom.length - (pre ++ loc).length).toPNat' =
      dom.length.succPNat := by
  rw [Nat.add_assoc, Nat.add_sub_cancel_left, Nat.add_comm]
  rfl

end

/-- At an `@` that is not the first character, the iteration reports the address around it when
there is one. -/
theorem emailStep_at {table : CharTable} {pre loc dom post : List Char}
    (hloc : SuffixRun (isLocalChar table) pre loc) (hdom : PrefixRun (isDomainChar table) dom post)
    (hpos : 0 < (pre ++ loc).length) (found : List PiiMatch) :
    ∃ b : Bool, (b = true ↔ loc ≠ [] ∧ ValidTld dom) ∧
      emailStep table (pre ++ loc ++ '@' :: (dom ++ post)) found (pre ++ loc).length =
        if b then .ok (found ++ [emailMatch pre loc dom], dom.length.succPNat)
        else .ok (found, 1) := by
  have hget := getAt_append_cons (pre ++ loc) '@' (dom ++ post)
  have hstart := localStart_eq hloc ('@' :: (dom ++ post))
  have hend := domainEnd_eq hdom (pre ++ loc ++ ['@']) none
  obtain ⟨b, hvalid, hb⟩ := hasValidTld_eq (pre ++ loc ++ ['@']) dom post
  have hsplit : pre ++ loc ++ '@' :: (dom ++ post) = pre ++ loc ++ ['@'] ++ dom ++ post := by simp
  have hnext : (pre ++ loc ++ ['@']).length = (pre ++ loc).length + 1 :=
    List.length_append
  rw [← hsplit, hnext] at hend hvalid
  rw [← List.length_append] at hstart
  refine ⟨decide (loc ≠ []) && b, by rw [Bool.and_eq_true, decide_eq_true_eq, hb], ?_⟩
  rw [emailStep, hget]
  simp only [ok_bind, beq_self_eq_true, hpos, decide_true, Bool.and_self, if_true, hstart, hend,
    hvalid, charOffset_start, charOffset_stop, strRange_address, email_advance, pure_eq_ok,
    emailMatch]
  cases b with
  | false => simp
  | true =>
      have hdomPos : 0 < dom.length := by
        obtain ⟨labels, tld, rfl, -⟩ := hb.mp rfl
        simp
      by_cases hne : loc = []
      · simp [hne]
      · have hlocPos := List.length_pos_iff.mpr hne
        simp [hne, hlocPos, List.ne_nil_of_length_pos hdomPos]

/-! ### Every `@` -/

theorem not_isLocalChar_at (table : CharTable) : isLocalChar table '@' = false := by
  rw [isLocalChar, table.ascii '@' (by decide)]
  rfl

theorem not_isDomainChar_at (table : CharTable) : isDomainChar table '@' = false := by
  rw [isDomainChar, table.ascii '@' (by decide)]
  rfl

theorem EmailAt.getElem?_at {table : CharTable} {text pre loc dom post : List Char}
    (h : EmailAt table text pre loc dom post) : text[(pre ++ loc).length]? = some '@' := by
  rw [h.split]
  simp

/-- The address around an `@` is what the runs on its two sides are. -/
theorem EmailAt.eq_of_runs {table : CharTable}
    {text pre loc dom post pre' loc' dom' post' : List Char}
    (h : EmailAt table text pre loc dom post)
    (hsplit : text = pre' ++ loc' ++ '@' :: (dom' ++ post'))
    (hloc : SuffixRun (isLocalChar table) pre' loc')
    (hdom : PrefixRun (isDomainChar table) dom' post')
    (hlen : (pre ++ loc).length = (pre' ++ loc').length) :
    pre = pre' ∧ loc = loc' ∧ dom = dom' ∧ post = post' := by
  obtain ⟨hfront, hback⟩ := List.append_inj (h.split.symm.trans hsplit) hlen
  obtain ⟨rfl, rfl⟩ := h.localRun.unique hloc hfront
  obtain ⟨rfl, rfl⟩ := h.domainRun.unique hdom (List.cons.inj hback).2
  exact ⟨rfl, rfl, rfl, rfl⟩

/-- There is no further `@` in the domain. -/
theorem EmailAt.at_not_in_domain {table : CharTable}
    {text pre loc dom post pre' loc' dom' post' : List Char}
    (h : EmailAt table text pre loc dom post) (h' : EmailAt table text pre' loc' dom' post')
    (hlt : (pre ++ loc).length < (pre' ++ loc').length) :
    (pre ++ loc).length + dom.length < (pre' ++ loc').length := by
  by_contra hle
  have hget := h'.getElem?_at
  obtain ⟨k, hk⟩ : ∃ k, (pre' ++ loc').length = (pre ++ loc).length + (k + 1) :=
    ⟨(pre' ++ loc').length - (pre ++ loc).length - 1, by omega⟩
  rw [hk, h.split, List.getElem?_append_right (by omega), Nat.add_sub_cancel_left,
    List.getElem?_cons_succ, List.getElem?_append_left (by omega)] at hget
  have hdomain := h.domainRun.all '@' (List.mem_of_getElem? hget)
  rw [not_isDomainChar_at] at hdomain
  cases hdomain

theorem emailStep_of_ne {table : CharTable} {text : Str} {i : ℕ} (hlt : i < text.length)
    (h : text[i] ≠ '@' ∨ i = 0) (found : List PiiMatch) :
    emailStep table text found i = .ok (found, 1) := by
  rw [emailStep, getAt_of_lt hlt]
  rcases h with h | rfl
  · simp [h]
  · simp

/-- The matches found before, and the addresses whose `@` stands before position `i`. -/
def EmailsBefore (table : CharTable) (text : Str) (found st : List PiiMatch) (i : ℕ) : Prop :=
  ∀ m, m ∈ st ↔ m ∈ found ∨ ∃ pre loc dom post, EmailAt table text pre loc dom post ∧
    (pre ++ loc).length < i ∧ m = emailMatch pre loc dom

section

variable {table : CharTable} {text : Str} {found st : List PiiMatch} {i j : ℕ}

theorem EmailsBefore.pass (h : EmailsBefore table text found st i) (hle : i ≤ j)
    (hnone : ∀ pre loc dom post, EmailAt table text pre loc dom post →
      i ≤ (pre ++ loc).length → j ≤ (pre ++ loc).length) : EmailsBefore table text found st j := by
  intro m
  rw [h m]
  apply or_congr Iff.rfl
  constructor
  · rintro ⟨pre, loc, dom, post, hat, hlt, hm⟩
    exact ⟨pre, loc, dom, post, hat, hlt.trans_le hle, hm⟩
  · rintro ⟨pre, loc, dom, post, hat, hlt, hm⟩
    refine ⟨pre, loc, dom, post, hat, ?_, hm⟩
    by_contra hge
    have hpast := hnone pre loc dom post hat (by omega)
    omega

theorem EmailsBefore.push {pre loc dom post : List Char}
    (h : EmailsBefore table text found st (pre ++ loc).length)
    (hat : EmailAt table text pre loc dom post) :
    EmailsBefore table text found (st ++ [emailMatch pre loc dom])
      ((pre ++ loc).length + (dom.length + 1)) := by
  intro m
  rw [List.mem_append, List.mem_singleton, h m, or_assoc]
  apply or_congr Iff.rfl
  constructor
  · rintro (⟨pre', loc', dom', post', hat', hlt, hm⟩ | hm)
    · exact ⟨pre', loc', dom', post', hat', by omega, hm⟩
    · exact ⟨pre, loc, dom, post, hat, by omega, hm⟩
  · rintro ⟨pre', loc', dom', post', hat', hlt, hm⟩
    rcases lt_trichotomy (pre' ++ loc').length (pre ++ loc).length with hbefore | hsame | hafter
    · exact .inl ⟨pre', loc', dom', post', hat', hbefore, hm⟩
    · obtain ⟨rfl, rfl, rfl, -⟩ := hat'.eq_of_runs hat.split hat.localRun hat.domainRun hsame
      exact .inr hm
    · have hpast := hat.at_not_in_domain hat' hafter
      omega

/-- At an `@` the loop finds out whether the runs around it are an address. -/
theorem EmailsBefore.step_at (h : EmailsBefore table text found st i) (hlt : i < text.length)
    (hat : text[i] = '@') (hpos : 0 < i) :
    ∃ r, emailStep table text st i = .ok r ∧ EmailsBefore table text found r.1 (i + r.2) := by
  obtain ⟨pre, loc, hfront, hloc⟩ := exists_suffixRun (isLocalChar table) (text.take i)
  obtain ⟨dom, post, hback, hdom⟩ := exists_prefixRun (isDomainChar table) (text.drop (i + 1))
  obtain rfl : (pre ++ loc).length = i := by
    rw [← hfront, List.length_take]
    omega
  have hsplit : text = pre ++ loc ++ '@' :: (dom ++ post) := by
    rw [← hfront, ← hback, ← hat, List.getElem_cons_drop, List.take_append_drop]
  obtain ⟨b, hb, hstep⟩ := emailStep_at hloc hdom hpos st
  rw [← hsplit] at hstep
  cases b with
  | false =>
      refine ⟨_, hstep, h.pass (Nat.le_add_right _ _) ?_⟩
      intro pre' loc' dom' post' hEmail hge
      by_contra hlt'
      rw [PNat.one_coe] at hlt'
      obtain ⟨-, rfl, rfl, -⟩ := hEmail.eq_of_runs hsplit hloc hdom (by omega)
      cases hb.mpr ⟨hEmail.loc_ne, hEmail.tld⟩
  | true =>
      obtain ⟨hne, htld⟩ := hb.mp rfl
      refine ⟨_, hstep, ?_⟩
      show EmailsBefore table text found _ (_ + (dom.length.succPNat : ℕ))
      rw [Nat.succPNat_coe]
      exact h.push ⟨hsplit, hloc, hdom, hne, htld⟩

theorem EmailsBefore.step (h : EmailsBefore table text found st i) (hle : i + 1 ≤ text.length) :
    ∃ r, emailStep table text st i = .ok r ∧ EmailsBefore table text found r.1 (i + r.2) := by
  by_cases hat : text[i] = '@' ∧ 0 < i
  · exact h.step_at hle hat.1 hat.2
  · have hne := (not_and_or.mp hat).imp_right Nat.eq_zero_of_not_pos
    refine ⟨(st, 1), emailStep_of_ne hle hne st, h.pass (Nat.le_succ i) ?_⟩
    intro pre loc dom post hEmail hge
    by_contra hlt
    rw [PNat.one_coe] at hlt
    have heq : (pre ++ loc).length = i := by omega
    have hget := hEmail.getElem?_at
    rw [heq, List.getElem?_eq_getElem hle, Option.some.injEq] at hget
    have hlocPos := List.length_pos_iff.mpr hEmail.loc_ne
    rw [List.length_append] at heq
    exact hat ⟨hget, by omega⟩

end

theorem detectEmails_spec (table : CharTable) (text : Str) (found : List PiiMatch) :
    ∃ found', detectEmails table text found = .ok found' ∧ ∀ m, m ∈ found' ↔ m ∈ found ∨
      ∃ pre loc dom post, EmailAt table text pre loc dom post ∧ m = emailMatch pre loc dom := by
  have hstart : EmailsBefore table text found found 0 := by
    intro m
    simp
  obtain ⟨st, i, hst, hmem, hend⟩ := scan_ok_of_invariant (EmailsBefore table text found)
    (fun st i hle h => EmailsBefore.step h hle) hstart
  refine ⟨st, hst, ?_⟩
  intro m
  rw [hmem m]
  apply or_congr Iff.rfl
  constructor
  · rintro ⟨pre, loc, dom, post, hat, -, hm⟩
    exact ⟨pre, loc, dom, post, hat, hm⟩
  · rintro ⟨pre, loc, dom, post, hat, hm⟩
    refine ⟨pre, loc, dom, post, hat, ?_, hm⟩
    have hlt := (List.getElem?_eq_some_iff.mp hat.getElem?_at).1
    omega

end NeuRust.Security
