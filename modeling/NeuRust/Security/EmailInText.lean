import NeuRust.Security.EmailScanner
import Mathlib.Data.List.Basic

/-!
Addresses in running text. The scanner takes every letter of any script, every dot and every
hyphen after an address for a part of its domain, and then looks at the last label only. So an
address is reported exactly when nothing of what follows it is taken, or when what is taken ends
in a label that could end a domain as well.
-/

namespace NeuRust.Security

open Utf8 Scan Runs

structure IsLocalPart (loc : Str) : Prop where
  nonempty : loc ≠ []
  chars : ∀ c ∈ loc, c.isAlphanum = true ∨ c ∈ ['.', '_', '-', '+']

def isLabelChar (c : Char) : Bool := c.isAlphanum || c == '-'

/-- Two labels or more over ASCII, the last one of letters. -/
structure IsDomain (dom : Str) (labels : List Str) (tld : Str) : Prop where
  split : dom = ['.'].intercalate (labels ++ [tld])
  labels_ne : labels ≠ []
  labels_chars : ∀ label ∈ labels, label ≠ [] ∧ ∀ c ∈ label, isLabelChar c = true
  tld_length : 2 ≤ tld.length
  tld_chars : ∀ c ∈ tld, c.isAlpha = true

def EndsDomain (suf : Str) : Prop :=
  ∀ c, suf.head? = some c → isLabelChar c = false ∧ c ≠ '.'

/-- A text in which the domain before it ends, at once or after a full stop. -/
def Detached (suf : Str) : Prop :=
  EndsDomain suf ∨ ∃ rest, suf = '.' :: rest ∧ EndsDomain rest

/-- Some match for an address covers the characters of `address` after `pre`. -/
def Covers (ms : List PiiMatch) (pre address : Str) : Prop :=
  ∃ m ∈ ms, m.piiType = .email ∧ m.start ≤ byteLen pre ∧ byteLen pre + byteLen address ≤ m.stop

/-! ### Characters -/

section

variable {table : CharTable} {pre loc dom suf : Str} {labels : List Str} {tld : Str}

theorem IsLocalPart.isLocalChar (h : IsLocalPart loc) : ∀ c ∈ loc, isLocalChar table c = true := by
  intro c hc
  rcases h.chars c hc with hascii | hother
  · simp [Security.isLocalChar, isAlphanumeric_of_isAlphanum hascii]
  · simp only [List.mem_cons, List.not_mem_nil, or_false] at hother
    rcases hother with rfl | rfl | rfl | rfl
    all_goals simp [Security.isLocalChar]

theorem isDomainChar_of_isLabelChar {c : Char} (h : isLabelChar c = true) :
    isDomainChar table c = true := by
  rw [isLabelChar, Bool.or_eq_true] at h
  rcases h with hascii | hyphen
  · simp [isDomainChar, isAlphanumeric_of_isAlphanum hascii]
  · simp [isDomainChar, hyphen]

theorem IsDomain.exists_front (h : IsDomain dom labels tld) :
    ∃ front, dom = front ++ '.' :: tld ∧ ∀ c ∈ front, isLabelChar c = true ∨ c = '.' := by
  obtain ⟨rfl, hne, hlabels, -, -⟩ := h
  induction labels with
  | nil => exact absurd rfl hne
  | cons label labels ih =>
      obtain ⟨⟨-, hlabel⟩, hrest⟩ := List.forall_mem_cons.mp hlabels
      cases labels with
      | nil =>
          refine ⟨label, by simp [List.intercalate], fun c hc => .inl (hlabel c hc)⟩
      | cons label' labels =>
          obtain ⟨front, hfront, hchars⟩ := ih (by simp) hrest
          refine ⟨label ++ '.' :: front, ?_, ?_⟩
          · have hcons : ['.'].intercalate (label :: (label' :: labels ++ [tld])) =
                label ++ '.' :: ['.'].intercalate (label' :: labels ++ [tld]) := by
              simp [List.intercalate]
            rw [List.cons_append, hcons, hfront]
            simp
          · intro c hc
            rcases List.mem_append.mp hc with hc | hc
            · exact .inl (hlabel c hc)
            · rcases List.mem_cons.mp hc with rfl | hc
              · exact .inr rfl
              · exact hchars c hc

theorem IsDomain.isDomainChar (h : IsDomain dom labels tld) :
    ∀ c ∈ dom, isDomainChar table c = true := by
  obtain ⟨front, rfl, hfront⟩ := h.exists_front
  have hdot : Security.isDomainChar table '.' = true := by simp [Security.isDomainChar]
  intro c hc
  rcases List.mem_append.mp hc with hc | hc
  · rcases hfront c hc with hlabel | rfl
    · exact isDomainChar_of_isLabelChar hlabel
    · exact hdot
  · rcases List.mem_cons.mp hc with rfl | hc
    · exact hdot
    · apply isDomainChar_of_isLabelChar
      simp [isLabelChar, Char.isAlphanum, h.tld_chars c hc]

/-! ### The last label -/

theorem validTld_iff {front last : Str} (h : '.' ∉ last) :
    ValidTld (front ++ '.' :: last) ↔ 2 ≤ last.length ∧ ∀ c ∈ last, c.isAlpha = true := by
  constructor
  · rintro ⟨front', last', heq, hlen, halpha⟩
    have hdot : '.' ∉ last' := fun hmem => absurd (halpha '.' hmem) (by decide)
    obtain ⟨-, rfl⟩ := last_split_unique h hdot heq
    exact ⟨hlen, halpha⟩
  · exact fun hlast => ⟨front, last, rfl, hlast⟩

/-- What the scanner takes after the domain decides whether the whole has a valid last label. -/
theorem validTld_append_iff (h : IsDomain dom labels tld) {run rest : Str}
    (hdetached : Detached (run ++ rest)) :
    ValidTld (dom ++ run) ↔ run = [] ∨ ValidTld run := by
  obtain ⟨front, rfl, -⟩ := h.exists_front
  have htld : '.' ∉ tld := fun hmem => absurd (h.tld_chars '.' hmem) (by decide)
  by_cases hdot : '.' ∈ run
  · obtain ⟨a, b, rfl, hb⟩ := exists_last_split hdot
    rw [← List.append_assoc, validTld_iff hb, validTld_iff hb]
    simp
  · rw [List.append_assoc, List.cons_append, validTld_iff (by simp [htld, hdot])]
    cases run with
    | nil => simpa [h.tld_length] using h.tld_chars
    | cons c run =>
        rw [List.mem_cons, not_or] at hdot
        have hc : isLabelChar c = false := by
          rcases hdetached with hend | ⟨rest', hdotted, -⟩
          · exact (hend c rfl).1
          · exact absurd (List.cons.inj hdotted).1.symm hdot.1
        have hletter : ¬ c.isAlpha = true := fun hc' => by
          simp [isLabelChar, Char.isAlphanum, hc'] at hc
        constructor
        · rintro ⟨-, halpha⟩
          exact absurd (halpha c (by simp)) hletter
        · rintro (hnil | ⟨a, b, heq, -⟩)
          · cases hnil
          · exact absurd (heq ▸ by simp : '.' ∈ c :: run) (by simp [hdot])

/-! ### The address -/

theorem exists_runs (table : CharTable) (pre suf : Str) (hloc : IsLocalPart loc)
    (hdom : IsDomain dom labels tld) :
    ∃ pre' loc' run rest, pre = pre' ++ loc' ∧ run = suf.takeWhile (isDomainChar table) ∧
      suf = run ++ rest ∧ SuffixRun (isLocalChar table) pre' (loc' ++ loc) ∧
      PrefixRun (isDomainChar table) (dom ++ run) rest := by
  obtain ⟨pre', loc', hsplit, hrun⟩ := exists_suffixRun (isLocalChar table) pre
  refine ⟨pre', loc', _, suf.dropWhile (Security.isDomainChar table), hsplit, rfl,
    List.takeWhile_append_dropWhile.symm, ⟨?_, hrun.stop⟩, ⟨?_, ?_⟩⟩
  · intro c hc
    rcases List.mem_append.mp hc with hc | hc
    · exact hrun.all c hc
    · exact hloc.isLocalChar c hc
  · intro c hc
    rcases List.mem_append.mp hc with hc | hc
    · exact hdom.isDomainChar c hc
    · exact List.mem_takeWhile_imp hc
  · intro c hc
    have hhead := List.head?_dropWhile_not (Security.isDomainChar table) suf
    rw [hc] at hhead
    simpa using hhead

/-- A match for an address covers another one only if both have the same `@`. -/
theorem EmailAt.same_at {text p l d q : Str} (hat : EmailAt table text p l d q)
    (hsplit : text = pre ++ loc ++ '@' :: (dom ++ suf)) (hstart : byteLen p ≤ byteLen pre)
    (hstop : byteLen pre + byteLen (loc ++ '@' :: dom) ≤ emailStop p l d) :
    p ++ l = pre ++ loc ∧ d ++ q = dom ++ suf := by
  have hl : '@' ∉ l := fun hmem => by
    have := hat.localRun.all '@' hmem
    rw [not_isLocalChar_at] at this
    cases this
  have hd : '@' ∉ d := fun hmem => by
    have := hat.domainRun.all '@' hmem
    rw [not_isDomainChar_at] at this
    cases this
  -- the address lies inside the match `l@d`
  have hwhole : p ++ (l ++ '@' :: d ++ q) = pre ++ (loc ++ '@' :: dom ++ suf) := by
    simpa using hat.split.symm.trans hsplit
  obtain ⟨x, rfl, hx⟩ := append_split hwhole hstart
  have hlen : byteLen (x ++ (loc ++ '@' :: dom)) ≤ byteLen (l ++ '@' :: d) := by
    simp only [emailStop_eq, List.append_assoc, byteLen_append] at hstop ⊢
    omega
  have haddress : x ++ (loc ++ '@' :: dom) ++ suf = l ++ '@' :: d ++ q := by
    rw [hx, List.append_assoc]
  obtain ⟨y, hy, rfl⟩ := append_split haddress hlen
  -- and `@` stands in `l@d` only once
  have hat' : l ++ '@' :: d = x ++ loc ++ '@' :: (dom ++ y) := by
    rw [hy]
    simp
  obtain ⟨rfl, -, rfl⟩ := (List.append_cons_inj_of_notMem hl hd).mp hat'
  exact ⟨by simp, by simp⟩

theorem covers_of_emailAt {pre' loc' run : Str} {ms : List PiiMatch}
    (hmem : emailMatch pre' (loc' ++ loc) (dom ++ run) ∈ ms) :
    Covers ms (pre' ++ loc') (loc ++ '@' :: dom) := by
  refine ⟨_, hmem, rfl, ?_, ?_⟩
  · show byteLen pre' ≤ byteLen (pre' ++ loc')
    simp
  · show byteLen (pre' ++ loc') + byteLen (loc ++ '@' :: dom) ≤ emailStop pre' (loc' ++ loc) _
    rw [emailStop_eq]
    simp
    omega

end

/-- For every text around an ASCII address that does not go on after it, the scanner reports a
match that covers the address exactly when what it takes of the text after the address is empty or
ends in two ASCII letters or more after a dot. -/
theorem email_covered_iff (table : CharTable) {loc dom tld : Str} {labels : List Str}
    (hloc : IsLocalPart loc) (hdom : IsDomain dom labels tld) (pre : Str) {suf : Str}
    (hsuf : Detached suf) {found : List PiiMatch} (hfound : ∀ m ∈ found, m.piiType ≠ .email) :
    ∃ ms, detectEmails table (pre ++ loc ++ '@' :: (dom ++ suf)) found = .ok ms ∧
      (Covers ms pre (loc ++ '@' :: dom) ↔ suf.takeWhile (isDomainChar table) = [] ∨
        ValidTld (suf.takeWhile (isDomainChar table))) := by
  obtain ⟨pre', loc', run, rest, rfl, hrun, rfl, hlocal, hdomain⟩ :=
    exists_runs table pre suf hloc hdom
  obtain ⟨ms, hms, hmem⟩ := detectEmails_spec table
    (pre' ++ loc' ++ loc ++ '@' :: (dom ++ (run ++ rest))) found
  refine ⟨ms, hms, ?_⟩
  rw [← hrun, ← validTld_append_iff hdom hsuf]
  constructor
  · rintro ⟨m, hm, htype, hstart, hstop⟩
    rcases (hmem m).mp hm with hold | ⟨p, l, d, q, hat, rfl⟩
    · exact absurd htype (hfound m hold)
    · obtain ⟨hfront, hback⟩ := hat.same_at rfl hstart hstop
      have hsplit : pre' ++ (loc' ++ loc) = p ++ l := by rw [hfront, List.append_assoc]
      obtain ⟨-, -, rfl, -⟩ := hat.eq_of_runs (by simp) hlocal hdomain (by rw [hsplit])
      exact hat.tld
  · intro htld
    have hat : EmailAt table (pre' ++ loc' ++ loc ++ '@' :: (dom ++ (run ++ rest))) pre'
        (loc' ++ loc) (dom ++ run) rest :=
      ⟨by simp, hlocal, hdomain, by simp [hloc.nonempty], htld⟩
    exact covers_of_emailAt ((hmem _).mpr (.inr ⟨_, _, _, _, hat, rfl⟩))

theorem isLocalPart_john : IsLocalPart "john".toList where
  nonempty := by decide
  chars := by
    show ∀ c ∈ ['j', 'o', 'h', 'n'], _
    simp

theorem isDomain_company : IsDomain "company.com".toList ["company".toList] "com".toList where
  split := by decide
  labels_ne := by decide
  labels_chars := by
    show ∀ label ∈ [['c', 'o', 'm', 'p', 'a', 'n', 'y']], _
    simp [isLabelChar]
  tld_length := by decide
  tld_chars := by
    show ∀ c ∈ ['c', 'o', 'm'], _
    simp

theorem email_covered_blank : ∃ ms,
    detectEmails .hangul ("mail ".toList ++ "john".toList ++ '@' ::
      ("company.com".toList ++ " now".toList)) [] = .ok ms ∧
    (Covers ms "mail ".toList ("john".toList ++ '@' :: "company.com".toList) ↔
      " now".toList.takeWhile (isDomainChar .hangul) = [] ∨
        ValidTld (" now".toList.takeWhile (isDomainChar .hangul))) :=
  email_covered_iff .hangul isLocalPart_john isDomain_company "mail ".toList
    (.inl fun c hc => by obtain rfl := Option.some.inj hc; decide) nofun

/-- A particle right after the address hides it. -/
theorem particle_hides_email :
    ¬ ∀ (table : CharTable) (loc dom tld : Str) (labels : List Str), IsLocalPart loc →
      IsDomain dom labels tld → ∀ pre suf : Str, Detached suf →
      ∃ ms, detectEmails table (pre ++ loc ++ '@' :: (dom ++ suf)) [] = .ok ms ∧
        Covers ms pre (loc ++ '@' :: dom) := by
  intro h
  obtain ⟨ms, hms, m, hm, -⟩ := h .hangul _ _ _ _ isLocalPart_john isDomain_company
    "제 이메일은 ".toList "이고".toList (.inl fun c hc => by obtain rfl := Option.some.inj hc; decide)
  have hnone : detectEmails .hangul ("제 이메일은 ".toList ++ "john".toList ++ '@' ::
      ("company.com".toList ++ "이고".toList)) [] = .ok [] := by
    decide +kernel
  rw [hnone] at hms
  obtain rfl := (Except.ok.inj hms).symm
  cases hm

end NeuRust.Security
