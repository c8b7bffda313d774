import NeuRust.Security.PromptGuard

/-!
A request that the guard rejects cannot be talked past it: not with more messages, not with more
text around what is suspicious, not with anything that is said outside the user messages, and not
with any of the ways of writing that the normalising pass undoes.
-/

namespace NeuRust.Security

/-! ### Searching a trimmed text -/

structure IsTrimmed (pattern : Str) : Prop where
  nonempty : pattern ≠ []
  head : ∀ c ∈ pattern.head?, isWhitespace c = false
  last : ∀ c ∈ pattern.getLast?, isWhitespace c = false

/-- What does not begin with a dropped letter is left where letters are dropped at the start. -/
theorem infix_dropWhile {α : Type*} {p : α → Bool} {pattern s : List α} (hne : pattern ≠ [])
    (hhead : ∀ c ∈ pattern.head?, p c = false) (h : pattern <:+: s) :
    pattern <:+: s.dropWhile p := by
  obtain ⟨before, after, rfl⟩ := h
  obtain ⟨c, rest, rfl⟩ := List.exists_cons_of_ne_nil hne
  have hc : p c = false := hhead c rfl
  rw [List.append_assoc, List.dropWhile_append]
  split
  · rw [List.cons_append, List.dropWhile_cons_of_neg (by simp [hc])]
    exact ⟨[], after, rfl⟩
  · exact ⟨before.dropWhile p, after, List.append_assoc _ _ _⟩

theorem IsTrimmed.infix_trim {pattern s : Str} (hpattern : IsTrimmed pattern)
    (h : pattern <:+: s) : pattern <:+: trim s := by
  have hleft : pattern <:+: s.dropWhile isWhitespace :=
    infix_dropWhile hpattern.nonempty hpattern.head h
  have hright : pattern.reverse <:+: (s.dropWhile isWhitespace).reverse.dropWhile isWhitespace := by
    apply infix_dropWhile
    · exact List.reverse_ne_nil_iff.mpr hpattern.nonempty
    · rw [List.head?_reverse]
      exact hpattern.last
    · exact List.reverse_infix.mpr hleft
  rw [trim, List.rdropWhile, ← List.reverse_infix, List.reverse_reverse]
  exact hright

theorem trim_isInfix (s : Str) : trim s <:+: s :=
  (List.rdropWhile_prefix _ _).isInfix.trans (List.dropWhile_suffix _).isInfix

/-- A pattern that is found in a text is found in a longer one. -/
theorem IsTrimmed.infix_normalize {pattern text text' : Str} (hpattern : IsTrimmed pattern)
    (lower : Lowercase) (htext : text <:+: text')
    (h : pattern <:+: normalizeForDetection lower text) :
    pattern <:+: normalizeForDetection lower text' := by
  obtain ⟨before, after, rfl⟩ := htext
  apply hpattern.infix_trim
  have hrun : pattern <:+: (Transducer.run normalizeStep false (text.map lower.map)).2 :=
    h.trans (trim_isInfix _)
  have hstate (prevSpace : Bool) :
      pattern <:+: (Transducer.run normalizeStep prevSpace (text.map lower.map)).2 := by
    cases prevSpace with
    | false => exact hrun
    | true =>
        rcases run_true_cases (text.map lower.map) with hsame | hspace
        · rw [← hsame]
          exact hrun
        · -- the space in front is no part of the pattern
          have hrest := infix_dropWhile hpattern.nonempty hpattern.head (hspace ▸ hrun)
          rw [List.dropWhile_cons_of_pos (by decide)] at hrest
          exact hrest.trans (List.dropWhile_suffix _).isInfix
  rw [List.map_append, List.map_append, Transducer.run_append, Transducer.run_append]
  exact ((hstate _).trans (List.suffix_append _ _).isInfix).trans (List.prefix_append _ _).isInfix

/-- A text begins and ends with something else than white space. -/
def hasTrimmedEnds (pattern : Str) : Bool :=
  pattern.head?.any (fun c => !isWhitespace c) && pattern.getLast?.any (fun c => !isWhitespace c)

theorem IsTrimmed.of_ends {pattern : Str} (h : hasTrimmedEnds pattern = true) :
    IsTrimmed pattern := by
  obtain ⟨hhead, hlast⟩ := Bool.and_eq_true_iff.mp h
  refine ⟨?_, fun c hc => ?_, fun c hc => ?_⟩
  · rintro rfl
    cases hhead
  · rw [Option.mem_def.mp hc] at hhead
    simpa using hhead
  · rw [Option.mem_def.mp hc] at hlast
    simpa using hlast

theorem isTrimmed_of_mem {pattern : Str} (h : pattern ∈ injectionPatterns) : IsTrimmed pattern := by
  have hall : injectionPatterns.all hasTrimmedEnds = true := by decide +kernel
  exact .of_ends (List.all_eq_true.mp hall pattern h)

theorem isSuspicious_of_isInfix (lower : Lowercase) {text text' : Str} (htext : text <:+: text')
    (h : isSuspicious lower ⟨.user, text⟩ = true) : isSuspicious lower ⟨.user, text'⟩ = true := by
  rw [isSuspicious, Bool.and_eq_true, List.any_eq_true] at h ⊢
  obtain ⟨-, pattern, hmem, hfound⟩ := h
  refine ⟨rfl, pattern, hmem, decide_eq_true ?_⟩
  exact (isTrimmed_of_mem hmem).infix_normalize lower htext (of_decide_eq_true hfound)

/-! ### What is rejected -/

def LateSystem (messages : List Message) : Prop :=
  ∃ role ≠ Role.system, [role, .system].Sublist (messages.map Message.role)

theorem checkRoleBoundary_true_iff {messages : List Message} :
    (checkRoleBoundary true messages).isOk = false ↔ ∃ m ∈ messages, m.role = .system := by
  induction messages with
  | nil => simp [checkRoleBoundary, Except.isOk, Except.toBool]
  | cons m messages ih =>
      rw [checkRoleBoundary]
      by_cases hrole : m.role = .system
      · simp [hrole, Except.isOk, Except.toBool]
      · rw [if_neg hrole, ih]
        simp [hrole]

theorem lateSystem_cons_iff {m : Message} {messages : List Message} :
    LateSystem (m :: messages) ↔
      LateSystem messages ∨ m.role ≠ .system ∧ ∃ late ∈ messages, late.role = .system := by
  constructor
  · rintro ⟨role, hrole, hsub⟩
    rcases List.sublist_cons_iff.mp hsub with hsub | ⟨rest, hrest, hsub⟩
    · exact .inl ⟨role, hrole, hsub⟩
    · obtain ⟨rfl, rfl⟩ := List.cons.inj hrest
      exact .inr ⟨hrole, List.mem_map.mp (List.singleton_sublist.mp hsub)⟩
  · rintro (⟨role, hrole, hsub⟩ | ⟨hm, hlate⟩)
    · exact ⟨role, hrole, hsub.cons m.role⟩
    · exact ⟨m.role, hm, (List.singleton_sublist.mpr (List.mem_map.mpr hlate)).cons_cons m.role⟩

theorem checkRoleBoundary_iff {messages : List Message} :
    (checkRoleBoundary false messages).isOk = false ↔ LateSystem messages := by
  induction messages with
  | nil => simp [checkRoleBoundary, LateSystem, Except.isOk, Except.toBool]
  | cons m messages ih =>
      rw [checkRoleBoundary, lateSystem_cons_iff]
      by_cases hrole : m.role = .system
      · rw [if_pos hrole, if_neg Bool.false_ne_true, ih]
        simp [hrole]
      · rw [if_neg hrole, checkRoleBoundary_true_iff]
        constructor
        · exact fun hlate => .inr ⟨hrole, hlate⟩
        · rintro (⟨role, -, hsub⟩ | ⟨-, hlate⟩)
          · exact List.mem_map.mp (hsub.mem (List.mem_cons_of_mem _ List.mem_cons_self))
          · exact hlate

def Rejects (guard : PromptGuard) (lower : Lowercase) (messages : List Message) : Prop :=
  guard.config.inputScanning = true ∧ messages.any (isSuspicious lower) = true ∨
    guard.config.roleBoundary = true ∧ LateSystem messages

theorem scanInput_isOk_iff {lower : Lowercase} {messages : List Message} :
    (scanInput lower messages).isOk = false ↔ messages.any (isSuspicious lower) = true := by
  rw [scanInput]
  split_ifs with hsuspicious
  · exact iff_of_true rfl hsuspicious
  · exact iff_of_false (fun h => by cases h) hsuspicious

theorem scan_isOk_iff {guard : PromptGuard} {lower : Lowercase} {request : UnifiedRequest} :
    (guard.scan lower request).isOk = false ↔ Rejects guard lower request.messages := by
  rw [Rejects, ← scanInput_isOk_iff, ← checkRoleBoundary_iff, PromptGuard.scan]
  cases guard.config.inputScanning <;> cases guard.config.roleBoundary <;>
    rcases scanInput lower request.messages with e | u <;>
    rcases checkRoleBoundary false request.messages with e' | u' <;>
    simp [Except.isOk, Except.toBool, bind, Except.bind, pure, Except.pure]

/-! ### Adding to a request -/

/-- One step of adding to the messages: one more message, more text around that of a user, or any
other text in a message that is not a user's. -/
inductive Grows : List Message → List Message → Prop
  | message (before after : List Message) (m : Message) :
      Grows (before ++ after) (before ++ m :: after)
  | text (before after : List Message) {text text' : Str} (h : text <:+: text') :
      Grows (before ++ ⟨.user, text⟩ :: after) (before ++ ⟨.user, text'⟩ :: after)
  | other (before after : List Message) (role : Role) (h : role ≠ .user) (text text' : Str) :
      Grows (before ++ ⟨role, text⟩ :: after) (before ++ ⟨role, text'⟩ :: after)

/-- One step of trying to get past the guard. -/
def Tries (messages messages' : List Message) : Prop :=
  Grows messages messages' ∨ Rewrites messages messages' ∨ Rewrites messages' messages

theorem any_isSuspicious_of_grows {lower : Lowercase} {messages messages' : List Message}
    (h : Grows messages messages') (hsuspicious : messages.any (isSuspicious lower) = true) :
    messages'.any (isSuspicious lower) = true := by
  cases h with
  | message before after m =>
      rw [List.any_append, Bool.or_eq_true] at hsuspicious ⊢
      rw [List.any_cons, Bool.or_eq_true]
      exact hsuspicious.imp_right .inr
  | text before after h =>
      rw [List.any_append, List.any_cons, Bool.or_eq_true, Bool.or_eq_true] at hsuspicious ⊢
      exact hsuspicious.imp_right (Or.imp_left (isSuspicious_of_isInfix lower h))
  | other before after role h text text' =>
      have hclear (text : Str) : isSuspicious lower ⟨role, text⟩ = false := by
        rw [isSuspicious, decide_eq_false h, Bool.false_and]
      rw [List.any_append, List.any_cons, hclear] at hsuspicious ⊢
      exact hsuspicious

theorem roles_of_grows {messages messages' : List Message} (h : Grows messages messages') :
    (messages.map Message.role).Sublist (messages'.map Message.role) := by
  cases h with
  | message before after m =>
      exact ((List.sublist_cons_self m after).append_left before).map _
  | text | other =>
      rw [List.map_append, List.map_append, List.map_cons, List.map_cons]

theorem Rejects.of_grows {guard : PromptGuard} {lower : Lowercase}
    {messages messages' : List Message} (h : Grows messages messages')
    (hrejects : Rejects guard lower messages) : Rejects guard lower messages' := by
  rcases hrejects with ⟨hinput, hsuspicious⟩ | ⟨hboundary, role, hrole, hlate⟩
  · exact .inl ⟨hinput, any_isSuspicious_of_grows h hsuspicious⟩
  · exact .inr ⟨hboundary, role, hrole, hlate.trans (roles_of_grows h)⟩

theorem Rejects.congr {guard : PromptGuard} {lower : Lowercase} {messages messages' : List Message}
    (h : Rewrites messages messages') :
    Rejects guard lower messages' ↔ Rejects guard lower messages := by
  rw [Rejects, Rejects, ← scanInput_isOk_iff, ← scanInput_isOk_iff, scanInput_of_rewrites lower h,
    LateSystem, LateSystem, roles_of_rewrites h]

/-- A request that is rejected stays rejected, however it is added to and rewritten, step by step
and in any order. -/
theorem scan_rejects_of_tries (guard : PromptGuard) (lower : Lowercase)
    {request request' : UnifiedRequest}
    (h : Relation.ReflTransGen Tries request.messages request'.messages)
    (hrejected : (guard.scan lower request).isOk = false) :
    (guard.scan lower request').isOk = false := by
  rw [scan_isOk_iff] at hrejected ⊢
  generalize request'.messages = messages at h ⊢
  induction h with
  | refl => exact hrejected
  | tail _ hstep ih =>
      rcases hstep with hgrows | hrewrites | hrewrites
      · exact ih.of_grows hgrows
      · exact (Rejects.congr hrewrites).mpr ih
      · exact (Rejects.congr hrewrites).mp ih

def padded : UnifiedRequest where
  model := ⟨"gpt-4o".toList, none⟩
  messages := [⟨.assistant, "yes?".toList⟩, ⟨.user, "well, you are now mine".toList⟩]
  temperature := none
  maxTokens := none
  stream := false

theorem scan_rejects_of_tries_padded :
    ((PromptGuard.mk {}).scan asciiLowercase padded).isOk = false := by
  have hinfix : "you are now".toList <:+: "well, you are now mine".toList :=
    ⟨"well, ".toList, " mine".toList, by decide +kernel⟩
  have hgrown : Relation.ReflTransGen Tries (saying "you are now".toList).messages
      padded.messages :=
    (Relation.ReflTransGen.single (.inl (.message [] _ ⟨.assistant, "yes?".toList⟩))).tail
      (.inl (.text [⟨.assistant, "yes?".toList⟩] [] hinfix))
  exact scan_rejects_of_tries (PromptGuard.mk {}) asciiLowercase hgrown (by decide +kernel)

end NeuRust.Security
