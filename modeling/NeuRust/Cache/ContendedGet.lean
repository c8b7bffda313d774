import NeuRust.Cache.Contention

/-!
What the removal of a lookup removes. The lookup saw an expired entry, dropped its guard, and
removes by key. The map may by then hold another entry, which another client has inserted since.
-/

namespace NeuRust.Cache.Contended

variable {ι κ ρ : Type*} [DecidableEq ι] [DecidableEq κ]

/-- The step is the removal of a lookup, and takes away an entry that has not expired. -/
def destroysFresh (t : Transition (Contended ι κ ρ) (Action ι κ ρ)) : Bool :=
  match t.label with
  | .act client =>
      match t.pre.pc client with
      | .drop hash _ => (t.pre.cache.map.lookup hash).any fun entry => !entry.isExpired t.pre.now
      | _ => false
  | _ => false

omit [DecidableEq ι] in
theorem destroysFresh_iff {t : Transition (Contended ι κ ρ) (Action ι κ ρ)} :
    destroysFresh t = true ↔ ∃ i hash seen entry, t.label = .act i ∧
      t.pre.pc i = .drop hash seen ∧ t.pre.cache.map.lookup hash = some entry ∧
      entry.isExpired t.pre.now = false := by
  constructor
  · intro h
    rw [destroysFresh] at h
    split at h
    next i hlabel =>
      split at h
      next hash seen hpc =>
        obtain ⟨entry, hlookup, hfresh⟩ := (Option.any_eq_true _ _).mp h
        exact ⟨i, hash, seen, entry, hlabel, hpc, hlookup, Bool.not_eq_true' _ ▸ hfresh⟩
      next => cases h
    next => cases h
  · rintro ⟨i, hash, seen, entry, hlabel, hpc, hlookup, hfresh⟩
    rw [destroysFresh, hlabel]
    simp only [hpc, hlookup, Option.any_some, hfresh, Bool.not_false]

def Inserts (hash : κ) (t : Transition (Contended ι κ ρ) (Action ι κ ρ)) : Prop :=
  ∃ i ins, t.label = .act i ∧ t.pre.pc i = .insert ins ∧ ins.hash = hash

/-- Since the client's last step, some client has inserted under the hash. -/
def InsertedSince (client : ι) (hash : κ) :
    List (Transition (Contended ι κ ρ) (Action ι κ ρ)) → Prop
  | [] => False
  | t :: earlier => t.label ≠ .act client ∧ (Inserts hash t ∨ InsertedSince client hash earlier)

/-- A lookup that is about to remove saw an expired entry. The entry is still there, or is gone,
or another one was inserted since. -/
def DropsExpired (steps : List (Transition (Contended ι κ ρ) (Action ι κ ρ)))
    (s : Contended ι κ ρ) : Prop :=
  ∀ i hash seen, s.pc i = .drop hash seen → seen.isExpired s.now = true ∧
    ∀ entry, s.cache.map.lookup hash = some entry → entry = seen ∨ InsertedSince i hash steps

/-- What a step leaves under a key was there before, or is an unexpired entry that was hit, or was
inserted by the step. -/
theorem Effect.lookup_origin {s s' : Contended ι κ ρ} {a : Action ι κ ρ} (h : Effect s a s')
    {k : κ} {e : CacheEntry ρ} (hlookup : s'.cache.map.lookup k = some e) :
    s.cache.map.lookup k = some e ∨
      (∃ e₀, s.cache.map.lookup k = some e₀ ∧ e₀.isExpired s.now = false ∧ e = e₀.hit) ∨
      Inserts k ⟨s, a, s'⟩ := by
  cases h with
  | callInsert | callGet | full | permitted | scan | removed | miss | expired | advance =>
      exact .inl hlookup
  | remove => exact .inl (AList.lookup_of_lookup_erase hlookup)
  | drop => exact .inl (AList.lookup_of_lookup_erase hlookup)
  | reorder map hperm => exact .inl ((AList.lookup_perm hperm k).symm.trans hlookup)
  | insert hpc =>
      rcases AList.lookup_insert_cases hlookup with ⟨rfl, -⟩ | ⟨-, hold⟩
      · exact .inr (.inr ⟨_, _, rfl, hpc, rfl⟩)
      · exact .inl hold
  | @hit i hash entry hpc hentry hfresh =>
      have hreplace : (s.cache.map.replace hash entry.hit).lookup k = some e := hlookup
      by_cases hk : k = hash
      · subst hk
        rw [AList.lookup_replace_of_mem hentry] at hreplace
        exact .inr (.inl ⟨entry, hentry, hfresh, (Option.some.inj hreplace).symm⟩)
      · rw [AList.lookup_replace_ne _ hk] at hreplace
        exact .inl hreplace

theorem Effect.now_le {s s' : Contended ι κ ρ} {a : Action ι κ ρ} (h : Effect s a s') :
    s.now ≤ s'.now := by
  cases h with
  | advance time => exact Nat.le_add_right s.now time
  | _ => exact le_rfl

omit [DecidableEq κ] in
theorem drop_of_goto {s : Contended ι κ ρ} {i j : ι} {pc : Pc κ ρ} {hash : κ}
    {seen : CacheEntry ρ} (h : (s.goto j pc).pc i = .drop hash seen) :
    (i = j ∧ pc = .drop hash seen) ∨ (s.pc i = .drop hash seen ∧ j ≠ i) := by
  rw [goto_pc] at h
  by_cases hi : i = j
  · subst hi
    rw [Function.update_self] at h
    exact .inl ⟨rfl, h⟩
  · rw [Function.update_of_ne hi] at h
    exact .inr ⟨h, Ne.symm hi⟩

omit [DecidableEq κ] in
theorem afterScan_ne_drop (ins : Insertion κ ρ) (attempts : ℕ) (keys : List κ) (hash : κ)
    (seen : CacheEntry ρ) : Pc.afterScan ins attempts keys ≠ .drop hash seen := by
  cases keys <;> exact nofun

/-- A client that is about to remove has just checked the entry, or was about to before and the
step is not its own. -/
theorem Effect.drop_origin {s s' : Contended ι κ ρ} {a : Action ι κ ρ} (h : Effect s a s')
    {i : ι} {hash : κ} {seen : CacheEntry ρ} (hpc' : s'.pc i = .drop hash seen) :
    (s.pc i = .drop hash seen ∧ a ≠ .act i) ∨
      (s.cache.map.lookup hash = some seen ∧ seen.isExpired s.now = true ∧
        s'.cache.map = s.cache.map ∧ s'.now = s.now) := by
  have hother : ∀ j, j ≠ i → Action.act j ≠ (.act i : Action ι κ ρ) := by
    intro j hj hact
    exact hj (Action.act.inj hact)
  cases h with
  | advance | reorder => exact .inl ⟨hpc', nofun⟩
  | expired hpc hlookup hexpired =>
      rcases drop_of_goto hpc' with ⟨-, hdrop⟩ | ⟨hold, hne⟩
      · obtain ⟨rfl, rfl⟩ := Pc.drop.inj hdrop
        exact .inr ⟨hlookup, hexpired, rfl, rfl⟩
      · exact .inl ⟨hold, hother _ hne⟩
  | scan | remove =>
      rcases drop_of_goto hpc' with ⟨-, hdrop⟩ | ⟨hold, hne⟩
      · exact absurd hdrop (afterScan_ne_drop _ _ _ hash seen)
      · exact .inl ⟨hold, hother _ hne⟩
  | callInsert | callGet =>
      rcases drop_of_goto hpc' with ⟨-, hdrop⟩ | ⟨hold, -⟩
      · cases hdrop
      · exact .inl ⟨hold, nofun⟩
  | full | permitted | removed | insert | miss | hit | drop =>
      rcases drop_of_goto hpc' with ⟨-, hdrop⟩ | ⟨hold, hne⟩
      · cases hdrop
      · exact .inl ⟨hold, hother _ hne⟩

theorem DropsExpired.step {steps : List (Transition (Contended ι κ ρ) (Action ι κ ρ))}
    {s s' : Contended ι κ ρ} {a : Action ι κ ρ} (hs : DropsExpired steps s)
    (h : Effect s a s') : DropsExpired (⟨s, a, s'⟩ :: steps) s' := by
  intro i hash seen hpc'
  rcases h.drop_origin hpc' with ⟨hpc, hother⟩ | ⟨hchecked, hexpired, hmap, hnow⟩
  · obtain ⟨hexpired, hentry⟩ := hs i hash seen hpc
    refine ⟨CacheEntry.isExpired_mono hexpired h.now_le, ?_⟩
    intro entry hlookup
    rcases h.lookup_origin hlookup with hold | ⟨entry₀, hold, hfresh, rfl⟩ | hinserts
    · rcases hentry entry hold with rfl | hsince
      · exact .inl rfl
      · exact .inr ⟨hother, .inr hsince⟩
    · rcases hentry entry₀ hold with rfl | hsince
      · rw [hexpired] at hfresh
        cases hfresh
      · exact .inr ⟨hother, .inr hsince⟩
    · exact .inr ⟨hother, .inl hinserts⟩
  · rw [hmap, hnow]
    refine ⟨hexpired, ?_⟩
    intro entry hlookup
    exact .inl (Option.some.inj (hlookup.symm.trans hchecked))

theorem DropsExpired.of_run {maxEntries defaultTtl now : ℕ}
    {steps : List (Transition (Contended ι κ ρ) (Action ι κ ρ))} {s : Contended ι κ ρ}
    (run : Run Step (start maxEntries defaultTtl now) steps s) : DropsExpired steps s := by
  apply run.invariant_of_history
  · intro i hash seen hpc
    cases hpc
  · intro steps s a s' _ hs h
    exact hs.step h.effect

/-- No lookup of a run takes away an unexpired entry, if and only if no removal of a lookup finds
an unexpired entry that was inserted after the lookup had checked. -/
theorem no_fresh_destroyed_iff {maxEntries defaultTtl now : ℕ}
    {steps : List (Transition (Contended ι κ ρ) (Action ι κ ρ))} {s : Contended ι κ ρ}
    (run : Run Step (start maxEntries defaultTtl now) steps s) :
    (∀ t ∈ steps, destroysFresh t = false) ↔
      ∀ t earlier, t :: earlier <:+ steps → ∀ i hash seen, t.label = .act i →
        t.pre.pc i = .drop hash seen → InsertedSince i hash earlier →
        ∀ entry, t.pre.cache.map.lookup hash = some entry → entry.isExpired t.pre.now = true := by
  constructor
  · intro hnever t earlier hsuffix i hash seen hact hpc _ entry hlookup
    by_contra hfresh
    have hdestroys : destroysFresh t = true :=
      destroysFresh_iff.mpr ⟨i, hash, seen, entry, hact, hpc, hlookup, Bool.eq_false_iff.mpr hfresh⟩
    rw [hnever t (hsuffix.mem List.mem_cons_self)] at hdestroys
    cases hdestroys
  · intro hwhen t ht
    by_contra hdestroys
    obtain ⟨i, hash, seen, entry, hact, hpc, hlookup, hfresh⟩ :=
      destroysFresh_iff.mp (Bool.not_eq_false _ ▸ hdestroys)
    obtain ⟨earlier, hsuffix, hbefore, -⟩ := run.exists_before ht
    obtain ⟨hseen, hentry⟩ := DropsExpired.of_run hbefore i hash seen hpc
    rcases hentry entry hlookup with rfl | hsince
    · rw [hseen] at hfresh
      cases hfresh
    · rw [hwhen t earlier hsuffix i hash seen hact hpc hsince entry hlookup] at hfresh
      cases hfresh

/-- One client finds the entry of a key expired, another one replaces it, and the first one removes
the new entry. -/
def replacedBeforeRemoval : List (Action Bool ℕ Char) :=
  [.callInsert true ⟨1, 'a', 1⟩, .act true, .act true, .advance 5,
    .callGet false 1, .act false,
    .callInsert true ⟨1, 'b', 60⟩, .act true, .act true,
    .act false]

theorem replacedBeforeRemoval_run : ∃ steps last,
    Run Step (start 10 60 0 : Contended Bool ℕ Char) steps last ∧
      steps.any destroysFresh = true := by
  have hexec : (exec Contended.next (start 10 60 0) replacedBeforeRemoval).any
      (fun r => r.1.any destroysFresh) = true := by
    decide +kernel
  exact Run.exists_of_exec hexec .next

theorem fresh_response_destroyed :
    ¬ ∀ steps s, Run Step (start 10 60 0 : Contended Bool ℕ Char) steps s →
      ∀ t ∈ steps, destroysFresh t = false := by
  intro hnever
  obtain ⟨steps, last, run, hany⟩ := replacedBeforeRemoval_run
  obtain ⟨t, ht, hdestroys⟩ := List.any_eq_true.mp hany
  rw [hnever steps last run t ht] at hdestroys
  cases hdestroys

theorem inserted_between_check_and_removal :
    ∃ steps s, Run Step (start 10 60 0 : Contended Bool ℕ Char) steps s ∧
      ¬ ∀ t earlier, t :: earlier <:+ steps → ∀ i hash seen, t.label = .act i →
        t.pre.pc i = .drop hash seen → InsertedSince i hash earlier →
        ∀ entry, t.pre.cache.map.lookup hash = some entry →
          entry.isExpired t.pre.now = true := by
  obtain ⟨steps, last, run, hany⟩ := replacedBeforeRemoval_run
  refine ⟨steps, last, run, ?_⟩
  intro hwhen
  obtain ⟨t, ht, hdestroys⟩ := List.any_eq_true.mp hany
  rw [(no_fresh_destroyed_iff run).mpr hwhen t ht] at hdestroys
  cases hdestroys

end NeuRust.Cache.Contended
