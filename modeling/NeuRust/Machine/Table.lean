import Mathlib.Data.List.AList
import Mathlib.Data.List.MinMax

/-!
Hash maps as lists of entries with distinct keys. The order of the list is the order in which the
map is iterated over; two maps with permuted entries answer every lookup alike.
-/

/-- A hash map, its entries in the order in which it is iterated over. -/
abbrev NeuRust.Table (κ ε : Type*) := AList fun _ : κ => ε

namespace AList

open NeuRust List

variable {κ ε : Type*}

def size (m : Table κ ε) : ℕ := m.entries.length

theorem size_eq_length_keys (m : Table κ ε) : m.size = m.keys.length :=
  (List.length_map _).symm

theorem size_perm {m m' : Table κ ε} (h : m.entries.Perm m'.entries) : m.size = m'.size :=
  h.length_eq

theorem size_pos_of_mem {m : Table κ ε} {k : κ} (h : k ∈ m) : 0 < m.size := by
  rw [size_eq_length_keys]
  exact List.length_pos_of_mem (mem_keys.mp h)

/-- A table is no larger than a list that has all of its keys. -/
theorem size_le_of_forall_mem {m : Table κ ε} {keys : List κ} (h : ∀ k ∈ m, k ∈ keys) :
    m.size ≤ keys.length := by
  rw [size_eq_length_keys]
  exact (List.subperm_of_subset m.keys_nodup fun k hk => h k (mem_keys.mpr hk)).length_le

/-- A table is no smaller than a list of distinct keys of it. -/
theorem le_size_of_forall_mem {m : Table κ ε} {keys : List κ} (hnodup : keys.Nodup)
    (h : ∀ k ∈ keys, k ∈ m) : keys.length ≤ m.size := by
  rw [size_eq_length_keys]
  exact (List.subperm_of_subset hnodup fun k hk => mem_keys.mp (h k hk)).length_le

/-- The key of the first entry with the least rank. -/
def minKey {τ : Type*} [LinearOrder τ] (m : Table κ ε) (rank : ε → τ) : Option κ :=
  (m.entries.argmin fun entry => rank entry.2).map Sigma.fst

variable {τ : Type*} [LinearOrder τ] {rank : ε → τ}

theorem minKey_eq_none {m : Table κ ε} : m.minKey rank = none ↔ m.size = 0 := by
  rw [minKey, Option.map_eq_none_iff, List.argmin_eq_none, size, List.length_eq_zero_iff]

variable [DecidableEq κ]

theorem mem_entries_iff {m : Table κ ε} {k : κ} {e : ε} :
    ⟨k, e⟩ ∈ m.entries ↔ m.lookup k = some e :=
  mem_lookup_iff.symm

theorem lookup_perm {m m' : Table κ ε} (h : m.entries.Perm m'.entries) (k : κ) :
    m.lookup k = m'.lookup k :=
  perm_lookup h

theorem mem_of_lookup {m : Table κ ε} {k : κ} {e : ε} (h : m.lookup k = some e) : k ∈ m :=
  lookup_isSome.mp (Option.isSome_of_eq_some h)

theorem exists_lookup {m : Table κ ε} {k : κ} (h : k ∈ m) : ∃ e, m.lookup k = some e :=
  Option.isSome_iff_exists.mp (lookup_isSome.mpr h)

/-! ### Erasing -/

theorem erase_of_notMem {m : Table κ ε} {k : κ} (h : k ∉ m) : m.erase k = m := by
  apply ext
  exact List.kerase_of_notMem_keys (mt mem_keys.mpr h)

theorem size_erase_of_mem {m : Table κ ε} {k : κ} (h : k ∈ m) : (m.erase k).size + 1 = m.size := by
  rw [size_eq_length_keys, size_eq_length_keys, keys_erase]
  exact List.length_erase_add_one (mem_keys.mp h)

theorem size_erase_le (m : Table κ ε) (k : κ) : (m.erase k).size ≤ m.size := by
  rw [size_eq_length_keys, size_eq_length_keys, keys_erase]
  exact List.length_erase_le

theorem lookup_of_lookup_erase {m : Table κ ε} {k k' : κ} {e : ε}
    (h : (m.erase k).lookup k' = some e) : m.lookup k' = some e := by
  by_cases hk : k' = k
  · rw [hk, lookup_erase] at h
    cases h
  · rwa [lookup_erase_ne hk] at h

def eraseAll (m : Table κ ε) (keys : List κ) : Table κ ε :=
  keys.foldl (fun m k => m.erase k) m

@[simp] theorem eraseAll_nil (m : Table κ ε) : m.eraseAll [] = m := rfl

@[simp] theorem eraseAll_cons (m : Table κ ε) (k : κ) (keys : List κ) :
    m.eraseAll (k :: keys) = (m.erase k).eraseAll keys := rfl

theorem lookup_eraseAll_of_mem {m : Table κ ε} {keys : List κ} {k : κ} (h : k ∈ keys) :
    (m.eraseAll keys).lookup k = none := by
  -- once erased, a key stays away
  have hstays : ∀ (keys : List κ) (m : Table κ ε), m.lookup k = none →
      (m.eraseAll keys).lookup k = none := by
    intro keys
    induction keys with
    | nil => exact fun m hm => hm
    | cons k' keys ih =>
        intro m hm
        apply ih
        by_cases hk : k = k'
        · rw [hk, lookup_erase]
        · rw [lookup_erase_ne hk, hm]
  induction keys generalizing m with
  | nil => cases h
  | cons k' keys ih =>
      rcases List.mem_cons.mp h with rfl | hmem
      · exact hstays keys _ (lookup_erase k m)
      · exact ih hmem

theorem lookup_eraseAll_of_notMem {m : Table κ ε} {keys : List κ} {k : κ} (h : k ∉ keys) :
    (m.eraseAll keys).lookup k = m.lookup k := by
  induction keys generalizing m with
  | nil => rfl
  | cons k' keys ih =>
      obtain ⟨hne, hrest⟩ := not_or.mp (mt List.mem_cons.mpr h)
      rw [eraseAll_cons, ih hrest, lookup_erase_ne hne]

theorem lookup_of_lookup_eraseAll {m : Table κ ε} {keys : List κ} {k : κ} {e : ε}
    (h : (m.eraseAll keys).lookup k = some e) : k ∉ keys ∧ m.lookup k = some e := by
  by_cases hk : k ∈ keys
  · rw [lookup_eraseAll_of_mem hk] at h
    cases h
  · exact ⟨hk, lookup_eraseAll_of_notMem hk ▸ h⟩

theorem mem_eraseAll {m : Table κ ε} {keys : List κ} {k : κ} :
    k ∈ m.eraseAll keys ↔ k ∉ keys ∧ k ∈ m := by
  rw [← lookup_isSome, ← lookup_isSome]
  by_cases hk : k ∈ keys
  · simp [lookup_eraseAll_of_mem hk, hk]
  · simp [lookup_eraseAll_of_notMem hk, hk]

theorem size_eraseAll_le (m : Table κ ε) (keys : List κ) : (m.eraseAll keys).size ≤ m.size := by
  induction keys generalizing m with
  | nil => exact le_rfl
  | cons k keys ih => exact (ih _).trans (size_erase_le m k)

theorem size_eraseAll_lt {m : Table κ ε} {keys : List κ} {k : κ} (hk : k ∈ keys) (hm : k ∈ m) :
    (m.eraseAll keys).size < m.size := by
  induction keys generalizing m with
  | nil => cases hk
  | cons k' keys ih =>
      rw [eraseAll_cons]
      by_cases hk' : k' ∈ m
      · have herase := size_erase_of_mem hk'
        have hrest := size_eraseAll_le (m.erase k') keys
        omega
      · rw [erase_of_notMem hk']
        rcases List.mem_cons.mp hk with rfl | hmem
        · exact absurd hm hk'
        · exact ih hmem hm

theorem eraseAll_append (m : Table κ ε) (keys keys' : List κ) :
    m.eraseAll (keys ++ keys') = (m.eraseAll keys).eraseAll keys' :=
  List.foldl_append

/-- Distinct keys that are there are erased one by one. -/
theorem size_eraseAll_of_nodup {m : Table κ ε} {keys : List κ} (hnodup : keys.Nodup)
    (h : ∀ k ∈ keys, k ∈ m) : (m.eraseAll keys).size + keys.length = m.size := by
  induction keys generalizing m with
  | nil => rfl
  | cons k keys ih =>
      obtain ⟨hnew, hnodup⟩ := List.nodup_cons.mp hnodup
      obtain ⟨hk, hkeys⟩ := List.forall_mem_cons.mp h
      have hrest : ∀ k' ∈ keys, k' ∈ m.erase k := by
        intro k' hk'
        rw [mem_erase]
        exact ⟨ne_of_mem_of_not_mem hk' hnew, hkeys k' hk'⟩
      rw [eraseAll_cons, List.length_cons, ← Nat.add_assoc, ih hnodup hrest, size_erase_of_mem hk]

/-! ### Inserting -/

theorem size_insert_of_mem {m : Table κ ε} {k : κ} (h : k ∈ m) (e : ε) :
    (m.insert k e).size = m.size := by
  rw [size_eq_length_keys, size_eq_length_keys, keys_insert, List.length_cons]
  exact List.length_erase_add_one (mem_keys.mp h)

theorem size_insert_of_notMem {m : Table κ ε} {k : κ} (h : k ∉ m) (e : ε) :
    (m.insert k e).size = m.size + 1 := by
  rw [size_eq_length_keys, size_eq_length_keys, keys_insert, List.length_cons,
    List.erase_of_not_mem (mt mem_keys.mpr h)]

theorem size_insert_le (m : Table κ ε) (k : κ) (e : ε) : (m.insert k e).size ≤ m.size + 1 := by
  by_cases h : k ∈ m
  · rw [size_insert_of_mem h]
    exact Nat.le_succ _
  · rw [size_insert_of_notMem h]

theorem lookup_insert_cases {m : Table κ ε} {k k' : κ} {e e' : ε}
    (h : (m.insert k e).lookup k' = some e') :
    (k' = k ∧ e' = e) ∨ (k' ≠ k ∧ m.lookup k' = some e') := by
  by_cases hk : k' = k
  · subst hk
    rw [lookup_insert] at h
    exact .inl ⟨rfl, (Option.some.inj h).symm⟩
  · rw [lookup_insert_ne hk] at h
    exact .inr ⟨hk, h⟩

/-! ### Replacing the value of a key -/

@[simp] theorem size_replace (m : Table κ ε) (k : κ) (e : ε) : (m.replace k e).size = m.size := by
  rw [size_eq_length_keys, size_eq_length_keys, keys_replace]

theorem dlookup_kreplace (l : List (Σ _ : κ, ε)) (k k' : κ) (e : ε) :
    dlookup k' (kreplace k e l) =
      if k' = k then (dlookup k' l).map fun _ => e else dlookup k' l := by
  induction l with
  | nil => split <;> rfl
  | cons entry l ih =>
      obtain ⟨k₀, e₀⟩ := entry
      by_cases hk₀ : k = k₀
      · subst hk₀
        have hreplace : kreplace k e (⟨k, e₀⟩ :: l) = ⟨k, e⟩ :: l :=
          lookmap_cons_some _ l (if_pos rfl)
        rw [hreplace]
        by_cases hk : k' = k
        · subst hk
          simp
        · simp [hk]
      · have hreplace : kreplace k e (⟨k₀, e₀⟩ :: l) = ⟨k₀, e₀⟩ :: kreplace k e l :=
          lookmap_cons_none _ l (if_neg hk₀)
        rw [hreplace]
        by_cases hk : k' = k₀
        · subst hk
          simp [Ne.symm hk₀]
        · rw [dlookup_cons_ne _ _ hk, dlookup_cons_ne _ _ hk, ih]

theorem lookup_replace (m : Table κ ε) (k k' : κ) (e : ε) :
    (m.replace k e).lookup k' =
      if k' = k then (m.lookup k').map fun _ => e else m.lookup k' :=
  dlookup_kreplace m.entries k k' e

theorem lookup_replace_of_mem {m : Table κ ε} {k : κ} {e e' : ε} (h : m.lookup k = some e') :
    (m.replace k e).lookup k = some e := by
  rw [lookup_replace, if_pos rfl, h, Option.map_some]

theorem lookup_replace_ne {m : Table κ ε} {k k' : κ} (e : ε) (h : k' ≠ k) :
    (m.replace k e).lookup k' = m.lookup k' := by
  rw [lookup_replace, if_neg h]

/-! ### Minimal entries -/

theorem minKey_eq_some {m : Table κ ε} {k : κ} (h : m.minKey rank = some k) :
    ∃ e, m.lookup k = some e ∧ ∀ k' e', m.lookup k' = some e' → rank e ≤ rank e' := by
  obtain ⟨⟨k₀, e⟩, hmin, rfl⟩ := Option.map_eq_some_iff.mp h
  refine ⟨e, mem_entries_iff.mp (List.argmin_mem hmin), ?_⟩
  intro k' e' hk'
  exact List.le_of_mem_argmin (f := fun entry : Σ _ : κ, ε => rank entry.2)
    (mem_entries_iff.mpr hk') hmin

end AList
