import NeuRust.Cache.ExactCache

/-!
Eviction of several entries at once. The expired ones are removed first, and the loop over them
looks at the count only after it has removed one.
-/

namespace NeuRust.Cache

variable {κ ρ : Type*} [DecidableEq κ]

/-- The variables of the loop over the expired keys, and whether it has returned. -/
structure Removal (κ ρ : Type*) where
  map : Table κ (CacheEntry ρ)
  removed : ℕ
  returned : Bool

def removeExpired (count : ℕ) : List κ → Removal κ ρ → Removal κ ρ
  | [], acc => acc
  | key :: keys, acc =>
      let acc := { acc with map := acc.map.erase key, removed := acc.removed + 1 }
      if count ≤ acc.removed then { acc with returned := true } else removeExpired count keys acc

def entriesByHits (map : Table κ (CacheEntry ρ)) : List (κ × ℕ) :=
  (map.entries.map fun entry => (entry.1, entry.2.hits)).insertionSort fun a b => a.2 ≤ b.2

/-- The keys with the fewest hits, as many as asked for. -/
def coldestKeys (remaining : ℕ) (map : Table κ (CacheEntry ρ)) : List κ :=
  ((entriesByHits map).take remaining).map Prod.fst

/-- Remove the expired entries and then those with the fewest hits, until the count is reached.
None if the subtraction underflows. -/
def evictLfuBatch (now count : ℕ) (map : Table κ (CacheEntry ρ)) :
    Option (Table κ (CacheEntry ρ)) :=
  let acc := removeExpired count (expiredKeys now map) ⟨map, 0, false⟩
  if acc.returned then some acc.map
  else if count < acc.removed then none
  else
    let remaining := count - acc.removed
    some (acc.map.eraseAll (coldestKeys remaining acc.map))

/-! ### The loop over the expired keys -/

/-- The loop returns if the count is reached, but not before it has removed an entry. -/
theorem removeExpired_eq (count : ℕ) (keys : List κ) (map : Table κ (CacheEntry ρ))
    (removed : ℕ) :
    removeExpired count keys ⟨map, removed, false⟩ =
      if keys ≠ [] ∧ count ≤ removed + keys.length then
        ⟨map.eraseAll (keys.take (max 1 (count - removed))), removed + max 1 (count - removed),
          true⟩
      else ⟨map.eraseAll keys, removed + keys.length, false⟩ := by
  induction keys generalizing map removed with
  | nil => rfl
  | cons key keys ih =>
      rw [removeExpired]
      by_cases henough : count ≤ removed + 1
      · have hone : max 1 (count - removed) = 1 := by omega
        have hreturns : key :: keys ≠ [] ∧ count ≤ removed + (key :: keys).length :=
          ⟨List.cons_ne_nil _ _, by rw [List.length_cons]; omega⟩
        rw [if_pos henough, if_pos hreturns, hone]
        rfl
      · have hmore : max 1 (count - removed) = max 1 (count - (removed + 1)) + 1 := by omega
        rw [if_neg henough, ih, hmore, List.take_succ_cons]
        have hiff : (keys ≠ [] ∧ count ≤ removed + 1 + keys.length) ↔
            key :: keys ≠ [] ∧ count ≤ removed + (key :: keys).length := by
          rw [List.length_cons, ← List.length_pos_iff, ← List.length_pos_iff, List.length_cons]
          omega
        simp only [hiff, AList.eraseAll_cons, List.length_cons]
        split
        · congr 1
          omega
        · congr 1
          omega

/-- What is removed: so many of the expired entries, or all of them and so many of the others. -/
def batchTargets (now count : ℕ) (map : Table κ (CacheEntry ρ)) : List κ :=
  if expiredKeys now map ≠ [] ∧ count ≤ (expiredKeys now map).length then
    (expiredKeys now map).take (max 1 count)
  else
    expiredKeys now map ++ coldestKeys (count - (expiredKeys now map).length)
      (map.eraseAll (expiredKeys now map))

theorem evictLfuBatch_eq (now count : ℕ) (map : Table κ (CacheEntry ρ)) :
    evictLfuBatch now count map = some (map.eraseAll (batchTargets now count map)) := by
  rw [evictLfuBatch, removeExpired_eq, batchTargets, Nat.zero_add, Nat.sub_zero, Nat.zero_add]
  split
  next => rfl
  next hall =>
    have hless : ¬ count < (expiredKeys now map).length := by
      intro hlt
      exact hall ⟨List.ne_nil_of_length_pos (Nat.zero_lt_of_lt hlt), hlt.le⟩
    show (if count < (expiredKeys now map).length then none else some _) = _
    rw [if_neg hless, AList.eraseAll_append]

/-! ### The entries with the fewest hits -/

section Coldest

omit [DecidableEq κ]

variable {map : Table κ (CacheEntry ρ)} {n : ℕ}

theorem perm_entriesByHits : (entriesByHits map).Perm
    (map.entries.map fun entry => (entry.1, entry.2.hits)) :=
  List.perm_insertionSort _ _

theorem pairwise_entriesByHits : (entriesByHits map).Pairwise fun a b => a.2 ≤ b.2 := by
  let r : κ × ℕ → κ × ℕ → Prop := fun a b => a.2 ≤ b.2
  have htotal : Std.Total r := ⟨fun a b => le_total _ _⟩
  have htrans : IsTrans (κ × ℕ) r := ⟨fun a b c hab hbc => hab.trans hbc⟩
  exact List.pairwise_insertionSort r _

theorem nodup_coldestKeys : (coldestKeys n map).Nodup := by
  have hkeys : ((entriesByHits map).map Prod.fst).Nodup := by
    rw [(perm_entriesByHits.map Prod.fst).nodup_iff, List.map_map]
    exact map.keys_nodup
  exact hkeys.sublist ((List.take_sublist n _).map Prod.fst)

theorem length_coldestKeys : (coldestKeys n map).length = min n map.size := by
  rw [coldestKeys, List.length_map, List.length_take, perm_entriesByHits.length_eq,
    List.length_map, AList.size]

end Coldest

section

variable {map : Table κ (CacheEntry ρ)} {n : ℕ} {k k' : κ} {e e' : CacheEntry ρ}

theorem mem_entriesByHits {h : ℕ} :
    (k, h) ∈ entriesByHits map ↔ ∃ e, map.lookup k = some e ∧ e.hits = h := by
  rw [perm_entriesByHits.mem_iff, List.mem_map]
  constructor
  · rintro ⟨⟨_, e⟩, hmem, heq⟩
    obtain ⟨rfl, rfl⟩ := Prod.mk.inj heq
    exact ⟨e, AList.mem_entries_iff.mp hmem, rfl⟩
  · rintro ⟨e, hlookup, rfl⟩
    exact ⟨⟨k, e⟩, AList.mem_entries_iff.mpr hlookup, rfl⟩

theorem exists_of_mem_coldestKeys (h : k ∈ coldestKeys n map) :
    ∃ e, map.lookup k = some e ∧ (k, e.hits) ∈ (entriesByHits map).take n := by
  obtain ⟨⟨_, hits⟩, htaken, rfl⟩ := List.mem_map.mp h
  obtain ⟨e, hlookup, rfl⟩ := mem_entriesByHits.mp (List.mem_of_mem_take htaken)
  exact ⟨e, hlookup, htaken⟩

/-- What is not taken has as many hits as what is. -/
theorem hits_le_of_mem_coldestKeys (hk : k ∈ coldestKeys n map) (hlookup : map.lookup k = some e)
    (hk' : k' ∉ coldestKeys n map) (hlookup' : map.lookup k' = some e') : e.hits ≤ e'.hits := by
  obtain ⟨e₀, hlookup₀, htaken⟩ := exists_of_mem_coldestKeys hk
  obtain rfl := Option.some.inj (hlookup.symm.trans hlookup₀)
  have hmem : (k', e'.hits) ∈ entriesByHits map := mem_entriesByHits.mpr ⟨e', hlookup', rfl⟩
  rw [← List.take_append_drop n (entriesByHits map), List.mem_append] at hmem
  have hleft : (k', e'.hits) ∈ (entriesByHits map).drop n :=
    hmem.resolve_left fun htaken' => hk' (List.mem_map.mpr ⟨_, htaken', rfl⟩)
  exact pairwise_entriesByHits.rel_of_mem_take_of_mem_drop htaken hleft

end

/-! ### What an eviction of several entries removes -/

/-- As many entries as asked for are removed, if there are so many, and the others are kept. An
unexpired one is removed only if no expired one is left, and only if no unexpired one that is left
has fewer hits. -/
structure EvictsBatch (now count : ℕ) (before after : Table κ (CacheEntry ρ)) : Prop where
  kept : ∀ k e, after.lookup k = some e → before.lookup k = some e
  size : after.size + min count before.size = before.size
  expiredFirst : ∀ k e, before.lookup k = some e → e.isExpired now = false → k ∉ after →
    ∀ k' e', after.lookup k' = some e' → e'.isExpired now = false
  coldest : ∀ k e, before.lookup k = some e → e.isExpired now = false → k ∉ after →
    ∀ k' e', after.lookup k' = some e' → e'.isExpired now = false → e.hits ≤ e'.hits

variable {now count : ℕ} {map : Table κ (CacheEntry ρ)}

omit [DecidableEq κ] in
theorem nodup_expiredKeys : (expiredKeys now map).Nodup :=
  map.keys_nodup.sublist (List.filter_sublist.map Sigma.fst)

theorem mem_of_mem_expiredKeys {k : κ} (h : k ∈ expiredKeys now map) : k ∈ map := by
  obtain ⟨e, hlookup, -⟩ := mem_expiredKeys.mp h
  exact AList.mem_of_lookup hlookup

/-- Each expired entry is removed by itself. -/
theorem size_eraseAll_of_expired {keys : List κ} (hsub : keys.Sublist (expiredKeys now map)) :
    (map.eraseAll keys).size + keys.length = map.size :=
  AList.size_eraseAll_of_nodup (nodup_expiredKeys.sublist hsub) fun _ hk =>
    mem_of_mem_expiredKeys (hsub.mem hk)

theorem size_eraseAll_coldestKeys (n : ℕ) :
    (map.eraseAll (coldestKeys n map)).size + min n map.size = map.size := by
  rw [← length_coldestKeys]
  apply AList.size_eraseAll_of_nodup nodup_coldestKeys
  intro k hk
  obtain ⟨e, hlookup, -⟩ := exists_of_mem_coldestKeys hk
  exact AList.mem_of_lookup hlookup

/-- An unexpired key that is gone was a target. -/
theorem mem_targets_of_gone {keys : List κ} {k : κ} {e : CacheEntry ρ}
    (hlookup : map.lookup k = some e) (hgone : k ∉ map.eraseAll keys) : k ∈ keys := by
  by_contra hnot
  exact hgone (AList.mem_eraseAll.mpr ⟨hnot, AList.mem_of_lookup hlookup⟩)

/-- If there are enough expired entries, nothing else is removed. -/
theorem evictsBatch_of_expired {keys : List κ} (hsub : keys.Sublist (expiredKeys now map))
    (hlength : keys.length = count) : EvictsBatch now count map (map.eraseAll keys) := by
  have hexpired (k : κ) (e : CacheEntry ρ) (hlookup : map.lookup k = some e)
      (hgone : k ∉ map.eraseAll keys) : e.isExpired now = true :=
    (mem_expiredKeys_of_lookup hlookup).mp (hsub.mem (mem_targets_of_gone hlookup hgone))
  have hsize := size_eraseAll_of_expired hsub
  refine ⟨fun k e h => (AList.lookup_of_lookup_eraseAll h).2, by omega, ?_, ?_⟩
  · intro k e hlookup hfresh hgone
    rw [hexpired k e hlookup hgone] at hfresh
    cases hfresh
  · intro k e hlookup hfresh hgone
    rw [hexpired k e hlookup hgone] at hfresh
    cases hfresh

theorem lookup_eraseAll_expiredKeys {k : κ} {e : CacheEntry ρ} :
    (map.eraseAll (expiredKeys now map)).lookup k = some e ↔
      map.lookup k = some e ∧ e.isExpired now = false := by
  constructor
  · intro h
    obtain ⟨hnot, hlookup⟩ := AList.lookup_of_lookup_eraseAll h
    exact ⟨hlookup, Bool.eq_false_iff.mpr (mt (mem_expiredKeys_of_lookup hlookup).mpr hnot)⟩
  · rintro ⟨hlookup, hfresh⟩
    rw [AList.lookup_eraseAll_of_notMem, hlookup]
    rw [mem_expiredKeys_of_lookup hlookup, hfresh]
    exact Bool.false_ne_true

/-- If all expired entries are removed, those with the fewest hits follow. -/
theorem evictsBatch_of_all (hlength : (expiredKeys now map).length ≤ count) :
    EvictsBatch now count map (map.eraseAll (expiredKeys now map ++
      coldestKeys (count - (expiredKeys now map).length)
        (map.eraseAll (expiredKeys now map)))) := by
  have hexpired := size_eraseAll_of_expired (List.Sublist.refl (expiredKeys now map))
  have hrest (k : κ) (e : CacheEntry ρ) :
      (map.eraseAll (expiredKeys now map)).lookup k = some e ↔
        map.lookup k = some e ∧ e.isExpired now = false := lookup_eraseAll_expiredKeys
  rw [AList.eraseAll_append]
  generalize map.eraseAll (expiredKeys now map) = rest at hexpired hrest ⊢
  generalize hremaining : count - (expiredKeys now map).length = remaining
  have hcoldest : (rest.eraseAll (coldestKeys remaining rest)).size + min remaining rest.size =
      rest.size := size_eraseAll_coldestKeys remaining
  refine ⟨?_, by omega, ?_, ?_⟩
  · intro k e h
    exact ((hrest k e).mp (AList.lookup_of_lookup_eraseAll h).2).1
  · intro k e _ _ _ k' e' h
    exact ((hrest k' e').mp (AList.lookup_of_lookup_eraseAll h).2).2
  · intro k e hlookup hfresh hgone k' e' h _
    have hleft := (hrest k e).mpr ⟨hlookup, hfresh⟩
    obtain ⟨hnot, hlookup'⟩ := AList.lookup_of_lookup_eraseAll h
    exact hits_le_of_mem_coldestKeys (mem_targets_of_gone hleft hgone) hleft hnot hlookup'

/-- An expired entry is removed even if none is asked for. -/
theorem not_evictsBatch_zero (hexpired : expiredKeys now map ≠ []) :
    ¬ EvictsBatch now 0 map (map.eraseAll ((expiredKeys now map).take 1)) := by
  intro h
  have hsub := List.take_sublist 1 (expiredKeys now map)
  have hsize := size_eraseAll_of_expired hsub
  have hpos := List.length_pos_iff.mpr hexpired
  have hkept := h.size
  rw [List.length_take] at hsize
  omega

/-- The eviction does not underflow, and it removes what it should exactly if an entry is asked for
or none has expired. -/
theorem evictLfuBatch_evicts_iff (now count : ℕ) (map : Table κ (CacheEntry ρ)) :
    ∃ after, evictLfuBatch now count map = some after ∧
      (EvictsBatch now count map after ↔
        1 ≤ count ∨ ∀ k e, map.lookup k = some e → e.isExpired now = false) := by
  refine ⟨_, evictLfuBatch_eq now count map, ?_⟩
  rw [← expiredKeys_eq_nil, batchTargets]
  split
  next henough =>
    obtain ⟨hexpired, hle⟩ := henough
    rw [or_iff_left hexpired]
    constructor
    · intro h
      by_contra hzero
      obtain rfl : count = 0 := by omega
      exact not_evictsBatch_zero hexpired h
    · intro hpos
      rw [max_eq_right hpos]
      exact evictsBatch_of_expired (List.take_sublist _ _) (List.length_take_of_le hle)
  next hall =>
    have hdone : 1 ≤ count ∨ expiredKeys now map = [] := by
      by_contra hnot
      obtain ⟨hzero, hexpired⟩ := not_or.mp hnot
      exact hall ⟨hexpired, by omega⟩
    refine iff_of_true (evictsBatch_of_all ?_) hdone
    by_contra hlt
    exact hall ⟨List.ne_nil_of_length_pos (Nat.zero_lt_of_lt (not_le.mp hlt)), (not_le.mp hlt).le⟩

def expiredEntry : Table ℕ (CacheEntry ℕ) := AList.insert 1 ⟨7, 0, 0, 0⟩ ∅

/-- An expired entry is removed although none is asked for. -/
theorem evictLfuBatch_removes_unasked :
    ¬ ∀ (now count : ℕ) (map : Table ℕ (CacheEntry ℕ)),
      ∃ after, evictLfuBatch now count map = some after ∧ EvictsBatch now count map after := by
  intro h
  obtain ⟨after, hafter, hevicts⟩ := h 1 0 expiredEntry
  have hnone : evictLfuBatch 1 0 expiredEntry = some ∅ := rfl
  obtain rfl := Option.some.inj (hnone.symm.trans hafter)
  have hsize : (0 : ℕ) + 0 = 1 := hevicts.size
  cases hsize

end NeuRust.Cache
