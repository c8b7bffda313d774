import NeuRust.Cache.Warming

/-!
Warming an empty cache. Every entry of the dump is inserted, also when the cache is full: then the
one with the fewest hits has to go, and in a dump that starts with the hottest entries the newcomer
is colder still.
-/

namespace NeuRust.Cache

variable {κ ρ : Type*} [DecidableEq κ]

namespace CacheWarmer

open ExactCache

/-- What a warm makes of an entry of the dump. -/
def warmEntry (now ttl : ℕ) (d : CacheDumpEntry κ ρ) : CacheEntry ρ :=
  ⟨d.response, d.hitCount, now, ttl⟩

/-- A cache that some entries were loaded into: it holds as many as fit, and they are unchanged. -/
structure Warmed (now M ttl : ℕ) (seen : List (CacheDumpEntry κ ρ)) (cache : ExactCache κ ρ) :
    Prop where
  maxEntries : cache.maxEntries = M
  defaultTtl : cache.defaultTtl = ttl
  size : cache.map.size = min seen.length M
  origin : ∀ k e, cache.map.lookup k = some e → ∃ d ∈ seen, d.hash = k ∧ e = warmEntry now ttl d

variable {now M ttl : ℕ} {seen dump : List (CacheDumpEntry κ ρ)} {d : CacheDumpEntry κ ρ}
  {cache : ExactCache κ ρ}

theorem Warmed.fresh (h : Warmed now M ttl seen cache) (k : κ) (e : CacheEntry ρ)
    (hlookup : cache.map.lookup k = some e) : e.isExpired now = false := by
  obtain ⟨d, -, -, rfl⟩ := h.origin k e hlookup
  simp [CacheEntry.not_isExpired_iff, warmEntry]

theorem Warmed.size_le (h : Warmed now M ttl seen cache) : cache.map.size ≤ cache.maxEntries := by
  rw [h.size, h.maxEntries]
  exact min_le_right _ _

theorem Warmed.notMem (h : Warmed now M ttl seen cache)
    (hnew : d.hash ∉ seen.map CacheDumpEntry.hash) : d.hash ∉ cache.map := by
  intro hmem
  obtain ⟨e, hlookup⟩ := AList.exists_lookup hmem
  obtain ⟨d', hd', hhash, -⟩ := h.origin _ e hlookup
  exact hnew (List.mem_map.mpr ⟨d', hd', hhash⟩)

theorem Warmed.snoc (h : Warmed now M ttl seen cache) (hpos : 1 ≤ M)
    (hnew : d.hash ∉ seen.map CacheDumpEntry.hash) :
    Warmed now M ttl (seen ++ [d]) (cache.insertWarm now d.hash d.response d.hitCount) where
  maxEntries := h.maxEntries
  defaultTtl := h.defaultTtl
  size := by
    rw [insertWarm, size_put_of_new (h.maxEntries ▸ hpos) h.size_le (h.notMem hnew) h.fresh,
      h.size, h.maxEntries, List.length_append, List.length_singleton]
    omega
  origin := by
    intro k e hlookup
    rcases lookup_put_cases hlookup with ⟨rfl, rfl⟩ | ⟨-, hold⟩
    · exact ⟨d, by simp, rfl, by rw [h.defaultTtl, warmEntry]⟩
    · obtain ⟨d', hd', hrest⟩ := h.origin k e hold
      exact ⟨d', List.mem_append_left [d] hd', hrest⟩

theorem Warmed.reorder (h : Warmed now M ttl seen cache) {map : Table κ (CacheEntry ρ)}
    (hperm : map.entries.Perm cache.map.entries) :
    Warmed now M ttl seen { cache with map := map } where
  maxEntries := h.maxEntries
  defaultTtl := h.defaultTtl
  size := (AList.size_perm hperm).trans h.size
  origin := fun k e hlookup => h.origin k e ((AList.lookup_perm hperm k).symm.trans hlookup)

/-! ### Loading -/

/-- The entries are inserted one after the other. Before each insertion, the order in which the
cache is iterated over may change. -/
inductive Loads (now : ℕ) (start : ExactCache κ ρ) :
    List (CacheDumpEntry κ ρ) → ExactCache κ ρ → Prop
  | nil : Loads now start [] start
  | snoc {seen : List (CacheDumpEntry κ ρ)} {cache : ExactCache κ ρ}
      (loads : Loads now start seen cache) (map : Table κ (CacheEntry ρ))
      (hperm : map.entries.Perm cache.map.entries) (d : CacheDumpEntry κ ρ) :
      Loads now start (seen ++ [d])
        ({ cache with map := map }.insertWarm now d.hash d.response d.hitCount)

def WarmsTo (warmer : CacheWarmer) (now : ℕ) (file : DumpFile κ ρ) (start cache : ExactCache κ ρ) :
    Prop :=
  Loads now start (warmer.loaded file) cache

theorem loads_load (now : ℕ) (dump : List (CacheDumpEntry κ ρ)) (start : ExactCache κ ρ) :
    Loads now start dump (load now dump start) := by
  induction dump using List.reverseRecOn with
  | nil => exact .nil
  | append_singleton seen d ih =>
      rw [load, List.foldl_append]
      exact .snoc ih _ (.refl _) d

theorem warmsTo_warm (warmer : CacheWarmer) (now : ℕ) (file : DumpFile κ ρ)
    (start : ExactCache κ ρ) : WarmsTo warmer now file start (warmer.warm now file start).2 := by
  rw [WarmsTo, warm_eq]
  exact loads_load now _ start

omit [DecidableEq κ] in
/-- The entries of a dump with distinct hashes come apart as those before the last and the last. -/
theorem nodup_concat (h : ((seen ++ [d]).map CacheDumpEntry.hash).Nodup) :
    (seen.map CacheDumpEntry.hash).Nodup ∧ d.hash ∉ seen.map CacheDumpEntry.hash := by
  rw [List.map_append] at h
  refine ⟨h.of_append_left, fun hmem => ?_⟩
  exact List.disjoint_of_nodup_append h hmem (by simp)

theorem Loads.warmed (h : Loads now (.new M ttl) dump cache) (hpos : 1 ≤ M)
    (hdistinct : (dump.map CacheDumpEntry.hash).Nodup) : Warmed now M ttl dump cache := by
  induction h with
  | nil => exact ⟨rfl, rfl, rfl, nofun⟩
  | snoc _ map hperm d ih =>
      obtain ⟨hseen, hnew⟩ := nodup_concat hdistinct
      exact ((ih hseen).reorder hperm).snoc hpos hnew

/-! ### What stays -/

theorem Warmed.lookup_last (h : Warmed now M ttl seen cache) :
    (cache.insertWarm now d.hash d.response d.hitCount).map.lookup d.hash =
      some (warmEntry now ttl d) := by
  rw [insertWarm, lookup_put_self, h.defaultTtl, warmEntry]

theorem Warmed.lookup_earlier (h : Warmed now M ttl seen cache) {k : κ} (hk : k ≠ d.hash) :
    (cache.insertWarm now d.hash d.response d.hitCount).map.lookup k =
      if M ≤ cache.map.size ∧ k ∈ evictTargets now cache.map then none
      else cache.map.lookup k := by
  rw [insertWarm, lookup_put_ne (h.size_le.trans (le_max_right _ _)) hk, h.maxEntries]

theorem Loads.lookup_last (h : Loads now (.new M ttl) (seen ++ [d]) cache) (hpos : 1 ≤ M)
    (hdistinct : ((seen ++ [d]).map CacheDumpEntry.hash).Nodup) :
    cache.map.lookup d.hash = some (warmEntry now ttl d) := by
  generalize hdump : seen ++ [d] = dump at h hdistinct
  cases h with
  | nil => simp at hdump
  | snoc loads map hperm last =>
      obtain ⟨-, hlast⟩ := List.append_inj' hdump rfl
      obtain rfl := List.singleton_inj.mp hlast
      exact ((loads.warmed hpos (nodup_concat hdistinct).1).reorder hperm).lookup_last

/-- An entry that is loaded stays, unless one that is loaded later evicts it. -/
theorem Loads.lookup_of_kept (h : Loads now (.new M ttl) dump cache) (hpos : 1 ≤ M)
    (hdistinct : (dump.map CacheDumpEntry.hash).Nodup) (hd : d ∈ dump)
    (hkept : ∀ seen earlier, seen <+: dump → seen.length < dump.length →
      Warmed now M ttl seen earlier → earlier.map.lookup d.hash = some (warmEntry now ttl d) →
      ¬ (M ≤ earlier.map.size ∧ d.hash ∈ evictTargets now earlier.map)) :
    cache.map.lookup d.hash = some (warmEntry now ttl d) := by
  induction h with
  | nil => cases hd
  | @snoc seen cache loads map hperm last ih =>
      obtain ⟨hseen, hnew⟩ := nodup_concat hdistinct
      have hwarmed := (loads.warmed hpos hseen).reorder hperm
      have hprefix : seen <+: seen ++ [last] := List.prefix_append seen [last]
      have hlonger : seen.length < (seen ++ [last]).length := by simp
      rcases List.mem_append.mp hd with hd | hd
      · have hne : d.hash ≠ last.hash := fun heq => hnew (heq ▸ List.mem_map_of_mem hd)
        have hlookup : map.lookup d.hash = some (warmEntry now ttl d) := by
          rw [AList.lookup_perm hperm]
          apply ih hseen hd
          intro seen' earlier hearlier hlt
          exact hkept seen' earlier (hearlier.trans hprefix) (hlt.trans hlonger)
        rw [hwarmed.lookup_earlier hne, if_neg (hkept seen _ hprefix hlonger hwarmed hlookup)]
        exact hlookup
      · rw [List.mem_singleton.mp hd]
        exact hwarmed.lookup_last

/-- Into a cache that is large enough every entry is loaded. -/
theorem Loads.lookup_of_fits (h : Loads now (.new M ttl) dump cache)
    (hdistinct : (dump.map CacheDumpEntry.hash).Nodup) (hfits : dump.length ≤ M) (hd : d ∈ dump) :
    cache.map.lookup d.hash = some (warmEntry now ttl d) := by
  have hpos : 1 ≤ M := (List.length_pos_of_mem hd).trans_le hfits
  apply h.lookup_of_kept hpos hdistinct hd
  rintro seen earlier - hlt hwarmed - ⟨hfull, -⟩
  rw [hwarmed.size] at hfull
  omega

theorem Loads.lookup_eq_some_iff (h : Loads now (.new M ttl) dump cache) (hpos : 1 ≤ M)
    (hdistinct : (dump.map CacheDumpEntry.hash).Nodup) (hfits : dump.length ≤ M) {k : κ}
    {e : CacheEntry ρ} :
    cache.map.lookup k = some e ↔ ∃ d ∈ dump, d.hash = k ∧ warmEntry now ttl d = e := by
  constructor
  · intro hlookup
    obtain ⟨d, hd, hhash, rfl⟩ := (h.warmed hpos hdistinct).origin k e hlookup
    exact ⟨d, hd, hhash, rfl⟩
  · rintro ⟨d, hd, rfl, rfl⟩
    exact h.lookup_of_fits hdistinct hfits hd

/-- Entries hotter than a threshold stay as long as they do not fill the cache: the entry that is
evicted would be one of them only if there were no others. -/
theorem Loads.lookup_of_hot (h : Loads now (.new M ttl) dump cache) {c : ℕ}
    (hdistinct : (dump.map CacheDumpEntry.hash).Nodup)
    (hfew : (dump.filter fun d => decide (c < d.hitCount.toNat)).length < M) (hd : d ∈ dump)
    (hhot : c < d.hitCount.toNat) :
    cache.map.lookup d.hash = some (warmEntry now ttl d) := by
  apply h.lookup_of_kept (Nat.one_le_of_lt hfew) hdistinct hd
  rintro seen earlier hseen - hwarmed hlookup ⟨hfull, htarget⟩
  obtain ⟨-, hmin, -⟩ := evictTargets_fresh hlookup (hwarmed.fresh _ _ hlookup) htarget
  -- all that the cache holds would be hot
  have hall : ∀ k ∈ earlier.map, k ∈
      (seen.filter fun d => decide (c < d.hitCount.toNat)).map CacheDumpEntry.hash := by
    intro k hk
    obtain ⟨e, hlookup'⟩ := AList.exists_lookup hk
    obtain ⟨d', hd', rfl, rfl⟩ := hwarmed.origin k e hlookup'
    have hhot' : c < d'.hitCount.toNat := hhot.trans_le (hmin _ _ hlookup')
    exact List.mem_map_of_mem (List.mem_filter.mpr ⟨hd', decide_eq_true hhot'⟩)
  have hsize := AList.size_le_of_forall_mem hall
  have hless := (hseen.sublist.filter fun d => decide (c < d.hitCount.toNat)).length_le
  rw [List.length_map] at hsize
  omega

/-! ### Which entries a smaller cache keeps -/

/-- The cache is filled with entries of the dump, and none that was left out is hotter than one of
them. -/
structure HoldsHottest (M : ℕ) (dump : List (CacheDumpEntry κ ρ)) (cache : ExactCache κ ρ) :
    Prop where
  size : cache.map.size = M
  origin : ∀ k e, cache.map.lookup k = some e →
    ∃ d ∈ dump, d.hash = k ∧ d.response = e.response ∧ d.hitCount = e.hitCount
  hottest : ∀ d ∈ dump, d.hash ∉ cache.map →
    ∀ k e, cache.map.lookup k = some e → d.hitCount.toNat ≤ e.hits

/-- The hottest entries come first, as `top_by_hit_count` puts them. -/
def HottestFirst (dump : List (CacheDumpEntry κ ρ)) : Prop :=
  dump.Pairwise fun d d' => d'.hitCount.toNat ≤ d.hitCount.toNat

variable {front middle : List (CacheDumpEntry κ ρ)} {m last : CacheDumpEntry κ ρ}

omit [DecidableEq κ] in
theorem HottestFirst.bounds (h : HottestFirst (front ++ m :: (middle ++ [last]))) :
    (∀ d ∈ front, m.hitCount.toNat ≤ d.hitCount.toNat) ∧
      ∀ d ∈ m :: (middle ++ [last]),
        last.hitCount.toNat ≤ d.hitCount.toNat ∧ d.hitCount.toNat ≤ m.hitCount.toNat := by
  obtain ⟨-, htail, hfront⟩ := List.pairwise_append.mp h
  obtain ⟨hm, hrest⟩ := List.pairwise_cons.mp htail
  obtain ⟨-, -, hmiddle⟩ := List.pairwise_append.mp hrest
  refine ⟨fun d hd => hfront d hd m List.mem_cons_self, fun d hd => ?_⟩
  rcases List.mem_cons.mp hd with rfl | hd
  · exact ⟨hm last (by simp), le_rfl⟩
  · refine ⟨?_, hm d hd⟩
    rcases List.mem_append.mp hd with hd | hd
    · exact hmiddle d hd last (List.mem_singleton_self last)
    · rw [List.mem_singleton.mp hd]

/-- If the last entry is as hot as the one that fills the cache, only as hot ones are left out. -/
theorem holdsHottest_of_eq
    (h : Loads now (.new (front.length + 1) ttl) (front ++ m :: (middle ++ [last])) cache)
    (hdistinct : ((front ++ m :: (middle ++ [last])).map CacheDumpEntry.hash).Nodup)
    (hsorted : HottestFirst (front ++ m :: (middle ++ [last])))
    (heq : m.hitCount = last.hitCount) :
    HoldsHottest (front.length + 1) (front ++ m :: (middle ++ [last])) cache := by
  have hwarmed := h.warmed (Nat.le_add_left 1 front.length) hdistinct
  obtain ⟨hfront, htail⟩ := hsorted.bounds
  have hfew : ((front ++ m :: (middle ++ [last])).filter fun d =>
      decide (m.hitCount.toNat < d.hitCount.toNat)).length < front.length + 1 := by
    have hnone : (m :: (middle ++ [last])).filter
        (fun d => decide (m.hitCount.toNat < d.hitCount.toNat)) = [] := by
      apply List.filter_eq_nil_iff.mpr
      intro d hd
      simpa using (htail d hd).2
    rw [List.filter_append, hnone, List.append_nil]
    exact Nat.lt_succ_of_le (List.length_filter_le _ front)
  have hleast : ∀ d ∈ front ++ m :: (middle ++ [last]), m.hitCount.toNat ≤ d.hitCount.toNat := by
    intro d hd
    rcases List.mem_append.mp hd with hd | hd
    · exact hfront d hd
    · rw [heq]
      exact (htail d hd).1
  refine ⟨?_, ?_, ?_⟩
  · rw [hwarmed.size]
    simp only [List.length_append, List.length_cons]
    omega
  · intro k e hlookup
    obtain ⟨d, hd, hhash, rfl⟩ := hwarmed.origin k e hlookup
    exact ⟨d, hd, hhash, rfl, rfl⟩
  · intro d hd hout k e hlookup
    obtain ⟨d', hd', -, rfl⟩ := hwarmed.origin k e hlookup
    have hcold : ¬ m.hitCount.toNat < d.hitCount.toNat := by
      intro hhot
      exact hout (AList.mem_of_lookup (h.lookup_of_hot hdistinct hfew hd hhot))
    exact (not_lt.mp hcold).trans (hleast d' hd')

/-- The last entry is always loaded, so that one of the hotter ones has to go. -/
theorem eq_of_holdsHottest
    (h : Loads now (.new (front.length + 1) ttl) (front ++ m :: (middle ++ [last])) cache)
    (hdistinct : ((front ++ m :: (middle ++ [last])).map CacheDumpEntry.hash).Nodup)
    (hsorted : HottestFirst (front ++ m :: (middle ++ [last])))
    (hhottest : HoldsHottest (front.length + 1) (front ++ m :: (middle ++ [last])) cache) :
    m.hitCount = last.hitCount := by
  obtain ⟨hfront, htail⟩ := hsorted.bounds
  have hdump : front ++ m :: (middle ++ [last]) = (front ++ m :: middle) ++ [last] := by simp
  have hlast : cache.map.lookup last.hash = some (warmEntry now ttl last) :=
    (hdump ▸ h).lookup_last (Nat.le_add_left 1 front.length) (hdump ▸ hdistinct)
  by_contra hne
  have hlt : last.hitCount.toNat < m.hitCount.toNat := by
    refine lt_of_le_of_ne (htail m List.mem_cons_self).1 fun heq => hne ?_
    exact (UInt64.toNat_inj.mp heq).symm
  have hsub : (front ++ [m, last]).Sublist (front ++ m :: (middle ++ [last])) :=
    ((List.sublist_append_right middle [last]).cons_cons m).append_left front
  have hloaded : ∀ k ∈ (front ++ [m, last]).map CacheDumpEntry.hash, k ∈ cache.map := by
    intro k hk
    obtain ⟨d, hd, rfl⟩ := List.mem_map.mp hk
    by_contra hout
    have hcold : d.hitCount.toNat ≤ last.hitCount.toNat :=
      hhottest.hottest d (hsub.mem hd) hout last.hash _ hlast
    rcases List.mem_append.mp hd with hd | hd
    · exact absurd (hfront d hd) (not_le.mpr (hcold.trans_lt hlt))
    · rcases List.mem_cons.mp hd with rfl | hd
      · exact absurd hlt hcold.not_gt
      · rw [List.mem_singleton.mp hd] at hout
        exact hout (AList.mem_of_lookup hlast)
  have hsize := AList.le_size_of_forall_mem (hdistinct.sublist (hsub.map _)) hloaded
  rw [hhottest.size] at hsize
  simp at hsize

/-- After warming a smaller cache, in whatever order it is iterated over, it is filled with entries
of the dump, and none that was left out is hotter than one of them, exactly when the entry that
fills the cache and all after it are equally hot. -/
theorem warm_holdsHottest_iff {warmer : CacheWarmer} {cache : ExactCache κ ρ} (hpos : 1 ≤ M)
    (hsmaller : M < dump.length) (hdistinct : (dump.map CacheDumpEntry.hash).Nodup)
    (hsorted : HottestFirst dump) (hmax : dump.length ≤ warmer.maxWarmEntries)
    (hwarms : WarmsTo warmer now (.entries dump) (.new M ttl) cache) :
    HoldsHottest M dump cache ↔
      ∀ d ∈ dump.drop (M - 1), ∀ d' ∈ dump.drop (M - 1), d.hitCount = d'.hitCount := by
  rw [WarmsTo, loaded, List.take_of_length_le hmax] at hwarms
  -- the dump, taken apart before the entry that fills the cache and before the last one
  obtain ⟨m, rest, htail⟩ : ∃ m rest, dump.drop (M - 1) = m :: rest := by
    apply List.exists_cons_of_ne_nil
    rw [ne_eq, List.drop_eq_nil_iff]
    omega
  have hlength := congrArg List.length htail
  rw [List.length_drop, List.length_cons] at hlength
  obtain ⟨middle, last, rfl⟩ : ∃ middle last, rest = middle ++ [last] := by
    refine (List.eq_nil_or_concat' rest).resolve_left fun hnil => ?_
    rw [hnil, List.length_nil] at hlength
    omega
  have hdump : dump = dump.take (M - 1) ++ m :: (middle ++ [last]) := by
    rw [← htail, List.take_append_drop]
  have hM : M = (dump.take (M - 1)).length + 1 := by
    rw [List.length_take]
    omega
  rw [htail]
  generalize dump.take (M - 1) = front at hdump hM
  subst hdump hM
  have htail := hsorted.bounds.2
  constructor
  · intro h d hd d' hd'
    have heq := eq_of_holdsHottest hwarms hdistinct hsorted h
    have hm (d : CacheDumpEntry κ ρ) (hd : d ∈ m :: (middle ++ [last])) :
        d.hitCount = m.hitCount := by
      apply UInt64.toNat_inj.mp
      apply le_antisymm (htail d hd).2
      rw [heq]
      exact (htail d hd).1
    rw [hm d hd, hm d' hd']
  · intro h
    exact holdsHottest_of_eq hwarms hdistinct hsorted (h m (by simp) last (by simp))

/-! ### A dump of three entries -/

def threeEntries (a b c : UInt64) : List (CacheDumpEntry ℕ ℕ) :=
  [⟨1, 7, a, 100⟩, ⟨2, 8, b, 100⟩, ⟨3, 9, c, 100⟩]

theorem warm_holdsHottest_threeEntries :
    HoldsHottest 2 (threeEntries 5 2 2)
      ((⟨10⟩ : CacheWarmer).warm 0 (.entries (threeEntries 5 2 2)) (.new 2 100)).2 := by
  refine (warm_holdsHottest_iff (by decide) (by decide) (by decide) ?_ (by decide)
    (warmsTo_warm _ 0 _ _)).mpr ?_
  · simp [HottestFirst, threeEntries]
  · simp [threeEntries]

/-- The coldest of three entries takes the place of the second. -/
theorem warm_drops_hotter :
    ¬ ∀ (warmer : CacheWarmer) (now M ttl : ℕ) (dump : List (CacheDumpEntry ℕ ℕ)),
      1 ≤ M → M < dump.length → (dump.map CacheDumpEntry.hash).Nodup → HottestFirst dump →
      dump.length ≤ warmer.maxWarmEntries →
      HoldsHottest M dump (warmer.warm now (.entries dump) (.new M ttl)).2 := by
  intro h
  have hsorted : HottestFirst (threeEntries 3 2 1) := by
    simp [HottestFirst, threeEntries]
  obtain ⟨-, -, hhottest⟩ :=
    h ⟨10⟩ 0 2 100 (threeEntries 3 2 1) (by decide) (by decide) (by decide) hsorted (by decide)
  have hcold : (2 : ℕ) ≤ 1 :=
    hhottest ⟨2, 8, 2, 100⟩ (by simp [threeEntries]) (by decide) 3 ⟨9, 1, 0, 100⟩ rfl
  omega

end CacheWarmer

end NeuRust.Cache
