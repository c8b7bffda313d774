import NeuRust.Cache.WarmStart

/-!
From a cache to the dump file and back into an empty cache. The file is what it decodes to, so that
encoding and decoding cancel out.
-/

namespace NeuRust.Cache

variable {κ ρ : Type*}

def CacheEntry.contents (entry : CacheEntry ρ) : ρ × UInt64 := (entry.response, entry.hitCount)

def CacheEntry.toDump (k : κ) (entry : CacheEntry ρ) : CacheDumpEntry κ ρ :=
  ⟨k, entry.response, entry.hitCount, entry.ttl / 1000000000⟩

namespace ExactCache

open CacheWarmer (HottestFirst)

def freshEntries (now : ℕ) (cache : ExactCache κ ρ) : List (Σ _ : κ, CacheEntry ρ) :=
  cache.map.entries.filter fun e => !e.2.isExpired now

def hottestEntries (now : ℕ) (cache : ExactCache κ ρ) : List (CacheDumpEntry κ ρ) :=
  ((cache.freshEntries now).map fun e => e.2.toDump e.1).insertionSort
    fun a b => b.hitCount.toNat ≤ a.hitCount.toNat

variable {now n : ℕ} {cache : ExactCache κ ρ} {k : κ} {e : CacheEntry ρ} {d : CacheDumpEntry κ ρ}

theorem topByHitCount_eq : cache.topByHitCount now n = (cache.hottestEntries now).take n := rfl

theorem perm_hottestEntries : (cache.hottestEntries now).Perm
    ((cache.freshEntries now).map fun e => e.2.toDump e.1) :=
  List.perm_insertionSort _ _

theorem length_hottestEntries :
    (cache.hottestEntries now).length = (cache.freshEntries now).length := by
  rw [perm_hottestEntries.length_eq, List.length_map]

theorem hottestFirst_hottestEntries : HottestFirst (cache.hottestEntries now) := by
  let r : CacheDumpEntry κ ρ → CacheDumpEntry κ ρ → Prop :=
    fun a b => b.hitCount.toNat ≤ a.hitCount.toNat
  have htotal : Std.Total r := ⟨fun a b => le_total _ _⟩
  have htrans : IsTrans (CacheDumpEntry κ ρ) r := ⟨fun a b c hab hbc => hbc.trans hab⟩
  exact List.pairwise_insertionSort r _

theorem nodup_hottestEntries : ((cache.hottestEntries now).map CacheDumpEntry.hash).Nodup := by
  rw [(perm_hottestEntries.map CacheDumpEntry.hash).nodup_iff, List.map_map]
  exact cache.map.keys_nodup.sublist (List.filter_sublist.map Sigma.fst)

variable [DecidableEq κ]

def freshContents (now : ℕ) (cache : ExactCache κ ρ) (k : κ) : Option (ρ × UInt64) :=
  ((cache.map.lookup k).filter fun e => !e.isExpired now).map CacheEntry.contents

theorem freshContents_eq_some_iff {c : ρ × UInt64} : cache.freshContents now k = some c ↔
    ∃ e, cache.map.lookup k = some e ∧ e.isExpired now = false ∧ e.contents = c := by
  simp [freshContents, Option.filter_eq_some_iff, and_assoc]

theorem mem_hottestEntries : d ∈ cache.hottestEntries now ↔
    ∃ e, cache.map.lookup d.hash = some e ∧ e.isExpired now = false ∧ d = e.toDump d.hash := by
  rw [perm_hottestEntries.mem_iff, List.mem_map]
  constructor
  · rintro ⟨⟨k, e⟩, hmem, rfl⟩
    obtain ⟨hentry, hfresh⟩ := List.mem_filter.mp hmem
    exact ⟨e, AList.mem_entries_iff.mp hentry, by simpa using hfresh, rfl⟩
  · rintro ⟨e, hlookup, hfresh, hd⟩
    refine ⟨⟨d.hash, e⟩, List.mem_filter.mpr ⟨AList.mem_entries_iff.mpr hlookup, ?_⟩, hd.symm⟩
    simpa using hfresh

/-- As many unexpired entries as asked for, if there are so many, the hottest ones first; none that
was left out is hotter than one of them. -/
structure IsTop (now n : ℕ) (cache : ExactCache κ ρ) (top : List (CacheDumpEntry κ ρ)) :
    Prop where
  length : top.length = min n (cache.freshEntries now).length
  distinct : (top.map CacheDumpEntry.hash).Nodup
  fresh : ∀ d ∈ top, ∃ e, cache.map.lookup d.hash = some e ∧ e.isExpired now = false ∧
    d = e.toDump d.hash
  sorted : HottestFirst top
  hottest : ∀ k e, cache.map.lookup k = some e → e.isExpired now = false →
    k ∉ top.map CacheDumpEntry.hash → ∀ d ∈ top, e.hits ≤ d.hitCount.toNat

theorem isTop_topByHitCount (now n : ℕ) (cache : ExactCache κ ρ) :
    IsTop now n cache (cache.topByHitCount now n) := by
  have hsublist : (cache.topByHitCount now n).Sublist (cache.hottestEntries now) :=
    List.take_sublist n _
  refine ⟨?_, ?_, ?_, ?_, ?_⟩
  · rw [topByHitCount_eq, List.length_take, length_hottestEntries]
  · exact nodup_hottestEntries.sublist (hsublist.map _)
  · exact fun d hd => mem_hottestEntries.mp (hsublist.mem hd)
  · exact hottestFirst_hottestEntries.sublist hsublist
  · intro k e hlookup hfresh hout d hd
    have hmem : e.toDump k ∈ cache.hottestEntries now :=
      mem_hottestEntries.mpr ⟨e, hlookup, hfresh, rfl⟩
    -- it comes after what was taken
    have hrest : e.toDump k ∈ (cache.hottestEntries now).drop n := by
      rw [← List.take_append_drop n (cache.hottestEntries now), List.mem_append] at hmem
      refine hmem.resolve_left fun htaken => hout ?_
      exact List.mem_map.mpr ⟨_, htaken, rfl⟩
    have hsorted : (cache.hottestEntries now).Pairwise
        fun d d' => d'.hitCount.toNat ≤ d.hitCount.toNat := hottestFirst_hottestEntries
    exact hsorted.rel_of_mem_take_of_mem_drop hd hrest

end ExactCache

namespace CacheWarmer

open ExactCache

variable [DecidableEq κ] {now later M ttl : ℕ} {cache : ExactCache κ ρ}

/-- What was loaded from all unexpired entries into a cache that is large enough. -/
theorem Loads.contents_hottestEntries {warmed : ExactCache κ ρ}
    (h : Loads later (.new M ttl) (cache.hottestEntries now) warmed) (hpos : 1 ≤ M)
    (hfits : (cache.freshEntries now).length ≤ M) (k : κ) :
    (warmed.map.lookup k).map CacheEntry.contents = cache.freshContents now k := by
  rw [← length_hottestEntries] at hfits
  ext c
  rw [Option.map_eq_some_iff, freshContents_eq_some_iff]
  simp only [h.lookup_eq_some_iff hpos nodup_hottestEntries hfits, mem_hottestEntries]
  constructor
  · rintro ⟨-, ⟨d, ⟨e, hlookup, hfresh, hd⟩, rfl, rfl⟩, rfl⟩
    refine ⟨e, hlookup, hfresh, ?_⟩
    rw [hd]
    rfl
  · rintro ⟨e, hlookup, hfresh, rfl⟩
    exact ⟨_, ⟨e.toDump k, ⟨e, hlookup, hfresh, rfl⟩, rfl, rfl⟩, rfl⟩

/-- All unexpired entries are dumped, and all of them are loaded into an empty cache that is large
enough, which then holds their responses and hits, in whatever order it is iterated over. A dump of
fewer entries takes the hottest. -/
theorem dumpOnce_warm_round_trip {warmer : CacheWarmer} (file : DumpFile κ ρ)
    (hsome : 1 ≤ (cache.freshEntries now).length)
    (hmax : (cache.freshEntries now).length ≤ warmer.maxWarmEntries)
    (hfits : (cache.freshEntries now).length ≤ M) :
    (warmer.dumpOnce now true cache file).1 = true ∧
      (warmer.warm later (warmer.dumpOnce now true cache file).2 (.new M ttl)).1 =
        some (cache.freshEntries now).length ∧
      (∀ warmed, WarmsTo warmer later (warmer.dumpOnce now true cache file).2 (.new M ttl) warmed →
        ∀ k, (warmed.map.lookup k).map CacheEntry.contents = cache.freshContents now k) ∧
      ∀ n, IsTop now n cache (cache.topByHitCount now n) := by
  have htop : cache.topByHitCount now warmer.maxWarmEntries = cache.hottestEntries now := by
    rw [topByHitCount_eq, List.take_of_length_le]
    rwa [length_hottestEntries]
  have hne : ¬ (cache.hottestEntries now).isEmpty = true := by
    rw [List.isEmpty_iff, ← List.length_eq_zero_iff, length_hottestEntries]
    omega
  have hdump : warmer.dumpOnce now true cache file =
      (true, .entries (cache.hottestEntries now)) := by
    rw [dumpOnce, htop, if_neg hne, if_pos rfl]
  have hall : (cache.hottestEntries now).take warmer.maxWarmEntries = cache.hottestEntries now := by
    rw [← topByHitCount_eq, htop]
  rw [hdump]
  refine ⟨rfl, ?_, ?_, fun n => isTop_topByHitCount now n cache⟩
  · show some ((cache.hottestEntries now).take warmer.maxWarmEntries).length = _
    rw [hall, length_hottestEntries]
  · intro warmed hwarms
    rw [WarmsTo, loaded, hall] at hwarms
    exact hwarms.contents_hottestEntries (hsome.trans hfits) hfits

def twoEntries : ExactCache ℕ ℕ :=
  (((ExactCache.new 10 100).insert 0 1 7).insert 0 2 8).get 0 2 |>.2

theorem dumpOnce_warm_twoEntries :
    (((⟨10⟩ : CacheWarmer).warm 5 ((⟨10⟩ : CacheWarmer).dumpOnce 0 true twoEntries .absent).2
      (.new 2 100)).2.map.lookup 2).map CacheEntry.contents = some (8, 1) := by
  have hcount : (twoEntries.freshEntries 0).length = 2 := rfl
  have hsome : 1 ≤ (twoEntries.freshEntries 0).length := by simp [hcount]
  have hmax : (twoEntries.freshEntries 0).length ≤ (⟨10⟩ : CacheWarmer).maxWarmEntries := by
    simp [hcount]
  obtain ⟨-, -, hcontents, -⟩ := dumpOnce_warm_round_trip .absent hsome hmax hcount.le
  exact hcontents _ (warmsTo_warm _ 5 _ _) 2

end CacheWarmer

end NeuRust.Cache
