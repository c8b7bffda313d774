import NeuRust.Machine.Table
import Mathlib.Data.List.Sort

/-!
The exact cache and its eviction. A map is iterated over in the order of its entries; times are
nanoseconds. A call reads the clock once, so that it has one `now`.
-/

namespace NeuRust.Cache

structure CacheEntry (ρ : Type*) where
  response : ρ
  hitCount : UInt64
  createdAt : ℕ
  ttl : ℕ

namespace CacheEntry

variable {ρ : Type*}

def isExpired (now : ℕ) (entry : CacheEntry ρ) : Bool :=
  decide (entry.ttl < now - entry.createdAt)

def hits (entry : CacheEntry ρ) : ℕ := entry.hitCount.toNat

/-- `fetch_add` on the hit counter, which wraps around. -/
def hit (entry : CacheEntry ρ) : CacheEntry ρ := { entry with hitCount := entry.hitCount + 1 }

/-- The entries stem from one insertion: they agree but for their hits. -/
structure SameInsertion (e e₀ : CacheEntry ρ) : Prop where
  response : e.response = e₀.response
  createdAt : e.createdAt = e₀.createdAt
  ttl : e.ttl = e₀.ttl

theorem SameInsertion.refl (entry : CacheEntry ρ) : SameInsertion entry entry := ⟨rfl, rfl, rfl⟩

theorem sameInsertion_hit (entry : CacheEntry ρ) : SameInsertion entry.hit entry := ⟨rfl, rfl, rfl⟩

theorem SameInsertion.trans {e e₁ e₂ : CacheEntry ρ} (h : SameInsertion e e₁)
    (h' : SameInsertion e₁ e₂) : SameInsertion e e₂ :=
  ⟨h.response.trans h'.response, h.createdAt.trans h'.createdAt, h.ttl.trans h'.ttl⟩

theorem isExpired_iff {now : ℕ} {entry : CacheEntry ρ} :
    entry.isExpired now = true ↔ entry.ttl < now - entry.createdAt :=
  decide_eq_true_iff

theorem not_isExpired_iff {now : ℕ} {entry : CacheEntry ρ} :
    entry.isExpired now = false ↔ now - entry.createdAt ≤ entry.ttl := by
  rw [isExpired, decide_eq_false_iff_not, not_lt]

theorem isExpired_mono {now later : ℕ} {entry : CacheEntry ρ} (h : entry.isExpired now = true)
    (hle : now ≤ later) : entry.isExpired later = true := by
  rw [isExpired_iff] at h ⊢
  omega

end CacheEntry

/-! ### Eviction -/

section Eviction

variable {κ ρ : Type*} [DecidableEq κ]

def expiredKeys (now : ℕ) (map : Table κ (CacheEntry ρ)) : List κ :=
  (map.entries.filter fun entry => entry.2.isExpired now).map Sigma.fst

/-- Remove the expired entries or, if there are none, the first entry with the fewest hits. -/
def evictLfu (now : ℕ) (map : Table κ (CacheEntry ρ)) : Table κ (CacheEntry ρ) :=
  let expired := expiredKeys now map
  let map := map.eraseAll expired
  if expired ≠ [] then map
  else
    match map.minKey CacheEntry.hits with
    | some key => map.erase key
    | none => map

def evictTargets (now : ℕ) (map : Table κ (CacheEntry ρ)) : List κ :=
  if expiredKeys now map ≠ [] then expiredKeys now map
  else (map.minKey CacheEntry.hits).toList

theorem evictLfu_eq (now : ℕ) (map : Table κ (CacheEntry ρ)) :
    evictLfu now map = map.eraseAll (evictTargets now map) := by
  rw [evictLfu, evictTargets]
  by_cases hexpired : expiredKeys now map = []
  · simp only [hexpired, ne_eq, not_true_eq_false, if_false, AList.eraseAll_nil]
    cases map.minKey CacheEntry.hits <;> rfl
  · simp only [ne_eq, hexpired, not_false_eq_true, if_true]

theorem mem_expiredKeys {now : ℕ} {map : Table κ (CacheEntry ρ)} {k : κ} :
    k ∈ expiredKeys now map ↔ ∃ e, map.lookup k = some e ∧ e.isExpired now = true := by
  rw [expiredKeys, List.mem_map]
  constructor
  · rintro ⟨⟨_, e⟩, hmem, rfl⟩
    obtain ⟨hentry, hexpired⟩ := List.mem_filter.mp hmem
    exact ⟨e, AList.mem_entries_iff.mp hentry, hexpired⟩
  · rintro ⟨e, hlookup, hexpired⟩
    exact ⟨⟨k, e⟩, List.mem_filter.mpr ⟨AList.mem_entries_iff.mpr hlookup, hexpired⟩, rfl⟩

theorem mem_expiredKeys_of_lookup {now : ℕ} {map : Table κ (CacheEntry ρ)} {k : κ}
    {e : CacheEntry ρ} (h : map.lookup k = some e) :
    k ∈ expiredKeys now map ↔ e.isExpired now = true := by
  rw [mem_expiredKeys]
  constructor
  · rintro ⟨e', hlookup, hexpired⟩
    rw [h] at hlookup
    exact Option.some.inj hlookup ▸ hexpired
  · exact fun hexpired => ⟨e, h, hexpired⟩

theorem expiredKeys_eq_nil {now : ℕ} {map : Table κ (CacheEntry ρ)} :
    expiredKeys now map = [] ↔ ∀ k e, map.lookup k = some e → e.isExpired now = false := by
  rw [List.eq_nil_iff_forall_not_mem]
  constructor
  · intro h k e hlookup
    exact Bool.eq_false_iff.mpr fun hexpired => h k (mem_expiredKeys.mpr ⟨e, hlookup, hexpired⟩)
  · intro h k hmem
    obtain ⟨e, hlookup, hexpired⟩ := mem_expiredKeys.mp hmem
    rw [h k e hlookup] at hexpired
    cases hexpired

/-- An eviction removes an unexpired entry only if there is no expired one, and then it is the one
entry removed, with as few hits as any. -/
theorem evictTargets_fresh {now : ℕ} {map : Table κ (CacheEntry ρ)} {k : κ} {e : CacheEntry ρ}
    (hlookup : map.lookup k = some e) (hfresh : e.isExpired now = false)
    (hmem : k ∈ evictTargets now map) :
    (∀ k' e', map.lookup k' = some e' → e'.isExpired now = false) ∧
      (∀ k' e', map.lookup k' = some e' → e.hits ≤ e'.hits) ∧ evictTargets now map = [k] := by
  by_cases hexpired : expiredKeys now map = []
  · rw [evictTargets, if_neg (not_not.mpr hexpired)] at hmem ⊢
    have hmin : map.minKey CacheEntry.hits = some k := Option.mem_toList.mp hmem
    obtain ⟨e', hlookup', hle⟩ := AList.minKey_eq_some hmin
    obtain rfl : e = e' := Option.some.inj (hlookup.symm.trans hlookup')
    refine ⟨expiredKeys_eq_nil.mp hexpired, hle, ?_⟩
    rw [hmin, Option.toList_some]
  · rw [evictTargets, if_pos hexpired, mem_expiredKeys_of_lookup hlookup, hfresh] at hmem
    cases hmem

/-- Without expired entries, an eviction removes the first entry with the fewest hits. -/
theorem exists_victim {now : ℕ} {map : Table κ (CacheEntry ρ)} (h : 0 < map.size)
    (hfresh : ∀ k e, map.lookup k = some e → e.isExpired now = false) :
    ∃ victim e, map.minKey CacheEntry.hits = some victim ∧ map.lookup victim = some e ∧
      evictTargets now map = [victim] := by
  obtain ⟨victim, hmin⟩ : ∃ victim, map.minKey CacheEntry.hits = some victim := by
    apply Option.ne_none_iff_exists'.mp
    exact mt AList.minKey_eq_none.mp (Nat.pos_iff_ne_zero.mp h)
  obtain ⟨e, hlookup, -⟩ := AList.minKey_eq_some hmin
  refine ⟨victim, e, hmin, hlookup, ?_⟩
  rw [evictTargets, expiredKeys_eq_nil.mpr hfresh, hmin]
  rfl

/-- An eviction of a map that is not empty finds something to remove. -/
theorem exists_evictTarget (now : ℕ) {map : Table κ (CacheEntry ρ)} (h : 0 < map.size) :
    ∃ k ∈ evictTargets now map, k ∈ map := by
  by_cases hexpired : expiredKeys now map = []
  · obtain ⟨k, e, -, hlookup, htargets⟩ := exists_victim h (expiredKeys_eq_nil.mp hexpired)
    exact ⟨k, by simp [htargets], AList.mem_of_lookup hlookup⟩
  · obtain ⟨k, hk⟩ := List.exists_mem_of_ne_nil _ hexpired
    obtain ⟨e, hlookup, -⟩ := mem_expiredKeys.mp hk
    refine ⟨k, ?_, AList.mem_of_lookup hlookup⟩
    rwa [evictTargets, if_pos hexpired]

theorem size_evictLfu_of_fresh {now : ℕ} {map : Table κ (CacheEntry ρ)} (h : 0 < map.size)
    (hfresh : ∀ k e, map.lookup k = some e → e.isExpired now = false) :
    (evictLfu now map).size + 1 = map.size := by
  obtain ⟨victim, e, -, hlookup, htargets⟩ := exists_victim h hfresh
  rw [evictLfu_eq, htargets, AList.eraseAll_cons, AList.eraseAll_nil]
  exact AList.size_erase_of_mem (AList.mem_of_lookup hlookup)

theorem size_evictLfu_lt (now : ℕ) {map : Table κ (CacheEntry ρ)} (h : 0 < map.size) :
    (evictLfu now map).size < map.size := by
  obtain ⟨k, htarget, hmem⟩ := exists_evictTarget now h
  rw [evictLfu_eq]
  exact AList.size_eraseAll_lt htarget hmem

theorem lookup_of_lookup_evictLfu {now : ℕ} {map : Table κ (CacheEntry ρ)} {k : κ}
    {e : CacheEntry ρ} (h : (evictLfu now map).lookup k = some e) : map.lookup k = some e := by
  rw [evictLfu_eq] at h
  exact (AList.lookup_of_lookup_eraseAll h).2

/-- What is left of the five attempts to get below the capacity. -/
def makeRoom (now maxEntries : ℕ) : ℕ → Table κ (CacheEntry ρ) → Table κ (CacheEntry ρ)
  | 0, map => map
  | attempts + 1, map =>
      if maxEntries ≤ map.size then makeRoom now maxEntries attempts (evictLfu now map) else map

theorem makeRoom_of_lt {now maxEntries attempts : ℕ} {map : Table κ (CacheEntry ρ)}
    (h : map.size < maxEntries) : makeRoom now maxEntries attempts map = map := by
  cases attempts with
  | zero => rfl
  | succ attempts => exact if_neg (not_le.mpr h)

theorem evictLfu_of_empty {now : ℕ} {map : Table κ (CacheEntry ρ)} (h : map.size = 0) :
    evictLfu now map = map := by
  have hentries : map.entries = [] := List.length_eq_zero_iff.mp h
  have hexpired : expiredKeys now map = [] := by
    rw [expiredKeys, hentries]
    rfl
  rw [evictLfu_eq, evictTargets, if_neg (not_not.mpr hexpired), AList.minKey_eq_none.mpr h]
  rfl

theorem makeRoom_of_empty {now maxEntries attempts : ℕ} {map : Table κ (CacheEntry ρ)}
    (h : map.size = 0) : makeRoom now maxEntries attempts map = map := by
  induction attempts with
  | zero => rfl
  | succ attempts ih =>
      rw [makeRoom, evictLfu_of_empty h, ih]
      exact ite_self map

theorem makeRoom_eq {now maxEntries : ℕ} {map : Table κ (CacheEntry ρ)}
    (h : map.size ≤ max 1 maxEntries) :
    makeRoom now maxEntries 5 map = if maxEntries ≤ map.size then evictLfu now map else map := by
  rw [makeRoom]
  split
  next hfull =>
    rcases Nat.eq_zero_or_pos map.size with hempty | hpos
    · rw [evictLfu_of_empty hempty, makeRoom_of_empty hempty]
    · have hless := size_evictLfu_lt now hpos
      rcases Nat.eq_zero_or_pos (evictLfu now map).size with hempty | hpos'
      · exact makeRoom_of_empty hempty
      · apply makeRoom_of_lt
        omega
  next => rfl

theorem size_makeRoom_lt {now maxEntries : ℕ} {map : Table κ (CacheEntry ρ)}
    (h : map.size ≤ max 1 maxEntries) :
    (makeRoom now maxEntries 5 map).size < max 1 maxEntries := by
  rw [makeRoom_eq h]
  split
  next hfull =>
    rcases Nat.eq_zero_or_pos map.size with hempty | hpos
    · rw [evictLfu_of_empty hempty, hempty]
      exact lt_max_of_lt_left Nat.one_pos
    · exact (size_evictLfu_lt now hpos).trans_le h
  next hroom => exact lt_max_of_lt_right (not_le.mp hroom)

theorem lookup_of_lookup_makeRoom {now maxEntries attempts : ℕ} {map : Table κ (CacheEntry ρ)}
    {k : κ} {e : CacheEntry ρ} (h : (makeRoom now maxEntries attempts map).lookup k = some e) :
    map.lookup k = some e := by
  induction attempts generalizing map with
  | zero => exact h
  | succ attempts ih =>
      rw [makeRoom] at h
      split at h
      · exact lookup_of_lookup_evictLfu (ih h)
      · exact h

end Eviction

/-! ### The cache -/

structure ExactCache (κ ρ : Type*) where
  map : Table κ (CacheEntry ρ)
  maxEntries : ℕ
  defaultTtl : ℕ

structure CacheDumpEntry (κ ρ : Type*) where
  hash : κ
  response : ρ
  hitCount : UInt64
  ttlSecs : ℕ

namespace ExactCache

variable {κ ρ : Type*} [DecidableEq κ]

def new (maxEntries defaultTtl : ℕ) : ExactCache κ ρ := ⟨∅, maxEntries, defaultTtl⟩

/-- Look up a response, and count the hit. An expired entry is removed. -/
def get (now : ℕ) (hash : κ) (cache : ExactCache κ ρ) : Option ρ × ExactCache κ ρ :=
  match cache.map.lookup hash with
  | none => (none, cache)
  | some entry =>
      if entry.isExpired now then (none, { cache with map := cache.map.erase hash })
      else (some entry.response, { cache with map := cache.map.replace hash entry.hit })

def put (now : ℕ) (hash : κ) (entry : CacheEntry ρ) (cache : ExactCache κ ρ) : ExactCache κ ρ :=
  { cache with map := (makeRoom now cache.maxEntries 5 cache.map).insert hash entry }

def insertWithTtl (now : ℕ) (hash : κ) (response : ρ) (ttl : ℕ) (cache : ExactCache κ ρ) :
    ExactCache κ ρ :=
  cache.put now hash ⟨response, 0, now, ttl⟩

def insert (now : ℕ) (hash : κ) (response : ρ) (cache : ExactCache κ ρ) : ExactCache κ ρ :=
  cache.insertWithTtl now hash response cache.defaultTtl

def insertWarm (now : ℕ) (hash : κ) (response : ρ) (hitCount : UInt64) (cache : ExactCache κ ρ) :
    ExactCache κ ρ :=
  cache.put now hash ⟨response, hitCount, now, cache.defaultTtl⟩

/-- The unexpired entries with the most hits, the most hit first. -/
def topByHitCount (now n : ℕ) (cache : ExactCache κ ρ) : List (CacheDumpEntry κ ρ) :=
  let entries := (cache.map.entries.filter fun e => !e.2.isExpired now).map fun e =>
    (⟨e.1, e.2.response, e.2.hitCount, e.2.ttl / 1000000000⟩ : CacheDumpEntry κ ρ)
  (entries.insertionSort fun a b => b.hitCount.toNat ≤ a.hitCount.toNat).take n

def len (cache : ExactCache κ ρ) : ℕ := cache.map.size

def clear (cache : ExactCache κ ρ) : ExactCache κ ρ := { cache with map := ∅ }

/-- What a lookup answers, and what it leaves behind. -/
theorem get_cases (now : ℕ) (hash : κ) (cache : ExactCache κ ρ) :
    (cache.map.lookup hash = none ∧ cache.get now hash = (none, cache)) ∨
    (∃ entry, cache.map.lookup hash = some entry ∧ entry.isExpired now = true ∧
      cache.get now hash = (none, { cache with map := cache.map.erase hash })) ∨
    (∃ entry, cache.map.lookup hash = some entry ∧ entry.isExpired now = false ∧
      cache.get now hash =
        (some entry.response, { cache with map := cache.map.replace hash entry.hit })) := by
  cases hlookup : cache.map.lookup hash with
  | none =>
      refine .inl ⟨rfl, ?_⟩
      rw [get, hlookup]
  | some entry =>
      right
      cases hexpired : entry.isExpired now with
      | true =>
          refine .inl ⟨entry, rfl, hexpired, ?_⟩
          rw [get, hlookup]
          exact if_pos hexpired
      | false =>
          refine .inr ⟨entry, rfl, hexpired, ?_⟩
          rw [get, hlookup]
          exact if_neg (Bool.eq_false_iff.mp hexpired)

theorem get_eq_some {now : ℕ} {hash : κ} {cache : ExactCache κ ρ} {response : ρ}
    (h : (cache.get now hash).1 = some response) :
    ∃ e, cache.map.lookup hash = some e ∧ e.isExpired now = false ∧ e.response = response := by
  obtain ⟨-, hget⟩ | ⟨_, -, -, hget⟩ | ⟨e, hlookup, hfresh, hget⟩ := cache.get_cases now hash
  · rw [hget] at h
    cases h
  · rw [hget] at h
    cases h
  · rw [hget] at h
    exact ⟨e, hlookup, hfresh, Option.some.inj h⟩

theorem get_eq_none {now : ℕ} {hash : κ} {cache : ExactCache κ ρ} {e : CacheEntry ρ}
    (h : (cache.get now hash).1 = none) (hlookup : cache.map.lookup hash = some e) :
    e.isExpired now = true := by
  obtain ⟨hnone, -⟩ | ⟨e', hlookup', hexpired, -⟩ | ⟨_, -, -, hget⟩ := cache.get_cases now hash
  · rw [hnone] at hlookup
    cases hlookup
  · rw [hlookup] at hlookup'
    exact Option.some.inj hlookup' ▸ hexpired
  · rw [hget] at h
    cases h

theorem get_eq_none_iff {now : ℕ} {hash : κ} {cache : ExactCache κ ρ} :
    (cache.get now hash).1 = none ↔
      ∀ e, ¬ (cache.map.lookup hash = some e ∧ e.isExpired now = false) := by
  constructor
  · rintro h e ⟨hlookup, hfresh⟩
    rw [get_eq_none h hlookup] at hfresh
    cases hfresh
  · intro h
    by_contra hsome
    obtain ⟨response, hresponse⟩ := Option.ne_none_iff_exists'.mp hsome
    obtain ⟨e, hlookup, hfresh, -⟩ := get_eq_some hresponse
    exact h e ⟨hlookup, hfresh⟩

theorem get_config (now : ℕ) (hash : κ) (cache : ExactCache κ ρ) :
    (cache.get now hash).2.maxEntries = cache.maxEntries ∧
      (cache.get now hash).2.defaultTtl = cache.defaultTtl := by
  obtain ⟨-, h⟩ | ⟨_, -, -, h⟩ | ⟨_, -, -, h⟩ := cache.get_cases now hash <;> rw [h] <;>
    exact ⟨rfl, rfl⟩

theorem lookup_of_lookup_get {now : ℕ} {hash k : κ} {cache : ExactCache κ ρ} {e : CacheEntry ρ}
    (h : (cache.get now hash).2.map.lookup k = some e) :
    ∃ e₀, cache.map.lookup k = some e₀ ∧ e.SameInsertion e₀ := by
  obtain ⟨-, hget⟩ | ⟨_, -, -, hget⟩ | ⟨entry, hlookup, -, hget⟩ := cache.get_cases now hash
  · rw [hget] at h
    exact ⟨e, h, .refl e⟩
  · rw [hget] at h
    exact ⟨e, AList.lookup_of_lookup_erase h, .refl e⟩
  · rw [hget] at h
    by_cases hk : k = hash
    · subst hk
      rw [AList.lookup_replace_of_mem hlookup] at h
      obtain rfl := Option.some.inj h
      exact ⟨entry, hlookup, entry.sameInsertion_hit⟩
    · rw [AList.lookup_replace_ne _ hk] at h
      exact ⟨e, h, .refl e⟩

theorem size_get_le (now : ℕ) (hash : κ) (cache : ExactCache κ ρ) :
    (cache.get now hash).2.map.size ≤ cache.map.size := by
  obtain ⟨-, h⟩ | ⟨_, -, -, h⟩ | ⟨_, -, -, h⟩ := cache.get_cases now hash <;> rw [h]
  · exact AList.size_erase_le _ _
  · exact (AList.size_replace _ _ _).le

/-- An insertion leaves under its key what it inserted, and elsewhere what was there before. -/
theorem lookup_put_cases {now : ℕ} {hash k : κ} {entry e : CacheEntry ρ} {cache : ExactCache κ ρ}
    (h : (cache.put now hash entry).map.lookup k = some e) :
    (k = hash ∧ e = entry) ∨ (k ≠ hash ∧ cache.map.lookup k = some e) := by
  rcases AList.lookup_insert_cases h with hnew | ⟨hk, hold⟩
  · exact .inl hnew
  · exact .inr ⟨hk, lookup_of_lookup_makeRoom hold⟩

theorem size_put_le {now : ℕ} {hash : κ} {entry : CacheEntry ρ} {cache : ExactCache κ ρ}
    (h : cache.map.size ≤ max 1 cache.maxEntries) :
    (cache.put now hash entry).map.size ≤ max 1 cache.maxEntries :=
  (AList.size_insert_le _ _ _).trans (size_makeRoom_lt h)

theorem lookup_put_ne {now : ℕ} {hash k : κ} {entry : CacheEntry ρ} {cache : ExactCache κ ρ}
    (hbound : cache.map.size ≤ max 1 cache.maxEntries) (hk : k ≠ hash) :
    (cache.put now hash entry).map.lookup k =
      if cache.maxEntries ≤ cache.map.size ∧ k ∈ evictTargets now cache.map then none
      else cache.map.lookup k := by
  have hput : (cache.put now hash entry).map.lookup k =
      (makeRoom now cache.maxEntries 5 cache.map).lookup k := AList.lookup_insert_ne hk
  rw [hput, makeRoom_eq hbound]
  by_cases hfull : cache.maxEntries ≤ cache.map.size
  · rw [if_pos hfull, evictLfu_eq]
    by_cases htarget : k ∈ evictTargets now cache.map
    · rw [if_pos ⟨hfull, htarget⟩, AList.lookup_eraseAll_of_mem htarget]
    · rw [if_neg (mt And.right htarget), AList.lookup_eraseAll_of_notMem htarget]
  · rw [if_neg hfull, if_neg (mt And.left hfull)]

theorem lookup_put_self (now : ℕ) (hash : κ) (entry : CacheEntry ρ) (cache : ExactCache κ ρ) :
    (cache.put now hash entry).map.lookup hash = some entry :=
  AList.lookup_insert _

/-- A new key fills the cache up, and then takes the place of another. -/
theorem size_put_of_new {now : ℕ} {hash : κ} {entry : CacheEntry ρ} {cache : ExactCache κ ρ}
    (hpos : 1 ≤ cache.maxEntries) (hsize : cache.map.size ≤ cache.maxEntries)
    (hnew : hash ∉ cache.map)
    (hfresh : ∀ k e, cache.map.lookup k = some e → e.isExpired now = false) :
    (cache.put now hash entry).map.size = min (cache.map.size + 1) cache.maxEntries := by
  have hnew' : hash ∉ makeRoom now cache.maxEntries 5 cache.map := by
    intro hmem
    obtain ⟨e, hlookup⟩ := AList.exists_lookup hmem
    exact hnew (AList.mem_of_lookup (lookup_of_lookup_makeRoom hlookup))
  show (AList.insert hash entry _).size = _
  rw [AList.size_insert_of_notMem hnew', makeRoom_eq (hsize.trans (le_max_right _ _))]
  split
  next hfull =>
    have hevict := size_evictLfu_of_fresh (hpos.trans hfull) hfresh
    omega
  next => omega

/-- An insertion under another key removes an unexpired entry only from a full map without expired
entries, and then it is the only one removed, and has as few hits as any. -/
theorem put_evicts {now : ℕ} {hash k : κ} {entry e : CacheEntry ρ} {cache : ExactCache κ ρ}
    (hbound : cache.map.size ≤ max 1 cache.maxEntries) (hk : k ≠ hash)
    (hlookup : cache.map.lookup k = some e) (hfresh : e.isExpired now = false)
    (hgone : (cache.put now hash entry).map.lookup k = none) :
    cache.maxEntries ≤ cache.map.size ∧
      (∀ k' e', cache.map.lookup k' = some e' → e'.isExpired now = false) ∧
      (∀ k' e', cache.map.lookup k' = some e' → e.hits ≤ e'.hits) ∧
      ∀ k', k' ≠ hash → k' ≠ k →
        (cache.put now hash entry).map.lookup k' = cache.map.lookup k' := by
  obtain ⟨hfull, htarget⟩ : cache.maxEntries ≤ cache.map.size ∧ k ∈ evictTargets now cache.map := by
    by_contra hkept
    rw [lookup_put_ne hbound hk, if_neg hkept, hlookup] at hgone
    cases hgone
  obtain ⟨hall, hmin, honly⟩ := evictTargets_fresh hlookup hfresh htarget
  refine ⟨hfull, hall, hmin, fun k' hk' hne => ?_⟩
  rw [lookup_put_ne hbound hk', if_neg]
  rintro ⟨-, htarget'⟩
  rw [honly, List.mem_singleton] at htarget'
  exact hne htarget'

end ExactCache

end NeuRust.Cache
