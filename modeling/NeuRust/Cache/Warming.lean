import NeuRust.Cache.ExactCache

/-!
Dumping the hottest entries to a file and loading them on startup. Of the file only the entries
that it decodes to are kept; a dump is written to a second file first and then renamed, so that a
failed one leaves the file as it was.
-/

namespace NeuRust.Cache

inductive DumpFile (κ ρ : Type*)
  | absent
  | unreadable
  | entries (dump : List (CacheDumpEntry κ ρ))

structure CacheWarmer where
  maxWarmEntries : ℕ

namespace CacheWarmer

variable {κ ρ : Type*} [DecidableEq κ]

def load (now : ℕ) (dump : List (CacheDumpEntry κ ρ)) (cache : ExactCache κ ρ) : ExactCache κ ρ :=
  dump.foldl (fun cache e => cache.insertWarm now e.hash e.response e.hitCount) cache

def loaded (warmer : CacheWarmer) : DumpFile κ ρ → List (CacheDumpEntry κ ρ)
  | .absent | .unreadable => []
  | .entries dump => dump.take warmer.maxWarmEntries

/-- Load the file on startup; the number of entries loaded, or nothing after an error. -/
def warm (warmer : CacheWarmer) (now : ℕ) (file : DumpFile κ ρ) (cache : ExactCache κ ρ) :
    Option ℕ × ExactCache κ ρ :=
  match file with
  | .absent => (some 0, cache)
  | .unreadable => (none, cache)
  | .entries dump =>
      let dump := dump.take warmer.maxWarmEntries
      (some dump.length, load now dump cache)

/-- Write the hottest entries, unless there are none. Whether the writing succeeds is given. -/
def dumpOnce (warmer : CacheWarmer) (now : ℕ) (written : Bool) (cache : ExactCache κ ρ)
    (file : DumpFile κ ρ) : Bool × DumpFile κ ρ :=
  let topEntries := cache.topByHitCount now warmer.maxWarmEntries
  if topEntries.isEmpty then (true, file)
  else if written then (true, .entries topEntries)
  else (false, file)

theorem warm_eq (warmer : CacheWarmer) (now : ℕ) (file : DumpFile κ ρ) (cache : ExactCache κ ρ) :
    (warmer.warm now file cache).2 = load now (warmer.loaded file) cache := by
  cases file <;> rfl

omit [DecidableEq κ] in
theorem mem_of_mem_loaded {warmer : CacheWarmer} {file : DumpFile κ ρ} {d : CacheDumpEntry κ ρ}
    (h : d ∈ warmer.loaded file) : ∃ dump, file = .entries dump ∧ d ∈ dump := by
  cases file with
  | absent | unreadable => cases h
  | entries dump => exact ⟨dump, rfl, List.mem_of_mem_take h⟩

/-- What a cache holds after a load comes from the dump, or was there before. -/
theorem lookup_of_load {now : ℕ} {dump : List (CacheDumpEntry κ ρ)} {cache : ExactCache κ ρ}
    {k : κ} {e : CacheEntry ρ} (h : (load now dump cache).map.lookup k = some e) :
    (∃ d ∈ dump, d.hash = k ∧
        e = ⟨d.response, d.hitCount, now, cache.defaultTtl⟩) ∨
      cache.map.lookup k = some e := by
  induction dump generalizing cache with
  | nil => exact .inr h
  | cons d dump ih =>
      rcases ih h with ⟨d', hd', hhash, he⟩ | hbefore
      · exact .inl ⟨d', List.mem_cons_of_mem d hd', hhash, he⟩
      · rcases ExactCache.lookup_put_cases hbefore with ⟨rfl, rfl⟩ | ⟨-, hold⟩
        · exact .inl ⟨d, List.mem_cons_self, rfl, rfl⟩
        · exact .inr hold

end CacheWarmer

theorem ExactCache.mem_topByHitCount {κ ρ : Type*} [DecidableEq κ] {now n : ℕ}
    {cache : ExactCache κ ρ} {d : CacheDumpEntry κ ρ} (h : d ∈ cache.topByHitCount now n) :
    ∃ e, cache.map.lookup d.hash = some e ∧ e.isExpired now = false ∧ d.response = e.response ∧
      d.hitCount = e.hitCount := by
  have hmem := (List.mem_insertionSort _).mp (List.mem_of_mem_take h)
  obtain ⟨⟨k, e⟩, hfilter, rfl⟩ := List.mem_map.mp hmem
  obtain ⟨hentry, hfresh⟩ := List.mem_filter.mp hfilter
  exact ⟨e, AList.mem_entries_iff.mp hentry, Bool.not_eq_true' _ ▸ hfresh, rfl, rfl⟩

/-- What a dump leaves in the file was there before, or is in the cache and has not expired. -/
theorem CacheWarmer.mem_of_dumpOnce {κ ρ : Type*} [DecidableEq κ] {warmer : CacheWarmer}
    {now : ℕ} {written : Bool} {cache : ExactCache κ ρ} {file : DumpFile κ ρ}
    {dump : List (CacheDumpEntry κ ρ)}
    (h : (warmer.dumpOnce now written cache file).2 = .entries dump) :
    file = .entries dump ∨ ∀ d ∈ dump, ∃ e, cache.map.lookup d.hash = some e ∧
      e.isExpired now = false ∧ d.response = e.response := by
  rw [dumpOnce] at h
  split at h
  next => exact .inl h
  next =>
    split at h
    next =>
      obtain rfl := DumpFile.entries.inj h
      right
      intro d hd
      obtain ⟨e, hlookup, hfresh, hresponse, -⟩ := ExactCache.mem_topByHitCount hd
      exact ⟨e, hlookup, hfresh, hresponse⟩
    next => exact .inl h

end NeuRust.Cache
