import NeuRust.Cache.ExactCache

/-!
Insertions under a key that the cache already holds. Room is made before it is known whether there
will be an entry more, so that a refresh of a full cache can cost another key its entry.
-/

namespace NeuRust.Cache

variable {κ ρ : Type*} [DecidableEq κ]

namespace ExactCache

/-- Every other unexpired entry is still there, as it was. -/
def SparesOthers (now : ℕ) (hash : κ) (before after : ExactCache κ ρ) : Prop :=
  ∀ k e, k ≠ hash → before.map.lookup k = some e → e.isExpired now = false →
    after.map.lookup k = some e

/-- A refresh has no other entry to evict: the cache is not full, or an expired entry makes room, or
the entry with the fewest hits is the one that is refreshed. -/
def RefreshesFreely (now : ℕ) (hash : κ) (cache : ExactCache κ ρ) : Prop :=
  cache.map.size < cache.maxEntries ∨
    (∃ k e, cache.map.lookup k = some e ∧ e.isExpired now = true) ∨
    cache.map.minKey CacheEntry.hits = some hash

variable {now : ℕ} {hash : κ} {cache : ExactCache κ ρ}

/-- The other unexpired entries are spared exactly if none of them is to be evicted. -/
theorem sparesOthers_put_iff (hbound : cache.map.size ≤ max 1 cache.maxEntries)
    (entry : CacheEntry ρ) :
    SparesOthers now hash cache (cache.put now hash entry) ↔
      ∀ k e, k ≠ hash → cache.map.lookup k = some e → e.isExpired now = false →
        ¬ (cache.maxEntries ≤ cache.map.size ∧ k ∈ evictTargets now cache.map) := by
  constructor
  · intro h k e hk hlookup hfresh htarget
    have hkept := h k e hk hlookup hfresh
    rw [lookup_put_ne hbound hk, if_pos htarget] at hkept
    cases hkept
  · intro h k e hk hlookup hfresh
    rw [lookup_put_ne hbound hk, if_neg (h k e hk hlookup hfresh), hlookup]

theorem sparesOthers_put_iff_refreshesFreely (hsize : cache.map.size ≤ cache.maxEntries)
    (hpresent : hash ∈ cache.map) (entry : CacheEntry ρ) :
    SparesOthers now hash cache (cache.put now hash entry) ↔ cache.RefreshesFreely now hash := by
  rw [sparesOthers_put_iff (hsize.trans (le_max_right _ _))]
  constructor
  · intro h
    by_contra hnot
    obtain ⟨hfull, hexpired, hmin⟩ : ¬ cache.map.size < cache.maxEntries ∧
        (¬ ∃ k e, cache.map.lookup k = some e ∧ e.isExpired now = true) ∧
        cache.map.minKey CacheEntry.hits ≠ some hash := by
      simpa only [RefreshesFreely, not_or] using hnot
    have hfresh (k : κ) (e : CacheEntry ρ) (hlookup : cache.map.lookup k = some e) :
        e.isExpired now = false :=
      Bool.eq_false_iff.mpr fun hexp => hexpired ⟨k, e, hlookup, hexp⟩
    obtain ⟨victim, e, hvictim, hlookup, htargets⟩ :=
      exists_victim (AList.size_pos_of_mem hpresent) hfresh
    have hne : victim ≠ hash := by
      rintro rfl
      exact hmin hvictim
    exact h victim e hne hlookup (hfresh victim e hlookup) ⟨not_lt.mp hfull, by simp [htargets]⟩
  · rintro hfree k e hk hlookup hfresh ⟨hfull, htarget⟩
    obtain ⟨hall, -, honly⟩ := evictTargets_fresh hlookup hfresh htarget
    rcases hfree with hroom | ⟨k', e', hlookup', hexpired⟩ | hmin
    · exact absurd hroom hfull.not_gt
    · rw [hall k' e' hlookup'] at hexpired
      cases hexpired
    · rw [evictTargets, expiredKeys_eq_nil.mpr hall, hmin] at honly
      exact hk (List.singleton_inj.mp honly).symm

/-- Each of the three insertions spares the other unexpired entries exactly if the refresh has no
other entry to evict. -/
theorem refresh_sparesOthers_iff (hsize : cache.map.size ≤ cache.maxEntries)
    (hpresent : hash ∈ cache.map) (response : ρ) (ttl : ℕ) (hitCount : UInt64) :
    (SparesOthers now hash cache (cache.insert now hash response) ↔
        cache.RefreshesFreely now hash) ∧
      (SparesOthers now hash cache (cache.insertWithTtl now hash response ttl) ↔
        cache.RefreshesFreely now hash) ∧
      (SparesOthers now hash cache (cache.insertWarm now hash response hitCount) ↔
        cache.RefreshesFreely now hash) := by
  have hput (entry : CacheEntry ρ) :
      SparesOthers now hash cache (cache.put now hash entry) ↔ cache.RefreshesFreely now hash :=
    sparesOthers_put_iff_refreshesFreely hsize hpresent entry
  exact ⟨hput _, hput _, hput _⟩

/-! ### A full cache of two entries -/

def oneHit : ExactCache ℕ ℕ :=
  (((ExactCache.new 2 100).insert 0 1 7).insert 0 2 8).get 0 2 |>.2

theorem refresh_oneHit_spares : SparesOthers 0 1 oneHit (oneHit.insert 0 1 9) := by
  have hsize : oneHit.map.size ≤ oneHit.maxEntries := le_rfl
  have hpresent : 1 ∈ oneHit.map := AList.mem_of_lookup (e := ⟨7, 0, 0, 100⟩) rfl
  obtain ⟨hinsert, -, -⟩ := refresh_sparesOthers_iff hsize hpresent 9 0 0
  exact hinsert.mpr (.inr (.inr rfl))

theorem refresh_oneHit_evicts :
    ¬ ∀ (now : ℕ) (hash : ℕ) (cache : ExactCache ℕ ℕ) (response : ℕ), 1 ≤ cache.maxEntries →
      cache.map.size ≤ cache.maxEntries → hash ∈ cache.map →
      SparesOthers now hash cache (cache.insert now hash response) := by
  intro h
  have hpresent : 2 ∈ oneHit.map := AList.mem_of_lookup (e := ⟨8, 1, 0, 100⟩) rfl
  have hkept : (oneHit.insert 0 2 9).map.lookup 1 = some ⟨7, 0, 0, 100⟩ :=
    h 0 2 oneHit 9 (by decide) le_rfl hpresent 1 _ (by decide) rfl rfl
  have hgone : (oneHit.insert 0 2 9).map.lookup 1 = none := rfl
  rw [hgone] at hkept
  cases hkept

end ExactCache

end NeuRust.Cache
