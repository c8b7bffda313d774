import NeuRust.Cache.ExactCache
import NeuRust.Machine.Run

/-!
Sequential runs of the exact cache. Each call is one step at one reading of the clock; between the
calls the clock advances, and the order in which the map is iterated over may change. What a run
may answer is read off its history: `latest` is the last insertion under a key since the last
clear.
-/

namespace NeuRust.Cache

variable {κ ρ : Type*} [DecidableEq κ]

structure ExactState (κ ρ : Type*) where
  cache : ExactCache κ ρ
  now : ℕ

/-- A call, with what it answers, or what happens between calls. -/
inductive ExactOp (κ ρ : Type*)
  | insert (hash : κ) (response : ρ)
  | insertWithTtl (hash : κ) (response : ρ) (ttl : ℕ)
  | insertWarm (hash : κ) (response : ρ) (hitCount : UInt64)
  | get (hash : κ) (answer : Option ρ)
  | clear
  | advance (time : ℕ)
  | reorder

inductive ExactStep : ExactState κ ρ → ExactOp κ ρ → ExactState κ ρ → Prop
  | insert (s : ExactState κ ρ) (hash : κ) (response : ρ) :
      ExactStep s (.insert hash response) { s with cache := s.cache.insert s.now hash response }
  | insertWithTtl (s : ExactState κ ρ) (hash : κ) (response : ρ) (ttl : ℕ) :
      ExactStep s (.insertWithTtl hash response ttl)
        { s with cache := s.cache.insertWithTtl s.now hash response ttl }
  | insertWarm (s : ExactState κ ρ) (hash : κ) (response : ρ) (hitCount : UInt64) :
      ExactStep s (.insertWarm hash response hitCount)
        { s with cache := s.cache.insertWarm s.now hash response hitCount }
  | get (s : ExactState κ ρ) (hash : κ) :
      ExactStep s (.get hash (s.cache.get s.now hash).1)
        { s with cache := (s.cache.get s.now hash).2 }
  | clear (s : ExactState κ ρ) : ExactStep s .clear { s with cache := s.cache.clear }
  | advance (s : ExactState κ ρ) (time : ℕ) :
      ExactStep s (.advance time) { s with now := s.now + time }
  | reorder (s : ExactState κ ρ) (map : Table κ (CacheEntry ρ))
      (h : map.entries.Perm s.cache.map.entries) :
      ExactStep s .reorder { s with cache := { s.cache with map := map } }

def ExactOp.inserted (s : ExactState κ ρ) : ExactOp κ ρ → Option (κ × CacheEntry ρ)
  | .insert hash response => some (hash, ⟨response, 0, s.now, s.cache.defaultTtl⟩)
  | .insertWithTtl hash response ttl => some (hash, ⟨response, 0, s.now, ttl⟩)
  | .insertWarm hash response hitCount =>
      some (hash, ⟨response, hitCount, s.now, s.cache.defaultTtl⟩)
  | .get _ _ | .clear | .advance _ | .reorder => none

/-- The latest insertion under a key, unless a clear came since. -/
def latest (hash : κ) : List (Transition (ExactState κ ρ) (ExactOp κ ρ)) → Option (CacheEntry ρ)
  | [] => none
  | ⟨_, .clear, _⟩ :: _ => none
  | ⟨s, op, _⟩ :: earlier =>
      match op.inserted s with
      | none => latest hash earlier
      | some (key, entry) => if key = hash then some entry else latest hash earlier

theorem ExactStep.of_inserted {s s' : ExactState κ ρ} {op : ExactOp κ ρ} {hash : κ}
    {entry : CacheEntry ρ} (h : ExactStep s op s') (hins : op.inserted s = some (hash, entry)) :
    s' = { s with cache := s.cache.put s.now hash entry } := by
  cases h <;> cases hins <;> rfl

theorem latest_of_inserted {s s' : ExactState κ ρ} {op : ExactOp κ ρ} {hash : κ}
    {entry : CacheEntry ρ} (hins : op.inserted s = some (hash, entry)) (k : κ)
    (earlier : List (Transition (ExactState κ ρ) (ExactOp κ ρ))) :
    latest k (⟨s, op, s'⟩ :: earlier) = if hash = k then some entry else latest k earlier := by
  cases op <;> cases hins <;> rfl

/-- A step inserts, or clears, or at most removes entries and counts hits. -/
theorem ExactStep.cases_op {s s' : ExactState κ ρ} {op : ExactOp κ ρ} (h : ExactStep s op s') :
    (∃ hash entry, op.inserted s = some (hash, entry)) ∨
    (op = .clear ∧ s' = { s with cache := s.cache.clear }) ∨
    (op ≠ .clear ∧ op.inserted s = none ∧ s'.cache.maxEntries = s.cache.maxEntries ∧
      s'.cache.map.size ≤ s.cache.map.size ∧
      ∀ k e, s'.cache.map.lookup k = some e →
        ∃ e₀, s.cache.map.lookup k = some e₀ ∧ e.SameInsertion e₀) := by
  cases h with
  | insert | insertWithTtl | insertWarm => exact .inl ⟨_, _, rfl⟩
  | clear => exact .inr (.inl ⟨rfl, rfl⟩)
  | get hash =>
      refine .inr (.inr ⟨nofun, rfl, (s.cache.get_config s.now hash).1,
        s.cache.size_get_le s.now hash, ?_⟩)
      intro k e hlookup
      exact ExactCache.lookup_of_lookup_get hlookup
  | advance =>
      refine .inr (.inr ⟨nofun, rfl, rfl, le_rfl, ?_⟩)
      intro k e hlookup
      exact ⟨e, hlookup, .refl e⟩
  | reorder map hperm =>
      refine .inr (.inr ⟨nofun, rfl, rfl, (AList.size_perm hperm).le, ?_⟩)
      intro k e hlookup
      exact ⟨e, (AList.lookup_perm hperm k).symm.trans hlookup, .refl e⟩

theorem latest_of_not_inserted {s s' : ExactState κ ρ} {op : ExactOp κ ρ} (hclear : op ≠ .clear)
    (hins : op.inserted s = none) (k : κ)
    (earlier : List (Transition (ExactState κ ρ) (ExactOp κ ρ))) :
    latest k (⟨s, op, s'⟩ :: earlier) = latest k earlier := by
  cases op with
  | insert | insertWithTtl | insertWarm => cases hins
  | clear => exact absurd rfl hclear
  | get | advance | reorder => rfl

/-! ### The invariant of a run -/

/-- The map is bounded, and all it holds are the latest insertions. -/
structure Tracks (maxEntries : ℕ) (steps : List (Transition (ExactState κ ρ) (ExactOp κ ρ)))
    (s : ExactState κ ρ) : Prop where
  capacity : s.cache.maxEntries = maxEntries
  bound : s.cache.map.size ≤ max 1 maxEntries
  held : ∀ k e, s.cache.map.lookup k = some e →
    ∃ e₀, latest k steps = some e₀ ∧ e.SameInsertion e₀

theorem Tracks.start (maxEntries defaultTtl now : ℕ) :
    Tracks maxEntries [] (⟨.new maxEntries defaultTtl, now⟩ : ExactState κ ρ) where
  capacity := rfl
  bound := Nat.zero_le _
  held := by
    intro k e hlookup
    cases hlookup

theorem Tracks.step {maxEntries : ℕ} {steps : List (Transition (ExactState κ ρ) (ExactOp κ ρ))}
    {s s' : ExactState κ ρ} {op : ExactOp κ ρ} (hs : Tracks maxEntries steps s)
    (h : ExactStep s op s') : Tracks maxEntries (⟨s, op, s'⟩ :: steps) s' := by
  obtain ⟨hash, entry, hins⟩ | ⟨rfl, rfl⟩ | ⟨hclear, hins, hconfig, hsize, hkept⟩ := h.cases_op
  · have hput := h.of_inserted hins
    refine ⟨?_, ?_, ?_⟩
    · rw [hput]
      exact hs.capacity
    · rw [hput, ← hs.capacity]
      apply ExactCache.size_put_le
      rw [hs.capacity]
      exact hs.bound
    · intro k e hlookup
      rw [latest_of_inserted hins]
      rw [hput] at hlookup
      rcases ExactCache.lookup_put_cases hlookup with ⟨rfl, rfl⟩ | ⟨hk, hold⟩
      · exact ⟨e, if_pos rfl, .refl e⟩
      · rw [if_neg (Ne.symm hk)]
        exact hs.held k e hold
  · refine ⟨hs.capacity, Nat.zero_le _, ?_⟩
    intro k e hlookup
    cases hlookup
  · refine ⟨hconfig.trans hs.capacity, hsize.trans hs.bound, ?_⟩
    intro k e hlookup
    rw [latest_of_not_inserted hclear hins]
    obtain ⟨e₀, hlookup₀, hsame₀⟩ := hkept k e hlookup
    obtain ⟨e₁, hlatest, hsame₁⟩ := hs.held k e₀ hlookup₀
    exact ⟨e₁, hlatest, hsame₀.trans hsame₁⟩

theorem Tracks.of_run {maxEntries defaultTtl now : ℕ}
    {steps : List (Transition (ExactState κ ρ) (ExactOp κ ρ))} {s : ExactState κ ρ}
    (run : Run ExactStep ⟨.new maxEntries defaultTtl, now⟩ steps s) :
    Tracks maxEntries steps s := by
  apply run.invariant_of_history (.start maxEntries defaultTtl now)
  intro steps s a s' _ hs h
  exact hs.step h

theorem ExactStep.get_answer {s s' : ExactState κ ρ} {hash : κ} {answer : Option ρ}
    (h : ExactStep s (.get hash answer) s') : (s.cache.get s.now hash).1 = answer := by
  cases h
  rfl

/-- In every state that a run from the empty cache reaches: the cache is bounded; a lookup finds
only the response of the latest insertion, within its time to live; and an insertion takes an
unexpired entry of another key only from a full cache without expired entries, only that one, and
none with more hits than another. -/
theorem exact_cache_bounded_fresh_lfu {maxEntries defaultTtl now : ℕ}
    {steps : List (Transition (ExactState κ ρ) (ExactOp κ ρ))} {s : ExactState κ ρ}
    (run : Run ExactStep ⟨.new maxEntries defaultTtl, now⟩ steps s) :
    s.cache.len ≤ max 1 maxEntries ∧
    (∀ hash response s', ExactStep s (.get hash (some response)) s' →
      ∃ e, latest hash steps = some e ∧ e.response = response ∧ s.now ≤ e.createdAt + e.ttl) ∧
    (∀ op hash entry s', op.inserted s = some (hash, entry) → ExactStep s op s' →
      ∀ k e, k ≠ hash → s.cache.map.lookup k = some e → e.isExpired s.now = false →
        s'.cache.map.lookup k = none →
        maxEntries ≤ s.cache.len ∧
        (∀ k' e', s.cache.map.lookup k' = some e' → e'.isExpired s.now = false) ∧
        (∀ k' e', s.cache.map.lookup k' = some e' → e.hits ≤ e'.hits) ∧
        ∀ k', k' ≠ hash → k' ≠ k → s'.cache.map.lookup k' = s.cache.map.lookup k') := by
  have hs := Tracks.of_run run
  refine ⟨hs.bound, ?_, ?_⟩
  · intro hash response s' h
    obtain ⟨e, hlookup, hfresh, rfl⟩ := ExactCache.get_eq_some h.get_answer
    obtain ⟨e₀, hlatest, hsame⟩ := hs.held hash e hlookup
    refine ⟨e₀, hlatest, hsame.response.symm, ?_⟩
    rw [CacheEntry.not_isExpired_iff, hsame.createdAt, hsame.ttl] at hfresh
    omega
  · intro op hash entry s' hins h k e hk hlookup hfresh hgone
    rw [h.of_inserted hins] at hgone ⊢
    have hbound : s.cache.map.size ≤ max 1 s.cache.maxEntries := by
      rw [hs.capacity]
      exact hs.bound
    have hevicts := ExactCache.put_evicts hbound hk hlookup hfresh hgone
    rw [hs.capacity] at hevicts
    exact hevicts

/-- A full cache of one entry answers with it, and gives it up for another key. -/
theorem exact_cache_of_one :
    let start : ExactState ℕ Char := ⟨.new 1 10, 0⟩
    let full : ExactState ℕ Char := { start with cache := start.cache.insert 0 1 'a' }
    full.cache.len ≤ max 1 1 ∧
      (∃ e, latest 1 [⟨start, .insert 1 'a', full⟩] = some e ∧ e.response = 'a' ∧
        full.now ≤ e.createdAt + e.ttl) ∧
      (full.cache.insert 0 2 'b').map.lookup 1 = none ∧ 1 ≤ full.cache.len := by
  intro start full
  have run : Run ExactStep start [⟨start, .insert 1 'a', full⟩] full :=
    .snoc .nil (.insert start 1 'a')
  obtain ⟨hlen, hget, hinsert⟩ := exact_cache_bounded_fresh_lfu run
  have hgone : (full.cache.insert 0 2 'b').map.lookup 1 = none := by decide +kernel
  have hfull : 1 ≤ full.cache.len :=
    (hinsert _ 2 _ _ rfl (.insert full 2 'b') 1 ⟨'a', 0, 0, 10⟩ (by decide) rfl rfl hgone).1
  exact ⟨hlen, hget 1 'a' _ (.get full 1), hgone, hfull⟩

end NeuRust.Cache
