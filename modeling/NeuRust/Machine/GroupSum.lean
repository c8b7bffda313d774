import NeuRust.Machine.Table
import Mathlib.Data.List.Sort
import Mathlib.Data.List.Dedup
import Mathlib.Data.List.Chain
import Mathlib.Algebra.BigOperators.Group.List.Basic

/-!
Rows grouped by a key, each group with the sum of its values, in ascending order of the keys. A
hash map that adds up the values row by row holds the same sums.
-/

namespace NeuRust

open List

variable {α β τ σ M : Type*} [LinearOrder τ] [LinearOrder σ] [AddCommMonoid M]

def groupKeys (key : α → τ) (rows : List α) : List τ :=
  (rows.map key).dedup.insertionSort (· ≤ ·)

def groupTotal (key : α → τ) (value : α → M) (rows : List α) (k : τ) : M :=
  ((rows.filter fun r => key r = k).map value).sum

def groupSums (key : α → τ) (value : α → M) (rows : List α) : List (τ × M) :=
  (groupKeys key rows).map fun k => (k, groupTotal key value rows k)

variable {key key' : α → τ} {value : α → M} {rows rows' : List α}

/-! ### The keys -/

theorem mem_groupKeys {k : τ} : k ∈ groupKeys key rows ↔ ∃ r ∈ rows, key r = k := by
  rw [groupKeys, mem_insertionSort, mem_dedup, mem_map]

/-- An ascending list without repetitions is given by its members. -/
theorem pairwise_insertionSort_lt {l : List τ} (h : l.Nodup) :
    (l.insertionSort (· ≤ ·)).Pairwise (· < ·) := by
  have hnodup := (perm_insertionSort (· ≤ ·) l).nodup_iff.mpr h
  exact (pairwise_insertionSort (· ≤ ·) l).imp₂ (fun _ _ hle hne => lt_of_le_of_ne hle hne) hnodup

theorem groupKeys_pairwise (key : α → τ) (rows : List α) : (groupKeys key rows).Pairwise (· < ·) :=
  pairwise_insertionSort_lt (nodup_dedup _)

theorem eq_groupKeys {l : List τ} (hl : l.Pairwise (· < ·))
    (hmem : ∀ k, k ∈ l ↔ ∃ r ∈ rows, key r = k) : l = groupKeys key rows := by
  apply hl.eq_of_mem_iff (groupKeys_pairwise key rows)
  intro k
  rw [hmem, mem_groupKeys]

theorem groupKeys_comp {f : τ → σ} (hf : StrictMono f) :
    groupKeys (f ∘ key) rows = (groupKeys key rows).map f := by
  symm
  apply eq_groupKeys
  · exact pairwise_map.mpr ((groupKeys_pairwise key rows).imp fun hlt => hf hlt)
  · intro k
    simp [mem_groupKeys]

theorem length_groupKeys (key : α → τ) (rows : List α) :
    (groupKeys key rows).length = (rows.map key).dedup.length :=
  length_insertionSort _ _

/-! ### The sums -/

@[simp] theorem groupTotal_nil (k : τ) : groupTotal key value [] k = 0 := rfl

theorem groupTotal_cons_of_eq (r : α) (rows : List α) :
    groupTotal key value (r :: rows) (key r) = value r + groupTotal key value rows (key r) := by
  rw [groupTotal, filter_cons_of_pos (by simp), map_cons, sum_cons, groupTotal]

theorem groupTotal_cons_of_ne {r : α} {k : τ} (h : key r ≠ k) (rows : List α) :
    groupTotal key value (r :: rows) k = groupTotal key value rows k := by
  rw [groupTotal, filter_cons_of_neg (by simpa using h), groupTotal]

theorem groupTotal_perm (h : rows.Perm rows') (k : τ) :
    groupTotal key value rows k = groupTotal key value rows' k :=
  ((h.filter _).map value).sum_eq

theorem groupTotal_eq_zero {k : τ} (h : ∀ r ∈ rows, key r ≠ k) :
    groupTotal key value rows k = 0 := by
  rw [groupTotal, filter_eq_nil_iff.mpr (by simpa using h)]
  rfl

theorem groupTotal_filter_add (p : α → Bool) (k : τ) :
    groupTotal key value (rows.filter p) k + groupTotal key value (rows.filter fun r => !p r) k =
      groupTotal key value rows k := by
  have hperm : groupTotal key value (rows.filter p ++ rows.filter fun r => !p r) k =
      groupTotal key value rows k :=
    groupTotal_perm (filter_append_perm p rows) k
  rw [← hperm, groupTotal, groupTotal, groupTotal, filter_append, map_append, sum_append]

/-- Every row is in the group of its key, for any list of keys that has each of them once. -/
theorem sum_groupTotal {keys : List τ} (hnodup : keys.Nodup) (hkeys : ∀ r ∈ rows, key r ∈ keys) :
    (keys.map (groupTotal key value rows)).sum = (rows.map value).sum := by
  induction rows with
  | nil => exact sum_eq_zero (forall_mem_map.mpr fun k _ => groupTotal_nil k)
  | cons r rows ih =>
      obtain ⟨hkey, hrest⟩ := forall_mem_cons.mp hkeys
      obtain ⟨before, after, rfl⟩ := append_of_mem hkey
      -- the row counts in its own group, which is there once, and in no other
      have hne : ∀ k ∈ before ++ after, key r ≠ k := by
        rintro k hk rfl
        exact (nodup_middle.mp hnodup).notMem hk
      have hbefore : before.map (groupTotal key value (r :: rows)) =
          before.map (groupTotal key value rows) :=
        map_congr_left fun k hk => groupTotal_cons_of_ne (hne k (mem_append_left _ hk)) rows
      have hafter : after.map (groupTotal key value (r :: rows)) =
          after.map (groupTotal key value rows) :=
        map_congr_left fun k hk => groupTotal_cons_of_ne (hne k (mem_append_right _ hk)) rows
      have hsum := ih hrest
      simp only [map_append, map_cons, sum_append, sum_cons] at hsum ⊢
      rw [hbefore, hafter, groupTotal_cons_of_eq, ← hsum, add_assoc, add_left_comm]

/-- The sums of the groups add up to the sum over all rows. -/
theorem sum_groupSums : ((groupSums key value rows).map Prod.snd).sum = (rows.map value).sum := by
  rw [groupSums, map_map]
  apply sum_groupTotal (groupKeys_pairwise key rows).nodup
  exact fun r hr => mem_groupKeys.mpr ⟨r, hr, rfl⟩

theorem groupSums_congr (h : ∀ r ∈ rows, key r = key' r) :
    groupSums key value rows = groupSums key' value rows := by
  have hkeys : rows.map key = rows.map key' := map_congr_left h
  have htotal : ∀ k, groupTotal key value rows k = groupTotal key' value rows k := by
    intro k
    rw [groupTotal, groupTotal, filter_congr fun r hr => by rw [h r hr]]
  simp only [groupSums, groupKeys, hkeys, htotal]

theorem groupSums_map (g : β → α) (rows : List β) :
    groupSums key value (rows.map g) = groupSums (key ∘ g) (value ∘ g) rows := by
  simp only [groupSums, groupKeys, groupTotal, map_map, filter_map]
  rfl

/-- Keys that are ordered alike make the same groups. -/
theorem groupSums_comp {f : τ → σ} (hf : StrictMono f) :
    (groupSums (f ∘ key) value rows).map Prod.snd = (groupSums key value rows).map Prod.snd := by
  rw [groupSums, groupSums, groupKeys_comp hf, map_map, map_map, map_map]
  apply map_congr_left
  intro k _
  simp only [Function.comp_apply, groupTotal, hf.injective.eq_iff]

/-! ### Adding up in a hash map -/

/-- `*m.entry(k).or_default() += v` -/
def accumulate (m : Table τ M) (k : τ) (v : M) : Table τ M := m.insert k ((m.lookup k).getD 0 + v)

def accumulateAll (key : α → τ) (value : α → M) (m : Table τ M) (rows : List α) : Table τ M :=
  rows.foldl (fun m r => accumulate m (key r) (value r)) m

theorem lookup_accumulateAll (rows : List α) (m : Table τ M) (k : τ) :
    (accumulateAll key value m rows).lookup k =
      if ∃ r ∈ rows, key r = k then some ((m.lookup k).getD 0 + groupTotal key value rows k)
      else m.lookup k := by
  induction rows generalizing m with
  | nil =>
      rw [if_neg (by simp)]
      rfl
  | cons r rows ih =>
      rw [accumulateAll, foldl_cons, ← accumulateAll, ih, accumulate]
      -- the map that the rest starts with differs at the key of the row only
      by_cases hr : key r = k
      · subst hr
        have hex : ∃ r' ∈ r :: rows, key r' = key r := ⟨r, mem_cons_self, rfl⟩
        rw [if_pos hex, AList.lookup_insert, groupTotal_cons_of_eq, Option.getD_some, add_assoc]
        split_ifs with hrest
        · rfl
        · rw [groupTotal_eq_zero fun r' hr' heq => hrest ⟨r', hr', heq⟩, add_zero]
      · rw [AList.lookup_insert_ne (Ne.symm hr), groupTotal_cons_of_ne hr]
        simp only [mem_cons, exists_eq_or_imp, hr, false_or]

/-- The keys of the map, sorted, with their values. -/
theorem accumulateAll_sorted (rows : List α) :
    ((accumulateAll key value ∅ rows).keys.insertionSort (· ≤ ·)).map
        (fun k => (k, ((accumulateAll key value ∅ rows).lookup k).getD 0)) =
      groupSums key value rows := by
  have hkeys : (accumulateAll key value ∅ rows).keys.insertionSort (· ≤ ·) =
      groupKeys key rows := by
    apply eq_groupKeys (pairwise_insertionSort_lt (AList.keys_nodup _))
    intro k
    rw [mem_insertionSort, ← AList.mem_keys, ← AList.lookup_isSome, lookup_accumulateAll]
    split_ifs with h
    · simpa using h
    · simpa using h
  rw [hkeys, groupSums]
  apply map_congr_left
  intro k hk
  rw [lookup_accumulateAll, if_pos (mem_groupKeys.mp hk), AList.lookup_empty, Option.getD_none,
    zero_add, Option.getD_some]

/-! ### Chains in an ascending list -/

/-- An ascending list of numbers has no gaps if it has the successor of each but the last. -/
theorem isChain_succ_iff {l : List ℕ} (hl : l.Pairwise (· < ·)) :
    l.IsChain (fun a b => b = a + 1) ↔ ∀ a ∈ l, ∀ b ∈ l, a < b → a + 1 ∈ l := by
  induction l with
  | nil => simp
  | cons a l ih =>
      obtain ⟨ha, hl⟩ := pairwise_cons.mp hl
      cases l with
      | nil => simp
      | cons b l =>
          rw [isChain_cons_cons, ih hl]
          constructor
          · rintro ⟨rfl, hrest⟩ x hx y hy hlt
            rcases mem_cons.mp hx with rfl | hx
            · exact mem_cons_of_mem _ mem_cons_self
            · rcases mem_cons.mp hy with rfl | hy
              · exact absurd hlt (ha x hx).not_gt
              · exact mem_cons_of_mem _ (hrest x hx y hy hlt)
          · intro h
            constructor
            · have hsucc := h a mem_cons_self b (by simp) (ha b mem_cons_self)
              rcases mem_cons.mp hsucc with hself | hsucc
              · omega
              · rcases mem_cons.mp hsucc with hb | hmem
                · exact hb.symm
                · -- nothing lies between `a` and `a + 1`
                  have hab := ha b mem_cons_self
                  have hlt := rel_of_pairwise_cons hl hmem
                  omega
            · intro x hx y hy hlt
              rcases mem_cons.mp (h x (mem_cons_of_mem a hx) y (mem_cons_of_mem a hy) hlt) with
                hself | hmem
              · have := ha x hx
                omega
              · exact hmem

/-- What both ends of each link satisfy, all elements satisfy. -/
theorem isChain_and_iff {P : α → Prop} {l : List α} :
    l.IsChain (fun a b => P a ∧ P b) ↔ (1 < l.length → ∀ a ∈ l, P a) := by
  induction l with
  | nil => simp
  | cons a l ih =>
      cases l with
      | nil => simp
      | cons b l =>
          rw [isChain_cons_cons, ih]
          constructor
          · rintro ⟨⟨ha, hb⟩, hrest⟩ -
            refine forall_mem_cons.mpr ⟨ha, forall_mem_cons.mpr ⟨hb, ?_⟩⟩
            intro c hc
            have hlen : 1 < (b :: l).length := Nat.succ_le_succ (length_pos_of_mem hc)
            exact hrest hlen c (mem_cons_of_mem b hc)
          · intro h
            obtain ⟨ha, hrest⟩ := forall_mem_cons.mp (h (by simp))
            exact ⟨⟨ha, hrest b mem_cons_self⟩, fun _ => hrest⟩

theorem isChain_and {R S : α → α → Prop} {l : List α} :
    l.IsChain (fun a b => R a b ∧ S a b) ↔ l.IsChain R ∧ l.IsChain S := by
  induction l with
  | nil => simp
  | cons a l ih =>
      cases l with
      | nil => simp
      | cons b l =>
          rw [isChain_cons_cons, isChain_cons_cons, isChain_cons_cons, ih]
          exact and_and_and_comm

end NeuRust
