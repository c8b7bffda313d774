import Mathlib.Algebra.GroupWithZero.Nat
import Mathlib.Logic.Function.Iterate
import Mathlib.Data.Nat.Basic
import Mathlib.Order.Basic
import Mathlib.Order.Monotone.Basic
import Mathlib.Tactic.SplitIfs

/-!
The Gregorian calendar, as the sequence of the days from the epoch on.
-/

namespace NeuRust

def isLeapYear (year : ℕ) : Bool := year % 4 == 0 && (year % 100 != 0 || year % 400 == 0)

def daysInMonth (year : ℕ) : ℕ → ℕ
  | 4 | 6 | 9 | 11 => 30
  | 2 => if isLeapYear year then 29 else 28
  | _ => 31

theorem le_daysInMonth (year month : ℕ) : 28 ≤ daysInMonth year month := by
  unfold daysInMonth
  split
  any_goals decide
  split_ifs <;> decide

theorem daysInMonth_le (year month : ℕ) : daysInMonth year month ≤ 31 := by
  unfold daysInMonth
  split
  any_goals decide
  split_ifs <;> decide

theorem daysInMonth_pos (year month : ℕ) : 1 ≤ daysInMonth year month :=
  Nat.le_of_lt (Nat.lt_of_lt_of_le (by decide) (le_daysInMonth year month))

structure Date where
  year : ℕ
  month : ℕ
  day : ℕ
  month_pos : 1 ≤ month
  month_le : month ≤ 12
  day_pos : 1 ≤ day
  day_le : day ≤ daysInMonth year month

namespace Date

def epoch : Date := ⟨1970, 1, 1, by decide, by decide, by decide, by decide⟩

def first (year month : ℕ) (hpos : 1 ≤ month) (hle : month ≤ 12) : Date :=
  ⟨year, month, 1, hpos, hle, le_rfl, daysInMonth_pos year month⟩

def next (date : Date) : Date :=
  if h : date.day < daysInMonth date.year date.month then
    { date with day := date.day + 1, day_pos := Nat.succ_pos _, day_le := h }
  else if h : date.month < 12 then first date.year (date.month + 1) (Nat.succ_pos _) h
  else first (date.year + 1) 1 le_rfl (by decide)

/-- The months since the year 0. -/
def monthIndex (date : Date) : ℕ := 12 * date.year + date.month

def SameMonth (a b : Date) : Prop := a.year = b.year ∧ a.month = b.month

instance : DecidableRel SameMonth := fun _ _ => inferInstanceAs (Decidable (_ ∧ _))

theorem SameMonth.monthIndex_eq {a b : Date} (h : SameMonth a b) : a.monthIndex = b.monthIndex := by
  rw [monthIndex, monthIndex, h.1, h.2]

theorem SameMonth.symm {a b : Date} (h : SameMonth a b) : SameMonth b a := ⟨h.1.symm, h.2.symm⟩

theorem SameMonth.trans {a b c : Date} (h : SameMonth a b) (h' : SameMonth b c) : SameMonth a c :=
  ⟨h.1.trans h'.1, h.2.trans h'.2⟩

theorem sameMonth_of_monthIndex_eq {a b : Date} (h : a.monthIndex = b.monthIndex) :
    SameMonth a b := by
  have := a.month_pos
  have := a.month_le
  have := b.month_pos
  have := b.month_le
  rw [monthIndex, monthIndex] at h
  exact ⟨by omega, by omega⟩

theorem eq_of_monthIndex_eq {a b : Date} (hmonth : a.monthIndex = b.monthIndex)
    (hday : a.day = b.day) : a = b := by
  obtain ⟨hyear, hmonth⟩ := sameMonth_of_monthIndex_eq hmonth
  cases a
  cases b
  simp only [mk.injEq]
  exact ⟨hyear, hmonth, hday⟩

/-- The next day is the next of the same month, or after the last the first of the next one. -/
theorem next_cases (date : Date) :
    (date.day < daysInMonth date.year date.month ∧ SameMonth date.next date ∧
        date.next.day = date.day + 1) ∨
      (daysInMonth date.year date.month ≤ date.day ∧
        date.next.monthIndex = date.monthIndex + 1 ∧ date.next.day = 1) := by
  rw [next]
  split_ifs with hday hmonth
  · exact .inl ⟨hday, ⟨rfl, rfl⟩, rfl⟩
  · exact .inr ⟨Nat.not_lt.mp hday, rfl, rfl⟩
  · have hle := date.month_le
    refine .inr ⟨Nat.not_lt.mp hday, ?_, rfl⟩
    show 12 * (date.year + 1) + 1 = 12 * date.year + date.month + 1
    omega

end Date

/-- The date so many days after 1970-01-01. -/
def dateOf (n : ℕ) : Date := Date.next^[n] .epoch

theorem dateOf_succ (n : ℕ) : dateOf (n + 1) = (dateOf n).next :=
  Function.iterate_succ_apply' Date.next n .epoch

def monthStart (n : ℕ) : ℕ := n + 1 - (dateOf n).day

theorem day_dateOf_le (n : ℕ) : (dateOf n).day ≤ n + 1 := by
  induction n with
  | zero => exact le_rfl
  | succ n ih =>
      rw [dateOf_succ]
      rcases (dateOf n).next_cases with ⟨-, -, hday⟩ | ⟨-, -, hday⟩
      · omega
      · omega

theorem monthStart_le (n : ℕ) : monthStart n ≤ n := by
  have hpos := (dateOf n).day_pos
  rw [monthStart]
  omega

theorem month_of_dateOf (n : ℕ) :
    (∀ k, monthStart n ≤ k → k ≤ n → (dateOf k).SameMonth (dateOf n)) ∧
      ∀ k < monthStart n, (dateOf k).monthIndex < (dateOf n).monthIndex := by
  induction n with
  | zero =>
      refine ⟨fun k _ hk => ?_, fun k hk => absurd hk (Nat.not_lt_zero k)⟩
      obtain rfl := Nat.le_zero.mp hk
      exact ⟨rfl, rfl⟩
  | succ n ih =>
      obtain ⟨hsame, hearlier⟩ := ih
      have hle := day_dateOf_le n
      rcases (dateOf n).next_cases with ⟨-, hmonth, hday⟩ | ⟨-, hmonth, hday⟩ <;>
        rw [← dateOf_succ] at hmonth hday
      · -- the month goes on
        have hstart : monthStart (n + 1) = monthStart n := by
          rw [monthStart, monthStart, hday]
          omega
        rw [hstart, hmonth.monthIndex_eq]
        refine ⟨fun k hk hkn => ?_, hearlier⟩
        rcases Nat.le_succ_iff.mp hkn with hkn | rfl
        · exact (hsame k hk hkn).trans hmonth.symm
        · exact ⟨rfl, rfl⟩
      · -- a new month begins
        have hstart : monthStart (n + 1) = n + 1 := by
          rw [monthStart, hday]
          omega
        rw [hstart]
        refine ⟨fun k hk hkn => ?_, fun k hk => ?_⟩
        · obtain rfl := le_antisymm hkn hk
          exact ⟨rfl, rfl⟩
        · rw [hmonth, Nat.lt_succ_iff]
          rcases Nat.lt_or_ge k (monthStart n) with hk' | hk'
          · exact (hearlier k hk').le
          · exact (hsame k hk' (Nat.lt_succ_iff.mp hk)).monthIndex_eq.le

theorem sameMonth_iff {k n : ℕ} (h : k ≤ n) :
    (dateOf k).SameMonth (dateOf n) ↔ monthStart n ≤ k := by
  obtain ⟨hsame, hearlier⟩ := month_of_dateOf n
  constructor
  · intro hmonth
    by_contra hlt
    exact absurd hmonth.monthIndex_eq (hearlier k (Nat.not_le.mp hlt)).ne
  · exact fun hk => hsame k hk h

theorem dateOf_add {n i : ℕ}
    (h : (dateOf n).day + i ≤ daysInMonth (dateOf n).year (dateOf n).month) :
    (dateOf (n + i)).SameMonth (dateOf n) ∧ (dateOf (n + i)).day = (dateOf n).day + i := by
  induction i with
  | zero => exact ⟨⟨rfl, rfl⟩, rfl⟩
  | succ i ih =>
      obtain ⟨hmonth, hday⟩ := ih (Nat.le_of_succ_le h)
      rw [← Nat.add_assoc, dateOf_succ]
      rcases (dateOf (n + i)).next_cases with ⟨-, hnext, hdayNext⟩ | ⟨hlast, -, -⟩
      · exact ⟨hnext.trans hmonth, by omega⟩
      · rw [hmonth.1, hmonth.2] at hlast
        omega

/-- The days that are still in the month are those up to its length. -/
theorem sameMonth_add_iff {n i : ℕ} :
    (dateOf (n + i)).SameMonth (dateOf n) ↔
      (dateOf n).day + i ≤ daysInMonth (dateOf n).year (dateOf n).month := by
  constructor
  · intro hmonth
    by_contra hlong
    -- the day after the last would be in the month as well
    obtain ⟨j, hj⟩ := Nat.exists_eq_add_of_le (dateOf n).day_le
    obtain ⟨hlast, hday⟩ := dateOf_add hj.ge
    have hstart : monthStart (n + i) ≤ n := (sameMonth_iff (Nat.le_add_right n i)).mp hmonth.symm
    have hafter : (dateOf (n + j + 1)).SameMonth (dateOf (n + i)) :=
      (sameMonth_iff (by omega)).mpr (by omega)
    rcases (dateOf (n + j)).next_cases with ⟨hlt, -, -⟩ | ⟨-, hnext, -⟩
    · rw [hlast.1, hlast.2] at hlt
      omega
    · rw [← dateOf_succ, hlast.monthIndex_eq, (hafter.trans hmonth).monthIndex_eq] at hnext
      omega
  · exact fun h => (dateOf_add h).1

/-! ### Counting the days -/

/-- The days of the months before one, the months counted as in `Date.monthIndex`. -/
def daysBeforeMonth : ℕ → ℕ
  | 0 => 0
  | m + 1 => daysBeforeMonth m + daysInMonth ((m - 1) / 12) ((m - 1) % 12 + 1)

theorem daysBeforeMonth_mono : Monotone daysBeforeMonth :=
  monotone_nat_of_le_succ fun _ => Nat.le_add_right _ _

theorem daysBeforeMonth_succ (year : ℕ) {month : ℕ} (hpos : 1 ≤ month) (hle : month ≤ 12) :
    daysBeforeMonth (12 * year + month + 1) =
      daysBeforeMonth (12 * year + month) + daysInMonth year month := by
  have hyear : (12 * year + month - 1) / 12 = year := by omega
  have hmonth : (12 * year + month - 1) % 12 + 1 = month := by omega
  rw [daysBeforeMonth, hyear, hmonth]

theorem daysBeforeMonth_add (year : ℕ) {k : ℕ} (hk : k ≤ 12) :
    daysBeforeMonth (12 * year + 1 + k) =
      daysBeforeMonth (12 * year + 1) +
        ((List.range k).map fun i => daysInMonth year (i + 1)).sum := by
  induction k with
  | zero => rfl
  | succ k ih =>
      have hmonth : 12 * year + 1 + (k + 1) = 12 * year + (k + 1) + 1 := by omega
      have hprev : 12 * year + (k + 1) = 12 * year + 1 + k := by omega
      rw [hmonth, daysBeforeMonth_succ year (Nat.succ_pos k) hk, hprev, ih (Nat.le_of_succ_le hk),
        List.range_succ, List.map_append, List.sum_append, Nat.add_assoc]
      rfl

/-- A year has 365 days, or 366. -/
theorem daysBeforeMonth_year (year : ℕ) :
    daysBeforeMonth (12 * (year + 1) + 1) =
      daysBeforeMonth (12 * year + 1) + (337 + daysInMonth year 2) := by
  have hnext : 12 * (year + 1) + 1 = 12 * year + 1 + 12 := by omega
  rw [hnext, daysBeforeMonth_add year le_rfl]
  simp only [List.range, List.range.loop, List.map_cons, List.map_nil, List.sum_cons,
    List.sum_nil, daysInMonth]
  omega

namespace Date

def ordinal (date : Date) : ℕ := daysBeforeMonth date.monthIndex + date.day

/-- The days since 1970-01-01, negative before. -/
def dayNumber (date : Date) : ℤ := date.ordinal - epoch.ordinal

theorem ordinal_le_daysBeforeMonth (date : Date) :
    date.ordinal ≤ daysBeforeMonth (date.monthIndex + 1) := by
  rw [monthIndex, daysBeforeMonth_succ date.year date.month_pos date.month_le]
  exact Nat.add_le_add_left date.day_le _

theorem ordinal_lt_of_monthIndex_lt {a b : Date} (h : a.monthIndex < b.monthIndex) :
    a.ordinal < b.ordinal :=
  calc a.ordinal ≤ daysBeforeMonth (a.monthIndex + 1) := a.ordinal_le_daysBeforeMonth
    _ ≤ daysBeforeMonth b.monthIndex := daysBeforeMonth_mono h
    _ < b.ordinal := Nat.lt_add_of_pos_right b.day_pos

/-- Days of one month lie less than a month apart. -/
theorem ordinal_le_of_monthIndex_le {a b : Date} (h : a.monthIndex ≤ b.monthIndex) :
    a.ordinal ≤ b.ordinal + 30 :=
  calc a.ordinal ≤ daysBeforeMonth (a.monthIndex + 1) := a.ordinal_le_daysBeforeMonth
    _ ≤ daysBeforeMonth (b.monthIndex + 1) := daysBeforeMonth_mono (Nat.add_le_add_right h 1)
    _ = daysBeforeMonth b.monthIndex + daysInMonth b.year b.month :=
        daysBeforeMonth_succ b.year b.month_pos b.month_le
    _ ≤ daysBeforeMonth b.monthIndex + (b.day + 30) := by
        have := daysInMonth_le b.year b.month
        have := b.day_pos
        omega
    _ = b.ordinal + 30 := (Nat.add_assoc _ _ _).symm

theorem ordinal_le_iff {a b : Date} :
    a.ordinal ≤ b.ordinal ↔
      a.monthIndex < b.monthIndex ∨ a.monthIndex = b.monthIndex ∧ a.day ≤ b.day := by
  rcases lt_trichotomy a.monthIndex b.monthIndex with h | h | h
  · simp [h, (ordinal_lt_of_monthIndex_lt h).le]
  · simp [ordinal, h]
  · simp [h.not_gt, h.ne', (ordinal_lt_of_monthIndex_lt h).not_ge]

theorem ordinal_injective {a b : Date} (h : a.ordinal = b.ordinal) : a = b := by
  have hle := ordinal_le_iff.mp h.le
  have hge := ordinal_le_iff.mp h.ge
  exact eq_of_monthIndex_eq (by omega) (by omega)

theorem ordinal_first_month {year month : ℕ} (hpos : 1 ≤ month) (hlt : month < 12) :
    (first year (month + 1) (Nat.succ_pos month) hlt).ordinal =
      (first year month hpos hlt.le).ordinal + daysInMonth year month := by
  show daysBeforeMonth (12 * year + month + 1) + 1 = daysBeforeMonth (12 * year + month) + 1 + _
  rw [daysBeforeMonth_succ year hpos hlt.le, Nat.add_right_comm]

theorem ordinal_first_year (year : ℕ) :
    (first (year + 1) 1 le_rfl (by decide)).ordinal =
      (first year 1 le_rfl (by decide)).ordinal + (337 + daysInMonth year 2) := by
  show daysBeforeMonth (12 * (year + 1) + 1) + 1 = daysBeforeMonth (12 * year + 1) + 1 + _
  rw [daysBeforeMonth_year, Nat.add_right_comm]

theorem ordinal_next (date : Date) : date.next.ordinal = date.ordinal + 1 := by
  rw [ordinal, ordinal]
  rcases date.next_cases with ⟨-, hmonth, hday⟩ | ⟨hlast, hmonth, hday⟩
  · rw [hmonth.monthIndex_eq, hday, Nat.add_assoc]
  · have hlen := daysBeforeMonth_succ date.year date.month_pos date.month_le
    rw [hmonth, hday, monthIndex, hlen, Nat.le_antisymm date.day_le hlast]

end Date

theorem ordinal_dateOf (n : ℕ) : (dateOf n).ordinal = Date.epoch.ordinal + n := by
  induction n with
  | zero => rw [dateOf, Function.iterate_zero, id, Nat.add_zero]
  | succ n ih => rw [dateOf_succ, Date.ordinal_next, ih, Nat.add_assoc]

theorem dateOf_eq_of_ordinal {date : Date} {n : ℕ} (h : date.ordinal = Date.epoch.ordinal + n) :
    dateOf n = date :=
  Date.ordinal_injective ((ordinal_dateOf n).trans h.symm)

@[simp] theorem dayNumber_dateOf (n : ℕ) : (dateOf n).dayNumber = n := by
  rw [Date.dayNumber, ordinal_dateOf]
  omega

theorem ordinal_dateOf_le_iff {k n : ℕ} : (dateOf k).ordinal ≤ (dateOf n).ordinal ↔ k ≤ n := by
  rw [ordinal_dateOf, ordinal_dateOf, Nat.add_le_add_iff_left]

theorem le_add_of_monthIndex_le {k n : ℕ} (h : (dateOf k).monthIndex ≤ (dateOf n).monthIndex) :
    k ≤ n + 30 := by
  have hle := Date.ordinal_le_of_monthIndex_le h
  rwa [ordinal_dateOf, ordinal_dateOf, Nat.add_assoc, Nat.add_le_add_iff_left] at hle

theorem monthIndex_dateOf_mono {k n : ℕ} (h : k ≤ n) :
    (dateOf k).monthIndex ≤ (dateOf n).monthIndex := by
  have := Date.ordinal_le_iff.mp (ordinal_dateOf_le_iff.mpr h)
  omega

theorem dateOf_first_month {year month k n : ℕ} {hpos : 1 ≤ month} (hlt : month < 12)
    (h : dateOf k = .first year month hpos hlt.le) (hn : k + daysInMonth year month = n) :
    dateOf n = .first year (month + 1) (Nat.succ_pos month) hlt := by
  apply dateOf_eq_of_ordinal
  rw [Date.ordinal_first_month hpos hlt, ← h, ordinal_dateOf, ← hn, Nat.add_assoc]

theorem dateOf_first_year {year k n : ℕ} (h : dateOf k = .first year 1 le_rfl (by decide))
    (hn : k + (337 + daysInMonth year 2) = n) :
    dateOf n = .first (year + 1) 1 le_rfl (by decide) := by
  apply dateOf_eq_of_ordinal
  rw [Date.ordinal_first_year, ← h, ordinal_dateOf, ← hn, Nat.add_assoc]

theorem dateOf_first_add {year month k i n : ℕ} {hpos : 1 ≤ month} {hle : month ≤ 12}
    (h : dateOf k = .first year month hpos hle) (hi : 1 + i ≤ daysInMonth year month)
    (hn : k + i = n) :
    dateOf n = ⟨year, month, 1 + i, hpos, hle, Nat.le_add_right 1 i, hi⟩ := by
  have hday : (dateOf k).day + i ≤ daysInMonth (dateOf k).year (dateOf k).month := by
    rw [h]
    exact hi
  obtain ⟨hmonth, hday⟩ := dateOf_add hday
  rw [h, hn] at hmonth hday
  exact Date.eq_of_monthIndex_eq hmonth.monthIndex_eq hday

theorem exists_dateOf {date : Date} (h : Date.epoch.ordinal ≤ date.ordinal) :
    ∃ n, dateOf n = date := by
  obtain ⟨n, hn⟩ := Nat.exists_eq_add_of_le h
  exact ⟨n, dateOf_eq_of_ordinal hn⟩

end NeuRust
