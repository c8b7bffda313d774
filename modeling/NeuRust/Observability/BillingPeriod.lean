import NeuRust.Machine.Calendar
import NeuRust.Observability.BudgetManager
import NeuRust.Store.InMemory
import Mathlib.Tactic.IntervalCases

/-!
The billing periods of the budget manager. A period starts on the reset day of a month, or on the
last day of a month that has no such day. Whether the reset day of a month has come is compared
before the day is moved to the last one, so that a moved start is not the start of its own period,
and reset day 0, which no month has, starts every period on the last day of the month.
-/

namespace NeuRust.Observability

open Store

/-- `NaiveDate::from_ymd_opt`. -/
def fromYmdOpt (year month day : ℕ) : Option Date :=
  if h : (1 ≤ month ∧ month ≤ 12) ∧ 1 ≤ day ∧ day ≤ daysInMonth year month then
    some ⟨year, month, day, h.1.1, h.1.2, h.2.1, h.2.2⟩
  else none

def lastDayOfMonth (year : ℕ) : ℕ → ℕ
  | 1 | 3 | 5 | 7 | 8 | 10 | 12 => 31
  | 4 | 6 | 9 | 11 => 30
  | 2 => if year % 4 == 0 && (year % 100 != 0 || year % 400 == 0) then 29 else 28
  | _ => 30

def periodMonth (resetDay : BitVec 8) (now : Date) : ℕ × ℕ :=
  if resetDay.toNat ≤ now.day then (now.year, now.month)
  else if now.month = 1 then (now.year - 1, 12)
  else (now.year, now.month - 1)

/-- The day on which the period of a day starts, none where the `expect` panics. -/
def billingPeriodStart (resetDay : BitVec 8) (now : Date) : Option Date :=
  match periodMonth resetDay now with
  | (year, month) =>
      (fromYmdOpt year month resetDay.toNat).or (fromYmdOpt year month (lastDayOfMonth year month))

/-- Midnight of that day in UTC, the `i64` cast to `u64`. The clock is past the epoch. -/
def billingPeriodStartMs (resetDay : BitVec 8) (nowMs : ℕ) : Option (BitVec 64) :=
  (billingPeriodStart resetDay (dateOf (nowMs / dayMs))).map fun start =>
    BitVec.ofInt 64 (start.dayNumber * dayMs)

def BudgetManager.refreshFromStore (nowMs : ℕ) (events : List CostEvent) (manager : BudgetManager) :
    Option BudgetManager :=
  (billingPeriodStartMs manager.config.resetDay nowMs).map fun periodStartMs =>
    manager.storeTotal periodStartMs events

/-! ### The start of a period -/

def lengthBefore (date : Date) : ℕ :=
  if date.month = 1 then daysInMonth (date.year - 1) 12 else daysInMonth date.year (date.month - 1)

structure StartsPeriod (resetDay : ℕ) (now start : Date) : Prop where
  month : start.monthIndex = if resetDay ≤ now.day then now.monthIndex else now.monthIndex - 1
  length : daysInMonth start.year start.month =
    if resetDay ≤ now.day then daysInMonth now.year now.month else lengthBefore now
  day : start.day =
    if 1 ≤ resetDay ∧ resetDay ≤ daysInMonth start.year start.month then resetDay
    else daysInMonth start.year start.month

theorem lastDayOfMonth_eq {month : ℕ} (year : ℕ) (hpos : 1 ≤ month) (hle : month ≤ 12) :
    lastDayOfMonth year month = daysInMonth year month := by
  interval_cases month <;> rfl

/-- A start is found in every month: its reset day, or its last day. -/
theorem exists_fromYmdOpt (year : ℕ) {month : ℕ} (day : ℕ) (hpos : 1 ≤ month) (hle : month ≤ 12) :
    ∃ start : Date,
      (fromYmdOpt year month day).or (fromYmdOpt year month (lastDayOfMonth year month)) =
          some start ∧
        start.year = year ∧ start.month = month ∧
        start.day = if 1 ≤ day ∧ day ≤ daysInMonth year month then day
          else daysInMonth year month := by
  have hlast : 1 ≤ daysInMonth year month := daysInMonth_pos year month
  rw [lastDayOfMonth_eq year hpos hle, fromYmdOpt, fromYmdOpt]
  by_cases hday : 1 ≤ day ∧ day ≤ daysInMonth year month
  · rw [dif_pos ⟨⟨hpos, hle⟩, hday⟩, if_pos hday]
    exact ⟨_, rfl, rfl, rfl, rfl⟩
  · rw [dif_neg fun h => hday h.2, dif_pos ⟨⟨hpos, hle⟩, hlast, le_rfl⟩, if_neg hday]
    exact ⟨_, rfl, rfl, rfl, rfl⟩

theorem billingPeriodStart_spec (resetDay : BitVec 8) {now : Date} (hyear : 1 ≤ now.year) :
    ∃ start, billingPeriodStart resetDay now = some start ∧
      StartsPeriod resetDay.toNat now start := by
  have hpos := now.month_pos
  have hle := now.month_le
  rw [billingPeriodStart, periodMonth]
  split_ifs with hday hmonth
  · obtain ⟨start, hstart, hy, hm, hd⟩ := exists_fromYmdOpt now.year resetDay.toNat hpos hle
    refine ⟨start, hstart, ?_, ?_, ?_⟩
    · simp [Date.monthIndex, hday, hy, hm]
    · simp [hday, hy, hm]
    · rw [hy, hm, hd]
  · obtain ⟨start, hstart, hy, hm, hd⟩ :=
      exists_fromYmdOpt (now.year - 1) resetDay.toNat (by decide : 1 ≤ 12) le_rfl
    refine ⟨start, hstart, ?_, ?_, ?_⟩
    · simp only [Date.monthIndex, hday, hy, hm, if_false]
      omega
    · simp [lengthBefore, hday, hmonth, hy, hm]
    · rw [hy, hm, hd]
  · have hprev : 1 ≤ now.month - 1 := by omega
    obtain ⟨start, hstart, hy, hm, hd⟩ :=
      exists_fromYmdOpt now.year resetDay.toNat hprev (by omega)
    refine ⟨start, hstart, ?_, ?_, ?_⟩
    · simp only [Date.monthIndex, hday, hy, hm, if_false]
      omega
    · simp [lengthBefore, hday, hmonth, hy, hm]
    · rw [hy, hm, hd]

namespace StartsPeriod

variable {resetDay : ℕ} {now now' start start' : Date}

theorem monthIndex_le (h : StartsPeriod resetDay now start) :
    start.monthIndex ≤ now.monthIndex ∧ now.monthIndex ≤ start.monthIndex + 1 := by
  have := h.month
  split_ifs at this <;> omega

/-- The day of a start depends on its month only. -/
theorem day_eq (h : StartsPeriod resetDay now start) (h' : StartsPeriod resetDay now' start')
    (hmonth : start.monthIndex = start'.monthIndex) : start.day = start'.day := by
  obtain ⟨hy, hm⟩ := Date.sameMonth_of_monthIndex_eq hmonth
  rw [h.day, h'.day, hy, hm]

theorem unique (h : StartsPeriod resetDay now start) (h' : StartsPeriod resetDay now start') :
    start = start' := by
  have hmonth : start.monthIndex = start'.monthIndex := h.month.trans h'.month.symm
  exact Date.eq_of_monthIndex_eq hmonth (h.day_eq h' hmonth)

/-- Later days are in later periods. -/
theorem mono (h : StartsPeriod resetDay now start) (h' : StartsPeriod resetDay now' start')
    (hle : now.ordinal ≤ now'.ordinal) : start.ordinal ≤ start'.ordinal := by
  have hmonth : start.monthIndex ≤ start'.monthIndex := by
    rcases Date.ordinal_le_iff.mp hle with hlt | ⟨heq, hday⟩
    · have := h.monthIndex_le
      have := h'.monthIndex_le
      omega
    · rw [h.month, h'.month, heq]
      split_ifs <;> omega
  rw [Date.ordinal_le_iff]
  rcases hmonth.lt_or_eq with hlt | heq
  · exact .inl hlt
  · exact .inr ⟨heq, (h.day_eq h' heq).le⟩

/-- Only reset day 0 starts a period after its days. -/
theorem le_iff (h : StartsPeriod resetDay now start) :
    start.ordinal ≤ now.ordinal ↔ 1 ≤ resetDay ∨ now.day = daysInMonth now.year now.month := by
  have hpos := now.month_pos
  have hday := now.day_le
  have hindex : now.monthIndex = 12 * now.year + now.month := rfl
  have hstart := h.day
  rw [Date.ordinal_le_iff, h.month]
  rw [h.length] at hstart
  split_ifs at hstart ⊢ <;> omega

/-- A start is that of its own period unless it was moved to the end of the month before. -/
theorem self_iff (h : StartsPeriod resetDay now start) :
    StartsPeriod resetDay start start ↔ resetDay ≤ now.day ∨ resetDay ≤ lengthBefore now := by
  have hself : StartsPeriod resetDay start start ↔ resetDay ≤ start.day := by
    have hpos := start.month_pos
    have hindex : start.monthIndex = 12 * start.year + start.month := rfl
    refine ⟨fun hs => ?_, fun hle => ⟨(if_pos hle).symm, (if_pos hle).symm, h.day⟩⟩
    have := hs.month
    split_ifs at this <;> omega
  have hnow := now.day_le
  have hday := h.day
  rw [h.length] at hday
  rw [hself]
  split_ifs at hday <;> omega

end StartsPeriod

/-! ### The start in milliseconds -/

/-- The month before that of the instant is not before the epoch, and the milliseconds are an
`i64`. -/
def InRange (nowMs : ℕ) : Prop :=
  Date.epoch.monthIndex < (dateOf (nowMs / dayMs)).monthIndex ∧ nowMs < 2 ^ 63

structure StartsAt (resetDay : BitVec 8) (nowMs : ℕ) (startMs : BitVec 64) (day : ℕ) : Prop where
  eq : billingPeriodStartMs resetDay nowMs = some startMs
  toNat_eq : startMs.toNat = day * dayMs
  starts : StartsPeriod resetDay.toNat (dateOf (nowMs / dayMs)) (dateOf day)

theorem billingPeriodStartMs_eq {resetDay : BitVec 8} {nowMs day : ℕ}
    (h : billingPeriodStart resetDay (dateOf (nowMs / dayMs)) = some (dateOf day)) :
    billingPeriodStartMs resetDay nowMs = some (BitVec.ofNat 64 (day * dayMs)) := by
  rw [billingPeriodStartMs, h, Option.map_some, dayNumber_dateOf, ← Nat.cast_mul,
    BitVec.ofInt_natCast]

theorem billingPeriodStartMs_spec (resetDay : BitVec 8) {nowMs : ℕ} (h : InRange nowMs) :
    ∃ startMs day, StartsAt resetDay nowMs startMs day := by
  obtain ⟨hmonth, hnow⟩ := h
  have hepoch : Date.epoch.monthIndex = 23641 := rfl
  have hyear : 1 ≤ (dateOf (nowMs / dayMs)).year := by
    have := (dateOf (nowMs / dayMs)).month_le
    rw [hepoch, Date.monthIndex] at hmonth
    omega
  obtain ⟨start, heq, hstart⟩ := billingPeriodStart_spec resetDay hyear
  have hindex := hstart.monthIndex_le
  -- the day of the start, counted from the epoch
  obtain ⟨day, rfl⟩ : ∃ day, dateOf day = start := by
    apply exists_dateOf
    have hday : Date.epoch.day = 1 := rfl
    have hpos := start.day_pos
    rw [Date.ordinal_le_iff]
    omega
  have hday : day ≤ nowMs / dayMs + 30 := le_add_of_monthIndex_le hindex.1
  have hlt : day * dayMs < 2 ^ 64 := by
    rw [dayMs] at *
    omega
  refine ⟨BitVec.ofNat 64 (day * dayMs), day, billingPeriodStartMs_eq heq, ?_, hstart⟩
  rw [BitVec.toNat_ofNat, Nat.mod_eq_of_lt hlt]

namespace StartsAt

variable {resetDay : BitVec 8} {nowMs nowMs' : ℕ} {startMs startMs' : BitVec 64} {day day' : ℕ}

theorem of_eq (h : InRange nowMs) (heq : billingPeriodStartMs resetDay nowMs = some startMs) :
    ∃ day, StartsAt resetDay nowMs startMs day := by
  obtain ⟨startMs', day, hstart⟩ := billingPeriodStartMs_spec resetDay h
  obtain rfl := Option.some.inj (heq.symm.trans hstart.eq)
  exact ⟨day, hstart⟩

theorem toNat_div (h : StartsAt resetDay nowMs startMs day) : startMs.toNat / dayMs = day := by
  rw [h.toNat_eq]
  exact Nat.mul_div_cancel day (by decide)

theorem toNat_le_iff (h : StartsAt resetDay nowMs startMs day) :
    startMs.toNat ≤ nowMs ↔ (dateOf day).ordinal ≤ (dateOf (nowMs / dayMs)).ordinal := by
  rw [h.toNat_eq, ordinal_dateOf_le_iff]
  exact (Nat.le_div_iff_mul_le (by decide)).symm

theorem mono (h : StartsAt resetDay nowMs startMs day) (h' : StartsAt resetDay nowMs' startMs' day')
    (hle : nowMs ≤ nowMs') : startMs ≤ startMs' := by
  have hday : day ≤ day' := by
    rw [← ordinal_dateOf_le_iff]
    exact h.starts.mono h'.starts (ordinal_dateOf_le_iff.mpr (Nat.div_le_div_right hle))
  rw [BitVec.le_def, h.toNat_eq, h'.toNat_eq]
  exact Nat.mul_le_mul_right dayMs hday

end StartsAt

theorem dateOf_newYear : dateOf 365 = .first 1971 1 le_rfl (by decide) := by
  have hepoch : dateOf 0 = .first 1970 1 le_rfl (by decide) := rfl
  exact dateOf_first_year hepoch rfl

/-- From 1971 on the instants between a start and one of its instants are in range. -/
theorem StartsAt.inRange {resetDay : BitVec 8} {nowMs day : ℕ} {startMs : BitVec 64}
    (h : StartsAt resetDay nowMs startMs day) (hnow : 365 * dayMs ≤ nowMs) (hlt : nowMs < 2 ^ 63)
    {ms : ℕ} (hstart : startMs.toNat ≤ ms) (hms : ms ≤ nowMs) : InRange ms := by
  have hdays : 365 ≤ nowMs / dayMs := (Nat.le_div_iff_mul_le (by decide)).mpr hnow
  have hyear := monthIndex_dateOf_mono hdays
  have hday : day ≤ ms / dayMs := h.toNat_div ▸ Nat.div_le_div_right hstart
  have hmono := monthIndex_dateOf_mono hday
  have hindex := h.starts.monthIndex_le
  have h1971 : (dateOf 365).monthIndex = 23653 := by
    rw [dateOf_newYear]
    rfl
  have hepoch : Date.epoch.monthIndex = 23641 := rfl
  exact ⟨by omega, hms.trans_lt hlt⟩

theorem inRange_of_le {nowMs : ℕ} (hnow : 365 * dayMs ≤ nowMs) (hlt : nowMs < 2 ^ 63) :
    InRange nowMs := by
  have hdays : 365 ≤ nowMs / dayMs := (Nat.le_div_iff_mul_le (by decide)).mpr hnow
  have hyear := monthIndex_dateOf_mono hdays
  rw [dateOf_newYear] at hyear
  exact ⟨lt_of_lt_of_le (by decide) hyear, hlt⟩

/-! ### The partition of time -/

/-- The start of the period of the instant is computed, as is that of the later one. It is not in
the future, the later one is not before it, and it is the start for all instants from itself to
the first instant, so that an event which a refresh at the instant counts is one of this period. -/
def PeriodAt (resetDay : BitVec 8) (nowMs laterMs : ℕ) : Prop :=
  ∃ startMs laterStartMs, billingPeriodStartMs resetDay nowMs = some startMs ∧
    billingPeriodStartMs resetDay laterMs = some laterStartMs ∧
    startMs.toNat ≤ nowMs ∧ startMs ≤ laterStartMs ∧
    billingPeriodStartMs resetDay startMs.toNat = some startMs ∧
    ∀ ms, startMs.toNat ≤ ms → ms ≤ nowMs → billingPeriodStartMs resetDay ms = some startMs

/-- Reset day 0 only on the last day of a month, and a reset day that has not come yet only where
the month before has that day. -/
def Regular (resetDay : BitVec 8) (now : Date) : Prop :=
  (1 ≤ resetDay.toNat ∨ now.day = daysInMonth now.year now.month) ∧
    (resetDay.toNat ≤ now.day ∨ resetDay.toNat ≤ lengthBefore now)

instance (resetDay : BitVec 8) (now : Date) : Decidable (Regular resetDay now) :=
  inferInstanceAs (Decidable (_ ∧ _))

theorem regular_of_le {resetDay : BitVec 8} (hpos : 1 ≤ resetDay.toNat)
    (hle : resetDay.toNat ≤ 28) (now : Date) : Regular resetDay now := by
  refine ⟨.inl hpos, .inr (hle.trans ?_)⟩
  rw [lengthBefore]
  split_ifs
  · exact le_daysInMonth _ _
  · exact le_daysInMonth _ _

theorem periodAt_iff (resetDay : BitVec 8) {nowMs laterMs : ℕ} (hnow : 365 * dayMs ≤ nowMs)
    (hle : nowMs ≤ laterMs) (hlt : laterMs < 2 ^ 63) :
    PeriodAt resetDay nowMs laterMs ↔ Regular resetDay (dateOf (nowMs / dayMs)) := by
  obtain ⟨startMs, day, hstart⟩ :=
    billingPeriodStartMs_spec resetDay (inRange_of_le hnow (hle.trans_lt hlt))
  obtain ⟨laterStartMs, laterDay, hlater⟩ :=
    billingPeriodStartMs_spec resetDay (inRange_of_le (hnow.trans hle) hlt)
  have hrange {ms : ℕ} : startMs.toNat ≤ ms → ms ≤ nowMs → InRange ms :=
    hstart.inRange hnow (hle.trans_lt hlt)
  rw [Regular, ← hstart.starts.le_iff, ← hstart.starts.self_iff]
  constructor
  · rintro ⟨s, -, heq, -, hsle, -, hself, -⟩
    obtain rfl := Option.some.inj (heq.symm.trans hstart.eq)
    obtain ⟨day', hstart'⟩ := StartsAt.of_eq (hrange le_rfl hsle) hself
    have hday : day = day' := hstart.toNat_div.symm.trans hstart'.toNat_div
    have hfix := hstart'.starts
    rw [hstart.toNat_div, ← hday] at hfix
    exact ⟨hstart.toNat_le_iff.mp hsle, hfix⟩
  · rintro ⟨hsle, hself⟩
    rw [← hstart.toNat_le_iff] at hsle
    -- the start of an instant in between lies between the start and the start of the start
    have hbetween (ms : ℕ) (hms : startMs.toNat ≤ ms) (hmsNow : ms ≤ nowMs) :
        billingPeriodStartMs resetDay ms = some startMs := by
      obtain ⟨s, day', hs⟩ := billingPeriodStartMs_spec resetDay (hrange hms hmsNow)
      have hdays : day ≤ ms / dayMs := hstart.toNat_div ▸ Nat.div_le_div_right hms
      have hge := hself.mono hs.starts (ordinal_dateOf_le_iff.mpr hdays)
      have hle' := hs.mono hstart hmsNow
      have hday : startMs.toNat ≤ s.toNat := by
        rw [hstart.toNat_eq, hs.toNat_eq]
        exact Nat.mul_le_mul_right dayMs (ordinal_dateOf_le_iff.mp hge)
      rw [hs.eq, BitVec.eq_of_toNat_eq (le_antisymm hle' hday)]
    exact ⟨startMs, laterStartMs, hstart.eq, hlater.eq, hsle, hstart.mono hlater hle,
      hbetween _ le_rfl hsle, hbetween⟩

/-- At the midnights. -/
theorem periodAt_day_iff (resetDay : BitVec 8) {n : ℕ} (hn : 365 ≤ n) (hlt : n * dayMs < 2 ^ 63) :
    PeriodAt resetDay (n * dayMs) (n * dayMs) ↔ Regular resetDay (dateOf n) := by
  rw [periodAt_iff resetDay (Nat.mul_le_mul_right dayMs hn) le_rfl hlt,
    Nat.mul_div_cancel n (by decide)]

theorem dateOf_february : dateOf 396 = .first 1971 2 (by decide) (by decide) :=
  dateOf_first_month (by decide) dateOf_newYear rfl

theorem dateOf_march : dateOf 424 = .first 1971 3 (by decide) (by decide) :=
  dateOf_first_month (by decide) dateOf_february rfl

/-- The periods partition the time at an instant exactly if it is regular for the reset day, and
at all instants from 1971 on exactly for the reset days that every month has. -/
theorem billing_periods_partition_iff (resetDay : BitVec 8) :
    (∀ nowMs laterMs, 365 * dayMs ≤ nowMs → nowMs ≤ laterMs → laterMs < 2 ^ 63 →
      (PeriodAt resetDay nowMs laterMs ↔ Regular resetDay (dateOf (nowMs / dayMs)))) ∧
    ((∀ nowMs laterMs, 365 * dayMs ≤ nowMs → nowMs ≤ laterMs → laterMs < 2 ^ 63 →
      PeriodAt resetDay nowMs laterMs) ↔ 1 ≤ resetDay.toNat ∧ resetDay.toNat ≤ 28) := by
  refine ⟨fun nowMs laterMs hnow hle hlt => periodAt_iff resetDay hnow hle hlt, fun h => ?_,
    fun ⟨hpos, hle⟩ nowMs laterMs hnow hlater hlt => ?_⟩
  · have hregular (n : ℕ) (hn : 365 ≤ n) (hlt : n * dayMs < 2 ^ 63) :=
      (periodAt_day_iff resetDay hn hlt).mp (h _ _ (Nat.mul_le_mul_right dayMs hn) le_rfl hlt)
    -- the first of January is not the last day of its month, and the month before March is short
    have hnewYear := hregular 365 le_rfl (by decide)
    have hmarch := hregular 424 (by decide) (by decide)
    rw [dateOf_newYear] at hnewYear
    rw [dateOf_march] at hmarch
    refine ⟨hnewYear.1.resolve_right (by decide), ?_⟩
    exact hmarch.2.elim (fun h => h.trans (by decide)) id
  · exact (periodAt_iff resetDay hnow hlater hlt).mpr (regular_of_le hpos hle _)

/-- On 1 January 1971 reset day 0 starts the period on the 31st. On 1 March reset day 31 starts it
on 28 February, which is itself in the period that starts on 31 January. -/
theorem reset_days_out_of_month :
    (billingPeriodStartMs 0 (365 * dayMs) = some (BitVec.ofNat 64 (395 * dayMs)) ∧
      ¬ PeriodAt 0 (365 * dayMs) (365 * dayMs)) ∧
    billingPeriodStartMs 31 (424 * dayMs) = some (BitVec.ofNat 64 (423 * dayMs)) ∧
      billingPeriodStartMs 31 (423 * dayMs) = some (BitVec.ofNat 64 (395 * dayMs)) ∧
      ¬ PeriodAt 31 (424 * dayMs) (424 * dayMs) := by
  have hnewYear := dateOf_newYear
  have hmarch := dateOf_march
  have hjan : dateOf 395 = ⟨1971, 1, 31, by decide, by decide, by decide, by decide⟩ :=
    dateOf_first_add (i := 30) dateOf_newYear (by decide) rfl
  have hfeb : dateOf 423 = ⟨1971, 2, 28, by decide, by decide, by decide, by decide⟩ :=
    dateOf_first_add (i := 27) dateOf_february (by decide) rfl
  have hstart {resetDay : BitVec 8} {n day : ℕ}
      (h : billingPeriodStart resetDay (dateOf n) = some (dateOf day)) :
      billingPeriodStartMs resetDay (n * dayMs) = some (BitVec.ofNat 64 (day * dayMs)) := by
    apply billingPeriodStartMs_eq
    rwa [Nat.mul_div_cancel n (by decide)]
  refine ⟨⟨hstart ?_, ?_⟩, hstart ?_, hstart ?_, ?_⟩
  · rw [hnewYear, hjan]
    rfl
  · rw [periodAt_day_iff 0 le_rfl (by decide), hnewYear]
    decide
  · rw [hmarch, hfeb]
    rfl
  · rw [hfeb, hjan]
    rfl
  · rw [periodAt_day_iff 31 (by decide) (by decide), hmarch]
    decide

/-! ### The refresh -/

/-- With a reset day that every month has, a refresh stores the costs of the events whose period
is that of the instant. -/
theorem BudgetManager.refreshFromStore_eq {manager : BudgetManager}
    (hpos : 1 ≤ manager.config.resetDay.toNat) (hle : manager.config.resetDay.toNat ≤ 28)
    {nowMs : ℕ} (hnow : 365 * dayMs ≤ nowMs) (hlt : nowMs < 2 ^ 63) {events : List CostEvent}
    (hevents : ∀ event ∈ events,
      365 * dayMs ≤ event.timestampMs.toNat ∧ event.timestampMs.toNat ≤ nowMs) :
    ∃ startMs, billingPeriodStartMs manager.config.resetDay nowMs = some startMs ∧
      manager.refreshFromStore nowMs events = some { manager with
        currentSpendMicro := toMicro ((events.filter fun event =>
          billingPeriodStartMs manager.config.resetDay event.timestampMs.toNat =
            some startMs).map CostEvent.costUsd).sum } := by
  have hperiod (ms : ℕ) (hms : 365 * dayMs ≤ ms) (hmsLt : ms < 2 ^ 63) :=
    (periodAt_iff manager.config.resetDay hms le_rfl hmsLt).mpr (regular_of_le hpos hle _)
  obtain ⟨startMs, -, heq, -, -, -, -, hbetween⟩ := hperiod nowMs hnow hlt
  have hfilter : (events.filter fun event => startMs ≤ event.timestampMs) =
      events.filter fun event =>
        billingPeriodStartMs manager.config.resetDay event.timestampMs.toNat = some startMs := by
    apply List.filter_congr
    intro event hmem
    obtain ⟨hfrom, hto⟩ := hevents event hmem
    rw [decide_eq_decide]
    refine ⟨fun hstart => hbetween _ hstart hto, fun hevent => ?_⟩
    obtain ⟨s, -, hs, -, hsle, -⟩ := hperiod _ hfrom (hto.trans_lt hlt)
    obtain rfl := Option.some.inj (hs.symm.trans hevent)
    exact hsle
  refine ⟨startMs, heq, ?_⟩
  rw [refreshFromStore, heq, Option.map_some, storeTotal, periodTotal, hfilter]

end NeuRust.Observability
