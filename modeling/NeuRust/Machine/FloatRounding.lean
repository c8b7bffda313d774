import Mathlib.Algebra.Order.Field.Power
import Mathlib.Algebra.Order.Floor.Ring
import Mathlib.Data.Int.Log
import Mathlib.Tactic.Linarith

/-!
Rounding to a floating-point format: to the nearest value and, where two are as near, to the one
whose last digit is even. A format has a radix, a number of digits and a least exponent. What
becomes of values that are too large for it is left to its user.
-/

namespace NeuRust

variable {K : Type*} [Field K] [LinearOrder K] [IsStrictOrderedRing K] [FloorRing K]

/-! ### To an integer -/

/-- The nearest integer, in a tie the even one. -/
def roundEven (x : K) : ℤ :=
  if Int.fract x < 1 - Int.fract x ∨ Int.fract x = 1 - Int.fract x ∧ ⌊x⌋ % 2 = 0 then ⌊x⌋
  else ⌊x⌋ + 1

omit [IsStrictOrderedRing K] in
theorem floor_le_roundEven (x : K) : ⌊x⌋ ≤ roundEven x := by
  rw [roundEven]
  split <;> omega

omit [IsStrictOrderedRing K] in
theorem roundEven_le_floor_add_one (x : K) : roundEven x ≤ ⌊x⌋ + 1 := by
  rw [roundEven]
  split <;> omega

@[simp] theorem roundEven_intCast (n : ℤ) : roundEven (n : K) = n := by
  rw [roundEven, Int.fract_intCast, Int.floor_intCast, if_pos (.inl (by simp))]

theorem roundEven_mono {x y : K} (h : x ≤ y) : roundEven x ≤ roundEven y := by
  rcases (Int.floor_mono h).lt_or_eq with hlt | heq
  · calc roundEven x ≤ ⌊x⌋ + 1 := roundEven_le_floor_add_one x
      _ ≤ ⌊y⌋ := hlt
      _ ≤ roundEven y := floor_le_roundEven y
  · -- the same two neighbours, and `y` is no farther from the upper one
    have hfract : Int.fract x ≤ Int.fract y := by
      rw [Int.fract, Int.fract, heq]
      exact sub_le_sub_right h _
    by_cases hdown : Int.fract y < 1 - Int.fract y ∨ Int.fract y = 1 - Int.fract y ∧ ⌊y⌋ % 2 = 0
    · have hdown' : Int.fract x < 1 - Int.fract x ∨
          Int.fract x = 1 - Int.fract x ∧ ⌊x⌋ % 2 = 0 := by
        rw [heq]
        rcases hdown with hlt | ⟨htie, heven⟩
        · exact .inl (by linarith)
        · rcases hfract.lt_or_eq with hless | hsame
          · exact .inl (by linarith)
          · exact .inr ⟨by rw [hsame]; exact htie, heven⟩
      rw [roundEven, roundEven, if_pos hdown', if_pos hdown, heq]
    · calc roundEven x ≤ ⌊x⌋ + 1 := roundEven_le_floor_add_one x
        _ = roundEven y := by rw [roundEven, if_neg hdown, heq]

theorem roundEven_neg (x : K) : roundEven (-x) = -roundEven x := by
  by_cases hint : Int.fract x = 0
  · have hx : x = (⌊x⌋ : K) := by
      rw [Int.fract, sub_eq_zero] at hint
      exact hint
    rw [hx, ← Int.cast_neg, roundEven_intCast, roundEven_intCast]
  · have hfract : Int.fract (-x) = 1 - Int.fract x := Int.fract_neg hint
    have hfloor : ⌊-x⌋ = -⌊x⌋ - 1 := by
      have hneg : ((⌊-x⌋ : ℤ) : K) = ((-⌊x⌋ - 1 : ℤ) : K) := by
        have := Int.self_sub_floor (-x)
        have := Int.self_sub_floor x
        push_cast
        linarith
      exact_mod_cast hneg
    rw [roundEven, roundEven, hfract, hfloor, sub_sub_cancel]
    -- the nearer neighbour of the one is opposite that of the other, and of two as near one is even
    rcases lt_trichotomy (Int.fract x) (1 - Int.fract x) with hlt | htie | hgt
    · rw [if_neg, if_pos (.inl hlt)]
      · omega
      · rintro (h | ⟨h, -⟩) <;> linarith
    · rcases Int.emod_two_eq_zero_or_one ⌊x⌋ with heven | hodd
      · rw [if_neg, if_pos (.inr ⟨htie, heven⟩)]
        · omega
        · rintro (h | ⟨-, h⟩)
          · exact h.ne htie.symm
          · omega
      · rw [if_pos (.inr ⟨htie.symm, by omega⟩), if_neg]
        · omega
        · rintro (h | ⟨-, h⟩)
          · exact h.ne htie
          · omega
    · rw [if_pos (.inl hgt), if_neg]
      · omega
      · rintro (h | ⟨h, -⟩)
        · exact h.not_gt hgt
        · exact hgt.ne h.symm

/-! ### To a format -/

/-- The radix, how many digits a value has, and the least exponent of its last one. -/
structure FloatFormat where
  radix : ℕ
  precision : ℕ
  minExponent : ℤ
  one_lt_radix : 1 < radix
  precision_pos : 0 < precision

def binary64 : FloatFormat := ⟨2, 53, -1074, by decide, by decide⟩

namespace FloatFormat

variable (format : FloatFormat)

def exponent (x : K) : ℤ := max (Int.log format.radix |x| + 1 - format.precision) format.minExponent

def unit (x : K) : K := format.radix ^ format.exponent x

def round (x : K) : K := roundEven (x / format.unit x) * format.unit x

variable {format} {x y : K}

theorem zpow_radix_pos (e : ℤ) : (0 : K) < format.radix ^ e :=
  zpow_pos (Nat.cast_pos.mpr (zero_lt_one.trans format.one_lt_radix)) e

theorem unit_pos (x : K) : 0 < format.unit x := zpow_radix_pos _

omit [IsStrictOrderedRing K] in
theorem unit_neg (x : K) : format.unit (-x) = format.unit x := by
  rw [unit, unit, exponent, exponent, abs_neg]

@[simp] theorem round_zero : format.round (0 : K) = 0 := by
  rw [round, zero_div, ← Int.cast_zero, roundEven_intCast, Int.cast_zero, zero_mul]

theorem round_neg (x : K) : format.round (-x) = -format.round x := by
  rw [round, round, unit_neg, neg_div, roundEven_neg, Int.cast_neg, neg_mul]

omit [IsStrictOrderedRing K] in
/-- A power of the radix is a multiple of every unit below it. -/
theorem exists_mul_unit {e : ℤ} (h : format.exponent x ≤ e) :
    ∃ n : ℤ, (format.radix : K) ^ e = n * format.unit x := by
  have hexp : ((e - format.exponent x).toNat : ℤ) = e - format.exponent x :=
    Int.toNat_of_nonneg (sub_nonneg.mpr h)
  have hradix : (format.radix : K) ≠ 0 :=
    Nat.cast_ne_zero.mpr (zero_lt_one.trans format.one_lt_radix).ne'
  refine ⟨(format.radix : ℤ) ^ (e - format.exponent x).toNat, ?_⟩
  rw [Int.cast_pow, Int.cast_natCast, ← zpow_natCast, hexp, unit, ← zpow_add₀ hradix,
    sub_add_cancel]

/-- Rounding does not cross a multiple of the unit. -/
theorem round_le_of_multiple {n : ℤ} (h : x ≤ n * format.unit x) :
    format.round x ≤ n * format.unit x := by
  have hle : roundEven (x / format.unit x) ≤ n := by
    rw [← roundEven_intCast (K := K) n]
    exact roundEven_mono ((div_le_iff₀ (unit_pos x)).mpr h)
  exact mul_le_mul_of_nonneg_right (by exact_mod_cast hle) (unit_pos x).le

theorem le_round_of_multiple {n : ℤ} (h : n * format.unit x ≤ x) :
    n * format.unit x ≤ format.round x := by
  have hle : n ≤ roundEven (x / format.unit x) := by
    rw [← roundEven_intCast (K := K) n]
    exact roundEven_mono ((le_div_iff₀ (unit_pos x)).mpr h)
  exact mul_le_mul_of_nonneg_right (by exact_mod_cast hle) (unit_pos x).le

theorem round_of_multiple {n : ℤ} (h : x = n * format.unit x) : format.round x = x := by
  apply le_antisymm
  · exact (round_le_of_multiple h.le).trans h.ge
  · exact h.le.trans (le_round_of_multiple h.ge)

theorem round_nonneg (h : 0 ≤ x) : 0 ≤ format.round x := by
  have hzero : ((0 : ℤ) : K) * format.unit x ≤ x := by
    rw [Int.cast_zero, zero_mul]
    exact h
  have hle := le_round_of_multiple hzero
  rw [Int.cast_zero, zero_mul] at hle
  exact hle

/-- Between values with different units lies a power of the radix that is a multiple of both. -/
theorem round_mono_of_pos (hx : 0 < x) (h : x ≤ y) : format.round x ≤ format.round y := by
  have hy : 0 < y := hx.trans_le h
  have hradix := format.one_lt_radix
  have hlog : Int.log format.radix |x| ≤ Int.log format.radix |y| := by
    rw [abs_of_pos hx, abs_of_pos hy]
    exact Int.log_mono_right hx h
  have hexp : format.exponent x ≤ format.exponent y := max_le_max (by omega) le_rfl
  rcases hexp.lt_or_eq with hlt | heq
  · have hdigits := format.precision_pos
    have hbelow : Int.log format.radix |x| < Int.log format.radix |y| := by
      rw [exponent, exponent] at hlt
      omega
    have hunit : format.exponent y ≤ Int.log format.radix |y| := by
      rw [exponent] at hlt
      rw [exponent] at hlt ⊢
      omega
    have hxpow : x ≤ (format.radix : K) ^ Int.log format.radix |y| := by
      have hlt := Int.lt_zpow_succ_log_self hradix |x|
      rw [abs_of_pos hx] at hlt hbelow
      exact hlt.le.trans (zpow_le_zpow_right₀ (by exact_mod_cast hradix.le) (by omega))
    have hypow : (format.radix : K) ^ Int.log format.radix |y| ≤ y := by
      have hle := Int.zpow_log_le_self hradix hy
      rwa [abs_of_pos hy]
    obtain ⟨m, hm⟩ := exists_mul_unit (hexp.trans hunit)
    obtain ⟨n, hn⟩ := exists_mul_unit hunit
    calc format.round x ≤ (format.radix : K) ^ Int.log format.radix |y| := by
          rw [hm] at hxpow ⊢
          exact round_le_of_multiple hxpow
      _ ≤ format.round y := by
          rw [hn] at hypow ⊢
          exact le_round_of_multiple hypow
  · have hunit : format.unit x = format.unit y := by rw [unit, unit, heq]
    rw [round, round, hunit]
    apply mul_le_mul_of_nonneg_right _ (unit_pos y).le
    exact_mod_cast roundEven_mono (div_le_div_of_nonneg_right h (unit_pos y).le)

theorem round_mono (h : x ≤ y) : format.round x ≤ format.round y := by
  rcases lt_or_ge 0 x with hx | hx
  · exact round_mono_of_pos hx h
  · have hnonpos : format.round x ≤ 0 := by
      rw [← neg_nonneg, ← round_neg]
      exact round_nonneg (neg_nonneg.mpr hx)
    rcases lt_or_ge y 0 with hy | hy
    · rw [← neg_le_neg_iff, ← round_neg, ← round_neg]
      exact round_mono_of_pos (neg_pos.mpr hy) (neg_le_neg h)
    · exact hnonpos.trans (round_nonneg hy)

/-- An integer that has no more digits than the format is rounded to itself. -/
theorem round_natCast {n : ℕ} (hn : n < format.radix ^ format.precision)
    (hmin : format.minExponent ≤ 0) : format.round (n : K) = n := by
  rcases Nat.eq_zero_or_pos n with rfl | hpos
  · rw [Nat.cast_zero, round_zero]
  have hlog : Int.log format.radix |(n : K)| + 1 ≤ format.precision := by
    rw [abs_of_nonneg (Nat.cast_nonneg n), Int.log_natCast]
    have := Nat.log_lt_of_lt_pow hpos.ne' hn
    omega
  have hexp : format.exponent (n : K) ≤ 0 := max_le (by omega) hmin
  obtain ⟨m, hm⟩ := exists_mul_unit hexp
  apply round_of_multiple (n := n * m)
  rw [Int.cast_mul, mul_assoc, ← hm, zpow_zero, mul_one, Int.cast_natCast]

end FloatFormat

end NeuRust
