import Mathlib.Algebra.Order.Archimedean.Basic
import Mathlib.Data.Int.Log
import Mathlib.Data.Rat.Floor

/-!
# Sums of doubles

A double is a rational that rounding leaves as it is, and the sum of two is their exact sum,
rounded to 53 bits, to the nearest and to the even one of two. Exponents are not bounded : a
sum of doubles that is too small for a normal one is exact, and overflow is left out.

Rounding what is not below a double gives nothing below it (`Double.le_round`), so adding what
is not negative does not take a double back. It need not move it on either.
-/

namespace Nigrains

namespace Double

/-- The distance between neighbouring doubles of the binade of a number. -/
def ulp (x : ℚ) : ℚ :=
  2 ^ (Int.log 2 |x| - 52)

/-- The nearest integer, the even one of two. -/
def roundEven (x : ℚ) : ℤ :=
  if 2 * Int.fract x < 1 ∨ (2 * Int.fract x = 1 ∧ Even ⌊x⌋) then ⌊x⌋ else ⌊x⌋ + 1

/-- The double nearest to a number. -/
def round (x : ℚ) : ℚ :=
  roundEven (x / ulp x) * ulp x

/-- The sum of two doubles. -/
def add (x y : ℚ) : ℚ :=
  round (x + y)

end Double

/-- A number that a double holds. -/
def IsDouble (x : ℚ) : Prop :=
  Double.round x = x

instance {x : ℚ} : Decidable (IsDouble x) :=
  inferInstanceAs (Decidable (Double.round x = x))

namespace Double

variable {x y : ℚ}

theorem ulp_pos (x : ℚ) : 0 < ulp x :=
  zpow_pos two_pos _

/-- Rounding crosses no integer. -/
theorem le_roundEven {k : ℤ} (h : k ≤ x) : k ≤ roundEven x := by
  have hfloor : k ≤ ⌊x⌋ := Int.le_floor.2 h
  unfold roundEven
  split_ifs
  · exact hfloor
  · exact Int.le_add_one hfloor

/-- Rounding crosses no multiple of the distance between doubles. -/
theorem mul_ulp_le_round {k : ℤ} (h : k * ulp x ≤ x) : k * ulp x ≤ round x := by
  have hk : (k : ℚ) ≤ x / ulp x := (le_div_iff₀ (ulp_pos x)).2 h
  exact mul_le_mul_of_nonneg_right (Int.cast_le.2 (le_roundEven hk)) (ulp_pos x).le

/-- A binade starts at a multiple of the distance between its doubles. -/
theorem two_pow_mul_ulp (x : ℚ) : 2 ^ 52 * ulp x = 2 ^ Int.log 2 |x| := by
  unfold ulp
  rw [← zpow_natCast, ← zpow_add₀ two_ne_zero]
  congr 1
  omega

/-- Doubles of a higher binade are multiples of the distance between those of a lower one. -/
theorem exists_ulp_eq (h : Int.log 2 |y| ≤ Int.log 2 |x|) : ∃ n : ℤ, ulp x = n * ulp y := by
  obtain ⟨n, hn⟩ := Int.eq_ofNat_of_zero_le (sub_nonneg.2 h)
  refine ⟨2 ^ n, ?_⟩
  unfold ulp
  push_cast
  rw [← zpow_natCast, ← zpow_add₀ two_ne_zero]
  congr 1
  omega

/-- A number below the binade of another is less than where that starts. -/
theorem abs_lt_of_log_lt (h : Int.log 2 |x| < Int.log 2 |y|) : |x| < 2 ^ Int.log 2 |y| :=
  (Int.lt_zpow_succ_log_self one_lt_two |x|).trans_le (zpow_le_zpow_right₀ one_le_two h)

/-- Rounding what is not below a double gives nothing below it. -/
theorem le_round (hx : IsDouble x) (h : x ≤ y) : x ≤ round y := by
  rcases le_or_gt (Int.log 2 |y|) (Int.log 2 |x|) with hlog | hlog
  · obtain ⟨n, hn⟩ := exists_ulp_eq hlog
    have hmul : ((roundEven (x / ulp x) * n : ℤ) : ℚ) * ulp y = x := by
      rw [Int.cast_mul, mul_assoc, ← hn]
      exact hx
    rw [← hmul] at h ⊢
    exact mul_ulp_le_round h
  · have habs := abs_lt_of_log_lt hlog
    rcases le_or_gt y 0 with hy | hy
    · -- a negative number is further from zero than what is above it
      rcases eq_or_lt_of_le hy with rfl | hy
      · simpa [round, roundEven] using h
      · have hxy : |y| ≤ |x| := by
          rw [abs_of_neg hy, abs_of_neg (h.trans_lt hy)]
          exact neg_le_neg h
        exact absurd (Int.log_mono_right (abs_pos.2 hy.ne) hxy) (not_le.2 hlog)
    · have hstart : ((2 ^ 52 : ℤ) : ℚ) * ulp y = 2 ^ Int.log 2 |y| := by
        rw [← two_pow_mul_ulp y]
        norm_num
      have hle : ((2 ^ 52 : ℤ) : ℚ) * ulp y ≤ y := by
        rw [hstart]
        exact (Int.zpow_log_le_self one_lt_two (abs_pos.2 hy.ne')).trans (abs_of_pos hy).le
      exact ((le_abs_self x).trans (habs.le.trans hstart.ge)).trans (mul_ulp_le_round hle)

/-- Adding what is not negative does not take a double back. -/
theorem le_add (hx : IsDouble x) (hy : 0 ≤ y) : x ≤ add x y :=
  le_round hx (le_add_of_nonneg_right hy)

/-- A small number is lost on a large one. -/
example : add 864000 (2 ^ (-37 : ℤ)) = 864000 := by decide +kernel

end Double

end Nigrains
