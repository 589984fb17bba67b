import Koklo.Foundations.Binary64

/-!
# Whole numbers in double precision

The operations of double-precision numbers on whole numbers. Up to `2 ^ 53` they are exact,
and up to `2 ^ 54` on even numbers (`round_two_mul`); beyond, the rounding of a whole number
is whole (`exists_round_intCast`) and is moved by the multiples of four by which its argument
is (`round_add_four_mul`). The floor of a quotient is that of the exact one, as long as the
divisor is larger than the error (`floor_round_div`).
-/

set_option autoImplicit false

namespace Koklo.Foundations.Binary64

/-! ## Operations -/

/-- `a + b`. -/
def add (a b : ℚ) : ℚ := round (a + b)

/-- `a - b`. -/
def sub (a b : ℚ) : ℚ := round (a - b)

/-- `a * b`. -/
def mul (a b : ℚ) : ℚ := round (a * b)

/-- `a / b`, for a divisor that is not zero. -/
def div (a b : ℚ) : ℚ := round (a / b)

/-! ## Units -/

/-- A bound of the unit of a rational. -/
theorem unit_le {q : ℚ} {k : ℕ} (one : 1 ≤ k) (bound : |q| < 2 ^ k) :
    unit q ≤ 2 ^ ((k : ℤ) - 53) := by
  rw [unit]
  apply zpow_le_zpow_right₀ (by norm_num)
  rcases eq_or_ne q 0 with rfl | some
  · rw [exponent, abs_zero, Int.log_zero_right]
    omega
  · have log : Int.log 2 |q| < k := by
      apply (Int.lt_zpow_iff_log_lt one_lt_two (abs_pos.mpr some)).mp
      exact_mod_cast bound
    rw [exponent]
    omega

/-- The unit of a number between two powers of two. -/
theorem unit_eq {q : ℚ} {k : ℕ} (lower : 2 ^ k ≤ |q|) (upper : |q| < 2 ^ (k + 1)) :
    unit q = 2 ^ ((k : ℤ) - 52) := by
  have some : 0 < |q| := lt_of_lt_of_le (by positivity) lower
  have above : (k : ℤ) ≤ Int.log 2 |q| := by
    apply (Int.zpow_le_iff_le_log one_lt_two some).mp
    exact_mod_cast lower
  have below : Int.log 2 |q| < k + 1 := by
    apply (Int.lt_zpow_iff_log_lt one_lt_two some).mp
    exact_mod_cast upper
  have log : Int.log 2 |q| = k := by omega
  rw [unit, exponent, log, max_eq_left (by omega)]

/-! ## Whole numbers -/

/-- Rounding a whole number gives a whole number. -/
theorem exists_round_intCast (n : ℤ) : ∃ m : ℤ, round n = m := by
  rcases le_or_gt |n| (2 ^ 53) with small | large
  · exact ⟨n, round_intCast small⟩
  · have bound : (2 : ℚ) ^ 53 < |(n : ℚ)| := by exact_mod_cast large
    have log : 53 ≤ Int.log 2 |(n : ℚ)| := by
      apply (Int.zpow_le_iff_le_log one_lt_two (lt_trans (by norm_num) bound)).mp
      exact_mod_cast bound.le
    have shape : exponent (n : ℚ) = ((Int.log 2 |(n : ℚ)| - 52).toNat : ℤ) := by
      rw [exponent]
      omega
    refine ⟨nearestEven (n / unit n) * 2 ^ (Int.log 2 |(n : ℚ)| - 52).toNat, ?_⟩
    rw [round, Int.cast_mul, unit, shape, zpow_natCast]
    norm_cast

/-- An even number up to `2 ^ 54` is a double. -/
theorem round_two_mul {n : ℤ} (small : |n| ≤ 2 ^ 53) : round ((2 * n : ℤ) : ℚ) = (2 * n : ℤ) := by
  have here := round_multiple small (show (-1074 : ℤ) ≤ 1 by norm_num)
  rw [zpow_one] at here
  rw [Int.cast_mul, Int.cast_ofNat, mul_comm]
  exact here

theorem nearestEven_add_two_mul (q : ℚ) (k : ℤ) :
    nearestEven (q + (2 * k : ℤ)) = nearestEven q + 2 * k := by
  have even : (⌊q⌋ + 2 * k) % 2 = ⌊q⌋ % 2 := by omega
  rw [nearestEven, nearestEven, Int.fract_add_intCast, Int.floor_add_intCast, even]
  split_ifs <;> ring

/-- **Above `2 ^ 53` a multiple of four moves the rounding.** -/
theorem round_add_four_mul {n k : ℤ} (lower : 2 ^ 53 ≤ n) (upper : n < 2 ^ 54)
    (lower' : 2 ^ 53 ≤ n + 4 * k) (upper' : n + 4 * k < 2 ^ 54) :
    round ((n + 4 * k : ℤ) : ℚ) = round (n : ℚ) + (4 * k : ℤ) := by
  have two : ∀ m : ℤ, 2 ^ 53 ≤ m → m < 2 ^ 54 → unit (m : ℚ) = 2 := by
    intro m below above
    have size : |(m : ℚ)| = m := abs_of_nonneg (by exact_mod_cast le_trans (by norm_num) below)
    rw [unit_eq (k := 53) (by rw [size]; exact_mod_cast below) (by rw [size]; exact_mod_cast above)]
    norm_num
  have shift : ((n + 4 * k : ℤ) : ℚ) / 2 = n / 2 + (2 * k : ℤ) := by
    push_cast
    ring
  rw [round, two _ lower' upper', shift, nearestEven_add_two_mul, round, two _ lower upper]
  push_cast
  ring

/-- **The floor of a quotient** of whole numbers. -/
theorem floor_round_div {a : ℤ} {b k : ℕ} (positive : 0 < b) (one : 1 ≤ k) (few : k ≤ 53)
    (bound : |(a : ℚ) / b| < 2 ^ k) (fine : b < 2 ^ (54 - k)) :
    ⌊round ((a : ℚ) / b)⌋ = a / b := by
  have divisor : (0 : ℚ) < b := by exact_mod_cast positive
  have floor : ⌊(a : ℚ) / b⌋ = a / b := Rat.floor_intCast_div_natCast a b
  have below : ((a / b : ℤ) : ℚ) ≤ a / b := Int.le_floor.mp floor.ge
  have above : (a : ℚ) / b < (a / b : ℤ) + 1 := Int.floor_le_iff.mp floor.le
  have small : |a / (b : ℤ)| ≤ 2 ^ 53 := by
    have power : (2 : ℚ) ^ k ≤ 2 ^ 53 := pow_le_pow_right₀ (by norm_num) few
    obtain ⟨low, high⟩ := abs_lt.mp bound
    rw [abs_le]
    constructor
    · have : (-(2 : ℚ) ^ 53) < (a / b : ℤ) + 1 := by linarith
      have : (-(2 : ℤ) ^ 53) < a / b + 1 := by exact_mod_cast this
      omega
    · have : ((a / b : ℤ) : ℚ) ≤ 2 ^ 53 := by linarith
      exact_mod_cast this
  have error : round ((a : ℚ) / b) - a / b ≤ 2 ^ ((k : ℤ) - 54) := by
    have near := (abs_le.mp (abs_round_sub_le ((a : ℚ) / b))).2
    have half : (2 : ℚ) ^ ((k : ℤ) - 53) / 2 = 2 ^ ((k : ℤ) - 54) := by
      rw [show (k : ℤ) - 53 = (k - 54) + 1 by ring, zpow_add_one₀ (by norm_num)]
      ring
    have unit := unit_le one bound
    rw [← half]
    linarith
  have room : (2 : ℚ) ^ ((k : ℤ) - 54) < 1 / b := by
    have wide : (b : ℚ) < 2 ^ (54 - k) := by exact_mod_cast fine
    have power : (2 : ℚ) ^ ((k : ℤ) - 54) = 1 / 2 ^ (54 - k) := by
      rw [one_div, ← zpow_natCast, ← zpow_neg]
      congr 1
      omega
    rw [power]
    exact one_div_lt_one_div_of_lt divisor wide
  have last : (a : ℚ) / b ≤ (a / b : ℤ) + 1 - 1 / b := by
    have rest : a ≤ a / b * b + (b - 1) := by
      have parts := Int.mul_ediv_add_emod a b
      have less := Int.emod_lt_of_pos a (show (0 : ℤ) < b by exact_mod_cast positive)
      rw [mul_comm] at parts
      omega
    have cast : (a : ℚ) ≤ (a / b : ℤ) * b + (b - 1) := by exact_mod_cast rest
    rw [div_le_iff₀ divisor, sub_mul, add_mul, one_mul, one_div_mul_cancel divisor.ne']
    linarith
  rw [Int.floor_eq_iff]
  constructor
  · calc ((a / b : ℤ) : ℚ) = round ((a / b : ℤ) : ℚ) := (round_intCast small).symm
      _ ≤ round ((a : ℚ) / b) := round_mono below
  · linarith

/-- **The floor of a quotient of counts** is their quotient, whatever their sizes. -/
theorem floor_round_div_natCast {a b : ℕ} (positive : 0 < b) (dividend : a < 2 ^ 53)
    (divisor : b < 2 ^ 53) : ⌊round ((a : ℚ) / b)⌋ = (a / b : ℕ) := by
  have quotient : a / b < 2 ^ 53 := (Nat.div_le_self a b).trans_lt dividend
  have bits : (a / b).log2 + 1 ≤ 53 ∧ b < 2 ^ (54 - ((a / b).log2 + 1)) := by
    by_cases zero : a / b = 0
    · rw [zero, Nat.log2_zero]
      exact ⟨by norm_num, divisor⟩
    · have few := (Nat.log2_lt zero).mpr quotient
      refine ⟨few, ?_⟩
      have scaled : 2 ^ (a / b).log2 * b < 2 ^ (a / b).log2 * 2 ^ (54 - ((a / b).log2 + 1)) := by
        calc 2 ^ (a / b).log2 * b ≤ a / b * b := Nat.mul_le_mul_right b (Nat.log2_self_le zero)
          _ ≤ a := Nat.div_mul_le_self a b
          _ < 2 ^ 53 := dividend
          _ = 2 ^ (a / b).log2 * 2 ^ (54 - ((a / b).log2 + 1)) := by
            rw [← pow_add]
            congr 1
            omega
      exact Nat.lt_of_mul_lt_mul_left scaled
  have bound : |((a : ℤ) : ℚ) / b| < 2 ^ ((a / b).log2 + 1) := by
    have whole : a < 2 ^ ((a / b).log2 + 1) * b := (Nat.div_lt_iff_lt_mul positive).mp Nat.lt_log2_self
    rw [Int.cast_natCast, abs_of_nonneg (by positivity), div_lt_iff₀ (by exact_mod_cast positive)]
    exact_mod_cast whole
  have floor := floor_round_div positive (Nat.le_add_left 1 _) bits.1 bound bits.2
  rw [Int.cast_natCast] at floor
  rw [floor, Int.natCast_div]

/-- The sum of counts is exact up to 53 bits. -/
theorem add_natCast {m n : ℕ} (small : m + n ≤ 2 ^ 53) : add m n = (m + n : ℕ) := by
  have bound : |((m + n : ℕ) : ℤ)| ≤ 2 ^ 53 := by
    rw [Nat.abs_cast]
    exact_mod_cast small
  have exact := round_intCast bound
  rw [add]
  exact_mod_cast exact

end Koklo.Foundations.Binary64
