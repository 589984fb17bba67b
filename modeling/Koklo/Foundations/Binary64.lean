import Mathlib.Algebra.Order.Round
import Mathlib.Data.Int.Log
import Mathlib.Data.Rat.Floor
import Mathlib.Tactic.Linarith
import Mathlib.Tactic.Positivity

/-!
# Rounding to double precision

The arithmetic of double-precision numbers gives the double nearest to the
exact result, and of two that are equally near the one whose last bit is zero.
Here a finite double is the rational it stands for, and `round` is the rounding
of a rational, as long as it does not overflow: a double is a multiple of its
unit in the last place by an integer below `2 ^ 53`.

Rounding is monotone (`round_mono`), leaves every double as it is
(`round_multiple`), so in particular every integer up to `2 ^ 53`
(`round_intCast`), and errs by at most half a unit (`abs_round_sub_le`).
-/

set_option autoImplicit false

namespace Koklo.Foundations.Binary64

/-! ## The nearest integer -/

/-- The nearest integer, and of two the even one. -/
def nearestEven (q : ℚ) : ℤ :=
  if Int.fract q < 1 / 2 then ⌊q⌋
  else if 1 / 2 < Int.fract q then ⌊q⌋ + 1
  else if ⌊q⌋ % 2 = 0 then ⌊q⌋ else ⌊q⌋ + 1

theorem floor_le_nearestEven (q : ℚ) : ⌊q⌋ ≤ nearestEven q := by
  unfold nearestEven
  split_ifs <;> omega

theorem nearestEven_le_floor_add_one (q : ℚ) : nearestEven q ≤ ⌊q⌋ + 1 := by
  unfold nearestEven
  split_ifs <;> omega

@[simp] theorem nearestEven_intCast (n : ℤ) : nearestEven n = n := by
  rw [nearestEven, Int.fract_intCast, if_pos (by norm_num), Int.floor_intCast]

/-- The nearest integer is at most half a unit away. -/
theorem abs_nearestEven_sub_le (q : ℚ) : |(nearestEven q : ℚ) - q| ≤ 1 / 2 := by
  have whole := Int.floor_add_fract q
  have positive := Int.fract_nonneg q
  have small := Int.fract_lt_one q
  unfold nearestEven
  rw [abs_le]
  split_ifs with below above even
  · constructor <;> linarith
  · push_cast
    constructor <;> linarith
  · constructor <;> linarith
  · push_cast
    constructor <;> linarith

theorem nearestEven_mono {q r : ℚ} (le : q ≤ r) : nearestEven q ≤ nearestEven r := by
  rcases (Int.floor_le_floor le).lt_or_eq with lt | same
  · calc nearestEven q ≤ ⌊q⌋ + 1 := nearestEven_le_floor_add_one q
      _ ≤ ⌊r⌋ := lt
      _ ≤ nearestEven r := floor_le_nearestEven r
  · have fracts : Int.fract q ≤ Int.fract r := by
      have left := Int.floor_add_fract q
      have right := Int.floor_add_fract r
      have cast : (⌊q⌋ : ℚ) = ⌊r⌋ := by rw [same]
      linarith
    unfold nearestEven
    rw [same]
    split_ifs <;> first | omega | linarith

/-- Between two integers, the nearest integer is too. -/
theorem nearestEven_le {q : ℚ} {n : ℤ} (le : q ≤ n) : nearestEven q ≤ n := by
  have here := nearestEven_mono le
  rwa [nearestEven_intCast] at here

theorem le_nearestEven {q : ℚ} {n : ℤ} (le : (n : ℚ) ≤ q) : n ≤ nearestEven q := by
  have here := nearestEven_mono le
  rwa [nearestEven_intCast] at here

theorem nearestEven_neg (q : ℚ) : nearestEven (-q) = -nearestEven q := by
  have whole := Int.floor_add_fract q
  rcases (Int.fract_nonneg q).eq_or_lt with zero | positive
  · have integer : q = ⌊q⌋ := by linarith
    rw [integer, ← Int.cast_neg, nearestEven_intCast, nearestEven_intCast]
  · have below : ⌊-q⌋ = -⌊q⌋ - 1 := by
      rw [Int.floor_eq_iff]
      have small := Int.fract_lt_one q
      push_cast
      constructor <;> linarith
    have rest : Int.fract (-q) = 1 - Int.fract q := by
      rw [Int.fract, below, Int.fract]
      push_cast
      ring
    unfold nearestEven
    rw [rest, below]
    split_ifs <;> first | omega | linarith

/-! ## Rounding -/

/-- The exponent of the unit in the last place. -/
def exponent (q : ℚ) : ℤ := max (Int.log 2 |q| - 52) (-1074)

/-- The unit in the last place of the doubles around a rational. -/
def unit (q : ℚ) : ℚ := 2 ^ exponent q

/-- The double nearest to a rational. -/
def round (q : ℚ) : ℚ := nearestEven (q / unit q) * unit q

theorem unit_pos (q : ℚ) : 0 < unit q := zpow_pos (by norm_num) _

@[simp] theorem round_zero : round 0 = 0 := by
  rw [round, zero_div]
  simp [nearestEven]

theorem round_neg (q : ℚ) : round (-q) = -round q := by
  have same : unit (-q) = unit q := by rw [unit, exponent, abs_neg, ← exponent, ← unit]
  rw [round, same, neg_div, nearestEven_neg, round]
  push_cast
  ring

/-- Rounding errs by at most half a unit. -/
theorem abs_round_sub_le (q : ℚ) : |round q - q| ≤ unit q / 2 := by
  have positive := unit_pos q
  have scaled : round q - q = (nearestEven (q / unit q) - q / unit q) * unit q := by
    rw [sub_mul, div_mul_cancel₀ _ positive.ne', round]
  rw [scaled, abs_mul, abs_of_pos positive]
  have near := abs_nearestEven_sub_le (q / unit q)
  calc |(nearestEven (q / unit q) : ℚ) - q / unit q| * unit q ≤ 1 / 2 * unit q :=
        mul_le_mul_of_nonneg_right near positive.le
    _ = unit q / 2 := by ring

/-- A rational has fewer than `2 ^ 53` units. -/
theorem abs_lt_units (q : ℚ) : |q| < 2 ^ (exponent q + 53) := by
  have bound := Int.lt_zpow_succ_log_self one_lt_two |q|
  refine lt_of_lt_of_le bound (zpow_le_zpow_right₀ (by norm_num) ?_)
  have reached := le_max_left (Int.log 2 |q| - 52) (-1074)
  rw [← exponent] at reached
  omega

/-- A rational above the smallest unit has at least `2 ^ 52` units. -/
theorem units_le_abs {q : ℚ} (some : q ≠ 0) (large : -1074 < exponent q) :
    2 ^ (exponent q + 52) ≤ |q| := by
  have shape : exponent q = Int.log 2 |q| - 52 := by
    rcases max_choice (Int.log 2 |q| - 52) (-1074) with left | right
    · exact left
    · rw [← exponent] at right
      omega
  rw [shape, sub_add_cancel]
  exact Int.zpow_log_le_self one_lt_two (abs_pos.mpr some)

/-- What is a whole number of units is a double. -/
theorem round_of_whole {q : ℚ} {n : ℤ} (whole : q / unit q = n) : round q = q := by
  rw [round, whole, nearestEven_intCast, ← whole, div_mul_cancel₀ _ (unit_pos q).ne']

/-- **A multiple of a power of two by an integer up to `2 ^ 53` is a double.** -/
theorem round_multiple {m k : ℤ} (small : |m| ≤ 2 ^ 53) (normal : -1074 ≤ k) :
    round ((m : ℚ) * 2 ^ k) = m * 2 ^ k := by
  rcases eq_or_ne m 0 with rfl | some
  · rw [Int.cast_zero, zero_mul, round_zero]
  have two : (2 : ℚ) ≠ 0 := by norm_num
  have nonzero : (m : ℚ) * 2 ^ k ≠ 0 := mul_ne_zero (Int.cast_ne_zero.mpr some) (zpow_ne_zero k two)
  have size : |(m : ℚ) * 2 ^ k| = |(m : ℚ)| * 2 ^ k := by
    rw [abs_mul, abs_of_pos (zpow_pos (by norm_num : (0 : ℚ) < 2) k)]
  have bound : |(m : ℚ)| ≤ 2 ^ (53 : ℤ) := by exact_mod_cast small
  by_cases fine : exponent ((m : ℚ) * 2 ^ k) ≤ k
  · obtain ⟨d, exact⟩ := Int.eq_ofNat_of_zero_le (sub_nonneg.mpr fine)
    refine round_of_whole (n := m * 2 ^ d) ?_
    rw [unit, mul_div_assoc, ← zpow_sub₀ two, exact]
    push_cast
    rfl
  · -- Only `2 ^ 53` itself has a coarser unit, and it is half as many of those.
    rw [not_le] at fine
    have large := units_le_abs nonzero (normal.trans_lt fine)
    rw [size] at large
    have step : (2 : ℚ) ^ (53 : ℤ) * 2 ^ k ≤ |(m : ℚ)| * 2 ^ k := by
      refine le_trans ?_ large
      rw [← zpow_add₀ two]
      exact zpow_le_zpow_right₀ (by norm_num) (by omega)
    have top : |(m : ℚ)| = 2 ^ (53 : ℤ) :=
      le_antisymm bound (le_of_mul_le_mul_right step (zpow_pos (by norm_num) k))
    have next : exponent ((m : ℚ) * 2 ^ k) = k + 1 := by
      rw [top, ← zpow_add₀ two] at large
      have less := (zpow_le_zpow_iff_right₀ (by norm_num : (1 : ℚ) < 2)).mp large
      omega
    have even : m = 2 * (m / 2) := by
      have whole : |m| = 2 ^ 53 := by exact_mod_cast top
      rcases abs_eq (by norm_num) |>.mp whole with rfl | rfl <;> norm_num
    refine round_of_whole (n := m / 2) ?_
    rw [unit, next, zpow_add_one₀ two, mul_comm _ (2 : ℚ), mul_div_mul_right _ _ (zpow_ne_zero k two),
      div_eq_iff two, mul_comm]
    exact_mod_cast even

/-- **An integer up to `2 ^ 53` is a double.** -/
theorem round_intCast {n : ℤ} (small : |n| ≤ 2 ^ 53) : round n = n := by
  have here := round_multiple small (by norm_num : (-1074 : ℤ) ≤ 0)
  simpa using here

theorem exponent_mono {q r : ℚ} (some : q ≠ 0) (le : |q| ≤ |r|) : exponent q ≤ exponent r := by
  have logs : Int.log 2 |q| ≤ Int.log 2 |r| := Int.log_mono_right (abs_pos.mpr some) le
  exact max_le_max (by omega) le_rfl

/-- Rounding is monotone on positive rationals. -/
theorem round_mono_of_pos {q r : ℚ} (positive : 0 < q) (le : q ≤ r) : round q ≤ round r := by
  have positive' := positive.trans_le le
  have grows : exponent q ≤ exponent r := by
    refine exponent_mono positive.ne' ?_
    rw [abs_of_pos positive, abs_of_pos positive']
    exact le
  rcases grows.eq_or_lt with same | lt
  · have units : unit q = unit r := by rw [unit, same, ← unit]
    rw [round, round, units]
    refine mul_le_mul_of_nonneg_right ?_ (unit_pos r).le
    exact_mod_cast nearestEven_mono (div_le_div_of_nonneg_right le (unit_pos r).le)
  · -- A power of two separates the doubles of the two units.
    have two : (2 : ℚ) ≠ 0 := by norm_num
    have floor : -1074 ≤ exponent q := le_max_right _ _
    have upper : round q ≤ 2 ^ (exponent q + 53) := by
      have few : q / unit q ≤ ((2 ^ 53 : ℤ) : ℚ) := by
        rw [div_le_iff₀ (unit_pos q)]
        have bound := (abs_lt_units q).le
        rw [abs_of_pos positive, zpow_add₀ two, mul_comm] at bound
        exact_mod_cast bound
      have near := nearestEven_le few
      rw [round, zpow_add₀ two, mul_comm, ← unit]
      refine mul_le_mul_of_nonneg_left ?_ (unit_pos q).le
      exact_mod_cast near
    have lower : 2 ^ (exponent r + 52) ≤ round r := by
      have many : ((2 ^ 52 : ℤ) : ℚ) ≤ r / unit r := by
        rw [le_div_iff₀ (unit_pos r)]
        have bound := units_le_abs positive'.ne' (floor.trans_lt lt)
        rw [abs_of_pos positive', zpow_add₀ two, mul_comm] at bound
        exact_mod_cast bound
      have near := le_nearestEven many
      rw [round, zpow_add₀ two, mul_comm, ← unit]
      refine mul_le_mul_of_nonneg_right ?_ (unit_pos r).le
      exact_mod_cast near
    calc round q ≤ 2 ^ (exponent q + 53) := upper
      _ ≤ 2 ^ (exponent r + 52) := zpow_le_zpow_right₀ (by norm_num) (by omega)
      _ ≤ round r := lower

theorem round_nonneg {q : ℚ} (nonneg : 0 ≤ q) : 0 ≤ round q := by
  have near : 0 ≤ nearestEven (q / unit q) :=
    le_nearestEven (by rw [Int.cast_zero]; exact div_nonneg nonneg (unit_pos q).le)
  exact mul_nonneg (Int.cast_nonneg near) (unit_pos q).le

/-- **Rounding is monotone.** -/
theorem round_mono {q r : ℚ} (le : q ≤ r) : round q ≤ round r := by
  rcases lt_trichotomy q 0 with negative | rfl | positive
  · rcases lt_or_ge r 0 with negative' | nonneg
    · have flipped := round_mono_of_pos (neg_pos.mpr negative') (neg_le_neg le)
      rw [round_neg, round_neg] at flipped
      exact neg_le_neg_iff.mp flipped
    · have mirrored := round_nonneg (neg_nonneg.mpr negative.le)
      rw [round_neg] at mirrored
      exact (neg_nonneg.mp mirrored).trans (round_nonneg nonneg)
  · rw [round_zero]
    exact round_nonneg le
  · exact round_mono_of_pos positive le

end Koklo.Foundations.Binary64
