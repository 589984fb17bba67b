import Koklo.Foundations.DoubleDigits
import Koklo.Foundations.WholeDoubles

/-!
# Whole numbers beyond 53 bits

From `2 ^ 53` to `2 ^ 54` only the even numbers are doubles, and adding one leads to the
next multiple of four or leaves the number as it is (`round_round_add_one`). From `2 ^ 54` on
a double is unchanged by adding one (`round_add_one`).

A multiple of four up to `2 ^ 54` is still written with its digits
(`toText_of_four_dvd`). Larger doubles are written with some of their digits and zeros up to
`1e21`, and with an exponent from there on (`digits_positiveText`).
-/

set_option autoImplicit false

namespace Koklo.Foundations

namespace Binary64

/-! ## Rounding -/

/-- What is rounded is a double. -/
theorem round_round (q : ℚ) : round (round q) = round q := by
  have size : |q / unit q| < 2 ^ 53 := by
    have bound := abs_lt_units q
    rw [zpow_exponent_add q 53] at bound
    rw [abs_div, abs_of_pos (unit_pos q), div_lt_iff₀ (unit_pos q)]
    exact_mod_cast bound
  obtain ⟨below, above⟩ := abs_lt.mp size
  have small : |nearestEven (q / unit q)| ≤ 2 ^ 53 := by
    refine abs_le.mpr ⟨le_nearestEven ?_, nearestEven_le ?_⟩
    · push_cast
      exact below.le
    · push_cast
      exact above.le
  exact round_multiple small (le_max_right _ _)

/-- How the numbers next to powers of two and of ten are rounded. -/
theorem round_constants :
    round ((2 ^ 53 + 1 : ℤ) : ℚ) = 2 ^ 53 ∧ round ((2 ^ 53 + 3 : ℤ) : ℚ) = 2 ^ 53 + 4 ∧
      round (2 ^ 54 + 1) = 2 ^ 54 ∧ round ((2 ^ 54 + 4 : ℕ) : ℚ) = (2 ^ 54 + 4 : ℕ) ∧
      round ((10 ^ 21 - 65536 : ℕ) : ℚ) = 10 ^ 21 ∧
      round ((10 ^ 21 - 65537 : ℕ) : ℚ) < 10 ^ 21 ∧
      ∀ k < 5, round (10 ^ (k + 17 : ℕ)) = 10 ^ (k + 17 : ℕ) := by decide +kernel

theorem round_even {n : ℕ} (even : n % 2 = 0) (small : n ≤ 2 ^ 54) : round (n : ℚ) = n := by
  obtain ⟨k, rfl⟩ := Nat.dvd_of_mod_eq_zero even
  have bound : |(k : ℤ)| ≤ 2 ^ 53 := by
    rw [Nat.abs_cast]
    exact_mod_cast (show k ≤ 2 ^ 53 by omega)
  exact_mod_cast round_two_mul bound

/-- One more than a multiple of four rounds down. -/
theorem round_four_mul_add_one {n : ℕ} (multiple : n % 4 = 0) (lower : 2 ^ 53 ≤ n)
    (upper : n ≤ 2 ^ 54) : round ((n + 1 : ℕ) : ℚ) = n := by
  rcases upper.lt_or_eq with below | rfl
  · obtain ⟨k, rfl⟩ : ∃ k, n = 2 ^ 53 + 4 * k := ⟨(n - 2 ^ 53) / 4, by omega⟩
    have first := round_constants.1
    have moved := @round_add_four_mul (2 ^ 53 + 1) k (by norm_num) (by norm_num) (by omega) (by omega)
    rw [first] at moved
    have same : ((2 ^ 53 + 4 * k + 1 : ℕ) : ℚ) = ((2 ^ 53 + 1 + 4 * k : ℤ) : ℚ) := by
      push_cast
      ring
    rw [same, moved]
    push_cast
    ring
  · have limit := round_constants.2.2.1
    exact_mod_cast limit

/-- One less than a multiple of four rounds up. -/
theorem round_four_mul_sub_one {n : ℕ} (residue : n % 4 = 3) (lower : 2 ^ 53 ≤ n)
    (upper : n < 2 ^ 54) : round (n : ℚ) = (n + 1 : ℕ) := by
  obtain ⟨k, rfl⟩ : ∃ k, n = 2 ^ 53 + 3 + 4 * k := ⟨(n - 2 ^ 53) / 4, by omega⟩
  have first := round_constants.2.1
  have moved := @round_add_four_mul (2 ^ 53 + 3) k (by norm_num) (by norm_num) (by omega) (by omega)
  rw [first] at moved
  have same : ((2 ^ 53 + 3 + 4 * k : ℕ) : ℚ) = ((2 ^ 53 + 3 + 4 * k : ℤ) : ℚ) := by push_cast; ring
  rw [same, moved]
  push_cast
  ring

/-- The multiple of four to which a whole number leads when one is added to its rounding. -/
def nextFour (n : ℕ) : ℕ := if n % 4 < 2 then n - n % 4 else n - n % 4 + 4

theorem nextFour_mod (n : ℕ) : nextFour n % 4 = 0 := by
  rw [nextFour]
  split <;> omega

theorem le_nextFour {n : ℕ} (lower : 2 ^ 53 ≤ n) : 2 ^ 53 ≤ nextFour n := by
  rw [nextFour]
  split <;> omega

theorem nextFour_le {n : ℕ} (upper : n < 2 ^ 54) : nextFour n ≤ 2 ^ 54 := by
  rw [nextFour]
  split <;> omega

theorem lt_nextFour_iff {n : ℕ} : n < nextFour n ↔ 2 ≤ n % 4 := by
  rw [nextFour]
  split <;> omega

/-- **Adding one** to the rounding of a whole number from `2 ^ 53` to `2 ^ 54`. -/
theorem round_round_add_one {n : ℕ} (lower : 2 ^ 53 ≤ n) (upper : n < 2 ^ 54) :
    round (round n + 1) = nextFour n := by
  have four : n % 4 = 0 ∨ n % 4 = 1 ∨ n % 4 = 2 ∨ n % 4 = 3 := by omega
  have up {m : ℕ} (multiple : m % 4 = 0) (least : 2 ^ 53 ≤ m) (most : m ≤ 2 ^ 54)
      (same : nextFour n = m) : round ((m : ℚ) + 1) = nextFour n := by
    rw [same]
    exact_mod_cast round_four_mul_add_one multiple least most
  rcases four with residue | residue | residue | residue
  · rw [round_even (by omega) upper.le]
    refine up residue lower upper.le ?_
    rw [nextFour, if_pos (by omega), residue, Nat.sub_zero]
  · obtain ⟨m, rfl⟩ : ∃ m, n = m + 1 := ⟨n - 1, by omega⟩
    rw [round_four_mul_add_one (by omega) (by omega) (by omega)]
    refine up (by omega) (by omega) (by omega) ?_
    rw [nextFour, if_pos (by omega), residue, Nat.add_sub_cancel]
  · have next : round ((n + 1 : ℕ) : ℚ) = nextFour n := by
      rw [round_four_mul_sub_one (by omega) (by omega) (by omega), nextFour, if_neg (by omega)]
      congr 1
      omega
    rw [round_even (by omega) upper.le]
    exact_mod_cast next
  · rw [round_four_mul_sub_one residue lower upper]
    refine up (by omega) (by omega) (by omega) ?_
    rw [nextFour, if_neg (by omega)]
    omega

/-- **From `2 ^ 54` on a double is unchanged by adding one.** -/
theorem round_add_one {d : ℚ} (double : round d = d) (large : 2 ^ 54 ≤ d) : round (d + 1) = d := by
  rcases large.lt_or_eq with above | rfl
  · refine round_of_close double (lt_trans (by norm_num) above) ?_
    rw [add_sub_cancel_left, abs_one, lt_div_iff₀ (by norm_num), one_mul]
    exact above
  · exact round_constants.2.2.1

end Binary64

namespace Number

open Binary64

/-! ## The digits of a whole number -/

/-- A multiple of four is read back from no other multiple of ten. -/
theorem readsAlone_of_four_dvd {n : ℕ} (multiple : n % 4 = 0) (lower : 2 ^ 53 ≤ n)
    (upper : n ≤ 2 ^ 54) : ReadsAlone n where
  exact := round_even (by omega) upper
  alone m ten read := by
    have above : n - 2 < m := by
      by_contra less
      have order := round_mono (show (m : ℚ) ≤ (n - 2 : ℕ) by exact_mod_cast not_lt.mp less)
      rw [read, round_even (by omega) (by omega)] at order
      have : n ≤ n - 2 := by exact_mod_cast order
      omega
    have next : Binary64.round ((n + 4 : ℕ) : ℚ) = (n + 4 : ℕ) := by
      rcases upper.lt_or_eq with below | rfl
      · exact round_even (by omega) (by omega)
      · exact round_constants.2.2.2.1
    have below : m < n + 4 := by
      by_contra less
      have order := round_mono (show ((n + 4 : ℕ) : ℚ) ≤ m by exact_mod_cast not_lt.mp less)
      rw [read, next] at order
      have : n + 4 ≤ n := by exact_mod_cast order
      omega
    have apart : m ≠ n + 2 := by
      rintro rfl
      rw [round_even (by omega) (by omega)] at read
      have : n + 2 = n := by exact_mod_cast read
      omega
    omega

/-- **A multiple of four up to `2 ^ 54` is written with its digits.** -/
theorem toText_of_four_dvd {n : ℕ} (multiple : n % 4 = 0) (lower : 2 ^ 53 ≤ n)
    (upper : n ≤ 2 ^ 54) : toText (finite n) = Text.ofNat n :=
  toText_of_readsAlone (by omega) (by omega) (readsAlone_of_four_dvd multiple lower upper)

theorem isDigit_layOut {s : ℕ} {n : ℤ} (fits : ((Text.ofNat s).length : ℤ) ≤ n) (few : n ≤ 21)
    {u : CodeUnit} (member : u ∈ layOut (Text.ofNat s) n) : Text.isDigit u = true := by
  rw [layOut, if_pos ⟨fits, few⟩] at member
  rcases List.mem_append.mp member with digit | zero
  · exact Text.isDigit_of_mem_ofNat digit
  · rw [List.eq_of_mem_replicate zero]
    decide

/-- Beyond 21 digits there is an exponent. -/
theorem exponent_mem_layOut (digits : Text) {n : ℤ} (many : 21 < n) :
    (0x65 : CodeUnit) ∈ layOut digits n := by
  rw [layOut, if_neg (by omega), if_neg (by omega), if_neg (by omega)]
  refine List.mem_append_left _ (List.mem_append_right _ ?_)
  rw [if_pos (by omega)]
  decide

/-- **A large double is written with digits only up to `1e21`.** -/
theorem digits_positiveText {q : ℚ} (double : Binary64.round q = q) (large : 10 ^ 16 ≤ q) :
    (∀ u ∈ positiveText q, Text.isDigit u = true) ↔ q < 10 ^ 21 := by
  have positive : 0 < q := lt_of_lt_of_le (by norm_num) large
  have lower : (10 : ℚ) ^ Int.log 10 q ≤ q := by
    exact_mod_cast Int.zpow_log_le_self (by norm_num : 1 < 10) positive
  have upper : q < 10 ^ (Int.log 10 q + 1) := by
    exact_mod_cast Int.lt_zpow_succ_log_self (by norm_num : 1 < 10) q
  have least : 16 ≤ Int.log 10 q := by
    apply (Int.zpow_le_iff_le_log (by norm_num) positive).mp
    exact_mod_cast large
  have wide {n : ℤ} (many : n ≤ Int.log 10 q) : (10 : ℚ) ^ n ≤ q :=
    (zpow_le_zpow_right₀ (by norm_num) many).trans lower
  by_cases many : 20 < Int.log 10 q
  · have apart : ¬ q < 10 ^ 21 := by
      apply not_lt.mpr
      exact_mod_cast wide (n := 21) (by omega)
    refine iff_of_false (fun all => ?_) apart
    have digit : Text.isDigit (0x65 : CodeUnit) = true := by
      apply all
      rw [positiveText]
      split
      · exact exponent_mem_layOut _ (by omega)
      · exact exponent_mem_layOut _ (by omega)
    revert digit
    decide
  · have below : q < 10 ^ 21 := by
      refine upper.trans_le ?_
      have := zpow_le_zpow_right₀ (by norm_num : (1 : ℚ) ≤ 10) (show Int.log 10 q + 1 ≤ 21 by omega)
      exact_mod_cast this
    have power : ¬ Binary64.round (10 ^ (Int.log 10 q + 1)) = q := by
      have exact : Binary64.round (10 ^ (Int.log 10 q + 1)) = 10 ^ (Int.log 10 q + 1) := by
        obtain ⟨k, small, value⟩ : ∃ k < 5, Int.log 10 q + 1 = ((k + 17 : ℕ) : ℤ) :=
          ⟨(Int.log 10 q - 16).toNat, by omega, by omega⟩
        rw [value, zpow_natCast]
        exact round_constants.2.2.2.2.2.2 k small
      rw [exact]
      exact upper.ne'
    refine iff_of_true (fun u member => ?_) below
    rw [positiveText] at member
    rw [if_neg power] at member
    have lower' : (10 : ℚ) ^ (Int.log 10 q + 1 - 1) ≤ q := by
      rw [add_sub_cancel_right]
      exact lower
    obtain ⟨t, candidate⟩ := exists_candidate double lower' upper power
    obtain ⟨i, s, some, early, chosen, digits⟩ := shortest_candidate (by decide) le_rfl candidate
    obtain ⟨i, rfl⟩ := Nat.exists_eq_add_of_le' some
    have length := length_of_mem_digitCandidates chosen
    rw [digits] at member
    exact isDigit_layOut (by omega) (by omega) member

/-! ## The number nearest to a whole number -/

/-- The double of a whole number, beyond which the number is infinite. -/
theorem nearest_natCast_cases (n : ℕ) :
    (nearest n = posInf ∧ (2 : ℚ) ^ 1024 ≤ Binary64.round n) ∨
      (nearest n = finite (Binary64.round n) ∧ Binary64.round n < 2 ^ 1024) := by
  have nonneg : 0 ≤ Binary64.round (n : ℚ) := round_nonneg (Nat.cast_nonneg n)
  have below : ¬ Binary64.round (n : ℚ) ≤ -2 ^ 1024 := by
    apply not_le.mpr
    calc -(2 : ℚ) ^ 1024 < 0 := neg_lt_zero.mpr (by positivity)
      _ ≤ _ := nonneg
  rcases le_or_gt ((2 : ℚ) ^ 1024) (Binary64.round n) with large | small
  · exact .inl ⟨if_pos large, large⟩
  · refine .inr ⟨?_, small⟩
    rw [nearest, if_neg (not_le.mpr small), if_neg below, if_neg (fun zero => (Nat.cast_nonneg n).not_gt zero.2)]

theorem nearest_natCast_ne_nan (n : ℕ) : nearest n ≠ nan := by
  rcases nearest_natCast_cases n with ⟨value, _⟩ | ⟨value, _⟩
  · rw [value]
    exact Number.noConfusion
  · rw [value]
    exact Number.noConfusion

/-- The numbers nearest to whole numbers are ordered as their doubles. -/
theorem nearest_le {m n : ℕ} (le : m ≤ n) : (nearest m).le (nearest n) = true := by
  have order := round_mono (show (m : ℚ) ≤ n by exact_mod_cast le)
  rcases nearest_natCast_cases m with ⟨first, large⟩ | ⟨first, small⟩
  · rcases nearest_natCast_cases n with ⟨second, _⟩ | ⟨second, small⟩
    · rw [first, second]
      rfl
    · exact absurd (large.trans order) (not_le.mpr small)
  · rcases nearest_natCast_cases n with ⟨second, _⟩ | ⟨second, _⟩
    · rw [first, second]
      rfl
    · rw [first, second]
      exact decide_eq_true order

theorem nearest_eq_of_le {m n : ℕ} (le : m ≤ n) (back : (nearest n).le (nearest m) = true) :
    nearest m = nearest n := by
  have order := round_mono (show (m : ℚ) ≤ n by exact_mod_cast le)
  rcases nearest_natCast_cases m with ⟨first, large⟩ | ⟨first, small⟩
  · rcases nearest_natCast_cases n with ⟨second, _⟩ | ⟨second, small⟩
    · rw [first, second]
    · exact absurd (large.trans order) (not_le.mpr small)
  · rcases nearest_natCast_cases n with ⟨second, _⟩ | ⟨second, _⟩
    · rw [first, second] at back
      cases back
    · rw [first, second] at back
      rw [first, second, le_antisymm order (of_decide_eq_true back)]

/-- What rounds to an even number up to `2 ^ 54` is read as it. -/
theorem nearest_of_round_even {x : ℚ} {n : ℕ} (positive : 0 < n) (even : n % 2 = 0)
    (small : n ≤ 2 ^ 54) (read : Binary64.round x = n) : nearest x = finite n := by
  refine nearest_of_round ⟨round_even even small, ?_⟩ (Nat.cast_pos.mpr positive) read
  have size : (n : ℚ) ≤ 2 ^ 54 := by exact_mod_cast small
  rw [abs_of_nonneg (Nat.cast_nonneg n)]
  exact size.trans_lt (pow_lt_pow_right₀ (by norm_num) (by norm_num))

/-- **Adding one** to the number nearest to a whole number from `2 ^ 53` to `2 ^ 54`. -/
theorem nearest_add_one {n : ℕ} (lower : 2 ^ 53 ≤ n) (upper : n < 2 ^ 54) :
    (nearest n).add (finite 1) = finite (nextFour n) := by
  have four := nextFour_mod n
  have most : (2 : ℚ) ^ 54 < 2 ^ 1024 := pow_lt_pow_right₀ (by norm_num) (by norm_num)
  have small : Binary64.round (n : ℚ) ≤ 2 ^ 54 := by
    have order := round_mono (show (n : ℚ) ≤ (2 ^ 54 : ℕ) by exact_mod_cast upper.le)
    rw [round_even (by norm_num) le_rfl] at order
    exact_mod_cast order
  rcases nearest_natCast_cases n with ⟨_, large⟩ | ⟨value, _⟩
  · exact absurd (large.trans small) (not_le.mpr most)
  · rw [value]
    exact nearest_of_round_even (by have := le_nextFour lower; omega) (by omega) (nextFour_le upper)
      (round_round_add_one lower upper)

/-- **Adding one** to the number nearest to a whole number leaves it as it is from `2 ^ 54` on. -/
theorem nearest_add_one_of_le {n : ℕ} (large : 2 ^ 54 ≤ n) :
    (nearest n).add (finite 1) = nearest n := by
  have least : (2 : ℚ) ^ 54 ≤ Binary64.round n := by
    have order := round_mono (show ((2 ^ 54 : ℕ) : ℚ) ≤ n by exact_mod_cast large)
    rw [round_even (by norm_num) le_rfl] at order
    exact_mod_cast order
  have positive : 0 < Binary64.round (n : ℚ) := lt_of_lt_of_le (by norm_num) least
  rcases nearest_natCast_cases n with ⟨value, _⟩ | ⟨value, small⟩
  · rw [value]
    rfl
  · rw [value]
    refine nearest_of_round ⟨round_round n, ?_⟩ positive (round_add_one (round_round n) least)
    rw [abs_of_pos positive]
    exact small

/-- Adding one to a multiple of four from `2 ^ 53` to `2 ^ 54` leaves it as it is. -/
theorem add_one_of_four_dvd {n : ℕ} (multiple : n % 4 = 0) (lower : 2 ^ 53 ≤ n)
    (upper : n ≤ 2 ^ 54) : (finite n).add (finite 1) = finite n := by
  refine nearest_of_round_even (by omega) (by omega) upper ?_
  exact_mod_cast round_four_mul_add_one multiple lower upper

/-- The whole numbers whose double is below `1e21`. -/
theorem round_lt_iff {n : ℕ} : Binary64.round (n : ℚ) < 10 ^ 21 ↔ n < 10 ^ 21 - 65536 := by
  constructor
  · intro below
    by_contra above
    have order := round_mono (show ((10 ^ 21 - 65536 : ℕ) : ℚ) ≤ n by exact_mod_cast not_lt.mp above)
    have up := round_constants.2.2.2.2.1
    rw [up] at order
    exact absurd below (not_lt.mpr order)
  · intro less
    have order := round_mono (show (n : ℚ) ≤ (10 ^ 21 - 65537 : ℕ) by
      exact_mod_cast Nat.le_sub_one_of_lt less)
    have down := round_constants.2.2.2.2.2.1
    exact order.trans_lt down

/-- The greater of the numbers nearest to two whole numbers. -/
theorem max_nearest (m n : ℕ) : (nearest m).max (nearest n) = nearest (Nat.max m n : ℕ) := by
  rw [max, if_neg (not_or.mpr ⟨nearest_natCast_ne_nan m, nearest_natCast_ne_nan n⟩)]
  rcases le_total m n with le | le
  · rw [show Nat.max m n = n from Nat.max_eq_right le]
    split
    · exact nearest_eq_of_le le ‹_›
    · rfl
  · rw [show Nat.max m n = m from Nat.max_eq_left le, if_pos (nearest_le le)]

end Number

end Koklo.Foundations
