import Koklo.Foundations.NumberText

/-!
# The digits of a double

A rational that is close to a double, relatively to its size, rounds to it (`round_of_close`). The
seventeen digits nearest to a double are that close, unless they are those of the power of ten above
it (`exists_candidate`), and so the text of a positive double lays out digits from which the double
is read back (`exists_digits`).
-/

set_option autoImplicit false

namespace Koklo.Foundations

namespace Binary64

/-- An integer less than half a unit away is the nearest. -/
theorem nearestEven_eq {q : ℚ} {n : ℤ} (near : |q - n| < 1 / 2) : nearestEven q = n := by
  have apart : |((nearestEven q - n : ℤ) : ℚ)| < 1 := by
    push_cast
    calc |(nearestEven q : ℚ) - n| ≤ |(nearestEven q : ℚ) - q| + |q - n| := abs_sub_le _ _ _
      _ < 1 / 2 + 1 / 2 := add_lt_add_of_le_of_lt (abs_nearestEven_sub_le q) near
      _ = 1 := by norm_num
  have whole : |nearestEven q - n| < 1 := by exact_mod_cast apart
  exact sub_eq_zero.mp (Int.abs_lt_one_iff.mp whole)

/-- A whole number of units less than half a unit away is what a rational rounds to. -/
theorem round_of_near {x q : ℚ} {n : ℤ} (whole : q = n * unit x) (near : |x - q| < unit x / 2) :
    round x = q := by
  have positive := unit_pos x
  have units : |x / unit x - n| < 1 / 2 := by
    have scaled : x / unit x - n = (x - q) / unit x := by
      rw [whole, sub_div, mul_div_cancel_right₀ _ positive.ne']
    rw [scaled, abs_div, abs_of_pos positive, div_lt_iff₀ positive]
    linarith
  rw [round, nearestEven_eq units, whole]

/-- A double is a whole number of its units. -/
theorem exists_units {q : ℚ} (double : round q = q) : ∃ m : ℤ, q = m * unit q :=
  ⟨nearestEven (q / unit q), double.symm⟩

/-- The powers of two around a double, in its units. -/
theorem zpow_exponent_add (q : ℚ) (k : ℤ) : (2 : ℚ) ^ (exponent q + k) = 2 ^ k * unit q := by
  rw [zpow_add₀ (by norm_num : (2 : ℚ) ≠ 0), unit, mul_comm]

theorem lt_units {q : ℚ} (positive : 0 < q) : q < 2 ^ 53 * unit q := by
  have bound := abs_lt_units q
  rw [abs_of_pos positive, zpow_exponent_add q 53] at bound
  exact_mod_cast bound

theorem units_le {q : ℚ} (positive : 0 < q) (normal : -1074 < exponent q) :
    2 ^ 52 * unit q ≤ q := by
  have bound := units_le_abs positive.ne' normal
  rw [abs_of_pos positive, zpow_exponent_add q 52] at bound
  exact_mod_cast bound

/-- A coarser unit is twice as large at least. -/
theorem two_mul_unit_le {q r : ℚ} (finer : exponent q < exponent r) : 2 * unit q ≤ unit r := by
  rw [unit, unit, mul_comm, ← zpow_add_one₀ (by norm_num : (2 : ℚ) ≠ 0)]
  exact zpow_le_zpow_right₀ (by norm_num) finer

/-- A double just below which the units are finer is a power of two. -/
theorem round_of_close_below {q x : ℚ} {m : ℤ} (units : q = m * unit q) (positive : 0 < q)
    (positive' : 0 < x) (finer : exponent x < exponent q) (close : q - x < q / 2 ^ 54) :
    round x = q := by
  have fine := unit_pos q
  have most := lt_units positive
  have least := units_le positive (lt_of_le_of_lt (le_max_right _ _) finer)
  have under : x < 2 ^ 52 * unit q := by
    have bound := lt_units positive'
    have twice := two_mul_unit_le finer
    linarith
  have power : m = 2 ^ 52 := by
    have lower : (2 : ℚ) ^ 52 ≤ m := le_of_mul_le_mul_right (least.trans_eq units) fine
    have upper : (m : ℚ) < 2 ^ 52 + 1 := by
      apply lt_of_mul_lt_mul_right _ fine.le
      rw [← units]
      linarith
    have lower' : 2 ^ 52 ≤ m := by exact_mod_cast lower
    have upper' : m < 2 ^ 52 + 1 := by exact_mod_cast upper
    omega
  have value : q = 2 ^ 52 * unit q := by
    rw [power] at units
    exact_mod_cast units
  have twice : unit q = 2 * unit x := by
    have next : exponent q = exponent x + 1 := by
      have reached : (2 : ℚ) ^ (exponent q + 51) < 2 ^ (exponent x + 53) := by
        rw [zpow_exponent_add, zpow_exponent_add]
        have bound := lt_units positive'
        have lower : 2 ^ 51 * unit q < x := by linarith
        exact_mod_cast lower.trans bound
      have := (zpow_lt_zpow_iff_right₀ (by norm_num : (1 : ℚ) < 2)).mp reached
      omega
    rw [unit, next, zpow_add_one₀ (by norm_num : (2 : ℚ) ≠ 0), mul_comm, ← unit]
  refine @round_of_near x q (2 ^ 53) ?_ ?_
  · push_cast
    linarith
  · rw [abs_sub_comm, abs_of_pos (by linarith)]
    linarith

/-- **What is close to a double, relatively to its size, rounds to it.** -/
theorem round_of_close {q x : ℚ} (double : round q = q) (positive : 0 < q)
    (close : |x - q| < q / 2 ^ 54) : round x = q := by
  obtain ⟨m, units⟩ := exists_units double
  have fine := unit_pos q
  have most := lt_units positive
  obtain ⟨below, above⟩ := abs_lt.mp close
  have positive' : 0 < x := by
    have : q / 2 ^ 54 ≤ q := div_le_self positive.le (by norm_num)
    linarith
  rcases lt_trichotomy (exponent x) (exponent q) with finer | same | coarser
  · exact round_of_close_below units positive positive' finer (by linarith)
  · have alike : unit x = unit q := by rw [unit, same, ← unit]
    refine round_of_near (alike ▸ units) (close.trans ?_)
    rw [alike]
    linarith
  · -- The doubles of coarser units are a unit above the double at least.
    have least := units_le positive' (lt_of_le_of_lt (le_max_right _ _) coarser)
    have twice := two_mul_unit_le coarser
    have few : (m : ℚ) + 1 ≤ 2 ^ 53 := by
      have less : (m : ℚ) < 2 ^ 53 := lt_of_mul_lt_mul_right (units.symm.trans_lt most) fine.le
      have less' : m < 2 ^ 53 := by exact_mod_cast less
      exact_mod_cast less'
    have next : q + unit q ≤ 2 ^ 53 * unit q := by
      have grown := mul_le_mul_of_nonneg_right few fine.le
      rw [add_mul, one_mul, ← units] at grown
      exact grown
    linarith

end Binary64

namespace Number

/-- Seventeen digits that are nearest to a double are read back as it. -/
theorem round_of_digits {q : ℚ} (double : Binary64.round q = q) {n : ℤ} (lower : 10 ^ (n - 1) ≤ q) {s : ℕ}
    (near : |(s : ℚ) - q * 10 ^ (17 - n)| ≤ 1 / 2) : Binary64.round (s * 10 ^ (n - 17)) = q := by
  have ten : (10 : ℚ) ≠ 0 := by norm_num
  have power : (0 : ℚ) < 10 ^ (n - 17) := zpow_pos (by norm_num) _
  have back : q * 10 ^ (17 - n) * 10 ^ (n - 17) = q := by
    rw [mul_assoc, ← zpow_add₀ ten, show 17 - n + (n - 17) = 0 from by ring, zpow_zero, mul_one]
  have error : |(s : ℚ) * 10 ^ (n - 17) - q| ≤ 1 / 2 * 10 ^ (n - 17) := by
    have scaled : (s : ℚ) * 10 ^ (n - 17) - q =
        ((s : ℚ) - q * 10 ^ (17 - n)) * 10 ^ (n - 17) := by rw [sub_mul, back]
    rw [scaled, abs_mul, abs_of_pos power]
    exact mul_le_mul_of_nonneg_right near power.le
  have size : 10 ^ 16 * (10 : ℚ) ^ (n - 17) ≤ q := by
    have shape : (10 : ℚ) ^ (n - 1) = 10 ^ 16 * 10 ^ (n - 17) := by
      rw [show n - 1 = 16 + (n - 17) from by ring, zpow_add₀ ten]
      norm_cast
    rw [← shape]
    exact lower
  refine Binary64.round_of_close double ?_ (error.trans_lt ?_)
  · exact (mul_pos (by norm_num) power).trans_le size
  · rw [lt_div_iff₀ (by norm_num)]
    linarith

/-- **Seventeen digits are enough**, unless the power of ten above is read back as the double. -/
theorem exists_candidate {q : ℚ} (double : Binary64.round q = q) {n : ℤ} (lower : 10 ^ (n - 1) ≤ q)
    (upper : q < 10 ^ n) (apart : Binary64.round (10 ^ n) ≠ q) : ∃ s, s ∈ digitCandidates q n 17 := by
  have ten : (10 : ℚ) ≠ 0 := by norm_num
  have scale : (0 : ℚ) < 10 ^ (17 - n) := zpow_pos (by norm_num) _
  have least : (10 : ℚ) ^ 16 ≤ q * 10 ^ (17 - n) := by
    have grown := mul_le_mul_of_nonneg_right lower scale.le
    rw [← zpow_add₀ ten, show n - 1 + (17 - n) = 16 from by ring] at grown
    exact_mod_cast grown
  have most : q * 10 ^ (17 - n) < 10 ^ 17 := by
    have grown := mul_lt_mul_of_pos_right upper scale
    rw [← zpow_add₀ ten, show n + (17 - n) = 17 from by ring] at grown
    exact_mod_cast grown
  obtain ⟨f, floor⟩ : ∃ f : ℕ, ⌊q * 10 ^ (17 - n)⌋ = f :=
    Int.eq_ofNat_of_zero_le (Int.floor_nonneg.mpr (by linarith))
  have whole := Int.floor_le (q * 10 ^ (17 - n))
  have next := Int.lt_floor_add_one (q * 10 ^ (17 - n))
  rw [floor] at whole next
  push_cast at whole next
  have long : 10 ^ 16 ≤ f := by
    have : (10 ^ 16 : ℤ) ≤ ⌊q * 10 ^ (17 - n)⌋ := Int.le_floor.mpr (by exact_mod_cast least)
    rw [floor] at this
    exact_mod_cast this
  have short : f < 10 ^ 17 := by
    have : (f : ℚ) < 10 ^ 17 := whole.trans_lt most
    exact_mod_cast this
  have candidate : ∀ s : ℕ, s = f ∨ s = f + 1 → |(s : ℚ) - q * 10 ^ (17 - n)| ≤ 1 / 2 →
      s ∈ digitCandidates q n 17 := by
    intro s tried near
    have read := round_of_digits double lower near
    rw [digitCandidates, List.mem_filter, decide_eq_true_eq]
    refine ⟨?_, ?_, ?_, read⟩
    · show s ∈ [⌊q * 10 ^ (17 - n)⌋.toNat, ⌊q * 10 ^ (17 - n)⌋.toNat + 1]
      rw [floor, Int.toNat_natCast]
      rcases tried with rfl | rfl
      · exact List.mem_cons_self
      · exact List.mem_cons_of_mem _ List.mem_cons_self
    · show 10 ^ 16 ≤ s
      omega
    · apply lt_of_le_of_ne (by omega)
      rintro rfl
      apply apart
      have shape : (10 : ℚ) ^ n = ((10 ^ 17 : ℕ) : ℚ) * 10 ^ (n - 17) := by
        rw [show n = 17 + (n - 17) from by ring, zpow_add₀ ten, add_sub_cancel_left]
        norm_cast
      rw [shape, read]
  rcases le_total (q * 10 ^ (17 - n) - f) (1 / 2) with near | far
  · refine ⟨f, candidate f (.inl rfl) ?_⟩
    rw [abs_le]
    constructor <;> linarith
  · refine ⟨f + 1, candidate (f + 1) (.inr rfl) ?_⟩
    push_cast
    rw [abs_le]
    constructor <;> linarith

/-- **The text of a positive double** lays out digits from which the double is read back. -/
theorem exists_digits {q : ℚ} (double : Binary64.round q = q) (positive : 0 < q) :
    ∃ (s : ℕ) (n : ℤ), 0 < s ∧ positiveText q = layOut (Text.ofNat s) n ∧
      Binary64.round (s * 10 ^ (n - (Text.ofNat s).length)) = q := by
  obtain ⟨n, exponent⟩ : ∃ n, n = Int.log 10 q + 1 := ⟨_, rfl⟩
  by_cases power : Binary64.round (10 ^ n) = q
  · refine ⟨1, n + 1, by decide, ?_, ?_⟩
    · rw [positiveText, ← exponent, if_pos power]
      rfl
    · rw [show ((Text.ofNat 1).length : ℤ) = 1 from rfl, add_sub_cancel_right, Nat.cast_one,
        one_mul, power]
  · have lower : (10 : ℚ) ^ (n - 1) ≤ q := by
      rw [exponent, add_sub_cancel_right]
      exact_mod_cast Int.zpow_log_le_self (by norm_num : 1 < 10) positive
    have upper : q < 10 ^ n := by
      rw [exponent]
      exact_mod_cast Int.lt_zpow_succ_log_self (by norm_num : 1 < 10) q
    obtain ⟨t, candidate⟩ := exists_candidate double lower upper power
    obtain ⟨i, s, some, _, chosen, digits⟩ := shortest_candidate (by decide) le_rfl candidate
    obtain ⟨i, rfl⟩ := Nat.exists_eq_add_of_le' some
    have length := length_of_mem_digitCandidates chosen
    obtain ⟨long, _, read⟩ := of_decide_eq_true (List.mem_filter.mp chosen).2
    refine ⟨s, n, (Nat.pow_pos (by decide)).trans_le long, ?_, ?_⟩
    · rw [positiveText, ← exponent, if_neg power, digits]
    · rw [length]
      exact read

/-! ## Finite doubles -/

/-- The value of a finite double. -/
structure Double (q : ℚ) : Prop where
  exact : Binary64.round q = q
  bounded : |q| < 2 ^ 1024

theorem Double.neg {q : ℚ} (double : Double q) : Double (-q) where
  exact := by rw [Binary64.round_neg, double.exact]
  bounded := by
    rw [abs_neg]
    exact double.bounded

theorem double_zero : Double 0 where
  exact := Binary64.round_zero
  bounded := by norm_num

/-- A whole number of at most 53 bits is a double. -/
theorem double_natCast {n : ℕ} (small : n ≤ 2 ^ 53) : Double n where
  exact := by
    have bound : |(n : ℤ)| ≤ 2 ^ 53 := by
      rw [abs_of_nonneg (Int.natCast_nonneg n)]
      exact_mod_cast small
    exact_mod_cast Binary64.round_intCast bound
  bounded := by
    have size : (n : ℚ) ≤ 2 ^ 53 := by exact_mod_cast small
    have wide : (2 : ℚ) ^ 53 < 2 ^ 1024 := pow_lt_pow_right₀ (by norm_num) (by norm_num)
    rw [abs_of_nonneg (Nat.cast_nonneg n)]
    exact size.trans_lt wide

/-- What rounds to a positive double is read as it. -/
theorem nearest_of_round {q x : ℚ} (double : Double q) (positive : 0 < q)
    (read : Binary64.round x = q) : nearest x = finite q := by
  obtain ⟨below, above⟩ := abs_lt.mp double.bounded
  rw [nearest, read]
  rw [if_neg (not_le.mpr above), if_neg (not_le.mpr below),
    if_neg fun zero => positive.ne' zero.1]

end Number

end Koklo.Foundations
