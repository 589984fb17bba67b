import Koklo.Foundations.Binary64
import Koklo.Foundations.Decimal
import Koklo.Foundations.Number

/-!
# Numbers and their texts

Arithmetic of numbers rounds the exact result to double precision. The text of
a number has the fewest significant digits from which the number is read back,
and of two such the nearest; it is written without exponent below `1e21`. Whole
numbers of at most 53 bits are numbers as they are (`nearest_natCast`) and are
written with their digits (`toText_natCast`).
-/

set_option autoImplicit false

namespace Koklo.Foundations.Number

/-- The number nearest to a rational; beyond the doubles it is infinite. -/
def nearest (q : ℚ) : Number :=
  let r := Binary64.round q
  if 2 ^ 1024 ≤ r then posInf
  else if r ≤ -2 ^ 1024 then negInf
  else if r = 0 ∧ q < 0 then negZero
  else finite r

/-- `a + b`. -/
def add : Number → Number → Number
  | nan, _ | _, nan | posInf, negInf | negInf, posInf => nan
  | posInf, _ | _, posInf => posInf
  | negInf, _ | _, negInf => negInf
  | negZero, negZero => negZero
  | negZero, b => b
  | a, negZero => a
  | finite p, finite q => nearest (p + q)

/-- `-a`. -/
def neg : Number → Number
  | nan => nan
  | posInf => negInf
  | negInf => posInf
  | negZero => finite 0
  | finite q => if q = 0 then negZero else finite (-q)

/-- `Math.max(a, b)`, the zeros apart. -/
def max (a b : Number) : Number :=
  if a = nan ∨ b = nan then nan else if b.le a then a else b

/-- `Number(text)` for a text of decimal digits. -/
def ofDecimal (digits : Text) : Number := nearest (Text.decimal digits)

/-! ## The text of a number -/

/-- The integers of `k` digits around a positive number below `10 ^ n`, from
which the number is read back. -/
def digitCandidates (q : ℚ) (n : ℤ) (k : ℕ) : List ℕ :=
  let scaled := q * 10 ^ (k - n)
  [⌊scaled⌋.toNat, ⌊scaled⌋.toNat + 1].filter fun s =>
    10 ^ (k - 1) ≤ s ∧ s < 10 ^ k ∧ Binary64.round (s * 10 ^ (n - k)) = q

/-- The fewest significant digits of a positive number below `10 ^ n`. -/
def shortest (q : ℚ) (n : ℤ) : Text :=
  ((List.range' 1 17).findSome? fun k =>
    match digitCandidates q n k with
    | [] => none
    | [s] => some (Text.ofNat s)
    | s :: s' :: _ =>
        let scaled := q * 10 ^ (k - n)
        some (Text.ofNat (if scaled - s ≤ s' - scaled then s else s'))).getD []

/-- A positive number below `10 ^ n` is laid out from its digits: up to `1e21` with zeros after them
or a point inside, from `1e-6` on with zeros before them, and else with an exponent. -/
def layOut (digits : Text) (n : ℤ) : Text :=
  let k := digits.length
  if k ≤ n ∧ n ≤ 21 then digits ++ List.replicate (n - k).toNat 0x30
  else if 0 < n ∧ n ≤ 21 then digits.take n.toNat ++ 0x2E :: digits.drop n.toNat
  else if -6 < n ∧ n ≤ 0 then 0x30 :: 0x2E :: (List.replicate (-n).toNat 0x30 ++ digits)
  else
    (if k = 1 then digits else digits.take 1 ++ 0x2E :: digits.drop 1) ++
      Text.lit (if 0 < n then "e+" else "e-") ++ Text.ofNat (n - 1).natAbs

/-- The text of a positive number. The number may be just below the power of ten that it is read
back from. -/
def positiveText (q : ℚ) : Text :=
  let n := Int.log 10 q + 1
  if Binary64.round (10 ^ n) = q then layOut (Text.lit "1") (n + 1) else layOut (shortest q n) n

/-- `String(a)`. -/
def toText : Number → Text
  | nan => Text.lit "NaN"
  | posInf => Text.lit "Infinity"
  | negInf => Text.lit "-Infinity"
  | negZero => Text.lit "0"
  | finite q =>
      if q = 0 then Text.lit "0"
      else if 0 < q then positiveText q else 0x2D :: positiveText (-q)

example : toText (finite 1152921504606846976) = Text.lit "1152921504606847000" := by
  decide +kernel

example : toText (nearest (10 ^ 23)) = Text.lit "1e+23" := by decide +kernel

/-! ## Whole numbers -/

/-- A whole number of at most 53 bits is a double. -/
theorem nearest_natCast {n : ℕ} (small : n ≤ 2 ^ 53) : nearest n = finite n := by
  have exact : Binary64.round (n : ℚ) = n := by
    have bound : |(n : ℤ)| ≤ 2 ^ 53 := by
      rw [abs_of_nonneg (Int.natCast_nonneg n)]
      exact_mod_cast small
    exact_mod_cast Binary64.round_intCast bound
  have finiteValue : (n : ℚ) ≤ 2 ^ 53 := by exact_mod_cast small
  have nonneg : (0 : ℚ) ≤ n := Nat.cast_nonneg n
  have wide : (2 : ℚ) ^ 53 < 2 ^ 1024 := pow_lt_pow_right₀ (by norm_num) (by norm_num)
  have above : ¬ (2 : ℚ) ^ 1024 ≤ n := not_le.mpr (finiteValue.trans_lt wide)
  have below : ¬ (n : ℚ) ≤ -2 ^ 1024 := by
    apply not_le.mpr
    calc -(2 : ℚ) ^ 1024 < 0 := neg_lt_zero.mpr (by positivity)
      _ ≤ n := nonneg
  simp only [nearest, exact, if_neg above, if_neg below, not_lt.mpr nonneg, and_false, if_false]

/-- A whole number below `2 ^ 53` is read back from no other. -/
theorem eq_of_round_eq {m n : ℕ} (small : n < 2 ^ 53) (read : Binary64.round m = n) : m = n := by
  rcases Nat.lt_or_ge m (2 ^ 53) with below | above
  · have exact : Binary64.round (m : ℚ) = m := by
      have bound : |(m : ℤ)| ≤ 2 ^ 53 := by
        rw [abs_of_nonneg (Int.natCast_nonneg m)]
        exact_mod_cast below.le
      exact_mod_cast Binary64.round_intCast bound
    rw [exact] at read
    exact_mod_cast read
  · have limit : Binary64.round ((2 ^ 53 : ℕ) : ℚ) = (2 ^ 53 : ℕ) := by
      have bound : |((2 ^ 53 : ℕ) : ℤ)| ≤ 2 ^ 53 := by norm_num
      exact_mod_cast Binary64.round_intCast bound
    have order := Binary64.round_mono (show ((2 ^ 53 : ℕ) : ℚ) ≤ m from by exact_mod_cast above)
    rw [limit, read] at order
    have : 2 ^ 53 ≤ n := by exact_mod_cast order
    omega

/-- A whole double that is read back from itself and from no other multiple of ten. -/
structure ReadsAlone (n : ℕ) : Prop where
  exact : Binary64.round n = n
  alone : ∀ m, 10 ∣ m → Binary64.round (m : ℕ) = n → m = n

theorem readsAlone_of_lt {n : ℕ} (small : n < 2 ^ 53) : ReadsAlone n where
  exact := by
    have bound : |(n : ℤ)| ≤ 2 ^ 53 := by
      rw [abs_of_nonneg (Int.natCast_nonneg n)]
      exact_mod_cast small.le
    exact_mod_cast Binary64.round_intCast bound
  alone _ _ read := eq_of_round_eq small read

/-- Fewer digits from which a whole number is read back write it, with zeros after them. -/
theorem mul_pow_of_mem_digitCandidates {n k s j : ℕ} (alone : ReadsAlone n)
    (candidate : s ∈ digitCandidates n (k + (j + 1) : ℕ) k) : s * 10 ^ (j + 1) = n := by
  have read := (of_decide_eq_true (List.mem_filter.mp candidate).2).2.2
  have power : (10 : ℚ) ^ (((k + (j + 1) : ℕ) : ℤ) - (k : ℤ)) = ((10 ^ (j + 1) : ℕ) : ℚ) := by
    rw [Nat.cast_add, add_sub_cancel_left, zpow_natCast]
    norm_cast
  rw [power, ← Nat.cast_mul] at read
  exact alone.alone _ (Dvd.dvd.mul_left (dvd_pow_self 10 (Nat.succ_ne_zero j)) s) read

/-- The text of the nearest of the candidates of one length. -/
def nearestDigits (q : ℚ) (n : ℤ) (k : ℕ) : Option Text :=
  match digitCandidates q n k with
  | [] => none
  | [s] => some (Text.ofNat s)
  | s :: s' :: _ =>
      let scaled := q * 10 ^ (k - n)
      some (Text.ofNat (if scaled - s ≤ s' - scaled then s else s'))

theorem shortest_eq (q : ℚ) (n : ℤ) :
    shortest q n = ((List.range' 1 17).findSome? (nearestDigits q n)).getD [] := rfl

theorem exists_nearestDigits {q : ℚ} {n : ℤ} {k s : ℕ} (candidate : s ∈ digitCandidates q n k) :
    ∃ text, nearestDigits q n k = some text := by
  rw [nearestDigits]
  match list : digitCandidates q n k with
  | [] =>
    rw [list] at candidate
    cases candidate
  | [first] => exact ⟨_, rfl⟩
  | first :: second :: others => exact ⟨_, rfl⟩

theorem of_nearestDigits {q : ℚ} {n : ℤ} {k : ℕ} {text : Text}
    (chosen : nearestDigits q n k = some text) :
    ∃ s ∈ digitCandidates q n k, text = Text.ofNat s := by
  rw [nearestDigits] at chosen
  match list : digitCandidates q n k with
  | [] =>
    rw [list] at chosen
    cases chosen
  | [first] =>
    rw [list] at chosen
    cases chosen
    exact ⟨first, List.mem_singleton_self first, rfl⟩
  | first :: second :: others =>
    rw [list] at chosen
    cases chosen
    refine ⟨_, ?_, rfl⟩
    split
    · exact List.mem_cons_self
    · exact List.mem_cons_of_mem first List.mem_cons_self

/-- The digits have the first length that has candidates. -/
theorem shortest_chosen {q : ℚ} {n : ℤ} {k : ℕ} {text : Text} (least : 1 ≤ k) (most : k ≤ 17)
    (some : nearestDigits q n k = some text) :
    ∃ i, 1 ≤ i ∧ i ≤ k ∧ nearestDigits q n i = Option.some (shortest q n) := by
  have tried : k ∈ List.range' 1 17 := List.mem_range'_1.mpr (by omega)
  have someFound : ((List.range' 1 17).findSome? (nearestDigits q n)).isSome := by
    rw [List.findSome?_isSome_iff]
    exact ⟨k, tried, by rw [some]; rfl⟩
  obtain ⟨digits, found⟩ := Option.isSome_iff_exists.mp someFound
  obtain ⟨before, i, after, whole, chosen, none⟩ := List.findSome?_eq_some_iff.mp found
  have sorted : (List.range' 1 17).Pairwise (· < ·) := List.pairwise_lt_range'
  have positive : 1 ≤ i := by
    have member : i ∈ List.range' 1 17 := by
      rw [whole]
      exact List.mem_append_right before List.mem_cons_self
    exact (List.mem_range'_1.mp member).1
  have early : i ≤ k := by
    rw [whole] at tried sorted
    rcases List.mem_append.mp tried with earlier | later
    · have blank := none k earlier
      rw [some] at blank
      cases blank
    · rcases List.mem_cons.mp later with same | later
      · exact same.ge
      · exact ((List.pairwise_cons.mp (List.pairwise_append.mp sorted).2.1).1 k later).le
  refine ⟨i, positive, early, ?_⟩
  rw [shortest_eq, found, Option.getD_some, chosen]

theorem shortest_candidate {q : ℚ} {n : ℤ} {k s : ℕ} (least : 1 ≤ k) (most : k ≤ 17)
    (candidate : s ∈ digitCandidates q n k) :
    ∃ i s, 1 ≤ i ∧ i ≤ k ∧ s ∈ digitCandidates q n i ∧ shortest q n = Text.ofNat s := by
  obtain ⟨text, some⟩ := exists_nearestDigits candidate
  obtain ⟨i, positive, early, chosen⟩ := shortest_chosen least most some
  obtain ⟨t, member, digits⟩ := of_nearestDigits chosen
  exact ⟨i, t, positive, early, member, digits⟩

theorem length_of_mem_digitCandidates {q : ℚ} {n : ℤ} {k s : ℕ}
    (candidate : s ∈ digitCandidates q n (k + 1)) : (Text.ofNat s).length = k + 1 := by
  have bounds := of_decide_eq_true (List.mem_filter.mp candidate).2
  exact Text.length_ofNat bounds.1 bounds.2.1

/-- Of the candidates of its own length, a whole number is the nearest. -/
theorem nearestDigits_self {n k : ℕ} (alone : ReadsAlone n) (lower : 10 ^ k ≤ n)
    (upper : n < 10 ^ (k + 1)) :
    nearestDigits n (k + 1 : ℕ) (k + 1) = some (Text.ofNat n) := by
  have scaled : (n : ℚ) * 10 ^ (((k + 1 : ℕ) : ℤ) - ((k + 1 : ℕ) : ℤ)) = n := by
    rw [sub_self, zpow_zero, mul_one]
  have reads : 10 ^ k ≤ n ∧ n < 10 ^ (k + 1) ∧
      Binary64.round (n * 10 ^ (((k + 1 : ℕ) : ℤ) - ((k + 1 : ℕ) : ℤ))) = n := by
    rw [scaled]
    exact ⟨lower, upper, alone.exact⟩
  have pair (test : ℕ → Bool) (first : test n = true) :
      [n, n + 1].filter test = [n] ∨ [n, n + 1].filter test = [n, n + 1] := by
    cases second : test (n + 1) with
    | true => exact .inr (by rw [List.filter_cons_of_pos first, List.filter_cons_of_pos second,
        List.filter_nil])
    | false => exact .inl (by rw [List.filter_cons_of_pos first,
        List.filter_cons_of_neg (Bool.eq_false_iff.mp second), List.filter_nil])
  have candidates : digitCandidates n (k + 1 : ℕ) (k + 1) = [n] ∨
      digitCandidates n (k + 1 : ℕ) (k + 1) = [n, n + 1] := by
    rw [digitCandidates, scaled, Int.floor_natCast, Int.toNat_natCast]
    exact pair _ (decide_eq_true reads)
  rcases candidates with whole | whole
  · rw [nearestDigits, whole]
  · have order : (n : ℚ) - n ≤ (n + 1 : ℕ) - n := by
      rw [Nat.cast_add, Nat.cast_one, sub_self, add_sub_cancel_left]
      exact zero_le_one
    rw [nearestDigits, whole]
    dsimp only
    rw [scaled, if_pos order]

/-- The shortest digits of a whole number, which zeros complete to its text. -/
theorem shortest_natCast {n k : ℕ} (alone : ReadsAlone n) (few : k < 17) (lower : 10 ^ k ≤ n)
    (upper : n < 10 ^ (k + 1)) :
    ∃ s j, 0 < s ∧ s * 10 ^ j = n ∧ shortest n (k + 1 : ℕ) = Text.ofNat s ∧
      (Text.ofNat s).length + j = k + 1 := by
  have whole := nearestDigits_self alone lower upper
  have positive : 0 < n := (Nat.pow_pos (by norm_num)).trans_le lower
  obtain ⟨i, some, early, chosen⟩ := shortest_chosen (by omega) (by omega) whole
  rcases early.lt_or_eq with fewer | rfl
  · obtain ⟨s, candidate, text⟩ := of_nearestDigits chosen
    obtain ⟨j, split⟩ := Nat.exists_eq_add_of_lt fewer
    obtain ⟨i, rfl⟩ := Nat.exists_eq_add_of_le' some
    have length := length_of_mem_digitCandidates candidate
    rw [split] at candidate
    have value := mul_pow_of_mem_digitCandidates alone candidate
    refine ⟨s, j + 1, ?_, value, text, by omega⟩
    apply Nat.pos_of_ne_zero
    rintro rfl
    rw [Nat.zero_mul] at value
    omega
  · rw [whole] at chosen
    exact ⟨n, 0, positive, Nat.mul_one n, (Option.some.inj chosen).symm,
      Text.length_ofNat lower upper⟩

/-- **A whole number of at most 17 digits is written with its digits**, unless another multiple
of ten is read as it. -/
theorem toText_of_readsAlone {n : ℕ} (positive : 0 < n) (small : n < 10 ^ 17)
    (alone : ReadsAlone n) : toText (finite n) = Text.ofNat n := by
  have some : (n : ℚ) ≠ 0 := Nat.cast_ne_zero.mpr positive.ne'
  have above : (0 : ℚ) < n := Nat.cast_pos.mpr positive
  have lower : 10 ^ Nat.log 10 n ≤ n := Nat.pow_log_le_self 10 positive.ne'
  have upper : n < 10 ^ (Nat.log 10 n + 1) := Nat.lt_pow_succ_log_self (by norm_num) n
  have few : Nat.log 10 n < 17 :=
    (Nat.pow_lt_pow_iff_right (by norm_num)).mp (lower.trans_lt small)
  obtain ⟨s, j, whole, value, digits, length⟩ := shortest_natCast alone few lower upper
  have exponent : Int.log 10 (n : ℚ) + 1 = ((Nat.log 10 n + 1 : ℕ) : ℤ) := by
    rw [Int.log_natCast]
    rfl
  have zeros : (((Nat.log 10 n + 1 : ℕ) : ℤ) - ((Text.ofNat s).length : ℤ)).toNat = j := by
    omega
  have apart : ¬ Binary64.round (10 ^ ((Nat.log 10 n + 1 : ℕ) : ℤ)) = n := by
    intro read
    have same : 10 ^ (Nat.log 10 n + 1) = n :=
      alone.alone _ (dvd_pow_self 10 (Nat.succ_ne_zero _)) (by exact_mod_cast read)
    omega
  rw [toText, if_neg some, if_pos above, positiveText, exponent, if_neg apart, digits, layOut,
    if_pos (by omega), zeros, ← Text.ofNat_mul_pow whole, value]

/-- **A whole number is written with its digits.** -/
theorem toText_natCast {n : ℕ} (small : n < 2 ^ 53) : toText (finite n) = Text.ofNat n := by
  rcases Nat.eq_zero_or_pos n with rfl | positive
  · rfl
  · exact toText_of_readsAlone positive (small.trans (by norm_num)) (readsAlone_of_lt small)

end Koklo.Foundations.Number
