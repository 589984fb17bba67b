import Koklo.Foundations.Text
import Mathlib.Data.Nat.Digits.Lemmas

/-!
# Decimal texts

The number that a sequence of decimal digits writes, and the text of a number.
Without leading zero, digits are determined by their number (`decimal_inj`); the text
of a number has one more digit than the text of its tenth (`ofNat_ten_mul_add`) and
writes it (`decimal_ofNat`).
-/

set_option autoImplicit false

namespace Koklo.Foundations.Text

def digitValue (u : CodeUnit) : ℕ := u.val - 0x30

/-- The number a sequence of decimal digits writes. -/
def decimal (digits : Text) : ℕ := Nat.ofDigits 10 (digits.map digitValue).reverse

/-- The decimal text of a number. -/
def ofNat (n : ℕ) : Text := (Nat.toDigits 10 n).flatMap ofChar

/-- The text of a number is made of digits. -/
theorem isDigit_of_mem_ofNat {n : ℕ} {u : CodeUnit} (member : u ∈ ofNat n) : isDigit u = true := by
  obtain ⟨c, digit, unit⟩ := List.mem_flatMap.mp member
  have numeric := Nat.isDigit_of_mem_toDigits (by decide) (by decide) digit
  rw [Char.isDigit, Bool.and_eq_true, decide_eq_true_eq, decide_eq_true_eq] at numeric
  have lower : 0x30 ≤ c.toNat := numeric.1
  have upper : c.toNat ≤ 0x39 := numeric.2
  have small : c.toNat < 0x10000 := by omega
  rw [ofChar, if_pos small, List.mem_singleton] at unit
  have value : u.val = c.toNat := by
    rw [unit]
    exact Nat.mod_eq_of_lt small
  rw [isDigit, Bool.and_eq_true, decide_eq_true_eq, decide_eq_true_eq, Fin.le_def, Fin.le_def, value]
  exact ⟨lower, upper⟩

theorem digitValue_lt {u : CodeUnit} (digit : isDigit u) : digitValue u < 10 := by
  simp only [isDigit, Bool.and_eq_true, decide_eq_true_eq] at digit
  have upper : u.val ≤ 0x39 := digit.2
  unfold digitValue
  omega

theorem digitValue_injective {u v : CodeUnit} (first : isDigit u) (second : isDigit v)
    (same : digitValue u = digitValue v) : u = v := by
  simp only [isDigit, Bool.and_eq_true, decide_eq_true_eq] at first second
  have left : 0x30 ≤ u.val := first.1
  have right : 0x30 ≤ v.val := second.1
  unfold digitValue at same
  exact Fin.ext (by omega)

/-- Digits are determined by their values. -/
theorem map_digitValue_injective {first second : Text} (all : ∀ u ∈ first, isDigit u)
    (all' : ∀ u ∈ second, isDigit u) (same : first.map digitValue = second.map digitValue) :
    first = second := by
  induction first generalizing second with
  | nil => exact (List.map_eq_nil_iff.mp same.symm).symm
  | cons u first ih =>
    cases second with
    | nil => cases same
    | cons v second =>
      rw [List.map_cons, List.map_cons, List.cons.injEq] at same
      rw [digitValue_injective (all u List.mem_cons_self) (all' v List.mem_cons_self) same.1,
        ih (fun w member => all w (List.mem_cons_of_mem u member))
          (fun w member => all' w (List.mem_cons_of_mem v member)) same.2]

/-- Digits without leading zero are the digits of the number they write. -/
theorem digits_decimal {digits : Text} (some : digits ≠ []) (all : ∀ u ∈ digits, isDigit u)
    (first : digits.head? ≠ Option.some 0x30) :
    Nat.digits 10 (decimal digits) = (digits.map digitValue).reverse := by
  apply Nat.digits_ofDigits 10 (by decide)
  · intro d member
    obtain ⟨u, inside, rfl⟩ := List.mem_map.mp (List.mem_reverse.mp member)
    exact digitValue_lt (all u inside)
  · intro nonempty
    obtain ⟨u, rest, rfl⟩ := List.exists_cons_of_ne_nil some
    simp only [List.map_cons, List.reverse_cons, List.getLast_append_singleton]
    intro zero
    apply first
    have digit := all u List.mem_cons_self
    rw [List.head?_cons, digitValue_injective digit (by decide : isDigit 0x30) zero]

/-- **Digits without leading zero are determined by their number.** -/
theorem decimal_inj {first second : Text} (some : first ≠ []) (some' : second ≠ [])
    (all : ∀ u ∈ first, isDigit u) (all' : ∀ u ∈ second, isDigit u)
    (head : first.head? ≠ Option.some 0x30) (head' : second.head? ≠ Option.some 0x30)
    (same : decimal first = decimal second) : first = second := by
  have digits : (first.map digitValue).reverse = (second.map digitValue).reverse := by
    rw [← digits_decimal some all head, ← digits_decimal some' all' head', same]
  exact map_digitValue_injective all all' (List.reverse_injective digits)

/-! ## The text of a number -/

/-- The unit of a digit below ten. -/
def digitUnit (d : ℕ) : CodeUnit := Fin.ofNat _ (0x30 + d)

theorem digitValue_digitUnit {d : ℕ} (digit : d < 10) : digitValue (digitUnit d) = d := by
  have value : (digitUnit d).val = 0x30 + d := Nat.mod_eq_of_lt (by omega)
  rw [digitValue, value]
  omega

theorem ofChar_digitChar {d : ℕ} (digit : d < 10) : ofChar d.digitChar = [digitUnit d] := by
  interval_cases d <;> rfl

theorem ofNat_of_lt {d : ℕ} (digit : d < 10) : ofNat d = [digitUnit d] := by
  rw [ofNat, Nat.toDigits_of_lt_base digit, List.flatMap_singleton, ofChar_digitChar digit]

/-- The digits of a number, then one more. -/
theorem ofNat_ten_mul_add {n d : ℕ} (some : 0 < n) (digit : d < 10) :
    ofNat (10 * n + d) = ofNat n ++ [digitUnit d] := by
  rw [ofNat, ← Nat.toDigits_append_toDigits (by decide) some digit, List.flatMap_append,
    Nat.toDigits_of_lt_base digit, List.flatMap_singleton, ofChar_digitChar digit, ofNat]

theorem decimal_append_singleton (digits : Text) (u : CodeUnit) :
    decimal (digits ++ [u]) = 10 * decimal digits + digitValue u := by
  rw [decimal, List.map_append, List.reverse_append, List.map_singleton, List.reverse_singleton,
    List.singleton_append, Nat.ofDigits_cons, ← decimal]
  exact Nat.add_comm _ _

/-- **The text of a number writes it.** -/
@[simp] theorem decimal_ofNat (n : ℕ) : decimal (ofNat n) = n := by
  induction n using Nat.strongRecOn with
  | ind n ih =>
    have parts := Nat.div_add_mod n 10
    have digit : n % 10 < 10 := Nat.mod_lt n (by decide)
    rcases Nat.eq_zero_or_pos (n / 10) with small | large
    · have few : n < 10 := by omega
      rw [ofNat_of_lt few, decimal, List.map_singleton, List.reverse_singleton,
        Nat.ofDigits_singleton, digitValue_digitUnit few]
    · rw [← parts, ofNat_ten_mul_add large digit, decimal_append_singleton,
        ih (n / 10) (by omega), digitValue_digitUnit digit]

theorem ofNat_ne_nil (n : ℕ) : ofNat n ≠ [] := by
  rcases Nat.lt_or_ge n 10 with few | many
  · rw [ofNat_of_lt few]
    exact List.cons_ne_nil _ _
  · rw [← Nat.div_add_mod n 10, ofNat_ten_mul_add (by omega) (Nat.mod_lt n (by decide))]
    exact List.concat_ne_nil _ _

/-- The text of a positive number has no leading zero. -/
theorem head_ofNat {n : ℕ} (some : 0 < n) : (ofNat n).head? ≠ Option.some 0x30 := by
  induction n using Nat.strongRecOn with
  | ind n ih =>
    rcases Nat.lt_or_ge n 10 with few | many
    · rw [ofNat_of_lt few]
      interval_cases n <;> decide
    · rw [← Nat.div_add_mod n 10, ofNat_ten_mul_add (by omega) (Nat.mod_lt n (by decide)),
        List.head?_append_of_ne_nil _ (ofNat_ne_nil _)]
      exact ih (n / 10) (by omega) (by omega)

/-- A number with `k` digits. -/
theorem length_ofNat {n k : ℕ} (lower : 10 ^ k ≤ n) (upper : n < 10 ^ (k + 1)) :
    (ofNat n).length = k + 1 := by
  induction k generalizing n with
  | zero => rw [ofNat_of_lt (by simpa using upper), List.length_singleton]
  | succ k ih =>
    rw [pow_succ] at lower upper
    rw [← Nat.div_add_mod n 10, ofNat_ten_mul_add (by omega) (Nat.mod_lt n (by decide)),
      List.length_append, List.length_singleton, ih (by omega) (by omega)]

/-- Zeros after the digits multiply by powers of ten. -/
theorem ofNat_mul_pow {n : ℕ} (some : 0 < n) (k : ℕ) :
    ofNat (n * 10 ^ k) = ofNat n ++ List.replicate k 0x30 := by
  induction k with
  | zero => rw [pow_zero, mul_one, List.replicate_zero, List.append_nil]
  | succ k ih =>
    have shape : n * 10 ^ (k + 1) = 10 * (n * 10 ^ k) + 0 := by ring
    have zero : digitUnit 0 = 0x30 := rfl
    rw [shape, ofNat_ten_mul_add (by positivity) (by decide), ih, zero, List.append_assoc,
      List.replicate_succ']

/-! ## Leading zeros -/

/-- The text of a number, with zeros before it up to a length. -/
def padded (width n : ℕ) : Text := List.replicate (width - (ofNat n).length) 0x30 ++ ofNat n

theorem decimal_zero_cons (digits : Text) : decimal (0x30 :: digits) = decimal digits := by
  rw [decimal, List.map_cons, List.reverse_cons, Nat.ofDigits_append, Nat.ofDigits_singleton,
    decimal]
  exact Nat.add_zero _

/-- Leading zeros change nothing to the number. -/
theorem decimal_padded (width n : ℕ) : decimal (padded width n) = n := by
  have zeros : ∀ count : ℕ, decimal (List.replicate count 0x30 ++ ofNat n) = n := by
    intro count
    induction count with
    | zero => exact decimal_ofNat n
    | succ count ih => rw [List.replicate_succ, List.cons_append, decimal_zero_cons, ih]
  exact zeros _

/-- **A padded text is that of one number.** -/
theorem padded_injective (width : ℕ) : Function.Injective (padded width) := by
  intro n m same
  rw [← decimal_padded width n, same, decimal_padded]

end Koklo.Foundations.Text
