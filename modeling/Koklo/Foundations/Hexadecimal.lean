import Koklo.Foundations.Json
import Koklo.Foundations.Uuid
import Mathlib.Data.Nat.Digits.Lemmas

/-!
# Hexadecimal numbers

A text of hexadecimal digits, in either case, writes a number (`hexadecimal`), and the digits of a
number, in lower case, write it back (`hexadecimal_hexText`).
-/

set_option autoImplicit false

namespace Koklo.Foundations.Text

/-- The value of a hexadecimal digit. -/
def hexDigitValue (u : CodeUnit) : ℕ :=
  if isDigit u then u.val - 0x30 else if u.val < 0x61 then u.val - 0x37 else u.val - 0x57

/-- The number that hexadecimal digits write. -/
def hexadecimal (digits : Text) : ℕ := Nat.ofDigits 0x10 (digits.map hexDigitValue).reverse

/-- The hexadecimal digits of a number. -/
def hexText (n : ℕ) : Text :=
  if n = 0 then [0x30] else (Nat.digits 0x10 n).reverse.map hexDigit

theorem hexDigitValue_hexDigit {n : ℕ} (small : n < 0x10) : hexDigitValue (hexDigit n) = n := by
  have cases : ∀ m : Fin 0x10, hexDigitValue (hexDigit m) = m := by decide
  exact cases ⟨n, small⟩

theorem isHexDigit_hexDigit {n : ℕ} (small : n < 0x10) : isHexDigit (hexDigit n) = true := by
  have cases : ∀ m : Fin 0x10, isHexDigit (hexDigit m) = true := by decide
  exact cases ⟨n, small⟩

/-- **The digits of a number write it.** -/
theorem hexadecimal_hexText (n : ℕ) : hexadecimal (hexText n) = n := by
  unfold hexText
  split
  · rename_i zero
    subst zero
    decide
  · have back : (Nat.digits 0x10 n).map (hexDigitValue ∘ hexDigit) = Nat.digits 0x10 n := by
      have same : ∀ d ∈ Nat.digits 0x10 n, (hexDigitValue ∘ hexDigit) d = id d := fun d member =>
        hexDigitValue_hexDigit (Nat.digits_lt_base (by decide) member)
      rw [List.map_congr_left same, List.map_id]
    rw [hexadecimal, List.map_map, List.map_reverse, List.reverse_reverse, back, Nat.ofDigits_digits]

theorem isHexDigit_of_mem_hexText {n : ℕ} {u : CodeUnit} (member : u ∈ hexText n) :
    isHexDigit u = true := by
  unfold hexText at member
  split at member
  · rw [List.mem_singleton.mp member]
    decide
  · obtain ⟨d, digit, rfl⟩ := List.mem_map.mp member
    exact isHexDigit_hexDigit (Nat.digits_lt_base (by decide) (List.mem_reverse.mp digit))

theorem hexText_ne_nil (n : ℕ) : hexText n ≠ [] := by
  unfold hexText
  split
  · exact List.cons_ne_nil _ _
  · rename_i positive
    intro none
    rw [List.map_eq_nil_iff, List.reverse_eq_nil_iff, Nat.digits_eq_nil_iff_eq_zero] at none
    exact positive none

/-- A number below a power of sixteen has no more digits than its exponent. -/
theorem length_hexText {n k : ℕ} (small : n < 0x10 ^ k) (some : 0 < k) :
    (hexText n).length ≤ k := by
  unfold hexText
  split
  · exact some
  · rw [List.length_map, List.length_reverse, Nat.digits_length_le_iff (by decide)]
    exact small

end Koklo.Foundations.Text
