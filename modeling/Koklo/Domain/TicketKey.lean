import Koklo.Foundations.Decimal

/-!
# Ticket keys

A ticket key is `TK-` followed by a decimal number that is positive, written
without leading zero and safe (at most `2 ^ 53 - 1`). A key carries the number
it parses to, so a value of `TicketKey` is always well formed, and two keys of
the same number are the same text (`TicketKey.ext_number`).
-/

set_option autoImplicit false

namespace Koklo.Domain

open Koklo.Foundations

/-- The largest integer that is safe in the source. -/
def maxSafeInteger : ℕ := 2 ^ 53 - 1

/-- The digits of `KEY_PATTERN`, `^TK-[1-9][0-9]*$`. -/
def keyDigits (value : Text) : Option Text :=
  if value.take 3 = Text.lit "TK-" ∧ value.drop 3 ≠ [] ∧ (value.drop 3).all Text.isDigit ∧
      (value.drop 3).head? ≠ some 0x30 then some (value.drop 3)
  else none

/-- `InvalidTicketKeyError`. -/
structure InvalidTicketKey where
  value : Text
deriving DecidableEq

/-- The number of the key of a ticket. -/
def parseTicketKey (value : Text) : Except InvalidTicketKey ℕ :=
  match keyDigits value with
  | none => .error ⟨value⟩
  | some digits =>
    if Text.decimal digits ≤ maxSafeInteger then .ok (Text.decimal digits) else .error ⟨value⟩

/-- A key that parses, with its number. -/
structure TicketKey where
  text : Text
  number : ℕ
  parsed : parseTicketKey text = .ok number

@[ext] theorem TicketKey.ext {a b : TicketKey} (same : a.text = b.text) : a = b := by
  obtain ⟨text, number, parsed⟩ := a
  obtain ⟨text', number', parsed'⟩ := b
  cases same
  cases parsed.symm.trans parsed'
  rfl

instance : DecidableEq TicketKey := fun _ _ => decidable_of_iff _ TicketKey.ext_iff.symm

/-- What a key that parses looks like. -/
theorem parseTicketKey_ok {value : Text} {number : ℕ} (parsed : parseTicketKey value = .ok number) :
    ∃ digits, value = Text.lit "TK-" ++ digits ∧ digits ≠ [] ∧ (∀ u ∈ digits, Text.isDigit u) ∧
      digits.head? ≠ some 0x30 ∧ Text.decimal digits = number := by
  unfold parseTicketKey keyDigits at parsed
  split at parsed
  · cases parsed
  · rename_i digits found
    split at found
    · rename_i shape
      obtain ⟨start, some, all, first⟩ := shape
      cases found
      refine ⟨value.drop 3, ?_, some, List.all_eq_true.mp all, first, ?_⟩
      · rw [← start, List.take_append_drop]
      · split at parsed
        · exact Except.ok.inj parsed
        · cases parsed
    · cases found

/-- **A key is determined by its number.** -/
theorem TicketKey.ext_number {a b : TicketKey} (same : a.number = b.number) : a = b := by
  obtain ⟨first, shape, some, all, head, value⟩ := parseTicketKey_ok a.parsed
  obtain ⟨second, shape', some', all', head', value'⟩ := parseTicketKey_ok b.parsed
  have digits : first = second :=
    Text.decimal_inj some some' all all' head head' (by rw [value, value', same])
  exact TicketKey.ext (by rw [shape, shape', digits])

/-- A key has no code unit outside `TK-` and the digits. -/
theorem TicketKey.ne_zero_of_mem (key : TicketKey) {u : CodeUnit} (member : u ∈ key.text) :
    u ≠ 0 := by
  obtain ⟨digits, shape, -, all, -⟩ := parseTicketKey_ok key.parsed
  rw [shape, List.mem_append] at member
  rintro rfl
  rcases member with start | digit
  · revert start
    decide
  · exact absurd (all _ digit) (by decide)

end Koklo.Domain
