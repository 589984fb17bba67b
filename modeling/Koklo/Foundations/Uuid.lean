import Koklo.Foundations.Text

/-!
# UUIDs as texts

A UUID is written with groups of 8, 4, 4, 4 and 12 hexadecimal digits, in either case.
Its text has no white space (`Uuid.visible`).
-/

set_option autoImplicit false

namespace Koklo.Foundations

/-- The hexadecimal digits, in either case. -/
def isHexDigit (u : CodeUnit) : Bool :=
  Text.isDigit u || (0x41 ≤ u && u ≤ 0x46) || (0x61 ≤ u && u ≤ 0x66)

def hyphen : CodeUnit := 0x2D

/-- `UUID`: groups of 8, 4, 4, 4 and 12 hexadecimal digits. -/
def isUuid (value : Text) : Bool :=
  (value.splitOn hyphen).map List.length = [8, 4, 4, 4, 12] &&
    (value.splitOn hyphen).all fun group => group.all isHexDigit

/-- An identifier that is a UUID. -/
structure Uuid where
  text : Text
  wellFormed : isUuid text = true

theorem Uuid.isHexDigit_or (id : Uuid) {u : CodeUnit} (member : u ∈ id.text) :
    u = hyphen ∨ isHexDigit u = true := by
  have shape := id.wellFormed
  rw [isUuid, Bool.and_eq_true] at shape
  have whole : [hyphen].intercalate (id.text.splitOn hyphen) = id.text :=
    List.intercalate_splitOn hyphen
  rw [← whole] at member
  rcases Text.mem_intercalate member with same | ⟨group, known, inside⟩
  · exact .inl same
  · exact .inr (List.all_eq_true.mp (List.all_eq_true.mp shape.2 group known) u inside)

theorem isSpace_of_isHexDigit {u : CodeUnit} (hex : isHexDigit u = true) :
    Text.isSpace u = false := by
  simp only [isHexDigit, Text.isDigit, Text.isSpace, Bool.or_eq_true, Bool.and_eq_true,
    decide_eq_true_eq, Bool.or_eq_false_iff, Bool.and_eq_false_iff, decide_eq_false_iff_not,
    beq_eq_false_iff_ne, Fin.le_def, Fin.ext_iff, ne_eq] at hex ⊢
  omega

/-- A UUID has no white space. -/
theorem Uuid.visible (id : Uuid) {u : CodeUnit} (member : u ∈ id.text) : Text.isSpace u = false := by
  rcases id.isHexDigit_or member with rfl | hex
  · decide
  · exact isSpace_of_isHexDigit hex

theorem Uuid.ne_nil (id : Uuid) : id.text ≠ [] := by
  intro blank
  have shape := id.wellFormed
  rw [blank] at shape
  revert shape
  decide

end Koklo.Foundations
