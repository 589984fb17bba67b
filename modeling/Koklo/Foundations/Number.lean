import Mathlib.Algebra.Order.Ring.Rat

/-!
# Numbers of ECMAScript

A number is a finite value, the negative zero, an infinity or not a number.
Finite values are rationals, which include every finite double. Comparison
treats the two zeros as equal and answers `false` on `nan`; identity
(`Object.is`) is the equality of the type, which tells the zeros apart and
identifies `nan` with itself.
-/

set_option autoImplicit false

namespace Koklo.Foundations

/-- A number of ECMAScript. -/
inductive Number where
  | finite (value : ℚ)
  | negZero
  | posInf
  | negInf
  | nan
deriving DecidableEq

namespace Number

/-- The value of a number that is neither infinite nor `nan`. -/
def value? : Number → Option ℚ
  | finite q => some q
  | negZero => some 0
  | posInf | negInf | nan => none

/-- `a <= b`. -/
def le : Number → Number → Bool
  | nan, _ | _, nan => false
  | negInf, _ | _, posInf => true
  | posInf, _ | _, negInf => false
  | a, b =>
    match a.value?, b.value? with
    | some p, some q => decide (p ≤ q)
    | _, _ => false

theorem le_trans {a b c : Number} (first : a.le b = true) (second : b.le c = true) :
    a.le c = true := by
  cases a <;> cases b <;> cases c <;> simp_all only [le, value?, decide_eq_true_eq] <;>
    first | exact first.trans second | contradiction

/-- `a < b`. -/
def lt (a b : Number) : Bool := a.le b && !b.le a

/-- `Number.isInteger`. -/
def isInteger (a : Number) : Bool :=
  match a.value? with
  | some q => q.den == 1
  | none => false

/-- The natural number of an integer at least zero. -/
def toNat? (a : Number) : Option ℕ :=
  match a.value? with
  | some q => if q.den = 1 ∧ 0 ≤ q.num then some q.num.toNat else none
  | none => none

end Number

end Koklo.Foundations
