import Koklo.Foundations.Json
import Mathlib.Tactic.IntervalCases

/-!
# Texts as bytes, bytes as texts

The bytes of a text are its UTF-8 encoding; a surrogate that is not part of a pair is
replaced. Bytes are decoded with one replacement character for each longest start of a
sequence that goes wrong. Bytes are written in the URL alphabet of base64, without padding,
three bytes on four digits; the decoder reads the low byte of each unit, takes both alphabets, skips
what is in neither and stops at the first padding.
Bytes are read back (`base64_base64url`), and so are ASCII texts (`ofUtf8_utf8`).
-/

set_option autoImplicit false

namespace Koklo.Foundations

/-- The bytes. -/
abbrev Byte := Fin 0x100

/-- What the numerals of bytes rest on. -/
instance bytes_ne_zero : @NeZero ℕ Zero.ofOfNat0 0x100 := ⟨by decide⟩

namespace Text

/-! ## UTF-8 -/

def replacement : CodeUnit := 0xFFFD

/-- The bytes of a code point. -/
def scalarBytes (n : ℕ) : List Byte :=
  if n < 0x80 then [Fin.ofNat _ n]
  else if n < 0x800 then [Fin.ofNat _ (0xC0 + n / 0x40), Fin.ofNat _ (0x80 + n % 0x40)]
  else if n < 0x10000 then
    [Fin.ofNat _ (0xE0 + n / 0x1000), Fin.ofNat _ (0x80 + n / 0x40 % 0x40),
      Fin.ofNat _ (0x80 + n % 0x40)]
  else
    [Fin.ofNat _ (0xF0 + n / 0x40000), Fin.ofNat _ (0x80 + n / 0x1000 % 0x40),
      Fin.ofNat _ (0x80 + n / 0x40 % 0x40), Fin.ofNat _ (0x80 + n % 0x40)]

/-- The bytes of a unit outside a pair. -/
def unitBytes (u : CodeUnit) : List Byte :=
  scalarBytes (if isHighSurrogate u || isLowSurrogate u then replacement.val else u.val)

/-- `Buffer.from(text)`. -/
def utf8 : Text → List Byte
  | [] => []
  | [u] => unitBytes u
  | u :: v :: rest =>
    if isHighSurrogate u && isLowSurrogate v then
      scalarBytes (0x10000 + (u.val - 0xD800) * 0x400 + (v.val - 0xDC00)) ++ utf8 rest
    else unitBytes u ++ utf8 (v :: rest)

/-- A sequence that is being read: the bytes that it still needs, the bounds of the next
one, and the bits read so far. -/
structure Pending where
  needed : ℕ
  lower : ℕ
  upper : ℕ
  bits : ℕ

/-- The sequence that a byte opens. -/
def opening (b : Byte) : Option Pending :=
  if 0xC2 ≤ b.val ∧ b.val ≤ 0xDF then some ⟨1, 0x80, 0xBF, b.val - 0xC0⟩
  else if 0xE0 ≤ b.val ∧ b.val ≤ 0xEF then
    some ⟨2, if b.val = 0xE0 then 0xA0 else 0x80, if b.val = 0xED then 0x9F else 0xBF, b.val - 0xE0⟩
  else if 0xF0 ≤ b.val ∧ b.val ≤ 0xF4 then
    some ⟨3, if b.val = 0xF0 then 0x90 else 0x80, if b.val = 0xF4 then 0x8F else 0xBF, b.val - 0xF0⟩
  else none

/-- The units of a code point. -/
def ofScalar (n : ℕ) : Text :=
  if n < 0x10000 then [Fin.ofNat _ n]
  else [Fin.ofNat _ (0xD800 + (n - 0x10000) / 0x400), Fin.ofNat _ (0xDC00 + (n - 0x10000) % 0x400)]

/-- A byte where no sequence is open. -/
def firstByte (b : Byte) : Text × Option Pending :=
  if b.val < 0x80 then ([Fin.ofNat _ b.val], none)
  else match opening b with
    | some pending => ([], some pending)
    | none => ([replacement], none)

/-- A byte, inside an open sequence or not. -/
def nextByte : Option Pending → Byte → Text × Option Pending
  | none, b => firstByte b
  | some pending, b =>
    if pending.lower ≤ b.val ∧ b.val ≤ pending.upper then
      let bits := pending.bits * 0x40 + (b.val - 0x80)
      if pending.needed = 1 then (ofScalar bits, none)
      else ([], some ⟨pending.needed - 1, 0x80, 0xBF, bits⟩)
    else (replacement :: (firstByte b).1, (firstByte b).2)

/-- The units of bytes, from what is open on. -/
def ofBytes : Option Pending → List Byte → Text
  | none, [] => []
  | some _, [] => [replacement]
  | pending, b :: rest => (nextByte pending b).1 ++ ofBytes (nextByte pending b).2 rest

/-- `buffer.toString("utf8")`. -/
def ofUtf8 (bytes : List Byte) : Text := ofBytes none bytes

/-- The texts of the ASCII characters. -/
def IsAscii (t : Text) : Prop := ∀ u ∈ t, u.val < 0x80

theorem unitBytes_ascii {u : CodeUnit} (ascii : u.val < 0x80) : unitBytes u = [Fin.ofNat _ u.val] := by
  have plain : (isHighSurrogate u || isLowSurrogate u) = false := by
    simp only [isHighSurrogate, isLowSurrogate, Bool.or_eq_false_iff, Bool.and_eq_false_iff,
      decide_eq_false_iff_not, Fin.le_def]
    constructor
    · exact .inl (not_le.mpr (ascii.trans (by decide)))
    · exact .inl (not_le.mpr (ascii.trans (by decide)))
  rw [unitBytes, plain, if_neg Bool.false_ne_true, scalarBytes, if_pos ascii]

theorem utf8_ascii {t : Text} (ascii : IsAscii t) : utf8 t = t.map fun u => Fin.ofNat _ u.val := by
  induction t using utf8.induct with
  | case1 => rfl
  | case2 u =>
    rw [utf8, unitBytes_ascii (ascii u List.mem_cons_self)]
    rfl
  | case3 u v rest pair _ =>
    have low := ascii u List.mem_cons_self
    simp only [isHighSurrogate, Bool.and_eq_true, decide_eq_true_eq, Fin.le_def] at pair
    exact absurd (pair.1.1.trans_lt low) (by decide)
  | case4 u v rest alone ih =>
    rw [utf8, if_neg alone, unitBytes_ascii (ascii u List.mem_cons_self),
      ih fun w member => ascii w (List.mem_cons_of_mem u member)]
    rfl

/-- **An ASCII text is read back** from its bytes. -/
theorem ofUtf8_utf8 {t : Text} (ascii : IsAscii t) : ofUtf8 (utf8 t) = t := by
  rw [utf8_ascii ascii, ofUtf8]
  induction t with
  | nil => rfl
  | cons u t ih =>
    have small := ascii u List.mem_cons_self
    have byte : (Fin.ofNat 0x100 u.val).val = u.val := Nat.mod_eq_of_lt (by omega)
    have unit : Fin.ofNat 0x10000 u.val = u := Fin.ext (Nat.mod_eq_of_lt u.isLt)
    rw [List.map_cons, ofBytes]
    simp only [nextByte, firstByte, byte, if_pos small, unit]
    rw [ih fun v member => ascii v (List.mem_cons_of_mem u member)]
    rfl

/-! ## Base64 -/

/-- The digit of a number below 64, in the URL alphabet. -/
def base64Digit (n : ℕ) : CodeUnit :=
  Fin.ofNat _ (if n < 26 then 0x41 + n else if n < 52 then 0x61 + (n - 26)
    else if n < 62 then 0x30 + (n - 52) else if n = 62 then 0x2D else 0x5F)

/-- The number of a digit of either alphabet. -/
def base64Value (u : CodeUnit) : Option ℕ :=
  if 0x41 ≤ u.val ∧ u.val ≤ 0x5A then some (u.val - 0x41)
  else if 0x61 ≤ u.val ∧ u.val ≤ 0x7A then some (u.val - 0x61 + 26)
  else if 0x30 ≤ u.val ∧ u.val ≤ 0x39 then some (u.val - 0x30 + 52)
  else if u.val = 0x2D ∨ u.val = 0x2B then some 62
  else if u.val = 0x5F ∨ u.val = 0x2F then some 63
  else none

/-- `buffer.toString("base64url")`. -/
def base64url : List Byte → Text
  | a :: b :: c :: rest =>
      base64Digit (a.val / 4) :: base64Digit (a.val % 4 * 16 + b.val / 16) ::
        base64Digit (b.val % 16 * 4 + c.val / 64) :: base64Digit (c.val % 64) :: base64url rest
  | [a, b] => [base64Digit (a.val / 4), base64Digit (a.val % 4 * 16 + b.val / 16),
      base64Digit (b.val % 16 * 4)]
  | [a] => [base64Digit (a.val / 4), base64Digit (a.val % 4 * 16)]
  | [] => []

/-- The bytes of digits; what does not fill a byte is dropped. -/
def quanta : List ℕ → List Byte
  | a :: b :: c :: d :: rest =>
      Fin.ofNat _ (a * 4 + b / 16) :: Fin.ofNat _ (b % 16 * 16 + c / 4) ::
        Fin.ofNat _ (c % 4 * 64 + d) :: quanta rest
  | [a, b, c] => [Fin.ofNat _ (a * 4 + b / 16), Fin.ofNat _ (b % 16 * 16 + c / 4)]
  | [a, b] => [Fin.ofNat _ (a * 4 + b / 16)]
  | _ => []

/-- What the decoder reads of a unit. -/
def lowByte (u : CodeUnit) : CodeUnit := Fin.ofNat _ (u.val % 0x100)

/-- `=`. -/
def padding : CodeUnit := 0x3D

/-- The numbers of the digits before the first padding. -/
def base64Values (t : Text) : List ℕ :=
  ((t.map lowByte).takeWhile (· ≠ padding)).filterMap base64Value

/-- `Buffer.from(text, "base64url")`. -/
def base64 (t : Text) : List Byte := quanta (base64Values t)

theorem base64Value_base64Digit {n : ℕ} (small : n < 64) :
    lowByte (base64Digit n) = base64Digit n ∧ base64Digit n ≠ padding ∧
      base64Value (base64Digit n) = some n := by
  interval_cases n <;> decide

theorem base64Values_cons {n : ℕ} (small : n < 64) (t : Text) :
    base64Values (base64Digit n :: t) = n :: base64Values t := by
  obtain ⟨low, other, value⟩ := base64Value_base64Digit small
  have kept : decide (base64Digit n ≠ padding) = true := decide_eq_true other
  rw [base64Values, List.map_cons, low, List.takeWhile_cons, kept, if_pos rfl,
    List.filterMap_cons_some value, base64Values]

/-- **Bytes are read back** from their digits. -/
theorem base64_base64url (bytes : List Byte) : base64 (base64url bytes) = bytes := by
  have read : ∀ {n : ℕ} {t : Text}, n < 64 →
      base64Values (base64Digit n :: t) = n :: base64Values t := fun small =>
    base64Values_cons small _
  have none_ : base64Values [] = [] := rfl
  have byte : ∀ (a : Byte) {n : ℕ}, n = a.val → Fin.ofNat 0x100 n = a := fun a n same =>
    Fin.ext ((congrArg (· % 0x100) same).trans (Nat.mod_eq_of_lt a.isLt))
  induction bytes using base64url.induct with
  | case1 a b c rest ih =>
    have first := a.isLt
    have second := b.isLt
    have third := c.isLt
    rw [base64, base64url, read (by omega), read (by omega), read (by omega), read (by omega), quanta,
      ← base64, ih, byte a (by omega), byte b (by omega), byte c (by omega)]
  | case2 a b =>
    have first := a.isLt
    have second := b.isLt
    rw [base64, base64url, read (by omega), read (by omega), read (by omega), none_, quanta,
      byte a (by omega), byte b (by omega)]
  | case3 a =>
    have first := a.isLt
    rw [base64, base64url, read (by omega), read (by omega), none_, quanta,
      byte a (by omega)]
  | case4 => rfl

end Text

end Koklo.Foundations
