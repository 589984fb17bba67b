import Koklo.Foundations.DoubleDigits
import Koklo.Foundations.JsonText

/-!
# Numerals of a document

A numeral is made of digits, perhaps of a point and decimals, and perhaps of an exponent. It is read
as the double nearest to what it writes (`numeral_parts`). The text of a double is such a numeral,
and what it writes rounds to the double (`reads_double`): every finite double is read back from its
text.
-/

set_option autoImplicit false

namespace Koklo.Foundations.Json

open Text

/-! ## Numerals -/

/-- Nothing that follows goes on with a number. -/
def Stops (rest : Text) : Prop :=
  ∀ u ∈ rest.head?, isDigit u = false ∧ u ≠ 0x2E ∧ u ≠ 0x65 ∧ u ≠ 0x45

theorem stops_nil : Stops [] := fun _ member => by cases member

theorem stops_cons {u : CodeUnit} {rest : Text}
    (stop : isDigit u = false ∧ u ≠ 0x2E ∧ u ≠ 0x65 ∧ u ≠ 0x45) : Stops (u :: rest) := by
  intro v member
  cases member
  exact stop

theorem digits_append {run rest : Text} (some : run ≠ []) (all : ∀ u ∈ run, isDigit u = true)
    (stop : ∀ u ∈ rest.head?, isDigit u = false) : digits (run ++ rest) = .some (run, rest) := by
  have after : rest.takeWhile isDigit = [] ∧ rest.dropWhile isDigit = rest := by
    cases rest with
    | nil => exact ⟨rfl, rfl⟩
    | cons u rest =>
      have blank := stop u rfl
      exact ⟨List.takeWhile_cons_of_neg (by simp [blank]), List.dropWhile_cons_of_neg (by simp [blank])⟩
  have front : (run ++ rest).takeWhile isDigit = run := by
    rw [List.takeWhile_append_of_pos all, after.1, List.append_nil]
  have back : (run ++ rest).dropWhile isDigit = rest := by
    rw [List.dropWhile_append_of_pos all, after.2]
  rw [digits, front, back, if_neg some]

/-- The sign of a negative number. -/
def minus (negative : Bool) : Text := if negative then [0x2D] else []

/-- A number under its sign. -/
def signed (negative : Bool) (number : Number) : Number := if negative then number.neg else number

/-- A text that starts with a digit and is read as the double nearest to a rational. -/
structure Numeral (t : Text) (x : ℚ) : Prop where
  starts : ∃ u tail, t = u :: tail ∧ isDigit u = true
  reads : ∀ negative rest, Stops rest →
    number (minus negative ++ (t ++ rest)) = some (signed negative (Number.nearest x), rest)

/-- A text that is read as an exponent, or nothing at all. -/
def Raises (t : Text) (power : ℤ) : Prop :=
  ∀ rest, Stops rest → exponent (t ++ rest) = some (power, rest) ∧
    ∀ u ∈ (t ++ rest).head?, isDigit u = false ∧ u ≠ 0x2E

/-- Decimals after their point, when there are any. -/
def pointed (decimals : Text) : Text := if decimals = [] then [] else 0x2E :: decimals

theorem raises_nil : Raises [] 0 := by
  intro rest stop
  constructor
  · rw [List.nil_append, exponent, if_neg]
    rintro (lower | upper)
    · exact (stop _ lower).2.2.1 rfl
    · exact (stop _ upper).2.2.2 rfl
  · exact fun u head => ⟨(stop u head).1, (stop u head).2.1⟩

theorem digits_ofNat {n : ℕ} {rest : Text} (stop : Stops rest) :
    digits (ofNat n ++ rest) = some (ofNat n, rest) :=
  digits_append (ofNat_ne_nil n) (fun _ member => isDigit_of_mem_ofNat member)
    fun u head => (stop u head).1

theorem raises_plus (p : ℕ) : Raises (lit "e+" ++ ofNat p) p := by
  intro rest stop
  constructor
  · have read : exponent (lit "e+" ++ ofNat p ++ rest) =
        (digits (ofNat p ++ rest)).map fun read => ((decimal read.1 : ℤ), read.2) := rfl
    rw [read, digits_ofNat stop, Option.map_some, decimal_ofNat]
  · intro u head
    cases head
    decide

theorem raises_minus (p : ℕ) : Raises (lit "e-" ++ ofNat p) (-p) := by
  intro rest stop
  constructor
  · have read : exponent (lit "e-" ++ ofNat p ++ rest) =
        (digits (ofNat p ++ rest)).map fun read => (-(decimal read.1 : ℤ), read.2) := rfl
    rw [read, digits_ofNat stop, Option.map_some, decimal_ofNat]
  · intro u head
    cases head
    decide

/-- Decimals are read up to the exponent. -/
theorem fraction_pointed {decimals e rest : Text} {power : ℤ}
    (all : ∀ u ∈ decimals, isDigit u = true) (raised : Raises e power) (stop : Stops rest) :
    fraction (pointed decimals ++ (e ++ rest)) = some (decimals, e ++ rest) := by
  have after := (raised rest stop).2
  by_cases none : decimals = []
  · rw [pointed, if_pos none, List.nil_append, fraction, if_neg, none]
    exact fun point => (after _ point).2 rfl
  · rw [pointed, if_neg none, List.cons_append, fraction, List.head?_cons, if_pos rfl,
      List.tail_cons, digits_append none all fun u head => (after u head).1]

/-- **Digits, decimals and an exponent** are read as the double nearest to what they write. -/
theorem numeral_parts {whole decimals e : Text} {power : ℤ} (some : whole ≠ [])
    (all : ∀ u ∈ whole, isDigit u = true)
    (plain : ¬ (whole.head? = .some 0x30 ∧ whole.length ≠ 1))
    (all' : ∀ u ∈ decimals, isDigit u = true) (raised : Raises e power) :
    Numeral (whole ++ (pointed decimals ++ e))
      (decimal (whole ++ decimals) * 10 ^ (power - decimals.length)) where
  starts := by
    obtain ⟨u, run, rfl⟩ := List.exists_cons_of_ne_nil some
    exact ⟨u, _, rfl, all u List.mem_cons_self⟩
  reads negative rest stop := by
    have after : ∀ u ∈ (pointed decimals ++ (e ++ rest)).head?, isDigit u = false := by
      by_cases none : decimals = []
      · rw [pointed, if_pos none, List.nil_append]
        exact fun u head => ((raised rest stop).2 u head).1
      · rw [pointed, if_neg none]
        intro u head
        cases head
        rfl
    have unsigned : sign 0x2D (minus negative ++ (whole ++ (pointed decimals ++ (e ++ rest)))) =
        (negative, whole ++ (pointed decimals ++ (e ++ rest))) := by
      cases negative with
      | true => rfl
      | false =>
        obtain ⟨u, run, rfl⟩ := List.exists_cons_of_ne_nil some
        rw [sign, if_neg]
        · rfl
        · intro mark
          cases mark
          cases all 0x2D List.mem_cons_self
    have shape : minus negative ++ (whole ++ (pointed decimals ++ e) ++ rest) =
        minus negative ++ (whole ++ (pointed decimals ++ (e ++ rest))) := by
      simp only [List.append_assoc]
    rw [shape]
    simp only [number, unsigned, digits_append some all after, bind, Option.bind_some,
      if_neg plain, fraction_pointed all' raised stop, (raised rest stop).1]
    rfl

/-! ## The texts of numbers -/

theorem decimal_zeros_append (count : ℕ) (digits : Text) :
    decimal (List.replicate count 0x30 ++ digits) = decimal digits := by
  induction count with
  | zero => rfl
  | succ count ih => rw [List.replicate_succ, List.cons_append, decimal_zero_cons, ih]

/-- A numeral written another way. -/
theorem Numeral.congr {t : Text} {x y : ℚ} (numeral : Numeral t x) (same : x = y) : Numeral t y :=
  same ▸ numeral

/-- Digits of a positive number and some of its decimals. -/
theorem numeral_split {s j : ℕ} (positive : 0 < s) (some : 0 < j) {e : Text} {power : ℤ}
    (raised : Raises e power) :
    Numeral ((ofNat s).take j ++ (pointed ((ofNat s).drop j) ++ e))
      (s * 10 ^ (power - ((ofNat s).length - j : ℕ))) := by
  have all : ∀ u ∈ ofNat s, isDigit u = true := fun u member => isDigit_of_mem_ofNat member
  have head : ((ofNat s).take j).head? = (ofNat s).head? := by
    rw [List.head?_take, if_neg some.ne']
  refine (numeral_parts ?_ (fun u member => all u (List.mem_of_mem_take member)) ?_
    (fun u member => all u (List.mem_of_mem_drop member)) raised).congr ?_
  · intro none
    rcases List.take_eq_nil_iff.mp none with zero | empty
    · exact some.ne' zero
    · exact ofNat_ne_nil s empty
  · rintro ⟨zero, _⟩
    rw [head] at zero
    exact head_ofNat positive zero
  · rw [List.take_append_drop, decimal_ofNat, List.length_drop]

/-- The digits of a positive number and an exponent. -/
theorem numeral_ofNat {s : ℕ} (positive : 0 < s) {e : Text} {power : ℤ} (raised : Raises e power) :
    Numeral (ofNat s ++ e) (s * 10 ^ power) := by
  have whole := numeral_split positive (List.length_pos_of_ne_nil (ofNat_ne_nil s)) raised
  rw [List.take_length, List.drop_length, Nat.sub_self, Nat.cast_zero, sub_zero] at whole
  exact whole

theorem numeral_zero : Numeral (lit "0") 0 := by
  have read := @numeral_parts [0x30] [] [] 0 (List.cons_ne_nil _ _)
    (List.forall_mem_singleton.mpr rfl) (fun more => more.2 rfl)
    (fun u member => by cases member) raises_nil
  exact read.congr (zero_mul _)

/-- The exponent of a number that is laid out with one. -/
theorem raises_exponent (n : ℤ) :
    Raises (lit (if 0 < n then "e+" else "e-") ++ ofNat (n - 1).natAbs) (n - 1) := by
  by_cases large : 0 < n
  · have raised := raises_plus (n - 1).natAbs
    rw [Int.natCast_natAbs, abs_of_nonneg (by omega)] at raised
    rw [if_pos large]
    exact raised
  · have raised := raises_minus (n - 1).natAbs
    rw [Int.natCast_natAbs, abs_of_neg (by omega), neg_neg] at raised
    rw [if_neg large]
    exact raised

/-- **Digits that are laid out** are a numeral. -/
theorem numeral_layOut {s : ℕ} (positive : 0 < s) (n : ℤ) :
    Numeral (Number.layOut (ofNat s) n) (s * 10 ^ (n - (ofNat s).length)) := by
  have long : 0 < (ofNat s).length := List.length_pos_of_ne_nil (ofNat_ne_nil s)
  have all : ∀ u ∈ ofNat s, isDigit u = true := fun u member => isDigit_of_mem_ofNat member
  rw [Number.layOut]
  by_cases whole : (ofNat s).length ≤ n ∧ n ≤ 21
  · obtain ⟨j, zeros⟩ := Int.eq_ofNat_of_zero_le (sub_nonneg.mpr whole.1)
    have grown : 0 < s * 10 ^ j := Nat.mul_pos positive (Nat.pow_pos (by decide))
    have read := numeral_ofNat grown raises_nil
    rw [List.append_nil, ofNat_mul_pow positive] at read
    rw [if_pos whole, zeros, Int.toNat_natCast]
    refine read.congr ?_
    push_cast
    rw [mul_one, zpow_natCast]
  rw [if_neg whole]
  by_cases inside : 0 < n ∧ n ≤ 21
  · have read := numeral_split positive (show 0 < n.toNat by omega) raises_nil
    have some : (ofNat s).drop n.toNat ≠ [] := by
      intro none
      have := List.drop_eq_nil_iff.mp none
      omega
    rw [pointed, if_neg some, List.append_nil] at read
    rw [if_pos inside]
    refine read.congr ?_
    rw [show (0 : ℤ) - ((ofNat s).length - n.toNat : ℕ) = n - (ofNat s).length from by omega]
  rw [if_neg inside]
  by_cases small : -6 < n ∧ n ≤ 0
  · have zeros : ∀ u ∈ List.replicate (-n).toNat 0x30 ++ ofNat s, isDigit u = true := by
      intro u member
      rcases List.mem_append.mp member with zero | digit
      · rw [List.eq_of_mem_replicate zero]
        rfl
      · exact all u digit
    have read := @numeral_parts [0x30] _ _ _ (List.cons_ne_nil _ _)
      (List.forall_mem_singleton.mpr rfl) (fun more => more.2 rfl) zeros raises_nil
    have some : List.replicate (-n).toNat 0x30 ++ ofNat s ≠ [] :=
      List.append_ne_nil_of_right_ne_nil _ (ofNat_ne_nil s)
    rw [pointed, if_neg some, List.append_nil, List.singleton_append, List.singleton_append,
      decimal_zero_cons, decimal_zeros_append, decimal_ofNat] at read
    rw [if_pos small]
    refine read.congr ?_
    rw [List.length_append, List.length_replicate]
    rw [show (0 : ℤ) - ((-n).toNat + (ofNat s).length : ℕ) = n - (ofNat s).length from by omega]
  · have read := numeral_split positive Nat.one_pos (raises_exponent n)
    have mantissa : (if (ofNat s).length = 1 then ofNat s
        else (ofNat s).take 1 ++ 0x2E :: (ofNat s).drop 1) =
          (ofNat s).take 1 ++ pointed ((ofNat s).drop 1) := by
      by_cases one : (ofNat s).length = 1
      · rw [if_pos one, List.take_of_length_le one.le, List.drop_of_length_le one.le, pointed,
          if_pos rfl, List.append_nil]
      · have some : (ofNat s).drop 1 ≠ [] := by
          intro none
          have := List.drop_eq_nil_iff.mp none
          omega
        rw [if_neg one, pointed, if_neg some]
    rw [if_neg small, mantissa, List.append_assoc, List.append_assoc]
    refine read.congr ?_
    rw [show n - 1 - ((ofNat s).length - 1 : ℕ) = n - (ofNat s).length from by omega]

/-- The text of a number that is read back, up to what stops it. -/
structure ReadsNumber (t : Text) (n : Number) : Prop where
  starts : ∃ u tail, t = u :: tail ∧ (isDigit u = true ∨ u = 0x2D)
  reads : ∀ rest, Stops rest → number (t ++ rest) = some (n, rest)

theorem Numeral.unsigned {t : Text} {x : ℚ} (numeral : Numeral t x) :
    ReadsNumber t (Number.nearest x) where
  starts := by
    obtain ⟨u, tail, shape, digit⟩ := numeral.starts
    exact ⟨u, tail, shape, .inl digit⟩
  reads := numeral.reads false

theorem Numeral.negative {t : Text} {x : ℚ} (numeral : Numeral t x) :
    ReadsNumber (0x2D :: t) (Number.nearest x).neg where
  starts := ⟨0x2D, t, rfl, .inr rfl⟩
  reads := numeral.reads true

/-- **The text of a positive double** is a numeral that is read as the double. -/
theorem numeral_positiveText {q : ℚ} (double : Number.Double q) (positive : 0 < q) :
    ∃ x, Numeral (Number.positiveText q) x ∧ Number.nearest x = .finite q := by
  obtain ⟨s, n, some, text, read⟩ := Number.exists_digits double.exact positive
  rw [text]
  exact ⟨_, numeral_layOut some n, Number.nearest_of_round double positive read⟩

/-- **The text of a double is read back.** -/
theorem readsNumber_double {q : ℚ} (double : Number.Double q) :
    ReadsNumber (Number.toText (.finite q)) (.finite q) := by
  rcases lt_trichotomy q 0 with negative | rfl | positive
  · obtain ⟨x, numeral, value⟩ := numeral_positiveText double.neg (neg_pos.mpr negative)
    have read := numeral.negative
    rw [value, Number.neg, if_neg (neg_ne_zero.mpr negative.ne), neg_neg] at read
    rw [Number.toText, if_neg negative.ne, if_neg negative.le.not_gt]
    exact read
  · have read := numeral_zero.unsigned
    rw [show (0 : ℚ) = (0 : ℕ) from Nat.cast_zero.symm, Number.nearest_natCast (Nat.zero_le _)]
      at read
    exact read
  · obtain ⟨x, numeral, value⟩ := numeral_positiveText double positive
    have read := numeral.unsigned
    rw [value] at read
    rw [Number.toText, if_neg positive.ne', if_pos positive]
    exact read

end Koklo.Foundations.Json
