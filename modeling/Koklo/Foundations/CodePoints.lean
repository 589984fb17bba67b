import Koklo.Foundations.Base64

/-!
# Code points, case and normal forms

The code points of a text, and what Unicode says of them: a lower case for each, where it stands,
and the compatibility composition of a text. Both leave ASCII as it is known: its letters have their
lower case in ASCII (`toLowerCase_infix`), and it is normal and never joins what precedes it
(`nfkc_append_ascii`).
-/

set_option autoImplicit false

namespace Koklo.Foundations

namespace Text

/-- The code points of a text. -/
def codePoints : Text → List Text
  | [] => []
  | [u] => [[u]]
  | u :: v :: rest =>
    if isHighSurrogate u && isLowSurrogate v then [u, v] :: codePoints rest
    else [u] :: codePoints (v :: rest)

/-- `codePointAt(0)`. -/
def codePointAt : Text → ℕ
  | u :: v :: _ =>
    if isHighSurrogate u && isLowSurrogate v then
      0x10000 + (u.val - 0xD800) * 0x400 + (v.val - 0xDC00)
    else u.val
  | [u] => u.val
  | [] => 0

/-- The lower case of an ASCII letter, and any other unit. -/
def asciiLower (u : CodeUnit) : CodeUnit := if 0x41 ≤ u ∧ u ≤ 0x5A then u + 0x20 else u

theorem isHighSurrogate_ascii {u : CodeUnit} (ascii : u.val < 0x80) : isHighSurrogate u = false := by
  rw [isHighSurrogate, Bool.and_eq_false_iff, decide_eq_false_iff_not, Fin.le_def]
  exact .inl (not_le.mpr (ascii.trans (by decide)))

theorem isLowSurrogate_ascii {u : CodeUnit} (ascii : u.val < 0x80) : isLowSurrogate u = false := by
  rw [isLowSurrogate, Bool.and_eq_false_iff, decide_eq_false_iff_not, Fin.le_def]
  exact .inl (not_le.mpr (ascii.trans (by decide)))

theorem isAscii_of_asciiLower {u : CodeUnit} (ascii : (asciiLower u).val < 0x80) : u.val < 0x80 := by
  rw [asciiLower] at ascii
  split at ascii
  · rename_i letter
    have bound : u.val ≤ 0x5A := letter.2
    omega
  · exact ascii

/-- An ASCII unit is a code point, whatever follows it. -/
theorem codePoints_cons_ascii {u : CodeUnit} (ascii : u.val < 0x80) (rest : Text) :
    codePoints (u :: rest) = [u] :: codePoints rest := by
  cases rest with
  | nil => rfl
  | cons v rest =>
    rw [codePoints, isHighSurrogate_ascii ascii, Bool.false_and, if_neg Bool.false_ne_true]

/-- An ASCII unit is a code point, whatever precedes it. -/
theorem codePoints_append_ascii {u : CodeUnit} (ascii : u.val < 0x80) (t rest : Text) :
    codePoints (t ++ u :: rest) = codePoints t ++ codePoints (u :: rest) := by
  induction t using codePoints.induct with
  | case1 => rfl
  | case2 v =>
    change codePoints (v :: u :: rest) = [v] :: codePoints (u :: rest)
    rw [codePoints, isLowSurrogate_ascii ascii, Bool.and_false, if_neg Bool.false_ne_true]
  | case3 v w t pair ih =>
    rw [List.cons_append, List.cons_append, codePoints, if_pos pair, ih, codePoints, if_pos pair]
    rfl
  | case4 v w t apart ih =>
    rw [List.cons_append] at ih
    rw [List.cons_append, List.cons_append, codePoints, if_neg apart, ih, codePoints, if_neg apart]
    rfl

/-- The code points of an ASCII text stay apart from those around it. -/
theorem codePoints_infix {s : Text} (ascii : IsAscii s) (some : s ≠ []) (before after : Text) :
    codePoints (before ++ (s ++ after)) =
      codePoints before ++ (s.map (fun u => [u]) ++ codePoints after) := by
  have inside : ∀ t : Text, IsAscii t →
      codePoints (t ++ after) = t.map (fun u => [u]) ++ codePoints after := by
    intro t ascii
    induction t with
    | nil => rfl
    | cons u t ih =>
      rw [List.cons_append, codePoints_cons_ascii (ascii u List.mem_cons_self),
        ih fun v member => ascii v (List.mem_cons_of_mem _ member)]
      rfl
  rw [← inside s ascii]
  obtain ⟨u, s, rfl⟩ := List.exists_cons_of_ne_nil some
  exact codePoints_append_ascii (ascii u List.mem_cons_self) before _

end Text

/-- What Unicode fixes: the compatibility composition of a text, and the lower case of a code point
between those that precede it and those that follow it. -/
structure Unicode where
  nfkc : Text → Text
  lowerCase : (before : List Text) → Text → (after : List Text) → Text

namespace Unicode

open Text

variable (unicode : Unicode)

def lowerFrom (before : List Text) : List Text → Text
  | [] => []
  | point :: after =>
    unicode.lowerCase before point after ++ lowerFrom (before ++ [point]) after

/-- `text.toLowerCase()`. -/
def toLowerCase (t : Text) : Text := unicode.lowerFrom [] (codePoints t)

/-- ASCII in Unicode: normal, a boundary for what precedes it, and with its own letters. -/
structure Standard : Prop where
  nfkc_ascii : ∀ t, IsAscii t → unicode.nfkc t = t
  nfkc_boundary : ∀ (t rest : Text) (u : CodeUnit), u.val < 0x80 →
    unicode.nfkc (t ++ u :: rest) = unicode.nfkc t ++ unicode.nfkc (u :: rest)
  lowerCase_ascii : ∀ (before after : List Text) (u : CodeUnit), u.val < 0x80 →
    unicode.lowerCase before [u] after = [asciiLower u]

variable {unicode}

theorem lowerFrom_ascii (standard : unicode.Standard) {s : Text} (ascii : IsAscii s)
    (before after : List Text) :
    ∃ rest, unicode.lowerFrom before (s.map (fun u => [u]) ++ after) =
      s.map asciiLower ++ rest := by
  induction s generalizing before with
  | nil => exact ⟨unicode.lowerFrom before after, rfl⟩
  | cons u s ih =>
    obtain ⟨rest, lowered⟩ :=
      ih (fun v member => ascii v (List.mem_cons_of_mem _ member)) (before ++ [[u]])
    refine ⟨rest, ?_⟩
    rw [List.map_cons, List.cons_append, lowerFrom, lowered,
      standard.lowerCase_ascii _ _ u (ascii u List.mem_cons_self)]
    rfl

/-- **An ASCII text keeps its place** in the lower case of a text that holds it. -/
theorem toLowerCase_infix (standard : unicode.Standard) {s : Text} (ascii : IsAscii s)
    (some : s ≠ []) (before after : Text) :
    s.map asciiLower <:+: unicode.toLowerCase (before ++ (s ++ after)) := by
  have later : ∀ (points known : List Text), s.map asciiLower <:+:
      unicode.lowerFrom known (points ++ (s.map (fun u => [u]) ++ codePoints after)) := by
    intro points
    induction points with
    | nil =>
      intro known
      obtain ⟨rest, lowered⟩ := lowerFrom_ascii standard ascii known (codePoints after)
      rw [List.nil_append, lowered]
      exact (List.prefix_append _ _).isInfix
    | cons point points ih =>
      intro known
      rw [List.cons_append, lowerFrom]
      exact (ih (known ++ [point])).trans (List.suffix_append _ _).isInfix
  rw [toLowerCase, codePoints_infix ascii some]
  exact later _ _

theorem toLowerCase_ascii (standard : unicode.Standard) {s : Text} (ascii : IsAscii s) :
    unicode.toLowerCase s = s.map asciiLower := by
  have points : codePoints s = s.map (fun u => [u]) := by
    cases s with
    | nil => rfl
    | cons u s =>
      have alone := codePoints_infix ascii (List.cons_ne_nil u s) [] []
      rw [List.append_nil, List.nil_append] at alone
      rw [alone]
      exact List.append_nil _
  have lowered : ∀ (t : Text) (known : List Text), IsAscii t →
      unicode.lowerFrom known (t.map fun u => [u]) = t.map asciiLower := by
    intro t
    induction t with
    | nil => exact fun _ _ => rfl
    | cons u t ih =>
      intro known ascii
      rw [List.map_cons, lowerFrom, standard.lowerCase_ascii _ _ u (ascii u List.mem_cons_self),
        ih _ fun v member => ascii v (List.mem_cons_of_mem _ member)]
      rfl
  rw [toLowerCase, points, lowered s [] ascii]

/-- **An ASCII text keeps its place** in the normal form of a text that holds it. -/
theorem nfkc_append_ascii (standard : unicode.Standard) {s : Text} (ascii : IsAscii s)
    (before : Text) : unicode.nfkc (before ++ s) = unicode.nfkc before ++ s := by
  cases s with
  | nil => rw [List.append_nil, List.append_nil]
  | cons u s =>
    rw [standard.nfkc_boundary before s u (ascii u List.mem_cons_self), standard.nfkc_ascii _ ascii]

end Unicode

end Koklo.Foundations
