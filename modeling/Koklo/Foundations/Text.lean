import Mathlib.Data.List.DropRight
import Mathlib.Data.List.Infix
import Mathlib.Data.List.Lex
import Mathlib.Order.Fin.Basic

/-!
# Texts as sequences of UTF-16 code units

A text is the list of its UTF-16 code units, the unit in which ECMAScript
measures, compares and cuts its strings. Lone surrogates are texts like any
other, and the order of texts is the lexicographic order of their code units.

White space is the set of ECMAScript: the white space and the line terminators,
which `String.prototype.trim` removes and which `\s` matches. Trimming is
idempotent and keeps every text that neither starts nor ends with white space
(`trim_eq_self_iff`); a text with a visible code unit stays visible when it is
trimmed (`trim_ne_nil_of_mem`).

Lines are cut at the line feed. Joining lines that hold no line feed and
cutting again gives the lines back (`lines_joinLines`).
-/

set_option autoImplicit false

namespace Koklo.Foundations

/-- A UTF-16 code unit. -/
abbrev CodeUnit := Fin 0x10000

/-- A text: the sequence of its code units. -/
abbrev Text := List CodeUnit

/-- What the numerals of code units rest on. -/
instance codeUnits_ne_zero : @NeZero ℕ Zero.ofOfNat0 0x10000 := ⟨by decide⟩

/-- What the membership of a code unit in a text rests on. -/
instance codeUnit_lawfulBEq : LawfulBEq CodeUnit := inferInstance

/-- What the membership of a text in a list rests on. -/
instance text_lawfulBEq : LawfulBEq Text := inferInstance

namespace Text

/-- The code units of a character: one, or a surrogate pair. -/
def ofChar (c : Char) : Text :=
  if c.toNat < 0x10000 then [Fin.ofNat _ c.toNat]
  else [Fin.ofNat _ (0xD800 + (c.toNat - 0x10000) / 0x400),
    Fin.ofNat _ (0xDC00 + (c.toNat - 0x10000) % 0x400)]

/-- The text of a literal. -/
def lit (s : String) : Text := s.toList.flatMap ofChar

/-! ## White space -/

/-- Line feed, carriage return, line separator and paragraph separator: what
the dot of a pattern does not match. -/
def isLineTerminator (u : CodeUnit) : Bool :=
  u == 0x0A || u == 0x0D || u == 0x2028 || u == 0x2029

/-- White space and line terminators of ECMAScript. -/
def isSpace (u : CodeUnit) : Bool :=
  (0x09 ≤ u && u ≤ 0x0D) || u == 0x20 || u == 0xA0 || u == 0x1680 || (0x2000 ≤ u && u ≤ 0x200A) ||
    u == 0x2028 || u == 0x2029 || u == 0x202F || u == 0x205F || u == 0x3000 || u == 0xFEFF

def isDigit (u : CodeUnit) : Bool := 0x30 ≤ u && u ≤ 0x39

/-- The ASCII lower-case letters. -/
def isLower (u : CodeUnit) : Bool := 0x61 ≤ u && u ≤ 0x7A

def trimStart (t : Text) : Text := t.dropWhile isSpace

def trimEnd (t : Text) : Text := t.rdropWhile isSpace

def trim (t : Text) : Text := trimEnd (trimStart t)

theorem trimStart_eq_self_iff {t : Text} :
    trimStart t = t ↔ ∀ u ∈ t.head?, isSpace u = false := by
  cases t with
  | nil => simp [trimStart]
  | cons u t =>
    cases h : isSpace u with
    | false => simp [trimStart, h]
    | true =>
      have shorter : (t.dropWhile isSpace).length ≤ t.length := List.length_dropWhile_le _ _
      simp only [trimStart, List.dropWhile_cons, h, if_true, List.head?_cons, Option.mem_def,
        Option.some.injEq, forall_eq', Bool.true_eq_false, iff_false]
      intro same
      have := congrArg List.length same
      simp only [List.length_cons] at this
      omega

theorem trimEnd_eq_self_iff {t : Text} :
    trimEnd t = t ↔ ∀ u ∈ t.getLast?, isSpace u = false := by
  unfold trimEnd
  rw [List.rdropWhile_eq_self_iff]
  constructor
  · intro h u hu
    have ne : t ≠ [] := by rintro rfl; simp at hu
    rw [List.getLast?_eq_getLast_of_ne_nil ne, Option.mem_def, Option.some.injEq] at hu
    simpa [hu] using h ne
  · intro h ne
    simpa using h _ (List.getLast?_eq_getLast_of_ne_nil ne)

theorem trim_eq_self_iff {t : Text} : trim t = t ↔ trimStart t = t ∧ trimEnd t = t := by
  constructor
  · intro h
    have lengths : t.length ≤ (trimStart t).length := by
      have := (List.rdropWhile_prefix isSpace (trimStart t)).length_le
      rw [show (trimStart t).rdropWhile isSpace = t from h] at this
      exact this
    have start : trimStart t = t :=
      (List.dropWhile_suffix isSpace).eq_of_length_le lengths
    exact ⟨start, by rw [trim, start] at h; exact h⟩
  · rintro ⟨start, stop⟩
    rw [trim, start, stop]

theorem trim_eq_nil_iff {t : Text} : trim t = [] ↔ ∀ u ∈ t, isSpace u := by
  rw [trim, trimEnd, List.rdropWhile_eq_nil_iff, trimStart]
  constructor
  · intro h u member
    rw [← List.takeWhile_append_dropWhile (p := isSpace) (l := t), List.mem_append] at member
    exact member.elim List.mem_takeWhile_imp (h u)
  · intro h u member
    exact h u ((List.dropWhile_suffix isSpace).subset member)

/-- A text with a visible code unit is visible once trimmed. -/
theorem trim_ne_nil_of_mem {t : Text} {u : CodeUnit} (member : u ∈ t) (visible : isSpace u = false) :
    trim t ≠ [] := by
  rw [Ne, trim_eq_nil_iff]
  intro all
  simp [all u member] at visible

/-- Trimming is idempotent. -/
theorem trim_trim (t : Text) : trim (trim t) = trim t := by
  have startKept : ∀ u ∈ (trimStart t).head?, isSpace u = false :=
    trimStart_eq_self_iff.mp (List.dropWhile_idempotent _ _)
  refine trim_eq_self_iff.mpr ⟨trimStart_eq_self_iff.mpr ?_, List.rdropWhile_idempotent _ _⟩
  intro u member
  obtain ⟨rest, split⟩ := List.rdropWhile_prefix isSpace (trimStart t)
  apply startKept
  rw [← split, List.head?_append_of_ne_nil]
  · exact member
  · intro none
    rw [trim, trimEnd, none] at member
    cases member

/-- A text that ends with a visible code unit is kept when white space follows it. -/
theorem trimEnd_append_space {t spaces : Text} {u : CodeUnit} (visible : isSpace u = false)
    (all : ∀ v ∈ spaces, isSpace v) : trimEnd (t ++ u :: spaces) = t ++ [u] := by
  induction spaces using List.reverseRecOn with
  | nil => exact List.rdropWhile_concat_neg isSpace t u (by simp [visible])
  | append_singleton spaces v ih =>
    have space : isSpace v := all v (by simp)
    rw [← List.cons_append, ← List.append_assoc, trimEnd,
      List.rdropWhile_concat_pos isSpace _ v space]
    exact ih fun w member => all w (List.mem_append_left _ member)

theorem mem_of_mem_trim {t : Text} {u : CodeUnit} (member : u ∈ trim t) : u ∈ t :=
  (List.dropWhile_suffix isSpace).subset ((List.rdropWhile_prefix isSpace _).subset member)

/-! ## Lines -/

/-- The line feed. -/
def newline : CodeUnit := 0x0A

/-- `split("\n")`. -/
def lines (t : Text) : List Text := t.splitOn newline

/-- `join("\n")`. -/
def joinLines (ls : List Text) : Text := [newline].intercalate ls

/-- Joining lines and cutting them again gives them back. -/
theorem lines_joinLines {ls : List Text} (single : ∀ l ∈ ls, newline ∉ l) (some : ls ≠ []) :
    lines (joinLines ls) = ls :=
  List.splitOn_intercalate newline single some

/-- Joined lines, each after a line feed. -/
theorem newline_cons_joinLines (l : Text) (ls : List Text) :
    newline :: joinLines (l :: ls) = (l :: ls).flatMap (newline :: ·) := by
  induction ls generalizing l with
  | nil => simp [joinLines]
  | cons l' ls ih =>
    rw [List.flatMap_cons, ← ih l', joinLines, List.intercalate_cons_cons]
    simp [joinLines]

theorem joinLines_lines (t : Text) : joinLines (lines t) = t := List.intercalate_splitOn newline

/-- A text without line feed is one line. -/
theorem lines_of_not_mem {t : Text} (single : newline ∉ t) : lines t = [t] := by
  have joined : joinLines [t] = t := List.intercalate_singleton
  have cut := lines_joinLines (List.forall_mem_singleton.mpr single) (List.cons_ne_nil t [])
  rwa [joined] at cut

theorem joinLines_cons {l : Text} {ls : List Text} (some : ls ≠ []) :
    joinLines (l :: ls) = l ++ newline :: joinLines ls := by
  obtain ⟨l', ls, rfl⟩ := List.exists_cons_of_ne_nil some
  rw [joinLines, List.intercalate_cons_cons, List.append_assoc]
  rfl

theorem joinLines_append {ls ls' : List Text} (some : ls ≠ []) (some' : ls' ≠ []) :
    joinLines (ls ++ ls') = joinLines ls ++ newline :: joinLines ls' := by
  induction ls with
  | nil => exact absurd rfl some
  | cons l ls ih =>
    by_cases last : ls = []
    · subst last
      rw [List.singleton_append, joinLines_cons some']
      exact congrArg (· ++ newline :: joinLines ls') List.intercalate_singleton.symm
    · rw [List.cons_append, joinLines_cons (by simp [last]), ih last, joinLines_cons last,
        List.append_assoc, List.cons_append]

/-- **The lines of joined pieces** are those of the pieces, one after the other. -/
theorem lines_joinLines_flatMap {pieces : List Text} (some : pieces ≠ []) :
    lines (joinLines pieces) = pieces.flatMap lines := by
  induction pieces with
  | nil => exact absurd rfl some
  | cons piece pieces ih =>
    by_cases last : pieces = []
    · subst last
      rw [List.flatMap_singleton]
      exact congrArg lines List.intercalate_singleton
    · rw [joinLines_cons last, List.flatMap_cons, ← ih last]
      exact List.splitOn_append_cons_self _ _

theorem mem_joinLines {ls : List Text} {l : Text} {u : CodeUnit} (line : l ∈ ls) (member : u ∈ l) :
    u ∈ joinLines ls := by
  induction ls with
  | nil => cases line
  | cons first ls ih =>
    by_cases last : ls = []
    · subst last
      rw [List.mem_singleton.mp line] at member
      rwa [joinLines, List.intercalate_singleton]
    · rw [joinLines_cons last]
      rcases List.mem_cons.mp line with same | later
      · exact List.mem_append_left _ (same ▸ member)
      · exact List.mem_append_right _ (List.mem_cons_of_mem _ (ih later))

theorem mem_of_mem_lines {t l : Text} {u : CodeUnit} (line : l ∈ lines t) (member : u ∈ l) :
    u ∈ t := by
  have inside := mem_joinLines line member
  rwa [joinLines_lines] at inside

/-- A text without white space at its ends, and not empty. -/
structure Trimmed (t : Text) : Prop where
  some : t ≠ []
  kept : trim t = t

theorem Trimmed.exists_head {t : Text} (trimmed : Trimmed t) :
    ∃ u rest, t = u :: rest ∧ isSpace u = false := by
  obtain ⟨u, rest, shape⟩ := List.exists_cons_of_ne_nil trimmed.some
  refine ⟨u, rest, shape, ?_⟩
  exact trimStart_eq_self_iff.mp (trim_eq_self_iff.mp trimmed.kept).1 u (by rw [shape]; rfl)

theorem Trimmed.exists_last {t : Text} (trimmed : Trimmed t) :
    ∃ start u, t = start ++ [u] ∧ isSpace u = false := by
  obtain ⟨start, u, shape⟩ := (List.eq_nil_or_concat t).resolve_left trimmed.some
  rw [List.concat_eq_append] at shape
  refine ⟨start, u, shape, ?_⟩
  refine trimEnd_eq_self_iff.mp (trim_eq_self_iff.mp trimmed.kept).2 u ?_
  rw [shape, List.getLast?_concat]
  rfl

/-! ## Separators -/

/-- A code unit of joined texts is in the separator or in one of the texts. -/
theorem mem_of_mem_intercalate {separator : Text} {u : CodeUnit} {ts : List Text}
    (member : u ∈ separator.intercalate ts) : u ∈ separator ∨ ∃ t ∈ ts, u ∈ t := by
  induction ts with
  | nil => cases member
  | cons t ts ih =>
    cases ts with
    | nil =>
      rw [List.intercalate_singleton] at member
      exact .inr ⟨t, List.mem_cons_self, member⟩
    | cons t' ts =>
      rw [List.intercalate_cons_cons, List.mem_append, List.mem_append] at member
      rcases member with (inside | same) | later
      · exact .inr ⟨t, List.mem_cons_self, inside⟩
      · exact .inl same
      · exact (ih later).imp_right fun ⟨other, known, inside⟩ =>
          ⟨other, List.mem_cons_of_mem _ known, inside⟩

theorem mem_intercalate {separator u : CodeUnit} {ts : List Text}
    (member : u ∈ [separator].intercalate ts) : u = separator ∨ ∃ t ∈ ts, u ∈ t :=
  (mem_of_mem_intercalate member).imp_left List.mem_singleton.mp

/-- What precedes the first separator and what follows it are determined. -/
theorem append_separator_inj {separator : CodeUnit} {first second rest rest' : Text}
    (left : separator ∉ first) (right : separator ∉ second)
    (same : first ++ separator :: rest = second ++ separator :: rest') :
    first = second ∧ rest = rest' := by
  induction first generalizing second with
  | nil =>
    cases second with
    | nil => exact ⟨rfl, (List.cons.inj same).2⟩
    | cons u second => exact absurd (List.cons.inj same).1 fun h => right (h ▸ List.mem_cons_self)
  | cons u first ih =>
    cases second with
    | nil => exact absurd (List.cons.inj same).1 fun h => left (h ▸ List.mem_cons_self)
    | cons v second =>
      obtain ⟨head, tail⟩ := List.cons.inj same
      obtain ⟨texts, rests⟩ := ih (fun m => left (List.mem_cons_of_mem _ m))
        (fun m => right (List.mem_cons_of_mem _ m)) tail
      exact ⟨by rw [head, texts], rests⟩

end Text

/-- The order of code units. -/
def compareText (a b : Text) : ℤ := if a < b then -1 else if b < a then 1 else 0

theorem compareText_le_zero_iff {a b : Text} : compareText a b ≤ 0 ↔ a ≤ b := by
  unfold compareText
  split
  · rename_i before
    simp [before.le]
  · split
    · rename_i after
      simp [after]
    · rename_i notBefore notAfter
      simp [not_lt.mp notAfter]

end Koklo.Foundations
