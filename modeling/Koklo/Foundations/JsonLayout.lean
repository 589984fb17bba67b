import Koklo.Foundations.JsonRoundTrip

/-!
# JSON documents with white space

White space before a value, an item or a field is skipped when the document is read
(`value_blanks`), and so the items of a list and the fields of a record are read whatever white
space stands around them (`Reads.laidList`, `Reads.laidRecord`).
-/

set_option autoImplicit false

namespace Koklo.Foundations.Json

open Text

/-- White space between tokens. -/
def Blanks (t : Text) : Prop := ∀ u ∈ t, isBlank u = true

theorem skipBlanks_append {blanks : Text} (blank : Blanks blanks) (t : Text) :
    skipBlanks (blanks ++ t) = skipBlanks t := by
  rw [skipBlanks, List.dropWhile_append_of_pos blank, skipBlanks]

/-- White space before a value is skipped. -/
theorem value_blanks {blanks : Text} (blank : Blanks blanks) (fuel : ℕ) (t : Text) :
    value fuel (blanks ++ t) = value fuel t := by
  cases fuel with
  | zero => rfl
  | succ fuel => rw [value, value, skipBlanks_append blank]

theorem items_blanks {blanks : Text} (blank : Blanks blanks) (fuel : ℕ) (t : Text) :
    items fuel (blanks ++ t) = items fuel t := by
  cases fuel with
  | zero => rfl
  | succ fuel => rw [items, items, value_blanks blank]

theorem members_blanks {blanks : Text} (blank : Blanks blanks) (fuel : ℕ) (t : Text) :
    members fuel (blanks ++ t) = members fuel t := by
  cases fuel with
  | zero => rfl
  | succ fuel => rw [members, members, skipBlanks_append blank]

theorem skipBlanks_blanks_cons {blanks : Text} (blank : Blanks blanks) {u : CodeUnit}
    (visible : isBlank u = false) (rest : Text) :
    skipBlanks (blanks ++ u :: rest) = u :: rest := by
  rw [skipBlanks_append blank, skipBlanks_cons visible]

/-- A number stops at white space or punctuation. -/
theorem stops_blanks {blanks : Text} (blank : Blanks blanks) {u : CodeUnit}
    (mark : u = 0x2C ∨ u = 0x5D ∨ u = 0x7D) (rest : Text) : Stops (blanks ++ u :: rest) := by
  cases blanks with
  | nil => exact Reads.stops_punctuation mark rest
  | cons v blanks =>
    apply stops_cons
    have space := blank v List.mem_cons_self
    simp only [isBlank, Bool.or_eq_true, beq_iff_eq] at space
    rcases space with ((rfl | rfl) | rfl) | rfl <;> decide

/-- Texts with commas between them, each after white space, and white space after the last. -/
def laid (lead trail : Text) : List Text → Text
  | [] => []
  | [t] => lead ++ t ++ trail
  | t :: ts => lead ++ t ++ 0x2C :: laid lead trail ts

theorem laid_singleton (lead trail t : Text) : laid lead trail [t] = lead ++ t ++ trail := rfl

theorem laid_cons_cons (lead trail t next : Text) (ts : List Text) :
    laid lead trail (t :: next :: ts) = lead ++ t ++ 0x2C :: laid lead trail (next :: ts) := rfl

/-- The text of a list of items that starts as its first item does, after white space. -/
theorem skipBlanks_laid {lead : Text} (leading : Blanks lead) (trail : Text) {t : Text}
    (ts : List Text) {u : CodeUnit} {tail : Text} (starts : t = u :: tail)
    (visible : isBlank u = false) (rest : Text) :
    ∃ onward, laid lead trail (t :: ts) ++ rest = lead ++ u :: onward ∧
      skipBlanks (laid lead trail (t :: ts) ++ rest) = u :: onward := by
  have shape : ∃ onward, laid lead trail (t :: ts) ++ rest = lead ++ u :: onward := by
    cases ts with
    | nil =>
      refine ⟨tail ++ (trail ++ rest), ?_⟩
      rw [laid_singleton, starts, List.append_assoc, List.append_assoc, List.cons_append]
    | cons next ts =>
      refine ⟨tail ++ (0x2C :: laid lead trail (next :: ts) ++ rest), ?_⟩
      rw [laid_cons_cons, starts, List.append_assoc, List.append_assoc, List.cons_append]
  obtain ⟨onward, same⟩ := shape
  refine ⟨onward, same, ?_⟩
  rw [same, skipBlanks_blanks_cons leading visible]

section Laid

variable {lead trail : Text} (leading : Blanks lead) (trailing : Blanks trail)
  {text : Data → Text} {result : Data → Data}

include leading trailing

/-- Items with white space around them are read up to the closing bracket. -/
theorem Reads.laidItems {list : List Data} (some : list ≠ [])
    (all : ∀ data ∈ list, Reads (text data) (result data)) :
    ∀ fuel rest, 2 * (laid lead trail (list.map text)).length + 1 ≤ fuel →
      Json.items fuel (laid lead trail (list.map text) ++ 0x5D :: rest) =
        .some (list.map result, rest) := by
  induction list with
  | nil => exact absurd rfl some
  | cons data list ih =>
    intro fuel rest enough
    obtain ⟨fuel, rfl⟩ := Nat.exists_eq_add_of_le' (show 1 ≤ fuel by omega)
    have head := all data List.mem_cons_self
    cases list with
    | nil =>
      rw [List.map_singleton, laid_singleton, List.length_append, List.length_append] at enough
      rw [List.map_singleton, laid_singleton, List.append_assoc, List.append_assoc, Json.items,
        value_blanks leading, head.reads fuel _ (by omega)
          (stops_blanks trailing (by decide) rest)]
      simp only [Option.bind_some,
        skipBlanks_blanks_cons trailing (show isBlank 0x5D = false from rfl), List.head?_cons,
        List.tail_cons]
      rfl
    | cons next list =>
      have others : ∀ d ∈ next :: list, Reads (text d) (result d) := fun d member =>
        all d (List.mem_cons_of_mem _ member)
      rw [List.map_cons, List.map_cons, laid_cons_cons, ← List.map_cons, List.length_append,
        List.length_append, List.length_cons] at enough
      rw [List.map_cons, List.map_cons, laid_cons_cons, ← List.map_cons, List.append_assoc,
        List.append_assoc, List.cons_append, Json.items, value_blanks leading,
        head.reads fuel _ (by omega) (stops_punctuation (by decide) _)]
      simp only [Option.bind_some, skipBlanks_cons (show isBlank 0x2C = false from rfl),
        List.head?_cons, if_true, List.tail_cons]
      rw [ih (List.cons_ne_nil _ _) others fuel rest (by omega)]
      rfl

/-- **A list with white space around its items** is read. -/
theorem Reads.laidList {list : List Data} (some : list ≠ [])
    (all : ∀ data ∈ list, Reads (text data) (result data)) :
    Reads (0x5B :: laid lead trail (list.map text) ++ [0x5D]) (.list (list.map result)) where
  starts := ⟨0x5B, laid lead trail (list.map text) ++ [0x5D], rfl, by decide, by decide⟩
  reads fuel rest enough _ := by
    rw [List.length_append, List.length_cons, List.length_singleton] at enough
    obtain ⟨fuel, rfl⟩ := Nat.exists_eq_add_of_le' (show 1 ≤ fuel by omega)
    obtain ⟨data, others, rfl⟩ := List.exists_cons_of_ne_nil some
    have shape : 0x5B :: laid lead trail ((data :: others).map text) ++ [0x5D] ++ rest =
        0x5B :: (laid lead trail ((data :: others).map text) ++ 0x5D :: rest) := by
      rw [List.append_assoc]
      rfl
    have bracket : ¬ (0x5B : CodeUnit) = 0x22 := by decide
    obtain ⟨u, tail, first, visible, apart⟩ := (all data List.mem_cons_self).starts
    obtain ⟨onward, same, skipped⟩ :=
      skipBlanks_laid leading trail (others.map text) first visible (0x5D :: rest)
    have inside : ¬ (u :: onward).head? = Option.some 0x5D := by
      exact fun closing => apart (Option.some.inj closing)
    rw [shape, value]
    simp only [skipBlanks_cons (show isBlank 0x5B = false from rfl), List.head?_cons,
      List.tail_cons, Option.some.injEq, if_neg bracket, if_true]
    rw [List.map_cons, skipped, if_neg inside, ← items_blanks leading, ← same, ← List.map_cons,
      Reads.laidItems leading trailing some all fuel rest (by omega)]
    rfl

/-- The text of a field, with white space before its value. -/
def laidField (gap : Text) (text : Data → Text) (field : Text × Data) : Text :=
  jsonString field.1 ++ 0x3A :: (gap ++ text field.2)

/-- Fields with white space around them are read up to the closing brace. -/
theorem Reads.laidMembers {gap : Text} (spaced : Blanks gap) {fields : List (Text × Data)}
    (some : fields ≠ []) (all : ∀ field ∈ fields, Reads (text field.2) (result field.2)) :
    ∀ fuel rest, 2 * (laid lead trail (fields.map (laidField gap text))).length + 1 ≤ fuel →
      Json.members fuel (laid lead trail (fields.map (laidField gap text)) ++ 0x7D :: rest) =
        .some (fields.map fun field => (field.1, result field.2), rest) := by
  induction fields with
  | nil => exact absurd rfl some
  | cons field fields ih =>
    intro fuel rest enough
    obtain ⟨fuel, rfl⟩ := Nat.exists_eq_add_of_le' (show 1 ≤ fuel by omega)
    obtain ⟨name, data⟩ := field
    have head : Reads (text data) (result data) := all (name, data) List.mem_cons_self
    have size : (laidField gap text (name, data)).length =
        (jsonString name).length + (gap.length + (text data).length + 1) := by
      rw [laidField, List.length_append, List.length_cons, List.length_append]
    cases fields with
    | nil =>
      rw [List.map_singleton, laid_singleton, List.length_append, List.length_append, size]
        at enough
      rw [List.map_singleton, laid_singleton, List.append_assoc, List.append_assoc,
        members_blanks leading, laidField, List.append_assoc, List.cons_append, List.append_assoc,
        members_name, value_blanks spaced, head.reads fuel _ (by omega)
          (stops_blanks trailing (by decide) rest)]
      simp only [Option.bind_some,
        skipBlanks_blanks_cons trailing (show isBlank 0x7D = false from rfl), List.head?_cons,
        List.tail_cons]
      rfl
    | cons next fields =>
      have others : ∀ f ∈ next :: fields, Reads (text f.2) (result f.2) := fun f member =>
        all f (List.mem_cons_of_mem _ member)
      rw [List.map_cons, List.map_cons, laid_cons_cons, ← List.map_cons, List.length_append,
        List.length_append, List.length_cons, size] at enough
      rw [List.map_cons, List.map_cons, laid_cons_cons, ← List.map_cons, List.append_assoc,
        List.append_assoc, List.cons_append, members_blanks leading, laidField, List.append_assoc,
        List.cons_append, List.append_assoc, members_name, value_blanks spaced,
        head.reads fuel _ (by omega) (stops_punctuation (by decide) _)]
      simp only [Option.bind_some, skipBlanks_cons (show isBlank 0x2C = false from rfl),
        List.head?_cons, if_true, List.tail_cons]
      rw [ih (List.cons_ne_nil _ _) others fuel rest (by omega)]
      rfl

/-- **A record with white space around its fields** is read. -/
theorem Reads.laidRecord {gap : Text} (spaced : Blanks gap) {fields : List (Text × Data)}
    (some : fields ≠ []) (distinct : (fields.map Prod.fst).Nodup)
    (all : ∀ field ∈ fields, Reads (text field.2) (result field.2)) :
    Reads (0x7B :: laid lead trail (fields.map (laidField gap text)) ++ [0x7D])
      (.record (fields.map fun field => (field.1, result field.2))) where
  starts := ⟨0x7B, laid lead trail (fields.map (laidField gap text)) ++ [0x7D], rfl, by decide,
    by decide⟩
  reads fuel rest enough _ := by
    rw [List.length_append, List.length_cons, List.length_singleton] at enough
    obtain ⟨fuel, rfl⟩ := Nat.exists_eq_add_of_le' (show 1 ≤ fuel by omega)
    obtain ⟨field, others, rfl⟩ := List.exists_cons_of_ne_nil some
    have shape : 0x7B :: laid lead trail ((field :: others).map (laidField gap text)) ++ [0x7D] ++
        rest = 0x7B :: (laid lead trail ((field :: others).map (laidField gap text)) ++
          0x7D :: rest) := by
      rw [List.append_assoc]
      rfl
    have brace : ¬ (0x7B : CodeUnit) = 0x22 := by decide
    have bracket : ¬ (0x7B : CodeUnit) = 0x5B := by decide
    have first : laidField gap text field =
        0x22 :: (jsonBody field.1 ++ 0x22 :: 0x3A :: (gap ++ text field.2)) := by
      rw [laidField, jsonString, List.cons_append, List.cons_append, List.append_assoc]
      rfl
    obtain ⟨onward, same, skipped⟩ := skipBlanks_laid leading trail
      (others.map (laidField gap text)) first (by decide) (0x7D :: rest)
    have inside : ¬ ((0x22 : CodeUnit) :: onward).head? = Option.some 0x7D := by
      exact fun closing => absurd (Option.some.inj closing) (by decide)
    have names : ((field :: others).map fun field => (field.1, result field.2)).map Prod.fst =
        (field :: others).map Prod.fst := by
      rw [List.map_map]
      rfl
    rw [shape, value]
    simp only [skipBlanks_cons (show isBlank 0x7B = false from rfl), List.head?_cons,
      List.tail_cons, Option.some.injEq, if_neg brace, if_neg bracket, if_true]
    rw [List.map_cons, skipped, if_neg inside, ← members_blanks leading, ← same, ← List.map_cons,
      Reads.laidMembers leading trailing spaced some all fuel rest (by omega), Option.map_some,
      OrderedMap.ofEntries_of_nodup (by rw [names]; exact distinct)]

end Laid

end Koklo.Foundations.Json
