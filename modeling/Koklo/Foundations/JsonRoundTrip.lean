import Koklo.Foundations.JsonNumerals

/-!
# JSON documents are read back

A string is read back up to its closing quote (`stringBody_jsonBody`), a double up to what stops it
(`readsNumber_double`), and from these, by induction on the data, every document up to its end
(`reads_stringify`). Data whose numbers are finite doubles, and whose records name no field twice,
is read back from its text (`parse_stringify`).
-/

set_option autoImplicit false

namespace Koklo.Foundations.Json

open Text

/-! ## Strings are read back -/

theorem hexValue_hexDigit {n : ℕ} (small : n < 0x10) : hexValue (hexDigit n) = some n := by
  interval_cases n <;> rfl

theorem hexUnit_unicodeEscape (u : CodeUnit) :
    hexUnit (hexDigit (u.val / 0x1000 % 0x10)) (hexDigit (u.val / 0x100 % 0x10))
      (hexDigit (u.val / 0x10 % 0x10)) (hexDigit (u.val % 0x10)) = some u := by
  have digit : ∀ n, hexValue (hexDigit (n % 0x10)) = some (n % 0x10) := fun n =>
    hexValue_hexDigit (Nat.mod_lt n (by decide))
  simp only [hexUnit, digit, bind, Option.bind_some, Option.some.injEq]
  apply Fin.ext
  have small := u.isLt
  show _ % 0x10000 = u.val
  omega

theorem stringBody_quote (rest : Text) : stringBody (0x22 :: rest) = some ([], rest) := by
  rw [stringBody.eq_def]
  rfl

theorem stringBody_plain {u : CodeUnit} (quote : u ≠ 0x22) (backslash : u ≠ 0x5C)
    (visible : ¬ u < 0x20) (rest : Text) :
    stringBody (u :: rest) = (stringBody rest).map (push u) := by
  rw [stringBody.eq_def]
  simp only [if_neg quote, if_neg backslash, if_neg visible]

theorem stringBody_escaped {e unit : CodeUnit} {rest : Text} (letter : e ≠ 0x75)
    (known : escaped e = some unit) :
    stringBody (0x5C :: e :: rest) = (stringBody rest).map (push unit) := by
  have mark : (0x5C : CodeUnit) ≠ 0x22 := by decide
  rw [stringBody.eq_def]
  simp only [if_neg mark, if_true, if_neg letter, known, Option.bind_some]

theorem stringBody_unicodeEscape (u : CodeUnit) (rest : Text) :
    stringBody (unicodeEscape u ++ rest) = (stringBody rest).map (push u) := by
  have mark : (0x5C : CodeUnit) ≠ 0x22 := by decide
  simp only [unicodeEscape, List.cons_append, List.nil_append]
  rw [stringBody.eq_def]
  simp only [if_neg mark, if_true, hexUnit_unicodeEscape, Option.bind_some]

/-- A unit of a string is read back. -/
theorem stringBody_jsonUnit (u : CodeUnit) (rest : Text) :
    stringBody (jsonUnit u ++ rest) = (stringBody rest).map (push u) := by
  unfold jsonUnit
  split
  · subst u
    exact stringBody_escaped (by decide) rfl
  split
  · subst u
    exact stringBody_escaped (by decide) rfl
  split
  · subst u
    exact stringBody_escaped (by decide) rfl
  split
  · subst u
    exact stringBody_escaped (by decide) rfl
  split
  · subst u
    exact stringBody_escaped (by decide) rfl
  split
  · subst u
    exact stringBody_escaped (by decide) rfl
  split
  · subst u
    exact stringBody_escaped (by decide) rfl
  split
  · exact stringBody_unicodeEscape u rest
  · rename_i quote backslash visible
    apply stringBody_plain quote backslash
    simp only [Bool.or_eq_true, decide_eq_true_eq, not_or] at visible
    exact visible.1.1

/-- A surrogate that is written as it is. -/
theorem stringBody_surrogate {u : CodeUnit}
    (surrogate : isHighSurrogate u = true ∨ isLowSurrogate u = true) (rest : Text) :
    stringBody (u :: rest) = (stringBody rest).map (push u) := by
  have bound : 0xD800 ≤ u.val := by
    simp only [isHighSurrogate, isLowSurrogate, Bool.and_eq_true, decide_eq_true_eq] at surrogate
    rcases surrogate with ⟨lower, _⟩ | ⟨lower, _⟩
    · exact lower
    · exact le_trans (by decide) (show 0xDC00 ≤ u.val from lower)
  have apart : ∀ v : CodeUnit, v.val < 0xD800 → u ≠ v := by
    rintro v small rfl
    omega
  apply stringBody_plain (apart _ (by decide)) (apart _ (by decide))
  rw [Fin.lt_def]
  show ¬ u.val < 0x20
  omega

/-- **A string is read back** up to its closing quote. -/
theorem stringBody_jsonBody (t rest : Text) :
    stringBody (jsonBody t ++ 0x22 :: rest) = some (t, rest) := by
  induction t using jsonBody.induct with
  | case1 => exact stringBody_quote rest
  | case2 u =>
    rw [jsonBody, stringBody_jsonUnit, stringBody_quote]
    rfl
  | case3 u v t pair ih =>
    rw [jsonBody, if_pos pair]
    rw [Bool.and_eq_true] at pair
    rw [List.cons_append, List.cons_append, stringBody_surrogate (.inl pair.1),
      stringBody_surrogate (.inr pair.2), ih]
    rfl
  | case4 u v t alone ih =>
    rw [jsonBody, if_neg alone, List.append_assoc, stringBody_jsonUnit, ih]
    rfl

/-! ## Documents are read back -/

theorem skipBlanks_cons {u : CodeUnit} (visible : isBlank u = false) (rest : Text) :
    skipBlanks (u :: rest) = u :: rest := by
  rw [skipBlanks, List.dropWhile_cons_of_neg (by simp [visible])]

/-- A text that is read as the data up to its end, whatever stops it. -/
structure Reads (t : Text) (data : Data) : Prop where
  starts : ∃ u rest, t = u :: rest ∧ isBlank u = false ∧ u ≠ 0x5D
  reads : ∀ fuel rest, 2 * t.length ≤ fuel → Stops rest →
    value fuel (t ++ rest) = some (data, rest)

namespace Reads

theorem keyword {name : String} {data : Data} {u : CodeUnit} {tail : Text}
    (shape : lit name = u :: tail) (visible : isBlank u = false) (open_ : u ≠ 0x5D)
    (read : ∀ fuel rest, value (fuel + 1) (lit name ++ rest) = some (data, rest)) :
    Reads (lit name) data where
  starts := ⟨u, tail, shape, visible, open_⟩
  reads fuel rest enough _ := by
    rw [shape, List.length_cons] at enough
    obtain ⟨fuel, rfl⟩ := Nat.exists_eq_add_of_le' (show 1 ≤ fuel by omega)
    exact read fuel rest

theorem null : Reads (lit "null") .null := by
  apply keyword rfl (by decide) (by decide)
  intro fuel rest
  rfl

theorem bool (b : Bool) : Reads (stringify (.bool b)) (.bool b) := by
  cases b
  · apply keyword rfl (by decide) (by decide)
    intro fuel rest
    rfl
  · apply keyword rfl (by decide) (by decide)
    intro fuel rest
    rfl

theorem text (t : Text) : Reads (jsonString t) (.text t) where
  starts := ⟨0x22, jsonBody t ++ [0x22], rfl, by decide, by decide⟩
  reads fuel rest enough _ := by
    rw [jsonString, List.cons_append, List.length_cons] at enough
    obtain ⟨fuel, rfl⟩ := Nat.exists_eq_add_of_le' (show 1 ≤ fuel by omega)
    have shape : jsonString t ++ rest = 0x22 :: (jsonBody t ++ 0x22 :: rest) := by
      rw [jsonString, List.cons_append, List.cons_append, List.append_assoc]
      rfl
    rw [shape, value, skipBlanks_cons (by decide), List.head?_cons, if_pos rfl, List.tail_cons,
      stringBody_jsonBody]
    rfl

theorem number {t : Text} {n : Number} (read : ReadsNumber t n) : Reads t (.number n) := by
  obtain ⟨u, run, shape, first⟩ := read.starts
  have apart : ∀ v : CodeUnit, isDigit v = false → v ≠ 0x2D → u ≠ v := by
    rintro v other mark rfl
    rcases first with digit | minus
    · rw [digit] at other
      cases other
    · exact mark minus
  have visible : isBlank u = false := by
    simp only [isBlank, Bool.or_eq_false_iff, beq_eq_false_iff_ne]
    exact ⟨⟨⟨apart _ rfl (by decide), apart _ rfl (by decide)⟩, apart _ rfl (by decide)⟩,
      apart _ rfl (by decide)⟩
  refine ⟨⟨u, run, shape, visible, apart _ rfl (by decide)⟩, fun fuel rest enough stop => ?_⟩
  rw [shape, List.length_cons] at enough
  obtain ⟨fuel, rfl⟩ := Nat.exists_eq_add_of_le' (show 1 ≤ fuel by omega)
  have front : skipBlanks (t ++ rest) = t ++ rest := by
    rw [shape]
    exact skipBlanks_cons visible _
  have head : (t ++ rest).head? = some u := by rw [shape]; rfl
  have other : ∀ v : CodeUnit, isDigit v = false → v ≠ 0x2D → ¬ some u = some v :=
    fun v blank mark same => apart v blank mark (Option.some.inj same)
  have keyword : ∀ (word : Text) (v : CodeUnit), word.head? = some v → isDigit v = false →
      v ≠ 0x2D → ¬ word <+: t ++ rest := by
    intro word v first blank mark starts
    obtain ⟨tail, rfl⟩ := List.head?_eq_some_iff.mp first
    rw [shape, List.cons_append, List.cons_prefix_cons] at starts
    exact apart v blank mark starts.1.symm
  rw [value]
  simp only [front, head]
  rw [if_neg (other _ rfl (by decide)), if_neg (other _ rfl (by decide)),
    if_neg (other _ rfl (by decide)), if_neg (keyword _ _ rfl rfl (by decide)),
    if_neg (keyword _ _ rfl rfl (by decide)), if_neg (keyword _ _ rfl rfl (by decide)),
    read.reads rest stop]
  rfl

/-- What follows an item or a field. -/
theorem stops_punctuation {u : CodeUnit} (mark : u = 0x2C ∨ u = 0x5D ∨ u = 0x7D) (rest : Text) :
    Stops (u :: rest) := by
  apply stops_cons
  rcases mark with rfl | rfl | rfl <;> decide

theorem stringifyItems_cons_cons (data next : Data) (list : List Data) :
    stringifyItems (data :: next :: list) =
      stringify data ++ 0x2C :: stringifyItems (next :: list) := rfl

theorem stringifyFields_cons_cons (name : Text) (data : Data) (next : Text × Data)
    (fields : List (Text × Data)) :
    stringifyFields ((name, data) :: next :: fields) =
      jsonString name ++ 0x3A :: (stringify data ++ 0x2C :: stringifyFields (next :: fields)) := rfl

/-- The items of a list are read up to its closing bracket. -/
theorem items {list : List Data} (some : list ≠ [])
    (all : ∀ data ∈ list, Reads (stringify data) data) :
    ∀ fuel rest, 2 * (stringifyItems list).length + 1 ≤ fuel →
      Json.items fuel (stringifyItems list ++ 0x5D :: rest) = .some (list, rest) := by
  induction list with
  | nil => exact absurd rfl some
  | cons data list ih =>
    intro fuel rest enough
    obtain ⟨fuel, rfl⟩ := Nat.exists_eq_add_of_le' (show 1 ≤ fuel by omega)
    have head := all data List.mem_cons_self
    cases list with
    | nil =>
      rw [stringifyItems] at enough ⊢
      rw [Json.items, head.reads fuel _ (by omega) (stops_punctuation (by decide) rest)]
      rfl
    | cons next list =>
      have others : ∀ d ∈ next :: list, Reads (stringify d) d := fun d member =>
        all d (List.mem_cons_of_mem _ member)
      rw [stringifyItems_cons_cons, List.length_append, List.length_cons] at enough
      rw [stringifyItems_cons_cons, List.append_assoc, List.cons_append, Json.items,
        head.reads fuel _ (by omega) (stops_punctuation (by decide) _)]
      simp only [Option.bind_some, skipBlanks_cons (show isBlank 0x2C = false from rfl),
        List.head?_cons, if_true, List.tail_cons]
      rw [ih (List.cons_ne_nil _ _) others fuel rest (by omega)]
      rfl

/-- The name of a field is read up to its value. -/
theorem members_name (name rest : Text) (fuel : ℕ) :
    Json.members (fuel + 1) (jsonString name ++ 0x3A :: rest) =
      (value fuel rest).bind fun (data, rest) =>
        let rest := skipBlanks rest
        if rest.head? = .some 0x2C then
          (Json.members fuel rest.tail).map fun read => ((name, data) :: read.1, read.2)
        else if rest.head? = .some 0x7D then .some ([(name, data)], rest.tail)
        else none := by
  have shape : jsonString name ++ 0x3A :: rest = 0x22 :: (jsonBody name ++ 0x22 :: 0x3A :: rest) := by
    rw [jsonString, List.cons_append, List.cons_append, List.append_assoc]
    rfl
  rw [shape, Json.members]
  simp only [skipBlanks_cons (show isBlank 0x22 = false from rfl), List.head?_cons, if_true,
    List.tail_cons, stringBody_jsonBody, Option.bind_some,
    skipBlanks_cons (show isBlank 0x3A = false from rfl)]

/-- The fields of a record are read up to its closing brace. -/
theorem members {fields : List (Text × Data)} (some : fields ≠ [])
    (all : ∀ field ∈ fields, Reads (stringify field.2) field.2) :
    ∀ fuel rest, 2 * (stringifyFields fields).length + 1 ≤ fuel →
      Json.members fuel (stringifyFields fields ++ 0x7D :: rest) = .some (fields, rest) := by
  induction fields with
  | nil => exact absurd rfl some
  | cons field fields ih =>
    intro fuel rest enough
    obtain ⟨fuel, rfl⟩ := Nat.exists_eq_add_of_le' (show 1 ≤ fuel by omega)
    obtain ⟨name, data⟩ := field
    have head : Reads (stringify data) data := all (name, data) List.mem_cons_self
    cases fields with
    | nil =>
      rw [stringifyFields, List.length_append, List.length_cons] at enough
      rw [stringifyFields, List.append_assoc, List.cons_append, members_name,
        head.reads fuel _ (by omega) (stops_punctuation (by decide) rest)]
      rfl
    | cons next fields =>
      have others : ∀ f ∈ next :: fields, Reads (stringify f.2) f.2 := fun f member =>
        all f (List.mem_cons_of_mem _ member)
      rw [stringifyFields_cons_cons, List.length_append, List.length_cons, List.length_append,
        List.length_cons] at enough
      rw [stringifyFields_cons_cons, List.append_assoc, List.cons_append, List.append_assoc,
        List.cons_append, members_name,
        head.reads fuel _ (by omega) (stops_punctuation (by decide) _)]
      simp only [Option.bind_some, skipBlanks_cons (show isBlank 0x2C = false from rfl),
        List.head?_cons, if_true, List.tail_cons]
      rw [ih (List.cons_ne_nil _ _) others fuel rest (by omega)]
      rfl

theorem list {list : List Data} (all : ∀ data ∈ list, Reads (stringify data) data) :
    Reads (stringify (.list list)) (.list list) where
  starts := ⟨0x5B, stringifyItems list ++ [0x5D], rfl, by decide, by decide⟩
  reads fuel rest enough _ := by
    rw [stringify, List.length_append, List.length_cons, List.length_singleton] at enough
    obtain ⟨fuel, rfl⟩ := Nat.exists_eq_add_of_le' (show 1 ≤ fuel by omega)
    have shape : stringify (.list list) ++ rest = 0x5B :: (stringifyItems list ++ 0x5D :: rest) := by
      rw [stringify, List.append_assoc]
      rfl
    have bracket : ¬ (0x5B : CodeUnit) = 0x22 := by decide
    rw [shape, value]
    simp only [skipBlanks_cons (show isBlank 0x5B = false from rfl), List.head?_cons, List.tail_cons,
      Option.some.injEq, if_neg bracket, if_true]
    cases list with
    | nil =>
      have closing : skipBlanks (stringifyItems [] ++ 0x5D :: rest) = 0x5D :: rest :=
        skipBlanks_cons (by decide) rest
      rw [closing]
      rfl
    | cons data list =>
      obtain ⟨u, tail, first, visible, apart⟩ := (all data List.mem_cons_self).starts
      obtain ⟨tail, items⟩ : ∃ tail, stringifyItems (data :: list) = u :: tail := by
        cases list with
        | nil => exact ⟨tail, first⟩
        | cons next list =>
          refine ⟨tail ++ 0x2C :: stringifyItems (next :: list), ?_⟩
          rw [stringifyItems_cons_cons, first, List.cons_append]
      have front : skipBlanks (stringifyItems (data :: list) ++ 0x5D :: rest) =
          stringifyItems (data :: list) ++ 0x5D :: rest := by
        rw [items]
        exact skipBlanks_cons visible _
      have inside : ¬ (stringifyItems (data :: list) ++ 0x5D :: rest).head? = some 0x5D := by
        rw [items]
        exact fun same => apart (Option.some.inj same)
      rw [front, if_neg inside, Reads.items (List.cons_ne_nil _ _) all fuel rest (by omega)]
      rfl

theorem record {fields : List (Text × Data)} (distinct : (fields.map Prod.fst).Nodup)
    (all : ∀ field ∈ fields, Reads (stringify field.2) field.2) :
    Reads (stringify (.record fields)) (.record fields) where
  starts := ⟨0x7B, stringifyFields fields ++ [0x7D], rfl, by decide, by decide⟩
  reads fuel rest enough _ := by
    rw [stringify, List.length_append, List.length_cons, List.length_singleton] at enough
    obtain ⟨fuel, rfl⟩ := Nat.exists_eq_add_of_le' (show 1 ≤ fuel by omega)
    have shape : stringify (.record fields) ++ rest =
        0x7B :: (stringifyFields fields ++ 0x7D :: rest) := by
      rw [stringify, List.append_assoc]
      rfl
    have brace : ¬ (0x7B : CodeUnit) = 0x22 := by decide
    have bracket : ¬ (0x7B : CodeUnit) = 0x5B := by decide
    rw [shape, value]
    simp only [skipBlanks_cons (show isBlank 0x7B = false from rfl), List.head?_cons, List.tail_cons,
      Option.some.injEq, if_neg brace, if_neg bracket, if_true]
    cases fields with
    | nil =>
      have closing : skipBlanks (stringifyFields [] ++ 0x7D :: rest) = 0x7D :: rest :=
        skipBlanks_cons (by decide) rest
      rw [closing]
      rfl
    | cons field fields =>
      obtain ⟨tail, first⟩ : ∃ tail, stringifyFields (field :: fields) = 0x22 :: tail := by
        obtain ⟨name, data⟩ := field
        cases fields with
        | nil => exact ⟨_, rfl⟩
        | cons next fields => exact ⟨_, rfl⟩
      have front : skipBlanks (stringifyFields (field :: fields) ++ 0x7D :: rest) =
          stringifyFields (field :: fields) ++ 0x7D :: rest := by
        rw [first]
        exact skipBlanks_cons (by decide) _
      have inside : ¬ (stringifyFields (field :: fields) ++ 0x7D :: rest).head? = some 0x7D := by
        rw [first]
        exact fun same => absurd (Option.some.inj same) (by decide)
      rw [front, if_neg inside, Reads.members (List.cons_ne_nil _ _) all fuel rest (by omega)]
      simp only [Option.map_some, OrderedMap.ofEntries_of_nodup distinct]

end Reads

/-- Data that its text keeps: whole numbers of at most 53 bits, and no field named twice. -/
inductive Plain : Data → Prop
  | null : Plain .null
  | bool (b : Bool) : Plain (.bool b)
  | number {n : ℕ} (small : n < 2 ^ 53) : Plain (.number (.finite n))
  | text (t : Text) : Plain (.text t)
  | list {items : List Data} (all : ∀ data ∈ items, Plain data) : Plain (.list items)
  | record {fields : List (Text × Data)} (distinct : (fields.map Prod.fst).Nodup)
      (all : ∀ field ∈ fields, Plain field.2) : Plain (.record fields)

/-- Data that its text keeps: finite doubles, and no field named twice. -/
inductive Legible : Data → Prop
  | null : Legible .null
  | bool (b : Bool) : Legible (.bool b)
  | number {q : ℚ} (double : Number.Double q) : Legible (.number (.finite q))
  | text (t : Text) : Legible (.text t)
  | list {items : List Data} (all : ∀ data ∈ items, Legible data) : Legible (.list items)
  | record {fields : List (Text × Data)} (distinct : (fields.map Prod.fst).Nodup)
      (all : ∀ field ∈ fields, Legible field.2) : Legible (.record fields)

theorem Plain.legible {data : Data} (plain : Plain data) : Legible data := by
  induction plain with
  | null => exact .null
  | bool b => exact .bool b
  | number small => exact .number (Number.double_natCast small.le)
  | text t => exact .text t
  | list _ ih => exact .list ih
  | record distinct _ ih => exact .record distinct ih

theorem reads_stringify {data : Data} (legible : Legible data) : Reads (stringify data) data := by
  induction legible with
  | null => exact Reads.null
  | bool b => exact Reads.bool b
  | number double => exact Reads.number (readsNumber_double double)
  | text t => exact Reads.text t
  | list _ ih => exact Reads.list ih
  | record distinct _ ih => exact Reads.record distinct ih

/-- **What is written is read back.** -/
theorem parse_stringify {data : Data} (legible : Legible data) :
    parse (stringify data) = some data := by
  have read := (reads_stringify legible).reads (2 * (stringify data).length + 2) [] (by omega)
    stops_nil
  rw [List.append_nil] at read
  rw [parse, read]
  rfl

end Koklo.Foundations.Json
