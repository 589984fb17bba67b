import Koklo.Foundations.JsonLayout
import Koklo.Foundations.JsonValues

/-!
# Canonical JSON

A document is written with the fields of its records sorted by name, two spaces of indentation and
one line break at its end. It is read back as its sorted representative (`parse_canonicalize`), so
the canonical texts of two documents are the same exactly when the documents are equal as JSON
values (`canonicalize_eq_iff`).
-/

set_option autoImplicit false

namespace Koklo.Schema.Canonical

open Koklo.Foundations Koklo.Foundations.Text Koklo.Foundations.Json

/-- Two spaces a level. -/
def indent (depth : ℕ) : Text := List.replicate (2 * depth) 0x20

/-- A list or a record, one part a line. -/
def container (opening closing : CodeUnit) (depth : ℕ) (parts : List Text) : Text :=
  if parts = [] then [opening, closing]
  else opening :: newline :: ((lit ",\n").intercalate (parts.map (indent (depth + 1) ++ ·)) ++
    newline :: (indent depth ++ [closing]))

/-- A field, once its value is written. -/
def fieldText (field : Text × Text) : Text := jsonString field.1 ++ (lit ": " ++ field.2)

mutual

/-- The canonical text of a value, at a depth. -/
def write (depth : ℕ) : Data → Text
  | .null => lit "null"
  | .bool true => lit "true"
  | .bool false => lit "false"
  | .number number => numberText number
  | .text t => jsonString t
  | .list items => container 0x5B 0x5D depth (writeItems (depth + 1) items)
  | .record fields =>
    container 0x7B 0x7D depth ((sortWith byName (writeFields (depth + 1) fields)).map fieldText)

def writeItems (depth : ℕ) : List Data → List Text
  | [] => []
  | data :: items => write depth data :: writeItems depth items

def writeFields (depth : ℕ) : List (Text × Data) → List (Text × Text)
  | [] => []
  | (name, data) :: fields => (name, write depth data) :: writeFields depth fields

end

mutual

/-- No number of the data is infinite or missing. -/
def finite : Data → Bool
  | .number number => number.value?.isSome
  | .list items => finiteItems items
  | .record fields => finiteFields fields
  | _ => true

def finiteItems : List Data → Bool
  | [] => true
  | data :: items => finite data && finiteItems items

def finiteFields : List (Text × Data) → Bool
  | [] => true
  | (_, data) :: fields => finite data && finiteFields fields

end

/-- The canonical text, when the numbers are finite. -/
def canonicalize (data : Data) : Option Text :=
  if finite data then some (write 0 data ++ [newline]) else none

/-! ## What is written -/

theorem writeItems_eq_map (depth : ℕ) (items : List Data) :
    writeItems depth items = items.map (write depth) := by
  induction items with
  | nil => rfl
  | cons data items ih => rw [writeItems, ih, List.map_cons]

theorem writeFields_eq_map (depth : ℕ) (fields : List (Text × Data)) :
    writeFields depth fields = fields.map fun field => (field.1, write depth field.2) := by
  induction fields with
  | nil => rfl
  | cons field fields ih => rw [writeFields, ih, List.map_cons]

theorem finiteItems_eq_true {items : List Data} (all : ∀ data ∈ items, finite data = true) :
    finiteItems items = true := by
  induction items with
  | nil => rfl
  | cons data items ih =>
    obtain ⟨first, others⟩ := List.forall_mem_cons.mp all
    rw [finiteItems, first, ih others]
    rfl

theorem finiteFields_eq_true {fields : List (Text × Data)}
    (all : ∀ field ∈ fields, finite field.2 = true) : finiteFields fields = true := by
  induction fields with
  | nil => rfl
  | cons field fields ih =>
    obtain ⟨first, others⟩ := List.forall_mem_cons.mp all
    rw [finiteFields, first, ih others]
    rfl

theorem finite_of_legible {data : Data} (legible : Legible data) : finite data = true := by
  induction legible with
  | null => rfl
  | bool b => rfl
  | number double => rfl
  | text t => rfl
  | list _ ih => exact finiteItems_eq_true ih
  | record _ _ ih => exact finiteFields_eq_true ih

theorem canonicalize_of_legible {data : Data} (legible : Legible data) :
    canonicalize data = some (write 0 data ++ [newline]) := if_pos (finite_of_legible legible)

/-! ## The text is read back -/

theorem blanks_indent (depth : ℕ) : Blanks (newline :: indent depth) := by
  intro u member
  rcases List.mem_cons.mp member with rfl | space
  · decide
  · rw [List.eq_of_mem_replicate space]
    decide

/-- The parts of a list or a record are laid out with white space around them. -/
theorem intercalate_eq_laid (depth : ℕ) {parts : List Text} (some : parts ≠ []) :
    newline :: ((lit ",\n").intercalate (parts.map (indent (depth + 1) ++ ·)) ++
        newline :: indent depth) =
      laid (newline :: indent (depth + 1)) (newline :: indent depth) parts := by
  induction parts with
  | nil => exact absurd rfl some
  | cons part parts ih =>
    cases parts with
    | nil =>
      rw [List.map_singleton, List.intercalate_singleton, laid_singleton]
      rfl
    | cons next parts =>
      have rest := ih (List.cons_ne_nil _ _)
      rw [List.map_cons, List.map_cons, List.intercalate_cons_cons, ← List.map_cons,
        laid_cons_cons, ← rest, List.append_assoc, List.append_assoc]
      simp only [List.cons_append, List.append_assoc]
      rfl

theorem container_eq_laid (opening closing : CodeUnit) (depth : ℕ) {parts : List Text}
    (some : parts ≠ []) :
    container opening closing depth parts =
      opening :: laid (newline :: indent (depth + 1)) (newline :: indent depth) parts ++
        [closing] := by
  rw [container, if_neg some, ← intercalate_eq_laid depth some]
  simp only [List.cons_append, List.append_assoc]

/-- **What is written is read back**, sorted by name. -/
theorem reads_write {data : Data} (legible : Legible data) :
    ∀ depth, Reads (write depth data) (sorted data) := by
  induction legible with
  | null => exact fun _ => Reads.null
  | bool b =>
    cases b with
    | false => exact fun _ => Reads.bool false
    | true => exact fun _ => Reads.bool true
  | number double => exact fun _ => reads_stringify (.number double)
  | text t => exact fun _ => Reads.text t
  | @list items _ ih =>
    intro depth
    rw [write, sorted, writeItems_eq_map, sortedItems_eq_map]
    by_cases some : items = []
    · rw [some]
      exact Reads.list fun _ member => absurd member List.not_mem_nil
    · rw [container_eq_laid _ _ _ (mt List.map_eq_nil_iff.mp some)]
      exact Reads.laidList (blanks_indent _) (blanks_indent _) some
        fun item member => ih item member (depth + 1)
  | @record fields distinct _ ih =>
    intro depth
    have laidOut : (sortWith byName (writeFields (depth + 1) fields)).map fieldText =
        (sortWith byName fields).map (laidField [0x20] (write (depth + 1))) := by
      rw [writeFields_eq_map, sort_fields_map, List.map_map]
      rfl
    rw [write, sorted, laidOut, sortedFields_eq_map, sort_fields_map]
    by_cases some : sortWith byName fields = []
    · rw [some]
      exact @Reads.record [] List.nodup_nil fun _ member => absurd member List.not_mem_nil
    · rw [container_eq_laid _ _ _ (mt List.map_eq_nil_iff.mp some)]
      have spaced : Blanks [0x20] := by
        intro u space
        rw [List.mem_singleton.mp space]
        decide
      exact Reads.laidRecord (blanks_indent _) (blanks_indent _) spaced some
        (names_sort_fields distinct) fun field member =>
          ih field (mem_sort_fields.mp member) (depth + 1)

/-- **The canonical text is read back** as the sorted representative of the document. -/
theorem parse_canonicalize {data : Data} (legible : Legible data) {t : Text}
    (written : canonicalize data = some t) : parse t = some (sorted data) := by
  rw [canonicalize_of_legible legible] at written
  cases written
  have stop : Stops [newline] := stops_cons (by decide)
  have read := (reads_write legible 0).reads (2 * (write 0 data ++ [newline]).length + 2) [newline]
    (by rw [List.length_append]; omega) stop
  rw [parse, read]
  rfl

/-! ## One text a value -/

/-- Equal values are written alike. -/
theorem write_eq_of_sameValue {data other : Data} (same : SameValue data other)
    (legible : Legible data) (legible' : Legible other) : ∀ depth, write depth data = write depth other := by
  induction same with
  | null => exact fun _ => rfl
  | bool b => exact fun _ => rfl
  | number n => exact fun _ => rfl
  | text t => exact fun _ => rfl
  | @list items others length each ih =>
    intro depth
    cases legible with
    | list all =>
      cases legible' with
      | list all' =>
        rw [write, write, writeItems_eq_map, writeItems_eq_map]
        congr 1
        apply List.ext_getElem?
        intro i
        rw [List.getElem?_map, List.getElem?_map]
        cases known : items[i]? with
        | none =>
          rw [List.getElem?_eq_none_iff, length] at known
          rw [List.getElem?_eq_none_iff.mpr known]
        | some item =>
          have inside : i < others.length := length ▸ (List.getElem?_eq_some_iff.mp known).1
          have known' : others[i]? = some others[i] := List.getElem?_eq_getElem inside
          rw [known', Option.map_some, Option.map_some,
            ih i item others[i] known known' (all item (List.mem_of_getElem? known))
              (all' _ (List.mem_of_getElem? known'))]
  | @record fields others names each ih =>
    intro depth
    cases legible with
    | record distinct all =>
      cases legible' with
      | record distinct' all' =>
        rw [write, write, writeFields_eq_map, writeFields_eq_map,
          sort_fields_congr distinct distinct' names fun name value other known known' =>
            ih name value other known known' (all _ known) (all' _ known') (depth + 1)]

/-- **Two documents have one canonical text** exactly when they are equal as JSON values. -/
theorem canonicalize_eq_iff {data other : Data} (legible : Legible data) (legible' : Legible other) :
    canonicalize data = canonicalize other ↔ SameValue data other := by
  constructor
  · intro same
    have read := parse_canonicalize legible (canonicalize_of_legible legible)
    have read' := parse_canonicalize legible' (canonicalize_of_legible legible')
    have texts := (canonicalize_of_legible legible).symm.trans
      (same.trans (canonicalize_of_legible legible'))
    rw [Option.some.inj texts, read', Option.some.injEq] at read
    exact .of_sorted legible legible' read.symm
  · intro same
    rw [canonicalize_of_legible legible, canonicalize_of_legible legible',
      write_eq_of_sameValue same legible legible' 0]

end Koklo.Schema.Canonical
