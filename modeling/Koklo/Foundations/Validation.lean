import Koklo.Foundations.Decimal
import Koklo.Foundations.Pattern
import Mathlib.Data.List.Basic

/-!
# Validating records

A schema checks a value and lists what it refuses, each issue with the path of
the refused part. The texts of the library's own issues are a parameter: a schema
is checked against any function from defects to messages. A field or an item is
accepted when its own check is (`inField_eq_nil_iff`, `items_eq_nil_iff`).
-/

set_option autoImplicit false

namespace Koklo.Foundations

universe u

/-- A refused part of a value, and why. -/
structure SchemaIssue where
  path : List Text
  message : Text
deriving DecidableEq

/-- The defects whose messages the schema library writes itself. -/
inductive Defect where
  | emptyText
  | emptyList
  | emptyKey
  | notFinite
  | format (source : String)
  | wrongType (expected : String)
  | notOneOf (names : List Text)
  | unknownKeys (keys : List Text)
  | startsWith (start : Text)
  | notSafe
  | invalidUnion
deriving DecidableEq

namespace Validation

/-- An issue at the root, unless the condition holds. -/
def refuseUnless (holds : Bool) (message : Text) : List SchemaIssue :=
  if holds then [] else [⟨[], message⟩]

/-- The issues of a field. -/
def inField (name : Text) (issues : List SchemaIssue) : List SchemaIssue :=
  issues.map fun issue => { issue with path := name :: issue.path }

/-- The issues of the items of a list, at their positions. -/
def items {α : Type u} (check : α → List SchemaIssue) (list : List α) : List SchemaIssue :=
  list.zipIdx.flatMap fun (item, index) => inField (Text.ofNat index) (check item)

/-- The issues of an optional value. -/
def ifPresent {α : Type u} (check : α → List SchemaIssue) (value : Option α) : List SchemaIssue :=
  value.elim [] check

variable (message : Defect → Text)

/-- A text that is not empty. -/
def nonEmptyText (t : Text) : List SchemaIssue := refuseUnless (!t.isEmpty) (message .emptyText)

/-- A list that is not empty. -/
def nonEmptyList {α : Type u} (list : List α) : List SchemaIssue :=
  refuseUnless (!list.isEmpty) (message .emptyList)

/-- A text that the pattern matches; `source` is how the pattern is written. -/
def formatted (source : String) (pattern : Pattern CodeUnit) (t : Text) : List SchemaIssue :=
  refuseUnless (pattern.accepts t) (message (.format source))

@[simp] theorem refuseUnless_eq_nil_iff {holds : Bool} {text : Text} :
    refuseUnless holds text = [] ↔ holds = true := by
  cases holds <;> simp [refuseUnless]

@[simp] theorem inField_eq_nil_iff {name : Text} {issues : List SchemaIssue} :
    inField name issues = [] ↔ issues = [] := by
  simp [inField]

@[simp] theorem items_eq_nil_iff {α : Type u} {check : α → List SchemaIssue} {list : List α} :
    items check list = [] ↔ ∀ item ∈ list, check item = [] := by
  rw [items, List.flatMap_eq_nil_iff]
  constructor
  · intro all item member
    obtain ⟨index, found⟩ := List.mem_iff_getElem?.mp member
    have inside := all (item, index) (List.mem_zipIdx_iff_getElem?.mpr found)
    exact inField_eq_nil_iff.mp inside
  · rintro all ⟨item, index⟩ member
    have inside := List.mem_of_getElem? (List.mem_zipIdx_iff_getElem?.mp member)
    exact inField_eq_nil_iff.mpr (all item inside)

@[simp] theorem nonEmptyText_eq_nil_iff {t : Text} : nonEmptyText message t = [] ↔ t ≠ [] := by
  simp [nonEmptyText]

@[simp] theorem formatted_eq_nil_iff {source : String} {pattern : Pattern CodeUnit} {t : Text} :
    formatted message source pattern t = [] ↔ pattern.Matches t := by
  rw [formatted, refuseUnless_eq_nil_iff, Pattern.accepts_iff]

end Validation

end Koklo.Foundations
