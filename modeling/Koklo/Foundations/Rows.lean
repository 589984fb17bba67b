import Mathlib.Data.List.Basic

/-!
# Rows by their identifiers

A table whose rows have their positions as identifiers: a deleted row leaves its position empty, and
new rows take the positions after the last one. So an identifier is not used twice, and a row that
is there later under an identifier of before was there before (`Kept`).
-/

set_option autoImplicit false

namespace Koklo.Foundations

universe u

variable {Row : Type u}

/-- Rows by their identifiers; a deleted one leaves `none`. -/
abbrev Rows (Row : Type u) := List (Option Row)

namespace Rows

def find (rows : Rows Row) (id : ℕ) : Option Row := rows[id]?.join

/-- The rows without those that are deleted. -/
def drop (rows : Rows Row) (deleted : ℕ → Row → Bool) : Rows Row :=
  rows.mapIdx fun id row => row.filter fun row => !deleted id row

def add (rows : Rows Row) (new : List Row) : Rows Row := rows ++ new.map some

def change (rows : Rows Row) (id : ℕ) (changed : Row → Row) : Rows Row :=
  rows.modify id (Option.map changed)

theorem find_eq_some {rows : Rows Row} {id : ℕ} {row : Row} :
    rows.find id = some row ↔ rows[id]? = some (some row) :=
  Option.join_eq_some_iff

theorem find_drop {rows : Rows Row} {deleted : ℕ → Row → Bool} {id : ℕ} {row : Row} :
    (rows.drop deleted).find id = some row ↔ rows.find id = some row ∧ deleted id row = false := by
  rw [find_eq_some, find_eq_some, drop, List.getElem?_mapIdx]
  cases rows[id]? with
  | none => simp
  | some found =>
    cases found with
    | none => simp
    | some former =>
      simp only [Option.map_some, Option.some.injEq, Option.filter_eq_some_iff,
        Bool.not_eq_eq_eq_not, Bool.not_true]

theorem find_add {rows : Rows Row} {new : List Row} {id : ℕ} {row : Row} :
    (rows.add new).find id = some row ↔
      rows.find id = some row ∨ ∃ k, id = rows.length + k ∧ new[k]? = some row := by
  rw [find_eq_some, find_eq_some, add]
  rcases Nat.lt_or_ge id rows.length with inside | outside
  · rw [List.getElem?_append_left inside]
    constructor
    · exact .inl
    · rintro (known | ⟨k, rfl, _⟩)
      · exact known
      · omega
  · rw [List.getElem?_append_right outside, List.getElem?_map, Option.map_eq_some_iff]
    rw [List.getElem?_eq_none outside]
    constructor
    · rintro ⟨found, known, same⟩
      cases same
      exact .inr ⟨id - rows.length, by omega, known⟩
    · rintro (known | ⟨k, rfl, known⟩)
      · cases known
      · rw [Nat.add_sub_cancel_left]
        exact ⟨row, known, rfl⟩

theorem find_change {rows : Rows Row} {id other : ℕ} {changed : Row → Row} :
    (rows.change id changed).find other =
      if other = id then (rows.find other).map changed else rows.find other := by
  rw [find, find, change, List.getElem?_modify]
  by_cases same : id = other
  · subst same
    rw [if_pos rfl]
    cases rows[id]? with
    | none => rfl
    | some found => simp
  · rw [if_neg (Ne.symm same)]
    cases rows[other]? with
    | none => rfl
    | some found => simp [same]

/-! ## What is kept -/

/-- A row that is there under an identifier of before was there before. -/
structure Kept (rows next : Rows Row) : Prop where
  length : rows.length ≤ next.length
  row : ∀ id row, id < rows.length → next.find id = some row → rows.find id = some row

theorem Kept.refl (rows : Rows Row) : Kept rows rows := ⟨Nat.le_refl _, fun _ _ _ known => known⟩

theorem Kept.trans {rows mid next : Rows Row} (before : Kept rows mid) (after : Kept mid next) :
    Kept rows next where
  length := Nat.le_trans before.length after.length
  row id row inside known := by
    have between := after.row id row (Nat.lt_of_lt_of_le inside before.length) known
    exact before.row id row inside between

theorem Kept.drop (rows : Rows Row) (deleted : ℕ → Row → Bool) : Kept rows (rows.drop deleted) where
  length := by
    have same : (rows.drop deleted).length = rows.length := by rw [Rows.drop, List.length_mapIdx]
    exact Nat.le_of_eq same.symm
  row _ _ _ known := (find_drop.mp known).1

theorem Kept.add (rows : Rows Row) (new : List Row) : Kept rows (rows.add new) where
  length := by
    rw [Rows.add, List.length_append]
    exact Nat.le_add_right _ _
  row id row inside known := by
    rcases find_add.mp known with old | ⟨k, rfl, _⟩
    · exact old
    · omega

end Rows

end Koklo.Foundations
