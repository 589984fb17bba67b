import Mathlib.Data.List.Basic

/-!
# Splitting at a separator

The pieces of a list between its separators: none of them holds a separator, and a list that is
appended continues the last piece (`splitOn_append`).
-/

set_option autoImplicit false

namespace Koklo.Foundations

universe u

variable {α : Type u} [DecidableEq α] {separator : α}

/-- **A piece holds no separator.** -/
theorem not_mem_of_mem_splitOn {list piece : List α} (member : piece ∈ list.splitOn separator) :
    separator ∉ piece := by
  induction list generalizing piece with
  | nil =>
    rw [List.splitOn_nil, List.mem_singleton] at member
    subst member
    exact List.not_mem_nil
  | cons a list ih =>
    rw [List.splitOn_cons_eq_if_modifyHead] at member
    split at member
    · rcases List.mem_cons.mp member with rfl | later
      · exact List.not_mem_nil
      · exact ih later
    · rename_i other
      obtain ⟨first, pieces, shape⟩ := List.exists_cons_of_ne_nil (List.splitOn_ne_nil separator list)
      rw [shape, List.modifyHead_cons] at member
      rcases List.mem_cons.mp member with rfl | later
      · intro inside
        rcases List.mem_cons.mp inside with rfl | inside
        · exact other (beq_self_eq_true' _)
        · exact ih (shape ▸ List.mem_cons_self) inside
      · exact ih (shape ▸ List.mem_cons_of_mem _ later)

/-- **What is appended continues the last piece.** -/
theorem splitOn_append {list more last : List α} {pieces : List (List α)}
    (split : list.splitOn separator = pieces ++ [last]) :
    (list ++ more).splitOn separator = pieces ++ (last ++ more).splitOn separator := by
  induction pieces generalizing list with
  | nil =>
    have whole : [separator].intercalate (list.splitOn separator) = list :=
      List.intercalate_splitOn separator
    rw [split, List.nil_append, List.intercalate_singleton] at whole
    rw [whole, List.nil_append]
  | cons piece pieces ih =>
    have whole : [separator].intercalate (list.splitOn separator) = list :=
      List.intercalate_splitOn separator
    obtain ⟨next, others, shape⟩ : ∃ next others, pieces ++ [last] = next :: others :=
      List.exists_cons_of_ne_nil (List.append_ne_nil_of_right_ne_nil _ (List.cons_ne_nil _ _))
    rw [split, List.cons_append, shape, List.intercalate_cons_cons, ← shape, List.append_assoc] at whole
    have rest : ([separator].intercalate (pieces ++ [last])).splitOn separator = pieces ++ [last] := by
      apply List.splitOn_intercalate
      · intro known member
        apply @not_mem_of_mem_splitOn _ _ separator list
        rw [split]
        exact List.mem_cons_of_mem _ member
      · exact List.append_ne_nil_of_right_ne_nil _ (List.cons_ne_nil _ _)
    have fresh : separator ∉ piece := by
      apply @not_mem_of_mem_splitOn _ _ separator list
      rw [split]
      exact List.mem_cons_self
    rw [← whole, List.append_assoc]
    show (piece ++ separator :: ([separator].intercalate (pieces ++ [last]) ++ more)).splitOn separator = _
    rw [List.splitOn_append_cons_self, List.splitOn_eq_singleton fresh, ih rest]
    rfl

end Koklo.Foundations
