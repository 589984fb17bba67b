import Koklo.Foundations.ReadCommitted
import Mathlib.Data.List.Perm.Subperm
import Mathlib.Data.List.Sigma

/-!
# Counts of committed rows

How the number of committed rows of a kind changes with the committed versions: it does not grow
when each row of the kind was committed before (`countCommitted_le`), and grows by one at most when
one of them was not (`countCommitted_le_succ`).
-/

set_option autoImplicit false

namespace Koklo.Foundations.ReadCommitted

universe u

variable {Row : Type u}

/-- How many committed rows are of a kind. -/
def countCommitted (table : Table Row) (kind : Row → Bool) : ℕ :=
  (committedRows table).countP fun found => kind found.2

theorem committedRows_nodup (table : Table Row) : (committedRows table).Nodup := by
  have apart : table.zipIdx.Pairwise fun first second => first.2 ≠ second.2 :=
    List.pairwise_map.mp (List.nodup_zipIdx_map_snd table)
  rw [committedRows, List.Nodup, List.pairwise_filterMap]
  refine apart.imp fun {first second} other found mine found' theirs same => other ?_
  obtain ⟨_, _, rfl⟩ := Option.map_eq_some_iff.mp mine
  obtain ⟨_, _, rfl⟩ := Option.map_eq_some_iff.mp theirs
  exact congrArg Prod.fst same

/-- A list without duplicates whose elements of a kind are in another has no more of them. -/
theorem countP_le_of_subset {α : Type u} {first second : List α} {kind : α → Bool}
    (distinct : first.Nodup) (within : ∀ a ∈ first, kind a = true → a ∈ second) :
    first.countP kind ≤ second.countP kind := by
  rw [List.countP_eq_length_filter, List.countP_eq_length_filter]
  refine ((distinct.filter kind).subperm fun a member => ?_).length_le
  obtain ⟨known, chosen⟩ := List.mem_filter.mp member
  exact List.mem_filter.mpr ⟨within a known chosen, chosen⟩

/-- **The count does not grow** when each row of the kind was committed before. -/
theorem countCommitted_le {table next : Table Row} {kind : Row → Bool}
    (kept : ∀ id row, committedRow next id = some row → kind row = true →
      committedRow table id = some row) :
    countCommitted next kind ≤ countCommitted table kind := by
  refine countP_le_of_subset (committedRows_nodup next) ?_
  rintro ⟨id, row⟩ known chosen
  exact mem_committedRows.mpr (kept id row (mem_committedRows.mp known) chosen)

/-- **The count grows by one at most** when one row of the kind was not committed before. -/
theorem countCommitted_le_succ {table next : Table Row} {kind : Row → Bool} {new : ℕ × Row}
    (kept : ∀ id row, committedRow next id = some row → kind row = true →
      committedRow table id = some row ∨ (id, row) = new) :
    countCommitted next kind ≤ countCommitted table kind + 1 := by
  have within : countCommitted next kind ≤
      (new :: committedRows table).countP fun found => kind found.2 := by
    refine countP_le_of_subset (committedRows_nodup next) ?_
    rintro ⟨id, row⟩ known chosen
    rcases kept id row (mem_committedRows.mp known) chosen with old | same
    · exact List.mem_cons_of_mem _ (mem_committedRows.mpr old)
    · rw [same]
      exact List.mem_cons_self
  refine Nat.le_trans within ?_
  rw [List.countP_cons, countCommitted]
  split <;> omega

end Koklo.Foundations.ReadCommitted
