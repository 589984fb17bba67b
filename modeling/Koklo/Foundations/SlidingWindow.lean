import Mathlib.Data.List.Sort
import Mathlib.Data.Multiset.Sort

/-!
# Counting in a sliding window

The items after a bound are counted, and the item that many places from the oldest is looked up.
Past that item, only those that come after it in the order are left (`countP_after_nth`): a counter
that waits for it to leave finds its count below the limit.
-/

set_option autoImplicit false

namespace Koklo.Foundations

universe u

variable {α : Type u} [LinearOrder α]

/-- The item that many places after the oldest. -/
def nthOldest (items : List α) (skip : ℕ) : Option α := (items.insertionSort (· ≤ ·))[skip]?

/-- **Past the item that many places after the oldest** are the others after it in the order. -/
theorem countP_after_nth {items : List α} {skip : ℕ} {item : α}
    (found : nthOldest items skip = some item) :
    items.countP (item < ·) + (skip + 1) ≤ items.length := by
  let sorted := items.insertionSort (· ≤ ·)
  have ordered : sorted.Pairwise (· ≤ ·) := List.pairwise_insertionSort _ _
  have same : sorted.Perm items := List.perm_insertionSort _ _
  obtain ⟨inside, here⟩ := List.getElem?_eq_some_iff.mp found
  have early : (sorted.take (skip + 1)).countP (item < ·) = 0 := by
    rw [List.countP_eq_zero]
    intro other member
    obtain ⟨index, bound, rfl⟩ := List.mem_take_iff_getElem.mp member
    have reached : index < sorted.length := by omega
    have before : sorted[index] ≤ sorted[skip] := by
      rcases Nat.lt_or_ge index skip with less | more
      · exact List.pairwise_iff_getElem.mp ordered index skip _ inside less
      · have equal : index = skip := by omega
        subst equal
        exact le_refl _
    rw [decide_eq_true_eq, ← here]
    exact not_lt_of_ge before
  have late : (sorted.drop (skip + 1)).countP (item < ·) ≤ (sorted.drop (skip + 1)).length :=
    List.countP_le_length
  have total := congrArg (List.countP (item < ·)) (List.take_append_drop (skip + 1) sorted)
  rw [List.countP_append, early, same.countP_eq] at total
  rw [List.length_drop, same.length_eq] at late
  have room : skip < items.length := same.length_eq ▸ inside
  omega

/-- There is an item that many places after the oldest when there are more items. -/
theorem nthOldest_isSome {items : List α} {skip : ℕ} (room : skip < items.length) :
    ∃ item ∈ items, nthOldest items skip = some item := by
  have same : (items.insertionSort (· ≤ ·)).Perm items := List.perm_insertionSort _ _
  have inside : skip < (items.insertionSort (· ≤ ·)).length := by rwa [same.length_eq]
  exact ⟨_, same.mem_iff.mp (List.getElem_mem inside), List.getElem?_eq_getElem inside⟩

end Koklo.Foundations
