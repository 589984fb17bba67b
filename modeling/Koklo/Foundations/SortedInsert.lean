import Mathlib.Data.List.Sort
import Mathlib.Data.List.InsertIdx

/-!
# Insertion by bisection

Bisection looks for the first position at which a test fails, when the test
holds up to some cut and fails from it on (`bisect_eq`). In a sorted list, the
position it finds for an element that is not in the list is where the sorted
insertion puts it (`insertBisect_eq_orderedInsert`).
-/

set_option autoImplicit false

namespace Koklo.Foundations

universe u

variable {α : Type u}

/-- The first position from `low` to `high` where the test fails, by halving. -/
def bisect (below : ℕ → Bool) : ℕ → ℕ → ℕ → ℕ
  | 0, low, _ => low
  | fuel + 1, low, high =>
    if low < high then
      if below ((low + high) / 2) then bisect below fuel ((low + high) / 2 + 1) high
      else bisect below fuel low ((low + high) / 2)
    else low

/-- **Bisection finds the cut of the test.** -/
theorem bisect_eq {below : ℕ → Bool} {cut fuel low high : ℕ} (left : low ≤ cut) (right : cut ≤ high)
    (enough : high - low ≤ fuel) (test : ∀ i, i < high → (below i = true ↔ i < cut)) :
    bisect below fuel low high = cut := by
  induction fuel generalizing low high with
  | zero =>
    unfold bisect
    omega
  | succ fuel ih =>
    unfold bisect
    by_cases open_ : low < high
    · rw [if_pos open_]
      have middle : (low + high) / 2 < high := by omega
      by_cases less : below ((low + high) / 2) = true
      · rw [if_pos less]
        have := (test _ middle).mp less
        exact ih (by omega) right (by omega) test
      · rw [if_neg less]
        have := mt (test _ middle).mpr less
        exact ih left (by omega) (by omega) fun i inside => test i (by omega)
    · rw [if_neg open_]
      omega

/-- Inserts an element at the first position whose element fails the test. -/
def insertBisect (below : α → Bool) (a : α) (l : List α) : List α :=
  l.insertIdx (bisect (fun i => l[i]?.any below) l.length 0 l.length) a

/-- In a list cut by the test, the elements that pass it are the first ones. -/
theorem getElem?_any_iff {below : α → Bool} {l : List α}
    (cut : l.Pairwise fun a b => below b = true → below a = true) (i : ℕ) :
    l[i]?.any below = true ↔ i < (l.takeWhile below).length := by
  induction l generalizing i with
  | nil => simp
  | cons a l ih =>
    rw [List.pairwise_cons] at cut
    by_cases passes : below a = true
    · cases i with
      | zero => simp [passes]
      | succ i => simpa [passes] using ih cut.2 i
    · simp only [List.takeWhile_cons, passes]
      cases i with
      | zero => simp [passes]
      | succ i =>
        simp only [List.getElem?_cons_succ, Bool.false_eq_true, if_false, List.length_nil,
          Nat.not_lt_zero, iff_false, Option.any_eq_true]
        rintro ⟨b, found, later⟩
        exact passes (cut.1 b (List.mem_of_getElem? found) later)

theorem insertIdx_eq_take_drop (l : List α) (i : ℕ) (a : α) (inside : i ≤ l.length) :
    l.insertIdx i a = l.take i ++ a :: l.drop i := by
  induction l generalizing i with
  | nil =>
    cases Nat.le_zero.mp inside
    rfl
  | cons b l ih =>
    cases i with
    | zero => rfl
    | succ i => simp [List.insertIdx_succ_cons, ih i (Nat.le_of_succ_le_succ inside)]

/-- Splitting at the test is the sorted insertion. -/
theorem takeWhile_cons_dropWhile_eq_orderedInsert {r : α → α → Prop} [DecidableRel r]
    {below : α → Bool} {a : α} {l : List α} (test : ∀ b ∈ l, (below b = true ↔ ¬ r a b)) :
    l.takeWhile below ++ a :: l.dropWhile below = l.orderedInsert r a := by
  induction l with
  | nil => rfl
  | cons b l ih =>
    by_cases passes : below b = true
    · have after := (test b List.mem_cons_self).mp passes
      rw [List.orderedInsert_of_not_le r l after, ← ih fun c member =>
        test c (List.mem_cons_of_mem b member)]
      simp [passes]
    · have before : r a b := by
        by_contra after
        exact passes ((test b List.mem_cons_self).mpr after)
      rw [List.orderedInsert_cons_of_le r l before]
      simp [passes]

/-- **Insertion by bisection is the sorted insertion**, when the test tells the
elements that come before the new one. -/
theorem insertBisect_eq_orderedInsert {r : α → α → Prop} [DecidableRel r] [IsTrans α r]
    {below : α → Bool} {a : α} {l : List α} (sorted : l.Pairwise r)
    (test : ∀ b ∈ l, (below b = true ↔ ¬ r a b)) :
    insertBisect below a l = l.orderedInsert r a := by
  have cut : l.Pairwise fun x y => below y = true → below x = true := by
    refine sorted.imp_of_mem fun {x y} first second ordered later => ?_
    rw [test x first]
    intro before
    exact (test y second).mp later (IsTrans.trans _ _ _ before ordered)
  have position : bisect (fun i => l[i]?.any below) l.length 0 l.length =
      (l.takeWhile below).length :=
    bisect_eq (Nat.zero_le _) (List.takeWhile_prefix below).length_le (Nat.le_of_eq rfl)
      fun i _ => getElem?_any_iff cut i
  rw [insertBisect, position, insertIdx_eq_take_drop _ _ _ (List.takeWhile_prefix below).length_le,
    ← takeWhile_cons_dropWhile_eq_orderedInsert test]
  congr 2
  · exact (List.prefix_iff_eq_take.mp (List.takeWhile_prefix below)).symm
  · have dropped : (l.takeWhile below ++ l.dropWhile below).drop (l.takeWhile below).length =
        l.dropWhile below := List.drop_left
    rwa [List.takeWhile_append_dropWhile] at dropped

end Koklo.Foundations
