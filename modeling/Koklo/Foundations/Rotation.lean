import Mathlib.Data.List.Basic
import Mathlib.Data.Prod.Lex
import Mathlib.Order.Nat

/-!
# Rotations

Items in a linear order are visited from a position on: those beyond the position first, and then
those up to it (`rotated`). A turn visits the items in this order up to where it is stopped, and
the next turn goes on after the last item that was visited (`Turn`).

Turns that follow each other so are fair: between two turns that visit the same item, every item
that was there all along is visited (`visited_of_again`).
-/

set_option autoImplicit false

namespace Koklo.Foundations.Rotation

universe u

variable {α : Type u} [LinearOrder α]

/-- Whether an item is beyond a position. -/
def beyond (start : Option α) (a : α) : Bool := start.all (· < a)

/-- The rank of an item from a position on. -/
def rank (start : Option α) (a : α) : Bool ×ₗ α := toLex (!beyond start a, a)

/-- The items beyond a position, and then the others. -/
def rotated (start : Option α) (items : List α) : List α :=
  items.filter (beyond start) ++ items.filter fun a => !beyond start a

theorem mem_rotated {start : Option α} {items : List α} {a : α} :
    a ∈ rotated start items ↔ a ∈ items := by
  rw [rotated, List.mem_append, List.mem_filter, List.mem_filter]
  cases beyond start a <;> simp

theorem rank_le_iff {start : Option α} {a b : α} : rank start a ≤ rank start b ↔
    beyond start b = false ∧ beyond start a = true ∨ beyond start a = beyond start b ∧ a ≤ b := by
  rw [rank, rank, Prod.Lex.toLex_le_toLex]
  cases beyond start a <;> cases beyond start b <;> simp

theorem rank_lt_iff {start : Option α} {a b : α} : rank start a < rank start b ↔
    beyond start b = false ∧ beyond start a = true ∨ beyond start a = beyond start b ∧ a < b := by
  rw [rank, rank, Prod.Lex.toLex_lt_toLex]
  cases beyond start a <;> cases beyond start b <;> simp

/-- The rotation puts the items in the order of their ranks. -/
theorem pairwise_rotated {items : List α} (increasing : items.Pairwise (· < ·))
    (start : Option α) : (rotated start items).Pairwise fun a b => rank start a < rank start b := by
  rw [rotated, List.pairwise_append]
  refine ⟨?_, ?_, ?_⟩
  · refine (increasing.filter _).imp_of_mem fun first second order => ?_
    exact rank_lt_iff.mpr (.inr ⟨(List.mem_filter.mp first).2.trans (List.mem_filter.mp second).2.symm,
      order⟩)
  · refine (increasing.filter _).imp_of_mem fun first second order => ?_
    have one := (List.mem_filter.mp first).2
    have two := (List.mem_filter.mp second).2
    rw [Bool.not_eq_true'] at one two
    exact rank_lt_iff.mpr (.inr ⟨one.trans two.symm, order⟩)
  · intro a first b second
    have two := (List.mem_filter.mp second).2
    rw [Bool.not_eq_true'] at two
    exact rank_lt_iff.mpr (.inl ⟨two, (List.mem_filter.mp first).2⟩)

/-! ## Going on from another position -/

/-- What comes after a position comes before what does not, from this position on. -/
theorem rank_le_of_between {start : Option α} {a b c : α} (first : rank start a ≤ rank start b)
    (second : rank start b < rank start c) : rank (some b) c ≤ rank (some b) a := by
  rw [rank_le_iff] at first ⊢
  rw [rank_lt_iff] at second
  simp only [beyond, Option.all_some, decide_eq_true_eq, decide_eq_false_iff_not, not_lt]
  cases start with
  | none =>
    simp only [beyond, Option.all_none] at first second
    grind
  | some s =>
    simp only [beyond, Option.all_some, decide_eq_true_eq, decide_eq_false_iff_not, not_lt,
      decide_eq_decide] at first second
    grind

/-- Items after a position keep their order, from this position on. -/
theorem rank_le_of_after {start : Option α} {b c d : α} (first : rank start b < rank start c)
    (second : rank start c ≤ rank start d) : rank (some b) c ≤ rank (some b) d := by
  rw [rank_lt_iff] at first
  rw [rank_le_iff] at second ⊢
  simp only [beyond, Option.all_some, decide_eq_true_eq, decide_eq_false_iff_not, not_lt]
  cases start with
  | none =>
    simp only [beyond, Option.all_none] at first second
    grind
  | some s =>
    simp only [beyond, Option.all_some, decide_eq_true_eq, decide_eq_false_iff_not, not_lt,
      decide_eq_decide] at first second
    grind

/-! ## Turns -/

/-- The position after the items that were visited. -/
def positionAfter (start : Option α) (visited : List α) : Option α := visited.getLast?.or start

/-- A turn visits the items in the order of the rotation, all of them unless it is stopped, and
then leaves the position after the last one. -/
structure Turn (items : List α) (start : Option α) (visited : List α) (stopped : Prop)
    (next : Option α) : Prop where
  starts : visited <+: rotated start items
  complete : ¬ stopped → visited = rotated start items
  resumes : stopped → next = positionAfter start visited

namespace Turn

variable {items visited : List α} {start next : Option α} {stopped : Prop}

/-- Every item is visited when the turn is not stopped. -/
theorem mem_of_not_stopped (turn : Turn items start visited stopped next) (free : ¬ stopped)
    {a : α} (member : a ∈ items) : a ∈ visited := by
  rw [turn.complete free]
  exact mem_rotated.mpr member

/-- What comes before a visited item is visited. -/
theorem mem_of_rank_le (turn : Turn items start visited stopped next)
    (increasing : items.Pairwise (· < ·)) {a b : α} (member : a ∈ items) (seen : b ∈ visited)
    (before : rank start a ≤ rank start b) : a ∈ visited := by
  obtain ⟨rest, whole⟩ := turn.starts
  have ranks := pairwise_rotated increasing start
  rw [← whole] at ranks
  have place : a ∈ visited ++ rest := by
    rw [whole]
    exact mem_rotated.mpr member
  rcases List.mem_append.mp place with inside | later
  · exact inside
  · have after := (List.pairwise_append.mp ranks).2.2 b seen a later
    exact absurd before (not_le.mpr after)

/-- The last item visited comes after the others. -/
theorem rank_le_last (turn : Turn items start visited stopped next)
    (increasing : items.Pairwise (· < ·)) {a last : α} (final : visited.getLast? = some last)
    (seen : a ∈ visited) : rank start a ≤ rank start last := by
  have ranks := (pairwise_rotated increasing start).sublist turn.starts.sublist
  obtain ⟨init, rfl⟩ := List.getLast?_eq_some_iff.mp final
  rcases List.mem_append.mp seen with earlier | same
  · exact ((List.pairwise_append.mp ranks).2.2 a earlier last (List.mem_singleton_self _)).le
  · rw [List.mem_singleton.mp same]

end Turn

section Fair

variable {items visited : ℕ → List α} {position : ℕ → Option α} {stopped : ℕ → Prop}

/-- **Turns that follow each other are fair**: between two turns that visit the same item, every
item that was there all along is visited. -/
theorem visited_of_again
    (increasing : ∀ n, (items n).Pairwise (· < ·)) {i j : ℕ} (order : i < j)
    (turns : ∀ n, i ≤ n → n < j →
      Turn (items n) (position n) (visited n) (stopped n) (position (n + 1)))
    (final : ∃ next, Turn (items j) (position j) (visited j) (stopped j) next)
    {a b : α} (first : a ∈ visited i) (again : a ∈ visited j)
    (there : ∀ n, i ≤ n → n ≤ j → b ∈ items n) : ∃ n, i ≤ n ∧ n ≤ j ∧ b ∈ visited n := by
  by_contra unseen
  have missed : ∀ n, i ≤ n → n ≤ j → b ∉ visited n := fun n lower upper seen =>
    unseen ⟨n, lower, upper, seen⟩
  have halted : ∀ n, i ≤ n → n < j → stopped n := by
    intro n lower upper
    by_contra free
    exact missed n lower upper.le ((turns n lower upper).mem_of_not_stopped free
      (there n lower upper.le))
  -- From one turn to the next, the missing item comes before the one that was visited.
  have ahead : ∀ n, i < n → n ≤ j → rank (position n) b ≤ rank (position n) a := by
    intro n lower
    induction n, lower using Nat.le_induction with
    | base =>
      intro upper
      have turn := turns i le_rfl upper
      obtain ⟨last, ends⟩ : ∃ last, (visited i).getLast? = some last :=
        Option.isSome_iff_exists.mp (by rw [List.getLast?_isSome]; exact List.ne_nil_of_mem first)
      have later : rank (position i) last < rank (position i) b := by
        by_contra before
        exact missed i le_rfl order.le (turn.mem_of_rank_le (increasing i)
          (there i le_rfl order.le) (List.mem_of_mem_getLast? ends) (not_lt.mp before))
      rw [turn.resumes (halted i le_rfl upper), positionAfter, ends]
      exact rank_le_of_between (turn.rank_le_last (increasing i) ends first) later
    | succ n lower ih =>
      intro upper
      have before := ih (Nat.le_of_succ_le upper)
      have lower' : i ≤ n := Nat.le_of_succ_le lower
      have turn := turns n lower' upper
      rw [turn.resumes (halted n lower' upper), positionAfter]
      cases ends : (visited n).getLast? with
      | none => exact before
      | some last =>
        have later : rank (position n) last < rank (position n) b := by
          by_contra earlier
          exact missed n lower' (Nat.le_of_succ_le upper) (turn.mem_of_rank_le (increasing n)
            (there n lower' (Nat.le_of_succ_le upper)) (List.mem_of_mem_getLast? ends)
            (not_lt.mp earlier))
        exact rank_le_of_after later before
  obtain ⟨next, turn⟩ := final
  exact missed j order.le le_rfl (turn.mem_of_rank_le (increasing j) (there j order.le le_rfl) again
    (ahead j order le_rfl))

end Fair

end Koklo.Foundations.Rotation
