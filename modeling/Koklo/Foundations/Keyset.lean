import Mathlib.Data.List.Sort

/-!
# Reading a list by the keys of its rows

Rows with distinct keys have one increasing order (`ascending_eq`), and the decreasing order
is its reverse (`descending_eq`); both commute with filters. In the increasing order the rows
beyond a row are those that stand after it (`filter_gt`), and the rows before it those that
stand before it (`filter_lt`).
-/

set_option autoImplicit false

namespace Koklo.Foundations.Keyset

universe u v

variable {α : Type u} {κ : Type v} [LinearOrder κ] (key : α → κ)

/-- The rows in increasing order of their keys. -/
def ascending (rows : List α) : List α := rows.insertionSort fun a b => key a ≤ key b

/-- The rows in decreasing order of their keys. -/
def descending (rows : List α) : List α := rows.insertionSort fun a b => key b ≤ key a

/-- Each key is below the keys that follow it. -/
def Increasing (rows : List α) : Prop := rows.Pairwise fun a b => key a < key b

variable {key}

theorem perm_ascending (rows : List α) : (ascending key rows).Perm rows :=
  List.perm_insertionSort _ rows

/-- **Distinct keys are put in increasing order.** -/
theorem increasing_ascending {rows : List α} (distinct : (rows.map key).Nodup) :
    Increasing key (ascending key rows) := by
  have total : Std.Total fun a b : α => key a ≤ key b := ⟨fun a b => le_total _ _⟩
  have transitive : IsTrans α fun a b => key a ≤ key b := ⟨fun a b c => le_trans⟩
  have sorted : (ascending key rows).Pairwise fun a b => key a ≤ key b :=
    List.pairwise_insertionSort _ rows
  have apart : (ascending key rows).Pairwise fun a b => key a ≠ key b := by
    rw [← List.pairwise_map (R := (· ≠ ·))]
    exact ((perm_ascending rows).map key).nodup_iff.mpr distinct
  exact sorted.imp₂ (fun _ _ => lt_of_le_of_ne) apart

/-- The increasing order is the only one. -/
theorem ascending_eq {rows sorted : List α} (same : sorted.Perm rows)
    (increasing : Increasing key sorted) : ascending key rows = sorted := by
  have distinct : (rows.map key).Nodup := by
    rw [← (same.map key).nodup_iff, List.Nodup, List.pairwise_map]
    exact increasing.imp ne_of_lt
  have asymmetric : Std.Asymm fun a b : α => key a < key b := ⟨fun a b => lt_asymm⟩
  exact ((perm_ascending rows).trans same.symm).eq_of_pairwise' (increasing_ascending distinct)
    increasing

/-- The decreasing order is the increasing one in reverse. -/
theorem descending_eq {rows sorted : List α} (same : sorted.Perm rows)
    (increasing : Increasing key sorted) : descending key rows = sorted.reverse := by
  apply @ascending_eq _ κᵒᵈ _ fun a => OrderDual.toDual (key a)
  · exact (List.reverse_perm sorted).trans same
  · exact List.pairwise_reverse.mpr increasing

theorem Increasing.filter {rows : List α} (increasing : Increasing key rows) (test : α → Bool) :
    Increasing key (rows.filter test) := List.Pairwise.filter test increasing

section Split

variable {rows front back : List α} {row : α}

/-- The rows beyond a row. -/
theorem filter_gt (increasing : Increasing key rows) (split : rows = front ++ row :: back) :
    (rows.filter fun a => key row < key a) = back := by
  subst split
  obtain ⟨_, behind, across⟩ := List.pairwise_append.mp increasing
  have none : (front.filter fun a => key row < key a) = [] := by
    apply List.filter_eq_nil_iff.mpr
    intro a member
    simpa using (across a member row List.mem_cons_self).le
  have all : (back.filter fun a => key row < key a) = back := by
    apply List.filter_eq_self.mpr
    intro a member
    simpa using (List.pairwise_cons.mp behind).1 a member
  rw [List.filter_append, none, List.nil_append, List.filter_cons_of_neg (by simp), all]

/-- The rows before a row. -/
theorem filter_lt (increasing : Increasing key rows) (split : rows = front ++ row :: back) :
    (rows.filter fun a => key a < key row) = front := by
  subst split
  obtain ⟨_, behind, across⟩ := List.pairwise_append.mp increasing
  have all : (front.filter fun a => key a < key row) = front := by
    apply List.filter_eq_self.mpr
    intro a member
    simpa using across a member row List.mem_cons_self
  have none : (back.filter fun a => key a < key row) = [] := by
    apply List.filter_eq_nil_iff.mpr
    intro a member
    simpa using ((List.pairwise_cons.mp behind).1 a member).le
  rw [List.filter_append, all, List.filter_cons_of_neg (by simp), none, List.append_nil]

end Split

end Koklo.Foundations.Keyset
