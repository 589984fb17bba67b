import Mathlib.Data.List.Dedup
import Mathlib.Data.List.Sort
import Mathlib.Order.Defs.LinearOrder

/-!
# Sorting by a comparison

A list is sorted by a comparison that answers a number: negative or zero when
the first item may stand before the second. The sort is stable, so that the
items of one key keep their order (`filter_sortWith`), and two lists that agree
on the items of each key are sorted into the same list (`sortWith_congr`). A
list made of groups with distinct keys is sorted into the same list whatever the
order of the groups (`sortWith_flatMap_perm`).

The items of a set are listed in the order of their insertion (`uniqueItems`).
-/

set_option autoImplicit false

namespace Koklo.Foundations

universe u v w

variable {α : Type u} {κ : Type v} {γ : Type w}

/-! ## Sets in insertion order -/

/-- The items of a list, each at its first position: the items of a set in the
order of their insertion. -/
def uniqueItems [DecidableEq α] (list : List α) : List α := list.reverse.dedup.reverse

section Unique

variable [DecidableEq α]

@[simp] theorem mem_uniqueItems {list : List α} {a : α} : a ∈ uniqueItems list ↔ a ∈ list := by
  simp [uniqueItems]

theorem nodup_uniqueItems (list : List α) : (uniqueItems list).Nodup :=
  List.nodup_reverse.mpr (List.nodup_dedup _)

/-- A list without repetition is kept. -/
theorem uniqueItems_of_nodup {list : List α} (distinct : list.Nodup) : uniqueItems list = list := by
  rw [uniqueItems, (List.nodup_reverse.mpr distinct).dedup, List.reverse_reverse]

@[simp] theorem uniqueItems_uniqueItems (list : List α) :
    uniqueItems (uniqueItems list) = uniqueItems list :=
  uniqueItems_of_nodup (nodup_uniqueItems list)

end Unique

/-! ## The sort -/

/-- The stable sort by a comparison. -/
def sortWith (compare : α → α → ℤ) (list : List α) : List α :=
  list.insertionSort fun a b => compare a b ≤ 0

theorem perm_sortWith (compare : α → α → ℤ) (list : List α) : (sortWith compare list).Perm list :=
  List.perm_insertionSort _ list

section Key

variable [LinearOrder κ] {key : α → κ} {compare : α → α → ℤ}

/-- A sort that compares by key sorts by key. -/
theorem pairwise_sortWith (byKey : ∀ a b, compare a b ≤ 0 ↔ key a ≤ key b) (list : List α) :
    (sortWith compare list).Pairwise fun a b => key a ≤ key b := by
  have total : Std.Total fun a b : α => key a ≤ key b := ⟨fun a b => le_total _ _⟩
  have transitive : IsTrans α fun a b => key a ≤ key b := ⟨fun a b c => le_trans⟩
  have step := fun a b => propext (byKey a b)
  simp only [sortWith, step]
  exact List.pairwise_insertionSort _ list

/-- The first item found in a sorted list has the least key. -/
theorem le_of_find?_sortWith (byKey : ∀ a b, compare a b ≤ 0 ↔ key a ≤ key b) {p : α → Bool}
    {list : List α} {a b : α} (found : (sortWith compare list).find? p = some a)
    (member : b ∈ list) (holds : p b = true) : key a ≤ key b := by
  obtain ⟨-, before, after, same, none⟩ := List.find?_eq_some_iff_append.mp found
  have sorted := pairwise_sortWith byKey list
  rw [same] at sorted
  have inside : b ∈ before ++ a :: after := same ▸ (perm_sortWith compare list).mem_iff.mpr member
  rcases List.mem_append.mp inside with early | late
  · have refused := none b early
    rw [holds] at refused
    cases refused
  · rcases List.mem_cons.mp late with rfl | late
    · exact le_refl _
    · exact (List.pairwise_cons.mp (List.pairwise_append.mp sorted).2.1).1 b late

/-- An item inserted among others is before the others of its key. -/
theorem filter_orderedInsert (byKey : ∀ a b, compare a b ≤ 0 ↔ key a ≤ key b) (k : κ) (a : α)
    (list : List α) :
    (list.orderedInsert (fun a b => compare a b ≤ 0) a).filter (key · = k) =
      (a :: list).filter (key · = k) := by
  induction list with
  | nil => rfl
  | cons b list ih =>
    rw [List.orderedInsert_cons]
    by_cases before : compare a b ≤ 0
    · rw [if_pos before]
    · rw [if_neg before]
      have apart : ¬(key a = k ∧ key b = k) := by
        rintro ⟨one, other⟩
        exact before ((byKey a b).mpr (one.trans other.symm).le)
      by_cases mine : key a = k
      · have other : key b ≠ k := fun other => apart ⟨mine, other⟩
        rw [List.filter_cons_of_neg (by simpa using other), ih,
          List.filter_cons_of_pos (by simpa using mine),
          List.filter_cons_of_pos (by simpa using mine),
          List.filter_cons_of_neg (by simpa using other)]
      · rw [List.filter_cons, ih, List.filter_cons_of_neg (by simpa using mine),
          List.filter_cons_of_neg (by simpa using mine), List.filter_cons]

/-- **The sort is stable**: the items of a key keep their order. -/
theorem filter_sortWith (byKey : ∀ a b, compare a b ≤ 0 ↔ key a ≤ key b) (k : κ) (list : List α) :
    (sortWith compare list).filter (key · = k) = list.filter (key · = k) := by
  induction list with
  | nil => rfl
  | cons a list ih =>
    have inserted := filter_orderedInsert byKey k a (sortWith compare list)
    rw [sortWith, List.insertionSort_cons]
    refine inserted.trans ?_
    rw [List.filter_cons, ih, List.filter_cons]

/-- Two sorted lists that agree on the items of each key are equal. -/
theorem eq_of_pairwise_of_filter {list other : List α}
    (sorted : list.Pairwise fun a b => key a ≤ key b)
    (sorted' : other.Pairwise fun a b => key a ≤ key b)
    (agree : ∀ k, list.filter (key · = k) = other.filter (key · = k)) : list = other := by
  have moved : ∀ {l l' : List α}, (∀ k, l.filter (key · = k) = l'.filter (key · = k)) →
      ∀ a ∈ l, a ∈ l' := by
    intro l l' same a member
    have mine : a ∈ l.filter (key · = key a) := List.mem_filter.mpr ⟨member, by simp⟩
    rw [same] at mine
    exact (List.mem_filter.mp mine).1
  induction list generalizing other with
  | nil =>
    cases other with
    | nil => rfl
    | cons b other =>
      cases moved (fun k => (agree k).symm) b List.mem_cons_self
  | cons a list ih =>
    cases other with
    | nil => cases moved agree a List.mem_cons_self
    | cons b other =>
      have keys : key a = key b := by
        apply le_antisymm
        · rcases List.mem_cons.mp (moved (fun k => (agree k).symm) b List.mem_cons_self) with
            same | later
          · rw [same]
          · exact (List.pairwise_cons.mp sorted).1 b later
        · rcases List.mem_cons.mp (moved agree a List.mem_cons_self) with same | later
          · rw [same]
          · exact (List.pairwise_cons.mp sorted').1 a later
      have heads := agree (key a)
      rw [List.filter_cons_of_pos (by simp), List.filter_cons_of_pos (by simp [keys])] at heads
      obtain ⟨rfl, -⟩ := List.cons.inj heads
      refine congrArg _ (ih (List.pairwise_cons.mp sorted).2 (List.pairwise_cons.mp sorted').2 ?_)
      intro k
      have whole := agree k
      rw [List.filter_cons, List.filter_cons] at whole
      by_cases mine : key a = k
      · simpa [mine] using whole
      · simpa [mine] using whole

/-- Items are left out before or after the sort. -/
theorem sortWith_filter (byKey : ∀ a b, compare a b ≤ 0 ↔ key a ≤ key b) (p : α → Bool)
    (list : List α) : (sortWith compare list).filter p = sortWith compare (list.filter p) := by
  refine eq_of_pairwise_of_filter ((pairwise_sortWith byKey list).filter p)
    (pairwise_sortWith byKey (list.filter p)) ?_
  intro k
  rw [List.filter_comm, filter_sortWith byKey, filter_sortWith byKey, List.filter_comm]

/-- **The sorted list depends on the items of each key only.** -/
theorem sortWith_congr (byKey : ∀ a b, compare a b ≤ 0 ↔ key a ≤ key b) {list other : List α}
    (agree : ∀ k, list.filter (key · = k) = other.filter (key · = k)) :
    sortWith compare list = sortWith compare other := by
  refine eq_of_pairwise_of_filter (pairwise_sortWith byKey list) (pairwise_sortWith byKey other) ?_
  intro k
  rw [filter_sortWith byKey, filter_sortWith byKey, agree]

/-- **The order of groups with distinct keys does not matter.** -/
theorem sortWith_flatMap_perm (byKey : ∀ a b, compare a b ≤ 0 ↔ key a ≤ key b)
    {groups groups' : List γ} {name : γ → κ} {content : γ → List α} (same : groups.Perm groups')
    (distinct : (groups.map name).Nodup)
    (named : ∀ group ∈ groups, ∀ a ∈ content group, key a = name group) :
    sortWith compare (groups.flatMap content) = sortWith compare (groups'.flatMap content) := by
  refine sortWith_congr byKey fun k => ?_
  have restrict : ∀ {list : List γ}, (∀ group ∈ list, ∀ a ∈ content group, key a = name group) →
      (list.flatMap content).filter (key · = k) = (list.filter (name · = k)).flatMap content := by
    intro list all
    induction list with
    | nil => rfl
    | cons group list ih =>
      have rest := ih fun other member => all other (List.mem_cons_of_mem _ member)
      have mine := all group List.mem_cons_self
      rw [List.flatMap_cons, List.filter_append, rest]
      by_cases named : name group = k
      · rw [List.filter_cons_of_pos (by simpa using named), List.flatMap_cons,
          List.filter_eq_self.mpr fun a member => by simpa [mine a member] using named]
      · rw [List.filter_cons_of_neg (by simpa using named),
          List.filter_eq_nil_iff.mpr fun a member => by simpa [mine a member] using named,
          List.nil_append]
  have one : (groups.filter (name · = k)).length ≤ 1 := by
    have sub : ((groups.filter (name · = k)).map name).Nodup :=
      distinct.sublist (List.filter_sublist.map name)
    have constant : (groups.filter (name · = k)).map name =
        List.replicate (groups.filter (name · = k)).length k := by
      rw [List.eq_replicate_iff]
      refine ⟨List.length_map _, fun b member => ?_⟩
      obtain ⟨group, inside, rfl⟩ := List.mem_map.mp member
      simpa using (List.mem_filter.mp inside).2
    rw [constant] at sub
    exact List.nodup_replicate.mp sub
  rw [restrict named, restrict fun group member => named group (same.mem_iff.mpr member)]
  have perm := same.filter (name · = k)
  match left : groups.filter (name · = k), one with
  | [], _ => rw [left] at perm; rw [perm.nil_eq]
  | [group], _ => rw [left] at perm; rw [List.perm_singleton.mp perm.symm]

/-- Items with distinct keys are sorted into one list. -/
theorem sortWith_perm (byKey : ∀ a b, compare a b ≤ 0 ↔ key a ≤ key b) {list other : List α}
    (same : list.Perm other) (distinct : (list.map key).Nodup) :
    sortWith compare list = sortWith compare other := by
  have grouped := sortWith_flatMap_perm byKey same distinct
    (fun a _ b (member : b ∈ [a]) => congrArg key (List.mem_singleton.mp member))
  rwa [List.flatMap_singleton', List.flatMap_singleton'] at grouped

end Key

end Koklo.Foundations
