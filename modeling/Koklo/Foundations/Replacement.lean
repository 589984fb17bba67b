import Mathlib.Data.Fintype.Card

/-!
# Replacing an item of a list

What a list holds, counts and has parts of once one of its items is replaced: a count does not grow
when the new item counts only if the former did (`countP_set_le`), and the parts of the items gain
the part of the new one (`perm_filterMap_set`). Items that differ in a key of a finite type are at
most as many as its values (`countP_le_of_apart`).
-/

set_option autoImplicit false

namespace Koklo.Foundations

universe u v

variable {α : Type u} {β : Type v}

/-- What is in a list one of whose items is replaced. -/
theorem getElem?_replaced {items : List α} {index i : ℕ} {item other : α}
    (known : (items.set index item)[i]? = some other) :
    i = index ∧ other = item ∨ i ≠ index ∧ items[i]? = some other := by
  rw [List.getElem?_set] at known
  split at known
  · rename_i same
    split at known
    · exact .inl ⟨same.symm, (Option.some.inj known).symm⟩
    · cases known
  · rename_i apart
    exact .inr ⟨Ne.symm apart, known⟩

/-- A list with one item replaced, around that item. -/
theorem set_eq_around {items : List α} {index : ℕ} {former : α}
    (found : items[index]? = some former) (item : α) :
    items.set index item = items.take index ++ item :: items.drop (index + 1) ∧
      items = items.take index ++ former :: items.drop (index + 1) := by
  obtain ⟨inside, here⟩ := List.getElem?_eq_some_iff.mp found
  refine ⟨List.set_eq_take_append_cons_drop.trans (if_pos inside), ?_⟩
  rw [← here, List.cons_getElem_drop_succ, List.take_append_drop]

/-- **Replacing an item by one that counts only when it did** makes no count larger. -/
theorem countP_set_le {items : List α} {index : ℕ} {former item : α} {counts : α → Bool}
    (found : items[index]? = some former) (only : counts item = true → counts former = true) :
    (items.set index item).countP counts ≤ items.countP counts := by
  obtain ⟨after, before⟩ := set_eq_around found item
  rw [after]
  conv_rhs => rw [before]
  rw [List.countP_append, List.countP_append, List.countP_cons, List.countP_cons]
  by_cases counted : counts item = true
  · rw [if_pos counted, if_pos (only counted)]
  · rw [if_neg counted]
    omega

/-- What counts is counted on each side of a second condition. -/
theorem countP_split (items : List α) (counts also : α → Bool) :
    items.countP counts = items.countP (fun item => counts item && also item) +
      items.countP fun item => counts item && !also item := by
  induction items with
  | nil => rfl
  | cons item items ih =>
    rw [List.countP_cons, List.countP_cons, List.countP_cons, ih]
    cases counts item <;> cases also item <;> simp <;> omega

/-- Replacing an item by one with the same part keeps the parts. -/
theorem filterMap_set {items : List α} {index : ℕ} {former item : α} {part : α → Option β}
    (found : items[index]? = some former) (same : part item = part former) :
    (items.set index item).filterMap part = items.filterMap part := by
  obtain ⟨after, before⟩ := set_eq_around found item
  rw [after]
  conv_rhs => rw [before]
  rw [List.filterMap_append, List.filterMap_append, List.filterMap_cons, List.filterMap_cons, same]

/-- Replacing an item without a part by one with a part adds that part. -/
theorem perm_filterMap_set {items : List α} {index : ℕ} {former item : α} {part : α → Option β}
    {new : β} (found : items[index]? = some former) (without : part former = none)
    (gained : part item = some new) :
    ((items.set index item).filterMap part).Perm (items.filterMap part ++ [new]) := by
  obtain ⟨after, before⟩ := set_eq_around found item
  rw [after]
  conv_rhs => rw [before]
  rw [List.filterMap_append, List.filterMap_append, List.filterMap_cons, List.filterMap_cons,
    without, gained, List.append_assoc]
  exact List.Perm.append_left _ (List.perm_append_singleton _ _).symm

/-- Replacing an item with a part by one without takes that part away. -/
theorem perm_filterMap_unset {items : List α} {index : ℕ} {former item : α} {part : α → Option β}
    {old : β} (found : items[index]? = some former) (had : part former = some old)
    (without : part item = none) :
    (items.filterMap part).Perm (old :: (items.set index item).filterMap part) := by
  obtain ⟨after, before⟩ := set_eq_around found item
  rw [after]
  conv_lhs => rw [before]
  rw [List.filterMap_append, List.filterMap_append, List.filterMap_cons, List.filterMap_cons, had,
    without]
  exact List.perm_middle

/-- Replacing an item by one without a part leaves parts that were there. -/
theorem filterMap_set_sublist {items : List α} {index : ℕ} {former item : α} {part : α → Option β}
    (found : items[index]? = some former) (without : part item = none) :
    ((items.set index item).filterMap part).Sublist (items.filterMap part) := by
  obtain ⟨after, before⟩ := set_eq_around found item
  rw [after]
  conv_rhs => rw [before]
  rw [List.filterMap_append, List.filterMap_append, List.filterMap_cons, List.filterMap_cons,
    without]
  cases part former with
  | none => exact List.Sublist.refl _
  | some old => exact (List.Sublist.refl _).append (List.sublist_cons_self _ _)

/-- The count after a replacement, next to what the two items count. -/
theorem countP_set_add {items : List α} {index : ℕ} {former item : α} (counts : α → Bool)
    (found : items[index]? = some former) :
    (items.set index item).countP counts + (counts former).toNat =
      items.countP counts + (counts item).toNat := by
  obtain ⟨after, before⟩ := set_eq_around found item
  rw [after]
  conv_rhs => rw [before]
  rw [List.countP_append, List.countP_append, List.countP_cons, List.countP_cons]
  cases counts former <;> cases counts item <;> simp <;> omega

/-- Changing items so that one that counts no longer does, and none starts to, counts one less. -/
theorem countP_map_lt {items : List α} {counts : α → Bool} {change : α → α} {found : α}
    (member : found ∈ items) (counted : counts found = true)
    (dropped : counts (change found) = false)
    (only : ∀ item, counts (change item) = true → counts item = true) :
    (items.map change).countP counts + 1 ≤ items.countP counts := by
  obtain ⟨front, back, rfl⟩ := List.append_of_mem member
  have less : ∀ part : List α, (part.map change).countP counts ≤ part.countP counts := by
    intro part
    rw [List.countP_map]
    exact List.countP_mono_left fun item _ after => only item after
  have first := less front
  have last := less back
  simp only [List.map_append, List.map_cons, List.countP_append, List.countP_cons, dropped, counted,
    if_true, Bool.false_eq_true, if_false]
  omega

/-- **Items that differ in a key of a finite type** are at most as many as its values. -/
theorem countP_le_of_apart [Fintype β] {items : List α} {counts : α → Bool} (key : α → β)
    (apart : ∀ (i j : ℕ) (first second : α), i < j → items[i]? = some first →
      items[j]? = some second → counts first = true → counts second = true →
        key first ≠ key second) :
    items.countP counts ≤ Fintype.card β := by
  have distinct : ((items.filter counts).map key).Nodup := by
    rw [List.Nodup, List.pairwise_map, List.pairwise_filter, List.pairwise_iff_getElem]
    intro i j boundI boundJ less first second
    exact apart i j _ _ less (List.getElem?_eq_getElem boundI) (List.getElem?_eq_getElem boundJ)
      first second
  rw [List.countP_eq_length_filter, ← List.length_map (f := key)]
  exact distinct.length_le_card

end Koklo.Foundations
