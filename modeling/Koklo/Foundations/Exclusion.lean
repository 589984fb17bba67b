import Mathlib.Data.List.Basic

/-!
# Keys held by one holder at most

Each of a list of holders holds a key or none. A holder takes a key only when no other holds it
(`takenByOther`), and so no two hold the same (`Exclusive.modify`).
-/

set_option autoImplicit false

namespace Koklo.Foundations

universe u v

variable {Holder : Type u} {Key : Type v} {held : Holder → Option Key}

/-- No two holders hold the same key. -/
def Exclusive (held : Holder → Option Key) (holders : List Holder) : Prop :=
  ∀ (i j : ℕ) (first second : Holder) (key : Key), holders[i]? = some first →
    holders[j]? = some second → held first = some key → held second = some key → i = j

/-- Another holder holds the key. -/
def takenByOther [DecidableEq Key] (held : Holder → Option Key) (holders : List Holder) (index : ℕ)
    (key : Key) : Bool :=
  (holders.eraseIdx index).any fun other => held other = some key

/-- What is in the list after one of its elements is modified. -/
theorem getElem?_modified {holders : List Holder} {index i : ℕ} {holder other : Holder}
    {change : Holder → Holder} (found : holders[index]? = some holder)
    (known : (holders.modify index change)[i]? = some other) :
    i = index ∧ other = change holder ∨ i ≠ index ∧ holders[i]? = some other := by
  rw [List.getElem?_modify] at known
  obtain ⟨former, before, same⟩ := Option.map_eq_some_iff.mp known
  split at same
  · rename_i mine
    subst mine
    rw [found] at before
    cases before
    exact .inl ⟨rfl, same.symm⟩
  · rename_i apart
    cases same
    exact .inr ⟨Ne.symm apart, before⟩

theorem getElem?_modified_self {holders : List Holder} {index : ℕ} {holder : Holder}
    {change : Holder → Holder} (found : holders[index]? = some holder) :
    (holders.modify index change)[index]? = some (change holder) := by
  rw [List.getElem?_modify, found]
  exact congrArg some (if_pos rfl)

theorem getElem?_modified_ne {holders : List Holder} {index i : ℕ} {other : Holder}
    {change : Holder → Holder} (apart : i ≠ index) (known : holders[i]? = some other) :
    (holders.modify index change)[i]? = some other := by
  rw [List.getElem?_modify, known]
  exact congrArg some (if_neg (Ne.symm apart))

/-- **A holder that takes a free key, or keeps its own**, leaves each key to one holder. -/
theorem Exclusive.modify [DecidableEq Key] {holders : List Holder} {index : ℕ} {holder : Holder}
    {change : Holder → Holder} (exclusive : Exclusive held holders)
    (found : holders[index]? = some holder)
    (free : ∀ key, held (change holder) = some key → held holder = some key ∨
      takenByOther held holders index key = false) :
    Exclusive held (holders.modify index change) := by
  have unheld : ∀ key, held (change holder) = some key → ∀ i other, i ≠ index →
      holders[i]? = some other → held other ≠ some key := by
    intro key takes i other apart known theirs
    rcases free key takes with mine | untaken
    · exact apart (exclusive i index other holder key known found theirs mine)
    · rw [takenByOther, List.any_eq_false] at untaken
      apply untaken other (List.mem_eraseIdx_iff_getElem?.mpr ⟨i, apart, known⟩)
      exact decide_eq_true theirs
  intro i j first second key foundI foundJ heldI heldJ
  rcases getElem?_modified found foundI with ⟨rfl, rfl⟩ | ⟨apartI, knownI⟩
  · rcases getElem?_modified found foundJ with ⟨rfl, _⟩ | ⟨apartJ, knownJ⟩
    · rfl
    · exact absurd heldJ (unheld key heldI j second apartJ knownJ)
  · rcases getElem?_modified found foundJ with ⟨rfl, rfl⟩ | ⟨apartJ, knownJ⟩
    · exact absurd heldI (unheld key heldJ i first apartI knownI)
    · exact exclusive i j first second key knownI knownJ heldI heldJ

/-- A new holder that holds nothing. -/
theorem Exclusive.append {holders : List Holder} {new : Holder} (exclusive : Exclusive held holders)
    (nothing : held new = none) : Exclusive held (holders ++ [new]) := by
  have former : ∀ {i : ℕ} {holder : Holder} {key : Key}, (holders ++ [new])[i]? = some holder →
      held holder = some key → holders[i]? = some holder := by
    intro i holder key known holds
    rcases Nat.lt_or_ge i holders.length with inside | outside
    · rw [List.getElem?_append_left inside] at known
      exact known
    · rw [List.getElem?_append_right outside] at known
      rw [List.mem_singleton.mp (List.mem_of_getElem? known), nothing] at holds
      cases holds
  intro i j first second key foundI foundJ heldI heldJ
  exact exclusive i j first second key (former foundI heldI) (former foundJ heldJ) heldI heldJ

end Koklo.Foundations
