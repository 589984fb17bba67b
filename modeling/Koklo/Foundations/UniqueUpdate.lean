import Koklo.Foundations.RowSuccession

/-!
# Updates under a partial unique index

An update that makes a row live is held to the index like an insert: it waits while another
transaction may make a row live or leave one, and is refused when it sees another live row
(`updateRow`). It keeps one live row (`Indexed.updateRow`), and an orderly table when it leads the
row where it may go (`Orderly.updateRow`).
-/

set_option autoImplicit false

namespace Koklo.Foundations.ReadCommitted

universe u

variable {Row : Type u} {live : Row → Bool} {follows : Row → Row → Prop}

/-- At most one committed row is live. -/
def OneLive (live : Row → Bool) (table : Table Row) : Prop :=
  ∀ i j first second, committedRow table i = some first → committedRow table j = some second →
    live first = true → live second = true → i = j

theorem Indexed.oneLive {table : Table Row} (indexed : Indexed live table) : OneLive live table := by
  intro i j first second knownI knownJ liveI liveJ
  obtain ⟨slotI, foundI, sameI⟩ := committedRow_eq_some.mp knownI
  obtain ⟨slotJ, foundJ, sameJ⟩ := committedRow_eq_some.mp knownJ
  apply indexed.committed foundI foundJ
  · rw [sameI]
    exact liveI
  · rw [sameJ]
    exact liveJ

/-- A table that no transaction has written keeps the index when one committed row at most is
live. -/
theorem OneLive.indexed {table : Table Row} (oneLive : OneLive live table)
    (free : ∀ slot ∈ table, slot.pending = none) : Indexed live table := by
  constructor
  · intro i j first second foundI foundJ liveI liveJ
    obtain ⟨rowI, sameI, aliveI⟩ := (Option.any_eq_true live first.committed).mp liveI
    obtain ⟨rowJ, sameJ, aliveJ⟩ := (Option.any_eq_true live second.committed).mp liveJ
    exact oneLive i j rowI rowJ (committedRow_eq_some.mpr ⟨first, foundI, sameI⟩)
      (committedRow_eq_some.mpr ⟨second, foundJ, sameJ⟩) aliveI aliveJ
  · intro i j owner first second version foundI _ _ held _
    rw [free first (List.mem_of_getElem? foundI)] at held
    cases held

/-- The update of one row under the index. -/
def updateRow (live : Row → Bool) (table : Table Row) (tx id : ℕ) (change : Row → Row) :
    Inserted Row :=
  match table[id]? with
  | none => .done table
  | some slot =>
    if slot.heldFrom tx then .waits
    else
      match slot.view tx with
      | none => .done table
      | some row =>
        let written := table.set id (slot.write tx (change row))
        if live (change row) then
          if (table.eraseIdx id).any (·.contested live tx) then .waits
          else if (table.eraseIdx id).any fun other => (other.view tx).any live then .violates
          else .done written
        else .done written

/-- What an update of one row leaves: the table as it was, where there is no row to update, or the
row written, and no other row that is live or may become so when it is. -/
theorem updateRow_eq_done {table next : Table Row} {tx id : ℕ} {change : Row → Row}
    (updated : updateRow live table tx id change = .done next) :
    next = table ∨ ∃ slot row, table[id]? = some slot ∧ slot.heldFrom tx = false ∧
      slot.view tx = some row ∧ next = table.set id (slot.write tx (change row)) ∧
      (live (change row) = true → ∀ j other, j ≠ id → table[j]? = some other →
        other.Yields live tx) := by
  rw [updateRow] at updated
  split at updated
  · cases updated
    exact .inl rfl
  rename_i slot found
  split at updated
  · cases updated
  rename_i free
  have free' : slot.heldFrom tx = false := Bool.eq_false_iff.mpr free
  split at updated
  · cases updated
    exact .inl rfl
  rename_i row seen
  dsimp only at updated
  split at updated
  · split at updated
    · cases updated
    rename_i quiet
    split at updated
    · cases updated
    rename_i unseen
    cases updated
    refine .inr ⟨slot, row, found, free', seen, rfl, fun _ j other apart known => ?_⟩
    have member : other ∈ table.eraseIdx id :=
      List.mem_eraseIdx_iff_getElem?.mpr ⟨j, apart, known⟩
    refine Slot.yields_of_insert ?_ ?_
    · by_contra contested
      exact quiet (List.any_eq_true.mpr ⟨other, member, Bool.not_eq_false _ ▸ contested⟩)
    · by_contra live'
      exact unseen (List.any_eq_true.mpr ⟨other, member, Bool.not_eq_false _ ▸ live'⟩)
  · rename_i dead
    cases updated
    exact .inr ⟨slot, row, found, free', seen, rfl, fun alive => absurd alive dead⟩

/-- The rows after one of them is written. -/
theorem getElem?_written {table : Table Row} {tx id j : ℕ} {slot other : Slot Row} {row : Row}
    (found : table[id]? = some slot) (after : (table.set id (slot.write tx row))[j]? = some other) :
    j = id ∧ other = slot.write tx row ∨ j ≠ id ∧ table[j]? = some other := by
  by_cases same : j = id
  · subst same
    rw [List.getElem?_set_self (List.getElem?_eq_some_iff.mp found).1] at after
    cases after
    exact .inl ⟨rfl, rfl⟩
  · rw [List.getElem?_set_ne (Ne.symm same)] at after
    exact .inr ⟨same, after⟩

/-- **An update that the index lets through** keeps it. -/
theorem Indexed.updateRow {table next : Table Row} {tx id : ℕ} {change : Row → Row}
    (indexed : Indexed live table) (updated : updateRow live table tx id change = .done next) :
    Indexed live next := by
  rcases updateRow_eq_done updated with rfl | ⟨slot, row, found, free, seen, rfl, yields⟩
  · exact indexed
  have kept : ∀ {j : ℕ} {other : Slot Row},
      (table.set id (slot.write tx (change row)))[j]? = some other →
      ∃ before, table[j]? = some before ∧ other.committed = before.committed := by
    intro j other after
    rcases getElem?_written found after with ⟨rfl, rfl⟩ | ⟨_, known⟩
    · exact ⟨slot, found, rfl⟩
    · exact ⟨other, known, rfl⟩
  constructor
  · intro i j first second foundI foundJ liveI liveJ
    obtain ⟨beforeI, knownI, sameI⟩ := kept foundI
    obtain ⟨beforeJ, knownJ, sameJ⟩ := kept foundJ
    rw [sameI] at liveI
    rw [sameJ] at liveJ
    exact indexed.committed knownI knownJ liveI liveJ
  · intro i j owner first second version foundI foundJ apart held alive
    rcases getElem?_written found foundI with ⟨rfl, rfl⟩ | ⟨otherI, knownI⟩
    · cases held
      rcases getElem?_written found foundJ with ⟨rfl, _⟩ | ⟨otherJ, knownJ⟩
      · exact absurd rfl apart
      · exact yields alive j second otherJ knownJ
    · rcases getElem?_written found foundJ with ⟨rfl, rfl⟩ | ⟨_, knownJ⟩
      · -- The row written yields to the owner of the other one, so it is not made live.
        have before := indexed.pending knownI found apart held alive
        have dead : live (change row) = false := by
          by_contra made
          have refused := (yields (Bool.not_eq_false _ ▸ made) i first otherI knownI).1 owner
            version held
          rw [alive] at refused
          cases refused
        refine ⟨fun other written same => ?_, fun committed => ?_⟩
        · cases same
          exact dead
        · obtain ⟨former, pending⟩ := before.2 committed
          rw [Slot.heldFrom, pending] at free
          rw [← not_not.mp (of_decide_eq_false free)]
          exact ⟨_, rfl⟩
      · exact indexed.pending knownI knownJ apart held alive

/-- A new committed row that is not live keeps the index. -/
theorem Indexed.grow {table : Table Row} {new : Row} (indexed : Indexed live table)
    (dead : live new = false) : Indexed live (table ++ [⟨some new, none⟩]) := by
  constructor
  · intro i j first second foundI foundJ liveI liveJ
    rcases getElem?_insert foundI with knownI | ⟨_, rfl⟩
    · rcases getElem?_insert foundJ with knownJ | ⟨_, rfl⟩
      · exact indexed.committed knownI knownJ liveI liveJ
      · rw [Option.any_some, dead] at liveJ
        cases liveJ
    · rw [Option.any_some, dead] at liveI
      cases liveI
  · intro i j owner first second version foundI foundJ apart held alive
    rcases getElem?_insert foundI with knownI | ⟨_, rfl⟩
    · rcases getElem?_insert foundJ with knownJ | ⟨_, rfl⟩
      · exact indexed.pending knownI knownJ apart held alive
      · refine ⟨fun other written same => ?_, fun liveJ => ?_⟩
        · cases same
        rw [Option.any_some, dead] at liveJ
        cases liveJ
    · cases held

/-- **An update that leads its row where it may go.** -/
theorem Orderly.updateRow {table next : Table Row} {tx id : ℕ} {change : Row → Row}
    (orderly : Orderly follows table)
    (leads : ∀ former row, committedRow table id = some former → (id, row) ∈ visible table tx →
      follows former (change row))
    (updated : updateRow live table tx id change = .done next) : Proceeds follows table next := by
  rcases updateRow_eq_done updated with rfl | ⟨slot, row, found, _, seen, rfl, _⟩
  · exact orderly.refl
  have kept : ∀ j, committedRow (table.set id (slot.write tx (change row))) j =
      committedRow table j := by
    intro j
    rw [committedRow, committedRow]
    by_cases same : j = id
    · subst same
      rw [List.getElem?_set_self (List.getElem?_eq_some_iff.mp found).1, found]
      rfl
    · rw [List.getElem?_set_ne (Ne.symm same)]
  refine ⟨fun owner j former version known written => ?_, .of_committedRow fun j former known => ?_⟩
  · rw [kept] at known
    obtain ⟨other, after, held⟩ := pendingRow_eq_some.mp written
    rcases getElem?_written found after with ⟨rfl, rfl⟩ | ⟨_, before⟩
    · cases held
      exact leads former row known (mem_visible.mpr ⟨slot, found, seen⟩)
    · exact orderly owner j former version known (pendingRow_eq_some.mpr ⟨other, before, held⟩)
  · rw [kept]
    exact known

end Koklo.Foundations.ReadCommitted
