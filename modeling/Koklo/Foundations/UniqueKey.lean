import Koklo.Foundations.UniqueUpdate

/-!
# A unique key

Each row of a table has a key, and an insert is held to the rows that have the key of the new one.
Whatever the order of the inserts, commits and aborts, no two committed rows have the same key
(`UniqueKey.eq_of_key`).
-/

set_option autoImplicit false

namespace Koklo.Foundations.ReadCommitted

universe u v

variable {Row : Type u} {Key : Type v} [DecidableEq Key] {key : Row → Key}

/-- A row has a key. -/
def hasKey (key : Row → Key) (wanted : Key) (row : Row) : Bool := key row = wanted

/-- Each key is that of one row at most, and of one transaction that adds one. -/
def UniqueKey (key : Row → Key) (table : Table Row) : Prop :=
  ∀ wanted, Indexed (hasKey key wanted) table

/-- An insert under the unique key. -/
def insertKeyed (key : Row → Key) (table : Table Row) (tx : ℕ) (row : Row) : Inserted Row :=
  insert (hasKey key (key row)) table tx row

theorem insertKeyed_eq_done {table next : Table Row} {tx : ℕ} {row : Row}
    (inserted : insertKeyed key table tx row = .done next) :
    next = table ++ [⟨none, some (tx, row)⟩] := (insert_eq_done inserted).2

/-- An insert that is refused has found a row that has the key, where it has written none. -/
theorem committedRow_of_violates {table : Table Row} {tx : ℕ} {row : Row}
    (refused : insertKeyed key table tx row = .violates)
    (unwritten : ∀ id, pendingRow table tx id = none) :
    ∃ id former, committedRow table id = some former ∧ key former = key row := by
  rw [insertKeyed, insert] at refused
  split at refused
  · cases refused
  split at refused
  · rename_i seen
    obtain ⟨slot, member, alive⟩ := List.any_eq_true.mp seen
    obtain ⟨id, found⟩ := List.getElem?_of_mem member
    obtain ⟨former, view, same⟩ := (Option.any_eq_true _ _).mp alive
    refine ⟨id, former, ?_, of_decide_eq_true same⟩
    rcases mem_visible_iff.mp (mem_visible.mpr ⟨slot, found, view⟩) with mine | ⟨_, committed⟩
    · rw [unwritten id] at mine
      cases mine
    · exact committed
  · cases refused

/-- A new row that is not live, of an open transaction. -/
theorem Indexed.append {live : Row → Bool} {table : Table Row} {tx : ℕ} {row : Row}
    (indexed : Indexed live table) (dead : live row = false) :
    Indexed live (table ++ [⟨none, some (tx, row)⟩]) := by
  constructor
  · intro i j first second foundI foundJ liveI liveJ
    rcases getElem?_insert foundI with knownI | ⟨_, rfl⟩
    · rcases getElem?_insert foundJ with knownJ | ⟨_, rfl⟩
      · exact indexed.committed knownI knownJ liveI liveJ
      · cases liveJ
    · cases liveI
  · intro i j owner first second version foundI foundJ apart held alive
    rcases getElem?_insert foundI with knownI | ⟨_, rfl⟩
    · rcases getElem?_insert foundJ with knownJ | ⟨_, rfl⟩
      · exact indexed.pending knownI knownJ apart held alive
      · refine ⟨fun other written same => ?_, fun liveJ => ?_⟩
        · cases same
          exact dead
        · cases liveJ
    · cases held
      rw [dead] at alive
      cases alive

/-- **An insert keeps the keys unique.** -/
theorem UniqueKey.insert {table next : Table Row} {tx : ℕ} {row : Row}
    (unique : UniqueKey key table) (inserted : insertKeyed key table tx row = .done next) :
    UniqueKey key next := by
  intro wanted
  by_cases same : key row = wanted
  · subst same
    exact (unique (key row)).insert inserted
  · rw [insertKeyed_eq_done inserted]
    exact (unique wanted).append (decide_eq_false same)

theorem UniqueKey.commit {table : Table Row} (unique : UniqueKey key table) (tx : ℕ) :
    UniqueKey key (commit table tx) := fun wanted => (unique wanted).commit tx

theorem UniqueKey.abort {table : Table Row} (unique : UniqueKey key table) (tx : ℕ) :
    UniqueKey key (abort table tx) := fun wanted => (unique wanted).abort tx

/-- **A key is that of one row.** -/
theorem UniqueKey.eq_of_key {table : Table Row} (unique : UniqueKey key table) {i j : ℕ}
    {first second : Row} (foundI : committedRow table i = some first)
    (foundJ : committedRow table j = some second) (same : key first = key second) : i = j :=
  (unique (key second)).oneLive i j first second foundI foundJ (decide_eq_true same)
    (decide_eq_true rfl)

/-- The commit of a transaction that has written nothing. -/
theorem commit_of_unwritten {table : Table Row} {tx : ℕ}
    (unwritten : ∀ id, pendingRow table tx id = none) : commit table tx = table := by
  refine List.ext_getElem? fun id => ?_
  rw [commit, List.getElem?_map]
  cases found : table[id]? with
  | none => rfl
  | some slot =>
    rcases slot.commit_cases tx with ⟨row, held, _⟩ | ⟨_, unchanged⟩
    · have written := pendingRow_eq_some.mpr ⟨slot, found, held⟩
      rw [unwritten id] at written
      cases written
    · rw [Option.map_some, unchanged]

/-! ## Changes that keep the key -/

/-- The committed version of a row is changed, by a statement of its own. -/
def amend (table : Table Row) (id : ℕ) (change : Row → Row) : Table Row :=
  table.modify id fun slot => { slot with committed := slot.committed.map change }

theorem getElem?_amend {table : Table Row} {id i : ℕ} {change : Row → Row} {slot : Slot Row}
    (found : (amend table id change)[i]? = some slot) :
    ∃ before, table[i]? = some before ∧ slot.pending = before.pending ∧
      slot.committed = if id = i then before.committed.map change else before.committed := by
  rw [amend, List.getElem?_modify] at found
  obtain ⟨before, known, same⟩ := Option.map_eq_some_iff.mp found
  refine ⟨before, known, ?_⟩
  split at same
  · rename_i here
    subst same
    exact ⟨rfl, (if_pos here).symm⟩
  · rename_i apart
    cases same
    exact ⟨rfl, (if_neg apart).symm⟩

theorem committedRow_amend (table : Table Row) (id i : ℕ) (change : Row → Row) :
    committedRow (amend table id change) i =
      if id = i then (committedRow table i).map change else committedRow table i := by
  rw [committedRow, committedRow, amend, List.getElem?_modify]
  cases table[i]? with
  | none => split <;> rfl
  | some slot =>
    rw [Option.map_eq_map, Option.map_some, Option.bind_some, Option.bind_some]
    split <;> rfl

theorem pendingRow_amend (table : Table Row) (tx id i : ℕ) (change : Row → Row) :
    pendingRow (amend table id change) tx i = pendingRow table tx i := by
  rw [pendingRow, pendingRow, amend, List.getElem?_modify]
  cases table[i]? with
  | none => rfl
  | some slot =>
    rw [Option.map_eq_map, Option.map_some, Option.bind_some, Option.bind_some]
    by_cases here : id = i
    · rw [if_pos here]
    · rw [if_neg here]

/-- **A change that keeps the keys keeps them unique.** -/
theorem UniqueKey.amend {table : Table Row} {id : ℕ} {change : Row → Row}
    (unique : UniqueKey key table) (kept : ∀ row, key (change row) = key row) :
    UniqueKey key (amend table id change) := by
  intro wanted
  have alike : ∀ {i : ℕ} {slot : Slot Row}, (ReadCommitted.amend table id change)[i]? = some slot →
      ∃ before, table[i]? = some before ∧ slot.pending = before.pending ∧
        slot.committed.any (hasKey key wanted) = before.committed.any (hasKey key wanted) := by
    intro i slot found
    obtain ⟨before, known, pending, committed⟩ := getElem?_amend found
    refine ⟨before, known, pending, ?_⟩
    rw [committed]
    split
    · cases before.committed with
      | none => rfl
      | some row =>
        rw [Option.map_some, Option.any_some, Option.any_some, hasKey, hasKey, kept]
    · rfl
  constructor
  · intro i j first second foundI foundJ liveI liveJ
    obtain ⟨beforeI, knownI, _, sameI⟩ := alike foundI
    obtain ⟨beforeJ, knownJ, _, sameJ⟩ := alike foundJ
    exact (unique wanted).committed knownI knownJ (sameI ▸ liveI) (sameJ ▸ liveJ)
  · intro i j tx first second row foundI foundJ apart held alive
    obtain ⟨beforeI, knownI, pendingI, _⟩ := alike foundI
    obtain ⟨beforeJ, knownJ, pendingJ, sameJ⟩ := alike foundJ
    have before := (unique wanted).pending knownI knownJ apart (pendingI ▸ held) alive
    rw [Slot.Yields, pendingJ, sameJ]
    exact before

end Koklo.Foundations.ReadCommitted
