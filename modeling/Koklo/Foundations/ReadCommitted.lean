import Mathlib.Data.List.Basic
import Mathlib.Logic.Relation

/-!
# A table under READ COMMITTED

Each row has its committed version and, while a transaction that wrote it is open, a pending one,
which that transaction sees and which locks the row for the others. An update selects its rows when
it starts and checks each again once it has its lock. A partial unique index lets one row be live:
an insert waits while another transaction may make a row live or leave one, and is refused when it
sees a live row.

When the updates are for live rows only, the index keeps one live row among the committed ones
whatever the order of the statements (`Indexed.statements`), and a committed row that is not live
never changes (`Lockless.statements`).
-/

set_option autoImplicit false

namespace Koklo.Foundations.ReadCommitted

universe u

variable {Row : Type u}

/-- A row: what is committed, and what an open transaction has written. -/
structure Slot (Row : Type u) where
  committed : Option Row
  pending : Option (ℕ × Row)
deriving DecidableEq

/-- The rows of a table, by their identifiers. -/
abbrev Table (Row : Type u) := List (Slot Row)

namespace Slot

/-- The version that a transaction sees. -/
def view (slot : Slot Row) (tx : ℕ) : Option Row :=
  match slot.pending with
  | some (owner, row) => if owner = tx then some row else slot.committed
  | none => slot.committed

/-- Another transaction holds the row. -/
def heldFrom (slot : Slot Row) (tx : ℕ) : Bool :=
  match slot.pending with
  | some (owner, _) => owner ≠ tx
  | none => false

def write (slot : Slot Row) (tx : ℕ) (row : Row) : Slot Row :=
  { slot with pending := some (tx, row) }

def commit (slot : Slot Row) (tx : ℕ) : Slot Row :=
  match slot.pending with
  | some (owner, row) => if owner = tx then ⟨some row, none⟩ else slot
  | none => slot

def abort (slot : Slot Row) (tx : ℕ) : Slot Row :=
  match slot.pending with
  | some (owner, _) => if owner = tx then ⟨slot.committed, none⟩ else slot
  | none => slot

end Slot

/-! ## Statements -/

/-- The rows that a transaction sees. -/
def visible (table : Table Row) (tx : ℕ) : List (ℕ × Row) :=
  (table.zipIdx.filterMap fun (slot, id) => (slot.view tx).map (id, ·))

/-- An update: the rows it is for, and what it makes of them. -/
structure Update (Row : Type u) where
  selects : ℕ → Row → Bool
  change : Row → Row

/-- The rows that an update selects as it starts. -/
def select (table : Table Row) (tx : ℕ) (update : Update Row) : List ℕ :=
  ((visible table tx).filter fun (id, row) => update.selects id row).map Prod.fst

/-- The row of an update that selected it: written when it is still selected. -/
def updateSlot (tx : ℕ) (update : Update Row) (selected : List ℕ) (id : ℕ) (slot : Slot Row) :
    Slot Row :=
  match slot.view tx with
  | some row =>
    if id ∈ selected ∧ update.selects id row = true then slot.write tx (update.change row) else slot
  | none => slot

/-- An update on the rows it selected, which waits for the locks of other transactions. -/
def applyUpdate (table : Table Row) (tx : ℕ) (update : Update Row) (selected : List ℕ) :
    Option (Table Row) :=
  if selected.any fun id => (table[id]?).any (·.heldFrom tx) then none
  else some (table.mapIdx (updateSlot tx update selected))

/-- The rows that an update changes. -/
def changed (table : Table Row) (tx : ℕ) (update : Update Row) (selected : List ℕ) : List ℕ :=
  (select table tx update).filter (· ∈ selected)

/-- The outcome of an insert under a unique index. -/
inductive Inserted (Row : Type u) where
  | waits
  | violates
  | done (table : Table Row)

/-- An open transaction has written the row, and it is live before or after. -/
def Slot.contested (live : Row → Bool) (slot : Slot Row) (tx : ℕ) : Bool :=
  slot.heldFrom tx && (slot.committed.any live || slot.pending.any fun held => live held.2)

/-- The insert of a live row under the unique index. -/
def insert (live : Row → Bool) (table : Table Row) (tx : ℕ) (row : Row) : Inserted Row :=
  if table.any (·.contested live tx) then .waits
  else if table.any fun slot => (slot.view tx).any live then .violates
  else .done (table ++ [⟨none, some (tx, row)⟩])

def commit (table : Table Row) (tx : ℕ) : Table Row := table.map (·.commit tx)

def abort (table : Table Row) (tx : ℕ) : Table Row := table.map (·.abort tx)

/-! ## What the statements do to a row -/

theorem mem_visible {table : Table Row} {tx id : ℕ} {row : Row} :
    (id, row) ∈ visible table tx ↔ ∃ slot, table[id]? = some slot ∧ slot.view tx = some row := by
  rw [visible, List.mem_filterMap]
  constructor
  · rintro ⟨⟨slot, index⟩, member, seen⟩
    obtain ⟨version, view, same⟩ := Option.map_eq_some_iff.mp seen
    cases same
    exact ⟨slot, List.mem_zipIdx_iff_getElem?.mp member, view⟩
  · rintro ⟨slot, found, view⟩
    exact ⟨(slot, id), List.mem_zipIdx_iff_getElem?.mpr found,
      Option.map_eq_some_iff.mpr ⟨row, view, rfl⟩⟩

theorem mem_changed {table : Table Row} {tx id : ℕ} {update : Update Row} {selected : List ℕ} :
    id ∈ changed table tx update selected ↔ id ∈ selected ∧ ∃ slot row, table[id]? = some slot ∧
      slot.view tx = some row ∧ update.selects id row = true := by
  rw [changed, List.mem_filter, select, List.mem_map]
  constructor
  · rintro ⟨⟨⟨_, row⟩, member, rfl⟩, known⟩
    obtain ⟨seen, chosen⟩ := List.mem_filter.mp member
    obtain ⟨slot, found, view⟩ := mem_visible.mp seen
    exact ⟨of_decide_eq_true known, slot, row, found, view, chosen⟩
  · rintro ⟨known, slot, row, found, view, chosen⟩
    exact ⟨⟨(id, row), List.mem_filter.mpr ⟨mem_visible.mpr ⟨slot, found, view⟩, chosen⟩, rfl⟩,
      decide_eq_true known⟩

/-- The rows after an update: those it does not change, and those it writes. -/
theorem getElem?_applyUpdate {table next : Table Row} {tx : ℕ} {update : Update Row}
    {selected : List ℕ} (applied : applyUpdate table tx update selected = some next) (id : ℕ) :
    (id ∉ changed table tx update selected ∧ next[id]? = table[id]?) ∨
      ∃ slot row, id ∈ changed table tx update selected ∧ table[id]? = some slot ∧
        slot.heldFrom tx = false ∧ slot.view tx = some row ∧ update.selects id row = true ∧
        next[id]? = some (slot.write tx (update.change row)) := by
  rw [applyUpdate] at applied
  split at applied
  · cases applied
  rename_i free
  cases applied
  rw [List.getElem?_mapIdx]
  cases found : table[id]? with
  | none =>
    refine .inl ⟨fun member => ?_, rfl⟩
    obtain ⟨_, slot, _, other, _⟩ := mem_changed.mp member
    rw [found] at other
    cases other
  | some slot =>
    rw [Option.map_some, updateSlot]
    split
    · rename_i row view
      split
      · rename_i chosen
        have unlocked : slot.heldFrom tx = false := by
          by_contra held
          apply free
          apply List.any_eq_true.mpr
          refine ⟨id, chosen.1, ?_⟩
          rw [found, Option.any_some]
          exact Bool.not_eq_false _ ▸ held
        exact .inr ⟨slot, row, mem_changed.mpr ⟨chosen.1, slot, row, found, view, chosen.2⟩, rfl,
          unlocked, view, chosen.2, rfl⟩
      · rename_i other
        refine .inl ⟨fun member => ?_, rfl⟩
        obtain ⟨known, again, version, found', view', chosen⟩ := mem_changed.mp member
        rw [found] at found'
        cases found'
        rw [view] at view'
        cases view'
        exact other ⟨known, chosen⟩
    · rename_i unseen
      refine .inl ⟨fun member => ?_, rfl⟩
      obtain ⟨_, again, version, found', view', _⟩ := mem_changed.mp member
      rw [found] at found'
      cases found'
      rw [unseen] at view'
      cases view'

/-- The rows after a commit. -/
theorem getElem?_commit {table : Table Row} {tx id : ℕ} {slot : Slot Row}
    (found : (commit table tx)[id]? = some slot) :
    ∃ before, table[id]? = some before ∧ slot = before.commit tx := by
  rw [commit, List.getElem?_map, Option.map_eq_some_iff] at found
  obtain ⟨before, found, same⟩ := found
  exact ⟨before, found, same.symm⟩

/-- The rows after an abort. -/
theorem getElem?_abort {table : Table Row} {tx id : ℕ} {slot : Slot Row}
    (found : (abort table tx)[id]? = some slot) :
    ∃ before, table[id]? = some before ∧ slot = before.abort tx := by
  rw [abort, List.getElem?_map, Option.map_eq_some_iff] at found
  obtain ⟨before, found, same⟩ := found
  exact ⟨before, found, same.symm⟩

/-- A committed row is what the transaction wrote, or what it was. -/
theorem Slot.commit_cases (slot : Slot Row) (tx : ℕ) :
    (∃ row, slot.pending = some (tx, row) ∧ slot.commit tx = ⟨some row, none⟩) ∨
      (∀ row, slot.pending ≠ some (tx, row)) ∧ slot.commit tx = slot := by
  rw [Slot.commit]
  split
  · rename_i owner row held
    split
    · rename_i mine
      rw [← mine]
      exact .inl ⟨row, held, rfl⟩
    · rename_i other
      refine .inr ⟨fun version same => ?_, rfl⟩
      rw [held] at same
      cases same
      exact other rfl
  · rename_i free
    refine .inr ⟨fun version same => ?_, rfl⟩
    rw [free] at same
    cases same

/-- An aborted row is what was committed, or what it was. -/
theorem Slot.abort_cases (slot : Slot Row) (tx : ℕ) :
    (∃ row, slot.pending = some (tx, row) ∧ slot.abort tx = ⟨slot.committed, none⟩) ∨
      (∀ row, slot.pending ≠ some (tx, row)) ∧ slot.abort tx = slot := by
  rw [Slot.abort]
  split
  · rename_i owner row held
    split
    · rename_i mine
      rw [← mine]
      exact .inl ⟨row, held, rfl⟩
    · rename_i other
      refine .inr ⟨fun version same => ?_, rfl⟩
      rw [held] at same
      cases same
      exact other rfl
  · rename_i free
    refine .inr ⟨fun version same => ?_, rfl⟩
    rw [free] at same
    cases same

/-- What a transaction sees of a row that it may write. -/
theorem Slot.view_cases {slot : Slot Row} {tx : ℕ} {row : Row} (free : slot.heldFrom tx = false)
    (seen : slot.view tx = some row) :
    slot.pending = some (tx, row) ∨ slot.pending = none ∧ slot.committed = some row := by
  rw [Slot.heldFrom] at free
  rw [Slot.view] at seen
  split at seen
  · rename_i owner version held
    rw [held] at free
    have mine : owner = tx := not_not.mp (of_decide_eq_false free)
    rw [if_pos mine] at seen
    cases seen
    exact .inl (mine ▸ held)
  · rename_i none_
    exact .inr ⟨none_, seen⟩

/-- A transaction sees what it wrote. -/
theorem Slot.view_of_pending {slot : Slot Row} {tx : ℕ} {row : Row}
    (held : slot.pending = some (tx, row)) : slot.view tx = some row := by
  rw [Slot.view, held]
  exact if_pos rfl

/-- A transaction sees what is committed where it wrote nothing. -/
theorem Slot.view_of_not_pending {slot : Slot Row} {tx : ℕ}
    (others : ∀ row, slot.pending ≠ some (tx, row)) : slot.view tx = slot.committed := by
  rw [Slot.view]
  split
  · rename_i owner row held
    refine if_neg fun mine => others row ?_
    rw [held, mine]
  · rfl

/-! ## Versions by row -/

/-- The committed version of a row. -/
def committedRow (table : Table Row) (id : ℕ) : Option Row := table[id]?.bind Slot.committed

theorem committedRow_eq_some {table : Table Row} {id : ℕ} {row : Row} :
    committedRow table id = some row ↔
      ∃ slot, table[id]? = some slot ∧ slot.committed = some row :=
  Option.bind_eq_some_iff

/-- The committed rows: what a transaction that has written nothing sees. -/
def committedRows (table : Table Row) : List (ℕ × Row) :=
  table.zipIdx.filterMap fun (slot, id) => slot.committed.map (id, ·)

theorem mem_committedRows {table : Table Row} {id : ℕ} {row : Row} :
    (id, row) ∈ committedRows table ↔ committedRow table id = some row := by
  rw [committedRows, List.mem_filterMap, committedRow_eq_some]
  constructor
  · rintro ⟨⟨slot, index⟩, member, known⟩
    obtain ⟨version, committed, same⟩ := Option.map_eq_some_iff.mp known
    cases same
    exact ⟨slot, List.mem_zipIdx_iff_getElem?.mp member, committed⟩
  · rintro ⟨slot, found, committed⟩
    exact ⟨(slot, id), List.mem_zipIdx_iff_getElem?.mpr found,
      Option.map_eq_some_iff.mpr ⟨row, committed, rfl⟩⟩

/-- The version of a row that a transaction has written. -/
def pendingRow (table : Table Row) (tx id : ℕ) : Option Row :=
  table[id]?.bind fun slot =>
    match slot.pending with
    | some (owner, row) => if owner = tx then some row else none
    | none => none

theorem pendingRow_eq_some {table : Table Row} {tx id : ℕ} {row : Row} :
    pendingRow table tx id = some row ↔
      ∃ slot, table[id]? = some slot ∧ slot.pending = some (tx, row) := by
  rw [pendingRow, Option.bind_eq_some_iff]
  constructor
  · rintro ⟨slot, found, written⟩
    split at written
    · rename_i owner version held
      split at written
      · rename_i mine
        cases written
        exact ⟨slot, found, mine ▸ held⟩
      · cases written
    · cases written
  · rintro ⟨slot, found, held⟩
    refine ⟨slot, found, ?_⟩
    rw [held]
    exact if_pos rfl

/-- What a transaction sees of a row: what it wrote, or what is committed. -/
theorem mem_visible_iff {table : Table Row} {tx id : ℕ} {row : Row} :
    (id, row) ∈ visible table tx ↔ pendingRow table tx id = some row ∨
      pendingRow table tx id = none ∧ committedRow table id = some row := by
  rw [mem_visible]
  constructor
  · rintro ⟨slot, found, seen⟩
    by_cases mine : ∃ version, slot.pending = some (tx, version)
    · obtain ⟨version, held⟩ := mine
      rw [Slot.view_of_pending held] at seen
      cases seen
      exact .inl (pendingRow_eq_some.mpr ⟨slot, found, held⟩)
    · rw [Slot.view_of_not_pending (not_exists.mp mine)] at seen
      refine .inr ⟨?_, committedRow_eq_some.mpr ⟨slot, found, seen⟩⟩
      apply Option.eq_none_iff_forall_ne_some.mpr
      intro version written
      obtain ⟨again, found', held⟩ := pendingRow_eq_some.mp written
      rw [found] at found'
      cases found'
      exact mine ⟨version, held⟩
  · rintro (written | ⟨none_, committed⟩)
    · obtain ⟨slot, found, held⟩ := pendingRow_eq_some.mp written
      exact ⟨slot, found, Slot.view_of_pending held⟩
    · obtain ⟨slot, found, same⟩ := committedRow_eq_some.mp committed
      refine ⟨slot, found, ?_⟩
      rw [Slot.view_of_not_pending, same]
      intro version held
      rw [pendingRow_eq_some.mpr ⟨slot, found, held⟩] at none_
      cases none_

/-- One transaction at most has written a row. -/
theorem pendingRow_owner {table : Table Row} {tx other id : ℕ} {row version : Row}
    (mine : pendingRow table tx id = some row) (theirs : pendingRow table other id = some version) :
    other = tx := by
  obtain ⟨slot, found, held⟩ := pendingRow_eq_some.mp mine
  obtain ⟨again, found', held'⟩ := pendingRow_eq_some.mp theirs
  rw [found] at found'
  cases found'
  rw [held] at held'
  cases held'
  rfl

/-! ## One live row -/

/-- No other row is or becomes live but by the doing of the owner of a live one. -/
def Slot.Yields (live : Row → Bool) (owner : ℕ) (slot : Slot Row) : Prop :=
  (∀ other version, slot.pending = some (other, version) → live version = false) ∧
    (slot.committed.any live = true → ∃ version, slot.pending = some (owner, version))

/-- At most one committed row is live; and where a transaction has made a row live, no other row is
or becomes live but by its own doing. -/
structure Indexed (live : Row → Bool) (table : Table Row) : Prop where
  committed : ∀ {i j : ℕ} {first second : Slot Row}, table[i]? = some first →
    table[j]? = some second → first.committed.any live = true →
    second.committed.any live = true → i = j
  pending : ∀ {i j tx : ℕ} {first second : Slot Row} {row : Row}, table[i]? = some first →
    table[j]? = some second → i ≠ j → first.pending = some (tx, row) → live row = true →
    second.Yields live tx

variable {live : Row → Bool}

theorem Indexed.nil : Indexed live [] where
  committed := nofun
  pending := nofun

/-- What becomes of a row while a transaction is open: it keeps its committed version, and is
pending as it was, or written by the transaction over a version that was live if the new one is. -/
def Slot.Updated (live : Row → Bool) (tx : ℕ) (before slot : Slot Row) : Prop :=
  slot.committed = before.committed ∧
    (slot.pending = before.pending ∨ ∃ former row, before.heldFrom tx = false ∧
      before.view tx = some former ∧ slot.pending = some (tx, row) ∧
      (live row = true → live former = true))

theorem updated_of_applyUpdate {table next : Table Row} {tx : ℕ} {update : Update Row}
    {selected : List ℕ}
    (keeps : ∀ id row, update.selects id row = true → live (update.change row) = true →
      live row = true)
    (applied : applyUpdate table tx update selected = some next) {id : ℕ} {slot : Slot Row}
    (found : next[id]? = some slot) : ∃ before, table[id]? = some before ∧
      Slot.Updated live tx before slot := by
  rcases getElem?_applyUpdate applied id with ⟨_, same⟩ |
    ⟨before, row, _, known, free, seen, chosen, written⟩
  · rw [same] at found
    exact ⟨slot, found, rfl, .inl rfl⟩
  · rw [written] at found
    cases found
    exact ⟨before, known, rfl, .inr ⟨row, _, free, seen, rfl, keeps id row chosen⟩⟩

/-- A row that yields still does after an update. -/
theorem Slot.Yields.updated {owner tx : ℕ} {before slot : Slot Row}
    (yields : before.Yields live owner) (updated : Slot.Updated live tx before slot) :
    slot.Yields live owner := by
  obtain ⟨same, unchanged | ⟨former, row, free, seen, written, keeps⟩⟩ := updated
  · rw [Slot.Yields, same, unchanged]
    exact yields
  constructor
  · intro other version held
    rw [written] at held
    cases held
    by_contra alive
    have before_ := keeps (Bool.not_eq_false _ ▸ alive)
    rcases Slot.view_cases free seen with mine | ⟨none_, committed⟩
    · rw [yields.1 tx former mine] at before_
      cases before_
    · obtain ⟨version, held⟩ := yields.2 (committed ▸ before_)
      rw [none_] at held
      cases held
  · intro alive
    rw [same] at alive
    obtain ⟨version, held⟩ := yields.2 alive
    rw [Slot.heldFrom, held] at free
    rw [not_not.mp (of_decide_eq_false free)]
    exact ⟨row, written⟩

/-- **An update that makes no row live** keeps the index. -/
theorem Indexed.applyUpdate {table next : Table Row} {tx : ℕ} {update : Update Row}
    {selected : List ℕ} (indexed : Indexed live table)
    (keeps : ∀ id row, update.selects id row = true → live (update.change row) = true →
      live row = true)
    (applied : applyUpdate table tx update selected = some next) : Indexed live next := by
  constructor
  · intro i j first second foundI foundJ liveI liveJ
    obtain ⟨_, knownI, sameI, _⟩ := updated_of_applyUpdate keeps applied foundI
    obtain ⟨_, knownJ, sameJ, _⟩ := updated_of_applyUpdate keeps applied foundJ
    rw [sameI] at liveI
    rw [sameJ] at liveJ
    exact indexed.committed knownI knownJ liveI liveJ
  · intro i j owner first second row foundI foundJ apart held alive
    obtain ⟨beforeI, knownI, _, casesI⟩ := updated_of_applyUpdate keeps applied foundI
    obtain ⟨beforeJ, knownJ, updatedJ⟩ := updated_of_applyUpdate keeps applied foundJ
    rcases casesI with unchanged | ⟨former, written, free, seen, mine, keepsI⟩
    · rw [unchanged] at held
      exact Slot.Yields.updated (indexed.pending knownI knownJ apart held alive) updatedJ
    rw [mine] at held
    cases held
    rcases Slot.view_cases free seen with again | ⟨none_, committed⟩
    · exact Slot.Yields.updated (indexed.pending knownI knownJ apart again (keepsI alive)) updatedJ
    -- The row was committed and live, so the other row is neither committed nor pending and live.
    have liveI : beforeI.committed.any live = true := by
      rw [committed]
      exact keepsI alive
    refine Slot.Yields.updated ⟨fun other version heldJ => ?_, fun liveJ => ?_⟩ updatedJ
    · by_contra aliveJ
      obtain ⟨_, taken⟩ := (indexed.pending knownJ knownI apart.symm heldJ
        (Bool.not_eq_false _ ▸ aliveJ)).2 liveI
      rw [none_] at taken
      cases taken
    · exact absurd (indexed.committed knownI knownJ liveI liveJ) apart

/-- What an insert finds, and the rows after it. -/
theorem insert_eq_done {table next : Table Row} {tx : ℕ} {row : Row}
    (inserted : insert live table tx row = .done next) :
    (∀ slot ∈ table, slot.contested live tx = false ∧ (slot.view tx).any live = false) ∧
      next = table ++ [⟨none, some (tx, row)⟩] := by
  rw [insert] at inserted
  split at inserted
  · cases inserted
  rename_i quiet
  split at inserted
  · cases inserted
  rename_i unseen
  cases inserted
  refine ⟨fun slot member => ⟨?_, ?_⟩, rfl⟩
  · by_contra contested
    exact quiet (List.any_eq_true.mpr ⟨slot, member, Bool.not_eq_false _ ▸ contested⟩)
  · by_contra seen
    exact unseen (List.any_eq_true.mpr ⟨slot, member, Bool.not_eq_false _ ▸ seen⟩)

theorem getElem?_insert {table : Table Row} {new slot : Slot Row} {id : ℕ}
    (found : (table ++ [new])[id]? = some slot) :
    table[id]? = some slot ∨ id = table.length ∧ slot = new := by
  rcases Nat.lt_or_ge id table.length with inside | outside
  · rw [List.getElem?_append_left inside] at found
    exact .inl found
  · rw [List.getElem?_append_right outside] at found
    obtain ⟨zero, same⟩ := List.getElem?_eq_some_iff.mp found
    rw [List.length_singleton, Nat.lt_one_iff, Nat.sub_eq_zero_iff_le] at zero
    refine .inr ⟨Nat.le_antisymm zero outside, ?_⟩
    rw [← same, List.getElem_singleton]

/-- A row that an insert passes by yields to its transaction. -/
theorem Slot.yields_of_insert {slot : Slot Row} {tx : ℕ} (quiet : slot.contested live tx = false)
    (unseen : (slot.view tx).any live = false) : slot.Yields live tx := by
  rw [Slot.contested, Bool.and_eq_false_iff] at quiet
  rw [Slot.Yields]
  cases held : slot.pending with
  | none =>
    refine ⟨nofun, fun alive => ?_⟩
    rw [Slot.view, held] at unseen
    rw [alive] at unseen
    cases unseen
  | some pending =>
    obtain ⟨owner, row⟩ := pending
    by_cases mine : owner = tx
    · rw [mine] at held ⊢
      rw [Slot.view_of_pending held] at unseen
      refine ⟨fun _ _ same => ?_, fun _ => ⟨row, rfl⟩⟩
      cases same
      exact unseen
    · have other : slot.heldFrom tx = true := by
        rw [Slot.heldFrom, held]
        exact decide_eq_true mine
      obtain ⟨dead, ended⟩ := Bool.or_eq_false_iff.mp (quiet.resolve_left (by rw [other]; decide))
      refine ⟨fun _ _ same => ?_, fun alive => ?_⟩
      · cases same
        rw [held] at ended
        exact ended
      · rw [dead] at alive
        cases alive

/-- **An insert that the index lets through** keeps it. -/
theorem Indexed.insert {table next : Table Row} {tx : ℕ} {row : Row} (indexed : Indexed live table)
    (inserted : insert live table tx row = .done next) : Indexed live next := by
  obtain ⟨passed, rfl⟩ := insert_eq_done inserted
  have yields : ∀ {id : ℕ} {slot : Slot Row}, table[id]? = some slot → slot.Yields live tx := by
    intro id slot found
    obtain ⟨quiet, unseen⟩ := passed slot (List.mem_of_getElem? found)
    exact Slot.yields_of_insert quiet unseen
  constructor
  · intro i j first second foundI foundJ liveI liveJ
    rcases getElem?_insert foundI with knownI | ⟨_, rfl⟩
    · rcases getElem?_insert foundJ with knownJ | ⟨_, rfl⟩
      · exact indexed.committed knownI knownJ liveI liveJ
      · cases liveJ
    · cases liveI
  · intro i j owner first second version foundI foundJ apart held alive
    rcases getElem?_insert foundI with knownI | ⟨lastI, rfl⟩
    · have dead := (yields knownI).1 owner version held
      rw [alive] at dead
      cases dead
    · cases held
      rcases getElem?_insert foundJ with knownJ | ⟨lastJ, _⟩
      · exact yields knownJ
      · exact absurd (lastI.trans lastJ.symm) apart

/-- **A commit leaves one live row.** -/
theorem Indexed.commit {table : Table Row} (indexed : Indexed live table) (tx : ℕ) :
    Indexed live (commit table tx) := by
  constructor
  · intro i j first second foundI foundJ liveI liveJ
    by_contra apart
    obtain ⟨beforeI, knownI, rfl⟩ := getElem?_commit foundI
    obtain ⟨beforeJ, knownJ, rfl⟩ := getElem?_commit foundJ
    -- A row that the transaction has made live yields to no other.
    have alone : ∀ {i j : ℕ} {former other : Slot Row} {row : Row}, table[i]? = some former →
        table[j]? = some other → i ≠ j → former.pending = some (tx, row) → live row = true →
        (other.commit tx).committed.any live = true → False := by
      intro i j former other row knownI knownJ apart held alive liveJ
      have yields := indexed.pending knownI knownJ apart held alive
      rcases other.commit_cases tx with ⟨version, heldJ, committed⟩ | ⟨free, unchanged⟩
      · rw [committed] at liveJ
        rw [Option.any_some, yields.1 tx version heldJ] at liveJ
        cases liveJ
      · rw [unchanged] at liveJ
        obtain ⟨version, heldJ⟩ := yields.2 liveJ
        exact free version heldJ
    rcases beforeI.commit_cases tx with ⟨row, held, committed⟩ | ⟨_, unchangedI⟩
    · rw [committed] at liveI
      exact alone knownI knownJ apart held liveI liveJ
    rcases beforeJ.commit_cases tx with ⟨row, held, committed⟩ | ⟨_, unchangedJ⟩
    · rw [committed] at liveJ
      exact alone knownJ knownI (Ne.symm apart) held liveJ liveI
    · rw [unchangedI] at liveI
      rw [unchangedJ] at liveJ
      exact apart (indexed.committed knownI knownJ liveI liveJ)
  · intro i j owner first second row foundI foundJ apart held alive
    obtain ⟨beforeI, knownI, rfl⟩ := getElem?_commit foundI
    obtain ⟨beforeJ, knownJ, rfl⟩ := getElem?_commit foundJ
    rcases beforeI.commit_cases tx with ⟨_, _, committed⟩ | ⟨_, unchanged⟩
    · rw [committed] at held
      cases held
    rw [unchanged] at held
    have yields := indexed.pending knownI knownJ apart held alive
    rcases beforeJ.commit_cases tx with ⟨version, heldJ, committed⟩ | ⟨_, unchangedJ⟩
    · rw [committed]
      refine ⟨nofun, fun liveJ => ?_⟩
      rw [Option.any_some, yields.1 tx version heldJ] at liveJ
      cases liveJ
    · rw [unchangedJ]
      exact yields

theorem Indexed.abort {table : Table Row} (indexed : Indexed live table) (tx : ℕ) :
    Indexed live (abort table tx) := by
  have same : ∀ slot : Slot Row, (slot.abort tx).committed = slot.committed := by
    intro slot
    rcases slot.abort_cases tx with ⟨_, _, aborted⟩ | ⟨_, unchanged⟩
    · rw [aborted]
    · rw [unchanged]
  constructor
  · intro i j first second foundI foundJ liveI liveJ
    obtain ⟨beforeI, knownI, rfl⟩ := getElem?_abort foundI
    obtain ⟨beforeJ, knownJ, rfl⟩ := getElem?_abort foundJ
    rw [same] at liveI liveJ
    exact indexed.committed knownI knownJ liveI liveJ
  · intro i j owner first second row foundI foundJ apart held alive
    obtain ⟨beforeI, knownI, rfl⟩ := getElem?_abort foundI
    obtain ⟨beforeJ, knownJ, rfl⟩ := getElem?_abort foundJ
    rcases beforeI.abort_cases tx with ⟨_, _, aborted⟩ | ⟨free, unchanged⟩
    · rw [aborted] at held
      cases held
    rw [unchanged] at held
    have yields := indexed.pending knownI knownJ apart held alive
    rcases beforeJ.abort_cases tx with ⟨version, heldJ, aborted⟩ | ⟨_, unchangedJ⟩
    · rw [aborted]
      refine ⟨nofun, fun liveJ => ?_⟩
      obtain ⟨other, again⟩ := yields.2 liveJ
      rw [heldJ] at again
      cases again
      exact absurd held (free row)
    · rw [unchangedJ]
      exact yields

/-! ## Rows that are not live -/

theorem committedRow_applyUpdate {table next : Table Row} {tx : ℕ} {update : Update Row}
    {selected : List ℕ} (applied : applyUpdate table tx update selected = some next) (id : ℕ) :
    committedRow next id = committedRow table id := by
  rcases getElem?_applyUpdate applied id with ⟨_, same⟩ | ⟨slot, row, _, known, _, _, _, written⟩
  · rw [committedRow, same]
    rfl
  · rw [committedRow, written, committedRow, known]
    rfl

theorem committedRow_insert {table : Table Row} {tx : ℕ} {row : Row} (id : ℕ) :
    committedRow (table ++ [⟨none, some (tx, row)⟩]) id = committedRow table id := by
  rw [committedRow, committedRow]
  rcases Nat.lt_or_ge id table.length with inside | outside
  · rw [List.getElem?_append_left inside]
  · rw [List.getElem?_append_right outside, List.getElem?_eq_none outside, List.getElem?_singleton]
    split <;> rfl

theorem committedRow_abort (table : Table Row) (tx id : ℕ) :
    committedRow (abort table tx) id = committedRow table id := by
  rw [committedRow, committedRow, abort, List.getElem?_map]
  cases table[id]? with
  | none => rfl
  | some slot =>
    rcases slot.abort_cases tx with ⟨_, _, aborted⟩ | ⟨_, unchanged⟩
    · rw [Option.map_some, aborted]
      rfl
    · rw [Option.map_some, unchanged]

/-- What a transaction has written of a row after an update, of its own or of another one. -/
theorem pendingRow_applyUpdate {table next : Table Row} {tx : ℕ} {update : Update Row}
    {selected : List ℕ} (applied : applyUpdate table tx update selected = some next) (id : ℕ) :
    (∀ owner, owner ≠ tx → pendingRow next owner id = pendingRow table owner id) ∧
      (pendingRow next tx id = pendingRow table tx id ∧ id ∉ changed table tx update selected ∨
        ∃ row, (id, row) ∈ visible table tx ∧ update.selects id row = true ∧
          pendingRow next tx id = some (update.change row)) := by
  rcases getElem?_applyUpdate applied id with ⟨other, same⟩ |
    ⟨slot, row, _, known, free, seen, chosen, written⟩
  · have rows : ∀ owner, pendingRow next owner id = pendingRow table owner id := by
      intro owner
      rw [pendingRow, same]
      rfl
    exact ⟨fun owner _ => rows owner, .inl ⟨rows tx, other⟩⟩
  · refine ⟨fun owner apart => ?_, .inr ⟨row, mem_visible.mpr ⟨slot, known, seen⟩, chosen,
      pendingRow_eq_some.mpr ⟨_, written, rfl⟩⟩⟩
    have none_ : pendingRow table owner id = none := by
      apply Option.eq_none_iff_forall_ne_some.mpr
      intro version theirs
      obtain ⟨again, found, held⟩ := pendingRow_eq_some.mp theirs
      rw [known] at found
      cases found
      rw [Slot.heldFrom, held] at free
      exact apart (not_not.mp (of_decide_eq_false free))
    rw [none_]
    apply Option.eq_none_iff_forall_ne_some.mpr
    intro version theirs
    exact apart (pendingRow_owner (pendingRow_eq_some.mpr ⟨_, written, rfl⟩) theirs)

theorem pendingRow_insert {table : Table Row} {tx owner id : ℕ} {row version : Row} :
    pendingRow (table ++ [⟨none, some (tx, row)⟩]) owner id = some version ↔
      pendingRow table owner id = some version ∨
        id = table.length ∧ owner = tx ∧ version = row := by
  rw [pendingRow_eq_some, pendingRow_eq_some]
  constructor
  · rintro ⟨slot, found, held⟩
    rcases getElem?_insert found with known | ⟨last, rfl⟩
    · exact .inl ⟨slot, known, held⟩
    · cases held
      exact .inr ⟨last, rfl, rfl⟩
  · rintro (⟨slot, known, held⟩ | ⟨rfl, rfl, rfl⟩)
    · obtain ⟨inside, _⟩ := List.getElem?_eq_some_iff.mp known
      refine ⟨slot, ?_, held⟩
      rw [List.getElem?_append_left inside]
      exact known
    · exact ⟨_, List.getElem?_concat_length, rfl⟩

theorem pendingRow_abort {table : Table Row} {tx owner id : ℕ} {row : Row} :
    pendingRow (abort table tx) owner id = some row ↔
      owner ≠ tx ∧ pendingRow table owner id = some row := by
  rw [pendingRow_eq_some, pendingRow_eq_some]
  constructor
  · rintro ⟨slot, found, held⟩
    obtain ⟨before, known, rfl⟩ := getElem?_abort found
    rcases before.abort_cases tx with ⟨_, _, aborted⟩ | ⟨others, unchanged⟩
    · rw [aborted] at held
      cases held
    · rw [unchanged] at held
      refine ⟨fun mine => others row (mine ▸ held), before, known, held⟩
  · rintro ⟨apart, slot, known, held⟩
    refine ⟨slot, ?_, held⟩
    rw [abort, List.getElem?_map, known, Option.map_some, Slot.abort, held]
    exact congrArg some (if_neg apart)

theorem pendingRow_commit {table : Table Row} {tx owner id : ℕ} {row : Row} :
    pendingRow (commit table tx) owner id = some row ↔
      owner ≠ tx ∧ pendingRow table owner id = some row := by
  rw [pendingRow_eq_some, pendingRow_eq_some]
  constructor
  · rintro ⟨slot, found, held⟩
    obtain ⟨before, known, rfl⟩ := getElem?_commit found
    rcases before.commit_cases tx with ⟨_, _, committed⟩ | ⟨others, unchanged⟩
    · rw [committed] at held
      cases held
    · rw [unchanged] at held
      refine ⟨fun mine => others row (mine ▸ held), before, known, held⟩
  · rintro ⟨apart, slot, known, held⟩
    refine ⟨slot, ?_, held⟩
    rw [commit, List.getElem?_map, known, Option.map_some, Slot.commit, held]
    exact congrArg some (if_neg apart)

/-- **What a commit leaves of a row**: what the transaction wrote, or what was committed. -/
theorem committedRow_commit {table : Table Row} {tx id : ℕ} {row : Row} :
    committedRow (commit table tx) id = some row ↔ pendingRow table tx id = some row ∨
      pendingRow table tx id = none ∧ committedRow table id = some row := by
  rw [← mem_visible_iff, mem_visible, committedRow_eq_some]
  have same : ∀ slot : Slot Row, (slot.commit tx).committed = slot.view tx := by
    intro slot
    rcases slot.commit_cases tx with ⟨version, held, committed⟩ | ⟨others, unchanged⟩
    · rw [committed, Slot.view_of_pending held]
    · rw [unchanged, Slot.view_of_not_pending others]
  constructor
  · rintro ⟨slot, found, committed⟩
    obtain ⟨before, known, rfl⟩ := getElem?_commit found
    rw [same] at committed
    exact ⟨before, known, committed⟩
  · rintro ⟨slot, known, seen⟩
    refine ⟨slot.commit tx, ?_, (same slot).trans seen⟩
    rw [commit, List.getElem?_map, known]
    rfl

/-- A live row that an insert passes by is one that its transaction has written. -/
theorem pendingRow_of_insert {table next : Table Row} {tx id : ℕ} {row former : Row}
    (inserted : insert live table tx row = .done next) (known : committedRow table id = some former)
    (alive : live former = true) :
    ∃ version, pendingRow table tx id = some version ∧ live version = false := by
  obtain ⟨passed, _⟩ := insert_eq_done inserted
  obtain ⟨slot, found, committed⟩ := committedRow_eq_some.mp known
  obtain ⟨quiet, unseen⟩ := passed slot (List.mem_of_getElem? found)
  have yields := Slot.yields_of_insert quiet unseen
  obtain ⟨version, held⟩ := yields.2 (committed ▸ alive)
  exact ⟨version, pendingRow_eq_some.mpr ⟨slot, found, held⟩, yields.1 tx version held⟩

/-- Where a transaction has made a row live, no other one has. -/
theorem Indexed.pendingRow_dead {table : Table Row} (indexed : Indexed live table)
    {i j tx owner : ℕ} {row version : Row} (held : pendingRow table tx i = some row)
    (alive : live row = true) (apart : i ≠ j) (theirs : pendingRow table owner j = some version) :
    live version = false := by
  obtain ⟨first, foundI, heldI⟩ := pendingRow_eq_some.mp held
  obtain ⟨second, foundJ, heldJ⟩ := pendingRow_eq_some.mp theirs
  exact (indexed.pending foundI foundJ apart heldI alive).1 owner version heldJ

/-- Only the rows that are live are locked. -/
structure Lockless (live : Row → Bool) (table : Table Row) : Prop where
  free : ∀ {id : ℕ} {slot : Slot Row} {row : Row}, table[id]? = some slot →
    slot.committed = some row → live row = false → slot.pending = none

theorem Lockless.nil : Lockless live [] where
  free := nofun

/-- A committed row that a transaction has written is live. -/
theorem Lockless.live_of_pendingRow {table : Table Row} (lockless : Lockless live table)
    {tx id : ℕ} {row former : Row} (held : pendingRow table tx id = some row)
    (known : committedRow table id = some former) : live former = true := by
  obtain ⟨slot, found, pending⟩ := pendingRow_eq_some.mp held
  obtain ⟨again, found', committed⟩ := committedRow_eq_some.mp known
  rw [found] at found'
  cases found'
  by_contra dead
  rw [lockless.free found committed (Bool.not_eq_true _ ▸ dead)] at pending
  cases pending

/-- A commit changes no row that is not live. -/
theorem Lockless.committedRow_commit {table : Table Row} (lockless : Lockless live table)
    {tx id : ℕ} {row : Row} (known : committedRow table id = some row) (dead : live row = false) :
    committedRow (commit table tx) id = some row := by
  obtain ⟨slot, found, committed⟩ := committedRow_eq_some.mp known
  have free := lockless.free found committed dead
  have same : slot.commit tx = slot := by
    rw [Slot.commit, free]
  rw [committedRow, ReadCommitted.commit, List.getElem?_map, found, Option.map_some, same]
  exact committed

theorem Lockless.applyUpdate {table next : Table Row} {tx : ℕ} {update : Update Row}
    {selected : List ℕ} (lockless : Lockless live table)
    (alive : ∀ id row, update.selects id row = true → live row = true)
    (applied : applyUpdate table tx update selected = some next) : Lockless live next := by
  constructor
  intro id slot row found committed dead
  rcases getElem?_applyUpdate applied id with ⟨_, same⟩ |
    ⟨before, former, _, known, free, seen, chosen, written⟩
  · rw [same] at found
    exact lockless.free found committed dead
  · rw [written] at found
    cases found
    have none_ := lockless.free known committed dead
    rcases Slot.view_cases free seen with mine | ⟨_, same⟩
    · rw [none_] at mine
      cases mine
    · rw [Slot.write] at committed
      rw [same] at committed
      cases committed
      rw [alive id _ chosen] at dead
      cases dead

theorem Lockless.insert {table next : Table Row} {tx : ℕ} {row : Row}
    (lockless : Lockless live table) (inserted : insert live table tx row = .done next) :
    Lockless live next := by
  obtain ⟨_, rfl⟩ := insert_eq_done inserted
  constructor
  intro id slot former found committed dead
  rcases getElem?_insert found with known | ⟨_, rfl⟩
  · exact lockless.free known committed dead
  · cases committed

theorem Lockless.commit {table : Table Row} (lockless : Lockless live table) (tx : ℕ) :
    Lockless live (commit table tx) := by
  constructor
  intro id slot row found committed dead
  obtain ⟨before, known, rfl⟩ := getElem?_commit found
  rcases before.commit_cases tx with ⟨_, _, written⟩ | ⟨_, unchanged⟩
  · rw [written]
  · rw [unchanged] at committed ⊢
    exact lockless.free known committed dead

theorem Lockless.abort {table : Table Row} (lockless : Lockless live table) (tx : ℕ) :
    Lockless live (abort table tx) := by
  constructor
  intro id slot row found committed dead
  obtain ⟨before, known, rfl⟩ := getElem?_abort found
  rcases before.abort_cases tx with ⟨_, _, aborted⟩ | ⟨_, unchanged⟩
  · rw [aborted]
  · rw [unchanged] at committed ⊢
    exact lockless.free known committed dead

/-! ## Statements in any order -/

/-- One statement on the table, of any transaction, whose updates are for live rows. -/
inductive Statement (live : Row → Bool) : Table Row → Table Row → Prop where
  | update {table next : Table Row} {tx : ℕ} {update : Update Row} {selected : List ℕ}
      (alive : ∀ id row, update.selects id row = true → live row = true)
      (applied : applyUpdate table tx update selected = some next) : Statement live table next
  | insert {table next : Table Row} {tx : ℕ} {row : Row}
      (inserted : insert live table tx row = .done next) : Statement live table next
  | commit {table : Table Row} (tx : ℕ) : Statement live table (commit table tx)
  | abort {table : Table Row} (tx : ℕ) : Statement live table (abort table tx)

/-- Statements one after another. -/
abbrev Statements (live : Row → Bool) : Table Row → Table Row → Prop :=
  Relation.ReflTransGen (Statement live)

/-- **Statements in any order leave one live row.** -/
theorem Indexed.statements {table next : Table Row} (indexed : Indexed live table)
    (made : Statements live table next) : Indexed live next := by
  induction made with
  | refl => exact indexed
  | tail _ last ih =>
    cases last with
    | update alive applied => exact ih.applyUpdate (fun id row chosen _ => alive id row chosen) applied
    | insert inserted => exact ih.insert inserted
    | commit tx => exact ih.commit tx
    | abort tx => exact ih.abort tx

/-- **Statements in any order change no row that is not live.** -/
theorem Lockless.statements {table next : Table Row} (lockless : Lockless live table)
    (made : Statements live table next) :
    Lockless live next ∧ ∀ id row, committedRow table id = some row → live row = false →
      committedRow next id = some row := by
  induction made with
  | refl => exact ⟨lockless, fun _ _ known _ => known⟩
  | tail _ last ih =>
    obtain ⟨locks, kept⟩ := ih
    cases last with
    | update alive applied =>
      refine ⟨locks.applyUpdate alive applied, fun id row known dead => ?_⟩
      rw [committedRow_applyUpdate applied id]
      exact kept id row known dead
    | insert inserted =>
      refine ⟨locks.insert inserted, fun id row known dead => ?_⟩
      obtain ⟨_, rfl⟩ := insert_eq_done inserted
      rw [committedRow_insert]
      exact kept id row known dead
    | commit tx =>
      exact ⟨locks.commit tx, fun id row known dead =>
        locks.committedRow_commit (kept id row known dead) dead⟩
    | abort tx =>
      refine ⟨locks.abort tx, fun id row known dead => ?_⟩
      rw [committedRow_abort]
      exact kept id row known dead

end Koklo.Foundations.ReadCommitted
