import Koklo.Foundations.ReadCommitted
import Koklo.Foundations.Runs

/-!
# The versions of a row, one after another

A relation says which version of a row may follow which. When the transactions only write what may
follow the committed version of a row, the table is orderly (`Orderly`), and a commit replaces each
row by a version that may follow it, or leaves it (`Orderly.commit`). With a transitive relation
this goes from any point of a run to any later one (`run_succeeds`): what a row can no longer
become, it never becomes again.
-/

set_option autoImplicit false

namespace Koklo.Foundations.ReadCommitted

universe u v w

variable {Row : Type u} {follows : Row → Row → Prop}

/-- What a transaction has written of a committed row may follow it. -/
def Orderly (follows : Row → Row → Prop) (table : Table Row) : Prop :=
  ∀ tx id former row, committedRow table id = some former → pendingRow table tx id = some row →
    follows former row

/-- Each committed row is there later, as it was or as a version that may follow it. -/
def Succeeds (follows : Row → Row → Prop) (table next : Table Row) : Prop :=
  ∀ id former, committedRow table id = some former →
    ∃ row, committedRow next id = some row ∧ (row = former ∨ follows former row)

/-- A statement that leaves an orderly table, with each row or one that may follow it. -/
structure Proceeds (follows : Row → Row → Prop) (table next : Table Row) : Prop where
  orderly : Orderly follows next
  succeeds : Succeeds follows table next

theorem Succeeds.of_committedRow {table next : Table Row}
    (same : ∀ id former, committedRow table id = some former → committedRow next id = some former) :
    Succeeds follows table next :=
  fun id former known => ⟨former, same id former known, .inl rfl⟩

theorem Succeeds.refl (table : Table Row) : Succeeds follows table table :=
  .of_committedRow fun _ _ known => known

theorem Succeeds.trans (transitive : ∀ first second third, follows first second →
      follows second third → follows first third)
    {table mid next : Table Row} (before : Succeeds follows table mid)
    (after : Succeeds follows mid next) : Succeeds follows table next := by
  intro id former known
  obtain ⟨version, found, led⟩ := before id former known
  obtain ⟨row, found', led'⟩ := after id version found
  refine ⟨row, found', ?_⟩
  rcases led with rfl | led
  · exact led'
  · rcases led' with rfl | led'
    · exact .inr led
    · exact .inr (transitive former version row led led')

/-- A table that no transaction has written is orderly. -/
theorem Orderly.of_free {table : Table Row} (free : ∀ slot ∈ table, slot.pending = none) :
    Orderly follows table := by
  intro tx id former row _ written
  obtain ⟨slot, found, held⟩ := pendingRow_eq_some.mp written
  rw [free slot (List.mem_of_getElem? found)] at held
  cases held

theorem Orderly.refl {table : Table Row} (orderly : Orderly follows table) :
    Proceeds follows table table :=
  ⟨orderly, .refl table⟩

/-! ## The statements -/

/-- For a transitive relation, an update that leads each row where it may go from the version that
the transaction sees. -/
theorem Orderly.leads_of_visible {table : Table Row} {tx : ℕ} {update : Update Row}
    (orderly : Orderly follows table)
    (transitive : ∀ first second third, follows first second → follows second third →
      follows first third)
    (each : ∀ id row, (id, row) ∈ visible table tx → update.selects id row = true →
      follows row (update.change row))
    (id : ℕ) (former row : Row) (known : committedRow table id = some former)
    (seen : (id, row) ∈ visible table tx) (chosen : update.selects id row = true) :
    follows former (update.change row) := by
  have led := each id row seen chosen
  rcases mem_visible_iff.mp seen with written | ⟨_, same⟩
  · exact transitive former row _ (orderly tx id former row known written) led
  · rw [known] at same
    cases same
    exact led

/-- **An update that leads each committed row where it may go.** -/
theorem Orderly.applyUpdate {table next : Table Row} {tx : ℕ} {update : Update Row}
    {selected : List ℕ} (orderly : Orderly follows table)
    (leads : ∀ id former row, committedRow table id = some former → (id, row) ∈ visible table tx →
      update.selects id row = true → follows former (update.change row))
    (applied : applyUpdate table tx update selected = some next) : Proceeds follows table next := by
  have kept := committedRow_applyUpdate applied
  refine ⟨fun owner id former row known written => ?_, .of_committedRow fun id former known => ?_⟩
  · rw [kept] at known
    obtain ⟨others, own⟩ := pendingRow_applyUpdate applied id
    by_cases mine : owner = tx
    · subst mine
      rcases own with ⟨unchanged, _⟩ | ⟨version, seen, chosen, now⟩
      · rw [unchanged] at written
        exact orderly owner id former row known written
      · rw [now] at written
        cases written
        exact leads id former version known seen chosen
    · rw [others owner mine] at written
      exact orderly owner id former row known written
  · rw [kept]
    exact known

/-- An insert keeps the rows that are there. -/
theorem Orderly.append {table : Table Row} {tx : ℕ} {row : Row} (orderly : Orderly follows table) :
    Proceeds follows table (table ++ [⟨none, some (tx, row)⟩]) := by
  refine ⟨fun owner id former version known written => ?_, .of_committedRow fun id former known => ?_⟩
  · rw [committedRow_insert] at known
    rcases pendingRow_insert.mp written with old | ⟨last, _, _⟩
    · exact orderly owner id former version known old
    · obtain ⟨slot, found, _⟩ := committedRow_eq_some.mp known
      rw [last, List.getElem?_eq_none (Nat.le_refl _)] at found
      cases found
  · rw [committedRow_insert]
    exact known

/-- A new committed row. -/
theorem Orderly.grow {table : Table Row} {new : Row} (orderly : Orderly follows table) :
    Proceeds follows table (table ++ [⟨some new, none⟩]) := by
  have inside : ∀ {id : ℕ} {slot : Slot Row}, table[id]? = some slot →
      (table ++ [⟨some new, none⟩])[id]? = some slot := by
    intro id slot found
    rw [List.getElem?_append_left (List.getElem?_eq_some_iff.mp found).1]
    exact found
  constructor
  · intro owner id former row known written
    obtain ⟨slot, found, held⟩ := pendingRow_eq_some.mp written
    rcases getElem?_insert found with old | ⟨_, rfl⟩
    · obtain ⟨again, found', committed⟩ := committedRow_eq_some.mp known
      rw [inside old] at found'
      cases found'
      exact orderly owner id former row (committedRow_eq_some.mpr ⟨slot, old, committed⟩)
        (pendingRow_eq_some.mpr ⟨slot, old, held⟩)
    · cases held
  · refine .of_committedRow fun id former known => ?_
    obtain ⟨slot, found, committed⟩ := committedRow_eq_some.mp known
    exact committedRow_eq_some.mpr ⟨slot, inside found, committed⟩

/-- **A commit replaces each row by a version that may follow it**, or leaves it. -/
theorem Orderly.commit {table : Table Row} (orderly : Orderly follows table) (tx : ℕ) :
    Proceeds follows table (commit table tx) := by
  constructor
  · intro owner id former row known written
    obtain ⟨apart, written⟩ := pendingRow_commit.mp written
    rcases committedRow_commit.mp known with mine | ⟨_, known⟩
    · exact absurd (pendingRow_owner mine written) apart
    · exact orderly owner id former row known written
  · intro id former known
    cases written : pendingRow table tx id with
    | some row =>
      exact ⟨row, committedRow_commit.mpr (.inl written), .inr (orderly tx id former row known written)⟩
    | none => exact ⟨former, committedRow_commit.mpr (.inr ⟨written, known⟩), .inl rfl⟩

theorem Orderly.abort {table : Table Row} (orderly : Orderly follows table) (tx : ℕ) :
    Proceeds follows table (abort table tx) := by
  constructor
  · intro owner id former row known written
    rw [committedRow_abort] at known
    exact orderly owner id former row known (pendingRow_abort.mp written).2
  · refine .of_committedRow fun id former known => ?_
    rw [committedRow_abort]
    exact known

/-- An update that is a transaction of its own. -/
def autocommit (table : Table Row) (tx : ℕ) (update : Update Row) : Option (Table Row) :=
  (applyUpdate table tx update (select table tx update)).map fun written => commit written tx

theorem Orderly.autocommit {table next : Table Row} {tx : ℕ} {update : Update Row}
    (orderly : Orderly follows table)
    (leads : ∀ id former row, committedRow table id = some former → (id, row) ∈ visible table tx →
      update.selects id row = true → follows former (update.change row))
    (made : autocommit table tx update = some next) : Proceeds follows table next := by
  obtain ⟨written, applied, rfl⟩ := Option.map_eq_some_iff.mp made
  have first := orderly.applyUpdate leads applied
  have second := first.orderly.commit tx
  refine ⟨second.orderly, fun id former known => ?_⟩
  rw [← committedRow_applyUpdate applied] at known
  exact second.succeeds id former known

/-! ## Runs -/

section Runs

variable {State : Type v} {Label : Type w} {step : State → Label → Option State}
  {allowed : State → Label → Prop} {invariant : State → Prop} {table : State → Table Row}

/-- A table whose statements proceed is orderly all along. -/
theorem run_orderly
    (preserved : ∀ s label next, invariant s → step s label = some next → invariant next)
    (proceeds : ∀ s label next, invariant s → Orderly follows (table s) → allowed s label →
      step s label = some next → Proceeds follows (table s) (table next))
    {start last : State} {schedule : List Label} (initial : invariant start)
    (orderly : Orderly follows (table start)) (along : Along step allowed start schedule)
    (reached : run step start schedule = some last) :
    invariant last ∧ Orderly follows (table last) := by
  have both : ∀ s label next, invariant s ∧ Orderly follows (table s) → allowed s label →
      step s label = some next → invariant next ∧ Orderly follows (table next) := by
    rintro s label next ⟨holds, tidy⟩ permitted taken
    have made := proceeds s label next holds tidy permitted taken
    exact ⟨preserved s label next holds taken, made.orderly⟩
  exact run_invariant_along both ⟨initial, orderly⟩ along reached

/-- **Every later row is one that may follow**, for a transitive relation. -/
theorem run_succeeds (transitive : ∀ first second third, follows first second →
      follows second third → follows first third)
    (preserved : ∀ s label next, invariant s → step s label = some next → invariant next)
    (proceeds : ∀ s label next, invariant s → Orderly follows (table s) → allowed s label →
      step s label = some next → Proceeds follows (table s) (table next))
    {start last : State} {schedule : List Label} (initial : invariant start)
    (orderly : Orderly follows (table start)) (along : Along step allowed start schedule)
    (reached : run step start schedule = some last) : Succeeds follows (table start) (table last) := by
  induction schedule generalizing start with
  | nil =>
    cases reached
    exact .refl _
  | cons label schedule ih =>
    obtain ⟨next, taken, rest⟩ := run_cons_eq_some reached
    have first := proceeds start label next initial orderly along.1 taken
    exact first.succeeds.trans transitive
      (ih (preserved start label next initial taken) first.orderly (along.2 next taken) rest)

end Runs

end Koklo.Foundations.ReadCommitted
