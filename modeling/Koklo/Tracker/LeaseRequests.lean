import Koklo.Domain.Lease
import Koklo.Foundations.ReadCommitted
import Koklo.Foundations.Runs
import Mathlib.Data.List.MinMax

/-!
# Lease requests on a ticket

An acquire, a heartbeat or a release reads the clock as it arrives and then runs one transaction,
whose statements take turns with those of the others. A transaction reads the active lease and
decides on what it read (`LeaseDesk.read`), so what it writes is checked again by the guard of its
update (`LeaseUpdate.update`) or by the index on unreleased leases. It may fail at any point, and
its answer goes out when it commits.
-/

set_option autoImplicit false

namespace Koklo.Tracker

open Koklo.Domain Koklo.Foundations Koklo.Foundations.ReadCommitted

/-- A row of `leases`, with its dates as instants. -/
structure LeaseRow where
  holder : Holder
  branch : Text
  worktree : Text
  acquiredAt : ℤ
  heartbeatAt : ℤ
  expiresAt : ℤ
  ttlMs : ℕ
  releasedAt : Option ℤ
deriving DecidableEq

/-- The rows of the partial index `leases_active_ticket_key`. -/
def LeaseRow.unreleased (row : LeaseRow) : Bool := row.releasedAt.isNone

/-- A row as a lease of the domain. -/
def toDomainLease (ticket : Text) (row : LeaseRow) : Lease where
  ticket := ticket
  holder := row.holder
  branch := row.branch
  worktree := row.worktree
  acquiredAt := IsoInstant.isoText row.acquiredAt
  heartbeatAt := IsoInstant.isoText row.heartbeatAt
  expiresAt := IsoInstant.isoText row.expiresAt
  ttlMs := row.ttlMs
  released := !row.unreleased

/-- The row of a lease taken at an instant. `new Date` gives back the instants that the domain wrote
as texts (`acquired_dates`). -/
def newRow (lease : Lease) (now : ℤ) : LeaseRow where
  holder := lease.holder
  branch := lease.branch
  worktree := lease.worktree
  acquiredAt := now
  heartbeatAt := now
  expiresAt := now + lease.ttlMs
  ttlMs := lease.ttlMs
  releasedAt := none

/-! ## Updates -/

/-- The updates of the leases of a ticket. -/
inductive LeaseUpdate where
  | releaseExpired (now : ℤ)
  | extend (id : ℕ) (heartbeatAt expiresAt : ℤ)
  | markReleased (id : ℕ) (releasedAt : ℤ)
deriving DecidableEq

/-- The `where` and the `data` of an update. -/
def LeaseUpdate.update : LeaseUpdate → Update LeaseRow
  | releaseExpired now =>
    ⟨fun _ row => row.unreleased && decide (row.expiresAt ≤ now),
      fun row => { row with releasedAt := some now }⟩
  | extend id heartbeatAt expiresAt =>
    ⟨fun other row => decide (other = id) && (row.unreleased && decide (heartbeatAt < row.expiresAt)),
      fun row => { row with heartbeatAt := heartbeatAt, expiresAt := expiresAt }⟩
  | markReleased id releasedAt =>
    ⟨fun other row => decide (other = id) && row.unreleased,
      fun row => { row with releasedAt := some releasedAt }⟩

/-! ## Transactions -/

/-- What is asked. -/
inductive LeaseDemand where
  | acquire (branch worktree : Text) (ttlMs : Option Number)
  | heartbeat
  | release

/-- A successful answer: the row it is about, its holder, the clock of the request, and the end that
is promised. -/
inductive LeaseAnswer where
  | acquired (id : ℕ) (holder : Holder) (now expiresAt : ℤ)
  | renewed (id : ℕ) (holder : Holder) (now expiresAt : ℤ)
  | released (id : ℕ) (holder : Holder) (now : ℤ)
deriving DecidableEq

/-- What a transaction does next. -/
inductive LeasePhase where
  /-- An update selects its rows. -/
  | updating (update : LeaseUpdate)
  /-- An update that selected its rows takes their locks. -/
  | selected (update : LeaseUpdate) (ids : List ℕ)
  /-- The active lease is read and the domain decides. -/
  | reading
  | inserting (row : LeaseRow)
  | committing (answer : LeaseAnswer)
  | ended

/-- A transaction, with the instant it has read and how far it has come. -/
structure LeaseTransaction where
  demand : LeaseDemand
  holder : Holder
  now : ℤ
  phase : LeasePhase

/-- The leases of a ticket, the transactions on them and the answers given, the last one last. -/
structure LeaseDesk where
  ticket : Text
  table : Table LeaseRow
  transactions : List LeaseTransaction
  answers : List LeaseAnswer

/-- An acquire first releases the expired leases. -/
def LeaseDemand.firstPhase (now : ℤ) : LeaseDemand → LeasePhase
  | acquire _ _ _ => .updating (.releaseExpired now)
  | heartbeat => .reading
  | release => .reading

namespace LeaseDesk

def setPhase (desk : LeaseDesk) (tx : ℕ) (t : LeaseTransaction) (phase : LeasePhase) : LeaseDesk :=
  { desk with transactions := desk.transactions.set tx { t with phase := phase } }

/-- The transaction fails and its writes are undone. -/
def fail (desk : LeaseDesk) (tx : ℕ) (t : LeaseTransaction) : LeaseDesk :=
  { desk with table := abort desk.table tx }.setPhase tx t .ended

/-- The clock is read as the request arrives. -/
def arrive (desk : LeaseDesk) (demand : LeaseDemand) (holder : Holder) (now : ℤ) : LeaseDesk :=
  { desk with transactions := desk.transactions ++ [⟨demand, holder, now, demand.firstPhase now⟩] }

/-- The last acquired lease that is not released and not expired. -/
def activeLease (desk : LeaseDesk) (tx : ℕ) (now : ℤ) : Option (ℕ × LeaseRow) :=
  -- The order of the instants is named: the one Mathlib finds by itself is not computable.
  @List.argmax _ ℤ Int.instLinearOrder.toPreorder Int.decLt (fun found => found.2.acquiredAt)
    ((visible desk.table tx).filter fun found =>
      found.2.unreleased && decide (now < found.2.expiresAt))

/-- The request that the domain checks. -/
def request (desk : LeaseDesk) (holder : Holder) (branch worktree : Text) (ttlMs : Option Number) :
    LeaseRequest where
  ticket := desk.ticket
  holder := holder
  branch := branch
  worktree := worktree
  ttlMs := ttlMs

/-- The active lease is read, and the domain decides on it. -/
def read (desk : LeaseDesk) (tx : ℕ) (t : LeaseTransaction) : LeaseDesk :=
  let now := IsoInstant.isoText t.now
  match t.demand, desk.activeLease tx t.now with
  | .acquire branch worktree ttlMs, active =>
    match acquireLease (active.toList.map fun found => toDomainLease desk.ticket found.2)
      (desk.request t.holder branch worktree ttlMs) now with
    | .ok lease => desk.setPhase tx t (.inserting (newRow lease t.now))
    | .error _ => desk.fail tx t
  | .heartbeat, some (id, row) =>
    match heartbeat (toDomainLease desk.ticket row) t.holder now with
    | .ok lease => desk.setPhase tx t (.updating (.extend id t.now (t.now + lease.ttlMs)))
    | .error _ => desk.fail tx t
  | .release, some (id, row) =>
    match release (toDomainLease desk.ticket row) t.holder with
    | .ok _ => desk.setPhase tx t (.updating (.markReleased id t.now))
    | .error _ => desk.fail tx t
  | .heartbeat, none => desk.fail tx t
  | .release, none => desk.fail tx t

/-- What follows an update, once it is known whether it changed its row. -/
def afterUpdate (desk : LeaseDesk) (tx : ℕ) (t : LeaseTransaction) (update : LeaseUpdate)
    (changed : List ℕ) : LeaseDesk :=
  match update with
  | .releaseExpired _ => desk.setPhase tx t .reading
  | .extend id _ expiresAt =>
    if id ∈ changed then desk.setPhase tx t (.committing (.renewed id t.holder t.now expiresAt))
    else desk.fail tx t
  | .markReleased id _ =>
    if id ∈ changed then desk.setPhase tx t (.committing (.released id t.holder t.now))
    else desk.fail tx t

/-- An update on the rows it selected, unless one of them is locked. -/
def write (desk : LeaseDesk) (tx : ℕ) (t : LeaseTransaction) (update : LeaseUpdate)
    (ids : List ℕ) : Option LeaseDesk :=
  (applyUpdate desk.table tx update.update ids).map fun table =>
    { desk with table := table }.afterUpdate tx t update
      (changed desk.table tx update.update ids)

/-- `ttl_ms` is an `INTEGER`. -/
def maxTtlMs : ℕ := 2 ^ 31 - 1

/-- The new lease is inserted, unless another transaction holds an unreleased one. -/
def insertRow (desk : LeaseDesk) (tx : ℕ) (t : LeaseTransaction) (row : LeaseRow) :
    Option LeaseDesk :=
  if maxTtlMs < row.ttlMs then some (desk.fail tx t)
  else match insert LeaseRow.unreleased desk.table tx row with
    | .waits => none
    | .violates => some (desk.fail tx t)
    | .done table => some ({ desk with table := table }.setPhase tx t
        (.committing (.acquired desk.table.length t.holder t.now row.expiresAt)))

/-- The transaction commits and its answer goes out. -/
def finish (desk : LeaseDesk) (tx : ℕ) (t : LeaseTransaction) (answer : LeaseAnswer) : LeaseDesk :=
  { desk with table := commit desk.table tx, answers := desk.answers ++ [answer] }.setPhase tx t
    .ended

/-- The next statement of a transaction, unless it has to wait. -/
def advance (desk : LeaseDesk) (tx : ℕ) (t : LeaseTransaction) : Option LeaseDesk :=
  match t.phase with
  | .updating update =>
    some (desk.setPhase tx t (.selected update (select desk.table tx update.update)))
  | .selected update ids => desk.write tx t update ids
  | .reading => some (desk.read tx t)
  | .inserting row => desk.insertRow tx t row
  | .committing answer => some (desk.finish tx t answer)
  | .ended => none

end LeaseDesk

/-- What can happen to the transactions. -/
inductive LeaseEvent where
  | arrive (demand : LeaseDemand) (holder : Holder) (now : ℤ)
  | advance (tx : ℕ)
  | abort (tx : ℕ)

/-- The step of an event. -/
def leaseStep (desk : LeaseDesk) : LeaseEvent → Option LeaseDesk
  | .arrive demand holder now => some (desk.arrive demand holder now)
  | .advance tx => desk.transactions[tx]?.bind fun t => desk.advance tx t
  | .abort tx => desk.transactions[tx]?.map fun t => desk.fail tx t

/-- A ticket that no lease was ever taken of. -/
def LeaseDesk.fresh (ticket : Text) : LeaseDesk := ⟨ticket, [], [], []⟩

/-! ## The table -/

/-- **Every update is for unreleased leases only.** -/
theorem LeaseUpdate.alive (update : LeaseUpdate) (id : ℕ) (row : LeaseRow)
    (selected : update.update.selects id row = true) : row.unreleased = true := by
  cases update with
  | releaseExpired now => exact (Bool.and_eq_true_iff.mp selected).1
  | extend other heartbeatAt expiresAt =>
    exact (Bool.and_eq_true_iff.mp (Bool.and_eq_true_iff.mp selected).2).1
  | markReleased other releasedAt => exact (Bool.and_eq_true_iff.mp selected).2

/-- What a step does to the table. -/
abbrev LeaseStatements := Statements LeaseRow.unreleased

theorem statements_abort (table : Table LeaseRow) (tx : ℕ) :
    LeaseStatements table (abort table tx) := .single (.abort tx)

theorem LeaseDesk.read_statements (desk : LeaseDesk) (tx : ℕ) (t : LeaseTransaction) :
    LeaseStatements desk.table (desk.read tx t).table := by
  rw [read]
  split
  · split
    · exact .refl
    · exact statements_abort desk.table tx
  · split
    · exact .refl
    · exact statements_abort desk.table tx
  · split
    · exact .refl
    · exact statements_abort desk.table tx
  · exact statements_abort desk.table tx
  · exact statements_abort desk.table tx

theorem LeaseDesk.afterUpdate_statements (desk : LeaseDesk) (tx : ℕ) (t : LeaseTransaction)
    (update : LeaseUpdate) (changed : List ℕ) :
    LeaseStatements desk.table (desk.afterUpdate tx t update changed).table := by
  cases update with
  | releaseExpired now => exact .refl
  | extend id heartbeatAt expiresAt =>
    rw [afterUpdate]
    split
    · exact .refl
    · exact statements_abort desk.table tx
  | markReleased id releasedAt =>
    rw [afterUpdate]
    split
    · exact .refl
    · exact statements_abort desk.table tx

/-- **Each step runs statements of the table.** -/
theorem leaseStep_statements {desk next : LeaseDesk} {event : LeaseEvent}
    (taken : leaseStep desk event = some next) : LeaseStatements desk.table next.table := by
  cases event with
  | arrive demand holder now =>
    cases taken
    exact .refl
  | abort tx =>
    obtain ⟨t, _, rfl⟩ := Option.map_eq_some_iff.mp taken
    exact statements_abort desk.table tx
  | advance tx =>
    obtain ⟨t, _, taken⟩ := Option.bind_eq_some_iff.mp taken
    rw [LeaseDesk.advance] at taken
    split at taken
    · cases taken
      exact .refl
    · rename_i update ids _
      obtain ⟨table, applied, rfl⟩ := Option.map_eq_some_iff.mp taken
      have after := ({ desk with table := table } : LeaseDesk).afterUpdate_statements tx t update
        (changed desk.table tx update.update ids)
      exact .head (.update update.alive applied) after
    · cases taken
      exact desk.read_statements tx t
    · rename_i row _
      rw [LeaseDesk.insertRow] at taken
      split at taken
      · cases taken
        exact statements_abort desk.table tx
      split at taken
      · cases taken
      · cases taken
        exact statements_abort desk.table tx
      · rename_i table inserted
        cases taken
        exact .single (.insert inserted)
    · cases taken
      exact .single (.commit tx)
    · cases taken

/-! ## What the domain decides -/

/-- The dates of an accepted lease are the instants of its row. -/
theorem acquired_dates {leases : List Lease} {request : LeaseRequest} {now : ℤ} {lease : Lease}
    (accepted : acquireLease leases request (IsoInstant.isoText now) = .ok lease) :
    toDomainLease request.ticket (newRow lease now) = lease ∧ lease.holder = request.holder := by
  obtain ⟨nowMs, ttlMs, expiresAt, parsed, _, _, written, rfl⟩ := acquireLease_eq_ok accepted
  cases parseInstant_isoText parsed
  rw [formatInstant_eq_ok written]
  exact ⟨rfl, rfl⟩

/-- A lease is asked for. -/
def LeaseDemand.isAcquire : LeaseDemand → Bool
  | acquire _ _ _ => true
  | heartbeat => false
  | release => false

theorem LeaseDesk.activeLease_eq_some {desk : LeaseDesk} {tx id : ℕ} {now : ℤ} {row : LeaseRow}
    (active : desk.activeLease tx now = some (id, row)) : (id, row) ∈ visible desk.table tx :=
  (List.mem_filter.mp (List.argmax_mem active)).1

/-- **What a transaction does with the active lease**: it fails, inserts a row of its holder, or
updates a row of its holder that it sees. -/
theorem LeaseDesk.read_cases (desk : LeaseDesk) (tx : ℕ) (t : LeaseTransaction) :
    desk.read tx t = desk.fail tx t ∨
      (t.demand.isAcquire = true ∧ ∃ lease : Lease, lease.holder = t.holder ∧
        desk.read tx t = desk.setPhase tx t (.inserting (newRow lease t.now))) ∨
      (t.demand.isAcquire = false ∧ ∃ id row, (id, row) ∈ visible desk.table tx ∧
        row.holder = t.holder ∧
        (desk.read tx t = desk.setPhase tx t (.updating (.extend id t.now (t.now + row.ttlMs))) ∨
          desk.read tx t = desk.setPhase tx t (.updating (.markReleased id t.now)))) := by
  rw [read]
  split
  · rename_i branch worktree ttlMs active demand
    split
    · rename_i lease accepted
      rw [demand]
      exact .inr (.inl ⟨rfl, lease, (acquired_dates accepted).2, rfl⟩)
    · exact .inl rfl
  · rename_i id row demand active
    split
    · rename_i lease accepted
      obtain ⟨_, _, _, held, _, _, rfl⟩ := heartbeat_eq_ok accepted
      rw [demand]
      exact .inr (.inr ⟨rfl, id, row, activeLease_eq_some active, held, .inl rfl⟩)
    · exact .inl rfl
  · rename_i id row demand active
    split
    · rename_i lease accepted
      rw [demand]
      exact .inr (.inr ⟨rfl, id, row, activeLease_eq_some active, (release_eq_ok accepted).1,
        .inr rfl⟩)
    · exact .inl rfl
  · exact .inl rfl
  · exact .inl rfl

end Koklo.Tracker
