import Koklo.Tracker.LeaseRequests

/-!
# Promised leases

An answer to an acquire or to a heartbeat promises its holder an end. Whatever the order of the
statements, one lease of the ticket at most is unreleased, and a released lease never changes
(`lease_promises_kept`). The promise is kept when requests write in the order of their clocks
(`InClockOrder`): a heartbeat does not renew a lease that a later one has renewed, and an acquire is
not older than a lease that another acquire has already released as expired. A heartbeat that was
overtaken brings the end back, and another holder takes the lease before the promised end
(`promises_broken`).
-/

set_option autoImplicit false

namespace Koklo.Tracker

open Koklo.Domain Koklo.Foundations Koklo.Foundations.ReadCommitted

/-- The lease, the holder and the end of a promise. -/
def LeaseAnswer.promise : LeaseAnswer → Option (ℕ × Holder × ℤ)
  | acquired id holder _ expiresAt => some (id, holder, expiresAt)
  | renewed id holder _ expiresAt => some (id, holder, expiresAt)
  | released _ _ _ => none

/-- The holder released the lease. -/
def Released (answers : List LeaseAnswer) (id : ℕ) (holder : Holder) : Prop :=
  ∃ now, LeaseAnswer.released id holder now ∈ answers

/-- At an instant, nothing is promised to another holder but leases that they released. -/
def Clear (answers : List LeaseAnswer) (holder : Holder) (now : ℤ) : Prop :=
  ∀ answer ∈ answers, ∀ id other expiresAt, answer.promise = some (id, other, expiresAt) →
    other ≠ holder → now < expiresAt → Released answers id other

/-- Every acquire that succeeded was clear. -/
def PromisesKept (answers : List LeaseAnswer) : Prop :=
  ∀ n id holder now expiresAt, answers[n]? = some (.acquired id holder now expiresAt) →
    Clear (answers.take n) holder now

/-- A heartbeat renews no lease that a later one has renewed, and an acquire is not older than the
end of a lease of another holder that was released as expired. -/
def InClockOrder (desk : LeaseDesk) : LeaseEvent → Prop
  | .advance tx => ∀ t, desk.transactions[tx]? = some t →
    match t.phase with
    | .selected (.extend id _ _) _ => ∀ row, committedRow desk.table id = some row →
        row.unreleased = true → t.now < row.expiresAt → row.heartbeatAt ≤ t.now
    | .inserting _ => ∀ id row, committedRow desk.table id = some row → row.holder ≠ t.holder →
        ∀ releasedAt, row.releasedAt = some releasedAt → row.expiresAt ≤ releasedAt →
          row.expiresAt ≤ t.now
    | _ => True
  | _ => True

/-- The test of the order of the clocks, on the committed rows. -/
def LeaseDesk.inClockOrder (desk : LeaseDesk) (t : LeaseTransaction) : Bool :=
  match t.phase with
  | .selected (.extend id _ _) _ => (committedRow desk.table id).all fun row =>
      decide (row.unreleased = true → t.now < row.expiresAt → row.heartbeatAt ≤ t.now)
  | .inserting _ => (committedRows desk.table).all fun known =>
      decide (known.2.holder ≠ t.holder → ∀ releasedAt ∈ known.2.releasedAt,
        known.2.expiresAt ≤ releasedAt → known.2.expiresAt ≤ t.now)
  | _ => true

theorem inClockOrder_iff {desk : LeaseDesk} {tx : ℕ} : InClockOrder desk (.advance tx) ↔
    ∀ t ∈ desk.transactions[tx]?, desk.inClockOrder t = true := by
  refine forall₂_congr fun t found => ?_
  rw [LeaseDesk.inClockOrder]
  split
  · rw [Option.all_eq_true]
    exact forall₂_congr fun row known => decide_eq_true_iff.symm
  · rw [List.all_eq_true, Prod.forall]
    refine forall₂_congr fun id row => ?_
    rw [mem_committedRows, decide_eq_true_iff]
    rfl
  · exact iff_of_true trivial rfl

instance (desk : LeaseDesk) : (event : LeaseEvent) → Decidable (InClockOrder desk event)
  | .advance _ => decidable_of_iff _ inClockOrder_iff.symm
  | .arrive _ _ _ | .abort _ => .isTrue trivial

/-! ## Open transactions -/

/-- What a transaction may have written of a row, over what is committed. -/
inductive Pending (t : LeaseTransaction) (id : ℕ) : Option LeaseRow → LeaseRow → Prop where
  | swept {former : LeaseRow} (acquires : t.demand.isAcquire = true)
      (phase : t.phase = .reading ∨ (∃ row, t.phase = .inserting row) ∨
        ∃ other expiresAt, t.phase = .committing (.acquired other t.holder t.now expiresAt))
      (ended : former.expiresAt ≤ t.now) :
      Pending t id (some former) { former with releasedAt := some t.now }
  | inserted {row : LeaseRow}
      (phase : ∃ expiresAt, t.phase = .committing (.acquired id t.holder t.now expiresAt))
      (regular : row.expiresAt = row.heartbeatAt + row.ttlMs) : Pending t id none row
  | renewed {former : LeaseRow}
      (phase : ∃ expiresAt, t.phase = .committing (.renewed id t.holder t.now expiresAt))
      (inOrder : former.heartbeatAt ≤ t.now) : Pending t id (some former)
        { former with heartbeatAt := t.now, expiresAt := t.now + former.ttlMs }
  | freed {former : LeaseRow} (holder : former.holder = t.holder)
      (phase : t.phase = .committing (.released id t.holder t.now)) :
      Pending t id (some former) { former with releasedAt := some t.now }

/-- A transaction that has written is past its update. -/
theorem Pending.phase_of_isAcquire {t : LeaseTransaction} {id : ℕ} {former : Option LeaseRow}
    {row : LeaseRow} (pending : Pending t id former row) :
    (t.demand.isAcquire = true ∧ (t.phase = .reading ∨ ∃ row, t.phase = .inserting row)) ∨
      ∃ answer, t.phase = .committing answer := by
  cases pending with
  | swept acquires phase ended =>
    rcases phase with reads | inserts | ⟨other, expiresAt, commits⟩
    · exact .inl ⟨acquires, .inl reads⟩
    · exact .inl ⟨acquires, .inr inserts⟩
    · exact .inr ⟨_, commits⟩
  | inserted phase regular =>
    obtain ⟨_, commits⟩ := phase
    exact .inr ⟨_, commits⟩
  | renewed phase inOrder =>
    obtain ⟨_, commits⟩ := phase
    exact .inr ⟨_, commits⟩
  | freed holder phase => exact .inr ⟨_, phase⟩

/-- An update is for a row of the request's holder, at the request's clock. -/
def LeaseDesk.Aimed (desk : LeaseDesk) (t : LeaseTransaction) : LeaseUpdate → Prop
  | .releaseExpired now => now = t.now ∧ t.demand.isAcquire = true
  | .extend id heartbeatAt expiresAt => heartbeatAt = t.now ∧
      ∃ row, committedRow desk.table id = some row ∧ row.holder = t.holder ∧
        expiresAt = t.now + row.ttlMs
  | .markReleased id releasedAt => releasedAt = t.now ∧
      ∃ row, committedRow desk.table id = some row ∧ row.holder = t.holder

/-- What an answer promises is written and about to be committed, and an acquire is clear. -/
structure LeaseDesk.Answered (desk : LeaseDesk) (tx : ℕ) (answer : LeaseAnswer) : Prop where
  written : ∀ id holder expiresAt, answer.promise = some (id, holder, expiresAt) →
    ∃ row, pendingRow desk.table tx id = some row ∧ row.unreleased = true ∧ row.holder = holder ∧
      row.expiresAt = expiresAt
  clear : ∀ id holder now expiresAt, answer = .acquired id holder now expiresAt →
    Clear desk.answers holder now

/-- What a transaction knows at its phase. -/
def LeaseDesk.Prepared (desk : LeaseDesk) (tx : ℕ) (t : LeaseTransaction) : Prop :=
  match t.phase with
  | .updating update => desk.Aimed t update
  | .selected update _ => desk.Aimed t update
  | .inserting row => row.holder = t.holder ∧ row.unreleased = true ∧
      row.expiresAt = row.heartbeatAt + row.ttlMs
  | .committing answer => desk.Answered tx answer
  | .reading => True
  | .ended => True

/-- What is committed keeps a promise: the lease does not end before, unless its holder released
it. -/
def LeaseDesk.Stands (desk : LeaseDesk) (id : ℕ) (holder : Holder) (expiresAt : ℤ) : Prop :=
  ∃ row, committedRow desk.table id = some row ∧ row.holder = holder ∧
    expiresAt ≤ row.expiresAt ∧ ∀ releasedAt, row.releasedAt = some releasedAt →
      row.expiresAt ≤ releasedAt ∨ Released desk.answers id holder

/-- The unique index holds, leases expire a ttl after their heartbeat, and what is pending is written
by a transaction under way. -/
structure LeaseDesk.Lawful (desk : LeaseDesk) : Prop where
  indexed : Indexed LeaseRow.unreleased desk.table
  lockless : Lockless LeaseRow.unreleased desk.table
  regular : ∀ id row, committedRow desk.table id = some row →
    row.expiresAt = row.heartbeatAt + row.ttlMs
  pending : ∀ id tx row, pendingRow desk.table tx id = some row →
    ∃ t, desk.transactions[tx]? = some t ∧ Pending t id (committedRow desk.table id) row
  prepared : ∀ tx t, desk.transactions[tx]? = some t → desk.Prepared tx t
  stands : ∀ answer ∈ desk.answers, ∀ id holder expiresAt,
    answer.promise = some (id, holder, expiresAt) → desk.Stands id holder expiresAt
  kept : PromisesKept desk.answers

/-! ## What the steps of other transactions leave -/

theorem LeaseDesk.Aimed.mono {desk next : LeaseDesk} {t : LeaseTransaction} {update : LeaseUpdate}
    (aimed : desk.Aimed t update)
    (rows : ∀ id row, committedRow desk.table id = some row →
      ∃ later, committedRow next.table id = some later ∧ later.holder = row.holder ∧
        later.ttlMs = row.ttlMs) : next.Aimed t update := by
  cases update with
  | releaseExpired now => exact aimed
  | extend id heartbeatAt expiresAt =>
    obtain ⟨same, row, known, mine, ends⟩ := aimed
    obtain ⟨later, known', holder, ttl⟩ := rows id row known
    exact ⟨same, later, known', holder.trans mine, by rw [ttl]; exact ends⟩
  | markReleased id releasedAt =>
    obtain ⟨same, row, known, mine⟩ := aimed
    obtain ⟨later, known', holder, _⟩ := rows id row known
    exact ⟨same, later, known', holder.trans mine⟩

theorem LeaseDesk.Prepared.mono {desk next : LeaseDesk} {tx : ℕ} {t : LeaseTransaction}
    (prepared : desk.Prepared tx t)
    (rows : ∀ id row, committedRow desk.table id = some row →
      ∃ later, committedRow next.table id = some later ∧ later.holder = row.holder ∧
        later.ttlMs = row.ttlMs)
    (pending : ∀ id row, pendingRow desk.table tx id = some row →
      pendingRow next.table tx id = some row)
    (clear : ∀ id holder now expiresAt, t.phase = .committing (.acquired id holder now expiresAt) →
      Clear desk.answers holder now → Clear next.answers holder now) : next.Prepared tx t := by
  rw [LeaseDesk.Prepared] at prepared ⊢
  cases phase : t.phase with
  | updating update =>
    rw [phase] at prepared
    exact LeaseDesk.Aimed.mono prepared rows
  | selected update ids =>
    rw [phase] at prepared
    exact LeaseDesk.Aimed.mono prepared rows
  | reading => trivial
  | inserting row =>
    rw [phase] at prepared
    exact prepared
  | committing answer =>
    rw [phase] at prepared
    constructor
    · intro id holder expiresAt promised
      obtain ⟨row, held, facts⟩ := prepared.written id holder expiresAt promised
      exact ⟨row, pending id row held, facts⟩
    · intro id holder now expiresAt same
      apply clear id holder now expiresAt (phase.trans (congrArg _ same))
      exact prepared.clear id holder now expiresAt same
  | ended => trivial

/-- A step that commits nothing and gives no answer keeps the desk lawful when the transaction that
takes it stays prepared. -/
theorem LeaseDesk.Lawful.of_step {desk : LeaseDesk} (lawful : desk.Lawful) (next : LeaseDesk)
    (tx : ℕ) (t' : LeaseTransaction) (transactions : next.transactions = desk.transactions.set tx t')
    (answers : next.answers = desk.answers)
    (committed : ∀ id, committedRow next.table id = committedRow desk.table id)
    (others : ∀ owner id row, owner ≠ tx →
      (pendingRow next.table owner id = some row ↔ pendingRow desk.table owner id = some row))
    (own : ∀ id row, pendingRow next.table tx id = some row →
      tx < desk.transactions.length ∧ Pending t' id (committedRow desk.table id) row)
    (prepared : next.Prepared tx t') (made : LeaseStatements desk.table next.table) :
    next.Lawful := by
  constructor
  · exact lawful.indexed.statements made
  · exact (lawful.lockless.statements made).1
  · intro id row known
    rw [committed] at known
    exact lawful.regular id row known
  · intro id owner row held
    rw [committed, transactions]
    by_cases mine : owner = tx
    · rw [mine] at held ⊢
      obtain ⟨inside, pending⟩ := own id row held
      exact ⟨t', List.getElem?_set_self inside, pending⟩
    · rw [List.getElem?_set_ne (Ne.symm mine)]
      exact lawful.pending id owner row ((others owner id row mine).mp held)
  · intro owner other found
    rw [transactions] at found
    by_cases mine : owner = tx
    · rw [mine] at found ⊢
      obtain ⟨inside, same⟩ := List.getElem?_eq_some_iff.mp found
      rw [List.getElem_set_self] at same
      rw [← same]
      exact prepared
    · rw [List.getElem?_set_ne (Ne.symm mine)] at found
      apply (lawful.prepared owner other found).mono
      · intro id row known
        exact ⟨row, (committed id).trans known, rfl, rfl⟩
      · intro id row held
        exact (others owner id row mine).mpr held
      · intro _ _ _ _ _ clear
        rw [answers]
        exact clear
  · intro answer member id holder expiresAt promised
    rw [answers] at member
    rw [LeaseDesk.Stands, committed, answers]
    exact lawful.stands answer member id holder expiresAt promised
  · rw [answers]
    exact lawful.kept

/-! ## The steps -/

section Steps

variable {desk next : LeaseDesk} {tx : ℕ} {t : LeaseTransaction}

/-- A row that a transaction has written tells what it does next. -/
theorem LeaseDesk.Lawful.own (lawful : desk.Lawful) (found : desk.transactions[tx]? = some t)
    {id : ℕ} {row : LeaseRow} (held : pendingRow desk.table tx id = some row) :
    tx < desk.transactions.length ∧ Pending t id (committedRow desk.table id) row := by
  obtain ⟨again, found', pending⟩ := lawful.pending id tx row held
  rw [found] at found'
  cases found'
  obtain ⟨inside, _⟩ := List.getElem?_eq_some_iff.mp found
  exact ⟨inside, pending⟩

/-- Before its update, a transaction has written nothing. -/
theorem LeaseDesk.Lawful.own_none (lawful : desk.Lawful) (found : desk.transactions[tx]? = some t)
    (early : ∀ answer, t.phase ≠ .committing answer)
    (other : t.demand.isAcquire = true → t.phase ≠ .reading ∧ ∀ row, t.phase ≠ .inserting row)
    (id : ℕ) : pendingRow desk.table tx id = none := by
  apply Option.eq_none_iff_forall_ne_some.mpr
  intro row held
  rcases (lawful.own found held).2.phase_of_isAcquire with ⟨acquires, phase⟩ | ⟨answer, phase⟩
  · obtain ⟨reads, inserts⟩ := other acquires
    rcases phase with reading | ⟨row, inserting⟩
    · exact reads reading
    · exact inserts row inserting
  · exact early answer phase

theorem LeaseDesk.Lawful.fail (lawful : desk.Lawful) (tx : ℕ) (t : LeaseTransaction) :
    (desk.fail tx t).Lawful := by
  apply lawful.of_step (desk.fail tx t) tx { t with phase := .ended } rfl rfl
  · exact fun id => committedRow_abort desk.table tx id
  · exact fun owner id row apart => pendingRow_abort.trans (and_iff_right apart)
  · exact fun id row held => absurd rfl (pendingRow_abort.mp held).1
  · trivial
  · exact statements_abort desk.table tx

theorem LeaseDesk.Lawful.arrive (lawful : desk.Lawful) (demand : LeaseDemand) (holder : Holder)
    (now : ℤ) : (desk.arrive demand holder now).Lawful := by
  constructor
  · exact lawful.indexed
  · exact lawful.lockless
  · exact lawful.regular
  · intro id owner row held
    obtain ⟨t, found, pending⟩ := lawful.pending id owner row held
    obtain ⟨inside, _⟩ := List.getElem?_eq_some_iff.mp found
    exact ⟨t, (List.getElem?_append_left inside).trans found, pending⟩
  · intro owner t found
    rcases Nat.lt_or_ge owner desk.transactions.length with inside | outside
    · have known : desk.transactions[owner]? = some t :=
        (List.getElem?_append_left inside).symm.trans found
      apply (lawful.prepared owner t known).mono
      · exact fun id row known => ⟨row, known, rfl, rfl⟩
      · exact fun _ _ held => held
      · exact fun _ _ _ _ _ clear => clear
    · rw [LeaseDesk.arrive, List.getElem?_append_right outside] at found
      obtain ⟨_, same⟩ := List.getElem?_eq_some_iff.mp found
      rw [List.getElem_singleton] at same
      rw [← same]
      cases demand with
      | acquire branch worktree ttlMs => exact ⟨rfl, rfl⟩
      | heartbeat => trivial
      | release => trivial
  · exact lawful.stands
  · exact lawful.kept

/-- A step that only changes what its transaction does next. -/
theorem LeaseDesk.Lawful.setPhase (lawful : desk.Lawful) (phase : LeasePhase)
    (own : ∀ id row, pendingRow desk.table tx id = some row →
      tx < desk.transactions.length ∧
        Pending { t with phase := phase } id (committedRow desk.table id) row)
    (prepared : (desk.setPhase tx t phase).Prepared tx { t with phase := phase }) :
    (desk.setPhase tx t phase).Lawful := by
  apply lawful.of_step (desk.setPhase tx t phase) tx { t with phase := phase } rfl rfl
  · exact fun _ => rfl
  · exact fun _ _ _ _ => Iff.rfl
  · exact own
  · exact prepared
  · exact .refl

/-- The same for a transaction that has written nothing. -/
theorem LeaseDesk.Lawful.setPhase_of_none (lawful : desk.Lawful) (phase : LeasePhase)
    (none_ : ∀ id, pendingRow desk.table tx id = none)
    (prepared : (desk.setPhase tx t phase).Prepared tx { t with phase := phase }) :
    (desk.setPhase tx t phase).Lawful := by
  apply lawful.setPhase phase
  · intro id row held
    rw [none_ id] at held
    cases held
  · exact prepared

theorem LeaseDesk.Lawful.select (lawful : desk.Lawful) (found : desk.transactions[tx]? = some t)
    {update : LeaseUpdate} (phase : t.phase = .updating update) (ids : List ℕ) :
    (desk.setPhase tx t (.selected update ids)).Lawful := by
  have prepared := lawful.prepared tx t found
  rw [LeaseDesk.Prepared, phase] at prepared
  apply lawful.setPhase_of_none (.selected update ids)
  · apply lawful.own_none found
    · exact fun _ => by simp [phase]
    · exact fun _ => ⟨by simp [phase], fun _ => by simp [phase]⟩
  · exact LeaseDesk.Aimed.mono prepared fun id row known => ⟨row, known, rfl, rfl⟩

theorem LeaseDesk.Lawful.read (lawful : desk.Lawful) (found : desk.transactions[tx]? = some t)
    (phase : t.phase = .reading) : (desk.read tx t).Lawful := by
  rcases desk.read_cases tx t with failed | ⟨acquires, lease, mine, next⟩ |
    ⟨other, id, row, seen, mine, next⟩
  · rw [failed]
    exact lawful.fail tx t
  · rw [next]
    apply lawful.setPhase (.inserting (newRow lease t.now))
    · intro id row held
      obtain ⟨inside, pending⟩ := lawful.own found held
      refine ⟨inside, ?_⟩
      generalize committedRow desk.table id = former at pending ⊢
      cases pending with
      | swept _ _ ended => exact .swept acquires (.inr (.inl ⟨_, rfl⟩)) ended
      | inserted commits => exact absurd commits (by simp [phase])
      | renewed commits => exact absurd commits (by simp [phase])
      | freed _ commits => exact absurd commits (by simp [phase])
    · exact ⟨mine, rfl, rfl⟩
  · have none_ := lawful.own_none found (fun _ => by simp [phase])
      (fun acquires => by rw [other] at acquires; cases acquires)
    have known : committedRow desk.table id = some row := by
      rcases mem_visible_iff.mp seen with held | ⟨_, known⟩
      · rw [none_ id] at held
        cases held
      · exact known
    rcases next with extends_ | frees
    · rw [extends_]
      apply lawful.setPhase_of_none _ none_
      exact ⟨rfl, row, known, mine, rfl⟩
    · rw [frees]
      apply lawful.setPhase_of_none _ none_
      exact ⟨rfl, row, known, mine⟩

/-- What an update writes, for a transaction that had written nothing. -/
theorem written_of_applyUpdate {table : Table LeaseRow} {update : Update LeaseRow} {ids : List ℕ}
    (none_ : ∀ id, pendingRow desk.table tx id = none)
    (applied : applyUpdate desk.table tx update ids = some table) (id : ℕ) :
    (id ∉ changed desk.table tx update ids ∧ pendingRow table tx id = none) ∨
      ∃ former, committedRow desk.table id = some former ∧ update.selects id former = true ∧
        pendingRow table tx id = some (update.change former) := by
  rcases (pendingRow_applyUpdate applied id).2 with ⟨same, other⟩ | ⟨former, seen, chosen, written⟩
  · exact .inl ⟨other, same.trans (none_ id)⟩
  · refine .inr ⟨former, ?_, chosen, written⟩
    rcases mem_visible_iff.mp seen with held | ⟨_, known⟩
    · rw [none_ id] at held
      cases held
    · exact known

/-- A step that applies an update and then changes what its transaction does next. -/
theorem LeaseDesk.Lawful.applied (lawful : desk.Lawful) {update : LeaseUpdate} {ids : List ℕ}
    {table : Table LeaseRow} (applied : applyUpdate desk.table tx update.update ids = some table)
    (phase : LeasePhase)
    (own : ∀ id row, pendingRow table tx id = some row →
      Pending { t with phase := phase } id (committedRow desk.table id) row)
    (inside : tx < desk.transactions.length)
    (prepared : ({ desk with table := table }.setPhase tx t phase).Prepared tx
      { t with phase := phase }) : ({ desk with table := table }.setPhase tx t phase).Lawful := by
  apply lawful.of_step (({ desk with table := table } : LeaseDesk).setPhase tx t phase) tx
    { t with phase := phase } rfl rfl
  · exact fun id => committedRow_applyUpdate applied id
  · intro owner id row apart
    rw [LeaseDesk.setPhase, (pendingRow_applyUpdate applied id).1 owner apart]
  · exact fun id row held => ⟨inside, own id row held⟩
  · exact prepared
  · exact .single (.update update.alive applied)

/-- A step that applies an update that changes nothing, and fails. -/
theorem LeaseDesk.Lawful.appliedInVain (lawful : desk.Lawful) {update : LeaseUpdate}
    {ids : List ℕ} {table : Table LeaseRow}
    (applied : applyUpdate desk.table tx update.update ids = some table) :
    ({ desk with table := table }.fail tx t).Lawful := by
  apply lawful.of_step (({ desk with table := table } : LeaseDesk).fail tx t) tx
    { t with phase := .ended } rfl rfl
  · exact fun id => (committedRow_abort table tx id).trans (committedRow_applyUpdate applied id)
  · intro owner id row apart
    rw [LeaseDesk.fail, LeaseDesk.setPhase, pendingRow_abort,
      (pendingRow_applyUpdate applied id).1 owner apart]
    exact and_iff_right apart
  · exact fun id row held => absurd rfl (pendingRow_abort.mp held).1
  · trivial
  · exact .head (.update update.alive applied) (statements_abort table tx)

theorem LeaseDesk.Lawful.write (lawful : desk.Lawful) (found : desk.transactions[tx]? = some t)
    {update : LeaseUpdate} {ids : List ℕ} (phase : t.phase = .selected update ids)
    (inOrder : InClockOrder desk (.advance tx)) (taken : desk.write tx t update ids = some next) :
    next.Lawful := by
  obtain ⟨table, applied, rfl⟩ := Option.map_eq_some_iff.mp taken
  obtain ⟨inside, _⟩ := List.getElem?_eq_some_iff.mp found
  have none_ := lawful.own_none found (fun _ => by simp [phase])
    (fun _ => ⟨by simp [phase], fun _ => by simp [phase]⟩)
  have written := written_of_applyUpdate none_ applied
  have prepared := lawful.prepared tx t found
  rw [LeaseDesk.Prepared, phase] at prepared
  have ordered := inOrder t found
  rw [phase] at ordered
  cases update with
  | releaseExpired now =>
    obtain ⟨rfl, acquires⟩ := prepared
    apply lawful.applied applied .reading ?_ inside trivial
    intro id row held
    rcases written id with ⟨_, nothing⟩ | ⟨former, known, chosen, made⟩
    · rw [nothing] at held
      cases held
    · rw [made] at held
      cases held
      rw [known]
      exact .swept acquires (.inl rfl) (of_decide_eq_true (Bool.and_eq_true_iff.mp chosen).2)
  | extend id heartbeatAt expiresAt =>
    obtain ⟨rfl, row, known, mine, rfl⟩ := prepared
    rw [LeaseDesk.afterUpdate]
    split
    · rename_i member
      have chosen_ : ∀ {other : ℕ} {former : LeaseRow},
          (LeaseUpdate.extend id t.now (t.now + row.ttlMs)).update.selects other former = true →
            other = id ∧ former.unreleased = true ∧ t.now < former.expiresAt := by
        intro other former chosen
        obtain ⟨same, alive⟩ := Bool.and_eq_true_iff.mp chosen
        obtain ⟨unreleased, later⟩ := Bool.and_eq_true_iff.mp alive
        exact ⟨of_decide_eq_true same, unreleased, of_decide_eq_true later⟩
      apply lawful.applied applied _ ?_ inside
      · constructor
        · intro other holder expiresAt promised
          cases promised
          rcases written id with ⟨vain, _⟩ | ⟨former, known', chosen, made⟩
          · exact absurd member vain
          · rw [known] at known'
            cases known'
            exact ⟨_, made, (chosen_ chosen).2.1, mine, rfl⟩
        · exact fun _ _ _ _ same => (by cases same)
      · intro other version held
        rcases written other with ⟨_, nothing⟩ | ⟨former, known', chosen, made⟩
        · rw [nothing] at held
          cases held
        · rw [made] at held
          cases held
          obtain ⟨rfl, unreleased, later⟩ := chosen_ chosen
          rw [known] at known'
          cases known'
          rw [known]
          exact .renewed ⟨_, rfl⟩ (ordered row known unreleased later)
    · exact lawful.appliedInVain applied
  | markReleased id releasedAt =>
    obtain ⟨rfl, row, known, mine⟩ := prepared
    rw [LeaseDesk.afterUpdate]
    split
    · apply lawful.applied applied _ ?_ inside
      · exact ⟨fun _ _ _ same => (by cases same), fun _ _ _ _ same => (by cases same)⟩
      · intro other version held
        rcases written other with ⟨_, nothing⟩ | ⟨former, known', chosen, made⟩
        · rw [nothing] at held
          cases held
        · rw [made] at held
          cases held
          cases of_decide_eq_true (Bool.and_eq_true_iff.mp chosen).1
          rw [known] at known'
          cases known'
          rw [known]
          exact .freed mine rfl
    · exact lawful.appliedInVain applied

/-- An acquire that is inserted in clock order is clear. -/
theorem LeaseDesk.Lawful.clear_of_insert (lawful : desk.Lawful)
    (found : desk.transactions[tx]? = some t) {row : LeaseRow} {table : Table LeaseRow}
    (phase : t.phase = .inserting row) (inOrder : InClockOrder desk (.advance tx))
    (inserted : insert LeaseRow.unreleased desk.table tx row = .done table) :
    Clear desk.answers t.holder t.now := by
  intro answer member id other expiresAt promised apart early
  obtain ⟨former, known, theirs, within, ended⟩ :=
    lawful.stands answer member id other expiresAt promised
  have ordered := inOrder t found
  rw [phase] at ordered
  cases released : former.releasedAt with
  | none =>
    -- The lease is still unreleased: the transaction itself has released it, as expired.
    have alive : former.unreleased = true := by
      rw [LeaseRow.unreleased, released]
      rfl
    obtain ⟨version, held, dead⟩ := pendingRow_of_insert inserted known alive
    have pending := (lawful.own found held).2
    rw [known] at pending
    cases pending with
    | swept _ _ lapsed => omega
    | renewed commits => exact absurd commits (by simp [phase])
    | freed _ commits => exact absurd commits (by simp [phase])
  | some releasedAt =>
    rcases ended releasedAt released with expired | freed
    · have old := ordered id former known (by rw [theirs]; exact apart) releasedAt released expired
      omega
    · exact freed

theorem LeaseDesk.Lawful.insertRow (lawful : desk.Lawful)
    (found : desk.transactions[tx]? = some t) {row : LeaseRow} (phase : t.phase = .inserting row)
    (inOrder : InClockOrder desk (.advance tx)) (taken : desk.insertRow tx t row = some next) :
    next.Lawful := by
  obtain ⟨inside, _⟩ := List.getElem?_eq_some_iff.mp found
  have prepared := lawful.prepared tx t found
  rw [LeaseDesk.Prepared, phase] at prepared
  obtain ⟨mine, fresh, regular⟩ := prepared
  rw [LeaseDesk.insertRow] at taken
  split at taken
  · cases taken
    exact lawful.fail tx t
  split at taken
  · cases taken
  · cases taken
    exact lawful.fail tx t
  rename_i table inserted
  cases taken
  have clear := lawful.clear_of_insert found phase inOrder inserted
  obtain ⟨_, rfl⟩ := insert_eq_done inserted
  let answer := LeaseAnswer.acquired desk.table.length t.holder t.now row.expiresAt
  let grown : LeaseDesk := { desk with table := desk.table ++ [⟨none, some (tx, row)⟩] }
  apply lawful.of_step (grown.setPhase tx t (.committing answer)) tx
    { t with phase := .committing answer } rfl rfl
  · exact fun id => committedRow_insert id
  · intro owner id version apart
    exact pendingRow_insert.trans (or_iff_left fun both => apart both.2.1)
  · intro id version held
    refine ⟨inside, ?_⟩
    rcases pendingRow_insert.mp held with before | ⟨rfl, _, rfl⟩
    · have pending := (lawful.own found before).2
      generalize committedRow desk.table id = former at pending ⊢
      cases pending with
      | swept acquires _ ended => exact .swept acquires (.inr (.inr ⟨_, _, rfl⟩)) ended
      | inserted commits => exact absurd commits (by simp [phase])
      | renewed commits => exact absurd commits (by simp [phase])
      | freed _ commits => exact absurd commits (by simp [phase])
    · have none_ : committedRow desk.table desk.table.length = none := by
        rw [committedRow, List.getElem?_eq_none le_rfl]
        rfl
      rw [none_]
      exact .inserted ⟨_, rfl⟩ regular
  · constructor
    · intro id holder expiresAt promised
      cases promised
      exact ⟨row, pendingRow_insert.mpr (.inr ⟨rfl, rfl, rfl⟩), fresh, mine, rfl⟩
    · intro id holder now expiresAt same
      obtain ⟨_, rfl, rfl, _⟩ := LeaseAnswer.acquired.inj same
      exact clear
  · exact .single (.insert inserted)

/-! ## The commit -/

/-- **What a transaction commits of a row**: the holder and the time to live stay, the end does not
come back, and a release is of an ended lease or its holder's. -/
theorem Pending.commits {former row : LeaseRow} {id : ℕ} {answer : LeaseAnswer}
    (pending : Pending t id (some former) row) (phase : t.phase = .committing answer)
    (regular : former.expiresAt = former.heartbeatAt + former.ttlMs)
    (alive : former.unreleased = true) :
    row.holder = former.holder ∧ row.ttlMs = former.ttlMs ∧ former.expiresAt ≤ row.expiresAt ∧
      row.expiresAt = row.heartbeatAt + row.ttlMs ∧
      ∀ releasedAt, row.releasedAt = some releasedAt →
        row.expiresAt ≤ releasedAt ∨ answer = .released id former.holder t.now := by
  cases pending with
  | swept acquires _ ended =>
    refine ⟨rfl, rfl, le_rfl, regular, fun releasedAt same => .inl ?_⟩
    cases same
    exact ended
  | renewed _ inOrder =>
    refine ⟨rfl, rfl, ?_, rfl, fun releasedAt same => ?_⟩
    · rw [regular]
      exact Int.add_le_add_right inOrder _
    · rw [LeaseRow.unreleased, Option.isNone_iff_eq_none] at alive
      rw [alive] at same
      cases same
  | freed holder commits =>
    refine ⟨rfl, rfl, le_rfl, regular, fun _ _ => .inr ?_⟩
    rw [phase] at commits
    rw [holder]
    exact LeasePhase.committing.inj commits

theorem Released.append {answers : List LeaseAnswer} {id : ℕ} {holder : Holder}
    (released : Released answers id holder) (answer : LeaseAnswer) :
    Released (answers ++ [answer]) id holder := by
  obtain ⟨now, member⟩ := released
  exact ⟨now, List.mem_append_left _ member⟩

/-- An answer that promises nothing new to others keeps an instant clear. -/
theorem Clear.append {answers : List LeaseAnswer} {holder : Holder} {now : ℤ} {answer : LeaseAnswer}
    (clear : Clear answers holder now) (silent : answer.promise = none) :
    Clear (answers ++ [answer]) holder now := by
  intro other member id theirs expiresAt promised apart early
  rcases List.mem_append.mp member with before | last
  · exact (clear other before id theirs expiresAt promised apart early).append answer
  · rw [List.mem_singleton.mp last, silent] at promised
    cases promised

theorem PromisesKept.append {answers : List LeaseAnswer} {answer : LeaseAnswer}
    (kept : PromisesKept answers)
    (clear : ∀ id holder now expiresAt, answer = .acquired id holder now expiresAt →
      Clear answers holder now) : PromisesKept (answers ++ [answer]) := by
  intro n id holder now expiresAt found
  rcases Nat.lt_or_ge n answers.length with inside | outside
  · rw [List.getElem?_append_left inside] at found
    rw [List.take_append_of_le_length inside.le]
    exact kept n id holder now expiresAt found
  · rw [List.getElem?_append_right outside] at found
    obtain ⟨zero, same⟩ := List.getElem?_eq_some_iff.mp found
    rw [List.length_singleton, Nat.lt_one_iff, Nat.sub_eq_zero_iff_le] at zero
    rw [List.getElem_singleton] at same
    rw [Nat.le_antisymm zero outside, List.take_left]
    exact clear id holder now expiresAt same

/-- The committed rows after a commit: those before, and what the transaction has written. -/
theorem LeaseDesk.Lawful.committed (lawful : desk.Lawful)
    (found : desk.transactions[tx]? = some t) {answer : LeaseAnswer}
    (phase : t.phase = .committing answer) {id : ℕ} {former : LeaseRow}
    (known : committedRow desk.table id = some former) :
    ∃ row, committedRow (commit desk.table tx) id = some row ∧ row.holder = former.holder ∧
      row.ttlMs = former.ttlMs ∧ former.expiresAt ≤ row.expiresAt ∧
      ∀ releasedAt, row.releasedAt = some releasedAt → former.releasedAt = some releasedAt ∧
        row = former ∨ row.expiresAt ≤ releasedAt ∨ answer = .released id former.holder t.now := by
  cases held : pendingRow desk.table tx id with
  | none =>
    exact ⟨former, committedRow_commit.mpr (.inr ⟨held, known⟩), rfl, rfl, le_rfl,
      fun _ same => .inl ⟨same, rfl⟩⟩
  | some row =>
    have pending := (lawful.own found held).2
    rw [known] at pending
    obtain ⟨holder, ttl, later, _, ended⟩ := pending.commits phase (lawful.regular id former known)
      (lawful.lockless.live_of_pendingRow held known)
    exact ⟨row, committedRow_commit.mpr (.inl held), holder, ttl, later,
      fun releasedAt same => .inr (ended releasedAt same)⟩

theorem LeaseDesk.Lawful.regular_commit (lawful : desk.Lawful)
    (found : desk.transactions[tx]? = some t) {answer : LeaseAnswer}
    (phase : t.phase = .committing answer) {id : ℕ} {row : LeaseRow}
    (known : committedRow (commit desk.table tx) id = some row) :
    row.expiresAt = row.heartbeatAt + row.ttlMs := by
  rcases committedRow_commit.mp known with held | ⟨_, before⟩
  · have pending := (lawful.own found held).2
    cases before : committedRow desk.table id with
    | none =>
      rw [before] at pending
      cases pending with
      | inserted _ regular => exact regular
    | some former =>
      rw [before] at pending
      exact (pending.commits phase (lawful.regular id former before)
        (lawful.lockless.live_of_pendingRow held before)).2.2.2.1
  · exact lawful.regular id row before

/-- An answer leaves clear the acquires that are about to commit: it is about another row. -/
theorem LeaseDesk.Lawful.clear_commit (lawful : desk.Lawful) {answer : LeaseAnswer}
    (answered : desk.Answered tx answer) {owner : ℕ} (apart : owner ≠ tx) {mine : LeaseAnswer}
    (waiting : desk.Answered owner mine) {id : ℕ} {holder : Holder} {now expiresAt : ℤ}
    (same : mine = .acquired id holder now expiresAt) (clear : Clear desk.answers holder now) :
    Clear (desk.answers ++ [answer]) holder now := by
  apply clear.append
  apply Option.eq_none_iff_forall_ne_some.mpr
  rintro ⟨other, theirs, later⟩ promised
  obtain ⟨version, held, alive, _⟩ := answered.written other theirs later promised
  obtain ⟨row, held', alive', _⟩ := waiting.written id holder expiresAt (by rw [same]; rfl)
  by_cases row_ : id = other
  · rw [row_] at held'
    exact apart (pendingRow_owner held held')
  · rw [lawful.indexed.pendingRow_dead held' alive' row_ held] at alive
    cases alive

theorem LeaseDesk.Lawful.stands_commit (lawful : desk.Lawful)
    (found : desk.transactions[tx]? = some t) {answer : LeaseAnswer}
    (phase : t.phase = .committing answer) (answered : desk.Answered tx answer) {other : LeaseAnswer}
    (member : other ∈ desk.answers ++ [answer]) {id : ℕ} {holder : Holder} {expiresAt : ℤ}
    (promised : other.promise = some (id, holder, expiresAt)) :
    (desk.finish tx t answer).Stands id holder expiresAt := by
  rcases List.mem_append.mp member with before | last
  · obtain ⟨former, known, theirs, within, ended⟩ :=
      lawful.stands other before id holder expiresAt promised
    obtain ⟨row, known', holder_, _, later, released⟩ := lawful.committed found phase known
    refine ⟨row, known', holder_.trans theirs, within.trans later, fun releasedAt same => ?_⟩
    rcases released releasedAt same with ⟨old, rfl⟩ | expired | freed
    · exact (ended releasedAt old).imp_right fun gone => gone.append answer
    · exact .inl expired
    · refine .inr ⟨t.now, List.mem_append_right _ (List.mem_singleton.mpr ?_)⟩
      rw [freed, theirs]
  · rw [List.mem_singleton.mp last] at promised
    obtain ⟨row, held, alive, mine, ends⟩ := answered.written id holder expiresAt promised
    refine ⟨row, committedRow_commit.mpr (.inl held), mine, ends.ge, fun releasedAt same => ?_⟩
    rw [LeaseRow.unreleased, same] at alive
    cases alive

theorem LeaseDesk.Lawful.finish (lawful : desk.Lawful) (found : desk.transactions[tx]? = some t)
    {answer : LeaseAnswer} (phase : t.phase = .committing answer) :
    (desk.finish tx t answer).Lawful := by
  have answered : desk.Answered tx answer := by
    have prepared := lawful.prepared tx t found
    rw [LeaseDesk.Prepared, phase] at prepared
    exact prepared
  constructor
  · exact lawful.indexed.commit tx
  · exact lawful.lockless.commit tx
  · exact fun id row known => lawful.regular_commit found phase known
  · intro id owner row held
    obtain ⟨apart, held⟩ := pendingRow_commit.mp held
    obtain ⟨other, known, pending⟩ := lawful.pending id owner row held
    refine ⟨other, (List.getElem?_set_ne (Ne.symm apart)).trans known, ?_⟩
    have none_ : pendingRow desk.table tx id = none := by
      apply Option.eq_none_iff_forall_ne_some.mpr
      exact fun version mine => apart (pendingRow_owner mine held)
    have same : committedRow (commit desk.table tx) id = committedRow desk.table id := by
      apply Option.ext
      intro version
      rw [committedRow_commit, none_]
      exact ⟨fun both => (both.resolve_left nofun).2, fun before => .inr ⟨rfl, before⟩⟩
    rw [LeaseDesk.finish, LeaseDesk.setPhase, same]
    exact pending
  · intro owner other known
    by_cases mine : owner = tx
    · rw [mine, LeaseDesk.finish, LeaseDesk.setPhase] at known
      obtain ⟨_, same⟩ := List.getElem?_eq_some_iff.mp known
      rw [List.getElem_set_self] at same
      rw [← same]
      trivial
    · have known : desk.transactions[owner]? = some other :=
        (List.getElem?_set_ne (Ne.symm mine)).symm.trans known
      have prepared := lawful.prepared owner other known
      apply prepared.mono
      · intro id former committed
        obtain ⟨row, after, holder, ttl, _⟩ := lawful.committed found phase committed
        exact ⟨row, after, holder, ttl⟩
      · exact fun id row held => pendingRow_commit.mpr ⟨mine, held⟩
      · intro id holder now expiresAt waits clear
        rw [LeaseDesk.Prepared, waits] at prepared
        exact lawful.clear_commit answered mine prepared rfl clear
  · exact fun other member id holder expiresAt promised =>
      lawful.stands_commit found phase answered member promised
  · exact lawful.kept.append answered.clear

end Steps

/-! ## Runs -/

theorem LeaseDesk.Lawful.fresh (ticket : Text) : (LeaseDesk.fresh ticket).Lawful where
  indexed := Indexed.nil
  lockless := Lockless.nil
  regular := fun _ _ known => nomatch known
  pending := fun _ _ _ held => nomatch held
  prepared := fun _ _ found => nomatch found
  stands := fun _ member => nomatch member
  kept := fun _ _ _ _ _ found => nomatch found

/-- **Every step in clock order keeps the desk lawful.** -/
theorem LeaseDesk.Lawful.step (desk : LeaseDesk) (event : LeaseEvent) (next : LeaseDesk)
    (lawful : desk.Lawful) (inOrder : InClockOrder desk event)
    (taken : leaseStep desk event = some next) : next.Lawful := by
  cases event with
  | arrive demand holder now =>
    cases taken
    exact lawful.arrive demand holder now
  | abort tx =>
    obtain ⟨t, _, rfl⟩ := Option.map_eq_some_iff.mp taken
    exact lawful.fail tx t
  | advance tx =>
    obtain ⟨t, found, taken⟩ := Option.bind_eq_some_iff.mp taken
    rw [LeaseDesk.advance] at taken
    split at taken
    · rename_i update phase
      cases taken
      exact lawful.select found phase _
    · rename_i update ids phase
      exact lawful.write found phase inOrder taken
    · rename_i phase
      cases taken
      exact lawful.read found phase
    · rename_i row phase
      exact lawful.insertRow found phase inOrder taken
    · rename_i answer phase
      cases taken
      exact lawful.finish found phase
    · cases taken

/-- One committed lease at most is unreleased. -/
def LeaseDesk.OneUnreleased (desk : LeaseDesk) : Prop :=
  ∀ i j first second, committedRow desk.table i = some first →
    committedRow desk.table j = some second → first.unreleased = true → second.unreleased = true →
    i = j

theorem oneUnreleased_of_indexed {desk : LeaseDesk} (indexed : Indexed LeaseRow.unreleased desk.table) :
    desk.OneUnreleased := by
  intro i j first second knownI knownJ liveI liveJ
  obtain ⟨slotI, foundI, sameI⟩ := committedRow_eq_some.mp knownI
  obtain ⟨slotJ, foundJ, sameJ⟩ := committedRow_eq_some.mp knownJ
  apply indexed.committed foundI foundJ
  · rw [sameI]
    exact liveI
  · rw [sameJ]
    exact liveJ

/-- The statements of a whole run. -/
theorem run_statements {start desk : LeaseDesk} {events : List LeaseEvent}
    (reached : run leaseStep start events = some desk) : LeaseStatements start.table desk.table := by
  have kept : ∀ (s : LeaseDesk) (event : LeaseEvent) (next : LeaseDesk),
      LeaseStatements start.table s.table → leaseStep s event = some next →
        LeaseStatements start.table next.table :=
    fun s event next made taken => made.trans (leaseStep_statements taken)
  exact run_invariant kept .refl reached

/-- **A promised lease is kept by requests that write in the order of their clocks.** Whatever the
order, one lease at most is unreleased, and a released lease never changes. -/
theorem lease_promises_kept {ticket : Text} {first second : List LeaseEvent} {middle desk : LeaseDesk}
    (before : run leaseStep (LeaseDesk.fresh ticket) first = some middle)
    (after : run leaseStep middle second = some desk) :
    desk.OneUnreleased ∧
      (∀ id row, committedRow middle.table id = some row → row.unreleased = false →
        committedRow desk.table id = some row) ∧
      (Along leaseStep InClockOrder (LeaseDesk.fresh ticket) (first ++ second) →
        PromisesKept desk.answers) := by
  have indexed : Indexed LeaseRow.unreleased middle.table :=
    Indexed.nil.statements (run_statements before)
  have lockless : Lockless LeaseRow.unreleased middle.table :=
    (Lockless.nil.statements (run_statements before)).1
  refine ⟨?_, ?_, fun along => ?_⟩
  · exact oneUnreleased_of_indexed (indexed.statements (run_statements after))
  · exact (lockless.statements (run_statements after)).2
  · have reached : run leaseStep (LeaseDesk.fresh ticket) (first ++ second) = some desk := by
      rw [run_append, before]
      exact after
    exact (run_invariant_along LeaseDesk.Lawful.step (LeaseDesk.Lawful.fresh ticket) along
      reached).kept

/-! ## Requests out of order -/

/-- A request that runs alone, from its arrival to its answer. -/
def alone (tx steps : ℕ) (demand : LeaseDemand) (holder : Holder) (now : ℤ) : List LeaseEvent :=
  .arrive demand holder now :: List.replicate steps (.advance tx)

def member (id : String) : Holder := ⟨.member, Text.lit id⟩

def acquireDemand : LeaseDemand := .acquire (Text.lit "b") (Text.lit "w") none

/-- A heartbeat of the minute 1 writes after one of the minute 2, and another member takes the lease
between the two ends. -/
def overtaken : List LeaseEvent :=
  alone 0 5 acquireDemand (member "m") 0 ++ [.arrive .heartbeat (member "m") 60000] ++
    alone 2 4 .heartbeat (member "m") 120000 ++ List.replicate 4 (.advance 1) ++
    alone 3 5 acquireDemand (member "n") 1000000

/-- An acquire of before the end of a first lease writes after a second one has ended. -/
def outdated : List LeaseEvent :=
  alone 0 5 acquireDemand (member "m") 0 ++ alone 1 5 acquireDemand (member "n") 1000000 ++
    alone 2 4 .release (member "n") 1100000 ++ alone 3 5 acquireDemand (member "o") 500000

/-- A lease is renewed once, and another member takes it after its end. -/
def inTurn : List LeaseEvent :=
  alone 0 5 acquireDemand (member "m") 0 ++ alone 1 4 .heartbeat (member "m") 60000

def takenAfterEnd : List LeaseEvent := alone 2 5 acquireDemand (member "n") 1000000

/-- Requests in the order of their clocks keep what they have promised. -/
theorem lease_promises_kept_alone :
    ∃ middle desk, run leaseStep (LeaseDesk.fresh (Text.lit "TK-1")) inTurn = some middle ∧
      run leaseStep middle takenAfterEnd = some desk ∧ desk.answers.length = 3 ∧
      desk.OneUnreleased ∧ PromisesKept desk.answers := by
  have ends : ((run leaseStep (LeaseDesk.fresh (Text.lit "TK-1")) inTurn).bind fun middle =>
      run leaseStep middle takenAfterEnd).map (fun desk => desk.answers.length) = some 3 := by
    decide +kernel
  have along : Along leaseStep InClockOrder (LeaseDesk.fresh (Text.lit "TK-1"))
      (inTurn ++ takenAfterEnd) := by decide +kernel
  obtain ⟨desk, reached, three⟩ := Option.map_eq_some_iff.mp ends
  obtain ⟨middle, before, after⟩ := Option.bind_eq_some_iff.mp reached
  obtain ⟨one, -, kept⟩ := lease_promises_kept before after
  exact ⟨middle, desk, before, after, three, one, kept along⟩

/-- **An overtaken heartbeat breaks a promise**, and so does an outdated acquire. -/
theorem promises_broken :
    (∃ desk, run leaseStep (LeaseDesk.fresh (Text.lit "TK-1")) overtaken = some desk ∧
      ¬ PromisesKept desk.answers) ∧
    ∃ desk, run leaseStep (LeaseDesk.fresh (Text.lit "TK-1")) outdated = some desk ∧
      ¬ PromisesKept desk.answers := by
  have answers : (run leaseStep (LeaseDesk.fresh (Text.lit "TK-1")) overtaken).map
        LeaseDesk.answers = some [.acquired 0 (member "m") 0 900000,
          .renewed 0 (member "m") 120000 1020000, .renewed 0 (member "m") 60000 960000,
          .acquired 1 (member "n") 1000000 1900000] ∧
      (run leaseStep (LeaseDesk.fresh (Text.lit "TK-1")) outdated).map LeaseDesk.answers =
        some [.acquired 0 (member "m") 0 900000, .acquired 1 (member "n") 1000000 1900000,
          .released 1 (member "n") 1100000, .acquired 2 (member "o") 500000 1400000] := by
    decide +kernel
  obtain ⟨first, second⟩ := answers
  constructor
  · obtain ⟨desk, reached, same⟩ := Option.map_eq_some_iff.mp first
    refine ⟨desk, reached, fun kept => ?_⟩
    rw [same] at kept
    obtain ⟨_, released⟩ := kept 3 1 (member "n") 1000000 1900000 rfl
      (.renewed 0 (member "m") 120000 1020000) (by simp) 0 (member "m") 1020000 rfl
      (by decide) (by decide)
    simp at released
  · obtain ⟨desk, reached, same⟩ := Option.map_eq_some_iff.mp second
    refine ⟨desk, reached, fun kept => ?_⟩
    rw [same] at kept
    obtain ⟨_, released⟩ := kept 3 2 (member "o") 500000 1400000 rfl
      (.acquired 0 (member "m") 0 900000) (by simp) 0 (member "m") 900000 rfl
      (by decide) (by decide)
    simp at released

end Koklo.Tracker
