import Koklo.Domain.Lease
import Koklo.Foundations.NumberText
import Koklo.Foundations.Runs

/-!
# Locks

A lock gives one holder a target until an instant. A list of locks keeps those that have expired: a
lock is acquired when its target and its holder have no active lock, and it is put at the end of the
list; the release of a target removes the first lock of the list that has this target and this
holder.

In every run with a clock that does not go back, a target has at most one active lock
(`exclusive_of_run`). The lock that a release removes can be an expired one, left before the active
one: the holder keeps an active lock after the release exactly when the first lock of its holder and
target is not the active one (`released_iff`).
-/

set_option autoImplicit false

namespace Koklo.Domain

open Koklo.Foundations

/-- The kinds of locks. -/
inductive LockKind where
  | merge | specWrite
deriving DecidableEq

/-- A lock of a scope, with its instants as texts. -/
structure Lock where
  kind : LockKind
  scope : Text
  holder : Holder
  acquiredAt : Text
  expiresAt : Text
deriving DecidableEq

/-- What is asked of `acquireLock`. -/
structure LockRequest where
  kind : LockKind
  scope : Text
  holder : Holder
  ttlMs : Number

/-- Why a call is refused. -/
inductive LockError where
  /-- An error of an instant or of a holder. -/
  | invalid (error : LeaseError)
  | alreadyHeld (lock : Lock)
  | nested (holder : Holder) (held : Lock) (kind : LockKind) (scope : Text)
  | notHeldBy (kind : LockKind) (scope : Text) (holder : Holder)
deriving DecidableEq

/-- A value, or the error of the call. -/
abbrev Locked (α : Type) := Except LockError α

/-! ## The functions -/

/-- `formatInstant` of a number, which a date truncates. -/
def formatNumber (ms : Number) : Leased Text :=
  match ms.value? with
  | none => .error .invalidDate
  | some q => if |q| ≤ IsoInstant.maxTime then .ok (IsoInstant.isoText (q.num.tdiv q.den))
      else .error .invalidDate

/-- The lock has not expired. -/
def isLockActive (lock : Lock) (now : Text) : Locked Bool := do
  let nowMs ← (parseInstant now).mapError .invalid
  let expiresMs ← (parseInstant lock.expiresAt).mapError .invalid
  .ok (nowMs < expiresMs)

/-- The lock is of this kind and of this scope. -/
def sameTarget (lock : Lock) (kind : LockKind) (scope : Text) : Bool :=
  decide (lock.kind = kind) && decide (lock.scope = scope)

def sameHolder (a b : Holder) : Bool := decide (a = b)

/-- `held.filter(isLockActive)`. -/
def activeLocks (held : List Lock) (now : Text) : Locked (List Lock) :=
  match held with
  | [] => .ok []
  | lock :: rest => do
    let active ← isLockActive lock now
    let others ← activeLocks rest now
    .ok (if active then lock :: others else others)

/-- The lock of a request that was granted. -/
def newLock (request : LockRequest) (holder : Holder) (now expiresAt : Text) : Lock where
  kind := request.kind
  scope := request.scope
  holder := holder
  acquiredAt := now
  expiresAt := expiresAt

/-- The new lock, and the locks with it; a conflict is refused first, then a nested lock. -/
def acquireLock (held : List Lock) (request : LockRequest) (now : Text) :
    Locked (Lock × List Lock) := do
  let nowMs ← (parseInstant now).mapError .invalid
  let holder ← (freezeHolder request.holder).mapError .invalid
  let active ← activeLocks held now
  match active.find? (sameHolder ·.holder holder),
      active.find? (sameTarget · request.kind request.scope) with
  | none, some conflict => .error (.alreadyHeld conflict)
  | some owned, _ => .error (.nested holder owned request.kind request.scope)
  | none, none => do
    let expiresAt ← (formatNumber ((Number.finite nowMs).add request.ttlMs)).mapError .invalid
    let lock := newLock request holder now expiresAt
    .ok (lock, held ++ [lock])

/-- A lock on a target that a holder has taken. -/
def isOf (kind : LockKind) (scope : Text) (holder : Holder) (lock : Lock) : Bool :=
  sameTarget lock kind scope && sameHolder lock.holder holder

/-- The locks without the first one of the holder on the target. Each lock of a list is an object of
its own. -/
def releaseLock (held : List Lock) (kind : LockKind) (scope : Text) (holder : Holder) :
    Locked (List Lock) :=
  match held.find? (isOf kind scope holder) with
  | none => .error (.notHeldBy kind scope holder)
  | some _ => .ok (held.eraseP (isOf kind scope holder))

/-! ## Runs -/

/-- The calls of the module. -/
inductive LockCall where
  | acquire (request : LockRequest)
  | release (kind : LockKind) (scope : Text) (holder : Holder)

/-- The locks after a call; a call that is refused leaves them as they are. -/
def callLocks (locks : List Lock) (now : Text) : LockCall → List Lock
  | .acquire request =>
    match acquireLock locks request now with
    | .ok (_, grown) => grown
    | .error _ => locks
  | .release kind scope holder =>
    match releaseLock locks kind scope holder with
    | .ok released => released
    | .error _ => locks

/-- The list of locks and the instant of the last call. -/
structure LockState where
  locks : List Lock
  clock : ℤ
deriving DecidableEq

/-- A call at an instant that is not before the last one. -/
def lockStep (s : LockState) (event : LockCall × IsoInstant.Instant) : Option LockState :=
  if s.clock ≤ event.2.ms then some ⟨callLocks s.locks event.2.text event.1, event.2.ms⟩ else none

/-- No lock yet. -/
def noLocks (clock : ℤ) : LockState := ⟨[], clock⟩

/-! ## Active locks -/

/-- The lock is active at an instant. -/
def Lock.ActiveAt (lock : Lock) (ms : ℤ) : Prop :=
  ∃ expiresMs, parseInstant lock.expiresAt = .ok expiresMs ∧ ms < expiresMs

theorem parseInstant_instant (now : IsoInstant.Instant) : parseInstant now.text = .ok now.ms :=
  parseInstant_eq_ok.mpr ⟨now.accepted, now.read⟩

/-- The test of the code is the activity at the instant. -/
theorem isLockActive_eq_true_iff {lock : Lock} {now : IsoInstant.Instant} :
    isLockActive lock now.text = .ok true ↔ lock.ActiveAt now.ms := by
  rw [isLockActive, parseInstant_instant, Lock.ActiveAt]
  cases parsed : parseInstant lock.expiresAt with
  | error e =>
    constructor
    · intro active
      cases active
    · rintro ⟨_, same, _⟩
      cases same
  | ok expiresMs =>
    constructor
    · intro active
      have later := of_decide_eq_true (Except.ok.inj active)
      exact ⟨expiresMs, rfl, later⟩
    · rintro ⟨_, same, later⟩
      cases same
      exact congrArg Except.ok (decide_eq_true later)

/-- A lock that is active was active before. -/
theorem Lock.ActiveAt.earlier {lock : Lock} {ms later : ℤ} (active : lock.ActiveAt later)
    (order : ms ≤ later) : lock.ActiveAt ms := by
  obtain ⟨expiresMs, parsed, before⟩ := active
  exact ⟨expiresMs, parsed, order.trans_lt before⟩

/-- Two locks on one target are not active together. -/
def Exclusive (locks : List Lock) (ms : ℤ) : Prop :=
  locks.Pairwise fun first second => sameTarget second first.kind first.scope = true →
    ¬ (first.ActiveAt ms ∧ second.ActiveAt ms)

theorem Exclusive.later {locks : List Lock} {ms later : ℤ} (exclusive : Exclusive locks ms)
    (order : ms ≤ later) : Exclusive locks later :=
  exclusive.imp fun apart same both => apart same ⟨both.1.earlier order, both.2.earlier order⟩

/-! ## A target has one active lock at most -/

/-- What is kept of the locks is what is active. -/
theorem mem_activeLocks {now : IsoInstant.Instant} {held active : List Lock}
    (kept : activeLocks held now.text = .ok active) {lock : Lock} (member : lock ∈ held)
    (activeAt : lock.ActiveAt now.ms) : lock ∈ active := by
  induction held generalizing active with
  | nil => cases member
  | cons first rest ih =>
    rw [activeLocks] at kept
    obtain ⟨isActive, tested, kept⟩ := bind_eq_ok.mp kept
    obtain ⟨others, later, kept⟩ := bind_eq_ok.mp kept
    have whole := (Except.ok.inj kept).symm
    rcases List.mem_cons.mp member with rfl | inside
    · rw [isLockActive_eq_true_iff.mpr activeAt] at tested
      cases tested
      rw [whole, if_pos rfl]
      exact List.mem_cons_self
    · have known := ih later inside
      rw [whole]
      split
      · exact List.mem_cons_of_mem first known
      · exact known

/-- An acquisition appends a lock on a target that has no active one. -/
theorem acquireLock_eq_ok {held grown : List Lock} {request : LockRequest}
    {now : IsoInstant.Instant} {lock : Lock}
    (acquired : acquireLock held request now.text = .ok (lock, grown)) :
    grown = held ++ [lock] ∧ ∀ other ∈ held, sameTarget other lock.kind lock.scope = true →
      ¬ other.ActiveAt now.ms := by
  rw [acquireLock] at acquired
  obtain ⟨nowMs, _, acquired⟩ := bind_eq_ok.mp acquired
  obtain ⟨holder, _, acquired⟩ := bind_eq_ok.mp acquired
  obtain ⟨active, kept, acquired⟩ := bind_eq_ok.mp acquired
  split at acquired
  · cases acquired
  · cases acquired
  · rename_i free
    obtain ⟨expiresAt, _, acquired⟩ := bind_eq_ok.mp acquired
    obtain ⟨rfl, rfl⟩ := Prod.ext_iff.mp (Except.ok.inj acquired).symm
    refine ⟨rfl, fun other member same activeAt => ?_⟩
    exact List.find?_eq_none.mp free other (mem_activeLocks kept member activeAt) same

theorem releaseLock_eq_ok {held released : List Lock} {kind : LockKind} {scope : Text}
    {holder : Holder} (freed : releaseLock held kind scope holder = .ok released) :
    ∃ found, held.find? (isOf kind scope holder) = some found ∧
      released = held.eraseP (isOf kind scope holder) := by
  rw [releaseLock] at freed
  split at freed
  · cases freed
  · rename_i found first
    exact ⟨found, first, (Except.ok.inj freed).symm⟩

theorem sameTarget_symm {first second : Lock}
    (same : sameTarget second first.kind first.scope = true) :
    sameTarget first second.kind second.scope = true := by
  simp only [sameTarget, Bool.and_eq_true, decide_eq_true_eq] at same ⊢
  exact ⟨same.1.symm, same.2.symm⟩

/-- A call keeps the locks exclusive. -/
theorem exclusive_callLocks {locks : List Lock} {now : IsoInstant.Instant} (call : LockCall)
    (exclusive : Exclusive locks now.ms) : Exclusive (callLocks locks now.text call) now.ms := by
  cases call with
  | acquire request =>
    rw [callLocks]
    split
    · rename_i lock grown acquired
      obtain ⟨rfl, free⟩ := acquireLock_eq_ok acquired
      refine List.pairwise_append.mpr ⟨exclusive, List.pairwise_singleton _ _, ?_⟩
      intro first member second last same both
      rw [List.mem_singleton.mp last] at same
      exact free first member (sameTarget_symm same) both.1
    · exact exclusive
  | release kind scope holder =>
    rw [callLocks]
    split
    · rename_i released freed
      obtain ⟨_, _, rfl⟩ := releaseLock_eq_ok freed
      exact exclusive.sublist List.eraseP_sublist
    · exact exclusive

theorem exclusive_step {s next : LockState} {event : LockCall × IsoInstant.Instant}
    (exclusive : Exclusive s.locks s.clock) (taken : lockStep s event = some next) :
    Exclusive next.locks next.clock := by
  rw [lockStep] at taken
  split at taken
  · rename_i order
    cases taken
    exact exclusive_callLocks event.1 (exclusive.later order)
  · cases taken

/-- **In every run, a target has one active lock at most.** -/
theorem exclusive_of_run {clock : ℤ} {events : List (LockCall × IsoInstant.Instant)}
    {s : LockState} (reached : run lockStep (noLocks clock) events = some s) :
    Exclusive s.locks s.clock := by
  have start : Exclusive (noLocks clock).locks (noLocks clock).clock := List.Pairwise.nil
  exact @run_invariant _ _ lockStep (fun s : LockState => Exclusive s.locks s.clock)
    (fun _ _ _ exclusive taken => exclusive_step exclusive taken) _ _ _ start reached

/-! ## What a release leaves -/

/-- The holder has an active lock on the target. -/
def Holds (locks : List Lock) (kind : LockKind) (scope : Text) (holder : Holder) (ms : ℤ) : Prop :=
  ∃ lock ∈ locks, isOf kind scope holder lock = true ∧ lock.ActiveAt ms

/-- The first lock of the holder on the target is the active one, when there is one: no lock that
has expired is left before it. -/
def FirstIsActive (locks : List Lock) (kind : LockKind) (scope : Text) (holder : Holder)
    (ms : ℤ) : Prop :=
  Holds locks kind scope holder ms →
    ∃ first, locks.find? (isOf kind scope holder) = some first ∧ first.ActiveAt ms

theorem sameTarget_of_isOf {kind : LockKind} {scope : Text} {holder : Holder} {first second : Lock}
    (own : isOf kind scope holder first = true) (own' : isOf kind scope holder second = true) :
    sameTarget second first.kind first.scope = true := by
  simp only [isOf, sameTarget, Bool.and_eq_true, decide_eq_true_eq] at own own' ⊢
  exact ⟨own'.1.1.trans own.1.1.symm, own'.1.2.trans own.1.2.symm⟩

/-- **A release is effective exactly when it removes the active lock.** -/
theorem released_iff {locks released : List Lock} {kind : LockKind} {scope : Text}
    {holder : Holder} {ms : ℤ} (exclusive : Exclusive locks ms)
    (freed : releaseLock locks kind scope holder = .ok released) :
    ¬ Holds released kind scope holder ms ↔ FirstIsActive locks kind scope holder ms := by
  obtain ⟨found, first, rfl⟩ := releaseLock_eq_ok freed
  obtain ⟨own, before, after, rfl, none⟩ := List.find?_eq_some_iff_append.mp first
  have others : ∀ lock ∈ before, ¬ isOf kind scope holder lock = true := by
    intro lock member same
    have absent := none lock member
    rw [same] at absent
    cases absent
  have erased : (before ++ found :: after).eraseP (isOf kind scope holder) = before ++ after := by
    rw [List.eraseP_append_right _ others, List.eraseP_cons_of_pos own]
  rw [erased]
  constructor
  · intro free holds
    refine ⟨found, first, ?_⟩
    obtain ⟨lock, member, mine, active⟩ := holds
    rcases List.mem_append.mp member with early | late
    · exact absurd mine (others lock early)
    · rcases List.mem_cons.mp late with rfl | late
      · exact active
      · exact absurd ⟨lock, List.mem_append_right before late, mine, active⟩ free
  · rintro firstActive ⟨lock, member, mine, active⟩
    rcases List.mem_append.mp member with early | late
    · exact others lock early mine
    · have holds : Holds (before ++ found :: after) kind scope holder ms :=
        ⟨lock, List.mem_append_right before (List.mem_cons_of_mem found late), mine, active⟩
      obtain ⟨_, same, active'⟩ := firstActive holds
      rw [first] at same
      cases same
      have apart := (List.pairwise_cons.mp (List.pairwise_append.mp exclusive).2.1).1 lock late
      exact apart (sameTarget_of_isOf own mine) ⟨active', active⟩

/-- **Locks are exclusive, and a release is effective when no expired lock is left before the active
one**, in every state of every run and at every later moment. -/
theorem locks_exclusive_and_released_iff {clock : ℤ}
    {events : List (LockCall × IsoInstant.Instant)} {s : LockState}
    (reached : run lockStep (noLocks clock) events = some s) {now : IsoInstant.Instant}
    (order : s.clock ≤ now.ms) :
    Exclusive s.locks now.ms ∧ ∀ kind scope holder released,
      releaseLock s.locks kind scope holder = .ok released →
        (¬ Holds released kind scope holder now.ms ↔
          FirstIsActive s.locks kind scope holder now.ms) := by
  have exclusive := (exclusive_of_run reached).later order
  exact ⟨exclusive, fun kind scope holder released freed => released_iff exclusive freed⟩

/-! ## An expired lock before the active one -/

def runnerW : Holder := ⟨.runner, Text.lit "W"⟩

/-- Ten minutes on a target. -/
def mergeRequest : LockRequest := ⟨.merge, Text.lit "P", runnerW, .finite 600000⟩

/-- Two instants, as they are accepted and read. -/
theorem instants_read :
    (IsoInstant.isoUtc.accepts (Text.lit "2026-01-01T00:00:00.000Z") = true ∧
      IsoInstant.isoInstant (Text.lit "2026-01-01T00:00:00.000Z") = some 1767225600000) ∧
    IsoInstant.isoUtc.accepts (Text.lit "2026-01-01T00:10:00.000Z") = true ∧
      IsoInstant.isoInstant (Text.lit "2026-01-01T00:10:00.000Z") = some 1767226200000 := by
  decide +kernel

theorem midnight_accepted :
    IsoInstant.isoUtc.accepts (Text.lit "2026-01-01T00:00:00.000Z") = true := instants_read.1.1

theorem midnight_read :
    IsoInstant.isoInstant (Text.lit "2026-01-01T00:00:00.000Z") = some 1767225600000 :=
  instants_read.1.2

theorem tenMinutes_accepted :
    IsoInstant.isoUtc.accepts (Text.lit "2026-01-01T00:10:00.000Z") = true := instants_read.2.1

theorem tenMinutes_read :
    IsoInstant.isoInstant (Text.lit "2026-01-01T00:10:00.000Z") = some 1767226200000 :=
  instants_read.2.2

def midnight : IsoInstant.Instant := ⟨_, _, midnight_accepted, midnight_read⟩

def tenMinutesLater : IsoInstant.Instant := ⟨_, _, tenMinutes_accepted, tenMinutes_read⟩

/-- A lock that expires, then the same lock again. -/
def acquiredTwice : List (LockCall × IsoInstant.Instant) :=
  [(.acquire mergeRequest, midnight), (.acquire mergeRequest, tenMinutesLater)]

theorem run_acquiredTwice : run lockStep (noLocks 0) acquiredTwice = some
    ⟨[newLock mergeRequest runnerW midnight.text tenMinutesLater.text,
      newLock mergeRequest runnerW tenMinutesLater.text (Text.lit "2026-01-01T00:20:00.000Z")],
      tenMinutesLater.ms⟩ := by decide +kernel

/-- A release gives the first lock back, and leaves the second one, which is active. -/
theorem release_first_lock :
    releaseLock [newLock mergeRequest runnerW midnight.text tenMinutesLater.text,
        newLock mergeRequest runnerW tenMinutesLater.text (Text.lit "2026-01-01T00:20:00.000Z")]
      .merge (Text.lit "P") runnerW =
        .ok [newLock mergeRequest runnerW tenMinutesLater.text (Text.lit "2026-01-01T00:20:00.000Z")] ∧
    Holds [newLock mergeRequest runnerW tenMinutesLater.text (Text.lit "2026-01-01T00:20:00.000Z")]
      .merge (Text.lit "P") runnerW tenMinutesLater.ms := by
  refine ⟨by decide +kernel, _, List.mem_singleton_self _, by decide +kernel, 1767226800000, ?_,
    by decide +kernel⟩
  exact parseInstant_eq_ok.mpr ⟨by decide +kernel, by decide +kernel⟩

/-- The release removes the lock that has expired, and leaves the active one. -/
theorem release_leaves_active_lock :
    ∃ s released, run lockStep (noLocks 0) acquiredTwice = some s ∧
      s.clock ≤ tenMinutesLater.ms ∧
      releaseLock s.locks .merge (Text.lit "P") runnerW = .ok released ∧
      Holds released .merge (Text.lit "P") runnerW tenMinutesLater.ms := by
  exact ⟨_, _, run_acquiredTwice, le_rfl, release_first_lock.1, release_first_lock.2⟩

/-- In the run that acquires the lock twice, the locks are exclusive, and the first lock of the
holder is not the active one. -/
theorem locks_exclusive_acquiredTwice :
    Exclusive [newLock mergeRequest runnerW midnight.text tenMinutesLater.text,
        newLock mergeRequest runnerW tenMinutesLater.text (Text.lit "2026-01-01T00:20:00.000Z")]
      tenMinutesLater.ms ∧
    ¬ FirstIsActive [newLock mergeRequest runnerW midnight.text tenMinutesLater.text,
        newLock mergeRequest runnerW tenMinutesLater.text (Text.lit "2026-01-01T00:20:00.000Z")]
      .merge (Text.lit "P") runnerW tenMinutesLater.ms := by
  obtain ⟨exclusive, released⟩ :=
    @locks_exclusive_and_released_iff _ _ _ run_acquiredTwice tenMinutesLater le_rfl
  refine ⟨exclusive, fun firstIsActive => ?_⟩
  exact (released _ _ _ _ release_first_lock.1).mpr firstIsActive release_first_lock.2

end Koklo.Domain
