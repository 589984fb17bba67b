import Koklo.Foundations.Replacement
import Koklo.Foundations.SlidingWindow
import Koklo.Foundations.Text

/-!
# The quota of the calls to a model

Several instances of the API answer calls to a model. A call first takes one of the places of its
organization in its instance (`ConcurrencyGate`); then it is admitted by the ledger, one at a time
for an organization and an instance: in one transaction, the rows of the audit log of the last hour
are counted against each limit, and the row of the call is written when no limit is reached. Only
then is the model called. When a limit is reached the call is refused, with the seconds until the
row that opens a place leaves the hour.

The scopes of an admission read side by side: each looks at the clock, counts, and when its limit is
reached looks for the row that blocks it, so that other calls and other writers of the log may come
between any two of these. The row is dated at any instant between the opening of the transaction and
the write. A commit may be lost, so that the call fails though its row is in the log.
-/

set_option autoImplicit false

namespace Koklo.Ai

open Koklo.Foundations

/-! ## Limits and scopes -/

/-- Which rows are counted for a call, and against which limits. -/
inductive QuotaKind where
  | ai | verify
deriving DecidableEq

/-- What a call is for, one for each procedure. -/
inductive AiPurpose where
  | briefDraft | featuresPropose | criteriaPropose | credentialVerify
deriving DecidableEq

/-- Which rows are counted for the calls of a purpose. -/
def AiPurpose.quota : AiPurpose → QuotaKind
  | .briefDraft => .ai
  | .featuresPropose => .ai
  | .criteriaPropose => .ai
  | .credentialVerify => .verify

/-- The action of the row of a call. -/
def AiPurpose.action : AiPurpose → Text
  | .briefDraft => Text.lit "ai.brief.draft"
  | .featuresPropose => Text.lit "ai.features.propose"
  | .criteriaPropose => Text.lit "ai.criteria.propose"
  | .credentialVerify => Text.lit "llm_credential.verify"

/-- The limits, each at least one as the configuration is read. -/
structure AiLimits where
  maxCallsPerHourOrg : ℕ
  maxCallsPerHourUser : ℕ
  maxVerifyPerHourOrg : ℕ
  maxConcurrentPerOrg : ℕ
  callsPerHourOrg_pos : 1 ≤ maxCallsPerHourOrg
  callsPerHourUser_pos : 1 ≤ maxCallsPerHourUser
  verifyPerHourOrg_pos : 1 ≤ maxVerifyPerHourOrg
  concurrentPerOrg_pos : 1 ≤ maxConcurrentPerOrg

/-- The actions that a limit counts. -/
inductive ActionFilter where
  | startsWith (start : Text)
  | equals (action : Text)
deriving DecidableEq

/-- The filter takes the action. -/
def ActionFilter.admits : ActionFilter → Text → Bool
  | .startsWith start, action => start.isPrefixOf action
  | .equals wanted, action => action = wanted

/-- The rows that a limit counts, and the limit. -/
structure Scope where
  action : ActionFilter
  actorId : Option ℕ
  limit : ℕ
deriving DecidableEq

/-- The scopes that an admission of a kind reads, for a user. -/
def scopesOf (limits : AiLimits) (kind : QuotaKind) (userId : ℕ) : List Scope :=
  match kind with
  | .verify =>
    [⟨.equals (Text.lit "llm_credential.verify"), none, limits.maxVerifyPerHourOrg⟩]
  | .ai =>
    [⟨.startsWith (Text.lit "ai."), none, limits.maxCallsPerHourOrg⟩,
      ⟨.startsWith (Text.lit "ai."), some userId, limits.maxCallsPerHourUser⟩]

/-! ## Counting the log -/

/-- A row of `audit_log`, in milliseconds. -/
structure AuditRow where
  organizationId : ℕ
  actorId : Option ℕ
  action : Text
  occurredAt : ℤ
deriving DecidableEq

/-- The hour over which calls are counted. -/
def windowSeconds : ℤ := 3600

/-- The hour in milliseconds, the unit of the log. -/
def windowMs : ℤ := windowSeconds * 1000

/-- The rows of a scope, in an organization and after the start of the hour that ends now. -/
def Scope.selects (scope : Scope) (organizationId : ℕ) (now : ℤ) (row : AuditRow) : Bool :=
  row.organizationId = organizationId ∧ scope.action.admits row.action = true ∧
    now - windowMs < row.occurredAt ∧ (scope.actorId.isSome → row.actorId = scope.actorId)

/-- How many rows of the log a scope counts. -/
def countRows (scope : Scope) (organizationId : ℕ) (now : ℤ) (rows : List AuditRow) : ℕ :=
  rows.countP (scope.selects organizationId now)

/-- When the row that many places after the oldest of the scope was written. -/
def findBlocking (scope : Scope) (organizationId : ℕ) (now : ℤ) (skip : ℕ)
    (rows : List AuditRow) : Option ℤ :=
  nthOldest ((rows.filter (scope.selects organizationId now)).map AuditRow.occurredAt) skip

/-- The seconds until the blocking row leaves the hour, between one and an hour. -/
def secondsUntil (now : ℤ) (blocking : Option ℤ) : ℤ :=
  let leavesAt := blocking.getD now + windowMs
  min windowSeconds (max 1 (-((now - leavesAt) / 1000)))

/-- The seconds to wait before a place opens, and zero when the limit is not reached. -/
def waitFor (scope : Scope) (organizationId : ℕ) (now : ℤ) (rows : List AuditRow) : ℤ :=
  let count := countRows scope organizationId now rows
  if count < scope.limit then 0
  else secondsUntil now (findBlocking scope organizationId now (count - scope.limit) rows)

/-! ## Calls -/

/-- How far a scope of an admission is. -/
inductive Reading where
  | waiting
  | looking (now : ℤ)
  | counted (now : ℤ) (count : ℕ)
  | settled (now : ℤ) (wait : ℤ)
deriving DecidableEq

/-- The instant of the clock that a scope has looked at. -/
def Reading.now : Reading → Option ℤ
  | .waiting => none
  | .looking now => some now
  | .counted now _ => some now
  | .settled now _ => some now

/-- The wait of a scope that has been read. -/
def Reading.wait : Reading → Option ℤ
  | .settled _ wait => some wait
  | _ => none

/-- How far a call is. -/
inductive Phase where
  /-- The call holds its place and waits for the admissions before it. -/
  | queued
  | reading
  /-- No limit is reached. -/
  | writing
  /-- The row is committed, and the model called. -/
  | admitted
  | refused (retryAfterSeconds : ℤ)
  /-- All the places of the organization were taken. -/
  | turnedAway
  /-- The transaction failed and is undone. -/
  | failed
  /-- The row is committed and the answer of the database is lost. -/
  | lost
  /-- The model has answered or failed. -/
  | finished
deriving DecidableEq

/-- A call to a model, from the instant it asks for a place. -/
structure Call (instances : ℕ) where
  home : Fin instances
  organizationId : ℕ
  userId : ℕ
  purpose : AiPurpose
  phase : Phase
  begunAt : ℤ
  reads : List (Scope × Reading)
  /-- The row that its transaction has written. -/
  row : Option AuditRow
  released : Bool
deriving DecidableEq

/-- The admission of the call is over. -/
def Phase.past : Phase → Bool
  | .queued => false
  | .reading => false
  | .writing => false
  | _ => true

/-- The row of the call is in the log. -/
def Phase.committed : Phase → Bool
  | .admitted => true
  | .lost => true
  | .finished => true
  | _ => false

/-- The transaction of the call has been opened. -/
def Phase.begun : Phase → Bool
  | .queued => false
  | .turnedAway => false
  | _ => true

/-- The call is over, and gives its place back. -/
def Phase.ended : Phase → Bool
  | .refused _ => true
  | .failed => true
  | .lost => true
  | .finished => true
  | _ => false

/-- The row of the call, once it is committed. -/
def Call.committedRow {instances : ℕ} (call : Call instances) : Option AuditRow :=
  if call.phase.committed then call.row else none

/-- The instances that answer calls: the time, the log, the places taken in each, and the calls in
the order in which they joined the queues. -/
structure Fleet (instances : ℕ) where
  clock : ℤ
  rows : List AuditRow
  /-- The rows that others have written, in the order of the log. -/
  others : List AuditRow
  active : Fin instances → ℕ → Option ℕ
  calls : List (Call instances)

/-- No call has been made. -/
def Fleet.start (instances : ℕ) (clock : ℤ) : Fleet instances :=
  ⟨clock, [], [], fun _ _ => none, []⟩

/-- A step of the admission of a call. -/
inductive Act where
  | «open»
  | look (scope : ℕ)
  | count (scope : ℕ)
  | find (scope : ℕ)
  /-- All the scopes are read. -/
  | decide
  | write (occurredAt : ℤ)
  | fail
  /-- The call of the model is over. -/
  | finish
deriving DecidableEq

/-- A step of the instances, of the log or of the clock. -/
inductive FleetEvent (instances : ℕ) where
  | tick (elapsed : ℕ)
  /-- Another writer adds a row to the log. -/
  | journal (row : AuditRow)
  /-- A call whose prompt is framed and that the engine accepts asks for a place. -/
  | acquire (home : Fin instances) (organizationId userId : ℕ) (purpose : AiPurpose)
  | act (call : ℕ) (act : Act)
  | commit (call : ℕ) (answered : Bool)
  | release (call : ℕ)
deriving DecidableEq

section Steps

variable {instances : ℕ}

/-- The admissions of the organization that the instance has queued before are over. -/
def isNext (earlier : List (Call instances)) (call : Call instances) : Bool :=
  earlier.all fun other =>
    !(other.home = call.home && other.organizationId = call.organizationId) || other.phase.past

/-- The call, one of whose scopes has gone on. -/
def Call.setRead (call : Call instances) (index : ℕ) (scope : Scope) (reading : Reading) :
    Call instances :=
  { call with reads := call.reads.set index (scope, reading) }

/-- The longest of the waits of the scopes. -/
def longestWait (waits : List ℤ) : ℤ := waits.foldl max 0

/-- The row of a call. -/
def Call.auditRow (call : Call instances) (occurredAt : ℤ) : AuditRow where
  organizationId := call.organizationId
  actorId := some call.userId
  action := call.purpose.action
  occurredAt := occurredAt

/-- A step of the admission of a call. -/
def Call.act (limits : AiLimits) (fleet : Fleet instances) (index : ℕ) (call : Call instances) :
    Act → Option (Call instances)
  | .open =>
    if call.phase = .queued ∧ isNext (fleet.calls.take index) call then
      some { call with
        phase := .reading
        begunAt := fleet.clock
        reads := (scopesOf limits call.purpose.quota call.userId).map fun scope =>
          (scope, .waiting) }
    else none
  | .look position =>
    match call.phase, call.reads[position]? with
    | .reading, some (scope, .waiting) =>
      some (call.setRead position scope (.looking fleet.clock))
    | _, _ => none
  | .count position =>
    match call.phase, call.reads[position]? with
    | .reading, some (scope, .looking now) =>
      if countRows scope call.organizationId now fleet.rows < scope.limit then
        some (call.setRead position scope (.settled now 0))
      else
        some (call.setRead position scope
          (.counted now (countRows scope call.organizationId now fleet.rows)))
    | _, _ => none
  | .find position =>
    match call.phase, call.reads[position]? with
    | .reading, some (scope, .counted now count) =>
      some (call.setRead position scope (.settled now
        (secondsUntil now (findBlocking scope call.organizationId now (count - scope.limit)
          fleet.rows))))
    | _, _ => none
  | .decide =>
    let waits := call.reads.filterMap fun read => read.2.wait
    if call.phase = .reading ∧ waits.length = call.reads.length then
      some { call with
        phase := if 0 < longestWait waits then .refused (max 1 (longestWait waits)) else .writing }
    else none
  | .write occurredAt =>
    if call.phase = .writing ∧ call.row = none ∧ call.begunAt ≤ occurredAt ∧
        occurredAt ≤ fleet.clock then
      some { call with row := some (call.auditRow occurredAt) }
    else none
  | .fail =>
    if call.phase = .reading ∨ call.phase = .writing then
      some { call with phase := .failed, row := none }
    else none
  | .finish => if call.phase = .admitted then some { call with phase := .finished } else none

/-- The place of the call, when the gate has one. -/
def Fleet.acquire (limits : AiLimits) (fleet : Fleet instances) (home : Fin instances)
    (organizationId userId : ℕ) (purpose : AiPurpose) : Fleet instances :=
  let active := (fleet.active home organizationId).getD 0
  if limits.maxConcurrentPerOrg ≤ active then
    { fleet with calls := fleet.calls ++
        [⟨home, organizationId, userId, purpose, .turnedAway, fleet.clock, [], none, true⟩] }
  else
    { fleet with
      active := Function.update fleet.active home
        (Function.update (fleet.active home) organizationId (some (active + 1)))
      calls := fleet.calls ++
        [⟨home, organizationId, userId, purpose, .queued, fleet.clock, [], none, false⟩] }

/-- The place of a call is given back, once. -/
def Fleet.release (fleet : Fleet instances) (index : ℕ) (call : Call instances) :
    Fleet instances :=
  if call.released then fleet
  else
    let left := (fleet.active call.home call.organizationId).getD 1 - 1
    { fleet with
      active := Function.update fleet.active call.home
        (Function.update (fleet.active call.home) call.organizationId
          (if left = 0 then none else some left))
      calls := fleet.calls.set index { call with released := true } }

/-- What an event makes of the instances, none when it is not possible. -/
def fleetStep (limits : AiLimits) (fleet : Fleet instances) :
    FleetEvent instances → Option (Fleet instances)
  | .tick elapsed => some { fleet with clock := fleet.clock + elapsed }
  | .journal row =>
    if row.occurredAt ≤ fleet.clock then
      some { fleet with rows := fleet.rows ++ [row], others := fleet.others ++ [row] }
    else none
  | .acquire home organizationId userId purpose =>
    some (fleet.acquire limits home organizationId userId purpose)
  | .act index act => do
    let call ← fleet.calls[index]?
    let next ← call.act limits fleet index act
    return { fleet with calls := fleet.calls.set index next }
  | .commit index answered =>
    match fleet.calls[index]? with
    | none => none
    | some call =>
      match call.phase, call.row with
      | .writing, some row =>
        some { fleet with
          rows := fleet.rows ++ [row]
          calls := fleet.calls.set index
            { call with phase := if answered then .admitted else .lost } }
      | _, _ => none
  | .release index => do
    let call ← fleet.calls[index]?
    if call.phase.ended then some (fleet.release index call) else none

end Steps

end Koklo.Ai
