import Koklo.Foundations.Exclusion
import Koklo.Foundations.StableSort
import Koklo.Foundations.UniqueKey
import Koklo.SpecBatch.BatchContent
import Mathlib.Logic.Function.Basic

/-!
# Submissions of batches

A submission looks for the batch of its key and answers with it, or tells that the key is used for
another content. When there is none, it inserts the batch, takes an identifier for each creation
from the counter of the project, whose row it locks until its end, and stores the operations. When
the unique index refuses the batch, its transaction is undone, and a second one looks for the batch
that won.

A batch and its operations are visible to the others once their transaction is committed. Rows are
written by the database as it can (`jsonb` for the fields of an operation), or the statement fails.
The worker settles the batches, and raises the counters.
-/

set_option autoImplicit false

namespace Koklo.SpecBatch

open Koklo.Foundations Koklo.Foundations.ReadCommitted

/-- The project of a request and its user. -/
structure ProjectScope where
  projectId : ℕ
  userId : ℕ

/-- The repository that holds the specification. -/
structure SpecBatchPlan where
  repoId : ℕ
  defaultBranch : Text

/-- What a submission is answered. -/
inductive SubmissionAnswer where
  | created (batch : BatchRecord)
  | replayed (batch : BatchRecord)
  | reused (batchId : ℕ)
  /-- The key is taken, and the batch that has it is not found. -/
  | uniqueViolation
  | failed

/-- What a submission does next. -/
inductive SubmissionPhase where
  /-- Looks for the batch of its key, for the first time or after a refused insert. -/
  | looking (again : Bool)
  /-- Has found the batch, and reads its operations. -/
  | comparing (id : ℕ) (row : BatchRow)
  | inserting
  /-- Has numbered operations, the last one with this value of the counter. -/
  | numbering (id : ℕ) (row : BatchRow) (operations : List OperationRow)
      (rest : List PreparedOperation) (counter : Option ℕ)
  | storing (id : ℕ) (row : BatchRow) (operations : List OperationRow) (counter : Option ℕ)
  | committing (id : ℕ) (row : BatchRow) (operations stored : List OperationRow)
      (counter : Option ℕ)
  | ended (answer : SubmissionAnswer)

/-- The batch that a submission has inserted. -/
def SubmissionPhase.inserted : SubmissionPhase → Option (ℕ × BatchRow)
  | .numbering id row _ _ _ => some (id, row)
  | .storing id row _ _ => some (id, row)
  | .committing id row _ _ _ => some (id, row)
  | _ => none

/-- The value of the counter that a submission has taken. -/
def SubmissionPhase.counter : SubmissionPhase → Option ℕ
  | .numbering _ _ _ _ counter => counter
  | .storing _ _ _ counter => counter
  | .committing _ _ _ _ counter => counter
  | _ => none

/-- A submission, and how far it has come. -/
structure SubmissionRequest where
  scope : ProjectScope
  role : Text
  plan : SpecBatchPlan
  batch : PreparedBatch
  phase : SubmissionPhase

/-- The project whose counter a submission holds. -/
def SubmissionRequest.held (request : SubmissionRequest) : Option ℕ :=
  request.phase.counter.map fun _ => request.scope.projectId

/-- The key of a batch in its project. -/
def batchKey (row : BatchRow) : ℕ × Text := (row.projectId, row.idempotencyKey)

/-- What the unique index is on: the project, and the key of the request. -/
def SubmissionRequest.key (request : SubmissionRequest) : ℕ × Text :=
  (request.scope.projectId, request.batch.idempotencyKey)

/-- The batches, the committed operations, the counters of the projects, and the requests. -/
structure SubmissionDesk where
  batches : Table BatchRow
  operations : List OperationRow
  counters : ℕ → ℕ
  requests : List SubmissionRequest

/-- What the worker writes of a batch. -/
structure Settlement where
  status : BatchStatus
  commitSha : Option Text
  errorCode : Option Text
  report : Option Data

/-- What can happen to submissions. -/
inductive SubmissionEvent where
  | arrive (scope : ProjectScope) (role : Text) (plan : SpecBatchPlan) (batch : PreparedBatch)
  /-- The next statement of a request. -/
  | advance (request : ℕ)
  /-- A statement fails, or the process stops. -/
  | fail (request : ℕ)
  | settle (id : ℕ) (outcome : Settlement)
  | raise (projectId atLeast : ℕ)

/-- `F-` and three digits at least. -/
def featureId (value : ℕ) : Text := Text.lit "F-" ++ Text.padded 3 value

/-- Operations in the order of their positions. -/
def byPosition (first second : OperationRow) : ℤ := first.position - second.position

namespace SubmissionDesk

variable (jsonb : Data → Option Data)

def setPhase (desk : SubmissionDesk) (tx : ℕ) (phase : SubmissionPhase) : SubmissionDesk :=
  { desk with requests := desk.requests.modify tx fun request => { request with phase } }

/-- The transaction of a request is undone. -/
def undo (desk : SubmissionDesk) (tx : ℕ) (phase : SubmissionPhase) : SubmissionDesk :=
  { desk with batches := abort desk.batches tx }.setPhase tx phase

/-- The batch of the key of a request. A request that looks for it has written nothing. -/
def findBatch (desk : SubmissionDesk) (request : SubmissionRequest) : Option (ℕ × BatchRow) :=
  (committedRows desk.batches).find? fun found =>
    found.2.projectId = request.scope.projectId ∧
      found.2.idempotencyKey = request.batch.idempotencyKey

/-- The operations of a batch, in the order of their positions. -/
def operationsOf (desk : SubmissionDesk) (id : ℕ) : List OperationRow :=
  sortWith byPosition (desk.operations.filter fun operation => operation.batchId = id)

/-- The answer for the batch that has the key. -/
def known (desk : SubmissionDesk) (request : SubmissionRequest) (id : ℕ) (row : BatchRow) :
    SubmissionAnswer :=
  let record := recordOf id row (desk.operationsOf id)
  if sameContent record request.batch then .replayed record else .reused record.id

/-- The row of the batch of a request. -/
def newRow (request : SubmissionRequest) : BatchRow where
  projectId := request.scope.projectId
  repoId := request.plan.repoId
  branch := request.batch.branch
  authorUserId := request.scope.userId
  authorRole := request.role
  idempotencyKey := request.batch.idempotencyKey
  baseSha := request.batch.baseSha
  commitSha := none
  status := .queued
  errorCode := none
  report := none
  message := request.batch.message

/-- The next value of the counter of a project: it waits while another request holds it. -/
def nextCounterValue (desk : SubmissionDesk) (tx projectId : ℕ) : Option ℕ → Option ℕ
  | some value => some (value + 1)
  | none =>
    if takenByOther SubmissionRequest.held desk.requests tx projectId then none
    else some (desk.counters projectId + 1)

/-- The row of an operation after the ones before it. -/
def operationRow (id : ℕ) (before : List OperationRow) (operation : PreparedOperation)
    (specId : Text) : OperationRow where
  batchId := id
  position := before.length + 1
  kind := operation.kind
  targetSpecId := some specId
  payload := .record operation.payload.fields

/-- An operation as the database keeps it. -/
def store (row : OperationRow) : Option OperationRow :=
  (jsonb row.payload).map fun payload => { row with payload }

/-- The operation rows of a batch are kept, with the value of the counter. -/
def keep (desk : SubmissionDesk) (projectId : ℕ) (stored : List OperationRow)
    (counter : Option ℕ) : SubmissionDesk :=
  { desk with
    operations := desk.operations ++ stored
    counters := match counter with
      | some value => Function.update desk.counters projectId value
      | none => desk.counters }

/-- The transaction of a request is committed. -/
def finish (desk : SubmissionDesk) (tx : ℕ) (answer : SubmissionAnswer) : SubmissionDesk :=
  { desk with batches := commit desk.batches tx }.setPhase tx (.ended answer)

/-- The statements of a submission. -/
def advance (desk : SubmissionDesk) (tx : ℕ) (request : SubmissionRequest) :
    Option SubmissionDesk :=
  match request.phase with
  | .looking again =>
    match desk.findBatch request with
    | some found => some (desk.setPhase tx (.comparing found.1 found.2))
    | none =>
      if again then some (desk.undo tx (.ended .uniqueViolation))
      else some (desk.setPhase tx .inserting)
  | .comparing id row => some (desk.finish tx (desk.known request id row))
  | .inserting =>
    let row := newRow request
    match insertKeyed batchKey desk.batches tx row with
    | .waits => none
    | .violates => some (desk.undo tx (.looking true))
    | .done batches =>
      some ({ desk with batches }.setPhase tx
        (.numbering desk.batches.length row [] request.batch.operations none))
  | .numbering id row operations rest counter =>
    match rest with
    | [] => some (desk.setPhase tx (.storing id row operations counter))
    | operation :: rest =>
      match operation.specId with
      | some specId =>
        some (desk.setPhase tx (.numbering id row
          (operations ++ [operationRow id operations operation specId]) rest counter))
      | none =>
        (desk.nextCounterValue tx request.scope.projectId counter).map fun value =>
          desk.setPhase tx (.numbering id row
            (operations ++ [operationRow id operations operation (featureId value)]) rest
            (some value))
  | .storing id row operations counter =>
    (operations.mapM (store jsonb)).map fun stored =>
      desk.setPhase tx (.committing id row operations stored counter)
  | .committing id row operations stored counter =>
    some ((desk.keep request.scope.projectId stored counter).finish tx
      (.created (recordOf id row operations)))
  | .ended _ => none

/-- A statement fails: the transaction is undone. -/
def fail (desk : SubmissionDesk) (tx : ℕ) (request : SubmissionRequest) : Option SubmissionDesk :=
  match request.phase with
  | .ended _ => none
  | _ => some (desk.undo tx (.ended .failed))

/-- The worker writes the outcome of a batch. -/
def settled (outcome : Settlement) (row : BatchRow) : BatchRow :=
  { row with
    status := outcome.status
    commitSha := outcome.commitSha
    errorCode := outcome.errorCode
    report := outcome.report }

/-- A counter is raised, unless a submission holds it; it is never lowered. -/
def raise (desk : SubmissionDesk) (projectId atLeast : ℕ) : Option SubmissionDesk :=
  if desk.requests.any fun request => request.held = some projectId then none
  else
    let value := max (desk.counters projectId) atLeast
    some { desk with counters := Function.update desk.counters projectId value }

end SubmissionDesk

/-- The step of an event. -/
def submissionStep (jsonb : Data → Option Data) (desk : SubmissionDesk) :
    SubmissionEvent → Option SubmissionDesk
  | .arrive scope role plan batch =>
    some { desk with requests := desk.requests ++ [⟨scope, role, plan, batch, .looking false⟩] }
  | .advance tx => desk.requests[tx]?.bind fun request => desk.advance jsonb tx request
  | .fail tx => desk.requests[tx]?.bind fun request => desk.fail tx request
  | .settle id outcome =>
    some { desk with batches := amend desk.batches id (SubmissionDesk.settled outcome) }
  | .raise projectId atLeast => desk.raise projectId atLeast

end Koklo.SpecBatch
