import Koklo.SpecWrite.Message

/-!
# Executions of a spec-write batch

A batch is executed by jobs that may overlap, crash and be retried. An execution
loads the batch, looks for the trailer of the batch in the last commits of the
branch, then reads the head, plans and commits once, and a second time when the
head had moved. The provider commits by an atomic comparison of the head, and
its answer may be lost after the commit was made; other parties push at any
time. The history of the branch only grows.

Each step below is one exchange of an execution with the provider or the
database, or a move of the environment. The order of the steps is the schedule.
-/

set_option autoImplicit false

namespace Koklo.SpecWrite

open Koklo.Foundations

/-! ## Results and errors -/

/-- `SPEC_BATCH_ERROR_CODES`. -/
inductive ErrorCode where
  | specInvalid | forbidden | providerUnavailable | providerAuthExpired | providerRateLimited
  | internal | staleBase | writeConflict
deriving DecidableEq

/-- The identifiers of commits. -/
abbrev Sha := Text

/-- What the execution of a batch comes to. -/
inductive Outcome where
  | committed (commitSha : Sha)
  | failed (errorCode : ErrorCode)
  | conflict (errorCode : ErrorCode)
deriving DecidableEq

/-- `conflicted`, whose code is `stale_base` or `write_conflict`. -/
def conflicted (staleBase : Bool) : Outcome :=
  .conflict (if staleBase then .staleBase else .writeConflict)

/-- The errors of the provider that `classify` and `isStaleHead` tell apart. -/
inductive GitError where
  | authExpired | notFound | staleSha | otherConflict | unavailable | rateLimited | other
deriving DecidableEq

/-- The head has moved since it was read. -/
def GitError.isStaleHead (error : GitError) : Bool := error == .staleSha

/-- A business result to write, or a transient failure to run again. -/
inductive Failure where
  | outcome (outcome : Outcome)
  | retry (code : ErrorCode)
deriving DecidableEq

/-- What an error of the provider makes of an execution. -/
def classify : GitError → Failure
  | .authExpired => .outcome (.failed .providerAuthExpired)
  | .notFound | .staleSha | .otherConflict => .outcome (conflicted false)
  | .unavailable => .retry .providerUnavailable
  | .rateLimited => .retry .providerRateLimited
  | .other => .retry .internal

/-! ## The world of a batch -/

/-- The statuses of a batch. -/
inductive BatchStatus where
  | queued | committing | committed | failed | conflict
deriving DecidableEq

/-- The batch is not settled. -/
def BatchStatus.isOpen : BatchStatus → Bool
  | queued | committing => true
  | _ => false

/-- What `planBatch` answers on the files of a head: a result without commit, or changes. -/
inductive Plan where
  | failed (errorCode : ErrorCode)
  | conflict
  | changes

/-- The data of a batch, which never change. `plan` is `planBatch` on the files read at a head. -/
structure Batch where
  id : Uuid
  baseSha : Option Sha
  message : Option Text
  operations : List BatchOperation
  intact : Bool
  plan : Sha → Plan

/-- A commit of the branch. -/
structure Commit where
  sha : Sha
  message : Text
deriving DecidableEq

/-- The row of the batch. -/
structure BatchRow where
  status : BatchStatus
  commitSha : Option Sha
  errorCode : Option ErrorCode
deriving DecidableEq

/-- The two passes of an execution. -/
inductive Attempt where
  | first | second
deriving DecidableEq

/-- What an execution does next. -/
inductive Phase where
  | recovering
  | listing (attempt : Attempt)
  | marking (attempt : Attempt) (head : Sha)
  | writing (attempt : Attempt) (head : Sha)
  | settling (outcome : Outcome)
  | ended
deriving DecidableEq

/-- An execution, with the batch as it loaded it. `seen` counts the commits of the batch on the
branch at that moment; the code does not know it. -/
structure Execution where
  status : BatchStatus
  author : Option BatchAuthor
  lastAttempt : Bool
  seen : ℕ
  phase : Phase
deriving DecidableEq

/-- The branch, the latest commit first, the row of the batch and its executions. -/
structure World where
  branch : List Commit
  row : BatchRow
  executions : List Execution
deriving DecidableEq

/-- `RECOVERY_WINDOW`. -/
def recoveryWindow : ℕ := 50

section Batch

variable (batch : Batch)

/-- A commit that carries the trailer of the batch. -/
def carriesTrailer (commit : Commit) : Bool := hasOpsTrailer commit.message batch.id.text

/-- The commits of the branch that carry the trailer of the batch. -/
def batchCommits (branch : List Commit) : ℕ := branch.countP (carriesTrailer batch)

/-! ## What an execution does -/

/-- `recover`, on the last commits of the branch. -/
def recover (status : BatchStatus) (branch : List Commit) : Option Outcome :=
  let commits := branch.take recoveryWindow
  match commits.find? (carriesTrailer batch) with
  | some found => some (.committed found.sha)
  | none =>
    if status = .committing ∧ commits.length ≥ recoveryWindow then some (.failed .internal) else none

/-- An attempt up to its write: the head, the base, the plan. -/
def attemptAt (attempt : Attempt) (head : Sha) : Phase :=
  if batch.baseSha.any (· ≠ head) then .settling (conflicted true)
  else
    match batch.plan head with
    | .failed code => .settling (.failed code)
    | .conflict => .settling (conflicted false)
    | .changes => .marking attempt head

/-- Where an error leaves an execution: a stale head is tried once more, a business failure is
settled, and a transient one ends the job, or is settled on its last attempt. -/
def afterError (lastAttempt : Bool) (attempt : Option Attempt) (error : GitError) : Phase :=
  if attempt = some .first ∧ error.isStaleHead then .listing .second
  else
    match classify error with
    | .outcome outcome => .settling outcome
    | .retry code => if lastAttempt then .settling (.failed code) else .ended

/-- The attempt that a phase belongs to. -/
def Phase.attempt : Phase → Option Attempt
  | listing attempt | marking attempt _ | writing attempt _ => some attempt
  | _ => none

/-- The message of the commit of the batch. -/
def messageOf (author : Option BatchAuthor) : Text :=
  buildCommitMessage ⟨batch.id.text, batch.message, batch.operations, author⟩

/-- `markCommitting`, without effect on a batch that is not queued. -/
def BatchRow.markCommitting (row : BatchRow) : BatchRow :=
  if row.status = .queued then { row with status := .committing } else row

/-- `settle`, never over a final status. -/
def BatchRow.settle (row : BatchRow) (outcome : Outcome) : BatchRow :=
  if row.status.isOpen then
    match outcome with
    | .committed sha => { row with status := .committed, commitSha := some sha }
    | .failed code => { row with status := .failed, errorCode := some code }
    | .conflict code => { row with status := .conflict, errorCode := some code }
  else row

/-- Where an execution starts: data that are not intact and an absent provider are results. -/
def startPhase (provider : Bool) : Phase :=
  if !batch.intact then .settling (.failed .internal)
  else if !provider then .settling (.failed .providerUnavailable)
  else .recovering

/-! ## Steps -/

/-- What can happen to a batch and to its branch. -/
inductive BatchEvent where
  /-- Another party pushes a commit. -/
  | push (commit : Commit)
  /-- A job loads the batch, by a first delivery, a retry or a requeue. -/
  | start (lastAttempt provider : Bool) (author : Option BatchAuthor)
  /-- `authenticate` and `listCommits`. -/
  | recover (execution : ℕ)
  /-- `listFiles`, `readSpecFiles` and `planBatch`. -/
  | list (execution : ℕ)
  | markCommitting (execution : ℕ)
  /-- `writeCommit`: the sha a commit would get, and whether the answer is lost. -/
  | writeCommit (execution : ℕ) (sha : Sha) (lost : Bool)
  /-- The call of the current phase fails without effect. -/
  | fail (execution : ℕ) (error : GitError)
  | settle (execution : ℕ)
  /-- The process stops, or the write of the result fails. -/
  | crash (execution : ℕ)

def World.setPhase (world : World) (index : ℕ) (execution : Execution) (phase : Phase) : World :=
  { world with executions := world.executions.set index { execution with phase } }

/-- A new commit at the head, its sha being new to the branch. -/
def World.commit (world : World) (commit : Commit) : Option World :=
  if commit.sha ∈ world.branch.map Commit.sha then none
  else some { world with branch := commit :: world.branch }

/-- A step of one execution. -/
def executionStep (world : World) (index : ℕ) (execution : Execution) : BatchEvent → Option World
  | .recover _ =>
    match execution.phase with
    | .recovering =>
      some (world.setPhase index execution
        (((recover batch execution.status world.branch).map Phase.settling).getD (.listing .first)))
    | _ => none
  | .list _ =>
    match execution.phase, world.branch with
    | .listing attempt, head :: _ =>
      some (world.setPhase index execution (attemptAt batch attempt head.sha))
    | _, _ => none
  | .markCommitting _ =>
    match execution.phase with
    | .marking attempt head =>
      some ({ world with row := world.row.markCommitting }.setPhase index execution
        (.writing attempt head))
    | _ => none
  | .writeCommit _ sha lost =>
    match execution.phase with
    | .writing attempt head =>
      if world.branch.head?.map Commit.sha = some head then
        (world.commit ⟨sha, messageOf batch execution.author⟩).map fun committed =>
          committed.setPhase index execution
            (if lost then afterError execution.lastAttempt (some attempt) .unavailable
              else .settling (.committed sha))
      else
        some (world.setPhase index execution
          (afterError execution.lastAttempt (some attempt) .staleSha))
    | _ => none
  | .fail _ error =>
    match execution.phase with
    | .settling _ | .ended => none
    | phase =>
      some (world.setPhase index execution
        (afterError execution.lastAttempt phase.attempt error))
  | .settle _ =>
    match execution.phase with
    | .settling outcome =>
      some ({ world with row := world.row.settle outcome }.setPhase index execution .ended)
    | _ => none
  | .crash _ => some (world.setPhase index execution .ended)
  | .push _ | .start .. => none

/-- The execution that an event is about. -/
def BatchEvent.execution : BatchEvent → Option ℕ
  | push _ | start .. => none
  | recover execution | list execution | markCommitting execution | writeCommit execution _ _
  | fail execution _ | settle execution | crash execution => some execution

/-- The step of an event. -/
def batchStep (world : World) (event : BatchEvent) : Option World :=
  match event with
  | .push commit => world.commit commit
  | .start lastAttempt provider author =>
    if world.row.status.isOpen then
      some { world with
        executions := world.executions ++
          [⟨world.row.status, author, lastAttempt, batchCommits batch world.branch,
            startPhase batch provider⟩] }
    else some world
  | event =>
    event.execution.bind fun index =>
      world.executions[index]?.bind fun execution => executionStep batch world index execution event

/-- The world when the batch is submitted: it is queued, nothing was executed, and no commit of
the branch carries its trailer. -/
structure World.Submitted (world : World) : Prop where
  row : world.row = ⟨.queued, none, none⟩
  executions : world.executions = []
  distinct : (world.branch.map Commit.sha).Nodup
  unused : batchCommits batch world.branch = 0

end Batch

end Koklo.SpecWrite
