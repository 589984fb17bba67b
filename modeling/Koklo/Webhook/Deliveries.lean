import Koklo.Foundations.Decoding
import Koklo.Foundations.RowSuccession

/-!
# Executions of webhook deliveries

An execution of the delivery job loads its delivery, counts an attempt, does what the event asks
for, and writes the result on the delivery. Its statements take turns with those of the other
executions: a delivery is executed again when its job is retried, when it expires while the first
execution is still at work, and when it is queued again. Any statement may fail and any execution
may stop.

An `installation` event reads the installation and then changes its status in a transaction. For
`deleted`, the same transaction deletes the other deliveries of the installation.
-/

set_option autoImplicit false

namespace Koklo.Webhook

open Koklo.Foundations Koklo.Foundations.ReadCommitted

/-! ## Deliveries -/

/-- The statuses of a delivery. -/
inductive DeliveryStatus where
  | received | processing | processed | ignored | failed
deriving DecidableEq

/-- Why a delivery has failed or is ignored. -/
inductive DeliveryErrorCode where
  | invalidPayload | unknownInstallation | unknownRepo | repoNotFound | providerUnavailable
  | providerAuthExpired | providerRateLimited | specTooLarge | internal
deriving DecidableEq

/-- The result of a delivery, written on its row. -/
inductive DeliveryOutcome where
  | processed
  | ignored (errorCode : Option DeliveryErrorCode)
  | failed (errorCode : DeliveryErrorCode)
deriving DecidableEq

/-- The status of a delivery that has come to this. -/
def DeliveryOutcome.status : DeliveryOutcome → DeliveryStatus
  | .processed => .processed
  | .ignored _ => .ignored
  | .failed _ => .failed

/-- The code that is stored with it. -/
def errorCodeOf : DeliveryOutcome → Option DeliveryErrorCode
  | .processed => none
  | .ignored errorCode => errorCode
  | .failed errorCode => some errorCode

/-- The kinds of events that are received. -/
inductive WebhookKind where
  | installation | push | pullRequest | pullRequestReview | checkSuite | checkRun | workflowRun
  | deploymentStatus
deriving DecidableEq

/-- The kind as it is written. -/
def WebhookKind.text : WebhookKind → Text
  | .installation => Text.lit "installation"
  | .push => Text.lit "push"
  | .pullRequest => Text.lit "pull_request"
  | .pullRequestReview => Text.lit "pull_request_review"
  | .checkSuite => Text.lit "check_suite"
  | .checkRun => Text.lit "check_run"
  | .workflowRun => Text.lit "workflow_run"
  | .deploymentStatus => Text.lit "deployment_status"

/-- A row of `webhook_deliveries`. -/
structure DeliveryRow where
  event : WebhookKind
  installationExternalId : Option Text
  payload : Data
  status : DeliveryStatus
  attempts : ℕ
  errorCode : Option DeliveryErrorCode
  /-- The row has been deleted. -/
  purged : Bool

/-- `SETTLED_STATUSES`. -/
def DeliveryStatus.settled : DeliveryStatus → Bool
  | .processed | .ignored => true
  | .received | .processing | .failed => false

/-- `begin`: an attempt is counted on a delivery that is not settled. -/
def beginUpdate (delivery : ℕ) : Update DeliveryRow where
  selects id row := id = delivery ∧ !row.purged ∧
    (row.status = .received ∨ row.status = .processing ∨ row.status = .failed)
  change row := { row with status := .processing, attempts := row.attempts + 1 }

/-- `settle`: the result is written, whatever the status. -/
def settleUpdate (delivery : ℕ) (outcome : DeliveryOutcome) : Update DeliveryRow where
  selects id row := id = delivery ∧ !row.purged
  change row := { row with status := outcome.status, errorCode := errorCodeOf outcome }

/-- The deletion of rows. -/
def purgeUpdate (selects : ℕ → DeliveryRow → Bool) : Update DeliveryRow where
  selects id row := selects id row && !row.purged
  change row := { row with purged := true }

/-! ## Payloads -/

/-- The job of a push. -/
structure PushJob where
  installationId : Text
  repositoryId : Text
  ref : Text
  after : Text
  deleted : Bool
deriving DecidableEq

/-- What an event does to an installation. -/
inductive InstallationAction where
  | created | deleted | suspend | unsuspend | newPermissionsAccepted
deriving DecidableEq

/-- `INSTALLATION_WEBHOOK_ACTIONS`. -/
def installationWebhookActions : List (InstallationAction × Text) :=
  [(.created, Text.lit "created"), (.deleted, Text.lit "deleted"), (.suspend, Text.lit "suspend"),
    (.unsuspend, Text.lit "unsuspend"),
    (.newPermissionsAccepted, Text.lit "new_permissions_accepted")]

/-- The job of an event of an installation. -/
structure InstallationJob where
  action : InstallationAction
  installationId : Text
deriving DecidableEq

/-- The job of a delivery. -/
inductive DeliveryJob where
  | push (job : PushJob)
  | installation (job : InstallationJob)
deriving DecidableEq

/-- A field that is a text, and not an empty one. -/
def payloadText (body : OrderedMap Text Data) (key : String) : Option Text :=
  match body.get (Text.lit key) with
  | some (.text value) => if value = [] then none else some value
  | _ => none

/-- The job of a push, when the body has its fields. -/
def pushOf (body : OrderedMap Text Data) : Option PushJob := do
  let installationId ← payloadText body "installationId"
  let repositoryId ← payloadText body "repositoryId"
  let ref ← payloadText body "ref"
  let after ← payloadText body "after"
  match body.get (Text.lit "deleted") with
  | some (.bool deleted) => return ⟨installationId, repositoryId, ref, after, deleted⟩
  | _ => none

/-- The job of an event of an installation, when the body has its fields. -/
def installationOf (body : OrderedMap Text Data) : Option InstallationJob := do
  let installationId ← payloadText body "installationId"
  let action ← payloadText body "action"
  let (known, _) ← installationWebhookActions.find? fun entry => entry.2 = action
  return ⟨known, installationId⟩

/-- The job of a delivery, when its payload is the one of its event. -/
def parseDeliveryPayload (event : WebhookKind) : Data → Option DeliveryJob
  | .record body =>
    if payloadText body "event" = some event.text then
      match event with
      | .push => (pushOf body).map .push
      | .installation => (installationOf body).map .installation
      | _ => none
    else none
  | _ => none

/-! ## Installations -/

/-- The statuses of an installation. -/
inductive InstallationStatus where
  | active | suspended | deleted
deriving DecidableEq

/-- A row of `provider_installations`. -/
structure InstallationRow where
  organizationId : Text
  externalId : Text
  status : InstallationStatus
deriving DecidableEq

/-- `TRANSITIONS`: the status that an action gives, and the audit action. -/
def transitions : InstallationAction → Option (InstallationStatus × Text)
  | .suspend => some (.suspended, Text.lit "provider.installation.suspended")
  | .unsuspend => some (.active, Text.lit "provider.installation.reactivated")
  | .deleted => some (.deleted, Text.lit "provider.installation.deleted")
  | .created | .newPermissionsAccepted => none

/-- A system entry of the audit log. -/
structure InstallationAudit where
  organizationId : Text
  action : Text
  target : ℕ
deriving DecidableEq

/-- What a transaction on an installation writes, from the row that was read before it. -/
structure StatusChange where
  installation : ℕ
  row : InstallationRow
  status : InstallationStatus
  audit : Text
deriving DecidableEq

/-- The update of the status: in the organization of the row that was read, whatever the status. -/
def StatusChange.update (change : StatusChange) : Update InstallationRow where
  selects id row := id = change.installation ∧ row.organizationId = change.row.organizationId
  change row := { row with status := change.status }

/-- The deliveries that a deleted installation takes with it: all but the one being executed. -/
def StatusChange.purge (change : StatusChange) (delivery : ℕ) : Update DeliveryRow :=
  purgeUpdate fun id row =>
    row.installationExternalId = some change.row.externalId && decide (id ≠ delivery)

/-! ## Executions -/

/-- What an execution does next. -/
inductive DeliveryPhase where
  | loading
  | beginning (row : DeliveryRow)
  | attempting (row : DeliveryRow)
  | pushing (job : PushJob)
  | targeting (job : InstallationJob)
  | updating (change : StatusChange)
  | auditing (change : StatusChange)
  | deleting (change : StatusChange)
  | committing (change : StatusChange)
  | committed
  | settling (outcome : DeliveryOutcome)
  | ended

/-- An execution of the job of a delivery, and how far it has come. -/
structure DeliveryExecution where
  delivery : ℕ
  lastAttempt : Bool
  phase : DeliveryPhase

/-- What is stored, and the executions that are under way. -/
structure WebhookDesk where
  deliveries : Table DeliveryRow
  installations : Table InstallationRow
  audits : List InstallationAudit
  executions : List DeliveryExecution

/-- The errors of an execution that are told apart. -/
inductive ExecutionError where
  | gitNotFound | gitProviderUnavailable | gitRateLimited | gitAuthExpired | other
deriving DecidableEq

/-- `classify`: the outcome of an error, or the code with which the job is retried. -/
def classify : ExecutionError → DeliveryOutcome ⊕ DeliveryErrorCode
  | .gitNotFound => .inl (.failed .repoNotFound)
  | .gitProviderUnavailable => .inr .providerUnavailable
  | .gitRateLimited => .inr .providerRateLimited
  | .gitAuthExpired => .inr .providerAuthExpired
  | .other => .inr .internal

/-- What an error in an attempt leads to: a result, or an exception that ends the execution. -/
def afterError (lastAttempt : Bool) (error : ExecutionError) : DeliveryPhase :=
  match classify error with
  | .inl outcome => .settling outcome
  | .inr code => if lastAttempt then .settling (.failed code) else .ended

/-- What can happen to deliveries. -/
inductive WebhookStep where
  /-- The reception writes a new delivery. -/
  | receive (row : DeliveryRow)
  /-- The purge, or the reception when it cannot queue the job, deletes a delivery. -/
  | remove (delivery : ℕ)
  /-- The authorization flow writes a new installation. -/
  | link (row : InstallationRow)
  /-- A job is executed. -/
  | execute (delivery retryCount : ℕ)
  /-- An execution goes on; `outcome` is what `handlePush` gives when it comes to its end. -/
  | advance (execution : ℕ) (outcome : DeliveryOutcome)
  /-- The next statement of an execution fails. -/
  | fail (execution : ℕ) (error : ExecutionError)
  /-- The process of an execution stops. -/
  | stop (execution : ℕ)

namespace WebhookDesk

def setPhase (desk : WebhookDesk) (tx : ℕ) (phase : DeliveryPhase) : WebhookDesk :=
  { desk with executions := desk.executions.modify tx fun execution => { execution with phase } }

/-- The transaction of an execution, if it has one, is undone. -/
def abort (desk : WebhookDesk) (tx : ℕ) : WebhookDesk :=
  { desk with
    deliveries := ReadCommitted.abort desk.deliveries tx
    installations := ReadCommitted.abort desk.installations tx }

/-- The transaction of an execution is committed, with its entry in the audit log. -/
def commit (desk : WebhookDesk) (tx : ℕ) (change : StatusChange) : WebhookDesk :=
  { desk with
    deliveries := ReadCommitted.commit desk.deliveries tx
    installations := ReadCommitted.commit desk.installations tx
    audits := desk.audits ++ [⟨change.row.organizationId, change.audit, change.installation⟩] }

/-- An update in a transaction of its own, on a delivery. -/
def updateDelivery (desk : WebhookDesk) (tx : ℕ) (update : Update DeliveryRow) :
    Option WebhookDesk :=
  (autocommit desk.deliveries tx update).map fun deliveries => { desk with deliveries }

/-- How many deliveries an update changes. -/
def countDeliveries (desk : WebhookDesk) (tx : ℕ) (update : Update DeliveryRow) : ℕ :=
  (select desk.deliveries tx update).length

/-- The delivery is loaded: one that is missing or settled is left as it is. -/
def load (desk : WebhookDesk) (tx delivery : ℕ) : DeliveryPhase :=
  match (visible desk.deliveries tx).find? fun found => found.1 = delivery ∧ !found.2.purged with
  | some (_, row) => if row.status.settled then .ended else .beginning row
  | none => .ended

/-- `handleInstallation` up to its transaction, from the installation with this external id. -/
def target (desk : WebhookDesk) (tx : ℕ) (job : InstallationJob) : DeliveryPhase :=
  match (visible desk.installations tx).find? fun found => found.2.externalId = job.installationId with
  | none => .settling (.ignored (some .unknownInstallation))
  | some (installation, row) =>
    match transitions job.action with
    | none => .settling (.ignored none)
    | some (status, audit) =>
      if row.status = .deleted then .settling (.ignored none)
      else if row.status = status then .settling .processed
      else .updating ⟨installation, row, status, audit⟩

end WebhookDesk

/-- `attempt` up to its first statement. -/
def attempt (row : DeliveryRow) : DeliveryPhase :=
  if row.event ≠ .push ∧ row.event ≠ .installation then .settling (.ignored none)
  else
    match parseDeliveryPayload row.event row.payload with
    | none => .settling (.failed .invalidPayload)
    | some (.push job) => .pushing job
    | some (.installation job) =>
      if job.action = .created then .settling (.ignored (some .unknownInstallation))
      else .targeting job

namespace WebhookDesk

/-- The next statement of an execution. An update waits for the transaction that holds its row. -/
def advance (desk : WebhookDesk) (tx : ℕ) (execution : DeliveryExecution)
    (outcome : DeliveryOutcome) : Option WebhookDesk :=
  match execution.phase with
  | .loading => some (desk.setPhase tx (desk.load tx execution.delivery))
  | .beginning row =>
    let update := beginUpdate execution.delivery
    (desk.updateDelivery tx update).map fun next =>
      next.setPhase tx (if desk.countDeliveries tx update = 1 then .attempting row else .ended)
  | .attempting row => some (desk.setPhase tx (attempt row))
  | .pushing _ => some (desk.setPhase tx (.settling outcome))
  | .targeting job => some (desk.setPhase tx (desk.target tx job))
  | .updating change =>
    (applyUpdate desk.installations tx change.update
      (select desk.installations tx change.update)).map fun installations =>
        { desk with installations }.setPhase tx (.auditing change)
  | .auditing change =>
    some (desk.setPhase tx (if change.status = .deleted then .deleting change else .committing change))
  | .deleting change =>
    (applyUpdate desk.deliveries tx (change.purge execution.delivery)
      (select desk.deliveries tx (change.purge execution.delivery))).map fun deliveries =>
        { desk with deliveries }.setPhase tx (.committing change)
  | .committing change => some ((desk.commit tx change).setPhase tx .committed)
  | .committed => some (desk.setPhase tx (.settling .processed))
  | .settling outcome =>
    (desk.updateDelivery tx (settleUpdate execution.delivery outcome)).map fun next =>
      next.setPhase tx .ended
  | .ended => none

/-- The next statement of an execution fails. An error in the attempt is classified; another one
ends the execution. -/
def fail (desk : WebhookDesk) (tx : ℕ) (execution : DeliveryExecution) (error : ExecutionError) :
    Option WebhookDesk :=
  match execution.phase with
  | .loading | .beginning _ | .attempting _ | .settling _ => some (desk.setPhase tx .ended)
  | .pushing _ | .targeting _ | .updating _ | .auditing _ | .deleting _ | .committing _
  | .committed => some ((desk.abort tx).setPhase tx (afterError execution.lastAttempt error))
  | .ended => none

end WebhookDesk

/-- The step of an event. -/
def webhookStep (retryLimit : ℕ) (desk : WebhookDesk) : WebhookStep → Option WebhookDesk
  | .receive row => some { desk with deliveries := desk.deliveries ++ [⟨some row, none⟩] }
  | .remove delivery =>
    desk.updateDelivery desk.executions.length (purgeUpdate fun id _ => decide (id = delivery))
  | .link row => some { desk with installations := desk.installations ++ [⟨some row, none⟩] }
  | .execute delivery retryCount =>
    some { desk with
      executions := desk.executions ++ [⟨delivery, decide (retryLimit ≤ retryCount), .loading⟩] }
  | .advance tx outcome => desk.executions[tx]?.bind fun execution => desk.advance tx execution outcome
  | .fail tx error => desk.executions[tx]?.bind fun execution => desk.fail tx execution error
  | .stop tx => some ((desk.abort tx).setPhase tx .ended)

/-- Deliveries and installations that no execution has begun to change. -/
structure WebhookDesk.Fresh (desk : WebhookDesk) : Prop where
  deliveries : ∀ slot ∈ desk.deliveries, slot.pending = none
  installations : ∀ slot ∈ desk.installations, slot.pending = none
  executions : desk.executions = []

end Koklo.Webhook
