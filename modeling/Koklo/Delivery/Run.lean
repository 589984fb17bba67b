import Koklo.Foundations.Number
import Koklo.Foundations.Text

/-!
# The delivery run machine

A run is the state of one delivery of a ticket. `startRun` creates it and
`applyEvent` applies an event to it: the checks of the event and of the limits
come first, then the idempotent replay, the version, the transition table and
the guards of a branch, and last the counters, which may turn a move into a
block. The machine executes nothing: a step carries the effects its runner has
to execute.

Everything an accepted event can do is said once, in `applyEvent_cases`: it is
neutral and gives the run back, or it moves along an entry of the table to the
run `moved`. Refused events have no step.
-/

set_option autoImplicit false

namespace Koklo.Delivery

open Koklo.Foundations

/-! ## Values -/

/-- The states of a run, in the order of `RUN_STATES`. -/
inductive RunState where
  | leased | developing | localGates | prOpen | ciWait | reviewing | mergeRequested | merged
  | deployedStaging | blocked | escalated
deriving DecidableEq

/-- The typed causes of a block (`BLOCK_CAUSES`). -/
inductive BlockCause where
  | dependency | ambiguousSpec | ciFailed | conflict | quota | reviewExhausted | noOutput
  | gitError | ciTimeout
deriving DecidableEq

/-- What is known of a block. -/
structure BlockDetail where
  output : Text
  remoteBranchExists : Option Bool
deriving DecidableEq

/-- Why a run is blocked. -/
structure BlockInfo where
  cause : BlockCause
  detail : BlockDetail
deriving DecidableEq

/-- A run of a ticket: its state, its counters and what it has produced. -/
structure Run where
  ticket : Text
  state : RunState
  attempts : ℕ
  reviewRounds : ℕ
  ciWaits : ℕ
  blocked : Option BlockInfo
  branch : Option Text
  pullRequest : Option Text
  lastReviewedAfterFix : Bool
  version : ℕ
deriving DecidableEq

/-- The limits as a caller passes them. -/
structure RunLimits where
  maxAttempts : Number
  maxReviewRounds : Number
  maxCiWaits : Number

/-- The limits once checked: three integers at least zero. -/
structure Limits where
  maxAttempts : ℕ
  maxReviewRounds : ℕ
  maxCiWaits : ℕ

/-- The types of the events of a run. -/
inductive RunEventType where
  | worktreeReady | devDone | gatesGreen | gatesRed | prOpened | ciGreen | ciRed | ciTimeout
  | conflictDetected | verdictApprove | verdictRequestChanges | mergeDone | deployGreen | block
  | escalate | quotaHit
deriving DecidableEq

/-- An event with the data its type carries. -/
inductive EventBody where
  | worktreeReady (branch : Text)
  | devDone (diffEmpty remoteBranchExists : Bool) (output : Option Text)
  | gatesGreen
  | gatesRed
  | prOpened (pullRequest : Text)
  | ciGreen
  | ciRed
  | ciTimeout
  | conflictDetected
  | verdictApprove
  | verdictRequestChanges
  | mergeDone
  | deployGreen
  | block (cause : BlockCause) (output : Text) (remoteBranchExists : Option Bool)
  | escalate
  | quotaHit
deriving DecidableEq

/-- The type of an event. -/
def EventBody.type : EventBody → RunEventType
  | worktreeReady _ => .worktreeReady
  | devDone .. => .devDone
  | gatesGreen => .gatesGreen
  | gatesRed => .gatesRed
  | prOpened _ => .prOpened
  | ciGreen => .ciGreen
  | ciRed => .ciRed
  | ciTimeout => .ciTimeout
  | conflictDetected => .conflictDetected
  | verdictApprove => .verdictApprove
  | verdictRequestChanges => .verdictRequestChanges
  | mergeDone => .mergeDone
  | deployGreen => .deployGreen
  | block .. => .block
  | escalate => .escalate
  | quotaHit => .quotaHit

/-- An event, with the version its sender has read. -/
structure RunEvent where
  body : EventBody
  expectedVersion : Option Number := none

/-- An event that passed `checkEvent`. -/
structure CheckedEvent where
  body : EventBody
  expectedVersion : Option ℕ

/-- What is asked for after a transition. -/
inductive RunEffect where
  | prepareWorktree | startDev | runGates | openPr | waitCi | startReview | requestMerge
  | awaitDeploy | escalate
  | notify (cause : BlockCause)
deriving DecidableEq

/-- Why an event or the start of a run is refused. -/
inductive RunError where
  | invalidEvent (reason : String)
  | invalidTransition (source : RunState) (event : RunEventType)
  | stale (expectedVersion actualVersion : ℕ)
  | resumeRequired (ticket branch pullRequest : Text)
deriving DecidableEq

/-! ## Checks -/

/-- `isText`: a string with a visible character. -/
def isText (value : Text) : Bool := value.trim != []

/-- `isCount`, as the count it accepts. -/
def isCount (value : Number) : Option ℕ := value.toNat?

/-- The event is refused. -/
def reject {α : Type} (reason : String) : Except RunError α := .error (.invalidEvent reason)

/-- The text is not empty. -/
def checkText (value : Text) (reason : String) : Except RunError Unit :=
  if isText value then .ok () else reject reason

/-- `createBlock`: a known cause, a raw output that is not blank, and `remoteBranchExists` for
`no_output`, the only cause that keeps it. -/
def createBlock (cause : BlockCause) (output : Option Text) (remoteBranchExists : Option Bool) :
    Except RunError BlockInfo :=
  match output with
  | none => reject "la sortie brute du blocage est obligatoire"
  | some output =>
    if !isText output then reject "la sortie brute du blocage est obligatoire"
    else if cause ≠ .noOutput then .ok ⟨cause, output, none⟩
    else
      match remoteBranchExists with
      | none => reject "no_output exige remoteBranchExists"
      | some remote => .ok ⟨cause, output, some remote⟩

/-- `checkPayload`: the data an event must carry. The flags of `dev_done` are booleans by type. -/
def checkPayload : EventBody → Except RunError Unit
  | .worktreeReady branch => checkText branch "branche obligatoire"
  | .prOpened pullRequest => checkText pullRequest "pull request obligatoire"
  | _ => .ok ()

/-- The version an event expects, when it names one. -/
def checkExpectedVersion : Option Number → Except RunError (Option ℕ)
  | none => .ok none
  | some version =>
    match isCount version with
    | none => reject "expectedVersion invalide"
    | some count => .ok (some count)

/-- The checks of an event. -/
def checkEvent (event : RunEvent) : Except RunError CheckedEvent := do
  let expectedVersion ← checkExpectedVersion event.expectedVersion
  checkPayload event.body
  return ⟨event.body, expectedVersion⟩

/-- `blockOf`: the block an event carries. -/
def blockOf : EventBody → Except RunError (Option BlockInfo)
  | .block cause output remoteBranchExists =>
    (createBlock cause (some output) remoteBranchExists).map some
  | .devDone true remoteBranchExists output =>
    (createBlock .noOutput output (some remoteBranchExists)).map some
  | _ => .ok none

/-- The checks of the limits. -/
def checkLimits (limits : RunLimits) : Except RunError Limits :=
  match isCount limits.maxAttempts, isCount limits.maxReviewRounds, isCount limits.maxCiWaits with
  | some attempts, some reviewRounds, some ciWaits => .ok ⟨attempts, reviewRounds, ciWaits⟩
  | _, _, _ => reject "limites de run invalides"

/-! ## Start -/

/-- What a run starts from: nothing, or what an earlier one has left. -/
structure StartRunInput where
  ticket : Text
  attempts : Option Number := none
  reviewRounds : Option Number := none
  branch : Option Text := none
  pullRequest : Option Text := none

/-- An earlier run has left a branch and a pull request. -/
def hasPushedPullRequest (input : StartRunInput) : Bool :=
  input.branch.isSome && input.pullRequest.isSome

/-- A counter that was left, or none. -/
def checkCount (value : Option Number) : Except RunError ℕ :=
  match value with
  | none => .ok 0
  | some value =>
    match isCount value with
    | none => reject "compteur invalide"
    | some count => .ok count

def checkOptionalText (value : Option Text) (reason : String) : Except RunError Unit :=
  if value.all isText then .ok () else reject reason

/-- `startRun`: a run `leased` at version 0, or `ci_wait` when the pull request exists. -/
def startRun (input : StartRunInput) : Except RunError Run := do
  checkText input.ticket "ticket obligatoire"
  let attempts ← checkCount input.attempts
  let reviewRounds ← checkCount input.reviewRounds
  checkOptionalText input.branch "branche invalide"
  checkOptionalText input.pullRequest "pull request invalide"
  return {
    ticket := input.ticket
    state := if hasPushedPullRequest input then .ciWait else .leased
    attempts := attempts
    reviewRounds := reviewRounds
    ciWaits := 0
    blocked := none
    branch := input.branch
    pullRequest := input.pullRequest
    lastReviewedAfterFix := false
    version := 0 }

/-! ## Counters -/

/-- What an event does to the counters: the fields it changes, or a block at a limit. -/
structure CounterOutcome where
  patch : Run → Run
  block : Option BlockInfo

/-- The counter lets the event pass. -/
def proceed (patch : Run → Run) : CounterOutcome := ⟨patch, none⟩

/-- The raw output of a block at a limit. -/
def limitReached (counter : String) (used max : ℕ) : Text :=
  Text.lit "plafond atteint : " ++ Text.lit counter ++ Text.lit " " ++ Text.lit (toString used) ++
    Text.lit "/" ++ Text.lit (toString max)

/-- The counter is at its limit: the run is blocked. -/
def stop (cause : BlockCause) (counter : String) (used max : ℕ) :
    Except RunError CounterOutcome := do
  let block ← createBlock cause (some (limitReached counter used max)) none
  return ⟨id, some block⟩

/-- One more attempt, up to the limit. -/
def countAttempt (run : Run) (limits : Limits) : Except RunError CounterOutcome :=
  if run.attempts ≥ limits.maxAttempts then
    stop .ciFailed "tentatives" run.attempts limits.maxAttempts
  else .ok (proceed fun r => { r with attempts := run.attempts + 1 })

/-- One more round of review, up to the limit. -/
def countReviewRound (run : Run) (limits : Limits) : Except RunError CounterOutcome :=
  if run.reviewRounds ≥ limits.maxReviewRounds then
    stop .reviewExhausted "rounds de review" run.reviewRounds limits.maxReviewRounds
  else
    .ok (proceed fun r =>
      { r with reviewRounds := run.reviewRounds + 1, lastReviewedAfterFix := false })

/-- One more wait for the checks, up to the limit. -/
def countCiWait (run : Run) (limits : Limits) : Except RunError CounterOutcome :=
  if run.ciWaits ≥ limits.maxCiWaits then
    stop .ciTimeout "attentes de CI" run.ciWaits limits.maxCiWaits
  else .ok (proceed fun r => { r with ciWaits := run.ciWaits + 1 })

/-- At the limit of rounds, the review that follows is the one of the last fix. -/
def enterReview (run : Run) (limits : Limits) : CounterOutcome :=
  proceed fun r =>
    { r with lastReviewedAfterFix := decide (run.reviewRounds ≥ limits.maxReviewRounds) }

/-- The counter that an event adds to. -/
def applyCounters (run : Run) (event : EventBody) (limits : Limits) :
    Except RunError CounterOutcome :=
  match event with
  | .gatesRed | .ciRed => countAttempt run limits
  | .verdictRequestChanges => countReviewRound run limits
  | .ciTimeout => countCiWait run limits
  | .ciGreen => .ok (enterReview run limits)
  | .escalate => .ok (proceed fun r => { r with attempts := 0, reviewRounds := 0, ciWaits := 0 })
  | _ => .ok (proceed id)

/-! ## The transition table -/

/-- A transition: the state it leads to and the effects it describes. A neutral one leaves the run
as it is, and a replay is accepted before the version is checked. -/
structure Transition where
  target : RunState
  effects : List RunEffect
  neutral : Bool := false
  replay : Bool := false

/-- A transition with its effects. -/
def go (target : RunState) (effects : List RunEffect) : Option Transition :=
  some { target, effects }

/-- A transition that was already made. -/
def replay (target : RunState) : Option Transition :=
  some { target, effects := [], neutral := true, replay := true }

/-- Every active state also accepts `block`, and `quota_hit` without effect. -/
def active (state : RunState) (moves : RunEventType → Option Transition) :
    RunEventType → Option Transition
  | .block => go .blocked []
  | .quotaHit => some { target := state, effects := [], neutral := true }
  | event => moves event

/-- `TABLE`: what is absent is forbidden. -/
def table : RunState → RunEventType → Option Transition
  | .leased => active .leased fun
    | .worktreeReady => go .developing [.startDev]
    | _ => none
  | .developing => active .developing fun
    | .devDone => go .localGates [.runGates]
    | _ => none
  | .localGates => active .localGates fun
    | .gatesGreen => go .prOpen [.openPr]
    | .gatesRed => go .developing [.startDev]
    | _ => none
  | .prOpen => active .prOpen fun
    | .prOpened => go .ciWait [.waitCi]
    | _ => none
  | .ciWait => active .ciWait fun
    | .ciGreen => go .reviewing [.startReview]
    | .ciRed => go .developing [.startDev]
    | .ciTimeout => go .ciWait [.waitCi]
    | .conflictDetected => go .developing [.startDev]
    | _ => none
  | .reviewing => active .reviewing fun
    | .verdictApprove => go .mergeRequested [.requestMerge]
    | .verdictRequestChanges => go .developing [.startDev]
    | _ => none
  | .mergeRequested => active .mergeRequested fun
    | .mergeDone => go .merged [.awaitDeploy]
    | _ => none
  | .merged => active .merged fun
    | .deployGreen => go .deployedStaging []
    | .mergeDone => replay .merged
    | _ => none
  | .deployedStaging => fun
    | .deployGreen => replay .deployedStaging
    | _ => none
  | .blocked => fun
    | .escalate => go .escalated [.escalate]
    | _ => none
  | .escalated => fun
    | .escalate => replay .escalated
    | _ => none

/-! ## Applying an event -/

/-- What a transition gives. -/
structure RunStep where
  run : Run
  effects : List RunEffect

/-- `patchOf`: the fields an event carries into the run. -/
def patchOf (event : EventBody) (run : Run) : Run :=
  match event with
  | .worktreeReady branch => { run with branch := some branch }
  | .prOpened pullRequest => { run with pullRequest := some pullRequest }
  | _ => run

/-- The effects, or a notification when the run is blocked. -/
def withNotify (transition : Transition) : Option BlockInfo → List RunEffect
  | none => transition.effects
  | some block => [.notify block.cause]

/-- A run `leased` whose branch is pushed with an open pull request does not start again. -/
def assertRestartable (run : Run) : Except RunError Unit :=
  match run.state, run.branch, run.pullRequest with
  | .leased, some branch, some pullRequest =>
    .error (.resumeRequired run.ticket branch pullRequest)
  | _, _, _ => .ok ()

/-- The branch of a run is never replaced by another one. -/
def assertSameBranch (run : Run) (branch : Text) : Except RunError Unit :=
  if run.branch.all (· == branch) then .ok () else reject "changement de branche refusé"

/-- The run is at the version that the sender has read. -/
def assertVersion (run : Run) (expectedVersion : Option ℕ) : Except RunError Unit :=
  match expectedVersion with
  | none => .ok ()
  | some expected => if expected = run.version then .ok () else .error (.stale expected run.version)

/-- The branch of an event is the one of the run. -/
def assertWorktree (run : Run) : EventBody → Except RunError Unit
  | .worktreeReady branch => do
    assertRestartable run
    assertSameBranch run branch
  | _ => .ok ()

/-- The run after a move along a transition. -/
def moved (run : Run) (event : EventBody) (transition : Transition) (patch : Run → Run)
    (block : Option BlockInfo) : Run :=
  { patch (patchOf event run) with
    blocked := block.or run.blocked
    state := if block.isNone then transition.target else .blocked
    version := run.version + 1 }

/-- `applyEvent`. -/
def applyEvent (run : Run) (input : RunEvent) (limits : RunLimits) : Except RunError RunStep := do
  let event ← checkEvent input
  let checked ← checkLimits limits
  match table run.state event.body.type with
  | none =>
    assertVersion run event.expectedVersion
    .error (.invalidTransition run.state event.body.type)
  | some transition =>
    if transition.replay then
      return ⟨run, transition.effects⟩
    assertVersion run event.expectedVersion
    assertWorktree run event.body
    if transition.neutral then
      return ⟨run, transition.effects⟩
    let counted ← applyCounters run event.body checked
    let block := (← blockOf event.body).or counted.block
    return ⟨moved run event.body transition counted.patch block, withNotify transition block⟩

end Koklo.Delivery
