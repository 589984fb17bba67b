import Koklo.Delivery.Run
import Koklo.Foundations.Fallible

/-!
# Safety of the delivery run machine

A journal is a run with the history of the events applied to it and the effects
each of them described. Delivering an event applies it when the machine accepts
it and leaves the journal as it is when the machine refuses it.

The table is read once, as the relation `Move`, and the invariants are shown
move by move. A run in review has gone through a green CI since development last
started (`Journal.Safe.reviewed`), so a merge is requested only for code that
the CI and then a reviewer have seen.
-/

set_option autoImplicit false

namespace Koklo.Delivery

open Koklo.Foundations

/-! ## What an accepted event can do -/

/-- The states that accept `block` and `quota_hit`. -/
def RunState.isActive : RunState → Bool
  | deployedStaging | blocked | escalated => false
  | _ => true

/-- The moves of the table: the transitions that are not neutral. -/
inductive Move : RunState → RunEventType → RunState → List RunEffect → Prop where
  | worktreeReady : Move .leased .worktreeReady .developing [.startDev]
  | devDone : Move .developing .devDone .localGates [.runGates]
  | gatesGreen : Move .localGates .gatesGreen .prOpen [.openPr]
  | gatesRed : Move .localGates .gatesRed .developing [.startDev]
  | prOpened : Move .prOpen .prOpened .ciWait [.waitCi]
  | ciGreen : Move .ciWait .ciGreen .reviewing [.startReview]
  | ciRed : Move .ciWait .ciRed .developing [.startDev]
  | ciTimeout : Move .ciWait .ciTimeout .ciWait [.waitCi]
  | conflictDetected : Move .ciWait .conflictDetected .developing [.startDev]
  | verdictApprove : Move .reviewing .verdictApprove .mergeRequested [.requestMerge]
  | verdictRequestChanges : Move .reviewing .verdictRequestChanges .developing [.startDev]
  | mergeDone : Move .mergeRequested .mergeDone .merged [.awaitDeploy]
  | deployGreen : Move .merged .deployGreen .deployedStaging []
  | block {state : RunState} (active : state.isActive) : Move state .block .blocked []
  | escalate : Move .blocked .escalate .escalated [.escalate]

/-- A transition of the table is neutral, without effect, or it is a move. -/
theorem table_cases {state : RunState} {event : RunEventType} {transition : Transition}
    (found : table state event = some transition) :
    (transition.neutral = true ∧ transition.effects = []) ∨
      (transition.neutral = false ∧ transition.replay = false ∧
        Move state event transition.target transition.effects) := by
  cases state <;> cases event <;>
    simp only [table, active, go, replay, Option.some.injEq, reduceCtorEq] at found <;>
    subst found <;>
    first
    | exact .inl ⟨rfl, rfl⟩
    | exact .inr ⟨rfl, rfl, .block rfl⟩
    | exact .inr ⟨rfl, rfl, by constructor⟩

/-- A transition that is a replay is neutral. -/
theorem neutral_of_replay {state : RunState} {event : RunEventType} {transition : Transition}
    (found : table state event = some transition) (replayed : transition.replay = true) :
    transition.neutral = true := by
  rcases table_cases found with ⟨neutral, -⟩ | ⟨-, notReplay, -⟩
  · exact neutral
  · rw [notReplay] at replayed
    cases replayed

theorem checkEvent_ok {input : RunEvent} {event : CheckedEvent} (h : checkEvent input = .ok event) :
    event.body = input.body ∧ checkPayload input.body = .ok () := by
  unfold checkEvent at h
  obtain ⟨version, -, h⟩ := bind_eq_ok.mp h
  obtain ⟨_, payload, h⟩ := bind_eq_ok.mp h
  cases h
  exact ⟨rfl, payload⟩

/-- **What an accepted event can do.** It is neutral and gives the run back, or
it passed every check and moves along an entry of the table. -/
theorem applyEvent_cases {run : Run} {input : RunEvent} {limits : RunLimits} {step : RunStep}
    (accepted : applyEvent run input limits = .ok step) :
    ∃ transition, table run.state input.body.type = some transition ∧
      ((transition.neutral = true ∧ step = ⟨run, []⟩) ∨
        (transition.neutral = false ∧
          Move run.state input.body.type transition.target transition.effects ∧
          ∃ checked counted carried, checkLimits limits = .ok checked ∧
            checkPayload input.body = .ok () ∧ assertWorktree run input.body = .ok () ∧
            applyCounters run input.body checked = .ok counted ∧
            blockOf input.body = .ok carried ∧
            step = ⟨moved run input.body transition counted.patch (carried.or counted.block),
              withNotify transition (carried.or counted.block)⟩)) := by
  unfold applyEvent at accepted
  obtain ⟨event, eventOk, accepted⟩ := bind_eq_ok.mp accepted
  obtain ⟨checked, limitsOk, accepted⟩ := bind_eq_ok.mp accepted
  obtain ⟨same, payload⟩ := checkEvent_ok eventOk
  rw [same] at accepted
  split at accepted
  · obtain ⟨_, _, accepted⟩ := bind_eq_ok.mp accepted
    cases accepted
  · rename_i transition found
    refine ⟨transition, found, ?_⟩
    by_cases replayed : transition.replay = true
    · rw [if_pos replayed] at accepted
      cases accepted
      have neutral := neutral_of_replay found replayed
      rcases table_cases found with ⟨-, silent⟩ | ⟨moving, -⟩
      · exact .inl ⟨neutral, by rw [silent]⟩
      · rw [moving] at neutral
        cases neutral
    · rw [if_neg replayed] at accepted
      obtain ⟨_, versionOk, accepted⟩ := bind_eq_ok.mp accepted
      obtain ⟨_, worktreeOk, accepted⟩ := bind_eq_ok.mp accepted
      rcases table_cases found with ⟨neutral, silent⟩ | ⟨moving, -, move⟩
      · rw [if_pos neutral] at accepted
        cases accepted
        exact .inl ⟨neutral, by rw [silent]⟩
      · rw [if_neg (by rw [moving]; decide)] at accepted
        obtain ⟨counted, countedOk, accepted⟩ := bind_eq_ok.mp accepted
        obtain ⟨carried, carriedOk, accepted⟩ := bind_eq_ok.mp accepted
        cases accepted
        exact .inr ⟨moving, move, checked, counted, carried, limitsOk, payload, worktreeOk,
          countedOk, carriedOk, rfl⟩

/-- The counters never touch the branch and the pull request. -/
theorem applyCounters_patch {run : Run} {event : EventBody} {limits : Limits}
    {counted : CounterOutcome} (counting : applyCounters run event limits = .ok counted) (r : Run) :
    (counted.patch r).branch = r.branch ∧ (counted.patch r).pullRequest = r.pullRequest := by
  cases event <;>
    simp only [applyCounters, countAttempt, countReviewRound, countCiWait, enterReview,
      proceed] at counting
  case gatesRed | ciRed | ciTimeout | verdictRequestChanges =>
    split at counting
    · obtain ⟨_, -, counting⟩ := bind_eq_ok.mp counting
      cases counting
      exact ⟨rfl, rfl⟩
    · cases counting
      exact ⟨rfl, rfl⟩
  all_goals
    cases counting
    exact ⟨rfl, rfl⟩

/-- A `block` event that is accepted carries a block. -/
theorem blockOf_isSome {event : EventBody} {carried : Option BlockInfo}
    (h : blockOf event = .ok carried) (blocking : event.type = .block) : carried.isSome := by
  cases event <;> simp only [EventBody.type, reduceCtorEq] at blocking
  obtain ⟨_, -, rfl⟩ := map_eq_ok.mp h
  rfl

/-- How a move ends: at its target with its effects, or diverted to a block
that is notified. -/
inductive Outcome (run : Run) (event : RunEventType) (target : RunState)
    (effects : List RunEffect) (step : RunStep) : Prop where
  | arrives (notBlock : event ≠ .block) (state : step.run.state = target)
      (blocked : step.run.blocked = run.blocked) (described : step.effects = effects)
  | diverted (cause : BlockCause) (state : step.run.state = .blocked)
      (blocked : step.run.blocked.isSome) (described : step.effects = [.notify cause])

/-- A step along a move of the table. -/
structure Advance (run : Run) (event : EventBody) (step : RunStep) : Prop where
  version : step.run.version = run.version + 1
  branch : step.run.branch = (patchOf event run).branch
  pullRequest : step.run.pullRequest = (patchOf event run).pullRequest
  worktree : assertWorktree run event = .ok ()
  outcome : ∃ target effects, Move run.state event.type target effects ∧
    Outcome run event.type target effects step

theorem outcome_moved {run : Run} {event : EventBody} {transition : Transition}
    {carried : Option BlockInfo} (carriedOk : blockOf event = .ok carried)
    (counted : CounterOutcome) :
    Outcome run event.type transition.target transition.effects
      ⟨moved run event transition counted.patch (carried.or counted.block),
        withNotify transition (carried.or counted.block)⟩ := by
  cases blocking : carried.or counted.block with
  | none =>
    refine .arrives ?_ rfl rfl rfl
    intro isBlock
    have carries := blockOf_isSome carriedOk isBlock
    rw [Option.or_eq_none_iff] at blocking
    simp [blocking.1] at carries
  | some block => exact .diverted block.cause rfl rfl rfl

/-- **An accepted event is neutral and gives the run back, or it advances the
run along a move.** -/
theorem applyEvent_advance {run : Run} {input : RunEvent} {limits : RunLimits} {step : RunStep}
    (accepted : applyEvent run input limits = .ok step) :
    ((table run.state input.body.type).any (·.neutral) = true ∧ step = ⟨run, []⟩) ∨
      ((table run.state input.body.type).any (·.neutral) = false ∧
        Advance run input.body step) := by
  obtain ⟨transition, found, ⟨neutral, rfl⟩ | ⟨moving, move, checked, counted, carried, -, -,
    worktree, counting, carriedOk, rfl⟩⟩ := applyEvent_cases accepted
  · exact .inl ⟨by simp [found, neutral], rfl⟩
  · have patched := applyCounters_patch counting (patchOf input.body run)
    exact .inr ⟨by simp [found, moving], rfl, patched.1, patched.2, worktree,
      _, _, move, outcome_moved carriedOk counted⟩

/-- The branch of a run, once set, is the branch of every later run. -/
theorem Advance.branch_kept {run : Run} {event : EventBody} {step : RunStep}
    (advance : Advance run event step) {branch : Text} (set : run.branch = some branch) :
    step.run.branch = some branch := by
  rw [advance.branch]
  cases event <;> try exact set
  case worktreeReady other =>
    have same := advance.worktree
    obtain ⟨_, -, same⟩ := bind_eq_ok.mp same
    simp only [assertSameBranch, set, Option.all_some, beq_iff_eq] at same
    split at same
    · rename_i equal
      simp [patchOf, equal]
    · cases same

/-- A run has a branch after the event that sets it, and after any event when it had one. -/
theorem Advance.branch_isSome {run : Run} {event : EventBody} {step : RunStep}
    (advance : Advance run event step)
    (set : event.type = .worktreeReady ∨ run.branch.isSome) : step.run.branch.isSome := by
  rw [advance.branch]
  cases event with
  | worktreeReady branch => rfl
  | _ => simpa [EventBody.type, patchOf] using set

theorem Advance.pullRequest_isSome {run : Run} {event : EventBody} {step : RunStep}
    (advance : Advance run event step)
    (set : event.type = .prOpened ∨ run.pullRequest.isSome) : step.run.pullRequest.isSome := by
  rw [advance.pullRequest]
  cases event with
  | prOpened pullRequest => rfl
  | _ => simpa [EventBody.type, patchOf] using set

/-! ## Journals -/

/-- An accepted event with the effects it described. -/
structure Entry where
  event : RunEventType
  effects : List RunEffect
deriving DecidableEq

/-- The step has started the development. -/
def Entry.startsDev (entry : Entry) : Bool := entry.effects.contains .startDev

/-- A run and the history of its accepted events, the latest first. -/
structure Journal where
  run : Run
  history : List Entry

/-- Delivers an event: a refused one leaves the journal as it is. -/
def deliver (journal : Journal) (input : RunEvent × RunLimits) : Journal :=
  match applyEvent journal.run input.1 input.2 with
  | .ok step => ⟨step.run, ⟨input.1.body.type, step.effects⟩ :: journal.history⟩
  | .error _ => journal

/-- The journal of a run that starts at `start` and receives the inputs in turn. -/
def journalOf (start : Run) (inputs : List (RunEvent × RunLimits)) : Journal :=
  inputs.foldl deliver ⟨start, []⟩

/-- What happened since development last started, or since the start of the run. -/
def sinceDev (history : List Entry) : List Entry := history.takeWhile (!·.startsDev)

/-- The states from `developing` to `deployed_staging`: development has started. -/
def RunState.isUnderway : RunState → Bool
  | leased | blocked | escalated => false
  | _ => true

/-- The states from `ci_wait` to `deployed_staging`: the pull request exists. -/
def RunState.isSubmitted : RunState → Bool
  | ciWait | reviewing | mergeRequested | merged | deployedStaging => true
  | _ => false

/-- The merge of an entry is backed by a green CI after the last start of development. -/
def MergeBacked (start : Run) (entry : Entry) (earlier : List Entry) : Prop :=
  .requestMerge ∈ entry.effects →
    entry.event = .verdictApprove ∧ (∃ seen ∈ sinceDev earlier, seen.event = .ciGreen) ∧
      ((∃ seen ∈ earlier, seen.startsDev) ∨ start.state = .ciWait)

/-- The invariant of a journal. -/
structure Journal.Safe (start : Run) (journal : Journal) : Prop where
  blocked_iff : journal.run.blocked.isSome ↔
    journal.run.state = .blocked ∨ journal.run.state = .escalated
  branch : journal.run.state.isUnderway → journal.run.branch.isSome
  pullRequest : journal.run.state.isSubmitted → journal.run.pullRequest.isSome
  developed : journal.run.state.isUnderway →
    (∃ seen ∈ journal.history, seen.startsDev) ∨ start.state = .ciWait
  reviewed : journal.run.state = .reviewing →
    ∃ seen ∈ sinceDev journal.history, seen.event = .ciGreen
  merges : ∀ entry earlier, (entry :: earlier) <:+ journal.history →
    MergeBacked start entry earlier

/-- A run starts `leased`, or in `ci_wait` with its branch and its pull request. -/
theorem startRun_ok {input : StartRunInput} {start : Run} (started : startRun input = .ok start) :
    start.blocked = none ∧ start.version = 0 ∧
      (start.state = .leased ∨
        (start.state = .ciWait ∧ start.branch.isSome ∧ start.pullRequest.isSome)) := by
  unfold startRun at started
  obtain ⟨_, -, started⟩ := bind_eq_ok.mp started
  obtain ⟨attempts, -, started⟩ := bind_eq_ok.mp started
  obtain ⟨reviewRounds, -, started⟩ := bind_eq_ok.mp started
  obtain ⟨_, -, started⟩ := bind_eq_ok.mp started
  obtain ⟨_, -, started⟩ := bind_eq_ok.mp started
  cases started
  refine ⟨rfl, rfl, ?_⟩
  by_cases pushed : hasPushedPullRequest input
  · have both := pushed
    rw [hasPushedPullRequest, Bool.and_eq_true] at both
    exact .inr ⟨by simp [pushed], both⟩
  · exact .inl (by simp [pushed])

theorem Journal.Safe.initial {input : StartRunInput} {start : Run}
    (started : startRun input = .ok start) : Journal.Safe start ⟨start, []⟩ := by
  obtain ⟨notBlocked, -, state | ⟨state, branch, pullRequest⟩⟩ := startRun_ok started
  · constructor <;> simp [notBlocked, state, RunState.isUnderway, RunState.isSubmitted]
  · constructor <;> simp [notBlocked, state, branch, pullRequest, RunState.isUnderway]

/-! ### One accepted event -/

variable {start : Run} {journal : Journal}

/-- A green CI seen since development last started is still seen after an entry
that does not start development. -/
theorem sinceDev_cons {entry : Entry} {history : List Entry} (quiet : entry.startsDev = false) :
    sinceDev (entry :: history) = entry :: sinceDev history := by
  simp [sinceDev, quiet]

/-- The entry of an event that does not request a merge keeps the merges backed. -/
theorem Journal.Safe.merges_cons (safe : journal.Safe start) {entry : Entry}
    (backed : MergeBacked start entry journal.history) :
    ∀ latest earlier, (latest :: earlier) <:+ (entry :: journal.history) →
      MergeBacked start latest earlier := by
  intro latest earlier suffix
  rcases List.suffix_cons_iff.mp suffix with same | suffix
  · cases same
    exact backed
  · exact safe.merges latest earlier suffix

/-- A neutral event keeps the run, and its entry is silent. -/
theorem Journal.Safe.neutral (safe : journal.Safe start) (event : RunEventType) :
    Journal.Safe start ⟨journal.run, ⟨event, []⟩ :: journal.history⟩ where
  blocked_iff := safe.blocked_iff
  branch := safe.branch
  pullRequest := safe.pullRequest
  developed := by
    intro underway
    exact (safe.developed underway).imp_left fun ⟨seen, member, starts⟩ =>
      ⟨seen, List.mem_cons_of_mem _ member, starts⟩
  reviewed := by
    intro reviewing
    obtain ⟨seen, member, green⟩ := safe.reviewed reviewing
    exact ⟨seen, by rw [sinceDev_cons rfl]; exact List.mem_cons_of_mem _ member, green⟩
  merges := safe.merges_cons (fun requests => by simp at requests)

/-- A diverted event blocks the run, whatever its move. -/
theorem Journal.Safe.divert (safe : journal.Safe start) {run : Run} {event : RunEventType}
    {cause : BlockCause} (state : run.state = .blocked) (blocked : run.blocked.isSome) :
    Journal.Safe start ⟨run, ⟨event, [.notify cause]⟩ :: journal.history⟩ where
  blocked_iff := by simp [state, blocked]
  branch := by simp [state, RunState.isUnderway]
  pullRequest := by simp [state, RunState.isSubmitted]
  developed := by simp [state, RunState.isUnderway]
  reviewed := by simp [state]
  merges := safe.merges_cons (fun requests => by simp at requests)

/-- Where a move arrives: the facts of the invariant that depend on the table. -/
theorem Move.arrives {source target : RunState} {event : RunEventType} {effects : List RunEffect}
    (move : Move source event target effects) (notBlock : event ≠ .block) :
    (target = .blocked ∨ target = .escalated ↔ source = .blocked ∨ source = .escalated) ∧
      (target.isUnderway → event = .worktreeReady ∨ source.isUnderway) ∧
      (target.isSubmitted → event = .prOpened ∨ source.isSubmitted) ∧
      (target.isUnderway → .startDev ∈ effects ∨ source.isUnderway) ∧
      (target = .reviewing → event = .ciGreen ∧ .startDev ∉ effects) ∧
      (.requestMerge ∈ effects → event = .verdictApprove ∧ source = .reviewing) := by
  cases move <;> first | exact absurd rfl notBlock | decide

/-- An event that arrives at the target of its move keeps the invariant. -/
theorem Journal.Safe.arrive (safe : journal.Safe start) {event : EventBody} {step : RunStep}
    {target : RunState} {effects : List RunEffect} (advance : Advance journal.run event step)
    (move : Move journal.run.state event.type target effects) (notBlock : event.type ≠ .block)
    (state : step.run.state = target) (blocked : step.run.blocked = journal.run.blocked)
    (described : step.effects = effects) :
    Journal.Safe start ⟨step.run, ⟨event.type, step.effects⟩ :: journal.history⟩ := by
  obtain ⟨halted, underway, submitted, developed, reviewed, merges⟩ := move.arrives notBlock
  subst state described
  constructor
  case blocked_iff => rw [blocked, safe.blocked_iff, halted]
  case branch =>
    intro now
    exact advance.branch_isSome ((underway now).imp_right safe.branch)
  case pullRequest =>
    intro now
    exact advance.pullRequest_isSome ((submitted now).imp_right safe.pullRequest)
  case developed =>
    intro now
    rcases developed now with starts | before
    · exact .inl ⟨_, List.mem_cons_self, by simpa [Entry.startsDev] using starts⟩
    · exact (safe.developed before).imp_left fun ⟨seen, member, starts⟩ =>
        ⟨seen, List.mem_cons_of_mem _ member, starts⟩
  case reviewed =>
    intro now
    obtain ⟨green, quiet⟩ := reviewed now
    refine ⟨⟨event.type, step.effects⟩, ?_, green⟩
    rw [sinceDev_cons (by simpa [Entry.startsDev] using quiet)]
    exact List.mem_cons_self
  case merges =>
    refine safe.merges_cons fun requests => ?_
    obtain ⟨approved, reviewing⟩ := merges requests
    exact ⟨approved, safe.reviewed reviewing,
      safe.developed (by rw [reviewing]; rfl)⟩

/-- **Delivering an event, accepted or refused, keeps the invariant.** -/
theorem Journal.Safe.deliver (safe : journal.Safe start) (input : RunEvent × RunLimits) :
    (Koklo.Delivery.deliver journal input).Safe start := by
  unfold Koklo.Delivery.deliver
  split
  · rename_i step accepted
    rcases applyEvent_advance accepted with ⟨-, rfl⟩ | ⟨-, advance⟩
    · exact safe.neutral _
    · obtain ⟨target, effects, move, outcome⟩ := advance.outcome
      cases outcome with
      | arrives notBlock state blocked described =>
        exact safe.arrive advance move notBlock state blocked described
      | diverted cause state blocked described =>
        rw [described]
        exact safe.divert state blocked
  · exact safe

/-! ### Every run -/

theorem Journal.Safe.deliverAll (inputs : List (RunEvent × RunLimits)) {journal : Journal}
    (safe : journal.Safe start) : (inputs.foldl Koklo.Delivery.deliver journal).Safe start := by
  induction inputs generalizing journal with
  | nil => exact safe
  | cons input inputs ih => exact ih (safe.deliver input)

/-- The branch of a journal, once set, stays. -/
theorem deliver_branch_kept {branch : Text} (set : journal.run.branch = some branch)
    (input : RunEvent × RunLimits) : (deliver journal input).run.branch = some branch := by
  unfold deliver
  split
  · rename_i step accepted
    rcases applyEvent_advance accepted with ⟨-, rfl⟩ | ⟨-, advance⟩
    · exact set
    · exact advance.branch_kept set
  · exact set

theorem deliverAll_branch_kept (inputs : List (RunEvent × RunLimits)) {journal : Journal}
    {branch : Text} (set : journal.run.branch = some branch) :
    (inputs.foldl deliver journal).run.branch = some branch := by
  induction inputs generalizing journal with
  | nil => exact set
  | cons input inputs ih => exact ih (deliver_branch_kept set input)

/-! ## Refusals -/

/-- An event without entry in the table is refused in its state. -/
theorem applyEvent_illegal {run : Run} {input : RunEvent}
    (illegal : table run.state input.body.type = none) (limits : RunLimits) :
    ∃ error, applyEvent run input limits = .error error := by
  cases outcome : applyEvent run input limits with
  | error error => exact ⟨error, rfl⟩
  | ok step =>
    obtain ⟨transition, found, -⟩ := applyEvent_cases outcome
    rw [illegal] at found
    cases found

/-- An event that expects another version than the run's is refused, unless it
replays the event that led to the state. -/
theorem applyEvent_stale {run : Run} {input : RunEvent} {expected : Number} {version : ℕ}
    (expects : input.expectedVersion = some expected) (counts : isCount expected = some version)
    (stale : version ≠ run.version)
    (fresh : (table run.state input.body.type).any (·.replay) = false) (limits : RunLimits) :
    ∃ error, applyEvent run input limits = .error error := by
  cases outcome : applyEvent run input limits with
  | error error => exact ⟨error, rfl⟩
  | ok step =>
    exfalso
    unfold applyEvent at outcome
    obtain ⟨event, eventOk, outcome⟩ := bind_eq_ok.mp outcome
    obtain ⟨checked, -, outcome⟩ := bind_eq_ok.mp outcome
    have same : event.body = input.body ∧ event.expectedVersion = some version := by
      unfold checkEvent at eventOk
      obtain ⟨kept, versionOk, eventOk⟩ := bind_eq_ok.mp eventOk
      obtain ⟨_, -, eventOk⟩ := bind_eq_ok.mp eventOk
      cases eventOk
      simp only [expects, checkExpectedVersion, counts, Except.ok.injEq] at versionOk
      exact ⟨rfl, versionOk.symm⟩
    rw [same.1, same.2] at outcome
    have refused : assertVersion run (some version) = .error (.stale version run.version) := by
      simp [assertVersion, stale]
    cases found : table run.state input.body.type with
    | none =>
      rw [found, refused] at outcome
      cases outcome
    | some transition =>
      rw [found, Option.any_some] at fresh
      simp only [found, fresh, refused] at outcome
      cases outcome

/-! ## The safety of a run -/

/-- An event that is neutral in a state. -/
def isNeutral (state : RunState) (event : RunEventType) : Bool :=
  (table state event).any (·.neutral)

/-- An event that replays the one that led to the state. -/
def isReplay (state : RunState) (event : RunEventType) : Bool :=
  (table state event).any (·.replay)

/-- What the machine does next with an event, at a run. -/
structure SafeNext (journal : Journal) (input : RunEvent × RunLimits) : Prop where
  accepted : ∀ step, applyEvent journal.run input.1 input.2 = .ok step →
    step.run.version = journal.run.version +
      if isNeutral journal.run.state input.1.body.type then 0 else 1
  refused : ∀ error, applyEvent journal.run input.1 input.2 = .error error →
    deliver journal input = journal
  illegal : table journal.run.state input.1.body.type = none →
    ∃ error, applyEvent journal.run input.1 input.2 = .error error
  stale : ∀ expected version, input.1.expectedVersion = some expected →
    isCount expected = some version → version ≠ journal.run.version →
    isReplay journal.run.state input.1.body.type = false →
    ∃ error, applyEvent journal.run input.1 input.2 = .error error

theorem safeNext (journal : Journal) (input : RunEvent × RunLimits) : SafeNext journal input where
  accepted := by
    intro step accepted
    rcases applyEvent_advance accepted with ⟨neutral, rfl⟩ | ⟨moving, advance⟩
    · simp [isNeutral, neutral]
    · simp [isNeutral, moving, advance.version]
  refused := by
    intro error refused
    simp [deliver, refused]
  illegal := fun illegal => applyEvent_illegal illegal input.2
  stale := fun _ _ expects counts stale fresh => applyEvent_stale expects counts stale fresh input.2

/-- The limits of the cases below: three of each. -/
def threeOfEach : RunLimits := ⟨.finite 3, .finite 3, .finite 3⟩

/-- A run at its start. -/
def leasedRun : Run := ⟨Text.lit "TK-1", .leased, 0, 0, 0, none, none, none, false, 0⟩

/-- The events from the lease to the request of the merge, with one red CI. -/
def eventsWithRedCi : List RunEvent :=
  [.worktreeReady (Text.lit "tk-1"), .devDone false false none, .gatesGreen,
    .prOpened (Text.lit "7"), .ciRed, .devDone false true none, .gatesGreen,
    .prOpened (Text.lit "7"), .ciGreen, .verdictApprove].map fun body => ⟨body, none⟩

end Koklo.Delivery
