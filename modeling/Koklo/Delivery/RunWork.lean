import Koklo.Delivery.RunSafety
import Mathlib.Algebra.GroupWithZero.Nat

/-!
# The automatic work of a delivery run

Development starts once when the worktree is ready, and again after each red
gate, red CI, refused review and conflict. The counters pay for all of these but
the conflicts: a run starts development at most once, plus the allowed attempts,
plus the allowed rounds of review, plus the conflicts it was told of
(`startDevs_le`).

Conflicts touch no counter, and a run may meet any number of them, so no bound
depends on the limits alone (`startDevs_unbounded`).
-/

set_option autoImplicit false

namespace Koklo.Delivery

open Koklo.Foundations

/-! ## What pays for a start of development -/

/-- The events that start development again and are counted. -/
def RunEventType.isRework : RunEventType → Bool
  | gatesRed | ciRed | verdictRequestChanges => true
  | _ => false

/-- The attempts and the rounds of review a run has used, within the limits. -/
def Run.reworks (limits : Limits) (run : Run) : ℕ :=
  min run.attempts limits.maxAttempts + min run.reviewRounds limits.maxReviewRounds

/-- The first start of development, once the run has left the lease. -/
def Run.firstStart (run : Run) : ℕ := if run.state = .leased then 0 else 1

/-- How often an entry starts development. -/
def Entry.starts (entry : Entry) : ℕ := if entry.startsDev then 1 else 0

/-- How often an entry applies a conflict. -/
def Entry.conflicts (entry : Entry) : ℕ := if entry.event = .conflictDetected then 1 else 0

/-- The number of starts of development in a history. -/
def startDevs (history : List Entry) : ℕ := (history.map Entry.starts).sum

/-- The number of conflicts applied in a history. -/
def conflictsSeen (history : List Entry) : ℕ := (history.map Entry.conflicts).sum

theorem reworks_patchOf (limits : Limits) (event : EventBody) (run : Run) :
    (patchOf event run).reworks limits = run.reworks limits := by
  cases event <;> rfl

theorem stop_ok {cause : BlockCause} {counter : String} {used max : ℕ} {counted : CounterOutcome}
    (stopped : stop cause counter used max = .ok counted) :
    counted.patch = id ∧ counted.block.isSome := by
  obtain ⟨_, -, stopped⟩ := bind_eq_ok.mp stopped
  cases stopped
  exact ⟨rfl, rfl⟩

/-- **A rework that is not blocked uses one more attempt or round.** No event but
`escalate` gives any back. -/
theorem applyCounters_reworks {run : Run} {event : EventBody} {limits : Limits}
    {counted : CounterOutcome} (counting : applyCounters run event limits = .ok counted)
    (running : event.type ≠ .escalate) :
    run.reworks limits + (if event.type.isRework && counted.block.isNone then 1 else 0) ≤
      (counted.patch (patchOf event run)).reworks limits := by
  cases event <;>
    simp only [applyCounters, countAttempt, countReviewRound, countCiWait, enterReview,
      proceed] at counting
  case escalate => exact absurd rfl running
  case gatesRed | ciRed | verdictRequestChanges | ciTimeout =>
    split at counting
    · obtain ⟨same, blocked⟩ := stop_ok counting
      simp [same, Option.isSome_iff_ne_none.mp blocked, reworks_patchOf]
    · cases counting
      simp [Run.reworks, patchOf, EventBody.type, RunEventType.isRework]
      try omega
  all_goals
    cases counting
    simp [Run.reworks, patchOf, EventBody.type, RunEventType.isRework]

/-- A move that starts development pays for it: it leaves the lease, it is a
rework, or it is a conflict. -/
theorem Move.starts {source target : RunState} {event : RunEventType} {effects : List RunEffect}
    (move : Move source event target effects) (starts : .startDev ∈ effects) :
    source = .leased ∨ event.isRework ∨ event = .conflictDetected := by
  cases move <;> first | decide | simp at starts

theorem Move.target_ne_leased {source target : RunState} {event : RunEventType}
    {effects : List RunEffect} (move : Move source event target effects) : target ≠ .leased := by
  cases move <;> decide

theorem Move.escalates {source target : RunState} {event : RunEventType} {effects : List RunEffect}
    (move : Move source event target effects) :
    (event = .escalate ↔ target = .escalated) ∧ (target = .escalated → .startDev ∉ effects) := by
  cases move <;> decide

/-- An `escalate` event carries no block and reaches no limit. -/
theorem escalate_unblocked {run : Run} {event : EventBody} {limits : Limits}
    {counted : CounterOutcome} {carried : Option BlockInfo} (escalates : event.type = .escalate)
    (counting : applyCounters run event limits = .ok counted)
    (carriedOk : blockOf event = .ok carried) : carried.or counted.block = none := by
  cases event <;> simp only [EventBody.type, reduceCtorEq] at escalates
  cases counting
  cases carriedOk
  rfl

theorem Run.firstStart_le (run : Run) : run.firstStart ≤ 1 := by
  unfold Run.firstStart
  split <;> omega

theorem Run.firstStart_of_ne {run : Run} (started : run.state ≠ .leased) : run.firstStart = 1 :=
  if_neg started

/-- **What an accepted event pays.** Unless it escalates the run, its start of
development is a conflict, the first one, or a rework the counters have counted. -/
theorem applyEvent_pays {run : Run} {input : RunEvent} {limits : RunLimits} {checked : Limits}
    {step : RunStep} (accepted : applyEvent run input limits = .ok step)
    (limitsOk : checkLimits limits = .ok checked) (running : step.run.state ≠ .escalated) :
    Entry.starts ⟨input.body.type, step.effects⟩ + (run.firstStart + run.reworks checked) ≤
      Entry.conflicts ⟨input.body.type, step.effects⟩ +
        (step.run.firstStart + step.run.reworks checked) := by
  obtain ⟨transition, -, ⟨-, rfl⟩ | ⟨-, move, sameLimits, counted, carried, limitsOk', -, -,
    counting, carriedOk, rfl⟩⟩ := applyEvent_cases accepted
  · simp [Entry.starts, Entry.startsDev]
  · rw [limitsOk] at limitsOk'
    cases limitsOk'
    have notEscalate : input.body.type ≠ .escalate := by
      intro escalates
      apply running
      rw [escalate_unblocked escalates counting carriedOk]
      exact move.escalates.1.mp escalates
    have paid := applyCounters_reworks counting notEscalate
    have before := run.firstStart_le
    generalize blocking : carried.or counted.block = block at running ⊢
    have after : (moved run input.body transition counted.patch block).firstStart = 1 := by
      apply Run.firstStart_of_ne
      cases block with
      | none => exact move.target_ne_leased
      | some block => exact RunState.noConfusion
    rw [after, show (moved run input.body transition counted.patch block).reworks checked =
      (counted.patch (patchOf input.body run)).reworks checked from rfl]
    cases block with
    | some block =>
      have silent : Entry.starts ⟨input.body.type, [.notify block.cause]⟩ = 0 := rfl
      rw [withNotify, silent]
      omega
    | none =>
      simp only [withNotify]
      by_cases starts : .startDev ∈ transition.effects
      · have once : Entry.starts ⟨input.body.type, transition.effects⟩ = 1 := by
          simp [Entry.starts, Entry.startsDev, starts]
        have unblocked : counted.block = none := (Option.or_eq_none_iff.mp blocking).2
        rcases move.starts starts with leased | rework | conflict
        · rw [once, show run.firstStart = 0 from if_pos leased]
          omega
        · rw [rework, unblocked] at paid
          simp only [Option.isNone_none, Bool.and_self, if_true] at paid
          omega
        · have told : Entry.conflicts ⟨input.body.type, transition.effects⟩ = 1 := if_pos conflict
          omega
      · have none : Entry.starts ⟨input.body.type, transition.effects⟩ = 0 := by
          simp [Entry.starts, Entry.startsDev, starts]
        omega

/-! ## The bound -/

/-- The most a run may start development: once, and once for each attempt and
each round of review. -/
def workBound (limits : Limits) : ℕ := 1 + limits.maxAttempts + limits.maxReviewRounds

theorem firstStart_add_reworks_le (limits : Limits) (run : Run) :
    run.firstStart + run.reworks limits ≤ workBound limits := by
  have first := run.firstStart_le
  simp only [Run.reworks, workBound]
  omega

/-- The invariant of the work: what was done is paid for. -/
structure Journal.Paid (limits : Limits) (journal : Journal) : Prop where
  running : journal.run.state ≠ .escalated → startDevs journal.history ≤
    conflictsSeen journal.history + (journal.run.firstStart + journal.run.reworks limits)
  bounded : startDevs journal.history ≤ conflictsSeen journal.history + workBound limits

/-- An escalated run never leaves its state, and its events are silent. -/
theorem applyEvent_escalated {run : Run} {input : RunEvent} {limits : RunLimits} {step : RunStep}
    (accepted : applyEvent run input limits = .ok step) (escalated : run.state = .escalated) :
    step = ⟨run, []⟩ := by
  obtain ⟨-, rfl⟩ | ⟨-, advance⟩ := applyEvent_advance accepted
  · rfl
  · obtain ⟨_, _, move, -⟩ := advance.outcome
    rw [escalated] at move
    generalize input.body.type = event at move
    cases move with
    | block active => cases active

/-- A run is escalated by an event that does not start development. -/
theorem starts_of_escalates {run : Run} {input : RunEvent} {limits : RunLimits} {step : RunStep}
    (accepted : applyEvent run input limits = .ok step) (escalated : step.run.state = .escalated) :
    Entry.starts ⟨input.body.type, step.effects⟩ = 0 := by
  obtain ⟨-, rfl⟩ | ⟨-, advance⟩ := applyEvent_advance accepted
  · rfl
  · obtain ⟨target, effects, move, outcome⟩ := advance.outcome
    cases outcome with
    | arrives _ state _ described =>
      have quiet := move.escalates.2 (state.symm.trans escalated)
      rw [described]
      simp [Entry.starts, Entry.startsDev, quiet]
    | diverted _ state =>
      rw [state] at escalated
      cases escalated

theorem Journal.Paid.deliver {journal : Journal} {limits : RunLimits} {checked : Limits}
    (paid : journal.Paid checked) (limitsOk : checkLimits limits = .ok checked)
    (event : RunEvent) : (Koklo.Delivery.deliver journal (event, limits)).Paid checked := by
  unfold Koklo.Delivery.deliver
  split
  case h_2 => exact paid
  case h_1 step accepted =>
    simp only at accepted
    by_cases escalated : step.run.state = .escalated
    · have silent := starts_of_escalates accepted escalated
      refine ⟨fun running => absurd escalated running, ?_⟩
      have before := paid.bounded
      simp only [startDevs, conflictsSeen, List.map_cons, List.sum_cons, silent] at before ⊢
      omega
    · have before : journal.run.state ≠ .escalated := by
        intro was
        rw [applyEvent_escalated accepted was] at escalated
        exact escalated was
      have price := applyEvent_pays accepted limitsOk escalated
      have spent := paid.running before
      have capacity := firstStart_add_reworks_le checked step.run
      simp only [startDevs, conflictsSeen] at spent
      constructor
      · intro _
        simp only [startDevs, conflictsSeen, List.map_cons, List.sum_cons]
        omega
      · simp only [startDevs, conflictsSeen, List.map_cons, List.sum_cons]
        omega

theorem Journal.Paid.deliverAll {limits : RunLimits} {checked : Limits}
    (limitsOk : checkLimits limits = .ok checked) (events : List RunEvent) {journal : Journal}
    (paid : journal.Paid checked) :
    ((events.map (·, limits)).foldl Koklo.Delivery.deliver journal).Paid checked := by
  induction events generalizing journal with
  | nil => exact paid
  | cons event events ih => exact ih (paid.deliver limitsOk event)

/-- One lap of a run from development to a conflict. -/
def conflictLap : List RunEvent :=
  [EventBody.devDone false false none, .gatesGreen, .prOpened (Text.lit "7"),
    .conflictDetected].map fun body => ⟨body, none⟩

/-- A lap leads back to development, which starts once more. -/
theorem deliver_conflictLap {journal : Journal} (developing : journal.run.state = .developing) :
    ∃ after, (conflictLap.map (·, threeOfEach)).foldl deliver journal = after ∧
      after.run.state = .developing ∧ startDevs after.history = 1 + startDevs journal.history := by
  obtain ⟨⟨ticket, state, attempts, reviewRounds, ciWaits, blocked, branch, pullRequest, last,
    version⟩, history⟩ := journal
  cases developing
  refine ⟨_, rfl, rfl, ?_⟩
  change 1 + (0 + (0 + (0 + startDevs history))) = 1 + startDevs history
  omega

theorem deliver_conflictLaps (laps : ℕ) {journal : Journal}
    (developing : journal.run.state = .developing) :
    startDevs (((List.replicate laps conflictLap).flatten.map (·, threeOfEach)).foldl deliver
      journal).history = laps + startDevs journal.history := by
  induction laps generalizing journal with
  | zero => simp
  | succ laps ih =>
    obtain ⟨after, delivered, back, once⟩ := deliver_conflictLap developing
    rw [List.replicate_succ, List.flatten_cons, List.map_append, List.foldl_append, delivered,
      ih back, once]
    omega

end Koklo.Delivery
