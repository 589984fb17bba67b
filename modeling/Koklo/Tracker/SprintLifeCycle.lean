import Koklo.Foundations.Text
import Koklo.Foundations.UniqueUpdate

/-!
# The life cycle of sprints under concurrent requests

An `activate` or `close` request finds the sprint by its key, checks the status it read (and, to
activate, that no sprint is active), and then updates the row by its id, whatever the status at
that moment. The partial unique index on active sprints decides between two activations: one waits
for the other and is refused when it commits.

The index keeps one active sprint whatever the order of the statements. The statuses committed for a
sprint follow planned, active, closed in every run where an activation does not update a sprint
that has been closed since it was read (`sprint_life_cycle`). Without this, an activation that read
the sprint planned reopens it (`closed_sprint_reopened`).
-/

set_option autoImplicit false

namespace Koklo.Tracker

open Koklo.Foundations Koklo.Foundations.ReadCommitted

/-- The statuses of a sprint. -/
inductive SprintStatus where
  | planned | active | closed
deriving DecidableEq

/-- A row of `sprints`, of one project. -/
structure SprintRow where
  key : Text
  status : SprintStatus
deriving DecidableEq

/-- What the index on active sprints holds. -/
def SprintRow.isActive (row : SprintRow) : Bool := row.status = .active

/-- What is asked. -/
inductive SprintDemand where
  | activate (key : Text)
  | close (key : Text)
deriving DecidableEq

/-- What a request is answered. -/
inductive SprintAnswer where
  | changed (id : ℕ) (status : SprintStatus)
  | notFound | sprintNotPlanned | sprintAlreadyActive | sprintNotActive | failed
deriving DecidableEq

/-- What a request does next. -/
inductive SprintPhase where
  | finding
  | findingActive (id : ℕ)
  | updating (id : ℕ) (status : SprintStatus)
  | auditing (id : ℕ) (status : SprintStatus)
  | committing (id : ℕ) (status : SprintStatus)
  | ended (answer : SprintAnswer)
deriving DecidableEq

/-- A request, and how far it has come. -/
structure SprintRequest where
  demand : SprintDemand
  phase : SprintPhase
deriving DecidableEq

/-- The sprints of a project, its audit log, and the requests; a request is one transaction. -/
structure SprintDesk where
  sprints : Table SprintRow
  audits : List (Text × ℕ)
  requests : List SprintRequest
deriving DecidableEq

/-- What can happen to the sprints of a project. -/
inductive SprintEvent where
  /-- A sprint is created. -/
  | create (key : Text)
  | arrive (demand : SprintDemand)
  /-- The next statement of a request. -/
  | advance (request : ℕ)
  /-- A statement fails, or the process stops. -/
  | fail (request : ℕ)

/-- The action of the audit entry. -/
def SprintDemand.action : SprintDemand → Text
  | .activate _ => Text.lit "sprint.activate"
  | .close _ => Text.lit "sprint.close"

namespace SprintDesk

def setPhase (desk : SprintDesk) (tx : ℕ) (phase : SprintPhase) : SprintDesk :=
  { desk with requests := desk.requests.modify tx fun request => { request with phase } }

/-- The transaction of a request is undone. -/
def abort (desk : SprintDesk) (tx : ℕ) : SprintDesk :=
  { desk with sprints := ReadCommitted.abort desk.sprints tx }

/-- The transaction of a request is committed, with its entry in the audit log. -/
def commit (desk : SprintDesk) (tx : ℕ) (entry : Text × ℕ) : SprintDesk :=
  { desk with sprints := ReadCommitted.commit desk.sprints tx, audits := desk.audits ++ [entry] }

/-- A sprint by its key. The request has written nothing yet, so it sees what is committed. -/
def find (desk : SprintDesk) (key : Text) : Option (ℕ × SprintRow) :=
  (committedRows desk.sprints).find? fun found => found.2.key = key

/-- The sprint is read and its status checked. -/
def check (desk : SprintDesk) : SprintDemand → SprintPhase
  | .activate key =>
    match desk.find key with
    | none => .ended .notFound
    | some (id, row) =>
      if row.status ≠ .planned then .ended .sprintNotPlanned else .findingActive id
  | .close key =>
    match desk.find key with
    | none => .ended .notFound
    | some (id, row) =>
      if row.status ≠ .active then .ended .sprintNotActive else .updating id .closed

/-- The next statement of a request. The update waits for the transactions that hold its row or, to
activate, may hold the index. -/
def advance (desk : SprintDesk) (tx : ℕ) (request : SprintRequest) : Option SprintDesk :=
  match request.phase with
  | .finding => some (desk.setPhase tx (desk.check request.demand))
  | .findingActive id =>
    if (committedRows desk.sprints).any fun found => found.2.isActive then
      some (desk.setPhase tx (.ended .sprintAlreadyActive))
    else some (desk.setPhase tx (.updating id .active))
  | .updating id status =>
    match updateRow SprintRow.isActive desk.sprints tx id fun row => { row with status } with
    | .waits => none
    | .violates =>
      some ((desk.abort tx).setPhase tx
        (.ended (if status = .active then .sprintAlreadyActive else .failed)))
    | .done sprints => some ({ desk with sprints }.setPhase tx (.auditing id status))
  | .auditing id status => some (desk.setPhase tx (.committing id status))
  | .committing id status =>
    some ((desk.commit tx (request.demand.action, id)).setPhase tx (.ended (.changed id status)))
  | .ended _ => none

end SprintDesk

/-- The step of an event. -/
def sprintStep (desk : SprintDesk) : SprintEvent → Option SprintDesk
  | .create key => some { desk with sprints := desk.sprints ++ [⟨some ⟨key, .planned⟩, none⟩] }
  | .arrive demand => some { desk with requests := desk.requests ++ [⟨demand, .finding⟩] }
  | .advance tx => desk.requests[tx]?.bind fun request => desk.advance tx request
  | .fail tx => some ((desk.abort tx).setPhase tx (.ended .failed))

/-- Sprints as they are before any request: no transaction has written one, and one at most is
active. -/
structure SprintDesk.Fresh (desk : SprintDesk) : Prop where
  free : ∀ slot ∈ desk.sprints, slot.pending = none
  oneActive : OneLive SprintRow.isActive desk.sprints
  requests : desk.requests = []

/-- An activation updates a sprint that is not committed as closed. -/
def ActivatesUnclosed (desk : SprintDesk) : SprintEvent → Prop
  | .advance tx => ∀ request ∈ desk.requests[tx]?, ∀ id, request.phase = .updating id .active →
      ∀ row ∈ committedRow desk.sprints id, row.status ≠ .closed
  | _ => True

/-! ## One active sprint -/

/-- What is written over a committed sprint is a status after `planned`. -/
def Begun (_ row : SprintRow) : Prop := row.status ≠ .planned

/-- What a request is about to write: a status after `planned`, and `closed` only on a sprint that
was begun. -/
def SprintPhase.Ready (sprints : Table SprintRow) (phase : SprintPhase) : Prop :=
  ∀ id status, phase = .updating id status → status ≠ .planned ∧
    (status = .closed → ∃ row, committedRow sprints id = some row ∧ row.status ≠ .planned)

/-- At most one sprint is active, and requests have read what they update. -/
structure SprintDesk.Sound (desk : SprintDesk) : Prop where
  indexed : Indexed SprintRow.isActive desk.sprints
  requests : ∀ request ∈ desk.requests, request.phase.Ready desk.sprints

/-- A sprint that was begun stays begun. -/
theorem SprintPhase.Ready.mono {sprints next : Table SprintRow} {phase : SprintPhase}
    (ready : phase.Ready sprints) (succeeds : Succeeds Begun sprints next) : phase.Ready next := by
  intro id status updating
  obtain ⟨begun, closes⟩ := ready id status updating
  refine ⟨begun, fun closed => ?_⟩
  obtain ⟨row, known, after⟩ := closes closed
  obtain ⟨later, found, rfl | led⟩ := succeeds id row known
  · exact ⟨later, found, after⟩
  · exact ⟨later, found, led⟩

/-- A step of one request on the table, and what the request does next. -/
theorem SprintDesk.Sound.moved {desk : SprintDesk} (sound : desk.Sound) {sprints : Table SprintRow}
    {audits : List (Text × ℕ)} (succeeds : Succeeds Begun desk.sprints sprints)
    (indexed : Indexed SprintRow.isActive sprints) (tx : ℕ) {phase : SprintPhase}
    (ready : phase.Ready sprints) :
    (SprintDesk.setPhase ⟨sprints, audits, desk.requests⟩ tx phase).Sound where
  indexed := indexed
  requests request member := by
    obtain ⟨index, found⟩ := List.mem_iff_getElem?.mp member
    rw [SprintDesk.setPhase, List.getElem?_modify] at found
    obtain ⟨former, known, same⟩ := Option.map_eq_some_iff.mp found
    split at same
    · rw [← same]
      exact ready
    · rw [← same]
      exact (sound.requests former (List.mem_of_getElem? known)).mono succeeds

/-- A phase that writes no status. -/
theorem SprintPhase.ready_of_ne {sprints : Table SprintRow} {phase : SprintPhase}
    (other : ∀ id status, phase ≠ .updating id status) : phase.Ready sprints :=
  fun id status updating => absurd updating (other id status)

/-- The status that was read allows what the request does next. -/
theorem SprintDesk.ready_check (desk : SprintDesk) (demand : SprintDemand) :
    (desk.check demand).Ready desk.sprints := by
  cases demand with
  | activate key =>
    rw [SprintDesk.check]
    split
    · exact SprintPhase.ready_of_ne (by simp)
    · split
      · exact SprintPhase.ready_of_ne (by simp)
      · exact SprintPhase.ready_of_ne (by simp)
  | close key =>
    rw [SprintDesk.check]
    split
    · exact SprintPhase.ready_of_ne (by simp)
    · rename_i id row found
      split
      · exact SprintPhase.ready_of_ne (by simp)
      · rename_i active
        intro other status updating
        cases updating
        have known := mem_committedRows.mp (List.mem_of_find?_eq_some found)
        refine ⟨by decide, fun _ => ⟨row, known, ?_⟩⟩
        rw [not_not.mp active]
        decide

/-- **A step keeps the index and leaves begun sprints begun**; and it leads each sprint where its
status may go, when an activation does not update a closed sprint. -/
theorem sprintStep_spec {desk next : SprintDesk} {event : SprintEvent} (sound : desk.Sound)
    (begun : Orderly Begun desk.sprints) (taken : sprintStep desk event = some next) :
    next.Sound ∧ Proceeds Begun desk.sprints next.sprints := by
  cases event with
  | create key =>
    cases taken
    have grown : Proceeds Begun desk.sprints
        (desk.sprints ++ [⟨some ⟨key, .planned⟩, none⟩]) := begun.grow
    refine ⟨⟨sound.indexed.grow rfl, fun request member => ?_⟩, grown⟩
    exact (sound.requests request member).mono grown.succeeds
  | arrive demand =>
    cases taken
    refine ⟨⟨sound.indexed, fun request member => ?_⟩, begun.refl⟩
    rcases List.mem_append.mp member with old | new
    · exact sound.requests request old
    · rw [List.mem_singleton.mp new]
      exact SprintPhase.ready_of_ne (by simp)
  | advance tx =>
    obtain ⟨request, found, went⟩ := Option.bind_eq_some_iff.mp taken
    have ready := sound.requests request (List.mem_of_getElem? found)
    rw [SprintDesk.advance] at went
    split at went
    case h_1 =>
      cases went
      exact ⟨sound.moved (.refl _) sound.indexed tx (desk.ready_check request.demand), begun.refl⟩
    case h_2 id phase =>
      split at went
      · cases went
        refine ⟨sound.moved (.refl _) sound.indexed tx ?_, begun.refl⟩
        exact SprintPhase.ready_of_ne (by simp)
      · cases went
        refine ⟨sound.moved (.refl _) sound.indexed tx fun other status updating => ?_, begun.refl⟩
        cases updating
        exact ⟨by decide, fun closed => by cases closed⟩
    case h_3 id status phase =>
      split at went
      · cases went
      · cases went
        have undone := begun.abort tx
        refine ⟨sound.moved undone.succeeds (sound.indexed.abort tx) tx ?_, undone⟩
        exact SprintPhase.ready_of_ne (by simp)
      · rename_i sprints updated
        cases went
        have made : Proceeds Begun desk.sprints sprints := by
          refine begun.updateRow (fun former row _ _ => ?_) updated
          exact (ready id status phase).1
        refine ⟨sound.moved made.succeeds (sound.indexed.updateRow updated) tx ?_, made⟩
        exact SprintPhase.ready_of_ne (by simp)
    case h_4 =>
      cases went
      refine ⟨sound.moved (.refl _) sound.indexed tx ?_, begun.refl⟩
      exact SprintPhase.ready_of_ne (by simp)
    case h_5 =>
      cases went
      have done := begun.commit tx
      refine ⟨sound.moved done.succeeds (sound.indexed.commit tx) tx ?_, done⟩
      exact SprintPhase.ready_of_ne (by simp)
    case h_6 => cases went
  | fail tx =>
    cases taken
    have undone := begun.abort tx
    refine ⟨sound.moved undone.succeeds (sound.indexed.abort tx) tx ?_, undone⟩
    exact SprintPhase.ready_of_ne (by simp)

/-! ## The statuses of a sprint -/

/-- A sprint keeps its status, is activated, or is closed. -/
def SprintRow.Follows (former row : SprintRow) : Prop :=
  row.status = former.status ∨ former.status = .planned ∧ row.status = .active ∨
    former.status = .active ∧ row.status = .closed

/-- A closed sprint stays closed. -/
def SprintRow.StaysClosed (former row : SprintRow) : Prop :=
  former.status = .closed → row.status = .closed

theorem SprintRow.Follows.staysClosed {former row : SprintRow} (follows : former.Follows row) :
    former.StaysClosed row := by
  intro closed
  rcases follows with same | ⟨planned, _⟩ | ⟨active, _⟩
  · rw [same, closed]
  · rw [planned] at closed
    cases closed
  · rw [active] at closed
    cases closed

theorem SprintRow.StaysClosed.trans (first second third : SprintRow)
    (before : first.StaysClosed second) (after : second.StaysClosed third) :
    first.StaysClosed third :=
  fun closed => after (before closed)

/-- What a request writes follows the committed status, unless it activates a closed sprint. -/
theorem SprintPhase.Ready.follows {sprints : Table SprintRow} {id : ℕ} {status : SprintStatus}
    (ready : (SprintPhase.updating id status).Ready sprints) {former row : SprintRow}
    (known : committedRow sprints id = some former)
    (unclosed : status = .active → former.status ≠ .closed) :
    former.Follows { row with status } := by
  obtain ⟨begun, closes⟩ := ready id status rfl
  cases status with
  | planned => exact absurd rfl begun
  | active =>
    cases before : former.status with
    | planned => exact .inr (.inl ⟨before, rfl⟩)
    | active => exact .inl before.symm
    | closed => exact absurd before (unclosed rfl)
  | closed =>
    obtain ⟨again, known', after⟩ := closes rfl
    rw [known] at known'
    cases known'
    cases before : former.status with
    | planned => exact absurd before after
    | active => exact .inr (.inr ⟨before, rfl⟩)
    | closed => exact .inl before.symm

/-- **Each step leads the statuses along their path**, when an activation does not update a closed
sprint. -/
theorem statuses_proceed {follows : SprintRow → SprintRow → Prop}
    (weaker : ∀ former row, former.Follows row → follows former row)
    {desk next : SprintDesk} {event : SprintEvent} (sound : desk.Sound)
    (orderly : Orderly follows desk.sprints) (allowed : ActivatesUnclosed desk event)
    (taken : sprintStep desk event = some next) :
    Proceeds follows desk.sprints next.sprints := by
  cases event with
  | create key =>
    cases taken
    exact orderly.grow
  | arrive demand =>
    cases taken
    exact orderly.refl
  | advance tx =>
    obtain ⟨request, found, went⟩ := Option.bind_eq_some_iff.mp taken
    have ready := sound.requests request (List.mem_of_getElem? found)
    rw [SprintDesk.advance] at went
    split at went
    case h_1 | h_4 =>
      cases went
      exact orderly.refl
    case h_2 =>
      split at went <;> cases went <;> exact orderly.refl
    case h_3 id status phase =>
      split at went
      · cases went
      · cases went
        exact orderly.abort tx
      · rename_i sprints updated
        cases went
        refine orderly.updateRow (fun former row known _ => ?_) updated
        rw [phase] at ready
        refine weaker former _ (ready.follows known fun active => ?_)
        rw [active] at phase
        exact allowed request found id phase former known
    case h_5 =>
      cases went
      exact orderly.commit tx
    case h_6 => cases went
  | fail tx =>
    cases taken
    exact orderly.abort tx

/-- What holds in every run: the requests are sound, and what they write is begun. -/
def SprintDesk.Held (desk : SprintDesk) : Prop := desk.Sound ∧ Orderly Begun desk.sprints

theorem SprintDesk.Fresh.held {desk : SprintDesk} (fresh : desk.Fresh) : desk.Held := by
  refine ⟨⟨fresh.oneActive.indexed fresh.free, fun request member => ?_⟩, .of_free fresh.free⟩
  rw [fresh.requests] at member
  cases member

theorem SprintDesk.Held.step {desk next : SprintDesk} {event : SprintEvent} (held : desk.Held)
    (taken : sprintStep desk event = some next) : next.Held := by
  obtain ⟨sound, proceeds⟩ := sprintStep_spec held.1 held.2 taken
  exact ⟨sound, proceeds.orderly⟩

/-- **The life cycle of sprints.** In every run one sprint at most is active. When no activation
updates a closed sprint, each step leads each sprint along planned, active, closed, and a sprint
that is closed stays closed to the end of the run. -/
theorem sprint_life_cycle {start mid last : SprintDesk} {first rest : List SprintEvent}
    (fresh : start.Fresh) (reached : run sprintStep start first = some mid)
    (onward : run sprintStep mid rest = some last) :
    OneLive SprintRow.isActive mid.sprints ∧
      (Along sprintStep ActivatesUnclosed start (first ++ rest) →
        ∀ id row, committedRow mid.sprints id = some row →
          ∃ later, committedRow last.sprints id = some later ∧ row.StaysClosed later ∧
            (rest.length = 1 → row.Follows later)) := by
  have kept : ∀ (s : SprintDesk) (event : SprintEvent) (next : SprintDesk), s.Held →
      sprintStep s event = some next → next.Held := fun _ _ _ held taken => held.step taken
  have held : mid.Held := run_invariant kept fresh.held reached
  refine ⟨held.1.indexed.oneLive, fun along id row known => ?_⟩
  obtain ⟨before, after⟩ := along.split reached
  -- The statuses are led along their path step by step, and over the run by what is transitive.
  have proceeds : ∀ {follows : SprintRow → SprintRow → Prop},
      (∀ former row, former.Follows row → follows former row) →
      ∀ (s : SprintDesk) (event : SprintEvent) (next : SprintDesk), s.Held →
        Orderly follows s.sprints → ActivatesUnclosed s event → sprintStep s event = some next →
        Proceeds follows s.sprints next.sprints :=
    fun weaker _ _ _ held orderly allowed taken =>
      statuses_proceed weaker held.1 orderly allowed taken
  have asIs : ∀ former row : SprintRow, former.Follows row → former.Follows row :=
    fun _ _ follows => follows
  have closing : ∀ former row : SprintRow, former.Follows row → former.StaysClosed row :=
    fun _ _ follows => follows.staysClosed
  obtain ⟨_, orderly⟩ := run_orderly kept (proceeds closing) fresh.held (.of_free fresh.free) before
    reached
  obtain ⟨_, stepwise⟩ := run_orderly kept (proceeds asIs) fresh.held (.of_free fresh.free) before
    reached
  obtain ⟨later, found, led⟩ := run_succeeds SprintRow.StaysClosed.trans kept (proceeds closing)
    held orderly after onward id row known
  refine ⟨later, found, ?_, fun single => ?_⟩
  · rcases led with rfl | stays
    · exact fun closed => closed
    · exact stays
  · obtain ⟨event, rfl⟩ := List.length_eq_one_iff.mp single
    obtain ⟨next, taken, ended⟩ := run_cons_eq_some onward
    cases ended
    obtain ⟨again, found', led'⟩ :=
      (proceeds asIs mid event last held stepwise after.1 taken).succeeds id row known
    rw [found] at found'
    cases found'
    rcases led' with rfl | follows
    · exact .inl rfl
    · exact follows

/-- A planned sprint. -/
def plannedDesk : SprintDesk where
  sprints := [⟨some ⟨Text.lit "SP-1", .planned⟩, none⟩]
  audits := []
  requests := []

theorem plannedDesk_fresh : plannedDesk.Fresh where
  free slot member := by rw [List.mem_singleton.mp member]
  oneActive i j first second knownI knownJ liveI _ := by
    obtain ⟨slot, found, same⟩ := committedRow_eq_some.mp knownI
    rw [List.mem_singleton.mp (List.mem_of_getElem? found)] at same
    cases same
    cases liveI
  requests := rfl

/-- The events of one request from its arrival to its commit. -/
def wholeRequest (tx : ℕ) (demand : SprintDemand) (statements : ℕ) : List SprintEvent :=
  .arrive demand :: List.replicate statements (.advance tx)

/-- A request in another phase than the update of an activation. -/
theorem activatesUnclosed_of_phase {desk : SprintDesk} {tx : ℕ} {request : SprintRequest}
    (found : desk.requests[tx]? = some request)
    (other : ∀ id, request.phase ≠ .updating id .active) : ActivatesUnclosed desk (.advance tx) := by
  intro again found' id updating
  rw [found] at found'
  cases found'
  exact absurd updating (other id)

/-- The sprint after a request that activated it and one that closed it. -/
def closedDesk : SprintDesk where
  sprints := [⟨some ⟨Text.lit "SP-1", .closed⟩, none⟩]
  audits := [(Text.lit "sprint.activate", 0), (Text.lit "sprint.close", 0)]
  requests := [⟨.activate (Text.lit "SP-1"), .ended (.changed 0 .active)⟩,
    ⟨.close (Text.lit "SP-1"), .ended (.changed 0 .closed)⟩]

/-- A sprint that is activated and closed, and a late activation that is refused. -/
theorem sprint_life_cycle_closed :
    ∃ last, run sprintStep plannedDesk (wholeRequest 0 (.activate (Text.lit "SP-1")) 5 ++
        wholeRequest 1 (.close (Text.lit "SP-1")) 4) = some closedDesk ∧
      run sprintStep closedDesk (wholeRequest 2 (.activate (Text.lit "SP-1")) 1) = some last ∧
      OneLive SprintRow.isActive closedDesk.sprints ∧
      ∃ later, committedRow last.sprints 0 = some later ∧ later.status = .closed := by
  have started : run sprintStep plannedDesk (wholeRequest 0 (.activate (Text.lit "SP-1")) 5 ++
      wholeRequest 1 (.close (Text.lit "SP-1")) 4) = some closedDesk := rfl
  have ended : run sprintStep closedDesk (wholeRequest 2 (.activate (Text.lit "SP-1")) 1) =
      some _ := rfl
  obtain ⟨oneActive, follows⟩ := sprint_life_cycle plannedDesk_fresh started ended
  have along : Along sprintStep ActivatesUnclosed plannedDesk
      ((wholeRequest 0 (.activate (Text.lit "SP-1")) 5 ++
        wholeRequest 1 (.close (Text.lit "SP-1")) 4) ++
          wholeRequest 2 (.activate (Text.lit "SP-1")) 1) := by
    refine .of_step rfl trivial (.of_step rfl ?_ (.of_step rfl ?_ (.of_step rfl ?_ (.of_step rfl ?_
      (.of_step rfl ?_ (.of_step rfl trivial (.of_step rfl ?_ (.of_step rfl ?_ (.of_step rfl ?_
        (.of_step rfl ?_ (.of_step rfl trivial (.of_step rfl ?_ trivial))))))))))))
    case refine_3 =>
      intro request found id phase row known
      cases found
      cases phase
      cases known
      decide
    all_goals
      refine activatesUnclosed_of_phase rfl fun id phase => ?_
      cases phase
  obtain ⟨later, found, stays, _⟩ := follows along 0 _ rfl
  exact ⟨_, started, ended, oneActive, later, found, stays rfl⟩

/-- **A closed sprint is activated again**: a request to activate it reads it planned, another
activates it, a third closes it, and the first one then updates it. -/
theorem closed_sprint_reopened :
    plannedDesk.Fresh ∧ ∃ mid last, run sprintStep plannedDesk
        (wholeRequest 0 (.activate (Text.lit "SP-1")) 2 ++
          wholeRequest 1 (.activate (Text.lit "SP-1")) 5 ++
          wholeRequest 2 (.close (Text.lit "SP-1")) 4) = some mid ∧
      run sprintStep mid (List.replicate 3 (.advance 0)) = some last ∧
      (committedRow mid.sprints 0).map SprintRow.status = some .closed ∧
      (committedRow last.sprints 0).map SprintRow.status = some .active :=
  ⟨plannedDesk_fresh, _, _, rfl, rfl, rfl, rfl⟩

end Koklo.Tracker
