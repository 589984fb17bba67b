import Koklo.Domain.TicketTransitions
import Koklo.Foundations.Runs

/-!
# The life cycle of tickets under concurrent requests

A `transition` request reads the ticket, checks the transition from the status
it read, and writes the new status in a later statement, without condition on
the status at that moment. The worker's `settleMerged` writes `done` only where
the ticket is still `in_review`. A write is atomic: the row stays locked from
the statement to its commit.

In a run where each write finds the status that its request read, the committed
statuses of every ticket are a path of the transitions
(`committed_statuses_path`). Without this, a request that read `in_review` can
write over a `done` that was committed in between
(`committed_statuses_not_path`).
-/

set_option autoImplicit false

namespace Koklo.Tracker

open Koklo.Domain Koklo.Foundations

/-- A ticket row, with the statuses committed so far, the latest first. -/
structure TicketRow where
  status : TicketStatus
  deleted : Bool
  committed : List TicketStatus
deriving DecidableEq

/-- A request between its check and its write. -/
structure TransitionRequest where
  ticket : ℕ
  read : TicketStatus
  target : TicketStatus
deriving DecidableEq

/-- The tickets, and the requests for a transition. -/
structure Board where
  tickets : List TicketRow
  requests : List TransitionRequest
deriving DecidableEq

/-- What can happen to the tickets. -/
inductive TicketEvent where
  /-- A request reads the ticket and checks the transition; `satisfied` is the answer of
  `dependenciesAreSatisfied`. -/
  | transition (ticket : ℕ) (target : TicketStatus) (satisfied : Bool)
  /-- `setStatus` of a pending request, and its commit. -/
  | setStatus (request : ℕ)
  /-- A pending request fails or its process stops. -/
  | abandon (request : ℕ)
  | settleMerged (ticket : ℕ)
  | softDelete (ticket : ℕ)

/-- A status is written and committed. -/
def TicketRow.commit (row : TicketRow) (status : TicketStatus) : TicketRow :=
  { row with status := status, committed := status :: row.committed }

/-- The checks of `transition`, on the ticket as it was read. -/
def acceptsTransition (row : TicketRow) (target : TicketStatus) (satisfied : Bool) : Bool :=
  !row.deleted && canTransition row.status target &&
    !(row.status == .todo && target == .inProgress && !satisfied)

/-- The step of an event. -/
def ticketStep (board : Board) : TicketEvent → Option Board
  | .transition ticket target satisfied =>
    board.tickets[ticket]?.map fun row =>
      if acceptsTransition row target satisfied then
        { board with requests := board.requests ++ [⟨ticket, row.status, target⟩] }
      else board
  | .setStatus request =>
    board.requests[request]?.bind fun pending =>
      board.tickets[pending.ticket]?.map fun row =>
        { tickets := board.tickets.set pending.ticket (row.commit pending.target)
          requests := board.requests.eraseIdx request }
  | .abandon request => some { board with requests := board.requests.eraseIdx request }
  | .settleMerged ticket =>
    board.tickets[ticket]?.map fun row =>
      if row.status = .inReview ∧ !row.deleted then
        { board with tickets := board.tickets.set ticket (row.commit .done) }
      else board
  | .softDelete ticket =>
    board.tickets[ticket]?.map fun row =>
      { board with tickets := board.tickets.set ticket { row with deleted := true } }

/-- A write finds the status that its request read. -/
def WritesWhatItRead (board : Board) : TicketEvent → Prop
  | .setStatus request => ∀ pending ∈ board.requests[request]?,
      ∀ row ∈ board.tickets[pending.ticket]?, row.status = pending.read
  | _ => True

/-- Tickets as they are before any request: one committed status each. -/
def Board.Fresh (board : Board) : Prop :=
  board.requests = [] ∧ ∀ row ∈ board.tickets, row.committed = [row.status]

/-! ## The invariant -/

/-- The committed statuses of a row are a path that ends at its status. -/
structure TicketRow.Lawful (row : TicketRow) : Prop where
  current : row.committed.head? = some row.status
  path : IsStatusPath row.committed

/-- Every ticket has come through transitions that exist, and so would every pending one. -/
structure Board.Lawful (board : Board) : Prop where
  tickets : ∀ row ∈ board.tickets, row.Lawful
  requests : ∀ pending ∈ board.requests, canTransition pending.read pending.target = true

theorem TicketRow.Lawful.commit {row : TicketRow} (lawful : row.Lawful) {status : TicketStatus}
    (follows : canTransition row.status status = true) : (row.commit status).Lawful where
  current := rfl
  path := lawful.path.cons fun latest head => by
    rw [lawful.current, Option.mem_some_iff] at head
    exact head ▸ follows

/-- Changing one row into a lawful one keeps the board lawful. -/
theorem Board.Lawful.set {board : Board} (lawful : board.Lawful) (ticket : ℕ) {row : TicketRow}
    (lawfulRow : row.Lawful) {requests : List TransitionRequest}
    (sub : requests ⊆ board.requests) :
    Board.Lawful ⟨board.tickets.set ticket row, requests⟩ where
  tickets other member := by
    rcases List.mem_or_eq_of_mem_set member with old | rfl
    · exact lawful.tickets other old
    · exact lawfulRow
  requests pending member := lawful.requests pending (sub member)

theorem Board.Fresh.lawful {board : Board} (fresh : board.Fresh) : board.Lawful where
  tickets row member := by
    have single := fresh.2 row member
    exact ⟨by rw [single]; rfl, by rw [single]; exact .singleton _⟩
  requests pending member := by
    rw [fresh.1] at member
    cases member

/-- **A step whose write finds what it read keeps the board lawful.** -/
theorem Board.Lawful.step {board next : Board} {event : TicketEvent} (lawful : board.Lawful)
    (allowed : WritesWhatItRead board event) (taken : ticketStep board event = some next) :
    next.Lawful := by
  cases event with
  | transition ticket target satisfied =>
    obtain ⟨row, found, rfl⟩ := Option.map_eq_some_iff.mp taken
    split
    · rename_i accepted
      refine ⟨lawful.tickets, fun pending member => ?_⟩
      rcases List.mem_append.mp member with old | new
      · exact lawful.requests pending old
      · rw [List.mem_singleton.mp new]
        simp only [acceptsTransition, Bool.and_eq_true] at accepted
        exact accepted.1.2
    · exact lawful
  | setStatus request =>
    obtain ⟨pending, asked, written⟩ := Option.bind_eq_some_iff.mp taken
    obtain ⟨row, found, rfl⟩ := Option.map_eq_some_iff.mp written
    have unchanged : row.status = pending.read := allowed pending asked row found
    have checked := lawful.requests pending (List.mem_of_getElem? asked)
    refine lawful.set _ ?_ List.eraseIdx_subset
    exact (lawful.tickets row (List.mem_of_getElem? found)).commit (unchanged ▸ checked)
  | abandon request =>
    cases taken
    exact ⟨lawful.tickets, fun pending member =>
      lawful.requests pending (List.eraseIdx_subset member)⟩
  | settleMerged ticket =>
    obtain ⟨row, found, rfl⟩ := Option.map_eq_some_iff.mp taken
    split
    · rename_i open_
      refine lawful.set _ ?_ (List.Subset.refl _)
      exact (lawful.tickets row (List.mem_of_getElem? found)).commit (by rw [open_.1]; rfl)
    · exact lawful
  | softDelete ticket =>
    obtain ⟨row, found, rfl⟩ := Option.map_eq_some_iff.mp taken
    obtain ⟨current, path⟩ := lawful.tickets row (List.mem_of_getElem? found)
    have marked : TicketRow.Lawful { row with deleted := true } := ⟨current, path⟩
    exact lawful.set _ marked (List.Subset.refl _)

/-! ## Every run -/

/-- **The committed statuses of each ticket are a path of the transitions**, in
every run whose writes find the status their requests read; a ticket once `done`
or `cancelled` keeps that status. -/
theorem committed_statuses_path {start board : Board} {events : List TicketEvent}
    (fresh : start.Fresh) (along : Along ticketStep WritesWhatItRead start events)
    (reached : run ticketStep start events = some board) :
    ∀ row ∈ board.tickets, IsStatusPath row.committed ∧
      ∀ status ∈ row.committed, status = .done ∨ status = .cancelled →
        row.committed.head? = some status := by
  have lawful : board.Lawful :=
    run_invariant_along (fun _ _ _ lawful allowed taken => lawful.step allowed taken)
      fresh.lawful along reached
  intro row member
  have path := (lawful.tickets row member).path
  refine ⟨path, fun status inside terminal => path.head?_of_terminal inside ?_⟩
  rcases terminal with rfl | rfl <;> rfl

/-- A ticket in review. -/
def inReviewBoard : Board := ⟨[⟨.inReview, false, [.inReview]⟩], []⟩

theorem inReviewBoard_fresh : inReviewBoard.Fresh :=
  ⟨rfl, fun row member => by rw [List.mem_singleton.mp member]⟩

/-- A review that passes: the first request writes what it read allows, the second
one reads after it and is refused. -/
theorem committed_statuses_path_done :
    ∃ board, run ticketStep inReviewBoard
        [.transition 0 .done true, .setStatus 0, .transition 0 .cancelled true] = some board ∧
      ∀ row ∈ board.tickets, IsStatusPath row.committed := by
  have along : Along ticketStep WritesWhatItRead inReviewBoard
      [.transition 0 .done true, .setStatus 0, .transition 0 .cancelled true] := by
    refine .of_step rfl trivial (.of_step rfl ?_ (.of_step rfl trivial trivial))
    intro pending asked row found
    cases asked
    cases found
    rfl
  exact ⟨_, rfl, fun row member =>
    (committed_statuses_path inReviewBoard_fresh along rfl row member).1⟩

/-- **A stale write leaves the transitions**: a cancellation that read the ticket
in review is committed over the `done` of a merge. -/
theorem committed_statuses_not_path :
    inReviewBoard.Fresh ∧ ∃ board, run ticketStep inReviewBoard
        [.transition 0 .cancelled true, .settleMerged 0, .setStatus 0] = some board ∧
      ∃ row ∈ board.tickets, row.committed = [.cancelled, .done, .inReview] ∧
        ¬ IsStatusPath row.committed := by
  refine ⟨inReviewBoard_fresh, _, rfl, _, List.mem_singleton.mpr rfl, rfl, ?_⟩
  unfold IsStatusPath
  decide

end Koklo.Tracker
