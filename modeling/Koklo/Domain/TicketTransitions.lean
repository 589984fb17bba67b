import Mathlib.Data.List.Chain

/-!
# Ticket statuses and their transitions

The table of transitions has two terminal statuses, `done` and `cancelled`. A
history of statuses, the latest first, is a path when each status follows the
one before it by a transition; a terminal status of a path is its latest one
(`IsPath.head?_of_terminal`).
-/

set_option autoImplicit false

namespace Koklo.Domain

/-- The statuses of a ticket. -/
inductive TicketStatus where
  | backlog | todo | inProgress | inReview | blocked | done | cancelled
deriving DecidableEq

/-- `TRANSITIONS`. -/
def transitions : TicketStatus → List TicketStatus
  | .backlog => [.todo, .cancelled]
  | .todo => [.inProgress, .backlog, .blocked, .cancelled]
  | .inProgress => [.inReview, .blocked, .todo, .cancelled]
  | .inReview => [.done, .inProgress, .blocked, .cancelled]
  | .blocked => [.todo, .backlog, .cancelled]
  | .done => []
  | .cancelled => []

/-- The transition exists. -/
def canTransition (source target : TicketStatus) : Bool := (transitions source).contains target

/-- No transition leaves a terminal status. -/
def TicketStatus.IsTerminal (status : TicketStatus) : Prop := transitions status = []

instance (status : TicketStatus) : Decidable status.IsTerminal :=
  inferInstanceAs (Decidable (_ = _))

/-- A history of statuses, the latest first, along the transitions. -/
def IsStatusPath (history : List TicketStatus) : Prop :=
  List.IsChain (fun later earlier => canTransition earlier later = true) history

theorem IsStatusPath.cons {status : TicketStatus} {history : List TicketStatus}
    (path : IsStatusPath history)
    (follows : ∀ latest ∈ history.head?, canTransition latest status = true) :
    IsStatusPath (status :: history) :=
  List.isChain_cons.mpr ⟨follows, path⟩

/-- A terminal status of a path is its latest one. -/
theorem IsStatusPath.head?_of_terminal {status : TicketStatus} {history : List TicketStatus}
    (path : IsStatusPath history) (member : status ∈ history) (terminal : status.IsTerminal) :
    history.head? = some status := by
  induction history with
  | nil => cases member
  | cons latest history ih =>
    rw [IsStatusPath, List.isChain_cons] at path
    rcases List.mem_cons.mp member with rfl | older
    · rfl
    · have follows := path.1 status (ih path.2 older)
      rw [canTransition, terminal] at follows
      cases follows

end Koklo.Domain
