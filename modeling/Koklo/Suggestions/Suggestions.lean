import Koklo.Foundations.CommittedCounts
import Koklo.Foundations.Exclusion
import Koklo.Foundations.RowSuccession
import Koklo.Foundations.Text
import Koklo.Members.Authority
import Mathlib.Logic.Function.Basic

/-!
# Suggestions

A member proposes suggestions on the projects of an organization, withdraws their own, and others
accept or reject them. A creation locks the row of its author as a member, looks for an open
suggestion that is the same and counts those of the author; then it locks the counter of the project
by taking the next key, counts the open suggestions of the project and inserts the new one. A
withdrawal or a decision is an update of the suggestion that selects it open.

What a creation reads elsewhere (whether the author has the role of the session, whether the framing
of the project is closed, the head of the specification and whether the feature is in it) varies as
it may: the event of each statement says what it finds (`Surroundings`).
-/

set_option autoImplicit false

namespace Koklo.Suggestions

open Koklo.Foundations Koklo.Foundations.ReadCommitted Koklo.Members

/-- The statuses of a suggestion. -/
inductive SuggestionStatus where
  | «open» | accepted | rejected | withdrawn
deriving DecidableEq

/-- What a suggestion can be about. -/
inductive TargetKind where
  | feature | screen | project
deriving DecidableEq

/-- A row of `suggestions`, of one organization. -/
structure SuggestionRow where
  projectId : ℕ
  key : ℕ
  targetKind : TargetKind
  targetRef : Option Text
  body : Text
  authorUserId : ℕ
  authorRole : Role
  baseSha : Option Text
  status : SuggestionStatus
  decidedByUserId : Option ℕ
  decidedAt : Option ℕ
  decisionNote : Option Text
deriving DecidableEq

/-- How many suggestions may be open, of an author in a project and of a project. -/
def openPerAuthor : ℕ := 50

def openPerProject : ℕ := 500

/-- The suggestion to create. -/
structure CreateSuggestion where
  targetKind : TargetKind
  targetRef : Option Text
  body : Text
deriving DecidableEq

/-- What is decided on a suggestion. -/
inductive Decision where
  | accepted | rejected
deriving DecidableEq

/-- The status of a suggestion that is decided so. -/
def Decision.status : Decision → SuggestionStatus
  | .accepted => .accepted
  | .rejected => .rejected

/-- What is asked. -/
inductive SuggestionDemand where
  | create (input : CreateSuggestion) (role : Role)
  | withdraw (id now : ℕ)
  | decide (id now : ℕ) (decision : Decision) (note : Option Text)
deriving DecidableEq

/-- The project of a request and its user. -/
structure ProjectScope where
  projectId : ℕ
  userId : ℕ
deriving DecidableEq

/-- What a request is answered. -/
inductive SuggestionAnswer where
  | created (id : ℕ)
  | same (id : ℕ)
  | settled (id : ℕ)
  | notFound | framingClosed | suggestionQuota | suggestionNotOpen | failed
deriving DecidableEq

/-- What a request does next. -/
inductive SuggestionPhase where
  | starting
  /-- A creation has locked its author. -/
  | checking
  | finding (head : Option Text)
  | countingMine (head : Option Text)
  | numbering (head : Option Text)
  /-- A creation has locked the counter of the project. -/
  | countingAll (head : Option Text) (key : ℕ)
  | inserting (head : Option Text) (key : ℕ)
  | recording (id : ℕ) (row : SuggestionRow)
  | committingNew (id : ℕ) (row : SuggestionRow)
  /-- A withdrawal or a decision has selected its rows. -/
  | updating (selected : List ℕ)
  | reading
  | committing
  | ended (answer : SuggestionAnswer)
deriving DecidableEq

/-- A creation holds the row of its author. -/
def SuggestionPhase.holdsAuthor : SuggestionPhase → Bool
  | .checking => true
  | .finding _ => true
  | .countingMine _ => true
  | .numbering _ => true
  | .countingAll _ _ => true
  | .inserting _ _ => true
  | .recording _ _ => true
  | .committingNew _ _ => true
  | _ => false

/-- A creation holds the counter of its project. -/
def SuggestionPhase.holdsCounter : SuggestionPhase → Bool
  | .countingAll _ _ => true
  | .inserting _ _ => true
  | .recording _ _ => true
  | .committingNew _ _ => true
  | _ => false

/-- A request, and how far it has come. -/
structure SuggestionRequest where
  scope : ProjectScope
  demand : SuggestionDemand
  phase : SuggestionPhase
deriving DecidableEq

/-- The author whose row a request holds. -/
def SuggestionRequest.author (request : SuggestionRequest) : Option ℕ :=
  if request.phase.holdsAuthor then some request.scope.userId else none

/-- The project whose counter a request holds. -/
def SuggestionRequest.counter (request : SuggestionRequest) : Option ℕ :=
  if request.phase.holdsCounter then some request.scope.projectId else none

/-- The suggestions, the counters of the projects, and the requests. -/
structure SuggestionDesk where
  suggestions : Table SuggestionRow
  counters : ℕ → ℕ
  requests : List SuggestionRequest

/-- What a statement finds outside the suggestions. -/
structure Surroundings where
  /-- The user is a member with the role of the session. -/
  roleStands : Bool
  framingClosed : Bool
  /-- The head of the specification, when it is indexed. -/
  head : Option Text
  featureFound : Bool

/-- What can happen to suggestions. -/
inductive SuggestionEvent where
  | arrive (scope : ProjectScope) (demand : SuggestionDemand)
  /-- The next statement of a request. -/
  | advance (request : ℕ) (surroundings : Surroundings)
  /-- A statement fails, or the process stops. -/
  | fail (request : ℕ)

namespace SuggestionDesk

def setPhase (desk : SuggestionDesk) (tx : ℕ) (phase : SuggestionPhase) : SuggestionDesk :=
  { desk with requests := desk.requests.modify tx fun request => { request with phase } }

/-- The transaction of a request is undone, and the request refused. -/
def refuse (desk : SuggestionDesk) (tx : ℕ) (answer : SuggestionAnswer) : SuggestionDesk :=
  { desk with suggestions := abort desk.suggestions tx }.setPhase tx (.ended answer)

/-- The transaction of a request is committed. -/
def finish (desk : SuggestionDesk) (tx : ℕ) (answer : SuggestionAnswer) : SuggestionDesk :=
  { desk with suggestions := commit desk.suggestions tx }.setPhase tx (.ended answer)

/-- An open suggestion of the author that is the one to create. A creation has written nothing
before, so it sees what is committed, here and in the counts. -/
def findOpenTwin (desk : SuggestionDesk) (scope : ProjectScope) (input : CreateSuggestion) :
    Option (ℕ × SuggestionRow) :=
  (committedRows desk.suggestions).find? fun found =>
    found.2.projectId = scope.projectId ∧ found.2.authorUserId = scope.userId ∧
      found.2.status = .open ∧ found.2.targetKind = input.targetKind ∧
      found.2.targetRef = input.targetRef ∧ found.2.body = input.body

/-- The open suggestions of an author in a project. -/
def openOfAuthor (scope : ProjectScope) (row : SuggestionRow) : Bool :=
  row.projectId = scope.projectId ∧ row.authorUserId = scope.userId ∧ row.status = .open

/-- The suggestion is open, and of this project. -/
def openOfProject (projectId : ℕ) (row : SuggestionRow) : Bool :=
  row.projectId = projectId ∧ row.status = .open

/-- The row of a new suggestion. -/
def newRow (scope : ProjectScope) (input : CreateSuggestion) (role : Role) (head : Option Text)
    (key : ℕ) : SuggestionRow where
  projectId := scope.projectId
  key := key
  targetKind := input.targetKind
  targetRef := input.targetRef
  body := input.body
  authorUserId := scope.userId
  authorRole := role
  baseSha := head
  status := .open
  decidedByUserId := none
  decidedAt := none
  decisionNote := none

/-- The new suggestion is inserted. -/
def insertRow (desk : SuggestionDesk) (tx : ℕ) (row : SuggestionRow) : SuggestionDesk :=
  { desk with suggestions := desk.suggestions ++ [⟨none, some (tx, row)⟩] }

/-- The key of a new suggestion is kept. -/
def keepKey (desk : SuggestionDesk) (projectId key : ℕ) : SuggestionDesk :=
  { desk with counters := Function.update desk.counters projectId key }

/-- Screens are not visible. -/
def visibleKind (row : SuggestionRow) : Bool := row.targetKind ≠ .screen

/-- The statements of a creation. -/
def create (desk : SuggestionDesk) (tx : ℕ) (scope : ProjectScope) (input : CreateSuggestion)
    (role : Role) (found : Surroundings) : SuggestionPhase → Option SuggestionDesk
  | .starting =>
    if !found.roleStands then some (desk.refuse tx .notFound)
    else if takenByOther SuggestionRequest.author desk.requests tx scope.userId then none
    else some (desk.setPhase tx .checking)
  | .checking =>
    if role = .client ∧ found.framingClosed then some (desk.refuse tx .framingClosed)
    else if input.targetKind = .feature ∧ !(found.head.isSome && found.featureFound) then
      some (desk.refuse tx .notFound)
    else some (desk.setPhase tx (.finding found.head))
  | .finding head =>
    match desk.findOpenTwin scope input with
    | some twin => some (desk.finish tx (.same twin.1))
    | none => some (desk.setPhase tx (.countingMine head))
  | .countingMine head =>
    if openPerAuthor ≤ countCommitted desk.suggestions (openOfAuthor scope) then
      some (desk.refuse tx .suggestionQuota)
    else some (desk.setPhase tx (.numbering head))
  | .numbering head =>
    if takenByOther SuggestionRequest.counter desk.requests tx scope.projectId then none
    else some (desk.setPhase tx (.countingAll head (desk.counters scope.projectId + 1)))
  | .countingAll head key =>
    if openPerProject ≤ countCommitted desk.suggestions (openOfProject scope.projectId) then
      some (desk.refuse tx .suggestionQuota)
    else some (desk.setPhase tx (.inserting head key))
  | .inserting head key =>
    let row := newRow scope input role head key
    some ((desk.insertRow tx row).setPhase tx (.recording desk.suggestions.length row))
  | .recording id row => some (desk.setPhase tx (.committingNew id row))
  | .committingNew id row =>
    some ((desk.keepKey scope.projectId row.key).finish tx (.created id))
  | _ => none

/-- The update of a withdrawal or a decision. -/
def change (scope : ProjectScope) : SuggestionDemand → Update SuggestionRow
  | .create _ _ => ⟨fun _ _ => false, id⟩
  | .withdraw target now =>
    { selects := fun id row => id = target ∧ row.projectId = scope.projectId ∧
        row.authorUserId = scope.userId ∧ row.status = .open ∧ visibleKind row
      change := fun row => { row with status := .withdrawn, decidedAt := some now } }
  | .decide target now decision note =>
    { selects := fun id row => id = target ∧ row.projectId = scope.projectId ∧
        row.status = .open ∧ visibleKind row
      change := fun row => { row with
        status := decision.status
        decidedByUserId := some scope.userId
        decidedAt := some now
        decisionNote := note } }

/-- What the transaction sees of the suggestion. -/
def read (desk : SuggestionDesk) (tx : ℕ) (scope : ProjectScope) (target : ℕ) :
    Option SuggestionRow :=
  ((visible desk.suggestions tx).find? fun found =>
    found.1 = target ∧ found.2.projectId = scope.projectId ∧ visibleKind found.2).map Prod.snd

/-- What the suggestion is answered as after the update. -/
def verdict (scope : ProjectScope) (found : Option SuggestionRow) :
    SuggestionDemand → Option SuggestionAnswer
  | .create _ _ => none
  | .withdraw _ _ =>
    match found with
    | none => some .notFound
    | some row =>
      if row.authorUserId ≠ scope.userId then some .notFound
      else if row.status ≠ .withdrawn then some .suggestionNotOpen
      else none
  | .decide _ _ decision _ =>
    match found with
    | none => some .notFound
    | some row => if row.status ≠ decision.status then some .suggestionNotOpen else none

/-- The statements of a withdrawal or a decision. -/
def settle (desk : SuggestionDesk) (tx : ℕ) (scope : ProjectScope) (demand : SuggestionDemand)
    (target : ℕ) : SuggestionPhase → Option SuggestionDesk
  | .starting => some (desk.setPhase tx (.updating (select desk.suggestions tx (change scope demand))))
  | .updating selected =>
    (applyUpdate desk.suggestions tx (change scope demand) selected).map fun suggestions =>
      { desk with suggestions }.setPhase tx .reading
  | .reading =>
    match verdict scope (desk.read tx scope target) demand with
    | some refusal => some (desk.refuse tx refusal)
    | none => some (desk.setPhase tx .committing)
  | .committing => some (desk.finish tx (.settled target))
  | _ => none

/-- The next statement of a request. -/
def advance (desk : SuggestionDesk) (tx : ℕ) (request : SuggestionRequest) (found : Surroundings) :
    Option SuggestionDesk :=
  match request.demand with
  | .create input role => desk.create tx request.scope input role found request.phase
  | .withdraw target _ => desk.settle tx request.scope request.demand target request.phase
  | .decide target _ _ _ => desk.settle tx request.scope request.demand target request.phase

/-- A statement fails: the transaction is undone. -/
def fail (desk : SuggestionDesk) (tx : ℕ) (request : SuggestionRequest) : Option SuggestionDesk :=
  match request.phase with
  | .ended _ => none
  | _ => some (desk.refuse tx .failed)

end SuggestionDesk

/-- The step of an event. -/
def suggestionStep (desk : SuggestionDesk) : SuggestionEvent → Option SuggestionDesk
  | .arrive scope demand =>
    some { desk with requests := desk.requests ++ [⟨scope, demand, .starting⟩] }
  | .advance tx found => desk.requests[tx]?.bind fun request => desk.advance tx request found
  | .fail tx => desk.requests[tx]?.bind fun request => desk.fail tx request

end Koklo.Suggestions
