import Koklo.Foundations.Rows
import Koklo.Members.Authority
import Mathlib.Data.List.Dedup

/-!
# The links of client members to projects

A member of role `client` reaches the projects it is linked to. Links are added by a manager, under
a lock on the member that holds its role, and with the acceptance of an invitation of role `client`
or `business`, after the member is made. They are removed by a manager, with the member, and when
the role changes from `client` to another.

The transactions hold locks on the row of the member: a change of role or an added link excludes the
others, a removal excludes all, and the foreign key of the links that an acceptance inserts only
keeps the row from being deleted. A serializable change of role or removal fails when the row has
another version than the one it read.
-/

set_option autoImplicit false

namespace Koklo.Members

open Koklo.Foundations

/-- A row of `members`. The version counts the updates of the row. -/
structure MemberRow where
  userId : ℕ
  role : Role
  version : ℕ
deriving DecidableEq

/-- A row of `project_client_access`. -/
structure LinkRow where
  projectId : ℕ
  userId : ℕ
deriving DecidableEq

/-- The roles whose invitations carry projects: `PROJECT_INVITATION_ROLES`. -/
def projectInvitationRoles : List Role := [.client, .business]

/-- The roles that see the whole organization. -/
def staffRoles : List Role := [.owner, .admin, .dev, .designer, .business]

/-- The role is limited to the projects it is linked to. -/
def isProjectScoped (role : Role) : Bool := role ∉ staffRoles

/-- What is asked of the members and of their links to projects. -/
inductive AccessDemand where
  /-- A change of role or a removal, with the session that the guards let through. -/
  | member (session : AuthSession) (demand : MemberDemand)
  | addClient (projectId memberId : ℕ)
  | removeClient (projectId memberId : ℕ)
  /-- The acceptance of an invitation, with its role and the projects it proposes. -/
  | accept (userId : ℕ) (role : MemberRole) (proposed : List ℕ)
deriving DecidableEq

/-- What a request is answered. -/
inductive AccessAnswer where
  | member (answer : MemberAnswer)
  | notFound | linked | unlinked | accepted | failed
deriving DecidableEq

/-- What a request does next. -/
inductive AccessPhase where
  | starting
  /-- A change of role or a removal has read its target and deleted the links of that list. -/
  | writing (target : MemberRow) (purged : List ℕ)
  | committing (target : MemberRow) (purged : List ℕ)
  /-- The member is locked, and its user is to be linked. -/
  | linking (userId : ℕ)
  | unlinking (link : ℕ)
  /-- The member of an accepted invitation is made, and the hook is called. -/
  | proposing (memberId : ℕ)
  /-- Links of the user of a member are inserted. -/
  | inserted (memberId : ℕ) (rows : List LinkRow)
  /-- An acceptance whose links failed is undone. -/
  | undoing (memberId : ℕ)
  | ended (answer : AccessAnswer)
deriving DecidableEq

/-- The lock on the row of a member: the foreign key of a link, an update, or a deletion. -/
inductive RowLock where
  | reference | update | delete
deriving DecidableEq

/-- A request, with the member whose row its transaction has locked. -/
structure AccessRequest where
  demand : AccessDemand
  phase : AccessPhase
  held : Option (ℕ × RowLock)
deriving DecidableEq

/-- The members and the links of an organization, and the requests. -/
structure AccessDesk where
  members : Rows MemberRow
  links : Rows LinkRow
  requests : List AccessRequest
deriving DecidableEq

/-! ## Locks -/

/-- Two locks of a row cannot be held at once. -/
def RowLock.conflicts : RowLock → RowLock → Bool
  | .delete, _ => true
  | _, .delete => true
  | .update, .update => true
  | _, _ => false

theorem RowLock.conflicts_comm (first second : RowLock) :
    first.conflicts second = second.conflicts first := by
  cases first <;> cases second <;> rfl

/-- The lock that a change of role or a removal takes. -/
def MemberDemand.lock : MemberDemand → RowLock
  | .setRole _ _ => .update
  | .updateRole _ _ => .update
  | .remove _ => .delete

/-- The links that a request has inserted. -/
def AccessRequest.inserts (request : AccessRequest) : List LinkRow :=
  match request.phase with
  | .inserted _ rows => rows
  | _ => []

namespace AccessDesk

/-- The other requests. -/
def others (desk : AccessDesk) (tx : ℕ) : List AccessRequest := desk.requests.eraseIdx tx

/-- Another request holds the row of a member. -/
def blocked (desk : AccessDesk) (tx memberId : ℕ) (lock : RowLock) : Bool :=
  (desk.others tx).any fun other =>
    other.held.any fun held => held.1 = memberId && held.2.conflicts lock

/-- Another request has inserted one of the links. -/
def contested (desk : AccessDesk) (tx : ℕ) (rows : List LinkRow) : Bool :=
  (desk.others tx).any fun other => other.inserts.any fun row => row ∈ rows

/-- The desk with a request at its next phase, and what it holds. -/
def setPhase (desk : AccessDesk) (tx : ℕ) (phase : AccessPhase)
    (held : Option (ℕ × RowLock)) : AccessDesk :=
  { desk with requests := desk.requests.modify tx fun request => { request with phase, held } }

/-- The request is answered, and holds nothing. -/
def answer (desk : AccessDesk) (tx : ℕ) (answer : AccessAnswer) : AccessDesk :=
  desk.setPhase tx (.ended answer) none

/-! ## What is read -/

/-- The member as the guards read it. -/
def target (desk : AccessDesk) (memberId : ℕ) : Option MemberRecord :=
  (desk.members.find memberId).map fun row => ⟨memberId, row.userId, row.role⟩

def ownerCount (desk : AccessDesk) : ℕ :=
  desk.members.countP fun row => row.any fun row => row.role = .owner

/-- The links of a user. -/
def linksOf (desk : AccessDesk) (userId : ℕ) : List ℕ :=
  (List.range desk.links.length).filter fun id =>
    (desk.links.find id).any fun link => link.userId = userId

/-- The links that a change of role or a removal deletes. -/
def purged (desk : AccessDesk) (row : MemberRow) : MemberDemand → List ℕ
  | .remove _ => desk.linksOf row.userId
  | demand =>
    if row.role = .client ∧ demand.newRole.role ≠ .client then desk.linksOf row.userId else []

/-- The user is linked to the project. -/
def linked (desk : AccessDesk) (projectId userId : ℕ) : Bool :=
  desk.links.any fun link => link = some ⟨projectId, userId⟩

/-- The access of a session to a project of the organization. -/
def assertAccessible (desk : AccessDesk) (session : AuthSession) (projectId : ℕ) : Bool :=
  if isProjectScoped session.role then
    session.role = .client && desk.linked projectId session.userId
  else true

/-- The projects a session is limited to: those of its links. -/
def linkedProjectIds (desk : AccessDesk) (session : AuthSession) : Option (List ℕ) :=
  if isProjectScoped session.role then
    if session.role = .client then
      some ((desk.links.filterMap id).filterMap fun link =>
        if link.userId = session.userId then some link.projectId else none)
    else some []
  else none

/-- **The projects that a session is limited to are those it accesses.** -/
theorem mem_linkedProjectIds_iff {desk : AccessDesk} {session : AuthSession} {projectIds : List ℕ}
    (limited : desk.linkedProjectIds session = some projectIds) (projectId : ℕ) :
    projectId ∈ projectIds ↔ desk.assertAccessible session projectId = true := by
  rw [linkedProjectIds] at limited
  split at limited
  · rename_i confined
    rw [assertAccessible, if_pos confined]
    split at limited
    · rename_i client
      cases limited
      rw [decide_eq_true client, Bool.true_and, linked, List.any_eq_true, List.mem_filterMap]
      constructor
      · rintro ⟨link, member, same⟩
        obtain ⟨entry, stored, rfl⟩ := List.mem_filterMap.mp member
        split at same
        · rename_i own
          cases same
          exact ⟨some link, stored, decide_eq_true (by rw [← own])⟩
        · cases same
      · rintro ⟨entry, stored, same⟩
        rw [of_decide_eq_true same] at stored
        exact ⟨⟨projectId, session.userId⟩, List.mem_filterMap.mpr ⟨_, stored, rfl⟩, if_pos rfl⟩
    · rename_i other
      cases limited
      rw [decide_eq_false other, Bool.false_and]
      exact iff_of_false (List.not_mem_nil) Bool.false_ne_true
  · cases limited

/-! ## What is written -/

/-- The member is removed, with the links that go with it by the foreign key. -/
def removeMember (desk : AccessDesk) (memberId userId : ℕ) (purged : List ℕ) : AccessDesk :=
  { desk with
    members := desk.members.drop fun id _ => id = memberId
    links := desk.links.drop fun id link => id ∈ purged ∨ link.userId = userId }

/-- The role is written, and the links that go with it are removed. -/
def writeRole (desk : AccessDesk) (memberId : ℕ) (role : MemberRole) (purged : List ℕ) :
    AccessDesk :=
  { desk with
    members := desk.members.change memberId fun row =>
      { row with role := role.role, version := row.version + 1 }
    links := desk.links.drop fun id _ => id ∈ purged }

/-- The links are there, and the member that was locked for them has another version. -/
def addLinks (desk : AccessDesk) (memberId : ℕ) (rows : List LinkRow) : AccessDesk :=
  { desk with
    members := desk.members.change memberId fun row => { row with version := row.version + 1 }
    links := desk.links.add rows }

/-- The commit of a change of role or of a removal. -/
def write (desk : AccessDesk) (row : MemberRow) (purged : List ℕ) : MemberDemand → AccessDesk
  | .setRole memberId role => desk.writeRole memberId role purged
  | .updateRole memberId role => desk.writeRole memberId role purged
  | .remove memberId => desk.removeMember memberId row.userId purged

/-- The links of a user to projects, but those that are there. -/
def newLinks (desk : AccessDesk) (userId : ℕ) (projects : List ℕ) : List LinkRow :=
  (projects.dedup.map fun projectId => ⟨projectId, userId⟩).filter fun row =>
    !desk.linked row.projectId row.userId

/-! ## The statements of a request -/

/-- The first statement of a request: what it reads, and the guards. -/
def start (desk : AccessDesk) (tx : ℕ) : AccessDemand → Option AccessDesk
  | .member session demand =>
    match authorize session demand.newRole demand.selfReason (desk.target demand.memberId)
        desk.ownerCount with
    | .error reason => some (desk.answer tx (.member (.refused reason)))
    | .ok _ => (desk.members.find demand.memberId).map fun row =>
        desk.setPhase tx (.writing row (desk.purged row demand)) none
  | .addClient _ memberId =>
    match desk.members.find memberId with
    | none => some (desk.answer tx .notFound)
    | some row =>
      if row.role ≠ .client then some (desk.answer tx .notFound)
      else if desk.blocked tx memberId .update then none
      else some (desk.setPhase tx (.linking row.userId) (some (memberId, .update)))
  | .removeClient projectId memberId =>
    match (desk.members.find memberId).bind fun row =>
        desk.links.findIdx? fun link => link = some ⟨projectId, row.userId⟩ with
    | none => some (desk.answer tx .notFound)
    | some link => some (desk.setPhase tx (.unlinking link) none)
  | .accept userId role _ =>
    if desk.members.any fun row => row.any fun row => row.userId = userId then
      some (desk.answer tx .failed)
    else
      let made : AccessDesk := { desk with members := desk.members.add [⟨userId, role.role, 0⟩] }
      if role.role ∈ projectInvitationRoles then
        some (made.setPhase tx (.proposing desk.members.length) none)
      else some (made.answer tx .accepted)

/-- A transaction that read a row writes it, unless it has changed since. -/
def lockTarget (desk : AccessDesk) (tx : ℕ) (row : MemberRow) (purged : List ℕ)
    (demand : MemberDemand) : Option AccessDesk :=
  if desk.blocked tx demand.memberId demand.lock then none
  else if desk.members.find demand.memberId = some row then
    some (desk.setPhase tx (.committing row purged) (some (demand.memberId, demand.lock)))
  else some (desk.answer tx .failed)

/-- The links that an invitation proposes are inserted; the foreign key locks the member. -/
def propose (desk : AccessDesk) (tx memberId userId : ℕ) (proposed : List ℕ) : Option AccessDesk :=
  let rows := desk.newLinks userId proposed
  if rows = [] then some (desk.answer tx .accepted)
  else
    match desk.members.findIdx? fun row => row.any fun row => row.userId = userId with
    | none => some (desk.setPhase tx (.undoing memberId) none)
    | some found =>
      if desk.blocked tx found .reference || desk.contested tx rows then none
      else some (desk.setPhase tx (.inserted found rows) (some (found, .reference)))

/-- The member that an acceptance made is removed. -/
def undo (desk : AccessDesk) (tx memberId : ℕ) : Option AccessDesk :=
  if desk.blocked tx memberId .delete then none
  else
    match desk.members.find memberId with
    | none => some (desk.answer tx .failed)
    | some row => some ((desk.removeMember memberId row.userId []).answer tx .failed)

/-- The next statement of a request. -/
def advance (desk : AccessDesk) (tx : ℕ) (request : AccessRequest) : Option AccessDesk :=
  match request.phase, request.demand with
  | .starting, demand => desk.start tx demand
  | .writing row purged, .member _ demand => desk.lockTarget tx row purged demand
  | .committing row purged, .member _ demand =>
    some ((desk.write row purged demand).answer tx (.member (MemberDesk.answerOf demand)))
  | .linking userId, .addClient projectId memberId =>
    let rows := desk.newLinks userId [projectId]
    if desk.contested tx rows then none
    else some (desk.setPhase tx (.inserted memberId rows) (some (memberId, .update)))
  | .inserted memberId rows, .addClient _ _ =>
    some ((desk.addLinks memberId rows).answer tx .linked)
  | .inserted _ rows, .accept _ _ _ =>
    some ({ desk with links := desk.links.add rows }.answer tx .accepted)
  | .unlinking link, .removeClient _ _ =>
    some ({ desk with links := desk.links.drop fun id _ => id = link }.answer tx .unlinked)
  | .proposing memberId, .accept userId _ proposed => desk.propose tx memberId userId proposed
  | .undoing memberId, .accept _ _ _ => desk.undo tx memberId
  | _, _ => none

/-- A statement fails. An acceptance whose links are not committed is undone. -/
def fail (desk : AccessDesk) (tx : ℕ) (request : AccessRequest) : Option AccessDesk :=
  match request.phase, request.demand with
  | .ended _, _ => none
  | .proposing memberId, _ => some (desk.setPhase tx (.undoing memberId) none)
  | .inserted memberId _, .accept _ _ _ => some (desk.setPhase tx (.undoing memberId) none)
  | _, _ => some (desk.answer tx .failed)

/-- The process of a request stops. -/
def stop (desk : AccessDesk) (tx : ℕ) (request : AccessRequest) : Option AccessDesk :=
  match request.phase with
  | .ended _ => none
  | _ => some (desk.answer tx .failed)

end AccessDesk

/-- What can happen to the requests. -/
inductive AccessEvent where
  | arrive (demand : AccessDemand)
  /-- The next statement of a request. -/
  | advance (request : ℕ)
  | fail (request : ℕ)
  /-- The process stops, and the transaction of a request is undone. -/
  | stop (request : ℕ)

/-- The step of an event. -/
def accessStep (desk : AccessDesk) : AccessEvent → Option AccessDesk
  | .arrive demand => some { desk with requests := desk.requests ++ [⟨demand, .starting, none⟩] }
  | .advance tx => desk.requests[tx]?.bind fun request => desk.advance tx request
  | .fail tx => desk.requests[tx]?.bind fun request => desk.fail tx request
  | .stop tx => desk.requests[tx]?.bind fun request => desk.stop tx request

end Koklo.Members
