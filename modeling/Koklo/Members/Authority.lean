import Koklo.Foundations.Runs
import Mathlib.Data.List.Nodup
import Mathlib.Data.List.Perm.Subperm

/-!
# The authority over members

A request to change the role of a member or to remove one has its session read by a guard, with the
role that the requester has then, and decides in a serializable transaction on the target and on the
number of owners read there. Only an owner grants the role `admin` or touches an owner, and the last
owner stays.

The organization has an owner in every run. What a privileged change needs, that its requester is an
owner when it is committed, holds in every run where a requester that the guard read as an owner is
still one when its transaction touches what only owners touch (`membership_authority`). Without
this, a requester removed from the owners in the meantime still acts as one (`former_owner_grants_admin`).
-/

set_option autoImplicit false

namespace Koklo.Members

open Koklo.Foundations

/-- The roles of an organization. -/
inductive Role where
  | owner | admin | dev | designer | client | business
deriving DecidableEq

/-- The roles that can be granted: any but `owner`. -/
inductive MemberRole where
  | admin | dev | designer | client | business
deriving DecidableEq

/-- The role that is granted. -/
def MemberRole.role : MemberRole → Role
  | .admin => .admin
  | .dev => .dev
  | .designer => .designer
  | .client => .client
  | .business => .business

/-- The roles that manage the organization. -/
def managerRoles : List Role := [.owner, .admin]

/-- A row of `members`, of one organization. -/
structure MemberRecord where
  id : ℕ
  userId : ℕ
  role : Role
deriving DecidableEq

/-- The user of a request, with the role that the guard read. -/
structure AuthSession where
  userId : ℕ
  role : Role
deriving DecidableEq

/-- Why a request is refused. -/
inductive Refusal where
  | unauthorized | forbidden | notFound | selfRole | selfRemove | lastOwner
deriving DecidableEq

/-! ## The decision -/

/-- A change that only an owner makes. -/
def touchesPrivileged (newRole : MemberRole) (targetRole : Role) : Bool :=
  newRole = .admin || targetRole = .owner

/-- Only an owner touches an owner or names an admin. -/
def assertMayGrant (actorRole : Role) (newRole : MemberRole) (targetRole : Role) :
    Except Refusal Unit :=
  if touchesPrivileged newRole targetRole && actorRole ≠ .owner then .error .forbidden else .ok ()

/-- The refusals that the change of a role and a removal have in common. -/
def assertMayTouch (session : AuthSession) (target : Option MemberRecord) (newRole : MemberRole)
    (selfReason : Option Refusal) : Except Refusal MemberRecord :=
  match target with
  | none => .error .notFound
  | some found =>
    match selfReason with
    | some reason =>
      if found.userId = session.userId then .error reason
      else (assertMayGrant session.role newRole found.role).map fun _ => found
    | none => (assertMayGrant session.role newRole found.role).map fun _ => found

/-- What a transaction checks of its target and of the number of owners. -/
def authorize (session : AuthSession) (newRole : MemberRole) (selfReason : Option Refusal)
    (target : Option MemberRecord) (ownerCount : ℕ) : Except Refusal MemberRecord :=
  (assertMayTouch session target newRole selfReason).bind fun found =>
    if found.role = .owner ∧ ownerCount ≤ 1 then .error .lastOwner else .ok found

/-- What is asked: a role by one route or the other, or a removal. -/
inductive MemberDemand where
  | setRole (memberId : ℕ) (role : MemberRole)
  | updateRole (memberId : ℕ) (role : MemberRole)
  | remove (memberId : ℕ)
deriving DecidableEq

namespace MemberDemand

def memberId : MemberDemand → ℕ
  | setRole memberId _ => memberId
  | updateRole memberId _ => memberId
  | remove memberId => memberId

/-- The role that the checks are made for; a removal is checked as a change to `dev`. -/
def newRole : MemberDemand → MemberRole
  | setRole _ role => role
  | updateRole _ role => role
  | remove _ => .dev

/-- How a request on oneself is refused; `setRole` does not refuse it. -/
def selfReason : MemberDemand → Option Refusal
  | setRole _ _ => none
  | updateRole _ _ => some .selfRole
  | remove _ => some .selfRemove

end MemberDemand

/-! ## The requests -/

/-- What a request is answered. -/
inductive MemberAnswer where
  | changed (id : ℕ) (role : MemberRole)
  | removed (id : ℕ)
  | refused (reason : Refusal)
  | failed
deriving DecidableEq

/-- How far a request has come. -/
inductive MemberPhase where
  /-- The guards have let the request pass. -/
  | guarded (session : AuthSession)
  | ended (answer : MemberAnswer)
deriving DecidableEq

/-- A request, and how far it has come. -/
structure MemberRequest where
  demand : MemberDemand
  phase : MemberPhase
deriving DecidableEq

/-- The members of an organization, the audit log, and the requests. -/
structure MemberDesk where
  members : List MemberRecord
  audits : List (ℕ × MemberDemand)
  requests : List MemberRequest
deriving DecidableEq

/-- What can happen to the members of an organization. -/
inductive MemberEvent where
  /-- A request arrives and goes through the guards. -/
  | arrive (userId : ℕ) (demand : MemberDemand)
  /-- A user becomes a member. -/
  | join (id userId : ℕ) (role : MemberRole)
  /-- The transaction of a request, from its reads to its commit. -/
  | transact (request : ℕ)
  /-- The transaction of a request fails. -/
  | fail (request : ℕ)

namespace MemberDesk

/-- How many owners there are. -/
def ownerCount (members : List MemberRecord) : ℕ := members.countP fun member => member.role = .owner

/-- The member of an identifier. -/
def find (members : List MemberRecord) (memberId : ℕ) : Option MemberRecord :=
  members.find? fun member => member.id = memberId

/-- The guards: the session with the role of its user, who has to be a manager. -/
def enter (members : List MemberRecord) (userId : ℕ) : MemberPhase :=
  match members.find? fun member => member.userId = userId with
  | none => .ended (.refused .unauthorized)
  | some member =>
    if member.role ∈ managerRoles then .guarded ⟨userId, member.role⟩
    else .ended (.refused .forbidden)

/-- The members after a change of role. -/
def changeRole (members : List MemberRecord) (memberId : ℕ) (role : MemberRole) :
    List MemberRecord :=
  members.map fun member =>
    if member.id = memberId then { member with role := role.role } else member

/-- The members after a request that is let through. -/
def written (members : List MemberRecord) : MemberDemand → List MemberRecord
  | .setRole memberId role => changeRole members memberId role
  | .updateRole memberId role => changeRole members memberId role
  | .remove memberId => members.filter fun member => member.id ≠ memberId

/-- The answer of a request that is written. -/
def answerOf : MemberDemand → MemberAnswer
  | .setRole memberId role => .changed memberId role
  | .updateRole memberId role => .changed memberId role
  | .remove memberId => .removed memberId

/-- The desk with a request at its next phase. -/
def setPhase (desk : MemberDesk) (tx : ℕ) (phase : MemberPhase) : MemberDesk :=
  { desk with requests := desk.requests.modify tx fun request => { request with phase } }

/-- A serializable transaction. -/
def transact (desk : MemberDesk) (tx : ℕ) (request : MemberRequest) : Option MemberDesk :=
  match request.phase with
  | .ended _ => none
  | .guarded session =>
    let target := find desk.members request.demand.memberId
    match authorize session request.demand.newRole request.demand.selfReason target
        (ownerCount desk.members) with
    | .error reason => some (desk.setPhase tx (.ended (.refused reason)))
    | .ok _ =>
      some ({ desk with
        members := written desk.members request.demand
        audits := desk.audits ++ [(session.userId, request.demand)] }.setPhase tx
          (.ended (answerOf request.demand)))

end MemberDesk

/-- The step of an event. -/
def memberStep (desk : MemberDesk) : MemberEvent → Option MemberDesk
  | .arrive userId demand =>
    some { desk with
      requests := desk.requests ++ [⟨demand, MemberDesk.enter desk.members userId⟩] }
  | .join id userId role =>
    if desk.members.any fun member => member.id = id ∨ member.userId = userId then none
    else some { desk with members := desk.members ++ [⟨id, userId, role.role⟩] }
  | .transact tx => desk.requests[tx]?.bind fun request => desk.transact tx request
  | .fail tx => desk.requests[tx]?.bind fun request =>
    match request.phase with
    | .guarded _ => some (desk.setPhase tx (.ended .failed))
    | .ended _ => none

/-! ## Owners -/

/-- Someone owns the organization. -/
def HasOwner (members : List MemberRecord) : Prop := ∃ member ∈ members, member.role = .owner

/-- The user is one of the owners. -/
def IsOwner (members : List MemberRecord) (userId : ℕ) : Prop :=
  ∃ member ∈ members, member.userId = userId ∧ member.role = .owner

/-- Between two states, a member is granted the role `admin`, or an owner is changed or removed. -/
def Privileged (former next : List MemberRecord) : Prop :=
  (∃ before ∈ former, ∃ after ∈ next, after.id = before.id ∧ before.role ≠ .admin ∧
      after.role = .admin) ∨
    ∃ before ∈ former, before.role = .owner ∧ before ∉ next

/-- The members have their identifiers to themselves, and there is no request. -/
structure MemberDesk.Fresh (desk : MemberDesk) : Prop where
  ids : (desk.members.map MemberRecord.id).Nodup
  hasOwner : HasOwner desk.members
  requests : desk.requests = []

/-- A requester that the guard read as an owner is one when its transaction touches what only owners
touch. -/
def ActorStands (desk : MemberDesk) : MemberEvent → Prop
  | .transact tx => ∀ request ∈ desk.requests[tx]?, ∀ session, request.phase = .guarded session →
      session.role = .owner → ∀ target ∈ MemberDesk.find desk.members request.demand.memberId,
        touchesPrivileged request.demand.newRole target.role = true →
          IsOwner desk.members session.userId
  | _ => True

/-- What the checks establish of a request that passes them. -/
theorem authorize_eq_ok {session : AuthSession} {newRole : MemberRole} {selfReason : Option Refusal}
    {target : Option MemberRecord} {count : ℕ} {found : MemberRecord}
    (passed : authorize session newRole selfReason target count = .ok found) :
    target = some found ∧
      (touchesPrivileged newRole found.role = true → session.role = .owner) ∧
      (found.role = .owner → 1 < count) := by
  have granted : ∀ {member : MemberRecord},
      (assertMayGrant session.role newRole member.role).map (fun _ => member) = .ok found →
        member = found ∧ (touchesPrivileged newRole found.role = true → session.role = .owner) := by
    intro member allowed
    rw [assertMayGrant] at allowed
    split at allowed
    · cases allowed
    · rename_i free
      cases allowed
      refine ⟨rfl, fun touches => ?_⟩
      by_contra other
      exact free (by rw [touches, Bool.true_and]; exact decide_eq_true other)
  cases touched : assertMayTouch session target newRole selfReason with
  | error reason =>
    rw [authorize, touched] at passed
    cases passed
  | ok member =>
    rw [authorize, touched] at passed
    change (if member.role = .owner ∧ count ≤ 1 then _ else _) = _ at passed
    split at passed
    · cases passed
    · rename_i several
      cases passed
      have more : found.role = .owner → 1 < count :=
        fun owner => Nat.not_le.mp fun few => several ⟨owner, few⟩
      cases target with
      | none => cases touched
      | some target =>
        cases selfReason with
        | none =>
          obtain ⟨rfl, owner⟩ := granted touched
          exact ⟨rfl, owner, more⟩
        | some reason =>
          rw [assertMayTouch] at touched
          split at touched
          · cases touched
          · obtain ⟨rfl, owner⟩ := granted touched
            exact ⟨rfl, owner, more⟩

namespace MemberDesk

theorem find_eq_some {members : List MemberRecord} {memberId : ℕ} {found : MemberRecord}
    (known : find members memberId = some found) : found ∈ members ∧ found.id = memberId :=
  ⟨List.mem_of_find?_eq_some known, by simpa using List.find?_some known⟩

/-- One member at most has an identifier. -/
theorem eq_of_id {members : List MemberRecord} (ids : (members.map MemberRecord.id).Nodup)
    {first second : MemberRecord} (mem₁ : first ∈ members) (mem₂ : second ∈ members)
    (same : first.id = second.id) : first = second :=
  List.inj_on_of_nodup_map ids mem₁ mem₂ same

/-- What becomes of a member that the request is not for. -/
theorem mem_written {members : List MemberRecord} {demand : MemberDemand} {member : MemberRecord}
    (known : member ∈ members) (other : member.id ≠ demand.memberId) :
    member ∈ written members demand := by
  cases demand with
  | remove memberId => exact List.mem_filter.mpr ⟨known, decide_eq_true other⟩
  | setRole memberId role => exact List.mem_map.mpr ⟨member, known, if_neg other⟩
  | updateRole memberId role => exact List.mem_map.mpr ⟨member, known, if_neg other⟩

/-- Where the members of a written list come from. -/
theorem mem_of_mem_written {members : List MemberRecord} {demand : MemberDemand}
    {after : MemberRecord} (known : after ∈ written members demand) :
    after ∈ members ∨ ∃ before ∈ members, before.id = demand.memberId ∧ after.id = before.id ∧
      after.role = demand.newRole.role := by
  have mapped : ∀ {memberId : ℕ} {role : MemberRole}, after ∈ changeRole members memberId role →
      after ∈ members ∨ ∃ before ∈ members, before.id = memberId ∧ after.id = before.id ∧
        after.role = role.role := by
    intro memberId role known
    obtain ⟨before, member, same⟩ := List.mem_map.mp known
    split at same
    · rename_i mine
      cases same
      exact .inr ⟨before, member, mine, rfl, rfl⟩
    · cases same
      exact .inl member
  cases demand with
  | setRole memberId role => exact mapped known
  | updateRole memberId role => exact mapped known
  | remove memberId => exact .inl (List.mem_filter.mp known).1

theorem changeRole_ids (members : List MemberRecord) (memberId : ℕ) (role : MemberRole) :
    (changeRole members memberId role).map MemberRecord.id = members.map MemberRecord.id := by
  rw [changeRole, List.map_map]
  refine List.map_congr_left fun member _ => ?_
  rw [Function.comp_apply]
  split <;> rfl

theorem written_ids {members : List MemberRecord} (demand : MemberDemand)
    (ids : (members.map MemberRecord.id).Nodup) :
    ((written members demand).map MemberRecord.id).Nodup := by
  cases demand with
  | setRole memberId role =>
    rw [written, changeRole_ids]
    exact ids
  | updateRole memberId role =>
    rw [written, changeRole_ids]
    exact ids
  | remove memberId => exact ids.sublist (List.filter_sublist.map _)

/-- **The last owner stays**: a request that passes the checks leaves an owner. -/
theorem hasOwner_written {members : List MemberRecord} {demand : MemberDemand}
    {found : MemberRecord} (ids : (members.map MemberRecord.id).Nodup)
    (hasOwner : HasOwner members) (known : find members demand.memberId = some found)
    (several : found.role = .owner → 1 < ownerCount members) :
    HasOwner (written members demand) := by
  obtain ⟨member, id⟩ := find_eq_some known
  by_contra none_
  -- An owner that is not left is the target; so the target is the only owner.
  have only : ∀ owner ∈ members, owner.role = .owner → owner = found := by
    intro owner known' role
    by_contra apart
    have other : owner.id ≠ demand.memberId := by
      rw [← id]
      exact fun same => apart (eq_of_id ids known' member same)
    exact none_ ⟨owner, mem_written known' other, role⟩
  obtain ⟨owner, known', role⟩ := hasOwner
  have target : found.role = .owner := only owner known' role ▸ role
  have one : ownerCount members ≤ 1 := by
    rw [ownerCount, List.countP_eq_length_filter]
    have distinct : (members.filter fun other => other.role = .owner).Nodup :=
      (List.Nodup.of_map _ ids).filter _
    have within : (members.filter fun other => other.role = .owner) ⊆ [found] := by
      intro other kept
      obtain ⟨mine, isOwner⟩ := List.mem_filter.mp kept
      exact List.mem_singleton.mpr (only other mine (of_decide_eq_true isOwner))
    exact (distinct.subperm within).length_le
  exact absurd (several target) (Nat.not_lt.mpr one)

/-- A request whose effect is privileged touches what only owners touch. -/
theorem touchesPrivileged_of_privileged {members : List MemberRecord} {demand : MemberDemand}
    {found : MemberRecord} (ids : (members.map MemberRecord.id).Nodup)
    (known : find members demand.memberId = some found)
    (privileged : Privileged members (written members demand)) :
    touchesPrivileged demand.newRole found.role = true := by
  obtain ⟨member, id⟩ := find_eq_some known
  rw [touchesPrivileged, Bool.or_eq_true, decide_eq_true_eq, decide_eq_true_eq]
  rcases privileged with ⟨before, known', after, left, same, former, role⟩ | ⟨before, known', role, gone⟩
  · rcases mem_of_mem_written left with kept | ⟨changed, mine, _, _, granted⟩
    · rw [eq_of_id ids kept known' same] at role
      exact absurd role former
    · rw [role] at granted
      cases newRole : demand.newRole with
      | admin => exact .inl rfl
      | dev | designer | client | business =>
        rw [newRole] at granted
        cases granted
  · refine .inr ?_
    by_contra other
    refine gone (mem_written known' fun mine => other ?_)
    rw [← id] at mine
    rw [← eq_of_id ids known' member mine]
    exact role

end MemberDesk

/-! ## Runs -/

/-- What the members are after a transaction: as they were, or as the request writes them when its
checks pass. -/
theorem transact_members {desk next : MemberDesk} {tx : ℕ} {request : MemberRequest}
    (taken : desk.transact tx request = some next) :
    next.members = desk.members ∨ ∃ session found, request.phase = .guarded session ∧
      MemberDesk.find desk.members request.demand.memberId = some found ∧
      (touchesPrivileged request.demand.newRole found.role = true → session.role = .owner) ∧
      (found.role = .owner → 1 < MemberDesk.ownerCount desk.members) ∧
      next.members = MemberDesk.written desk.members request.demand := by
  rw [MemberDesk.transact] at taken
  split at taken
  · cases taken
  · rename_i session phase
    dsimp only at taken
    split at taken
    · cases taken
      exact .inl rfl
    · rename_i found passed
      cases taken
      obtain ⟨known, owner, several⟩ := authorize_eq_ok passed
      exact .inr ⟨session, found, phase, known, owner, several, rfl⟩

/-- The identifiers stay apart, and an owner stays. -/
structure MemberDesk.Governed (desk : MemberDesk) : Prop where
  ids : (desk.members.map MemberRecord.id).Nodup
  hasOwner : HasOwner desk.members

theorem MemberDesk.Governed.step {desk next : MemberDesk} {event : MemberEvent}
    (governed : desk.Governed) (taken : memberStep desk event = some next) : next.Governed := by
  cases event with
  | arrive userId demand =>
    cases taken
    exact ⟨governed.ids, governed.hasOwner⟩
  | join id userId role =>
    rw [memberStep] at taken
    split at taken
    · cases taken
    · rename_i free
      cases taken
      obtain ⟨owner, known, isOwner⟩ := governed.hasOwner
      refine ⟨?_, owner, List.mem_append_left _ known, isOwner⟩
      rw [List.map_append]
      refine governed.ids.append (List.nodup_singleton _) fun other mine new => free ?_
      obtain ⟨member, known, same⟩ := List.mem_map.mp mine
      rw [List.map_singleton, List.mem_singleton] at new
      exact List.any_eq_true.mpr ⟨member, known, decide_eq_true (.inl (same.trans new))⟩
  | transact tx =>
    obtain ⟨request, _, went⟩ := Option.bind_eq_some_iff.mp taken
    rcases transact_members went with same | ⟨_, _, _, known, _, several, same⟩
    · refine ⟨?_, ?_⟩ <;> rw [same]
      · exact governed.ids
      · exact governed.hasOwner
    · refine ⟨?_, ?_⟩ <;> rw [same]
      · exact MemberDesk.written_ids request.demand governed.ids
      · exact MemberDesk.hasOwner_written governed.ids governed.hasOwner known several
  | fail tx =>
    obtain ⟨request, _, went⟩ := Option.bind_eq_some_iff.mp taken
    split at went <;> cases went
    exact ⟨governed.ids, governed.hasOwner⟩

/-- **A privileged change is requested by an owner**, when the requester still is what the guard
read. -/
theorem privileged_step {desk next : MemberDesk} {event : MemberEvent} (governed : desk.Governed)
    (stands : ActorStands desk event) (taken : memberStep desk event = some next)
    (privileged : Privileged desk.members next.members) :
    ∃ tx request session, event = .transact tx ∧ desk.requests[tx]? = some request ∧
      request.phase = .guarded session ∧ IsOwner desk.members session.userId := by
  have unchanged : ∀ {members : List MemberRecord}, desk.members ⊆ members →
      (∀ after ∈ members, after ∈ desk.members ∨
        ∀ before ∈ desk.members, before.id ≠ after.id) → ¬ Privileged desk.members members := by
    rintro members kept from_ (⟨before, known, after, left, same, former, role⟩ | ⟨before, known, _, gone⟩)
    · rcases from_ after left with old | new
      · rw [MemberDesk.eq_of_id governed.ids old known same] at role
        exact former role
      · exact new before known same.symm
    · exact gone (kept known)
  cases event with
  | arrive userId demand =>
    cases taken
    exact absurd privileged (unchanged (List.Subset.refl _) fun _ known => .inl known)
  | join id userId role =>
    rw [memberStep] at taken
    split at taken
    · cases taken
    · rename_i free
      cases taken
      refine absurd privileged (unchanged (List.subset_append_left _ _) fun after known => ?_)
      rcases List.mem_append.mp known with old | new
      · exact .inl old
      · refine .inr fun before mine same => free ?_
        rw [List.mem_singleton.mp new] at same
        exact List.any_eq_true.mpr ⟨before, mine, decide_eq_true (.inl same)⟩
  | transact tx =>
    obtain ⟨request, found, went⟩ := Option.bind_eq_some_iff.mp taken
    rcases transact_members went with same | ⟨session, target, phase, known, owner, _, same⟩
    · rw [same] at privileged
      exact absurd privileged (unchanged (List.Subset.refl _) fun _ known => .inl known)
    · rw [same] at privileged
      have touches := MemberDesk.touchesPrivileged_of_privileged governed.ids known privileged
      exact ⟨tx, request, session, rfl, found, phase,
        stands request found session phase (owner touches) target known touches⟩
  | fail tx =>
    obtain ⟨request, _, went⟩ := Option.bind_eq_some_iff.mp taken
    split at went <;> cases went
    exact absurd privileged (unchanged (List.Subset.refl _) fun _ known => .inl known)

/-- **The authority over members.** In every run the organization has an owner. Where requesters
that the guard read as owners still are when their transactions touch what only owners touch, a
step that grants the role `admin`, or changes or removes an owner, is the transaction of a request
whose user is an owner in the state where it is committed. -/
theorem membership_authority {start mid last : MemberDesk} {schedule : List MemberEvent}
    {event : MemberEvent} (fresh : start.Fresh) (reached : run memberStep start schedule = some mid)
    (taken : memberStep mid event = some last) :
    HasOwner mid.members ∧ HasOwner last.members ∧
      (Along memberStep ActorStands start (schedule ++ [event]) →
        Privileged mid.members last.members →
          ∃ tx request session, event = .transact tx ∧ mid.requests[tx]? = some request ∧
            request.phase = .guarded session ∧ IsOwner mid.members session.userId) := by
  have kept : ∀ (s : MemberDesk) (label : MemberEvent) (next : MemberDesk), s.Governed →
      memberStep s label = some next → next.Governed := fun _ _ _ governed taken =>
    governed.step taken
  have governed : mid.Governed := run_invariant kept ⟨fresh.ids, fresh.hasOwner⟩ reached
  refine ⟨governed.hasOwner, (governed.step taken).hasOwner, fun along privileged => ?_⟩
  exact privileged_step governed (along.split reached).2.1 taken privileged

/-- Two owners, an admin and a developer. -/
def ownersDesk : MemberDesk where
  members := [⟨0, 10, .owner⟩, ⟨1, 11, .owner⟩, ⟨2, 12, .admin⟩, ⟨3, 13, .dev⟩]
  audits := []
  requests := []

theorem ownersDesk_fresh : ownersDesk.Fresh where
  ids := by decide
  hasOwner := ⟨⟨0, 10, .owner⟩, by decide, rfl⟩
  requests := rfl

/-- The admin is refused to change an owner, which the other owner does. -/
theorem membership_authority_demotion :
    ∃ mid last, run memberStep ownersDesk
        [.arrive 12 (.updateRole 1 .dev), .transact 0, .arrive 10 (.updateRole 1 .dev)] = some mid ∧
      memberStep mid (.transact 1) = some last ∧ HasOwner last.members ∧
      ∃ tx request session, MemberEvent.transact 1 = .transact tx ∧
        mid.requests[tx]? = some request ∧ request.phase = .guarded session ∧
          IsOwner mid.members session.userId := by
  have started : run memberStep ownersDesk
      [.arrive 12 (.updateRole 1 .dev), .transact 0, .arrive 10 (.updateRole 1 .dev)] =
        some ⟨ownersDesk.members, [], [⟨.updateRole 1 .dev, .ended (.refused .forbidden)⟩,
          ⟨.updateRole 1 .dev, .guarded ⟨10, .owner⟩⟩]⟩ := rfl
  have along : Along memberStep ActorStands ownersDesk
      ([.arrive 12 (.updateRole 1 .dev), .transact 0, .arrive 10 (.updateRole 1 .dev)] ++
        [.transact 1]) := by
    refine .of_step rfl trivial (.of_step rfl ?_ (.of_step rfl trivial (.of_step rfl ?_ trivial)))
    · intro request found session phase owner
      cases found
      cases phase
      cases owner
    · intro request found session phase owner target known touches
      cases found
      cases phase
      exact ⟨⟨0, 10, .owner⟩, by decide, rfl, rfl⟩
  have ended : memberStep ⟨ownersDesk.members, [],
      [⟨.updateRole 1 .dev, .ended (.refused .forbidden)⟩,
        ⟨.updateRole 1 .dev, .guarded ⟨10, .owner⟩⟩]⟩ (.transact 1) = some _ := rfl
  obtain ⟨_, stays, law⟩ := membership_authority ownersDesk_fresh started ended
  refine ⟨_, _, started, ended, stays, law along (.inr ?_)⟩
  exact ⟨⟨1, 11, .owner⟩, by decide, rfl, by decide⟩

/-- **A former owner grants the role `admin`**: the guard reads an owner, the other owner makes a
developer of them, and their request to make an admin is still let through. -/
theorem former_owner_grants_admin :
    ownersDesk.Fresh ∧ ∃ mid last, run memberStep ownersDesk
        [.arrive 11 (.updateRole 3 .admin), .arrive 10 (.updateRole 1 .dev), .transact 1] =
          some mid ∧
      memberStep mid (.transact 0) = some last ∧ Privileged mid.members last.members ∧
      mid.requests[0]?.map MemberRequest.phase = some (.guarded ⟨11, .owner⟩) ∧
      ¬ IsOwner mid.members 11 := by
  refine ⟨ownersDesk_fresh, _, _, rfl, rfl, .inl ?_, rfl, ?_⟩
  · exact ⟨⟨3, 13, .dev⟩, by decide, ⟨3, 13, .admin⟩, by decide, rfl, by decide, rfl⟩
  · rintro ⟨member, known, user, owner⟩
    revert member
    decide

end Koklo.Members
