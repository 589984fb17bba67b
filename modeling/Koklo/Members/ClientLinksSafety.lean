import Koklo.Members.ClientLinks

/-!
# Links belong to client members

A request that is about to write holds the row of its member as it read it, but for the version and
the role that another transaction may write under a reference (`AccessRequest.Holds`), and two
requests never hold the same row with locks that conflict (`AccessDesk.Sound`).

Every link belongs to a member of role `client` or `business` in every run where a change to another
role deletes all the links of the member, and the links of an invitation are inserted while the
member has one of these roles (`client_links`). So a client reaches no project that was linked
before a change to another role. Without this, the links of a business member outlive a change of
role and are revived by the next one (`business_links_revived`).
-/

set_option autoImplicit false

namespace Koklo.Members

open Koklo.Foundations

/-- A user is a member of role `client` or `business`. -/
def AccessDesk.ClientSide (desk : AccessDesk) (userId : ℕ) : Prop :=
  ∃ id row, desk.members.find id = some row ∧ row.userId = userId ∧
    row.role ∈ projectInvitationRoles

/-- Every link belongs to a member of role `client` or `business`. -/
def AccessDesk.LinksBelong (desk : AccessDesk) : Prop :=
  ∀ id link, desk.links.find id = some link → desk.ClientSide link.userId

/-- Members and links as they are before any request. -/
structure AccessDesk.Fresh (desk : AccessDesk) : Prop where
  users : ∀ i j first second, desk.members.find i = some first → desk.members.find j = some second →
    first.userId = second.userId → i = j
  linked : desk.LinksBelong
  requests : desk.requests = []

/-- A change to a role other than `client` and `business` deletes all the links of the member, and
the links of an invitation are inserted while the member has one of these roles. -/
def KeepsLinks (desk : AccessDesk) : AccessEvent → Prop
  | .advance tx => ∀ request ∈ desk.requests[tx]?,
      (∀ session demand row purged, request.demand = .member session demand →
        request.phase = .committing row purged → (∀ memberId, demand ≠ .remove memberId) →
          demand.newRole.role ∉ projectInvitationRoles →
            ∀ id link, desk.links.find id = some link → link.userId = row.userId → id ∈ purged) ∧
      ∀ userId role proposed memberId rows, request.demand = .accept userId role proposed →
        request.phase = .inserted memberId rows →
          ∀ row ∈ desk.members.find memberId, row.role ∈ projectInvitationRoles
  | _ => True

/-! ## What a request holds -/

/-- A phase in which a request holds the row of a member. -/
def AccessPhase.holding : AccessPhase → Bool
  | .committing _ _ => true
  | .linking _ => true
  | .inserted _ _ => true
  | _ => false

/-- What a request holds is as it read it. -/
inductive AccessRequest.Holds (members : Rows MemberRow) : AccessRequest → Prop where
  | committing {session : AuthSession} {demand : MemberDemand} {row : MemberRow} {purged : List ℕ}
      (known : members.find demand.memberId = some row) :
      Holds members ⟨.member session demand, .committing row purged,
        some (demand.memberId, demand.lock)⟩
  | linking {projectId memberId : ℕ} {row : MemberRow} (known : members.find memberId = some row)
      (client : row.role = .client) :
      Holds members ⟨.addClient projectId memberId, .linking row.userId,
        some (memberId, .update)⟩
  | added {projectId memberId : ℕ} {row : MemberRow} {rows : List LinkRow}
      (known : members.find memberId = some row) (client : row.role = .client)
      (own : ∀ link ∈ rows, link.userId = row.userId) :
      Holds members ⟨.addClient projectId memberId, .inserted memberId rows,
        some (memberId, .update)⟩
  | proposed {userId memberId : ℕ} {role : MemberRole} {proposed : List ℕ} {row : MemberRow}
      {rows : List LinkRow} (known : members.find memberId = some row)
      (own : ∀ link ∈ rows, link.userId = row.userId) :
      Holds members ⟨.accept userId role proposed, .inserted memberId rows,
        some (memberId, .reference)⟩
  | nothing {demand : AccessDemand} {phase : AccessPhase} (free : phase.holding = false) :
      Holds members ⟨demand, phase, none⟩

theorem MemberDemand.lock_ne_reference (demand : MemberDemand) : demand.lock ≠ .reference := by
  cases demand <;> simp [MemberDemand.lock]

/-- A request holds its row when the row keeps its user, and keeps all it has under a lock that
excludes updates. -/
theorem AccessRequest.Holds.mono {members next : Rows MemberRow} {request : AccessRequest}
    (holds : request.Holds members)
    (kept : ∀ memberId lock row, request.held = some (memberId, lock) →
      members.find memberId = some row → ∃ later, next.find memberId = some later ∧
        later.userId = row.userId ∧ (lock ≠ .reference → later = row)) :
    request.Holds next := by
  cases holds with
  | @committing session demand row purged known =>
    obtain ⟨later, found, _, same⟩ := kept _ _ _ rfl known
    rw [same (MemberDemand.lock_ne_reference demand)] at found
    exact .committing found
  | linking known client =>
    obtain ⟨later, found, _, same⟩ := kept _ _ _ rfl known
    rw [same (by decide)] at found
    exact .linking found client
  | added known client own =>
    obtain ⟨later, found, _, same⟩ := kept _ _ _ rfl known
    rw [same (by decide)] at found
    exact .added found client own
  | proposed known own =>
    obtain ⟨later, found, user, _⟩ := kept _ _ _ rfl known
    refine .proposed found fun link member => ?_
    rw [user]
    exact own link member
  | nothing free => exact .nothing free

/-- Another request holds the row of a member. -/
def AccessDesk.HeldByOther (desk : AccessDesk) (tx memberId : ℕ) (lock : RowLock) : Prop :=
  ∃ i other, i ≠ tx ∧ desk.requests[i]? = some other ∧ other.held = some (memberId, lock)

theorem AccessDesk.conflicts_of_not_blocked {desk : AccessDesk} {tx memberId : ℕ} {lock : RowLock}
    (free : desk.blocked tx memberId lock = false) {held : RowLock}
    (other : desk.HeldByOther tx memberId held) : held.conflicts lock = false := by
  obtain ⟨i, request, apart, found, holds⟩ := other
  rw [AccessDesk.blocked, AccessDesk.others, List.any_eq_false] at free
  have quiet := free request (List.mem_eraseIdx_iff_getElem?.mpr ⟨i, apart, found⟩)
  rw [holds, Option.any_some, decide_eq_true rfl, Bool.true_and] at quiet
  exact Bool.eq_false_iff.mpr quiet

/-- A user is a member once, and the rows that requests hold are there and locked without conflict. -/
structure AccessDesk.Sound (desk : AccessDesk) : Prop where
  users : ∀ i j first second, desk.members.find i = some first → desk.members.find j = some second →
    first.userId = second.userId → i = j
  holds : ∀ request ∈ desk.requests, request.Holds desk.members
  exclusive : ∀ tx request memberId lock, desk.requests[tx]? = some request →
    request.held = some (memberId, lock) → ∀ held, desk.HeldByOther tx memberId held →
      held.conflicts lock = false

/-- **A statement of a request**: the others hold what they held, and what the request holds now is
free for it. -/
theorem AccessDesk.Sound.moved {desk : AccessDesk} (sound : desk.Sound) {tx : ℕ}
    {request : AccessRequest} (found : desk.requests[tx]? = some request)
    {members : Rows MemberRow} {links : Rows LinkRow} {phase : AccessPhase}
    {held : Option (ℕ × RowLock)}
    (users : ∀ i j first second, members.find i = some first → members.find j = some second →
      first.userId = second.userId → i = j)
    (keeps : ∀ memberId lock row, desk.HeldByOther tx memberId lock →
      desk.members.find memberId = some row → ∃ later, members.find memberId = some later ∧
        later.userId = row.userId ∧ (lock ≠ .reference → later = row))
    (holds : (AccessRequest.mk request.demand phase held).Holds members)
    (free : ∀ memberId lock, held = some (memberId, lock) →
      ∀ other, desk.HeldByOther tx memberId other → other.conflicts lock = false) :
    (AccessDesk.setPhase ⟨members, links, desk.requests⟩ tx phase held).Sound := by
  have after : ∀ {i : ℕ} {other : AccessRequest},
      (desk.requests.modify tx fun request => { request with phase, held })[i]? = some other →
        i = tx ∧ other = ⟨request.demand, phase, held⟩ ∨
          i ≠ tx ∧ desk.requests[i]? = some other := by
    intro i other known
    rw [List.getElem?_modify] at known
    obtain ⟨former, known, same⟩ := Option.map_eq_some_iff.mp known
    split at same
    · rename_i mine
      subst mine
      rw [found] at known
      cases known
      exact .inl ⟨rfl, same.symm⟩
    · rename_i other
      cases same
      exact .inr ⟨Ne.symm other, known⟩
  refine ⟨users, fun other member => ?_, ?_⟩
  · obtain ⟨i, known⟩ := List.mem_iff_getElem?.mp member
    rcases after known with ⟨_, rfl⟩ | ⟨apart, former⟩
    · exact holds
    · refine (sound.holds other (List.mem_of_getElem? former)).mono fun memberId lock row own => ?_
      exact keeps memberId lock row ⟨i, other, apart, former, own⟩
  · rintro i first memberId lock foundI own held' ⟨j, second, apart, foundJ, own'⟩
    rcases after foundI with ⟨rfl, rfl⟩ | ⟨apartI, formerI⟩
    · rcases after foundJ with ⟨rfl, _⟩ | ⟨apartJ, formerJ⟩
      · exact absurd rfl apart
      · exact free memberId lock own held' ⟨j, second, apartJ, formerJ, own'⟩
    · rcases after foundJ with ⟨rfl, rfl⟩ | ⟨apartJ, formerJ⟩
      · rw [RowLock.conflicts_comm]
        exact free memberId held' own' lock ⟨i, first, apartI, formerI, own⟩
      · exact sound.exclusive i first memberId lock formerI own held' ⟨j, second, apart, formerJ, own'⟩

/-- A row is changed by a request that holds it for an update. -/
theorem AccessDesk.Sound.keeps_change {desk : AccessDesk} (sound : desk.Sound) {tx : ℕ}
    {request : AccessRequest} (found : desk.requests[tx]? = some request) {memberId : ℕ}
    (mine : request.held = some (memberId, .update)) {changed : MemberRow → MemberRow}
    (user : ∀ row, (changed row).userId = row.userId) (id : ℕ) (lock : RowLock) (row : MemberRow)
    (other : desk.HeldByOther tx id lock) (known : desk.members.find id = some row) :
    ∃ later, (desk.members.change memberId changed).find id = some later ∧
      later.userId = row.userId ∧ (lock ≠ .reference → later = row) := by
  rw [Rows.find_change, known]
  by_cases same : id = memberId
  · subst same
    have compatible := sound.exclusive tx request id .update found mine lock other
    refine ⟨changed row, if_pos rfl, user row, fun exclusive => ?_⟩
    cases lock with
    | reference => exact absurd rfl exclusive
    | update | delete => cases compatible
  · exact ⟨row, if_neg same, rfl, fun _ => rfl⟩

/-- A row is removed that no other request holds. -/
theorem AccessDesk.keeps_drop {desk : AccessDesk} {tx memberId : ℕ}
    (free : ∀ lock, ¬ desk.HeldByOther tx memberId lock) (id : ℕ) (lock : RowLock) (row : MemberRow)
    (other : desk.HeldByOther tx id lock) (known : desk.members.find id = some row) :
    ∃ later, (desk.members.drop fun id _ => id = memberId).find id = some later ∧
      later.userId = row.userId ∧ (lock ≠ .reference → later = row) := by
  refine ⟨row, Rows.find_drop.mpr ⟨known, decide_eq_false fun same => ?_⟩, rfl, fun _ => rfl⟩
  rw [same] at other
  exact free lock other

theorem users_change {members : Rows MemberRow}
    (users : ∀ i j first second, members.find i = some first → members.find j = some second →
      first.userId = second.userId → i = j)
    {memberId : ℕ} {changed : MemberRow → MemberRow}
    (user : ∀ row, (changed row).userId = row.userId) (i j : ℕ) (first second : MemberRow)
    (foundI : (members.change memberId changed).find i = some first)
    (foundJ : (members.change memberId changed).find j = some second)
    (same : first.userId = second.userId) : i = j := by
  have former : ∀ {id : ℕ} {row : MemberRow},
      (members.change memberId changed).find id = some row →
        ∃ before, members.find id = some before ∧ before.userId = row.userId := by
    intro id row known
    rw [Rows.find_change] at known
    split at known
    · obtain ⟨before, old, rfl⟩ := Option.map_eq_some_iff.mp known
      exact ⟨before, old, (user before).symm⟩
    · exact ⟨row, known, rfl⟩
  obtain ⟨beforeI, knownI, userI⟩ := former foundI
  obtain ⟨beforeJ, knownJ, userJ⟩ := former foundJ
  exact users i j beforeI beforeJ knownI knownJ (userI.trans (same.trans userJ.symm))

/-- The links of a user to projects. -/
theorem AccessDesk.userId_of_mem_newLinks {desk : AccessDesk} {userId : ℕ} {projects : List ℕ}
    {link : LinkRow} (member : link ∈ desk.newLinks userId projects) : link.userId = userId := by
  obtain ⟨projectId, _, rfl⟩ := List.mem_map.mp (List.mem_filter.mp member).1
  rfl

/-- A request that is answered holds nothing. -/
theorem AccessDesk.Sound.answered {desk : AccessDesk} (sound : desk.Sound) {tx : ℕ}
    {request : AccessRequest} (found : desk.requests[tx]? = some request) {links : Rows LinkRow}
    {phase : AccessPhase} (nothing : phase.holding = false) :
    (AccessDesk.setPhase ⟨desk.members, links, desk.requests⟩ tx phase none).Sound :=
  sound.moved found sound.users (fun _ _ row _ known => ⟨row, known, rfl, fun _ => rfl⟩)
    (.nothing nothing) (fun _ _ none_ => by cases none_)

theorem RowLock.conflicts_delete (lock : RowLock) : lock.conflicts .delete = true := by
  cases lock <;> rfl

/-- A member is removed that no other request holds. -/
theorem AccessDesk.Sound.removed {desk : AccessDesk} (sound : desk.Sound) {tx : ℕ}
    {request : AccessRequest} (found : desk.requests[tx]? = some request) {memberId : ℕ}
    {links : Rows LinkRow} {answer : AccessAnswer}
    (free : ∀ lock, desk.HeldByOther tx memberId lock → lock.conflicts .delete = false) :
    (AccessDesk.answer ⟨desk.members.drop fun id _ => id = memberId, links, desk.requests⟩ tx
      answer).Sound := by
  have unheld : ∀ lock, ¬ desk.HeldByOther tx memberId lock := by
    intro lock other
    have compatible := free lock other
    rw [RowLock.conflicts_delete] at compatible
    cases compatible
  refine sound.moved found (fun i j first second foundI foundJ => ?_)
    (AccessDesk.keeps_drop unheld) (.nothing rfl) (fun _ _ none_ => by cases none_)
  exact sound.users i j first second (Rows.find_drop.mp foundI).1 (Rows.find_drop.mp foundJ).1

/-- The role or the version of a member is written by the request that holds it. -/
theorem AccessDesk.Sound.changed {desk : AccessDesk} (sound : desk.Sound) {tx : ℕ}
    {request : AccessRequest} (found : desk.requests[tx]? = some request) {memberId : ℕ}
    (mine : request.held = some (memberId, .update)) {links : Rows LinkRow}
    {answer : AccessAnswer} (changed : MemberRow → MemberRow)
    (user : ∀ row, (changed row).userId = row.userId) :
    (AccessDesk.answer ⟨desk.members.change memberId changed, links, desk.requests⟩ tx
      answer).Sound :=
  sound.moved found (users_change sound.users user) (sound.keeps_change found mine user)
    (.nothing rfl) (fun _ _ none_ => by cases none_)

/-- The first statement of a request. -/
theorem AccessDesk.Sound.start {desk next : AccessDesk} (sound : desk.Sound) {tx : ℕ}
    {request : AccessRequest} (found : desk.requests[tx]? = some request)
    (went : desk.start tx request.demand = some next) : next.Sound := by
  cases asked : request.demand with
  | member session demand =>
    rw [asked, AccessDesk.start] at went
    split at went
    · cases went
      exact sound.answered found rfl
    · obtain ⟨row, _, rfl⟩ := Option.map_eq_some_iff.mp went
      exact sound.answered found rfl
  | addClient projectId memberId =>
    rw [asked, AccessDesk.start] at went
    split at went
    · cases went
      exact sound.answered found rfl
    · rename_i row known
      split at went
      · cases went
        exact sound.answered found rfl
      · rename_i client
        split at went
        · cases went
        · rename_i free
          cases went
          refine sound.moved found sound.users
            (fun _ _ row _ known => ⟨row, known, rfl, fun _ => rfl⟩) ?_ ?_
          · rw [asked]
            exact .linking known (not_not.mp client)
          · intro _ _ taken lock other
            cases taken
            exact AccessDesk.conflicts_of_not_blocked (Bool.eq_false_iff.mpr free) other
  | removeClient projectId memberId =>
    rw [asked, AccessDesk.start] at went
    split at went <;> cases went <;> exact sound.answered found rfl
  | accept userId role proposed =>
    rw [asked, AccessDesk.start] at went
    split at went
    · cases went
      exact sound.answered found rfl
    · rename_i unknown
      have fresh : ∀ {i : ℕ} {row : MemberRow}, desk.members.find i = some row →
          row.userId ≠ userId := by
        intro i row known same
        refine unknown (List.any_eq_true.mpr ⟨some row, ?_, decide_eq_true same⟩)
        exact List.mem_of_getElem? (Rows.find_eq_some.mp known)
      have users : ∀ i j first second,
          (desk.members.add [⟨userId, role.role, 0⟩]).find i = some first →
            (desk.members.add [⟨userId, role.role, 0⟩]).find j = some second →
              first.userId = second.userId → i = j := by
        intro i j first second foundI foundJ same
        rcases Rows.find_add.mp foundI with knownI | ⟨k, rfl, newI⟩
        · rcases Rows.find_add.mp foundJ with knownJ | ⟨l, rfl, newJ⟩
          · exact sound.users i j first second knownI knownJ same
          · rw [List.mem_singleton.mp (List.mem_of_getElem? newJ)] at same
            exact absurd same (fresh knownI)
        · rcases Rows.find_add.mp foundJ with knownJ | ⟨l, rfl, newJ⟩
          · rw [List.mem_singleton.mp (List.mem_of_getElem? newI)] at same
            exact absurd same.symm (fresh knownJ)
          · have first_ := (List.getElem?_eq_some_iff.mp newI).1
            have second_ := (List.getElem?_eq_some_iff.mp newJ).1
            rw [List.length_singleton] at first_ second_
            omega
      dsimp only at went
      split at went <;> cases went <;>
        exact sound.moved found users
          (fun _ _ row _ known => ⟨row, Rows.find_add.mpr (.inl known), rfl, fun _ => rfl⟩)
          (.nothing rfl) (fun _ _ none_ => by cases none_)

/-- **A step keeps what the requests hold.** -/
theorem AccessDesk.Sound.step {desk next : AccessDesk} {event : AccessEvent} (sound : desk.Sound)
    (taken : accessStep desk event = some next) : next.Sound := by
  have same : ∀ (tx id : ℕ) (lock : RowLock) (row : MemberRow), desk.HeldByOther tx id lock →
      desk.members.find id = some row → ∃ later, desk.members.find id = some later ∧
        later.userId = row.userId ∧ (lock ≠ .reference → later = row) :=
    fun _ _ _ row _ known => ⟨row, known, rfl, fun _ => rfl⟩
  cases event with
  | arrive demand =>
    cases taken
    have former : ∀ {i : ℕ} {request : AccessRequest},
        (desk.requests ++ [⟨demand, .starting, none⟩])[i]? = some request →
          desk.requests[i]? = some request ∨ request.held = none := by
      intro i request known
      rcases Nat.lt_or_ge i desk.requests.length with inside | outside
      · rw [List.getElem?_append_left inside] at known
        exact .inl known
      · rw [List.getElem?_append_right outside] at known
        rw [List.mem_singleton.mp (List.mem_of_getElem? known)]
        exact .inr rfl
    refine ⟨sound.users, fun request member => ?_, ?_⟩
    · rcases List.mem_append.mp member with old | new
      · exact sound.holds request old
      · rw [List.mem_singleton.mp new]
        exact .nothing rfl
    · rintro i first memberId lock foundI own held ⟨j, second, apart, foundJ, own'⟩
      rcases former foundI with knownI | none_
      · rcases former foundJ with knownJ | none_
        · exact sound.exclusive i first memberId lock knownI own held ⟨j, second, apart, knownJ, own'⟩
        · rw [none_] at own'
          cases own'
      · rw [none_] at own
        cases own
  | advance tx =>
    obtain ⟨request, found, went⟩ := Option.bind_eq_some_iff.mp taken
    have holds := sound.holds request (List.mem_of_getElem? found)
    rw [AccessDesk.advance] at went
    split at went
    case h_1 => exact sound.start found went
    case h_2 row purged session demand phase asked =>
      rw [AccessDesk.lockTarget] at went
      split at went
      · cases went
      · rename_i free
        split at went
        · rename_i known
          cases went
          refine sound.moved found sound.users (same tx) ?_ ?_
          · rw [asked]
            exact .committing known
          · intro _ _ taken lock other
            cases taken
            exact AccessDesk.conflicts_of_not_blocked (Bool.eq_false_iff.mpr free) other
        · cases went
          exact sound.answered found rfl
    case h_3 row purged session demand phase asked =>
      cases went
      obtain ⟨demanded, phase', held⟩ := request
      cases phase
      cases asked
      cases holds with
      | committing known =>
        cases demand with
        | setRole memberId role =>
          exact sound.changed found rfl
            (fun row => { row with role := role.role, version := row.version + 1 }) fun _ => rfl
        | updateRole memberId role =>
          exact sound.changed found rfl
            (fun row => { row with role := role.role, version := row.version + 1 }) fun _ => rfl
        | remove memberId =>
          exact sound.removed found (sound.exclusive tx _ memberId .delete found rfl)
      | nothing free => cases free
    case h_4 userId projectId memberId phase asked =>
      dsimp only at went
      split at went
      · cases went
      · cases went
        obtain ⟨demanded, phase', held⟩ := request
        cases phase
        cases asked
        cases holds with
        | linking known client =>
          refine sound.moved found sound.users (same tx) ?_ ?_
          · refine .added known client fun link member => ?_
            exact AccessDesk.userId_of_mem_newLinks member
          · intro _ _ taken lock other
            cases taken
            exact sound.exclusive tx _ memberId .update found rfl lock other
        | nothing free => cases free
    case h_5 memberId rows projectId _ phase asked =>
      cases went
      obtain ⟨demanded, phase', held⟩ := request
      cases phase
      cases asked
      cases holds with
      | added known client own =>
        exact sound.changed found rfl (fun row => { row with version := row.version + 1 })
          fun _ => rfl
      | nothing free => cases free
    case h_6 | h_7 =>
      cases went
      exact sound.answered found rfl
    case h_8 memberId userId role proposed phase asked =>
      rw [AccessDesk.propose] at went
      split at went
      · cases went
        exact sound.answered found rfl
      · split at went
        · cases went
          exact sound.answered found rfl
        · rename_i other known
          split at went
          · cases went
          · rename_i free
            cases went
            rw [Bool.or_eq_true, not_or] at free
            obtain ⟨inside, user, _⟩ := List.findIdx?_eq_some_iff_getElem.mp known
            obtain ⟨row, member, own⟩ := (Option.any_eq_true _ _).mp user
            have named : row.userId = userId := of_decide_eq_true own
            have present : desk.members.find other = some row := by
              rw [Rows.find_eq_some, List.getElem?_eq_getElem inside, member]
            refine sound.moved found sound.users (same tx) ?_ ?_
            · rw [asked]
              refine .proposed present fun link among => ?_
              rw [named]
              exact AccessDesk.userId_of_mem_newLinks among
            · intro _ _ taken lock other
              cases taken
              exact AccessDesk.conflicts_of_not_blocked (Bool.eq_false_iff.mpr free.1) other
    case h_9 memberId userId role proposed phase asked =>
      rw [AccessDesk.undo] at went
      split at went
      · cases went
      · rename_i free
        split at went
        · cases went
          exact sound.answered found rfl
        · cases went
          exact sound.removed found fun lock other =>
            AccessDesk.conflicts_of_not_blocked (Bool.eq_false_iff.mpr free) other
    case h_10 => cases went
  | fail tx =>
    obtain ⟨request, found, went⟩ := Option.bind_eq_some_iff.mp taken
    rw [AccessDesk.fail] at went
    split at went <;> cases went <;> exact sound.answered found rfl
  | stop tx =>
    obtain ⟨request, found, went⟩ := Option.bind_eq_some_iff.mp taken
    rw [AccessDesk.stop] at went
    split at went <;> cases went
    exact sound.answered found rfl

/-! ## Links -/

/-- A user stays a member of role `client` or `business` when its row is kept, but for the
version. -/
theorem AccessDesk.ClientSide.mono {desk next : AccessDesk} {userId : ℕ}
    (clientSide : desk.ClientSide userId)
    (kept : ∀ id row, desk.members.find id = some row → row.userId = userId →
      ∃ later, next.members.find id = some later ∧ later.userId = row.userId ∧
        (row.role ∈ projectInvitationRoles → later.role ∈ projectInvitationRoles)) :
    next.ClientSide userId := by
  obtain ⟨id, row, known, user, role⟩ := clientSide
  obtain ⟨later, found, same, stays⟩ := kept id row known user
  exact ⟨id, later, found, same.trans user, stays role⟩

/-- Links that were there, of users that stay members of role `client` or `business`. -/
theorem AccessDesk.LinksBelong.kept {desk next : AccessDesk} (belong : desk.LinksBelong)
    (links : ∀ id link, next.links.find id = some link → desk.links.find id = some link)
    (kept : ∀ id link, next.links.find id = some link → ∀ memberId row,
      desk.members.find memberId = some row → row.userId = link.userId →
        ∃ later, next.members.find memberId = some later ∧ later.userId = row.userId ∧
          (row.role ∈ projectInvitationRoles → later.role ∈ projectInvitationRoles)) :
    next.LinksBelong := by
  intro id link known
  exact (belong id link (links id link known)).mono (kept id link known)

/-- The statements that change neither members nor links. -/
def AccessDesk.Same (desk next : AccessDesk) : Prop :=
  next.members = desk.members ∧ next.links = desk.links

theorem AccessDesk.Same.rfl {desk : AccessDesk} {tx : ℕ} {phase : AccessPhase}
    {held : Option (ℕ × RowLock)} : desk.Same (desk.setPhase tx phase held) := ⟨Eq.refl _, Eq.refl _⟩

/-- The requests alone have changed. -/
theorem AccessDesk.LinksBelong.same {desk next : AccessDesk} (belong : desk.LinksBelong)
    (same : desk.Same next) : next.LinksBelong := by
  obtain ⟨members, links⟩ := same
  refine belong.kept (fun id link known => ?_) fun _ _ _ memberId row found _ => ?_
  · rw [← links]
    exact known
  · rw [members]
    exact ⟨row, found, rfl, fun role => role⟩

/-- A change of role that deletes the links of a member that leaves the roles `client` and
`business`. -/
theorem AccessDesk.LinksBelong.writeRole {desk : AccessDesk} (belong : desk.LinksBelong)
    {memberId : ℕ} {row : MemberRow} {role : MemberRole} {purged : List ℕ}
    (known : desk.members.find memberId = some row)
    (deletes : role.role ∉ projectInvitationRoles → ∀ id link, desk.links.find id = some link →
      link.userId = row.userId → id ∈ purged) :
    (desk.writeRole memberId role purged).LinksBelong := by
  refine belong.kept (fun id link found => (Rows.find_drop.mp found).1) ?_
  intro id link found other former known' user
  obtain ⟨present, kept⟩ := Rows.find_drop.mp found
  rw [AccessDesk.writeRole, Rows.find_change, known']
  by_cases mine : other = memberId
  · subst mine
    rw [known] at known'
    cases known'
    refine ⟨{ row with role := role.role, version := row.version + 1 }, if_pos rfl, rfl,
      fun _ => ?_⟩
    by_contra leaves
    exact of_decide_eq_false kept (deletes leaves id link present user.symm)
  · exact ⟨former, if_neg mine, rfl, fun stays => stays⟩

/-- A member is removed with its links. -/
theorem AccessDesk.LinksBelong.removeMember {desk : AccessDesk} (belong : desk.LinksBelong)
    {memberId : ℕ} {row : MemberRow} {purged : List ℕ}
    (known : desk.members.find memberId = some row) :
    (desk.removeMember memberId row.userId purged).LinksBelong := by
  refine belong.kept (fun id link found => (Rows.find_drop.mp found).1) ?_
  intro id link found other former known' user
  obtain ⟨_, kept⟩ := Rows.find_drop.mp found
  refine ⟨former, Rows.find_drop.mpr ⟨known', decide_eq_false fun mine => ?_⟩, rfl, fun stays => stays⟩
  subst mine
  rw [known] at known'
  cases known'
  exact of_decide_eq_false kept (.inr user.symm)

/-- Links are inserted for a member of role `client` or `business`. -/
theorem AccessDesk.LinksBelong.add {desk next : AccessDesk} (belong : desk.LinksBelong)
    {memberId : ℕ} {row : MemberRow} {rows : List LinkRow}
    (links : next.links = desk.links.add rows)
    (kept : ∀ id former, desk.members.find id = some former → ∃ later,
      next.members.find id = some later ∧ later.userId = former.userId ∧
        later.role = former.role)
    (known : desk.members.find memberId = some row)
    (clientSide : rows ≠ [] → row.role ∈ projectInvitationRoles)
    (own : ∀ link ∈ rows, link.userId = row.userId) : next.LinksBelong := by
  have stays : ∀ userId, desk.ClientSide userId → next.ClientSide userId := by
    intro userId before
    refine before.mono fun id former found _ => ?_
    obtain ⟨later, found', user, role⟩ := kept id former found
    refine ⟨later, found', user, fun allowed => ?_⟩
    rw [role]
    exact allowed
  intro id link found
  rw [links] at found
  rcases Rows.find_add.mp found with old | ⟨k, _, new⟩
  · exact stays link.userId (belong id link old)
  · have among := List.mem_of_getElem? new
    exact stays link.userId
      ⟨memberId, row, known, (own link among).symm, clientSide (List.ne_nil_of_mem among)⟩

/-- The first statement of a request adds a member at most. -/
theorem AccessDesk.start_keeps {desk next : AccessDesk} {tx : ℕ} {demand : AccessDemand}
    (went : desk.start tx demand = some next) :
    next.links = desk.links ∧
      ∀ id row, desk.members.find id = some row → next.members.find id = some row := by
  cases demand with
  | member session demand =>
    rw [AccessDesk.start] at went
    split at went
    · cases went
      exact ⟨rfl, fun _ _ known => known⟩
    · obtain ⟨row, _, rfl⟩ := Option.map_eq_some_iff.mp went
      exact ⟨rfl, fun _ _ known => known⟩
  | addClient projectId memberId =>
    rw [AccessDesk.start] at went
    split at went
    · cases went
      exact ⟨rfl, fun _ _ known => known⟩
    · split at went
      · cases went
        exact ⟨rfl, fun _ _ known => known⟩
      · split at went <;> cases went
        exact ⟨rfl, fun _ _ known => known⟩
  | removeClient projectId memberId =>
    rw [AccessDesk.start] at went
    split at went <;> cases went <;> exact ⟨rfl, fun _ _ known => known⟩
  | accept userId role proposed =>
    rw [AccessDesk.start] at went
    split at went
    · cases went
      exact ⟨rfl, fun _ _ known => known⟩
    · dsimp only at went
      split at went <;> cases went <;>
        exact ⟨rfl, fun _ _ known => Rows.find_add.mpr (.inl known)⟩

theorem AccessDesk.lockTarget_same {desk next : AccessDesk} {tx : ℕ} {row : MemberRow}
    {purged : List ℕ} {demand : MemberDemand}
    (went : desk.lockTarget tx row purged demand = some next) : desk.Same next := by
  rw [AccessDesk.lockTarget] at went
  split at went
  · cases went
  · split at went <;> cases went <;> exact .rfl

theorem AccessDesk.propose_same {desk next : AccessDesk} {tx memberId userId : ℕ}
    {proposed : List ℕ} (went : desk.propose tx memberId userId proposed = some next) :
    desk.Same next := by
  rw [AccessDesk.propose] at went
  split at went
  · cases went
    exact .rfl
  · split at went
    · cases went
      exact .rfl
    · split at went <;> cases went
      exact .rfl

theorem AccessDesk.undo_cases {desk next : AccessDesk} {tx memberId : ℕ}
    (went : desk.undo tx memberId = some next) :
    desk.Same next ∨ ∃ row, desk.members.find memberId = some row ∧
      (desk.removeMember memberId row.userId []).Same next := by
  rw [AccessDesk.undo] at went
  split at went
  · cases went
  · split at went
    · cases went
      exact .inl .rfl
    · rename_i row known
      cases went
      exact .inr ⟨row, known, .rfl⟩

theorem AccessDesk.fail_same {desk next : AccessDesk} {tx : ℕ} {request : AccessRequest}
    (went : desk.fail tx request = some next) : desk.Same next := by
  rw [AccessDesk.fail] at went
  split at went <;> cases went <;> exact .rfl

theorem AccessDesk.stop_same {desk next : AccessDesk} {tx : ℕ} {request : AccessRequest}
    (went : desk.stop tx request = some next) : desk.Same next := by
  rw [AccessDesk.stop] at went
  split at went <;> cases went
  exact .rfl

/-- **A step keeps the links with members of role `client` or `business`**, when a change to another
role deletes them all and an invitation inserts them for such a member. -/
theorem linksBelong_step {desk next : AccessDesk} {event : AccessEvent} (sound : desk.Sound)
    (belong : desk.LinksBelong) (allowed : KeepsLinks desk event)
    (taken : accessStep desk event = some next) : next.LinksBelong := by
  cases event with
  | arrive demand =>
    cases taken
    exact belong.same ⟨rfl, rfl⟩
  | advance tx =>
    obtain ⟨request, found, went⟩ := Option.bind_eq_some_iff.mp taken
    have holds := sound.holds request (List.mem_of_getElem? found)
    obtain ⟨purges, invites⟩ := allowed request found
    rw [AccessDesk.advance] at went
    split at went
    case h_1 =>
      obtain ⟨links, members⟩ := AccessDesk.start_keeps went
      refine belong.kept (fun id link known => ?_) fun _ _ _ id row known _ =>
        ⟨row, members id row known, rfl, fun stays => stays⟩
      rw [← links]
      exact known
    case h_2 => exact belong.same (AccessDesk.lockTarget_same went)
    case h_3 row purged session demand phase asked =>
      cases went
      have deletes := purges session demand row purged asked phase
      obtain ⟨demanded, phase', held⟩ := request
      cases phase
      cases asked
      cases holds with
      | committing known =>
        cases demand with
        | setRole memberId role =>
          exact (belong.writeRole known (deletes fun _ => by simp)).same .rfl
        | updateRole memberId role =>
          exact (belong.writeRole known (deletes fun _ => by simp)).same .rfl
        | remove memberId => exact (belong.removeMember known).same .rfl
      | nothing free => cases free
    case h_4 userId projectId memberId phase asked =>
      dsimp only at went
      split at went <;> cases went
      exact belong.same .rfl
    case h_5 memberId rows projectId _ phase asked =>
      cases went
      obtain ⟨demanded, phase', held⟩ := request
      cases phase
      cases asked
      cases holds with
      | added known client own =>
        refine belong.add rfl (fun id former known => ?_) known (fun _ => ?_) own
        · show ∃ later, (desk.members.change memberId _).find id = some later ∧ _
          rw [Rows.find_change, known]
          by_cases mine : id = memberId
          · exact ⟨{ former with version := former.version + 1 }, if_pos mine, rfl, rfl⟩
          · exact ⟨former, if_neg mine, rfl, rfl⟩
        · rw [client]
          decide
      | nothing free => cases free
    case h_6 memberId rows userId role proposed phase asked =>
      cases went
      have allows := invites userId role proposed memberId rows asked phase
      obtain ⟨demanded, phase', held⟩ := request
      cases phase
      cases asked
      cases holds with
      | proposed known own =>
        exact belong.add rfl (fun id former known => ⟨former, known, rfl, rfl⟩) known
          (fun _ => allows _ known) own
      | nothing free => cases free
    case h_7 =>
      cases went
      exact belong.kept (fun id link found => (Rows.find_drop.mp found).1)
        fun _ _ _ id row known _ => ⟨row, known, rfl, fun stays => stays⟩
    case h_8 => exact belong.same (AccessDesk.propose_same went)
    case h_9 memberId userId role proposed phase asked =>
      rcases AccessDesk.undo_cases went with same | ⟨row, known, same⟩
      · exact belong.same same
      · exact (belong.removeMember known).same same
    case h_10 => cases went
  | fail tx =>
    obtain ⟨request, found, went⟩ := Option.bind_eq_some_iff.mp taken
    exact belong.same (AccessDesk.fail_same went)
  | stop tx =>
    obtain ⟨request, found, went⟩ := Option.bind_eq_some_iff.mp taken
    exact belong.same (AccessDesk.stop_same went)

/-- A link that is there under an identifier of before was there before. -/
theorem links_kept {desk next : AccessDesk} {event : AccessEvent}
    (taken : accessStep desk event = some next) : Rows.Kept desk.links next.links := by
  have same : ∀ {desk next : AccessDesk}, desk.Same next → Rows.Kept desk.links next.links := by
    intro desk next unchanged
    rw [unchanged.2]
    exact .refl _
  cases event with
  | arrive demand =>
    cases taken
    exact .refl _
  | advance tx =>
    obtain ⟨request, found, went⟩ := Option.bind_eq_some_iff.mp taken
    rw [AccessDesk.advance] at went
    split at went
    case h_1 =>
      rw [(AccessDesk.start_keeps went).1]
      exact .refl _
    case h_2 => exact same (AccessDesk.lockTarget_same went)
    case h_3 row purged session demand phase asked =>
      cases went
      cases demand <;> exact .drop _ _
    case h_4 =>
      dsimp only at went
      split at went <;> cases went
      exact .refl _
    case h_5 | h_6 =>
      cases went
      exact .add _ _
    case h_7 =>
      cases went
      exact .drop _ _
    case h_8 => exact same (AccessDesk.propose_same went)
    case h_9 =>
      rcases AccessDesk.undo_cases went with unchanged | ⟨row, _, unchanged⟩
      · exact same unchanged
      · rw [unchanged.2]
        exact .drop _ _
    case h_10 => cases went
  | fail tx =>
    obtain ⟨request, found, went⟩ := Option.bind_eq_some_iff.mp taken
    exact same (AccessDesk.fail_same went)
  | stop tx =>
    obtain ⟨request, found, went⟩ := Option.bind_eq_some_iff.mp taken
    exact same (AccessDesk.stop_same went)

/-! ## Runs -/

/-- **The links of client members match the membership.** In every run where a change to a role
other than `client` and `business` deletes all the links of the member, and the links of an
invitation are inserted while the member has one of these roles, every link belongs to a member of
one of these roles; and a client reaches only projects linked since any state in which it was not
such a member, whether it asks for one of them or for the projects it is limited to. -/
theorem client_links {start mid last : AccessDesk} {first rest : List AccessEvent}
    (fresh : start.Fresh) (along : Along accessStep KeepsLinks start (first ++ rest))
    (reached : run accessStep start first = some mid)
    (onward : run accessStep mid rest = some last) :
    mid.LinksBelong ∧
      (∀ userId projectId, ¬ mid.ClientSide userId →
        last.assertAccessible ⟨userId, .client⟩ projectId = true →
          ∃ id, last.links.find id = some ⟨projectId, userId⟩ ∧ mid.links.find id = none) ∧
      ∀ userId projectIds, ¬ mid.ClientSide userId →
        last.linkedProjectIds ⟨userId, .client⟩ = some projectIds →
          ∀ projectId ∈ projectIds,
            ∃ id, last.links.find id = some ⟨projectId, userId⟩ ∧ mid.links.find id = none := by
  have both : ∀ (s : AccessDesk) (event : AccessEvent) (next : AccessDesk),
      s.Sound ∧ s.LinksBelong → KeepsLinks s event → accessStep s event = some next →
        next.Sound ∧ next.LinksBelong := by
    rintro s event next ⟨sound, belong⟩ allowed taken
    exact ⟨sound.step taken, linksBelong_step sound belong allowed taken⟩
  have initial : start.Sound ∧ start.LinksBelong := by
    refine ⟨⟨fresh.users, fun request member => ?_, fun tx request _ _ found => ?_⟩, fresh.linked⟩
    · rw [fresh.requests] at member
      cases member
    · rw [fresh.requests] at found
      cases found
  obtain ⟨_, belong⟩ := run_invariant_along both initial (along.split reached).1 reached
  have since : ∀ userId projectId, ¬ mid.ClientSide userId →
      last.assertAccessible ⟨userId, .client⟩ projectId = true →
        ∃ id, last.links.find id = some ⟨projectId, userId⟩ ∧ mid.links.find id = none := by
    intro userId projectId apart accessible
    rw [AccessDesk.assertAccessible, if_pos (show isProjectScoped .client = true from rfl),
      Bool.and_eq_true] at accessible
    obtain ⟨_, linked⟩ := accessible
    obtain ⟨link, member, same⟩ := List.any_eq_true.mp linked
    obtain ⟨id, found⟩ := List.mem_iff_getElem?.mp member
    rw [of_decide_eq_true same] at found
    refine ⟨id, Rows.find_eq_some.mpr found, ?_⟩
    have kept : Rows.Kept mid.links last.links :=
      @run_relates _ _ accessStep (fun s t => Rows.Kept s.links t.links) (fun _ => .refl _)
        (fun _ _ _ before after => before.trans after) (fun _ _ _ taken => links_kept taken) mid last
        rest onward
    cases former : mid.links.find id with
    | none => rfl
    | some before =>
      have inside : id < mid.links.length :=
        (List.getElem?_eq_some_iff.mp (Rows.find_eq_some.mp former)).1
      have now := kept.row id _ inside (Rows.find_eq_some.mpr found)
      exact absurd (belong id _ now) apart
  refine ⟨belong, since, fun userId projectIds apart limited projectId member => ?_⟩
  exact since userId projectId apart
    ((AccessDesk.mem_linkedProjectIds_iff limited projectId).mp member)

/-- An organization of its owner. -/
def ownedDesk : AccessDesk where
  members := [some ⟨10, .owner, 0⟩]
  links := []
  requests := []

theorem ownedDesk_fresh : ownedDesk.Fresh where
  users i j first second foundI foundJ _ := by
    have inside := (List.getElem?_eq_some_iff.mp (Rows.find_eq_some.mp foundI)).1
    have inside' := (List.getElem?_eq_some_iff.mp (Rows.find_eq_some.mp foundJ)).1
    have one : ownedDesk.members.length = 1 := rfl
    omega
  linked id link found := by
    rw [Rows.find_eq_some] at found
    cases found
  requests := rfl

/-- A request with its three statements. -/
def threeStatements (tx : ℕ) (demand : AccessDemand) : List AccessEvent :=
  [.arrive demand, .advance tx, .advance tx, .advance tx]

/-- The owner changes the role of the second member. -/
def changeSecond (role : MemberRole) : AccessDemand := .member ⟨10, .owner⟩ (.updateRole 1 role)

/-- A request that commits no change of role and no links of an invitation. -/
theorem keepsLinks_of_phase {desk : AccessDesk} {tx : ℕ} {request : AccessRequest}
    (found : desk.requests[tx]? = some request)
    (changes : ∀ row purged, request.phase ≠ .committing row purged)
    (invites : ∀ memberId rows, request.phase = .inserted memberId rows →
      ∀ userId role proposed, request.demand ≠ .accept userId role proposed) :
    KeepsLinks desk (.advance tx) := by
  intro other found'
  rw [found] at found'
  cases found'
  refine ⟨fun _ _ row purged _ phase => absurd phase (changes row purged), ?_⟩
  intro userId role proposed memberId rows asked phase
  exact absurd asked (invites memberId rows phase userId role proposed)

/-- The owner, and a former client without the link it was invited with. -/
def formerClientDesk : AccessDesk where
  members := [some ⟨10, .owner, 0⟩, some ⟨20, .dev, 1⟩]
  links := [none]
  requests := [⟨.accept 20 .client [7], .ended .accepted, none⟩,
    ⟨changeSecond .dev, .ended (.member (.changed 1 .dev)), none⟩]

/-- A client who is made a developer, and a client again, is linked to a project again. -/
theorem client_links_again :
    run accessStep ownedDesk
        (threeStatements 0 (.accept 20 .client [7]) ++ threeStatements 1 (changeSecond .dev)) =
          some formerClientDesk ∧
      ∃ last, run accessStep formerClientDesk
          (threeStatements 2 (changeSecond .client) ++ threeStatements 3 (.addClient 8 1)) =
            some last ∧
        formerClientDesk.LinksBelong ∧
        (∃ id, last.links.find id = some ⟨8, 20⟩ ∧ formerClientDesk.links.find id = none) ∧
        last.linkedProjectIds ⟨20, .client⟩ = some [8] ∧
        ∀ projectId ∈ [8],
          ∃ id, last.links.find id = some ⟨projectId, 20⟩ ∧ formerClientDesk.links.find id = none := by
  have started : run accessStep ownedDesk
      (threeStatements 0 (.accept 20 .client [7]) ++ threeStatements 1 (changeSecond .dev)) =
        some formerClientDesk := rfl
  have ended : run accessStep formerClientDesk
      (threeStatements 2 (changeSecond .client) ++ threeStatements 3 (.addClient 8 1)) =
        some _ := rfl
  have along : Along accessStep KeepsLinks ownedDesk
      ((threeStatements 0 (.accept 20 .client [7]) ++ threeStatements 1 (changeSecond .dev)) ++
        (threeStatements 2 (changeSecond .client) ++ threeStatements 3 (.addClient 8 1))) := by
    refine .of_step rfl trivial (.of_step rfl ?_ (.of_step rfl ?_ (.of_step rfl ?_
      (.of_step rfl trivial (.of_step rfl ?_ (.of_step rfl ?_ (.of_step rfl ?_
        (.of_step rfl trivial (.of_step rfl ?_ (.of_step rfl ?_ (.of_step rfl ?_
          (.of_step rfl trivial (.of_step rfl ?_ (.of_step rfl ?_ (.of_step rfl ?_
            trivial)))))))))))))))
    case refine_3 =>
      intro request found
      cases found
      refine ⟨fun session demand row purged asked => ?_, ?_⟩
      · cases asked
      · intro userId role proposed memberId rows asked phase row known
        cases phase
        cases known
        decide
    case refine_6 =>
      intro request found
      cases found
      refine ⟨?_, fun userId role proposed memberId rows asked => ?_⟩
      · intro session demand row purged asked phase _ _ id link known _
        cases asked
        cases phase
        have inside := (List.getElem?_eq_some_iff.mp (Rows.find_eq_some.mp known)).1
        exact List.mem_singleton.mpr (Nat.lt_one_iff.mp inside)
      · cases asked
    case refine_9 =>
      intro request found
      cases found
      refine ⟨?_, fun userId role proposed memberId rows asked => ?_⟩
      · intro session demand row purged asked phase _ leaves
        cases asked
        exact absurd (by decide) leaves
      · cases asked
    all_goals
      refine keepsLinks_of_phase rfl (fun row purged phase => ?_) fun memberId rows phase => ?_
      · cases phase
      · intro userId role proposed asked
        first | (cases asked; done) | cases phase
  obtain ⟨belong, reaches, limited⟩ := client_links ownedDesk_fresh along started ended
  have developer : ¬ formerClientDesk.ClientSide 20 := by
    rintro ⟨id, row, known, user, role⟩
    rcases id with _ | _ | id
    · cases known
      cases user
    · cases known
      revert role
      decide
    · cases known
  exact ⟨started, _, ended, belong, reaches 20 8 developer rfl, rfl, limited 20 [8] developer rfl⟩

/-- The owner, and a former business member with the link it was invited with. -/
def demotedDesk : AccessDesk where
  members := [some ⟨10, .owner, 0⟩, some ⟨20, .dev, 1⟩]
  links := [some ⟨7, 20⟩]
  requests := [⟨.accept 20 .business [7], .ended .accepted, none⟩,
    ⟨changeSecond .dev, .ended (.member (.changed 1 .dev)), none⟩]

/-- **The links of a business member outlive a change of role**, and are revived by the next one. -/
theorem business_links_revived :
    ownedDesk.Fresh ∧ run accessStep ownedDesk
        (threeStatements 0 (.accept 20 .business [7]) ++ threeStatements 1 (changeSecond .dev)) =
          some demotedDesk ∧
      ¬ demotedDesk.LinksBelong ∧
      ∃ last, run accessStep demotedDesk (threeStatements 2 (changeSecond .client)) = some last ∧
        last.assertAccessible ⟨20, .client⟩ 7 = true := by
  refine ⟨ownedDesk_fresh, rfl, fun belong => ?_, _, rfl, rfl⟩
  obtain ⟨id, row, known, user, role⟩ := belong 0 ⟨7, 20⟩ rfl
  rcases id with _ | _ | id
  · cases known
    cases user
  · cases known
    revert role
    decide
  · cases known

end Koklo.Members
