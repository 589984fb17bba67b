import Koklo.Suggestions.Suggestions

/-!
# Limits and life cycle of suggestions

The lock on the author keeps true what a creation found of the suggestions of its author, and the
lock on the counter what it counted in the project, until it commits (`SuggestionRequest.Ready`): a
suggestion that another creation commits in between is of another author, or of another project. So
the limits and the absence of twins hold in every run, whatever withdrawals and decisions come
between, and a suggestion that is no longer open keeps its status (`suggestion_limits`).
-/

set_option autoImplicit false

namespace Koklo.Suggestions

open Koklo.Foundations Koklo.Foundations.ReadCommitted Koklo.Members

/-- Two suggestions of one author on one target with one body. -/
def SuggestionRow.Same (first second : SuggestionRow) : Prop :=
  first.projectId = second.projectId ∧ first.authorUserId = second.authorUserId ∧
    first.targetKind = second.targetKind ∧ first.targetRef = second.targetRef ∧
    first.body = second.body

/-- The limits on what is open, and no two open suggestions that are the same. -/
structure WithinLimits (suggestions : Table SuggestionRow) : Prop where
  perAuthor : ∀ scope,
    countCommitted suggestions (SuggestionDesk.openOfAuthor scope) ≤ openPerAuthor
  perProject : ∀ projectId,
    countCommitted suggestions (SuggestionDesk.openOfProject projectId) ≤ openPerProject
  distinct : ∀ i j first second, committedRow suggestions i = some first →
    committedRow suggestions j = some second → first.status = .open → second.status = .open →
      first.Same second → i = j

/-- A suggestion that is no longer open keeps its status. -/
def SuggestionRow.Follows (former row : SuggestionRow) : Prop :=
  former.status ≠ .open → row.status = former.status

theorem SuggestionRow.Follows.trans (first second third : SuggestionRow)
    (before : first.Follows second) (after : second.Follows third) : first.Follows third := by
  intro settled
  have same := before settled
  rw [← same] at settled
  exact (after settled).trans same

/-- Suggestions as they are before any request. -/
structure SuggestionDesk.Fresh (desk : SuggestionDesk) : Prop where
  free : ∀ slot ∈ desk.suggestions, slot.pending = none
  limits : WithinLimits desk.suggestions
  requests : desk.requests = []

/-! ## What a creation knows -/

/-- The creation has found no suggestion that is the same. -/
def SuggestionPhase.twinless : SuggestionPhase → Bool
  | .countingMine _ => true
  | .numbering _ => true
  | .countingAll _ _ => true
  | .inserting _ _ => true
  | .recording _ _ => true
  | .committingNew _ _ => true
  | _ => false

/-- The creation has counted the suggestions of its author. -/
def SuggestionPhase.countedMine : SuggestionPhase → Bool
  | .numbering _ => true
  | .countingAll _ _ => true
  | .inserting _ _ => true
  | .recording _ _ => true
  | .committingNew _ _ => true
  | _ => false

/-- The creation has counted the suggestions of its project. -/
def SuggestionPhase.countedAll : SuggestionPhase → Bool
  | .inserting _ _ => true
  | .recording _ _ => true
  | .committingNew _ _ => true
  | _ => false

/-- The suggestion that a creation has inserted. -/
def SuggestionPhase.made : SuggestionPhase → Option (ℕ × SuggestionRow)
  | .recording id row => some (id, row)
  | .committingNew id row => some (id, row)
  | _ => none

theorem SuggestionRequest.author_eq_some {request : SuggestionRequest} {userId : ℕ} :
    request.author = some userId ↔
      request.phase.holdsAuthor = true ∧ request.scope.userId = userId := by
  rw [SuggestionRequest.author]
  split <;> simp_all

theorem SuggestionRequest.counter_eq_some {request : SuggestionRequest} {projectId : ℕ} :
    request.counter = some projectId ↔
      request.phase.holdsCounter = true ∧ request.scope.projectId = projectId := by
  rw [SuggestionRequest.counter]
  split <;> simp_all

theorem SuggestionPhase.holdsAuthor_of_twinless {phase : SuggestionPhase}
    (twinless : phase.twinless = true) : phase.holdsAuthor = true := by
  cases phase <;> first | rfl | cases twinless

theorem SuggestionPhase.holdsAuthor_of_countedMine {phase : SuggestionPhase}
    (counted : phase.countedMine = true) : phase.holdsAuthor = true := by
  cases phase <;> first | rfl | cases counted

theorem SuggestionPhase.holdsCounter_of_countedAll {phase : SuggestionPhase}
    (counted : phase.countedAll = true) : phase.holdsCounter = true := by
  cases phase <;> first | rfl | cases counted

/-- An open suggestion that is the one to create. -/
def IsTwin (scope : ProjectScope) (input : CreateSuggestion) (row : SuggestionRow) : Prop :=
  row.projectId = scope.projectId ∧ row.authorUserId = scope.userId ∧ row.status = .open ∧
    row.targetKind = input.targetKind ∧ row.targetRef = input.targetRef ∧ row.body = input.body

/-- What a creation has established of the committed suggestions, as far as it has come. -/
structure SuggestionRequest.Knows (suggestions : Table SuggestionRow) (scope : ProjectScope)
    (input : CreateSuggestion) (phase : SuggestionPhase) : Prop where
  twinless : phase.twinless = true →
    ∀ id row, committedRow suggestions id = some row → ¬ IsTwin scope input row
  mine : phase.countedMine = true →
    countCommitted suggestions (SuggestionDesk.openOfAuthor scope) < openPerAuthor
  all : phase.countedAll = true →
    countCommitted suggestions (SuggestionDesk.openOfProject scope.projectId) < openPerProject
  made : ∀ id row, phase.made = some (id, row) → IsTwin scope input row

/-- Before it looks for a twin, a creation has established nothing. -/
theorem SuggestionRequest.Knows.of_not_twinless {suggestions : Table SuggestionRow}
    {scope : ProjectScope} {input : CreateSuggestion} {phase : SuggestionPhase}
    (early : phase.twinless = false) : SuggestionRequest.Knows suggestions scope input phase where
  twinless held := by
    rw [early] at held
    cases held
  mine held := by
    cases phase <;> first | (cases early; done) | cases held
  all held := by
    cases phase <;> first | (cases early; done) | cases held
  made id row held := by
    cases phase <;> first | (cases early; done) | cases held

/-- A request that inserts has counted fewer rows than the limits. -/
def SuggestionRequest.Ready (suggestions : Table SuggestionRow) (request : SuggestionRequest) :
    Prop :=
  ∀ input role, request.demand = .create input role →
    SuggestionRequest.Knows suggestions request.scope input request.phase

/-- The limits hold, each lock is held by one request, and requests have counted what they add to. -/
structure SuggestionDesk.Sound (desk : SuggestionDesk) : Prop where
  limits : WithinLimits desk.suggestions
  authors : Exclusive SuggestionRequest.author desk.requests
  counters : Exclusive SuggestionRequest.counter desk.requests
  pending : ∀ tx id row, pendingRow desk.suggestions tx id = some row → row.status = .open →
    ∃ request, desk.requests[tx]? = some request ∧ request.phase.made = some (id, row)
  ready : ∀ request ∈ desk.requests, request.Ready desk.suggestions

/-- Every open suggestion was there before. -/
def OpensNothing (table next : Table SuggestionRow) : Prop :=
  ∀ id row, committedRow next id = some row → row.status = .open →
    committedRow table id = some row

theorem WithinLimits.mono {table next : Table SuggestionRow} (limits : WithinLimits table)
    (opens : OpensNothing table next) : WithinLimits next where
  perAuthor scope := by
    refine (countCommitted_le fun id row known chosen => opens id row known ?_).trans
      (limits.perAuthor scope)
    exact (of_decide_eq_true chosen).2.2
  perProject projectId := by
    refine (countCommitted_le fun id row known chosen => opens id row known ?_).trans
      (limits.perProject projectId)
    exact (of_decide_eq_true chosen).2
  distinct i j first second knownI knownJ openI openJ same :=
    limits.distinct i j first second (opens i first knownI openI) (opens j second knownJ openJ)
      openI openJ same

/-- What is established stays so when no suggestion is opened that bears on it. -/
theorem SuggestionRequest.Knows.mono {table next : Table SuggestionRow} {scope : ProjectScope}
    {input : CreateSuggestion} {phase : SuggestionPhase}
    (knows : SuggestionRequest.Knows table scope input phase)
    (author : phase.holdsAuthor = true → ∀ id row, committedRow next id = some row →
      row.status = .open → row.authorUserId = scope.userId → committedRow table id = some row)
    (project : phase.holdsCounter = true → ∀ id row, committedRow next id = some row →
      row.status = .open → row.projectId = scope.projectId → committedRow table id = some row) :
    SuggestionRequest.Knows next scope input phase where
  twinless held id row known twin := by
    have before := author (SuggestionPhase.holdsAuthor_of_twinless held) id row known twin.2.2.1
      twin.2.1
    exact knows.twinless held id row before twin
  mine held := by
    refine (countCommitted_le fun id row known chosen => ?_).trans_lt (knows.mine held)
    obtain ⟨_, own, isOpen⟩ := of_decide_eq_true chosen
    exact author (SuggestionPhase.holdsAuthor_of_countedMine held) id row known isOpen own
  all held := by
    refine (countCommitted_le fun id row known chosen => ?_).trans_lt (knows.all held)
    obtain ⟨own, isOpen⟩ := of_decide_eq_true chosen
    exact project (SuggestionPhase.holdsCounter_of_countedAll held) id row known isOpen own
  made := knows.made

/-- **A statement that opens no suggestion**: the other requests keep what they know, and the locks
that the request takes are free. -/
theorem SuggestionDesk.Sound.moved {desk : SuggestionDesk} (sound : desk.Sound) {tx : ℕ}
    {request : SuggestionRequest} (found : desk.requests[tx]? = some request)
    {suggestions : Table SuggestionRow} {counters : ℕ → ℕ} {phase : SuggestionPhase}
    (opens : OpensNothing desk.suggestions suggestions)
    (others : ∀ owner id row, owner ≠ tx → pendingRow suggestions owner id = some row →
      pendingRow desk.suggestions owner id = some row)
    (own : ∀ id row, pendingRow suggestions tx id = some row → row.status = .open →
      phase.made = some (id, row))
    (author : phase.holdsAuthor = true → request.phase.holdsAuthor = true ∨
      takenByOther SuggestionRequest.author desk.requests tx request.scope.userId = false)
    (counter : phase.holdsCounter = true → request.phase.holdsCounter = true ∨
      takenByOther SuggestionRequest.counter desk.requests tx request.scope.projectId = false)
    (ready : SuggestionRequest.Ready suggestions { request with phase }) :
    (SuggestionDesk.setPhase ⟨suggestions, counters, desk.requests⟩ tx phase).Sound := by
  constructor
  · exact sound.limits.mono opens
  · refine sound.authors.modify found fun key takes => ?_
    obtain ⟨holds, rfl⟩ := SuggestionRequest.author_eq_some.mp takes
    refine (author holds).imp (fun mine => ?_) id
    exact SuggestionRequest.author_eq_some.mpr ⟨mine, rfl⟩
  · refine sound.counters.modify found fun key takes => ?_
    obtain ⟨holds, rfl⟩ := SuggestionRequest.counter_eq_some.mp takes
    refine (counter holds).imp (fun mine => ?_) id
    exact SuggestionRequest.counter_eq_some.mpr ⟨mine, rfl⟩
  · intro owner id row written isOpen
    by_cases mine : owner = tx
    · subst mine
      exact ⟨_, getElem?_modified_self found, own id row written isOpen⟩
    · obtain ⟨other, known, made⟩ := sound.pending owner id row (others owner id row mine written)
        isOpen
      exact ⟨other, getElem?_modified_ne mine known, made⟩
  · intro other member
    obtain ⟨i, known⟩ := List.mem_iff_getElem?.mp member
    rcases getElem?_modified found known with ⟨_, rfl⟩ | ⟨_, before⟩
    · exact ready
    · intro input role asked
      refine (sound.ready other (List.mem_of_getElem? before) input role asked).mono ?_ ?_
      · exact fun _ id row known isOpen _ => opens id row known isOpen
      · exact fun _ id row known isOpen _ => opens id row known isOpen

/-- What a commit makes of the open suggestions: those that were committed, and the one that the
creation has inserted. -/
theorem SuggestionDesk.Sound.committed {desk : SuggestionDesk} (sound : desk.Sound) {tx : ℕ}
    {request : SuggestionRequest} (found : desk.requests[tx]? = some request) {id : ℕ}
    {row : SuggestionRow} (known : committedRow (commit desk.suggestions tx) id = some row)
    (isOpen : row.status = .open) :
    committedRow desk.suggestions id = some row ∨ request.phase.made = some (id, row) := by
  rcases committedRow_commit.mp known with written | ⟨_, before⟩
  · obtain ⟨other, found', made⟩ := sound.pending tx id row written isOpen
    rw [found] at found'
    cases found'
    exact .inr made
  · exact .inl before

/-- **A creation commits within the limits**, and what the others know is about other authors, or
other projects. -/
theorem SuggestionDesk.Sound.created {desk : SuggestionDesk} (sound : desk.Sound) {tx : ℕ}
    {request : SuggestionRequest} (found : desk.requests[tx]? = some request)
    {input : CreateSuggestion} {role : Role} (asked : request.demand = .create input role) {id : ℕ}
    {row : SuggestionRow} (phase : request.phase = .committingNew id row) {counters : ℕ → ℕ}
    {answer : SuggestionAnswer} :
    (SuggestionDesk.finish ⟨desk.suggestions, counters, desk.requests⟩ tx answer).Sound := by
  have knows := sound.ready request (List.mem_of_getElem? found) input role asked
  rw [phase] at knows
  have twin := knows.made id row rfl
  have cases_ : ∀ {id' : ℕ} {row' : SuggestionRow},
      committedRow (commit desk.suggestions tx) id' = some row' → row'.status = .open →
        committedRow desk.suggestions id' = some row' ∨ (id', row') = (id, row) := by
    intro id' row' known isOpen
    refine (sound.committed found known isOpen).imp_right fun made => ?_
    rw [phase] at made
    exact (Option.some.inj made).symm
  have author : request.author = some request.scope.userId :=
    SuggestionRequest.author_eq_some.mpr ⟨by rw [phase]; rfl, rfl⟩
  have counter : request.counter = some request.scope.projectId :=
    SuggestionRequest.counter_eq_some.mpr ⟨by rw [phase]; rfl, rfl⟩
  refine ⟨⟨fun scope => ?_, fun projectId => ?_, ?_⟩, ?_, ?_, ?_, ?_⟩
  · by_cases mine : scope = request.scope
    · rw [mine]
      have grown : countCommitted (commit desk.suggestions tx)
          (SuggestionDesk.openOfAuthor request.scope) ≤ _ :=
        countCommitted_le_succ fun id' row' known chosen =>
          cases_ known (of_decide_eq_true chosen).2.2
      exact grown.trans (knows.mine rfl)
    · refine (countCommitted_le fun id' row' known chosen => ?_).trans (sound.limits.perAuthor scope)
      obtain ⟨project, user, isOpen⟩ := of_decide_eq_true chosen
      rcases cases_ known isOpen with old | new
      · exact old
      · cases new
        refine absurd ?_ mine
        rw [ProjectScope.mk.injEq]
        exact ⟨project.symm.trans twin.1, user.symm.trans twin.2.1⟩
  · by_cases mine : projectId = request.scope.projectId
    · rw [mine]
      have grown : countCommitted (commit desk.suggestions tx)
          (SuggestionDesk.openOfProject request.scope.projectId) ≤ _ :=
        countCommitted_le_succ fun id' row' known chosen =>
          cases_ known (of_decide_eq_true chosen).2
      exact grown.trans (knows.all rfl)
    · refine (countCommitted_le fun id' row' known chosen => ?_).trans
        (sound.limits.perProject projectId)
      obtain ⟨project, isOpen⟩ := of_decide_eq_true chosen
      rcases cases_ known isOpen with old | new
      · exact old
      · cases new
        exact absurd (project.symm.trans twin.1) mine
  · intro i j first second knownI knownJ openI openJ same
    obtain ⟨project, user, kind, ref, body⟩ := same
    obtain ⟨project', user', _, kind', ref', body'⟩ := twin
    rcases cases_ knownI openI with oldI | newI
    · rcases cases_ knownJ openJ with oldJ | newJ
      · exact sound.limits.distinct i j first second oldI oldJ openI openJ
          ⟨project, user, kind, ref, body⟩
      · cases newJ
        exact absurd ⟨project.trans project', user.trans user', openI, kind.trans kind',
          ref.trans ref', body.trans body'⟩ (knows.twinless rfl i first oldI)
    · cases newI
      rcases cases_ knownJ openJ with oldJ | newJ
      · exact absurd ⟨project.symm.trans project', user.symm.trans user', openJ,
          kind.symm.trans kind', ref.symm.trans ref', body.symm.trans body'⟩
          (knows.twinless rfl j second oldJ)
      · cases newJ
        rfl
  · refine sound.authors.modify found fun key takes => ?_
    obtain ⟨holds, _⟩ := SuggestionRequest.author_eq_some.mp takes
    cases holds
  · refine sound.counters.modify found fun key takes => ?_
    obtain ⟨holds, _⟩ := SuggestionRequest.counter_eq_some.mp takes
    cases holds
  · intro owner id' row' written isOpen
    obtain ⟨apart, before⟩ := pendingRow_commit.mp written
    obtain ⟨other, known, made⟩ := sound.pending owner id' row' before isOpen
    exact ⟨other, getElem?_modified_ne apart known, made⟩
  · intro other member
    obtain ⟨i, known⟩ := List.mem_iff_getElem?.mp member
    rcases getElem?_modified found known with ⟨_, rfl⟩ | ⟨apart, before⟩
    · intro input' role' _
      exact .of_not_twinless rfl
    · intro input' role' asked'
      refine (sound.ready other (List.mem_of_getElem? before) input' role' asked').mono ?_ ?_
      · intro holds id' row' known' isOpen own
        rcases cases_ known' isOpen with old | new
        · exact old
        · cases new
          rw [twin.2.1] at own
          refine absurd (sound.authors i tx other request _ before found ?_ author) apart
          exact SuggestionRequest.author_eq_some.mpr ⟨holds, own.symm⟩
      · intro holds id' row' known' isOpen own
        rcases cases_ known' isOpen with old | new
        · exact old
        · cases new
          rw [twin.1] at own
          refine absurd (sound.counters i tx other request _ before found ?_ counter) apart
          exact SuggestionRequest.counter_eq_some.mpr ⟨holds, own.symm⟩

/-! ## The statements -/

/-- What a transaction has written of open suggestions is what its request has inserted. -/
theorem SuggestionDesk.Sound.made_of_pending {desk : SuggestionDesk} (sound : desk.Sound) {tx : ℕ}
    {request : SuggestionRequest} (found : desk.requests[tx]? = some request) {id : ℕ}
    {row : SuggestionRow} (written : pendingRow desk.suggestions tx id = some row)
    (isOpen : row.status = .open) : request.phase.made = some (id, row) := by
  obtain ⟨other, found', made⟩ := sound.pending tx id row written isOpen
  rw [found] at found'
  cases found'
  exact made

/-- A statement that writes nothing. -/
theorem SuggestionDesk.Sound.quiet {desk : SuggestionDesk} (sound : desk.Sound) {tx : ℕ}
    {request : SuggestionRequest} (found : desk.requests[tx]? = some request)
    {phase : SuggestionPhase} (made : phase.made = request.phase.made)
    (author : phase.holdsAuthor = true → request.phase.holdsAuthor = true ∨
      takenByOther SuggestionRequest.author desk.requests tx request.scope.userId = false)
    (counter : phase.holdsCounter = true → request.phase.holdsCounter = true ∨
      takenByOther SuggestionRequest.counter desk.requests tx request.scope.projectId = false)
    (ready : SuggestionRequest.Ready desk.suggestions { request with phase }) :
    (desk.setPhase tx phase).Sound := by
  refine sound.moved found (fun _ _ known _ => known) (fun _ _ _ _ written => written) ?_ author
    counter ready
  intro id row written isOpen
  rw [made]
  exact sound.made_of_pending found written isOpen

/-- A request is refused, and its transaction undone. -/
theorem SuggestionDesk.Sound.refused {desk : SuggestionDesk} (sound : desk.Sound) {tx : ℕ}
    {request : SuggestionRequest} (found : desk.requests[tx]? = some request)
    (answer : SuggestionAnswer) : (desk.refuse tx answer).Sound := by
  refine sound.moved found (fun id row known _ => ?_) (fun owner id row _ written => ?_)
    (fun id row written _ => ?_) (fun holds => ?_) (fun holds => ?_)
    fun _ _ _ => .of_not_twinless rfl
  · rw [committedRow_abort] at known
    exact known
  · exact (pendingRow_abort.mp written).2
  · exact absurd rfl (pendingRow_abort.mp written).1
  · cases holds
  · cases holds

/-- The transaction of a request that has inserted nothing is committed. -/
theorem SuggestionDesk.Sound.finished {desk : SuggestionDesk} (sound : desk.Sound) {tx : ℕ}
    {request : SuggestionRequest} (found : desk.requests[tx]? = some request)
    (unmade : request.phase.made = none) (answer : SuggestionAnswer) :
    (desk.finish tx answer).Sound := by
  refine sound.moved found (fun id row known isOpen => ?_) (fun owner id row _ written => ?_)
    (fun id row written _ => ?_) (fun holds => ?_) (fun holds => ?_)
    fun _ _ _ => .of_not_twinless rfl
  · refine (sound.committed found known isOpen).resolve_right fun made => ?_
    rw [unmade] at made
    cases made
  · exact (pendingRow_commit.mp written).2
  · exact absurd rfl (pendingRow_commit.mp written).1
  · cases holds
  · cases holds

/-- What a withdrawal or a decision writes is no longer open. -/
theorem SuggestionDesk.change_status {scope : ProjectScope} {demand : SuggestionDemand} {id : ℕ}
    {row : SuggestionRow} (chosen : (change scope demand).selects id row = true) :
    ((change scope demand).change row).status ≠ .open := by
  cases demand with
  | create input role => cases chosen
  | withdraw target now => exact fun same => by cases same
  | decide target now decision note =>
    show decision.status ≠ .open
    cases decision <;> decide

/-- The statements of a withdrawal or a decision. -/
theorem SuggestionDesk.Sound.settle {desk next : SuggestionDesk} (sound : desk.Sound) {tx : ℕ}
    {request : SuggestionRequest} (found : desk.requests[tx]? = some request) {target : ℕ}
    (went : desk.settle tx request.scope request.demand target request.phase = some next) :
    next.Sound := by
  obtain ⟨scope, demand, phase⟩ := request
  cases phase with
  | starting =>
    cases went
    exact sound.quiet found rfl (fun holds => by cases holds) (fun holds => by cases holds)
      fun _ _ _ => .of_not_twinless rfl
  | updating selected =>
    obtain ⟨suggestions, applied, rfl⟩ := Option.map_eq_some_iff.mp went
    refine sound.moved found (fun id row known _ => ?_) (fun owner id row apart written => ?_)
      (fun id row written isOpen => ?_) (fun holds => by cases holds)
      (fun holds => by cases holds) fun _ _ _ => .of_not_twinless rfl
    · rw [committedRow_applyUpdate applied] at known
      exact known
    · rw [(pendingRow_applyUpdate applied id).1 owner apart] at written
      exact written
    · rcases (pendingRow_applyUpdate applied id).2 with ⟨unchanged, _⟩ | ⟨former, _, chosen, now⟩
      · rw [unchanged] at written
        cases sound.made_of_pending found written isOpen
      · rw [now] at written
        cases written
        exact absurd isOpen (SuggestionDesk.change_status chosen)
  | reading =>
    rw [SuggestionDesk.settle] at went
    split at went
    · cases went
      exact sound.refused found _
    · cases went
      exact sound.quiet found rfl (fun holds => by cases holds) (fun holds => by cases holds)
        fun _ _ _ => .of_not_twinless rfl
  | committing =>
    cases went
    exact sound.finished found rfl _
  | checking | finding | countingMine | numbering | countingAll | inserting | recording
    | committingNew | ended => cases went

/-- The statements of a creation. -/
theorem SuggestionDesk.Sound.create {desk next : SuggestionDesk} (sound : desk.Sound) {tx : ℕ}
    {request : SuggestionRequest} (found : desk.requests[tx]? = some request)
    {input : CreateSuggestion} {role : Role} (asked : request.demand = .create input role)
    {surroundings : Surroundings}
    (went : desk.create tx request.scope input role surroundings request.phase = some next) :
    next.Sound := by
  have knows := sound.ready request (List.mem_of_getElem? found) input role asked
  obtain ⟨scope, demand, phase⟩ := request
  cases asked
  -- What the request knows in its next phase is what it is about to know as a creation.
  have ready : ∀ {suggestions : Table SuggestionRow} {phase : SuggestionPhase},
      SuggestionRequest.Knows suggestions scope input phase →
        SuggestionRequest.Ready suggestions ⟨scope, .create input role, phase⟩ := by
    intro suggestions phase now other role' same
    cases same
    exact now
  cases phase with
  | starting =>
    rw [SuggestionDesk.create] at went
    split at went
    · cases went
      exact sound.refused found _
    · split at went
      · cases went
      · rename_i free
        cases went
        exact sound.quiet found rfl (fun _ => .inr (Bool.eq_false_iff.mpr free))
          (fun holds => by cases holds) (ready (.of_not_twinless rfl))
  | checking =>
    rw [SuggestionDesk.create] at went
    split at went
    · cases went
      exact sound.refused found _
    · split at went
      · cases went
        exact sound.refused found _
      · cases went
        exact sound.quiet found rfl (fun _ => .inl rfl) (fun holds => by cases holds)
          (ready (.of_not_twinless rfl))
  | finding head =>
    rw [SuggestionDesk.create] at went
    split at went
    · cases went
      exact sound.finished found rfl _
    · rename_i none_
      cases went
      refine sound.quiet found rfl (fun _ => .inl rfl) (fun holds => by cases holds) (ready ?_)
      refine ⟨fun _ id row known twin => ?_, fun held => ?_, fun held => ?_, fun _ _ held => ?_⟩
      · rw [SuggestionDesk.findOpenTwin, List.find?_eq_none] at none_
        exact none_ (id, row) (mem_committedRows.mpr known) (decide_eq_true twin)
      · cases held
      · cases held
      · cases held
  | countingMine head =>
    rw [SuggestionDesk.create] at went
    split at went
    · cases went
      exact sound.refused found _
    · rename_i fewer
      cases went
      refine sound.quiet found rfl (fun _ => .inl rfl) (fun holds => by cases holds) (ready ?_)
      refine ⟨fun _ => knows.twinless rfl, fun _ => Nat.not_le.mp fewer, fun held => ?_,
        fun _ _ held => ?_⟩
      · cases held
      · cases held
  | numbering head =>
    rw [SuggestionDesk.create] at went
    split at went
    · cases went
    · rename_i free
      cases went
      refine sound.quiet found rfl (fun _ => .inl rfl)
        (fun _ => .inr (Bool.eq_false_iff.mpr free)) (ready ?_)
      refine ⟨fun _ => knows.twinless rfl, fun _ => knows.mine rfl, fun held => ?_,
        fun _ _ held => ?_⟩
      · cases held
      · cases held
  | countingAll head key =>
    rw [SuggestionDesk.create] at went
    split at went
    · cases went
      exact sound.refused found _
    · rename_i fewer
      cases went
      refine sound.quiet found rfl (fun _ => .inl rfl) (fun _ => .inl rfl) (ready ?_)
      refine ⟨fun _ => knows.twinless rfl, fun _ => knows.mine rfl, fun _ => Nat.not_le.mp fewer,
        fun _ _ held => ?_⟩
      cases held
  | inserting head key =>
    cases went
    refine sound.moved found (fun id row known _ => ?_) (fun owner id row apart written => ?_)
      (fun id row written isOpen => ?_) (fun _ => .inl rfl) (fun _ => .inl rfl) (ready ?_)
    · rw [committedRow_insert] at known
      exact known
    · exact (pendingRow_insert.mp written).resolve_right fun new => apart new.2.1
    · rcases pendingRow_insert.mp written with old | ⟨last, _, same⟩
      · cases sound.made_of_pending found old isOpen
      · rw [last, same]
        rfl
    · refine ⟨fun _ id row known => ?_, fun _ => ?_, fun _ => ?_, fun id row made => ?_⟩
      · rw [committedRow_insert] at known
        exact knows.twinless rfl id row known
      · refine (countCommitted_le fun id row known _ => ?_).trans_lt (knows.mine rfl)
        rw [committedRow_insert] at known
        exact known
      · refine (countCommitted_le fun id row known _ => ?_).trans_lt (knows.all rfl)
        rw [committedRow_insert] at known
        exact known
      · cases made
        exact ⟨rfl, rfl, rfl, rfl, rfl, rfl⟩
  | recording id row =>
    cases went
    refine sound.quiet found rfl (fun _ => .inl rfl) (fun _ => .inl rfl) (ready ?_)
    exact ⟨fun _ => knows.twinless rfl, fun _ => knows.mine rfl, fun _ => knows.all rfl,
      fun id row made => knows.made id row made⟩
  | committingNew id row =>
    cases went
    exact sound.created found rfl rfl
  | updating | reading | committing | ended => cases went

/-- **A step keeps the limits**, and what the creations know. -/
theorem SuggestionDesk.Sound.step {desk next : SuggestionDesk} {event : SuggestionEvent}
    (sound : desk.Sound) (taken : suggestionStep desk event = some next) : next.Sound := by
  cases event with
  | arrive scope demand =>
    cases taken
    refine ⟨sound.limits, sound.authors.append rfl, sound.counters.append rfl, ?_, ?_⟩
    · intro tx id row written isOpen
      obtain ⟨request, found, made⟩ := sound.pending tx id row written isOpen
      refine ⟨request, ?_, made⟩
      rw [List.getElem?_append_left (List.getElem?_eq_some_iff.mp found).1]
      exact found
    · intro request member
      rcases List.mem_append.mp member with old | new
      · exact sound.ready request old
      · rw [List.mem_singleton.mp new]
        exact fun _ _ _ => .of_not_twinless rfl
  | advance tx surroundings =>
    obtain ⟨request, found, went⟩ := Option.bind_eq_some_iff.mp taken
    rw [SuggestionDesk.advance] at went
    split at went
    · rename_i input role asked
      exact sound.create found asked went
    · exact sound.settle found went
    · exact sound.settle found went
  | fail tx =>
    obtain ⟨request, found, went⟩ := Option.bind_eq_some_iff.mp taken
    rw [SuggestionDesk.fail] at went
    split at went <;> cases went
    exact sound.refused found _

/-! ## The status of a suggestion -/

/-- A withdrawal or a decision is for open suggestions. -/
theorem SuggestionDesk.open_of_selects {scope : ProjectScope} {demand : SuggestionDemand} {id : ℕ}
    {row : SuggestionRow} (chosen : (change scope demand).selects id row = true) :
    row.status = .open := by
  cases demand with
  | create input role => cases chosen
  | withdraw target now => exact (of_decide_eq_true chosen).2.2.2.1
  | decide target now decision note => exact (of_decide_eq_true chosen).2.2.1

theorem settle_proceeds {desk next : SuggestionDesk}
    (orderly : Orderly SuggestionRow.Follows desk.suggestions) {tx : ℕ} {scope : ProjectScope}
    {demand : SuggestionDemand} {target : ℕ} {phase : SuggestionPhase}
    (went : desk.settle tx scope demand target phase = some next) :
    Proceeds SuggestionRow.Follows desk.suggestions next.suggestions := by
  cases phase with
  | starting =>
    cases went
    exact orderly.refl
  | updating selected =>
    obtain ⟨suggestions, applied, rfl⟩ := Option.map_eq_some_iff.mp went
    refine orderly.applyUpdate (orderly.leads_of_visible SuggestionRow.Follows.trans ?_) applied
    intro id row _ chosen settled
    exact absurd (SuggestionDesk.open_of_selects chosen) settled
  | reading =>
    rw [SuggestionDesk.settle] at went
    split at went
    · cases went
      exact orderly.abort tx
    · cases went
      exact orderly.refl
  | committing =>
    cases went
    exact orderly.commit tx
  | checking | finding | countingMine | numbering | countingAll | inserting | recording
    | committingNew | ended => cases went

theorem create_proceeds {desk next : SuggestionDesk}
    (orderly : Orderly SuggestionRow.Follows desk.suggestions) {tx : ℕ} {scope : ProjectScope}
    {input : CreateSuggestion} {role : Role} {found : Surroundings} {phase : SuggestionPhase}
    (went : desk.create tx scope input role found phase = some next) :
    Proceeds SuggestionRow.Follows desk.suggestions next.suggestions := by
  cases phase with
  | starting | checking | countingMine | numbering | countingAll =>
    rw [SuggestionDesk.create] at went
    split at went
    · cases went <;> exact orderly.abort tx
    · first
        | (cases went; exact orderly.refl)
        | (split at went <;> cases went <;> first | exact orderly.abort tx | exact orderly.refl)
  | finding head =>
    rw [SuggestionDesk.create] at went
    split at went
    · cases went
      exact orderly.commit tx
    · cases went
      exact orderly.refl
  | inserting head key =>
    cases went
    exact orderly.append
  | recording id row =>
    cases went
    exact orderly.refl
  | committingNew id row =>
    cases went
    exact orderly.commit tx
  | updating | reading | committing | ended => cases went

/-- **Each step leads the statuses where they may go.** -/
theorem statuses_proceed {desk next : SuggestionDesk} {event : SuggestionEvent}
    (orderly : Orderly SuggestionRow.Follows desk.suggestions)
    (taken : suggestionStep desk event = some next) :
    Proceeds SuggestionRow.Follows desk.suggestions next.suggestions := by
  cases event with
  | arrive scope demand =>
    cases taken
    exact orderly.refl
  | advance tx surroundings =>
    obtain ⟨request, found, went⟩ := Option.bind_eq_some_iff.mp taken
    rw [SuggestionDesk.advance] at went
    split at went
    · exact create_proceeds orderly went
    · exact settle_proceeds orderly went
    · exact settle_proceeds orderly went
  | fail tx =>
    obtain ⟨request, found, went⟩ := Option.bind_eq_some_iff.mp taken
    rw [SuggestionDesk.fail] at went
    split at went <;> cases went
    exact orderly.abort tx

/-! ## Runs -/

theorem SuggestionDesk.Fresh.sound {desk : SuggestionDesk} (fresh : desk.Fresh) : desk.Sound := by
  refine ⟨fresh.limits, fun i _ first _ _ found => ?_, fun i _ first _ _ found => ?_,
    fun tx id row written _ => ?_, fun request member => ?_⟩
  · rw [fresh.requests] at found
    cases found
  · rw [fresh.requests] at found
    cases found
  · obtain ⟨slot, found, held⟩ := pendingRow_eq_some.mp written
    rw [fresh.free slot (List.mem_of_getElem? found)] at held
    cases held
  · rw [fresh.requests] at member
    cases member

/-- **Limits and life cycle of suggestions.** In every run the open suggestions of an author in a
project and those of a project stay within their limits, and no two of them are the same; and a
suggestion that is no longer open has the same status at every later moment. -/
theorem suggestion_limits {start mid last : SuggestionDesk} {first rest : List SuggestionEvent}
    (fresh : start.Fresh) (reached : run suggestionStep start first = some mid)
    (onward : run suggestionStep mid rest = some last) :
    WithinLimits mid.suggestions ∧
      ∀ id row, committedRow mid.suggestions id = some row →
        ∃ later, committedRow last.suggestions id = some later ∧
          (row.status ≠ .open → later.status = row.status) := by
  have kept : ∀ (s : SuggestionDesk) (event : SuggestionEvent) (next : SuggestionDesk), s.Sound →
      suggestionStep s event = some next → next.Sound := fun _ _ _ sound taken => sound.step taken
  have proceeds : ∀ (s : SuggestionDesk) (event : SuggestionEvent) (next : SuggestionDesk), s.Sound →
      Orderly SuggestionRow.Follows s.suggestions → True → suggestionStep s event = some next →
        Proceeds SuggestionRow.Follows s.suggestions next.suggestions :=
    fun _ _ _ _ orderly _ taken => statuses_proceed orderly taken
  have always : ∀ (s : SuggestionDesk) (schedule : List SuggestionEvent),
      Along suggestionStep (fun _ _ => True) s schedule :=
    fun _ _ => .of_labels fun _ _ => trivial
  obtain ⟨sound, orderly⟩ := run_orderly kept proceeds fresh.sound (.of_free fresh.free)
    (always start first) reached
  refine ⟨sound.limits, fun id row known => ?_⟩
  obtain ⟨later, found, led⟩ := run_succeeds SuggestionRow.Follows.trans kept proceeds sound orderly
    (always mid rest) onward id row known
  refine ⟨later, found, ?_⟩
  rcases led with rfl | follows
  · exact fun _ => rfl
  · exact follows

/-- No suggestion yet. -/
def emptyDesk : SuggestionDesk := ⟨[], fun _ => 0, []⟩

theorem emptyDesk_fresh : emptyDesk.Fresh where
  free slot member := by cases member
  limits := {
    perAuthor := fun _ => Nat.zero_le _
    perProject := fun _ => Nat.zero_le _
    distinct := fun _ _ _ _ known => by cases known }
  requests := rfl

/-- A request with its statements, as the author finds things while the framing is open. -/
def wholeRequest (tx statements : ℕ) (scope : ProjectScope) (demand : SuggestionDemand) :
    List SuggestionEvent :=
  .arrive scope demand :: List.replicate statements (.advance tx ⟨true, false, none, false⟩)

/-- A suggestion that its author withdraws is not accepted later. -/
theorem suggestion_limits_withdrawn :
    ∃ mid last, run suggestionStep emptyDesk
        (wholeRequest 0 9 ⟨1, 3⟩ (.create ⟨.project, none, Text.lit "idea"⟩ .client) ++
          wholeRequest 1 4 ⟨1, 3⟩ (.withdraw 0 5)) = some mid ∧
      run suggestionStep mid (wholeRequest 2 3 ⟨1, 4⟩ (.decide 0 6 .accepted none)) = some last ∧
      WithinLimits mid.suggestions ∧
      ∃ later, committedRow last.suggestions 0 = some later ∧ later.status = .withdrawn := by
  obtain ⟨limits, stays⟩ := suggestion_limits emptyDesk_fresh
    (show run suggestionStep emptyDesk
        (wholeRequest 0 9 ⟨1, 3⟩ (.create ⟨.project, none, Text.lit "idea"⟩ .client) ++
          wholeRequest 1 4 ⟨1, 3⟩ (.withdraw 0 5)) = some _ from rfl)
    (show run suggestionStep _ (wholeRequest 2 3 ⟨1, 4⟩ (.decide 0 6 .accepted none)) = some _
      from rfl)
  obtain ⟨later, found, same⟩ := stays 0 _ rfl
  exact ⟨_, _, rfl, rfl, limits, later, found, same (by decide)⟩

end Koklo.Suggestions
