import Koklo.Ai.Admissions
import Koklo.Foundations.Runs

/-!
# Calls of an hour

For every interleaving of the calls, in every hour the admitted calls that a limit counts exceed it
by less than the number of instances, when each row is dated after its scopes have read; a row may
be dated from the opening of its transaction, and then each instance adds one call more at most
(`admitted_in_window`).

A call occupies an hour once a scope has found its limit not reached, for as long as its row is
not known to be outside the hour. The calls that occupy an hour grow only when a scope counts: then
those whose rows are committed are among the rows it counts, which are fewer than the limit, and the
others are in flight, one in each instance.
-/

set_option autoImplicit false

namespace Koklo.Ai

open Koklo.Foundations

variable {instances : ℕ} {limits : AiLimits} {fleet : Fleet instances} {call next : Call instances}
  {index : ℕ}

/-! ## The calls that occupy an hour -/

/-- The admission of the call is neither refused nor failed. -/
def Phase.holds : Phase → Bool
  | .reading => true
  | .writing => true
  | phase => phase.committed

/-- The scope has found its limit not reached, at an instant that the bound does not precede. -/
def Reading.clearBy (bound : ℤ) : Reading → Bool
  | .settled now wait => wait = 0 ∧ now ≤ bound
  | _ => false

/-- The call occupies the hour that starts at an instant, in a scope of an organization. -/
def Call.occupies (scope : Scope) (organizationId : ℕ) (start : ℤ) (call : Call instances) :
    Bool :=
  call.organizationId = organizationId && call.phase.holds &&
    call.reads.any (fun read => read.1 = scope && read.2.clearBy (start + windowMs)) &&
    call.row.all fun row => start < row.occurredAt

theorem occupies_iff {scope : Scope} {organizationId : ℕ} {start : ℤ} :
    call.occupies scope organizationId start = true ↔
      call.organizationId = organizationId ∧ call.phase.holds = true ∧
        (∃ read ∈ call.reads, read.1 = scope ∧ read.2.clearBy (start + windowMs) = true) ∧
        ∀ row, call.row = some row → start < row.occurredAt := by
  rw [Call.occupies, Bool.and_eq_true, Bool.and_eq_true, Bool.and_eq_true, decide_eq_true_eq,
    List.any_eq_true, Option.all_eq_true]
  simp only [Bool.and_eq_true, decide_eq_true_eq, and_assoc]

/-- A step other than the counting of a scope makes no call occupy an hour. -/
theorem Acted.occupies (acted : Acted limits fleet index call next) {scope : Scope}
    {organizationId : ℕ} {start : ℤ} (occupies : next.occupies scope organizationId start = true) :
    call.occupies scope organizationId start = true ∨
      ∃ now, now ≤ start + windowMs ∧ scope ∈ call.reads.map Prod.fst ∧ call.phase = .reading ∧
        next.phase = .reading ∧ next.organizationId = organizationId ∧
        countRows scope organizationId now fleet.rows < scope.limit := by
  obtain ⟨organization, holds, ⟨read, member, same, clear⟩, late⟩ := occupies_iff.mp occupies
  cases acted with
  | opened queued free =>
    obtain ⟨_, _, rfl⟩ := List.mem_map.mp member
    cases clear
  | read reading position scope' former later here progress =>
    rcases mem_setRead here member with old | ⟨rfl, old⟩
    · exact .inl (occupies_iff.mpr
        ⟨organization, by rw [reading]; rfl, ⟨read, old, same, clear⟩, late⟩)
    · obtain rfl : scope' = scope := same
      cases progress with
      | look => cases clear
      | full => cases clear
      | clear now below =>
        rw [Reading.clearBy, decide_eq_true_eq] at clear
        rw [← organization]
        exact .inr ⟨now, clear.2, List.mem_map.mpr ⟨_, old, rfl⟩, reading, reading, rfl, below⟩
      | find now count =>
        rw [Reading.clearBy, decide_eq_true_eq] at clear
        exact absurd ((one_le_secondsUntil _ _).trans_eq clear.1) (by decide)
  | refused reading wait all longest positive => cases holds
  | cleared reading all none =>
    exact .inl (occupies_iff.mpr
      ⟨organization, by rw [reading]; rfl, ⟨read, member, same, clear⟩, late⟩)
  | wrote writing empty occurredAt after before =>
    refine .inl (occupies_iff.mpr ⟨organization, holds, ⟨read, member, same, clear⟩, ?_⟩)
    intro row found
    rw [empty] at found
    cases found
  | failed open_ => cases holds
  | finished admitted =>
    exact .inl (occupies_iff.mpr
      ⟨organization, by rw [admitted]; rfl, ⟨read, member, same, clear⟩, late⟩)

/-- The limits are at least one. -/
theorem limit_pos {kind : QuotaKind} {userId : ℕ} {scope : Scope}
    (member : scope ∈ scopesOf limits kind userId) : 1 ≤ scope.limit := by
  cases kind with
  | verify =>
    rw [List.mem_singleton.mp member]
    exact limits.verifyPerHourOrg_pos
  | ai =>
    rcases List.mem_cons.mp member with rfl | other
    · exact limits.callsPerHourOrg_pos
    · rw [List.mem_singleton.mp other]
      exact limits.callsPerHourUser_pos

/-- The rows of the calls for the proposals have an action of the model. -/
theorem admits_of_ai {purpose : AiPurpose} (ai : purpose.quota = .ai) :
    (ActionFilter.startsWith (Text.lit "ai.")).admits purpose.action = true := by
  cases purpose with
  | briefDraft => decide
  | featuresPropose => decide
  | criteriaPropose => decide
  | credentialVerify => cases ai

theorem admits_of_verify {purpose : AiPurpose} (verify : purpose.quota = .verify) :
    (ActionFilter.equals (Text.lit "llm_credential.verify")).admits purpose.action = true := by
  cases purpose with
  | credentialVerify => decide
  | briefDraft => cases verify
  | featuresPropose => cases verify
  | criteriaPropose => cases verify

/-- The action of a call is only in the scopes of its kind. -/
theorem not_admits_of_kind {purpose : AiPurpose} :
    (purpose.quota = .verify →
      (ActionFilter.startsWith (Text.lit "ai.")).admits purpose.action = false) ∧
    (purpose.quota = .ai →
      (ActionFilter.equals (Text.lit "llm_credential.verify")).admits purpose.action = false) := by
  cases purpose <;> decide

/-- **The row of a call is counted by its own scopes**, as long as it is in the hour. -/
theorem selects_auditRow {scope : Scope}
    (member : scope ∈ scopesOf limits call.purpose.quota call.userId) {now occurredAt : ℤ}
    (inside : now - windowMs < occurredAt) :
    scope.selects call.organizationId now (call.auditRow occurredAt) = true := by
  have known : scope.action.admits call.purpose.action = true ∧
      (scope.actorId.isSome = true → some call.userId = scope.actorId) := by
    cases kind : call.purpose.quota with
    | verify =>
      rw [kind] at member
      rw [List.mem_singleton.mp member]
      exact ⟨admits_of_verify kind, fun actor => by cases actor⟩
    | ai =>
      rw [kind] at member
      rcases List.mem_cons.mp member with rfl | other
      · exact ⟨admits_of_ai kind, fun actor => by cases actor⟩
      · rw [List.mem_singleton.mp other]
        exact ⟨admits_of_ai kind, fun _ => rfl⟩
  rw [Scope.selects, decide_eq_true_eq]
  exact ⟨rfl, known.1, inside, known.2⟩

/-- **A scope that counts the row of a call is one of its scopes.** -/
theorem mem_scopesOf_of_selects {kind : QuotaKind} {userId organizationId : ℕ} {scope : Scope}
    (member : scope ∈ scopesOf limits kind userId) {now occurredAt : ℤ}
    (selects : scope.selects organizationId now (call.auditRow occurredAt) = true) :
    scope ∈ scopesOf limits call.purpose.quota call.userId := by
  rw [Scope.selects, decide_eq_true_eq] at selects
  obtain ⟨_, admits, _, actor⟩ := selects
  cases own : call.purpose.quota with
  | verify =>
    cases kind with
    | verify => exact member
    | ai =>
      have foreign := not_admits_of_kind.1 own
      rcases List.mem_cons.mp member with rfl | other
      · exact absurd admits (Bool.not_eq_true _ ▸ foreign)
      · rw [List.mem_singleton.mp other] at admits
        exact absurd admits (Bool.not_eq_true _ ▸ foreign)
  | ai =>
    cases kind with
    | verify =>
      rw [List.mem_singleton.mp member] at admits
      exact absurd admits (Bool.not_eq_true _ ▸ not_admits_of_kind.2 own)
    | ai =>
      rcases List.mem_cons.mp member with rfl | other
      · exact List.mem_cons_self
      · have second := List.mem_singleton.mp other
        rw [second] at actor
        have same : call.userId = userId := Option.some.inj (actor rfl)
        rw [second, ← same]
        exact List.mem_cons_of_mem _ List.mem_cons_self

/-- The calls that occupy an hour and whose rows are in the log are among the rows of the hour. -/
theorem committed_le_rows {scope : Scope} {organizationId : ℕ} {start now : ℤ}
    (sound : ∀ call ∈ fleet.calls, CallSound limits fleet.clock call)
    (log : fleet.rows.Perm (fleet.calls.filterMap Call.committedRow ++ fleet.others))
    (within : now ≤ start + windowMs) :
    fleet.calls.countP (fun call => call.occupies scope organizationId start &&
        call.phase.committed) ≤ countRows scope organizationId now fleet.rows := by
  rw [countRows, log.countP_eq, List.countP_append, List.countP_filterMap]
  refine le_trans (List.countP_mono_left fun call member counted => ?_) (Nat.le_add_right _ _)
  obtain ⟨occupies, committed⟩ := Bool.and_eq_true _ _ ▸ counted
  obtain ⟨organization, holds, ⟨read, known, same, clear⟩, late⟩ := occupies_iff.mp occupies
  have own := sound call member
  obtain ⟨row, found⟩ := own.committed committed
  obtain ⟨occurredAt, rfl, _, _⟩ := own.dated row found
  have begun : call.phase.begun = true := by
    cases phase : call.phase with
    | queued =>
      rw [phase] at holds
      cases holds
    | turnedAway =>
      rw [phase] at holds
      cases holds
    | _ => rfl
  have among : scope ∈ scopesOf limits call.purpose.quota call.userId := by
    rw [← own.scopes begun, ← same]
    exact List.mem_map.mpr ⟨read, known, rfl⟩
  have after : start < occurredAt := late _ found
  rw [Call.committedRow, if_pos committed, found, ← organization]
  exact selects_auditRow among (by omega)

/-- The calls in flight that occupy an hour are in different instances. -/
theorem inFlight_le {calls : List (Call instances)} (serial : Serial calls) (scope : Scope)
    (organizationId : ℕ) (start : ℤ) :
    calls.countP (fun call => call.occupies scope organizationId start &&
        !call.phase.committed) ≤ instances := by
  have open_ : ∀ call : Call instances, (call.occupies scope organizationId start &&
      !call.phase.committed) = true → call.organizationId = organizationId ∧
        call.phase.begun = true ∧ call.phase.past = false := by
    intro call counted
    obtain ⟨occupies, uncommitted⟩ := Bool.and_eq_true _ _ ▸ counted
    obtain ⟨organization, holds, _, _⟩ := occupies_iff.mp occupies
    refine ⟨organization, ?_⟩
    cases phase : call.phase with
    | reading => exact ⟨rfl, rfl⟩
    | writing => exact ⟨rfl, rfl⟩
    | _ =>
      rw [phase] at holds uncommitted
      simp only [Phase.holds, Phase.committed] at holds uncommitted
      cases uncommitted <;> cases holds
  refine (countP_le_of_apart Call.home ?_).trans_eq (Fintype.card_fin instances)
  intro i j first second less foundFirst foundSecond countsFirst countsSecond same
  obtain ⟨organizationFirst, _, notPast⟩ := open_ first countsFirst
  obtain ⟨organizationSecond, begun, _⟩ := open_ second countsSecond
  have passed := (serial i j first second less foundFirst foundSecond same
    (organizationFirst.trans organizationSecond.symm) begun).1
  rw [notPast] at passed
  cases passed

/-! ## Every run -/

/-- What holds of the instances at every instant. -/
structure FleetSound (limits : AiLimits) (fleet : Fleet instances) : Prop where
  calls : ∀ call ∈ fleet.calls, CallSound limits fleet.clock call
  serial : Serial fleet.calls
  log : fleet.rows.Perm (fleet.calls.filterMap Call.committedRow ++ fleet.others)
  dated : ∀ row ∈ fleet.rows, row.occurredAt ≤ fleet.clock
  window : ∀ scope organizationId start,
    fleet.calls.countP (Call.occupies scope organizationId start) ≤ scope.limit + instances - 1

theorem FleetSound.start (clock : ℤ) : FleetSound limits (Fleet.start instances clock) where
  calls := fun _ member => absurd member List.not_mem_nil
  serial := fun i j first second less foundFirst _ => by cases foundFirst
  log := List.Perm.refl _
  dated := fun _ member => absurd member List.not_mem_nil
  window := fun _ _ _ => Nat.zero_le _

/-- The calls with one replaced by a sound one are sound. -/
theorem sound_set {calls : List (Call instances)} {clock : ℤ}
    (sound : ∀ call ∈ calls, CallSound limits clock call) (own : CallSound limits clock next) :
    ∀ call ∈ calls.set index next, CallSound limits clock call := by
  intro call member
  rcases List.mem_or_eq_of_mem_set member with old | rfl
  · exact sound call old
  · exact own

/-- A step of its admission commits no row of a call. -/
theorem Acted.committedRow (acted : Acted limits fleet index call next) :
    next.committedRow = call.committedRow := by
  cases acted with
  | opened queued free => rw [Call.committedRow, Call.committedRow, queued]; rfl
  | read reading position scope former later here progress => rfl
  | refused reading wait all longest positive =>
    rw [Call.committedRow, Call.committedRow, reading]; rfl
  | cleared reading all none => rw [Call.committedRow, Call.committedRow, reading]; rfl
  | wrote writing empty occurredAt after before =>
    rw [Call.committedRow, Call.committedRow, writing]; rfl
  | failed open_ =>
    rw [Call.committedRow, Call.committedRow]
    rcases open_ with reading | writing
    · rw [reading]; rfl
    · rw [writing]; rfl
  | finished admitted => rw [Call.committedRow, Call.committedRow, admitted]; rfl

/-- **The calls that occupy an hour stay few** when one of them counts. -/
theorem window_act (sound : FleetSound limits fleet) (found : fleet.calls[index]? = some call)
    (acted : Acted limits fleet index call next) (scope : Scope) (organizationId : ℕ) (start : ℤ) :
    (fleet.calls.set index next).countP (Call.occupies scope organizationId start) ≤
      scope.limit + instances - 1 := by
  have serial := sound.serial.act rfl sound.calls found acted
  by_cases counts : next.occupies scope organizationId start = true →
      call.occupies scope organizationId start = true
  · exact (countP_set_le found counts).trans (sound.window scope organizationId start)
  · obtain ⟨occupies, before⟩ := Classical.not_imp.mp counts
    rcases acted.occupies occupies with old | ⟨now, within, _, _, reading, _, below⟩
    · exact absurd old before
    · rw [countP_split _ _ fun call => call.phase.committed]
      have committed : (fleet.calls.set index next).countP
          (fun call => call.occupies scope organizationId start && call.phase.committed) ≤
          countRows scope organizationId now fleet.rows := by
        refine (countP_set_le found fun both => ?_).trans
          (committed_le_rows sound.calls sound.log within)
        rw [reading] at both
        exact absurd (Bool.and_eq_true _ _ ▸ both).2 Bool.false_ne_true
      have flying := inFlight_le serial scope organizationId start
      omega

theorem CallSound.commit {clock : ℤ} {row : AuditRow} (sound : CallSound limits clock call)
    (writing : call.phase = .writing) (written : call.row = some row) (answered : Bool) :
    CallSound limits clock { call with phase := if answered then .admitted else .lost } := by
  have after : (if answered then Phase.admitted else Phase.lost).committed = true := by
    cases answered <;> rfl
  exact ⟨fun not => (by cases answered <;> cases not),
    fun _ => sound.scopes (by rw [writing]; rfl), sound.begun, sound.times, sound.waits,
    fun _ => sound.clear (.inl writing), sound.dated, fun _ _ => .inr after,
    fun _ => ⟨row, written⟩⟩

theorem CallSound.joins (clock : ℤ) (home : Fin instances) (organizationId userId : ℕ)
    (purpose : AiPurpose) {phase : Phase} (waits : phase = .queued ∨ phase = .turnedAway)
    (released : Bool) : CallSound limits clock
      ⟨home, organizationId, userId, purpose, phase, clock, [], none, released⟩ := by
  refine ⟨fun _ => rfl, fun begun => ?_, le_refl _, fun _ member => absurd member List.not_mem_nil,
    fun _ member => absurd member List.not_mem_nil,
    fun _ _ member => absurd member List.not_mem_nil,
    fun _ found => (by cases found), fun _ found => (by cases found), fun committed => ?_⟩
  · rcases waits with rfl | rfl <;> cases begun
  · rcases waits with rfl | rfl <;> cases committed

/-- A call that joins a queue, or that is turned away, changes nothing of the others. -/
theorem FleetSound.joins (sound : FleetSound limits fleet)
    (active : Fin instances → ℕ → Option ℕ) (home : Fin instances) (organizationId userId : ℕ)
    (purpose : AiPurpose) {phase : Phase} (waits : phase = .queued ∨ phase = .turnedAway)
    (released : Bool) : FleetSound limits { fleet with
      active := active
      calls := fleet.calls ++
        [⟨home, organizationId, userId, purpose, phase, fleet.clock, [], none, released⟩] } := by
  refine ⟨fun call member => ?_, sound.serial.append ?_, ?_, sound.dated,
    fun scope other start => ?_⟩
  · rcases List.mem_append.mp member with old | new
    · exact sound.calls call old
    · rw [List.mem_singleton.mp new]
      exact .joins fleet.clock home organizationId userId purpose waits released
  · rcases waits with rfl | rfl <;> rfl
  · have none : Call.committedRow (⟨home, organizationId, userId, purpose, phase, fleet.clock, [],
        none, released⟩ : Call instances) = none := by
      rcases waits with rfl | rfl <;> rfl
    rw [List.filterMap_append, List.filterMap_cons, none, List.filterMap_nil, List.append_nil]
    exact sound.log
  · rw [List.countP_append, List.countP_singleton]
    have free : Call.occupies scope other start (⟨home, organizationId, userId, purpose, phase,
        fleet.clock, [], none, released⟩ : Call instances) = false := by
      rw [Call.occupies, List.any_nil, Bool.and_false, Bool.false_and]
    rw [free]
    exact sound.window scope other start

/-- A call that gives its place back changes nothing else. -/
theorem FleetSound.released (sound : FleetSound limits fleet)
    (found : fleet.calls[index]? = some call) (active : Fin instances → ℕ → Option ℕ) :
    FleetSound limits { fleet with
      active := active
      calls := fleet.calls.set index { call with released := true } } := by
  have own := sound.calls call (List.mem_of_getElem? found)
  have parts : (fleet.calls.set index { call with released := true }).filterMap
      Call.committedRow = fleet.calls.filterMap Call.committedRow := filterMap_set found rfl
  refine ⟨sound_set sound.calls ⟨own.unread, own.scopes, own.begun, own.times, own.waits,
    own.clear, own.dated, own.written, own.committed⟩,
    sound.serial.set_follows found ⟨rfl, rfl, fun past => ⟨past, rfl⟩, fun begun => ⟨begun, rfl⟩⟩,
    parts ▸ sound.log, sound.dated, fun scope organizationId start => ?_⟩
  refine (countP_set_le found fun (occupies : Call.occupies scope organizationId start
    { call with released := true } = true) => ?_).trans (sound.window scope organizationId start)
  exact occupies

/-- **Every step keeps the instances sound.** -/
theorem FleetSound.step {after : Fleet instances} {event : FleetEvent instances}
    (sound : FleetSound limits fleet) (taken : fleetStep limits fleet event = some after) :
    FleetSound limits after := by
  cases event with
  | tick elapsed =>
    cases taken
    have later : fleet.clock ≤ fleet.clock + elapsed := by omega
    exact ⟨fun call member => (sound.calls call member).later later, sound.serial, sound.log,
      fun row member => (sound.dated row member).trans later, sound.window⟩
  | journal row =>
    rw [fleetStep] at taken
    split at taken
    · rename_i past
      cases taken
      refine ⟨sound.calls, sound.serial, ?_, ?_, sound.window⟩
      · rw [← List.append_assoc]
        exact sound.log.append_right [row]
      · intro other member
        rcases List.mem_append.mp member with old | new
        · exact sound.dated other old
        · rw [List.mem_singleton.mp new]
          exact past
    · cases taken
  | acquire home organizationId userId purpose =>
    cases taken
    rw [Fleet.acquire]
    split
    · exact sound.joins fleet.active home organizationId userId purpose (.inr rfl) true
    · exact sound.joins _ home organizationId userId purpose (.inl rfl) false
  | act index act =>
    obtain ⟨call, found, continued⟩ := Option.bind_eq_some_iff.mp taken
    obtain ⟨next, acts, same⟩ := Option.bind_eq_some_iff.mp continued
    cases same
    have acted := acted_of_act acts
    have own := sound.calls call (List.mem_of_getElem? found)
    refine ⟨sound_set sound.calls (own.act acted),
      sound.serial.act rfl sound.calls found acted, ?_, sound.dated, window_act sound found acted⟩
    rw [filterMap_set found (acted.committedRow)]
    exact sound.log
  | commit index answered =>
    rw [fleetStep] at taken
    split at taken
    · cases taken
    rename_i call found
    split at taken
    · rename_i row writing written
      cases taken
      have own := sound.calls call (List.mem_of_getElem? found)
      refine ⟨sound_set sound.calls (own.commit writing written answered), ?_, ?_, ?_, ?_⟩
      · refine sound.serial.set_follows found ⟨rfl, rfl, fun past => ?_, fun _ =>
          ⟨by rw [writing]; rfl, rfl⟩⟩
        rw [writing] at past
        cases past
      · have gained : Call.committedRow
            { call with phase := if answered then Phase.admitted else Phase.lost } = some row := by
          cases answered <;> exact written
        have without : call.committedRow = none := by
          rw [Call.committedRow, writing]
          rfl
        have parts := perm_filterMap_set found without gained
        refine (sound.log.append_right [row]).trans ?_
        refine List.Perm.trans ?_ (parts.append_right fleet.others).symm
        rw [List.append_assoc, List.append_assoc]
        exact List.perm_append_comm.append_left _
      · intro other member
        rcases List.mem_append.mp member with old | new
        · exact sound.dated other old
        · obtain ⟨occurredAt, same, _, before⟩ := own.dated row written
          rw [List.mem_singleton.mp new, same]
          exact before
      · intro scope organizationId start
        refine (countP_set_le found fun occupies => ?_).trans
          (sound.window scope organizationId start)
        obtain ⟨organization, _, clear, late⟩ := occupies_iff.mp occupies
        exact occupies_iff.mpr ⟨organization, by rw [writing]; rfl, clear, late⟩
    · cases taken
  | release index =>
    obtain ⟨call, found, continued⟩ := Option.bind_eq_some_iff.mp taken
    split at continued
    · cases continued
      rw [Fleet.release]
      split
      · exact sound
      · exact sound.released found _
    · cases continued

theorem FleetSound.run {after : Fleet instances} {schedule : List (FleetEvent instances)}
    (sound : FleetSound limits fleet)
    (reached : run (fleetStep limits) fleet schedule = some after) : FleetSound limits after :=
  run_invariant (fun _ _ _ before taken => before.step taken) sound reached

/-! ## The calls of an hour -/

/-- A row that a scope of an organization counts, in the hour that starts at an instant. -/
def Scope.inHour (scope : Scope) (organizationId : ℕ) (start : ℤ) (row : AuditRow) : Bool :=
  scope.selects organizationId (start + windowMs) row && row.occurredAt ≤ start + windowMs

/-- The row of the call is in the log and in the hour. -/
def Call.inHour (scope : Scope) (organizationId : ℕ) (start : ℤ) (call : Call instances) : Bool :=
  call.committedRow.any (scope.inHour organizationId start)

/-- The row of the call is dated after all its scopes have looked at the clock. -/
def Call.DatedLast (call : Call instances) : Prop :=
  ∀ row ∈ call.row, ∀ read ∈ call.reads, ∀ now ∈ read.2.now, now ≤ row.occurredAt

instance Call.datedLast (call : Call instances) : Decidable call.DatedLast :=
  inferInstanceAs (Decidable (∀ row ∈ call.row, ∀ read ∈ call.reads, ∀ now ∈ read.2.now,
    now ≤ row.occurredAt))

/-- What a call whose row is in an hour has read of a scope that counts the row. -/
theorem read_of_inHour (sound : CallSound limits fleet.clock call) {kind : QuotaKind}
    {userId organizationId : ℕ} {scope : Scope} (member : scope ∈ scopesOf limits kind userId)
    {start : ℤ} (inside : call.inHour scope organizationId start = true) :
    ∃ row now, call.row = some row ∧ call.phase.committed = true ∧
      (scope, Reading.settled now 0) ∈ call.reads ∧ call.organizationId = organizationId ∧
      start < row.occurredAt ∧ row.occurredAt ≤ start + windowMs ∧
      call.begunAt ≤ row.occurredAt := by
  rw [Call.inHour, Option.any_eq_true] at inside
  obtain ⟨row, committedRow, within⟩ := inside
  rw [Call.committedRow] at committedRow
  split at committedRow
  · rename_i committed
    obtain ⟨selects, before⟩ := Bool.and_eq_true _ _ ▸ within
    obtain ⟨occurredAt, rfl, after, _⟩ := sound.dated row committedRow
    have own := mem_scopesOf_of_selects member selects
    have begun : call.phase.begun = true := by
      cases phase : call.phase with
      | queued =>
        rw [phase] at committed
        cases committed
      | turnedAway =>
        rw [phase] at committed
        cases committed
      | _ => rfl
    rw [← sound.scopes begun] at own
    obtain ⟨read, known, same⟩ := List.mem_map.mp own
    obtain ⟨now, clear⟩ := sound.clear (.inr committed) read known
    obtain rfl : read = (scope, .settled now 0) := Prod.ext same clear
    rw [Scope.selects, decide_eq_true_eq] at selects
    have late : start < occurredAt := by
      have bound := selects.2.2.1
      change start + windowMs - windowMs < occurredAt at bound
      omega
    exact ⟨_, now, committedRow, committed, known, selects.1, late, of_decide_eq_true before, after⟩
  · cases committedRow

/-- The calls of an hour that do not occupy it have begun in it and looked at the clock after it,
and so they are in different instances. -/
theorem late_le (sound : FleetSound limits fleet) {kind : QuotaKind} {userId : ℕ} {scope : Scope}
    (member : scope ∈ scopesOf limits kind userId) (organizationId : ℕ) (start : ℤ) :
    fleet.calls.countP (fun call => call.inHour scope organizationId start &&
        !call.occupies scope organizationId start) ≤ instances := by
  have late : ∀ call ∈ fleet.calls, (call.inHour scope organizationId start &&
      !call.occupies scope organizationId start) = true →
      call.organizationId = organizationId ∧ call.phase.begun = true ∧
        call.begunAt ≤ start + windowMs ∧
        ∃ read ∈ call.reads, ∃ now, read.2.now = some now ∧ start + windowMs < now := by
    intro call known counted
    obtain ⟨inside, free⟩ := Bool.and_eq_true _ _ ▸ counted
    obtain ⟨row, now, found, committed, read, organization, after, before, begun⟩ :=
      read_of_inHour (sound.calls call known) member inside
    have holds : call.phase.holds = true ∧ call.phase.begun = true := by
      cases phase : call.phase <;> rw [phase] at committed <;>
        first | exact ⟨rfl, rfl⟩ | cases committed
    refine ⟨organization, holds.2, begun.trans before, _, read, now, rfl, ?_⟩
    by_contra early
    have occupies : call.occupies scope organizationId start = true := by
      refine occupies_iff.mpr ⟨organization, holds.1, ⟨_, read, rfl, ?_⟩, fun other same => ?_⟩
      · exact decide_eq_true ⟨rfl, Int.not_lt.mp early⟩
      · rw [found] at same
        cases same
        exact after
    rw [occupies] at free
    cases free
  refine (countP_le_of_apart Call.home ?_).trans_eq (Fintype.card_fin instances)
  intro i j first second less foundFirst foundSecond countsFirst countsSecond same
  obtain ⟨organizationFirst, _, _, read, known, now, looked, after⟩ :=
    late first (List.mem_of_getElem? foundFirst) countsFirst
  obtain ⟨organizationSecond, begun, before, _⟩ :=
    late second (List.mem_of_getElem? foundSecond) countsSecond
  have early := (sound.serial i j first second less foundFirst foundSecond same
    (organizationFirst.trans organizationSecond.symm) begun).2 read known now looked
  omega

/-- The calls of an hour whose rows are dated after their scopes have looked at the clock all occupy
it. -/
theorem inHour_le_of_datedLast (sound : FleetSound limits fleet)
    (dated : ∀ call ∈ fleet.calls, call.DatedLast) {kind : QuotaKind} {userId : ℕ} {scope : Scope}
    (member : scope ∈ scopesOf limits kind userId) (organizationId : ℕ) (start : ℤ) :
    fleet.calls.countP (Call.inHour scope organizationId start) ≤ scope.limit + instances - 1 := by
  refine le_trans (List.countP_mono_left fun call known inside => ?_)
    (sound.window scope organizationId start)
  obtain ⟨row, now, found, committed, read, organization, after, before, _⟩ :=
    read_of_inHour (sound.calls call known) member inside
  have looked : now ≤ row.occurredAt := dated call known row found _ read now rfl
  have holds : call.phase.holds = true := by
    cases phase : call.phase <;> rw [phase] at committed <;> first | rfl | cases committed
  refine occupies_iff.mpr ⟨organization, holds, ⟨_, read, rfl, ?_⟩, fun other same => ?_⟩
  · exact decide_eq_true ⟨rfl, looked.trans before⟩
  · rw [found] at same
    cases same
    exact after

/-- **In every hour of every run, the calls that a limit counts exceed it by less than the number of
instances**, when each row is dated after its scopes have looked at the clock; and by less than
twice that number otherwise. -/
theorem admitted_in_window {clock : ℤ} {schedule : List (FleetEvent instances)}
    (reached : run (fleetStep limits) (Fleet.start instances clock) schedule = some fleet)
    {kind : QuotaKind} {userId : ℕ} {scope : Scope} (member : scope ∈ scopesOf limits kind userId)
    (organizationId : ℕ) (start : ℤ) :
    fleet.calls.countP (Call.inHour scope organizationId start) ≤
        scope.limit + 2 * instances - 1 ∧
      ((∀ call ∈ fleet.calls, call.DatedLast) →
        fleet.calls.countP (Call.inHour scope organizationId start) ≤
          scope.limit + instances - 1) := by
  have sound := (FleetSound.start clock).run reached
  refine ⟨?_, fun dated => inHour_le_of_datedLast sound dated member organizationId start⟩
  rw [countP_split _ _ (Call.occupies scope organizationId start)]
  have occupied : fleet.calls.countP (fun call => call.inHour scope organizationId start &&
      call.occupies scope organizationId start) ≤
      fleet.calls.countP (Call.occupies scope organizationId start) :=
    List.countP_mono_left fun call _ both => (Bool.and_eq_true _ _ ▸ both).2
  have window := sound.window scope organizationId start
  have late := late_le sound member organizationId start
  have limit : 1 ≤ scope.limit := limit_pos member
  omega

/-- One call of each kind in an hour. -/
def oneCall : AiLimits where
  maxCallsPerHourOrg := 1
  maxCallsPerHourUser := 1
  maxVerifyPerHourOrg := 1
  maxConcurrentPerOrg := 2
  callsPerHourOrg_pos := Nat.one_pos
  callsPerHourUser_pos := Nat.one_pos
  verifyPerHourOrg_pos := Nat.one_pos
  concurrentPerOrg_pos := Nat.two_pos

/-- Two instances verify a key for an organization, and both count before either writes. -/
def bothCount : List (FleetEvent 2) :=
  [.acquire 0 7 1 .credentialVerify, .acquire 1 7 2 .credentialVerify, .act 0 .open, .act 1 .open,
    .act 0 (.look 0), .act 1 (.look 0), .act 0 (.count 0), .act 1 (.count 0), .act 0 .decide,
    .act 1 .decide, .tick 5, .act 0 (.write 5), .act 1 (.write 5), .commit 0 true, .commit 1 true]

/-- The limit of one call is passed by one, as the two instances allow. -/
theorem two_instances_pass_by_one : ∃ fleet,
    run (fleetStep oneCall) (Fleet.start 2 0) bothCount = some fleet ∧
      fleet.calls.countP
        (Call.inHour ⟨.equals (Text.lit "llm_credential.verify"), none, 1⟩ 7 0) = 2 ∧
      fleet.calls.countP
        (Call.inHour ⟨.equals (Text.lit "llm_credential.verify"), none, 1⟩ 7 0) ≤ 1 + 2 * 2 - 1 ∧
      fleet.calls.countP
        (Call.inHour ⟨.equals (Text.lit "llm_credential.verify"), none, 1⟩ 7 0) ≤ 1 + 2 - 1 :=
  ⟨_, rfl, by decide +kernel,
    (@admitted_in_window 2 oneCall _ 0 bothCount rfl .verify 0 _
      (List.mem_singleton.mpr rfl) 7 0).1,
    (@admitted_in_window 2 oneCall _ 0 bothCount rfl .verify 0 _
      (List.mem_singleton.mpr rfl) 7 0).2 (by decide +kernel)⟩

end Koklo.Ai
