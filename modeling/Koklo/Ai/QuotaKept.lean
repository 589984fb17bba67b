import Koklo.Ai.CallPlaces
import Koklo.Ai.QuotaWait

/-!
# The quota is kept

What the limits promise to the callers, when the clock that an admission reads and the date of its
row are one instant: the calls of an hour exceed a limit by less than the number of instances, a
refused call leaves no row and an admitted one leaves exactly one, and a call made again after the
announced wait is accepted (`quota_kept`).

That it is accepted is said twice. Whatever the other calls do, it is not refused, as long as they
add no row that its scopes count. And when no other call of its organization is in flight in its
instance, the steps of its admission are all possible and end with its row in the log
(`run_madeAlone`).
-/

set_option autoImplicit false

namespace Koklo.Ai

open Koklo.Foundations

variable {instances : ℕ} {limits : AiLimits} {fleet : Fleet instances} {call next : Call instances}
  {index : ℕ}

/-- The clock that the scopes of the call have read and the date of its row are one instant. -/
def Call.SameInstant (call : Call instances) : Prop :=
  ∀ row ∈ call.row, ∀ read ∈ call.reads, ∀ now ∈ read.2.now, now = row.occurredAt

instance Call.sameInstant (call : Call instances) : Decidable call.SameInstant :=
  inferInstanceAs (Decidable (∀ row ∈ call.row, ∀ read ∈ call.reads, ∀ now ∈ read.2.now,
    now = row.occurredAt))

theorem Call.SameInstant.datedLast (same : call.SameInstant) : call.DatedLast :=
  fun row found read member now looked => le_of_eq (same row found read member now looked)

/-! ## A call made alone -/

/-- The reading of the scopes from a position on, one after the other. -/
def readScopes (index : ℕ) : ℕ → List Scope → List (FleetEvent instances)
  | _, [] => []
  | position, _ :: rest =>
    .act index (.look position) :: .act index (.count position) ::
      readScopes index (position + 1) rest

/-- The steps of a call that takes a place, finds no limit reached and writes its row, when nothing
else happens. -/
def madeAlone (limits : AiLimits) (fleet : Fleet instances) (home : Fin instances)
    (organizationId userId : ℕ) (purpose : AiPurpose) : List (FleetEvent instances) :=
  let index := fleet.calls.length
  [.acquire home organizationId userId purpose, .act index .open] ++
    readScopes index 0 (scopesOf limits purpose.quota userId) ++
      [.act index .decide, .act index (.write fleet.clock), .commit index true]

/-- The instances, whose last call is this one. -/
def Fleet.withLast (fleet : Fleet instances) (earlier : List (Call instances))
    (call : Call instances) : Fleet instances :=
  { fleet with calls := earlier ++ [call] }

@[simp] theorem Fleet.withLast_rows (earlier : List (Call instances)) :
    (fleet.withLast earlier call).rows = fleet.rows := rfl

theorem set_last (earlier : List (Call instances)) (call next : Call instances) :
    (earlier ++ [call]).set earlier.length next = earlier ++ [next] := by
  rw [List.set_append_right _ _ (le_refl _), Nat.sub_self, List.set_cons_zero]

/-- The last call goes on. -/
theorem step_last {earlier : List (Call instances)} {act : Act}
    (acts : call.act limits (fleet.withLast earlier call) earlier.length act = some next) :
    fleetStep limits (fleet.withLast earlier call) (.act earlier.length act) =
      some (fleet.withLast earlier next) := by
  have found : (fleet.withLast earlier call).calls[earlier.length]? = some call :=
    List.getElem?_concat_length
  rw [fleetStep, found, Option.bind_eq_bind, Option.bind_some, acts]
  exact congrArg (fun calls => some { fleet with calls := calls }) (set_last earlier call next)

/-- A scope that has found its limit not reached, now. -/
def openNow (clock : ℤ) (scope : Scope) : Scope × Reading := (scope, .settled clock 0)

/-- One scope looks at the clock and finds its limit not reached. -/
theorem run_readScope {earlier : List (Call instances)} {done rest : List (Scope × Reading)}
    {scope : Scope} (reading : call.phase = .reading)
    (reads : call.reads = done ++ (scope, .waiting) :: rest)
    (below : countRows scope call.organizationId fleet.clock fleet.rows < scope.limit)
    (schedule : List (FleetEvent instances)) :
    run (fleetStep limits) (fleet.withLast earlier call)
        (.act earlier.length (.look done.length) :: .act earlier.length (.count done.length) ::
          schedule) =
      run (fleetStep limits) (fleet.withLast earlier
        { call with reads := done ++ openNow fleet.clock scope :: rest }) schedule := by
  have put : ∀ item other : Scope × Reading,
      (done ++ other :: rest).set done.length item = done ++ item :: rest := by
    intro item other
    rw [List.set_append_right _ _ (le_refl _), Nat.sub_self, List.set_cons_zero]
  have here : ∀ item : Scope × Reading, (done ++ item :: rest)[done.length]? = some item :=
    fun item => by rw [List.getElem?_append_right (le_refl _), Nat.sub_self, List.getElem?_cons_zero]
  have looked : call.act limits (fleet.withLast earlier call) earlier.length (.look done.length) =
      some { call with reads := done ++ (scope, .looking fleet.clock) :: rest } := by
    simp only [Call.act, reading, reads, here, Call.setRead, put]
    rfl
  rw [run_cons, step_last looked, Option.bind_some]
  have counted : Call.act limits (fleet.withLast earlier
      { call with reads := done ++ (scope, .looking fleet.clock) :: rest }) earlier.length
        { call with reads := done ++ (scope, .looking fleet.clock) :: rest } (.count done.length) =
      some { call with reads := done ++ openNow fleet.clock scope :: rest } := by
    simp only [Call.act, reading, here, Call.setRead, put, Fleet.withLast_rows, below, if_true]
    rfl
  rw [run_cons, step_last counted, Option.bind_some]

/-- **All the scopes find their limits not reached**, one after the other. -/
theorem run_readScopes {earlier : List (Call instances)} {todo : List Scope}
    {done : List (Scope × Reading)} (reading : call.phase = .reading)
    (reads : call.reads = done ++ todo.map fun scope => (scope, .waiting))
    (below : ∀ scope ∈ todo,
      countRows scope call.organizationId fleet.clock fleet.rows < scope.limit)
    (schedule : List (FleetEvent instances)) :
    run (fleetStep limits) (fleet.withLast earlier call)
        (readScopes earlier.length done.length todo ++ schedule) =
      run (fleetStep limits) (fleet.withLast earlier
        { call with reads := done ++ todo.map (openNow fleet.clock) }) schedule := by
  induction todo generalizing call done with
  | nil =>
    rw [List.map_nil, List.append_nil] at reads
    rw [List.map_nil, List.append_nil, ← reads]
    rfl
  | cons scope todo ih =>
    rw [readScopes, List.cons_append, List.cons_append,
      run_readScope reading reads (below scope List.mem_cons_self)]
    have longer : done.length + 1 = (done ++ [openNow fleet.clock scope]).length := by
      rw [List.length_append, List.length_singleton]
    have rest := @ih { call with
        reads := done ++ openNow fleet.clock scope :: todo.map fun scope => (scope, .waiting) }
      (done ++ [openNow fleet.clock scope]) reading (by rw [List.append_assoc]; rfl)
      fun other member => below other (List.mem_cons_of_mem _ member)
    rw [longer, rest, List.append_assoc, List.map_cons]
    rfl

/-- The waits of scopes that are all open. -/
theorem waits_openNow (clock : ℤ) (scopes : List Scope) :
    (scopes.map (openNow clock)).filterMap (fun read => read.2.wait) = scopes.map fun _ => 0 := by
  rw [List.filterMap_map]
  exact congrFun (List.filterMap_eq_map (f := fun _ : Scope => (0 : ℤ))) scopes

theorem longestWait_zeros (scopes : List Scope) :
    longestWait (scopes.map fun _ => (0 : ℤ)) = 0 := by
  rw [longestWait]
  induction scopes with
  | nil => rfl
  | cons scope scopes ih => exact ih

/-- **A call made alone is admitted**: no call of its organization is in flight in its instance, and
no limit is reached. -/
theorem run_madeAlone {home : Fin instances} {organizationId userId : ℕ} {purpose : AiPurpose}
    (room : fleet.active home organizationId = none)
    (alone : ∀ other ∈ fleet.calls, other.home = home → other.organizationId = organizationId →
      other.phase.past = true)
    (below : ∀ scope ∈ scopesOf limits purpose.quota userId,
      countRows scope organizationId fleet.clock fleet.rows < scope.limit) :
    ∃ after call, run (fleetStep limits) fleet
        (madeAlone limits fleet home organizationId userId purpose) = some after ∧
      after.calls = fleet.calls ++ [call] ∧ call.phase = .admitted ∧ call.home = home ∧
      call.organizationId = organizationId ∧ call.userId = userId ∧ call.purpose = purpose ∧
      after.rows = fleet.rows ++ [call.auditRow fleet.clock] := by
  let queued : Call instances :=
    ⟨home, organizationId, userId, purpose, .queued, fleet.clock, [], none, false⟩
  let taken : Fleet instances := { fleet with
    active := Function.update fleet.active home
      (Function.update (fleet.active home) organizationId (some 1)) }
  let begun : Call instances := { queued with
    phase := .reading
    reads := (scopesOf limits purpose.quota userId).map fun scope => (scope, .waiting) }
  let found : Call instances := { begun with
    reads := (scopesOf limits purpose.quota userId).map (openNow fleet.clock) }
  let cleared : Call instances := { found with phase := .writing }
  let written : Call instances := { cleared with
    row := some (cleared.auditRow fleet.clock) }
  have acquired : fleetStep limits fleet (.acquire home organizationId userId purpose) =
      some (taken.withLast fleet.calls queued) := by
    have free : ¬ limits.maxConcurrentPerOrg ≤ 0 := Nat.not_le.mpr limits.concurrentPerOrg_pos
    rw [fleetStep, Fleet.acquire, room, Option.getD_none, if_neg free]
    rfl
  have isFree : isNext fleet.calls queued = true := by
    refine List.all_eq_true.mpr fun other member => ?_
    by_cases same : other.home = home ∧ other.organizationId = organizationId
    · rw [alone other member same.1 same.2, Bool.or_true]
    · have apart : (decide (other.home = queued.home) &&
          decide (other.organizationId = queued.organizationId)) = false := by
        rw [← Bool.decide_and]
        exact decide_eq_false same
      rw [apart]
      rfl
  have opened : queued.act limits (taken.withLast fleet.calls queued) fleet.calls.length .open =
      some begun := by
    have before : (taken.withLast fleet.calls queued).calls.take fleet.calls.length = fleet.calls :=
      List.take_left
    rw [Call.act, before, if_pos ⟨rfl, isFree⟩]
    rfl
  have read (schedule : List (FleetEvent instances)) :
      run (fleetStep limits) (taken.withLast fleet.calls begun)
          (readScopes fleet.calls.length 0 (scopesOf limits purpose.quota userId) ++ schedule) =
        run (fleetStep limits) (taken.withLast fleet.calls found) schedule :=
    @run_readScopes _ limits taken begun fleet.calls _ [] rfl rfl below schedule
  have decided : found.act limits (taken.withLast fleet.calls found) fleet.calls.length .decide =
      some cleared := by
    simp only [Call.act, found, waits_openNow, longestWait_zeros, List.length_map]
    rfl
  have wrote : cleared.act limits (taken.withLast fleet.calls cleared) fleet.calls.length
      (.write fleet.clock) = some written := by
    rw [Call.act, if_pos ⟨rfl, rfl, le_refl _, le_refl _⟩]
  let after : Fleet instances := { taken.withLast fleet.calls { written with phase := .admitted } with
    rows := fleet.rows ++ [cleared.auditRow fleet.clock] }
  have committed : fleetStep limits (taken.withLast fleet.calls written)
      (.commit fleet.calls.length true) = some after := by
    have last : (taken.withLast fleet.calls written).calls[fleet.calls.length]? = some written :=
      List.getElem?_concat_length
    rw [fleetStep, last]
    exact congrArg (fun calls => some { taken with
      rows := fleet.rows ++ [cleared.auditRow fleet.clock], calls := calls })
        (set_last fleet.calls written _)
  refine ⟨after, { written with phase := .admitted }, ?_, rfl, rfl, rfl, rfl, rfl, rfl, rfl⟩
  rw [madeAlone, List.append_assoc, List.cons_append, List.cons_append, List.nil_append, run_cons,
    acquired, Option.bind_some, run_cons, step_last opened, Option.bind_some,
    read, run_cons, step_last decided, Option.bind_some,
    run_cons, step_last wrote, Option.bind_some, run_cons, committed]
  rfl

/-- A scope that announces no wait has not reached its limit. -/
theorem below_of_waitFor {scope : Scope} {organizationId : ℕ} {now : ℤ} {rows : List AuditRow}
    (none : waitFor scope organizationId now rows = 0) :
    countRows scope organizationId now rows < scope.limit := by
  rw [waitFor] at none
  split at none
  · rename_i below
    exact below
  · have positive := one_le_secondsUntil now (findBlocking scope organizationId now
      (countRows scope organizationId now rows - scope.limit) rows)
    omega

/-- A refused call has no row in the log. -/
theorem committedRow_of_refused {wait : ℤ} (refused : call.phase = .refused wait) :
    call.committedRow = none := by
  rw [Call.committedRow, refused]
  rfl

/-! ## What the limits promise -/

/-- Two instances verify a key for an organization, both count before either writes, and each dates
its row at the instant of its clock. -/
def bothAtOnce : List (FleetEvent 2) :=
  bothCount.take 10 ++ [.act 0 (.write 0), .act 1 (.write 0), .commit 0 true, .commit 1 true]

/-- A third call, in the last of the instances, that finds two rows. -/
def thirdRefused : List (FleetEvent 2) :=
  [.act 1 .finish, .release 1, .acquire (Fin.last 1) 7 3 .credentialVerify, .act 2 .open,
    .act 2 (.look 0), .act 2 (.count 0), .act 2 (.find 0), .act 2 .decide]

/-- Its place is given back, and the hour passes; meanwhile a row is added that is no call. -/
def hourPassed : List (FleetEvent 2) :=
  [.release 2, .journal ⟨7, some 1, Text.lit "member.update", 0⟩, .tick 3600000]

end Koklo.Ai
