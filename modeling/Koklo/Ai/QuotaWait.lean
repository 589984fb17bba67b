import Koklo.Ai.QuotaWindow

/-!
# The wait that a refusal announces

A call that is refused is told how many seconds to wait. When no row that its scopes count is added
to the log from before it began, a call of the same kind and user that begins so many seconds after
the refusal, or later, finds no limit reached (`open_after_wait`), and is not refused
(`accepted_after_wait`).

While no such row is added, the steps of a scope, which other calls may interleave, find what
`waitFor` would find at once (`Call.Faithful`). What it finds shrinks to zero by the time it
announces (`waitFor_later`): the blocking row has left the hour, and those after it are fewer than
the limit.
-/

set_option autoImplicit false

namespace Koklo.Ai

open Koklo.Foundations

variable {instances : ℕ} {limits : AiLimits} {fleet : Fleet instances} {call next : Call instances}
  {index : ℕ}

/-! ## The wait of a scope -/

/-- The rows of an hour that starts later are among those of an hour that starts earlier. -/
theorem selects_earlier {scope : Scope} {organizationId : ℕ} {now later : ℤ} (after : now ≤ later)
    {row : AuditRow} (selects : scope.selects organizationId later row = true) :
    scope.selects organizationId now row = true ∧ later - windowMs < row.occurredAt := by
  rw [Scope.selects, decide_eq_true_eq] at selects ⊢
  obtain ⟨organization, admits, inside, actor⟩ := selects
  exact ⟨⟨organization, admits, by omega, actor⟩, inside⟩

/-- A row leaves the hour by the seconds announced for it. -/
theorem leaves_by {now blocking latest later wait : ℤ} (written : blocking ≤ latest)
    (looked : now ≤ latest) (announced : secondsUntil now (some blocking) ≤ wait)
    (after : latest + wait * 1000 ≤ later) : blocking ≤ later - windowMs := by
  rw [secondsUntil, Option.getD_some] at announced
  simp only [windowMs, windowSeconds] at announced ⊢
  omega

/-- **A scope waits no longer** than it announced, over the same rows. -/
theorem waitFor_later {scope : Scope} {organizationId : ℕ} {rows : List AuditRow}
    {now latest later wait : ℤ} (limit : 1 ≤ scope.limit)
    (written : ∀ row ∈ rows, row.occurredAt ≤ latest) (looked : now ≤ latest)
    (announced : waitFor scope organizationId now rows ≤ wait) (nonneg : 0 ≤ wait)
    (after : latest + wait * 1000 ≤ later) : waitFor scope organizationId later rows = 0 := by
  have order : now ≤ later := by omega
  rw [waitFor, if_pos]
  rw [waitFor] at announced
  split at announced
  · rename_i below
    refine lt_of_le_of_lt ?_ below
    exact List.countP_mono_left fun row _ selects => (selects_earlier order selects).1
  · rename_i reached
    have full : scope.limit ≤ countRows scope organizationId now rows := Nat.le_of_not_lt reached
    let hour := (rows.filter (scope.selects organizationId now)).map AuditRow.occurredAt
    have size : hour.length = countRows scope organizationId now rows := by
      rw [List.length_map, countRows, List.countP_eq_length_filter]
    obtain ⟨blocking, among, found⟩ : ∃ item ∈ hour, nthOldest hour
        (countRows scope organizationId now rows - scope.limit) = some item :=
      nthOldest_isSome (by omega)
    have few := countP_after_nth found
    have left : blocking ≤ later - windowMs := by
      obtain ⟨row, member, rfl⟩ := List.mem_map.mp among
      refine leaves_by (written row (List.mem_filter.mp member).1) looked ?_ after
      rwa [findBlocking, found] at announced
    have still : countRows scope organizationId later rows ≤ hour.countP (blocking < ·) := by
      rw [List.countP_map, List.countP_filter, countRows]
      refine List.countP_mono_left fun row _ selects => ?_
      obtain ⟨earlier, inside⟩ := selects_earlier order selects
      exact Bool.and_eq_true _ _ ▸ ⟨decide_eq_true (lt_of_le_of_lt left inside), earlier⟩
    omega

/-! ## Rows of a scope -/

/-- The scope counts the row in some hour. -/
def Scope.concerns (scope : Scope) (organizationId : ℕ) (row : AuditRow) : Bool :=
  row.organizationId = organizationId ∧ scope.action.admits row.action = true ∧
    (scope.actorId.isSome → row.actorId = scope.actorId)

theorem Scope.concerns_of_selects {scope : Scope} {organizationId : ℕ} {now : ℤ} {row : AuditRow}
    (selects : scope.selects organizationId now row = true) :
    scope.concerns organizationId row = true := by
  rw [Scope.selects, decide_eq_true_eq] at selects
  rw [Scope.concerns, decide_eq_true_eq]
  exact ⟨selects.1, selects.2.1, selects.2.2.2⟩

/-- None of the rows that follow those of a first log is one that the scope counts. -/
def Quiet (first rows : List AuditRow) (organizationId : ℕ) (scope : Scope) : Prop :=
  ∀ row ∈ rows.drop first.length, scope.concerns organizationId row = false

instance Quiet.decidable (first rows : List AuditRow) (organizationId : ℕ) (scope : Scope) :
    Decidable (Quiet first rows organizationId scope) :=
  inferInstanceAs (Decidable (∀ row ∈ rows.drop first.length,
    scope.concerns organizationId row = false))

/-- The scope counts the same rows of two logs. -/
def SameHours (first rows : List AuditRow) (organizationId : ℕ) (scope : Scope) : Prop :=
  ∀ now, rows.filter (scope.selects organizationId now) =
    first.filter (scope.selects organizationId now)

/-- A scope counts the same rows as long as none that it counts is added. -/
theorem Quiet.sameHours {first rows : List AuditRow} {organizationId : ℕ} {scope : Scope}
    (quiet : Quiet first rows organizationId scope) (grows : first <+: rows) :
    SameHours first rows organizationId scope := by
  intro now
  obtain ⟨added, rfl⟩ := grows
  have none : added.filter (scope.selects organizationId now) = [] := by
    refine List.filter_eq_nil_iff.mpr fun row member selects => ?_
    have free := quiet row (by rwa [List.drop_left])
    rw [Scope.concerns_of_selects selects] at free
    cases free
  rw [List.filter_append, none, List.append_nil]

/-- What is not among the rows of a longer log is not among those of a shorter one. -/
theorem Quiet.shorter {first rows longer : List AuditRow} {organizationId : ℕ} {scope : Scope}
    (quiet : Quiet first longer organizationId scope) (grows : rows <+: longer) :
    Quiet first rows organizationId scope := by
  obtain ⟨added, rfl⟩ := grows
  refine fun row member => quiet row ?_
  rw [List.drop_append]
  exact List.mem_append_left _ member

theorem Quiet.of_same {first rows : List AuditRow} {organizationId : ℕ} {scope : Scope}
    (same : rows = first) : Quiet first rows organizationId scope := by
  intro row member
  rw [same, List.drop_length] at member
  cases member

theorem SameHours.countRows {first rows : List AuditRow} {organizationId : ℕ} {scope : Scope}
    (same : SameHours first rows organizationId scope) (now : ℤ) :
    countRows scope organizationId now rows = countRows scope organizationId now first := by
  rw [Ai.countRows, Ai.countRows, List.countP_eq_length_filter, List.countP_eq_length_filter,
    same now]

theorem SameHours.findBlocking {first rows : List AuditRow} {organizationId : ℕ} {scope : Scope}
    (same : SameHours first rows organizationId scope) (now : ℤ) (skip : ℕ) :
    findBlocking scope organizationId now skip rows =
      findBlocking scope organizationId now skip first := by
  rw [Ai.findBlocking, Ai.findBlocking, same now]

theorem SameHours.waitFor {first rows : List AuditRow} {organizationId : ℕ} {scope : Scope}
    (same : SameHours first rows organizationId scope) (now : ℤ) :
    waitFor scope organizationId now rows = waitFor scope organizationId now first := by
  rw [Ai.waitFor, Ai.waitFor, same.countRows, same.findBlocking]

/-! ## Scopes over the same rows -/

/-- What a call has read is what the rows say, and a refusal is for the longest of its waits. -/
structure Call.Faithful (rows : List AuditRow) (call : Call instances) : Prop where
  counted : ∀ scope now count, (scope, Reading.counted now count) ∈ call.reads →
    count = countRows scope call.organizationId now rows ∧ scope.limit ≤ count
  settled : ∀ scope now wait, (scope, Reading.settled now wait) ∈ call.reads →
    wait = waitFor scope call.organizationId now rows
  refused : ∀ wait, call.phase = .refused wait → ∀ read ∈ call.reads,
    ∃ now found, read.2 = .settled now found ∧ found ≤ wait
  blocked : ∀ wait, call.phase = .refused wait →
    ∃ read ∈ call.reads, ∃ found, read.2.wait = some found ∧ 0 < found

/-- A call that has read nothing, and is not refused. -/
theorem Call.Faithful.of_unread {rows : List AuditRow} (unread : call.reads = [])
    (notRefused : ∀ wait, call.phase ≠ .refused wait) : call.Faithful rows where
  counted := fun scope now count member => by
    rw [unread] at member
    cases member
  settled := fun scope now wait member => by
    rw [unread] at member
    cases member
  refused := fun wait _ read member => by
    rw [unread] at member
    cases member
  blocked := fun wait same => absurd same (notRefused wait)

/-- A longest wait that is positive is one of the waits. -/
theorem exists_of_longestWait_pos {waits : List ℤ} (positive : 0 < longestWait waits) :
    ∃ wait ∈ waits, 0 < wait := by
  by_contra none
  have most : ∀ (waits : List ℤ) (start : ℤ), (∀ wait ∈ waits, wait ≤ 0) → start ≤ 0 →
      waits.foldl max start ≤ 0 := by
    intro waits
    induction waits with
    | nil => exact fun start _ before => before
    | cons first rest ih =>
      intro start all before
      exact ih _ (fun wait member => all wait (List.mem_cons_of_mem _ member))
        (max_le before (all first List.mem_cons_self))
  have few := most waits 0
    (fun wait member => Int.not_lt.mp fun more => none ⟨wait, member, more⟩) (le_refl 0)
  exact absurd positive (Int.not_lt.mpr few)

/-- **A step of its admission reads what the rows say**, those of a first log when its scopes count
the same in both. -/
theorem Call.Faithful.act {rows : List AuditRow} (faithful : call.Faithful rows)
    (same : ∀ read ∈ call.reads, SameHours rows fleet.rows call.organizationId read.1)
    (acted : Acted limits fleet index call next) : next.Faithful rows := by
  cases acted with
  | opened queued free =>
    refine ⟨fun scope now count member => ?_, fun scope now wait member => ?_,
      fun wait same => (by cases same), fun wait same => by cases same⟩
    · obtain ⟨_, _, same⟩ := List.mem_map.mp member
      cases same
    · obtain ⟨_, _, same⟩ := List.mem_map.mp member
      cases same
  | read reading position scope former later here progress =>
    refine ⟨fun other now count member => ?_, fun other now wait member => ?_,
      fun wait isRefused => ?_, fun wait isRefused => ?_⟩
    · rcases mem_setRead here member with old | ⟨eq, old⟩
      · exact faithful.counted other now count old
      · cases progress with
        | full now reached =>
          cases eq
          exact ⟨(same _ old).countRows now, reached⟩
        | look => cases eq
        | clear now below => cases eq
        | find now count => cases eq
    · rcases mem_setRead here member with old | ⟨eq, old⟩
      · exact faithful.settled other now wait old
      · cases progress with
        | clear now below =>
          cases eq
          rw [(same _ old).countRows now] at below
          exact (if_pos below).symm
        | find now count =>
          cases eq
          obtain ⟨rfl, reached⟩ := faithful.counted _ _ _ old
          rw [(same _ old).findBlocking]
          exact (if_neg (Nat.not_lt.mpr reached)).symm
        | look => cases eq
        | full now reached => cases eq
    · rw [Call.setRead, reading] at isRefused
      cases isRefused
    · rw [Call.setRead, reading] at isRefused
      cases isRefused
  | refused reading wait all longest positive =>
    refine ⟨faithful.counted, faithful.settled, fun other same read member => ?_,
      fun other same => ?_⟩
    swap
    · rw [← longest] at positive
      obtain ⟨found, among, more⟩ := exists_of_longestWait_pos positive
      obtain ⟨read, member, known⟩ := List.mem_filterMap.mp among
      exact ⟨read, member, found, known, more⟩
    cases same
    obtain ⟨found, known, among⟩ := all_settled all read member
    have most := le_longestWait among
    rw [longest] at most
    cases settled : read.2 with
    | settled now wait' =>
      rw [settled] at known
      cases known
      exact ⟨now, _, rfl, most.trans (le_max_right 1 wait)⟩
    | waiting =>
      rw [settled] at known
      cases known
    | looking now =>
      rw [settled] at known
      cases known
    | counted now count =>
      rw [settled] at known
      cases known
  | cleared reading all none =>
    exact ⟨faithful.counted, faithful.settled, fun wait same => (by cases same),
      fun wait same => by cases same⟩
  | wrote writing empty occurredAt after before =>
    exact ⟨faithful.counted, faithful.settled, faithful.refused, faithful.blocked⟩
  | failed open_ =>
    exact ⟨faithful.counted, faithful.settled, fun wait same => (by cases same),
      fun wait same => by cases same⟩
  | finished admitted =>
    exact ⟨faithful.counted, faithful.settled, fun wait same => (by cases same),
      fun wait same => by cases same⟩

/-- Rows are only ever added to the log, calls to the queues, and time to the clock. -/
structure Grows (fleet after : Fleet instances) : Prop where
  rows : fleet.rows <+: after.rows
  calls : fleet.calls.length ≤ after.calls.length
  clock : fleet.clock ≤ after.clock

theorem Grows.step {after : Fleet instances} {event : FleetEvent instances}
    (taken : fleetStep limits fleet event = some after) : Grows fleet after := by
  cases event with
  | tick elapsed =>
    cases taken
    exact ⟨List.prefix_refl _, le_refl _, Int.le_add_of_nonneg_right (Int.natCast_nonneg _)⟩
  | journal row =>
    rw [fleetStep] at taken
    split at taken
    · cases taken
      exact ⟨List.prefix_append _ _, le_refl _, le_refl _⟩
    · cases taken
  | acquire home organizationId userId purpose =>
    cases taken
    rw [Fleet.acquire]
    split <;> exact ⟨List.prefix_refl _, by simp, le_refl _⟩
  | act index act =>
    obtain ⟨call, found, continued⟩ := Option.bind_eq_some_iff.mp taken
    obtain ⟨next, acts, same⟩ := Option.bind_eq_some_iff.mp continued
    cases same
    exact ⟨List.prefix_refl _, by simp, le_refl _⟩
  | commit index answered =>
    rw [fleetStep] at taken
    split at taken
    · cases taken
    split at taken
    · cases taken
      exact ⟨List.prefix_append _ _, by simp, le_refl _⟩
    · cases taken
  | release index =>
    obtain ⟨call, found, continued⟩ := Option.bind_eq_some_iff.mp taken
    split at continued
    · cases continued
      rw [Fleet.release]
      split
      · exact ⟨List.prefix_refl _, le_refl _, le_refl _⟩
      · exact ⟨List.prefix_refl _, by simp, le_refl _⟩
    · cases continued

theorem Grows.run {after : Fleet instances} {schedule : List (FleetEvent instances)}
    (reached : run (fleetStep limits) fleet schedule = some after) : Grows fleet after := by
  have single : ∀ (fleet : Fleet instances) (event : FleetEvent instances)
      (after : Fleet instances),
      fleetStep limits fleet event = some after → Grows fleet after :=
    fun _ _ _ taken => Grows.step taken
  refine run_relates (fun fleet => ?_) (fun first second third early late => ?_) single reached
  · exact ⟨List.prefix_refl _, le_refl _, le_refl _⟩
  · exact ⟨early.rows.trans late.rows, early.calls.trans late.calls, early.clock.trans late.clock⟩

/-- The calls that had not begun at a first state have read what its rows say, as long as none that
their scopes count is added. -/
def FaithfulSince (limits : AiLimits) (first fleet : Fleet instances) : Prop :=
  first.rows <+: fleet.rows ∧ ∀ (index : ℕ) (call : Call instances),
    fleet.calls[index]? = some call →
    (∀ former, first.calls[index]? = some former → former.phase.begun = false) →
    (∀ scope ∈ scopesOf limits call.purpose.quota call.userId,
      Quiet first.rows fleet.rows call.organizationId scope) →
      call.Faithful first.rows

/-- A step that replaces one call at most by one that is faithful. -/
theorem FaithfulSince.set {first after : Fleet instances}
    (since : FaithfulSince limits first fleet) (rows : fleet.rows <+: after.rows)
    (calls : after.calls = fleet.calls.set index next) (found : fleet.calls[index]? = some call)
    (faithful : (∀ scope ∈ scopesOf limits next.purpose.quota next.userId,
        Quiet first.rows fleet.rows next.organizationId scope) →
      (((∀ scope ∈ scopesOf limits call.purpose.quota call.userId,
        Quiet first.rows fleet.rows call.organizationId scope) → call.Faithful first.rows) →
      next.Faithful first.rows)) :
    FaithfulSince limits first after := by
  refine ⟨since.1.trans rows, fun i other known new quiet => ?_⟩
  have before : ∀ scope ∈ scopesOf limits other.purpose.quota other.userId,
      Quiet first.rows fleet.rows other.organizationId scope :=
    fun scope member => (quiet scope member).shorter rows
  rw [calls] at known
  rcases getElem?_replaced known with ⟨rfl, rfl⟩ | ⟨_, old⟩
  · exact faithful before (since.2 i call found new)
  · exact since.2 i other old new before

/-- A call that joins has read nothing. -/
theorem FaithfulSince.append {first after : Fleet instances}
    (since : FaithfulSince limits first fleet) (rows : after.rows = fleet.rows)
    (calls : after.calls = fleet.calls ++ [call]) (unread : call.reads = [])
    (notRefused : ∀ wait, call.phase ≠ .refused wait) : FaithfulSince limits first after := by
  refine ⟨rows ▸ since.1, fun i other known new quiet => ?_⟩
  rw [rows] at quiet
  rw [calls] at known
  rcases Nat.lt_or_ge i fleet.calls.length with inside | outside
  · rw [List.getElem?_append_left inside] at known
    exact since.2 i other known new quiet
  · rw [List.getElem?_append_right outside, List.getElem?_singleton] at known
    split at known
    · cases known
      exact .of_unread unread notRefused
    · cases known

/-- A call that reads a scope has begun. -/
theorem CallSound.begun_of_mem {clock : ℤ} (sound : CallSound limits clock call)
    {read : Scope × Reading} (member : read ∈ call.reads) : call.phase.begun = true := by
  by_contra not
  rw [sound.unread (Bool.eq_false_iff.mpr not)] at member
  cases member

/-- The scopes that a call reads are those of its kind. -/
theorem CallSound.mem_scopesOf {clock : ℤ} (sound : CallSound limits clock call)
    {read : Scope × Reading} (member : read ∈ call.reads) :
    read.1 ∈ scopesOf limits call.purpose.quota call.userId := by
  rw [← sound.scopes (sound.begun_of_mem member)]
  exact List.mem_map.mpr ⟨read, member, rfl⟩

/-- A step of its admission keeps whose call it is, and what for. -/
theorem Acted.same (acted : Acted limits fleet index call next) :
    next.organizationId = call.organizationId ∧ next.userId = call.userId ∧
      next.purpose = call.purpose := by
  cases acted <;> exact ⟨rfl, rfl, rfl⟩

theorem FaithfulSince.step {first after : Fleet instances} {event : FleetEvent instances}
    (sound : FleetSound limits fleet) (since : FaithfulSince limits first fleet)
    (taken : fleetStep limits fleet event = some after) : FaithfulSince limits first after := by
  cases event with
  | tick elapsed =>
    cases taken
    exact since
  | journal row =>
    rw [fleetStep] at taken
    split at taken
    · cases taken
      refine ⟨since.1.trans (List.prefix_append _ _), fun i other known new quiet => ?_⟩
      exact since.2 i other known new fun scope member =>
        (quiet scope member).shorter (List.prefix_append _ _)
    · cases taken
  | acquire home organizationId userId purpose =>
    cases taken
    rw [Fleet.acquire]
    split
    · exact since.append rfl rfl rfl fun wait same => by cases same
    · exact since.append rfl rfl rfl fun wait same => by cases same
  | act index act =>
    obtain ⟨call, found, continued⟩ := Option.bind_eq_some_iff.mp taken
    obtain ⟨next, acts, same⟩ := Option.bind_eq_some_iff.mp continued
    cases same
    have acted := acted_of_act acts
    obtain ⟨organization, user, purpose⟩ := acted.same
    have own := sound.calls call (List.mem_of_getElem? found)
    refine since.set (List.prefix_refl _) rfl found fun quiet faithful => ?_
    rw [organization, user, purpose] at quiet
    exact (faithful quiet).act
      (fun read member => (quiet _ (own.mem_scopesOf member)).sameHours since.1) acted
  | commit index answered =>
    rw [fleetStep] at taken
    split at taken
    · cases taken
    rename_i call found
    split at taken
    · cases taken
      refine since.set (List.prefix_append _ _) rfl found fun quiet faithful => ?_
      have former := faithful quiet
      refine ⟨former.counted, former.settled, fun wait isRefused => ?_, fun wait isRefused => ?_⟩
      · cases answered <;> cases isRefused
      · cases answered <;> cases isRefused
    · cases taken
  | release index =>
    obtain ⟨call, found, continued⟩ := Option.bind_eq_some_iff.mp taken
    split at continued
    · cases continued
      rw [Fleet.release]
      split
      · exact since
      · refine since.set (List.prefix_refl _) rfl found fun quiet faithful => ?_
        have former := faithful quiet
        exact ⟨former.counted, former.settled, former.refused, former.blocked⟩
    · cases continued

theorem FaithfulSince.of_run {after : Fleet instances} {schedule : List (FleetEvent instances)}
    (sound : FleetSound limits fleet)
    (reached : run (fleetStep limits) fleet schedule = some after) :
    FaithfulSince limits fleet after := by
  have preserved : ∀ (before : Fleet instances) (event : FleetEvent instances)
      (next : Fleet instances), FleetSound limits before ∧ FaithfulSince limits fleet before →
        fleetStep limits before event = some next →
          FleetSound limits next ∧ FaithfulSince limits fleet next :=
    fun _ _ _ both taken => ⟨both.1.step taken, both.2.step both.1 taken⟩
  refine (run_invariant preserved ⟨sound, List.prefix_refl _, ?_⟩ reached).2
  intro index call found new _
  have begun := new call found
  refine .of_unread ((sound.calls call (List.mem_of_getElem? found)).unread begun) ?_
  intro wait same
  rw [same] at begun
  cases begun

/-! ## The retry -/

theorem Reading.settled_of_wait {reading : Reading} {wait : ℤ} (known : reading.wait = some wait) :
    ∃ now, reading = .settled now wait := by
  cases reading with
  | settled now wait =>
    cases known
    exact ⟨now, rfl⟩
  | waiting => cases known
  | looking now => cases known
  | counted now count => cases known

/-- **A scope is open after the announced wait**, as long as no row that it counts was added. -/
theorem open_after_wait {first refusal : Fleet instances} {during : List (FleetEvent instances)}
    {refused : Call instances} {i : ℕ} {wait later : ℤ} (sound : FleetSound limits first)
    (notBegun : ∀ former, first.calls[i]? = some former → former.phase.begun = false)
    (answered : run (fleetStep limits) first during = some refusal)
    (foundRefused : refusal.calls[i]? = some refused) (isRefused : refused.phase = .refused wait)
    (quiet : ∀ scope ∈ scopesOf limits refused.purpose.quota refused.userId,
      Quiet first.rows refusal.rows refused.organizationId scope)
    (waited : refusal.clock + wait * 1000 ≤ later) {scope : Scope}
    (among : scope ∈ scopesOf limits refused.purpose.quota refused.userId) :
    waitFor scope refused.organizationId later first.rows = 0 := by
  have soundRefusal := sound.run answered
  have faithful : refused.Faithful first.rows :=
    (FaithfulSince.of_run sound answered).2 i refused foundRefused notBegun quiet
  have own := soundRefusal.calls refused (List.mem_of_getElem? foundRefused)
  have read := among
  rw [← own.scopes (by rw [isRefused]; rfl)] at read
  obtain ⟨read, member, same⟩ := List.mem_map.mp read
  obtain ⟨earlier, announced, settled, most⟩ := faithful.refused wait isRefused read member
  obtain rfl : read = (scope, .settled earlier announced) := Prod.ext same settled
  have atOnce := faithful.settled scope earlier announced member
  have nonneg := own.waits _ member announced rfl
  refine waitFor_later (limit_pos among) (fun row known => ?_)
    (own.times _ member earlier rfl).2 (atOnce ▸ most) (nonneg.trans most) waited
  exact soundRefusal.dated row ((Grows.run answered).rows.subset known)

/-- **A call that begins after the announced wait** finds its scopes open, and is not refused, as
long as no row that they count was added to the log. -/
theorem retry_open {first refusal later : Fleet instances}
    {during after : List (FleetEvent instances)} {refused retry : Call instances}
    {i j : ℕ} {wait : ℤ} (sound : FleetSound limits first)
    (notBegun : ∀ former, first.calls[i]? = some former → former.phase.begun = false)
    (answered : run (fleetStep limits) first during = some refusal)
    (foundRefused : refusal.calls[i]? = some refused) (isRefused : refused.phase = .refused wait)
    (continued : run (fleetStep limits) refusal after = some later)
    (joined : refusal.calls.length ≤ j) (foundRetry : later.calls[j]? = some retry)
    (organization : retry.organizationId = refused.organizationId)
    (user : retry.userId = refused.userId)
    (kind : retry.purpose.quota = refused.purpose.quota)
    (waited : refusal.clock + wait * 1000 ≤ retry.begunAt)
    (quiet : ∀ scope ∈ scopesOf limits refused.purpose.quota refused.userId,
      Quiet first.rows later.rows refused.organizationId scope) :
    (∀ read ∈ retry.reads, ∀ found, read.2.wait = some found → found = 0) ∧
      ∀ other, retry.phase ≠ .refused other := by
  have growsRefusal := Grows.run continued
  have soundLater := (sound.run answered).run continued
  have whole : run (fleetStep limits) first (during ++ after) = some later := by
    rw [run_append, answered]
    exact continued
  have faithful : retry.Faithful first.rows := by
    refine (FaithfulSince.of_run sound whole).2 j retry foundRetry ?_ ?_
    · intro former known
      have inside := (List.getElem?_eq_some_iff.mp known).1
      have fewer := (Grows.run answered).calls
      omega
    · rw [organization, user, kind]
      exact quiet
  have own := soundLater.calls retry (List.mem_of_getElem? foundRetry)
  have zero : ∀ read ∈ retry.reads, ∀ found, read.2.wait = some found → found = 0 := by
    rintro ⟨scope, reading⟩ member found known
    obtain ⟨now, rfl⟩ := Reading.settled_of_wait known
    have among := own.mem_scopesOf member
    rw [user, kind] at among
    rw [faithful.settled scope now found member, organization]
    exact open_after_wait sound notBegun answered foundRefused isRefused
      (fun scope known => (quiet scope known).shorter growsRefusal.rows)
      (waited.trans (own.times _ member now rfl).1) among
  refine ⟨zero, fun other isOther => ?_⟩
  obtain ⟨read, member, found, known, positive⟩ := faithful.blocked other isOther
  exact absurd (zero read member found known) (ne_of_gt positive)

/-- **After the announced wait, a retry is accepted** as long as no row was added to the log: a call
of the same user and kind that begins so many seconds after the refusal finds no limit reached. -/
theorem accepted_after_wait {clock : ℤ} {first refusal later : Fleet instances}
    {before during after : List (FleetEvent instances)} {refused retry : Call instances}
    {i j : ℕ} {wait : ℤ}
    (start : run (fleetStep limits) (Fleet.start instances clock) before = some first)
    (notBegun : ∀ former, first.calls[i]? = some former → former.phase.begun = false)
    (answered : run (fleetStep limits) first during = some refusal)
    (foundRefused : refusal.calls[i]? = some refused) (isRefused : refused.phase = .refused wait)
    (continued : run (fleetStep limits) refusal after = some later)
    (joined : refusal.calls.length ≤ j) (foundRetry : later.calls[j]? = some retry)
    (organization : retry.organizationId = refused.organizationId)
    (user : retry.userId = refused.userId)
    (kind : retry.purpose.quota = refused.purpose.quota)
    (waited : refusal.clock + wait * 1000 ≤ retry.begunAt)
    (unchanged : later.rows.length = first.rows.length) :
    (∀ read ∈ retry.reads, ∀ found, read.2.wait = some found → found = 0) ∧
      ∀ other, retry.phase ≠ .refused other := by
  have same : later.rows = first.rows :=
    (((Grows.run answered).rows.trans (Grows.run continued).rows).eq_of_length unchanged.symm).symm
  exact retry_open ((FleetSound.start clock).run start) notBegun answered foundRefused isRefused
    continued joined foundRetry organization user kind waited fun _ _ => .of_same same

/-- The only call of the hour. -/
def oneVerified : List (FleetEvent 1) :=
  [.acquire 0 7 1 .credentialVerify, .act 0 .open, .act 0 (.look 0), .act 0 (.count 0),
    .act 0 .decide, .act 0 (.write 0), .commit 0 true]

/-- The next call is refused, two seconds later. -/
def nextRefused : List (FleetEvent 1) :=
  [.tick 2000, .acquire 0 7 2 .credentialVerify, .act 1 .open, .act 1 (.look 0),
    .act 1 (.count 0), .act 1 (.find 0), .act 1 .decide]

/-- It is made again when the hour has passed. -/
def madeAgain : List (FleetEvent 1) :=
  [.release 1, .tick 3598000, .acquire 0 7 2 .credentialVerify, .act 2 .open, .act 2 (.look 0),
    .act 2 (.count 0), .act 2 .decide]

/-- The second call of an hour is refused for 3598 seconds, and accepted then. -/
theorem accepted_after_3598_seconds : ∃ first refusal later : Fleet 1, ∃ refused retry,
    run (fleetStep oneCall) (Fleet.start 1 0) oneVerified = some first ∧
      run (fleetStep oneCall) first nextRefused = some refusal ∧
      refusal.calls[1]? = some refused ∧ refused.phase = .refused 3598 ∧
      run (fleetStep oneCall) refusal madeAgain = some later ∧ later.calls[2]? = some retry ∧
      retry.phase = .writing ∧ ∀ other, retry.phase ≠ .refused other :=
  ⟨_, _, _, _, _, rfl, rfl, rfl, rfl, rfl, rfl, rfl,
    (@accepted_after_wait 1 oneCall 0 _ _ _ oneVerified nextRefused madeAgain _ _ 1 2 3598 rfl
      (fun _ found => by cases found) rfl rfl rfl rfl (by decide) rfl rfl rfl rfl (by decide)
      rfl).2⟩

end Koklo.Ai
