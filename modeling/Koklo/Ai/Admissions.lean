import Koklo.Ai.CallQuota

/-!
# Admissions of calls

What a step of its admission makes of a call (`Acted`), and what the parts of a call say of each
other (`CallSound`): which scopes it reads, when they have looked at the clock, and that its row is
written only when none of them has found its limit reached. An instance admits the calls of an
organization one at a time, in the order in which they took their places (`Serial`).
-/

set_option autoImplicit false

namespace Koklo.Ai

open Koklo.Foundations

variable {instances : ℕ} {limits : AiLimits} {fleet : Fleet instances} {call next : Call instances}
  {index : ℕ}

/-! ## What a step does to a call -/

/-- How a scope goes on reading. -/
inductive Progress (fleet : Fleet instances) (organizationId : ℕ) (scope : Scope) :
    Reading → Reading → Prop
  | look : Progress fleet organizationId scope .waiting (.looking fleet.clock)
  | clear (now : ℤ) (below : countRows scope organizationId now fleet.rows < scope.limit) :
      Progress fleet organizationId scope (.looking now) (.settled now 0)
  | full (now : ℤ) (reached : scope.limit ≤ countRows scope organizationId now fleet.rows) :
      Progress fleet organizationId scope (.looking now)
        (.counted now (countRows scope organizationId now fleet.rows))
  | find (now : ℤ) (count : ℕ) :
      Progress fleet organizationId scope (.counted now count)
        (.settled now (secondsUntil now
          (findBlocking scope organizationId now (count - scope.limit) fleet.rows)))

/-- What a step of its admission makes of a call. -/
inductive Acted (limits : AiLimits) (fleet : Fleet instances) (index : ℕ)
    (call : Call instances) : Call instances → Prop
  | opened (queued : call.phase = .queued) (free : isNext (fleet.calls.take index) call = true) :
      Acted limits fleet index call { call with
        phase := .reading
        begunAt := fleet.clock
        reads := (scopesOf limits call.purpose.quota call.userId).map fun scope =>
          (scope, .waiting) }
  | read (reading : call.phase = .reading) (position : ℕ) (scope : Scope) (former later : Reading)
      (here : call.reads[position]? = some (scope, former))
      (progress : Progress fleet call.organizationId scope former later) :
      Acted limits fleet index call (call.setRead position scope later)
  | refused (reading : call.phase = .reading) (wait : ℤ)
      (all : (call.reads.filterMap fun read => read.2.wait).length = call.reads.length)
      (longest : longestWait (call.reads.filterMap fun read => read.2.wait) = wait)
      (positive : 0 < wait) :
      Acted limits fleet index call { call with phase := .refused (max 1 wait) }
  | cleared (reading : call.phase = .reading)
      (all : (call.reads.filterMap fun read => read.2.wait).length = call.reads.length)
      (none : longestWait (call.reads.filterMap fun read => read.2.wait) ≤ 0) :
      Acted limits fleet index call { call with phase := .writing }
  | wrote (writing : call.phase = .writing) (empty : call.row = none) (occurredAt : ℤ)
      (after : call.begunAt ≤ occurredAt) (before : occurredAt ≤ fleet.clock) :
      Acted limits fleet index call { call with row := some (call.auditRow occurredAt) }
  | failed (open_ : call.phase = .reading ∨ call.phase = .writing) :
      Acted limits fleet index call { call with phase := .failed, row := none }
  | finished (admitted : call.phase = .admitted) :
      Acted limits fleet index call { call with phase := .finished }

theorem acted_of_act {act : Act} (taken : call.act limits fleet index act = some next) :
    Acted limits fleet index call next := by
  cases act with
  | «open» =>
    rw [Call.act] at taken
    split at taken
    · rename_i may
      cases taken
      exact .opened may.1 may.2
    · cases taken
  | look position =>
    rw [Call.act] at taken
    split at taken
    · rename_i reading here
      cases taken
      exact .read reading position _ _ _ here .look
    · cases taken
  | count position =>
    rw [Call.act] at taken
    split at taken
    · rename_i reading here
      split at taken
      · rename_i below
        cases taken
        exact .read reading position _ _ _ here (.clear _ below)
      · rename_i reached
        cases taken
        exact .read reading position _ _ _ here (.full _ (Nat.le_of_not_lt reached))
    · cases taken
  | find position =>
    rw [Call.act] at taken
    split at taken
    · rename_i reading here
      cases taken
      exact .read reading position _ _ _ here (.find _ _)
    · cases taken
  | decide =>
    simp only [Call.act] at taken
    split at taken
    · rename_i may
      cases taken
      split
      · rename_i positive
        exact .refused may.1 _ may.2 rfl positive
      · rename_i zero
        exact .cleared may.1 may.2 (Int.not_lt.mp zero)
    · cases taken
  | write occurredAt =>
    rw [Call.act] at taken
    split at taken
    · rename_i may
      cases taken
      exact .wrote may.1 may.2.1 occurredAt may.2.2.1 may.2.2.2
    · cases taken
  | fail =>
    rw [Call.act] at taken
    split at taken
    · rename_i may
      cases taken
      exact .failed may
    · cases taken
  | finish =>
    rw [Call.act] at taken
    split at taken
    · rename_i may
      cases taken
      exact .finished may
    · cases taken

/-! ## One call -/

/-- The scope has found that its limit is not reached. -/
def Reading.clear (reading : Reading) : Prop := ∃ now, reading = .settled now 0

/-- What the parts of a call say of each other at an instant of the clock. -/
structure CallSound (limits : AiLimits) (clock : ℤ) (call : Call instances) : Prop where
  unread : call.phase.begun = false → call.reads = []
  scopes : call.phase.begun = true →
    call.reads.map Prod.fst = scopesOf limits call.purpose.quota call.userId
  begun : call.begunAt ≤ clock
  times : ∀ read ∈ call.reads, ∀ now, read.2.now = some now → call.begunAt ≤ now ∧ now ≤ clock
  waits : ∀ read ∈ call.reads, ∀ wait, read.2.wait = some wait → 0 ≤ wait
  clear : call.phase = .writing ∨ call.phase.committed = true →
    ∀ read ∈ call.reads, read.2.clear
  dated : ∀ row, call.row = some row → ∃ occurredAt, row = call.auditRow occurredAt ∧
    call.begunAt ≤ occurredAt ∧ occurredAt ≤ clock
  written : ∀ row, call.row = some row → call.phase = .writing ∨ call.phase.committed = true
  committed : call.phase.committed = true → ∃ row, call.row = some row

/-- A wait is at least a second. -/
theorem one_le_secondsUntil (now : ℤ) (blocking : Option ℤ) : 1 ≤ secondsUntil now blocking :=
  le_min (by decide) (le_max_left _ _)

theorem Progress.instant {organizationId : ℕ} {scope : Scope} {former later : Reading}
    (progress : Progress fleet organizationId scope former later) {now : ℤ}
    (instant : later.now = some now) : former.now = some now ∨ now = fleet.clock := by
  cases progress with
  | look => exact .inr (Option.some.inj instant).symm
  | clear => exact .inl instant
  | full => exact .inl instant
  | find => exact .inl instant

theorem Progress.wait_nonneg {organizationId : ℕ} {scope : Scope} {former later : Reading}
    (progress : Progress fleet organizationId scope former later) {wait : ℤ}
    (known : later.wait = some wait) : 0 ≤ wait := by
  cases progress with
  | look => cases known
  | clear now below =>
    cases known
    exact le_refl 0
  | full => cases known
  | find now count =>
    cases known
    have positive := one_le_secondsUntil now
      (findBlocking scope organizationId now (count - scope.limit) fleet.rows)
    omega

/-- What is among the scopes of a call of which one goes on reading. -/
theorem mem_setRead {position : ℕ} {scope : Scope} {former later : Reading}
    (here : call.reads[position]? = some (scope, former)) {read : Scope × Reading}
    (member : read ∈ (call.setRead position scope later).reads) :
    read ∈ call.reads ∨ read = (scope, later) ∧ (scope, former) ∈ call.reads :=
  (List.mem_or_eq_of_mem_set member).imp_right fun same => ⟨same, List.mem_of_getElem? here⟩

theorem map_fst_setRead {position : ℕ} {scope : Scope} {former later : Reading}
    (here : call.reads[position]? = some (scope, former)) :
    (call.setRead position scope later).reads.map Prod.fst = call.reads.map Prod.fst := by
  obtain ⟨after, before⟩ := set_eq_around here (scope, later)
  rw [Call.setRead, after]
  conv_rhs => rw [before]
  simp only [List.map_append, List.map_cons]

/-- The scopes of which all the waits are known are all settled. -/
theorem all_settled {reads : List (Scope × Reading)}
    (all : (reads.filterMap fun read => read.2.wait).length = reads.length) :
    ∀ read ∈ reads, ∃ wait, read.2.wait = some wait ∧
      wait ∈ reads.filterMap fun read => read.2.wait := by
  intro read member
  cases known : read.2.wait with
  | some wait => exact ⟨wait, rfl, List.mem_filterMap.mpr ⟨read, member, known⟩⟩
  | none =>
    exfalso
    rw [List.length_filterMap_eq_countP] at all
    have settled := List.countP_eq_length.mp all read member
    rw [known] at settled
    cases settled

/-- No wait is longer than the longest. -/
theorem le_longestWait {waits : List ℤ} {wait : ℤ} (member : wait ∈ waits) :
    wait ≤ longestWait waits := by
  have grows : ∀ (waits : List ℤ) (start : ℤ), start ≤ waits.foldl max start := by
    intro waits
    induction waits with
    | nil => exact fun start => le_refl start
    | cons first rest ih => exact fun start => (le_max_left start first).trans (ih _)
  have within : ∀ (waits : List ℤ) (start : ℤ), wait ∈ waits → wait ≤ waits.foldl max start := by
    intro waits
    induction waits with
    | nil => exact fun start member => absurd member List.not_mem_nil
    | cons first rest ih =>
      intro start member
      rcases List.mem_cons.mp member with rfl | later
      · exact (le_max_right start wait).trans (grows rest _)
      · exact ih _ later
  exact within waits 0 member

theorem Reading.clear_of_wait {reading : Reading} (known : reading.wait = some 0) :
    reading.clear := by
  cases reading with
  | settled now wait =>
    cases known
    exact ⟨now, rfl⟩
  | waiting => cases known
  | looking now => cases known
  | counted now count => cases known

/-- **A step of its admission keeps a call sound.** -/
theorem CallSound.act (sound : CallSound limits fleet.clock call)
    (acted : Acted limits fleet index call next) : CallSound limits fleet.clock next := by
  cases acted with
  | opened queued free =>
    have bare : ∀ row, call.row ≠ some row := by
      intro row found
      rcases sound.written row found with writing | committed
      · rw [queued] at writing
        cases writing
      · rw [queued] at committed
        cases committed
    refine ⟨fun not => (by cases not), fun _ => ?_, le_refl _, ?_, ?_, ?_, ?_, ?_, ?_⟩
    · rw [List.map_map]
      exact List.map_id _
    · intro read member now known
      obtain ⟨scope, _, rfl⟩ := List.mem_map.mp member
      cases known
    · intro read member wait known
      obtain ⟨scope, _, rfl⟩ := List.mem_map.mp member
      cases known
    · rintro (writing | committed)
      · cases writing
      · cases committed
    · exact fun row found => absurd found (bare row)
    · exact fun row found => absurd found (bare row)
    · exact fun committed => by cases committed
  | read reading position scope former later here progress =>
    refine ⟨fun not => ?_, fun started => (map_fst_setRead here).trans (sound.scopes started),
      sound.begun, ?_, ?_, ?_, sound.dated, sound.written, sound.committed⟩
    · rw [Call.setRead, reading] at not
      cases not
    · intro read member now known
      rcases mem_setRead here member with old | ⟨rfl, old⟩
      · exact sound.times read old now known
      · rcases progress.instant known with before | rfl
        · exact sound.times _ old now before
        · exact ⟨sound.begun, le_refl _⟩
    · intro read member wait known
      rcases mem_setRead here member with old | ⟨rfl, old⟩
      · exact sound.waits read old wait known
      · exact progress.wait_nonneg known
    · intro ready
      rw [Call.setRead, reading] at ready
      rcases ready with writing | committed
      · cases writing
      · cases committed
  | refused reading wait all longest positive =>
    refine ⟨fun not => (by cases not), fun _ => sound.scopes (by rw [reading]; rfl), sound.begun,
      sound.times, sound.waits, ?_, sound.dated, ?_, fun committed => (by cases committed)⟩
    · rintro (writing | committed)
      · cases writing
      · cases committed
    · intro row found
      rcases sound.written row found with writing | committed
      · rw [reading] at writing
        cases writing
      · rw [reading] at committed
        cases committed
  | cleared reading all none =>
    refine ⟨fun not => (by cases not), fun _ => sound.scopes (by rw [reading]; rfl), sound.begun,
      sound.times, sound.waits, fun _ read member => ?_, sound.dated, fun row _ => .inl rfl,
      fun committed => (by cases committed)⟩
    obtain ⟨wait, known, among⟩ := all_settled all read member
    have least := sound.waits read member wait known
    have most := (le_longestWait among).trans none
    have zero : wait = 0 := le_antisymm most least
    rw [zero] at known
    exact Reading.clear_of_wait known
  | wrote writing empty occurredAt after before =>
    refine ⟨sound.unread, sound.scopes, sound.begun, sound.times, sound.waits, sound.clear, ?_,
      fun row _ => .inl writing, fun committed => ⟨_, rfl⟩⟩
    intro row found
    cases found
    exact ⟨occurredAt, rfl, after, before⟩
  | failed open_ =>
    refine ⟨fun not => (by cases not), fun _ => sound.scopes ?_, sound.begun, sound.times,
      sound.waits, ?_, fun row found => (by cases found), fun row found => (by cases found),
      fun committed => (by cases committed)⟩
    · rcases open_ with reading | writing
      · rw [reading]
        rfl
      · rw [writing]
        rfl
    · rintro (writing | committed)
      · cases writing
      · cases committed
  | finished admitted =>
    refine ⟨fun not => (by cases not), fun _ => sound.scopes (by rw [admitted]; rfl), sound.begun,
      sound.times, sound.waits, fun _ => sound.clear (.inr (by rw [admitted]; rfl)), sound.dated,
      fun row _ => .inr rfl, fun _ => sound.committed (by rw [admitted]; rfl)⟩

/-- A call that is sound is sound later. -/
theorem CallSound.later {clock later : ℤ} (sound : CallSound limits clock call)
    (after : clock ≤ later) : CallSound limits later call where
  unread := sound.unread
  scopes := sound.scopes
  begun := sound.begun.trans after
  times := fun read member now known =>
    ⟨(sound.times read member now known).1, (sound.times read member now known).2.trans after⟩
  waits := sound.waits
  clear := sound.clear
  dated := fun row found =>
    let ⟨occurredAt, same, least, most⟩ := sound.dated row found
    ⟨occurredAt, same, least, most.trans after⟩
  written := sound.written
  committed := sound.committed

/-! ## One admission at a time -/

/-- Of two calls of an organization in one instance, the second has not begun before the admission
of the first was over. -/
def Serial (calls : List (Call instances)) : Prop :=
  ∀ (i j : ℕ) (first second : Call instances), i < j → calls[i]? = some first →
    calls[j]? = some second → first.home = second.home →
    first.organizationId = second.organizationId → second.phase.begun = true →
      first.phase.past = true ∧
        ∀ read ∈ first.reads, ∀ now, read.2.now = some now → now ≤ second.begunAt

/-- A call that begins no earlier, and that keeps what it has read once its admission is over. -/
structure Follows (call next : Call instances) : Prop where
  home : next.home = call.home
  organization : next.organizationId = call.organizationId
  past : call.phase.past = true → next.phase.past = true ∧ next.reads = call.reads
  begun : next.phase.begun = true → call.phase.begun = true ∧ next.begunAt = call.begunAt

/-- The calls stay in their order when one of them goes on. -/
theorem Serial.set_follows {calls : List (Call instances)} (serial : Serial calls)
    (found : calls[index]? = some call) (follows : Follows call next) :
    Serial (calls.set index next) := by
  intro i j first second less foundFirst foundSecond home organization begun
  rcases getElem?_replaced foundFirst with ⟨rfl, rfl⟩ | ⟨apartFirst, oldFirst⟩
  · rcases getElem?_replaced foundSecond with ⟨rfl, rfl⟩ | ⟨_, oldSecond⟩
    · exact absurd less (Nat.lt_irrefl _)
    · obtain ⟨past, times⟩ := serial i j call second less found oldSecond
        (follows.home.symm.trans home) (follows.organization.symm.trans organization) begun
      obtain ⟨stays, same⟩ := follows.past past
      rw [same]
      exact ⟨stays, times⟩
  · rcases getElem?_replaced foundSecond with ⟨rfl, rfl⟩ | ⟨_, oldSecond⟩
    · obtain ⟨started, same⟩ := follows.begun begun
      rw [same]
      exact serial i j first call less oldFirst found (home.trans follows.home)
        (organization.trans follows.organization) started
    · exact serial i j first second less oldFirst oldSecond home organization begun

/-- The calls stay in their order when the next one begins. -/
theorem Serial.set_opened {calls : List (Call instances)} {clock : ℤ} (serial : Serial calls)
    (sound : ∀ call ∈ calls, CallSound limits clock call) (found : calls[index]? = some call)
    (queued : call.phase = .queued) (free : isNext (calls.take index) call = true)
    (reads : List (Scope × Reading)) :
    Serial (calls.set index { call with phase := .reading, begunAt := clock, reads := reads }) := by
  intro i j first second less foundFirst foundSecond home organization begun
  rcases getElem?_replaced foundFirst with ⟨rfl, rfl⟩ | ⟨apartFirst, oldFirst⟩
  · rcases getElem?_replaced foundSecond with ⟨rfl, rfl⟩ | ⟨_, oldSecond⟩
    · exact absurd less (Nat.lt_irrefl _)
    · obtain ⟨past, _⟩ := serial i j call second less found oldSecond home organization begun
      rw [queued] at past
      cases past
  · rcases getElem?_replaced foundSecond with ⟨rfl, rfl⟩ | ⟨_, oldSecond⟩
    · have before : first ∈ calls.take j :=
        List.mem_of_getElem? ((List.getElem?_take_of_lt less).trans oldFirst)
      have passed := List.all_eq_true.mp free first before
      have past : first.phase.past = true := by
        simpa [home, organization] using passed
      exact ⟨past, fun read member now known =>
        ((sound first (List.mem_of_getElem? oldFirst)).times read member now known).2⟩
    · exact serial i j first second less oldFirst oldSecond home organization begun

/-- A call that joins has not begun. -/
theorem Serial.append {calls : List (Call instances)} (serial : Serial calls)
    (waits : call.phase.begun = false) : Serial (calls ++ [call]) := by
  intro i j first second less foundFirst foundSecond home organization begun
  rcases Nat.lt_or_ge j calls.length with inside | outside
  · rw [List.getElem?_append_left inside] at foundSecond
    rw [List.getElem?_append_left (less.trans inside)] at foundFirst
    exact serial i j first second less foundFirst foundSecond home organization begun
  · rw [List.getElem?_append_right outside, List.getElem?_singleton] at foundSecond
    split at foundSecond
    · cases foundSecond
      rw [waits] at begun
      cases begun
    · cases foundSecond

/-- A step of its admission leaves the calls in their order. -/
theorem Serial.act {calls : List (Call instances)} (serial : Serial calls)
    (same : fleet.calls = calls) (sound : ∀ call ∈ calls, CallSound limits fleet.clock call)
    (found : calls[index]? = some call) (acted : Acted limits fleet index call next) :
    Serial (calls.set index next) := by
  cases acted with
  | opened queued free =>
    rw [same] at free
    exact serial.set_opened sound found queued free _
  | read reading position scope former later here progress =>
    refine serial.set_follows found ⟨rfl, rfl, fun past => ?_, fun begun => ⟨begun, rfl⟩⟩
    rw [reading] at past
    cases past
  | refused reading wait all longest positive =>
    exact serial.set_follows found
      ⟨rfl, rfl, fun _ => ⟨rfl, rfl⟩, fun _ => ⟨by rw [reading]; rfl, rfl⟩⟩
  | cleared reading all none =>
    refine serial.set_follows found
      ⟨rfl, rfl, fun past => ?_, fun _ => ⟨by rw [reading]; rfl, rfl⟩⟩
    rw [reading] at past
    cases past
  | wrote writing empty occurredAt after before =>
    exact serial.set_follows found ⟨rfl, rfl, fun past => ⟨past, rfl⟩, fun begun => ⟨begun, rfl⟩⟩
  | failed open_ =>
    refine serial.set_follows found ⟨rfl, rfl, fun _ => ⟨rfl, rfl⟩, fun _ => ⟨?_, rfl⟩⟩
    rcases open_ with reading | writing
    · rw [reading]
      rfl
    · rw [writing]
      rfl
  | finished admitted =>
    exact serial.set_follows found
      ⟨rfl, rfl, fun _ => ⟨rfl, rfl⟩, fun _ => ⟨by rw [admitted]; rfl, rfl⟩⟩

end Koklo.Ai
