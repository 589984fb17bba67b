import Koklo.Delivery.QuotaUsage
import Koklo.Foundations.Runs

/-!
# Runs of a quota

A quota lives through hits, usages and rearmings; the clock of its runner never goes back.
In every state of a run the status is `backoff` exactly when there is an instant to resume at
(`Consistent`). What a hit and a usage can do to a backoff follows from the spec lemmas of the
two functions (`hit_outcome`, `usage_outcome`): an active backoff only grows or passes to
`exhausted`, which only a rearming leaves. A rearming ends an active backoff, as it is for
(`backoff_shortened_by_clear`).
-/

set_option autoImplicit false

namespace Koklo.Delivery.Quota

open Koklo.Foundations
open Koklo.Foundations.Binary64

/-- A call on the quota. -/
inductive QuotaCall where
  | hit (signal : QuotaSignal) (now jitter : ℚ) (policy : BackoffPolicy) (expectedVersion : Option ℚ)
  | usage (usage : Usage) (now : ℚ) (policy : UsagePolicy) (expectedVersion : Option ℚ)
  | clear (expectedVersion : Option ℚ)

/-- The instant of a call, when it has one. -/
def QuotaCall.now : QuotaCall → Option ℚ
  | hit _ now _ _ _ | usage _ now _ _ => some now
  | clear _ => none

def QuotaCall.isClear : QuotaCall → Bool
  | clear _ => true
  | _ => false

/-- A quota and the last instant of its runner. -/
structure Timeline where
  state : QuotaState
  clock : ℚ
deriving DecidableEq

/-- The start state, and no clock. -/
def Timeline.start : Timeline := ⟨startQuotaState, 0⟩

/-- The state after a call, or its error. -/
def perform (state : QuotaState) : QuotaCall → Checked QuotaState
  | .hit signal now jitter policy expected => onQuotaHit state signal now jitter policy expected
  | .usage usage now policy expected => recordUsage state usage now policy expected
  | .clear expected => clearQuota state expected

/-- A call that is accepted, at an instant that is not before the last one. -/
def Timeline.step (line : Timeline) (call : QuotaCall) : Option Timeline :=
  match perform line.state call with
  | .error _ => none
  | .ok next =>
    match call.now with
    | none => some ⟨next, line.clock⟩
    | some now => if now < line.clock then none else some ⟨next, now⟩

/-! ## What the steps keep -/

/-- The status is `backoff` exactly when there is an instant to resume at. -/
def Consistent (state : QuotaState) : Prop := state.status = .backoff ↔ state.resumeAt ≠ none

/-- **What a hit does to a consistent state.** -/
structure HitOutcome (state : QuotaState) (signal : QuotaSignal) (now : ℚ) (policy : BackoffPolicy)
    (next : QuotaState) : Prop where
  consistent : Consistent next
  /-- A hit that is counted resumes after `now` and within the bounds. -/
  bounds : next ≠ state → next.status = .backoff → ∃ resumeAt, next.resumeAt = some resumeAt ∧
    now < resumeAt ∧ resumeAt ≤ add now dayMs ∧ resumeAt ≤ add now policy.maxDelayMs
  /-- A counted hit backs off or exhausts the quota. -/
  counted : next ≠ state → next.status ≠ .ok
  grows : ∀ resumeAt, state.activeUntil now = some resumeAt →
    next.status = .exhausted ∨ next.status = .backoff ∧ ∃ later, next.resumeAt = some later ∧
      resumeAt ≤ later
  sticky : state.status = .exhausted → next.status = .exhausted
  weak : signal.strength = .weak → next.consecutiveHits = state.consecutiveHits ∧
    (next.status = .exhausted → state.status = .exhausted)

theorem activeUntil_eq_some {state : QuotaState} {now resumeAt : ℚ} :
    state.activeUntil now = some resumeAt ↔
      state.status = .backoff ∧ state.resumeAt = some resumeAt ∧ now < resumeAt := by
  rw [QuotaState.activeUntil]
  split
  · rename_i backoff
    rw [Option.filter_eq_some_iff, decide_eq_true_eq]
    exact ⟨fun h => ⟨backoff, h⟩, fun h => h.2⟩
  · rename_i other
    exact ⟨fun none_ => (by cases none_), fun h => absurd h.1 other⟩

/-- A backoff that does not go on at `now` has ended by then. -/
theorem getD_resumeAt_le {state : QuotaState} (consistent : Consistent state) {now : ℚ}
    (nonneg : 0 ≤ now) (idle : state.activeUntil now = none) : state.resumeAt.getD 0 ≤ now := by
  cases resume : state.resumeAt with
  | none => exact nonneg
  | some resumeAt =>
    have backoff : state.status = .backoff := consistent.mpr (by rw [resume]; exact nofun)
    rw [Option.getD_some]
    by_contra later
    have active := activeUntil_eq_some.mpr ⟨backoff, resume, not_le.mp later⟩
    rw [idle] at active
    cases active

/-- The sum with a delay is after `now` and within the cap of the policy. -/
theorem lt_add_delay {policy : BackoffPolicy} {now : ℕ} {delay : ℚ} (small : now < 2 ^ 53)
    (isDelay : IsDelay policy delay) : (now : ℚ) < add now delay ∧
      add now delay ≤ add now policy.maxDelayMs := by
  constructor
  · have exact : Binary64.round ((now + 1 : ℕ) : ℚ) = (now + 1 : ℕ) := by
      have bound : |((now + 1 : ℕ) : ℤ)| ≤ 2 ^ 53 := by
        rw [Nat.abs_cast]
        exact_mod_cast small
      exact_mod_cast Binary64.round_intCast bound
    have order : ((now + 1 : ℕ) : ℚ) ≤ now + delay := by
      push_cast
      linarith [isDelay.one]
    calc (now : ℚ) < (now + 1 : ℕ) := by exact_mod_cast Nat.lt_succ_self now
      _ = Binary64.round ((now + 1 : ℕ) : ℚ) := exact.symm
      _ ≤ add now delay := round_mono order
  · exact round_mono (by linarith [isDelay.cap])

theorem add_cap_le {policy : BackoffPolicy} (valid : policy.Valid) (now : ℚ) :
    add now policy.maxDelayMs ≤ add now dayMs := round_mono (by
  have cap := valid.cap
  rw [maxBackoffMs] at cap
  rw [dayMs]
  linarith)

theorem hit_outcome {state next : QuotaState} {signal : QuotaSignal} {now jitter : ℚ}
    {policy : BackoffPolicy} {expected : Option ℚ} (consistent : Consistent state)
    (accepted : onQuotaHit state signal now jitter policy expected = .ok next) :
    HitOutcome state signal now policy next := by
  obtain ⟨⟨⟨n, rfl, small⟩, _, valid⟩, _, _, cases⟩ := onQuotaHit_cases accepted
  have cap := add_cap_le valid n
  rcases cases with rfl | ⟨resumeAt, delay, active, isDelay, later, rfl⟩ |
    ⟨alive, idle, delay, isDelay, rfl⟩
  · exact {
      consistent := consistent
      bounds := fun changed => absurd rfl changed
      counted := fun changed => absurd rfl changed
      grows := by
        intro resumeAt active
        obtain ⟨backoff, resume, _⟩ := activeUntil_eq_some.mp active
        exact .inr ⟨backoff, resumeAt, resume, le_rfl⟩
      sticky := id
      weak := fun _ => ⟨rfl, id⟩ }
  · obtain ⟨backoff, resume, future⟩ := activeUntil_eq_some.mp active
    obtain ⟨after, within⟩ := lt_add_delay small isDelay
    rw [extendBurst, if_neg (not_le.mpr later)]
    exact {
      consistent := iff_of_true backoff (Option.some_ne_none _)
      bounds := fun _ _ => ⟨_, rfl, after, within.trans cap, within⟩
      counted := by
        intro _
        rw [backoff]
        decide
      grows := by
        intro until_ goesOn
        obtain ⟨_, same, _⟩ := activeUntil_eq_some.mp goesOn
        rw [resume, Option.some.injEq] at same
        rw [← same]
        exact .inr ⟨backoff, _, rfl, later.le⟩
      sticky := fun exhausted => absurd (backoff.symm.trans exhausted) (by decide)
      weak := fun _ => ⟨rfl, id⟩ }
  · obtain ⟨after, within⟩ := lt_add_delay small isDelay
    have before := getD_resumeAt_le consistent (Nat.cast_nonneg n) idle
    have latest : max (state.resumeAt.getD 0) (add n delay) = add n delay :=
      max_eq_right (before.trans after.le)
    by_cases exhausted : signal.strength = .strong ∧ (signal.kind = .exhausted ∨
        policy.maxConsecutiveHits ≤ if signal.strength = .strong then
          min (add state.consecutiveHits 1) policy.maxConsecutiveHits else state.consecutiveHits)
    · have shape : (nextStep state signal n delay policy).status = .exhausted ∧
          (nextStep state signal n delay policy).resumeAt = none := by
        simp only [nextStep, if_pos exhausted, and_self]
      exact {
        consistent := iff_of_false (by rw [shape.1]; decide) (fun some => some shape.2)
        bounds := fun _ backoff => absurd (shape.1.symm.trans backoff) (by decide)
        counted := fun _ => by rw [shape.1]; decide
        grows := fun _ _ => .inl shape.1
        sticky := fun _ => shape.1
        weak := fun weak => absurd (exhausted.1.symm.trans weak) (by decide) }
    · have shape : (nextStep state signal n delay policy).status = .backoff ∧
          (nextStep state signal n delay policy).resumeAt = some (add n delay) := by
        simp only [nextStep, if_neg exhausted, latest, and_self]
      exact {
        consistent := iff_of_true shape.1 (by rw [shape.2]; exact Option.some_ne_none _)
        bounds := fun _ _ => ⟨_, shape.2, after, within.trans cap, within⟩
        counted := fun _ => by rw [shape.1]; decide
        grows := fun _ active => absurd (idle.symm.trans active) (Option.some_ne_none _).symm
        sticky := fun sticky => absurd sticky alive
        weak := by
          intro weak
          refine ⟨?_, fun ended => absurd (shape.1.symm.trans ended) (by decide)⟩
          show (if signal.strength = .strong then _ else state.consecutiveHits) = _
          rw [if_neg (by rw [weak]; decide)] }

/-- **What a usage does to a consistent state.** -/
structure UsageOutcome (state : QuotaState) (now : ℚ) (next : QuotaState) : Prop where
  consistent : Consistent next
  kept : ∀ resumeAt, state.activeUntil now = some resumeAt →
    next.status = .backoff ∧ next.resumeAt = some resumeAt
  sticky : state.status = .exhausted → next.status = .exhausted

theorem usage_outcome {state next : QuotaState} {usage : Usage} {now : ℚ} {policy : UsagePolicy}
    {expected : Option ℚ} (consistent : Consistent state)
    (accepted : recordUsage state usage now policy expected = .ok next) :
    UsageOutcome state now next := by
  obtain ⟨_, ⟨_, rfl⟩ | ⟨_, windows, _, rfl⟩⟩ := recordUsage_cases accepted
  · refine ⟨consistent, ?_, id⟩
    intro resumeAt active
    obtain ⟨backoff, resume, _⟩ := activeUntil_eq_some.mp active
    exact ⟨backoff, resume⟩
  · cases reset : recovered state now with
    | false =>
      have shape : (usageRecorded state usage now policy windows).status = state.status ∧
          (usageRecorded state usage now policy windows).resumeAt = state.resumeAt := by
        simp only [usageRecorded, reset, Bool.false_eq_true, if_false, and_self]
      refine ⟨?_, ?_, fun exhausted => shape.1.trans exhausted⟩
      · rw [Consistent, shape.1, shape.2]
        exact consistent
      · intro resumeAt active
        obtain ⟨backoff, resume, _⟩ := activeUntil_eq_some.mp active
        exact ⟨shape.1.trans backoff, shape.2.trans resume⟩
    | true =>
      have shape : (usageRecorded state usage now policy windows).status = .ok ∧
          (usageRecorded state usage now policy windows).resumeAt = none := by
        simp only [usageRecorded, reset, if_true, and_self]
      rw [recovered, Bool.and_eq_true, decide_eq_true_eq] at reset
      refine ⟨iff_of_false (by rw [shape.1]; decide) (fun some => some shape.2), ?_, ?_⟩
      · intro resumeAt active
        obtain ⟨_, resume, later⟩ := activeUntil_eq_some.mp active
        rw [resume, Option.any_some, decide_eq_true_eq] at reset
        exact absurd reset.2 (not_le.mpr later)
      · exact fun exhausted => absurd (reset.1.symm.trans exhausted) (by decide)

theorem clear_consistent {state next : QuotaState} {expected : Option ℚ}
    (consistent : Consistent state) (accepted : clearQuota state expected = .ok next) :
    Consistent next := by
  rcases clearQuota_cases accepted with ⟨rfl, _⟩ | rfl
  · exact consistent
  · exact iff_of_false (by simp) (fun some => some rfl)

/-! ## Runs -/

/-- What an accepted call is. -/
theorem step_eq_some {line next : Timeline} {call : QuotaCall} :
    line.step call = some next ↔ perform line.state call = .ok next.state ∧
      line.clock ≤ next.clock ∧ next.clock = call.now.getD line.clock := by
  rw [Timeline.step]
  cases done : perform line.state call with
  | error e => exact iff_of_false nofun fun h => nomatch h.1
  | ok state =>
    cases instant : call.now with
    | none =>
      simp only [Option.some.injEq, Except.ok.injEq, Option.getD_none]
      constructor
      · rintro rfl
        exact ⟨rfl, le_rfl, rfl⟩
      · rintro ⟨rfl, _, same⟩
        rw [← same]
    | some now =>
      simp only [Except.ok.injEq, Option.getD_some]
      split
      · rename_i early
        exact iff_of_false nofun fun h => absurd (h.2.2 ▸ h.2.1) (not_le.mpr early)
      · rename_i late
        rw [Option.some.injEq]
        constructor
        · rintro rfl
          exact ⟨rfl, not_lt.mp late, rfl⟩
        · rintro ⟨rfl, _, same⟩
          rw [← same]

theorem step_consistent {line next : Timeline} {call : QuotaCall} (consistent : Consistent line.state)
    (taken : line.step call = some next) : Consistent next.state := by
  have done := (step_eq_some.mp taken).1
  cases call with
  | hit signal now jitter policy expected => exact (hit_outcome consistent done).consistent
  | usage usage now policy expected => exact (usage_outcome consistent done).consistent
  | clear expected => exact clear_consistent consistent done

theorem start_consistent : Consistent Timeline.start.state := by
  constructor
  · intro backoff
    cases backoff
  · intro resumes
    exact absurd rfl resumes

/-- The status is `backoff` exactly when there is an instant to resume at, in every run. -/
theorem run_consistent {line : Timeline} {calls : List QuotaCall}
    (reached : run Timeline.step .start calls = some line) : Consistent line.state :=
  @run_invariant _ _ Timeline.step (fun line => Consistent line.state)
    (fun _ _ _ consistent taken => step_consistent consistent taken)
    _ _ _ start_consistent reached

/-- Across calls that are not rearmings, a backoff that has not ended only grows or passes to
`exhausted`, which stays. -/
def Grows (line later : Timeline) : Prop :=
  line.clock ≤ later.clock ∧
    (line.state.status = .exhausted → later.state.status = .exhausted) ∧
    ∀ resumeAt, line.state.status = .backoff → line.state.resumeAt = some resumeAt →
      later.clock < resumeAt → later.state.status = .exhausted ∨
        later.state.status = .backoff ∧
          ∃ until_, later.state.resumeAt = some until_ ∧ resumeAt ≤ until_

theorem step_grows {line next : Timeline} {call : QuotaCall} (consistent : Consistent line.state)
    (hold : call.isClear = false) (taken : line.step call = some next) : Grows line next := by
  obtain ⟨done, order, instant⟩ := step_eq_some.mp taken
  cases call with
  | hit signal now jitter policy expected =>
    have outcome := hit_outcome consistent done
    refine ⟨order, outcome.sticky, fun resumeAt backoff resume later => ?_⟩
    rw [instant] at later
    exact outcome.grows resumeAt (activeUntil_eq_some.mpr ⟨backoff, resume, later⟩)
  | usage usage now policy expected =>
    have outcome := usage_outcome consistent done
    refine ⟨order, outcome.sticky, fun resumeAt backoff resume later => ?_⟩
    rw [instant] at later
    obtain ⟨still, same⟩ := outcome.kept resumeAt (activeUntil_eq_some.mpr ⟨backoff, resume, later⟩)
    exact .inr ⟨still, resumeAt, same, le_rfl⟩
  | clear expected => cases hold

/-- **A backoff that goes on is never shortened** by hits and usages, over whole runs. -/
theorem run_grows {line later : Timeline} {calls : List QuotaCall} (consistent : Consistent line.state)
    (hold : ∀ call ∈ calls, call.isClear = false)
    (reached : run Timeline.step line calls = some later) : Grows line later := by
  induction calls generalizing line with
  | nil =>
    cases reached
    exact ⟨le_rfl, id, fun resumeAt backoff resume _ => .inr ⟨backoff, resumeAt, resume, le_rfl⟩⟩
  | cons call calls ih =>
    obtain ⟨next, taken, rest⟩ := run_cons_eq_some reached
    obtain ⟨first, others⟩ := List.forall_mem_cons.mp hold
    obtain ⟨order, sticky, grows⟩ := step_grows consistent first taken
    obtain ⟨order', sticky', grows'⟩ := ih (step_consistent consistent taken) others rest
    refine ⟨order.trans order', sticky' ∘ sticky, fun resumeAt backoff resume active => ?_⟩
    rcases grows resumeAt backoff resume (order'.trans_lt active) with
      exhausted | ⟨still, until_, resume', more⟩
    · exact .inl (sticky' exhausted)
    · rcases grows' until_ still resume' (active.trans_le more) with
        exhausted | ⟨still', until', resume'', more'⟩
      · exact .inl exhausted
      · exact .inr ⟨still', until', resume'', more.trans more'⟩

/-! ## The safety of a quota -/

/-- What holds of a quota at any point of its life, whatever is called next. -/
structure BackoffSafe (line : Timeline) : Prop where
  /-- The status is `backoff` if and only if `resumeAt` is not null. -/
  status_iff : line.state.status = .backoff ↔ line.state.resumeAt ≠ none
  /-- A counted hit exhausts the quota or resumes within the bounds. -/
  hit : ∀ {signal now jitter policy expected next},
    onQuotaHit line.state signal now jitter policy expected = .ok next → next ≠ line.state →
      next.status = .exhausted ∧ next.resumeAt = none ∨
      ∃ resumeAt, next.resumeAt = some resumeAt ∧ now < resumeAt ∧ resumeAt ≤ add now dayMs ∧
        resumeAt ≤ add now policy.maxDelayMs
  /-- Without a rearming, a backoff that goes on only grows or passes to `exhausted`, and
  `exhausted` stays. -/
  grows : ∀ {calls later}, (∀ call ∈ calls, call.isClear = false) →
    run Timeline.step line calls = some later → Grows line later
  /-- A weak signal neither counts nor exhausts. -/
  weak : ∀ {signal now jitter policy expected next},
    onQuotaHit line.state signal now jitter policy expected = .ok next → signal.strength = .weak →
      next.consecutiveHits = line.state.consecutiveHits ∧
        (next.status = .exhausted → line.state.status = .exhausted)

/-- The signal announces a wall-clock reset, and nothing that is preferred to it. -/
structure QuotaSignal.Announces (signal : QuotaSignal) (hint : ClockHint) : Prop where
  noInstant : signal.resetAt = none
  noDelay : signal.retryAfterMs = none
  announced : signal.resetHint = some hint
  clock : assertClock hint = .ok ()

/-- What becomes of a wall-clock reset. -/
structure WallClockResolved : Prop where
  /-- With an offset and no zone, it is resolved after `now`, at most a day after it, at the time
  announced. -/
  resolved : ∀ (signal : QuotaSignal) (hint : ClockHint) (now offset : ℚ), isSafeCount now = true →
    signal.Announces hint → hint.zone = none → isUtcOffset offset = true →
    ∃ (instant minutes : ℤ) (hour minute : ℕ),
      resolveResetAt signal now (some offset) = .ok (some (instant : ℚ)) ∧
      now < instant ∧ instant ≤ add now dayMs ∧
      offset = minutes ∧ hint.hour = hour ∧ hint.minute = minute ∧
      (instant + 60000 * minutes) % 86400000 = (60 * hour + minute) * 60000
  /-- In a named zone or without an offset it is not resolved: the delay is that of the hits. -/
  unresolved : ∀ (signal : QuotaSignal) (hint : ClockHint) (now : ℚ) (offset : Option ℚ),
    isSafeCount now = true → signal.Announces hint → hint.zone.isSome = true ∨ offset = none →
    resolveResetAt signal now offset = .ok none

theorem isSafeInteger_of_isSafeCount {now : ℚ} (count : isSafeCount now = true) :
    isSafeInteger now = true := by
  rw [isSafeCount, Bool.and_eq_true] at count
  exact count.1

theorem resolveResetAt_unresolved {signal : QuotaSignal} {hint : ClockHint} {now : ℚ}
    {offset : Option ℚ} (count : isSafeCount now = true) (announces : signal.Announces hint)
    (unknown : hint.zone.isSome = true ∨ offset = none) :
    resolveResetAt signal now offset = .ok none := by
  simp only [resolveResetAt, isSafeInteger_of_isSafeCount count, announces.noInstant,
    announces.noDelay, announces.announced, announces.clock, Bool.true_eq_false, if_false]
  split
  · rfl
  · rename_i noZone
    rcases unknown with zone | rfl
    · exact absurd zone noZone
    · rfl

theorem resolveResetAt_resolved {signal : QuotaSignal} {hint : ClockHint} {now offset : ℚ}
    (count : isSafeCount now = true) (announces : signal.Announces hint) (noZone : hint.zone = none)
    (known : isUtcOffset offset = true) :
    ∃ (instant minutes : ℤ) (hour minute : ℕ),
      resolveResetAt signal now (some offset) = .ok (some (instant : ℚ)) ∧
      now < instant ∧ instant ≤ add now dayMs ∧
      offset = minutes ∧ hint.hour = hour ∧ hint.minute = minute ∧
      (instant + 60000 * minutes) % 86400000 = (60 * hour + minute) * 60000 := by
  obtain ⟨noInstant, noDelay, announced, clock⟩ := announces
  obtain ⟨n, rfl, small⟩ := isSafeCount_iff.mp count
  have safe := isSafeInteger_of_isSafeCount count
  have resolved : resolveResetAt signal n (some offset) = .ok (some (nextWallClock hint n offset)) := by
    simp only [resolveResetAt, safe, noInstant, noDelay, announced, noZone, clock, known,
      Bool.true_eq_false, if_false, Option.isSome_none, Bool.false_eq_true]
    rfl
  obtain ⟨instant, minutes, same, shift, after, before, hour, minute, hours, minutes', shown⟩ :=
    resolveResetAt_wallClock small noInstant noDelay announced resolved
  rw [same] at resolved before
  exact ⟨instant, minutes, hour, minute, resolved, by exact_mod_cast after, before, shift, hours,
    minutes', shown⟩

theorem wallClockResolved : WallClockResolved where
  resolved _ _ _ _ := resolveResetAt_resolved
  unresolved _ _ _ _ := resolveResetAt_unresolved

/-- **The safety of a quota**, over every run of accepted calls with a clock that never goes
back: bounded backoffs that only a rearming shortens. The bounds are sums in double precision,
which are exact up to `2 ^ 53`. -/
theorem quota_backoff_safety {calls : List QuotaCall} {line : Timeline}
    (reached : run Timeline.step .start calls = some line) : BackoffSafe line ∧ WallClockResolved := by
  have consistent := run_consistent reached
  refine ⟨⟨consistent, ?_, fun hold rest => run_grows consistent hold rest, ?_⟩, wallClockResolved⟩
  · intro signal now jitter policy expected next accepted changed
    have outcome := hit_outcome consistent accepted
    cases status : next.status with
    | ok => exact absurd status (outcome.counted changed)
    | exhausted =>
      left
      refine ⟨rfl, not_not.mp fun some => ?_⟩
      exact absurd (status.symm.trans (outcome.consistent.mpr some)) nofun
    | backoff => exact .inr (outcome.bounds changed status)
  · exact fun accepted weak => (hit_outcome consistent accepted).weak weak

/-! ## A rearming -/

/-- A weak signal without date. -/
def plainSignal : QuotaSignal := ⟨.unknownLimit, .weak, none, none, none, none⟩

def minutePolicy : BackoffPolicy := ⟨60000, 3600000, 0, 3, none⟩

/-- A backoff of one minute. -/
def backedOff : Timeline where
  state := { startQuotaState with
    status := .backoff
    resumeAt := some 61000
    lastHitAt := some 1000
    version := 1 }
  clock := 1000

theorem run_backedOff :
    run Timeline.step .start [.hit plainSignal 1000 0 minutePolicy none] = some backedOff := by
  decide +kernel

/-- The safety of a quota during a backoff. -/
theorem quota_backoff_safety_backedOff : BackoffSafe backedOff ∧ WallClockResolved :=
  quota_backoff_safety run_backedOff

/-- A reset at nine o'clock in a named zone. -/
def zonedSignal : QuotaSignal :=
  ⟨.unknownLimit, .weak, none, none, some ⟨9, 0, some (Text.lit "Europe/Paris")⟩, none⟩

/-- **A rearming ends a backoff that goes on**, and the quota is not exhausted; and a reset in a
named zone is not mapped to an instant. -/
theorem backoff_shortened_by_clear :
    (¬ ∀ (calls : List QuotaCall) (call : QuotaCall) (line next : Timeline),
      run Timeline.step .start calls = some line → line.step call = some next →
      ∀ resumeAt, line.state.activeUntil (call.now.getD line.clock) = some resumeAt →
        next.state.status = .exhausted ∨
          ∃ later, next.state.resumeAt = some later ∧ resumeAt ≤ later) ∧
    resolveResetAt zonedSignal 1000 (some 0) = .ok none := by
  refine ⟨fun claim => ?_, by decide +kernel⟩
  have cleared : backedOff.step (.clear none) =
      some ⟨{ backedOff.state with status := .ok, resumeAt := none, version := 2 }, 1000⟩ := by
    decide +kernel
  have active : backedOff.state.activeUntil 1000 = some 61000 := by decide +kernel
  rcases claim _ _ _ _ run_backedOff cleared 61000 active with exhausted | ⟨later, resume, _⟩
  · cases exhausted
  · cases resume

end Koklo.Delivery.Quota
