import Koklo.Delivery.QuotaRuns

/-!
# Redelivered signals

A quota remembers the identifier of the last signal that changed it, and a signal that bears
it again does nothing. A hit that a burst absorbs changes nothing, and is not remembered: the
same signal is counted when it comes again after the burst has ended, or when it then announces
a later date (`redelivered_eq_iff`).
-/

set_option autoImplicit false

namespace Koklo.Delivery.Quota

open Koklo.Foundations
open Koklo.Foundations.Binary64

/-- The signal is the last one that changed the state. -/
def QuotaState.Remembers (state : QuotaState) (signal : QuotaSignal) : Prop :=
  signal.id.isSome ∧ signal.id = state.lastSignalId

/-- A burst absorbs a hit: a backoff goes on, and the provider announces no later date. -/
def QuotaState.Absorbs (state : QuotaState) (signal : QuotaSignal) (now jitter : ℚ)
    (policy : BackoffPolicy) : Prop :=
  ∃ resumeAt, state.activeUntil now = some resumeAt ∧
    ∀ delay, providerDelay signal now policy = .ok (some delay) →
      add now (withJitter delay jitter policy) ≤ resumeAt

/-! ## One hit -/

section Hit

variable {state next : QuotaState} {signal : QuotaSignal} {now jitter : ℚ} {policy : BackoffPolicy}
  {expected : Option ℚ}

/-- What a hit applies to a state that goes on. -/
theorem applyHit_absorbed (absorbed : state.Absorbs signal now jitter policy)
    (applied : applyHit state signal now jitter policy = .ok next) : next = state := by
  obtain ⟨resumeAt, active, within⟩ := absorbed
  rw [applyHit, map_eq_ok] at applied
  obtain ⟨provider, provided, applied⟩ := applied
  simp only [active] at applied
  rw [← applied]
  cases provider with
  | none => rfl
  | some delay => rw [Option.map_some, extendBurst, if_pos (within delay provided)]

/-- **A hit that is not absorbed is remembered.** -/
theorem applyHit_remembered (counted : ¬ state.Absorbs signal now jitter policy)
    (applied : applyHit state signal now jitter policy = .ok next) :
    next.lastSignalId = signal.id := by
  rw [applyHit, map_eq_ok] at applied
  obtain ⟨provider, provided, applied⟩ := applied
  cases active : state.activeUntil now with
  | none =>
    simp only [active] at applied
    rw [← applied, nextStep]
  | some resumeAt =>
    simp only [active] at applied
    rw [← applied]
    have later : ∃ delay, provider = some delay ∧
        resumeAt < add now (withJitter delay jitter policy) := by
      by_contra early
      apply counted
      refine ⟨resumeAt, active, fun delay announced => not_lt.mp fun after => early ?_⟩
      rw [provided, Except.ok.injEq] at announced
      exact ⟨delay, announced, after⟩
    obtain ⟨delay, rfl, after⟩ := later
    rw [Option.map_some, extendBurst, if_neg (not_le.mpr after)]

/-- The three ways of an accepted hit: replayed, stopped by the exhaustion, or applied. -/
theorem onQuotaHit_ways (accepted : onQuotaHit state signal now jitter policy expected = .ok next) :
    (state.Remembers signal ∧ next = state) ∨
      (¬ state.Remembers signal ∧ state.status = .exhausted ∧ next = state) ∨
      (¬ state.Remembers signal ∧ state.status ≠ .exhausted ∧
        applyHit state signal now jitter policy = .ok next) := by
  rw [onQuotaHit] at accepted
  obtain ⟨_, _, accepted⟩ := bind_eq_ok.mp accepted
  obtain ⟨_, _, accepted⟩ := bind_eq_ok.mp accepted
  obtain ⟨_, _, accepted⟩ := bind_eq_ok.mp accepted
  obtain ⟨_, _, accepted⟩ := bind_eq_ok.mp accepted
  obtain ⟨_, _, accepted⟩ := bind_eq_ok.mp accepted
  obtain ⟨_, _, accepted⟩ := bind_eq_ok.mp accepted
  split at accepted
  · rename_i replayed
    cases accepted
    exact .inl ⟨replayed, rfl⟩
  rename_i fresh
  obtain ⟨_, _, accepted⟩ := bind_eq_ok.mp accepted
  split at accepted
  · rename_i exhausted
    cases accepted
    exact .inr (.inl ⟨fresh, exhausted, rfl⟩)
  · rename_i alive
    exact .inr (.inr ⟨fresh, alive, accepted⟩)

/-- A hit on a state that remembers its signal does nothing. -/
theorem onQuotaHit_remembered (known : state.Remembers signal)
    (accepted : onQuotaHit state signal now jitter policy expected = .ok next) : next = state := by
  rcases onQuotaHit_ways accepted with ⟨_, same⟩ | ⟨fresh, _⟩ | ⟨fresh, _⟩
  · exact same
  · exact absurd known fresh
  · exact absurd known fresh

/-- **When a hit does nothing**: its signal is remembered, the quota is exhausted, or a burst
absorbs it. -/
theorem onQuotaHit_eq_self_iff (named : signal.id.isSome)
    (accepted : onQuotaHit state signal now jitter policy expected = .ok next) :
    next = state ↔
      state.Remembers signal ∨ state.status = .exhausted ∨ state.Absorbs signal now jitter policy := by
  rcases onQuotaHit_ways accepted with ⟨known, same⟩ | ⟨_, exhausted, same⟩ | ⟨fresh, alive, applied⟩
  · exact iff_of_true same (.inl known)
  · exact iff_of_true same (.inr (.inl exhausted))
  · by_cases absorbed : state.Absorbs signal now jitter policy
    · exact iff_of_true (applyHit_absorbed absorbed applied) (.inr (.inr absorbed))
    · apply iff_of_false
      · intro same
        apply fresh
        exact ⟨named, (same ▸ applyHit_remembered absorbed applied).symm⟩
      · rintro (known | exhausted | inside)
        · exact fresh known
        · exact alive exhausted
        · exact absorbed inside

end Hit

/-- A date that is resolved at one instant is resolved at any other. -/
theorem exists_providerDelay {signal : QuotaSignal} {t₁ t₂ : ℚ} {policy : BackoffPolicy}
    {provider : Option ℚ} (count : isSafeCount t₂ = true)
    (provided : providerDelay signal t₁ policy = .ok provider) :
    ∃ again, providerDelay signal t₂ policy = .ok again := by
  have safe : isSafeInteger t₂ = true := by
    rw [isSafeCount, Bool.and_eq_true] at count
    exact count.1
  suffices ∃ instant, resolveResetAt signal t₂ policy.utcOffsetMinutes = .ok instant by
    obtain ⟨instant, resolved⟩ := this
    exact ⟨_, map_eq_ok.mpr ⟨instant, resolved, rfl⟩⟩
  rw [providerDelay, map_eq_ok] at provided
  obtain ⟨_, resolved, _⟩ := provided
  obtain ⟨kind, strength, resetAt, retryAfterMs, resetHint, id⟩ := signal
  simp only [resolveResetAt, safe] at resolved ⊢
  cases resetAt with
  | some instant => exact ⟨_, rfl⟩
  | none =>
    cases retryAfterMs with
    | some delay => exact ⟨_, rfl⟩
    | none =>
      cases resetHint with
      | none => exact ⟨_, rfl⟩
      | some hint =>
        split at resolved
        · cases resolved
        by_cases zoned : hint.zone.isSome
        · exact ⟨none, by simp only [if_pos zoned]; rfl⟩
        simp only [if_neg zoned] at resolved ⊢
        obtain ⟨_, clock, resolved⟩ := bind_eq_ok.mp resolved
        cases zone : policy.utcOffsetMinutes with
        | none => exact ⟨none, bind_eq_ok.mpr ⟨_, clock, rfl⟩⟩
        | some offset =>
          simp only [zone] at resolved
          split at resolved
          · cases resolved
          · rename_i known
            exact ⟨_, bind_eq_ok.mpr ⟨_, clock, if_neg known⟩⟩

/-! ## The same signal again -/

/-- **A redelivered signal is accepted**, at any instant, when the state that the first delivery
left is one that the quota accepts. -/
theorem redelivered_accepted {state once : QuotaState} {signal : QuotaSignal} {t₁ t₂ j₁ j₂ : ℚ}
    {policy : BackoffPolicy} {expected : Option ℚ}
    (first : onQuotaHit state signal t₁ j₁ policy expected = .ok once)
    (now : assertNow t₂ = .ok ()) (jitter : assertJitter j₂ = .ok ())
    (input : assertStateInput once = .ok ()) :
    ∃ twice, onQuotaHit once signal t₂ j₂ policy none = .ok twice := by
  have ways := onQuotaHit_ways first
  rw [onQuotaHit] at first
  obtain ⟨_, signalOk, first⟩ := bind_eq_ok.mp first
  obtain ⟨_, _, first⟩ := bind_eq_ok.mp first
  obtain ⟨_, _, first⟩ := bind_eq_ok.mp first
  obtain ⟨_, policyOk, _⟩ := bind_eq_ok.mp first
  suffices ∃ twice, (if signal.id.isSome ∧ signal.id = once.lastSignalId then .ok once
      else if once.status = .exhausted then .ok once
      else applyHit once signal t₂ j₂ policy) = Except.ok twice by
    rw [onQuotaHit, signalOk, now, jitter, policyOk, input]
    exact this
  split
  · exact ⟨_, rfl⟩
  rename_i fresh
  split
  · exact ⟨_, rfl⟩
  rename_i alive
  rcases ways with ⟨known, rfl⟩ | ⟨_, exhausted, rfl⟩ | ⟨_, _, applied⟩
  · exact absurd known fresh
  · exact absurd exhausted alive
  · rw [applyHit, map_eq_ok] at applied
    obtain ⟨_, provided, _⟩ := applied
    obtain ⟨again, provided'⟩ := exists_providerDelay (assertThat_eq_ok.mp now) provided
    exact ⟨_, map_eq_ok.mpr ⟨again, provided', rfl⟩⟩

/-- **When a redelivered signal does nothing more**: unless its first delivery is absorbed by a
burst that does not absorb the second one. -/
theorem redelivered_eq_iff {state once twice : QuotaState} {signal : QuotaSignal} {t₁ t₂ j₁ j₂ : ℚ}
    {policy : BackoffPolicy} {expected expected' : Option ℚ} (named : signal.id.isSome)
    (first : onQuotaHit state signal t₁ j₁ policy expected = .ok once)
    (second : onQuotaHit once signal t₂ j₂ policy expected' = .ok twice) :
    twice = once ↔
      (signal.id = state.lastSignalId ∨ state.status = .exhausted ∨
        ¬ state.Absorbs signal t₁ j₁ policy) ∨ state.Absorbs signal t₂ j₂ policy := by
  rcases onQuotaHit_ways first with ⟨known, rfl⟩ | ⟨_, exhausted, rfl⟩ | ⟨fresh, alive, applied⟩
  · exact iff_of_true (onQuotaHit_remembered known second) (.inl (.inl known.2))
  · have same := (onQuotaHit_eq_self_iff named second).mpr (.inr (.inl exhausted))
    exact iff_of_true same (.inl (.inr (.inl exhausted)))
  · by_cases absorbed : state.Absorbs signal t₁ j₁ policy
    · obtain rfl := applyHit_absorbed absorbed applied
      rw [onQuotaHit_eq_self_iff named second]
      constructor
      · rintro (known | exhausted | again)
        · exact .inl (.inl known.2)
        · exact .inl (.inr (.inl exhausted))
        · exact .inr again
      · rintro ((known | exhausted | counted) | again)
        · exact .inl ⟨named, known⟩
        · exact .inr (.inl exhausted)
        · exact absurd absorbed counted
        · exact .inr (.inr again)
    · have known : once.Remembers signal := ⟨named, (applyHit_remembered absorbed applied).symm⟩
      exact iff_of_true (onQuotaHit_remembered known second) (.inl (.inr (.inr absorbed)))

/-- A weak signal without date, that bears the identifier `b`. -/
def namedSignal : QuotaSignal := { plainSignal with id := some (Text.lit "b") }

/-- A backoff of one minute, after a signal `a`. -/
def backedOffByA : QuotaState := { backedOff.state with lastSignalId := some (Text.lit "a") }

/-- The first delivery is absorbed; the second one, a second after the backoff has ended, is
counted. -/
def backedOffByB : QuotaState where
  status := .backoff
  resumeAt := some 122000
  consecutiveHits := 0
  lastHitAt := some 62000
  lastSignalId := some (Text.lit "b")
  windows := []
  usageIds := []
  version := 2

theorem first_absorbed :
    onQuotaHit backedOffByA namedSignal 2000 0 minutePolicy none = .ok backedOffByA := by
  decide +kernel

theorem second_counted :
    onQuotaHit backedOffByA namedSignal 62000 0 minutePolicy none = .ok backedOffByB := by
  decide +kernel

theorem redelivered_eq_iff_absorbed :
    backedOffByB = backedOffByA ↔
      (namedSignal.id = backedOffByA.lastSignalId ∨ backedOffByA.status = .exhausted ∨
        ¬ backedOffByA.Absorbs namedSignal 2000 0 minutePolicy) ∨
      backedOffByA.Absorbs namedSignal 62000 0 minutePolicy :=
  redelivered_eq_iff rfl first_absorbed second_counted

/-- **A signal that a burst absorbed is counted when it comes again.** -/
theorem absorbed_signal_counted_again :
    ¬ ∀ (state once twice : QuotaState) (signal : QuotaSignal) (t₁ t₂ j₁ j₂ : ℚ)
      (policy : BackoffPolicy), signal.id.isSome → t₁ ≤ t₂ →
      onQuotaHit state signal t₁ j₁ policy none = .ok once →
      onQuotaHit once signal t₂ j₂ policy none = .ok twice → twice = once := by
  intro claim
  have same := claim _ _ _ namedSignal 2000 62000 0 0 minutePolicy rfl (by decide +kernel)
    first_absorbed second_counted
  revert same
  decide +kernel

end Koklo.Delivery.Quota
