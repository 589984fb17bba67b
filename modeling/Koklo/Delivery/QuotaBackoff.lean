import Koklo.Delivery.QuotaReset

/-!
# Backing off

A hit of the quota backs off for the delay of the provider or for an exponential one, with a
jitter that only adds to it and a cap that comes last. During a backoff only a later date of
the provider extends it; a strong signal counts towards the exhaustion of the quota, which
only `clearQuota` leaves.

Everything an accepted hit can do is said once, in `onQuotaHit_cases`.
-/

set_option autoImplicit false

namespace Koklo.Delivery.Quota

open Koklo.Foundations
open Koklo.Foundations.Binary64

/-! ## Delays -/

/-- The delay of the provider, strictly in the future and at most `maxDelayMs`. -/
def providerDelay (signal : QuotaSignal) (now : ℚ) (policy : BackoffPolicy) : Checked (Option ℚ) :=
  (resolveResetAt signal now policy.utcOffsetMinutes).map fun instant =>
    instant.bind fun at_ => if now < at_ then some (min (sub at_ now) policy.maxDelayMs) else none

def maxExponent : ℚ := 52

/-- The delay doubles with each hit, up to the longest one. -/
def fallbackDelay (hits : ℚ) (policy : BackoffPolicy) : ℚ :=
  min policy.maxDelayMs (mul policy.baseMs (2 ^ ⌊min hits maxExponent⌋.toNat))

/-- The delay with its jitter, up to the longest one. -/
def withJitter (delay jitter : ℚ) (policy : BackoffPolicy) : ℚ :=
  min policy.maxDelayMs ⌊mul delay (add 1 (mul jitter policy.jitterRatio))⌋

/-! ## Hits -/

/-- A hit during a backoff extends it, when its date is later, and does not count. -/
def extendBurst (state : QuotaState) (resumeAt : ℚ) (signal : QuotaSignal) (now : ℚ)
    (candidate : Option ℚ) : QuotaState :=
  match candidate with
  | none => state
  | some candidate =>
    if candidate ≤ resumeAt then state
    else { state with
      resumeAt := some candidate
      lastHitAt := some now
      lastSignalId := signal.id
      version := add state.version 1 }

/-- The state after a hit outside of a backoff. -/
def nextStep (state : QuotaState) (signal : QuotaSignal) (now delay : ℚ) (policy : BackoffPolicy) :
    QuotaState :=
  let hits :=
    if signal.strength = .strong then min (add state.consecutiveHits 1) policy.maxConsecutiveHits
    else state.consecutiveHits
  let exhausted :=
    signal.strength = .strong ∧ (signal.kind = .exhausted ∨ policy.maxConsecutiveHits ≤ hits)
  { state with
    status := if exhausted then .exhausted else .backoff
    resumeAt := if exhausted then none else some (max (state.resumeAt.getD 0) (add now delay))
    consecutiveHits := hits
    lastHitAt := some now
    lastSignalId := signal.id
    version := add state.version 1 }

/-- The end of a backoff that is going on at `now`. -/
def QuotaState.activeUntil (state : QuotaState) (now : ℚ) : Option ℚ :=
  if state.status = .backoff then state.resumeAt.filter (now < ·) else none

/-- The state after a hit: one more of a burst, or the next step. -/
def applyHit (state : QuotaState) (signal : QuotaSignal) (now jitter : ℚ) (policy : BackoffPolicy) :
    Checked QuotaState :=
  (providerDelay signal now policy).map fun provider =>
    match state.activeUntil now with
    | some resumeAt =>
      extendBurst state resumeAt signal now
        (provider.map fun delay => add now (withJitter delay jitter policy))
    | none =>
      let delay := provider.getD (fallbackDelay state.consecutiveHits policy)
      nextStep state signal now (withJitter delay jitter policy) policy

/-- A hit: checks, replay, version, and last the backoff. -/
def onQuotaHit (state : QuotaState) (signal : QuotaSignal) (now jitter : ℚ) (policy : BackoffPolicy)
    (expectedVersion : Option ℚ) : Checked QuotaState := do
  assertSignal signal
  assertNow now
  assertJitter jitter
  assertBackoffPolicy policy
  assertStateInput state
  let expected ← expectedVersionOf expectedVersion
  if signal.id.isSome ∧ signal.id = state.lastSignalId then .ok state
  else do
    assertFresh state.version expected
    if state.status = .exhausted then .ok state else applyHit state signal now jitter policy

/-- A human rearms: back to `ok`, with no effect when there is nothing to clear. -/
def clearQuota (state : QuotaState) (expectedVersion : Option ℚ) : Checked QuotaState := do
  let expected ← expectedVersionOf expectedVersion
  assertFresh state.version expected
  if state.status = .ok ∧ state.consecutiveHits = 0 then .ok state
  else .ok { state with
    status := .ok
    resumeAt := none
    consecutiveHits := 0
    version := add state.version 1 }

/-! ## What the delays are -/

/-- A delay that is applied: a whole number of milliseconds up to the cap of the policy. -/
structure IsDelay (policy : BackoffPolicy) (delay : ℚ) : Prop where
  whole : ∃ n : ℕ, delay = n
  one : 1 ≤ delay
  cap : delay ≤ policy.maxDelayMs

section Delays

variable {policy : BackoffPolicy}

theorem round_one : Binary64.round 1 = 1 := by
  have exact := Binary64.round_intCast (n := 1) (by norm_num)
  rwa [Int.cast_one] at exact

/-- Rounding keeps what is at least one. -/
theorem one_le_round {q : ℚ} (one : 1 ≤ q) : 1 ≤ Binary64.round q := by
  have rounded := round_mono one
  rwa [round_one] at rounded

theorem BackoffPolicy.Valid.one_le (valid : policy.Valid) : 1 ≤ policy.maxDelayMs := by
  obtain ⟨n, whole, positive⟩ := valid.delay
  rw [whole]
  exact_mod_cast positive

/-- **The jitter only adds**, and the cap comes last. -/
theorem isDelay_withJitter (valid : policy.Valid) {delay jitter : ℚ} (one : 1 ≤ delay)
    (nonneg : 0 ≤ jitter) : IsDelay policy (withJitter delay jitter policy) := by
  have factor : 1 ≤ add 1 (mul jitter policy.jitterRatio) := by
    apply one_le_round
    have part : 0 ≤ mul jitter policy.jitterRatio := round_nonneg (mul_nonneg nonneg valid.ratio)
    linarith
  have product : 1 ≤ mul delay (add 1 (mul jitter policy.jitterRatio)) :=
    one_le_round (one_le_mul_of_one_le_of_one_le one factor)
  have floor : 1 ≤ ⌊mul delay (add 1 (mul jitter policy.jitterRatio))⌋ := Int.le_floor.mpr (by
    rw [Int.cast_one]
    exact product)
  refine ⟨?_, ?_, min_le_left _ _⟩
  · rw [withJitter]
    rcases min_choice policy.maxDelayMs ⌊mul delay (add 1 (mul jitter policy.jitterRatio))⌋ with
      left | right
    · obtain ⟨n, whole, _⟩ := valid.delay
      exact ⟨n, left.trans whole⟩
    · obtain ⟨n, natural⟩ := Int.eq_ofNat_of_zero_le (zero_le_one.trans floor)
      exact ⟨n, right.trans (by rw [natural]; norm_cast)⟩
  · exact le_min valid.one_le (by exact_mod_cast floor)

theorem one_le_fallbackDelay (valid : policy.Valid) (hits : ℚ) : 1 ≤ fallbackDelay hits policy := by
  obtain ⟨n, whole, positive, _⟩ := valid.base
  apply le_min valid.one_le
  apply one_le_round
  rw [whole]
  have base : (1 : ℚ) ≤ n := by exact_mod_cast positive
  exact one_le_mul_of_one_le_of_one_le base (one_le_pow₀ (by norm_num))

/-- The delay of the provider is at least one. -/
theorem one_le_providerDelay (valid : policy.Valid) {signal : QuotaSignal} {u : Unit} {now : ℕ}
    {delay : ℚ} (accepted : assertSignal signal = .ok u) (small : now < 2 ^ 53)
    (provided : providerDelay signal now policy = .ok (some delay)) : 1 ≤ delay := by
  rw [providerDelay, map_eq_ok] at provided
  obtain ⟨instant, resolved, provided⟩ := provided
  obtain ⟨at_, rfl, chosen⟩ := Option.bind_eq_some_iff.mp provided
  split at chosen
  · rename_i future
    obtain ⟨n, whole⟩ := exists_resolveResetAt accepted small resolved
    rw [Option.some.injEq] at chosen
    rw [← chosen]
    apply le_min _ valid.one_le
    apply one_le_round
    rw [whole] at future ⊢
    have later : (now : ℤ) < n := by exact_mod_cast future
    have gap : (1 : ℤ) ≤ n - now := by omega
    exact_mod_cast gap
  · cases chosen

end Delays

/-! ## What a hit can do -/

/-- What an accepted hit was checked for. -/
structure HitInput (now jitter : ℚ) (policy : BackoffPolicy) : Prop where
  now : ∃ n : ℕ, now = n ∧ n < 2 ^ 53
  jitter : 0 ≤ jitter
  policy : policy.Valid

/-- **What an accepted hit can do**: nothing, extend the backoff that is going on, or a step. -/
theorem onQuotaHit_cases {state next : QuotaState} {signal : QuotaSignal} {now jitter : ℚ}
    {policy : BackoffPolicy} {expected : Option ℚ}
    (accepted : onQuotaHit state signal now jitter policy expected = .ok next) :
    HitInput now jitter policy ∧ (∀ id ∈ signal.id, isText id = true) ∧
      isSafeCount state.consecutiveHits = true ∧
      (next = state ∨
        (∃ resumeAt delay, state.activeUntil now = some resumeAt ∧ IsDelay policy delay ∧
          resumeAt < add now delay ∧
          next = extendBurst state resumeAt signal now (some (add now delay))) ∨
        (state.status ≠ .exhausted ∧ state.activeUntil now = none ∧
          ∃ delay, IsDelay policy delay ∧ next = nextStep state signal now delay policy)) := by
  rw [onQuotaHit] at accepted
  obtain ⟨u, signalOk, accepted⟩ := bind_eq_ok.mp accepted
  obtain ⟨_, nowOk, accepted⟩ := bind_eq_ok.mp accepted
  obtain ⟨_, jitterOk, accepted⟩ := bind_eq_ok.mp accepted
  obtain ⟨_, policyOk, accepted⟩ := bind_eq_ok.mp accepted
  obtain ⟨_, stateOk, accepted⟩ := bind_eq_ok.mp accepted
  obtain ⟨expected, _, accepted⟩ := bind_eq_ok.mp accepted
  have valid := assertBackoffPolicy_eq_ok policyOk
  obtain ⟨n, rfl, small⟩ := isSafeCount_iff.mp (assertThat_eq_ok.mp nowOk)
  have nonneg : 0 ≤ jitter := by
    rw [assertJitter, assertThat_eq_ok, Bool.not_eq_true', Bool.or_eq_false_iff,
      decide_eq_false_iff_not, not_lt] at jitterOk
    exact jitterOk.1
  have counted : isSafeCount state.consecutiveHits = true := by
    rw [assertStateInput] at stateOk
    obtain ⟨_, counts, _⟩ := bind_eq_ok.mp stateOk
    rw [assertThat_eq_ok, Bool.and_eq_true] at counts
    exact counts.1
  refine ⟨⟨⟨n, rfl, small⟩, nonneg, valid⟩, (assertSignal_eq_ok signalOk).2.2, counted, ?_⟩
  split at accepted
  · cases accepted
    exact .inl rfl
  obtain ⟨_, _, accepted⟩ := bind_eq_ok.mp accepted
  split at accepted
  · cases accepted
    exact .inl rfl
  rename_i alive
  rw [applyHit, map_eq_ok] at accepted
  obtain ⟨provider, provided, applied⟩ := accepted
  have one : ∀ delay ∈ provider, 1 ≤ delay := by
    rintro delay member
    rw [Option.mem_def.mp member] at provided
    exact one_le_providerDelay valid signalOk small provided
  cases active : state.activeUntil n with
  | some resumeAt =>
    simp only [active] at applied
    cases provider with
    | none => exact .inl applied.symm
    | some delay =>
      by_cases later : add n (withJitter delay jitter policy) ≤ resumeAt
      · left
        rw [← applied, Option.map_some, extendBurst, if_pos later]
      · right
        left
        exact ⟨resumeAt, _, rfl, isDelay_withJitter valid (one delay rfl) nonneg, not_le.mp later,
          applied.symm⟩
  | none =>
    simp only [active] at applied
    refine .inr (.inr ⟨alive, rfl, _, isDelay_withJitter valid ?_ nonneg, applied.symm⟩)
    cases provider with
    | none => exact one_le_fallbackDelay valid state.consecutiveHits
    | some delay => exact one delay rfl

end Koklo.Delivery.Quota
