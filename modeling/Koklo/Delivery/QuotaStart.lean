import Koklo.Delivery.QuotaAccounting
import Koklo.Delivery.QuotaRuns

/-!
# The earliest start

`nextAllowedAt` is the later of the end of the backoff that goes on and of the end of the
window whose caps are reached. A start is refused as long as one of them is ahead
(`canStart_eq`), and both are past at the instant that is answered, whose window has counted
nothing when it is a later one: `nextAllowedAt` is the exact earliest start
(`nextAllowedAt_earliest`).
-/

set_option autoImplicit false

namespace Koklo.Delivery.Quota

open Koklo.Foundations
open Koklo.Foundations.Binary64

/-- No window of the state starts after `now`. -/
def QuotaState.WindowsBy (state : QuotaState) (now : ℚ) : Prop :=
  ∀ key count, state.windows.get key = some count → count.start ≤ now

/-- Every cap that is set is at least one. -/
structure UsageCaps.AtLeastOne (caps : UsageCaps) : Prop where
  runs : ∀ cap ∈ caps.maxRuns, 1 ≤ cap
  tokens : ∀ cap ∈ caps.maxTokens, 1 ≤ cap

/-- Every cap of the policy admits one session. -/
def UsagePolicy.CapsAtLeastOne (policy : UsagePolicy) : Prop :=
  ∀ level, ∀ caps ∈ policy.caps level, caps.AtLeastOne

/-- A cap of one of the levels is reached in the window that starts at `start`. -/
def capsReached (state : QuotaState) (start : ℚ) (scope : QuotaScope) (policy : UsagePolicy) : Bool :=
  (scopeLevels scope).any fun (level, key) =>
    (policy.caps level).any (isReached (currentCount state key start))

/-! ## Caps -/

section Caps

variable {state : QuotaState} {scope : QuotaScope} {policy : UsagePolicy}

theorem capsFreeAt_of_reached {now : ℚ}
    (reached : capsReached state (windowStart now policy.windowMs) scope policy = true) :
    capsFreeAt state now scope policy = add (windowStart now policy.windowMs) policy.windowMs :=
  if_pos reached

theorem capsFreeAt_of_free {now : ℚ}
    (free : capsReached state (windowStart now policy.windowMs) scope policy = false) :
    capsFreeAt state now scope policy = now := by
  apply if_neg
  rw [Bool.not_eq_true]
  exact free

/-- A window that has counted nothing reaches no cap. -/
theorem isReached_zero {start : ℚ} {caps : UsageCaps} (caps_ : caps.AtLeastOne) :
    isReached ⟨start, 0, 0⟩ caps = false := by
  rw [isReached, Bool.or_eq_false_iff]
  constructor
  · cases cap : caps.maxRuns with
    | none => rfl
    | some runs =>
      have one := caps_.runs runs (Option.mem_def.mpr cap)
      exact decide_eq_false (not_le.mpr (by linarith))
  · cases cap : caps.maxTokens with
    | none => rfl
    | some tokens =>
      have one := caps_.tokens tokens (Option.mem_def.mpr cap)
      exact decide_eq_false (not_le.mpr (by linarith))

/-- **A window that starts after those of the state reaches no cap.** -/
theorem capsReached_of_later {now start : ℚ} (past : state.WindowsBy now) (later : now < start)
    (caps : policy.CapsAtLeastOne) : capsReached state start scope policy = false := by
  rw [capsReached, List.any_eq_false]
  rintro ⟨level, key⟩ _
  have empty : currentCount state key start = ⟨start, 0, 0⟩ := by
    rw [currentCount]
    cases read : state.windows.get key with
    | none => rfl
    | some count =>
      have other : count.start ≠ start := ((past key count read).trans_lt later).ne
      exact if_neg other
  simp only [empty]
  cases known : policy.caps level with
  | none => exact Bool.false_ne_true
  | some own =>
    rw [Option.any_some, isReached_zero (caps level own (Option.mem_def.mpr known))]
    exact Bool.false_ne_true

end Caps

/-! ## Windows -/

section Windows

variable {windowMs : ℚ} {t : ℕ}

/-- An instant is before the end of its window. -/
theorem lt_add_windowStart (length : isPositiveInt windowMs = true) (small : t < 2 ^ 53) :
    (t : ℚ) < add (windowStart t windowMs) windowMs := by
  obtain ⟨w, rfl, positive, wide⟩ := isPositiveInt_iff.mp length
  have exact : Binary64.round ((t + 1 : ℕ) : ℚ) = (t + 1 : ℕ) := by
    have bound : |((t + 1 : ℕ) : ℤ)| ≤ 2 ^ 53 := by
      rw [Nat.abs_cast]
      exact_mod_cast small
    exact_mod_cast Binary64.round_intCast bound
  have inside : t + 1 ≤ t / w * w + w := by
    rw [← Nat.succ_mul]
    exact Nat.lt_mul_of_div_lt (Nat.lt_succ_self _) positive
  rw [windowStart_natCast small positive wide]
  calc (t : ℚ) < (t + 1 : ℕ) := by exact_mod_cast Nat.lt_succ_self t
    _ = Binary64.round ((t + 1 : ℕ) : ℚ) := exact.symm
    _ ≤ add (t / w * w : ℕ) w := round_mono (by exact_mod_cast inside)

/-- **The instants before the end of a window are in it.** -/
theorem windowStart_of_lt_end {now : ℕ} (length : isPositiveInt windowMs = true) (small : t < 2 ^ 53)
    (later : now ≤ t) (before : (t : ℚ) < add (windowStart now windowMs) windowMs) :
    windowStart t windowMs = windowStart now windowMs := by
  obtain ⟨w, rfl, positive, wide⟩ := isPositiveInt_iff.mp length
  rw [windowStart_natCast (later.trans_lt small) positive wide] at before ⊢
  have inside : t < now / w * w + w := by
    rcases Nat.lt_or_ge (2 ^ 53) (now / w * w + w) with wide | narrow
    · exact small.trans wide
    · rw [add_natCast narrow] at before
      exact_mod_cast before
  have same : t / w = now / w := by
    apply le_antisymm
    · rw [← Nat.succ_mul] at inside
      exact Nat.lt_succ_iff.mp ((Nat.div_lt_iff_lt_mul positive).mpr inside)
    · exact Nat.div_le_div_right later
  rw [windowStart_natCast small positive wide, same]

/-- A window of a later instant is the same one, or starts after the earlier instant. -/
theorem windowStart_cases {now : ℕ} (length : isPositiveInt windowMs = true) (small : t < 2 ^ 53)
    (later : now ≤ t) :
    windowStart t windowMs = windowStart now windowMs ∨ (now : ℚ) < windowStart t windowMs := by
  obtain ⟨w, rfl, positive, wide⟩ := isPositiveInt_iff.mp length
  rw [windowStart_natCast (later.trans_lt small) positive wide,
    windowStart_natCast small positive wide]
  rcases (Nat.div_le_div_right later : now / w ≤ t / w).eq_or_lt with same | next
  · exact .inl (by rw [same])
  · right
    exact_mod_cast Nat.lt_mul_of_div_lt next positive

end Windows

/-! ## Starts -/

section Starts

variable {state : QuotaState} {scope : QuotaScope} {policy : Option UsagePolicy}

/-- What a question about a start was checked for, and that no human is awaited. -/
structure StartInput (state : QuotaState) (scope : QuotaScope) (policy : Option UsagePolicy) :
    Prop where
  scope : assertScope scope = .ok ()
  policy : policy.elim (.ok ()) assertUsagePolicy = .ok ()
  alive : state.status ≠ .exhausted

/-- The answer to a question that is accepted. -/
def allowedAt (state : QuotaState) (now : ℚ) (scope : QuotaScope) (policy : Option UsagePolicy) : ℚ :=
  max ((state.activeUntil now).getD now) (policy.elim now (capsFreeAt state now scope))

theorem nextAllowedAt_eq {now : ℚ} (count : isSafeCount now = true)
    (input : StartInput state scope policy) :
    nextAllowedAt state now scope policy = .ok (some (allowedAt state now scope policy)) := by
  rw [nextAllowedAt, assertNow, count, input.scope, input.policy]
  exact if_neg input.alive

/-- An instant is answered to a question that is accepted. -/
theorem nextAllowedAt_eq_some {now u : ℚ}
    (answered : nextAllowedAt state now scope policy = .ok (some u)) :
    isSafeCount now = true ∧ StartInput state scope policy ∧ u = allowedAt state now scope policy := by
  have known := answered
  rw [nextAllowedAt] at known
  obtain ⟨_, nowOk, known⟩ := bind_eq_ok.mp known
  obtain ⟨_, scopeOk, known⟩ := bind_eq_ok.mp known
  obtain ⟨_, policyOk, known⟩ := bind_eq_ok.mp known
  have count := assertThat_eq_ok.mp nowOk
  by_cases exhausted : state.status = .exhausted
  · rw [if_pos exhausted] at known
    cases known
  · have input : StartInput state scope policy := ⟨scopeOk, policyOk, exhausted⟩
    rw [nextAllowedAt_eq count input] at answered
    cases answered
    exact ⟨count, input, rfl⟩

theorem StartInput.windowMs {own : UsagePolicy} (input : StartInput state scope (some own)) :
    isPositiveInt own.windowMs = true := by
  have checked : assertUsagePolicy own = .ok () := input.policy
  simp only [assertUsagePolicy, bind_eq_ok, assertThat_eq_ok] at checked
  obtain ⟨_, length, _⟩ := checked
  exact length

/-- The caps of the policy forbid a start at `now`. -/
def blockedByCaps (state : QuotaState) (now : ℚ) (scope : QuotaScope) (policy : Option UsagePolicy) :
    Bool :=
  policy.any fun own => capsReached state (windowStart now own.windowMs) scope own

/-- The caps answer `now` when they forbid nothing, and a later instant otherwise. -/
theorem capsFreeAt_eq_iff {t : ℕ} (input : StartInput state scope policy) (small : t < 2 ^ 53) :
    (blockedByCaps state t scope policy = false →
      policy.elim (t : ℚ) (capsFreeAt state t scope) = t) ∧
    (blockedByCaps state t scope policy = true →
      (t : ℚ) < policy.elim (t : ℚ) (capsFreeAt state t scope)) := by
  cases policy with
  | none => exact ⟨fun _ => rfl, fun blocked => absurd blocked Bool.false_ne_true⟩
  | some own =>
    refine ⟨fun free => capsFreeAt_of_free free, fun blocked => ?_⟩
    rw [Option.elim_some, capsFreeAt_of_reached blocked]
    exact lt_add_windowStart input.windowMs small

/-- **When a start is allowed**: no backoff goes on, and no cap is reached. -/
theorem canStart_eq {t : ℕ} (small : t < 2 ^ 53) (input : StartInput state scope policy) :
    canStart state t scope policy =
      .ok ((state.activeUntil t).isNone && !blockedByCaps state t scope policy) := by
  obtain ⟨free, blocked⟩ := capsFreeAt_eq_iff input small
  rw [canStart, nextAllowedAt_eq (isSafeCount_natCast small) input]
  show Except.ok (decide _) = Except.ok _
  rw [Except.ok.injEq, Bool.eq_iff_iff, decide_eq_true_eq, Option.some.injEq, allowedAt]
  cases active : state.activeUntil t with
  | some resumeAt =>
    have ahead := (activeUntil_eq_some.mp active).2.2
    rw [Option.getD_some]
    exact iff_of_false (ahead.trans_le (le_max_left _ _)).ne' Bool.false_ne_true
  | none =>
    rw [Option.getD_none]
    cases caps : blockedByCaps state t scope policy with
    | false =>
      rw [free caps, max_self]
      exact iff_of_true rfl rfl
    | true =>
      have ahead := (blocked caps).trans_le (le_max_right (t : ℚ) _)
      exact iff_of_false ahead.ne' Bool.false_ne_true

/-- Before the instant that is answered, a start is refused. -/
theorem canStart_of_lt {now t : ℕ} (small : t < 2 ^ 53) (input : StartInput state scope policy)
    (later : now ≤ t) (before : (t : ℚ) < allowedAt state now scope policy) :
    canStart state t scope policy = .ok false := by
  rw [canStart_eq small input, Except.ok.injEq, Bool.and_eq_false_iff]
  rcases lt_max_iff.mp before with backoff | caps
  · left
    cases active : state.activeUntil now with
    | none =>
      rw [active, Option.getD_none, Nat.cast_lt] at backoff
      omega
    | some resumeAt =>
      rw [active, Option.getD_some] at backoff
      obtain ⟨status, resume, _⟩ := activeUntil_eq_some.mp active
      rw [activeUntil_eq_some.mpr ⟨status, resume, backoff⟩]
      rfl
  · right
    rw [Bool.not_eq_false']
    cases policy with
    | none =>
      rw [Option.elim_none, Nat.cast_lt] at caps
      omega
    | some own =>
      rw [Option.elim_some] at caps
      cases reached : capsReached state (windowStart now own.windowMs) scope own with
      | false =>
        rw [capsFreeAt_of_free reached, Nat.cast_lt] at caps
        omega
      | true =>
        rw [capsFreeAt_of_reached reached] at caps
        rw [blockedByCaps, Option.any_some,
          windowStart_of_lt_end input.windowMs small later caps]
        exact reached

/-- At the instant that is answered, a start is allowed. -/
theorem canStart_allowedAt {now u : ℕ} (small : u < 2 ^ 53) (input : StartInput state scope policy)
    (past : state.WindowsBy now) (caps : ∀ own ∈ policy, own.CapsAtLeastOne)
    (answer : (u : ℚ) = allowedAt state now scope policy) (later : now ≤ u) :
    canStart state u scope policy = .ok true := by
  have backoff : (state.activeUntil now).getD now ≤ u := answer ▸ le_max_left _ _
  have ends : policy.elim (now : ℚ) (capsFreeAt state now scope) ≤ u := answer ▸ le_max_right _ _
  rw [canStart_eq small input, Except.ok.injEq, Bool.and_eq_true, Bool.not_eq_true']
  constructor
  · rw [Option.isNone_iff_eq_none, Option.eq_none_iff_forall_ne_some]
    intro resumeAt active
    obtain ⟨status, resume, ahead⟩ := activeUntil_eq_some.mp active
    have before : (now : ℚ) < resumeAt := lt_of_le_of_lt (by exact_mod_cast later) ahead
    rw [activeUntil_eq_some.mpr ⟨status, resume, before⟩, Option.getD_some] at backoff
    exact absurd ahead (not_lt.mpr backoff)
  · cases policy with
    | none => rfl
    | some own =>
      rw [Option.elim_some] at ends
      rw [blockedByCaps, Option.any_some]
      rcases windowStart_cases input.windowMs small later with same | next
      · rw [same]
        cases reached : capsReached state (windowStart now own.windowMs) scope own with
        | false => rfl
        | true =>
          rw [capsFreeAt_of_reached reached, ← same] at ends
          exact absurd ends (not_le.mpr (lt_add_windowStart input.windowMs small))
      · exact capsReached_of_later past next (caps own rfl)

end Starts

/-- **`nextAllowedAt` is the exact earliest start**: from `now` on a start is refused at every
instant before the one that is answered, and allowed at that one. An instant is what `assertNow`
accepts. -/
theorem nextAllowedAt_earliest {state : QuotaState} {scope : QuotaScope} {policy : Option UsagePolicy}
    {now u : ℚ} (past : state.WindowsBy now) (caps : ∀ own ∈ policy, own.CapsAtLeastOne)
    (answered : nextAllowedAt state now scope policy = .ok (some u)) :
    now ≤ u ∧
      (∀ t, assertNow t = .ok () → now ≤ t → t < u → canStart state t scope policy = .ok false) ∧
      (assertNow u = .ok () → canStart state u scope policy = .ok true) := by
  obtain ⟨count, input, answer⟩ := nextAllowedAt_eq_some answered
  obtain ⟨n, rfl, small⟩ := isSafeCount_iff.mp count
  have later : (n : ℚ) ≤ u := by
    obtain ⟨free, blocked⟩ := capsFreeAt_eq_iff input small
    rw [answer]
    apply le_max_of_le_right
    cases caps_ : blockedByCaps state n scope policy with
    | false => exact (free caps_).ge
    | true => exact (blocked caps_).le
  refine ⟨later, ?_, ?_⟩
  · intro t instant after before
    obtain ⟨m, rfl, small'⟩ := isSafeCount_iff.mp (assertThat_eq_ok.mp instant)
    exact canStart_of_lt small' input (by exact_mod_cast after) (answer ▸ before)
  · intro instant
    obtain ⟨m, rfl, small'⟩ := isSafeCount_iff.mp (assertThat_eq_ok.mp instant)
    exact canStart_allowedAt small' input past caps answer (by exact_mod_cast later)

/-! ## A cap that is reached during a backoff -/

/-- Two runs of the organization are counted in the first hour, and a backoff goes on. -/
def cappedBackoff : QuotaState := { startQuotaState with
  status := .backoff
  resumeAt := some 61000
  windows := [(organizationKey (Text.lit "acme"), ⟨0, 2, 15⟩)] }

def cappedPolicy : UsagePolicy := ⟨3600000, 2, some ⟨some 2, none⟩, none, none⟩

def acmeScope : QuotaScope := ⟨Text.lit "acme", none, none⟩

theorem windowsBy_cappedBackoff : cappedBackoff.WindowsBy 1000 := by
  intro key count read
  have entry := OrderedMap.mem_of_get read
  rw [cappedBackoff, List.mem_singleton] at entry
  rw [(Prod.mk.inj entry).2]
  decide +kernel

theorem capsAtLeastOne_cappedPolicy : cappedPolicy.CapsAtLeastOne := by
  intro level caps known
  cases level with
  | organization =>
    cases known
    exact ⟨fun cap member => by cases member; norm_num, fun cap member => by cases member⟩
  | project => cases known
  | agent => cases known

/-- The window of the first hour ends after the backoff. -/
theorem nextAllowedAt_earliest_capped :
    (1000 : ℚ) ≤ 3600000 ∧
      (∀ t, assertNow t = .ok () → 1000 ≤ t → t < 3600000 →
        canStart cappedBackoff t acmeScope (some cappedPolicy) = .ok false) ∧
      (assertNow 3600000 = .ok () →
        canStart cappedBackoff 3600000 acmeScope (some cappedPolicy) = .ok true) :=
  nextAllowedAt_earliest windowsBy_cappedBackoff
    (fun _ member => Option.mem_some_iff.mp member ▸ capsAtLeastOne_cappedPolicy)
    (by decide +kernel)

end Koklo.Delivery.Quota
