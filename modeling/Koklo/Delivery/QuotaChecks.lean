import Koklo.Foundations.Fallible
import Koklo.Foundations.OrderedMap
import Koklo.Foundations.Text
import Koklo.Foundations.WholeDoubles

/-!
# The quota state and its checks

The state of a quota, the signals and policies that change it, and the checks of what is
received. Numbers are finite doubles, the rationals that they stand for: every check refuses
what is not finite. A count that passes its check is a natural number below `2 ^ 53`
(`isSafeCount_iff`).
-/

set_option autoImplicit false

namespace Koklo.Delivery.Quota

open Koklo.Foundations

/-- What the functions of the quota throw. -/
inductive QuotaError where
  | invalid (reason : Text)
  | stale (expected actual : ℚ)
deriving DecidableEq

/-- A value, or the error of the check that refuses it. -/
abbrev Checked (α : Type) := Except QuotaError α

/-- A check refuses the value. -/
def fail {α : Type} (reason : String) : Checked α := .error (.invalid (Text.lit reason))

/-- A condition, or the reason of a refusal. -/
def assertThat (holds : Bool) (reason : String) : Checked Unit := if holds then .ok () else fail reason

@[simp] theorem assertThat_eq_ok {holds : Bool} {reason : String} {u : Unit} :
    assertThat holds reason = .ok u ↔ holds = true := by
  cases holds
  · exact iff_of_false nofun nofun
  · exact iff_of_true rfl rfl

/-! ## Numbers -/

/-- `QUOTA_MIN_EPOCH_MS`. -/
def minEpochMs : ℚ := 946684800000

/-- `QUOTA_MAX_EPOCH_MS`. -/
def maxEpochMs : ℚ := 4102444800000

/-- `QUOTA_MAX_BACKOFF_MS`: 24 hours. -/
def maxBackoffMs : ℚ := 86400000

def maxOffsetMinutes : ℚ := 1440

/-- `Number.isSafeInteger`. -/
def isSafeInteger (q : ℚ) : Bool := q.den = 1 && |q| ≤ 2 ^ 53 - 1

/-- An integer of a double, not negative. -/
def isSafeCount (q : ℚ) : Bool := isSafeInteger q && 0 ≤ q

/-- A positive integer of a double. -/
def isPositiveInt (q : ℚ) : Bool := isSafeInteger q && 0 < q

/-- An instant between the bounds. -/
def isEpoch (q : ℚ) : Bool := isSafeInteger q && minEpochMs ≤ q && q ≤ maxEpochMs

/-- An offset of less than a day, in minutes. -/
def isUtcOffset (q : ℚ) : Bool := q.den = 1 && |q| < maxOffsetMinutes

theorem isSafeInteger_iff {q : ℚ} : isSafeInteger q = true ↔ ∃ n : ℤ, q = n ∧ |n| < 2 ^ 53 := by
  rw [isSafeInteger, Bool.and_eq_true, decide_eq_true_eq, decide_eq_true_eq]
  constructor
  · rintro ⟨whole, small⟩
    have shape : q = q.num := (Rat.den_eq_one_iff q).mp whole |>.symm
    refine ⟨q.num, shape, ?_⟩
    rw [shape] at small
    have bound : |q.num| ≤ 2 ^ 53 - 1 := by exact_mod_cast small
    omega
  · rintro ⟨n, rfl, small⟩
    refine ⟨Rat.den_intCast n, ?_⟩
    have bound : |n| ≤ 2 ^ 53 - 1 := by omega
    exact_mod_cast bound

/-- **A count is a natural number** of at most 53 bits. -/
theorem isSafeCount_iff {q : ℚ} : isSafeCount q = true ↔ ∃ n : ℕ, q = n ∧ n < 2 ^ 53 := by
  rw [isSafeCount, Bool.and_eq_true, isSafeInteger_iff, decide_eq_true_eq]
  constructor
  · rintro ⟨⟨n, rfl, small⟩, positive⟩
    obtain ⟨m, rfl⟩ := Int.eq_ofNat_of_zero_le (Int.cast_nonneg_iff.mp positive)
    rw [Nat.abs_cast] at small
    exact ⟨m, rfl, by exact_mod_cast small⟩
  · rintro ⟨n, rfl, small⟩
    refine ⟨⟨n, rfl, ?_⟩, Nat.cast_nonneg n⟩
    rw [Nat.abs_cast]
    exact_mod_cast small

theorem isSafeCount_natCast {n : ℕ} (small : n < 2 ^ 53) : isSafeCount n = true :=
  isSafeCount_iff.mpr ⟨n, rfl, small⟩

theorem isPositiveInt_iff {q : ℚ} : isPositiveInt q = true ↔ ∃ n : ℕ, q = n ∧ 0 < n ∧ n < 2 ^ 53 := by
  have split : isPositiveInt q = true ↔ isSafeCount q = true ∧ 0 < q := by
    rw [isPositiveInt, isSafeCount, Bool.and_eq_true, Bool.and_eq_true, decide_eq_true_eq,
      decide_eq_true_eq]
    exact ⟨fun h => ⟨⟨h.1, h.2.le⟩, h.2⟩, fun h => ⟨h.1.1, h.2⟩⟩
  rw [split, isSafeCount_iff]
  constructor
  · rintro ⟨⟨n, rfl, small⟩, positive⟩
    exact ⟨n, rfl, Nat.cast_pos.mp positive, small⟩
  · rintro ⟨n, rfl, positive, small⟩
    exact ⟨⟨n, rfl, small⟩, Nat.cast_pos.mpr positive⟩

theorem isUtcOffset_iff {q : ℚ} : isUtcOffset q = true ↔ ∃ n : ℤ, q = n ∧ |n| < 1440 := by
  rw [isUtcOffset, Bool.and_eq_true, decide_eq_true_eq, decide_eq_true_eq, maxOffsetMinutes]
  constructor
  · rintro ⟨whole, small⟩
    have shape : q = q.num := (Rat.den_eq_one_iff q).mp whole |>.symm
    rw [shape] at small
    exact ⟨q.num, shape, by exact_mod_cast small⟩
  · rintro ⟨n, rfl, small⟩
    exact ⟨Rat.den_intCast n, by exact_mod_cast small⟩

/-- `isText`: a text with something visible. -/
def isText (t : Text) : Bool := Text.trim t ≠ []

/-! ## Policies, signals and the state -/

/-- How long to wait, and for how many hits in a row. -/
structure BackoffPolicy where
  baseMs : ℚ
  maxDelayMs : ℚ
  jitterRatio : ℚ
  maxConsecutiveHits : ℚ
  utcOffsetMinutes : Option ℚ

/-- The kinds of limits. -/
inductive QuotaKind where
  | rateWindow | exhausted | unknownLimit
deriving DecidableEq

/-- The strength of a signal: a weak one does not count towards exhaustion. -/
inductive QuotaStrength where
  | strong | weak
deriving DecidableEq

/-- A wall-clock time, with the name of its zone when one is announced. -/
structure ClockHint where
  hour : ℚ
  minute : ℚ
  zone : Option Text

/-- What is known of a limit that was hit. -/
structure QuotaSignal where
  kind : QuotaKind
  strength : QuotaStrength
  resetAt : Option ℚ
  retryAfterMs : Option ℚ
  resetHint : Option ClockHint
  id : Option Text

/-- The status of a quota. -/
inductive QuotaStatus where
  | ok | backoff | exhausted
deriving DecidableEq

/-- What was used in a window. -/
structure WindowCount where
  start : ℚ
  runs : ℚ
  tokens : ℚ
deriving DecidableEq

/-- One state for each runner, shared by all its workers. -/
structure QuotaState where
  status : QuotaStatus
  resumeAt : Option ℚ
  consecutiveHits : ℚ
  lastHitAt : Option ℚ
  lastSignalId : Option Text
  windows : OrderedMap Text WindowCount
  usageIds : List Text
  version : ℚ
deriving DecidableEq

/-- The state before any signal. -/
def startQuotaState : QuotaState where
  status := .ok
  resumeAt := none
  consecutiveHits := 0
  lastHitAt := none
  lastSignalId := none
  windows := []
  usageIds := []
  version := 0

/-! ## Checks of what is received -/

/-- The instant is a count. -/
def assertNow (now : ℚ) : Checked Unit :=
  assertThat (isSafeCount now) "instant invalide (entier >= 0 attendu)"

/-- The expected version of the options, when there is one. -/
def expectedVersionOf (expectedVersion : Option ℚ) : Checked (Option ℚ) :=
  if expectedVersion.all isSafeCount then .ok expectedVersion else fail "expectedVersion invalide"

/-- The version is the expected one, when one is expected. -/
def assertFresh (actualVersion : ℚ) (expectedVersion : Option ℚ) : Checked Unit :=
  match expectedVersion with
  | none => .ok ()
  | some expected =>
    if expected ≠ actualVersion then .error (.stale expected actualVersion) else .ok ()

/-- The jitter is in `[0, 1)`. -/
def assertJitter (jitter : ℚ) : Checked Unit :=
  assertThat (!(jitter < 0 || 1 ≤ jitter)) "gigue hors de [0,1)"

/-- The checks of a policy. -/
def assertBackoffPolicy (policy : BackoffPolicy) : Checked Unit := do
  assertThat (isPositiveInt policy.baseMs) "baseMs invalide"
  assertThat (isSafeCount policy.maxDelayMs && !(policy.maxDelayMs < policy.baseMs) &&
    !(maxBackoffMs < policy.maxDelayMs)) "maxDelayMs invalide (plafond dur de 24 h)"
  assertThat (0 ≤ policy.jitterRatio && policy.jitterRatio ≤ 1) "jitterRatio hors de [0,1]"
  assertThat (isPositiveInt policy.maxConsecutiveHits) "maxConsecutiveHits invalide"
  assertThat (policy.utcOffsetMinutes.all isUtcOffset) "décalage UTC invalide"

/-- The checks of a signal. -/
def assertSignal (signal : QuotaSignal) : Checked Unit := do
  assertThat (signal.resetAt.all isSafeCount && signal.retryAfterMs.all isSafeCount)
    "date ou délai de reprise invalide"
  assertThat (signal.id.all isText) "identifiant de signal invalide"

/-- A state that is received in memory may be forged. -/
def assertStateInput (state : QuotaState) : Checked Unit := do
  assertThat (isSafeCount state.consecutiveHits && isSafeCount state.version)
    "compteur ou version invalide"
  assertThat (state.resumeAt.all isSafeCount) "resumeAt invalide"

/-- What a policy that is accepted is. -/
structure BackoffPolicy.Valid (policy : BackoffPolicy) : Prop where
  base : ∃ n : ℕ, policy.baseMs = n ∧ 0 < n ∧ n < 2 ^ 53
  delay : ∃ n : ℕ, policy.maxDelayMs = n ∧ 0 < n
  cap : policy.maxDelayMs ≤ maxBackoffMs
  ratio : 0 ≤ policy.jitterRatio
  hits : ∃ n : ℕ, policy.maxConsecutiveHits = n ∧ 0 < n ∧ n < 2 ^ 53
  offset : ∀ offset ∈ policy.utcOffsetMinutes, isUtcOffset offset = true

theorem assertBackoffPolicy_eq_ok {policy : BackoffPolicy} {u : Unit}
    (accepted : assertBackoffPolicy policy = .ok u) : policy.Valid := by
  simp only [assertBackoffPolicy, bind_eq_ok, assertThat_eq_ok, Bool.and_eq_true,
    Bool.not_eq_true', decide_eq_false_iff_not, not_lt, decide_eq_true_eq] at accepted
  obtain ⟨_, base, _, ⟨⟨delay, above⟩, cap⟩, _, ratio, _, hits, valid⟩ := accepted
  obtain ⟨n, whole, positive, small⟩ := isPositiveInt_iff.mp base
  obtain ⟨d, whole', _⟩ := isSafeCount_iff.mp delay
  refine ⟨⟨n, whole, positive, small⟩, ⟨d, whole', ?_⟩, cap, ratio.1, isPositiveInt_iff.mp hits, ?_⟩
  · rw [whole, whole', Nat.cast_le] at above
    omega
  · intro offset member
    rw [Option.mem_def.mp member] at valid
    exact valid

end Koklo.Delivery.Quota
