import Koklo.Delivery.QuotaChecks

/-!
# The instant of a reset

A signal announces an instant, a delay or a wall-clock time. A wall-clock time is mapped to
its next occurrence in the time zone of the policy. Whatever the rounding of the sums, the
instant is after `now` and at most a day after it, and the wall clock then shows the time
announced (`nextWallClock_spec`).
-/

set_option autoImplicit false

namespace Koklo.Delivery.Quota

open Koklo.Foundations
open Koklo.Foundations.Binary64

def minuteMs : ℚ := 60000

def dayMs : ℚ := 86400000

/-- An integer up to `max`. -/
def isClockPart (value max : ℚ) : Bool := value.den = 1 && 0 ≤ value && value ≤ max

/-- The hint is an hour and a minute. -/
def assertClock (hint : ClockHint) : Checked Unit :=
  assertThat (isClockPart hint.hour 23 && isClockPart hint.minute 59) "indice horaire invalide"

/-- The next occurrence of a wall-clock time, strictly after `now`. -/
def nextWallClock (hint : ClockHint) (now offsetMinutes : ℚ) : ℚ :=
  let localNow := add now (mul offsetMinutes minuteMs)
  let dayStart := mul ⌊div localNow dayMs⌋ dayMs
  let candidate := add dayStart (mul (add (mul hint.hour 60) hint.minute) minuteMs)
  sub (if localNow < candidate then candidate else add candidate dayMs) (mul offsetMinutes minuteMs)

/-- The instant at which a signal says to resume, when it does. -/
def resolveResetAt (signal : QuotaSignal) (now : ℚ) (utcOffsetMinutes : Option ℚ) :
    Checked (Option ℚ) :=
  if isSafeInteger now = false then fail "instant invalide"
  else match signal.resetAt, signal.retryAfterMs, signal.resetHint with
    | some at_, _, _ => .ok (some at_)
    | none, some delay, _ => .ok (some (add now (min delay maxBackoffMs)))
    | none, none, none => .ok none
    | none, none, some hint =>
      if hint.zone.isSome then .ok none
      else do
        assertClock hint
        match utcOffsetMinutes with
        | none => .ok none
        | some offset =>
          if isUtcOffset offset = false then fail "décalage UTC invalide"
          else .ok (some (nextWallClock hint now offset))

/-! ## Wall-clock times -/

theorem isClockPart_iff {value : ℚ} {max : ℕ} :
    isClockPart value max = true ↔ ∃ n : ℕ, value = n ∧ n ≤ max := by
  rw [isClockPart, Bool.and_eq_true, Bool.and_eq_true, decide_eq_true_eq, decide_eq_true_eq,
    decide_eq_true_eq]
  constructor
  · rintro ⟨⟨whole, positive⟩, small⟩
    have shape : value = value.num := (Rat.den_eq_one_iff value).mp whole |>.symm
    rw [shape] at positive small
    obtain ⟨n, natural⟩ := Int.eq_ofNat_of_zero_le (Int.cast_nonneg_iff.mp positive)
    rw [natural] at shape small
    exact ⟨n, shape, by exact_mod_cast small⟩
  · rintro ⟨n, rfl, small⟩
    exact ⟨⟨Rat.den_natCast n, Nat.cast_nonneg n⟩, by exact_mod_cast small⟩

/-- A whole number that is a double. -/
def Exact (n : ℤ) : Prop := Binary64.round (n : ℚ) = n

theorem exact_of_abs_le {n : ℤ} (small : |n| ≤ 2 ^ 53) : Exact n := Binary64.round_intCast small

theorem exact_two_mul {n : ℤ} (small : |n| ≤ 2 ^ 53) : Exact (2 * n) := round_two_mul small

theorem add_exact {m n : ℤ} (exact : Exact (m + n)) : add m n = (m + n : ℤ) := by
  rw [add, ← Int.cast_add, exact]

theorem sub_exact {m n : ℤ} (exact : Exact (m - n)) : sub m n = (m - n : ℤ) := by
  rw [sub, ← Int.cast_sub, exact]

theorem mul_exact {m n : ℤ} (exact : Exact (m * n)) : mul m n = (m * n : ℤ) := by
  rw [mul, ← Int.cast_mul, exact]

/-- The local time, rounded: it stands on the same side of every exact number. -/
structure IsLocal (now offset l : ℤ) : Prop where
  rounded : Binary64.round ((now + 60000 * offset : ℤ) : ℚ) = l

theorem IsLocal.le {now offset l c : ℤ} (isLocal : IsLocal now offset l) (exact : Exact c)
    (order : c ≤ now + 60000 * offset) : c ≤ l := by
  have rounded := round_mono (show (c : ℚ) ≤ (now + 60000 * offset : ℤ) by exact_mod_cast order)
  rw [exact, isLocal.rounded] at rounded
  exact_mod_cast rounded

theorem IsLocal.ge {now offset l c : ℤ} (isLocal : IsLocal now offset l) (exact : Exact c)
    (order : now + 60000 * offset ≤ c) : l ≤ c := by
  have rounded := round_mono (show ((now + 60000 * offset : ℤ) : ℚ) ≤ c by exact_mod_cast order)
  rw [exact, isLocal.rounded] at rounded
  exact_mod_cast rounded

section WallClock

variable {now offset l : ℤ} {hour minute : ℕ}

/-- The wall-clock time of a day, in minutes. -/
theorem minutes_exact (hours : hour ≤ 23) (minutes : minute ≤ 59) :
    mul (add (mul hour 60) minute) minuteMs = ((60 * hour + minute) * 60000 : ℤ) := by
  have first := mul_exact (m := hour) (n := 60) (exact_of_abs_le (by rw [abs_le]; omega))
  have second := add_exact (m := hour * 60) (n := minute) (exact_of_abs_le (by rw [abs_le]; omega))
  have third := mul_exact (m := hour * 60 + minute) (n := 60000)
    (exact_of_abs_le (by rw [abs_le]; omega))
  push_cast at first second third ⊢
  rw [first, second, minuteMs, third]
  ring

/-- The start of the local day. -/
theorem dayStart_exact (lower : -86400000 ≤ l) (upper : l ≤ 2 ^ 53 + 86400000) :
    mul ⌊div l dayMs⌋ dayMs = (l / 86400000 * 86400000 : ℤ) := by
  have bound : |(l : ℚ) / (86400000 : ℕ)| < 2 ^ 27 := by
    rw [abs_div, Nat.abs_cast, div_lt_iff₀ (by norm_num)]
    have small : |l| < 2 ^ 27 * 86400000 := by
      rw [abs_lt]
      omega
    exact_mod_cast small
  have floor := floor_round_div (a := l) (b := 86400000) (k := 27) (by norm_num) (by norm_num)
    (by norm_num) bound (by norm_num)
  have day : div l dayMs = Binary64.round ((l : ℚ) / (86400000 : ℕ)) := by
    rw [div, dayMs, Nat.cast_ofNat]
  have exact : Exact (l / 86400000 * 86400000) := by
    have even : l / 86400000 * 86400000 = 2 * (l / 86400000 * 43200000) := by ring
    rw [even]
    apply exact_two_mul
    rw [abs_le]
    omega
  have product := mul_exact exact
  push_cast at floor product ⊢
  rw [day, Nat.cast_ofNat, floor, dayMs, product]

/-- **The next occurrence of a wall-clock time**: after `now`, at most a day after it, and at
the time announced. -/
theorem nextWallClock_spec {hint : ClockHint} (hours : hint.hour = hour) (minutes : hint.minute = minute)
    (few : hour ≤ 23) (few' : minute ≤ 59) (lower : 0 ≤ now) (upper : now < 2 ^ 53)
    (near : |offset| < 1440) :
    ∃ instant : ℤ, nextWallClock hint now offset = instant ∧ now < instant ∧
      (instant : ℚ) ≤ add now dayMs ∧
      (instant + 60000 * offset) % 86400000 = (60 * hour + minute) * 60000 := by
  obtain ⟨below, above⟩ := abs_lt.mp near
  obtain ⟨l, whole⟩ := exists_round_intCast (now + 60000 * offset)
  have isLocal : IsLocal now offset l := ⟨whole⟩
  have low : -86400000 ≤ l := isLocal.le (exact_of_abs_le (by norm_num)) (by omega)
  have high : l ≤ 2 ^ 53 + 86400000 := by
    have half : (2 ^ 53 + 86400000 : ℤ) = 2 * (2 ^ 52 + 43200000) := by norm_num
    apply isLocal.ge _ (by omega)
    rw [half]
    exact exact_two_mul (by norm_num)
  have shift : mul offset minuteMs = (offset * 60000 : ℤ) := by
    have product := mul_exact (m := offset) (n := 60000) (exact_of_abs_le (by rw [abs_le]; omega))
    push_cast at product ⊢
    rw [minuteMs, product]
  have localNow : add now (mul offset minuteMs) = l := by
    rw [add, shift, ← Int.cast_add, mul_comm offset, whole]
  obtain ⟨day, start⟩ : ∃ day, day = l / 86400000 := ⟨_, rfl⟩
  obtain ⟨time, clock⟩ : ∃ time : ℤ, time = 60 * hour + minute := ⟨_, rfl⟩
  have early : 86400000 * day ≤ l := by omega
  have late : l < 86400000 * day + 86400000 := by omega
  have even : ∀ m : ℤ, |m| ≤ 2 ^ 53 → Exact (2 * m) := fun m small => exact_two_mul small
  have candidate : add (mul ⌊div l dayMs⌋ dayMs)
      (mul (add (mul hint.hour 60) hint.minute) minuteMs) = (86400000 * day + 60000 * time : ℤ) := by
    have exact : Exact (day * 86400000 + time * 60000) := by
      have half : day * 86400000 + time * 60000 = 2 * (day * 43200000 + time * 30000) := by ring
      rw [half]
      apply even
      rw [abs_le]
      omega
    rw [hours, minutes, minutes_exact few few', dayStart_exact low high, ← start, ← clock,
      add_exact exact, mul_comm day, mul_comm time]
  -- The occurrence of the local day, or that of the next day.
  obtain ⟨c, chosen, after, before, shown⟩ : ∃ c : ℤ,
      (if add now (mul offset minuteMs) < add (mul ⌊div l dayMs⌋ dayMs)
          (mul (add (mul hint.hour 60) hint.minute) minuteMs)
        then add (mul ⌊div l dayMs⌋ dayMs)
          (mul (add (mul hint.hour 60) hint.minute) minuteMs)
        else add (add (mul ⌊div l dayMs⌋ dayMs)
          (mul (add (mul hint.hour 60) hint.minute) minuteMs)) dayMs) = c ∧
      l < c ∧ c ≤ l + 86400000 ∧ (∃ d : ℤ, c = 86400000 * d + 60000 * time) := by
    rw [candidate, localNow]
    by_cases later : l < 86400000 * day + 60000 * time
    · refine ⟨86400000 * day + 60000 * time, ?_, later, by omega, day, rfl⟩
      rw [if_pos (by exact_mod_cast later)]
    · refine ⟨86400000 * (day + 1) + 60000 * time, ?_, by omega, by omega, day + 1, rfl⟩
      have next : 86400000 * day + 60000 * time + 86400000 = 86400000 * (day + 1) + 60000 * time := by
        ring
      have exact : Exact (86400000 * day + 60000 * time + 86400000) := by
        have half : 86400000 * day + 60000 * time + 86400000 =
            2 * (43200000 * (day + 1) + 30000 * time) := by ring
        rw [half]
        apply even
        rw [abs_le]
        omega
      have sum := add_exact exact
      rw [if_neg (by exact_mod_cast later), ← next, ← sum, dayMs]
      norm_num
  obtain ⟨d, shape⟩ := shown
  have exact : Exact (c - 60000 * offset) := by
    have half : c - 60000 * offset = 2 * (43200000 * d + 30000 * time - 30000 * offset) := by
      rw [shape]
      ring
    rw [half]
    apply even
    rw [abs_le]
    omega
  have exactTime : Exact c := by
    have half : c = 2 * (43200000 * d + 30000 * time) := by
      rw [shape]
      ring
    rw [half]
    apply even
    rw [abs_le]
    omega
  refine ⟨c - 60000 * offset, ?_, ?_, ?_, by omega⟩
  · rw [nextWallClock]
    rw [localNow] at chosen ⊢
    rw [chosen, shift, mul_comm offset, sub_exact exact]
  · by_contra past
    have := isLocal.le exactTime (by omega)
    omega
  · -- Rounding moves the local time and the bound alike.
    have bound : add now dayMs = Binary64.round ((now + 86400000 : ℤ) : ℚ) := by
      rw [add, dayMs]
      push_cast
      rfl
    rw [bound]
    rcases le_or_gt (now + 60000 * offset) (2 ^ 53) with small | large
    · have same : l = now + 60000 * offset := by
        have rounded := exact_of_abs_le (n := now + 60000 * offset) (by rw [abs_le]; omega)
        rw [Exact, whole] at rounded
        exact_mod_cast rounded
      have order := round_mono (show ((c - 60000 * offset : ℤ) : ℚ) ≤ (now + 86400000 : ℤ) by
        exact_mod_cast (by omega : c - 60000 * offset ≤ now + 86400000))
      rwa [exact] at order
    · have moved := round_add_four_mul (n := now + 60000 * offset) (k := 21600000 - 15000 * offset)
        large.le (by omega) (by omega) (by omega)
      have total : now + 60000 * offset + 4 * (21600000 - 15000 * offset) = now + 86400000 := by ring
      rw [total, whole] at moved
      rw [moved]
      exact_mod_cast (by omega : c - 60000 * offset ≤ l + 4 * (21600000 - 15000 * offset))

end WallClock

/-! ## What is announced -/

theorem assertSignal_eq_ok {signal : QuotaSignal} {u : Unit} (accepted : assertSignal signal = .ok u) :
    (∀ at_ ∈ signal.resetAt, isSafeCount at_ = true) ∧
      (∀ delay ∈ signal.retryAfterMs, isSafeCount delay = true) ∧
      ∀ id ∈ signal.id, isText id = true := by
  simp only [assertSignal, bind_eq_ok, assertThat_eq_ok, Bool.and_eq_true] at accepted
  obtain ⟨_, ⟨instant, delay⟩, id⟩ := accepted
  refine ⟨?_, ?_, ?_⟩
  · intro at_ member
    rwa [Option.mem_def.mp member] at instant
  · intro value member
    rwa [Option.mem_def.mp member] at delay
  · intro name member
    rwa [Option.mem_def.mp member] at id

theorem assertClock_eq_ok {hint : ClockHint} {u : Unit} (accepted : assertClock hint = .ok u) :
    ∃ hour minute : ℕ, hint.hour = hour ∧ hour ≤ 23 ∧ hint.minute = minute ∧ minute ≤ 59 := by
  rw [assertClock, assertThat_eq_ok, Bool.and_eq_true] at accepted
  obtain ⟨hour, whole, few⟩ := isClockPart_iff.mp accepted.1
  obtain ⟨minute, whole', few'⟩ := isClockPart_iff.mp accepted.2
  exact ⟨hour, minute, whole, few, whole', few'⟩

/-- **A wall-clock reset** that is resolved is after `now`, at most a day after it, and at the
time announced. -/
theorem resolveResetAt_wallClock {signal : QuotaSignal} {hint : ClockHint} {now : ℕ} {offset instant : ℚ}
    (small : now < 2 ^ 53) (noInstant : signal.resetAt = none) (noDelay : signal.retryAfterMs = none)
    (announced : signal.resetHint = some hint)
    (resolved : resolveResetAt signal now (some offset) = .ok (some instant)) :
    ∃ at_ minutes : ℤ, instant = at_ ∧ offset = minutes ∧ now < at_ ∧ instant ≤ add now dayMs ∧
      ∃ hour minute : ℕ, hint.hour = hour ∧ hint.minute = minute ∧
        (at_ + 60000 * minutes) % 86400000 = (60 * hour + minute) * 60000 := by
  simp only [resolveResetAt, noInstant, noDelay, announced] at resolved
  split at resolved
  · cases resolved
  split at resolved
  · cases resolved
  obtain ⟨u, clock, resolved⟩ := bind_eq_ok.mp resolved
  split at resolved
  · cases resolved
  rename_i known
  rw [Bool.not_eq_false] at known
  obtain ⟨hour, minute, whole, few, whole', few'⟩ := assertClock_eq_ok clock
  obtain ⟨minutes, rfl, near⟩ := isUtcOffset_iff.mp known
  obtain ⟨at_, shape, after, before, shown⟩ := nextWallClock_spec whole whole' few few'
    (Int.natCast_nonneg now) (by exact_mod_cast small) near
  rw [Int.cast_natCast] at shape before
  rw [Except.ok.injEq, Option.some.injEq] at resolved
  rw [← resolved, shape]
  exact ⟨at_, minutes, rfl, rfl, after, before, hour, minute, whole, whole', shown⟩

/-- An instant that is announced is a whole number. -/
theorem exists_resolveResetAt {signal : QuotaSignal} {u : Unit} {now : ℕ} {offset : Option ℚ}
    {instant : ℚ} (accepted : assertSignal signal = .ok u) (small : now < 2 ^ 53)
    (resolved : resolveResetAt signal now offset = .ok (some instant)) : ∃ n : ℤ, instant = n := by
  obtain ⟨instants, delays, _⟩ := assertSignal_eq_ok accepted
  cases at_ : signal.resetAt with
  | some value =>
    simp only [resolveResetAt, at_] at resolved
    split at resolved
    · cases resolved
    · cases resolved
      obtain ⟨n, whole, _⟩ := isSafeCount_iff.mp (instants _ at_)
      exact ⟨n, by rw [whole, Int.cast_natCast]⟩
  | none =>
    cases delay : signal.retryAfterMs with
    | some announced =>
      simp only [resolveResetAt, at_, delay] at resolved
      split at resolved
      · cases resolved
      · rw [Except.ok.injEq, Option.some.injEq] at resolved
        obtain ⟨n, whole, _⟩ := isSafeCount_iff.mp (delays announced delay)
        have sum : (now : ℚ) + min announced maxBackoffMs = ((now + min n 86400000 : ℕ) : ℤ) := by
          rw [whole, maxBackoffMs]
          push_cast
          rfl
        obtain ⟨m, rounded⟩ := exists_round_intCast ((now + min n 86400000 : ℕ) : ℤ)
        refine ⟨m, ?_⟩
        rw [← resolved, add, sum, rounded]
    | none =>
      cases hint : signal.resetHint with
      | none =>
        simp only [resolveResetAt, at_, delay, hint] at resolved
        split at resolved
        · cases resolved
        · cases resolved
      | some hint' =>
        cases offset with
        | none =>
          simp only [resolveResetAt, at_, delay, hint] at resolved
          split at resolved
          · cases resolved
          split at resolved
          · cases resolved
          obtain ⟨_, _, resolved⟩ := bind_eq_ok.mp resolved
          cases resolved
        | some offset =>
          obtain ⟨n, _, whole, _⟩ := resolveResetAt_wallClock small at_ delay hint resolved
          exact ⟨n, whole⟩

end Koklo.Delivery.Quota
