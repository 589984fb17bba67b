import Koklo.Delivery.QuotaAccounting

/-!
# Late usages

Each key holds one window. A usage counts in its own window, and purges the windows that
started before it; the later ones are kept. But the windows of the levels of its own scope are
written whatever they held: a usage that comes late replaces a later window of one of its keys
by its own (`late_usage_keeps_iff`).
-/

set_option autoImplicit false

namespace Koklo.Delivery.Quota

open Koklo.Foundations
open Koklo.Foundations.Binary64

/-- The runs and the tokens of the windows are doubles. -/
def QuotaState.HoldsDoubles (state : QuotaState) : Prop :=
  ∀ key count, state.windows.get key = some count →
    Binary64.round count.runs = count.runs ∧ Binary64.round count.tokens = count.tokens

/-- The window is still there, with at least as many runs and tokens. -/
def WindowCount.KeptAs (count later : WindowCount) : Prop :=
  later.start = count.start ∧ count.runs ≤ later.runs ∧ count.tokens ≤ later.tokens

/-- Every window that starts at `start` or after it is still there, and not lowered. -/
def QuotaState.KeepsFrom (state next : QuotaState) (start : ℚ) : Prop :=
  ∀ key count, state.windows.get key = some count → start ≤ count.start →
    ∃ later, next.windows.get key = some later ∧ count.KeptAs later

/-- The keys of the scope hold no window that starts after `start`. -/
def QuotaState.ReachedBy (state : QuotaState) (scope : QuotaScope) (start : ℚ) : Prop :=
  ∀ key ∈ (scopeLevels scope).map Prod.snd, ∀ count, state.windows.get key = some count →
    count.start ≤ start

theorem QuotaState.KeepsFrom.refl (state : QuotaState) (start : ℚ) : state.KeepsFrom state start :=
  fun _ count read _ => ⟨count, read, rfl, le_rfl, le_rfl⟩

/-- A sum that is accepted is at least its first term. -/
theorem le_of_sum {left right total : ℚ} (double : Binary64.round left = left)
    (count : isSafeCount right = true) (added : sum left right = .ok total) : left ≤ total := by
  obtain ⟨n, rfl, _⟩ := isSafeCount_iff.mp count
  simp only [sum] at added
  split at added
  · cases added
    calc left = Binary64.round left := double.symm
      _ ≤ add left n := round_mono (le_add_of_nonneg_right n.cast_nonneg)
  · cases added

/-- **The count of a level**: what its current window held is not lowered. -/
theorem counted_keeps {state : QuotaState} {usage : Usage} {start : ℚ} {key : Text}
    {count written : WindowCount} (doubles : state.HoldsDoubles)
    (runs : isSafeCount usage.runs = true) (tokens : isSafeCount usage.tokens = true)
    (read : state.windows.get key = some count) (current : count.start = start)
    (done : counted state usage start key = .ok written) : count.KeptAs written := by
  have same : currentCount state key start = count := by
    rw [currentCount, read]
    exact if_pos current
  obtain ⟨double, double'⟩ := doubles key count read
  rw [counted, same] at done
  obtain ⟨_, summed, done⟩ := bind_eq_ok.mp done
  obtain ⟨_, summed', done⟩ := bind_eq_ok.mp done
  cases done
  exact ⟨current.symm, le_of_sum double runs summed, le_of_sum double' tokens summed'⟩

/-- The window that a level holds after a usage is that of the usage. -/
theorem start_of_counted {state : QuotaState} {usage : Usage} {start : ℚ} {key : Text}
    {written : WindowCount} (done : counted state usage start key = .ok written) :
    written.start = start := by
  rw [counted] at done
  obtain ⟨_, _, done⟩ := bind_eq_ok.mp done
  obtain ⟨_, _, done⟩ := bind_eq_ok.mp done
  cases done
  rfl

/-- **When the windows after a usage keep the later ones**: when no key of its scope holds one. -/
theorem addToWindows_keeps_iff {state : QuotaState} {usage : Usage} {start : ℚ}
    {windows : OrderedMap Text WindowCount} (distinct : state.windows.keys.Nodup)
    (doubles : state.HoldsDoubles) (runs : isSafeCount usage.runs = true)
    (tokens : isSafeCount usage.tokens = true)
    (added : addToWindows state usage start = .ok windows) :
    state.KeepsFrom { state with windows := windows } start ↔ state.ReachedBy usage.scope start := by
  obtain ⟨_, written, others⟩ := addToWindows_spec distinct added
  constructor
  · intro keeps key level count read
    by_contra after
    obtain ⟨later, read', same, _⟩ := keeps key count read (not_le.mp after).le
    obtain ⟨own, done, read''⟩ := written key level
    rw [read'', Option.some.injEq] at read'
    subst read'
    exact after (same.symm.trans (start_of_counted done)).le
  · intro reached key count read late
    by_cases level : key ∈ (scopeLevels usage.scope).map Prod.snd
    · obtain ⟨own, done, read'⟩ := written key level
      have current : count.start = start := le_antisymm (reached key level count read) late
      exact ⟨own, read', counted_keeps doubles runs tokens read current done⟩
    · have read' := others key level
      rw [read, Option.filter_some, if_pos (decide_eq_true late)] at read'
      exact ⟨count, read', rfl, le_rfl, le_rfl⟩

/-- **When a usage lowers or drops no window from its own on**: when it is replayed, or when no
key of its scope holds a window that starts after its own. -/
theorem late_usage_keeps_iff {state next : QuotaState} {usage : Usage} {now : ℚ}
    {policy : UsagePolicy} {expected : Option ℚ} (distinct : state.windows.keys.Nodup)
    (doubles : state.HoldsDoubles)
    (accepted : recordUsage state usage now policy expected = .ok next) :
    state.KeepsFrom next (windowStart now policy.windowMs) ↔
      usage.id ∈ state.usageIds ∨ state.ReachedBy usage.scope (windowStart now policy.windowMs) := by
  obtain ⟨input, ⟨known, rfl⟩ | ⟨fresh, windows, added, rfl⟩⟩ := recordUsage_cases accepted
  · exact iff_of_true (QuotaState.KeepsFrom.refl _ _) (.inl known)
  · have keeps := addToWindows_keeps_iff distinct doubles input.runs input.tokens added
    rw [or_iff_right fresh]
    exact keeps

/-! ## A usage of the hour before -/

/-- The organization has counted five runs in its second hour. -/
def secondHour : QuotaState := { startQuotaState with
  windows := [(organizationKey (Text.lit "acme"), ⟨3600000, 5, 100⟩)] }

def acmeUsage : Usage := ⟨Text.lit "u1", ⟨Text.lit "acme", none, none⟩, 1, 10⟩

/-- The window of the second hour has given way to that of the first one. -/
def firstHour : QuotaState where
  status := .ok
  resumeAt := none
  consecutiveHits := 0
  lastHitAt := none
  lastSignalId := none
  windows := [(organizationKey (Text.lit "acme"), ⟨0, 1, 10⟩)]
  usageIds := [Text.lit "u1"]
  version := 1

theorem recordUsage_secondHour :
    recordUsage secondHour acmeUsage 3599999 hourPolicy none = .ok firstHour := by
  decide +kernel

theorem holdsDoubles_secondHour : secondHour.HoldsDoubles := by
  intro key count read
  have entry := OrderedMap.mem_of_get read
  rw [secondHour, List.mem_singleton] at entry
  rw [(Prod.mk.inj entry).2]
  decide +kernel

theorem late_usage_keeps_iff_secondHour :
    secondHour.KeepsFrom firstHour (windowStart 3599999 hourPolicy.windowMs) ↔
      acmeUsage.id ∈ secondHour.usageIds ∨
        secondHour.ReachedBy acmeUsage.scope (windowStart 3599999 hourPolicy.windowMs) :=
  late_usage_keeps_iff (List.nodup_singleton _) holdsDoubles_secondHour recordUsage_secondHour

/-- **A late usage drops a later window of its organization.** -/
theorem late_usage_drops_later_window :
    ¬ ∀ (state next : QuotaState) (usage : Usage) (now : ℚ) (policy : UsagePolicy),
      state.windows.keys.Nodup → state.HoldsDoubles →
      recordUsage state usage now policy none = .ok next →
      state.KeepsFrom next (windowStart now policy.windowMs) := by
  intro claim
  have keeps := claim secondHour firstHour acmeUsage 3599999 hourPolicy (List.nodup_singleton _) holdsDoubles_secondHour
    recordUsage_secondHour
  obtain ⟨later, read, same, _⟩ := keeps (organizationKey (Text.lit "acme")) ⟨3600000, 5, 100⟩
    (by decide +kernel) (by decide +kernel)
  have read' : firstHour.windows.get (organizationKey (Text.lit "acme")) = some ⟨0, 1, 10⟩ := by
    decide +kernel
  rw [read', Option.some.injEq] at read
  subst read
  revert same
  decide +kernel

end Koklo.Delivery.Quota
