import Koklo.Delivery.QuotaBackoff

/-!
# Counting usage

A usage is counted in fixed windows, one for each level of its scope: the organization, the
project and the agent. Windows that have ended are purged, and the identifiers of the last
usages are kept, so that a usage is counted once. A usage after a backoff has ended resets it.
A quota allows a start when neither a backoff nor a cap forbids it.
-/

set_option autoImplicit false

namespace Koklo.Delivery.Quota

open Koklo.Foundations
open Koklo.Foundations.Binary64

/-- The most that a window admits; no cap where there is none. -/
structure UsageCaps where
  maxRuns : Option ℚ
  maxTokens : Option ℚ

/-- The length of the windows, and the caps of each level. -/
structure UsagePolicy where
  windowMs : ℚ
  maxSeenIds : ℚ
  organization : Option UsageCaps
  project : Option UsageCaps
  agent : Option UsageCaps

/-- What a session runs for. -/
structure QuotaScope where
  organization : Text
  project : Option Text
  agent : Option Text

/-- What a session has used, under its identifier. -/
structure Usage where
  id : Text
  scope : QuotaScope
  runs : ℚ
  tokens : ℚ

/-! ## Checks -/

/-- `QUOTA_MAX_SEEN_IDS`. -/
def maxSeenIds : ℚ := 1000

def slash : CodeUnit := 0x2F

/-- The checks of a scope. -/
def assertScope (scope : QuotaScope) : Checked Unit := do
  assertThat (isText scope.organization && slash ∉ scope.organization) "organisation invalide"
  assertThat (scope.project.all isText && scope.agent.all isText) "projet ou agent invalide"

/-- The caps are counts. -/
def assertCaps (caps : Option UsageCaps) : Checked Unit :=
  assertThat (caps.all fun caps => caps.maxRuns.all isSafeCount && caps.maxTokens.all isSafeCount)
    "plafond invalide"

/-- The checks of a policy. -/
def assertUsagePolicy (policy : UsagePolicy) : Checked Unit := do
  assertThat (isPositiveInt policy.windowMs) "windowMs invalide"
  assertThat (isPositiveInt policy.maxSeenIds && !(maxSeenIds < policy.maxSeenIds)) "maxSeenIds invalide"
  assertCaps policy.organization
  assertCaps policy.project
  assertCaps policy.agent

/-- The checks of a usage. -/
def assertUsage (usage : Usage) : Checked Unit := do
  assertThat (isText usage.id) "identifiant d'usage invalide"
  assertScope usage.scope
  assertThat (isSafeCount usage.runs && isSafeCount usage.tokens) "runs ou tokens invalide"

/-! ## Windows -/

/-- The start of the fixed window of `now`. -/
def windowStart (now windowMs : ℚ) : ℚ := mul ⌊div now windowMs⌋ windowMs

/-- The levels that are counted. -/
inductive Level where
  | organization | project | agent
deriving DecidableEq

/-- The key of the window of an organization. -/
def organizationKey (organization : Text) : Text := Text.lit "o:" ++ organization

/-- The key of the window of a project. -/
def projectKey (organization project : Text) : Text :=
  Text.lit "p:" ++ organization ++ slash :: project

/-- The key of the window of an agent. -/
def agentKey (organization agent : Text) : Text := Text.lit "a:" ++ organization ++ slash :: agent

/-- The levels of a scope and their keys. -/
def scopeLevels (scope : QuotaScope) : List (Level × Text) :=
  (.organization, organizationKey scope.organization) ::
    ((scope.project.map fun project => (.project, projectKey scope.organization project)).toList ++
      (scope.agent.map fun agent => (.agent, agentKey scope.organization agent)).toList)

/-- The count of the current window; one that has ended, or that is missing, counts zero. -/
def currentCount (state : QuotaState) (key : Text) (start : ℚ) : WindowCount :=
  match state.windows.get key with
  | some existing => if existing.start = start then existing else ⟨start, 0, 0⟩
  | none => ⟨start, 0, 0⟩

/-- A sum that stays an integer of a double. -/
def sum (left right : ℚ) : Checked ℚ :=
  let total := add left right
  if isSafeInteger total then .ok total else fail "compteur de consommation dépassé"

/-- The count of one level of a usage. -/
def counted (state : QuotaState) (usage : Usage) (start : ℚ) (key : Text) : Checked WindowCount := do
  let count := currentCount state key start
  let runs ← sum count.runs usage.runs
  let tokens ← sum count.tokens usage.tokens
  .ok ⟨start, runs, tokens⟩

/-- The current windows, without those that have ended, and with the usage counted. -/
def addToWindows (state : QuotaState) (usage : Usage) (start : ℚ) :
    Checked (OrderedMap Text WindowCount) :=
  (scopeLevels usage.scope).foldlM
    (fun next level => (counted state usage start level.2).map fun count => next.set level.2 count)
    (state.windows.filter fun entry => start ≤ entry.2.start)

/-- A usage after the end of a backoff. -/
def recovered (state : QuotaState) (now : ℚ) : Bool :=
  state.status = .backoff && state.resumeAt.any (· ≤ now)

/-- The last items of a list. -/
def takeLast {α : Type} (n : ℕ) (list : List α) : List α := list.drop (list.length - n)

/-- The state with a usage counted in the windows. -/
def usageRecorded (state : QuotaState) (usage : Usage) (now : ℚ) (policy : UsagePolicy)
    (windows : OrderedMap Text WindowCount) : QuotaState where
  status := if recovered state now then .ok else state.status
  resumeAt := if recovered state now then none else state.resumeAt
  consecutiveHits := if recovered state now then 0 else state.consecutiveHits
  lastHitAt := state.lastHitAt
  lastSignalId := state.lastSignalId
  windows := windows
  usageIds := takeLast ⌊policy.maxSeenIds⌋.toNat (state.usageIds ++ [usage.id])
  version := add state.version 1

/-- A usage: checks, replay, version, and last the windows. -/
def recordUsage (state : QuotaState) (usage : Usage) (now : ℚ) (policy : UsagePolicy)
    (expectedVersion : Option ℚ) : Checked QuotaState := do
  assertNow now
  assertUsage usage
  assertUsagePolicy policy
  let expected ← expectedVersionOf expectedVersion
  if usage.id ∈ state.usageIds then .ok state
  else do
    assertFresh state.version expected
    let windows ← addToWindows state usage (windowStart now policy.windowMs)
    .ok (usageRecorded state usage now policy windows)

/-! ## Starting -/

/-- A cap of the window is reached. -/
def isReached (count : WindowCount) (caps : UsageCaps) : Bool :=
  caps.maxRuns.any (· ≤ count.runs) || caps.maxTokens.any (· ≤ count.tokens)

/-- The caps of a level. -/
def UsagePolicy.caps (policy : UsagePolicy) : Level → Option UsageCaps
  | .organization => policy.organization
  | .project => policy.project
  | .agent => policy.agent

/-- `now`, or the end of the window when a cap is reached. -/
def capsFreeAt (state : QuotaState) (now : ℚ) (scope : QuotaScope) (policy : UsagePolicy) : ℚ :=
  let start := windowStart now policy.windowMs
  let reached := (scopeLevels scope).any fun (level, key) =>
    (policy.caps level).any (isReached (currentCount state key start))
  if reached then add start policy.windowMs else now

/-- `now` when a start is allowed, a later instant, or nothing while a human is awaited. -/
def nextAllowedAt (state : QuotaState) (now : ℚ) (scope : QuotaScope) (policy : Option UsagePolicy) :
    Checked (Option ℚ) := do
  assertNow now
  assertScope scope
  policy.elim (.ok ()) assertUsagePolicy
  if state.status = .exhausted then .ok none
  else
    let backoffUntil := (state.activeUntil now).getD now
    let capsUntil := policy.elim now (capsFreeAt state now scope)
    .ok (some (max backoffUntil capsUntil))

/-- A session can start now when the next instant that is allowed is this one. -/
def canStart (state : QuotaState) (now : ℚ) (scope : QuotaScope) (policy : Option UsagePolicy) :
    Checked Bool :=
  (nextAllowedAt state now scope policy).map fun until_ => until_ = some now

/-- **The start of a window is exact**: the last multiple of its length. -/
theorem windowStart_natCast {n w : ℕ} (small : n < 2 ^ 53) (positive : 0 < w) (wide : w < 2 ^ 53) :
    windowStart n w = (n / w * w : ℕ) := by
  have quotient : ⌊div n w⌋ = (n / w : ℕ) := floor_round_div_natCast positive small wide
  have product : n / w * w ≤ n := Nat.div_mul_le_self n w
  have exact := Binary64.round_intCast (n := (n / w * w : ℕ)) (by
    rw [Nat.abs_cast]
    exact_mod_cast product.trans small.le)
  rw [windowStart, quotient, mul]
  push_cast at exact ⊢
  exact exact

/-! ## What is counted -/

/-- A count that the checks of a state accept. -/
structure WindowCount.Valid (count : WindowCount) : Prop where
  start : isSafeCount count.start = true
  runs : isSafeCount count.runs = true
  tokens : isSafeCount count.tokens = true

/-- **A sum that is accepted is exact.** -/
theorem sum_eq_ok {left right total : ℚ} (first : isSafeCount left = true)
    (second : isSafeCount right = true) (added : sum left right = .ok total) :
    isSafeCount total = true ∧ total = left + right := by
  obtain ⟨m, rfl, _⟩ := isSafeCount_iff.mp first
  obtain ⟨n, rfl, _⟩ := isSafeCount_iff.mp second
  simp only [sum] at added
  split at added
  · rename_i safe
    cases added
    have small : m + n < 2 ^ 53 := by
      by_contra large
      have top : Binary64.round ((2 ^ 53 : ℤ) : ℚ) = (2 ^ 53 : ℤ) :=
        Binary64.round_intCast (by norm_num)
      have past : ((2 ^ 53 : ℤ) : ℚ) ≤ add m n := by
        rw [← top]
        exact round_mono (by exact_mod_cast not_lt.mp large)
      obtain ⟨z, same, bound⟩ := isSafeInteger_iff.mp safe
      rw [same] at past
      have low : (2 : ℤ) ^ 53 ≤ z := by exact_mod_cast past
      exact absurd bound (not_lt.mpr (low.trans (le_abs_self z)))
    rw [add_natCast small.le]
    exact ⟨isSafeCount_natCast small, Nat.cast_add m n⟩
  · cases added

theorem currentCount_valid {state : QuotaState} {key : Text} {start : ℚ}
    (counts : ∀ entry ∈ state.windows, entry.2.Valid) (count : isSafeCount start = true) :
    (currentCount state key start).Valid := by
  have zero : isSafeCount 0 = true := isSafeCount_natCast (n := 0) (by norm_num)
  have fresh : WindowCount.Valid ⟨start, 0, 0⟩ := ⟨count, zero, zero⟩
  rw [currentCount]
  cases read : state.windows.get key with
  | none => exact fresh
  | some existing =>
    show (if existing.start = start then existing else ⟨start, 0, 0⟩ : WindowCount).Valid
    split
    · exact counts _ (OrderedMap.mem_of_get read)
    · exact fresh

/-- The count of a level after a usage. -/
theorem counted_eq_ok {state : QuotaState} {usage : Usage} {start : ℚ} {key : Text}
    {count : WindowCount} (counts : ∀ entry ∈ state.windows, entry.2.Valid)
    (begins : isSafeCount start = true) (runs : isSafeCount usage.runs = true)
    (tokens : isSafeCount usage.tokens = true) (done : counted state usage start key = .ok count) :
    count.Valid ∧ count = ⟨start, (currentCount state key start).runs + usage.runs,
      (currentCount state key start).tokens + usage.tokens⟩ := by
  have current : (currentCount state key start).Valid := currentCount_valid counts begins
  obtain ⟨r, summed, done⟩ := bind_eq_ok.mp done
  obtain ⟨t, summed', done⟩ := bind_eq_ok.mp done
  cases done
  obtain ⟨safe, rfl⟩ := sum_eq_ok current.runs runs summed
  obtain ⟨safe', rfl⟩ := sum_eq_ok current.tokens tokens summed'
  exact ⟨⟨begins, safe, safe'⟩, rfl⟩

/-- **What is read in the windows after a usage**: the count of each of its levels, and the
windows that have not ended. -/
theorem addToWindows_spec {state : QuotaState} {usage : Usage} {start : ℚ}
    {windows : OrderedMap Text WindowCount} (distinct : state.windows.keys.Nodup)
    (added : addToWindows state usage start = .ok windows) :
    windows.keys.Nodup ∧
      (∀ key ∈ (scopeLevels usage.scope).map Prod.snd,
        ∃ count, counted state usage start key = .ok count ∧ windows.get key = some count) ∧
      ∀ key ∉ (scopeLevels usage.scope).map Prod.snd,
        windows.get key = (state.windows.get key).filter (start ≤ ·.start) := by
  have read := OrderedMap.get_filter distinct fun count => start ≤ count.start
  have kept : (OrderedMap.keys (state.windows.filter fun entry => start ≤ entry.2.start)).Nodup :=
    (List.filter_sublist.map Prod.fst).nodup distinct
  have grown : ∀ (levels : List (Level × Text)) (next : OrderedMap Text WindowCount),
      next.keys.Nodup →
      levels.foldlM (fun next level =>
        (counted state usage start level.2).map fun count => next.set level.2 count) next =
          .ok windows →
      windows.keys.Nodup ∧
        (∀ key ∈ levels.map Prod.snd,
          ∃ count, counted state usage start key = .ok count ∧ windows.get key = some count) ∧
        ∀ key ∉ levels.map Prod.snd, windows.get key = next.get key := by
    intro levels
    induction levels with
    | nil =>
      intro next distinct done
      cases done
      exact ⟨distinct, nofun, fun _ _ => rfl⟩
    | cons level levels ih =>
      intro next distinct done
      rw [List.foldlM_cons] at done
      obtain ⟨_, written, rest⟩ := bind_eq_ok.mp done
      obtain ⟨count, counts, rfl⟩ := map_eq_ok.mp written
      obtain ⟨distinct', later, others⟩ := ih _ (OrderedMap.nodup_keys_set distinct _ _) rest
      refine ⟨distinct', ?_, ?_⟩
      · intro key member
        by_cases again : key ∈ levels.map Prod.snd
        · exact later key again
        · rcases List.mem_cons.mp member with rfl | inside
          · exact ⟨count, counts, (others level.2 again).trans (OrderedMap.get_set_self _ _ _)⟩
          · exact absurd inside again
      · intro key member
        obtain ⟨apart, outside⟩ := List.ne_and_not_mem_of_not_mem_cons member
        exact (others key outside).trans (OrderedMap.get_set_of_ne _ apart.symm _)
  obtain ⟨distinct', written, others⟩ := grown _ _ kept added
  exact ⟨distinct', written, fun key member => (others key member).trans (read key)⟩

/-- An entry of the windows after a usage is the count of one of its levels, or an earlier one. -/
theorem mem_addToWindows {state : QuotaState} {usage : Usage} {start : ℚ}
    {windows : OrderedMap Text WindowCount} (distinct : state.windows.keys.Nodup)
    (added : addToWindows state usage start = .ok windows) {entry : Text × WindowCount}
    (member : entry ∈ windows) :
    (∃ level ∈ scopeLevels usage.scope, level.2 = entry.1 ∧
      counted state usage start entry.1 = .ok entry.2) ∨ entry ∈ state.windows := by
  obtain ⟨distinct', written, kept⟩ := addToWindows_spec distinct added
  have read := OrderedMap.get_of_mem distinct' member
  by_cases level : entry.1 ∈ (scopeLevels usage.scope).map Prod.snd
  · obtain ⟨count, done, read'⟩ := written entry.1 level
    rw [read, Option.some.injEq] at read'
    obtain ⟨known, inside, same⟩ := List.mem_map.mp level
    exact .inl ⟨known, inside, same, read' ▸ done⟩
  · rw [kept entry.1 level] at read
    exact .inr (OrderedMap.mem_of_get (Option.filter_eq_some_iff.mp read).1)

/-! ## What a usage can do -/

/-- What an accepted usage was checked for. -/
structure UsageInput (usage : Usage) (now : ℚ) (policy : UsagePolicy) : Prop where
  now : isSafeCount now = true
  id : isText usage.id = true
  scope : assertScope usage.scope = .ok ()
  runs : isSafeCount usage.runs = true
  tokens : isSafeCount usage.tokens = true
  windowMs : isPositiveInt policy.windowMs = true
  seenIds : isPositiveInt policy.maxSeenIds = true
  fewIds : policy.maxSeenIds ≤ maxSeenIds

/-- **What an accepted usage can do**: nothing, or be counted. -/
theorem recordUsage_cases {state next : QuotaState} {usage : Usage} {now : ℚ} {policy : UsagePolicy}
    {expected : Option ℚ} (accepted : recordUsage state usage now policy expected = .ok next) :
    UsageInput usage now policy ∧
      (usage.id ∈ state.usageIds ∧ next = state ∨ usage.id ∉ state.usageIds ∧ ∃ windows,
        addToWindows state usage (windowStart now policy.windowMs) = .ok windows ∧
        next = usageRecorded state usage now policy windows) := by
  rw [recordUsage] at accepted
  obtain ⟨_, nowOk, accepted⟩ := bind_eq_ok.mp accepted
  obtain ⟨_, usageOk, accepted⟩ := bind_eq_ok.mp accepted
  obtain ⟨_, policyOk, accepted⟩ := bind_eq_ok.mp accepted
  obtain ⟨expected, _, accepted⟩ := bind_eq_ok.mp accepted
  have input : UsageInput usage now policy := by
    simp only [assertUsage, bind_eq_ok, assertThat_eq_ok, Bool.and_eq_true] at usageOk
    obtain ⟨_, id, _, scope, runs, tokens⟩ := usageOk
    simp only [assertUsagePolicy, bind_eq_ok, assertThat_eq_ok, Bool.and_eq_true, Bool.not_eq_true',
      decide_eq_false_iff_not, not_lt] at policyOk
    obtain ⟨_, windowMs, _, ⟨seenIds, fewIds⟩, _⟩ := policyOk
    exact ⟨assertThat_eq_ok.mp nowOk, id, scope, runs, tokens, windowMs, seenIds, fewIds⟩
  refine ⟨input, ?_⟩
  split at accepted
  · rename_i known
    cases accepted
    exact .inl ⟨known, rfl⟩
  rename_i fresh
  obtain ⟨_, _, accepted⟩ := bind_eq_ok.mp accepted
  obtain ⟨windows, added, accepted⟩ := bind_eq_ok.mp accepted
  cases accepted
  exact .inr ⟨fresh, windows, added, rfl⟩

/-- **What `clearQuota` can do**: nothing when there is nothing to clear, or rearm. -/
theorem clearQuota_cases {state next : QuotaState} {expected : Option ℚ}
    (accepted : clearQuota state expected = .ok next) :
    (next = state ∧ state.status = .ok ∧ state.consecutiveHits = 0) ∨
      next = { state with
        status := .ok
        resumeAt := none
        consecutiveHits := 0
        version := add state.version 1 } := by
  rw [clearQuota] at accepted
  obtain ⟨expected, _, accepted⟩ := bind_eq_ok.mp accepted
  obtain ⟨_, _, accepted⟩ := bind_eq_ok.mp accepted
  split at accepted
  · rename_i clear
    cases accepted
    exact .inl ⟨rfl, clear⟩
  · cases accepted
    exact .inr rfl

end Koklo.Delivery.Quota
