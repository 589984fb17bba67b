import Koklo.Delivery.QuotaRuns
import Koklo.Delivery.QuotaSerialize
import Koklo.Foundations.JsonRoundTrip

/-!
# Quota states survive persistence

What the operations build passes the strict check (`checkQuotaState_toData`), and what is
written is read back, with the windows sorted (`serialize_persistable`). The invariant is
`Persistable`; each operation keeps it while its instants are plausible
(`perform_persistable`). One input breaks it: the key of a window is checked with a pattern
whose dot stops at a line terminator, while the name of a project or an agent may hold one
(`state_not_serialized`).
-/

set_option autoImplicit false

namespace Koklo.Delivery.Quota

open Koklo.Foundations
open Koklo.Foundations.Binary64

/-! ## Window keys -/

theorem matches_notSlash {w : Text} :
    Pattern.Matches (.plus (.unit notSlash)) w ↔ w ≠ [] ∧ slash ∉ w := by
  rw [Pattern.matches_plus_unit]
  refine and_congr_right fun _ => ?_
  constructor
  · intro all member
    exact absurd (all slash member) (by decide)
  · intro apart u member
    exact bne_iff_ne.mpr fun same => apart (same ▸ member)

theorem matches_dot {w : Text} :
    Pattern.Matches (.plus (.unit dot)) w ↔ w ≠ [] ∧ ∀ u ∈ w, Text.isLineTerminator u = false := by
  rw [Pattern.matches_plus_unit]
  refine and_congr_right fun _ => forall₂_congr fun u _ => ?_
  rw [dot, Bool.not_eq_true']

/-- What `assertScope` accepts as the name of an organization. -/
structure IsOrganization (organization : Text) : Prop where
  text : isText organization = true
  noSlash : slash ∉ organization

theorem ne_nil_of_isText {t : Text} (text : isText t = true) : t ≠ [] := by
  rintro rfl
  exact absurd text (by decide)

theorem accepts_organizationKey {organization : Text} (accepted : IsOrganization organization) :
    windowKey.accepts (organizationKey organization) = true := by
  rw [Pattern.accepts_iff]
  apply Pattern.Matches.left
  apply Pattern.Matches.seq (Pattern.matches_text.mpr rfl)
  exact matches_notSlash.mpr ⟨ne_nil_of_isText accepted.text, accepted.noSlash⟩

/-- A key of a project or an agent is well formed when the name is on one line. -/
theorem accepts_memberKey {mark : Text} (known : mark = Text.lit "p:" ∨ mark = Text.lit "a:")
    {organization name : Text} (accepted : IsOrganization organization) (some : name ≠ [])
    (single : ∀ u ∈ name, Text.isLineTerminator u = false) :
    windowKey.accepts (mark ++ organization ++ slash :: name) = true := by
  rw [Pattern.accepts_iff, List.append_assoc]
  apply Pattern.Matches.right
  apply Pattern.Matches.seq
  · rcases known with rfl | rfl
    · exact .left (Pattern.matches_text.mpr rfl)
    · exact .right (Pattern.matches_text.mpr rfl)
  apply Pattern.Matches.seq
  · exact matches_notSlash.mpr ⟨ne_nil_of_isText accepted.text, accepted.noSlash⟩
  · exact Pattern.matches_text_seq.mpr ⟨name, rfl, matches_dot.mpr ⟨some, single⟩⟩

/-! ## The invariant -/

/-- What the strict check asks of a state. -/
structure Persistable (state : QuotaState) : Prop where
  consistent : Consistent state
  resumeAt : ∀ instant ∈ state.resumeAt, isEpoch instant = true
  lastHitAt : ∀ instant ∈ state.lastHitAt, isEpoch instant = true
  lastSignalId : ∀ id ∈ state.lastSignalId, isText id = true
  consecutiveHits : isSafeCount state.consecutiveHits = true
  version : isSafeCount state.version = true
  fewIds : (state.usageIds.length : ℚ) ≤ maxSeenIds
  usageIds : ∀ id ∈ state.usageIds, isText id = true
  distinct : state.windows.keys.Nodup
  keys : ∀ entry ∈ state.windows, windowKey.accepts entry.1 = true
  counts : ∀ entry ∈ state.windows, entry.2.Valid

/-- The state with its windows in the order of their keys. -/
def QuotaState.sorted (state : QuotaState) : QuotaState :=
  { state with windows := state.windows.insertionSort fun a b => a.1 ≤ b.1 }

theorem perm_sorted (state : QuotaState) : state.sorted.windows.Perm state.windows :=
  List.perm_insertionSort _ _

theorem Persistable.sorted {state : QuotaState} (persistable : Persistable state) :
    Persistable state.sorted where
  consistent := persistable.consistent
  resumeAt := persistable.resumeAt
  lastHitAt := persistable.lastHitAt
  lastSignalId := persistable.lastSignalId
  consecutiveHits := persistable.consecutiveHits
  version := persistable.version
  fewIds := persistable.fewIds
  usageIds := persistable.usageIds
  distinct := ((perm_sorted state).map Prod.fst).nodup_iff.mpr persistable.distinct
  keys := fun entry member => persistable.keys entry ((perm_sorted state).mem_iff.mp member)
  counts := fun entry member => persistable.counts entry ((perm_sorted state).mem_iff.mp member)

/-- Sorting again changes nothing. -/
theorem sorted_sorted (state : QuotaState) : state.sorted.sorted = state.sorted := by
  have total : Std.Total fun a b : Text × WindowCount => a.1 ≤ b.1 := ⟨fun a b => le_total _ _⟩
  have transitive : IsTrans (Text × WindowCount) fun a b => a.1 ≤ b.1 := ⟨fun a b c => le_trans⟩
  have same := (List.pairwise_insertionSort (fun a b => a.1 ≤ b.1) state.windows).insertionSort_eq
  rw [QuotaState.sorted]
  simp only [QuotaState.sorted, same]

/-- The same state, up to the order of its windows. -/
structure QuotaState.Same (a b : QuotaState) : Prop where
  windows : a.windows.Perm b.windows
  others : { a with windows := [] } = { b with windows := [] }

theorem same_sorted (state : QuotaState) : state.sorted.Same state := ⟨perm_sorted state, rfl⟩

/-! ## The check accepts what is built -/

theorem assertNumber_numberData {accepts : ℚ → Bool} {q : ℚ} (accepted : accepts q = true)
    (reason : String) : assertNumber accepts (some (numberData q)) reason = .ok q := by
  have kept : (Number.finite q).value?.filter (accepts ·) = some q :=
    Option.filter_eq_some_iff.mpr ⟨rfl, accepted⟩
  rw [numberData, assertNumber, kept]
  rfl

theorem assertText_text {t : Text} (text : isText t = true) (reason : String) :
    assertText (some (.text t)) reason = .ok t := if_pos text

theorem nullableEpoch_nullableData {instant : Option ℚ}
    (near : ∀ i ∈ instant, isEpoch i = true) :
    nullableEpoch (some (nullableData numberData instant)) = .ok instant := by
  cases instant with
  | none => rfl
  | some i =>
    show (assertNumber isEpoch (some (numberData i)) _).map some = _
    rw [assertNumber_numberData (near i rfl)]
    rfl

theorem nullableText_nullableData {id : Option Text} (text : ∀ t ∈ id, isText t = true) :
    nullableText (some (nullableData Data.text id)) = .ok id := by
  cases id with
  | none => rfl
  | some t =>
    show (assertText (some (.text t)) _).map some = _
    rw [assertText_text (text t rfl)]
    rfl

theorem checkStatus_text (status : QuotaStatus) : checkStatus (some (.text status.text)) = .ok status := by
  cases status <;> rfl

theorem assertKeys_of_keys {fields : OrderedMap Text Data} {expected : List Text}
    (same : fields.keys = expected) (sorted : expected.insertionSort (· ≤ ·) = expected) :
    assertKeys fields expected = .ok () := by
  rw [assertKeys, assertThat_eq_ok, decide_eq_true_eq, sortedKeys, same, sorted]

theorem checkWindow_toData {count : WindowCount} (valid : count.Valid) :
    checkWindow (some count.toData) = .ok count := by
  refine bind_eq_ok.mpr ⟨_, rfl, ?_⟩
  refine bind_eq_ok.mpr ⟨_, assertKeys_of_keys rfl sortedKeys_known.1, ?_⟩
  refine bind_eq_ok.mpr ⟨_, assertNumber_numberData valid.runs _, ?_⟩
  refine bind_eq_ok.mpr ⟨_, assertNumber_numberData valid.start _, ?_⟩
  exact bind_eq_ok.mpr ⟨_, assertNumber_numberData valid.tokens _, rfl⟩

theorem checkUsageIds_texts {ids : List Text} (few : (ids.length : ℚ) ≤ maxSeenIds)
    (texts : ∀ id ∈ ids, isText id = true) :
    checkUsageIds (some (.list (ids.map Data.text))) = .ok ids := by
  rw [checkUsageIds, List.length_map, if_neg (not_lt.mpr few)]
  have each : ∀ id ∈ ids, assertText (some (Data.text id)) "usageIds invalide" = .ok id :=
    fun id member => assertText_text (texts id member) _
  rw [mapM_map_eq_ok each, List.map_id']

/-- A window that is in the object is read back. -/
theorem checkEntry_toData {windows : OrderedMap Text WindowCount} (distinct : windows.keys.Nodup)
    {entry : Text × WindowCount} (member : entry ∈ windows)
    (wellFormed : windowKey.accepts entry.1 = true) (valid : entry.2.Valid) :
    checkEntry (windows.map fun entry => (entry.1, entry.2.toData)) entry.1 = .ok entry := by
  have keys : OrderedMap.keys (windows.map fun entry => (entry.1, entry.2.toData)) = windows.keys := by
    rw [OrderedMap.keys, List.map_map]
    rfl
  have read : OrderedMap.get (windows.map fun entry => (entry.1, entry.2.toData)) entry.1 =
      some entry.2.toData := by
    apply OrderedMap.get_of_mem (keys ▸ distinct)
    exact List.mem_map.mpr ⟨entry, member, rfl⟩
  rw [checkEntry, read]
  refine bind_eq_ok.mpr ⟨(), assertThat_eq_ok.mpr wellFormed, ?_⟩
  exact bind_eq_ok.mpr ⟨_, checkWindow_toData valid, rfl⟩

/-- **Valid windows are read back**, in the order of their keys. -/
theorem checkWindows_toData {windows : OrderedMap Text WindowCount} (distinct : windows.keys.Nodup)
    (wellFormed : ∀ entry ∈ windows, windowKey.accepts entry.1 = true)
    (valid : ∀ entry ∈ windows, entry.2.Valid) :
    checkWindows (some (.record (windows.map fun entry => (entry.1, entry.2.toData)))) =
      .ok (windows.insertionSort fun a b => a.1 ≤ b.1) := by
  have sorted := List.perm_insertionSort (fun a b : Text × WindowCount => a.1 ≤ b.1) windows
  have keys : sortedKeys (windows.map fun entry => (entry.1, entry.2.toData)) =
      (windows.insertionSort fun a b => a.1 ≤ b.1).map Prod.fst := by
    rw [sortedKeys, OrderedMap.keys, List.map_map,
      List.map_insertionSort (fun a b : Text × WindowCount => a.1 ≤ b.1) (· ≤ ·) Prod.fst windows
        fun _ _ _ _ => Iff.rfl]
    rfl
  refine bind_eq_ok.mpr ⟨_, rfl, ?_⟩
  rw [keys, mapM_map_eq_ok]
  · refine bind_eq_ok.mpr ⟨_, rfl, ?_⟩
    rw [List.map_id', OrderedMap.ofEntries_of_nodup]
    exact (sorted.map Prod.fst).nodup_iff.mpr distinct
  · intro entry member
    have inside := sorted.mem_iff.mp member
    exact checkEntry_toData distinct inside (wellFormed entry inside) (valid entry inside)

/-- **A persistable state passes the check**, which sorts its windows. -/
theorem checkQuotaState_toData {state : QuotaState} (persistable : Persistable state) :
    checkQuotaState state.toData = .ok state.sorted := by
  have agrees : (decide (state.status = .backoff) == state.resumeAt.isSome) = true := by
    rw [beq_iff_eq, Bool.eq_iff_iff, decide_eq_true_eq]
    exact persistable.consistent.trans Option.isSome_iff_ne_none.symm
  refine bind_eq_ok.mpr ⟨_, rfl, ?_⟩
  refine bind_eq_ok.mpr ⟨_, assertKeys_of_keys rfl sortedKeys_known.2, ?_⟩
  refine bind_eq_ok.mpr ⟨_, checkStatus_text state.status, ?_⟩
  refine bind_eq_ok.mpr ⟨_, nullableEpoch_nullableData persistable.resumeAt, ?_⟩
  refine bind_eq_ok.mpr ⟨(), assertThat_eq_ok.mpr agrees, ?_⟩
  refine bind_eq_ok.mpr ⟨_, nullableText_nullableData persistable.lastSignalId, ?_⟩
  refine bind_eq_ok.mpr ⟨_, assertNumber_numberData persistable.consecutiveHits _, ?_⟩
  refine bind_eq_ok.mpr ⟨_, assertNumber_numberData persistable.version _, ?_⟩
  refine bind_eq_ok.mpr ⟨_, nullableEpoch_nullableData persistable.lastHitAt, ?_⟩
  refine bind_eq_ok.mpr ⟨_, checkUsageIds_texts persistable.fewIds persistable.usageIds, ?_⟩
  exact bind_eq_ok.mpr
    ⟨_, checkWindows_toData persistable.distinct persistable.keys persistable.counts, rfl⟩

/-! ## What is written is read back -/

theorem plain_count {q : ℚ} (count : isSafeCount q = true) : Json.Plain (numberData q) := by
  obtain ⟨n, rfl, small⟩ := isSafeCount_iff.mp count
  exact Json.Plain.number small

theorem isSafeCount_of_isEpoch {q : ℚ} (epoch : isEpoch q = true) : isSafeCount q = true := by
  rw [isEpoch, Bool.and_eq_true, Bool.and_eq_true, decide_eq_true_eq] at epoch
  rw [isSafeCount, Bool.and_eq_true, decide_eq_true_eq]
  have least : (0 : ℚ) ≤ minEpochMs := by
    rw [minEpochMs]
    norm_num
  exact ⟨epoch.1.1, least.trans epoch.1.2⟩

theorem plain_nullable {α : Type} {toData : α → Data} {value : Option α}
    (plain : ∀ a ∈ value, Json.Plain (toData a)) : Json.Plain (nullableData toData value) := by
  cases value with
  | none => exact .null
  | some a => exact plain a rfl

theorem WindowCount.Valid.plain {count : WindowCount} (valid : count.Valid) :
    Json.Plain count.toData := by
  refine .record nodup_keys.1 ?_
  simp only [List.mem_cons, List.not_mem_nil, or_false, forall_eq_or_imp, forall_eq]
  exact ⟨plain_count valid.runs, plain_count valid.start, plain_count valid.tokens⟩

theorem Persistable.plain {state : QuotaState} (persistable : Persistable state) :
    Json.Plain state.toData := by
  have instants : ∀ instant : Option ℚ, (∀ i ∈ instant, isEpoch i = true) →
      Json.Plain (nullableData numberData instant) := fun instant near =>
    plain_nullable fun i member => plain_count (isSafeCount_of_isEpoch (near i member))
  refine .record nodup_keys.2 ?_
  simp only [List.mem_cons, List.not_mem_nil, or_false, forall_eq_or_imp, forall_eq]
  refine ⟨plain_count persistable.consecutiveHits, instants _ persistable.lastHitAt,
    plain_nullable fun t _ => .text t, instants _ persistable.resumeAt, .text _, ?_,
    plain_count persistable.version, ?_⟩
  · apply Json.Plain.list
    intro data member
    obtain ⟨id, _, rfl⟩ := List.mem_map.mp member
    exact .text id
  · apply Json.Plain.record
    · rw [List.map_map]
      exact persistable.distinct
    · intro field member
      obtain ⟨entry, inside, rfl⟩ := List.mem_map.mp member
      exact (persistable.counts entry inside).plain

/-- **A persistable state is written, and read back** with its windows sorted. -/
theorem serialize_persistable {state : QuotaState} (persistable : Persistable state)
    (size : (Json.stringify state.sorted.toData).length ≤ maxSerializedChars) :
    ∃ text, serializeQuotaState state = .ok text ∧ parseQuotaState text none = .ok state.sorted := by
  have again := checkQuotaState_toData persistable.sorted
  rw [sorted_sorted] at again
  refine ⟨Json.stringify state.sorted.toData, ?_, ?_⟩
  · rw [serializeQuotaState, checkQuotaState_toData persistable]
    exact if_neg (not_lt.mpr size)
  · have fits : assertThat (decide ((Json.stringify state.sorted.toData).length ≤ maxSerializedChars))
        "état sérialisé trop volumineux" = .ok () := assertThat_eq_ok.mpr (decide_eq_true size)
    refine bind_eq_ok.mpr ⟨_, fits, bind_eq_ok.mpr ⟨_, rfl, ?_⟩⟩
    have parsed : parseJson (Json.stringify state.sorted.toData) = .ok state.sorted.toData := by
      rw [parseJson, Json.parse_stringify persistable.sorted.plain.legible]
      rfl
    exact bind_eq_ok.mpr ⟨_, parsed, bind_eq_ok.mpr ⟨_, again, rfl⟩⟩

/-! ## What the operations build -/

/-- The instants of the module, with 24 hours of margin. -/
def InRange (now : ℚ) : Prop := minEpochMs ≤ now ∧ now + maxBackoffMs ≤ maxEpochMs

/-- A name on one line. -/
def SingleLine (name : Text) : Prop := ∀ u ∈ name, Text.isLineTerminator u = false

/-- The next version is a count, but for the last one. -/
theorem isSafeCount_add_one {q : ℚ} (count : isSafeCount q = true) (least : q < 2 ^ 53 - 1) :
    isSafeCount (add q 1) = true := by
  obtain ⟨n, rfl, _⟩ := isSafeCount_iff.mp count
  have room : n + 1 < 2 ^ 53 := by
    have cast : (n : ℚ) + 1 < 2 ^ 53 := by linarith
    exact_mod_cast cast
  have sum := add_natCast room.le
  rw [Nat.cast_one] at sum
  rw [sum]
  exact isSafeCount_natCast room

/-- The epochs in range, and the hits that resume within a day. -/
theorem InRange.isEpoch {now instant : ℚ} (inRange : InRange now) (count : isSafeCount instant = true)
    (after : now ≤ instant) (within : instant ≤ now + maxBackoffMs) : isEpoch instant = true := by
  rw [isSafeCount, Bool.and_eq_true] at count
  rw [Quota.isEpoch, Bool.and_eq_true, Bool.and_eq_true, decide_eq_true_eq, decide_eq_true_eq]
  exact ⟨⟨count.1, inRange.1.trans after⟩, within.trans inRange.2⟩

/-- The sum of a plausible instant and a delay is exact. -/
theorem isEpoch_add_delay {policy : BackoffPolicy} (valid : policy.Valid) {now delay : ℚ}
    (inRange : InRange now) (count : isSafeCount now = true) (isDelay : IsDelay policy delay) :
    isEpoch now = true ∧ isEpoch (add now delay) = true := by
  obtain ⟨n, rfl, _⟩ := isSafeCount_iff.mp count
  obtain ⟨d, rfl⟩ := isDelay.whole
  have cap : (d : ℚ) ≤ maxBackoffMs := isDelay.cap.trans valid.cap
  have positive : (0 : ℚ) ≤ maxBackoffMs := (Nat.cast_nonneg d).trans cap
  have small : n + d < 2 ^ 53 := by
    have top : (n : ℚ) + d ≤ maxEpochMs := (add_le_add_right cap (n : ℚ)).trans inRange.2
    have far : maxEpochMs < 2 ^ 53 := by
      rw [maxEpochMs]
      norm_num
    exact_mod_cast top.trans_lt far
  rw [add_natCast small.le]
  refine ⟨inRange.isEpoch count le_rfl (le_add_of_nonneg_right positive), ?_⟩
  apply inRange.isEpoch (isSafeCount_natCast small)
  · exact_mod_cast Nat.le_add_right n d
  · push_cast
    linarith

theorem nextStep_resumeAt {state : QuotaState} {signal : QuotaSignal} {now delay instant : ℚ}
    {policy : BackoffPolicy} (resumes : instant ∈ (nextStep state signal now delay policy).resumeAt) :
    instant = max (state.resumeAt.getD 0) (add now delay) := by
  obtain ⟨_, same⟩ := Option.ite_none_left_eq_some.mp (Option.mem_def.mp resumes)
  exact (Option.some.inj same).symm

/-- The hits are counted up to the bound of the policy. -/
theorem isSafeCount_nextStep {state : QuotaState} {signal : QuotaSignal} {now delay : ℚ}
    {policy : BackoffPolicy} (count : isSafeCount state.consecutiveHits = true)
    (valid : policy.Valid) :
    isSafeCount (nextStep state signal now delay policy).consecutiveHits = true := by
  obtain ⟨c, hits, small⟩ := isSafeCount_iff.mp count
  obtain ⟨m, most, _, bound⟩ := valid.hits
  have step : add state.consecutiveHits 1 = (c + 1 : ℕ) := by
    rw [hits, ← Nat.cast_one]
    exact add_natCast small
  show isSafeCount (if signal.strength = .strong then
    min (add state.consecutiveHits 1) policy.maxConsecutiveHits else state.consecutiveHits) = true
  split
  · rw [step, most, ← Nat.cast_min]
    exact isSafeCount_natCast ((min_le_right _ _).trans_lt bound)
  · exact count

/-- **A hit keeps a state persistable.** -/
theorem hit_persistable {state next : QuotaState} {signal : QuotaSignal} {now jitter : ℚ}
    {policy : BackoffPolicy} {expected : Option ℚ} (persistable : Persistable state)
    (inRange : InRange now) (least : state.version < 2 ^ 53 - 1)
    (accepted : onQuotaHit state signal now jitter policy expected = .ok next) :
    Persistable next := by
  have consistent := (hit_outcome persistable.consistent accepted).consistent
  obtain ⟨⟨⟨n, rfl, small⟩, _, valid⟩, texts, _, cases⟩ := onQuotaHit_cases accepted
  have count := isSafeCount_natCast small
  have version := isSafeCount_add_one persistable.version least
  rcases cases with rfl | ⟨resumeAt, delay, active, isDelay, later, rfl⟩ |
    ⟨alive, idle, delay, isDelay, rfl⟩
  · exact persistable
  · obtain ⟨epoch, resumes⟩ := isEpoch_add_delay valid inRange count isDelay
    rw [extendBurst, if_neg (not_le.mpr later)] at consistent ⊢
    exact { persistable with
      consistent := consistent
      resumeAt := by rintro _ ⟨⟩; exact resumes
      lastHitAt := by rintro _ ⟨⟩; exact epoch
      lastSignalId := texts
      version := version }
  · obtain ⟨epoch, resumes⟩ := isEpoch_add_delay valid inRange count isDelay
    have before := getD_resumeAt_le persistable.consistent (Nat.cast_nonneg n) idle
    have latest : max (state.resumeAt.getD 0) (add n delay) = add n delay :=
      max_eq_right (before.trans (lt_add_delay small isDelay).1.le)
    exact { persistable with
      consistent := consistent
      resumeAt := by
        intro instant member
        rw [nextStep_resumeAt member, latest]
        exact resumes
      lastHitAt := by rintro _ ⟨⟩; exact epoch
      lastSignalId := texts
      consecutiveHits := isSafeCount_nextStep persistable.consecutiveHits valid
      version := version }

/-! ## What a usage builds -/

theorem isOrganization_of_assertScope {scope : QuotaScope} {u : Unit}
    (accepted : assertScope scope = .ok u) : IsOrganization scope.organization ∧
      (∀ name ∈ scope.project, name ≠ []) ∧ ∀ name ∈ scope.agent, name ≠ [] := by
  simp only [assertScope, bind_eq_ok, assertThat_eq_ok, Bool.and_eq_true, decide_eq_true_eq,
    Option.all_eq_true] at accepted
  obtain ⟨_, ⟨text, noSlash⟩, project, agent⟩ := accepted
  exact ⟨⟨text, noSlash⟩, fun name member => ne_nil_of_isText (project name member),
    fun name member => ne_nil_of_isText (agent name member)⟩

/-- A usage whose project and agent are each on one line. -/
def OneLined (scope : QuotaScope) : Prop :=
  (∀ name ∈ scope.project, SingleLine name) ∧ ∀ name ∈ scope.agent, SingleLine name

/-- **The keys of a scope are well formed** when its names are on one line. -/
theorem accepts_scopeLevels {scope : QuotaScope} {u : Unit} (accepted : assertScope scope = .ok u)
    (single : OneLined scope) : ∀ level ∈ scopeLevels scope, windowKey.accepts level.2 = true := by
  obtain ⟨organization, project, agent⟩ := isOrganization_of_assertScope accepted
  intro level member
  rcases List.mem_cons.mp member with rfl | member
  · exact accepts_organizationKey organization
  rcases List.mem_append.mp member with first | second
  · obtain ⟨name, named, rfl⟩ := Option.map_eq_some_iff.mp (Option.mem_toList.mp first)
    exact accepts_memberKey (.inl rfl) organization (project name named) (single.1 name named)
  · obtain ⟨name, named, rfl⟩ := Option.map_eq_some_iff.mp (Option.mem_toList.mp second)
    exact accepts_memberKey (.inr rfl) organization (agent name named) (single.2 name named)

/-- **Counting a usage in its windows** keeps the keys distinct and well formed and the counts
valid. -/
theorem addToWindows_valid {state : QuotaState} {usage : Usage} {start : ℚ}
    {windows : OrderedMap Text WindowCount} (persistable : Persistable state)
    (begins : isSafeCount start = true) (runs : isSafeCount usage.runs = true)
    (tokens : isSafeCount usage.tokens = true)
    (levels : ∀ level ∈ scopeLevels usage.scope, windowKey.accepts level.2 = true)
    (added : addToWindows state usage start = .ok windows) :
    windows.keys.Nodup ∧ ∀ entry ∈ windows, windowKey.accepts entry.1 = true ∧ entry.2.Valid := by
  refine ⟨(addToWindows_spec persistable.distinct added).1, fun entry member => ?_⟩
  rcases mem_addToWindows persistable.distinct added member with ⟨level, inside, same, done⟩ | old
  · have valid := (counted_eq_ok persistable.counts begins runs tokens done).1
    exact ⟨same ▸ levels level inside, valid⟩
  · exact ⟨persistable.keys entry old, persistable.counts entry old⟩

/-- The identifiers that are kept are few, and texts. -/
theorem takeLast_usageIds {state : QuotaState} {usage : Usage} {now : ℚ} {policy : UsagePolicy}
    (persistable : Persistable state) (input : UsageInput usage now policy) :
    ((takeLast ⌊policy.maxSeenIds⌋.toNat (state.usageIds ++ [usage.id])).length : ℚ) ≤ maxSeenIds ∧
      ∀ id ∈ takeLast ⌊policy.maxSeenIds⌋.toNat (state.usageIds ++ [usage.id]),
        isText id = true := by
  constructor
  · obtain ⟨m, most, _, _⟩ := isPositiveInt_iff.mp input.seenIds
    have bound := input.fewIds
    rw [most] at bound ⊢
    rw [Int.floor_natCast, Int.toNat_natCast, takeLast, List.length_drop]
    refine le_trans ?_ bound
    exact_mod_cast tsub_le_iff_tsub_le.mp le_rfl
  · intro id member
    rcases List.mem_append.mp (List.mem_of_mem_drop member) with earlier | last
    · exact persistable.usageIds id earlier
    · rw [List.mem_singleton.mp last]
      exact input.id

/-- **A usage keeps a state persistable** when its names are on one line, or it was already
counted. -/
theorem usage_persistable {state next : QuotaState} {usage : Usage} {now : ℚ} {policy : UsagePolicy}
    {expected : Option ℚ} (persistable : Persistable state) (least : state.version < 2 ^ 53 - 1)
    (single : usage.id ∉ state.usageIds → OneLined usage.scope)
    (accepted : recordUsage state usage now policy expected = .ok next) : Persistable next := by
  have consistent := (usage_outcome persistable.consistent accepted).consistent
  obtain ⟨input, ⟨_, rfl⟩ | ⟨fresh, windows, added, rfl⟩⟩ := recordUsage_cases accepted
  · exact persistable
  have begins : isSafeCount (windowStart now policy.windowMs) = true := by
    obtain ⟨n, rfl, small⟩ := isSafeCount_iff.mp input.now
    obtain ⟨w, length, positive, wide⟩ := isPositiveInt_iff.mp input.windowMs
    rw [length, windowStart_natCast small positive wide]
    exact isSafeCount_natCast ((Nat.div_mul_le_self n w).trans_lt small)
  obtain ⟨distinct, valid⟩ := addToWindows_valid persistable begins input.runs input.tokens
    (accepts_scopeLevels input.scope (single fresh)) added
  obtain ⟨few, texts⟩ := takeLast_usageIds persistable input
  have kept : ∀ instant ∈ (usageRecorded state usage now policy windows).resumeAt,
      instant ∈ state.resumeAt := by
    intro instant resumes
    exact (Option.ite_none_left_eq_some.mp resumes).2
  have hits : isSafeCount (usageRecorded state usage now policy windows).consecutiveHits = true := by
    show isSafeCount (if recovered state now then 0 else state.consecutiveHits) = true
    split
    · exact isSafeCount_natCast (n := 0) (by norm_num)
    · exact persistable.consecutiveHits
  exact {
    consistent := consistent
    resumeAt := fun instant resumes => persistable.resumeAt instant (kept instant resumes)
    lastHitAt := persistable.lastHitAt
    lastSignalId := persistable.lastSignalId
    consecutiveHits := hits
    version := isSafeCount_add_one persistable.version least
    fewIds := few
    usageIds := texts
    distinct := distinct
    keys := fun entry member => (valid entry member).1
    counts := fun entry member => (valid entry member).2 }

theorem clear_persistable {state next : QuotaState} {expected : Option ℚ}
    (persistable : Persistable state) (least : state.version < 2 ^ 53 - 1)
    (accepted : clearQuota state expected = .ok next) : Persistable next := by
  have consistent := clear_consistent persistable.consistent accepted
  rcases clearQuota_cases accepted with ⟨rfl, _⟩ | rfl
  · exact persistable
  · exact { persistable with
      consistent := consistent
      resumeAt := nofun
      consecutiveHits := isSafeCount_natCast (n := 0) (by norm_num)
      version := isSafeCount_add_one persistable.version least }

/-! ## Runs -/

/-- The state after an accepted call. -/
def QuotaState.after (state : QuotaState) (call : QuotaCall) : Option QuotaState :=
  (perform state call).toOption

/-- A call that keeps a state readable: its version is not the last count, and a usage that is
counted names its project and its agent on one line. -/
def KeepsReadable (state : QuotaState) (call : QuotaCall) : Prop :=
  state.version < 2 ^ 53 - 1 ∧
    match call with
    | .usage usage _ _ _ => usage.id ∉ state.usageIds → OneLined usage.scope
    | _ => True

theorem perform_persistable {state next : QuotaState} {call : QuotaCall}
    (persistable : Persistable state) (inRange : ∀ now ∈ call.now, InRange now)
    (readable : KeepsReadable state call) (taken : state.after call = some next) :
    Persistable next := by
  have done : perform state call = .ok next := by
    rw [QuotaState.after] at taken
    cases performed : perform state call with
    | error e =>
      rw [performed] at taken
      cases taken
    | ok state' =>
      rw [performed] at taken
      cases taken
      rfl
  cases call with
  | hit signal now jitter policy expected =>
    exact hit_persistable persistable (inRange now rfl) readable.1 done
  | usage usage now policy expected =>
    exact usage_persistable persistable readable.1 readable.2 done
  | clear expected => exact clear_persistable persistable readable.1 done

theorem start_persistable : Persistable startQuotaState where
  consistent := start_consistent
  resumeAt := nofun
  lastHitAt := nofun
  lastSignalId := nofun
  consecutiveHits := isSafeCount_natCast (n := 0) (by norm_num)
  version := isSafeCount_natCast (n := 0) (by norm_num)
  fewIds := by
    rw [maxSeenIds]
    norm_num [startQuotaState]
  usageIds := nofun
  distinct := List.nodup_nil
  keys := nofun
  counts := nofun

/-- **Every state of a run survives persistence** when each of its calls keeps the state
readable: it is written, and what is written is read back as the same state. -/
theorem quota_state_survives {calls : List QuotaCall} {state : QuotaState}
    (inRange : ∀ call ∈ calls, ∀ now ∈ call.now, InRange now)
    (readable : Along QuotaState.after KeepsReadable startQuotaState calls)
    (reached : run QuotaState.after startQuotaState calls = some state)
    (size : (Json.stringify state.sorted.toData).length ≤ maxSerializedChars) :
    ∃ text next, serializeQuotaState state = .ok text ∧ parseQuotaState text none = .ok next ∧
      next.Same state := by
  have persistable : Persistable state := by
    apply run_invariant_along _ start_persistable (readable.and_labels inRange) reached
    intro state call next persistable allowed taken
    exact perform_persistable persistable allowed.2 allowed.1 taken
  obtain ⟨text, written, read⟩ := serialize_persistable persistable size
  exact ⟨text, state.sorted, written, read, same_sorted state⟩

/-! ## A name with a line terminator -/

/-- A usage of one project. -/
def projectUsage (project : Text) : QuotaCall :=
  .usage ⟨Text.lit "u1", ⟨Text.lit "acme", some project, none⟩, 1, 10⟩ 1700000000000
    ⟨3600000, 10, none, none, none⟩ none

/-- The state after this usage. -/
def usedBy (project : Text) : QuotaState where
  status := .ok
  resumeAt := none
  consecutiveHits := 0
  lastHitAt := none
  lastSignalId := none
  windows := [(organizationKey (Text.lit "acme"), ⟨1699999200000, 1, 10⟩),
    (projectKey (Text.lit "acme") project, ⟨1699999200000, 1, 10⟩)]
  usageIds := [Text.lit "u1"]
  version := 1

theorem inRange_projectUsage (project : Text) :
    ∀ call ∈ [projectUsage project], ∀ now ∈ call.now, InRange now := by
  intro call member now instant
  rw [List.mem_singleton.mp member] at instant
  cases instant
  constructor
  · rw [minEpochMs]
    norm_num
  · rw [maxBackoffMs, maxEpochMs]
    norm_num

theorem run_projectUsage_web :
    run QuotaState.after startQuotaState [projectUsage (Text.lit "web")] =
      some (usedBy (Text.lit "web")) := by
  decide +kernel

/-- A usage of a project on one line survives. -/
theorem quota_state_survives_web :
    ∃ text next, serializeQuotaState (usedBy (Text.lit "web")) = .ok text ∧
      parseQuotaState text none = .ok next ∧ next.Same (usedBy (Text.lit "web")) := by
  have single : OneLined ⟨Text.lit "acme", some (Text.lit "web"), none⟩ := by
    constructor
    · rintro name ⟨⟩ u member
      have all : (Text.lit "web").all (!Text.isLineTerminator ·) = true := by decide +kernel
      have kept := List.all_eq_true.mp all u member
      rwa [Bool.not_eq_true'] at kept
    · rintro name ⟨⟩
  have first : KeepsReadable startQuotaState (projectUsage (Text.lit "web")) :=
    ⟨by decide +kernel, fun _ => single⟩
  exact quota_state_survives (inRange_projectUsage (Text.lit "web"))
    ⟨first, fun _ _ => trivial⟩ run_projectUsage_web (by decide +kernel)

/-- **A project whose name holds a line feed** is counted, and the state is refused when it is
written. -/
theorem state_not_serialized :
    ¬ ∀ (calls : List QuotaCall) (state : QuotaState),
      (∀ call ∈ calls, ∀ now ∈ call.now, InRange now) →
      run QuotaState.after startQuotaState calls = some state →
      (Json.stringify state.sorted.toData).length ≤ maxSerializedChars →
      ∃ text next, serializeQuotaState state = .ok text ∧ parseQuotaState text none = .ok next ∧
        next.Same state := by
  intro claim
  have counted : run QuotaState.after startQuotaState [projectUsage (Text.lit "a\nb")] =
      some (usedBy (Text.lit "a\nb")) := by
    decide +kernel
  obtain ⟨text, next, written, _⟩ :=
    claim _ _ (inRange_projectUsage (Text.lit "a\nb")) counted (by decide +kernel)
  have refused : serializeQuotaState (usedBy (Text.lit "a\nb")) = fail "clé de fenêtre invalide" := by
    decide +kernel
  rw [refused] at written
  cases written

end Koklo.Delivery.Quota
