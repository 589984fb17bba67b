import Koklo.Rules.RuleTypes

/-!
# The strength of a rule

A change weakens a rule when it lowers its severity or the kind of its
enforcement, or raises its numeric limit `max`. On a locked rule an enforcement
may only be replaced by one with the same target and the same parameters, up to
a lower limit (`isLockedSafe_keeps`). Keeping an enforcement in this sense is a
preorder (`KeepsEnforcement.trans`), so that a chain of accepted changes keeps
the first enforcement too.
-/

set_option autoImplicit false

namespace Koklo.Rules

open Koklo.Foundations

/-! ## Comparing -/

/-- `SEVERITY_RANK`. -/
def Severity.rank : Severity → ℕ
  | advisory => 0
  | blocking => 1

/-- `ENFORCEMENT_RANK`. -/
def EnforcementKind.rank : EnforcementKind → ℕ
  | instruction => 0
  | evidence => 1
  | gate => 2

/-- `params.max`, when it is a number. -/
def ParamValue.number? : ParamValue → Option Number
  | number value => some value
  | text _ | bool _ => none

/-- The key of the limit. -/
def maxKey : Text := Text.lit "max"

namespace EnforcementParams

def get (params : EnforcementParams) (key : Text) : Option ParamValue := params.entries.get key

/-- The keys other than the limit. -/
def keysExceptMax (params : EnforcementParams) : List Text := params.entries.keys.filter (· ≠ maxKey)

end EnforcementParams

/-- `params ?? {}`. -/
def Enforcement.paramsOrEmpty (enforcement : Enforcement) : EnforcementParams :=
  enforcement.params.getD .empty

/-- The numeric limit of an enforcement. -/
def maxOf (enforcement : Enforcement) : Option Number :=
  (enforcement.paramsOrEmpty.get maxKey).bind ParamValue.number?

/-- Raising or removing a limit weakens. -/
def limitRaised (before after : Enforcement) : Bool :=
  match maxOf before with
  | none => false
  | some limit =>
    match maxOf after with
    | none => true
    | some limit' => limit.lt limit'

/-- Whether a severity and an enforcement are strictly weaker than others. -/
def isWeaker (before after : Severity × Enforcement) : Bool :=
  decide (after.1.rank < before.1.rank) ||
    decide (after.2.kind.rank < before.2.kind.rank) ||
      (after.2.kind = before.2.kind && limitRaised before.2 after.2)

/-- The parameters are the same, but for the limits. -/
def sameParamsExceptMax (before after : EnforcementParams) : Bool :=
  before.keysExceptMax.length == after.keysExceptMax.length &&
    before.keysExceptMax.all fun key =>
      (after.get key).isSome && before.get key == after.get key

/-- A valid new limit: an integer at least zero and at most the current one.
Without a numeric limit, none. -/
def limitKept (before after : EnforcementParams) : Bool :=
  match (before.get maxKey).bind ParamValue.number? with
  | none => (after.get maxKey).isNone
  | some limit =>
    match (after.get maxKey).bind ParamValue.number? with
    | none => false
    | some limit' => limit'.isInteger && (Number.finite 0).le limit' && limit'.le limit

/-- Both are enforced by the same means. -/
def sameTarget : Enforcement → Enforcement → Bool
  | .gate adapter command _, .gate adapter' command' _ => adapter == adapter' && command == command'
  | .evidence asked _, .evidence asked' _ => asked == asked'
  | before, after => before.kind == after.kind

/-- Whether an enforcement may replace that of a locked rule. -/
def isLockedSafe (before after : Enforcement) : Bool :=
  sameTarget before after && sameParamsExceptMax before.paramsOrEmpty after.paramsOrEmpty &&
    limitKept before.paramsOrEmpty after.paramsOrEmpty

/-! ## Keeping an enforcement -/

/-- The enforcement `after` keeps what `before` demands: the same target, the same
parameters but the limit, and a numeric limit neither removed nor raised. -/
structure KeepsEnforcement (before after : Enforcement) : Prop where
  kind : after.kind = before.kind
  adapter : after.adapter? = before.adapter?
  command : after.command? = before.command?
  evidence : after.evidence? = before.evidence?
  params : ∀ key, key ≠ maxKey → after.paramsOrEmpty.get key = before.paramsOrEmpty.get key
  max : ∀ limit, maxOf before = some limit → ∃ limit', maxOf after = some limit' ∧
    (limit' = limit ∨ limit'.le limit = true)

theorem KeepsEnforcement.refl (enforcement : Enforcement) :
    KeepsEnforcement enforcement enforcement :=
  ⟨rfl, rfl, rfl, rfl, fun _ _ => rfl, fun limit read => ⟨limit, read, .inl rfl⟩⟩

theorem KeepsEnforcement.trans {a b c : Enforcement} (first : KeepsEnforcement a b)
    (second : KeepsEnforcement b c) : KeepsEnforcement a c where
  kind := second.kind.trans first.kind
  adapter := second.adapter.trans first.adapter
  command := second.command.trans first.command
  evidence := second.evidence.trans first.evidence
  params key other := (second.params key other).trans (first.params key other)
  max limit read := by
    obtain ⟨limit', read', same | lower⟩ := first.max limit read
    · rw [same] at read'
      exact second.max limit read'
    · obtain ⟨limit'', read'', same | lower'⟩ := second.max limit' read'
      · exact ⟨limit'', read'', .inr (same ▸ lower)⟩
      · exact ⟨limit'', read'', .inr (Number.le_trans lower' lower)⟩

/-- Records with as many keys, of which one has the keys of the other, have the same keys. -/
theorem sameParamsExceptMax_get {before after : EnforcementParams}
    (same : sameParamsExceptMax before after = true) {key : Text} (other : key ≠ maxKey) :
    after.get key = before.get key := by
  simp only [sameParamsExceptMax, Bool.and_eq_true, beq_iff_eq, List.all_eq_true] at same
  obtain ⟨lengths, kept⟩ := same
  have among : before.keysExceptMax ⊆ after.keysExceptMax := by
    intro known member
    refine List.mem_filter.mpr ⟨OrderedMap.get_isSome_iff.mp (kept known member).1, ?_⟩
    exact (List.mem_filter.mp member).2
  have nodup : before.keysExceptMax.Nodup := before.distinct.filter _
  have perm : before.keysExceptMax.Perm after.keysExceptMax :=
    (List.subperm_of_subset nodup among).perm_of_length_le lengths.symm.le
  by_cases known : key ∈ before.keysExceptMax
  · exact (kept key known).2.symm
  · have absent : ∀ {params : EnforcementParams}, key ∉ params.keysExceptMax →
        params.get key = none := by
      intro params missing
      refine OrderedMap.get_eq_none_iff.mpr fun member => missing ?_
      exact List.mem_filter.mpr ⟨member, by simpa using other⟩
    rw [absent known, absent (mt perm.mem_iff.mpr known)]

/-- **A locked-safe enforcement keeps the one it replaces.** -/
theorem isLockedSafe_keeps {before after : Enforcement} (safe : isLockedSafe before after = true) :
    KeepsEnforcement before after := by
  simp only [isLockedSafe, Bool.and_eq_true] at safe
  obtain ⟨⟨target, params⟩, limit⟩ := safe
  have targets : after.kind = before.kind ∧ after.adapter? = before.adapter? ∧
      after.command? = before.command? ∧ after.evidence? = before.evidence? := by
    cases before <;> cases after <;>
      simp_all [sameTarget, Enforcement.kind, Enforcement.adapter?, Enforcement.command?,
        Enforcement.evidence?]
  refine ⟨targets.1, targets.2.1, targets.2.2.1, targets.2.2.2,
    fun key other => sameParamsExceptMax_get params other, fun value read => ?_⟩
  have read' : (before.paramsOrEmpty.get maxKey).bind ParamValue.number? = some value := read
  rw [limitKept, read'] at limit
  cases new : (after.paramsOrEmpty.get maxKey).bind ParamValue.number? with
  | none =>
    rw [new] at limit
    cases limit
  | some value' =>
    rw [new] at limit
    simp only [Bool.and_eq_true] at limit
    exact ⟨value', new, .inr limit.2⟩

end Koklo.Rules
