import Koklo.Llm.Providers

/-!
# The routing plan of a call

Which providers a call may try, from the settings of the organisation, the
catalog of qualified models and the usage: the line of the usage, the primary
provider, Anthropic, then the only key there is. A call that fails may fall
back once, on one other provider.

Every provider of a plan is eligible: a key exists for it, and it is admitted
for European data when the call asks for that (`eligible_of_mem_mainTargets`,
`fallbackTarget_eq_some`).
-/

set_option autoImplicit false

namespace Koklo.Llm

open Foundations

/-- The model that is chosen for a usage. -/
structure AiUsageModel where
  provider : LlmProviderId
  model : Text

/-- The settings of an organisation. -/
structure AiRouting where
  primary : Option LlmProviderId
  fallback : Option LlmProviderId
  fallbackEnabled : Bool
  usageModels : AiUsage → Option AiUsageModel
  /-- The providers for which a valid key exists. -/
  availableProviders : List LlmProviderId
  /-- The cap of the month, in millionths of a dollar; none means no cap. -/
  monthlyCapMicroUsd : Option ℕ

/-- A model of the catalog, with the usages it is qualified for. -/
structure QualifiedModel where
  provider : LlmProviderId
  model : Text
  usages : List AiUsage

/-- A provider to try, with the model of its line or its default model. -/
structure Target where
  provider : LlmProviderId
  model : Option Text := none
  fallbackModel : Option Text := none

/-- What a plan is made from. -/
structure PlanInput where
  routing : AiRouting
  catalog : List QualifiedModel
  usage : AiUsage
  euOnly : Bool

def anthropicDefaultModel : Text := Text.lit "claude-sonnet-5-5"

/-- A key exists, and the provider is admitted when the data must stay in the
European Union. -/
def eligible (input : PlanInput) (provider : LlmProviderId) : Bool :=
  input.routing.availableProviders.contains provider &&
    (!input.euOnly || (llmProviderTraits provider).euEligible)

/-- The qualified model of a provider for a usage. -/
def qualifiedModel (catalog : List QualifiedModel) (provider : LlmProviderId) (usage : AiUsage) :
    Option Text :=
  (catalog.find? fun entry => entry.provider == provider && entry.usages.contains usage).map
    (·.model)

/-- The model of a provider when none is chosen. -/
def defaultModelOf (input : PlanInput) (provider : LlmProviderId) : Option Text :=
  (qualifiedModel input.catalog provider input.usage).or
    (if provider = .anthropic then some anthropicDefaultModel else none)

/-- The target with its model, or the default one. -/
def withDefault (input : PlanInput) (provider : LlmProviderId) (model : Option Text := none) :
    Target where
  provider := provider
  model := model
  fallbackModel := defaultModelOf input provider

/-- The targets in the order in which they are considered. -/
def orderedTargets (input : PlanInput) : List Target :=
  let { routing, usage, .. } := input
  let available := routing.availableProviders.filter (eligible input)
  (match routing.usageModels usage with
    | some row =>
        if eligible input row.provider then [withDefault input row.provider (some row.model)] else []
    | none => []) ++
  (match routing.primary with
    | some primary => if eligible input primary then [withDefault input primary] else []
    | none => []) ++
  (if eligible input .anthropic then [withDefault input .anthropic] else []) ++
  (match routing.primary, available with
    | none, [only] => [withDefault input only]
    | _, _ => [])

/-- The targets to try, each provider at its first place. -/
def mainTargets (input : PlanInput) : List Target :=
  let ordered := orderedTargets input
  (ordered.zipIdx.filter fun (target, index) =>
    ordered.findIdx (·.provider == target.provider) == index).map (·.1)

/-- The target of the fallback: enabled, different from the one that failed,
eligible, and with a qualified model for the usage. -/
def fallbackTarget (input : PlanInput) (served : LlmProviderId) : Option Target :=
  match input.routing.fallback with
  | none => none
  | some provider =>
      if !input.routing.fallbackEnabled || provider == served then none
      else
        (if eligible input provider then qualifiedModel input.catalog provider input.usage
          else none).map fun model => { provider, model := some model }

/-- Why there is no target. -/
def notConfiguredReason (input : PlanInput) : AiNotConfiguredReason :=
  if input.euOnly &&
      input.routing.availableProviders.any (fun provider => !(llmProviderTraits provider).euEligible) &&
      !input.routing.availableProviders.any (eligible input) then .euRestricted
  else .noCredential

/-! ## What a plan tries -/

theorem eligible_iff {input : PlanInput} {provider : LlmProviderId} :
    eligible input provider = true ↔ provider ∈ input.routing.availableProviders ∧
      (input.euOnly = true → (llmProviderTraits provider).euEligible = true) := by
  rw [eligible, Bool.and_eq_true, List.contains_iff_mem, Bool.or_eq_true, Bool.not_eq_true',
    or_iff_not_imp_left, Bool.not_eq_false]

theorem eligible_of_mem_orderedTargets {input : PlanInput} {target : Target}
    (member : target ∈ orderedTargets input) : eligible input target.provider = true := by
  simp only [orderedTargets, List.mem_append] at member
  rcases member with ((row | primary) | anthropic) | only
  · split at row
    · split at row
      · rename_i admitted
        rw [List.mem_singleton.mp row]
        exact admitted
      · cases row
    · cases row
  · split at primary
    · split at primary
      · rename_i admitted
        rw [List.mem_singleton.mp primary]
        exact admitted
      · cases primary
    · cases primary
  · split at anthropic
    · rename_i admitted
      rw [List.mem_singleton.mp anthropic]
      exact admitted
    · cases anthropic
  · split at only
    · rename_i provider _ single
      have kept : provider ∈ input.routing.availableProviders.filter (eligible input) := by
        rw [single]
        exact List.mem_singleton_self _
      rw [List.mem_singleton.mp only]
      exact (List.mem_filter.mp kept).2
    · cases only

/-- Keeping the first target of each provider adds none. -/
theorem mem_orderedTargets_of_mem_mainTargets {input : PlanInput} {target : Target}
    (member : target ∈ mainTargets input) : target ∈ orderedTargets input := by
  obtain ⟨⟨kept, index⟩, filtered, rfl⟩ := List.mem_map.mp member
  exact List.fst_mem_of_mem_zipIdx (List.mem_filter.mp filtered).1

/-- **Every target of a plan is eligible.** -/
theorem eligible_of_mem_mainTargets {input : PlanInput} {target : Target}
    (member : target ∈ mainTargets input) : eligible input target.provider = true :=
  eligible_of_mem_orderedTargets (mem_orderedTargets_of_mem_mainTargets member)

/-- **A fallback is enabled, eligible, and not the provider that failed.** -/
theorem fallbackTarget_eq_some {input : PlanInput} {served : LlmProviderId} {target : Target}
    (found : fallbackTarget input served = some target) :
    input.routing.fallbackEnabled = true ∧ input.routing.fallback = some target.provider ∧
      target.provider ≠ served ∧ eligible input target.provider = true := by
  unfold fallbackTarget at found
  split at found
  · cases found
  · rename_i provider chosen
    split at found
    · cases found
    · rename_i allowed
      rw [Bool.or_eq_true, Bool.not_eq_true', beq_iff_eq, not_or, Bool.not_eq_false] at allowed
      obtain ⟨model, qualified, rfl⟩ := Option.map_eq_some_iff.mp found
      split at qualified
      · rename_i admitted
        exact ⟨allowed.1, chosen, allowed.2, admitted⟩
      · cases qualified

/-! ## The cap of the month -/

/-- What an organisation has spent this month. -/
structure AiMonthConsumption where
  costMicroUsd : ℕ
  warnedThisMonth : Bool

/-- Where the month stands with regard to its cap. -/
inductive AiCapState where
  | ok
  | warning
  | suspended
deriving DecidableEq

/-- The state of the cap: a warning at four fifths, suspended at the cap. -/
def capStateOf (consumption : AiMonthConsumption) : Option ℕ → AiCapState
  | none => .ok
  | some cap =>
      if cap ≤ consumption.costMicroUsd then .suspended
      else if cap * 4 ≤ consumption.costMicroUsd * 5 then .warning else .ok

/-- Calls are suspended exactly when the cost of the month has reached the cap. -/
theorem capStateOf_eq_suspended {consumption : AiMonthConsumption} {cap : Option ℕ} :
    capStateOf consumption cap = .suspended ↔ ∃ c ∈ cap, c ≤ consumption.costMicroUsd := by
  cases cap with
  | none => simp [capStateOf]
  | some c =>
    rw [capStateOf]
    split
    · rename_i reached
      simpa using reached
    · rename_i below
      simp only [Option.mem_def, Option.some.injEq, exists_eq_left']
      split <;> simp [below]

/-! ## The errors that justify a fallback -/

/-- Why the second provider is tried. -/
inductive AiFallbackReason where
  | auth
  | rateLimited
  | quota
  | unavailable
  | timeout
deriving DecidableEq

/-- The reason of a fallback; none for an error that does not justify one. -/
def fallbackReasonOf : Failure → Option AiFallbackReason
  | .llmAuth _ => some .auth
  | .llmRateLimited _ => some .rateLimited
  | .llmQuotaExceeded => some .quota
  | .llmProviderUnavailable => some .unavailable
  | .llmTimeout => some .timeout
  | _ => none

end Koklo.Llm
