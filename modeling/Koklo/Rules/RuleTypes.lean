import Koklo.Foundations.Number
import Koklo.Foundations.OrderedMap
import Koklo.Foundations.Text

/-!
# Rules, catalogs and layers

The data of the engineering rules. A catalog holds rules; the layers of the
organization, the group and the project add rules, override them, waive them for
a file and lock them. The parameters of an enforcement are a record: no key is
repeated.
-/

set_option autoImplicit false

namespace Koklo.Rules

open Koklo.Foundations

/-! ## The catalog -/

/-- The roles of agents. -/
inductive AgentRole where
  | productOwner
  | analyst
  | designer
  | developer
  | testWriter
  | qaReviewer
  | techLead
  | docWriter
deriving DecidableEq

/-- `AGENT_ROLES`, each with its name. -/
def AgentRole.names : List (AgentRole × Text) := [
  (.productOwner, Text.lit "product-owner"),
  (.analyst, Text.lit "analyst"),
  (.designer, Text.lit "designer"),
  (.developer, Text.lit "developer"),
  (.testWriter, Text.lit "test-writer"),
  (.qaReviewer, Text.lit "qa-reviewer"),
  (.techLead, Text.lit "tech-lead"),
  (.docWriter, Text.lit "doc-writer")]

/-- The severities of rules. -/
inductive Severity where
  | blocking
  | advisory
deriving DecidableEq

/-- A value of an enforcement parameter. -/
inductive ParamValue where
  | number (value : Number)
  | text (value : Text)
  | bool (value : Bool)
deriving DecidableEq

/-- The parameters of an enforcement, with distinct keys. -/
structure EnforcementParams where
  entries : OrderedMap Text ParamValue
  distinct : entries.keys.Nodup
deriving DecidableEq

/-- No parameter. -/
def EnforcementParams.empty : EnforcementParams := ⟨[], List.nodup_nil⟩

/-- How a rule is enforced. -/
inductive Enforcement where
  | gate (adapter : Text) (command : Option Text) (params : Option EnforcementParams)
  | evidence (evidence : Text) (params : Option EnforcementParams)
  | instruction (params : Option EnforcementParams)
deriving DecidableEq

/-- The kind of an enforcement. -/
inductive EnforcementKind where
  | gate
  | evidence
  | instruction
deriving DecidableEq

namespace Enforcement

def kind : Enforcement → EnforcementKind
  | gate .. => .gate
  | evidence .. => .evidence
  | instruction _ => .instruction

def params : Enforcement → Option EnforcementParams
  | gate _ _ params | evidence _ params | instruction params => params

/-- The adapter of a gate. -/
def adapter? : Enforcement → Option Text
  | gate adapter .. => some adapter
  | evidence .. | instruction _ => none

/-- The command of a gate. -/
def command? : Enforcement → Option Text
  | gate _ command _ => command
  | evidence .. | instruction _ => none

/-- The evidence that an enforcement asks for. -/
def evidence? : Enforcement → Option Text
  | evidence asked _ => some asked
  | gate .. | instruction _ => none

end Enforcement

/-- A rule of the catalog. -/
structure Rule where
  id : Text
  title : Text
  description : Text
  profiles : List Text
  agents : List AgentRole
  severity : Severity
  isProtected : Bool
  enforcement : Enforcement
deriving DecidableEq

/-- A catalog; of its profiles, the names. -/
structure Catalog where
  catalogVersion : Text
  protectedRuleIds : List Text
  profiles : List Text
  rules : List Rule
deriving DecidableEq

/-! ## The layers -/

/-- The levels that may provide a layer, from the weakest to the strongest. -/
inductive LayerLevel where
  | organization
  | group
  | project
deriving DecidableEq

/-- The levels by increasing precedence, the catalog first. -/
inductive Level where
  | catalog
  | layer (level : LayerLevel)
deriving DecidableEq

/-- A rule that a layer adds: `paths` is its scope, `replaces` the rule it supplants. -/
structure LayerRule extends Rule where
  paths : Option (List Text)
  excludePaths : Option (List Text)
  replaces : Option Text
deriving DecidableEq

/-- A traced override of a known rule. -/
structure Override where
  ruleId : Text
  author : Text
  justification : Text
  expires : Option Text
  severity : Option Severity
  enforcement : Option Enforcement
  disabled : Option Bool
  agents : Option (List AgentRole)
  excludePaths : Option (List Text)
  isProtected : Option Bool
deriving DecidableEq

/-- A waiver of a rule for one file. -/
structure Waiver where
  ruleId : Text
  file : Text
  author : Text
  justification : Text
  expires : Text
deriving DecidableEq

/-- A layer that has been read. -/
structure RuleLayer where
  level : LayerLevel
  author : Option Text
  profiles : Option (List Text)
  add : Option (List LayerRule)
  override : Option (List Override)
  waivers : Option (List Waiver)
  lock : Option (List Text)
deriving DecidableEq

/-! ## What resolution produces -/

/-- What a layer has done to a rule. -/
inductive TraceKind where
  | catalog
  | added
  | hardened
  | overridden
  | locked
deriving DecidableEq

/-- What a layer has done to a rule, and why. -/
structure Trace where
  kind : TraceKind
  level : Level
  author : Option Text
  justification : Option Text
  expires : Option Text
deriving DecidableEq

/-- A rule as the layers leave it, with where it comes from. -/
structure EffectiveRule extends Rule where
  origin : Level
  locked : Bool
  paths : List Text
  excludePaths : List Text
  trace : List Trace
deriving DecidableEq

/-- Why an attempt of a layer is refused. -/
inductive ConflictReason where
  | locked
  | unknownRule
  | unknownProfile
  | expired
deriving DecidableEq

/-- What a layer attempted when it met a conflict. -/
inductive Attempt where
  | disable
  | severity
  | enforcement
  | agents
  | excludePaths
  | unlock
  | waiver
  | reAdd
  | replace
  | override
  | lock
  | profile
deriving DecidableEq

def Attempt.name : Attempt → Text
  | disable => Text.lit "disable"
  | severity => Text.lit "severity"
  | enforcement => Text.lit "enforcement"
  | agents => Text.lit "agents"
  | excludePaths => Text.lit "exclude-paths"
  | unlock => Text.lit "unlock"
  | waiver => Text.lit "waiver"
  | reAdd => Text.lit "re-add"
  | replace => Text.lit "replace"
  | override => Text.lit "override"
  | lock => Text.lit "lock"
  | profile => Text.lit "profile"

/-- An attempt of a layer that is refused. -/
structure Conflict where
  ruleId : Text
  level : LayerLevel
  attempted : Attempt
  reason : ConflictReason
deriving DecidableEq

/-- A rule that a layer disables. -/
structure DisabledRule where
  ruleId : Text
  level : LayerLevel
  author : Text
  justification : Text
  expires : Option Text
deriving DecidableEq

/-- A waiver, with the level of its layer. -/
structure AppliedWaiver extends Waiver where
  level : LayerLevel
deriving DecidableEq

/-- The profiles of a package. -/
structure PackageProfiles where
  path : Text
  profiles : List Text
deriving DecidableEq

/-! ## Errors -/

/-- The codes of the errors of the rules. -/
inductive RulesErrorCode where
  | layerInvalidShape
  | layerInvalidLevel
  | layerDuplicateLevel
  | layerCollision
  | layerInvalidPattern
  | waiverMissingExpires
  | waiverInvalidExpires
  | resolveInvalidRole
  | resolveInvalidPath
  | resolveInvalidNow
  | resolveUnknownProfile
deriving DecidableEq

/-- An error of the composition; `path` locates it in the document. -/
structure RulesError where
  code : RulesErrorCode
  message : Text
  path : Option Text
deriving DecidableEq

/-- An error; an empty path is left out. -/
def rulesError (code : RulesErrorCode) (message : Text) (path : Option Text) : RulesError :=
  ⟨code, message, path.filter (· ≠ [])⟩

end Koklo.Rules
