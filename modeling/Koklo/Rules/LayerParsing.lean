import Koklo.Foundations.Fallible
import Koklo.Foundations.Validation
import Koklo.Rules.RuleTypes
import Koklo.Rules.ScopeMatch

/-!
# Reading layers

A layer is read in three passes, and the first error is returned: its level, its
shape (the schema), then what the schema cannot say, the dates and the patterns.
The messages of the schema library are a parameter. A layer that is read has
passed the three (`parseLayer_eq_ok`).
-/

set_option autoImplicit false

namespace Koklo.Rules

open Koklo.Foundations
open Koklo.Foundations.Validation

/-! ## Dates -/

def digitPattern : Pattern CodeUnit := .unit Text.isDigit

/-- `DAY`. -/
def dayPattern : Pattern CodeUnit :=
  .seq (.times 4 digitPattern) (.seq (.text (Text.lit "-")) (.seq (.times 2 digitPattern)
    (.seq (.text (Text.lit "-")) (.times 2 digitPattern))))

/-- Hours and minutes. -/
def clockPattern : Pattern CodeUnit :=
  .seq (.times 2 digitPattern) (.seq (.text (Text.lit ":")) (.times 2 digitPattern))

/-- `TIME`. -/
def timePattern : Pattern CodeUnit :=
  .seq (.text (Text.lit "T")) (.seq clockPattern (.seq
    (.optional (.seq (.text (Text.lit ":")) (.seq (.times 2 digitPattern)
      (.optional (.seq (.text (Text.lit ".")) (.plus digitPattern))))))
    (.optional (.alt (.text (Text.lit "Z")) (.seq (.unit fun u => u == 0x2B || u == 0x2D) clockPattern)))))

def isLeapYear (year : ℕ) : Bool := year % 4 = 0 && (year % 100 ≠ 0 || year % 400 = 0)

/-- The days of a month. -/
def daysIn (year month : ℕ) : ℕ :=
  if month = 2 then (if isLeapYear year then 29 else 28)
  else if month ∈ [4, 6, 9, 11] then 30 else 31

/-- `YYYY-MM-DD` of a day of the Gregorian calendar. -/
def isIsoDay (value : Text) : Bool :=
  dayPattern.accepts value &&
    let year := Text.decimal (value.take 4)
    let month := Text.decimal ((value.drop 5).take 2)
    let day := Text.decimal ((value.drop 8).take 2)
    1 ≤ month && month ≤ 12 && 1 ≤ day && day ≤ daysIn year month

/-- The day of an ISO date or date and time. -/
def dayOfIso (value : Text) : Option Text :=
  if isIsoDay (value.take 10) && (value.drop 10 == [] || timePattern.accepts (value.drop 10)) then
    some (value.take 10)
  else none

/-! ## The shape of a layer -/

/-- A waiver before its date is known to be there. -/
structure RawWaiver where
  ruleId : Text
  file : Text
  author : Text
  justification : Text
  expires : Option Text
deriving DecidableEq

/-- A layer before it is read. -/
structure RawLayer where
  level : Option Text
  author : Option Text
  profiles : Option (List Text)
  add : Option (List LayerRule)
  override : Option (List Override)
  waivers : Option (List RawWaiver)
  lock : Option (List Text)
deriving DecidableEq

/-- How `RULE_ID_PATTERN` is written. -/
def ruleIdSource : String := "^[a-z0-9]+(\\.[a-z0-9-]+)+$"

/-- `RULE_ID_PATTERN`. -/
def ruleIdPattern : Pattern CodeUnit :=
  .seq (.plus (.unit fun u => Text.isLower u || Text.isDigit u))
    (.plus (.seq (.text (Text.lit "."))
      (.plus (.unit fun u => Text.isLower u || Text.isDigit u || u == 0x2D))))

/-- A protected rule is blocking. -/
def isProtectedBlocking (rule : Rule) : Bool := !rule.isProtected || rule.severity = .blocking

section Schema

variable (message : Defect → Text)

/-- `paramsSchema`. -/
def paramsIssues (params : EnforcementParams) : List SchemaIssue :=
  params.entries.flatMap fun (key, value) => inField key
    (refuseUnless (key ≠ []) (message .emptyKey) ++
      match value with
      | .number n => refuseUnless n.value?.isSome (message .notFinite)
      | .text _ | .bool _ => [])

/-- `enforcementSchema`. -/
def enforcementIssues (enforcement : Enforcement) : List SchemaIssue :=
  (match enforcement with
    | .gate adapter command _ => inField (Text.lit "adapter") (nonEmptyText message adapter) ++
      inField (Text.lit "command") (ifPresent (nonEmptyText message) command)
    | .evidence asked _ => inField (Text.lit "evidence") (nonEmptyText message asked)
    | .instruction _ => []) ++
  inField (Text.lit "params") (ifPresent (paramsIssues message) enforcement.params)

/-- `ruleShape`. -/
def ruleIssues (rule : Rule) : List SchemaIssue :=
  inField (Text.lit "id") (formatted message ruleIdSource ruleIdPattern rule.id) ++
  inField (Text.lit "title") (nonEmptyText message rule.title) ++
  inField (Text.lit "description") (nonEmptyText message rule.description) ++
  inField (Text.lit "profiles")
    (items (nonEmptyText message) rule.profiles ++ nonEmptyList message rule.profiles) ++
  inField (Text.lit "agents") (nonEmptyList message rule.agents ++
    refuseUnless (rule.agents.dedup.length = rule.agents.length) (Text.lit "agents must be unique")) ++
  inField (Text.lit "enforcement") (enforcementIssues message rule.enforcement)

/-- An optional list of patterns, before they are checked. -/
def patternsIssues (patterns : Option (List Text)) : List SchemaIssue :=
  ifPresent (items (nonEmptyText message)) patterns

/-- `layerRuleSchema`. -/
def layerRuleIssues (rule : LayerRule) : List SchemaIssue :=
  ruleIssues message rule.toRule ++
  inField (Text.lit "paths") (patternsIssues message rule.paths) ++
  inField (Text.lit "excludePaths") (patternsIssues message rule.excludePaths) ++
  inField (Text.lit "replaces") (ifPresent (nonEmptyText message) rule.replaces) ++
  inField (Text.lit "severity")
    (refuseUnless (isProtectedBlocking rule.toRule) (Text.lit "a protected rule must be blocking"))

/-- Whether an override has an effect: `OVERRIDE_EFFECTS`. -/
def Override.hasEffect (override : Override) : Bool :=
  override.severity.isSome || override.enforcement.isSome || override.disabled.isSome ||
    override.agents.isSome || override.excludePaths.isSome || override.isProtected.isSome

/-- `overrideSchema`. -/
def overrideIssues (override : Override) : List SchemaIssue :=
  inField (Text.lit "ruleId") (nonEmptyText message override.ruleId) ++
  inField (Text.lit "author") (nonEmptyText message override.author) ++
  inField (Text.lit "justification") (nonEmptyText message override.justification) ++
  inField (Text.lit "enforcement") (ifPresent (enforcementIssues message) override.enforcement) ++
  inField (Text.lit "agents") (ifPresent (nonEmptyList message) override.agents) ++
  inField (Text.lit "excludePaths") (patternsIssues message override.excludePaths) ++
  refuseUnless override.hasEffect (Text.lit "an override must change at least one field")

/-- `waiverSchema`. -/
def waiverIssues (waiver : RawWaiver) : List SchemaIssue :=
  inField (Text.lit "ruleId") (nonEmptyText message waiver.ruleId) ++
  inField (Text.lit "file") (nonEmptyText message waiver.file) ++
  inField (Text.lit "author") (nonEmptyText message waiver.author) ++
  inField (Text.lit "justification") (nonEmptyText message waiver.justification)

/-- `layerSchema`, of which the level is checked before. -/
def layerIssues (layer : RawLayer) : List SchemaIssue :=
  inField (Text.lit "author") (ifPresent (nonEmptyText message) layer.author) ++
  inField (Text.lit "profiles") (ifPresent (items (nonEmptyText message)) layer.profiles) ++
  inField (Text.lit "add") (ifPresent (items (layerRuleIssues message)) layer.add) ++
  inField (Text.lit "override") (ifPresent (items (overrideIssues message)) layer.override) ++
  inField (Text.lit "waivers") (ifPresent (items (waiverIssues message)) layer.waivers) ++
  inField (Text.lit "lock") (ifPresent (items (nonEmptyText message)) layer.lock)

end Schema

/-! ## Dates and patterns of a layer -/

/-- `base.index`. -/
def indexed (base : Text) (index : ℕ) : Text := base ++ Text.lit "." ++ Text.ofNat index

/-- A text between double quotes. -/
def quoted (value : Text) : Text := Text.lit "\"" ++ value ++ Text.lit "\""

/-- The first pattern that is not valid. -/
def checkPatterns (list : Option (List Text)) (base : Text) : Option RulesError :=
  (list.getD []).zipIdx.findSome? fun (pattern, index) =>
    if isValidPattern pattern then none
    else some (rulesError .layerInvalidPattern (Text.lit "invalid path pattern " ++ quoted pattern)
      (indexed base index))

/-- The defect of a date of expiry. -/
def checkExpires (expires : Option Text) (path : Text) (required : Bool) : Option RulesError :=
  match expires with
  | none =>
    if required then some (rulesError .waiverMissingExpires (Text.lit "expires is required") path)
    else none
  | some day =>
    if isIsoDay day then none
    else some (rulesError .waiverInvalidExpires
      (Text.lit "expires must be a YYYY-MM-DD date: " ++ quoted day) path)

/-- The defect of a waiver. -/
def checkWaiver (waiver : RawWaiver) (base : Text) : Option RulesError :=
  (checkExpires waiver.expires (base ++ Text.lit ".expires") true).or
    (if isValidPattern waiver.file then none
      else some (rulesError .layerInvalidPattern (Text.lit "invalid file " ++ quoted waiver.file)
        (base ++ Text.lit ".file")))

/-- The first defect of the waivers. -/
def checkWaivers (waivers : List RawWaiver) (pathPrefix : Text) : Option RulesError :=
  waivers.zipIdx.findSome? fun (waiver, index) =>
    checkWaiver waiver (pathPrefix ++ Text.ofNat index)

/-- The first defect of the rules that are added. -/
def checkAdds (layer : RawLayer) : Option RulesError :=
  (layer.add.getD []).zipIdx.findSome? fun (rule, index) =>
    let base := indexed (Text.lit "add") index
    (checkPatterns rule.paths (base ++ Text.lit ".paths")).or
      (checkPatterns rule.excludePaths (base ++ Text.lit ".excludePaths"))

/-- The first defect of the overrides. -/
def checkOverrides (layer : RawLayer) : Option RulesError :=
  (layer.override.getD []).zipIdx.findSome? fun (override, index) =>
    let base := indexed (Text.lit "override") index
    (checkExpires override.expires (base ++ Text.lit ".expires") false).or
      (checkPatterns override.excludePaths (base ++ Text.lit ".excludePaths"))

/-- The first defect of a layer, beyond its shape. -/
def checkLayer (layer : RawLayer) : Option RulesError :=
  ((checkAdds layer).or (checkOverrides layer)).or
    (checkWaivers (layer.waivers.getD []) (Text.lit "waivers."))

/-! ## Reading a layer -/

/-- `LAYER_LEVELS`, each with its name. -/
def LayerLevel.names : List (LayerLevel × Text) := [
  (.organization, Text.lit "organization"),
  (.group, Text.lit "group"),
  (.project, Text.lit "project")]

/-- The level as it is written. -/
def LayerLevel.name : LayerLevel → Text
  | organization => Text.lit "organization"
  | group => Text.lit "group"
  | project => Text.lit "project"

/-- The level that a layer names. -/
def checkLevel (layer : RawLayer) : Except RulesError LayerLevel :=
  match layer.level with
  | none =>
    .error (rulesError .layerInvalidShape (Text.lit "level is required") (Text.lit "level"))
  | some name =>
    match LayerLevel.names.find? (·.2 = name) with
    | some (level, _) => .ok level
    | none => .error (rulesError .layerInvalidLevel (Text.lit "a layer has no right at this level")
        (Text.lit "level"))

/-- The error of a defect of the shape. -/
def shapeError (issue : SchemaIssue) : RulesError :=
  rulesError .layerInvalidShape issue.message ((Text.lit ".").intercalate issue.path)

/-- A waiver whose date was checked. -/
def RawWaiver.checked (waiver : RawWaiver) : Waiver :=
  ⟨waiver.ruleId, waiver.file, waiver.author, waiver.justification, waiver.expires.getD []⟩

/-- A layer that passes all the checks. -/
def parseLayer (message : Defect → Text) (layer : RawLayer) : Except RulesError RuleLayer :=
  match checkLevel layer with
  | .error e => .error e
  | .ok level =>
    match layerIssues message layer with
    | issue :: _ => .error (shapeError issue)
    | [] =>
      match checkLayer layer with
      | some e => .error e
      | none => .ok ⟨level, layer.author, layer.profiles, layer.add, layer.override,
          layer.waivers.map fun waivers => waivers.map RawWaiver.checked, layer.lock⟩

end Koklo.Rules
