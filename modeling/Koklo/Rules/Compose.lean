import Koklo.Foundations.StableSort
import Koklo.Rules.LayerParsing
import Koklo.Rules.Strength

/-!
# Composing layers

The layers are composed on the entries of the catalog, from the weakest level to
the strongest: additions, overrides, waivers, then the locks of the layer, which
bind the layers after it. A refused operation is a conflict; only the collision of
two ids stops the composition. Composing two lists of layers is composing the
second after the first (`composeLayers_append`).
-/

set_option autoImplicit false

namespace Koklo.Rules

open Koklo.Foundations

/-! ## The state of a composition -/

/-- A rule being composed. Disabled or waived, it stays known to the next layers. -/
structure Entry where
  rule : EffectiveRule
  disabled : Option DisabledRule
  waivers : List AppliedWaiver
deriving DecidableEq

/-- What the layers are composed into. -/
structure Context where
  entries : OrderedMap Text Entry
  conflicts : List Conflict
  knownProfiles : List Text
  path : Text
  today : Text
deriving DecidableEq

namespace Context

/-- The date is past. -/
def isExpired (ctx : Context) (expires : Option Text) : Bool := expires.any (· < ctx.today)

/-- One more conflict. -/
def addConflict (ctx : Context) (level : LayerLevel) (ruleId : Text) (attempted : Attempt)
    (reason : ConflictReason) : Context :=
  { ctx with conflicts := ctx.conflicts ++ [⟨ruleId, level, attempted, reason⟩] }

/-- `ctx.entries.set`. -/
def setEntry (ctx : Context) (id : Text) (entry : Entry) : Context :=
  { ctx with entries := ctx.entries.set id entry }

/-- `ctx.entries.delete`. -/
def deleteEntry (ctx : Context) (id : Text) : Context :=
  { ctx with entries := ctx.entries.erase id }

/-- The rule of an entry is changed. -/
def updateRule (ctx : Context) (id : Text) (patch : EffectiveRule → EffectiveRule) : Context :=
  match ctx.entries.get id with
  | none => ctx
  | some entry => ctx.setEntry id { entry with rule := patch entry.rule }

end Context

/-- A rule of the catalog, locked from the start when it is protected. -/
def catalogEntry (catalog : Catalog) (rule : Rule) : Entry where
  rule := { rule with
    origin := .catalog
    locked := rule.isProtected || catalog.protectedRuleIds.contains rule.id
    paths := []
    excludePaths := []
    trace := [⟨.catalog, .catalog, none, none, none⟩] }
  disabled := none
  waivers := []

/-- A rule added by a layer; its lock comes at the end of the layer. -/
def addedEntry (rule : LayerRule) (level : LayerLevel) (author : Option Text) : Entry where
  rule := { rule.toRule with
    origin := .layer level
    locked := false
    paths := rule.paths.getD []
    excludePaths := rule.excludePaths.getD []
    trace := [⟨.added, .layer level, author, none, none⟩] }
  disabled := none
  waivers := []

/-! ## Additions -/

/-- What `checkReplaced` decides, with the conflict of a refusal. -/
inductive Verdict where
  | go
  | skip (attempted : Context)

/-- The target of `replaces` exists and is not locked. -/
def checkReplaced (ctx : Context) (level : LayerLevel) (rule : LayerRule) : Verdict :=
  match rule.replaces with
  | none => .go
  | some target =>
    if target = rule.id then .go
    else
      match ctx.entries.get target with
      | none => .skip (ctx.addConflict level target .replace .unknownRule)
      | some entry =>
        if entry.rule.locked then .skip (ctx.addConflict level target .replace .locked) else .go

/-- The replaced rule leaves, and the added one enters. -/
def insertAdded (ctx : Context) (layer : RuleLayer) (rule : LayerRule) : Context :=
  (rule.replaces.elim ctx ctx.deleteEntry).setEntry rule.id
    (addedEntry rule layer.level layer.author)

/-- A layer adds a rule. -/
def addOne (layer : RuleLayer) (ctx : Context) (rule : LayerRule) : Except RulesError Context :=
  if ¬ rule.profiles.all (ctx.knownProfiles.contains ·) then
    .ok (ctx.addConflict layer.level rule.id .override .unknownProfile)
  else
    match checkReplaced ctx layer.level rule with
    | .skip refused => .ok refused
    | .go =>
      match ctx.entries.get rule.id with
      | none => .ok (insertAdded ctx layer rule)
      | some existing =>
        if existing.rule.locked then .ok (ctx.addConflict layer.level rule.id .reAdd .locked)
        else if rule.replaces ≠ some rule.id then
          .error (rulesError .layerCollision
            (Text.lit "rule " ++ rule.id ++ Text.lit " already exists") (Text.lit "add." ++ rule.id))
        else .ok (insertAdded ctx layer rule)

/-- A layer adds its rules. -/
def applyAdds (ctx : Context) (layer : RuleLayer) : Except RulesError Context :=
  (layer.add.getD []).foldlM (addOne layer) ctx

/-! ## Overrides -/

/-- `WEAKENING`: the effects of an override that weaken a rule, by priority. -/
def weakening : List (Attempt × (EffectiveRule → Override → Bool)) := [
  (.disable, fun _ o => o.disabled = some true),
  (.severity, fun rule o => o.severity.any fun severity =>
    isWeaker (rule.severity, rule.enforcement) (severity, rule.enforcement)),
  (.enforcement, fun rule o => o.enforcement.any fun enforcement =>
    isWeaker (rule.severity, rule.enforcement) (rule.severity, enforcement) ||
      (rule.locked && !isLockedSafe rule.enforcement enforcement)),
  (.agents, fun rule o => rule.agents.any fun agent =>
    o.agents.any fun agents => !agents.contains agent),
  (.excludePaths, fun _ o => 0 < (o.excludePaths.getD []).length),
  (.unlock, fun _ o => o.isProtected = some false)]

/-- `ATTEMPTS`. -/
def attempts : List (Attempt × (Override → Bool)) := [
  (.disable, fun o => o.disabled.isSome),
  (.severity, fun o => o.severity.isSome),
  (.enforcement, fun o => o.enforcement.isSome),
  (.agents, fun o => o.agents.isSome),
  (.excludePaths, fun o => o.excludePaths.isSome),
  (.unlock, fun o => o.isProtected.isSome)]

/-- The first effect that weakens the rule. -/
def weakeningOf (rule : EffectiveRule) (override : Override) : Option Attempt :=
  (weakening.find? fun effect => effect.2 rule override).map Prod.fst

/-- The effect attempted, for the conflicts of expired overrides. -/
def attemptOf (override : Override) : Attempt :=
  ((attempts.find? fun attempt => attempt.2 override).map Prod.fst).getD .override

/-- The items and those that are added, each once. -/
def union (current : List Text) (added : Option (List Text)) : List Text :=
  uniqueItems (current ++ added.getD [])

/-- The trace of an override. -/
def traceOf (level : LayerLevel) (override : Override) (kind : TraceKind) : Trace :=
  ⟨kind, .layer level, override.author, override.justification, override.expires⟩

/-- What JSON keeps of a parameter: a number loses the sign of zero. -/
def ParamValue.json : ParamValue → Option ℚ ⊕ Text ⊕ Bool
  | number value => .inl value.value?
  | text value => .inr (.inl value)
  | bool value => .inr (.inr value)

/-- Whether two enforcements have the same JSON. -/
def Enforcement.sameJson (a b : Enforcement) : Bool :=
  a.kind = b.kind && a.adapter? = b.adapter? && a.command? = b.command? && a.evidence? = b.evidence? &&
    a.params.map (fun params => params.entries.map fun entry => (entry.1, entry.2.json)) =
      b.params.map (fun params => params.entries.map fun entry => (entry.1, entry.2.json))

/-- The rule with the fields of an override. -/
def overridden (rule : EffectiveRule) (override : Override) : EffectiveRule :=
  { rule with
    severity := override.severity.getD rule.severity
    enforcement := override.enforcement.getD rule.enforcement
    agents := override.agents.getD rule.agents
    excludePaths := union rule.excludePaths override.excludePaths }

/-- Whether a field of the rule differs once overridden. -/
def changes (rule next : EffectiveRule) : Bool :=
  next.severity ≠ rule.severity || !next.enforcement.sameJson rule.enforcement ||
    next.agents ≠ rule.agents || next.excludePaths ≠ rule.excludePaths

/-- An override changes a rule, and leaves its trace. -/
def applyChange (ctx : Context) (level : LayerLevel) (entry : Entry) (override : Override) : Context :=
  let rule := entry.rule
  let next := overridden rule override
  if changes rule next then
    let kind := if (weakeningOf rule override).isNone then .hardened else .overridden
    ctx.updateRule rule.id fun known => { known with
      severity := next.severity
      enforcement := next.enforcement
      agents := next.agents
      excludePaths := next.excludePaths
      trace := rule.trace ++ [traceOf level override kind] }
  else ctx

/-- An override disables a rule. -/
def disable (ctx : Context) (level : LayerLevel) (entry : Entry) (override : Override) : Context :=
  ctx.setEntry override.ruleId { entry with
    disabled := entry.disabled.or (some ⟨override.ruleId, level, override.author,
      override.justification, override.expires.filter (· ≠ [])⟩) }

/-- An override is applied, or is a conflict. -/
def applyOverride (level : LayerLevel) (ctx : Context) (override : Override) : Context :=
  match ctx.entries.get override.ruleId with
  | none => ctx.addConflict level override.ruleId .override .unknownRule
  | some entry =>
    if ctx.isExpired override.expires then
      ctx.addConflict level override.ruleId (attemptOf override) .expired
    else
      match entry.rule.locked, weakeningOf entry.rule override with
      | true, some attempted => ctx.addConflict level override.ruleId attempted .locked
      | _, _ =>
        if override.disabled = some true then disable ctx level entry override
        else applyChange ctx level entry override

/-- A layer applies its overrides. -/
def applyOverrides (ctx : Context) (layer : RuleLayer) : Context :=
  (layer.override.getD []).foldl (applyOverride layer.level) ctx

/-! ## Waivers and locks -/

/-- A waiver is applied, or is a conflict. -/
def applyWaiver (level : LayerLevel) (ctx : Context) (waiver : Waiver) : Context :=
  match ctx.entries.get waiver.ruleId with
  | none => ctx.addConflict level waiver.ruleId .waiver .unknownRule
  | some entry =>
    if ctx.isExpired waiver.expires then ctx.addConflict level waiver.ruleId .waiver .expired
    else if entry.rule.locked then ctx.addConflict level waiver.ruleId .waiver .locked
    else if matchesPath waiver.file ctx.path then
      ctx.setEntry waiver.ruleId
        { entry with waivers := entry.waivers ++ [{ waiver with level := level }] }
    else ctx

/-- A layer applies its waivers. -/
def applyWaivers (ctx : Context) (layer : RuleLayer) : Context :=
  (layer.waivers.getD []).foldl (applyWaiver layer.level) ctx

/-- The lock of a protected rule that this level added. -/
def lockAdded (level : LayerLevel) (ctx : Context) (rule : LayerRule) : Context :=
  if rule.isProtected ∧ (ctx.entries.get rule.id).map (·.rule.origin) = some (.layer level) then
    ctx.updateRule rule.id fun rule => { rule with locked := true }
  else ctx

/-- A lock that the layer asks for. -/
def lockListed (layer : RuleLayer) (ctx : Context) (id : Text) : Context :=
  match ctx.entries.get id with
  | none => ctx.addConflict layer.level id .lock .unknownRule
  | some entry =>
    if entry.rule.locked then ctx
    else ctx.updateRule id fun rule => { rule with
      locked := true
      trace := entry.rule.trace ++ [⟨.locked, .layer layer.level, layer.author, none, none⟩] }

/-- A layer locks its rules. -/
def applyLocks (ctx : Context) (layer : RuleLayer) : Context :=
  (layer.lock.getD []).foldl (lockListed layer)
    ((layer.add.getD []).foldl (lockAdded layer.level) ctx)

/-! ## Layers -/

/-- One layer: additions, overrides, waivers, then its locks. -/
def composeLayer (ctx : Context) (layer : RuleLayer) : Except RulesError Context :=
  (applyAdds ctx layer).map fun added =>
    applyLocks (applyWaivers (applyOverrides added layer) layer) layer

/-- The layers are composed one after the other. -/
def composeLayers (ctx : Context) (layers : List RuleLayer) : Except RulesError Context :=
  layers.foldlM composeLayer ctx

/-- **Composing in two parts.** -/
theorem composeLayers_append {ctx final : Context} {upper lower : List RuleLayer} :
    composeLayers ctx (upper ++ lower) = .ok final ↔
      ∃ middle, composeLayers ctx upper = .ok middle ∧ composeLayers middle lower = .ok final := by
  rw [composeLayers, List.foldlM_append, bind_eq_ok]
  rfl

end Koklo.Rules
