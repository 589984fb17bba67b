import Koklo.Rules.Compose
import Mathlib.Data.List.Lex

/-!
# Resolving the effective rules

The resolution of the rules for a role and a path: the input is checked, the layers
are read and put in order, the profiles are chosen, the layers are composed on the
catalog, and the entries that aim at the profiles, the role and the path are sorted
into the result. A resolution that succeeds has ordered its layers and composed them
(`resolveEffectiveRules_eq_ok`).
-/

set_option autoImplicit false

namespace Koklo.Rules

open Koklo.Foundations

/-- What the rules are resolved from. -/
structure ResolveInput where
  catalog : Catalog
  layers : List RawLayer
  role : Text
  path : Text
  now : Text
  profiles : Option (List Text)
  packages : Option (List PackageProfiles)

/-- The rules that hold for a role at a path, and the conflicts of the layers. -/
structure Resolution where
  catalogVersion : Text
  role : AgentRole
  path : Text
  profiles : List Text
  rules : List EffectiveRule
  conflicts : List Conflict
  disabled : List DisabledRule
  waivers : List AppliedWaiver
deriving DecidableEq

/-- The items in their order, each once. -/
def sortedUnique (items : List Text) : List Text := sortWith compareText (uniqueItems items)

/-! ## Profiles -/

/-- `CORE_PROFILE`. -/
def coreProfile : Text := Text.lit "core"

/-- The profiles that the layers select. -/
structure ProfileSelection where
  profiles : List Text
  conflicts : List Conflict

/-- The path is in the directory of a package. -/
def isUnder (packagePath path : Text) : Bool :=
  packagePath = dot || path = packagePath || (packagePath ++ [slash]).isPrefixOf path

/-- The selection of the package whose path is the longest prefix, or that of the root. -/
def selectionFor (input : ResolveInput) (path : Text) : List Text :=
  let under := (input.packages.getD []).filter fun package => isUnder package.path path
  let best := (sortWith (fun a b => (b.path.length : ℤ) - a.path.length) under).head?
  ((best.map PackageProfiles.profiles).or input.profiles).getD []

/-- The first profile that the catalog does not have. -/
def unknownProfile (catalog : Catalog) (profiles : List Text) (where_ : Text) : Option RulesError :=
  profiles.zipIdx.findSome? fun (profile, index) =>
    if catalog.profiles.contains profile then none
    else some (rulesError .resolveUnknownProfile (Text.lit "unknown profile " ++ quoted profile)
      (indexed where_ index))

/-- The first selection that is not known. -/
def checkSelections (input : ResolveInput) : Option RulesError :=
  (unknownProfile input.catalog (input.profiles.getD []) (Text.lit "profiles")).or
    ((input.packages.getD []).zipIdx.findSome? fun (package, index) =>
      unknownProfile input.catalog package.profiles
        (indexed (Text.lit "packages") index ++ Text.lit ".profiles"))

/-- The unknown profiles that a layer declares. -/
def declaredBy (catalog : Catalog) (layer : RuleLayer) : List Conflict :=
  ((layer.profiles.getD []).filter fun profile => !catalog.profiles.contains profile).map fun profile =>
    ⟨profile, layer.level, .profile, .unknownProfile⟩

/-- The profiles that are selected for a path. -/
def effectiveProfiles (input : ResolveInput) (layers : List RuleLayer) (path : Text) :
    ProfileSelection where
  profiles := sortedUnique (coreProfile :: selectionFor input path ++
    layers.flatMap fun layer => (layer.profiles.getD []).filter (input.catalog.profiles.contains ·))
  conflicts := layers.flatMap (declaredBy input.catalog)

/-! ## The result -/

/-- The place of a level in `LAYER_LEVELS`. -/
def LayerLevel.rank : LayerLevel → ℕ
  | organization => 0
  | group => 1
  | project => 2

/-- What a rule is selected for. -/
structure Scope where
  profiles : List Text
  role : AgentRole
  path : Text

/-- Whether an entry aims at the profiles, the role and the path. -/
def applies (scope : Scope) (entry : Entry) : Bool :=
  entry.rule.profiles.any (scope.profiles.contains ·) && entry.rule.agents.contains scope.role &&
    (entry.rule.paths.isEmpty || matchesAny entry.rule.paths scope.path) &&
      !matchesAny entry.rule.excludePaths scope.path

/-- Conflicts are ordered by level, rule and attempt. -/
def byConflict (a b : Conflict) : ℤ :=
  if a.level.rank ≠ b.level.rank then (a.level.rank : ℤ) - b.level.rank
  else if compareText a.ruleId b.ruleId ≠ 0 then compareText a.ruleId b.ruleId
  else compareText a.attempted.name b.attempted.name

/-- Whether a rule is effective: neither disabled nor waived. -/
def Entry.isActive (entry : Entry) : Bool := entry.disabled.isNone && entry.waivers.isEmpty

/-- The values of `ctx.entries` that the scope concerns. -/
def relevant (ctx : Context) (scope : Scope) : List Entry :=
  (ctx.entries.map Prod.snd).filter (applies scope)

/-- The resolution of a context: its rules, in their order, and its conflicts. -/
def buildResolution (catalog : Catalog) (role : AgentRole) (ctx : Context)
    (selection : ProfileSelection) (path : Text) : Resolution :=
  let entries := relevant ctx ⟨selection.profiles, role, path⟩
  { catalogVersion := catalog.catalogVersion
    role := role
    path := path
    profiles := selection.profiles
    rules := sortWith (fun a b => compareText a.id b.id)
      ((entries.filter Entry.isActive).map Entry.rule)
    conflicts := sortWith byConflict (selection.conflicts ++ ctx.conflicts)
    disabled := sortWith (fun a b => compareText a.ruleId b.ruleId)
      (entries.flatMap fun entry => entry.disabled.toList)
    waivers := sortWith (fun a b => compareText a.ruleId b.ruleId)
      (entries.flatMap Entry.waivers) }

/-! ## Resolution -/

/-- Reads the layers one after the other, and refuses a level given twice. -/
def readLayers (message : Defect → Text) (index : ℕ) (parsed : List RuleLayer) :
    List RawLayer → Except RulesError (List RuleLayer)
  | [] => .ok parsed
  | raw :: layers =>
    match parseLayer message raw with
    | .error e => .error { e with
        path := some (e.path.elim (Text.ofNat index) fun path =>
          Text.ofNat index ++ Text.lit "." ++ path) }
    | .ok layer =>
      if parsed.any (·.level = layer.level) then
        .error (rulesError .layerDuplicateLevel
          (Text.lit "two layers at level " ++ layer.level.name) (Text.ofNat index ++ Text.lit ".level"))
      else readLayers message (index + 1) (parsed ++ [layer]) layers

def byLevel (a b : RuleLayer) : ℤ := (a.level.rank : ℤ) - b.level.rank

/-- The layers from the lowest level to the highest, one of each. -/
def orderLayers (message : Defect → Text) (layers : List RawLayer) :
    Except RulesError (List RuleLayer) :=
  (readLayers message 0 [] layers).map (sortWith byLevel)

/-- The role, the path and the day of an input that was checked. -/
structure CheckedInput where
  role : AgentRole
  path : Text
  today : Text

/-- The checks of an input. -/
def checkInput (input : ResolveInput) : Except RulesError CheckedInput :=
  match AgentRole.names.find? (·.2 = input.role) with
  | none => .error (rulesError .resolveInvalidRole (Text.lit "unknown role " ++ quoted input.role)
      (Text.lit "role"))
  | some (role, _) =>
    match normalizePath input.path with
    | none => .error (rulesError .resolveInvalidPath (Text.lit "invalid path " ++ quoted input.path)
        (Text.lit "path"))
    | some path =>
      match dayOfIso input.now with
      | none => .error (rulesError .resolveInvalidNow
          (Text.lit "now must be an ISO date: " ++ quoted input.now) (Text.lit "now"))
      | some today =>
        match checkSelections input with
        | some e => .error e
        | none => .ok ⟨role, path, today⟩

/-- The rules of the catalog, before the layers. -/
def initialContext (catalog : Catalog) (path today : Text) : Context where
  entries := .ofEntries (catalog.rules.map fun rule => (rule.id, catalogEntry catalog rule))
  conflicts := []
  knownProfiles := catalog.profiles
  path := path
  today := today

/-- The rules that hold for an input. -/
def resolveEffectiveRules (message : Defect → Text) (input : ResolveInput) :
    Except RulesError Resolution :=
  match checkInput input with
  | .error e => .error e
  | .ok checked =>
    match orderLayers message input.layers with
    | .error e => .error e
    | .ok layers =>
      (composeLayers (initialContext input.catalog checked.path checked.today) layers).map fun ctx =>
        buildResolution input.catalog checked.role ctx
          (effectiveProfiles input layers checked.path) checked.path

/-- **The parts of a resolution that succeeds.** -/
theorem resolveEffectiveRules_eq_ok {message : Defect → Text} {input : ResolveInput}
    {resolution : Resolution} :
    resolveEffectiveRules message input = .ok resolution ↔
      ∃ checked layers ctx, checkInput input = .ok checked ∧
        orderLayers message input.layers = .ok layers ∧
          composeLayers (initialContext input.catalog checked.path checked.today) layers = .ok ctx ∧
            buildResolution input.catalog checked.role ctx
              (effectiveProfiles input layers checked.path) checked.path = resolution := by
  unfold resolveEffectiveRules
  cases checkInput input with
  | error e => simp
  | ok checked =>
    cases orderLayers message input.layers with
    | error e => simp
    | ok layers => simp [map_eq_ok]

end Koklo.Rules
