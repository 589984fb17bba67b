import Koklo.Schema.SpecFiles

/-!
# Rule 4: links point to something

Links are resolved in an index of the specification. A link to nothing is reported where it stands;
what it points to is kept beside the report, which only names it in its message.
-/

set_option autoImplicit false

namespace Koklo.Schema

open Koklo.Foundations

/-! ## The index -/

/-- A reference to a table or to one of its fields. -/
structure DataRef where
  table : Text
  field : Option Text

/-- `DATA_REF`: a table, or a table and a field after the first dot. -/
def parseDataRef (value : Text) : Option DataRef :=
  if Patterns.table.accepts value then some ⟨value, none⟩
  else if Patterns.tableField.accepts value then
    some ⟨value.takeWhile (· ≠ 0x2E), some ((value.dropWhile (· ≠ 0x2E)).drop 1)⟩
  else none

/-- What the index has of a feature. -/
structure FeatureEntry where
  path : Text
  criteria : List Text
  list : List Criterion

/-- The identifiers that references are checked against. -/
structure SpecIndex where
  features : OrderedMap Text FeatureEntry
  tables : OrderedMap Text (List Text)
  endpoints : List Text
  screens : List Text
  roles : List Text
  permissions : List Text
  rules : List Text

/-- The index of a specification. -/
def buildIndex (spec : ParsedSpec) : SpecIndex where
  features := .ofEntries (spec.features.map fun f =>
    (f.value.id, ⟨f.path, f.value.criteres.map Criterion.id, f.value.criteres⟩))
  tables := .ofEntries (spec.tables.map fun t => (t.value.id, t.value.champs.map Champ.nom))
  endpoints := spec.endpoints.map fun e => e.value.id
  screens := spec.screens.map fun s => s.value.id
  roles := spec.roles.flatMap fun f => f.value.roles.map Role.id
  permissions := spec.roles.flatMap fun f => f.value.permissions.map Permission.id
  rules := spec.rules.map fun r => r.value.id

/-! ## Links -/

/-- What a link points to: an entity, a criterion of a feature, a table or one of its fields, or what
a permission is about. -/
inductive Target where
  | feature (id : Text)
  | criterion (feature id : Text)
  | table (id : Text)
  | data (value : Text)
  | endpoint (id : Text)
  | screen (id : Text)
  | role (id : Text)
  | permission (id : Text)
  | resource (id : Text)
  | rule (id : Text)
  | nfr (id : Text)
deriving DecidableEq

/-- A link to nothing, in a file. -/
structure Emitted where
  code : IssueCode
  pointer : Text
  message : Text
  target : Target

/-- A link to nothing, in a specification: the file, and the entity that holds the link. -/
structure Dangling extends Emitted where
  path : Text
  entityId : Text

/-- `emitterFor`. -/
def emitterFor (path entityId : Text) (emitted : List Emitted) : List Dangling :=
  emitted.map fun link => { link with path := path, entityId := entityId }

/-- The issue of a dangling reference. -/
def Dangling.issue (link : Dangling) : SpecIssue :=
  ruleIssue .rule4 link.code link.path link.pointer (some link.entityId) link.message

/-- `items.forEach`, with the position of each item. -/
def forEach {α β : Type} (items : List α) (visit : α → ℕ → List β) : List β :=
  items.zipIdx.flatMap fun item => visit item.1 item.2

/-- A list of identifiers, and the ones that exist. -/
structure LinkCheck where
  items : List Text
  base : Text
  known : List Text
  code : IssueCode
  label : Text
  target : Text → Target

/-- The items that are not known. -/
def checkList (check : LinkCheck) : List Emitted :=
  forEach check.items fun id i =>
    if id ∈ check.known then []
    else [{ code := check.code
            pointer := check.base ++ Text.lit "/" ++ Text.ofNat i
            message := check.label ++ Text.lit " " ++ id ++ Text.lit " n'existe pas."
            target := check.target id }]

/-- The items that are not known, list by list. -/
def checkLinks (checks : List LinkCheck) : List Emitted := checks.flatMap checkList

section

variable (index : SpecIndex)

def tableLinks (items : List Text) : LinkCheck where
  items := items
  base := Text.lit "/tables"
  known := index.tables.keys
  code := .r4UnknownTable
  label := Text.lit "La table"
  target := .table

def endpointLinks (items : List Text) (base : Text) : LinkCheck where
  items := items
  base := base
  known := index.endpoints
  code := .r4UnknownEndpoint
  label := Text.lit "L'endpoint"
  target := .endpoint

/-- A value in the quotation marks of a message. -/
def quoted (value : Text) : Text := Text.lit "« " ++ value ++ Text.lit " »"

/-- `T-x` or `T-x.champ`. -/
def checkDataRef (value pointer : Text) : List Emitted :=
  match parseDataRef value with
  | none =>
    [{ code := .r4MalformedDataRef
       pointer := pointer
       message := Text.lit "La donnée " ++ quoted value ++
         Text.lit " n'est ni T-table ni T-table.champ."
       target := .data value }]
  | some ref =>
    match index.tables.get ref.table with
    | none =>
      [{ code := .r4UnknownTable
         pointer := pointer
         message := Text.lit "La table " ++ ref.table ++ Text.lit " citée par " ++ quoted value ++
           Text.lit " n'existe pas."
         target := .table ref.table }]
    | some fields =>
      if ref.field.any fun field => field ∉ fields then
        [{ code := .r4UnknownField
           pointer := pointer
           message := Text.lit "Le champ " ++ quoted value ++
             Text.lit " n'existe pas dans la table " ++ ref.table ++ Text.lit "."
           target := .data value }]
      else []

/-- The feature does not exist. -/
def unknownFeature (id pointer : Text) : Emitted where
  code := .r4UnknownFeature
  pointer := pointer
  message := Text.lit "La feature " ++ id ++ Text.lit " n'existe pas."
  target := .feature id

/-- The feature does not have the criterion. -/
def unknownCriterion (feature id pointer : Text) : Emitted where
  code := .r4UnknownCriterion
  pointer := pointer
  message := Text.lit "Le critère " ++ id ++ Text.lit " n'existe pas dans la feature " ++ feature ++
    Text.lit "."
  target := .criterion feature id

/-- The references of an annotation. -/
def checkAnnotation (a : Annotation) (base : Text) : List Emitted :=
  (match index.features.get a.feature with
    | none => [unknownFeature a.feature (base ++ Text.lit "/feature")]
    | some feature =>
      match a.critere with
      | none => []
      | some critere =>
        if critere ∈ feature.criteria then []
        else [unknownCriterion a.feature critere (base ++ Text.lit "/critere")]) ++
  (match a.donnee with
    | none => []
    | some donnee => checkDataRef index donnee (base ++ Text.lit "/donnee")) ++
  (match a.endpoint with
    | none => []
    | some endpoint =>
      if endpoint ∈ index.endpoints then []
      else
        [{ code := .r4UnknownEndpoint
           pointer := base ++ Text.lit "/endpoint"
           message := Text.lit "L'endpoint " ++ endpoint ++ Text.lit " n'existe pas."
           target := .endpoint endpoint }])

mutual

/-- The references of a node and of those below it. -/
def walkNode (base : Text) : SpecNode → List Emitted
  | .mk _ _ enfants annotations =>
    forEach (annotations.getD []) (fun a i =>
      checkAnnotation index a (base ++ Text.lit "/annotations/" ++ Text.ofNat i)) ++
    walkEnfants base enfants

def walkEnfants (base : Text) : Option (List SpecNode) → List Emitted
  | none => []
  | some enfants => walkFrom base 0 enfants

/-- The children of a node, from a position on. -/
def walkFrom (base : Text) : ℕ → List SpecNode → List Emitted
  | _, [] => []
  | i, child :: rest =>
    walkNode (base ++ Text.lit "/enfants/" ++ Text.ofNat i) child ++ walkFrom base (i + 1) rest

end

variable (spec : ParsedSpec)

/-- The references of the features. -/
def featureLinks : List Dangling :=
  spec.features.flatMap fun parsed =>
    emitterFor parsed.path parsed.value.id (checkLinks
      [tableLinks index parsed.value.tables,
        endpointLinks index parsed.value.endpoints (Text.lit "/endpoints"),
        { items := parsed.value.ecrans
          base := Text.lit "/ecrans"
          known := index.screens
          code := .r4UnknownScreen
          label := Text.lit "L'écran"
          target := .screen }])

/-- The references of the screens. -/
def screenLinks : List Dangling :=
  spec.screens.flatMap fun parsed =>
    emitterFor parsed.path parsed.value.id
      (checkLinks
        [{ items := parsed.value.features
           base := Text.lit "/features"
           known := index.features.keys
           code := .r4UnknownFeature
           label := Text.lit "La feature"
           target := .feature }] ++
        walkNode index (Text.lit "/arbre") parsed.value.arbre)

/-- The references of the endpoints and of the relations. -/
def dataLinks : List Dangling :=
  (spec.endpoints.flatMap fun parsed =>
    emitterFor parsed.path parsed.value.id
      (checkLinks [tableLinks index (parsed.value.tables.getD [])])) ++
  spec.relations.flatMap fun parsed =>
    forEach parsed.value.relations fun r i =>
      emitterFor parsed.path (r.source.takeWhile (· ≠ 0x2E))
        (checkDataRef index r.source (Text.lit "/relations/" ++ Text.ofNat i ++ Text.lit "/from") ++
          checkDataRef index r.target (Text.lit "/relations/" ++ Text.ofNat i ++ Text.lit "/to"))

/-- The references of the tests. -/
def testLinks : List Dangling :=
  spec.tests.flatMap fun parsed =>
    emitterFor parsed.path parsed.value.feature
      (match index.features.get parsed.value.feature with
      | none => [unknownFeature parsed.value.feature (Text.lit "/feature")]
      | some feature =>
        forEach parsed.value.criteres fun c i =>
          if c ∈ feature.criteria then []
          else [unknownCriterion parsed.value.feature c (Text.lit "/criteres/" ++ Text.ofNat i)])

/-! ## Links of the domain -/

def roleLink (items : List Text) : LinkCheck where
  items := items
  base := Text.lit "/roles"
  known := index.roles
  code := .r4UnknownRole
  label := Text.lit "Le rôle"
  target := .role

def referencingLinks : List Dangling :=
  (spec.features.flatMap fun parsed =>
    emitterFor parsed.path parsed.value.id (checkLinks
      [roleLink index parsed.value.roles,
        { items := parsed.value.regles
          base := Text.lit "/regles"
          known := index.rules
          code := .r4UnknownRule
          label := Text.lit "La règle"
          target := .rule }])) ++
  (spec.screens.flatMap fun parsed =>
    emitterFor parsed.path parsed.value.id (checkLinks [roleLink index parsed.value.roles])) ++
  spec.rules.flatMap fun parsed =>
    emitterFor parsed.path parsed.value.id (checkLinks
      [tableLinks index parsed.value.tables,
        endpointLinks index parsed.value.endpoints (Text.lit "/endpoints")])

/-- The resource of a permission. -/
def checkResource (permission : Permission) (i : ℕ) : List Emitted :=
  let isTable := (Text.lit "T-").isPrefixOf permission.ressource
  let known :=
    if isTable then decide (permission.ressource ∈ index.tables.keys)
    else decide (permission.ressource ∈ index.endpoints)
  if known then []
  else
    [{ code := if isTable then .r4UnknownTable else .r4UnknownEndpoint
       pointer := Text.lit "/permissions/" ++ Text.ofNat i ++ Text.lit "/ressource"
       message := (if isTable then Text.lit "La table" else Text.lit "L'endpoint") ++ Text.lit " " ++
         permission.ressource ++ Text.lit " n'existe pas."
       target := .resource permission.ressource }]

/-- The references of the permissions. -/
def permissionLinks (file : RolesFile) (path : Text) : List Dangling :=
  forEach file.permissions fun permission i =>
    emitterFor path permission.id (checkResource index permission i ++ checkLinks
      [endpointLinks index permission.endpoints
        (Text.lit "/permissions/" ++ Text.ofNat i ++ Text.lit "/endpoints")])

/-- The references of the roles. -/
def roleLinks (roles : List Role) (path : Text) : List Dangling :=
  forEach roles fun role i =>
    emitterFor path role.id (checkLinks
      [{ items := role.permissions
         base := Text.lit "/roles/" ++ Text.ofNat i ++ Text.lit "/permissions"
         known := index.permissions
         code := .r4UnknownPermission
         label := Text.lit "La permission"
         target := .permission }])

/-- The references to roles and rules, and those of the roles file. -/
def checkDomainLinks : List Dangling :=
  referencingLinks index spec ++ spec.roles.flatMap fun parsed =>
    roleLinks index parsed.value.roles parsed.path ++ permissionLinks index parsed.value parsed.path

/-! ## The rule -/

/-- The links of a specification to nothing. -/
def danglingLinks : List Dangling :=
  featureLinks index spec ++ screenLinks index spec ++ dataLinks index spec ++
    testLinks index spec ++ checkDomainLinks index spec

/-- **Rule 4**: every reference is to something there is. -/
def checkRule4 : List SpecIssue := (danglingLinks index spec).map Dangling.issue

end

end Koklo.Schema
