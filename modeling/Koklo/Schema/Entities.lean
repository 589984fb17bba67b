import Koklo.Schema.Feature

/-!
# The entities of a specification

Besides its features, a specification has a project, tables and their relations, endpoints, screens,
test scenarios, roles and permissions, and business rules. Each kind has its schema. A screen is a
tree of components, whose nodes bear annotations.
-/

set_option autoImplicit false

namespace Koklo.Schema

open Koklo.Foundations
open Koklo.Foundations.Decoding

namespace Patterns

/-- A lower-case letter or an underscore, then also digits. -/
def field : Pattern CodeUnit :=
  .seq (.unit fun u => Text.isLower u || u == 0x5F)
    (.many (.unit fun u => Text.isLower u || Text.isDigit u || u == 0x5F))

/-- `PATTERNS.permission`. -/
def permission : Pattern CodeUnit :=
  .seq (.text (Text.lit "PM-")) (.seq slug (.many (.seq (.text (Text.lit ".")) slug)))

/-- `PATTERNS.tableField`. -/
def tableField : Pattern CodeUnit := .seq table (.seq (.text (Text.lit ".")) field)

/-- `PATTERNS.fieldName`. -/
def fieldName : Pattern CodeUnit := field

end Patterns

/-! ## Data -/

/-- The types of fields. -/
inductive FieldType where
  | uuid | text | integer | decimal | boolean | timestamp | json
deriving DecidableEq

def FieldType.names : List (FieldType × Text) :=
  [(.uuid, Text.lit "uuid"), (.text, Text.lit "text"), (.integer, Text.lit "integer"),
    (.decimal, Text.lit "decimal"), (.boolean, Text.lit "boolean"),
    (.timestamp, Text.lit "timestamp"), (.json, Text.lit "json")]

/-- A field of a table. -/
structure Champ where
  nom : Text
  type : FieldType
  nullable : Bool
  unique : Bool
deriving DecidableEq

/-- A table of the specification. -/
structure Table where
  id : Text
  description : Option Text
  champs : List Champ
deriving DecidableEq

/-- The cardinalities of relations. -/
inductive Cardinalite where
  | oneOne | oneMany | manyOne | manyMany
deriving DecidableEq

def Cardinalite.names : List (Cardinalite × Text) :=
  [(.oneOne, Text.lit "1-1"), (.oneMany, Text.lit "1-n"), (.manyOne, Text.lit "n-1"),
    (.manyMany, Text.lit "n-n")]

/-- A relation between two tables. -/
structure Relation where
  source : Text
  target : Text
  cardinalite : Cardinalite
deriving DecidableEq

/-- The file of the relations. -/
structure RelationsFile where
  relations : List Relation
deriving DecidableEq

/-- The methods of endpoints. -/
inductive Methode where
  | get | post | put | patch | delete
deriving DecidableEq

def Methode.names : List (Methode × Text) :=
  [(.get, Text.lit "GET"), (.post, Text.lit "POST"), (.put, Text.lit "PUT"),
    (.patch, Text.lit "PATCH"), (.delete, Text.lit "DELETE")]

/-- An error that an endpoint answers. -/
structure Erreur where
  statut : ℤ
  code : Text
deriving DecidableEq

/-- An endpoint of the specification. -/
structure Endpoint where
  id : Text
  methode : Methode
  chemin : Text
  entree : Option (List (Text × Data))
  sortie : Option (List (Text × Data))
  erreurs : Option (List Erreur)
  tables : Option (List Text)

/-! ## Domain -/

/-- `PERMISSION_ACTIONS`. -/
inductive PermissionAction where
  | lire | creer | modifier | supprimer | executer
deriving DecidableEq

def PermissionAction.names : List (PermissionAction × Text) :=
  [(.lire, Text.lit "lire"), (.creer, Text.lit "creer"), (.modifier, Text.lit "modifier"),
    (.supprimer, Text.lit "supprimer"), (.executer, Text.lit "executer")]

/-- A role of the specification. -/
structure Role where
  id : Text
  nom : Text
  description : Option Text
  permissions : List Text
deriving DecidableEq

/-- A permission, on a resource and its endpoints. -/
structure Permission where
  id : Text
  action : PermissionAction
  ressource : Text
  conditions : List Text
  endpoints : List Text
deriving DecidableEq

/-- The file of the roles and of their permissions. -/
structure RolesFile where
  roles : List Role
  permissions : List Permission
deriving DecidableEq

/-- The types of business rules. -/
inductive RuleType where
  | contrainte | calcul | workflow
deriving DecidableEq

def RuleType.names : List (RuleType × Text) :=
  [(.contrainte, Text.lit "contrainte"), (.calcul, Text.lit "calcul"),
    (.workflow, Text.lit "workflow")]

/-- A business rule, with what it is about. -/
structure BusinessRule where
  id : Text
  type : RuleType
  tables : List Text
  endpoints : List Text
  enonce : Text
  exemples : List Text
deriving DecidableEq

/-! ## Projects, screens and tests -/

/-- A repository of the project. -/
structure Repo where
  role : Text
  fournisseur : Text
  url : Text
deriving DecidableEq

/-- A manifest; its version is the only one that is supported. -/
structure ProjectManifest where
  projet : Text
  organisation : Text
  inherits : List Text
  repos : List Repo
deriving DecidableEq

/-- What a node of a screen is linked to. -/
structure Annotation where
  feature : Text
  critere : Option Text
  donnee : Option Text
  endpoint : Option Text
  comportement : Option Text
deriving DecidableEq

/-- A component, its children and its annotations. -/
inductive SpecNode where
  | mk (id : Option Text) (composant : Text) (enfants : Option (List SpecNode))
      (annotations : Option (List Annotation))

/-- A screen, with its tree of nodes. -/
structure Screen where
  id : Text
  features : List Text
  roles : List Text
  viewport : Option (List Text)
  arbre : SpecNode
  etats : List Text

/-- The types of tests. -/
inductive TestType where
  | e2e | contrat | visuel
deriving DecidableEq

def TestType.names : List (TestType × Text) :=
  [(.e2e, Text.lit "e2e"), (.contrat, Text.lit "contrat"), (.visuel, Text.lit "visuel")]

/-- A test scenario of a feature. -/
structure TestScenario where
  feature : Text
  type : TestType
  fichier : Text
  criteres : List Text
deriving DecidableEq

/-! ## Schemas -/

section

variable (message : Defect → Text)

def anyText : Decoder Text := textWith message fun _ => []

def featureId : Decoder Text := idText message "^F-\\d\x7b3,\x7d$" Patterns.feature
def criterionId : Decoder Text := idText message "^AC-\\d+$" Patterns.criterion
def tableId : Decoder Text := idText message "^T-[a-z0-9][a-z0-9-]*$" Patterns.table
def endpointId : Decoder Text := idText message "^E-[a-z0-9][a-z0-9-]*$" Patterns.endpoint
def screenId : Decoder Text := idText message "^S-[a-z0-9][a-z0-9-]*$" Patterns.screen
def roleId : Decoder Text := idText message "^RL-[a-z0-9][a-z0-9-]*$" Patterns.role
def permissionId : Decoder Text :=
  idText message "^PM-[a-z0-9][a-z0-9-]*(\\.[a-z0-9][a-z0-9-]*)*$" Patterns.permission
def ruleId : Decoder Text := idText message "^R-\\d\x7b3,\x7d$" Patterns.rule
def fieldName : Decoder Text := idText message "^[a-z_][a-z0-9_]*$" Patterns.fieldName
def tableField : Decoder Text :=
  idText message "^T-[a-z0-9][a-z0-9-]*\\.[a-z_][a-z0-9_]*$" Patterns.tableField

/-- `FieldSchema`. -/
def champSchema : Decoder Champ :=
  strictRecord message (["nom", "type", "nullable", "unique"].map Text.lit) fun fields =>
    ((((Decoded.ap (.ok Champ.mk)
      (field fields (Text.lit "nom") (fieldName message))).ap
      (field fields (Text.lit "type") (oneOf message FieldType.names))).ap
      (field fields (Text.lit "nullable") (boolean message))).ap
      (field fields (Text.lit "unique") (boolean message)))

/-- `TableSchema`. -/
def tableSchema : Decoder Table :=
  strictRecord message (["id", "description", "champs"].map Text.lit) fun fields =>
    (((Decoded.ap (.ok Table.mk)
      (field fields (Text.lit "id") (tableId message))).ap
      (field fields (Text.lit "description") (optional (anyText message)))).ap
      (field fields (Text.lit "champs") (listOf message (champSchema message))))

/-- `RelationSchema`. -/
def relationSchema : Decoder Relation :=
  strictRecord message (["from", "to", "cardinalite"].map Text.lit) fun fields =>
    (((Decoded.ap (.ok Relation.mk)
      (field fields (Text.lit "from") (tableField message))).ap
      (field fields (Text.lit "to") (tableField message))).ap
      (field fields (Text.lit "cardinalite") (oneOf message Cardinalite.names)))

/-- `RelationsFileSchema`. -/
def relationsFileSchema : Decoder RelationsFile :=
  strictRecord message [Text.lit "relations"] fun fields =>
    Decoded.ap (.ok RelationsFile.mk)
      (field fields (Text.lit "relations") (listOf message (relationSchema message)))

def erreurSchema : Decoder Erreur :=
  strictRecord message (["statut", "code"].map Text.lit) fun fields =>
    ((Decoded.ap (.ok Erreur.mk)
      (field fields (Text.lit "statut") (safeInteger message))).ap
      (field fields (Text.lit "code") (nonEmpty message)))

/-- `z.string().startsWith("/")`. -/
def chemin : Decoder Text :=
  textWith message fun t =>
    Validation.refuseUnless (t.head? = some 0x2F) (message (.startsWith (Text.lit "/")))

/-- `EndpointSchema`. -/
def endpointSchema : Decoder Endpoint :=
  strictRecord message
    (["id", "methode", "chemin", "entree", "sortie", "erreurs", "tables"].map Text.lit) fun fields =>
    (((((((Decoded.ap (.ok Endpoint.mk)
      (field fields (Text.lit "id") (endpointId message))).ap
      (field fields (Text.lit "methode") (oneOf message Methode.names))).ap
      (field fields (Text.lit "chemin") (chemin message))).ap
      (field fields (Text.lit "entree") (optional (anyRecord message)))).ap
      (field fields (Text.lit "sortie") (optional (anyRecord message)))).ap
      (field fields (Text.lit "erreurs") (optional (listOf message (erreurSchema message))))).ap
      (field fields (Text.lit "tables") (optional (listOf message (tableId message)))))

/-- `RoleSchema`. -/
def roleSchema : Decoder Role :=
  strictRecord message (["id", "nom", "description", "permissions"].map Text.lit) fun fields =>
    ((((Decoded.ap (.ok Role.mk)
      (field fields (Text.lit "id") (roleId message))).ap
      (field fields (Text.lit "nom") (nonEmpty message))).ap
      (field fields (Text.lit "description") (optional (anyText message)))).ap
      (field fields (Text.lit "permissions")
        (orDefault [] (listOf message (permissionId message)))))

/-- `z.union([tableId, endpointId])`. -/
def ressource : Decoder Text
  | some (.text t) =>
    if Patterns.table.accepts t || Patterns.endpoint.accepts t then .ok t
    else refuse (message .invalidUnion)
  | _ => refuse (message .invalidUnion)

/-- `PermissionSchema`. -/
def permissionSchema : Decoder Permission :=
  strictRecord message (["id", "action", "ressource", "conditions", "endpoints"].map Text.lit)
    fun fields =>
    (((((Decoded.ap (.ok Permission.mk)
      (field fields (Text.lit "id") (permissionId message))).ap
      (field fields (Text.lit "action") (oneOf message PermissionAction.names))).ap
      (field fields (Text.lit "ressource") (ressource message))).ap
      (field fields (Text.lit "conditions") (orDefault [] (listOf message (anyText message))))).ap
      (field fields (Text.lit "endpoints") (orDefault [] (listOf message (endpointId message)))))

/-- `RolesFileSchema`. -/
def rolesFileSchema : Decoder RolesFile :=
  strictRecord message (["roles", "permissions"].map Text.lit) fun fields =>
    ((Decoded.ap (.ok RolesFile.mk)
      (field fields (Text.lit "roles") (orDefault [] (listOf message (roleSchema message))))).ap
      (field fields (Text.lit "permissions")
        (orDefault [] (listOf message (permissionSchema message)))))

/-- `BusinessRuleSchema`. -/
def businessRuleSchema : Decoder BusinessRule :=
  strictRecord message
    (["id", "type", "tables", "endpoints", "enonce", "exemples"].map Text.lit) fun fields =>
    ((((((Decoded.ap (.ok BusinessRule.mk)
      (field fields (Text.lit "id") (ruleId message))).ap
      (field fields (Text.lit "type") (oneOf message RuleType.names))).ap
      (field fields (Text.lit "tables") (orDefault [] (listOf message (tableId message))))).ap
      (field fields (Text.lit "endpoints") (orDefault [] (listOf message (endpointId message))))).ap
      (field fields (Text.lit "enonce") (nonEmpty message))).ap
      (field fields (Text.lit "exemples") (orDefault [] (listOf message (anyText message)))))

def repoSchema : Decoder Repo :=
  strictRecord message (["role", "fournisseur", "url"].map Text.lit) fun fields =>
    (((Decoded.ap (.ok Repo.mk)
      (field fields (Text.lit "role") (nonEmpty message))).ap
      (field fields (Text.lit "fournisseur") (nonEmpty message))).ap
      (field fields (Text.lit "url") (nonEmpty message)))

/-- `z.literal(1)`. -/
def versionOne : Decoder Unit
  | some (.number (.finite value)) =>
    if value = 1 then .ok () else refuse (message (.notOneOf [Text.lit "1"]))
  | _ => refuse (message (.notOneOf [Text.lit "1"]))

/-- `ProjectManifestSchema`. -/
def projectManifestSchema : Decoder ProjectManifest :=
  strictRecord message
    (["projet", "organisation", "spec_version", "extends", "repos"].map Text.lit) fun fields =>
    (((((Decoded.ap (.ok fun projet organisation (_ : Unit) inherits repos =>
        ProjectManifest.mk projet organisation inherits repos)
      (field fields (Text.lit "projet") (nonEmpty message))).ap
      (field fields (Text.lit "organisation") (nonEmpty message))).ap
      (field fields (Text.lit "spec_version") (versionOne message))).ap
      (field fields (Text.lit "extends") (orDefault [] (listOf message (anyText message))))).ap
      (field fields (Text.lit "repos") (orDefault [] (listOf message (repoSchema message)))))

/-- `AnnotationSchema`. -/
def annotationSchema : Decoder Annotation :=
  strictRecord message
    (["feature", "critere", "donnee", "endpoint", "comportement"].map Text.lit) fun fields =>
    (((((Decoded.ap (.ok Annotation.mk)
      (field fields (Text.lit "feature") (featureId message))).ap
      (field fields (Text.lit "critere") (optional (criterionId message)))).ap
      (field fields (Text.lit "donnee") (optional (anyText message)))).ap
      (field fields (Text.lit "endpoint") (optional (endpointId message)))).ap
      (field fields (Text.lit "comportement") (optional (anyText message))))

mutual

/-- `NodeSchema`, which lets other fields pass. -/
def nodeSchema : Data → Decoded SpecNode
  | .record fields =>
    ((((Decoded.ap (.ok SpecNode.mk)
      (field fields (Text.lit "id") (optional (anyText message)))).ap
      (field fields (Text.lit "composant") (nonEmpty message))).ap
      (enfantsIn fields)).ap
      (field fields (Text.lit "annotations")
        (optional (listOf message (annotationSchema message)))))
  | _ => refuse (message (.wrongType "object"))

/-- The children in the fields of a node. -/
def enfantsIn : List (Text × Data) → Decoded (Option (List SpecNode))
  | [] => .ok none
  | (key, data) :: rest =>
    if key = Text.lit "enfants" then (enfantsOf data).under (Text.lit "enfants")
    else enfantsIn rest

/-- The children of a node. -/
def enfantsOf : Data → Decoded (Option (List SpecNode))
  | .list items => (nodesFrom 0 items).map some
  | _ => refuse (message (.wrongType "array"))

/-- The nodes of a list from a position on. -/
def nodesFrom : ℕ → List Data → Decoded (List SpecNode)
  | _, [] => .ok []
  | index, data :: rest =>
    Decoded.ap (Decoded.ap (.ok List.cons) ((nodeSchema data).under (Text.ofNat index)))
      (nodesFrom (index + 1) rest)

end

/-- The root of a screen. -/
def arbre : Decoder SpecNode
  | some data => nodeSchema message data
  | none => refuse (message (.wrongType "object"))

/-- `ScreenSchema`. -/
def screenSchema : Decoder Screen :=
  strictRecord message
    (["id", "features", "roles", "viewport", "arbre", "etats"].map Text.lit) fun fields =>
    ((((((Decoded.ap (.ok Screen.mk)
      (field fields (Text.lit "id") (screenId message))).ap
      (field fields (Text.lit "features") (orDefault [] (listOf message (featureId message))))).ap
      (field fields (Text.lit "roles") (orDefault [] (listOf message (roleId message))))).ap
      (field fields (Text.lit "viewport") (optional (listOf message (anyText message))))).ap
      (field fields (Text.lit "arbre") (arbre message))).ap
      (field fields (Text.lit "etats") (orDefault [] (listOf message (anyText message)))))

/-- `TestScenarioSchema`. -/
def testScenarioSchema : Decoder TestScenario :=
  strictRecord message (["feature", "type", "fichier", "criteres"].map Text.lit) fun fields =>
    ((((Decoded.ap (.ok TestScenario.mk)
      (field fields (Text.lit "feature") (featureId message))).ap
      (field fields (Text.lit "type") (oneOf message TestType.names))).ap
      (field fields (Text.lit "fichier") (nonEmpty message))).ap
      (field fields (Text.lit "criteres") (listOf message (criterionId message))))

end

/-! ## What the schemas refuse -/

section Explained

variable {message : Defect → Text}

theorem idText_explained (source : String) (pattern : Pattern CodeUnit) :
    Decoder.Explained (idText message source pattern) := textWith_explained _

theorem nonEmpty_explained : Decoder.Explained (nonEmpty message) := textWith_explained _

theorem anyText_explained : Decoder.Explained (anyText message) := textWith_explained _

theorem links_explained (source : String) (pattern : Pattern CodeUnit) :
    Decoder.Explained (links message source pattern) :=
  orDefault_explained (listOf_explained (idText_explained _ _)) _

theorem stepSchema_explained : Decoder.Explained (stepSchema message) := by
  apply strictRecord_explained
  intro fields
  apply Decoded.Explained.ap
  · apply Decoded.Explained.ap (Decoded.explained_ok _)
    exact field_explained (oneOf_explained _) _ _
  · exact field_explained nonEmpty_explained _ _

theorem criterionSchema_explained : Decoder.Explained (criterionSchema message) := by
  apply strictRecord_explained
  intro fields
  refine (((Decoded.explained_ok _).ap ?_).ap ?_).ap ?_
  · exact field_explained (idText_explained _ _) _ _
  · exact field_explained nonEmpty_explained _ _
  · exact field_explained (listOf_explained stepSchema_explained) _ _

theorem featureSchema_explained : Decoder.Explained (featureSchema message) := by
  apply strictRecord_explained
  intro fields
  refine ((((((((((((Decoded.explained_ok _).ap ?_).ap ?_).ap ?_).ap ?_).ap ?_).ap ?_).ap ?_).ap
    ?_).ap ?_).ap ?_).ap ?_).ap ?_
  · exact field_explained (idText_explained _ _) _ _
  · exact field_explained nonEmpty_explained _ _
  · exact field_explained (oneOf_explained _) _ _
  · exact field_explained (oneOf_explained _) _ _
  · exact field_explained (links_explained _ _) _ _
  · exact field_explained (links_explained _ _) _ _
  · exact field_explained (links_explained _ _) _ _
  · exact field_explained (links_explained _ _) _ _
  · exact field_explained (links_explained _ _) _ _
  · exact field_explained (links_explained _ _) _ _
  · exact field_explained (textWith_explained _) _ _
  · exact field_explained (listOf_explained criterionSchema_explained) _ _

theorem champSchema_explained : Decoder.Explained (champSchema message) := by
  apply strictRecord_explained
  intro fields
  refine ((((Decoded.explained_ok _).ap ?_).ap ?_).ap ?_).ap ?_
  · exact field_explained (idText_explained _ _) _ _
  · exact field_explained (oneOf_explained _) _ _
  · exact field_explained boolean_explained _ _
  · exact field_explained boolean_explained _ _

theorem tableSchema_explained : Decoder.Explained (tableSchema message) := by
  apply strictRecord_explained
  intro fields
  refine (((Decoded.explained_ok _).ap ?_).ap ?_).ap ?_
  · exact field_explained (idText_explained _ _) _ _
  · exact field_explained (optional_explained anyText_explained) _ _
  · exact field_explained (listOf_explained champSchema_explained) _ _

theorem relationSchema_explained : Decoder.Explained (relationSchema message) := by
  apply strictRecord_explained
  intro fields
  refine (((Decoded.explained_ok _).ap ?_).ap ?_).ap ?_
  · exact field_explained (idText_explained _ _) _ _
  · exact field_explained (idText_explained _ _) _ _
  · exact field_explained (oneOf_explained _) _ _

theorem relationsFileSchema_explained : Decoder.Explained (relationsFileSchema message) := by
  apply strictRecord_explained
  intro fields
  apply (Decoded.explained_ok _).ap
  exact field_explained (listOf_explained relationSchema_explained) _ _

theorem erreurSchema_explained : Decoder.Explained (erreurSchema message) := by
  apply strictRecord_explained
  intro fields
  refine ((Decoded.explained_ok _).ap ?_).ap ?_
  · exact field_explained safeInteger_explained _ _
  · exact field_explained nonEmpty_explained _ _

theorem endpointSchema_explained : Decoder.Explained (endpointSchema message) := by
  apply strictRecord_explained
  intro fields
  refine (((((((Decoded.explained_ok _).ap ?_).ap ?_).ap ?_).ap ?_).ap ?_).ap ?_).ap ?_
  · exact field_explained (idText_explained _ _) _ _
  · exact field_explained (oneOf_explained _) _ _
  · exact field_explained (textWith_explained _) _ _
  · exact field_explained (optional_explained anyRecord_explained) _ _
  · exact field_explained (optional_explained anyRecord_explained) _ _
  · exact field_explained (optional_explained (listOf_explained erreurSchema_explained)) _ _
  · exact field_explained (optional_explained (listOf_explained (idText_explained _ _))) _ _

theorem roleSchema_explained : Decoder.Explained (roleSchema message) := by
  apply strictRecord_explained
  intro fields
  refine ((((Decoded.explained_ok _).ap ?_).ap ?_).ap ?_).ap ?_
  · exact field_explained (idText_explained _ _) _ _
  · exact field_explained nonEmpty_explained _ _
  · exact field_explained (optional_explained anyText_explained) _ _
  · exact field_explained (orDefault_explained (listOf_explained (idText_explained _ _)) _) _ _

theorem ressource_explained : Decoder.Explained (ressource message) := by
  intro data
  unfold ressource
  split
  · split
    · exact Decoded.explained_ok _
    · exact refuse_explained _
  · exact refuse_explained _

theorem permissionSchema_explained : Decoder.Explained (permissionSchema message) := by
  apply strictRecord_explained
  intro fields
  refine (((((Decoded.explained_ok _).ap ?_).ap ?_).ap ?_).ap ?_).ap ?_
  · exact field_explained (idText_explained _ _) _ _
  · exact field_explained (oneOf_explained _) _ _
  · exact field_explained ressource_explained _ _
  · exact field_explained (orDefault_explained (listOf_explained anyText_explained) _) _ _
  · exact field_explained (orDefault_explained (listOf_explained (idText_explained _ _)) _) _ _

theorem rolesFileSchema_explained : Decoder.Explained (rolesFileSchema message) := by
  apply strictRecord_explained
  intro fields
  refine ((Decoded.explained_ok _).ap ?_).ap ?_
  · exact field_explained (orDefault_explained (listOf_explained roleSchema_explained) _) _ _
  · exact field_explained (orDefault_explained (listOf_explained permissionSchema_explained) _) _ _

theorem businessRuleSchema_explained : Decoder.Explained (businessRuleSchema message) := by
  apply strictRecord_explained
  intro fields
  refine ((((((Decoded.explained_ok _).ap ?_).ap ?_).ap ?_).ap ?_).ap ?_).ap ?_
  · exact field_explained (idText_explained _ _) _ _
  · exact field_explained (oneOf_explained _) _ _
  · exact field_explained (orDefault_explained (listOf_explained (idText_explained _ _)) _) _ _
  · exact field_explained (orDefault_explained (listOf_explained (idText_explained _ _)) _) _ _
  · exact field_explained nonEmpty_explained _ _
  · exact field_explained (orDefault_explained (listOf_explained anyText_explained) _) _ _

theorem repoSchema_explained : Decoder.Explained (repoSchema message) := by
  apply strictRecord_explained
  intro fields
  refine (((Decoded.explained_ok _).ap ?_).ap ?_).ap ?_
  · exact field_explained nonEmpty_explained _ _
  · exact field_explained nonEmpty_explained _ _
  · exact field_explained nonEmpty_explained _ _

theorem versionOne_explained : Decoder.Explained (versionOne message) := by
  intro data
  unfold versionOne
  split
  · split
    · exact Decoded.explained_ok _
    · exact refuse_explained _
  · exact refuse_explained _

theorem projectManifestSchema_explained : Decoder.Explained (projectManifestSchema message) := by
  apply strictRecord_explained
  intro fields
  refine (((((Decoded.explained_ok _).ap ?_).ap ?_).ap ?_).ap ?_).ap ?_
  · exact field_explained nonEmpty_explained _ _
  · exact field_explained nonEmpty_explained _ _
  · exact field_explained versionOne_explained _ _
  · exact field_explained (orDefault_explained (listOf_explained anyText_explained) _) _ _
  · exact field_explained (orDefault_explained (listOf_explained repoSchema_explained) _) _ _

theorem annotationSchema_explained : Decoder.Explained (annotationSchema message) := by
  apply strictRecord_explained
  intro fields
  refine (((((Decoded.explained_ok _).ap ?_).ap ?_).ap ?_).ap ?_).ap ?_
  · exact field_explained (idText_explained _ _) _ _
  · exact field_explained (optional_explained (idText_explained _ _)) _ _
  · exact field_explained (optional_explained anyText_explained) _ _
  · exact field_explained (optional_explained (idText_explained _ _)) _ _
  · exact field_explained (optional_explained anyText_explained) _ _

mutual

theorem nodeSchema_explained : ∀ data, (nodeSchema message data).Explained
  | .record fields => by
    rw [nodeSchema]
    refine ((((Decoded.explained_ok _).ap ?_).ap ?_).ap ?_).ap ?_
    · exact field_explained (optional_explained anyText_explained) _ _
    · exact field_explained nonEmpty_explained _ _
    · exact enfantsIn_explained fields
    · exact field_explained (optional_explained (listOf_explained annotationSchema_explained)) _ _
  | .null | .bool _ | .number _ | .text _ | .list _ => by
    rw [nodeSchema]
    · exact refuse_explained _
    · exact nofun

theorem enfantsIn_explained : ∀ fields, (enfantsIn message fields).Explained
  | [] => by
    rw [enfantsIn]
    exact Decoded.explained_ok _
  | (key, data) :: rest => by
    rw [enfantsIn]
    split
    · exact (enfantsOf_explained data).under _
    · exact enfantsIn_explained rest

theorem enfantsOf_explained : ∀ data, (enfantsOf message data).Explained
  | .list items => by
    rw [enfantsOf]
    exact (nodesFrom_explained 0 items).map some
  | .null | .bool _ | .number _ | .text _ | .record _ => by
    rw [enfantsOf]
    · exact refuse_explained _
    · exact nofun

theorem nodesFrom_explained : ∀ index items, (nodesFrom message index items).Explained
  | _, [] => by
    rw [nodesFrom]
    exact Decoded.explained_ok _
  | index, data :: rest => by
    rw [nodesFrom]
    refine ((Decoded.explained_ok _).ap ?_).ap (nodesFrom_explained (index + 1) rest)
    exact (nodeSchema_explained data).under _

end

theorem screenSchema_explained : Decoder.Explained (screenSchema message) := by
  have root : Decoder.Explained (arbre message) := by
    intro data
    cases data with
    | none => exact refuse_explained _
    | some data => exact nodeSchema_explained data
  apply strictRecord_explained
  intro fields
  refine ((((((Decoded.explained_ok _).ap ?_).ap ?_).ap ?_).ap ?_).ap ?_).ap ?_
  · exact field_explained (idText_explained _ _) _ _
  · exact field_explained (orDefault_explained (listOf_explained (idText_explained _ _)) _) _ _
  · exact field_explained (orDefault_explained (listOf_explained (idText_explained _ _)) _) _ _
  · exact field_explained (optional_explained (listOf_explained anyText_explained)) _ _
  · exact field_explained root _ _
  · exact field_explained (orDefault_explained (listOf_explained anyText_explained) _) _ _

theorem testScenarioSchema_explained : Decoder.Explained (testScenarioSchema message) := by
  apply strictRecord_explained
  intro fields
  refine ((((Decoded.explained_ok _).ap ?_).ap ?_).ap ?_).ap ?_
  · exact field_explained (idText_explained _ _) _ _
  · exact field_explained (oneOf_explained _) _ _
  · exact field_explained nonEmpty_explained _ _
  · exact field_explained (listOf_explained (idText_explained _ _)) _ _

end Explained

/-! ## Identifiers -/

section Identified

variable {message : Defect → Text}

/-- A text field that a pattern accepts. -/
theorem field_idText_eq_ok {source : String} {pattern : Pattern CodeUnit}
    {fields : OrderedMap Text Data} {name u : Text}
    (decoded : field fields name (idText message source pattern) = .ok u) :
    fields.get name = some (.text u) ∧ pattern.Matches u := by
  have read := Decoded.under_eq_ok.mp decoded
  have text := textWith_eq_ok message read
  rw [text] at read
  exact ⟨text, (idText_eq_ok.mp read).2⟩

theorem champSchema_eq_ok {data : Option Data} {champ : Champ}
    (decoded : champSchema message data = .ok champ) : Patterns.fieldName.Matches champ.nom := by
  obtain ⟨fields, _, read⟩ := strictRecord_eq_ok decoded
  simp only [Decoded.ap_eq_ok] at read
  obtain ⟨_, _, ⟨_, _, ⟨_, _, ⟨_, _, made, nom, rfl⟩, _, rfl⟩, _, rfl⟩, _, rfl⟩ := read
  cases made
  exact (field_idText_eq_ok nom).2

/-- **A table that is read** bears the identifier of its data, and its fields are named as fields. -/
theorem tableSchema_eq_ok {data : Option Data} {table : Table}
    (decoded : tableSchema message data = .ok table) :
    ∃ fields, data = some (.record fields) ∧
      OrderedMap.get fields (Text.lit "id") = some (.text table.id) ∧
      Patterns.table.Matches table.id ∧
      ∀ champ ∈ table.champs, Patterns.fieldName.Matches champ.nom := by
  obtain ⟨fields, rfl, read⟩ := strictRecord_eq_ok decoded
  simp only [Decoded.ap_eq_ok] at read
  obtain ⟨_, _, ⟨_, _, ⟨_, _, made, id, rfl⟩, _, rfl⟩, champs, rfl⟩ := read
  cases made
  obtain ⟨found, matched⟩ := field_idText_eq_ok id
  refine ⟨fields, rfl, found, matched, fun champ member => ?_⟩
  obtain ⟨known, known_ok⟩ := listOf_eq_ok (Decoded.under_eq_ok.mp champs) champ member
  exact champSchema_eq_ok known_ok

theorem endpointSchema_eq_ok {data : Option Data} {endpoint : Endpoint}
    (decoded : endpointSchema message data = .ok endpoint) :
    ∃ fields, data = some (.record fields) ∧
      OrderedMap.get fields (Text.lit "id") = some (.text endpoint.id) ∧
      Patterns.endpoint.Matches endpoint.id := by
  obtain ⟨fields, rfl, read⟩ := strictRecord_eq_ok decoded
  simp only [Decoded.ap_eq_ok] at read
  obtain ⟨_, _, ⟨_, _, ⟨_, _, ⟨_, _, ⟨_, _, ⟨_, _, ⟨_, _, made, id, rfl⟩, _, rfl⟩, _, rfl⟩, _, rfl⟩,
    _, rfl⟩, _, rfl⟩, _, rfl⟩ := read
  cases made
  exact ⟨fields, rfl, field_idText_eq_ok id⟩

theorem screenSchema_eq_ok {data : Option Data} {screen : Screen}
    (decoded : screenSchema message data = .ok screen) :
    ∃ fields, data = some (.record fields) ∧
      OrderedMap.get fields (Text.lit "id") = some (.text screen.id) ∧
      Patterns.screen.Matches screen.id := by
  obtain ⟨fields, rfl, read⟩ := strictRecord_eq_ok decoded
  simp only [Decoded.ap_eq_ok] at read
  obtain ⟨_, _, ⟨_, _, ⟨_, _, ⟨_, _, ⟨_, _, ⟨_, _, made, id, rfl⟩, _, rfl⟩, _, rfl⟩, _, rfl⟩,
    _, rfl⟩, _, rfl⟩ := read
  cases made
  exact ⟨fields, rfl, field_idText_eq_ok id⟩

theorem links_matches {source : String} {pattern : Pattern CodeUnit}
    {fields : OrderedMap Text Data} {name : Text} {out : List Text}
    (decoded : field fields name (links message source pattern) = .ok out) :
    ∀ id ∈ out, pattern.Matches id := by
  have read := Decoded.under_eq_ok.mp decoded
  rw [links] at read
  cases found : fields.get name with
  | none =>
    rw [found, orDefault] at read
    cases read
    exact List.forall_mem_nil _
  | some data =>
    rw [found, orDefault] at read
    intro id member
    obtain ⟨known, accepted⟩ := listOf_eq_ok read id member
    have text := textWith_eq_ok message accepted
    rw [text] at accepted
    exact (idText_eq_ok.mp accepted).2

/-- **The identifiers of a feature that is read** are written as such: its own, those of its
criteria, and those of the tables and endpoints it links to. -/
theorem featureSchema_ids {data : Option Data} {feature : Feature}
    (decoded : featureSchema message data = .ok feature) :
    Patterns.feature.Matches feature.id ∧ (∀ id ∈ feature.tables, Patterns.table.Matches id) ∧
      (∀ id ∈ feature.endpoints, Patterns.endpoint.Matches id) ∧
      ∀ criterion ∈ feature.criteres, Patterns.criterion.Matches criterion.id := by
  obtain ⟨fields, -, read⟩ := strictRecord_eq_ok decoded
  simp only [Decoded.ap_eq_ok] at read
  obtain ⟨_, _, ⟨_, _, ⟨_, _, ⟨_, _, ⟨_, _, ⟨_, _, ⟨_, _, ⟨_, _, ⟨_, _, ⟨_, _, ⟨_, _, ⟨_, _, made, id,
    rfl⟩, _, rfl⟩, _, rfl⟩, _, rfl⟩, tables, rfl⟩, endpoints, rfl⟩, _, rfl⟩, _, rfl⟩, _, rfl⟩,
    _, rfl⟩, _, rfl⟩, criteres, rfl⟩ := read
  cases made
  refine ⟨(field_idText_eq_ok id).2, links_matches tables, links_matches endpoints, ?_⟩
  intro criterion member
  obtain ⟨known, accepted⟩ := listOf_eq_ok (Decoded.under_eq_ok.mp criteres) criterion member
  obtain ⟨fields, -, read⟩ := strictRecord_eq_ok accepted
  simp only [Decoded.ap_eq_ok] at read
  obtain ⟨_, _, ⟨_, _, ⟨_, _, made, id, rfl⟩, _, rfl⟩, _, rfl⟩ := read
  cases made
  exact (field_idText_eq_ok id).2

end Identified

end Koklo.Schema
