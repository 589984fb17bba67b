import Koklo.Foundations.Decoding

/-!
# Features

A feature of a specification: its identity, its links to other entities, a description
and acceptance criteria made of steps. The schema decodes a feature from data; a feature
written as data is accepted exactly when it is valid, and is decoded to itself
(`featureSchema_toData`).
-/

set_option autoImplicit false

namespace Koklo.Schema

open Koklo.Foundations
open Koklo.Foundations.Decoding

/-! ## Identifiers -/

/-- `slug`: a lower-case letter or a digit, then also dashes. -/
def slug : Pattern CodeUnit :=
  .seq (.unit fun u => Text.isLower u || Text.isDigit u)
    (.many (.unit fun u => Text.isLower u || Text.isDigit u || u == 0x2D))

def digits (least : ℕ) : Pattern CodeUnit := .atLeast least (.unit Text.isDigit)

namespace Patterns

/-- `PATTERNS.feature`. -/
def feature : Pattern CodeUnit := .seq (.text (Text.lit "F-")) (digits 3)

/-- `PATTERNS.criterion`. -/
def criterion : Pattern CodeUnit := .seq (.text (Text.lit "AC-")) (.plus (.unit Text.isDigit))

/-- `PATTERNS.table`. -/
def table : Pattern CodeUnit := .seq (.text (Text.lit "T-")) slug

/-- `PATTERNS.endpoint`. -/
def endpoint : Pattern CodeUnit := .seq (.text (Text.lit "E-")) slug

/-- `PATTERNS.screen`. -/
def screen : Pattern CodeUnit := .seq (.text (Text.lit "S-")) slug

/-- `PATTERNS.role`. -/
def role : Pattern CodeUnit := .seq (.text (Text.lit "RL-")) slug

/-- `PATTERNS.rule`. -/
def rule : Pattern CodeUnit := .seq (.text (Text.lit "R-")) (digits 3)

/-- `PATTERNS.nfr`. -/
def nfr : Pattern CodeUnit := .seq (.text (Text.lit "NFR-")) slug

end Patterns

/-! ## The data of a feature -/

/-- `STEP_TYPES`. -/
inductive StepType where
  | etantDonne
  | quand
  | alors
  | et
deriving DecidableEq

def StepType.name : StepType → Text
  | etantDonne => Text.lit "etant_donne"
  | quand => Text.lit "quand"
  | alors => Text.lit "alors"
  | et => Text.lit "et"

def StepType.names : List (StepType × Text) :=
  [.etantDonne, .quand, .alors, .et].map fun type => (type, type.name)

/-- A step of a criterion. -/
structure Step where
  type : StepType
  texte : Text
deriving DecidableEq

/-- An acceptance criterion. -/
structure Criterion where
  id : Text
  titre : Text
  etapes : List Step
deriving DecidableEq

/-- The statuses of a feature. -/
inductive Statut where
  | brouillon
  | specifiee
  | implementee
  | adoptee
deriving DecidableEq

def Statut.name : Statut → Text
  | brouillon => Text.lit "brouillon"
  | specifiee => Text.lit "specifiee"
  | implementee => Text.lit "implementee"
  | adoptee => Text.lit "adoptee"

def Statut.names : List (Statut × Text) :=
  [.brouillon, .specifiee, .implementee, .adoptee].map fun statut => (statut, statut.name)

/-- The priorities of a feature. -/
inductive Priorite where
  | must
  | should
  | could
  | wont
deriving DecidableEq

def Priorite.name : Priorite → Text
  | must => Text.lit "must"
  | should => Text.lit "should"
  | could => Text.lit "could"
  | wont => Text.lit "wont"

def Priorite.names : List (Priorite × Text) :=
  [.must, .should, .could, .wont].map fun priorite => (priorite, priorite.name)

/-- A feature of the specification. -/
structure Feature where
  id : Text
  titre : Text
  statut : Statut
  priorite : Priorite
  tables : List Text
  endpoints : List Text
  ecrans : List Text
  roles : List Text
  regles : List Text
  nfr : List Text
  description : Text
  criteres : List Criterion
deriving DecidableEq

/-! ## The schema -/

section Schema

variable (message : Defect → Text)

/-- A text that a pattern matches. -/
def idText (source : String) (pattern : Pattern CodeUnit) : Decoder Text :=
  textWith message (Validation.formatted message source pattern)

def nonEmpty : Decoder Text := textWith message (Validation.nonEmptyText message)

/-- `StepSchema`. -/
def stepSchema : Decoder Step :=
  strictRecord message [Text.lit "type", Text.lit "texte"] fun fields =>
    ((Decoded.ap (.ok Step.mk) (field fields (Text.lit "type") (oneOf message StepType.names))).ap
      (field fields (Text.lit "texte") (nonEmpty message)))

/-- `CriterionSchema`. -/
def criterionSchema : Decoder Criterion :=
  strictRecord message [Text.lit "id", Text.lit "titre", Text.lit "etapes"] fun fields =>
    (((Decoded.ap (.ok Criterion.mk)
      (field fields (Text.lit "id") (idText message "^AC-\\d+$" Patterns.criterion))).ap
      (field fields (Text.lit "titre") (nonEmpty message))).ap
      (field fields (Text.lit "etapes") (listOf message (stepSchema message))))

/-- `links`: a list of identifiers, empty when it is missing. -/
def links (source : String) (pattern : Pattern CodeUnit) : Decoder (List Text) :=
  orDefault [] (listOf message (idText message source pattern))

def featureKeys : List Text :=
  ["id", "titre", "statut", "priorite", "tables", "endpoints", "ecrans", "roles", "regles", "nfr",
    "description", "criteres"].map Text.lit

/-- `FeatureSchema`. -/
def featureSchema : Decoder Feature :=
  strictRecord message featureKeys fun fields =>
    let linked := fun (name : String) (source : String) (pattern : Pattern CodeUnit) =>
      field fields (Text.lit name) (links message source pattern)
    ((((((((((((Decoded.ap (.ok Feature.mk)
      (field fields (Text.lit "id") (idText message "^F-\\d\x7b3,\x7d$" Patterns.feature))).ap
      (field fields (Text.lit "titre") (nonEmpty message))).ap
      (field fields (Text.lit "statut") (oneOf message Statut.names))).ap
      (field fields (Text.lit "priorite") (oneOf message Priorite.names))).ap
      (linked "tables" "^T-[a-z0-9][a-z0-9-]*$" Patterns.table)).ap
      (linked "endpoints" "^E-[a-z0-9][a-z0-9-]*$" Patterns.endpoint)).ap
      (linked "ecrans" "^S-[a-z0-9][a-z0-9-]*$" Patterns.screen)).ap
      (linked "roles" "^RL-[a-z0-9][a-z0-9-]*$" Patterns.role)).ap
      (linked "regles" "^R-\\d\x7b3,\x7d$" Patterns.rule)).ap
      (linked "nfr" "^NFR-[a-z0-9][a-z0-9-]*$" Patterns.nfr)).ap
      (field fields (Text.lit "description") (textWith message fun _ => []))).ap
      (field fields (Text.lit "criteres") (listOf message (criterionSchema message))))

end Schema

/-! ## Features as data -/

/-- A step as it is written. -/
def Step.toData (step : Step) : Data :=
  .record [(Text.lit "type", .text step.type.name), (Text.lit "texte", .text step.texte)]

/-- A criterion as it is written. -/
def Criterion.toData (criterion : Criterion) : Data :=
  .record [(Text.lit "id", .text criterion.id), (Text.lit "titre", .text criterion.titre),
    (Text.lit "etapes", .list (criterion.etapes.map Step.toData))]

/-- The fields of the front matter. -/
def Feature.front (feature : Feature) : List (Text × Data) := [
  (Text.lit "id", .text feature.id),
  (Text.lit "titre", .text feature.titre),
  (Text.lit "statut", .text feature.statut.name),
  (Text.lit "priorite", .text feature.priorite.name),
  (Text.lit "tables", .list (feature.tables.map Data.text)),
  (Text.lit "endpoints", .list (feature.endpoints.map Data.text)),
  (Text.lit "ecrans", .list (feature.ecrans.map Data.text)),
  (Text.lit "roles", .list (feature.roles.map Data.text)),
  (Text.lit "regles", .list (feature.regles.map Data.text)),
  (Text.lit "nfr", .list (feature.nfr.map Data.text))]

/-- The front matter with a description and criteria. -/
def withBody (front : List (Text × Data)) (description : Text) (criteres : List Criterion) :
    List (Text × Data) :=
  OrderedMap.set (OrderedMap.set front (Text.lit "description") (.text description))
    (Text.lit "criteres") (.list (criteres.map Criterion.toData))

/-- A feature as it is written. -/
def Feature.toData (feature : Feature) : Data :=
  .record (withBody feature.front feature.description feature.criteres)

/-! ## Valid features -/

/-- A criterion that the parser accepts. -/
structure Criterion.Valid (criterion : Criterion) : Prop where
  id : Patterns.criterion.Matches criterion.id
  titre : criterion.titre ≠ []
  etapes : ∀ step ∈ criterion.etapes, step.texte ≠ []

/-- What the schema asks of a feature. -/
structure Feature.Valid (feature : Feature) : Prop where
  id : Patterns.feature.Matches feature.id
  titre : feature.titre ≠ []
  tables : ∀ id ∈ feature.tables, Patterns.table.Matches id
  endpoints : ∀ id ∈ feature.endpoints, Patterns.endpoint.Matches id
  ecrans : ∀ id ∈ feature.ecrans, Patterns.screen.Matches id
  roles : ∀ id ∈ feature.roles, Patterns.role.Matches id
  regles : ∀ id ∈ feature.regles, Patterns.rule.Matches id
  nfr : ∀ id ∈ feature.nfr, Patterns.nfr.Matches id
  criteres : ∀ criterion ∈ feature.criteres, criterion.Valid

section Accepted

variable {message : Defect → Text}

theorem idText_eq_ok {source : String} {pattern : Pattern CodeUnit} {t u : Text} :
    idText message source pattern (some (.text t)) = .ok u ↔ u = t ∧ pattern.Matches t := by
  rw [idText, textWith_text_eq_ok, Validation.formatted_eq_nil_iff]

theorem nonEmpty_eq_ok {t u : Text} :
    nonEmpty message (some (.text t)) = .ok u ↔ u = t ∧ t ≠ [] := by
  rw [nonEmpty, textWith_text_eq_ok, Validation.nonEmptyText_eq_nil_iff]

/-- A field that names every value of an enumeration. -/
theorem named_eq_ok {α : Type} {names : List (α × Text)} {name : α → Text}
    (distinct : (names.map Prod.snd).Nodup) (known : ∀ value, (value, name value) ∈ names)
    {value other : α} : oneOf message names (some (.text (name value))) = .ok other ↔ other = value := by
  rw [oneOf_name message distinct (known value), Except.ok.injEq, eq_comm]

theorem statut_eq_ok {statut other : Statut} :
    oneOf message Statut.names (some (.text statut.name)) = .ok other ↔ other = statut :=
  named_eq_ok (by decide) fun statut => by cases statut <;> decide

theorem priorite_eq_ok {priorite other : Priorite} :
    oneOf message Priorite.names (some (.text priorite.name)) = .ok other ↔ other = priorite :=
  named_eq_ok (by decide) fun priorite => by cases priorite <;> decide

theorem stepType_eq_ok {type other : StepType} :
    oneOf message StepType.names (some (.text type.name)) = .ok other ↔ other = type :=
  named_eq_ok (by decide) fun type => by cases type <;> decide

theorem links_eq_ok {source : String} {pattern : Pattern CodeUnit} {ids out : List Text} :
    links message source pattern (some (.list (ids.map Data.text))) = .ok out ↔
      out = ids ∧ ∀ id ∈ ids, pattern.Matches id := by
  rw [links, orDefault, listOf_map_eq_ok message fun t _ u read => (idText_eq_ok.mp read).1]
  simp only [idText_eq_ok, true_and]

theorem stepSchema_eq_ok {step other : Step} :
    stepSchema message (some step.toData) = .ok other ↔ other = step ∧ step.texte ≠ [] := by
  have shape : stepSchema message (some step.toData) = Decoded.butRefuse
      ((Decoded.ap (.ok Step.mk) ((oneOf message StepType.names (some (.text step.type.name))).under
        (Text.lit "type"))).ap ((nonEmpty message (some (.text step.texte))).under (Text.lit "texte")))
      [] := rfl
  rw [shape, Decoded.butRefuse_eq_ok]
  simp only [Decoded.ap_eq_ok, Decoded.under_eq_ok, stepType_eq_ok, nonEmpty_eq_ok, and_true]
  constructor
  · rintro ⟨g, texte, ⟨g', type, made, rfl, rfl⟩, ⟨rfl, some⟩, rfl⟩
    cases made
    exact ⟨rfl, some⟩
  · rintro ⟨rfl, some⟩
    exact ⟨_, _, ⟨_, _, rfl, rfl, rfl⟩, ⟨rfl, some⟩, rfl⟩

theorem criterionSchema_eq_ok {criterion other : Criterion} :
    criterionSchema message (some criterion.toData) = .ok other ↔
      other = criterion ∧ criterion.Valid := by
  have shape : criterionSchema message (some criterion.toData) = Decoded.butRefuse
      (((Decoded.ap (.ok Criterion.mk)
        ((idText message "^AC-\\d+$" Patterns.criterion (some (.text criterion.id))).under
          (Text.lit "id"))).ap
        ((nonEmpty message (some (.text criterion.titre))).under (Text.lit "titre"))).ap
        ((listOf message (stepSchema message) (some (.list (criterion.etapes.map Step.toData)))).under
          (Text.lit "etapes"))) [] := rfl
  rw [shape, Decoded.butRefuse_eq_ok]
  simp only [Decoded.ap_eq_ok, Decoded.under_eq_ok, idText_eq_ok, nonEmpty_eq_ok, and_true,
    listOf_map_eq_ok message fun step _ _ read => (stepSchema_eq_ok.mp read).1, stepSchema_eq_ok,
    true_and]
  constructor
  · rintro ⟨g, etapes, ⟨g', titre, ⟨g'', id, made, ⟨rfl, matched⟩, rfl⟩, ⟨rfl, some⟩, rfl⟩,
      ⟨rfl, all⟩, rfl⟩
    cases made
    exact ⟨rfl, matched, some, all⟩
  · rintro ⟨rfl, matched, some, all⟩
    exact ⟨_, _, ⟨_, _, ⟨_, _, rfl, ⟨rfl, matched⟩, rfl⟩, ⟨rfl, some⟩, rfl⟩, ⟨rfl, all⟩, rfl⟩

/-- The schema on a feature written as data. -/
theorem featureSchema_shape (feature : Feature) : featureSchema message (some feature.toData) =
    Decoded.butRefuse
      ((((((((((((Decoded.ap (.ok Feature.mk)
        ((idText message "^F-\\d\x7b3,\x7d$" Patterns.feature (some (.text feature.id))).under
          (Text.lit "id"))).ap
        ((nonEmpty message (some (.text feature.titre))).under (Text.lit "titre"))).ap
        ((oneOf message Statut.names (some (.text feature.statut.name))).under (Text.lit "statut"))).ap
        ((oneOf message Priorite.names (some (.text feature.priorite.name))).under
          (Text.lit "priorite"))).ap
        ((links message "^T-[a-z0-9][a-z0-9-]*$" Patterns.table
          (some (.list (feature.tables.map Data.text)))).under (Text.lit "tables"))).ap
        ((links message "^E-[a-z0-9][a-z0-9-]*$" Patterns.endpoint
          (some (.list (feature.endpoints.map Data.text)))).under (Text.lit "endpoints"))).ap
        ((links message "^S-[a-z0-9][a-z0-9-]*$" Patterns.screen
          (some (.list (feature.ecrans.map Data.text)))).under (Text.lit "ecrans"))).ap
        ((links message "^RL-[a-z0-9][a-z0-9-]*$" Patterns.role
          (some (.list (feature.roles.map Data.text)))).under (Text.lit "roles"))).ap
        ((links message "^R-\\d\x7b3,\x7d$" Patterns.rule
          (some (.list (feature.regles.map Data.text)))).under (Text.lit "regles"))).ap
        ((links message "^NFR-[a-z0-9][a-z0-9-]*$" Patterns.nfr
          (some (.list (feature.nfr.map Data.text)))).under (Text.lit "nfr"))).ap
        ((textWith message (fun _ => []) (some (.text feature.description))).under
          (Text.lit "description"))).ap
        ((listOf message (criterionSchema message)
          (some (.list (feature.criteres.map Criterion.toData)))).under (Text.lit "criteres"))) [] :=
  rfl

/-- **A feature written as data is accepted when it is valid, and decoded to itself.** -/
theorem featureSchema_toData {feature other : Feature} :
    featureSchema message (some feature.toData) = .ok other ↔ other = feature ∧ feature.Valid := by
  rw [featureSchema_shape, Decoded.butRefuse_eq_ok]
  simp only [Decoded.ap_eq_ok, Decoded.under_eq_ok, idText_eq_ok, nonEmpty_eq_ok, statut_eq_ok,
    priorite_eq_ok, links_eq_ok, textWith_text_eq_ok, and_true,
    listOf_map_eq_ok message fun criterion _ _ read => (criterionSchema_eq_ok.mp read).1,
    criterionSchema_eq_ok, true_and]
  constructor
  · rintro ⟨_, _, ⟨_, _, ⟨_, _, ⟨_, _, ⟨_, _, ⟨_, _, ⟨_, _, ⟨_, _, ⟨_, _, ⟨_, _, ⟨_, _, ⟨_, _, made,
      ⟨rfl, id⟩, rfl⟩, ⟨rfl, titre⟩, rfl⟩, rfl, rfl⟩, rfl, rfl⟩, ⟨rfl, tables⟩, rfl⟩,
      ⟨rfl, endpoints⟩, rfl⟩, ⟨rfl, ecrans⟩, rfl⟩, ⟨rfl, roles⟩, rfl⟩, ⟨rfl, regles⟩, rfl⟩,
      ⟨rfl, nfr⟩, rfl⟩, rfl, rfl⟩, ⟨rfl, criteres⟩, rfl⟩
    cases made
    exact ⟨rfl, id, titre, tables, endpoints, ecrans, roles, regles, nfr, criteres⟩
  · rintro ⟨rfl, valid⟩
    exact ⟨_, _, ⟨_, _, ⟨_, _, ⟨_, _, ⟨_, _, ⟨_, _, ⟨_, _, ⟨_, _, ⟨_, _, ⟨_, _, ⟨_, _, ⟨_, _, rfl,
      ⟨rfl, valid.id⟩, rfl⟩, ⟨rfl, valid.titre⟩, rfl⟩, rfl, rfl⟩, rfl, rfl⟩, ⟨rfl, valid.tables⟩, rfl⟩,
      ⟨rfl, valid.endpoints⟩, rfl⟩, ⟨rfl, valid.ecrans⟩, rfl⟩, ⟨rfl, valid.roles⟩, rfl⟩,
      ⟨rfl, valid.regles⟩, rfl⟩, ⟨rfl, valid.nfr⟩, rfl⟩, rfl, rfl⟩, ⟨rfl, valid.criteres⟩, rfl⟩

end Accepted

end Koklo.Schema
