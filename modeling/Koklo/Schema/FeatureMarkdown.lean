import Koklo.Foundations.Fallible
import Koklo.Schema.Markdown
import Koklo.Schema.Yaml

/-!
# Writing and reading a feature file

The emitter writes a feature as canonical Markdown: a front matter with its keys in a
fixed order, the description and the criteria. It refuses a feature that is not valid or
that its text could not hold. The parser reads a file back, and never throws.
-/

set_option autoImplicit false

namespace Koklo.Schema

open Koklo.Foundations

/-! ## Pointers -/

/-- A segment of a JSON pointer, escaped. -/
def escapePointerSegment (segment : Text) : Text :=
  segment.flatMap fun u =>
    if u = 0x7E then Text.lit "~0" else if u = 0x2F then Text.lit "~1" else [u]

/-- The pointer of a path. -/
def toPointer (path : List Text) : Text :=
  path.flatMap fun segment => Text.lit "/" ++ escapePointerSegment segment

/-! ## The emitter -/

/-- `EmitFeatureError`: `path` is the pointer of the refused value. -/
structure EmitFeatureError where
  message : Text
  path : Text
deriving DecidableEq

def emitFeatureError (message path : Text) : EmitFeatureError :=
  ⟨message ++ Text.lit " (" ++ (if path = [] then Text.lit "racine" else path) ++ Text.lit ")", path⟩

/-- The text has no line break. -/
def assertSingleLine (value path : Text) : Except EmitFeatureError Unit :=
  if 0x0D ∈ value ∨ Text.newline ∈ value ∨ 0x00 ∈ value then
    .error (emitFeatureError (Text.lit "saut de ligne ou caractère NUL interdit") path)
  else .ok ()

/-- The text is one line, without blanks around it. -/
def assertTrimmedLine (value path : Text) : Except EmitFeatureError Unit := do
  assertSingleLine value path
  if value ≠ Text.trim value then
    .error (emitFeatureError (Text.lit "espace en début ou en fin de texte interdit") path)
  else .ok ()

/-- A line that would end the description: `## …`, `##` or `---`. -/
def isStructural (line : Text) : Bool := isSection line || line = Text.lit "##" || isFence line

/-- The description can be read back. -/
def assertDescription (description : Text) : Except EmitFeatureError Unit :=
  if 0x0D ∈ description ∨ 0x00 ∈ description then
    .error (emitFeatureError (Text.lit "retour chariot ou caractère NUL interdit")
      (Text.lit "/description"))
  else if (Text.lines description).any isStructural then
    .error (emitFeatureError
      (Text.lit "ligne structurelle (`## ...` ou `---`) interdite dans la description")
      (Text.lit "/description"))
  else .ok ()

/-- The pointer of a criterion. -/
def criterionPointer (index : ℕ) : Text := Text.lit "/criteres/" ++ Text.ofNat index

/-- The steps can be read back. -/
def assertSteps (pointer : Text) : ℕ → List Step → Except EmitFeatureError Unit
  | _, [] => .ok ()
  | index, step :: steps => do
    assertTrimmedLine step.texte
      (pointer ++ Text.lit "/etapes/" ++ Text.ofNat index ++ Text.lit "/texte")
    assertSteps pointer (index + 1) steps

/-- The criteria can be read back, and are all distinct. -/
def assertCriteriaFrom (seen : List Text) : ℕ → List Criterion → Except EmitFeatureError Unit
  | _, [] => .ok ()
  | index, criterion :: criteria =>
    if criterion.id ∈ seen then
      .error (emitFeatureError (Text.lit "identifiant de critère dupliqué")
        (criterionPointer index ++ Text.lit "/id"))
    else do
      assertTrimmedLine criterion.titre (criterionPointer index ++ Text.lit "/titre")
      assertSteps (criterionPointer index) 0 criterion.etapes
      assertCriteriaFrom (criterion.id :: seen) (index + 1) criteria

def assertCriteria (criteres : List Criterion) : Except EmitFeatureError Unit :=
  assertCriteriaFrom [] 0 criteres

/-- A YAML scalar on one line, quoted when that is needed. -/
def yamlScalar (yaml : YamlPackage) (value : Text) : Text :=
  let text := Text.trimEnd (yaml.stringify value)
  if Text.newline ∈ text then Text.jsonString value else text

/-- The line of a step. -/
def stepLine (step : Step) : Text :=
  Text.lit "- **" ++ step.type.label ++ Text.lit "** " ++ step.texte

/-- The line that opens a criterion. -/
def headingLine (criterion : Criterion) : Text :=
  Text.lit "### " ++ criterion.id ++ Text.lit " — " ++ criterion.titre

/-- The lines of a criterion. -/
def criterionLines (criterion : Criterion) : List Text :=
  [] :: headingLine criterion :: criterion.etapes.map stepLine

/-- A list in flow style. -/
def flowList (ids : List Text) : Text :=
  Text.lit "[" ++ (Text.lit ", ").intercalate ids ++ Text.lit "]"

/-- The keys of the front matter, each with its text. -/
def frontTexts (yaml : YamlPackage) (feature : Feature) : List (Text × Text) := [
  (Text.lit "id", feature.id),
  (Text.lit "titre", yamlScalar yaml feature.titre),
  (Text.lit "statut", feature.statut.name),
  (Text.lit "priorite", feature.priorite.name),
  (Text.lit "tables", flowList feature.tables),
  (Text.lit "endpoints", flowList feature.endpoints),
  (Text.lit "ecrans", flowList feature.ecrans),
  (Text.lit "roles", flowList feature.roles),
  (Text.lit "regles", flowList feature.regles),
  (Text.lit "nfr", flowList feature.nfr)]

/-- The pieces that the emitter joins; the description is one piece. -/
def emittedPieces (yaml : YamlPackage) (feature : Feature) (description : Text) : List Text :=
  Text.lit "---" :: (frontTexts yaml feature).map (fun entry => entryLine entry.1 entry.2) ++
    [Text.lit "---", [], Text.lit "## " ++ descriptionTitle] ++
      (if description = [] then [] else [description]) ++
        [[], Text.lit "## " ++ criteriaTitle] ++ feature.criteres.flatMap criterionLines

/-- The file of a feature, when it can be read back. -/
def emitFeatureMarkdown (message : Defect → Text) (yaml : YamlPackage) (feature : Feature) :
    Except EmitFeatureError Text :=
  match featureSchema message (some feature.toData) with
  | .error issues =>
    .error (match issues with
      | issue :: _ => emitFeatureError issue.message (toPointer issue.path)
      | [] => emitFeatureError (Text.lit "feature invalide") [])
  | .ok value => do
    assertSingleLine value.titre (Text.lit "/titre")
    let description := Text.trim value.description
    assertDescription description
    assertCriteria value.criteres
    .ok (Text.joinLines (emittedPieces yaml value description) ++ [Text.newline])

/-! ## The parser -/

/-- The identifier of data that was not validated. -/
def rawId (data : Data) : Option Text :=
  match data with
  | .record fields =>
    match OrderedMap.get fields (Text.lit "id") with
    | some (.text id) => some id
    | _ => none
  | _ => none

/-- The fields that a spread takes from data: those of a record, or the items of a list and
the units of a text under their positions. -/
def spread : Data → List (Text × Data)
  | .record fields => fields
  | .list items => items.zipIdx.map fun (item, index) => (Text.ofNat index, item)
  | .text t => t.zipIdx.map fun (u, index) => (Text.ofNat index, .text [u])
  | .null | .bool _ | .number _ => []

/-- The body of a file, and the issues that it raises. -/
structure BodyParse where
  issues : List Issue
  description : Text
  criteres : List Criterion

/-- What is read of the body, and its issues. -/
def bodyIssues (path : Text) (id : Option Text) (body : List Text) : BodyParse :=
  let description := sectionLines body descriptionPattern
  let criteriaLines := sectionLines body criteriaPattern
  let issue := fun pointer message => structIssue .markdownSyntax path message pointer id
  let criteria := parseCriteria (criteriaLines.getD [])
  { issues :=
      (if description.isNone then
        [issue (Text.lit "/description") (Text.lit "Section « ## Description » absente.")] else []) ++
      (if criteriaLines.isNone then
        [issue (Text.lit "/criteres") (Text.lit "Section « ## Critères d'acceptation » absente.")]
        else []) ++
      criteria.errors.map fun error => issue error.pointer error.message
    description := Text.trim (Text.joinLines (description.getD []))
    criteres := criteria.criteria }

/-- One issue for each issue of the schema. -/
def parseWithSchema {α : Type} (schema : Decoder α) (path : Text) (data : Data)
    (entityId : Option Text) : Except (List Issue) α :=
  match schema (some data) with
  | .ok value => .ok value
  | .error issues => .error (issues.map fun issue =>
      let pointer := toPointer issue.path
      structIssue .schemaViolation path (Text.lit "Violation du schéma" ++
        (if pointer = [] then [] else Text.lit " en " ++ pointer) ++ Text.lit " : " ++
          issue.message ++ Text.lit ".") pointer entityId)

/-- The feature of a file, or its issues. -/
def parseFeatureMarkdown (message : Defect → Text) (yaml : YamlPackage) (path content : Text) :
    Except (List Issue) Feature :=
  match tooLarge path content with
  | some big => .error [big]
  | none =>
    match splitFrontMatter content with
    | none => .error [structIssue .frontMatterMissing path
        (Text.lit "Front matter YAML absent ou non terminé (lignes `---` attendues).")]
    | some parts =>
      match loadYaml yaml path parts.front with
      | .error issues => .error issues
      | .ok data =>
        let id := rawId data
        let body := bodyIssues path id parts.body
        if body.issues ≠ [] then .error body.issues
        else
          parseWithSchema (featureSchema message) path
            (.record (withBody (spread data) body.description body.criteres)) id

end Koklo.Schema
