import Koklo.Foundations.JsonText
import Koklo.Schema.Entities
import Koklo.Schema.FeatureMarkdown
import Koklo.Schema.SpecIssues

/-!
# Reading the files of a specification

The kind of a file is told by its path, and its text is read by the schema of that kind. Files are
read in the order of their paths. An entity that cannot be read is left out and reported; the first
one to bear an identifier keeps it, and the others are reported.
-/

set_option autoImplicit false

namespace Koklo.Schema

open Koklo.Foundations

/-- A file of a specification. -/
structure SpecFile where
  path : Text
  content : Text
deriving DecidableEq

/-- What reads texts: the messages of the schemas, the YAML package, and the reason that `JSON.parse`
gives for refusing a text. -/
structure Readers where
  message : Defect → Text
  yaml : YamlPackage
  jsonReason : Text → Text

/-! ## Kinds -/

/-- The kinds of files. -/
inductive Kind where
  | project | feature | table | relations | endpoint | screen | test | roles | rule
deriving DecidableEq

/-- A name in a folder: its start, any units but a slash, and its end. -/
def fileIn (start stop : String) : Pattern CodeUnit :=
  .seq (.text (Text.lit start)) (.seq (.many (.unit fun u => u != 0x2F)) (.text (Text.lit stop)))

/-- The kind of a file, from its path. -/
def kindOf (path : Text) : Option Kind :=
  if path = Text.lit "koklo.project.yaml" then some .project
  else if path = Text.lit "data/relations.yaml" then some .relations
  else if path = Text.lit "domain/roles.yaml" then some .roles
  else if (fileIn "features/F-" ".md").accepts path then some .feature
  else if (fileIn "data/tables/T-" ".yaml").accepts path then some .table
  else if (fileIn "api/endpoints/E-" ".yaml").accepts path then some .endpoint
  else if (fileIn "design/screens/S-" ".json").accepts path then some .screen
  else if (fileIn "domain/rules/R-" ".md").accepts path then some .rule
  else if (fileIn "tests/scenarios/" ".yaml").accepts path then some .test
  else none

/-- The field that identifies the entity of a file. -/
def idKey (kind : Kind) : Text := if kind = .test then Text.lit "feature" else Text.lit "id"

/-- `IDENTIFIED`. -/
def Kind.identified : Kind → Bool
  | feature | table | endpoint | screen | rule => true
  | project | relations | test | roles => false

/-- The name of a file without its folders and its extension. -/
def baseName (path : Text) : Text :=
  let name := (path.splitOn 0x2F).getLastD []
  let rest := name.rdropWhile (· ≠ 0x2E)
  if rest.getLast? = some 0x2E ∧ rest.length < name.length then rest.dropLast else name

/-- A file is named after its identifier, maybe with a suffix. -/
def idMatchesFile (path id : Text) : Bool :=
  decide (baseName path = id) || (id ++ Text.lit "-").isPrefixOf (baseName path)

/-! ## Entities -/

/-- What a file is read as. -/
inductive Entity where
  | project (value : ProjectManifest)
  | feature (value : Feature)
  | table (value : Table)
  | relations (value : RelationsFile)
  | endpoint (value : Endpoint)
  | screen (value : Screen)
  | test (value : TestScenario)
  | roles (value : RolesFile)
  | rule (value : BusinessRule)

/-- A value, with the path of its file. -/
structure Parsed (α : Type) where
  path : Text
  value : α

/-- A specification, file by file. -/
structure ParsedSpec where
  project : Option (Parsed ProjectManifest) := none
  features : List (Parsed Feature) := []
  tables : List (Parsed Table) := []
  relations : List (Parsed RelationsFile) := []
  endpoints : List (Parsed Endpoint) := []
  screens : List (Parsed Screen) := []
  tests : List (Parsed TestScenario) := []
  roles : List (Parsed RolesFile) := []
  rules : List (Parsed BusinessRule) := []

/-- Puts an entity in the list of its kind. -/
def place (spec : ParsedSpec) (path : Text) : Entity → ParsedSpec
  | .project value => { spec with project := some ⟨path, value⟩ }
  | .feature value => { spec with features := spec.features ++ [⟨path, value⟩] }
  | .table value => { spec with tables := spec.tables ++ [⟨path, value⟩] }
  | .relations value => { spec with relations := spec.relations ++ [⟨path, value⟩] }
  | .endpoint value => { spec with endpoints := spec.endpoints ++ [⟨path, value⟩] }
  | .screen value => { spec with screens := spec.screens ++ [⟨path, value⟩] }
  | .test value => { spec with tests := spec.tests ++ [⟨path, value⟩] }
  | .roles value => { spec with roles := spec.roles ++ [⟨path, value⟩] }
  | .rule value => { spec with rules := spec.rules ++ [⟨path, value⟩] }

/-! ## One file -/

/-- The identifier of data that was not validated, under a key. -/
def rawIdAt (data : Data) (key : Text) : Option Text :=
  match data with
  | .record fields =>
    match OrderedMap.get fields key with
    | some (.text id) => some id
    | _ => none
  | _ => none

/-- `version === 1`. -/
def isVersionOne : Data → Bool
  | .number (.finite value) => value == 1
  | _ => false

/-- The issue of a file of another version of the format. -/
def checkVersion (path : Text) (data : Data) : Option Issue :=
  match data with
  | .record fields =>
    match OrderedMap.get fields (Text.lit "spec_version") with
    | none => none
    | some version =>
      if isVersionOne version then none
      else some (structIssue .unsupportedSpecVersion path
        (Text.lit "Version de spec non prise en charge : " ++ Json.stringify version ++
          Text.lit " (seule la version 1 l'est).") (Text.lit "/spec_version"))
  | _ => none

/-- The identifiers of a list that were seen before, from a position on. -/
def duplicatesFrom (key path : Text) (seen : List Text) : ℕ → List Text → List Issue
  | _, [] => []
  | index, id :: ids =>
    (if id ∈ seen then
      [structIssue .duplicateId path
        (Text.lit "L'identifiant " ++ id ++ Text.lit " est défini plusieurs fois dans " ++ path ++
          Text.lit ".")
        (Text.lit "/" ++ key ++ Text.lit "/" ++ Text.ofNat index ++ Text.lit "/id") (some id)]
    else []) ++ duplicatesFrom key path (id :: seen) (index + 1) ids

/-- Identifiers of roles and of permissions that are repeated. -/
def duplicateIdIssues (path : Text) (file : RolesFile) : List Issue :=
  duplicatesFrom (Text.lit "roles") path [] 0 (file.roles.map Role.id) ++
    duplicatesFrom (Text.lit "permissions") path [] 0 (file.permissions.map Permission.id)

/-- `/^[ÉE]nonc[ée]$/`. -/
def statementPattern : Pattern CodeUnit :=
  .seq (.unit fun u => u == 0xC9 || u == 0x45) (.seq (.text (Text.lit "nonc"))
    (.unit fun u => u == 0xE9 || u == 0x65))

/-- `/^Exemples$/`. -/
def examplesPattern : Pattern CodeUnit := .text (Text.lit "Exemples")

/-- `BULLET`: `/^[-*]\s+(.+?)\s*$/`. -/
def bulletRegex : Regex CodeUnit :=
  .seq (.unit fun u => u == 0x2D || u == 0x2A) (.seq (.greedy 1 Text.isSpace)
    (.seq (.capture (.lazy 1 anyUnit)) (.greedy 0 Text.isSpace)))

/-- The examples of a rule, and what is wrong with their lines. -/
structure Examples where
  value : List Text
  errors : List Text

/-- One example for each bullet; any other line that is not empty is an error. -/
def parseExamples (lines : List Text) : Examples :=
  (lines.filter (Text.trim · ≠ [])).foldl (fun out line =>
    match bulletRegex.exec line with
    | some [text] => { out with value := out.value ++ [text] }
    | _ => { out with
        errors := out.errors ++ [Text.lit "Ligne d'exemple sans puce : " ++ guillemets (Text.trim line)] })
    ⟨[], []⟩

/-- The body of a rule, and the issues that it raises. -/
structure RuleBody where
  issues : List Issue
  enonce : Text
  exemples : List Text

/-- The statement and the examples of a rule. -/
def ruleBody (path : Text) (id : Option Text) (body : List Text) : RuleBody :=
  let statement := sectionLines body statementPattern
  let examples := parseExamples ((sectionLines body examplesPattern).getD [])
  { issues :=
      (if statement.isNone then
        [structIssue .markdownSyntax path (Text.lit "Section « ## Énoncé » absente.")
          (Text.lit "/enonce") id] else []) ++
      examples.errors.map fun error =>
        structIssue .markdownSyntax path error (Text.lit "/exemples") id
    enonce := Text.trim (Text.joinLines (statement.getD []))
    exemples := examples.value }

section

variable (readers : Readers)

/-- A business rule: a front matter, a statement and examples. -/
def parseRuleMarkdown (path content : Text) : Except (List Issue) BusinessRule :=
  match tooLarge path content with
  | some big => .error [big]
  | none =>
    match splitFrontMatter content with
    | none => .error [structIssue .frontMatterMissing path
        (Text.lit "Front matter YAML absent ou non terminé (lignes `---` attendues).")]
    | some parts =>
      match loadYaml readers.yaml path parts.front with
      | .error issues => .error issues
      | .ok data =>
        let id := rawId data
        let body := ruleBody path id parts.body
        if body.issues ≠ [] then .error body.issues
        else
          parseWithSchema (businessRuleSchema readers.message) path
            (.record (OrderedMap.set (OrderedMap.set (spread data) (Text.lit "enonce")
              (.text body.enonce)) (Text.lit "exemples") (.list (body.exemples.map Data.text)))) id

/-- The value of a file of JSON. -/
def loadJson (path content : Text) : Except (List Issue) Data :=
  match tooLarge path content with
  | some big => .error [big]
  | none =>
    match Json.parse content with
    | some data => .ok data
    | none => .error [structIssue .jsonSyntax path
        (Text.lit "JSON invalide : " ++ readers.jsonReason content)]

/-- The value of a schema, as an entity. -/
def readAs {α : Type} (schema : Decoder α) (entity : α → Entity) (path : Text) (data : Data)
    (id : Option Text) : Except (List Issue) Entity :=
  (parseWithSchema schema path data id).map entity

/-- The entity of a file that is neither a feature nor a rule. -/
def readData (kind : Kind) (path : Text) (data : Data) : Except (List Issue) Entity :=
  let id := rawIdAt data (idKey kind)
  match kind with
  | .project =>
    match checkVersion path data with
    | some issue => .error [issue]
    | none => readAs (projectManifestSchema readers.message) .project path data id
  | .table => readAs (tableSchema readers.message) .table path data id
  | .relations => readAs (relationsFileSchema readers.message) .relations path data id
  | .endpoint => readAs (endpointSchema readers.message) .endpoint path data id
  | .screen => readAs (screenSchema readers.message) .screen path data id
  | .test => readAs (testScenarioSchema readers.message) .test path data id
  | .roles =>
    match parseWithSchema (rolesFileSchema readers.message) path data id with
    | .error issues => .error issues
    | .ok file =>
      let duplicates := duplicateIdIssues path file
      if duplicates ≠ [] then .error duplicates else .ok (.roles file)
  | .feature | .rule => .error []

/-- The entity of a file, with its identifier. -/
def parseOne (file : SpecFile) (kind : Kind) : Except (List Issue) (Entity × Option Text) :=
  match kind with
  | .feature =>
    (parseFeatureMarkdown readers.message readers.yaml file.path file.content).map fun value =>
      (.feature value, some value.id)
  | .rule =>
    (parseRuleMarkdown readers file.path file.content).map fun value => (.rule value, some value.id)
  | kind =>
    let loaded :=
      if kind = .screen then loadJson readers file.path file.content
      else loadYaml readers.yaml file.path file.content
    match loaded with
    | .error issues => .error issues
    | .ok data =>
      (readData readers kind file.path data).map fun entity =>
        (entity, rawIdAt data (idKey kind))

/-! ## All files -/

/-- The path without its extension. -/
def stem (path : Text) : Text :=
  let rest := path.rdropWhile fun u => u ≠ 0x2E ∧ u ≠ 0x2F
  if rest.getLast? = some 0x2E then rest.dropLast else path

/-- By path without extension, then by path. -/
def byPath (a b : SpecFile) : ℤ :=
  compareThen (compareText (stem a.path) (stem b.path)) (compareText a.path b.path)

/-- What the files read so far give. -/
structure ParseState where
  spec : ParsedSpec
  issues : List Issue
  claimed : OrderedMap (Kind × Text) Text

/-- One more file is read. -/
def parseFile (state : ParseState) (file : SpecFile) : ParseState :=
  match kindOf file.path with
  | none => state
  | some kind =>
    match parseOne readers file kind with
    | .error issues => { state with issues := state.issues ++ issues }
    | .ok (entity, known) =>
      match if kind.identified then known else none with
      | none => { state with spec := place state.spec file.path entity }
      | some id =>
        if idMatchesFile file.path id = false then
          { state with
            issues := state.issues ++ [structIssue .idMismatch file.path
              (Text.lit "L'identifiant " ++ id ++
                Text.lit " ne correspond pas au nom du fichier " ++ file.path ++ Text.lit ".")
              (Text.lit "/id") (some id)] }
        else
          match state.claimed.get (kind, id) with
          | some first =>
            { state with
              issues := state.issues ++ [structIssue .duplicateId file.path
                (Text.lit "L'identifiant " ++ id ++ Text.lit " est déjà défini par " ++ first ++
                  Text.lit ".") (Text.lit "/id") (some id)] }
          | none =>
            { spec := place state.spec file.path entity
              issues := state.issues
              claimed := state.claimed.set (kind, id) file.path }

/-- The files in the order of their paths. -/
def orderedFiles (files : List SpecFile) : List SpecFile := sortWith byPath files

/-- The files are read one after the other. -/
def parseOrdered (files : List SpecFile) : ParseState := files.foldl (parseFile readers) ⟨{}, [], []⟩

/-- The specification of files, and its issues. -/
def parseSpecFiles (files : List SpecFile) : ParsedSpec × List SpecIssue :=
  let state := parseOrdered readers (orderedFiles files)
  (state.spec, sortIssues (state.issues.map Issue.toSpecIssue))

end

end Koklo.Schema
