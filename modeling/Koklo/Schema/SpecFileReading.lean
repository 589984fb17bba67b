import Koklo.Schema.RoundTrip
import Koklo.Schema.SpecFiles

/-!
# What reading one file gives

Reading a file gives an entity of its kind, which bears the identifier that the file claims
(`parseOne_eq_ok`), or issues that name the file (`explains_parseOne`).
-/

set_option autoImplicit false

namespace Koklo.Schema

open Koklo.Foundations

/-! ## Entities by kind -/

/-- The kind of the file of an entity. -/
def Entity.kind : Entity → Kind
  | project _ => .project
  | feature _ => .feature
  | table _ => .table
  | relations _ => .relations
  | endpoint _ => .endpoint
  | screen _ => .screen
  | test _ => .test
  | roles _ => .roles
  | rule _ => .rule

/-- The identifier of an entity among those of its kind. -/
def Entity.id? : Entity → Option Text
  | feature value => some value.id
  | table value => some value.id
  | endpoint value => some value.id
  | screen value => some value.id
  | rule value => some value.id
  | project _ | relations _ | test _ | roles _ => none

/-- The entities of a kind, with the paths of their files. -/
def ParsedSpec.entries (spec : ParsedSpec) : Kind → List (Text × Entity)
  | .project => spec.project.toList.map fun parsed => (parsed.path, .project parsed.value)
  | .feature => spec.features.map fun parsed => (parsed.path, .feature parsed.value)
  | .table => spec.tables.map fun parsed => (parsed.path, .table parsed.value)
  | .relations => spec.relations.map fun parsed => (parsed.path, .relations parsed.value)
  | .endpoint => spec.endpoints.map fun parsed => (parsed.path, .endpoint parsed.value)
  | .screen => spec.screens.map fun parsed => (parsed.path, .screen parsed.value)
  | .test => spec.tests.map fun parsed => (parsed.path, .test parsed.value)
  | .roles => spec.roles.map fun parsed => (parsed.path, .roles parsed.value)
  | .rule => spec.rules.map fun parsed => (parsed.path, .rule parsed.value)

/-- The identifiers of the entities of a kind. -/
def ParsedSpec.ids (spec : ParsedSpec) (kind : Kind) : List Text :=
  (spec.entries kind).filterMap fun entry => entry.2.id?

theorem ids_feature (spec : ParsedSpec) :
    spec.ids .feature = spec.features.map fun f => f.value.id := by
  rw [ParsedSpec.ids, ParsedSpec.entries, List.filterMap_map, ← List.filterMap_eq_map]
  rfl

theorem ids_table (spec : ParsedSpec) : spec.ids .table = spec.tables.map fun t => t.value.id := by
  rw [ParsedSpec.ids, ParsedSpec.entries, List.filterMap_map, ← List.filterMap_eq_map]
  rfl

/-- An entity is placed last among those of its kind; there is one project. -/
theorem entries_place (spec : ParsedSpec) (path : Text) (entity : Entity) (kind : Kind) :
    (place spec path entity).entries kind =
      if kind = entity.kind then
        (if kind = .project then [] else spec.entries kind) ++ [(path, entity)]
      else spec.entries kind := by
  cases entity <;> cases kind <;> simp [place, ParsedSpec.entries, Entity.kind]

section

variable {readers : Readers}

/-! ## What is refused is explained -/

/-- Issues that name the file. -/
def Explains (path : Text) (issues : List Issue) : Prop :=
  issues ≠ [] ∧ ∀ issue ∈ issues, issue.path = path

theorem explains_singleton {path : Text} {issue : Issue} (same : issue.path = path) :
    Explains path [issue] := ⟨List.cons_ne_nil _ _, List.forall_mem_singleton.mpr same⟩

theorem explains_tooLarge {path content : Text} {issue : Issue}
    (large : tooLarge path content = some issue) : Explains path [issue] := by
  rw [tooLarge] at large
  split at large
  · cases large
  · cases large
    exact explains_singleton rfl

theorem explains_loadYaml {yaml : YamlPackage} {path content : Text} {issues : List Issue}
    (refused : loadYaml yaml path content = .error issues) : Explains path issues := by
  rw [loadYaml] at refused
  split at refused
  · rename_i issue large
    cases refused
    exact explains_tooLarge large
  · dsimp only at refused
    split at refused
    · cases refused
      apply explains_singleton
      rw [fromError]
      split
      · rfl
      · rfl
      · rfl
    · split at refused
      · cases refused
        exact explains_singleton rfl
      · cases refused

theorem explains_loadJson {path content : Text} {issues : List Issue}
    (refused : loadJson readers path content = .error issues) : Explains path issues := by
  rw [loadJson] at refused
  split at refused
  · rename_i issue large
    cases refused
    exact explains_tooLarge large
  · split at refused
    · cases refused
    · cases refused
      exact explains_singleton rfl

theorem explains_parseWithSchema {α : Type} {schema : Decoder α} (explained : schema.Explained)
    {path : Text} {data : Data} {id : Option Text} {issues : List Issue}
    (refused : parseWithSchema schema path data id = .error issues) : Explains path issues := by
  rw [parseWithSchema] at refused
  split at refused
  · cases refused
  · rename_i known none
    cases refused
    constructor
    · intro empty
      exact explained _ known none (List.map_eq_nil_iff.mp empty)
    · intro issue member
      obtain ⟨_, _, rfl⟩ := List.mem_map.mp member
      rfl

theorem explains_parseFeatureMarkdown {path content : Text} {issues : List Issue}
    (refused : parseFeatureMarkdown readers.message readers.yaml path content = .error issues) :
    Explains path issues := by
  rw [parseFeatureMarkdown] at refused
  split at refused
  · rename_i issue large
    cases refused
    exact explains_tooLarge large
  split at refused
  · cases refused
    exact explains_singleton rfl
  split at refused
  · rename_i known front
    cases refused
    exact explains_loadYaml front
  · rename_i parts _ data front
    dsimp only at refused
    split at refused
    · rename_i some
      cases refused
      refine ⟨some, fun issue member => ?_⟩
      simp only [bodyIssues, List.mem_append, List.mem_map] at member
      rcases member with (described | criteria) | ⟨error, _, rfl⟩
      · split at described
        · rw [List.mem_singleton.mp described]
          rfl
        · cases described
      · split at criteria
        · rw [List.mem_singleton.mp criteria]
          rfl
        · cases criteria
      · rfl
    · exact explains_parseWithSchema featureSchema_explained refused

theorem explains_parseRuleMarkdown {path content : Text} {issues : List Issue}
    (refused : parseRuleMarkdown readers path content = .error issues) : Explains path issues := by
  rw [parseRuleMarkdown] at refused
  split at refused
  · rename_i issue large
    cases refused
    exact explains_tooLarge large
  split at refused
  · cases refused
    exact explains_singleton rfl
  split at refused
  · rename_i known front
    cases refused
    exact explains_loadYaml front
  · dsimp only at refused
    split at refused
    · rename_i some
      cases refused
      refine ⟨some, fun issue member => ?_⟩
      simp only [ruleBody] at member
      rcases List.mem_append.mp member with stated | example_
      · split at stated
        · rw [List.mem_singleton.mp stated]
          rfl
        · cases stated
      · obtain ⟨_, _, rfl⟩ := List.mem_map.mp example_
        rfl
    · exact explains_parseWithSchema businessRuleSchema_explained refused

theorem explains_duplicatesFrom {key path : Text} {seen : List Text} {index : ℕ} {ids : List Text} :
    ∀ issue ∈ duplicatesFrom key path seen index ids, issue.path = path := by
  induction ids generalizing seen index with
  | nil => exact List.forall_mem_nil _
  | cons id ids ih =>
    intro issue member
    rw [duplicatesFrom, List.mem_append] at member
    rcases member with first | later
    · split at first
      · rw [List.mem_singleton.mp first]
        rfl
      · cases first
    · exact ih issue later

/-- A refusal of a schema, for an entity. -/
theorem explains_readAs {α : Type} {schema : Decoder α} (explained : schema.Explained)
    {entity : α → Entity} {path : Text} {data : Data} {id : Option Text} {issues : List Issue}
    (refused : readAs schema entity path data id = .error issues) : Explains path issues := by
  rw [readAs] at refused
  cases read : parseWithSchema schema path data id with
  | ok value =>
    rw [read] at refused
    cases refused
  | error known =>
    rw [read] at refused
    cases refused
    exact explains_parseWithSchema explained read

theorem checkVersion_path {path : Text} {data : Data} {issue : Issue}
    (refused : checkVersion path data = some issue) : issue.path = path := by
  cases data with
  | record fields =>
    rw [checkVersion] at refused
    split at refused
    · cases refused
    · split at refused
      · cases refused
      · cases refused
        rfl
  | null => cases refused
  | bool value => cases refused
  | number value => cases refused
  | text value => cases refused
  | list items => cases refused

theorem explains_readData {kind : Kind} (other : kind ≠ .feature) (other' : kind ≠ .rule)
    {path : Text} {data : Data} {issues : List Issue}
    (refused : readData readers kind path data = .error issues) : Explains path issues := by
  cases kind with
  | feature => exact absurd rfl other
  | rule => exact absurd rfl other'
  | project =>
    simp only [readData] at refused
    split at refused
    · rename_i issue version
      cases refused
      apply explains_singleton
      exact checkVersion_path version
    · exact explains_readAs projectManifestSchema_explained refused
  | table => exact explains_readAs tableSchema_explained refused
  | relations => exact explains_readAs relationsFileSchema_explained refused
  | endpoint => exact explains_readAs endpointSchema_explained refused
  | screen => exact explains_readAs screenSchema_explained refused
  | test => exact explains_readAs testScenarioSchema_explained refused
  | roles =>
    simp only [readData] at refused
    split at refused
    · rename_i known read
      cases refused
      exact explains_parseWithSchema rolesFileSchema_explained read
    · split at refused
      · rename_i some
        cases refused
        refine ⟨some, fun issue member => ?_⟩
        rcases List.mem_append.mp member with roles | permissions
        · exact explains_duplicatesFrom issue roles
        · exact explains_duplicatesFrom issue permissions
      · cases refused

/-- The data of a file that is neither a feature nor a rule. -/
def loadData (readers : Readers) (kind : Kind) (file : SpecFile) : Except (List Issue) Data :=
  if kind = .screen then loadJson readers file.path file.content
  else loadYaml readers.yaml file.path file.content

theorem parseOne_data {file : SpecFile} {kind : Kind} (other : kind ≠ .feature)
    (other' : kind ≠ .rule) : parseOne readers file kind =
      match loadData readers kind file with
      | .error issues => .error issues
      | .ok data => (readData readers kind file.path data).map fun entity =>
          (entity, rawIdAt data (idKey kind)) := by
  cases kind with
  | feature => exact absurd rfl other
  | rule => exact absurd rfl other'
  | project => rfl
  | table => rfl
  | relations => rfl
  | endpoint => rfl
  | screen => rfl
  | test => rfl
  | roles => rfl

theorem explains_parseOne {file : SpecFile} {kind : Kind} {issues : List Issue}
    (refused : parseOne readers file kind = .error issues) : Explains file.path issues := by
  by_cases feature : kind = .feature
  · subst feature
    exact explains_parseFeatureMarkdown (map_eq_error.mp refused)
  by_cases rule : kind = .rule
  · subst rule
    exact explains_parseRuleMarkdown (map_eq_error.mp refused)
  rw [parseOne_data feature rule] at refused
  cases loaded : loadData readers kind file with
  | error known =>
    rw [loaded] at refused
    cases refused
    rw [loadData] at loaded
    split at loaded
    · exact explains_loadJson loaded
    · exact explains_loadYaml loaded
  | ok data =>
    rw [loaded] at refused
    exact explains_readData feature rule (map_eq_error.mp refused)

/-! ## What is read -/

theorem readAs_eq_ok {α : Type} {schema : Decoder α} {entity : α → Entity} {path : Text}
    {data : Data} {id : Option Text} {read : Entity} :
    readAs schema entity path data id = .ok read ↔
      ∃ value, schema (some data) = .ok value ∧ entity value = read := by
  rw [readAs, map_eq_ok]
  simp only [parseWithSchema_eq_ok]

theorem rawIdAt_of_get {fields : List (Text × Data)} {key id : Text}
    (found : OrderedMap.get fields key = some (.text id)) :
    rawIdAt (.record fields) key = some id := by
  simp only [rawIdAt, found]

/-- A feature that is read passed its schema. -/
theorem schema_of_parseFeatureMarkdown {message : Defect → Text} {yaml : YamlPackage}
    {path content : Text} {feature : Feature}
    (read : parseFeatureMarkdown message yaml path content = .ok feature) :
    ∃ data, featureSchema message (some data) = .ok feature := by
  unfold parseFeatureMarkdown at read
  split at read
  · cases read
  split at read
  · cases read
  split at read
  · cases read
  · dsimp only at read
    split at read
    · cases read
    · exact ⟨_, parseWithSchema_eq_ok.mp read⟩

/-- An entity of data is of the kind of its file, and bears the identifier of the data. -/
theorem readData_eq_ok {kind : Kind} {path : Text} {data : Data} {entity : Entity}
    (read : readData readers kind path data = .ok entity) :
    entity.kind = kind ∧ (kind.identified = true → rawIdAt data (idKey kind) = entity.id? ∧
      entity.id?.isSome = true) := by
  cases kind with
  | project =>
    simp only [readData] at read
    split at read
    · cases read
    · obtain ⟨value, _, rfl⟩ := readAs_eq_ok.mp read
      exact ⟨rfl, nofun⟩
  | feature => cases read
  | rule => cases read
  | table =>
    obtain ⟨value, decoded, rfl⟩ := readAs_eq_ok.mp read
    obtain ⟨fields, same, found, _⟩ := tableSchema_eq_ok decoded
    cases same
    exact ⟨rfl, fun _ => ⟨rawIdAt_of_get found, rfl⟩⟩
  | relations =>
    obtain ⟨value, _, rfl⟩ := readAs_eq_ok.mp read
    exact ⟨rfl, nofun⟩
  | endpoint =>
    obtain ⟨value, decoded, rfl⟩ := readAs_eq_ok.mp read
    obtain ⟨fields, same, found, _⟩ := endpointSchema_eq_ok decoded
    cases same
    exact ⟨rfl, fun _ => ⟨rawIdAt_of_get found, rfl⟩⟩
  | screen =>
    obtain ⟨value, decoded, rfl⟩ := readAs_eq_ok.mp read
    obtain ⟨fields, same, found, _⟩ := screenSchema_eq_ok decoded
    cases same
    exact ⟨rfl, fun _ => ⟨rawIdAt_of_get found, rfl⟩⟩
  | test =>
    obtain ⟨value, _, rfl⟩ := readAs_eq_ok.mp read
    exact ⟨rfl, nofun⟩
  | roles =>
    simp only [readData] at read
    split at read
    · cases read
    · split at read
      · cases read
      · cases read
        exact ⟨rfl, nofun⟩

/-- **An entity that is read** is of the kind of its file, and bears the identifier that it claims. -/
theorem parseOne_eq_ok {file : SpecFile} {kind : Kind} {entity : Entity} {known : Option Text}
    (read : parseOne readers file kind = .ok (entity, known)) :
    entity.kind = kind ∧ (kind.identified = true → known = entity.id? ∧ known.isSome = true) := by
  by_cases feature : kind = .feature
  · subst feature
    obtain ⟨value, _, same⟩ := map_eq_ok.mp read
    cases same
    exact ⟨rfl, fun _ => ⟨rfl, rfl⟩⟩
  by_cases rule : kind = .rule
  · subst rule
    obtain ⟨value, _, same⟩ := map_eq_ok.mp read
    cases same
    exact ⟨rfl, fun _ => ⟨rfl, rfl⟩⟩
  rw [parseOne_data feature rule] at read
  cases loaded : loadData readers kind file with
  | error issues =>
    rw [loaded] at read
    cases read
  | ok data =>
    rw [loaded] at read
    obtain ⟨value, decoded, same⟩ := map_eq_ok.mp read
    cases same
    obtain ⟨kinds, ids⟩ := readData_eq_ok decoded
    refine ⟨kinds, fun identified => ?_⟩
    obtain ⟨same, some⟩ := ids identified
    exact ⟨same, same ▸ some⟩

end

end Koklo.Schema
