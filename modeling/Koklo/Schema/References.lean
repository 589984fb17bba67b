import Koklo.Schema.Rule7
import Koklo.Schema.SpecFilesOrder

/-!
# References and what they designate

A specification cites entities: in the links of its features, screens, endpoints, relations, tests,
roles, permissions and rules, and in the annotations of the components of a screen, at any depth. A
citation designates an entity of the right kind, or nothing. In a specification that was read from
files, rule 4 finds a link to nothing exactly when a citation designates nothing
(`danglingLinks_eq_nil`); the non-functional requirements that a feature cites are left out, as a
specification has no entity of that kind.
-/

set_option autoImplicit false

namespace Koklo.Schema

open Koklo.Foundations

/-! ## Citations -/

/-- The annotations of a component and of those inside it. -/
inductive SpecNode.Bears : SpecNode → Annotation → Prop where
  | here {id : Option Text} {composant : Text} {enfants : Option (List SpecNode)}
      {annotations : Option (List Annotation)} {a : Annotation}
      (mine : a ∈ annotations.getD []) : Bears (.mk id composant enfants annotations) a
  | inside {id : Option Text} {composant : Text} {enfants : Option (List SpecNode)}
      {annotations : Option (List Annotation)} {a : Annotation} {child : SpecNode}
      (among : child ∈ enfants.getD []) (bears : Bears child a) :
      Bears (.mk id composant enfants annotations) a

/-- What an annotation cites. -/
inductive Annotation.Cites (a : Annotation) : Target → Prop where
  | feature : Cites a (.feature a.feature)
  | criterion {id : Text} (some : a.critere = some id) : Cites a (.criterion a.feature id)
  | data {value : Text} (some : a.donnee = some value) : Cites a (.data value)
  | endpoint {id : Text} (some : a.endpoint = some id) : Cites a (.endpoint id)

/-- What a specification cites. -/
inductive Cites (spec : ParsedSpec) : Target → Prop where
  | featureTable {f : Parsed Feature} {id : Text} (holds : f ∈ spec.features)
      (cited : id ∈ f.value.tables) : Cites spec (.table id)
  | featureEndpoint {f : Parsed Feature} {id : Text} (holds : f ∈ spec.features)
      (cited : id ∈ f.value.endpoints) : Cites spec (.endpoint id)
  | featureScreen {f : Parsed Feature} {id : Text} (holds : f ∈ spec.features)
      (cited : id ∈ f.value.ecrans) : Cites spec (.screen id)
  | featureRole {f : Parsed Feature} {id : Text} (holds : f ∈ spec.features)
      (cited : id ∈ f.value.roles) : Cites spec (.role id)
  | featureRule {f : Parsed Feature} {id : Text} (holds : f ∈ spec.features)
      (cited : id ∈ f.value.regles) : Cites spec (.rule id)
  | featureNfr {f : Parsed Feature} {id : Text} (holds : f ∈ spec.features)
      (cited : id ∈ f.value.nfr) : Cites spec (.nfr id)
  | screenFeature {s : Parsed Screen} {id : Text} (holds : s ∈ spec.screens)
      (cited : id ∈ s.value.features) : Cites spec (.feature id)
  | screenRole {s : Parsed Screen} {id : Text} (holds : s ∈ spec.screens)
      (cited : id ∈ s.value.roles) : Cites spec (.role id)
  | screenNode {s : Parsed Screen} {a : Annotation} {target : Target} (holds : s ∈ spec.screens)
      (bears : s.value.arbre.Bears a) (cited : a.Cites target) : Cites spec target
  | endpointTable {e : Parsed Endpoint} {id : Text} (holds : e ∈ spec.endpoints)
      (cited : id ∈ e.value.tables.getD []) : Cites spec (.table id)
  | relationSource {file : Parsed RelationsFile} {r : Relation} (holds : file ∈ spec.relations)
      (cited : r ∈ file.value.relations) : Cites spec (.data r.source)
  | relationTarget {file : Parsed RelationsFile} {r : Relation} (holds : file ∈ spec.relations)
      (cited : r ∈ file.value.relations) : Cites spec (.data r.target)
  | testFeature {t : Parsed TestScenario} (holds : t ∈ spec.tests) :
      Cites spec (.feature t.value.feature)
  | testCriterion {t : Parsed TestScenario} {id : Text} (holds : t ∈ spec.tests)
      (cited : id ∈ t.value.criteres) : Cites spec (.criterion t.value.feature id)
  | rolePermission {file : Parsed RolesFile} {role : Role} {id : Text} (holds : file ∈ spec.roles)
      (inside : role ∈ file.value.roles) (cited : id ∈ role.permissions) :
      Cites spec (.permission id)
  | permissionResource {file : Parsed RolesFile} {p : Permission} (holds : file ∈ spec.roles)
      (inside : p ∈ file.value.permissions) : Cites spec (.resource p.ressource)
  | permissionEndpoint {file : Parsed RolesFile} {p : Permission} {id : Text}
      (holds : file ∈ spec.roles) (inside : p ∈ file.value.permissions)
      (cited : id ∈ p.endpoints) : Cites spec (.endpoint id)
  | ruleTable {r : Parsed BusinessRule} {id : Text} (holds : r ∈ spec.rules)
      (cited : id ∈ r.value.tables) : Cites spec (.table id)
  | ruleEndpoint {r : Parsed BusinessRule} {id : Text} (holds : r ∈ spec.rules)
      (cited : id ∈ r.value.endpoints) : Cites spec (.endpoint id)

/-- The entity that is cited exists. -/
def Designates (spec : ParsedSpec) : Target → Prop
  | .feature id => ∃ f ∈ spec.features, f.value.id = id
  | .criterion feature id =>
    ∃ f ∈ spec.features, f.value.id = feature ∧ ∃ c ∈ f.value.criteres, c.id = id
  | .table id => ∃ t ∈ spec.tables, t.value.id = id
  | .data value => ∃ t ∈ spec.tables, value = t.value.id ∨
      ∃ champ ∈ t.value.champs, value = t.value.id ++ Text.lit "." ++ champ.nom
  | .endpoint id => ∃ e ∈ spec.endpoints, e.value.id = id
  | .screen id => ∃ s ∈ spec.screens, s.value.id = id
  | .role id => ∃ file ∈ spec.roles, ∃ role ∈ file.value.roles, role.id = id
  | .permission id => ∃ file ∈ spec.roles, ∃ p ∈ file.value.permissions, p.id = id
  | .resource id => (∃ t ∈ spec.tables, t.value.id = id) ∨ ∃ e ∈ spec.endpoints, e.value.id = id
  | .rule id => ∃ r ∈ spec.rules, r.value.id = id
  | .nfr _ => False

/-! ## A specification that was read -/

/-- What the files of a specification ensure: identifiers of features and of tables are unique, and
tables, fields and endpoints are named as such. -/
structure ParsedSpec.Sound (spec : ParsedSpec) : Prop where
  features : (spec.features.map fun f => f.value.id).Nodup
  tables : (spec.tables.map fun t => t.value.id).Nodup
  table : ∀ t ∈ spec.tables, Patterns.table.Matches t.value.id ∧
    ∀ champ ∈ t.value.champs, Patterns.fieldName.Matches champ.nom
  endpoint : ∀ e ∈ spec.endpoints, Patterns.endpoint.Matches e.value.id

theorem sound_parseOrdered (readers : Readers) (files : List SpecFile) :
    (parseOrdered readers files).spec.Sound := by
  constructor
  · rw [← ids_feature]
    exact (ids_parseOrdered files .feature).1
  · rw [← ids_table]
    exact (ids_parseOrdered files .table).1
  · intro t member
    have entry : (t.path, Entity.table t.value) ∈ (parseOrdered readers files).spec.entries .table :=
      List.mem_map_of_mem member
    obtain ⟨-, file, -, -, claimed, given⟩ := read_of_entry entry
    obtain ⟨data, decoded⟩ := readData_of_readFile given ⟨nofun, nofun⟩
    obtain ⟨value, valid, same⟩ := readAs_eq_ok.mp decoded
    cases same
    obtain ⟨-, -, -, matched, champs⟩ := tableSchema_eq_ok valid
    exact ⟨matched, champs⟩
  · intro e member
    have entry : (e.path, Entity.endpoint e.value) ∈
        (parseOrdered readers files).spec.entries .endpoint := List.mem_map_of_mem member
    obtain ⟨-, file, -, -, claimed, given⟩ := read_of_entry entry
    obtain ⟨data, decoded⟩ := readData_of_readFile given ⟨nofun, nofun⟩
    obtain ⟨value, valid, same⟩ := readAs_eq_ok.mp decoded
    cases same
    obtain ⟨-, -, -, matched⟩ := endpointSchema_eq_ok valid
    exact matched

/-! ## The index finds what exists -/

section Index

variable {spec : ParsedSpec}

/-- The features of the index, by their identifiers. -/
theorem features_buildIndex (sound : spec.Sound) : (buildIndex spec).features =
    spec.features.map fun f =>
      (f.value.id, ⟨f.path, f.value.criteres.map Criterion.id, f.value.criteres⟩) := by
  apply OrderedMap.ofEntries_of_nodup
  rw [List.map_map]
  exact sound.features

theorem tables_buildIndex (sound : spec.Sound) : (buildIndex spec).tables =
    spec.tables.map fun t => (t.value.id, t.value.champs.map Champ.nom) := by
  apply OrderedMap.ofEntries_of_nodup
  rw [List.map_map]
  exact sound.tables

theorem mem_keys_features {id : Text} (sound : spec.Sound) :
    id ∈ (buildIndex spec).features.keys ↔ Designates spec (.feature id) := by
  rw [features_buildIndex sound, OrderedMap.keys, List.map_map, List.mem_map]
  rfl

theorem mem_keys_tables {id : Text} (sound : spec.Sound) :
    id ∈ (buildIndex spec).tables.keys ↔ Designates spec (.table id) := by
  rw [tables_buildIndex sound, OrderedMap.keys, List.map_map, List.mem_map]
  rfl

/-- The entry of a feature. -/
theorem get_features {id : Text} {entry : FeatureEntry} (sound : spec.Sound) :
    (buildIndex spec).features.get id = some entry ↔ ∃ f ∈ spec.features, f.value.id = id ∧
      entry = ⟨f.path, f.value.criteres.map Criterion.id, f.value.criteres⟩ := by
  have unique : (buildIndex spec).features.keys.Nodup := OrderedMap.nodup_keys_ofEntries _
  rw [OrderedMap.get_eq_some_iff unique, features_buildIndex sound, List.mem_map]
  constructor
  · rintro ⟨f, member, same⟩
    cases same
    exact ⟨f, member, rfl, rfl⟩
  · rintro ⟨f, member, rfl, rfl⟩
    exact ⟨f, member, rfl⟩

/-- The fields of a table. -/
theorem get_tables {id : Text} {fields : List Text} (sound : spec.Sound) :
    (buildIndex spec).tables.get id = some fields ↔ ∃ t ∈ spec.tables, t.value.id = id ∧
      fields = t.value.champs.map Champ.nom := by
  have unique : (buildIndex spec).tables.keys.Nodup := OrderedMap.nodup_keys_ofEntries _
  rw [OrderedMap.get_eq_some_iff unique, tables_buildIndex sound, List.mem_map]
  constructor
  · rintro ⟨t, member, same⟩
    cases same
    exact ⟨t, member, rfl, rfl⟩
  · rintro ⟨t, member, rfl, rfl⟩
    exact ⟨t, member, rfl⟩

theorem mem_endpoints {id : Text} :
    id ∈ (buildIndex spec).endpoints ↔ Designates spec (.endpoint id) := List.mem_map

theorem mem_screens {id : Text} :
    id ∈ (buildIndex spec).screens ↔ Designates spec (.screen id) := List.mem_map

theorem mem_rules {id : Text} : id ∈ (buildIndex spec).rules ↔ Designates spec (.rule id) :=
  List.mem_map

theorem mem_roles {id : Text} : id ∈ (buildIndex spec).roles ↔ Designates spec (.role id) := by
  simp only [buildIndex, List.mem_flatMap, List.mem_map, Designates]

theorem mem_permissions {id : Text} :
    id ∈ (buildIndex spec).permissions ↔ Designates spec (.permission id) := by
  simp only [buildIndex, List.mem_flatMap, List.mem_map, Designates]

end Index

/-! ## Tables and their fields -/

/-- An identifier of a table has no dot. -/
theorem ne_dot_of_table {id : Text} (table : Patterns.table.Matches id) : ∀ u ∈ id, u ≠ 0x2E := by
  obtain ⟨rest, rfl, inside⟩ := Pattern.matches_text_seq.mp table
  have units : slug.Units (· ≠ 0x2E) := by
    refine ⟨?_, ?_⟩
    · rintro u passes rfl
      cases passes
    · rintro u passes rfl
      cases passes
  intro u member
  rcases List.mem_append.mp member with mark | name
  · have two : (Text.lit "T-").all (· ≠ 0x2E) = true := by decide
    exact of_decide_eq_true (List.all_eq_true.mp two u mark)
  · exact inside.forall_units units u name

theorem parseDataRef_table {id : Text} (table : Patterns.table.Matches id) :
    parseDataRef id = some ⟨id, none⟩ := by
  rw [parseDataRef, if_pos (Pattern.accepts_iff.mpr table)]

/-- A table and a field, cut at the first dot. -/
theorem parseDataRef_field {id nom : Text} (table : Patterns.table.Matches id)
    (field : Patterns.fieldName.Matches nom) :
    parseDataRef (id ++ Text.lit "." ++ nom) = some ⟨id, some nom⟩ := by
  have dot : Text.lit "." = [0x2E] := by decide
  have whole : Patterns.tableField.Matches (id ++ Text.lit "." ++ nom) := by
    rw [List.append_assoc]
    exact .seq table (Pattern.matches_text_seq.mpr ⟨nom, rfl, field⟩)
  have other : ¬Patterns.table.accepts (id ++ Text.lit "." ++ nom) = true := by
    intro accepted
    refine ne_dot_of_table (Pattern.accepts_iff.mp accepted) 0x2E ?_ rfl
    rw [dot]
    exact List.mem_append_left _ (List.mem_append_right _ (List.mem_singleton_self _))
  have units : ∀ u ∈ id, decide (u ≠ 0x2E) = true := fun u member =>
    decide_eq_true (ne_dot_of_table table u member)
  rw [parseDataRef, if_neg other, if_pos (Pattern.accepts_iff.mpr whole), dot, List.append_assoc,
    List.singleton_append, List.takeWhile_append_of_pos units, List.dropWhile_append_of_pos units,
    List.takeWhile_cons_of_neg (by decide), List.dropWhile_cons_of_neg (by decide), List.append_nil,
    List.drop_one, List.tail_cons]

/-- What a reference is made of. -/
theorem parseDataRef_eq_some {value : Text} {ref : DataRef} (parsed : parseDataRef value = some ref) :
    value = ref.table ++ (ref.field.map (Text.lit "." ++ ·)).getD [] := by
  have read := parsed
  rw [parseDataRef] at read
  split at read
  · cases read
    exact (List.append_nil _).symm
  · split at read
    · rename_i accepted
      cases Pattern.accepts_iff.mp accepted with
      | seq table after =>
        obtain ⟨nom, rfl, field⟩ := Pattern.matches_text_seq.mp after
        rw [← List.append_assoc, parseDataRef_field table field] at parsed
        cases parsed
        rfl
    · cases read

/-! ## Rule 4 -/

theorem forEach_eq_nil {α β : Type} {items : List α} {visit : α → ℕ → List β} {fine : α → Prop}
    (each : ∀ a i, visit a i = [] ↔ fine a) : forEach items visit = [] ↔ ∀ a ∈ items, fine a := by
  rw [forEach, List.flatMap_eq_nil_iff]
  constructor
  · intro none a member
    obtain ⟨i, found⟩ := List.mem_iff_getElem?.mp member
    exact (each a i).mp (none (a, i) (List.mem_zipIdx_iff_getElem?.mpr found))
  · intro all item member
    exact (each item.1 item.2).mpr (all item.1 (List.fst_mem_of_mem_zipIdx member))

theorem emitterFor_eq_nil {path entityId : Text} {emitted : List Emitted} :
    emitterFor path entityId emitted = [] ↔ emitted = [] := List.map_eq_nil_iff

theorem checkList_eq_nil {check : LinkCheck} :
    checkList check = [] ↔ ∀ id ∈ check.items, id ∈ check.known := by
  apply forEach_eq_nil
  intro id i
  by_cases known : id ∈ check.known
  · simp [known]
  · simp [known]

section

variable {spec : ParsedSpec} (sound : spec.Sound)

include sound

theorem checkDataRef_eq_nil (value pointer : Text) :
    checkDataRef (buildIndex spec) value pointer = [] ↔ Designates spec (.data value) := by
  constructor
  · intro none
    rw [checkDataRef] at none
    split at none
    · cases none
    · rename_i ref parsed
      split at none
      · cases none
      · rename_i fields found
        obtain ⟨t, member, named, rfl⟩ := (get_tables sound).mp found
        refine ⟨t, member, ?_⟩
        rw [parseDataRef_eq_some parsed, ← named]
        cases field : ref.field with
        | none => exact .inl (List.append_nil _)
        | some nom =>
          rw [field] at none
          split at none
          · cases none
          · rename_i known
            have known : nom ∈ t.value.champs.map Champ.nom := by simpa using known
            obtain ⟨champ, inside, same⟩ := List.mem_map.mp known
            refine .inr ⟨champ, inside, ?_⟩
            rw [same, List.append_assoc]
            rfl
  · rintro ⟨t, member, same⟩
    obtain ⟨table, fields⟩ := sound.table t member
    have found : (buildIndex spec).tables.get t.value.id = some (t.value.champs.map Champ.nom) :=
      (get_tables sound).mpr ⟨t, member, rfl, rfl⟩
    rcases same with rfl | ⟨champ, inside, rfl⟩
    · rw [checkDataRef, parseDataRef_table table]
      dsimp only
      rw [found]
      rfl
    · rw [checkDataRef, parseDataRef_field table (fields champ inside)]
      dsimp only
      rw [found]
      simpa using ⟨champ, inside, rfl⟩

theorem checkAnnotation_eq_nil (a : Annotation) (base : Text) :
    checkAnnotation (buildIndex spec) a base = [] ↔
      ∀ target, a.Cites target → Designates spec target := by
  rw [ checkAnnotation, List.append_eq_nil_iff, List.append_eq_nil_iff]
  constructor
  · rintro ⟨⟨feature, data⟩, endpoint⟩ target cited
    split at feature
    · cases feature
    · rename_i entry found
      obtain ⟨f, member, named, rfl⟩ := (get_features sound).mp found
      cases cited with
      | feature => exact ⟨f, member, named⟩
      | criterion some =>
        rw [some] at feature
        dsimp only at feature
        split at feature
        · rename_i known
          exact ⟨f, member, named, List.mem_map.mp known⟩
        · cases feature
      | data some =>
        rw [some] at data
        exact (checkDataRef_eq_nil sound _ _).mp data
      | endpoint some =>
        rw [some] at endpoint
        dsimp only at endpoint
        split at endpoint
        · rename_i known
          exact mem_endpoints.mp known
        · cases endpoint
  · intro all
    refine ⟨⟨?_, ?_⟩, ?_⟩
    · obtain ⟨f, member, named⟩ := all _ .feature
      have found := (get_features sound).mpr ⟨f, member, named, rfl⟩
      rw [found]
      dsimp only
      cases critere : a.critere with
      | none => rfl
      | some id =>
        obtain ⟨f', member', named', c, inside, same⟩ := all _ (.criterion critere)
        have one : f' = f :=
          List.inj_on_of_nodup_map sound.features member' member (named'.trans named.symm)
        subst one
        dsimp only
        rw [if_pos (List.mem_map.mpr ⟨c, inside, same⟩)]
    · cases donnee : a.donnee with
      | none => rfl
      | some value => exact (checkDataRef_eq_nil sound _ _).mpr (all _ (.data donnee))
    · cases endpoint : a.endpoint with
      | none => rfl
      | some id =>
        dsimp only
        rw [if_pos (mem_endpoints.mpr (all _ (.endpoint endpoint)))]

end

mutual

/-- No annotation of a component is skipped, at any depth. -/
theorem walkNode_eq_nil {spec : ParsedSpec} (sound : spec.Sound) : ∀ (node : SpecNode) (base : Text),
    walkNode (buildIndex spec) base node = [] ↔
      ∀ a, node.Bears a → ∀ target, a.Cites target → Designates spec target
  | .mk id composant enfants annotations, base => by
    have own : forEach (annotations.getD []) (fun a i => checkAnnotation (buildIndex spec) a
        (base ++ Text.lit "/annotations/" ++ Text.ofNat i)) = [] ↔
          ∀ a ∈ annotations.getD [], ∀ target, a.Cites target → Designates spec target :=
      forEach_eq_nil fun a i => checkAnnotation_eq_nil sound a _
    rw [walkNode, List.append_eq_nil_iff, own, walkEnfants_eq_nil sound enfants base]
    constructor
    · rintro ⟨mine, below⟩ a bears
      cases bears with
      | here among => exact mine a among
      | inside among bears => exact below _ among a bears
    · intro all
      exact ⟨fun a among => all a (.here among),
        fun child among a bears => all a (.inside among bears)⟩

theorem walkEnfants_eq_nil {spec : ParsedSpec} (sound : spec.Sound) :
    ∀ (enfants : Option (List SpecNode)) (base : Text),
      walkEnfants (buildIndex spec) base enfants = [] ↔ ∀ child ∈ enfants.getD [], ∀ a,
        child.Bears a → ∀ target, a.Cites target → Designates spec target
  | none, base => by
    rw [walkEnfants]
    exact iff_of_true rfl (List.forall_mem_nil _)
  | some enfants, base => by
    rw [walkEnfants]
    exact walkFrom_eq_nil sound enfants base 0

theorem walkFrom_eq_nil {spec : ParsedSpec} (sound : spec.Sound) :
    ∀ (nodes : List SpecNode) (base : Text) (i : ℕ),
      walkFrom (buildIndex spec) base i nodes = [] ↔ ∀ child ∈ nodes, ∀ a, child.Bears a →
        ∀ target, a.Cites target → Designates spec target
  | [], base, i => by
    rw [walkFrom]
    exact iff_of_true rfl (List.forall_mem_nil _)
  | node :: rest, base, i => by
    rw [walkFrom, List.append_eq_nil_iff, List.forall_mem_cons, walkNode_eq_nil sound node,
      walkFrom_eq_nil sound rest base (i + 1)]

end

/-! ## All links -/

section

variable {spec : ParsedSpec} (sound : spec.Sound)

theorem links_eq_nil {checks : List LinkCheck} :
    checkLinks checks = [] ↔ ∀ check ∈ checks, ∀ id ∈ check.items, id ∈ check.known := by
  rw [checkLinks, List.flatMap_eq_nil_iff]
  simp only [checkList_eq_nil]

include sound

theorem featureLinks_eq_nil : featureLinks (buildIndex spec) spec = [] ↔ ∀ f ∈ spec.features,
    (∀ id ∈ f.value.tables, Designates spec (.table id)) ∧
      (∀ id ∈ f.value.endpoints, Designates spec (.endpoint id)) ∧
      ∀ id ∈ f.value.ecrans, Designates spec (.screen id) := by
  simp only [featureLinks, List.flatMap_eq_nil_iff, emitterFor_eq_nil, links_eq_nil,
    List.forall_mem_cons, tableLinks, endpointLinks, mem_keys_tables sound, mem_endpoints,
    mem_screens, List.not_mem_nil, false_imp_iff, implies_true, and_true]

theorem screenLinks_eq_nil : screenLinks (buildIndex spec) spec = [] ↔ ∀ s ∈ spec.screens,
    (∀ id ∈ s.value.features, Designates spec (.feature id)) ∧
      ∀ a, s.value.arbre.Bears a → ∀ target, a.Cites target → Designates spec target := by
  simp only [screenLinks, List.flatMap_eq_nil_iff, emitterFor_eq_nil, List.append_eq_nil_iff,
    links_eq_nil, List.forall_mem_cons, mem_keys_features sound, walkNode_eq_nil sound,
    List.not_mem_nil, false_imp_iff, implies_true, and_true]

theorem dataLinks_eq_nil : dataLinks (buildIndex spec) spec = [] ↔
    (∀ e ∈ spec.endpoints, ∀ id ∈ e.value.tables.getD [], Designates spec (.table id)) ∧
      ∀ file ∈ spec.relations, ∀ r ∈ file.value.relations,
        Designates spec (.data r.source) ∧ Designates spec (.data r.target) := by
  have relations : ∀ file : Parsed RelationsFile,
      (forEach file.value.relations fun r i =>
        emitterFor file.path (r.source.takeWhile (· ≠ 0x2E))
          (checkDataRef (buildIndex spec) r.source
              (Text.lit "/relations/" ++ Text.ofNat i ++ Text.lit "/from") ++
            checkDataRef (buildIndex spec) r.target
              (Text.lit "/relations/" ++ Text.ofNat i ++ Text.lit "/to"))) = [] ↔
        ∀ r ∈ file.value.relations, Designates spec (.data r.source) ∧
          Designates spec (.data r.target) := by
    intro file
    apply forEach_eq_nil
    intro r i
    rw [emitterFor_eq_nil, List.append_eq_nil_iff, checkDataRef_eq_nil sound,
      checkDataRef_eq_nil sound]
  simp only [dataLinks, List.append_eq_nil_iff, List.flatMap_eq_nil_iff, emitterFor_eq_nil,
    links_eq_nil, List.forall_mem_cons, tableLinks, mem_keys_tables sound, relations,
    List.not_mem_nil, false_imp_iff, implies_true, and_true]

theorem testLinks_eq_nil : testLinks (buildIndex spec) spec = [] ↔ ∀ t ∈ spec.tests,
    Designates spec (.feature t.value.feature) ∧
      ∀ id ∈ t.value.criteres, Designates spec (.criterion t.value.feature id) := by
  rw [testLinks, List.flatMap_eq_nil_iff]
  refine forall₂_congr fun t _ => ?_
  rw [emitterFor_eq_nil]
  constructor
  · intro none
    split at none
    · cases none
    · rename_i entry found
      obtain ⟨f, member, named, rfl⟩ := (get_features sound).mp found
      refine ⟨⟨f, member, named⟩, fun id cited => ⟨f, member, named, ?_⟩⟩
      have known := (forEach_eq_nil (fun id i => by
        rw [ite_eq_left_iff, imp_iff_not (List.cons_ne_nil _ _), not_not])).mp none id cited
      exact List.mem_map.mp known
  · rintro ⟨⟨f, member, named⟩, all⟩
    rw [(get_features sound).mpr ⟨f, member, named, rfl⟩]
    dsimp only
    refine (forEach_eq_nil (fun id i => by
        rw [ite_eq_left_iff, imp_iff_not (List.cons_ne_nil _ _), not_not])).mpr fun id cited => ?_
    obtain ⟨f', member', named', c, inside, same⟩ := all id cited
    have one : f' = f :=
      List.inj_on_of_nodup_map sound.features member' member (named'.trans named.symm)
    subst one
    exact List.mem_map.mpr ⟨c, inside, same⟩

/-- What a permission is about. -/
theorem checkResource_eq_nil (p : Permission) (i : ℕ) :
    checkResource (buildIndex spec) p i = [] ↔ Designates spec (.resource p.ressource) := by
  rw [checkResource]
  rw [ite_eq_left_iff, imp_iff_not (List.cons_ne_nil _ _), not_not]
  cases isTable : (Text.lit "T-").isPrefixOf p.ressource with
  | true =>
    rw [if_pos rfl, decide_eq_true_eq, mem_keys_tables sound]
    refine ⟨.inl, ?_⟩
    rintro (table | ⟨e, member, same⟩)
    · exact table
    · exfalso
      obtain ⟨rest, starts, -⟩ := Pattern.matches_text_seq.mp (sound.endpoint e member)
      rw [← same, starts] at isTable
      cases isTable
  | false =>
    rw [if_neg Bool.false_ne_true, decide_eq_true_eq, mem_endpoints]
    refine ⟨.inr, ?_⟩
    rintro (⟨t, member, same⟩ | endpoint)
    · exfalso
      obtain ⟨rest, starts, -⟩ := Pattern.matches_text_seq.mp (sound.table t member).1
      rw [← same, starts] at isTable
      cases isTable
    · exact endpoint

theorem checkDomainLinks_eq_nil : checkDomainLinks (buildIndex spec) spec = [] ↔
    ((∀ f ∈ spec.features, (∀ id ∈ f.value.roles, Designates spec (.role id)) ∧
        ∀ id ∈ f.value.regles, Designates spec (.rule id)) ∧
      (∀ s ∈ spec.screens, ∀ id ∈ s.value.roles, Designates spec (.role id)) ∧
      ∀ r ∈ spec.rules, (∀ id ∈ r.value.tables, Designates spec (.table id)) ∧
        ∀ id ∈ r.value.endpoints, Designates spec (.endpoint id)) ∧
    ∀ file ∈ spec.roles,
      (∀ role ∈ file.value.roles, ∀ id ∈ role.permissions, Designates spec (.permission id)) ∧
      ∀ p ∈ file.value.permissions, Designates spec (.resource p.ressource) ∧
        ∀ id ∈ p.endpoints, Designates spec (.endpoint id) := by
  have roles : ∀ file : Parsed RolesFile,
      roleLinks (buildIndex spec) file.value.roles file.path = [] ↔
        ∀ role ∈ file.value.roles, ∀ id ∈ role.permissions, Designates spec (.permission id) := by
    intro file
    apply forEach_eq_nil
    intro role i
    simp only [emitterFor_eq_nil, links_eq_nil, List.forall_mem_cons, mem_permissions,
      List.not_mem_nil, false_imp_iff, implies_true, and_true]
  have permissions : ∀ file : Parsed RolesFile,
      permissionLinks (buildIndex spec) file.value file.path = [] ↔
        ∀ p ∈ file.value.permissions, Designates spec (.resource p.ressource) ∧
          ∀ id ∈ p.endpoints, Designates spec (.endpoint id) := by
    intro file
    apply forEach_eq_nil
    intro p i
    simp only [emitterFor_eq_nil, List.append_eq_nil_iff, checkResource_eq_nil sound, links_eq_nil,
      List.forall_mem_cons, endpointLinks, mem_endpoints, List.not_mem_nil, false_imp_iff,
      implies_true, and_true]
  simp only [checkDomainLinks, referencingLinks, List.append_eq_nil_iff, List.flatMap_eq_nil_iff,
    emitterFor_eq_nil, links_eq_nil, List.forall_mem_cons, roleLink, tableLinks, endpointLinks,
    mem_roles, mem_rules, mem_keys_tables sound, mem_endpoints, roles, permissions,
    List.not_mem_nil, false_imp_iff, implies_true, and_true, and_assoc]

/-- **Rule 4 is sound and complete**: it finds no link to nothing exactly when all that is cited
exists. -/
theorem danglingLinks_eq_nil : danglingLinks (buildIndex spec) spec = [] ↔
    ∀ target, (∀ id, target ≠ .nfr id) → Cites spec target → Designates spec target := by
  simp only [danglingLinks, List.append_eq_nil_iff, featureLinks_eq_nil sound,
    screenLinks_eq_nil sound, dataLinks_eq_nil sound, testLinks_eq_nil sound,
    checkDomainLinks_eq_nil sound]
  constructor
  · rintro ⟨⟨⟨⟨features, screens⟩, endpoints, relations⟩, tests⟩,
      ⟨featureDomain, screenRoles, rules⟩, roles⟩ target other cited
    cases cited with
    | featureTable holds cited => exact (features _ holds).1 _ cited
    | featureEndpoint holds cited => exact (features _ holds).2.1 _ cited
    | featureScreen holds cited => exact (features _ holds).2.2 _ cited
    | featureRole holds cited => exact (featureDomain _ holds).1 _ cited
    | featureRule holds cited => exact (featureDomain _ holds).2 _ cited
    | featureNfr holds cited => exact absurd rfl (other _)
    | screenFeature holds cited => exact (screens _ holds).1 _ cited
    | screenRole holds cited => exact screenRoles _ holds _ cited
    | screenNode holds bears cited => exact (screens _ holds).2 _ bears _ cited
    | endpointTable holds cited => exact endpoints _ holds _ cited
    | relationSource holds cited => exact (relations _ holds _ cited).1
    | relationTarget holds cited => exact (relations _ holds _ cited).2
    | testFeature holds => exact (tests _ holds).1
    | testCriterion holds cited => exact (tests _ holds).2 _ cited
    | rolePermission holds inside cited => exact (roles _ holds).1 _ inside _ cited
    | permissionResource holds inside => exact ((roles _ holds).2 _ inside).1
    | permissionEndpoint holds inside cited => exact ((roles _ holds).2 _ inside).2 _ cited
    | ruleTable holds cited => exact (rules _ holds).1 _ cited
    | ruleEndpoint holds cited => exact (rules _ holds).2 _ cited
  · intro all
    have annotated : ∀ s ∈ spec.screens, ∀ a, s.value.arbre.Bears a → ∀ target, a.Cites target →
        Designates spec target := by
      intro s holds a bears target cited
      refine all target ?_ (.screenNode holds bears cited)
      rintro id rfl
      cases cited
    refine ⟨⟨⟨⟨?_, ?_⟩, ?_, ?_⟩, ?_⟩, ⟨?_, ?_, ?_⟩, ?_⟩
    · exact fun f holds => ⟨fun _ cited => all _ nofun (.featureTable holds cited),
        fun _ cited => all _ nofun (.featureEndpoint holds cited),
        fun _ cited => all _ nofun (.featureScreen holds cited)⟩
    · exact fun s holds => ⟨fun _ cited => all _ nofun (.screenFeature holds cited),
        annotated s holds⟩
    · exact fun e holds _ cited => all _ nofun (.endpointTable holds cited)
    · exact fun file holds r cited => ⟨all _ nofun (.relationSource holds cited),
        all _ nofun (.relationTarget holds cited)⟩
    · exact fun t holds => ⟨all _ nofun (.testFeature holds),
        fun _ cited => all _ nofun (.testCriterion holds cited)⟩
    · exact fun f holds => ⟨fun _ cited => all _ nofun (.featureRole holds cited),
        fun _ cited => all _ nofun (.featureRule holds cited)⟩
    · exact fun s holds _ cited => all _ nofun (.screenRole holds cited)
    · exact fun r holds => ⟨fun _ cited => all _ nofun (.ruleTable holds cited),
        fun _ cited => all _ nofun (.ruleEndpoint holds cited)⟩
    · exact fun file holds =>
        ⟨fun role inside _ cited => all _ nofun (.rolePermission holds inside cited),
          fun p inside => ⟨all _ nofun (.permissionResource holds inside),
            fun _ cited => all _ nofun (.permissionEndpoint holds inside cited)⟩⟩

end

end Koklo.Schema
