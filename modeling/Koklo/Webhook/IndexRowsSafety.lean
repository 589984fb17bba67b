import Koklo.Schema.FileContents
import Koklo.Webhook.IndexRows

/-!
# The rows of a specification are lawful

The rows are made feature by feature. What has been made so far keeps the constraints of the tables
(`RowsSoFar.Faithful`), because each feature draws an identifier of its own and its criteria and
links bear it. The identifiers of the specification are unique and well formed because the files
were parsed. So the rows are lawful (`rowsOf_lawful`).

What else the database asks is asked of the contents of files (`ContentsFit`): no NUL in the paths, in
the titles and in the headings of criteria, and no identifier or title that is too large for an index.
The rows can be inserted exactly when the files that entities are taken from keep to it
(`rows_insertable_iff`).
-/

set_option autoImplicit false

namespace Koklo.Webhook

open Koklo.Foundations

universe u v

variable {randomUUID : ℕ → Text} {featureId : Text}

/-! ## The criteria of a feature -/

theorem position_criterionRows (seen : List Text) (drawn : ℕ) (criteres : List Schema.Criterion) :
    (criterionRows randomUUID featureId seen drawn criteres).map CriterionRow.position =
      List.range' (seen.length + 1)
        (criterionRows randomUUID featureId seen drawn criteres).length := by
  induction criteres generalizing seen drawn with
  | nil => rfl
  | cons criterion rest ih =>
    rw [criterionRows]
    split
    · exact ih seen drawn
    · rw [List.map_cons, List.length_cons, List.range'_succ, ih]
      rfl

theorem id_criterionRows (seen : List Text) (drawn : ℕ) (criteres : List Schema.Criterion) :
    (criterionRows randomUUID featureId seen drawn criteres).map CriterionRow.id =
      (List.range' drawn
        (criterionRows randomUUID featureId seen drawn criteres).length).map randomUUID := by
  induction criteres generalizing seen drawn with
  | nil => rfl
  | cons criterion rest ih =>
    rw [criterionRows]
    split
    · exact ih seen drawn
    · rw [List.map_cons, List.length_cons, List.range'_succ, List.map_cons, ih]

/-- A row is that of the first criterion with its identifier. -/
theorem mem_criterionRows {seen : List Text} {drawn : ℕ} {criteres : List Schema.Criterion}
    {row : CriterionRow} (member : row ∈ criterionRows randomUUID featureId seen drawn criteres) :
    row.featureId = featureId ∧ row.specId ∉ seen ∧
      ∃ criterion, criteres.find? (fun other => other.id = row.specId) = some criterion ∧
        row.title = criterion.titre := by
  induction criteres generalizing seen drawn with
  | nil => cases member
  | cons criterion rest ih =>
    rw [criterionRows] at member
    split at member
    · rename_i repeated
      obtain ⟨owner, unseen, found, first, title⟩ := ih member
      refine ⟨owner, unseen, found, ?_, title⟩
      have other : ¬ criterion.id = row.specId := fun same => unseen (same ▸ repeated)
      rw [List.find?_cons_of_neg (by simpa using other)]
      exact first
    · rename_i new
      rcases List.mem_cons.mp member with rfl | later
      · refine ⟨rfl, new, criterion, ?_, rfl⟩
        exact List.find?_cons_of_pos (by simp)
      · obtain ⟨owner, unseen, found, first, title⟩ := ih later
        obtain ⟨other, unseen⟩ := List.ne_and_not_mem_of_not_mem_cons unseen
        refine ⟨owner, unseen, found, ?_, title⟩
        rw [List.find?_cons_of_neg (by simpa using Ne.symm other)]
        exact first

/-- The first criterion with an identifier has a row. -/
theorem exists_criterionRow {seen : List Text} (drawn : ℕ) {criteres : List Schema.Criterion}
    {criterion : Schema.Criterion}
    (first : criteres.find? (fun other => other.id = criterion.id) = some criterion)
    (unseen : criterion.id ∉ seen) :
    ∃ row ∈ criterionRows randomUUID featureId seen drawn criteres,
      row.specId = criterion.id ∧ row.title = criterion.titre := by
  induction criteres generalizing seen drawn with
  | nil => cases first
  | cons head rest ih =>
    rw [criterionRows]
    by_cases same : head.id = criterion.id
    · rw [List.find?_cons_of_pos (by simpa using same)] at first
      cases first
      rw [if_neg unseen]
      exact ⟨_, List.mem_cons_self, rfl, rfl⟩
    · rw [List.find?_cons_of_neg (by simpa using same)] at first
      split
      · exact ih drawn first unseen
      · obtain ⟨row, member, copied⟩ := ih (drawn + 1) first
          (List.not_mem_cons_of_ne_of_not_mem (Ne.symm same) unseen)
        exact ⟨row, List.mem_cons_of_mem _ member, copied⟩

theorem length_criterionRows_le (seen : List Text) (drawn : ℕ) (criteres : List Schema.Criterion) :
    (criterionRows randomUUID featureId seen drawn criteres).length ≤ criteres.length := by
  induction criteres generalizing seen drawn with
  | nil => exact le_rfl
  | cons criterion rest ih =>
    rw [criterionRows]
    split
    · exact (ih seen drawn).trans (Nat.le_succ _)
    · exact Nat.succ_le_succ (ih _ _)

/-- Of criteria with distinct identifiers, each is the first with its own. -/
theorem find?_of_distinct {criteres : List Schema.Criterion}
    (distinct : (criteres.map Schema.Criterion.id).Nodup) {criterion : Schema.Criterion}
    (member : criterion ∈ criteres) :
    criteres.find? (fun other => other.id = criterion.id) = some criterion := by
  induction criteres with
  | nil => cases member
  | cons head rest ih =>
    obtain ⟨fresh, others⟩ := List.nodup_cons.mp distinct
    rcases List.mem_cons.mp member with rfl | later
    · exact List.find?_cons_of_pos (by simp)
    · have other : head.id ≠ criterion.id := fun same => fresh (same ▸ List.mem_map_of_mem later)
      rw [List.find?_cons_of_neg (by simpa using other)]
      exact ih others later

theorem nodup_specId_criterionRows (seen : List Text) (drawn : ℕ)
    (criteres : List Schema.Criterion) :
    ((criterionRows randomUUID featureId seen drawn criteres).map CriterionRow.specId).Nodup := by
  induction criteres generalizing seen drawn with
  | nil => exact List.nodup_nil
  | cons criterion rest ih =>
    rw [criterionRows]
    split
    · exact ih seen drawn
    · rw [List.map_cons, List.nodup_cons]
      refine ⟨fun again => ?_, ih _ _⟩
      obtain ⟨row, member, same⟩ := List.mem_map.mp again
      exact (mem_criterionRows member).2.1 (same ▸ List.mem_cons_self)

/-! ## Rows that belong to features -/

/-- Rows with a new owner are apart from those of the owners before it. -/
theorem nodup_owned {α : Type u} {β : Type v} {owner : α → Text} {value : α → β}
    {old new : List α} {known : List Text} {id : Text}
    (keys : (old.map fun a => (owner a, value a)).Nodup) (inside : ∀ a ∈ old, owner a ∈ known)
    (fresh : id ∉ known) (own : ∀ a ∈ new, owner a = id) (values : (new.map value).Nodup) :
    ((old ++ new).map fun a => (owner a, value a)).Nodup := by
  rw [List.map_append]
  refine keys.append ?_ ?_
  · have second : (new.map value).Nodup → (new.map fun a => (owner a, value a)).Nodup := by
      intro distinct
      apply List.Nodup.of_map Prod.snd
      rw [List.map_map]
      exact distinct
    exact second values
  · intro key before after
    obtain ⟨a, member, rfl⟩ := List.mem_map.mp before
    obtain ⟨b, member', same⟩ := List.mem_map.mp after
    have owners : owner b = owner a := congrArg Prod.fst same
    rw [own b member'] at owners
    exact fresh (owners ▸ inside a member)

/-- Rows of the owners before a new one, and its own, are rows of all of them. -/
theorem owned_append {α : Type u} {owner : α → Text} {old new : List α} {known : List Text}
    {id : Text} (inside : ∀ a ∈ old, owner a ∈ known) (own : ∀ a ∈ new, owner a = id) :
    ∀ a ∈ old ++ new, owner a ∈ known ++ [id] := by
  intro a member
  rcases List.mem_append.mp member with before | after
  · exact List.mem_append_left _ (inside a before)
  · rw [own a after]
    exact List.mem_append_right _ (List.mem_singleton.mpr rfl)

/-- The links of a feature: its own, each once, to what it names. -/
theorem mem_links {targets : List Text} {row : LinkRow} (member : row ∈ links featureId targets) :
    row.featureId = featureId ∧ row.targetSpecId ∈ targets := by
  obtain ⟨target, named, rfl⟩ := List.mem_map.mp member
  exact ⟨rfl, mem_uniqueItems.mp named⟩

theorem exists_link {targets : List Text} {target : Text} (named : target ∈ targets) :
    ∃ row ∈ links featureId targets, row.targetSpecId = target :=
  ⟨_, List.mem_map_of_mem (mem_uniqueItems.mpr named), rfl⟩

theorem nodup_links (targets : List Text) :
    ((links featureId targets).map LinkRow.targetSpecId).Nodup := by
  rw [links, List.map_map]
  exact (List.map_id _).symm ▸ nodup_uniqueItems targets

/-! ## The rows so far -/

/-- The rows that were made of a list of features: their contents, and the constraints. -/
structure RowsSoFar.Faithful (randomUUID : ℕ → Text) (rows : RowsSoFar)
    (features : List (Schema.Parsed Schema.Feature)) : Prop where
  contents : (rows.features.map fun row => (row.specId, row.title, row.filePath)) =
    features.map fun feature => (feature.value.id, feature.value.titre, feature.path)
  featureKey : (rows.features.map FeatureRow.id).Nodup
  featureDrawn : ∀ id ∈ rows.features.map FeatureRow.id, ∃ n < rows.drawn, id = randomUUID n
  criterionKey : (rows.criteria.map CriterionRow.id).Nodup
  criterionDrawn : ∀ id ∈ rows.criteria.map CriterionRow.id, ∃ n < rows.drawn, id = randomUUID n
  criterionSpecId : (rows.criteria.map fun row => (row.featureId, row.specId)).Nodup
  criterionPosition : (rows.criteria.map fun row => (row.featureId, row.position)).Nodup
  criterionFeature : ∀ row ∈ rows.criteria, row.featureId ∈ rows.features.map FeatureRow.id
  positionCheck : ∀ row ∈ rows.criteria, 1 ≤ row.position
  criterionOf : ∀ row ∈ rows.criteria, ∃ feature ∈ features,
    row.position ≤ feature.value.criteres.length ∧ ∃ criterion,
      feature.value.criteres.find? (fun other => other.id = row.specId) = some criterion ∧
        row.title = criterion.titre
  criterionRow : ∀ feature ∈ features, ∀ criterion : Schema.Criterion,
    feature.value.criteres.find? (fun other => other.id = criterion.id) = some criterion →
      ∃ row ∈ rows.criteria, row.specId = criterion.id ∧ row.title = criterion.titre
  tableLinkKey : (rows.tableLinks.map fun row => (row.featureId, row.targetSpecId)).Nodup
  tableLinkFeature : ∀ row ∈ rows.tableLinks, row.featureId ∈ rows.features.map FeatureRow.id
  tableLinkOf : ∀ row ∈ rows.tableLinks, ∃ feature ∈ features,
    row.targetSpecId ∈ feature.value.tables
  tableLinkRow : ∀ feature ∈ features, ∀ id ∈ feature.value.tables,
    ∃ row ∈ rows.tableLinks, row.targetSpecId = id
  endpointLinkKey : (rows.endpointLinks.map fun row => (row.featureId, row.targetSpecId)).Nodup
  endpointLinkFeature : ∀ row ∈ rows.endpointLinks,
    row.featureId ∈ rows.features.map FeatureRow.id
  endpointLinkOf : ∀ row ∈ rows.endpointLinks, ∃ feature ∈ features,
    row.targetSpecId ∈ feature.value.endpoints
  endpointLinkRow : ∀ feature ∈ features, ∀ id ∈ feature.value.endpoints,
    ∃ row ∈ rows.endpointLinks, row.targetSpecId = id

theorem RowsSoFar.Faithful.nil : RowsSoFar.Faithful randomUUID ⟨[], [], [], [], 0⟩ [] where
  contents := rfl
  featureKey := List.nodup_nil
  featureDrawn := List.forall_mem_nil _
  criterionKey := List.nodup_nil
  criterionDrawn := List.forall_mem_nil _
  criterionSpecId := List.nodup_nil
  criterionPosition := List.nodup_nil
  criterionFeature := List.forall_mem_nil _
  positionCheck := List.forall_mem_nil _
  criterionOf := List.forall_mem_nil _
  criterionRow := List.forall_mem_nil _
  tableLinkKey := List.nodup_nil
  tableLinkFeature := List.forall_mem_nil _
  tableLinkOf := List.forall_mem_nil _
  tableLinkRow := List.forall_mem_nil _
  endpointLinkKey := List.nodup_nil
  endpointLinkFeature := List.forall_mem_nil _
  endpointLinkOf := List.forall_mem_nil _
  endpointLinkRow := List.forall_mem_nil _

/-- Something of one more feature, next to what holds of those before it. -/
theorem forall_append_exists {α : Type u} {β : Type v} {old new : List α} {features : List β}
    {feature : β} {of : α → β → Prop} (before : ∀ a ∈ old, ∃ f ∈ features, of a f)
    (here : ∀ a ∈ new, of a feature) : ∀ a ∈ old ++ new, ∃ f ∈ features ++ [feature], of a f := by
  intro a member
  rcases List.mem_append.mp member with earlier | later
  · obtain ⟨f, known, holds⟩ := before a earlier
    exact ⟨f, List.mem_append_left _ known, holds⟩
  · exact ⟨feature, List.mem_append_right _ (List.mem_singleton.mpr rfl), here a later⟩

/-- A row for one more feature, next to those for the features before it. -/
theorem exists_of_append {α : Type u} {β : Type v} {old new : List α} {features : List β}
    {feature : β} {of : α → Prop} {asks : β → Prop}
    (before : ∀ f ∈ features, asks f → ∃ a ∈ old, of a) (here : asks feature → ∃ a ∈ new, of a) :
    ∀ f ∈ features ++ [feature], asks f → ∃ a ∈ old ++ new, of a := by
  intro f member asked
  rcases List.mem_append.mp member with earlier | later
  · obtain ⟨a, known, holds⟩ := before f earlier asked
    exact ⟨a, List.mem_append_left _ known, holds⟩
  · obtain ⟨a, made, holds⟩ := here (List.mem_singleton.mp later ▸ asked)
    exact ⟨a, List.mem_append_right _ made, holds⟩

/-- Identifiers that were drawn, and then others. -/
theorem nodup_drawn (fresh : Function.Injective randomUUID) {ids : List Text} {drawn : ℕ}
    (start count : ℕ) (before : ids.Nodup) (known : ∀ id ∈ ids, ∃ n < drawn, id = randomUUID n) (later : drawn ≤ start) :
    (ids ++ (List.range' start count).map randomUUID).Nodup ∧
      ∀ id ∈ ids ++ (List.range' start count).map randomUUID,
        ∃ n < start + count, id = randomUUID n := by
  constructor
  · refine before.append ((List.nodup_range' ..).map fresh) ?_
    intro id old new
    obtain ⟨n, small, rfl⟩ := known id old
    obtain ⟨m, member, same⟩ := List.mem_map.mp new
    have large := (List.mem_range'_1.mp member).1
    have equal := fresh same
    omega
  · intro id member
    rcases List.mem_append.mp member with old | new
    · obtain ⟨n, small, rfl⟩ := known id old
      exact ⟨n, by omega, rfl⟩
    · obtain ⟨m, inside, rfl⟩ := List.mem_map.mp new
      exact ⟨m, (List.mem_range'_1.mp inside).2, rfl⟩

/-- **One more feature keeps the constraints.** -/
theorem RowsSoFar.Faithful.addFeature (fresh : Function.Injective randomUUID) {rows : RowsSoFar}
    {features : List (Schema.Parsed Schema.Feature)} (faithful : rows.Faithful randomUUID features)
    (feature : Schema.Parsed Schema.Feature) :
    (addFeature randomUUID rows feature).Faithful randomUUID (features ++ [feature]) := by
  have others : randomUUID rows.drawn ∉ rows.features.map FeatureRow.id := by
    intro known
    obtain ⟨n, small, same⟩ := faithful.featureDrawn _ known
    exact absurd (fresh same) (Nat.ne_of_gt small)
  have names : (Webhook.addFeature randomUUID rows feature).features.map FeatureRow.id =
      rows.features.map FeatureRow.id ++ [randomUUID rows.drawn] := List.map_append
  have drawnFeatures := nodup_drawn fresh rows.drawn 1 faithful.featureKey faithful.featureDrawn
    (Nat.le_refl _)
  have drawnCriteria := nodup_drawn fresh (rows.drawn + 1)
    (criterionRows randomUUID (randomUUID rows.drawn) [] (rows.drawn + 1)
      feature.value.criteres).length faithful.criterionKey faithful.criterionDrawn (Nat.le_succ _)
  rw [← id_criterionRows, ← List.map_append] at drawnCriteria
  constructor
  · simp only [Webhook.addFeature, List.map_append, faithful.contents]
    rfl
  · rw [names]
    exact drawnFeatures.1
  · rw [names]
    intro id member
    obtain ⟨n, small, same⟩ := drawnFeatures.2 id member
    exact ⟨n, Nat.lt_of_lt_of_le small (Nat.le_add_right _ _), same⟩
  · exact drawnCriteria.1
  · exact drawnCriteria.2
  · exact nodup_owned faithful.criterionSpecId faithful.criterionFeature others
      (fun row member => (mem_criterionRows member).1) (nodup_specId_criterionRows _ _ _)
  · refine nodup_owned faithful.criterionPosition faithful.criterionFeature others
      (fun row member => (mem_criterionRows member).1) ?_
    rw [position_criterionRows]
    exact List.nodup_range' ..
  · rw [names]
    exact owned_append faithful.criterionFeature fun row member => (mem_criterionRows member).1
  · intro row member
    rcases List.mem_append.mp member with old | new
    · exact faithful.positionCheck row old
    · have position := List.mem_map_of_mem (f := CriterionRow.position) new
      rw [position_criterionRows] at position
      exact (List.mem_range'_1.mp position).1
  · refine forall_append_exists faithful.criterionOf fun row member =>
      ⟨?_, (mem_criterionRows member).2.2⟩
    have position := List.mem_map_of_mem (f := CriterionRow.position) member
    rw [position_criterionRows, List.mem_range'_1] at position
    have count := @length_criterionRows_le randomUUID (randomUUID rows.drawn) [] (rows.drawn + 1)
      feature.value.criteres
    rw [List.length_nil] at position
    omega
  · intro other member criterion first
    exact exists_of_append (fun f known => faithful.criterionRow f known criterion)
      (fun found => exists_criterionRow (rows.drawn + 1) found List.not_mem_nil) other member first
  · exact nodup_owned faithful.tableLinkKey faithful.tableLinkFeature others
      (fun row member => (mem_links member).1) (nodup_links _)
  · rw [names]
    exact owned_append faithful.tableLinkFeature fun row member => (mem_links member).1
  · exact forall_append_exists faithful.tableLinkOf fun row member => (mem_links member).2
  · intro other member id named
    exact exists_of_append (fun f known => faithful.tableLinkRow f known id) exists_link other member
      named
  · exact nodup_owned faithful.endpointLinkKey faithful.endpointLinkFeature others
      (fun row member => (mem_links member).1) (nodup_links _)
  · rw [names]
    exact owned_append faithful.endpointLinkFeature fun row member => (mem_links member).1
  · exact forall_append_exists faithful.endpointLinkOf fun row member => (mem_links member).2
  · intro other member id named
    exact exists_of_append (fun f known => faithful.endpointLinkRow f known id) exists_link other
      member named

/-- **The rows of any features are faithful to them.** -/
theorem faithful_rows (fresh : Function.Injective randomUUID)
    (features : List (Schema.Parsed Schema.Feature)) :
    (features.foldl (Webhook.addFeature randomUUID) ⟨[], [], [], [], 0⟩).Faithful randomUUID
      features := by
  induction features using List.reverseRecOn with
  | nil => exact .nil
  | append_singleton features feature ih =>
    rw [List.foldl_append]
    exact ih.addFeature fresh feature

/-- The row of a feature holds what one of the features does. -/
theorem RowsSoFar.Faithful.featureOf {rows : RowsSoFar}
    {features : List (Schema.Parsed Schema.Feature)} (faithful : rows.Faithful randomUUID features)
    {row : FeatureRow} (member : row ∈ rows.features) : ∃ feature ∈ features,
      feature.value.id = row.specId ∧ feature.value.titre = row.title ∧ feature.path = row.filePath := by
  have content := List.mem_map_of_mem (f := fun row : FeatureRow =>
    (row.specId, row.title, row.filePath)) member
  rw [faithful.contents] at content
  obtain ⟨feature, known, same⟩ := List.mem_map.mp content
  obtain ⟨id, titre, path⟩ := Prod.mk.injEq .. ▸ Prod.mk.injEq .. ▸ same
  exact ⟨feature, known, id, titre, path⟩

/-- What a feature holds is in one of the rows. -/
theorem RowsSoFar.Faithful.featureRow {rows : RowsSoFar}
    {features : List (Schema.Parsed Schema.Feature)} (faithful : rows.Faithful randomUUID features)
    {feature : Schema.Parsed Schema.Feature} (member : feature ∈ features) : ∃ row ∈ rows.features,
      row.specId = feature.value.id ∧ row.title = feature.value.titre ∧ row.filePath = feature.path := by
  have content : (feature.value.id, feature.value.titre, feature.path) ∈
      rows.features.map fun row => (row.specId, row.title, row.filePath) := by
    rw [faithful.contents]
    exact List.mem_map_of_mem member
  obtain ⟨row, known, same⟩ := List.mem_map.mp content
  obtain ⟨id, titre, path⟩ := Prod.mk.injEq .. ▸ Prod.mk.injEq .. ▸ same
  exact ⟨row, known, id, titre, path⟩

/-! ## Specifications that were parsed -/

/-- The identifiers of features that were read are written as such. -/
theorem features_parseOrdered {readers : Schema.Readers} {files : List Schema.SpecFile}
    {feature : Schema.Parsed Schema.Feature}
    (member : feature ∈ (Schema.parseOrdered readers files).spec.features) :
    Schema.Patterns.feature.Matches feature.value.id ∧
      (∀ id ∈ feature.value.tables, Schema.Patterns.table.Matches id) ∧
      (∀ id ∈ feature.value.endpoints, Schema.Patterns.endpoint.Matches id) ∧
      ∀ criterion ∈ feature.value.criteres, Schema.Patterns.criterion.Matches criterion.id := by
  have entry : (feature.path, Schema.Entity.feature feature.value) ∈
      (Schema.parseOrdered readers files).spec.entries .feature := List.mem_map_of_mem member
  obtain ⟨-, file, -, -, claimed, given⟩ := Schema.read_of_entry entry
  obtain ⟨-, ⟨known, parsed⟩, -⟩ := Schema.readFile_eq_some given
  obtain ⟨value, read, same⟩ := map_eq_ok.mp parsed
  cases same
  obtain ⟨data, decoded⟩ := Schema.schema_of_parseFeatureMarkdown read
  exact Schema.featureSchema_ids decoded

theorem ids_endpoint (spec : Schema.ParsedSpec) :
    spec.ids .endpoint = spec.endpoints.map fun e => e.value.id := by
  rw [Schema.ParsedSpec.ids, Schema.ParsedSpec.entries, List.filterMap_map,
    ← List.filterMap_eq_map]
  rfl

section Parsed

variable (readers : Schema.Readers) (files : List Schema.SpecFile)

/-- **The rows of a parsed specification keep every constraint of the index tables.** -/
theorem rowsOf_lawful (fresh : Function.Injective randomUUID) :
    (rowsOf randomUUID (Schema.parseSpecFiles readers files).1).Lawful := by
  have sound : (Schema.parseSpecFiles readers files).1.Sound :=
    Schema.sound_parseOrdered readers (Schema.orderedFiles files)
  have ids : ∀ feature ∈ (Schema.parseSpecFiles readers files).1.features, _ :=
    fun feature member => features_parseOrdered member
  have endpoints : ((Schema.parseSpecFiles readers files).1.endpoints.map
      fun e => e.value.id).Nodup := by
    rw [← ids_endpoint]
    exact (Schema.ids_parseOrdered (Schema.orderedFiles files) .endpoint).1
  have faithful := faithful_rows fresh (Schema.parseSpecFiles readers files).1.features
  have specIds := congrArg (List.map Prod.fst) faithful.contents
  rw [List.map_map, List.map_map] at specIds
  constructor
  · exact faithful.featureKey
  · exact specIds ▸ sound.features
  · intro row member
    have named := List.mem_map_of_mem (f := FeatureRow.specId) member
    obtain ⟨feature, known, same⟩ := List.mem_map.mp (specIds ▸ named)
    have matched := (ids feature known).1
    exact same ▸ matched
  · exact faithful.criterionKey
  · exact faithful.criterionSpecId
  · exact faithful.criterionPosition
  · exact faithful.criterionFeature
  · intro row member
    obtain ⟨feature, known, -, criterion, first, -⟩ := faithful.criterionOf row member
    have matched := (ids feature known).2.2.2 criterion (List.mem_of_find?_eq_some first)
    have same : criterion.id = row.specId := by simpa using List.find?_some first
    exact same ▸ matched
  · exact faithful.positionCheck
  · exact faithful.tableLinkKey
  · exact faithful.tableLinkFeature
  · exact faithful.endpointLinkKey
  · exact faithful.endpointLinkFeature
  · have tables := sound.tables
    rw [rowsOf, List.map_map]
    exact tables
  · intro row member
    obtain ⟨table, known, rfl⟩ := List.mem_map.mp member
    exact (sound.table table known).1
  · rw [rowsOf, List.map_map]
    exact endpoints
  · intro row member
    obtain ⟨endpoint, known, rfl⟩ := List.mem_map.mp member
    exact sound.endpoint endpoint known

end Parsed

/-! ## Texts that are stored -/

/-- An identifier is stored. -/
theorem storable_of_id {mark id : Text} {body : Pattern CodeUnit}
    (matched : (Pattern.seq (.text mark) body).Matches id) (visible : Storable mark)
    (units : body.Units fun u => Schema.isWordUnit u = true) : Storable id := by
  obtain ⟨rest, rfl, inside⟩ := Pattern.matches_text_seq.mp matched
  intro nul
  rcases List.mem_append.mp nul with before | after
  · exact visible before
  · exact absurd (inside.forall_units units 0 after) (by decide)

theorem storable_feature {id : Text} (matched : Schema.Patterns.feature.Matches id) : Storable id :=
  storable_of_id matched (by decide) Schema.units_of_digits

theorem storable_table {id : Text} (matched : Schema.Patterns.table.Matches id) : Storable id :=
  storable_of_id matched (by decide) Schema.units_of_slug

theorem storable_endpoint {id : Text} (matched : Schema.Patterns.endpoint.Matches id) :
    Storable id :=
  storable_of_id matched (by decide) Schema.units_of_slug

theorem storable_criterion {id : Text} (matched : Schema.Patterns.criterion.Matches id) :
    Storable id := by
  have digit : ∀ u, Text.isDigit u = true → Schema.isWordUnit u = true := by
    intro u known
    rw [Schema.isWordUnit, known, Bool.or_true, Bool.true_or]
  exact storable_of_id matched (by decide) ⟨digit, digit⟩

/-! ## What is asked of a file -/

section Contents

variable (sizes : Sizes) (readers : Schema.Readers)

/-- The content of the file of a feature: no NUL in the title and in the headings of the criteria,
and no identifier, link or title that is too large for an index. -/
structure FeatureContent (file : Schema.SpecFile) : Prop where
  titre : ∀ titre ∈ Schema.yamlTexts readers .feature file "titre", Storable titre
  search : ∀ id ∈ Schema.yamlTexts readers .feature file "id",
    ∀ titre ∈ Schema.yamlTexts readers .feature file "titre",
      sizes.vector (searchText id titre) ≤ maxVectorSize
  ids : ∀ key ∈ ["id", "tables", "endpoints"],
    ∀ id ∈ Schema.yamlTexts readers .feature file key, sizes.entry id ≤ maxEntrySize
  headings : ∀ line ∈ Schema.headingLines file,
    Storable line ∧ sizes.entry (Schema.headingParts line).1 ≤ maxEntrySize

/-- What the index asks of a file, of its path and of its content. -/
def ContentFits (file : Schema.SpecFile) : Schema.Kind → Prop
  | .feature => Storable file.path ∧ FeatureContent sizes readers file
  | .table => Storable file.path ∧
      ∀ id ∈ Schema.yamlTexts readers .table file "id", sizes.entry id ≤ maxEntrySize
  | .endpoint => Storable file.path ∧
      (∀ chemin ∈ Schema.yamlTexts readers .endpoint file "chemin", Storable chemin) ∧
        ∀ id ∈ Schema.yamlTexts readers .endpoint file "id", sizes.entry id ≤ maxEntrySize
  | .project | .relations | .screen | .test | .roles | .rule => True

/-- It is asked of the files that are the first, in the order of paths, to claim an identifier. -/
def ContentsFit (files : List Schema.SpecFile) : Prop :=
  ∀ kind id file,
    Schema.firstClaimant readers (Schema.orderedFiles files) (kind, id) = some file →
      ContentFits sizes readers file kind

end Contents

section Fitting

variable {sizes : Sizes} {readers : Schema.Readers}

/-- What the rows of a feature ask of it. -/
structure FeatureFits (sizes : Sizes) (feature : Schema.Feature) : Prop where
  titre : Storable feature.titre
  search : sizes.vector (searchText feature.id feature.titre) ≤ maxVectorSize
  id : sizes.entry feature.id ≤ maxEntrySize
  tables : ∀ id ∈ feature.tables, sizes.entry id ≤ maxEntrySize
  endpoints : ∀ id ∈ feature.endpoints, sizes.entry id ≤ maxEntrySize
  criteres : ∀ criterion ∈ feature.criteres,
    Storable criterion.titre ∧ sizes.entry criterion.id ≤ maxEntrySize

/-- What the rows of an entity ask of it and of its path. -/
def EntityFits (sizes : Sizes) (path : Text) : Schema.Entity → Prop
  | .feature value => Storable path ∧ FeatureFits sizes value
  | .table value => Storable path ∧ sizes.entry value.id ≤ maxEntrySize
  | .endpoint value =>
      Storable path ∧ Storable value.chemin ∧ sizes.entry value.id ≤ maxEntrySize
  | .project _ | .relations _ | .screen _ | .test _ | .roles _ | .rule _ => True

/-- A heading can be stored when its title can. -/
theorem storable_heading_iff {line id titre : Text}
    (heading : (Schema.headingRegex.exec line).isSome = true)
    (parts : Schema.headingParts line = (id, titre)) (named : id ≠ []) :
    Storable line ↔ Storable titre :=
  not_congr (Schema.mem_heading_iff heading parts named (by decide) (by decide) (by decide))

theorem featureContent_iff {file : Schema.SpecFile} {feature : Schema.Feature}
    (written : feature.WrittenIn readers file)
    (named : ∀ criterion ∈ feature.criteres, criterion.id ≠ []) :
    FeatureContent sizes readers file ↔ FeatureFits sizes feature := by
  -- The headings and the criteria are the same pairs, in the same order.
  have headings : (∀ line ∈ Schema.headingLines file,
        Storable line ∧ sizes.entry (Schema.headingParts line).1 ≤ maxEntrySize) ↔
      ∀ criterion ∈ feature.criteres,
        Storable criterion.titre ∧ sizes.entry criterion.id ≤ maxEntrySize := by
    constructor
    · intro all criterion member
      have pair := List.mem_map_of_mem (f := fun c : Schema.Criterion => (c.id, c.titre)) member
      rw [written.criteres] at pair
      obtain ⟨line, known, parts⟩ := List.mem_map.mp pair
      obtain ⟨stored, small⟩ := all line known
      have heading := (List.mem_filter.mp known).2
      exact ⟨(storable_heading_iff heading parts (named criterion member)).mp stored, by
        rwa [parts] at small⟩
    · intro all line known
      have pair := List.mem_map_of_mem (f := Schema.headingParts) known
      rw [← written.criteres] at pair
      obtain ⟨criterion, member, parts⟩ := List.mem_map.mp pair
      obtain ⟨stored, small⟩ := all criterion member
      have heading := (List.mem_filter.mp known).2
      exact ⟨(storable_heading_iff heading parts.symm (named criterion member)).mpr stored, by
        rwa [← parts]⟩
  constructor
  · rintro ⟨titre, search, ids, lines⟩
    simp only [List.forall_mem_cons, written.id, written.titre, written.tables, written.endpoints,
      List.mem_singleton, forall_eq] at titre search ids
    exact ⟨titre, search, ids.1, ids.2.1, ids.2.2, headings.mp lines⟩
  · rintro ⟨titre, search, id, tables, endpoints, criteres⟩
    refine ⟨?_, ?_, ?_, headings.mpr criteres⟩
    · rw [written.titre]
      exact List.forall_mem_singleton.mpr titre
    · rw [written.id, written.titre]
      exact List.forall_mem_singleton.mpr (List.forall_mem_singleton.mpr search)
    · simp only [List.forall_mem_cons, written.id, written.tables, written.endpoints,
        List.mem_singleton, forall_eq]
      exact ⟨id, tables, endpoints⟩

/-- **What is asked of a file is asked of its entity.** -/
theorem contentFits_iff {file : Schema.SpecFile} {entity : Schema.Entity}
    {claimed : Option (Schema.Kind × Text)}
    (read : Schema.readFile readers file = some (entity, claimed)) :
    ContentFits sizes readers file entity.kind ↔ EntityFits sizes file.path entity := by
  obtain ⟨-, ⟨known, parsed⟩, -⟩ := Schema.readFile_eq_some read
  cases entity with
  | feature value =>
    obtain ⟨other, markdown, same⟩ := map_eq_ok.mp parsed
    cases same
    obtain ⟨data, decoded⟩ := Schema.schema_of_parseFeatureMarkdown markdown
    refine and_congr_right fun _ =>
      featureContent_iff (Schema.feature_writtenIn markdown) fun criterion member none => ?_
    have matched := (Schema.featureSchema_ids decoded).2.2.2 criterion member
    rw [none, Schema.Patterns.criterion] at matched
    obtain ⟨rest, wrong, -⟩ := Pattern.matches_text_seq.mp matched
    cases wrong
  | table value =>
    rw [Schema.Entity.kind, ContentFits, EntityFits, Schema.table_written parsed,
      List.forall_mem_singleton]
  | endpoint value =>
    obtain ⟨id, chemin⟩ := Schema.endpoint_written parsed
    rw [Schema.Entity.kind, ContentFits, EntityFits, id, chemin, List.forall_mem_singleton,
      List.forall_mem_singleton]
  | project _ | relations _ | screen _ | test _ | roles _ | rule _ => exact Iff.rfl

/-- What is asked of the files is asked of the specification. -/
theorem contentsFit_iff {files : List Schema.SpecFile} :
    ContentsFit sizes readers files ↔ ∀ kind : Schema.Kind, kind.identified = true →
      ∀ entry ∈ (Schema.parseSpecFiles readers files).1.entries kind,
        EntityFits sizes entry.1 entry.2 := by
  constructor
  · intro all kind identified entry stands
    obtain ⟨id, file, found, path, read⟩ := (Schema.mem_entries_iff identified).mp stands
    have kinds := (Schema.readFile_eq_some read).2.2.1
    obtain ⟨_, -, same⟩ := Option.map_eq_some_iff.mp kinds.symm
    have own : entry.2.kind = kind := (Prod.mk.inj same).1
    rw [← path, ← contentFits_iff read, own]
    exact all kind id file found
  · intro all kind id file found
    have claims := found
    rw [Schema.firstClaimant] at claims
    have claimed := List.find?_some claims
    obtain ⟨entity, read⟩ := Schema.claim_eq_some.mp (of_decide_eq_true claimed)
    obtain ⟨-, -, kinds, known⟩ := Schema.readFile_eq_some read
    obtain ⟨_, -, same⟩ := Option.map_eq_some_iff.mp kinds.symm
    have own : entity.kind = kind := (Prod.mk.inj same).1
    rw [← own, contentFits_iff read]
    exact all kind (own ▸ known.mpr rfl) (file.path, entity)
      ((Schema.mem_entries_iff (own ▸ known.mpr rfl)).mpr ⟨id, file, found, rfl, read⟩)

end Fitting

/-! ## What is asked of the rows -/

section Rows

variable {sizes : Sizes} {readers : Schema.Readers} {files : List Schema.SpecFile}

/-- A feature that was read is written in a file. -/
theorem file_of_feature {feature : Schema.Parsed Schema.Feature}
    (member : feature ∈ (Schema.parseSpecFiles readers files).1.features) :
    ∃ file, feature.value.WrittenIn readers file := by
  have entry : (feature.path, Schema.Entity.feature feature.value) ∈
      (Schema.parseOrdered readers (Schema.orderedFiles files)).spec.entries .feature :=
    List.mem_map_of_mem member
  obtain ⟨-, file, -, -, claimed, given⟩ := Schema.read_of_entry entry
  obtain ⟨-, ⟨known, parsed⟩, -⟩ := Schema.readFile_eq_some given
  obtain ⟨value, read, same⟩ := map_eq_ok.mp parsed
  cases same
  exact ⟨file, Schema.feature_writtenIn read⟩

/-- Rows that are stored and within the limits ask it of the specification. -/
theorem entityFits_of_rows (fresh : Function.Injective randomUUID)
    (stored : (rowsOf randomUUID (Schema.parseSpecFiles readers files).1).Stored)
    (fits : (rowsOf randomUUID (Schema.parseSpecFiles readers files).1).Fits sizes)
    {kind : Schema.Kind} {entry : Text × Schema.Entity}
    (stands : entry ∈ (Schema.parseSpecFiles readers files).1.entries kind) :
    EntityFits sizes entry.1 entry.2 := by
  have faithful := faithful_rows fresh (Schema.parseSpecFiles readers files).1.features
  cases kind with
  | feature =>
    obtain ⟨feature, member, rfl⟩ := List.mem_map.mp stands
    obtain ⟨row, known, id, titre, path⟩ := faithful.featureRow member
    obtain ⟨-, title, filed⟩ := stored.features row known
    obtain ⟨entrySize, vectorSize⟩ := fits.features row known
    rw [id] at entrySize
    rw [id, titre] at vectorSize
    refine ⟨path ▸ filed, titre ▸ title, vectorSize, entrySize, ?_, ?_, ?_⟩
    · intro target named
      obtain ⟨link, made, rfl⟩ := faithful.tableLinkRow feature member target named
      exact fits.tableLinks link made
    · intro target named
      obtain ⟨link, made, rfl⟩ := faithful.endpointLinkRow feature member target named
      exact fits.endpointLinks link made
    · intro criterion inside
      obtain ⟨file, written⟩ := file_of_feature member
      obtain ⟨row, made, id, title⟩ := faithful.criterionRow feature member criterion
        (find?_of_distinct written.distinct inside)
      have small := (fits.criteria row made).1
      exact ⟨title ▸ (stored.criteria row made).2, id ▸ small⟩
  | table =>
    obtain ⟨table, member, rfl⟩ := List.mem_map.mp stands
    exact ⟨(stored.tables _ (List.mem_map_of_mem member)).2,
      fits.tables _ (List.mem_map_of_mem member)⟩
  | endpoint =>
    obtain ⟨endpoint, member, rfl⟩ := List.mem_map.mp stands
    obtain ⟨-, request, path⟩ := stored.endpoints _ (List.mem_map_of_mem member)
    exact ⟨path, request, fits.endpoints _ (List.mem_map_of_mem member)⟩
  | project | relations | screen | test | roles | rule =>
    obtain ⟨_, _, rfl⟩ := List.mem_map.mp stands
    trivial

/-- The row of a criterion holds what a criterion does, and its position is that of a criterion of
a file. -/
theorem criterionOf_row (fresh : Function.Injective randomUUID) {row : CriterionRow}
    (member : row ∈ (rowsOf randomUUID (Schema.parseSpecFiles readers files).1).criteria) :
    ∃ feature ∈ (Schema.parseSpecFiles readers files).1.features,
      ∃ criterion ∈ feature.value.criteres, criterion.id = row.specId ∧ row.title = criterion.titre ∧
        row.position ≤ maxInteger := by
  obtain ⟨feature, known, position, criterion, first, title⟩ :=
    (faithful_rows fresh (Schema.parseSpecFiles readers files).1.features).criterionOf row member
  have same : criterion.id = row.specId := by simpa using List.find?_some first
  obtain ⟨file, written⟩ := file_of_feature known
  have room : Schema.maxFileChars + 1 ≤ maxInteger := by decide
  exact ⟨feature, known, criterion, List.mem_of_find?_eq_some first, same, title,
    (position.trans written.short).trans room⟩

/-- A specification that fits has rows that are stored and within the limits. -/
theorem rows_of_entityFits (fresh : Function.Injective randomUUID)
    (fits : ∀ kind : Schema.Kind, kind.identified = true →
      ∀ entry ∈ (Schema.parseSpecFiles readers files).1.entries kind,
        EntityFits sizes entry.1 entry.2) :
    (rowsOf randomUUID (Schema.parseSpecFiles readers files).1).Stored ∧
      (rowsOf randomUUID (Schema.parseSpecFiles readers files).1).Fits sizes := by
  have lawful := rowsOf_lawful readers files fresh
  have faithful := faithful_rows fresh (Schema.parseSpecFiles readers files).1.features
  have ids : ∀ feature ∈ (Schema.parseSpecFiles readers files).1.features, _ :=
    fun feature member => features_parseOrdered member
  have features : ∀ feature ∈ (Schema.parseSpecFiles readers files).1.features,
      Storable feature.path ∧ FeatureFits sizes feature.value :=
    fun feature member => fits .feature rfl _ (List.mem_map_of_mem member)
  have tables : ∀ table ∈ (Schema.parseSpecFiles readers files).1.tables,
      EntityFits sizes table.path (.table table.value) :=
    fun table member => fits .table rfl _ (List.mem_map_of_mem member)
  have endpoints : ∀ endpoint ∈ (Schema.parseSpecFiles readers files).1.endpoints,
      EntityFits sizes endpoint.path (.endpoint endpoint.value) :=
    fun endpoint member => fits .endpoint rfl _ (List.mem_map_of_mem member)
  have criteria : ∀ row ∈ (rowsOf randomUUID (Schema.parseSpecFiles readers files).1).criteria,
      Storable row.title ∧ sizes.entry row.specId ≤ maxEntrySize ∧ row.position ≤ maxInteger := by
    intro row member
    obtain ⟨feature, known, criterion, inside, same, title, position⟩ := criterionOf_row fresh member
    obtain ⟨stored, small⟩ := (features feature known).2.criteres criterion inside
    exact ⟨title ▸ stored, same ▸ small, position⟩
  refine ⟨⟨?_, ?_, ?_, ?_, ?_, ?_⟩, ?_, fun row member => (criteria row member).2, ?_, ?_, ?_, ?_⟩
  · intro row member
    obtain ⟨feature, known, -, titre, path⟩ := faithful.featureOf member
    obtain ⟨filed, fitted⟩ := features feature known
    exact ⟨storable_feature (lawful.featurePattern row member), titre ▸ fitted.titre, path ▸ filed⟩
  · exact fun row member =>
      ⟨storable_criterion (lawful.criterionPattern row member), (criteria row member).1⟩
  · intro row member
    obtain ⟨feature, known, named⟩ := faithful.tableLinkOf row member
    exact storable_table ((ids feature known).2.1 _ named)
  · intro row member
    obtain ⟨feature, known, named⟩ := faithful.endpointLinkOf row member
    exact storable_endpoint ((ids feature known).2.2.1 _ named)
  · intro row member
    have id := storable_table (lawful.tablePattern row member)
    obtain ⟨table, known, rfl⟩ := List.mem_map.mp member
    exact ⟨id, (tables table known).1⟩
  · intro row member
    have id := storable_endpoint (lawful.endpointPattern row member)
    obtain ⟨endpoint, known, rfl⟩ := List.mem_map.mp member
    obtain ⟨path, request, -⟩ := endpoints endpoint known
    exact ⟨id, request, path⟩
  · intro row member
    obtain ⟨feature, known, id, titre, -⟩ := faithful.featureOf member
    have fitted := (features feature known).2
    rw [← id, ← titre]
    exact ⟨fitted.id, fitted.search⟩
  · intro row member
    obtain ⟨feature, known, named⟩ := faithful.tableLinkOf row member
    exact (features feature known).2.tables _ named
  · intro row member
    obtain ⟨feature, known, named⟩ := faithful.endpointLinkOf row member
    exact (features feature known).2.endpoints _ named
  · intro row member
    obtain ⟨table, known, rfl⟩ := List.mem_map.mp member
    exact (tables table known).2
  · intro row member
    obtain ⟨endpoint, known, rfl⟩ := List.mem_map.mp member
    exact (endpoints endpoint known).2.2

end Rows

/-- **The rows of a parsed specification can be inserted** exactly when the files that its entities are
taken from keep to what the index asks of their paths and of their contents. -/
theorem rows_insertable_iff (fresh : Function.Injective randomUUID) (sizes : Sizes)
    (readers : Schema.Readers) (files : List Schema.SpecFile) :
    (rowsOf randomUUID (Schema.parseSpecFiles readers files).1).Insertable sizes ↔
      ContentsFit sizes readers files := by
  rw [contentsFit_iff]
  constructor
  · rintro ⟨-, stored, fits⟩ kind - entry stands
    exact entityFits_of_rows fresh stored fits stands
  · exact fun fits => ⟨rowsOf_lawful readers files fresh, rows_of_entityFits fresh fits⟩

/-! ## Two files -/

/-- Identifiers in the order they are drawn. -/
def countedUuid (n : ℕ) : Text := Text.lit "0b6e9f1c-5d1a-4c7e-9a43-" ++ Text.ofNat (10 ^ 11 + n)

theorem countedUuid_injective : Function.Injective countedUuid := by
  intro n m same
  have digits := List.append_cancel_left same
  have equal := congrArg Text.decimal digits
  rw [Text.decimal_ofNat, Text.decimal_ofNat] at equal
  omega

/-- The readers of an endpoint whose request has this path. -/
def endpointReaders (chemin : Text) : Schema.Readers where
  message _ := []
  yaml := ⟨fun value => value, fun _ => ⟨[], [], .record [
    (Text.lit "id", .text (Text.lit "E-a")), (Text.lit "methode", .text (Text.lit "GET")),
    (Text.lit "chemin", .text chemin)]⟩⟩
  jsonReason text := text

def endpointFile (content : String) : Schema.SpecFile :=
  ⟨Text.lit "api/endpoints/E-a.yaml", Text.lit content⟩

/-- The sizes of short texts: an entry has a header, an identifier of sixteen bytes and a text after its
length, on eight bytes; a search vector has its words, each with one position. -/
def shortSizes : Sizes where
  entry text := (25 + text.length + 7) / 8 * 8
  vector text := (text.splitOn 0x20).foldl (fun size word => (size + word.length + 1) / 2 * 2 + 4) 0

/-- A feature and an endpoint. -/
def indexedFiles : List Schema.SpecFile :=
  [⟨Text.lit "features/F-001.md", Schema.loginText (Text.lit "mot de passe valide")⟩,
    endpointFile "id: E-a\nmethode: GET\nchemin: '/a'"]

def plainFileReaders : Schema.Readers := ⟨fun _ => [], Schema.PlainYaml.package, id⟩

/-- The rows of the two files can be inserted. -/
theorem rows_insertable_of_two :
    (rowsOf countedUuid (Schema.parseSpecFiles plainFileReaders indexedFiles).1).Insertable
      shortSizes := by
  refine (rows_insertable_iff countedUuid_injective shortSizes _ _).mpr fun kind id file found => ?_
  rw [Schema.firstClaimant] at found
  have member := Schema.mem_orderedFiles.mp (List.mem_of_find?_eq_some found)
  have features : ∀ file ∈ indexedFiles, FeatureContent shortSizes plainFileReaders file := by
    intro file member
    have titre : ∀ file ∈ indexedFiles,
        ∀ titre ∈ Schema.yamlTexts plainFileReaders .feature file "titre", Storable titre := by
      decide +kernel
    have search : ∀ file ∈ indexedFiles,
        ∀ id ∈ Schema.yamlTexts plainFileReaders .feature file "id",
          ∀ titre ∈ Schema.yamlTexts plainFileReaders .feature file "titre",
            shortSizes.vector (searchText id titre) ≤ maxVectorSize := by decide +kernel
    have ids : ∀ file ∈ indexedFiles, ∀ key ∈ ["id", "tables", "endpoints"],
        ∀ id ∈ Schema.yamlTexts plainFileReaders .feature file key,
          shortSizes.entry id ≤ maxEntrySize := by decide +kernel
    have headings : ∀ file ∈ indexedFiles, ∀ line ∈ Schema.headingLines file,
        Storable line ∧ shortSizes.entry (Schema.headingParts line).1 ≤ maxEntrySize := by
      decide +kernel
    exact ⟨titre file member, search file member, ids file member, headings file member⟩
  have paths : ∀ file ∈ indexedFiles, Storable file.path := by decide +kernel
  have others : ∀ file ∈ indexedFiles,
      (∀ id ∈ Schema.yamlTexts plainFileReaders .table file "id",
        shortSizes.entry id ≤ maxEntrySize) ∧
      (∀ chemin ∈ Schema.yamlTexts plainFileReaders .endpoint file "chemin", Storable chemin) ∧
        ∀ id ∈ Schema.yamlTexts plainFileReaders .endpoint file "id",
          shortSizes.entry id ≤ maxEntrySize := by decide +kernel
  cases kind with
  | feature => exact ⟨paths file member, features file member⟩
  | table => exact ⟨paths file member, (others file member).1⟩
  | endpoint => exact ⟨paths file member, (others file member).2⟩
  | project | relations | screen | test | roles | rule => trivial

/-- **A path with a NUL cannot be inserted**: the schema accepts the escape of YAML. -/
theorem path_with_nul :
    ¬ (rowsOf countedUuid (Schema.parseSpecFiles (endpointReaders (Text.lit "/a" ++ [0]))
      [endpointFile "id: E-a\nmethode: GET\nchemin: \"/a\\0\"\n"]).1).Insertable shortSizes := by
  rintro ⟨-, stored, -⟩
  have refused := (stored.endpoints _ List.mem_cons_self).2.1
  exact refused (by decide)

end Koklo.Webhook
