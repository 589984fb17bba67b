import Koklo.Foundations.Fallible
import Koklo.SpecBatch.Submissions

/-!
# Positions and identifiers of the operations

The operations of a batch have the positions from one on, in the order of the submission
(`Numbered`). The identifiers of its creations are those of increasing values of the counter, above
the values of the batches before it (`Allotted`), and so they are all different
(`Allotted.distinct`).
-/

set_option autoImplicit false

namespace Koklo.SpecBatch

open Koklo.Foundations Koklo.Foundations.Json

/-! ## Identifiers -/

def OperationRow.isCreation (row : OperationRow) : Bool := row.kind = .create

/-- **An identifier is that of one value** of the counter. -/
theorem featureId_injective : Function.Injective featureId := by
  intro first second same
  exact Text.padded_injective 3 (List.append_cancel_left same)

/-- The creations have the identifiers of increasing values, above the first and up to the last. -/
def Allotted (low high : ℕ) (operations : List OperationRow) : Prop :=
  ∃ values : List ℕ, values.Pairwise (· < ·) ∧ (∀ value ∈ values, low < value ∧ value ≤ high) ∧
    (operations.filter OperationRow.isCreation).map OperationRow.targetSpecId =
      values.map fun value => some (featureId value)

theorem Allotted.nil (low high : ℕ) : Allotted low high [] :=
  ⟨[], .nil, fun _ member => absurd member List.not_mem_nil, rfl⟩

/-- Operations that are no creations. -/
theorem Allotted.of_no_creation {operations : List OperationRow}
    (none_ : operations.filter OperationRow.isCreation = []) (low high : ℕ) :
    Allotted low high operations :=
  ⟨[], .nil, fun _ member => absurd member List.not_mem_nil, by rw [none_]; rfl⟩

theorem Allotted.no_creation {value : ℕ} {operations : List OperationRow}
    (allotted : Allotted value value operations) :
    operations.filter OperationRow.isCreation = [] := by
  obtain ⟨values, _, within, same⟩ := allotted
  cases values with
  | nil => exact List.map_eq_nil_iff.mp same
  | cons first values =>
    obtain ⟨lower, upper⟩ := within first List.mem_cons_self
    omega

theorem Allotted.mono {low high higher : ℕ} {operations : List OperationRow}
    (allotted : Allotted low high operations) (above : high ≤ higher) :
    Allotted low higher operations := by
  obtain ⟨values, increasing, within, same⟩ := allotted
  refine ⟨values, increasing, fun value member => ?_, same⟩
  obtain ⟨lower, upper⟩ := within value member
  exact ⟨lower, Nat.le_trans upper above⟩

/-- **Operations whose values are above those of the ones before.** -/
theorem Allotted.append {low mid high : ℕ} {first second : List OperationRow}
    (before : Allotted low mid first) (after : Allotted mid high second) (lower : low ≤ mid)
    (upper : mid ≤ high) : Allotted low high (first ++ second) := by
  obtain ⟨values, increasing, within, same⟩ := before
  obtain ⟨values', increasing', within', same'⟩ := after
  refine ⟨values ++ values', ?_, fun value member => ?_, ?_⟩
  · refine List.pairwise_append.mpr ⟨increasing, increasing', fun value member value' member' => ?_⟩
    exact Nat.lt_of_le_of_lt (within value member).2 (within' value' member').1
  · rcases List.mem_append.mp member with old | new
    · exact ⟨(within value old).1, Nat.le_trans (within value old).2 upper⟩
    · exact ⟨Nat.lt_of_le_of_lt lower (within' value new).1, (within' value new).2⟩
  · rw [List.filter_append, List.map_append, same, same', List.map_append]

/-- A creation with the next value. -/
theorem Allotted.creation {value : ℕ} {row : OperationRow}
    (named : row.targetSpecId = some (featureId (value + 1))) :
    Allotted value (value + 1) [row] := by
  by_cases created : row.isCreation = true
  · refine ⟨[value + 1], List.pairwise_singleton _ _, fun other member => ?_, ?_⟩
    · rw [List.mem_singleton.mp member]
      exact ⟨Nat.lt_succ_self value, Nat.le_refl _⟩
    · rw [List.filter_cons_of_pos created, List.filter_nil, List.map_singleton,
        List.map_singleton, named]
  · refine .of_no_creation ?_ value (value + 1)
    rw [List.filter_cons_of_neg created, List.filter_nil]

/-- Operations with the same kinds and identifiers. -/
theorem Allotted.congr {low high : ℕ} {operations others : List OperationRow}
    (allotted : Allotted low high operations)
    (same : operations.map (fun row => (row.kind, row.targetSpecId)) =
      others.map fun row => (row.kind, row.targetSpecId)) : Allotted low high others := by
  have labels : ∀ list : List OperationRow,
      (list.filter OperationRow.isCreation).map OperationRow.targetSpecId =
        ((list.map fun row => (row.kind, row.targetSpecId)).filter
          fun label => decide (label.1 = .create)).map Prod.snd := by
    intro list
    rw [List.filter_map, List.map_map]
    rfl
  obtain ⟨values, increasing, within, named⟩ := allotted
  refine ⟨values, increasing, within, ?_⟩
  rw [labels, ← same, ← labels]
  exact named

/-- **The creations have different identifiers.** -/
theorem Allotted.distinct {low high : ℕ} {operations : List OperationRow}
    (allotted : Allotted low high operations) :
    ((operations.filter OperationRow.isCreation).map OperationRow.targetSpecId).Nodup := by
  obtain ⟨values, increasing, _, same⟩ := allotted
  rw [same]
  refine (increasing.imp fun less => Nat.ne_of_lt less).map _ fun first second apart same => ?_
  exact apart (featureId_injective (Option.some.inj same))

theorem Allotted.named {low high : ℕ} {operations : List OperationRow}
    (allotted : Allotted low high operations) {row : OperationRow} (member : row ∈ operations)
    (created : row.kind = .create) : ∃ value, row.targetSpecId = some (featureId value) := by
  obtain ⟨values, _, _, same⟩ := allotted
  have listed : row.targetSpecId ∈
      (operations.filter OperationRow.isCreation).map OperationRow.targetSpecId :=
    List.mem_map.mpr ⟨row, List.mem_filter.mpr ⟨member, decide_eq_true created⟩, rfl⟩
  rw [same] at listed
  obtain ⟨value, _, named⟩ := List.mem_map.mp listed
  exact ⟨value, named.symm⟩

/-! ## Positions -/

/-- A row is that of an operation of the batch, and its fields are kept as a relation says. -/
structure RowOf (kept : Data → Data → Prop) (id : ℕ) (row : OperationRow)
    (operation : PreparedOperation) : Prop where
  batchId : row.batchId = id
  kind : row.kind = operation.kind
  specId : operation.kind ≠ .create → row.targetSpecId = operation.specId
  payload : kept row.payload (.record operation.payload.fields)

/-- The rows of the operations of a batch, at the positions from one on. -/
structure Numbered (kept : Data → Data → Prop) (id : ℕ) (operations : List OperationRow)
    (prepared : List PreparedOperation) : Prop where
  positions : operations.map OperationRow.position = List.range' 1 prepared.length
  rows : List.Forall₂ (RowOf kept id) operations prepared

variable {kept : Data → Data → Prop} {id : ℕ} {operations : List OperationRow}
  {prepared : List PreparedOperation}

theorem Numbered.nil : Numbered kept id [] [] := ⟨rfl, .nil⟩

theorem Numbered.length_eq (numbered : Numbered kept id operations prepared) :
    operations.length = prepared.length := numbered.rows.length_eq

/-- One more operation, at the next position. -/
theorem Numbered.concat (numbered : Numbered kept id operations prepared) {row : OperationRow}
    {operation : PreparedOperation} (at_ : row.position = operations.length + 1)
    (rowOf : RowOf kept id row operation) :
    Numbered kept id (operations ++ [row]) (prepared ++ [operation]) := by
  refine ⟨?_, List.rel_append numbered.rows (.cons rowOf .nil)⟩
  rw [List.map_append, numbered.positions, List.map_singleton, at_, numbered.length_eq,
    List.length_append, List.length_singleton, List.range'_1_concat, Nat.add_comm 1]

theorem Numbered.batchId (numbered : Numbered kept id operations prepared) {row : OperationRow}
    (member : row ∈ operations) : row.batchId = id := by
  obtain ⟨i, inside, rfl⟩ := List.getElem_of_mem member
  have inside' : i < prepared.length := numbered.length_eq ▸ inside
  exact ((List.forall₂_iff_get.mp numbered.rows).2 i inside inside').batchId

theorem Numbered.payload (numbered : Numbered kept id operations prepared) {row : OperationRow}
    (member : row ∈ operations) :
    ∃ operation ∈ prepared, kept row.payload (.record operation.payload.fields) := by
  obtain ⟨i, inside, rfl⟩ := List.getElem_of_mem member
  have inside' : i < prepared.length := numbered.length_eq ▸ inside
  exact ⟨prepared[i], List.getElem_mem inside',
    ((List.forall₂_iff_get.mp numbered.rows).2 i inside inside').payload⟩

/-- Rows at their positions are in order. -/
theorem sort_of_positions {count : ℕ}
    (positions : operations.map OperationRow.position = List.range' 1 count) :
    sortWith byPosition operations = operations := by
  have increasing : (operations.map OperationRow.position).Pairwise (· < ·) := by
    rw [positions]
    exact List.pairwise_lt_range'
  apply List.Pairwise.insertionSort_eq
  refine (List.pairwise_map.mp increasing).imp fun {first second} less => ?_
  rw [byPosition]
  omega

end Koklo.SpecBatch
