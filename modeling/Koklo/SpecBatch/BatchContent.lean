import Koklo.Foundations.Decimal
import Koklo.Schema.Canonical

/-!
# Content of a batch of the specification

A batch that is submitted again under its key is the same when its branch, its base, its message and
its operations, in their order, are those of the stored batch (`sameContent`). The fields of an
operation are compared by their canonical texts, which is to compare them as JSON values
(`sameContent_iff`). A creation has no identifier until its batch is stored.
-/

set_option autoImplicit false

namespace Koklo.SpecBatch

open Koklo.Foundations Koklo.Foundations.Json Koklo.Schema.Canonical

/-- `feature.create`, `feature.update` and `feature.delete`. -/
inductive OperationKind where
  | create | update | delete
deriving DecidableEq

/-- The fields of an operation. They hold texts, lists and records, and name no field twice. -/
structure Payload where
  fields : List (Text × Data)
  plain : Plain (.record fields)

/-- An operation, as it is asked for. -/
inductive Operation where
  | create (fields : Payload)
  | update (specId : Text) (fields : Payload)
  | delete (specId : Text)

/-- An operation ready to be stored: a creation has no identifier yet. -/
structure PreparedOperation where
  kind : OperationKind
  specId : Option Text
  payload : Payload
  unnamed : specId = none ↔ kind = .create

def noFields : Payload := ⟨[], .record List.nodup_nil fun _ member => by cases member⟩

/-- An operation as it is prepared. -/
def operationOf : Operation → PreparedOperation
  | .create fields => ⟨.create, none, fields, by simp⟩
  | .update specId fields => ⟨.update, some specId, fields, by simp⟩
  | .delete specId => ⟨.delete, some specId, noFields, by simp⟩

/-- A batch ready to be stored. -/
structure PreparedBatch where
  idempotencyKey : Text
  branch : Text
  baseSha : Option Text
  message : Option Text
  operations : List PreparedOperation

/-- The statuses of a batch. -/
inductive BatchStatus where
  | queued | committing | committed | failed | conflict
deriving DecidableEq

/-- A row of `spec_write_batches`. -/
structure BatchRow where
  projectId : ℕ
  repoId : ℕ
  branch : Text
  authorUserId : ℕ
  authorRole : Text
  idempotencyKey : Text
  baseSha : Option Text
  commitSha : Option Text
  status : BatchStatus
  errorCode : Option Text
  report : Option Data
  message : Option Text

/-- A row of `spec_write_operations`. -/
structure OperationRow where
  batchId : ℕ
  position : ℕ
  kind : OperationKind
  targetSpecId : Option Text
  payload : Data

/-- An operation of a batch, as it is answered. -/
structure RecordedOperation where
  position : ℕ
  kind : OperationKind
  specId : Option Text
  payload : Data

/-- A batch, as it is answered. -/
structure BatchRecord where
  id : ℕ
  repoId : ℕ
  branch : Text
  status : BatchStatus
  idempotencyKey : Text
  baseSha : Option Text
  commitSha : Option Text
  errorCode : Option Text
  report : Option Data
  message : Option Text
  operations : List RecordedOperation

/-- An operation as it is read back. -/
def recordedOf (row : OperationRow) : RecordedOperation where
  position := row.position
  kind := row.kind
  specId := row.targetSpecId
  payload := row.payload

/-- A batch as it is read back, with its operations. -/
def recordOf (id : ℕ) (row : BatchRow) (operations : List OperationRow) : BatchRecord where
  id := id
  repoId := row.repoId
  branch := row.branch
  status := row.status
  idempotencyKey := row.idempotencyKey
  baseSha := row.baseSha
  commitSha := row.commitSha
  errorCode := row.errorCode
  report := row.report
  message := row.message
  operations := operations.map recordedOf

/-! ## The comparison -/

/-- The canonical text of the data, once it has been written and read back. -/
def normalText (data : Data) : Option Text := (parse (stringify data)).bind canonicalize

/-- Both values have the same normal text. -/
def same (left right : Data) : Bool :=
  match normalText left, normalText right with
  | some first, some second => first = second
  | _, _ => false

/-- Only the kind and the fields of a creation count: it is asked for without identifier. -/
def sameOperation (stored : RecordedOperation) (asked : PreparedOperation) : Bool :=
  decide (stored.kind = asked.kind) &&
    (decide (asked.specId = none) || decide (stored.specId = asked.specId)) &&
    same stored.payload (.record asked.payload.fields)

/-- The batch is the one that is asked for. -/
def sameContent (record : BatchRecord) (asked : PreparedBatch) : Bool :=
  decide (record.branch = asked.branch) && decide (record.baseSha = asked.baseSha) &&
    decide (record.message = asked.message) &&
    decide (record.operations.length = asked.operations.length) &&
    record.operations.zipIdx.all fun (stored, index) =>
      match asked.operations[index]? with
      | some operation => sameOperation stored operation
      | none => false

/-! ## What it decides -/

/-- A stored operation is the one that is asked for, as a JSON value. -/
structure EqualOperation (stored : RecordedOperation) (asked : PreparedOperation) : Prop where
  kind : stored.kind = asked.kind
  specId : asked.kind ≠ .create → stored.specId = asked.specId
  payload : SameValue stored.payload (.record asked.payload.fields)

/-- A stored batch is the one that is submitted: same branch, base and message, and operations that
are equal one by one. -/
structure EqualContent (record : BatchRecord) (asked : PreparedBatch) : Prop where
  branch : record.branch = asked.branch
  baseSha : record.baseSha = asked.baseSha
  message : record.message = asked.message
  operations : List.Forall₂ EqualOperation record.operations asked.operations

theorem normalText_of_legible {data : Data} (legible : Legible data) :
    normalText data = canonicalize data := by
  rw [normalText, parse_stringify legible, Option.bind_some]

theorem same_iff {left right : Data} (legible : Legible left) (legible' : Legible right) :
    same left right = true ↔ SameValue left right := by
  rw [← canonicalize_eq_iff legible legible', same, normalText_of_legible legible,
    normalText_of_legible legible', canonicalize_of_legible legible,
    canonicalize_of_legible legible', Option.some.injEq]
  exact decide_eq_true_iff

theorem sameOperation_iff {stored : RecordedOperation} {asked : PreparedOperation}
    (plain : Plain stored.payload) :
    sameOperation stored asked = true ↔ EqualOperation stored asked := by
  rw [sameOperation, Bool.and_eq_true, Bool.and_eq_true, Bool.or_eq_true, decide_eq_true_eq,
    decide_eq_true_eq, decide_eq_true_eq, same_iff plain.legible asked.payload.plain.legible, asked.unnamed]
  constructor
  · rintro ⟨⟨kind, specId⟩, payload⟩
    exact ⟨kind, fun named => specId.resolve_left named, payload⟩
  · rintro ⟨kind, specId, payload⟩
    refine ⟨⟨kind, ?_⟩, payload⟩
    by_cases created : asked.kind = .create
    · exact .inl created
    · exact .inr (specId created)

/-- The operations are compared one by one. -/
theorem all_sameOperation_iff {stored : List RecordedOperation} {asked : List PreparedOperation}
    (length : stored.length = asked.length) (plain : ∀ operation ∈ stored, Plain operation.payload) :
    (stored.zipIdx.all fun (operation, index) =>
      match asked[index]? with
      | some wanted => sameOperation operation wanted
      | none => false) = true ↔ List.Forall₂ EqualOperation stored asked := by
  rw [List.all_eq_true, List.forall₂_iff_get]
  constructor
  · intro all
    refine ⟨length, fun i inside inside' => ?_⟩
    have found := all (stored[i], i) (List.mem_zipIdx_iff_getElem?.mpr
      (List.getElem?_eq_getElem inside))
    dsimp only at found
    rw [List.getElem?_eq_getElem inside'] at found
    exact (sameOperation_iff (plain _ (List.getElem_mem inside))).mp found
  · rintro ⟨_, each⟩ ⟨operation, i⟩ member
    have known : stored[i]? = some operation := List.mem_zipIdx_iff_getElem?.mp member
    obtain ⟨inside, rfl⟩ := List.getElem?_eq_some_iff.mp known
    have inside' : i < asked.length := length ▸ inside
    dsimp only
    rw [List.getElem?_eq_getElem inside']
    exact (sameOperation_iff (plain _ (List.getElem_mem inside))).mpr (each i inside inside')

/-- **The comparison decides whether the batch is equal** to the stored one, as JSON values. -/
theorem sameContent_iff {record : BatchRecord} {asked : PreparedBatch}
    (plain : ∀ operation ∈ record.operations, Plain operation.payload) :
    sameContent record asked = true ↔ EqualContent record asked := by
  rw [sameContent, Bool.and_eq_true, Bool.and_eq_true, Bool.and_eq_true, Bool.and_eq_true,
    decide_eq_true_eq, decide_eq_true_eq, decide_eq_true_eq, decide_eq_true_eq]
  constructor
  · rintro ⟨⟨⟨⟨branch, baseSha⟩, message⟩, length⟩, all⟩
    exact ⟨branch, baseSha, message, (all_sameOperation_iff length plain).mp all⟩
  · rintro ⟨branch, baseSha, message, operations⟩
    exact ⟨⟨⟨⟨branch, baseSha⟩, message⟩, operations.length_eq⟩,
      (all_sameOperation_iff operations.length_eq plain).mpr operations⟩

end Koklo.SpecBatch
