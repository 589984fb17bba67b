import Koklo.SpecBatch.Numbering

/-!
# What a submission relies on

What is committed of a batch and of its operations stays (`Extends`). Each request knows what it is
about to write, the rows of its operations at their positions, with identifiers above those of the
committed ones, and what it has answered (`SubmissionRequest.Ready`): it knows it still whatever the
others commit (`SubmissionRequest.Ready.mono`).
-/

set_option autoImplicit false

namespace Koklo.SpecBatch

open Koklo.Foundations Koklo.Foundations.Json Koklo.Foundations.ReadCommitted

/-! ## What the database keeps of the fields -/

/-- The database keeps the value of a JSON document, if not its text. -/
structure KeepsValues (jsonb : Data → Option Data) : Prop where
  keeps : ∀ data stored, Plain data → jsonb data = some stored →
    Plain stored ∧ SameValue stored data

/-- What is stored is a document, equal to the one that is asked for. -/
def Kept (stored asked : Data) : Prop := Plain stored ∧ SameValue stored asked

/-- What an answer shows of an operation beside its fields. -/
def OperationRow.label (row : OperationRow) : ℕ × OperationKind × Option Text :=
  (row.position, row.kind, row.targetSpecId)

def RecordedOperation.label (operation : RecordedOperation) : ℕ × OperationKind × Option Text :=
  (operation.position, operation.kind, operation.specId)

theorem map_label_recordedOf (operations : List OperationRow) :
    (operations.map recordedOf).map RecordedOperation.label =
      operations.map OperationRow.label := by
  rw [List.map_map]
  rfl

/-- Storing the operations changes their fields only. -/
theorem labels_of_store {jsonb : Data → Option Data} {operations stored : List OperationRow}
    (each : List.Forall₂ (fun row kept => SubmissionDesk.store jsonb row = some kept) operations
      stored) : stored.map OperationRow.label = operations.map OperationRow.label := by
  induction each with
  | nil => rfl
  | cons found _ ih =>
    obtain ⟨payload, _, rfl⟩ := Option.map_eq_some_iff.mp found
    rw [List.map_cons, List.map_cons, ih]
    rfl

/-- **What is stored of the operations** are their rows, with equal fields. -/
theorem Numbered.store {jsonb : Data → Option Data} (keeps : KeepsValues jsonb) {id : ℕ}
    {operations stored : List OperationRow} {prepared : List PreparedOperation}
    (numbered : Numbered Eq id operations prepared)
    (each : List.Forall₂ (fun row kept => SubmissionDesk.store jsonb row = some kept) operations
      stored) : Numbered Kept id stored prepared := by
  obtain ⟨positions, rows⟩ := numbered
  constructor
  · have same := congrArg (List.map Prod.fst) (labels_of_store each)
    rw [List.map_map, List.map_map] at same
    rw [← positions]
    exact same
  · clear positions
    induction each generalizing prepared with
    | nil =>
      cases rows
      exact .nil
    | cons found _ ih =>
      cases rows with
      | cons row rest =>
        obtain ⟨payload, kept, rfl⟩ := Option.map_eq_some_iff.mp found
        rw [row.payload] at kept
        exact .cons ⟨row.batchId, row.kind, row.specId, keeps.keeps _ _ (PreparedOperation.payload
          _).plain kept⟩ (ih rest)

/-! ## What stays of a batch -/

/-- A later version of a batch row has the same content. -/
structure BatchRow.SameBatch (row later : BatchRow) : Prop where
  key : batchKey later = batchKey row
  branch : later.branch = row.branch
  baseSha : later.baseSha = row.baseSha
  message : later.message = row.message

theorem BatchRow.SameBatch.refl (row : BatchRow) : row.SameBatch row := ⟨rfl, rfl, rfl, rfl⟩

theorem BatchRow.SameBatch.trans {first second third : BatchRow} (before : first.SameBatch second)
    (after : second.SameBatch third) : first.SameBatch third :=
  ⟨after.key.trans before.key, after.branch.trans before.branch,
    after.baseSha.trans before.baseSha, after.message.trans before.message⟩

theorem equalContent_congr {row later : BatchRow} (same : row.SameBatch later) (id : ℕ)
    (operations : List OperationRow) (asked : PreparedBatch) :
    EqualContent (recordOf id later operations) asked ↔
      EqualContent (recordOf id row operations) asked := by
  constructor
  · rintro ⟨branch, baseSha, message, each⟩
    exact ⟨same.branch.symm.trans branch, same.baseSha.symm.trans baseSha,
      same.message.symm.trans message, each⟩
  · rintro ⟨branch, baseSha, message, each⟩
    exact ⟨same.branch.trans branch, same.baseSha.trans baseSha, same.message.trans message, each⟩

/-- The operation rows of a batch. -/
def SubmissionDesk.rowsOf (desk : SubmissionDesk) (id : ℕ) : List OperationRow :=
  desk.operations.filter fun operation => operation.batchId = id

/-- **What is committed stays**: each batch with its content and its operations. -/
structure SubmissionDesk.Extends (desk next : SubmissionDesk) : Prop where
  batches : ∀ id row, committedRow desk.batches id = some row →
    ∃ later, committedRow next.batches id = some later ∧ row.SameBatch later
  operations : ∀ id row, committedRow desk.batches id = some row → next.rowsOf id = desk.rowsOf id

theorem SubmissionDesk.Extends.refl (desk : SubmissionDesk) : desk.Extends desk :=
  ⟨fun _ row known => ⟨row, known, .refl row⟩, fun _ _ _ => rfl⟩

theorem SubmissionDesk.Extends.trans {first second third : SubmissionDesk}
    (before : first.Extends second) (after : second.Extends third) : first.Extends third := by
  constructor
  · intro id row known
    obtain ⟨later, found, same⟩ := before.batches id row known
    obtain ⟨last, found', same'⟩ := after.batches id later found
    exact ⟨last, found', same.trans same'⟩
  · intro id row known
    obtain ⟨later, found, _⟩ := before.batches id row known
    rw [after.operations id later found, before.operations id row known]

/-- What is committed is the same. -/
theorem SubmissionDesk.Extends.of_same {desk next : SubmissionDesk}
    (same : ∀ id, committedRow next.batches id = committedRow desk.batches id)
    (operations : next.operations = desk.operations) : desk.Extends next := by
  constructor
  · intro id row known
    exact ⟨row, (same id).trans known, .refl row⟩
  · intro id row _
    rw [SubmissionDesk.rowsOf, SubmissionDesk.rowsOf, operations]

/-! ## What a request knows -/

/-- The identifiers that an open transaction has taken are above the committed ones. -/
def InFlight (committed : ℕ) (counter : Option ℕ) (operations : List OperationRow) : Prop :=
  committed ≤ counter.getD committed ∧ Allotted committed (counter.getD committed) operations

theorem InFlight.unheld {committed : ℕ} {operations : List OperationRow}
    (inFlight : InFlight committed none operations) (other : ℕ) : InFlight other none operations :=
  ⟨Nat.le_refl _, .of_no_creation inFlight.2.no_creation _ _⟩

/-- What a request relies on, or has answered. -/
def SubmissionRequest.Ready (desk : SubmissionDesk) (request : SubmissionRequest) : Prop :=
  match request.phase with
  | .looking again => again = true →
      ∃ id row, committedRow desk.batches id = some row ∧ batchKey row = request.key
  | .comparing id row => ∃ now, committedRow desk.batches id = some now ∧ row.SameBatch now ∧
      batchKey now = request.key
  | .inserting => True
  | .numbering id row operations rest counter => row = SubmissionDesk.newRow request ∧
      (∃ before, request.batch.operations = before ++ rest ∧ Numbered Eq id operations before) ∧
      InFlight (desk.counters request.scope.projectId) counter operations
  | .storing id row operations counter => row = SubmissionDesk.newRow request ∧
      Numbered Eq id operations request.batch.operations ∧
      InFlight (desk.counters request.scope.projectId) counter operations
  | .committing id row operations stored counter => row = SubmissionDesk.newRow request ∧
      Numbered Kept id stored request.batch.operations ∧
      operations.map OperationRow.label = stored.map OperationRow.label ∧
      InFlight (desk.counters request.scope.projectId) counter stored
  | .ended (.created record) => ∃ row, committedRow desk.batches record.id = some row ∧
      (SubmissionDesk.newRow request).SameBatch row ∧
      Numbered Kept record.id (desk.rowsOf record.id) request.batch.operations ∧
      record.operations.map RecordedOperation.label =
        (desk.rowsOf record.id).map OperationRow.label
  | .ended (.replayed record) => ∃ row, committedRow desk.batches record.id = some row ∧
      batchKey row = request.key ∧
      EqualContent (recordOf record.id row (desk.rowsOf record.id)) request.batch ∧
      record.operations.map RecordedOperation.label =
        (desk.rowsOf record.id).map OperationRow.label
  | .ended (.reused id) => ∃ row, committedRow desk.batches id = some row ∧
      batchKey row = request.key ∧
      ¬ EqualContent (recordOf id row (desk.rowsOf id)) request.batch
  | .ended .uniqueViolation => False
  | .ended .failed => True

theorem SubmissionRequest.Ready.mono {desk next : SubmissionDesk} {request : SubmissionRequest}
    (ready : request.Ready desk) (extends_ : desk.Extends next)
    (counter : next.counters request.scope.projectId = desk.counters request.scope.projectId ∨
      request.phase.counter = none) : request.Ready next := by
  have inFlight : ∀ {counter : Option ℕ} {operations : List OperationRow},
      next.counters request.scope.projectId = desk.counters request.scope.projectId ∨
        counter = none → InFlight (desk.counters request.scope.projectId) counter operations →
      InFlight (next.counters request.scope.projectId) counter operations := by
    rintro _ _ (same | rfl) before
    · rw [same]
      exact before
    · exact before.unheld _
  obtain ⟨scope, role, plan, batch, phase⟩ := request
  cases phase with
  | looking again =>
    intro second
    obtain ⟨id, row, known, key⟩ := ready second
    obtain ⟨later, found, same⟩ := extends_.batches id row known
    exact ⟨id, later, found, same.key.trans key⟩
  | comparing id row =>
    obtain ⟨now, known, same, key⟩ := ready
    obtain ⟨later, found, same'⟩ := extends_.batches id now known
    exact ⟨later, found, same.trans same', same'.key.trans key⟩
  | inserting => trivial
  | numbering id row operations rest value =>
    obtain ⟨isNew, numbered, before⟩ := ready
    exact ⟨isNew, numbered, inFlight counter before⟩
  | storing id row operations value =>
    obtain ⟨isNew, numbered, before⟩ := ready
    exact ⟨isNew, numbered, inFlight counter before⟩
  | committing id row operations stored value =>
    obtain ⟨isNew, numbered, labels, before⟩ := ready
    exact ⟨isNew, numbered, labels, inFlight counter before⟩
  | ended answer =>
    cases answer with
    | created record =>
      obtain ⟨row, known, same, numbered, labels⟩ := ready
      obtain ⟨later, found, same'⟩ := extends_.batches _ row known
      have kept := extends_.operations _ row known
      exact ⟨later, found, same.trans same', kept ▸ numbered, kept ▸ labels⟩
    | replayed record =>
      obtain ⟨row, known, key, equal, labels⟩ := ready
      obtain ⟨later, found, same⟩ := extends_.batches _ row known
      have kept := extends_.operations _ row known
      refine ⟨later, found, same.key.trans key, ?_, kept ▸ labels⟩
      rw [kept]
      exact (equalContent_congr same _ _ _).mpr equal
    | reused id =>
      obtain ⟨row, known, key, differs⟩ := ready
      obtain ⟨later, found, same⟩ := extends_.batches _ row known
      refine ⟨later, found, same.key.trans key, ?_⟩
      rw [extends_.operations _ row known, equalContent_congr same]
      exact differs
    | uniqueViolation => exact ready
    | failed => trivial

end Koklo.SpecBatch
