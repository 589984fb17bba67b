import Koklo.Foundations.Runs
import Koklo.SpecBatch.SubmissionInvariant

/-!
# Batches are submitted once

The unique index leaves one batch a key, the lock on the counter one holder of the values above it,
and a refused insert a batch to be found. So in every run each answer is about the one batch of its
key, and no two creations of a project have the same identifier (`batches_submitted_once`).
-/

set_option autoImplicit false

namespace Koklo.SpecBatch

open Koklo.Foundations Koklo.Foundations.Json Koklo.Foundations.ReadCommitted

/-- The batch that a request has answered to have created. -/
def SubmissionPhase.created : SubmissionPhase → Option ℕ
  | .ended (.created record) => some record.id
  | _ => none

/-- An operation is of a batch of the project. -/
def SubmissionDesk.ofProject (desk : SubmissionDesk) (projectId : ℕ) (operation : OperationRow) :
    Bool :=
  (committedRow desk.batches operation.batchId).any fun row => row.projectId = projectId

/-- What holds at every moment. -/
structure SubmissionDesk.Sound (desk : SubmissionDesk) : Prop where
  unique : UniqueKey batchKey desk.batches
  counters : Exclusive SubmissionRequest.held desk.requests
  pending : ∀ tx id row, pendingRow desk.batches tx id = some row ↔
    ∃ request : SubmissionRequest, desk.requests[tx]? = some request ∧
      request.phase.inserted = some (id, row)
  fresh : ∀ tx id row, pendingRow desk.batches tx id = some row →
    committedRow desk.batches id = none
  owned : ∀ operation ∈ desk.operations, ∃ row,
    committedRow desk.batches operation.batchId = some row
  creation : ∀ id row, committedRow desk.batches id = some row →
    ∃ (tx : ℕ) (request : SubmissionRequest), desk.requests[tx]? = some request ∧
      request.phase.created = some id
  creators : Exclusive (fun request : SubmissionRequest => request.phase.created) desk.requests
  allotted : ∀ projectId, Allotted 0 (desk.counters projectId)
    (desk.operations.filter (desk.ofProject projectId))
  ready : ∀ (tx : ℕ) (request : SubmissionRequest), desk.requests[tx]? = some request →
    request.Ready desk

/-- A request that has inserted no batch has written none. -/
theorem SubmissionDesk.Sound.unwritten {desk : SubmissionDesk} (sound : desk.Sound) {tx : ℕ}
    {request : SubmissionRequest} (found : desk.requests[tx]? = some request)
    (nothing : request.phase.inserted = none) (id : ℕ) : pendingRow desk.batches tx id = none := by
  apply Option.eq_none_iff_forall_ne_some.mpr
  intro row written
  obtain ⟨other, known, inserted⟩ := (sound.pending tx id row).mp written
  rw [found] at known
  cases known
  rw [nothing] at inserted
  cases inserted

/-- **A step that commits nothing.** -/
theorem SubmissionDesk.Sound.uncommitted {desk : SubmissionDesk} (sound : desk.Sound) {tx : ℕ}
    {request : SubmissionRequest} (found : desk.requests[tx]? = some request)
    {batches : Table BatchRow} {phase : SubmissionPhase} (unique : UniqueKey batchKey batches)
    (same : ∀ id, committedRow batches id = committedRow desk.batches id)
    (pending : ∀ owner id row, pendingRow batches owner id = some row ↔
      owner ≠ tx ∧ pendingRow desk.batches owner id = some row ∨
        owner = tx ∧ phase.inserted = some (id, row))
    (fresh : ∀ id row, phase.inserted = some (id, row) → committedRow desk.batches id = none)
    (holds : ∀ value, phase.counter = some value → request.phase.counter ≠ none ∨
      takenByOther SubmissionRequest.held desk.requests tx request.scope.projectId = false)
    (former : request.phase.created = none) (uncreated : phase.created = none)
    (ready : ∀ next : SubmissionDesk, desk.Extends next → next.counters = desk.counters →
      SubmissionRequest.Ready next { request with phase }) :
    ({ desk with batches }.setPhase tx phase).Sound := by
  have extends_ : desk.Extends ({ desk with batches }.setPhase tx phase) := .of_same same rfl
  refine ⟨unique, ?_, ?_, ?_, ?_, ?_, ?_, ?_, ?_⟩
  · refine sound.counters.modify found fun projectId held => ?_
    obtain ⟨value, taken, rfl⟩ := Option.map_eq_some_iff.mp held
    rcases holds value taken with before | free
    · obtain ⟨mine, known⟩ := Option.ne_none_iff_exists'.mp before
      left
      rw [SubmissionRequest.held, known]
      rfl
    · exact .inr free
  · intro owner id row
    show pendingRow batches owner id = some row ↔ _
    rw [pending]
    constructor
    · rintro (⟨apart, written⟩ | ⟨rfl, inserted⟩)
      · obtain ⟨other, known, inserted⟩ := (sound.pending owner id row).mp written
        exact ⟨other, getElem?_modified_ne apart known, inserted⟩
      · exact ⟨_, getElem?_modified_self found, inserted⟩
    · rintro ⟨other, known, inserted⟩
      rcases getElem?_modified found known with ⟨rfl, rfl⟩ | ⟨apart, before⟩
      · exact .inr ⟨rfl, inserted⟩
      · exact .inl ⟨apart, (sound.pending owner id row).mpr ⟨other, before, inserted⟩⟩
  · intro owner id row written
    show committedRow batches id = none
    rw [same]
    rcases (pending owner id row).mp written with ⟨_, before⟩ | ⟨_, inserted⟩
    · exact sound.fresh owner id row before
    · exact fresh id row inserted
  · intro operation member
    obtain ⟨row, known⟩ := sound.owned operation member
    exact ⟨row, (same _).trans known⟩
  · intro id row known
    obtain ⟨creator, other, known', created⟩ := sound.creation id row ((same id).symm.trans known)
    refine ⟨creator, other, getElem?_modified_ne (fun mine => ?_) known', created⟩
    rw [mine, found] at known'
    cases known'
    rw [former] at created
    cases created
  · refine sound.creators.modify found fun id created => ?_
    rw [uncreated] at created
    cases created
  · intro projectId
    have project : SubmissionDesk.ofProject ({ desk with batches }.setPhase tx phase) projectId =
        desk.ofProject projectId := by
      funext operation
      rw [SubmissionDesk.ofProject, SubmissionDesk.ofProject]
      exact congrArg (Option.any _) (same _)
    rw [project]
    exact sound.allotted projectId
  · intro i other known
    rcases getElem?_modified found known with ⟨_, rfl⟩ | ⟨_, before⟩
    · exact ready _ extends_ rfl
    · exact (sound.ready i other before).mono extends_ (.inl rfl)

/-- A statement that writes nothing. -/
theorem SubmissionDesk.Sound.quiet {desk : SubmissionDesk} (sound : desk.Sound) {tx : ℕ}
    {request : SubmissionRequest} (found : desk.requests[tx]? = some request)
    {phase : SubmissionPhase} (inserted : phase.inserted = request.phase.inserted)
    (holds : ∀ value, phase.counter = some value → request.phase.counter ≠ none ∨
      takenByOther SubmissionRequest.held desk.requests tx request.scope.projectId = false)
    (former : request.phase.created = none) (uncreated : phase.created = none)
    (ready : ∀ next : SubmissionDesk, desk.Extends next → next.counters = desk.counters →
      SubmissionRequest.Ready next { request with phase }) :
    (desk.setPhase tx phase).Sound := by
  have mine : ∀ id row, pendingRow desk.batches tx id = some row ↔
      request.phase.inserted = some (id, row) := by
    intro id row
    rw [sound.pending]
    constructor
    · rintro ⟨other, known, inserted⟩
      rw [found] at known
      cases known
      exact inserted
    · exact fun inserted => ⟨request, found, inserted⟩
  refine sound.uncommitted found sound.unique (fun _ => rfl) (fun owner id row => ?_)
    (fun id row new => ?_) holds former uncreated ready
  · rw [inserted, ← mine]
    by_cases here : owner = tx
    · subst here
      exact ⟨fun written => .inr ⟨rfl, written⟩, fun either =>
        either.elim (fun other => absurd rfl other.1) And.right⟩
    · exact ⟨fun written => .inl ⟨here, written⟩, fun either =>
        either.elim And.right fun same => absurd same.1 here⟩
  · rw [inserted, ← mine] at new
    exact sound.fresh tx id row new

/-- The transaction of a request is undone. -/
theorem SubmissionDesk.Sound.undone {desk : SubmissionDesk} (sound : desk.Sound) {tx : ℕ}
    {request : SubmissionRequest} (found : desk.requests[tx]? = some request)
    {phase : SubmissionPhase} (nothing : phase.inserted = none) (unheld : phase.counter = none)
    (former : request.phase.created = none) (uncreated : phase.created = none)
    (ready : ∀ next : SubmissionDesk, desk.Extends next → next.counters = desk.counters →
      SubmissionRequest.Ready next { request with phase }) :
    (desk.undo tx phase).Sound := by
  refine sound.uncommitted found (sound.unique.abort tx) (fun id => committedRow_abort _ tx id)
    (fun owner id row => ?_) (fun id row new => ?_) (fun value held => ?_) former uncreated ready
  · rw [pendingRow_abort, nothing]
    exact ⟨.inl, fun either => either.elim (fun before => before) fun mine => by cases mine.2⟩
  · rw [nothing] at new
    cases new
  · rw [unheld] at held
    cases held

/-! ## The commit of a batch -/

/-- The value of a counter after the operations of a batch are kept. -/
theorem SubmissionDesk.counters_keep (desk : SubmissionDesk) (projectId : ℕ)
    (stored : List OperationRow) (counter : Option ℕ) (other : ℕ) :
    (desk.keep projectId stored counter).counters other =
      if other = projectId then counter.getD (desk.counters projectId)
      else desk.counters other := by
  cases counter with
  | none =>
    show desk.counters other = _
    split
    · rename_i same
      rw [same, Option.getD_none]
    · rfl
  | some value =>
    show Function.update desk.counters projectId value other = _
    rw [Function.update_apply, Option.getD_some]

/-- **The commit of a batch** makes it and its operations visible, and keeps the counter. -/
theorem SubmissionDesk.Sound.committed {desk : SubmissionDesk} (sound : desk.Sound) {tx : ℕ}
    {request : SubmissionRequest} (found : desk.requests[tx]? = some request) {id : ℕ}
    {row : BatchRow} {operations stored : List OperationRow} {counter : Option ℕ}
    (phase : request.phase = .committing id row operations stored counter) :
    desk.Extends ((desk.keep request.scope.projectId stored counter).finish tx
        (.created (recordOf id row operations))) ∧
      ((desk.keep request.scope.projectId stored counter).finish tx
        (.created (recordOf id row operations))).Sound := by
  obtain ⟨scope, role, plan, batch, _⟩ := request
  cases phase
  obtain ⟨isNew, numbered, labels, above, allotted⟩ := sound.ready tx _ found
  have mine : ∀ i version, pendingRow desk.batches tx i = some version ↔
      i = id ∧ version = row := by
    intro i version
    rw [sound.pending]
    constructor
    · rintro ⟨other, known, inserted⟩
      rw [found] at known
      cases known
      cases inserted
      exact ⟨rfl, rfl⟩
    · rintro ⟨rfl, rfl⟩
      exact ⟨_, found, rfl⟩
  have fresh : committedRow desk.batches id = none := sound.fresh tx id row ((mine id row).mpr ⟨rfl, rfl⟩)
  have before : ∀ i version, committedRow desk.batches i = some version → i ≠ id := by
    rintro i version known rfl
    rw [fresh] at known
    cases known
  set next := (desk.keep scope.projectId stored counter).finish tx
    (.created (recordOf id row operations)) with next_eq
  have new : committedRow next.batches id = some row :=
    committedRow_commit.mpr (.inl ((mine id row).mpr ⟨rfl, rfl⟩))
  have old : ∀ i, i ≠ id → committedRow next.batches i = committedRow desk.batches i := by
    intro i apart
    have unwritten : pendingRow desk.batches tx i = none :=
      Option.eq_none_iff_forall_ne_some.mpr fun version written =>
        apart ((mine i version).mp written).1
    apply Option.ext
    intro version
    show committedRow (commit desk.batches tx) i = _ ↔ _
    rw [committedRow_commit, unwritten]
    exact ⟨fun either => either.elim (fun none_ => by cases none_) And.right,
      fun known => .inr ⟨rfl, known⟩⟩
  have ofBatch : ∀ operation ∈ stored, operation.batchId = id := fun _ member =>
    numbered.batchId member
  have rowsOld : ∀ i, i ≠ id → next.rowsOf i = desk.rowsOf i := by
    intro i apart
    show (desk.operations ++ stored).filter _ = _
    rw [List.filter_append, SubmissionDesk.rowsOf]
    have none_ : (stored.filter fun operation => decide (operation.batchId = i)) = [] := by
      apply List.filter_eq_nil_iff.mpr
      intro operation member same
      exact apart ((of_decide_eq_true same).symm.trans (ofBatch operation member))
    rw [none_, List.append_nil]
  have rowsNew : next.rowsOf id = stored := by
    show (desk.operations ++ stored).filter _ = _
    rw [List.filter_append]
    have none_ : (desk.operations.filter fun operation => decide (operation.batchId = id)) = [] := by
      apply List.filter_eq_nil_iff.mpr
      intro operation member same
      obtain ⟨version, known⟩ := sound.owned operation member
      exact before _ version known (of_decide_eq_true same)
    have all : (stored.filter fun operation => decide (operation.batchId = id)) = stored :=
      List.filter_eq_self.mpr fun operation member => decide_eq_true (ofBatch operation member)
    rw [none_, all, List.nil_append]
  have extends_ : desk.Extends next := by
    constructor
    · intro i version known
      exact ⟨version, (old i (before i version known)).trans known, .refl version⟩
    · intro i version known
      exact rowsOld i (before i version known)
  refine ⟨extends_, sound.unique.commit tx, ?_, ?_, ?_, ?_, ?_, ?_, ?_, ?_⟩
  · refine sound.counters.modify found fun projectId held => ?_
    cases held
  · intro owner i version
    show pendingRow (commit desk.batches tx) owner i = some version ↔ _
    rw [pendingRow_commit, sound.pending]
    constructor
    · rintro ⟨apart, other, known, inserted⟩
      exact ⟨other, getElem?_modified_ne apart known, inserted⟩
    · rintro ⟨other, known, inserted⟩
      rcases getElem?_modified found known with ⟨_, rfl⟩ | ⟨apart, known'⟩
      · cases inserted
      · exact ⟨apart, other, known', inserted⟩
  · intro owner i version written
    obtain ⟨apart, theirs⟩ := pendingRow_commit.mp written
    rw [old i]
    · exact sound.fresh owner i version theirs
    · rintro rfl
      exact apart (pendingRow_owner ((mine i row).mpr ⟨rfl, rfl⟩) theirs)
  · intro operation member
    rcases List.mem_append.mp member with former | stored'
    · obtain ⟨version, known⟩ := sound.owned operation former
      exact ⟨version, (old _ (before _ version known)).trans known⟩
    · rw [ofBatch operation stored']
      exact ⟨row, new⟩
  · intro i version known
    by_cases same : i = id
    · subst same
      exact ⟨tx, _, getElem?_modified_self found, rfl⟩
    · obtain ⟨creator, other, known', created⟩ :=
        sound.creation i version ((old i same).symm.trans known)
      refine ⟨creator, other, getElem?_modified_ne (fun here => ?_) known', created⟩
      rw [here, found] at known'
      cases known'
      cases created
  · refine sound.creators.modify found fun i created => .inr ?_
    cases created
    rw [takenByOther, List.any_eq_false]
    intro other member theirs
    obtain ⟨j, known⟩ := List.getElem?_of_mem (List.mem_of_mem_eraseIdx member)
    have ready := sound.ready j other known
    have created := of_decide_eq_true theirs
    obtain ⟨_, _, _, _, phase⟩ := other
    rcases phase with _ | _ | _ | _ | _ | _ | (record | _ | _ | _ | _) <;> cases created
    obtain ⟨version, known', _⟩ := ready
    exact before _ version known' rfl
  · intro projectId
    show Allotted 0 _ ((desk.operations ++ stored).filter _)
    have former : desk.operations.filter (next.ofProject projectId) =
        desk.operations.filter (desk.ofProject projectId) := by
      apply List.filter_congr
      intro operation member
      obtain ⟨version, known⟩ := sound.owned operation member
      rw [SubmissionDesk.ofProject, SubmissionDesk.ofProject, old _ (before _ version known)]
    have theirs : ∀ operation ∈ stored, next.ofProject projectId operation =
        decide (scope.projectId = projectId) := by
      intro operation member
      rw [SubmissionDesk.ofProject, ofBatch operation member, new, isNew]
      rfl
    rw [List.filter_append, former]
    have counters : next.counters projectId = if projectId = scope.projectId then
        counter.getD (desk.counters scope.projectId) else desk.counters projectId :=
      desk.counters_keep scope.projectId stored counter projectId
    by_cases same : projectId = scope.projectId
    · subst same
      have all : stored.filter (next.ofProject scope.projectId) = stored :=
        List.filter_eq_self.mpr fun operation member =>
          (theirs operation member).trans (decide_eq_true rfl)
      rw [all, counters, if_pos rfl]
      exact (sound.allotted scope.projectId).append allotted (Nat.zero_le _) above
    · have none_ : stored.filter (next.ofProject projectId) = [] :=
        List.filter_eq_nil_iff.mpr fun operation member => by
          rw [theirs operation member, decide_eq_true_eq]
          exact Ne.symm same
      rw [none_, List.append_nil, counters, if_neg same]
      exact sound.allotted projectId
  · intro i other known
    rcases getElem?_modified found known with ⟨_, rfl⟩ | ⟨apart, known'⟩
    · refine ⟨row, new, ?_, ?_, ?_⟩
      · rw [isNew]
        exact .refl _
      · show Numbered Kept id (next.rowsOf id) batch.operations
        rw [rowsNew]
        exact numbered
      · show ((operations.map recordedOf).map RecordedOperation.label) =
          (next.rowsOf id).map OperationRow.label
        rw [rowsNew, map_label_recordedOf, labels]
    · refine (sound.ready i other known').mono extends_ ?_
      by_cases same : other.scope.projectId = scope.projectId
      · -- Another request on the project holds no value of its counter, unless none is taken.
        cases theirs : other.phase.counter with
        | none => exact .inr rfl
        | some value =>
          left
          show (desk.keep scope.projectId stored counter).counters _ = _
          rw [desk.counters_keep, if_pos same]
          cases counter with
          | none => rw [Option.getD_none, same]
          | some mine' =>
            refine absurd (sound.counters i tx other _ scope.projectId known' found ?_ rfl) apart
            rw [SubmissionRequest.held, theirs, same]
            rfl
      · left
        show (desk.keep scope.projectId stored counter).counters _ = _
        rw [desk.counters_keep, if_neg same]

/-! ## The statements -/

/-- The operation rows of a committed batch are in order, and hold documents. -/
theorem SubmissionDesk.Sound.rows {desk : SubmissionDesk} (sound : desk.Sound) {id : ℕ}
    {row : BatchRow} (known : committedRow desk.batches id = some row) :
    ∃ prepared, Numbered Kept id (desk.rowsOf id) prepared := by
  obtain ⟨tx, request, found, created⟩ := sound.creation id row known
  have ready := sound.ready tx request found
  obtain ⟨_, _, _, batch, phase⟩ := request
  rcases phase with _ | _ | _ | _ | _ | _ | (record | _ | _ | _ | _) <;> cases created
  obtain ⟨_, _, _, numbered, _⟩ := ready
  exact ⟨batch.operations, numbered⟩

/-- Operations are read in the order in which they are stored. -/
theorem SubmissionDesk.Sound.operationsOf_eq {desk : SubmissionDesk} (sound : desk.Sound) {id : ℕ}
    {row : BatchRow} (known : committedRow desk.batches id = some row) :
    desk.operationsOf id = desk.rowsOf id := by
  obtain ⟨prepared, numbered⟩ := sound.rows known
  exact sort_of_positions numbered.positions

/-- A batch that is found has the key. -/
theorem SubmissionDesk.findBatch_eq_some {desk : SubmissionDesk} {request : SubmissionRequest}
    {found : ℕ × BatchRow} (seen : desk.findBatch request = some found) :
    committedRow desk.batches found.1 = some found.2 ∧ batchKey found.2 = request.key := by
  rw [SubmissionDesk.findBatch] at seen
  have chosen := List.find?_some seen
  rw [decide_eq_true_eq] at chosen
  exact ⟨mem_committedRows.mp (List.mem_of_find?_eq_some seen), Prod.ext chosen.1 chosen.2⟩

theorem SubmissionDesk.findBatch_ne_none {desk : SubmissionDesk} {request : SubmissionRequest}
    {id : ℕ} {row : BatchRow} (known : committedRow desk.batches id = some row)
    (key : batchKey row = request.key) : desk.findBatch request ≠ none := by
  intro none_
  rw [SubmissionDesk.findBatch, List.find?_eq_none] at none_
  exact none_ (id, row) (mem_committedRows.mpr known)
    (decide_eq_true ⟨congrArg Prod.fst key, congrArg Prod.snd key⟩)

/-- The value that a request takes is the one after its last one, or after the committed one. -/
theorem SubmissionDesk.nextCounterValue_eq {desk : SubmissionDesk} {tx projectId value : ℕ}
    {counter : Option ℕ} (taken : desk.nextCounterValue tx projectId counter = some value) :
    value = counter.getD (desk.counters projectId) + 1 ∧ (counter = none →
      takenByOther SubmissionRequest.held desk.requests tx projectId = false) := by
  cases counter with
  | some last =>
    cases taken
    exact ⟨rfl, fun none_ => by cases none_⟩
  | none =>
    rw [SubmissionDesk.nextCounterValue] at taken
    split at taken
    · cases taken
    · rename_i free
      cases taken
      exact ⟨rfl, fun _ => Bool.eq_false_iff.mpr free⟩

/-- The row of the next operation of a batch. -/
theorem rowOf_operationRow {id : ℕ} {before : List OperationRow} {operation : PreparedOperation}
    {specId : Text} (named : operation.kind ≠ .create → some specId = operation.specId) :
    RowOf Eq id (SubmissionDesk.operationRow id before operation specId) operation :=
  ⟨rfl, rfl, named, rfl⟩

/-- **A statement of a submission**: what is committed stays, and so does what the requests rely
on. -/
theorem SubmissionDesk.Sound.advance {jsonb : Data → Option Data} (keeps : KeepsValues jsonb)
    {desk next : SubmissionDesk} (sound : desk.Sound) {tx : ℕ} {request : SubmissionRequest}
    (found : desk.requests[tx]? = some request) (went : desk.advance jsonb tx request = some next) :
    desk.Extends next ∧ next.Sound := by
  have ready := sound.ready tx request found
  have quiet : ∀ phase, desk.Extends (desk.setPhase tx phase) := fun phase =>
    .of_same (fun _ => rfl) rfl
  have undone : ∀ phase, desk.Extends (desk.undo tx phase) := fun phase =>
    .of_same (fun id => committedRow_abort _ tx id) rfl
  obtain ⟨scope, role, plan, batch, phase⟩ := request
  rw [SubmissionDesk.advance] at went
  cases phase with
  | looking again =>
    dsimp only at went
    split at went
    · rename_i seen
      cases went
      obtain ⟨known, key⟩ := SubmissionDesk.findBatch_eq_some seen
      refine ⟨quiet _, sound.quiet found rfl (fun _ held => by cases held) rfl rfl
        fun next extends_ _ => ?_⟩
      obtain ⟨later, known', same⟩ := extends_.batches _ _ known
      exact ⟨later, known', same, same.key.trans key⟩
    · rename_i none_
      split at went
      · rename_i second
        obtain ⟨id, row, known, key⟩ := ready second
        exact absurd none_ (SubmissionDesk.findBatch_ne_none known key)
      · cases went
        exact ⟨quiet _, sound.quiet found rfl (fun _ held => by cases held) rfl rfl
          fun _ _ _ => trivial⟩
  | comparing id row =>
    cases went
    obtain ⟨now, known, same, key⟩ := ready
    have clean : commit desk.batches tx = desk.batches :=
      commit_of_unwritten (sound.unwritten found rfl)
    rw [SubmissionDesk.finish, clean]
    refine ⟨quiet _, ?_⟩
    have rows := sound.operationsOf_eq known
    have plain : ∀ operation ∈ (recordOf id row (desk.operationsOf id)).operations,
        Plain operation.payload := by
      obtain ⟨prepared, numbered⟩ := sound.rows known
      intro operation member
      rw [rows] at member
      obtain ⟨stored, listed, rfl⟩ := List.mem_map.mp member
      obtain ⟨_, _, kept⟩ := numbered.payload listed
      exact kept.1
    rw [SubmissionDesk.known]
    split
    · rename_i alike
      refine sound.quiet found rfl (fun _ held => by cases held) rfl rfl
        fun next extends_ _ => ?_
      obtain ⟨later, known', same'⟩ := extends_.batches _ _ known
      have kept := extends_.operations _ _ known
      refine ⟨later, known', same'.key.trans key, ?_, ?_⟩
      · show EqualContent (recordOf id later (next.rowsOf id)) batch
        rw [kept, equalContent_congr (same.trans same'), ← rows]
        exact (sameContent_iff plain).mp alike
      · show ((desk.operationsOf id).map recordedOf).map RecordedOperation.label =
          (next.rowsOf id).map OperationRow.label
        rw [map_label_recordedOf, rows, kept]
    · rename_i other
      refine sound.quiet found rfl (fun _ held => by cases held) rfl rfl
        fun next extends_ _ => ?_
      obtain ⟨later, known', same'⟩ := extends_.batches _ _ known
      refine ⟨later, known', same'.key.trans key, fun equal => other ((sameContent_iff plain).mpr ?_)⟩
      rw [rows, ← equalContent_congr (same.trans same'), ← extends_.operations _ _ known]
      exact equal
  | inserting =>
    dsimp only at went
    split at went
    · cases went
    · rename_i refused
      cases went
      obtain ⟨id, row, known, key⟩ :=
        committedRow_of_violates refused (sound.unwritten found rfl)
      refine ⟨undone _, sound.undone found rfl rfl rfl rfl fun next extends_ _ => ?_⟩
      intro _
      obtain ⟨later, known', same⟩ := extends_.batches _ _ known
      exact ⟨id, later, known', same.key.trans key⟩
    · rename_i batches inserted
      cases went
      have shape := insertKeyed_eq_done inserted
      have same : ∀ id, committedRow batches id = committedRow desk.batches id := by
        intro id
        rw [shape]
        exact committedRow_insert id
      refine ⟨.of_same same rfl, sound.uncommitted found (sound.unique.insert inserted) same
        (fun owner id row => ?_) (fun id row new => ?_) (fun _ held => by cases held) rfl rfl
        fun next _ _ => ?_⟩
      · rw [shape, pendingRow_insert]
        have unwritten := sound.unwritten found rfl
        constructor
        · rintro (before | ⟨rfl, rfl, rfl⟩)
          · refine .inl ⟨?_, before⟩
            rintro rfl
            rw [unwritten] at before
            cases before
          · exact .inr ⟨rfl, rfl⟩
        · rintro (⟨_, before⟩ | ⟨rfl, new⟩)
          · exact .inl before
          · cases new
            exact .inr ⟨rfl, rfl, rfl⟩
      · cases new
        rw [committedRow, List.getElem?_eq_none (Nat.le_refl _)]
        rfl
      · exact ⟨rfl, ⟨[], rfl, .nil⟩, Nat.le_refl _, .nil _ _⟩
  | numbering id row operations rest counter =>
    obtain ⟨isNew, ⟨before, listed, numbered⟩, above, allotted⟩ := ready
    dsimp only at above allotted
    cases rest with
    | nil =>
      cases went
      refine ⟨quiet _, sound.quiet found rfl (fun value held => .inl fun none_ => ?_) rfl rfl
        fun next _ counters => ?_⟩
      · rw [show counter = some value from held] at none_
        cases none_
      · have whole : batch.operations = before := listed.trans (List.append_nil before)
        refine ⟨isNew, whole ▸ numbered, ?_⟩
        show InFlight (next.counters scope.projectId) counter operations
        rw [counters]
        exact ⟨above, allotted⟩
    | cons operation rest =>
      have onward : batch.operations = before ++ [operation] ++ rest := by
        rw [List.append_assoc]
        exact listed
      dsimp only at went
      split at went
      · rename_i specId named
        cases went
        refine ⟨quiet _, sound.quiet found rfl (fun value held => .inl fun none_ => ?_) rfl rfl
          fun next _ counters => ?_⟩
        · rw [show counter = some value from held] at none_
          cases none_
        · refine ⟨isNew, ⟨before ++ [operation], onward,
            numbered.concat rfl (rowOf_operationRow fun _ => named.symm)⟩, ?_⟩
          show InFlight (next.counters scope.projectId) counter _
          rw [counters]
          refine ⟨above, allotted.append (.of_no_creation ?_ _ _) above (Nat.le_refl _)⟩
          have other : operation.kind ≠ .create := by
            rw [Ne, ← operation.unnamed, named]
            exact Option.some_ne_none specId
          exact List.filter_eq_nil_iff.mpr fun created member => by
            rw [List.mem_singleton.mp member]
            exact fun same => other (of_decide_eq_true same)
      · rename_i unnamed
        obtain ⟨value, taken, rfl⟩ := Option.map_eq_some_iff.mp went
        obtain ⟨next_, free⟩ := SubmissionDesk.nextCounterValue_eq taken
        refine ⟨quiet _, sound.quiet found rfl (fun _ _ => ?_) rfl rfl fun next _ counters => ?_⟩
        · cases counter with
          | none => exact .inr (free rfl)
          | some last => exact .inl (Option.some_ne_none last)
        · refine ⟨isNew, ⟨before ++ [operation], onward,
            numbered.concat rfl (rowOf_operationRow fun named => ?_)⟩, ?_⟩
          · exact absurd (operation.unnamed.mp unnamed) named
          show InFlight (next.counters scope.projectId) (some value) _
          rw [counters]
          refine ⟨?_, allotted.append ?_ above ?_⟩
          · rw [Option.getD_some]
            omega
          · rw [Option.getD_some, next_]
            exact .creation rfl
          · rw [Option.getD_some]
            omega
  | storing id row operations counter =>
    obtain ⟨isNew, numbered, above, allotted⟩ := ready
    obtain ⟨stored, mapped, rfl⟩ := Option.map_eq_some_iff.mp went
    have each := forall₂_of_mapM_eq_some mapped
    have labels := labels_of_store each
    refine ⟨quiet _, sound.quiet found rfl (fun value held => .inl fun none_ => ?_) rfl rfl
      fun next _ counters => ?_⟩
    · rw [show counter = some value from held] at none_
      cases none_
    · refine ⟨isNew, numbered.store keeps each, labels.symm, ?_⟩
      show InFlight (next.counters scope.projectId) counter stored
      rw [counters]
      refine ⟨above, allotted.congr ?_⟩
      have same := congrArg (List.map Prod.snd) labels.symm
      rw [List.map_map, List.map_map] at same
      exact same
  | committing id row operations stored counter =>
    cases went
    exact sound.committed found rfl
  | ended answer => cases went

/-! ## The events -/

theorem SubmissionDesk.Sound.fail {desk next : SubmissionDesk} (sound : desk.Sound) {tx : ℕ}
    {request : SubmissionRequest} (found : desk.requests[tx]? = some request)
    (went : desk.fail tx request = some next) : desk.Extends next ∧ next.Sound := by
  obtain ⟨scope, role, plan, batch, phase⟩ := request
  cases phase with
  | ended answer => cases went
  | looking | comparing | inserting | numbering | storing | committing =>
    cases went
    exact ⟨.of_same (fun id => committedRow_abort _ tx id) rfl,
      sound.undone found rfl rfl rfl rfl fun _ _ _ => trivial⟩

/-- The outcome of a batch changes nothing of its content. -/
theorem sameBatch_settled (outcome : Settlement) (row : BatchRow) :
    row.SameBatch (SubmissionDesk.settled outcome row) := ⟨rfl, rfl, rfl, rfl⟩

theorem SubmissionDesk.Sound.settle {desk : SubmissionDesk} (sound : desk.Sound) (id : ℕ)
    (outcome : Settlement) :
    desk.Extends { desk with batches := amend desk.batches id (SubmissionDesk.settled outcome) } ∧
      SubmissionDesk.Sound
        { desk with batches := amend desk.batches id (SubmissionDesk.settled outcome) } := by
  set next : SubmissionDesk :=
    { desk with batches := amend desk.batches id (SubmissionDesk.settled outcome) }
  have onward : ∀ i row, committedRow desk.batches i = some row →
      ∃ later, committedRow next.batches i = some later ∧ row.SameBatch later := by
    intro i row known
    show ∃ later, committedRow (amend _ _ _) i = some later ∧ _
    rw [committedRow_amend, known]
    split
    · exact ⟨_, rfl, sameBatch_settled outcome row⟩
    · exact ⟨row, rfl, .refl row⟩
  have back : ∀ i later, committedRow next.batches i = some later →
      ∃ row, committedRow desk.batches i = some row ∧ row.SameBatch later := by
    intro i later known
    cases former : committedRow desk.batches i with
    | none =>
      have unknown := committedRow_amend desk.batches id i (SubmissionDesk.settled outcome)
      rw [former] at unknown
      have none_ : committedRow next.batches i = none := unknown.trans (by split <;> rfl)
      rw [none_] at known
      cases known
    | some row =>
      obtain ⟨version, found, same⟩ := onward i row former
      rw [found] at known
      cases known
      exact ⟨row, rfl, same⟩
  have extends_ : desk.Extends next := ⟨onward, fun _ _ _ => rfl⟩
  have projects : ∀ projectId, next.ofProject projectId = desk.ofProject projectId := by
    intro projectId
    funext operation
    rw [SubmissionDesk.ofProject, SubmissionDesk.ofProject]
    cases former : committedRow desk.batches operation.batchId with
    | none =>
      cases later : committedRow next.batches operation.batchId with
      | none => rfl
      | some version =>
        obtain ⟨row, known, _⟩ := back _ version later
        rw [former] at known
        cases known
    | some row =>
      obtain ⟨version, found, same⟩ := onward _ row former
      have project : version.projectId = row.projectId := congrArg Prod.fst same.key
      rw [found, Option.any_some, Option.any_some, project]
  refine ⟨extends_, sound.unique.amend fun _ => rfl, sound.counters, ?_, ?_, ?_, ?_, sound.creators,
    ?_, fun tx request found => (sound.ready tx request found).mono extends_ (.inl rfl)⟩
  · intro tx i row
    show pendingRow (amend _ _ _) tx i = some row ↔ _
    rw [pendingRow_amend]
    exact sound.pending tx i row
  · intro tx i row written
    have written' : pendingRow (amend _ _ _) tx i = some row := written
    rw [pendingRow_amend] at written'
    apply Option.eq_none_iff_forall_ne_some.mpr
    intro later known
    obtain ⟨former, known', _⟩ := back i later known
    rw [sound.fresh tx i row written'] at known'
    cases known'
  · intro operation member
    obtain ⟨row, known⟩ := sound.owned operation member
    obtain ⟨later, found, _⟩ := onward _ row known
    exact ⟨later, found⟩
  · intro i later known
    obtain ⟨row, known', _⟩ := back i later known
    exact sound.creation i row known'
  · intro projectId
    rw [projects]
    exact sound.allotted projectId

/-- A counter that no submission holds is raised. -/
theorem SubmissionDesk.Sound.raise {desk next : SubmissionDesk} (sound : desk.Sound)
    {projectId atLeast : ℕ} (went : desk.raise projectId atLeast = some next) :
    desk.Extends next ∧ next.Sound := by
  rw [SubmissionDesk.raise] at went
  split at went
  · cases went
  rename_i unheld
  cases went
  set next : SubmissionDesk := { desk with
    counters := Function.update desk.counters projectId (max (desk.counters projectId) atLeast) }
  have extends_ : desk.Extends next := .of_same (fun _ => rfl) rfl
  refine ⟨extends_, sound.unique, sound.counters, sound.pending, sound.fresh, sound.owned,
    sound.creation, sound.creators, fun other => ?_, fun tx request found => ?_⟩
  · refine (sound.allotted other).mono ?_
    show _ ≤ Function.update desk.counters projectId _ other
    rw [Function.update_apply]
    split
    · rename_i same
      rw [same]
      exact Nat.le_max_left _ _
    · exact Nat.le_refl _
  · refine (sound.ready tx request found).mono extends_ ?_
    by_cases same : request.scope.projectId = projectId
    · cases held : request.phase.counter with
      | none => exact .inr rfl
      | some value =>
        refine absurd (List.any_eq_true.mpr ⟨request, List.mem_of_getElem? found, ?_⟩) unheld
        rw [SubmissionRequest.held, held, same]
        exact decide_eq_true rfl
    · exact .inl (Function.update_of_ne same _ _)

theorem SubmissionDesk.Sound.arrive {desk : SubmissionDesk} (sound : desk.Sound)
    (scope : ProjectScope) (role : Text) (plan : SpecBatchPlan) (batch : PreparedBatch) :
    desk.Extends
        { desk with requests := desk.requests ++ [⟨scope, role, plan, batch, .looking false⟩] } ∧
      SubmissionDesk.Sound
        { desk with requests := desk.requests ++ [⟨scope, role, plan, batch, .looking false⟩] } := by
  have extends_ : desk.Extends
      { desk with requests := desk.requests ++ [⟨scope, role, plan, batch, .looking false⟩] } :=
    .of_same (fun _ => rfl) rfl
  have kept : ∀ {tx : ℕ} {request : SubmissionRequest}, desk.requests[tx]? = some request →
      (desk.requests ++ [⟨scope, role, plan, batch, .looking false⟩])[tx]? = some request := by
    intro tx request found
    rw [List.getElem?_append_left (List.getElem?_eq_some_iff.mp found).1]
    exact found
  have former : ∀ {tx : ℕ} {request : SubmissionRequest},
      (desk.requests ++ [⟨scope, role, plan, batch, .looking false⟩])[tx]? = some request →
      desk.requests[tx]? = some request ∨ request = ⟨scope, role, plan, batch, .looking false⟩ := by
    intro tx request found
    rcases Nat.lt_or_ge tx desk.requests.length with inside | outside
    · rw [List.getElem?_append_left inside] at found
      exact .inl found
    · rw [List.getElem?_append_right outside] at found
      exact .inr (List.mem_singleton.mp (List.mem_of_getElem? found))
  refine ⟨extends_, sound.unique, sound.counters.append rfl, fun tx id row => ?_, sound.fresh,
    sound.owned, fun id row known => ?_, sound.creators.append rfl, sound.allotted,
    fun tx request found => ?_⟩
  · rw [sound.pending]
    constructor
    · rintro ⟨request, found, inserted⟩
      exact ⟨request, kept found, inserted⟩
    · rintro ⟨request, found, inserted⟩
      rcases former found with old | rfl
      · exact ⟨request, old, inserted⟩
      · cases inserted
  · obtain ⟨tx, request, found, created⟩ := sound.creation id row known
    exact ⟨tx, request, kept found, created⟩
  · rcases former found with old | rfl
    · exact (sound.ready tx request old).mono extends_ (.inl rfl)
    · intro again
      cases again

/-- **A step keeps what is committed**, and what the requests rely on. -/
theorem SubmissionDesk.Sound.step {jsonb : Data → Option Data} (keeps : KeepsValues jsonb)
    {desk next : SubmissionDesk} {event : SubmissionEvent} (sound : desk.Sound)
    (taken : submissionStep jsonb desk event = some next) : desk.Extends next ∧ next.Sound := by
  cases event with
  | arrive scope role plan batch =>
    cases taken
    exact sound.arrive scope role plan batch
  | advance tx =>
    obtain ⟨request, found, went⟩ := Option.bind_eq_some_iff.mp taken
    exact sound.advance keeps found went
  | fail tx =>
    obtain ⟨request, found, went⟩ := Option.bind_eq_some_iff.mp taken
    exact sound.fail found went
  | settle id outcome =>
    cases taken
    exact sound.settle id outcome
  | raise projectId atLeast => exact sound.raise taken

/-! ## Runs -/

/-- No batch yet. -/
structure SubmissionDesk.Fresh (desk : SubmissionDesk) : Prop where
  batches : desk.batches = []
  operations : desk.operations = []
  requests : desk.requests = []

theorem SubmissionDesk.Fresh.sound {desk : SubmissionDesk} (fresh : desk.Fresh) : desk.Sound := by
  obtain ⟨batches, operations, counters, requests⟩ := desk
  obtain ⟨rfl, rfl, rfl⟩ := fresh
  refine ⟨fun _ => .nil, fun i _ first _ _ found => ?_, fun tx id row => ?_, fun tx id row _ => rfl,
    fun operation member => ?_, fun id row known => ?_, fun i _ first _ _ found => ?_,
    fun projectId => .nil _ _, fun tx request found => ?_⟩
  · cases found
  · constructor
    · intro written
      cases written
    · rintro ⟨request, found, _⟩
      cases found
  · cases member
  · cases known
  · cases found
  · cases found

/-- The batch that a request is answered with. -/
def SubmissionAnswer.batch : SubmissionAnswer → Option BatchRecord
  | .created batch => some batch
  | .replayed batch => some batch
  | _ => none

/-- An answer shows the batch: its identifier, and its operations with their positions, kinds and
identifiers. -/
def BatchRecord.Shows (record : BatchRecord) (desk : SubmissionDesk) (id : ℕ) : Prop :=
  record.id = id ∧ record.operations.map RecordedOperation.label =
    (desk.operationsOf id).map OperationRow.label

/-- Every answer but a failure is about the batch of the key: it is answered when the content is
equal, and the key is told to be used otherwise. -/
def SubmissionDesk.Answers (desk : SubmissionDesk) (request : SubmissionRequest)
    (answer : SubmissionAnswer) : Prop :=
  ∃ id row, committedRow desk.batches id = some row ∧ batchKey row = request.key ∧
    ((∃ record, answer.batch = some record ∧ record.Shows desk id) ↔
      EqualContent (recordOf id row (desk.operationsOf id)) request.batch) ∧
    (answer = .reused id ↔
      ¬ EqualContent (recordOf id row (desk.operationsOf id)) request.batch)

/-- The creations of a project. -/
def SubmissionDesk.creationsOf (desk : SubmissionDesk) (projectId : ℕ) : List OperationRow :=
  (desk.operations.filter (desk.ofProject projectId)).filter OperationRow.isCreation

/-- What the submissions leave. -/
structure SubmissionDesk.Consistent (desk : SubmissionDesk) : Prop where
  /-- A key has one batch. -/
  oneBatch : ∀ i j first second, committedRow desk.batches i = some first →
    committedRow desk.batches j = some second → batchKey first = batchKey second → i = j
  /-- A batch is created by one submission. -/
  oneCreation : ∀ id row, committedRow desk.batches id = some row →
    ∃! tx : ℕ, ∃ (request : SubmissionRequest) (record : BatchRecord),
      desk.requests[tx]? = some request ∧ request.phase = .ended (.created record) ∧ record.id = id
  /-- A batch has one set of operations, at the positions from one on. -/
  positions : ∀ id row, committedRow desk.batches id = some row →
    (desk.operationsOf id).map OperationRow.position =
      List.range' 1 (desk.operationsOf id).length
  /-- Each operation is of a batch. -/
  owned : ∀ operation ∈ desk.operations, ∃ row,
    committedRow desk.batches operation.batchId = some row
  answered : ∀ (request : SubmissionRequest) (answer : SubmissionAnswer), request ∈ desk.requests →
    request.phase = .ended answer → answer ≠ .failed → desk.Answers request answer
  /-- Each creation has an identifier. -/
  named : ∀ projectId, ∀ operation ∈ desk.creationsOf projectId, ∃ value,
    operation.targetSpecId = some (featureId value)
  /-- No two creations of a project have the same. -/
  distinct : ∀ projectId, ((desk.creationsOf projectId).map OperationRow.targetSpecId).Nodup

/-- What a submission has created is equal to what it has asked for. -/
theorem equalContent_of_numbered {request : SubmissionRequest} {row : BatchRow} {id : ℕ}
    {operations : List OperationRow} (same : (SubmissionDesk.newRow request).SameBatch row)
    (numbered : Numbered Kept id operations request.batch.operations) :
    EqualContent (recordOf id row operations) request.batch := by
  refine ⟨same.branch, same.baseSha, same.message, ?_⟩
  show List.Forall₂ EqualOperation (operations.map recordedOf) request.batch.operations
  rw [List.forall₂_map_left_iff]
  exact numbered.rows.imp fun stored operation row => ⟨row.kind, row.specId, row.payload.2⟩

/-- **Every answer is about the batch of its key.** -/
theorem SubmissionDesk.Sound.answers {desk : SubmissionDesk} (sound : desk.Sound)
    {request : SubmissionRequest} {answer : SubmissionAnswer} (member : request ∈ desk.requests)
    (phase : request.phase = .ended answer) (succeeded : answer ≠ .failed) :
    desk.Answers request answer := by
  obtain ⟨tx, found⟩ := List.getElem?_of_mem member
  have ready := sound.ready tx request found
  rw [SubmissionRequest.Ready, phase] at ready
  cases answer with
  | created record =>
    obtain ⟨row, known, same, numbered, labels⟩ := ready
    have rows := sound.operationsOf_eq known
    have equal := equalContent_of_numbered same numbered
    refine ⟨record.id, row, known, same.key, ?_, ?_⟩
    · rw [rows]
      exact iff_of_true ⟨record, rfl, rfl, rows ▸ labels⟩ equal
    · rw [rows]
      exact iff_of_false (fun reused => by cases reused) fun differs => differs equal
  | replayed record =>
    obtain ⟨row, known, key, equal, labels⟩ := ready
    have rows := sound.operationsOf_eq known
    refine ⟨record.id, row, known, key, ?_, ?_⟩
    · rw [rows]
      exact iff_of_true ⟨record, rfl, rfl, rows ▸ labels⟩ equal
    · rw [rows]
      exact iff_of_false (fun reused => by cases reused) fun differs => differs equal
  | reused id =>
    obtain ⟨row, known, key, differs⟩ := ready
    have rows := sound.operationsOf_eq known
    refine ⟨id, row, known, key, ?_, ?_⟩
    · rw [rows]
      refine iff_of_false ?_ differs
      rintro ⟨record, none_, _⟩
      cases none_
    · rw [rows]
      exact iff_of_true rfl differs
  | uniqueViolation => exact absurd ready id
  | failed => exact absurd rfl succeeded

theorem SubmissionDesk.Sound.consistent {desk : SubmissionDesk} (sound : desk.Sound) :
    desk.Consistent where
  oneBatch i j first second foundI foundJ same := sound.unique.eq_of_key foundI foundJ same
  oneCreation id row known := by
    have shape : ∀ request : SubmissionRequest, request.phase.created = some id →
        ∃ record, request.phase = .ended (.created record) ∧ record.id = id := by
      intro request created
      obtain ⟨_, _, _, _, phase⟩ := request
      rcases phase with _ | _ | _ | _ | _ | _ | (record | _ | _ | _ | _) <;> cases created
      exact ⟨record, rfl, rfl⟩
    obtain ⟨tx, request, found, created⟩ := sound.creation id row known
    obtain ⟨record, phase, same⟩ := shape request created
    refine ⟨tx, ⟨request, record, found, phase, same⟩, ?_⟩
    rintro other ⟨request', record', found', phase', same'⟩
    refine sound.creators other tx request' request id found' found ?_ created
    show request'.phase.created = some id
    rw [phase', SubmissionPhase.created, same']
  positions id row known := by
    obtain ⟨prepared, numbered⟩ := sound.rows known
    rw [sound.operationsOf_eq known, numbered.length_eq]
    exact numbered.positions
  owned := sound.owned
  answered request answer := sound.answers
  named projectId operation member := by
    obtain ⟨listed, created⟩ := List.mem_filter.mp member
    exact (sound.allotted projectId).named listed (of_decide_eq_true created)
  distinct projectId := (sound.allotted projectId).distinct

/-- **Batches are submitted once.** In every run, a key of a project has one batch, created by one
submission with one set of operations; a submission is answered with it when its content is equal,
and told that its key is used otherwise; the creations of a project have identifiers that are all
different; and what is committed of a batch and of its operations is the same at every later
moment. -/
theorem batches_submitted_once {jsonb : Data → Option Data} (keeps : KeepsValues jsonb)
    {start mid last : SubmissionDesk} {first rest : List SubmissionEvent} (fresh : start.Fresh)
    (reached : run (submissionStep jsonb) start first = some mid)
    (onward : run (submissionStep jsonb) mid rest = some last) :
    mid.Consistent ∧ mid.Extends last := by
  have sound : mid.Sound := run_invariant
    (fun _ _ _ sound taken => (SubmissionDesk.Sound.step keeps sound taken).2) fresh.sound reached
  have kept : ∀ (s : SubmissionDesk) (event : SubmissionEvent) (next : SubmissionDesk),
      mid.Extends s ∧ s.Sound → submissionStep jsonb s event = some next →
        mid.Extends next ∧ next.Sound := by
    rintro s event next ⟨before, sound⟩ taken
    obtain ⟨more, after⟩ := sound.step keeps taken
    exact ⟨before.trans more, after⟩
  exact ⟨sound.consistent, (run_invariant kept ⟨.refl mid, sound⟩ onward).1⟩

/-- No batch, and no feature. -/
def emptyDesk : SubmissionDesk := ⟨[], [], fun _ => 0, []⟩

/-- A creation of a feature with a title. -/
def titled (title : Text) : PreparedOperation :=
  operationOf (.create ⟨[(Text.lit "title", .text title)],
    .record (List.nodup_singleton _) fun _ member => by
      rw [List.mem_singleton.mp member]
      exact .text title⟩)

/-- A request with its statements. -/
def wholeSubmission (tx statements : ℕ) (title : Text) : List SubmissionEvent :=
  .arrive ⟨1, 3⟩ (Text.lit "admin") ⟨5, Text.lit "main"⟩
      ⟨Text.lit "key", Text.lit "cadrage", none, none, [titled title]⟩ ::
    List.replicate statements (.advance tx)

/-- A key is used again with another title. -/
theorem batches_submitted_once_reused :
    KeepsValues some ∧ ∃ mid, run (submissionStep some) emptyDesk
        (wholeSubmission 0 6 (Text.lit "one") ++ wholeSubmission 1 2 (Text.lit "two")) = some mid ∧
      mid.Consistent ∧
      ∃ request, mid.requests[1]? = some request ∧ request.phase = .ended (.reused 0) := by
  have keeps : KeepsValues some := ⟨fun data stored plain same => by
    cases same
    exact ⟨plain, .refl plain.legible⟩⟩
  obtain ⟨consistent, _⟩ := batches_submitted_once keeps ⟨rfl, rfl, rfl⟩
    (show run (submissionStep some) emptyDesk
      (wholeSubmission 0 6 (Text.lit "one") ++ wholeSubmission 1 2 (Text.lit "two")) = some _ from rfl)
    (show run (submissionStep some) _ [] = some _ from rfl)
  exact ⟨keeps, _, rfl, consistent, _, rfl, rfl⟩

end Koklo.SpecBatch
