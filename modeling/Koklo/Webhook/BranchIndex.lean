import Koklo.Foundations.OrderedMap
import Koklo.Foundations.Text

/-!
# Indexing the head of a branch

An execution of `indexBranch`, for a webhook delivery or for the reconcile pass, reads the head
of the branch from the provider, and then makes the stored head point to the snapshot of this
commit: it deletes the pointer of a branch that is gone, moves it to a snapshot that is ready, or
reads the files of the commit and writes a snapshot and the pointer in one transaction. Reading
takes long, and nothing ties the write to the read: executions of one branch overlap with each
other and with the pushes.

Each step below is one exchange of an execution with the provider or the database, or a move of
the environment. The order of the steps is the schedule.
-/

set_option autoImplicit false

namespace Koklo.Webhook

open Koklo.Foundations

/-- The identifiers of commits. -/
abbrev Sha := Text

/-! ## The files of a commit -/

/-- A file of a specification. -/
structure SpecFile where
  path : Text
  content : Text

def slash : CodeUnit := 0x2F

/-- The path in the repository of a path of the specification. -/
def withSpecPath (specPath : Option Text) (path : Text) : Text :=
  match specPath with
  | none => path
  | some folder => folder ++ slash :: path

/-- The path in the specification, when it is inside the folder of the specification. -/
def relativeToSpec (specPath : Option Text) (path : Text) : Option Text :=
  match specPath with
  | none => some path
  | some folder =>
    if folder ++ [slash] <+: path then some (path.drop (folder.length + 1)) else none

/-- A repository with a specification: the tree of each commit, which never changes, and what the
schema recognizes and parses. -/
structure SpecRepo (Spec : Type) where
  specPath : Option Text
  tree : Sha → List SpecFile
  recognized : Text → Bool
  parseSpecFiles : List SpecFile → Spec

section Repo

variable {Spec : Type}

/-- The paths, relative to the specification, of the files that the schema recognizes. -/
def recognizedSpecPaths (repo : SpecRepo Spec) (files : List SpecFile) : List Text :=
  files.filterMap fun file => (relativeToSpec repo.specPath file.path).filter (repo.recognized ·)

/-- The recognized files of a commit. -/
def readSpecFiles (repo : SpecRepo Spec) (ref : Sha) : List SpecFile :=
  (recognizedSpecPaths repo (repo.tree ref)).map fun path =>
    let found := (repo.tree ref).find? (·.path = withSpecPath repo.specPath path)
    ⟨path, (found.map SpecFile.content).getD []⟩

/-- `MAX_SPEC_FILES`. -/
def maxSpecFiles : ℕ := 2000

/-! ## The index -/

/-- The statuses of a snapshot. -/
inductive SnapshotStatus where
  | building | ready | failed
deriving DecidableEq

/-- Why the indexing of a commit fails for good. -/
inductive ErrorCode where
  | specTooLarge
deriving DecidableEq

/-- What is written for a commit. -/
inductive SnapshotWrite (Spec : Type) where
  | ready (spec : Spec)
  | failed (errorCode : ErrorCode)
deriving DecidableEq

/-- A snapshot of a commit, with its entities. -/
structure Snapshot (Spec : Type) where
  id : ℕ
  status : SnapshotStatus
  errorCode : Option ErrorCode
  spec : Option Spec
deriving DecidableEq

/-- The snapshots of the repository, one for each commit, and the snapshot that the head of the
branch points to. -/
structure IndexStore (Spec : Type) where
  snapshots : OrderedMap Sha (Snapshot Spec)
  head : Option ℕ
deriving DecidableEq

/-- The snapshot of a write, under an identifier. -/
def SnapshotWrite.under (id : ℕ) : SnapshotWrite Spec → Snapshot Spec
  | .ready spec => ⟨id, .ready, none, some spec⟩
  | .failed errorCode => ⟨id, .failed, some errorCode, none⟩

/-- `reset` and the entities: the snapshot of the commit is created under a new identifier, or
taken again and emptied. -/
def IndexStore.reset (store : IndexStore Spec) (commitSha : Sha) (newId : ℕ)
    (write : SnapshotWrite Spec) : Option (IndexStore Spec × ℕ) :=
  match store.snapshots.get commitSha with
  | some existing =>
    some ({ store with snapshots := store.snapshots.set commitSha (write.under existing.id) },
      existing.id)
  | none =>
    if newId ∈ store.snapshots.map (·.2.id) then none
    else some ({ store with snapshots := store.snapshots.set commitSha (write.under newId) }, newId)

/-- `IndexWriter.write`: the snapshot and the head, in one transaction. -/
def IndexStore.write (store : IndexStore Spec) (commitSha : Sha) (newId : ℕ)
    (snapshot : SnapshotWrite Spec) : Option (IndexStore Spec) :=
  (store.reset commitSha newId snapshot).map fun (store, id) => { store with head := some id }

/-- The head points to the snapshot. -/
def IndexStore.moveHead (store : IndexStore Spec) (snapshotId : ℕ) : IndexStore Spec :=
  { store with head := some snapshotId }

/-- The branch has no head. -/
def IndexStore.deleteHead (store : IndexStore Spec) : IndexStore Spec := { store with head := none }

/-! ## Executions -/

/-- What an execution does next. `seen` counts the heads that the branch had before the one that
was read; the code does not know it. -/
inductive Phase (Spec : Type) where
  | listing
  | missing (seen : ℕ)
  | listed (seen : ℕ) (ref : Sha)
  | known (seen : ℕ) (ref : Sha) (snapshotId : ℕ)
  | reading (seen : ℕ) (ref : Sha)
  | writing (seen : ℕ) (ref : Sha) (snapshot : SnapshotWrite Spec)
  | processed (seen : ℕ) (head : Option Sha)
  | failed
deriving DecidableEq

/-- The heads of the branch at the provider, the latest first and `none` when it is gone, the
index, and the executions. -/
structure World (Spec : Type) where
  heads : List (Option Sha)
  store : IndexStore Spec
  executions : List (Phase Spec)
deriving DecidableEq

/-- What can happen to a branch and to its index. -/
inductive IndexEvent (Spec : Type) where
  /-- Another party moves the branch, or deletes it. -/
  | push (head : Option Sha)
  /-- A delivery, a retry or the reconcile pass starts an execution. -/
  | start
  /-- `listHead`. -/
  | list (execution : ℕ)
  /-- `snapshotOf`. -/
  | look (execution : ℕ)
  /-- `readSpecFiles` and `parseSpecFiles`, unless there are too many files. -/
  | read (execution : ℕ)
  /-- `deleteHead`, `moveHead` or `write`, with the identifier a new snapshot would get. -/
  | write (execution : ℕ) (newId : ℕ)
  /-- The call of the current phase throws, without effect. -/
  | fail (execution : ℕ)
  /-- An execution for another branch writes the snapshot of a commit. -/
  | elsewhere (commitSha : Sha) (newId : ℕ) (snapshot : SnapshotWrite Spec)

variable (repo : SpecRepo Spec)

/-- What is to be written for a commit whose snapshot is not ready. -/
def snapshotWrite (ref : Sha) : SnapshotWrite Spec :=
  if (recognizedSpecPaths repo (repo.tree ref)).length > maxSpecFiles then .failed .specTooLarge
  else .ready (repo.parseSpecFiles (readSpecFiles repo ref))

/-- Where the answer of `snapshotOf` leads. -/
def afterLook (store : IndexStore Spec) (seen : ℕ) (ref : Sha) : Phase Spec :=
  match store.snapshots.get ref with
  | some known => if known.status = .ready then .known seen ref known.id else .reading seen ref
  | none => .reading seen ref

/-- The store and the phase after an execution writes. -/
def writeStep (store : IndexStore Spec) (newId : ℕ) :
    Phase Spec → Option (IndexStore Spec × Phase Spec)
  | .missing seen => some (store.deleteHead, .processed seen none)
  | .known seen ref snapshotId => some (store.moveHead snapshotId, .processed seen (some ref))
  | .writing seen ref snapshot =>
    (store.write ref newId snapshot).map fun store => (store, .processed seen (some ref))
  | _ => none

/-- A step of one execution. -/
def executionStep (world : World Spec) (phase : Phase Spec) :
    IndexEvent Spec → Option (IndexStore Spec × Phase Spec)
  | .list _ =>
    match phase, world.heads with
    | .listing, none :: older => some (world.store, .missing older.length)
    | .listing, some ref :: older => some (world.store, .listed older.length ref)
    | _, _ => none
  | .look _ =>
    match phase with
    | .listed seen ref => some (world.store, afterLook world.store seen ref)
    | _ => none
  | .read _ =>
    match phase with
    | .reading seen ref => some (world.store, .writing seen ref (snapshotWrite repo ref))
    | _ => none
  | .write _ newId => writeStep world.store newId phase
  | .fail _ =>
    match phase with
    | .processed .. | .failed => none
    | _ => some (world.store, .failed)
  | .push _ | .start | .elsewhere .. => none

/-- The execution that an event is about. -/
def IndexEvent.execution : IndexEvent Spec → Option ℕ
  | push _ | start | elsewhere .. => none
  | list execution | look execution | read execution | write execution _ | fail execution =>
    some execution

/-- One step of the branch, its index and its executions. -/
def indexStep (world : World Spec) (event : IndexEvent Spec) : Option (World Spec) :=
  match event with
  | .push head => some { world with heads := head :: world.heads }
  | .start => some { world with executions := world.executions ++ [.listing] }
  | .elsewhere commitSha newId snapshot =>
    (world.store.reset commitSha newId snapshot).map fun (store, _) => { world with store }
  | event =>
    event.execution.bind fun index =>
      world.executions[index]?.bind fun phase =>
        (executionStep repo world phase event).map fun (store, next) =>
          { world with store, executions := world.executions.set index next }

end Repo

end Koklo.Webhook
