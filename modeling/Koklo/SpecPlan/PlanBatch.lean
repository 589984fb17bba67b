import Koklo.Schema.Rule7
import Koklo.SpecPlan.FeatureOperations
import Koklo.SpecPlan.FeaturePaths

/-!
# Planning a batch

The operations of a batch are applied in order to the files of a specification. A feature that is
updated or deleted is looked for by its path, in an index of the files; a feature that is created
has none. The files that result are checked, and only errors that were not there before stop the
batch. A batch gives the changes of all its operations or none.

Each operation changes one file, the one that it aims at (`applyOperation_changes`), so that the
files that a planned batch changes are those that its operations aim at (`changed_iff`).
-/

set_option autoImplicit false

namespace Koklo.SpecPlan

open Foundations Schema

/-! ## Operations -/

/-- An operation of a batch, as it is stored. -/
structure BatchOperation where
  kind : Text
  targetSpecId : Option Text
  payload : FeaturePayload

def featureCreate : Text := Text.lit "feature.create"

def featureUpdate : Text := Text.lit "feature.update"

def featureDelete : Text := Text.lit "feature.delete"

/-- `OPERATION_KINDS`. -/
def operationKinds : List Text := [featureCreate, featureUpdate, featureDelete]

/-- The text is an identifier of a feature. -/
def isFeatureId : Option Text → Bool
  | some id => Patterns.feature.accepts id
  | none => false

/-- The field of an operation that is not sound. It is looked for before anything is planned. -/
def operationProblem (operation : BatchOperation) : Option Text :=
  if operation.kind ∉ operationKinds then some (Text.lit "kind")
  else if isFeatureId operation.targetSpecId then none
  else some (Text.lit "specId")

/-! ## Reports -/

/-- A report as it is stored with the batch. -/
structure StoredReport where
  ok : Bool
  counts : IssueCounts
  truncated : Bool
  issues : List SpecIssue
deriving DecidableEq

/-- `SPEC_REPORT_ISSUES_MAX`. -/
def specReportIssuesMax : ℕ := 100

/-- What makes two issues the same one. -/
def issueKey (issue : SpecIssue) : Text :=
  (Text.lit "|").intercalate
    [issue.rule.name, issue.code.name, issue.path, issue.pointer, issue.entityId.getD []]

/-- The issues that were not known before. -/
def newIssues (before after : List SpecIssue) : List SpecIssue :=
  let known := before.map issueKey
  after.filter fun issue => issueKey issue ∉ known

/-- The report of the issues, cut to the longest one that is stored. -/
def toStoredReport (issues : List SpecIssue) : StoredReport :=
  let error := issues.countP fun issue => issue.severity = .error
  { ok := error == 0
    counts := ⟨error, issues.length - error⟩
    truncated := decide (specReportIssuesMax < issues.length)
    issues := issues.take specReportIssuesMax }

/-! ## Plans -/

/-- What a plan does to a file. -/
inductive FileChange where
  | write (path content : Text)
  | delete (path : Text)
deriving DecidableEq

/-- The path of a change. -/
def FileChange.path : FileChange → Text
  | write path _ | delete path => path

/-- The result of a batch that commits nothing: `conflicted("write_conflict")`,
`failed("FORBIDDEN")` or `failed("SPEC_INVALID", report)`. -/
inductive PlanStop where
  | writeConflict
  | forbidden
  | specInvalid (report : StoredReport)
deriving DecidableEq

/-- What a batch commits, with its report. -/
structure Plan where
  changes : List FileChange
  report : Option StoredReport
deriving DecidableEq

/-- The files as the operations leave them, and what they have changed. -/
structure Workspace where
  designer : Bool
  files : OrderedMap Text Text
  changes : OrderedMap Text FileChange
  index : OrderedMap Text Text

/-- The paths of the features, by the identifiers they bear. -/
def featureIndex (files : List SpecFile) : OrderedMap Text Text :=
  files.foldl (fun index file =>
    match featureIdOfPath file.path with
    | some id => index.set id file.path
    | none => index) []

/-- An operation that finds a feature where it wants none, or the other way round. -/
def conflicts (index : OrderedMap Text Text) (operation : BatchOperation) : Bool :=
  (operation.kind == featureCreate) == (index.get (operation.targetSpecId.getD [])).isSome

/-- The stop of a batch whose operations do not fit the index. -/
def conflictOf (operations : List BatchOperation) (index : OrderedMap Text Text) :
    Option PlanStop := if operations.any (conflicts index) then some .writeConflict else none

/-- The issue of a feature that cannot be written. -/
def issueOfEmit (path id : Text) (error : EmitFeatureError) : SpecIssue where
  rule := .structural
  code := .struct .schemaViolation
  severity := .error
  path := path
  pointer := error.path
  entityId := some id
  message := error.message

/-- The result of a batch one of whose operations is refused. -/
def Refusal.stop (path id : Text) : Refusal → PlanStop
  | forbidden => .forbidden
  | unreadable issues => .specInvalid (toStoredReport (issues.map Issue.toSpecIssue))
  | unwritable error => .specInvalid (toStoredReport [issueOfEmit path id error])

/-- The file is written, and the change kept. -/
def Workspace.write (workspace : Workspace) (path content : Text) : Workspace :=
  { workspace with
    files := workspace.files.set path content
    changes := workspace.changes.set path (.write path content) }

/-- The file is removed, and the change kept. -/
def Workspace.delete (workspace : Workspace) (path : Text) : Workspace :=
  { workspace with
    files := workspace.files.erase path
    changes := workspace.changes.set path (.delete path) }

/-- `workspace.files.get(path) ?? ""`. -/
def Workspace.content (workspace : Workspace) (path : Text) : Text :=
  (workspace.files.get path).getD []

section Planning

variable (readers : Readers) (plain : Text → Text)

/-- The path of a feature that an operation creates. -/
def createdPath (id : Text) (operation : BatchOperation) : Text :=
  featurePathOf plain id (createdFeature id operation.payload).titre

/-- A feature is created under its path. -/
def applyCreate (workspace : Workspace) (id : Text) (operation : BatchOperation) :
    Except PlanStop Workspace :=
  let feature := createdFeature id operation.payload
  let path := createdPath plain id operation
  ((do
    requireDesign workspace.designer (isDesignLinked feature)
    written readers.message readers.yaml feature).mapError (Refusal.stop path id)).map
      (workspace.write path)

/-- A feature is removed; a designer only removes one that is linked to a design. -/
def applyDelete (workspace : Workspace) (id path : Text) : Except PlanStop Workspace :=
  ((do
    if workspace.designer then
      let feature ← currentFeature readers.message readers.yaml path (workspace.content path)
      requireDesign workspace.designer (isDesignLinked feature)
    else .ok ()).mapError (Refusal.stop path id)).map fun _ => workspace.delete path

/-- A feature is written anew, with what the payload changes. -/
def applyUpdate (workspace : Workspace) (id path : Text) (operation : BatchOperation) :
    Except PlanStop Workspace :=
  ((updatedContent readers.message readers.yaml workspace.designer path (workspace.content path)
    operation.payload).mapError (Refusal.stop path id)).map (workspace.write path)

/-- An operation is applied to the feature it names. -/
def applyOperation (workspace : Workspace) (operation : BatchOperation) :
    Except PlanStop Workspace :=
  let id := operation.targetSpecId.getD []
  let path := (workspace.index.get id).getD []
  if operation.kind = featureCreate then applyCreate readers plain workspace id operation
  else if operation.kind = featureDelete then applyDelete readers workspace id path
  else applyUpdate readers workspace id path operation

/-- Only new errors stop a batch; new warnings are kept for its report. -/
def validate (before after : List SpecFile) : Except PlanStop (Option StoredReport) :=
  let afterReport := checkSpec readers after
  if afterReport.issues = [] then .ok none
  else
    let added := newIssues (checkSpec readers before).issues afterReport.issues
    if added.any fun issue => issue.severity = .error then .error (.specInvalid (toStoredReport added))
    else if added ≠ [] then .ok (some (toStoredReport added))
    else .ok none

/-- The files of a workspace, as the validation reads them. -/
def toFiles (files : OrderedMap Text Text) : List SpecFile :=
  files.map fun entry => ⟨entry.1, entry.2⟩

/-- The state in which the operations of a batch start. -/
def openedWorkspace (authorRole : Option Text) (files : List SpecFile) : Workspace where
  designer := authorRole == some (Text.lit "designer")
  files := OrderedMap.ofEntries (files.map fun file => (file.path, file.content))
  changes := []
  index := featureIndex files

/-- What a batch changes in the files of a specification, or why it changes nothing. -/
def planBatch (authorRole : Option Text) (operations : List BatchOperation)
    (files : List SpecFile) : Except PlanStop Plan :=
  match conflictOf operations (featureIndex files) with
  | some stop => .error stop
  | none => do
    let workspace ← operations.foldlM (applyOperation readers plain) (openedWorkspace authorRole files)
    let report ← validate readers files (toFiles workspace.files)
    .ok ⟨workspace.changes.map Prod.snd, report⟩

/-! ## The file of an operation -/

/-- The path of the file that an operation aims at. -/
def aimedPath (index : OrderedMap Text Text) (operation : BatchOperation) : Text :=
  if operation.kind = featureCreate then createdPath plain (operation.targetSpecId.getD []) operation
  else (index.get (operation.targetSpecId.getD [])).getD []

variable {readers plain}

/-- **An operation changes the file it aims at**, and the index stays. -/
theorem applyOperation_changes {workspace next : Workspace} {operation : BatchOperation}
    (applied : applyOperation readers plain workspace operation = .ok next) :
    next.index = workspace.index ∧ ∃ change : FileChange,
      change.path = aimedPath plain workspace.index operation ∧
        next.changes = workspace.changes.set change.path change := by
  rw [applyOperation] at applied
  rw [aimedPath]
  split at applied
  · rename_i create
    obtain ⟨content, -, rfl⟩ := map_eq_ok.mp applied
    rw [if_pos create]
    exact ⟨rfl, .write _ content, rfl, rfl⟩
  · rename_i other
    rw [if_neg other]
    split at applied
    · obtain ⟨-, -, rfl⟩ := map_eq_ok.mp applied
      exact ⟨rfl, .delete _, rfl, rfl⟩
    · obtain ⟨content, -, rfl⟩ := map_eq_ok.mp applied
      exact ⟨rfl, .write _ content, rfl, rfl⟩

/-- The changes of a workspace are kept under their paths. -/
def Workspace.Filed (workspace : Workspace) : Prop :=
  ∀ entry ∈ workspace.changes, entry.2.path = entry.1

/-- **What operations change**: the files of the changes that were there, and those they aim at. -/
theorem foldlM_changes {operations : List BatchOperation} {workspace last : Workspace}
    (filed : workspace.Filed)
    (applied : operations.foldlM (applyOperation readers plain) workspace = .ok last) :
    last.Filed ∧ ∀ path, path ∈ last.changes.keys ↔
      path ∈ workspace.changes.keys ∨
        ∃ operation ∈ operations, aimedPath plain workspace.index operation = path := by
  induction operations generalizing workspace with
  | nil =>
    cases applied
    exact ⟨filed, fun path => by simp⟩
  | cons operation operations ih =>
    rw [List.foldlM_cons] at applied
    obtain ⟨next, first, rest⟩ := bind_eq_ok.mp applied
    obtain ⟨index, change, aimed, changed⟩ := applyOperation_changes first
    have filed' : next.Filed := by
      intro entry member
      rw [changed] at member
      rcases OrderedMap.mem_of_mem_set member with rfl | old
      · rfl
      · exact filed entry old
    obtain ⟨filed'', keys⟩ := ih filed' rest
    refine ⟨filed'', fun path => ?_⟩
    have here : path ∈ next.changes.keys ↔ path ∈ workspace.changes.keys ∨
        aimedPath plain workspace.index operation = path := by
      rw [changed, OrderedMap.keys_set, aimed]
      split
      · rename_i known
        refine (or_iff_left_of_imp ?_).symm
        rintro rfl
        exact known
      · rw [List.mem_append, List.mem_singleton, eq_comm (a := path)]
    rw [keys, here, index, List.exists_mem_cons_iff, or_assoc]

/-- **The files that a planned batch changes** are those that its operations aim at. -/
theorem changed_iff {authorRole : Option Text} {operations : List BatchOperation}
    {files : List SpecFile} {plan : Plan}
    (planned : planBatch readers plain authorRole operations files = .ok plan) (path : Text) :
    (∃ change ∈ plan.changes, change.path = path) ↔
      ∃ operation ∈ operations, aimedPath plain (featureIndex files) operation = path := by
  rw [planBatch] at planned
  split at planned
  · cases planned
  · obtain ⟨last, applied, rest⟩ := bind_eq_ok.mp planned
    obtain ⟨report, -, same⟩ := bind_eq_ok.mp rest
    cases same
    have empty : (openedWorkspace authorRole files).Filed := List.forall_mem_nil _
    obtain ⟨filed, keys⟩ := foldlM_changes empty applied
    have started : path ∉ (openedWorkspace authorRole files).changes.keys := List.not_mem_nil
    have aims := (keys path).trans (or_iff_right started)
    refine Iff.trans ?_ aims
    constructor
    · rintro ⟨change, member, rfl⟩
      obtain ⟨entry, inside, rfl⟩ := List.mem_map.mp member
      rw [filed entry inside]
      exact List.mem_map_of_mem inside
    · intro known
      obtain ⟨entry, inside, rfl⟩ := List.mem_map.mp known
      exact ⟨entry.2, List.mem_map_of_mem inside, filed entry inside⟩

/-- A planned batch has no conflict. -/
theorem conflicts_of_planned {authorRole : Option Text} {operations : List BatchOperation}
    {files : List SpecFile} {plan : Plan}
    (planned : planBatch readers plain authorRole operations files = .ok plan)
    {operation : BatchOperation} (member : operation ∈ operations) :
    operation.kind = featureCreate ↔
      (featureIndex files).get (operation.targetSpecId.getD []) = none := by
  rw [planBatch] at planned
  split at planned
  · cases planned
  · rename_i free
    rw [conflictOf] at free
    split at free
    · cases free
    · rename_i none
      have fine : conflicts (featureIndex files) operation = false := by
        rw [Bool.not_eq_true, List.any_eq_false] at none
        exact Bool.eq_false_iff.mpr (none operation member)
      rw [conflicts] at fine
      cases found : (featureIndex files).get (operation.targetSpecId.getD []) with
      | none => simpa [found] using fine
      | some path => simpa [found] using fine

end Planning

/-! ## The index -/

/-- The last file whose path bears an identifier. -/
def lastBearing (files : List SpecFile) (id : Text) : Option SpecFile :=
  (files.filter fun file => featureIdOfPath file.path = some id).getLast?

/-- **The index gives the last path that bears an identifier.** -/
theorem get_featureIndex (files : List SpecFile) (id : Text) :
    (featureIndex files).get id = (lastBearing files id).map SpecFile.path := by
  induction files using List.reverseRecOn with
  | nil => rfl
  | append_singleton files file ih =>
    rw [featureIndex, List.foldl_append, List.foldl_cons, List.foldl_nil, ← featureIndex, lastBearing,
      List.filter_append]
    cases borne : featureIdOfPath file.path with
    | none =>
      have other : [file].filter (fun file => featureIdOfPath file.path = some id) = [] := by
        simp [borne]
      rw [other, List.append_nil]
      exact ih
    | some id' =>
      dsimp only
      rw [OrderedMap.get_set]
      by_cases same : id' = id
      · subst same
        have own : [file].filter (fun file => featureIdOfPath file.path = some id') = [file] := by
          simp [borne]
        rw [own, if_pos rfl, List.getLast?_append, List.getLast?_singleton]
        rfl
      · have other : [file].filter (fun file => featureIdOfPath file.path = some id) = [] := by
          simp [borne, same]
        rw [other, List.append_nil, if_neg same]
        exact ih

/-- A path of the index bears its identifier. -/
theorem featureIdOfPath_of_get {files : List SpecFile} {id path : Text}
    (found : (featureIndex files).get id = some path) : featureIdOfPath path = some id := by
  rw [get_featureIndex, Option.map_eq_some_iff] at found
  obtain ⟨file, last, rfl⟩ := found
  have member := List.mem_of_getLast? last
  exact of_decide_eq_true (List.mem_filter.mp member).2

end Koklo.SpecPlan
