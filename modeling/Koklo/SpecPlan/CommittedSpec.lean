import Koklo.Schema.ReferenceValidation
import Koklo.Schema.RoundTrip
import Koklo.Schema.SpecFilesOrder
import Koklo.SpecPlan.PlannedFiles
import Koklo.Webhook.BranchIndex

/-!
# What a batch commits is what was checked

A batch is planned on the files of a specification that were read at the head of a branch, in a
directory of the repository or at its root. The files that the plan was checked on are never written
as such: the commit holds the changes only, under their paths in the repository. Reading the
specification again from the new head gives the files that were checked (`perm_readSpecFiles`), so
that the report of the batch is that of the new head (`committed_as_checked`), and batches never add
an error to a specification (`attempts_add_no_error`).
-/

set_option autoImplicit false

namespace Koklo.SpecPlan

open Foundations Schema
open Webhook (withSpecPath relativeToSpec slash)

/-! ## Files of a repository -/

/-- The files of a commit, under distinct paths. -/
structure RepoTree where
  files : OrderedMap Text Text
  distinct : files.keys.Nodup

/-- The content that a change writes. -/
def FileChange.content? : FileChange → Option Text
  | write _ content => some content
  | delete _ => none

/-- The files with one more entry of a tree: a blob, or the removal of one. -/
def treeWith (files : OrderedMap Text Text) : FileChange → OrderedMap Text Text
  | .write path content => files.set path content
  | .delete path => files.erase path

theorem nodup_treeWith {files : OrderedMap Text Text} (distinct : files.keys.Nodup)
    (change : FileChange) : (treeWith files change).keys.Nodup := by
  cases change with
  | write path content => exact OrderedMap.nodup_keys_set distinct path content
  | delete path => exact OrderedMap.nodup_keys_erase distinct path

theorem nodup_foldl_treeWith {files : OrderedMap Text Text} (distinct : files.keys.Nodup)
    (changes : List FileChange) : (changes.foldl treeWith files).keys.Nodup := by
  induction changes generalizing files with
  | nil => exact distinct
  | cons change changes ih => exact ih (nodup_treeWith distinct change)

/-- The tree of a commit: that of its parent, with the entries of the changes. -/
def RepoTree.writeCommit (tree : RepoTree) (changes : List FileChange) : RepoTree :=
  ⟨changes.foldl treeWith tree.files, nodup_foldl_treeWith tree.distinct changes⟩

theorem get_treeWith (files : OrderedMap Text Text) (change : FileChange) (path : Text) :
    (treeWith files change).get path =
      if change.path = path then change.content? else files.get path := by
  cases change with
  | write own content =>
    rw [treeWith, OrderedMap.get_set]
    rfl
  | delete own =>
    rw [treeWith, OrderedMap.get_erase]
    rfl

/-- **A commit leaves the files that it does not name.** -/
theorem get_writeCommit_of_apart (tree : RepoTree) {changes : List FileChange} {path : Text}
    (apart : ∀ change ∈ changes, change.path ≠ path) :
    (tree.writeCommit changes).files.get path = tree.files.get path := by
  have grown : ∀ files : OrderedMap Text Text,
      (changes.foldl treeWith files).get path = files.get path := by
    induction changes with
    | nil => exact fun _ => rfl
    | cons change changes ih =>
      intro files
      obtain ⟨other, others⟩ := List.forall_mem_cons.mp apart
      rw [List.foldl_cons, ih others, get_treeWith, if_neg other]
  exact grown tree.files

/-- **A commit writes each change**, under distinct paths. -/
theorem get_writeCommit_of_mem (tree : RepoTree) {changes : List FileChange}
    (distinct : (changes.map FileChange.path).Nodup) {change : FileChange}
    (member : change ∈ changes) :
    (tree.writeCommit changes).files.get change.path = change.content? := by
  obtain ⟨front, back, rfl⟩ := List.append_of_mem member
  have later : ∀ other ∈ back, other.path ≠ change.path := by
    rw [List.map_append, List.map_cons] at distinct
    have apart := (List.nodup_cons.mp (List.nodup_append.mp distinct).2.1).1
    intro other inside same
    exact apart (same ▸ List.mem_map_of_mem inside)
  have whole : (tree.writeCommit (front ++ change :: back)).files =
      ((tree.writeCommit (front ++ [change])).writeCommit back).files := by
    rw [RepoTree.writeCommit, RepoTree.writeCommit, RepoTree.writeCommit]
    dsimp only
    rw [← List.foldl_append, List.append_assoc]
    rfl
  rw [whole, get_writeCommit_of_apart _ later, RepoTree.writeCommit]
  dsimp only
  rw [List.foldl_append, List.foldl_cons, List.foldl_nil, get_treeWith, if_pos rfl]

/-! ## The directory of a specification -/

theorem relativeToSpec_eq_some {specPath : Option Text} {path relative : Text} :
    relativeToSpec specPath path = some relative ↔ path = withSpecPath specPath relative := by
  cases specPath with
  | none => exact Option.some_inj
  | some directory =>
    rw [relativeToSpec, withSpecPath]
    constructor
    · intro inside
      split at inside
      · rename_i begins
        obtain ⟨rest, rfl⟩ := begins
        have dropped : (directory ++ [slash] ++ rest).drop (directory.length + 1) = rest :=
          List.drop_left' (by rw [List.length_append, List.length_singleton])
        rw [dropped, Option.some_inj] at inside
        rw [← inside, List.append_assoc]
        rfl
      · cases inside
    · rintro rfl
      have parted : directory ++ slash :: relative = directory ++ [slash] ++ relative := by
        rw [List.append_assoc]
        rfl
      rw [parted, if_pos (List.prefix_append _ _),
        List.drop_left' (by rw [List.length_append, List.length_singleton])]

theorem withSpecPath_injective (specPath : Option Text) :
    Function.Injective (withSpecPath specPath) := fun _ _ same =>
  Option.some_inj.mp ((relativeToSpec_eq_some.mpr rfl).symm.trans (relativeToSpec_eq_some.mpr same))

/-- A change, under its path in the repository. -/
def prefixed (specPath : Option Text) : FileChange → FileChange
  | .write path content => .write (withSpecPath specPath path) content
  | .delete path => .delete (withSpecPath specPath path)

theorem prefixed_spec (specPath : Option Text) (change : FileChange) :
    (prefixed specPath change).path = withSpecPath specPath change.path ∧
      (prefixed specPath change).content? = change.content? := by
  cases change with
  | write path content => exact ⟨rfl, rfl⟩
  | delete path => exact ⟨rfl, rfl⟩

/-! ## Reading a specification -/

/-- The paths of a tree, as they are listed. -/
def RepoTree.listFiles (tree : RepoTree) : List Text := sortWith compareText tree.files.keys

/-- The paths of the specification that its schema knows. -/
def recognizedSpecPaths (specPath : Option Text) (paths : List Text) : List Text :=
  paths.filterMap fun path =>
    (relativeToSpec specPath path).filter fun relative => (kindOf relative).isSome

/-- The files of the specification at a head. -/
def readSpecFiles (specPath : Option Text) (tree : RepoTree) : List SpecFile :=
  (recognizedSpecPaths specPath tree.listFiles).map fun path =>
    ⟨path, (tree.files.get (withSpecPath specPath path)).getD []⟩

theorem mem_recognizedSpecPaths {specPath : Option Text} {paths : List Text} {path : Text} :
    path ∈ recognizedSpecPaths specPath paths ↔
      (kindOf path).isSome = true ∧ withSpecPath specPath path ∈ paths := by
  rw [recognizedSpecPaths, List.mem_filterMap]
  constructor
  · rintro ⟨whole, member, relative⟩
    obtain ⟨inside, known⟩ := Option.filter_eq_some_iff.mp relative
    rw [relativeToSpec_eq_some] at inside
    exact ⟨known, inside ▸ member⟩
  · rintro ⟨known, member⟩
    exact ⟨_, member, Option.filter_eq_some_iff.mpr ⟨relativeToSpec_eq_some.mpr rfl, known⟩⟩

/-- **The files that are read**: those of a known kind, with their contents. -/
theorem mem_readSpecFiles {specPath : Option Text} {tree : RepoTree} {file : SpecFile} :
    file ∈ readSpecFiles specPath tree ↔ (kindOf file.path).isSome = true ∧
      tree.files.get (withSpecPath specPath file.path) = some file.content := by
  rw [readSpecFiles, List.mem_map]
  constructor
  · rintro ⟨path, member, rfl⟩
    obtain ⟨known, listed⟩ := mem_recognizedSpecPaths.mp member
    rw [RepoTree.listFiles, (perm_sortWith _ _).mem_iff, ← OrderedMap.get_isSome_iff] at listed
    obtain ⟨content, read⟩ := Option.isSome_iff_exists.mp listed
    exact ⟨known, by rw [read, Option.getD_some]⟩
  · rintro ⟨known, read⟩
    refine ⟨file.path, mem_recognizedSpecPaths.mpr ⟨known, ?_⟩, by rw [read, Option.getD_some]⟩
    rw [RepoTree.listFiles, (perm_sortWith _ _).mem_iff, ← OrderedMap.get_isSome_iff, read]
    rfl

theorem nodup_readSpecFiles (specPath : Option Text) (tree : RepoTree) :
    ((readSpecFiles specPath tree).map SpecFile.path).Nodup := by
  have same : (readSpecFiles specPath tree).map SpecFile.path =
      recognizedSpecPaths specPath tree.listFiles := by
    rw [readSpecFiles, List.map_map]
    exact List.map_id _
  rw [same]
  refine List.Nodup.filterMap (fun path other relative first second => ?_)
    ((perm_sortWith _ _).nodup_iff.mpr tree.distinct)
  have one := (Option.filter_eq_some_iff.mp first).1
  have two := (Option.filter_eq_some_iff.mp second).1
  rw [relativeToSpec_eq_some] at one two
  exact one.trans two.symm

/-! ## The workspace of a plan -/

/-- The files of a workspace are those it was opened with, as its changes leave them. -/
structure Workspace.Tracks (workspace : Workspace) (opened : OrderedMap Text Text) : Prop where
  distinct : workspace.files.keys.Nodup
  filed : workspace.Filed
  changed : workspace.changes.keys.Nodup
  content : ∀ path change, workspace.changes.get path = some change →
    workspace.files.get path = change.content?
  kept : ∀ path, path ∉ workspace.changes.keys → workspace.files.get path = opened.get path

theorem Workspace.Tracks.opened (authorRole : Option Text) (files : List SpecFile) :
    (openedWorkspace authorRole files).Tracks (openedWorkspace authorRole files).files :=
  ⟨OrderedMap.nodup_keys_ofEntries _, List.forall_mem_nil _, List.nodup_nil,
    fun _ _ known => (by cases known), fun _ _ => rfl⟩

/-- A workspace whose files and changes grow together. -/
theorem Workspace.Tracks.changing {workspace next : Workspace} {opened : OrderedMap Text Text}
    (tracks : workspace.Tracks opened) (change : FileChange)
    (files : next.files = treeWith workspace.files change)
    (changes : next.changes = workspace.changes.set change.path change) : next.Tracks opened := by
  have reads : ∀ path, next.files.get path =
      if change.path = path then change.content? else workspace.files.get path := fun path => by
    rw [files, get_treeWith]
  refine ⟨?_, ?_, ?_, fun path other known => ?_, fun path unchanged => ?_⟩
  · rw [files]
    exact nodup_treeWith tracks.distinct change
  · intro entry member
    rw [changes] at member
    rcases OrderedMap.mem_of_mem_set member with rfl | old
    · rfl
    · exact tracks.filed entry old
  · rw [changes]
    exact OrderedMap.nodup_keys_set tracks.changed change.path change
  · rw [reads]
    rw [changes, OrderedMap.get_set] at known
    split at known
    · rename_i same
      rw [if_pos same, Option.some_inj.mp known]
    · rename_i apart
      rw [if_neg apart]
      exact tracks.content path other known
  · rw [changes, OrderedMap.keys_set] at unchanged
    have apart : change.path ≠ path ∧ path ∉ workspace.changes.keys := by
      split at unchanged
      · rename_i known
        exact ⟨fun same => unchanged (same ▸ known), unchanged⟩
      · rw [List.mem_append, List.mem_singleton, not_or] at unchanged
        exact ⟨Ne.symm unchanged.2, unchanged.1⟩
    rw [reads, if_neg apart.1]
    exact tracks.kept path apart.2

section Planning

variable {readers : Readers} {plain : Text → Text}

theorem Workspace.Tracks.operation {workspace next : Workspace} {opened : OrderedMap Text Text}
    {operation : BatchOperation} (tracks : workspace.Tracks opened)
    (applied : applyOperation readers plain workspace operation = .ok next) :
    next.Tracks opened := by
  rw [applyOperation] at applied
  split at applied
  · obtain ⟨content, -, rfl⟩ := map_eq_ok.mp applied
    exact tracks.changing (.write _ content) rfl rfl
  split at applied
  · obtain ⟨-, -, rfl⟩ := map_eq_ok.mp applied
    exact tracks.changing (.delete _) rfl rfl
  · obtain ⟨content, -, rfl⟩ := map_eq_ok.mp applied
    exact tracks.changing (.write _ content) rfl rfl

theorem Workspace.Tracks.foldlM {operations : List BatchOperation} {workspace last : Workspace}
    {opened : OrderedMap Text Text} (tracks : workspace.Tracks opened)
    (applied : operations.foldlM (applyOperation readers plain) workspace = .ok last) :
    last.Tracks opened := by
  induction operations generalizing workspace with
  | nil =>
    cases applied
    exact tracks
  | cons operation operations ih =>
    rw [List.foldlM_cons] at applied
    obtain ⟨next, first, rest⟩ := bind_eq_ok.mp applied
    exact ih (tracks.operation first) rest

/-- What a planned batch was checked on. -/
theorem checked_of_planned {authorRole : Option Text} {operations : List BatchOperation}
    {files : List SpecFile} {plan : Plan}
    (planned : planBatch readers plain authorRole operations files = .ok plan) :
    ∃ last : Workspace,
      operations.foldlM (applyOperation readers plain) (openedWorkspace authorRole files) =
        .ok last ∧ last.Tracks (openedWorkspace authorRole files).files ∧
      plan.changes = last.changes.map Prod.snd ∧
        validate readers files (toFiles last.files) = .ok plan.report := by
  rw [planBatch] at planned
  split at planned
  · cases planned
  · obtain ⟨last, applied, rest⟩ := bind_eq_ok.mp planned
    obtain ⟨report, checked, same⟩ := bind_eq_ok.mp rest
    cases same
    exact ⟨last, applied, (Workspace.Tracks.opened _ _).foldlM applied, rfl, checked⟩

/-- A path that bears an identifier of feature is that of a feature. -/
theorem kindOf_of_bears {path id : Text} (bears : featureIdOfPath path = some id) :
    kindOf path = some .feature := by
  obtain ⟨d, rfl, enough, digits, -⟩ := featureIdOfPath_eq_some.mp bears
  exact ((featureIdOfPath_iff_named (matches_feature.mpr ⟨d, rfl, enough, digits⟩)).mp bears).1

/-- **A planned batch changes files of features only.** -/
theorem kindOf_of_changed {authorRole : Option Text} {operations : List BatchOperation}
    {files : List SpecFile} {plan : Plan}
    (sound : ∀ operation ∈ operations, operationProblem operation = none)
    (planned : planBatch readers plain authorRole operations files = .ok plan)
    {change : FileChange} (member : change ∈ plan.changes) :
    kindOf change.path = some .feature := by
  obtain ⟨operation, among, aims⟩ := (changed_iff planned change.path).mp ⟨change, member, rfl⟩
  obtain ⟨id, named, matched⟩ := matches_of_operationProblem (sound operation among)
  rw [aimedPath, named, Option.getD_some] at aims
  split at aims
  · rw [← aims]
    exact kindOf_of_bears (featureIdOfPath_featurePathOf matched)
  · rename_i old
    cases found : (featureIndex files).get id with
    | none =>
      exact absurd ((conflicts_of_planned planned among).mpr (by rw [named]; exact found)) old
    | some path =>
      rw [found, Option.getD_some] at aims
      rw [← aims]
      exact kindOf_of_bears (featureIdOfPath_of_get found)

end Planning

/-! ## Reading the new head -/

theorem mem_toFiles {files : OrderedMap Text Text} (distinct : files.keys.Nodup) {file : SpecFile} :
    file ∈ toFiles files ↔ files.get file.path = some file.content := by
  rw [toFiles, List.mem_map, OrderedMap.get_eq_some_iff distinct]
  constructor
  · rintro ⟨entry, member, rfl⟩
    exact member
  · exact fun member => ⟨_, member, rfl⟩

theorem paths_toFiles (files : OrderedMap Text Text) :
    (toFiles files).map SpecFile.path = files.keys := by
  rw [toFiles, List.map_map]
  rfl

/-- What the workspace of a batch holds when it opens. -/
theorem get_openedWorkspace {authorRole : Option Text} {files : List SpecFile}
    (distinct : (files.map SpecFile.path).Nodup) {path content : Text} :
    (openedWorkspace authorRole files).files.get path = some content ↔ ⟨path, content⟩ ∈ files := by
  have keys : ((files.map fun file => (file.path, file.content)).map Prod.fst).Nodup := by
    rw [List.map_map]
    exact distinct
  rw [openedWorkspace]
  dsimp only
  rw [OrderedMap.get_ofEntries keys, OrderedMap.get_eq_some_iff keys, List.mem_map]
  constructor
  · rintro ⟨file, member, same⟩
    obtain ⟨rfl, rfl⟩ := Prod.mk.injEq .. ▸ same
    exact member
  · exact fun member => ⟨_, member, rfl⟩

section Committing

variable {readers : Readers} {plain : Text → Text} {specPath : Option Text} {tree : RepoTree}
  {authorRole : Option Text}

/-- **The new head reads as the files that were checked.** -/
theorem perm_readSpecFiles {last : Workspace} {changes : List FileChange}
    (tracks : last.Tracks (openedWorkspace authorRole (readSpecFiles specPath tree)).files)
    (listed : changes = last.changes.map Prod.snd)
    (known : ∀ change ∈ changes, (kindOf change.path).isSome = true) :
    (readSpecFiles specPath (tree.writeCommit (changes.map (prefixed specPath)))).Perm
      (toFiles last.files) := by
  have paths : changes.map FileChange.path = last.changes.keys := by
    rw [listed, List.map_map]
    exact List.map_congr_left fun entry member => tracks.filed entry member
  have apart : ((changes.map (prefixed specPath)).map FileChange.path).Nodup := by
    have whole : (changes.map (prefixed specPath)).map FileChange.path =
        last.changes.keys.map (withSpecPath specPath) := by
      rw [← paths, List.map_map, List.map_map]
      exact List.map_congr_left fun change _ => (prefixed_spec specPath change).1
    rw [whole]
    exact tracks.changed.map (withSpecPath_injective specPath)
  have distinct : (toFiles last.files).Nodup :=
    List.Nodup.of_map SpecFile.path ((paths_toFiles last.files).symm ▸ tracks.distinct)
  refine (List.perm_ext_iff_of_nodup (List.Nodup.of_map _ (nodup_readSpecFiles _ _))
    distinct).mpr fun file => ?_
  rw [mem_readSpecFiles, mem_toFiles tracks.distinct]
  cases found : last.changes.get file.path with
  | some change =>
    have entry := OrderedMap.mem_of_get found
    have member : change ∈ changes := listed ▸ List.mem_map_of_mem entry
    have path : change.path = file.path := tracks.filed _ entry
    have read := get_writeCommit_of_mem tree apart (List.mem_map_of_mem member)
    obtain ⟨whole, content⟩ := prefixed_spec specPath change
    rw [whole, content, path] at read
    rw [read, tracks.content _ _ found]
    exact and_iff_right (path ▸ known change member)
  | none =>
    have absent := OrderedMap.get_eq_none_iff.mp found
    have other : ∀ change ∈ changes.map (prefixed specPath),
        change.path ≠ withSpecPath specPath file.path := by
      intro change member same
      obtain ⟨relative, inside, rfl⟩ := List.mem_map.mp member
      rw [(prefixed_spec specPath relative).1] at same
      exact absent (paths ▸ withSpecPath_injective specPath same ▸ List.mem_map_of_mem inside)
    rw [get_writeCommit_of_apart tree other, tracks.kept _ absent,
      get_openedWorkspace (nodup_readSpecFiles _ _), mem_readSpecFiles]

/-- What the workspace of a batch holds when it opens, and what the new head holds. -/
theorem get_heads {last : Workspace} {changes : List FileChange} {path : Text}
    (tracks : last.Tracks (openedWorkspace authorRole (readSpecFiles specPath tree)).files)
    (listed : changes = last.changes.map Prod.snd)
    (known : ∀ change ∈ changes, (kindOf change.path).isSome = true)
    (recognized : (kindOf path).isSome = true) :
    (openedWorkspace authorRole (readSpecFiles specPath tree)).files.get path =
        tree.files.get (withSpecPath specPath path) ∧
      last.files.get path = (tree.writeCommit (changes.map (prefixed specPath))).files.get
        (withSpecPath specPath path) := by
  constructor
  · refine Option.ext fun content => ?_
    rw [get_openedWorkspace (nodup_readSpecFiles _ _), mem_readSpecFiles]
    exact and_iff_right recognized
  · refine Option.ext fun content => ?_
    have same := (perm_readSpecFiles tracks listed known).mem_iff (a := ⟨path, content⟩)
    rw [mem_readSpecFiles, mem_toFiles tracks.distinct] at same
    exact same.symm.trans (and_iff_right recognized)

/-- Files that are the same up to their order have one report. -/
theorem checkSpec_perm {files files' : List SpecFile} (distinct : (files.map SpecFile.path).Nodup)
    (same : files'.Perm files) : checkSpec readers files' = checkSpec readers files := by
  rw [checkSpec, checkSpec, parseSpecFiles, parseSpecFiles, orderedFiles_perm distinct same]

/-- What the check of a plan lets through, and what it reports. -/
theorem validate_eq_ok {before after : List SpecFile} {report : Option StoredReport}
    (checked : validate readers before after = .ok report) :
    let new := newIssues (checkSpec readers before).issues (checkSpec readers after).issues
    (∀ issue ∈ new, issue.severity = .warning) ∧
      report = if new = [] then none else some (toStoredReport new) := by
  intro new
  rw [validate] at checked
  dsimp only at checked
  split at checked
  · rename_i clean
    cases checked
    have empty : new = [] := by
      change newIssues _ (checkSpec readers after).issues = []
      rw [clean]
      rfl
    rw [empty]
    exact ⟨List.forall_mem_nil _, rfl⟩
  split at checked
  · cases checked
  rename_i mild
  have warnings : ∀ issue ∈ new, issue.severity = .warning := by
    rw [Bool.not_eq_true, List.any_eq_false] at mild
    intro issue member
    have fine := mild issue member
    rw [decide_eq_true_eq] at fine
    cases severity : issue.severity with
    | error => exact absurd severity fine
    | warning => rfl
  split at checked
  · rename_i some_
    cases checked
    exact ⟨warnings, (if_neg some_).symm⟩
  · rename_i none_
    cases checked
    exact ⟨warnings, (if_pos (not_not.mp none_)).symm⟩

/-- The files that a batch was checked on, and what is read again from the new head. -/
theorem new_head_read {operations : List BatchOperation} {plan : Plan}
    (sound : ∀ operation ∈ operations, operationProblem operation = none)
    (planned : planBatch readers plain authorRole operations (readSpecFiles specPath tree) =
      .ok plan) :
    ∃ last : Workspace,
      operations.foldlM (applyOperation readers plain)
          (openedWorkspace authorRole (readSpecFiles specPath tree)) = .ok last ∧
        validate readers (readSpecFiles specPath tree) (toFiles last.files) = .ok plan.report ∧
        ((toFiles last.files).map SpecFile.path).Nodup ∧
        (readSpecFiles specPath (tree.writeCommit (plan.changes.map (prefixed specPath)))).Perm
          (toFiles last.files) := by
  obtain ⟨last, applied, tracks, listed, checked⟩ := checked_of_planned planned
  have distinct : ((toFiles last.files).map SpecFile.path).Nodup :=
    (paths_toFiles last.files).symm ▸ tracks.distinct
  refine ⟨last, applied, checked, distinct, perm_readSpecFiles tracks listed fun change member => ?_⟩
  rw [kindOf_of_changed sound planned member]
  rfl

/-- The new head has the issues that its batch was checked for. -/
theorem new_head_warns {operations : List BatchOperation} {plan : Plan}
    (sound : ∀ operation ∈ operations, operationProblem operation = none)
    (planned : planBatch readers plain authorRole operations (readSpecFiles specPath tree) =
      .ok plan) :
    let new := newIssues (checkSpec readers (readSpecFiles specPath tree)).issues
      (checkSpec readers (readSpecFiles specPath
        (tree.writeCommit (plan.changes.map (prefixed specPath))))).issues
    (∀ issue ∈ new, issue.severity = .warning) ∧
      plan.report = if new = [] then none else some (toStoredReport new) := by
  obtain ⟨last, -, checked, distinct, read⟩ := new_head_read sound planned
  rw [checkSpec_perm distinct read]
  exact validate_eq_ok checked

/-- **What a batch commits is what was checked**: the specification that is read from the new head
is, up to the order of its files, the one that the operations made of the former head and that the
plan was checked on; the issues that the former head did not have are warnings, and they are those
of the report of the batch; the commit touches files of features only, and leaves all other files of
the repository as they were. -/
theorem committed_as_checked {operations : List BatchOperation} {plan : Plan}
    (sound : ∀ operation ∈ operations, operationProblem operation = none)
    (planned : planBatch readers plain authorRole operations (readSpecFiles specPath tree) =
      .ok plan) :
    let after := tree.writeCommit (plan.changes.map (prefixed specPath))
    let new := newIssues (checkSpec readers (readSpecFiles specPath tree)).issues
      (checkSpec readers (readSpecFiles specPath after)).issues
    (∃ last : Workspace,
      operations.foldlM (applyOperation readers plain)
          (openedWorkspace authorRole (readSpecFiles specPath tree)) = .ok last ∧
        validate readers (readSpecFiles specPath tree) (toFiles last.files) = .ok plan.report ∧
        (readSpecFiles specPath after).Perm (toFiles last.files)) ∧
      (∀ issue ∈ new, issue.severity = .warning) ∧
      plan.report = (if new = [] then none else some (toStoredReport new)) ∧
      (∀ change ∈ plan.changes, kindOf change.path = some .feature) ∧
      ∀ path, (∀ change ∈ plan.changes, withSpecPath specPath change.path ≠ path) →
        after.files.get path = tree.files.get path := by
  intro after new
  obtain ⟨last, applied, checked, -, read⟩ := new_head_read sound planned
  obtain ⟨warnings, report⟩ := new_head_warns sound planned
  refine ⟨⟨last, applied, checked, read⟩, warnings, report,
    fun change member => kindOf_of_changed sound planned member, fun path apart => ?_⟩
  refine get_writeCommit_of_apart tree fun change member => ?_
  obtain ⟨relative, inside, rfl⟩ := List.mem_map.mp member
  rw [(prefixed_spec specPath relative).1]
  exact apart relative inside

end Committing

/-! ## A batch of two updates -/

/-- A feature that cites a rule. -/
def citingFeature : Feature :=
  { loginFeature (Text.lit "mot de passe valide") with regles := [Text.lit "R-001"] }

/-- The feature under another title, and without the rule. -/
def revisedFeature : Feature := { citingFeature with titre := Text.lit "Session", regles := [] }

/-- The text that a feature is written as. -/
def featureText (feature : Feature) : Text :=
  Text.joinLines (emittedPieces PlainYaml.package feature (Text.trim feature.description)) ++
    [Text.newline]

/-- The rule that is cited. -/
def citedRule : Text :=
  Text.lit "---\nid: R-001\ntype: contrainte\n---\n## Enonce\nUn mot de passe a douze signes.\n"

/-- A repository whose directory `spec` holds the feature and the rule. -/
def monorepoFiles : OrderedMap Text Text :=
  [(Text.lit "README.md", []), (Text.lit "spec/features/F-001.md", featureText citingFeature),
    (Text.lit "spec/domain/rules/R-001.md", citedRule)]

theorem nodup_monorepoFiles : monorepoFiles.keys.Nodup := by decide

def monorepo : RepoTree := ⟨monorepoFiles, nodup_monorepoFiles⟩

def specDirectory : Option Text := some (Text.lit "spec")

def designerRole : Option Text := some (Text.lit "designer")

/-- An update of the title, then one of the rules. -/
def revisions : List BatchOperation :=
  [⟨featureUpdate, some (Text.lit "F-001"), { title := some (Text.lit "Session") }⟩,
    ⟨featureUpdate, some (Text.lit "F-001"), { rules := some [] }⟩]

theorem sound_revisions : ∀ operation ∈ revisions, operationProblem operation = none :=
  List.forall_mem_cons.mpr ⟨by decide, List.forall_mem_singleton.mpr (by decide)⟩

/-- One file is written, and the rule is reported as cited by nothing. -/
def revision : Plan where
  changes := [.write draftFile.path (featureText revisedFeature)]
  report := some (toStoredReport
    [warn .r7OrphanRule (Text.lit "domain/rules/R-001.md") [] (Text.lit "R-001")
      (Text.lit "La règle R-001 n'est citée par aucune feature.")])

theorem revision_planned :
    planBatch plainReaders id designerRole revisions (readSpecFiles specDirectory monorepo) =
      .ok revision := by decide +kernel

theorem revision_committed_as_checked :
    let after := monorepo.writeCommit (revision.changes.map (prefixed specDirectory))
    let new := newIssues (checkSpec plainReaders (readSpecFiles specDirectory monorepo)).issues
      (checkSpec plainReaders (readSpecFiles specDirectory after)).issues
    (∃ last : Workspace,
      revisions.foldlM (applyOperation plainReaders id)
          (openedWorkspace designerRole (readSpecFiles specDirectory monorepo)) = .ok last ∧
        validate plainReaders (readSpecFiles specDirectory monorepo) (toFiles last.files) =
          .ok revision.report ∧
        (readSpecFiles specDirectory after).Perm (toFiles last.files)) ∧
      (∀ issue ∈ new, issue.severity = .warning) ∧
      revision.report = (if new = [] then none else some (toStoredReport new)) ∧
      (∀ change ∈ revision.changes, kindOf change.path = some .feature) ∧
      ∀ path, (∀ change ∈ revision.changes, withSpecPath specDirectory change.path ≠ path) →
        after.files.get path = monorepo.files.get path :=
  committed_as_checked sound_revisions revision_planned

/-! ## Errors over many batches -/

theorem rule_of_checkRule7 {spec : ParsedSpec} {index : SpecIndex} {issue : SpecIssue}
    (member : issue ∈ checkRule7 spec index) : issue.rule = .rule7 := by
  simp only [checkRule7, checkDomainOrphans, List.mem_append, List.mem_map] at member
  rcases member with (((⟨_, _, rfl⟩ | ⟨_, _, rfl⟩) | ⟨_, _, rfl⟩) | ⟨_, _, rfl⟩) |
    ((roles | permissions) | ⟨_, _, rfl⟩)
  · rfl
  · rfl
  · rfl
  · rfl
  · obtain ⟨file, _, inside⟩ := List.mem_flatMap.mp roles
    obtain ⟨role, _, i, inside⟩ := mem_forEach inside
    split at inside
    · cases inside
    · rw [List.mem_singleton.mp inside]
      rfl
  · obtain ⟨file, _, inside⟩ := List.mem_flatMap.mp permissions
    obtain ⟨permission, _, i, inside⟩ := mem_forEach inside
    split at inside
    · cases inside
    · rw [List.mem_singleton.mp inside]
      rfl
  · rfl

/-- Rule 7 warns, and the others refuse. -/
theorem severity_of_checkSpec {readers : Readers} {files : List SpecFile} {issue : SpecIssue}
    (member : issue ∈ (checkSpec readers files).issues) :
    issue.severity = .error ↔ issue.rule ≠ .rule7 := by
  rw [checkSpec, buildReport, mem_sortIssues, List.mem_append] at member
  rcases member with structural | ruled
  · rw [parseSpecFiles, mem_sortIssues, List.mem_map] at structural
    obtain ⟨found, _, rfl⟩ := structural
    exact ⟨fun _ same => (by cases same), fun _ => rfl⟩
  · rw [validateSpec, buildReport, mem_sortIssues, List.mem_append, List.mem_append] at ruled
    have refuses : ∀ {known : SpecIssue}, Refuses known →
        (known.severity = .error ↔ known.rule ≠ .rule7) := by
      rintro known ⟨severe, four | five⟩
      · exact ⟨fun _ same => (by rw [four] at same; cases same), fun _ => severe⟩
      · exact ⟨fun _ same => (by rw [five] at same; cases same), fun _ => severe⟩
    rcases ruled with (four | five) | seven
    · exact refuses (refuses_of_checkRule4 four)
    · exact refuses (refuses_of_checkRule5 five)
    · have mild := severity_of_checkRule7 seven
      have rule := rule_of_checkRule7 seven
      exact ⟨fun severe => (by rw [mild] at severe; cases severe), fun other => absurd rule other⟩

/-- A key of an issue gives its rule. -/
theorem rule_of_issueKey {first second : SpecIssue} (same : issueKey first = issueKey second) :
    first.rule = second.rule := by
  have plain : ∀ rule : IssueRule, ∀ u ∈ rule.name, u ≠ 0x7C := by
    intro rule u member same
    subst same
    cases rule <;> exact absurd member (by decide)
  have named : ∀ issue : SpecIssue,
      (issueKey issue).takeWhile (fun u => u != 0x7C) = issue.rule.name := by
    intro issue
    rw [issueKey, List.intercalate_cons_cons, List.append_assoc]
    exact List.takeWhile_append_of_pos (fun u member => bne_iff_ne.mpr (plain _ u member)) |>.trans
      (List.append_nil _)
  have names := (named first).symm.trans ((congrArg _ same).trans (named second))
  have apart : ∀ rule other : IssueRule, rule.name = other.name → rule = other := by
    intro rule other
    cases rule <;> cases other <;> decide
  exact apart _ _ names

/-- The keys of the errors of a specification. -/
def errorKeys (readers : Readers) (files : List SpecFile) : List Text :=
  ((checkSpec readers files).issues.filter fun issue => issue.severity = .error).map issueKey

/-- A batch that waits for the branch of a specification. -/
structure QueuedBatch where
  authorRole : Option Text
  operations : List BatchOperation

/-- The branch after a batch: its changes are committed, or nothing is. -/
def attempt (readers : Readers) (plain : Text → Text) (specPath : Option Text) (tree : RepoTree)
    (batch : QueuedBatch) : RepoTree :=
  if batch.operations.any fun operation => (operationProblem operation).isSome then tree
  else
    match planBatch readers plain batch.authorRole batch.operations
        (readSpecFiles specPath tree) with
    | .ok plan => tree.writeCommit (plan.changes.map (prefixed specPath))
    | .error _ => tree

theorem attempt_adds_no_error (readers : Readers) (plain : Text → Text) (specPath : Option Text)
    (tree : RepoTree) (batch : QueuedBatch) :
    errorKeys readers (readSpecFiles specPath (attempt readers plain specPath tree batch)) ⊆
      errorKeys readers (readSpecFiles specPath tree) := by
  rw [attempt]
  split
  · exact List.Subset.refl _
  rename_i sane
  have sound : ∀ operation ∈ batch.operations, operationProblem operation = none := by
    rw [Bool.not_eq_true, List.any_eq_false] at sane
    exact fun operation member => Option.not_isSome_iff_eq_none.mp (sane operation member)
  split
  · rename_i plan planned
    obtain ⟨warnings, -⟩ := new_head_warns sound planned
    intro key member
    obtain ⟨issue, among, rfl⟩ := List.mem_map.mp member
    obtain ⟨reported, severe⟩ := List.mem_filter.mp among
    rw [decide_eq_true_eq] at severe
    by_cases known : issueKey issue ∈
        (checkSpec readers (readSpecFiles specPath tree)).issues.map issueKey
    · obtain ⟨former, before, same⟩ := List.mem_map.mp known
      have refuses : former.severity = .error := by
        rw [severity_of_checkSpec before, rule_of_issueKey same, ← severity_of_checkSpec reported]
        exact severe
      exact same ▸ List.mem_map_of_mem (List.mem_filter.mpr ⟨before, decide_eq_true refuses⟩)
    · have mild := warnings issue (List.mem_filter.mpr ⟨reported, decide_eq_true known⟩)
      rw [mild] at severe
      cases severe
  · exact List.Subset.refl _

/-- **Batches add no error to a specification**: whatever they hold and whoever wrote them, the
errors of the last head are, by their keys, errors of the first one. -/
theorem attempts_add_no_error (readers : Readers) (plain : Text → Text) (specPath : Option Text)
    (tree : RepoTree) (batches : List QueuedBatch) :
    errorKeys readers (readSpecFiles specPath
        (batches.foldl (attempt readers plain specPath) tree)) ⊆
      errorKeys readers (readSpecFiles specPath tree) := by
  induction batches generalizing tree with
  | nil => exact List.Subset.refl _
  | cons batch batches ih =>
    exact List.Subset.trans (ih (attempt readers plain specPath tree batch))
      (attempt_adds_no_error readers plain specPath tree batch)

end Koklo.SpecPlan
