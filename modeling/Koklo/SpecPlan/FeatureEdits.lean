import Koklo.Schema.RoundTrip
import Koklo.SpecPlan.CommittedSpec

/-!
# What a batch does to features

Seen from one file, a planned batch is the edits of the operations that aim at it, in order: a
feature is created from its payload, patched by another or removed (`edited`). The new head holds
the feature that these edits make of the one of the former head (`batch_edits_features`), as long as
each feature that is written on the way is one that its file gives back.

A designer has a batch committed only when every feature that it changes is linked to a screen, in
the repository before it and in what it writes (`designer_changes_design_only`).
-/

set_option autoImplicit false

namespace Koklo.SpecPlan

open Foundations Schema
open Webhook (withSpecPath)

/-! ## Edits -/

/-- The feature after an operation on it. -/
def edited (current : Option Feature) (operation : BatchOperation) : Option Feature :=
  if operation.kind = featureCreate then
    some (createdFeature (operation.targetSpecId.getD []) operation.payload)
  else if operation.kind = featureDelete then none
  else current.map fun feature => patchedFeature feature operation.payload

/-- The feature that is read after an operation: its description is trimmed. -/
def editedRead (current : Option Feature) (operation : BatchOperation) : Option Feature :=
  (edited current operation).map Feature.trimmed

section Reading

variable (readers : Readers)

/-- The feature that the text of a file reads as. -/
def featureRead (path : Text) (content : Option Text) : Option Feature :=
  content.bind fun text => (parseFeatureMarkdown readers.message readers.yaml path text).toOption

/-- Each feature that the operations write is given back by its file, and short enough. -/
def Carried : Option Feature → List BatchOperation → Prop
  | _, [] => True
  | current, operation :: operations =>
    (∀ feature, edited current operation = some feature → ReadBack readers.yaml feature ∧
      ∀ text, emitFeatureMarkdown readers.message readers.yaml feature = .ok text →
        text.length ≤ maxFileChars) ∧
      Carried (editedRead current operation) operations

end Reading

/-! ## The effect of an operation -/

section Planning

variable {readers : Readers} {plain : Text → Text}

/-- What an operation that is applied has read and written. -/
inductive Applied (readers : Readers) (plain : Text → Text) (workspace : Workspace)
    (operation : BatchOperation) : Workspace → Prop
  | created (content : Text) (create : operation.kind = featureCreate)
      (allowed : workspace.designer = true →
        isDesignLinked (createdFeature (operation.targetSpecId.getD []) operation.payload) = true)
      (emitted : emitFeatureMarkdown readers.message readers.yaml
        (createdFeature (operation.targetSpecId.getD []) operation.payload) = .ok content) :
      Applied readers plain workspace operation
        (workspace.write (aimedPath plain workspace.index operation) content)
  | deleted (delete : operation.kind = featureDelete)
      (allowed : workspace.designer = true → ∃ current,
        parseFeatureMarkdown readers.message readers.yaml
          (aimedPath plain workspace.index operation)
          (workspace.content (aimedPath plain workspace.index operation)) = .ok current ∧
            isDesignLinked current = true) :
      Applied readers plain workspace operation
        (workspace.delete (aimedPath plain workspace.index operation))
  | updated (current : Feature) (content : Text) (create : operation.kind ≠ featureCreate)
      (delete : operation.kind ≠ featureDelete)
      (read : parseFeatureMarkdown readers.message readers.yaml
        (aimedPath plain workspace.index operation)
        (workspace.content (aimedPath plain workspace.index operation)) = .ok current)
      (allowed : workspace.designer = true → isDesignLinked current = true ∧
        isDesignLinked (patchedFeature current operation.payload) = true)
      (emitted : emitFeatureMarkdown readers.message readers.yaml
        (patchedFeature current operation.payload) = .ok content) :
      Applied readers plain workspace operation
        (workspace.write (aimedPath plain workspace.index operation) content)

theorem requireDesign_eq_ok {designer linked : Bool} :
    requireDesign designer linked = .ok () ↔ (designer = true → linked = true) := by
  cases designer with
  | false => exact ⟨fun _ wrong => (by cases wrong), fun _ => rfl⟩
  | true =>
    cases linked with
    | false => exact ⟨fun wrong => (by cases wrong), fun all => absurd (all rfl) Bool.false_ne_true⟩
    | true => exact ⟨fun _ _ => rfl, fun _ => rfl⟩

theorem mapError_eq_ok {ε ε' α : Type} {x : Except ε α} {f : ε → ε'} {a : α} :
    x.mapError f = .ok a ↔ x = .ok a := by
  cases x with
  | ok b =>
    exact ⟨fun same => congrArg _ (Except.ok.inj same), fun same => congrArg _ (Except.ok.inj same)⟩
  | error e => exact ⟨fun wrong => (by cases wrong), fun wrong => (by cases wrong)⟩

theorem applied_of_ok {workspace next : Workspace} {operation : BatchOperation}
    (applied : applyOperation readers plain workspace operation = .ok next) :
    Applied readers plain workspace operation next := by
  rw [applyOperation] at applied
  split at applied
  · rename_i create
    obtain ⟨content, done, rfl⟩ := map_eq_ok.mp applied
    obtain ⟨_, allowed, wrote⟩ := bind_eq_ok.mp (mapError_eq_ok.mp done)
    have aimed : createdPath plain (operation.targetSpecId.getD []) operation =
        aimedPath plain workspace.index operation := by
      rw [aimedPath, if_pos create]
    rw [aimed]
    exact .created content create (requireDesign_eq_ok.mp allowed) (written_eq_ok.mp wrote)
  rename_i create
  have aimed : (workspace.index.get (operation.targetSpecId.getD [])).getD [] =
      aimedPath plain workspace.index operation := by
    rw [aimedPath, if_neg create]
  rw [aimed] at applied
  split at applied
  · rename_i delete
    obtain ⟨_, done, rfl⟩ := map_eq_ok.mp applied
    refine .deleted delete fun designer => ?_
    have checked := mapError_eq_ok.mp done
    rw [if_pos designer] at checked
    obtain ⟨current, read, allowed⟩ := bind_eq_ok.mp checked
    exact ⟨current, currentFeature_eq_ok.mp read, requireDesign_eq_ok.mp allowed designer⟩
  · rename_i delete
    obtain ⟨content, done, rfl⟩ := map_eq_ok.mp applied
    obtain ⟨current, read, rest⟩ := bind_eq_ok.mp (mapError_eq_ok.mp done)
    obtain ⟨_, before, rest⟩ := bind_eq_ok.mp rest
    obtain ⟨_, after, wrote⟩ := bind_eq_ok.mp rest
    exact .updated current content create delete (currentFeature_eq_ok.mp read)
      (fun designer => ⟨requireDesign_eq_ok.mp before designer,
        requireDesign_eq_ok.mp after designer⟩) (written_eq_ok.mp wrote)

/-- An operation leaves the files that it does not aim at. -/
theorem Applied.apart {workspace next : Workspace} {operation : BatchOperation} {path : Text}
    (applied : Applied readers plain workspace operation next)
    (apart : aimedPath plain workspace.index operation ≠ path) :
    next.files.get path = workspace.files.get path ∧ next.index = workspace.index ∧
      next.designer = workspace.designer := by
  cases applied with
  | created content create allowed emitted =>
    exact ⟨OrderedMap.get_set_of_ne _ apart _, rfl, rfl⟩
  | deleted delete allowed =>
    exact ⟨(OrderedMap.get_erase _ _ _).trans (if_neg apart), rfl, rfl⟩
  | updated current content create delete read allowed emitted =>
    exact ⟨OrderedMap.get_set_of_ne _ apart _, rfl, rfl⟩

theorem Applied.index {workspace next : Workspace} {operation : BatchOperation}
    (applied : Applied readers plain workspace operation next) :
    next.index = workspace.index ∧ next.designer = workspace.designer := by
  cases applied <;> exact ⟨rfl, rfl⟩

/-- No feature is written as the empty text. -/
theorem parse_nil {path : Text} {feature : Feature} :
    parseFeatureMarkdown readers.message readers.yaml path [] ≠ .ok feature := by
  have bare : splitFrontMatter [] = none := by decide
  rw [parseFeatureMarkdown]
  split
  · exact fun wrong => by cases wrong
  · rw [bare]
    exact fun wrong => by cases wrong

/-- A feature that a workspace reads is in its files. -/
theorem get_of_read {workspace : Workspace} {path : Text} {feature : Feature}
    (read : parseFeatureMarkdown readers.message readers.yaml path (workspace.content path) =
      .ok feature) :
    workspace.files.get path = some (workspace.content path) ∧
      featureRead readers path (workspace.files.get path) = some feature := by
  cases found : workspace.files.get path with
  | none =>
    rw [Workspace.content, found, Option.getD_none] at read
    exact absurd read parse_nil
  | some text =>
    rw [Workspace.content, found, Option.getD_some] at read ⊢
    refine ⟨rfl, ?_⟩
    rw [featureRead, Option.bind_some, read]
    rfl

/-- **An operation edits the feature that its file reads as.** -/
theorem Applied.edits (laws : readers.yaml.Laws) {workspace next : Workspace}
    {operation : BatchOperation} {path : Text}
    (applied : Applied readers plain workspace operation next)
    (aims : aimedPath plain workspace.index operation = path)
    (carried : ∀ feature,
      edited (featureRead readers path (workspace.files.get path)) operation = some feature →
        ReadBack readers.yaml feature ∧ ∀ text,
          emitFeatureMarkdown readers.message readers.yaml feature = .ok text →
            text.length ≤ maxFileChars) :
    featureRead readers path (next.files.get path) =
      editedRead (featureRead readers path (workspace.files.get path)) operation := by
  have wrote : ∀ (feature : Feature) (text : Text),
      edited (featureRead readers path (workspace.files.get path)) operation = some feature →
      emitFeatureMarkdown readers.message readers.yaml feature = .ok text →
        featureRead readers path (some text) =
          editedRead (featureRead readers path (workspace.files.get path)) operation := by
    intro feature text made emitted
    obtain ⟨readBack, short⟩ := carried feature made
    rw [editedRead, made, featureRead, Option.bind_some,
      parse_of_readBack laws path emitted (short text emitted) readBack]
    rfl
  cases applied with
  | created content create allowed emitted =>
    have made : edited (featureRead readers path (workspace.files.get path)) operation =
        some (createdFeature (operation.targetSpecId.getD []) operation.payload) := by
      rw [edited, if_pos create]
    rw [aims, Workspace.write, OrderedMap.get_set_self]
    exact wrote _ _ made emitted
  | deleted delete allowed =>
    have other : operation.kind ≠ featureCreate := by
      rw [delete]
      decide
    rw [editedRead, edited, if_neg other, if_pos delete, aims, Workspace.delete,
      OrderedMap.get_erase, if_pos rfl]
    rfl
  | updated current content create delete read allowed emitted =>
    rw [aims] at read
    have made : edited (featureRead readers path (workspace.files.get path)) operation =
        some (patchedFeature current operation.payload) := by
      rw [edited, if_neg create, if_neg delete, (get_of_read read).2]
      rfl
    rw [aims, Workspace.write, OrderedMap.get_set_self]
    exact wrote _ _ made emitted

/-- The operations that aim at a path. -/
def aimingAt (plain : Text → Text) (index : OrderedMap Text Text) (path : Text)
    (operations : List BatchOperation) : List BatchOperation :=
  operations.filter fun operation => aimedPath plain index operation = path

/-- **The operations of a batch are edits, file by file.** -/
theorem foldlM_edits (laws : readers.yaml.Laws) (path : Text) {operations : List BatchOperation}
    {workspace last : Workspace}
    (applied : operations.foldlM (applyOperation readers plain) workspace = .ok last)
    (carried : Carried readers (featureRead readers path (workspace.files.get path))
      (aimingAt plain workspace.index path operations)) :
    featureRead readers path (last.files.get path) =
      (aimingAt plain workspace.index path operations).foldl editedRead
        (featureRead readers path (workspace.files.get path)) := by
  induction operations generalizing workspace with
  | nil =>
    cases applied
    rfl
  | cons operation operations ih =>
    rw [List.foldlM_cons] at applied
    obtain ⟨next, first, rest⟩ := bind_eq_ok.mp applied
    have done := applied_of_ok first
    have index := done.index.1
    by_cases aims : aimedPath plain workspace.index operation = path
    · have taken : aimingAt plain workspace.index path (operation :: operations) =
          operation :: aimingAt plain workspace.index path operations := by
        rw [aimingAt, List.filter_cons, if_pos (decide_eq_true aims), aimingAt]
      rw [taken] at carried ⊢
      have step := done.edits laws aims carried.1
      rw [List.foldl_cons, ← step, ← index]
      exact ih rest (by rw [step, index]; exact carried.2)
    · have left : aimingAt plain workspace.index path (operation :: operations) =
          aimingAt plain workspace.index path operations := by
        rw [aimingAt, List.filter_cons, if_neg (by rw [decide_eq_true_eq]; exact aims), aimingAt]
      have same := (done.apart aims).1
      rw [left] at carried ⊢
      rw [← same, ← index]
      exact ih rest (by rw [same, index]; exact carried)

/-- **A planned batch edits features**: at each path of a feature, the new head reads as what the
edits of the operations that aim at it, in order, make of what the former head read as. -/
theorem batch_edits_features (laws : readers.yaml.Laws) {specPath : Option Text} {tree : RepoTree}
    {authorRole : Option Text} {operations : List BatchOperation} {plan : Plan}
    (sound : ∀ operation ∈ operations, operationProblem operation = none)
    (planned : planBatch readers plain authorRole operations (readSpecFiles specPath tree) =
      .ok plan)
    {path : Text} (feature : kindOf path = some .feature)
    (carried : Carried readers
      (featureRead readers path (tree.files.get (withSpecPath specPath path)))
      (aimingAt plain (featureIndex (readSpecFiles specPath tree)) path operations)) :
    featureRead readers path ((tree.writeCommit (plan.changes.map (prefixed specPath))).files.get
        (withSpecPath specPath path)) =
      (aimingAt plain (featureIndex (readSpecFiles specPath tree)) path operations).foldl editedRead
        (featureRead readers path (tree.files.get (withSpecPath specPath path))) := by
  obtain ⟨last, applied, tracks, listed, -⟩ := checked_of_planned planned
  have known : ∀ change ∈ plan.changes, (kindOf change.path).isSome = true :=
    fun change member => by
      rw [kindOf_of_changed sound planned member]
      rfl
  obtain ⟨before, after⟩ := get_heads tracks listed known (by rw [feature]; rfl)
  rw [← before] at carried ⊢
  rw [← after]
  exact foldlM_edits laws path applied carried

/-- The feature that the two updates start from is read, and both features that they make are given
back by their files. -/
theorem revisions_carried :
    Carried plainReaders (featureRead plainReaders draftFile.path
        (monorepo.files.get (withSpecPath specDirectory draftFile.path)))
      (aimingAt id (featureIndex (readSpecFiles specDirectory monorepo)) draftFile.path
        revisions) := by
  have read : featureRead plainReaders draftFile.path
      (monorepo.files.get (withSpecPath specDirectory draftFile.path)) =
        some citingFeature.trimmed := by decide +kernel
  have aiming : aimingAt id (featureIndex (readSpecFiles specDirectory monorepo)) draftFile.path
      revisions = revisions := List.filter_eq_self.mpr (List.all_eq_true.mp (by decide +kernel))
  -- The criterion of the feature is not touched, and both titles end with a letter.
  have criterion : ∀ c ∈ citingFeature.criteres, c.Plain :=
    List.forall_mem_singleton.mpr ⟨List.all_eq_true.mp (by decide),
      List.forall_mem_singleton.mpr (List.all_eq_true.mp (by decide))⟩
  have back : ∀ feature : Feature, feature.criteres = citingFeature.criteres →
      Text.trimEnd feature.titre = feature.titre → ReadBack plainReaders.yaml feature :=
    fun feature same titre => ⟨same ▸ criterion, fun _ => titre⟩
  have short : ∀ (feature : Feature) (text : Text),
      emitFeatureMarkdown plainReaders.message plainReaders.yaml feature = .ok text →
        (featureText feature).length ≤ maxFileChars → text.length ≤ maxFileChars := by
    intro feature text emitted small
    obtain ⟨-, rfl⟩ := emitFeatureMarkdown_eq_ok.mp emitted
    exact small
  rw [read, aiming]
  refine ⟨fun feature made => ?_, fun feature made => ?_, trivial⟩
  · cases made
    exact ⟨back _ rfl (by decide), fun text emitted => short _ _ emitted (by decide +kernel)⟩
  · cases made
    exact ⟨back _ rfl (by decide), fun text emitted => short _ _ emitted (by decide +kernel)⟩

theorem revisions_edit_features :
    featureRead plainReaders draftFile.path
        ((monorepo.writeCommit (revision.changes.map (prefixed specDirectory))).files.get
          (withSpecPath specDirectory draftFile.path)) =
      (aimingAt id (featureIndex (readSpecFiles specDirectory monorepo)) draftFile.path
        revisions).foldl editedRead (featureRead plainReaders draftFile.path
          (monorepo.files.get (withSpecPath specDirectory draftFile.path))) :=
  batch_edits_features PlainYaml.laws sound_revisions revision_planned (by decide)
    revisions_carried

/-! ## Batches of designers -/

/-- A text that a feature linked to a screen was written as. -/
def LinkedText (readers : Readers) (text : Text) : Prop :=
  ∃ feature, emitFeatureMarkdown readers.message readers.yaml feature = .ok text ∧
    isDesignLinked feature = true

/-- A text that reads as a feature linked to a screen. -/
def LinkedRead (readers : Readers) (path text : Text) : Prop :=
  ∃ feature, parseFeatureMarkdown readers.message readers.yaml path text = .ok feature ∧
    isDesignLinked feature = true

/-- The files that a workspace has changed are of features linked to screens, those it was opened
with and those it has written. -/
structure DesignOnly (readers : Readers) (opened : OrderedMap Text Text) (workspace : Workspace) :
    Prop where
  former : ∀ path ∈ workspace.changes.keys, ∀ text, opened.get path = some text →
    LinkedRead readers path text
  written : ∀ entry ∈ workspace.changes, ∀ text, entry.2.content? = some text →
    LinkedText readers text

theorem DesignOnly.changing {opened : OrderedMap Text Text} {workspace next : Workspace}
    (only : DesignOnly readers opened workspace) (change : FileChange)
    (changes : next.changes = workspace.changes.set change.path change)
    (former : change.path ∉ workspace.changes.keys → ∀ text, opened.get change.path = some text →
      LinkedRead readers change.path text)
    (written : ∀ text, change.content? = some text → LinkedText readers text) :
    DesignOnly readers opened next := by
  refine ⟨fun path member text known => ?_, fun entry member text content => ?_⟩
  · by_cases old : path ∈ workspace.changes.keys
    · exact only.former path old text known
    · rw [changes, OrderedMap.keys_set] at member
      split at member
      · exact absurd member old
      · rcases List.mem_append.mp member with inside | new
        · exact absurd inside old
        · rw [List.mem_singleton.mp new] at old known ⊢
          exact former old text known
  · rw [changes] at member
    rcases OrderedMap.mem_of_mem_set member with rfl | old
    · exact written text content
    · exact only.written entry old text content

/-- **An operation of a designer** changes a feature linked to a screen. -/
theorem DesignOnly.operation {opened : OrderedMap Text Text} {workspace next : Workspace}
    {operation : BatchOperation} (only : DesignOnly readers opened workspace)
    (tracks : workspace.Tracks opened) (designer : workspace.designer = true)
    (free : operation.kind = featureCreate →
      opened.get (aimedPath plain workspace.index operation) = none)
    (applied : Applied readers plain workspace operation next) :
    DesignOnly readers opened next := by
  -- What is read of a file that no operation has changed is what the workspace was opened with.
  have untouched : ∀ {path : Text} {current : Feature}, path ∉ workspace.changes.keys →
      parseFeatureMarkdown readers.message readers.yaml path (workspace.content path) =
        .ok current → isDesignLinked current = true →
          ∀ text, opened.get path = some text → LinkedRead readers path text := by
    intro path current unchanged read linked text known
    rw [← tracks.kept path unchanged, (get_of_read read).1, Option.some_inj] at known
    exact ⟨current, known ▸ read, linked⟩
  cases applied with
  | created content create allowed emitted =>
    refine only.changing (.write _ content) rfl (fun _ text known => ?_) fun text same => ?_
    · cases (free create).symm.trans known
    · exact ⟨_, Option.some_inj.mp same ▸ emitted, allowed designer⟩
  | deleted delete allowed =>
    obtain ⟨current, read, linked⟩ := allowed designer
    exact only.changing (.delete _) rfl (fun unchanged => untouched unchanged read linked)
      fun text same => by cases same
  | updated current content create delete read allowed emitted =>
    refine only.changing (.write _ content) rfl
      (fun unchanged => untouched unchanged read (allowed designer).1) fun text same => ?_
    exact ⟨_, Option.some_inj.mp same ▸ emitted, (allowed designer).2⟩

theorem DesignOnly.foldlM {opened : OrderedMap Text Text} {operations : List BatchOperation}
    {workspace last : Workspace} (only : DesignOnly readers opened workspace)
    (tracks : workspace.Tracks opened) (designer : workspace.designer = true)
    (free : ∀ operation ∈ operations, operation.kind = featureCreate →
      opened.get (aimedPath plain workspace.index operation) = none)
    (applied : operations.foldlM (applyOperation readers plain) workspace = .ok last) :
    DesignOnly readers opened last := by
  induction operations generalizing workspace with
  | nil =>
    cases applied
    exact only
  | cons operation operations ih =>
    rw [List.foldlM_cons] at applied
    obtain ⟨next, first, rest⟩ := bind_eq_ok.mp applied
    have done := applied_of_ok first
    obtain ⟨own, others⟩ := List.forall_mem_cons.mp free
    obtain ⟨index, role⟩ := done.index
    exact ih (only.operation tracks designer own done) (tracks.operation first)
      (role.trans designer) (index.symm ▸ others) rest

/-- An identifier that no file bears is not that of a file. -/
theorem not_mem_of_get_eq_none {files : List SpecFile} {id : Text}
    (absent : (featureIndex files).get id = none) {file : SpecFile} (member : file ∈ files) :
    featureIdOfPath file.path ≠ some id := by
  intro bears
  rw [get_featureIndex, Option.map_eq_none_iff, lastBearing, List.getLast?_eq_none_iff,
    List.filter_eq_nil_iff] at absent
  exact absent file member (decide_eq_true bears)

/-- **A designer changes designed features only**: whatever the batch holds, each file that it
changes was that of a feature linked to a screen, if there was one, and what it writes is one. -/
theorem designer_changes_design_only {specPath : Option Text} {tree : RepoTree}
    {operations : List BatchOperation} {plan : Plan}
    (sound : ∀ operation ∈ operations, operationProblem operation = none)
    (planned : planBatch readers plain (some (Text.lit "designer")) operations
      (readSpecFiles specPath tree) = .ok plan) :
    ∀ change ∈ plan.changes,
      (∀ text, tree.files.get (withSpecPath specPath change.path) = some text →
        LinkedRead readers change.path text) ∧
        ∀ text, change.content? = some text → LinkedText readers text := by
  obtain ⟨last, applied, tracks, listed, -⟩ := checked_of_planned planned
  have features : ∀ change ∈ plan.changes, (kindOf change.path).isSome = true :=
    fun change member => by
      rw [kindOf_of_changed sound planned member]
      rfl
  have free : ∀ operation ∈ operations, operation.kind = featureCreate →
      (openedWorkspace (some (Text.lit "designer")) (readSpecFiles specPath tree)).files.get
        (aimedPath plain (featureIndex (readSpecFiles specPath tree)) operation) = none := by
    intro operation member create
    obtain ⟨id, named, matched⟩ := matches_of_operationProblem (sound operation member)
    have absent := (conflicts_of_planned planned member).mp create
    rw [named, Option.getD_some] at absent
    refine Option.eq_none_iff_forall_not_mem.mpr fun text known => ?_
    have inside := (get_openedWorkspace (nodup_readSpecFiles _ _)).mp known
    refine not_mem_of_get_eq_none absent inside ?_
    rw [aimedPath, if_pos create, named]
    exact featureIdOfPath_featurePathOf matched
  have opened : (openedWorkspace (some (Text.lit "designer")) (readSpecFiles specPath tree)).Tracks
      (openedWorkspace (some (Text.lit "designer")) (readSpecFiles specPath tree)).files :=
    .opened _ _
  have started : DesignOnly readers
      (openedWorkspace (some (Text.lit "designer")) (readSpecFiles specPath tree)).files
      (openedWorkspace (some (Text.lit "designer")) (readSpecFiles specPath tree)) :=
    ⟨fun _ member => absurd member List.not_mem_nil, fun _ member => absurd member List.not_mem_nil⟩
  have only := started.foldlM opened (beq_self_eq_true _) free applied
  intro change member
  obtain ⟨entry, inside, rfl⟩ := List.mem_map.mp (listed ▸ member)
  have path := tracks.filed entry inside
  refine ⟨fun text known => ?_, only.written entry inside⟩
  rw [← (get_heads tracks listed features (features _ member)).1, path] at known
  rw [path]
  exact only.former entry.1 (List.mem_map_of_mem inside) text known

end Planning

theorem designer_revises_designed : revision.changes ≠ [] ∧ ∀ change ∈ revision.changes,
    (∀ text, monorepo.files.get (withSpecPath specDirectory change.path) = some text →
      LinkedRead plainReaders change.path text) ∧
      ∀ text, change.content? = some text → LinkedText plainReaders text :=
  ⟨by decide, designer_changes_design_only sound_revisions revision_planned⟩

end Koklo.SpecPlan
