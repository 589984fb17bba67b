import Koklo.Schema.ReferenceValidation
import Koklo.Schema.SpecFilesOrder
import Koklo.SpecPlan.PlanBatch

/-!
# The file of a feature, for the planner and for the parser

The parser takes a feature from the first file, in the order of paths, that declares it. The
planner updates or deletes the last file of the list whose path bears its identifier. The files are
the same exactly when this last one declares the feature and precedes the others that do
(`planned_file_iff`). When two files declare a feature, deleting it may delete the one it was not
taken from (`deletes_other_file`).
-/

set_option autoImplicit false

namespace Koklo.SpecPlan

open Foundations Schema

/-! ## Files that declare a feature -/

/-- A file declares a feature: its path bears the identifier, and it reads as a feature of this
identifier. -/
def Declares (readers : Readers) (file : SpecFile) (id : Text) : Prop :=
  featureIdOfPath file.path = some id ∧ ∃ feature : Feature,
    parseFeatureMarkdown readers.message readers.yaml file.path file.content = .ok feature ∧
      feature.id = id

/-- The last file that bears an identifier declares the feature, or a file of the same path does,
and none that declares it precedes this path. -/
def LastStands (readers : Readers) (files : List SpecFile) (id : Text) : Prop :=
  ∃ last ∈ lastBearing files id,
    (∃ file ∈ files, file.path = last.path ∧ Declares readers file id) ∧
      ∀ file ∈ files, Declares readers file id → byPath last file ≤ 0

/-- Of the files that bear an identifier, the one at a path is changed, and no other. -/
def ChangesFile (changes : List FileChange) (id path : Text) : Prop :=
  (∃ change ∈ changes, change.path = path) ∧
    ∀ change ∈ changes, featureIdOfPath change.path = some id → change.path = path

/-! ## Paths of features -/

theorem accepts_fileIn {start stop : String} {path : Text} :
    (fileIn start stop).accepts path = true ↔
      ∃ name, 0x2F ∉ name ∧ path = Text.lit start ++ (name ++ Text.lit stop) := by
  rw [Pattern.accepts_iff, fileIn, Pattern.matches_text_seq]
  constructor
  · rintro ⟨rest, rfl, matched⟩
    cases matched with
    | seq units ending =>
      rename_i name last
      obtain rfl := Pattern.matches_text.mp ending
      refine ⟨name, fun slash => ?_, rfl⟩
      have other := Pattern.matches_many_unit.mp units _ slash
      revert other
      decide
  · rintro ⟨name, free, rfl⟩
    refine ⟨_, rfl, .seq (Pattern.matches_many_unit.mpr fun u member => ?_)
      (Pattern.matches_text.mpr rfl)⟩
    rw [bne_iff_ne]
    rintro rfl
    exact free member

/-- **The files of features.** -/
theorem kindOf_feature {path : Text} : kindOf path = some .feature ↔
    ∃ name, 0x2F ∉ name ∧ path = Text.lit "features/F-" ++ (name ++ Text.lit ".md") := by
  rw [← accepts_fileIn]
  constructor
  · intro feature
    rw [kindOf] at feature
    split at feature
    · cases feature
    split at feature
    · cases feature
    split at feature
    · cases feature
    split at feature
    · assumption
    · repeat (split at feature <;> [cases feature; skip])
      cases feature
  · intro feature
    obtain ⟨name, -, rfl⟩ := accepts_fileIn.mp feature
    have apart {other : String} (first : (Text.lit other).head? ≠ some 0x66) :
        Text.lit "features/F-" ++ (name ++ Text.lit ".md") ≠ Text.lit other := by
      intro same
      rw [← same] at first
      exact first rfl
    rw [kindOf, if_neg (apart (by decide)), if_neg (apart (by decide)), if_neg (apart (by decide)),
      if_pos feature]

/-- The name of the file of a feature, without its extension. -/
theorem baseName_feature {name : Text} (free : 0x2F ∉ name) :
    baseName (Text.lit "features/F-" ++ (name ++ Text.lit ".md")) = Text.lit "F-" ++ name := by
  have last : (Text.lit "features/F-" ++ (name ++ Text.lit ".md")).splitOn 0x2F =
      [Text.lit "features", Text.lit "F-" ++ name ++ Text.lit ".md"] := by
    have fresh : (0x2F : CodeUnit) ∉ Text.lit "F-" ++ name ++ Text.lit ".md" := by
      intro slash
      rcases List.mem_append.mp slash with first | extension
      · rcases List.mem_append.mp first with letter | inside
        · revert letter
          decide
        · exact free inside
      · revert extension
        decide
    have whole : Text.lit "features/F-" ++ (name ++ Text.lit ".md") =
        Text.lit "features" ++ 0x2F :: (Text.lit "F-" ++ name ++ Text.lit ".md") := rfl
    rw [whole, List.splitOn_append_cons_self, List.splitOn_eq_singleton fresh,
      List.splitOn_eq_singleton (by decide)]
    rfl
  have dotted : (Text.lit "F-" ++ name ++ Text.lit ".md").rdropWhile (· ≠ 0x2E) =
      Text.lit "F-" ++ name ++ [0x2E] := by
    have parted : Text.lit "F-" ++ name ++ Text.lit ".md" =
        Text.lit "F-" ++ name ++ [0x2E] ++ [0x6D] ++ [0x64] := by
      rw [List.append_assoc, List.append_assoc (Text.lit "F-" ++ name), List.append_assoc]
      rfl
    rw [parted, List.rdropWhile_concat_pos _ _ _ (by decide),
      List.rdropWhile_concat_pos _ _ _ (by decide)]
    exact List.rdropWhile_concat_neg _ _ _ (by decide)
  rw [baseName, last]
  simp only [List.getLastD_cons, List.getLastD_nil]
  rw [dotted, if_pos, List.dropLast_concat]
  constructor
  · rw [List.getLast?_append, List.getLast?_singleton, Option.some_or]
  · have extension : (Text.lit ".md").length = 3 := rfl
    simp only [List.length_append, List.length_singleton, extension]
    omega

/-- **The path of a file that is named after a feature** bears its identifier. -/
theorem featureIdOfPath_iff_named {path id : Text} (matched : Patterns.feature.Matches id) :
    featureIdOfPath path = some id ↔
      kindOf path = some .feature ∧ idMatchesFile path id = true := by
  obtain ⟨d, rfl, enough, digits⟩ := matches_feature.mp matched
  have free : (0x2F : CodeUnit) ∉ d := by
    intro slash
    have digit := digits _ slash
    revert digit
    decide
  have named {name : Text} (bare : 0x2F ∉ name) :
      idMatchesFile (Text.lit "features/F-" ++ (name ++ Text.lit ".md")) (Text.lit "F-" ++ d) = true ↔
        name = d ∨ ∃ slug, name = d ++ 0x2D :: slug := by
    rw [idMatchesFile, baseName_feature bare, Bool.or_eq_true, decide_eq_true_eq,
      List.isPrefixOf_iff_prefix, List.append_cancel_left_eq, List.append_assoc,
      List.prefix_append_right_inj]
    refine or_congr_right ⟨?_, ?_⟩
    · rintro ⟨slug, rfl⟩
      exact ⟨slug, List.append_assoc d _ slug⟩
    · rintro ⟨slug, rfl⟩
      exact ⟨slug, List.append_assoc d _ slug⟩
  constructor
  · intro borne
    obtain ⟨d', same, path⟩ := featureIdOfPath_eq_some.mp borne
    obtain rfl := List.append_cancel_left same
    obtain ⟨t, rfl | ⟨slug, bare, rfl⟩, rfl⟩ := path.shape
    · exact ⟨kindOf_feature.mpr ⟨d, free, rfl⟩, (named free).mpr (.inl rfl)⟩
    · have whole : d ++ 0x2D :: (slug ++ Text.lit ".md") =
          (d ++ 0x2D :: slug) ++ Text.lit ".md" := by
        rw [List.append_assoc, List.cons_append]
      have bare' : (0x2F : CodeUnit) ∉ d ++ 0x2D :: slug := by
        intro slash
        rcases List.mem_append.mp slash with digit | rest
        · exact free digit
        · exact List.not_mem_cons_of_ne_of_not_mem (by decide) bare rest
      rw [whole]
      exact ⟨kindOf_feature.mpr ⟨_, bare', rfl⟩, (named bare').mpr (.inr ⟨slug, rfl⟩)⟩
  · rintro ⟨feature, matches'⟩
    obtain ⟨name, bare, rfl⟩ := kindOf_feature.mp feature
    refine featureIdOfPath_eq_some.mpr ⟨d, rfl, enough, digits, ?_⟩
    rcases (named bare).mp matches' with rfl | ⟨slug, rfl⟩
    · exact ⟨_, .inl rfl, rfl⟩
    · refine ⟨0x2D :: (slug ++ Text.lit ".md"), .inr ⟨slug, fun slash => bare ?_, rfl⟩, ?_⟩
      · exact List.mem_append_right _ (List.mem_cons_of_mem _ slash)
      · rw [List.append_assoc, List.cons_append]

/-! ## The file of a feature that is read -/

section Reading

variable {readers : Readers} {files : List SpecFile} {id : Text}

/-- **A file claims a feature exactly when it declares it.** -/
theorem claim_feature_iff {file : SpecFile} :
    claim readers file = some (.feature, id) ↔ Declares readers file id := by
  have identity {feature : Feature} (read : parseFeatureMarkdown readers.message readers.yaml
      file.path file.content = .ok feature) : Patterns.feature.Matches feature.id := by
    obtain ⟨data, decoded⟩ := schema_of_parseFeatureMarkdown read
    exact (featureSchema_ids decoded).1
  constructor
  · intro claims
    obtain ⟨entity, given⟩ := claim_eq_some.mp claims
    obtain ⟨kinds, ⟨known, parsed⟩, named, -⟩ := readFile_eq_some given
    cases entity with
    | feature feature =>
      cases named
      obtain ⟨value, read, same⟩ := map_eq_ok.mp parsed
      cases same
      refine ⟨(featureIdOfPath_iff_named (identity read)).mpr ⟨kinds, ?_⟩, feature, read, rfl⟩
      rw [readFile, kinds] at given
      dsimp only at given
      rw [parsed] at given
      dsimp only at given
      rw [show (Entity.feature feature).kind.identified = true from rfl, if_pos rfl] at given
      dsimp only at given
      split at given
      · assumption
      · cases given
    | project _ | table _ | relations _ | endpoint _ | screen _ | test _ | roles _ | rule _ =>
      cases named
  · rintro ⟨borne, feature, read, rfl⟩
    obtain ⟨kinds, named⟩ := (featureIdOfPath_iff_named (identity read)).mp borne
    have parsed : parseOne readers file .feature = .ok (.feature feature, some feature.id) := by
      rw [parseOne, read]
      rfl
    refine claim_eq_some.mpr ⟨.feature feature, ?_⟩
    rw [readFile, kinds]
    dsimp only
    rw [parsed]
    dsimp only
    rw [if_pos (show Kind.feature.identified = true from rfl)]
    dsimp only
    rw [if_pos named]

/-- **The path that a feature is taken from** declares it, and precedes the others that do. -/
theorem path_of_feature {parsed : Parsed Feature}
    (present : parsed ∈ (parseSpecFiles readers files).1.features) :
    ∃ first ∈ files, first.path = parsed.path ∧ Declares readers first parsed.value.id ∧
      ∀ file ∈ files, Declares readers file parsed.value.id → byPath first file ≤ 0 := by
  have entry : (parsed.path, Entity.feature parsed.value) ∈
      (parseOrdered readers (orderedFiles files)).spec.entries .feature :=
    List.mem_map_of_mem present
  have claimed := claimed_of_entry rfl entry rfl
  rw [claimed_parseOrdered, Option.map_eq_some_iff] at claimed
  obtain ⟨first, found, path⟩ := claimed
  have claims : claim readers first = some (.feature, parsed.value.id) := by
    rw [firstClaimant] at found
    have passed := List.find?_some found
    exact of_decide_eq_true passed
  refine ⟨first, mem_orderedFiles.mp (List.mem_of_find?_eq_some found), path,
    claim_feature_iff.mp claims, fun file member declares => ?_⟩
  exact (byPath_le_zero_iff _ _).mpr (le_of_find?_sortWith byPath_le_zero_iff found member
    (decide_eq_true (claim_feature_iff.mpr declares)))

/-- **A feature that is present is in the index.** -/
theorem index_of_present {parsed : Parsed Feature}
    (present : parsed ∈ (parseSpecFiles readers files).1.features) :
    ∃ last ∈ lastBearing files parsed.value.id,
      (featureIndex files).get parsed.value.id = some last.path := by
  obtain ⟨first, inside, -, ⟨borne, -⟩, -⟩ := path_of_feature present
  have bearing : first ∈ files.filter fun file => featureIdOfPath file.path = some parsed.value.id :=
    List.mem_filter.mpr ⟨inside, decide_eq_true borne⟩
  have found := List.getLast?_eq_some_getLast (List.ne_nil_of_mem bearing)
  rw [← lastBearing] at found
  refine ⟨_, found, ?_⟩
  rw [get_featureIndex, found]
  rfl

/-- Files that precede one another have one path. -/
theorem path_eq_of_byPath {a b : SpecFile} (before : byPath a b ≤ 0) (after : byPath b a ≤ 0) :
    a.path = b.path := by
  have same : rank a = rank b :=
    le_antisymm ((byPath_le_zero_iff a b).mp before) ((byPath_le_zero_iff b a).mp after)
  exact congrArg (fun place => (ofLex place).2) same

/-- **The index gives the path that a feature is taken from** exactly when the last file that bears
its identifier stands. -/
theorem index_iff {parsed : Parsed Feature}
    (present : parsed ∈ (parseSpecFiles readers files).1.features) :
    (featureIndex files).get parsed.value.id = some parsed.path ↔
      LastStands readers files parsed.value.id := by
  obtain ⟨first, inside, path, declares, least⟩ := path_of_feature present
  obtain ⟨last, found, given⟩ := index_of_present present
  rw [given, Option.some.injEq]
  constructor
  · intro same
    refine ⟨last, found, ⟨first, inside, path.trans same.symm, declares⟩, fun file member also => ?_⟩
    have ranks : rank last = rank first := by rw [rank, rank, same, path]
    rw [byPath_le_zero_iff, ranks, ← byPath_le_zero_iff]
    exact least file member also
  · rintro ⟨other, found', ⟨file, member, path', also⟩, before⟩
    obtain rfl : last = other := Option.some.inj (found.symm.trans found')
    have ranks : rank file = rank last := by rw [rank, rank, path']
    rw [← path]
    apply path_eq_of_byPath (before first inside declares)
    rw [byPath_le_zero_iff, ← ranks, ← byPath_le_zero_iff]
    exact least file member also

end Reading

/-! ## The file that a planned batch changes -/

/-- The identifier of an operation without problem is one of a feature. -/
theorem matches_of_operationProblem {operation : BatchOperation}
    (sound : operationProblem operation = none) :
    ∃ id, operation.targetSpecId = some id ∧ Patterns.feature.Matches id := by
  rw [operationProblem] at sound
  split at sound
  · cases sound
  split at sound
  · rename_i named
    cases target : operation.targetSpecId with
    | none =>
      rw [target] at named
      cases named
    | some id =>
      rw [target] at named
      exact ⟨id, rfl, Pattern.accepts_iff.mp named⟩
  · cases sound

/-- **The file that is updated or deleted is the one that the feature was taken from** exactly when
the last file that bears its identifier stands. -/
theorem planned_file_iff {readers : Readers} {plain : Text → Text} {authorRole : Option Text}
    {operations : List BatchOperation} {files : List SpecFile} {plan : Plan}
    (sound : ∀ operation ∈ operations, operationProblem operation = none)
    (planned : planBatch readers plain authorRole operations files = .ok plan)
    {operation : BatchOperation} (member : operation ∈ operations)
    (changing : operation.kind = featureUpdate ∨ operation.kind = featureDelete)
    {parsed : Parsed Feature} (present : parsed ∈ (parseSpecFiles readers files).1.features)
    (target : operation.targetSpecId = some parsed.value.id) :
    ChangesFile plan.changes parsed.value.id parsed.path ↔
      LastStands readers files parsed.value.id := by
  have old : operation.kind ≠ featureCreate := by
    rcases changing with same | same
    · rw [same]
      decide
    · rw [same]
      decide
  obtain ⟨last, -, given⟩ := index_of_present present
  have aimed : aimedPath plain (featureIndex files) operation = last.path := by
    rw [aimedPath, if_neg old, target, Option.getD_some, given, Option.getD_some]
  have own : ∃ change ∈ plan.changes, change.path = last.path :=
    (changed_iff planned last.path).mpr ⟨operation, member, aimed⟩
  -- Every change of a file that bears the identifier is one of the file that the index gives.
  have only : ∀ change ∈ plan.changes, featureIdOfPath change.path = some parsed.value.id →
      change.path = last.path := by
    intro change changed borne
    obtain ⟨other, among, aims⟩ := (changed_iff planned change.path).mp ⟨change, changed, rfl⟩
    obtain ⟨id, named, matched⟩ := matches_of_operationProblem (sound other among)
    rw [aimedPath, named, Option.getD_some] at aims
    split at aims
    · rename_i create
      rw [← aims, createdPath, featureIdOfPath_featurePathOf matched, Option.some.injEq] at borne
      have absent := (conflicts_of_planned planned among).mp create
      rw [named, Option.getD_some, borne, given] at absent
      cases absent
    · cases found : (featureIndex files).get id with
      | none =>
        rename_i other
        exact absurd ((conflicts_of_planned planned among).mpr (by rw [named]; exact found)) other
      | some path =>
        rw [found, Option.getD_some] at aims
        rw [← aims, featureIdOfPath_of_get found, Option.some.injEq] at borne
        rw [borne, given, Option.some.injEq] at found
        rw [← aims, found]
  rw [← index_iff present, given, Option.some.injEq]
  constructor
  · intro changes
    obtain ⟨change, changed, path⟩ := own
    rw [← path]
    exact changes.2 change changed (by rw [path]; exact featureIdOfPath_of_get given)
  · intro same
    rw [← same]
    exact ⟨own, only⟩

/-! ## A feature that is declared twice -/

/-- The readers of the files below. -/
def plainReaders : Readers := ⟨fun _ => [], PlainYaml.package, id⟩

/-- The same feature, in a file whose name has a suffix. -/
def suffixedFile : SpecFile := { draftFile with path := Text.lit "features/F-001-b.md" }

/-- The deletion of the feature. -/
def deletion : BatchOperation := ⟨featureDelete, some (Text.lit "F-001"), {}⟩

theorem sound_deletion : ∀ operation ∈ [deletion], operationProblem operation = none :=
  List.forall_mem_singleton.mpr (by decide)

theorem planned_file_iff_of_two :
    LastStands plainReaders [suffixedFile, draftFile] (Text.lit "F-001") := by
  have planned : planBatch plainReaders id none [deletion] [suffixedFile, draftFile] =
      .ok ⟨[.delete draftFile.path], none⟩ := by decide +kernel
  have read : ((parseSpecFiles plainReaders [suffixedFile, draftFile]).1.features.any fun f =>
      decide (f.value.id = Text.lit "F-001") && decide (f.path = draftFile.path)) = true := by
    decide +kernel
  obtain ⟨f, present, same⟩ := List.any_eq_true.mp read
  rw [Bool.and_eq_true, decide_eq_true_eq, decide_eq_true_eq] at same
  have settled := planned_file_iff sound_deletion planned List.mem_cons_self (.inr rfl) present
    (congrArg some same.1.symm)
  rw [same.1, same.2] at settled
  exact settled.mp ⟨⟨_, List.mem_cons_self, rfl⟩, List.forall_mem_singleton.mpr fun _ => rfl⟩

/-- **A deletion removes the file that the feature was not taken from.** -/
theorem deletes_other_file : ¬ ∀ (readers : Readers) (plain : Text → Text)
    (authorRole : Option Text) (operations : List BatchOperation) (files : List SpecFile)
    (plan : Plan), (∀ operation ∈ operations, operationProblem operation = none) →
      planBatch readers plain authorRole operations files = .ok plan →
        ∀ operation ∈ operations,
          operation.kind = featureUpdate ∨ operation.kind = featureDelete →
            ∀ parsed ∈ (parseSpecFiles readers files).1.features,
              operation.targetSpecId = some parsed.value.id →
                ChangesFile plan.changes parsed.value.id parsed.path := by
  intro always
  have planned : planBatch plainReaders id none [deletion] [draftFile, suffixedFile] =
      .ok ⟨[.delete suffixedFile.path], none⟩ := by decide +kernel
  have read : ((parseSpecFiles plainReaders [draftFile, suffixedFile]).1.features.any fun f =>
      decide (f.value.id = Text.lit "F-001") && decide (f.path = draftFile.path)) = true := by
    decide +kernel
  obtain ⟨f, present, same⟩ := List.any_eq_true.mp read
  rw [Bool.and_eq_true, decide_eq_true_eq, decide_eq_true_eq] at same
  obtain ⟨⟨change, deleted, path⟩, -⟩ := always _ _ _ _ _ _ sound_deletion planned deletion
    List.mem_cons_self (.inr rfl) f present (congrArg some same.1.symm)
  rw [List.mem_singleton.mp deleted, same.2] at path
  revert path
  decide

end Koklo.SpecPlan
