import Koklo.Schema.SpecFileReading
import Mathlib.Data.Prod.Lex

/-!
# The order of the files does not matter

A file is read alone: it gives an entity, and the identifier that it claims among the entities of its
kind, or issues. What stands in a specification are the entities of the files that claim nothing, or
that are the first to claim their identifier (`entries_parseOrdered`). Files with distinct paths are
read in one order, so that the specification does not depend on the order in which they are given
(`parseSpecFiles_order_free`).
-/

set_option autoImplicit false

namespace Koklo.Schema

open Koklo.Foundations

section

variable {readers : Readers}

/-! ## The order of the files -/

theorem compareThen_le_zero_iff {a b : Text} {second : ℤ} :
    compareThen (compareText a b) second ≤ 0 ↔ a < b ∨ a = b ∧ second ≤ 0 := by
  rw [compareThen, compareText]
  rcases lt_trichotomy a b with less | same | more
  · simp [less]
  · simp [same]
  · simp [more, more.not_gt, more.ne']

/-- The place of a file: its path without its extension, then its path. -/
def rank (file : SpecFile) : Lex (Text × Text) := toLex (stem file.path, file.path)

theorem byPath_le_zero_iff (a b : SpecFile) : byPath a b ≤ 0 ↔ rank a ≤ rank b := by
  rw [byPath, compareThen_le_zero_iff, compareText_le_zero_iff, rank, rank, Prod.Lex.toLex_le_toLex]

theorem nodup_rank {files : List SpecFile} (distinct : (files.map SpecFile.path).Nodup) :
    (files.map rank).Nodup := by
  refine List.Nodup.of_map (fun place => (ofLex place).2) ?_
  rw [List.map_map]
  exact distinct

/-- Files with distinct paths are read in one order. -/
theorem orderedFiles_perm {files files' : List SpecFile}
    (distinct : (files.map SpecFile.path).Nodup) (same : files'.Perm files) :
    orderedFiles files' = orderedFiles files :=
  (sortWith_perm byPath_le_zero_iff same.symm (nodup_rank distinct)).symm

theorem mem_orderedFiles {files : List SpecFile} {file : SpecFile} :
    file ∈ orderedFiles files ↔ file ∈ files := (perm_sortWith byPath files).mem_iff

theorem nodup_orderedFiles {files : List SpecFile} (distinct : (files.map SpecFile.path).Nodup) :
    ((orderedFiles files).map SpecFile.path).Nodup :=
  ((perm_sortWith byPath files).map SpecFile.path).nodup_iff.mpr distinct

/-! ## The files that stand -/

/-- What a file gives when it is read alone: an entity, and the identifier that it claims. -/
def readFile (readers : Readers) (file : SpecFile) : Option (Entity × Option (Kind × Text)) :=
  match kindOf file.path with
  | none => none
  | some kind =>
    match parseOne readers file kind with
    | .error _ => none
    | .ok (entity, known) =>
      match if kind.identified then known else none with
      | none => some (entity, none)
      | some id => if idMatchesFile file.path id then some (entity, some (kind, id)) else none

/-- The identifier that a file claims among the entities of its kind. -/
def claim (readers : Readers) (file : SpecFile) : Option (Kind × Text) :=
  (readFile readers file).bind Prod.snd

/-- The first of the files that claims an identifier. -/
def firstClaimant (readers : Readers) (files : List SpecFile) (key : Kind × Text) :
    Option SpecFile := files.find? fun file => claim readers file = some key

/-- The entity of a file, when no file before it claims the same identifier. -/
def standing (readers : Readers) (files : List SpecFile) (file : SpecFile) : Option Entity :=
  match readFile readers file with
  | none => none
  | some (entity, none) => some entity
  | some (entity, some key) =>
    if firstClaimant readers files key = some file then some entity else none

/-- Where the entity of a file stands among those of a kind. -/
def placement (readers : Readers) (files : List SpecFile) (kind : Kind) (file : SpecFile) :
    Option (Text × Entity) :=
  ((standing readers files file).filter (·.kind = kind)).map fun entity => (file.path, entity)

/-- **What a file that is read gives**: an entity of its kind, with the identifier it claims. -/
theorem readFile_eq_some {file : SpecFile} {entity : Entity} {claimed : Option (Kind × Text)}
    (read : readFile readers file = some (entity, claimed)) :
    kindOf file.path = some entity.kind ∧
      (∃ known, parseOne readers file entity.kind = .ok (entity, known)) ∧
      claimed = entity.id?.map (entity.kind, ·) ∧
      (entity.kind.identified = true ↔ claimed.isSome = true) := by
  rw [readFile] at read
  cases known : kindOf file.path with
  | none =>
    rw [known] at read
    cases read
  | some kind =>
    rw [known] at read
    dsimp only at read
    split at read
    · cases read
    · rename_i other id parsed
      obtain ⟨rfl, ids⟩ := parseOne_eq_ok parsed
      cases identified : other.kind.identified with
      | false =>
        rw [identified, if_neg Bool.false_ne_true] at read
        cases read
        refine ⟨rfl, ⟨id, parsed⟩, ?_, by simp [identified]⟩
        cases entity <;> first | rfl | cases identified
      | true =>
        obtain ⟨rfl, some⟩ := ids identified
        rw [identified, if_pos rfl] at read
        obtain ⟨id, bears⟩ := Option.isSome_iff_exists.mp some
        rw [bears] at read parsed
        dsimp only at read
        split at read
        · cases read
          exact ⟨rfl, ⟨_, parsed⟩, by rw [bears]; rfl, by simp [identified]⟩
        · cases read

/-- The data of an entity that is neither a feature nor a rule. -/
theorem readData_of_readFile {file : SpecFile} {entity : Entity} {claimed : Option (Kind × Text)}
    (read : readFile readers file = some (entity, claimed))
    (other : entity.kind ≠ .feature ∧ entity.kind ≠ .rule) :
    ∃ data, readData readers entity.kind file.path data = .ok entity := by
  obtain ⟨-, ⟨known, parsed⟩, -⟩ := readFile_eq_some read
  rw [parseOne_data other.1 other.2] at parsed
  cases loaded : loadData readers entity.kind file with
  | error issues =>
    rw [loaded] at parsed
    cases parsed
  | ok data =>
    rw [loaded] at parsed
    obtain ⟨value, decoded, same⟩ := map_eq_ok.mp parsed
    cases same
    exact ⟨data, decoded⟩

theorem claim_eq_some {file : SpecFile} {key : Kind × Text} :
    claim readers file = some key ↔ ∃ entity, readFile readers file = some (entity, some key) := by
  rw [claim, Option.bind_eq_some_iff]
  constructor
  · rintro ⟨⟨entity, claimed⟩, read, same⟩
    cases same
    exact ⟨entity, read⟩
  · rintro ⟨entity, read⟩
    exact ⟨_, read, rfl⟩

/-- **What reading one file more does.** -/
theorem parseFile_cases (readers : Readers) (state : ParseState) (file : SpecFile) :
    (readFile readers file = none ∧ ∃ more,
      parseFile readers state file = { state with issues := state.issues ++ more } ∧
      (∀ issue ∈ more, issue.path = file.path) ∧
      ((kindOf file.path).isSome = true → more ≠ [])) ∨
    (∃ entity, readFile readers file = some (entity, none) ∧
      parseFile readers state file = { state with spec := place state.spec file.path entity }) ∨
    (∃ entity key, readFile readers file = some (entity, some key) ∧
      ((state.claimed.get key ≠ none ∧ ∃ more, Explains file.path more ∧
        parseFile readers state file = { state with issues := state.issues ++ more }) ∨
      (state.claimed.get key = none ∧ parseFile readers state file =
        ⟨place state.spec file.path entity, state.issues, state.claimed.set key file.path⟩))) := by
  rw [readFile, parseFile]
  cases known : kindOf file.path with
  | none => exact .inl ⟨rfl, [], by rw [List.append_nil], List.forall_mem_nil _, nofun⟩
  | some kind =>
    dsimp only
    cases parsed : parseOne readers file kind with
    | error issues =>
      obtain ⟨some, all⟩ := explains_parseOne parsed
      exact .inl ⟨rfl, issues, rfl, all, fun _ => some⟩
    | ok read =>
      obtain ⟨entity, id⟩ := read
      dsimp only
      cases identity : if kind.identified = true then id else none with
      | none => exact .inr (.inl ⟨entity, rfl, rfl⟩)
      | some id =>
        dsimp only
        cases matched : idMatchesFile file.path id with
        | false =>
          rw [if_neg Bool.false_ne_true, if_pos rfl]
          exact .inl ⟨rfl, _, rfl, List.forall_mem_singleton.mpr rfl, fun _ => List.cons_ne_nil _ _⟩
        | true =>
          rw [if_pos rfl, if_neg Bool.noConfusion]
          refine .inr (.inr ⟨entity, _, rfl, ?_⟩)
          cases first : state.claimed.get (kind, id) with
          | none => exact .inr ⟨rfl, rfl⟩
          | some path => exact .inl ⟨nofun, _, explains_singleton rfl, rfl⟩

theorem parseOrdered_append (files : List SpecFile) (file : SpecFile) :
    parseOrdered readers (files ++ [file]) =
      parseFile readers (parseOrdered readers files) file := by
  rw [parseOrdered, List.foldl_append]
  rfl

theorem firstClaimant_append (files : List SpecFile) (file : SpecFile) (key : Kind × Text) :
    firstClaimant readers (files ++ [file]) key = (firstClaimant readers files key).or
      (if claim readers file = some key then some file else none) := by
  rw [firstClaimant, List.find?_append, firstClaimant, List.find?_singleton]
  simp only [decide_eq_true_eq]

/-- A file that claims an identifier, among others or first. -/
theorem firstClaimant_isSome {files : List SpecFile} {file : SpecFile} {key : Kind × Text}
    (member : file ∈ files) (claims : claim readers file = some key) :
    (firstClaimant readers files key).isSome = true :=
  List.find?_isSome.mpr ⟨file, member, decide_eq_true claims⟩

/-- **The identifiers that are claimed**, each by its first claimant. -/
theorem claimed_parseOrdered (files : List SpecFile) (key : Kind × Text) :
    (parseOrdered readers files).claimed.get key =
      (firstClaimant readers files key).map SpecFile.path := by
  induction files using List.reverseRecOn with
  | nil => rfl
  | append_singleton files file ih =>
    rw [parseOrdered_append, firstClaimant_append]
    have unread : claim readers file ≠ some key →
        ((firstClaimant readers files key).or
          (if claim readers file = some key then some file else none)).map SpecFile.path =
          (firstClaimant readers files key).map SpecFile.path := by
      intro other
      rw [if_neg other, Option.or_none]
    rcases parseFile_cases readers (parseOrdered readers files) file with
      ⟨none, more, after, -⟩ | ⟨entity, read, after⟩ | ⟨entity, known, read, taken | ⟨free, after⟩⟩
    · rw [after, ih, unread]
      rw [claim, none]
      exact nofun
    · rw [after, ih, unread]
      rw [claim, read]
      exact nofun
    · obtain ⟨taken, more, _, after⟩ := taken
      rw [after, ih]
      by_cases same : known = key
      · subst same
        rw [ih] at taken
        cases found : firstClaimant readers files known with
        | none => exact absurd (congrArg (Option.map SpecFile.path) found) taken
        | some first => rfl
      · rw [unread]
        rw [claim, read]
        exact fun equal => same (Option.some.inj equal)
    · rw [after]
      dsimp only
      rw [OrderedMap.get_set]
      have claims : claim readers file = some known := by
        rw [claim, read]
        rfl
      by_cases same : known = key
      · subst same
        rw [ih, Option.map_eq_none_iff] at free
        rw [if_pos rfl, free, if_pos claims]
        rfl
      · rw [if_neg same, ih, unread]
        exact fun equal => same (Option.some.inj (claims.symm.trans equal))

/-- One file more does not change what stands before it. -/
theorem standing_append {files : List SpecFile} {file other : SpecFile} (member : other ∈ files) :
    standing readers (files ++ [file]) other = standing readers files other := by
  rw [standing, standing]
  cases read : readFile readers other with
  | none => rfl
  | some given =>
    obtain ⟨entity, claimed⟩ := given
    cases claimed with
    | none => rfl
    | some key =>
      have claims : claim readers other = some key := claim_eq_some.mpr ⟨entity, read⟩
      obtain ⟨first, found⟩ := Option.isSome_iff_exists.mp (firstClaimant_isSome member claims)
      dsimp only
      rw [firstClaimant_append, found]
      rfl

theorem placement_append {files : List SpecFile} {file other : SpecFile} (member : other ∈ files)
    (kind : Kind) :
    placement readers (files ++ [file]) kind other = placement readers files kind other := by
  rw [placement, placement, standing_append member]

theorem path_of_project {path : Text} (project : kindOf path = some .project) :
    path = Text.lit "koklo.project.yaml" := by
  rw [kindOf] at project
  split at project
  · assumption
  · repeat (split at project <;> [cases project; skip])
    cases project

/-- What stands for a file that is read last. -/
theorem standing_last {files : List SpecFile} {file : SpecFile} (fresh : file ∉ files) :
    standing readers (files ++ [file]) file =
      match readFile readers file with
      | none => none
      | some (entity, none) => some entity
      | some (entity, some key) =>
        if (firstClaimant readers files key).isSome then none else some entity := by
  rw [standing]
  cases read : readFile readers file with
  | none => rfl
  | some given =>
    obtain ⟨entity, claimed⟩ := given
    cases claimed with
    | none => rfl
    | some key =>
      have claims : claim readers file = some key := claim_eq_some.mpr ⟨entity, read⟩
      dsimp only
      rw [firstClaimant_append, if_pos claims]
      cases found : firstClaimant readers files key with
      | none => rw [Option.none_or, if_pos rfl, Option.isSome_none, if_neg Bool.false_ne_true]
      | some first =>
        rw [Option.some_or, Option.isSome_some, if_pos rfl, if_neg]
        intro same
        cases same
        exact fresh (List.mem_of_find?_eq_some found)

theorem kindOf_of_standing {files : List SpecFile} {file : SpecFile} {entity : Entity}
    (stands : standing readers files file = some entity) :
    kindOf file.path = some entity.kind ∧ ∃ claimed, readFile readers file = some (entity, claimed) := by
  rw [standing] at stands
  split at stands
  · cases stands
  · rename_i other read
    cases stands
    exact ⟨(readFile_eq_some read).1, _, read⟩
  · rename_i other key read
    split at stands
    · cases stands
      exact ⟨(readFile_eq_some read).1, _, read⟩
    · cases stands

theorem placement_eq_some {files : List SpecFile} {kind : Kind} {file : SpecFile}
    {entry : Text × Entity} : placement readers files kind file = some entry ↔
      standing readers files file = some entry.2 ∧ entry.2.kind = kind ∧ file.path = entry.1 := by
  rw [placement, Option.map_eq_some_iff]
  constructor
  · rintro ⟨entity, kept, rfl⟩
    obtain ⟨stands, kinds⟩ := Option.filter_eq_some_iff.mp kept
    exact ⟨stands, of_decide_eq_true kinds, rfl⟩
  · rintro ⟨stands, kinds, path⟩
    exact ⟨entry.2, Option.filter_eq_some_iff.mpr ⟨stands, decide_eq_true kinds⟩, Prod.ext path rfl⟩

/-- One file at most is the project. -/
theorem placement_project {files : List SpecFile} {file other : SpecFile} {entity : Entity}
    (project : kindOf file.path = some .project) (apart : file.path ≠ other.path) :
    placement readers files .project other ≠ some (other.path, entity) := by
  intro placed
  obtain ⟨stands, kinds, -⟩ := placement_eq_some.mp placed
  have named := (kindOf_of_standing stands).1
  rw [kinds] at named
  exact apart ((path_of_project project).trans (path_of_project named).symm)

/-- **The entities of a specification** are those of the files that stand, in the order of the
files. -/
theorem entries_parseOrdered {files : List SpecFile} (distinct : (files.map SpecFile.path).Nodup)
    (kind : Kind) : (parseOrdered readers files).spec.entries kind =
      files.filterMap (placement readers files kind) := by
  induction files using List.reverseRecOn with
  | nil => cases kind <;> rfl
  | append_singleton files file ih =>
    rw [List.map_append, List.map_singleton] at distinct
    obtain ⟨before, -, apart⟩ := List.nodup_append.mp distinct
    have fresh : file ∉ files := fun member =>
      apart _ (List.mem_map_of_mem member) _ (List.mem_singleton_self _) rfl
    have earlier : files.filterMap (placement readers (files ++ [file]) kind) =
        (parseOrdered readers files).spec.entries kind := by
      rw [ih before]
      exact List.filterMap_congr fun other member => placement_append member kind
    have last : standing readers (files ++ [file]) file = _ := standing_last fresh
    rw [parseOrdered_append, List.filterMap_append, earlier]
    have unplaced : standing readers (files ++ [file]) file = none →
        [file].filterMap (placement readers (files ++ [file]) kind) = [] := by
      intro none
      rw [List.filterMap_cons, placement, none]
      rfl
    have placed : ∀ {entity : Entity}, standing readers (files ++ [file]) file = some entity →
        (place (parseOrdered readers files).spec file.path entity).entries kind =
          (parseOrdered readers files).spec.entries kind ++
            [file].filterMap (placement readers (files ++ [file]) kind) := by
      intro entity stands
      rw [entries_place, List.filterMap_cons, placement, stands]
      by_cases mine : kind = entity.kind
      · subst mine
        rw [if_pos rfl, Option.filter_some, decide_eq_true rfl, if_pos rfl]
        dsimp only [Option.map_some, List.filterMap_nil]
        by_cases project : entity.kind = .project
        · have none : (parseOrdered readers files).spec.entries entity.kind = [] := by
            rw [ih before, List.filterMap_eq_nil_iff]
            intro other member
            by_contra present
            obtain ⟨entry, found⟩ := Option.ne_none_iff_exists'.mp present
            obtain ⟨-, -, path⟩ := placement_eq_some.mp found
            rw [project] at found
            have named : kindOf file.path = some .project := by
              rw [(kindOf_of_standing stands).1, project]
            have other' : file.path ≠ other.path :=
              (apart _ (List.mem_map_of_mem member) _ (List.mem_singleton_self _)).symm
            exact placement_project named other' (found.trans (by rw [path]))
          rw [if_pos project, none]
        · rw [if_neg project]
      · rw [if_neg mine, Option.filter_some, decide_eq_false (Ne.symm mine), if_neg Bool.false_ne_true]
        exact (List.append_nil _).symm
    rcases parseFile_cases readers (parseOrdered readers files) file with
      ⟨none, more, after, -⟩ | ⟨entity, read, after⟩ | ⟨entity, key, read, taken | ⟨free, after⟩⟩
    · rw [none] at last
      rw [after, unplaced last, List.append_nil]
    · rw [read] at last
      rw [after]
      exact placed last
    · obtain ⟨taken, more, -, after⟩ := taken
      rw [claimed_parseOrdered] at taken
      rw [read] at last
      dsimp only at last
      rw [if_pos (Option.isSome_iff_ne_none.mpr fun none => taken (by rw [none]; rfl))] at last
      rw [after, unplaced last, List.append_nil]
    · rw [claimed_parseOrdered, Option.map_eq_none_iff] at free
      rw [read] at last
      dsimp only at last
      rw [free, Option.isSome_none, if_neg Bool.false_ne_true] at last
      rw [after]
      exact placed last

/-! ## Issues -/

/-- A file that does not stand has an issue. -/
theorem issue_parseOrdered {files : List SpecFile} (distinct : (files.map SpecFile.path).Nodup)
    {file : SpecFile} (member : file ∈ files) (recognized : (kindOf file.path).isSome = true) :
    (standing readers files file).isSome = true ∨
      ∃ issue ∈ (parseOrdered readers files).issues, issue.path = file.path := by
  induction files using List.reverseRecOn with
  | nil => cases member
  | append_singleton files last ih =>
    rw [List.map_append, List.map_singleton] at distinct
    obtain ⟨before, -, apart⟩ := List.nodup_append.mp distinct
    have kept : ∃ more, (parseOrdered readers (files ++ [last])).issues =
        (parseOrdered readers files).issues ++ more := by
      rw [parseOrdered_append]
      rcases parseFile_cases readers (parseOrdered readers files) last with
        ⟨-, more, after, -⟩ | ⟨_, -, after⟩ | ⟨_, _, -, ⟨-, more, -, after⟩ | ⟨-, after⟩⟩
      · exact ⟨more, by rw [after]⟩
      · exact ⟨[], by rw [after, List.append_nil]⟩
      · exact ⟨more, by rw [after]⟩
      · exact ⟨[], by rw [after, List.append_nil]⟩
    rcases List.mem_append.mp member with inside | one
    · rcases ih before inside with stands | ⟨issue, known, path⟩
      · rw [standing_append inside]
        exact .inl stands
      · obtain ⟨more, grown⟩ := kept
        rw [grown]
        exact .inr ⟨issue, List.mem_append_left _ known, path⟩
    · rw [List.mem_singleton] at one
      subst one
      have fresh : file ∉ files := fun inside =>
        apart _ (List.mem_map_of_mem inside) _ (List.mem_singleton_self _) rfl
      have explained : ∀ {more : List Issue}, Explains file.path more →
          ∃ issue ∈ (parseOrdered readers files).issues ++ more, issue.path = file.path := by
        rintro more ⟨some, all⟩
        obtain ⟨issue, one⟩ := List.exists_mem_of_ne_nil more some
        exact ⟨issue, List.mem_append_right _ one, all issue one⟩
      rw [standing_last fresh, parseOrdered_append]
      rcases parseFile_cases readers (parseOrdered readers files) file with
        ⟨_, more, after, all, some⟩ | ⟨entity, read, after⟩ |
        ⟨entity, key, read, ⟨_, more, refused, after⟩ | ⟨free, after⟩⟩
      · rw [after]
        exact .inr (explained ⟨some recognized, all⟩)
      · rw [read]
        exact .inl rfl
      · rw [after]
        exact .inr (explained refused)
      · rw [claimed_parseOrdered, Option.map_eq_none_iff] at free
        rw [read]
        dsimp only
        rw [free]
        exact .inl rfl

/-- An issue is about a file that does not stand. -/
theorem blamed_parseOrdered {files : List SpecFile} (distinct : (files.map SpecFile.path).Nodup)
    {issue : Issue} (known : issue ∈ (parseOrdered readers files).issues) :
    ∃ file ∈ files, standing readers files file = none ∧ issue.path = file.path := by
  induction files using List.reverseRecOn with
  | nil => cases known
  | append_singleton files last ih =>
    rw [List.map_append, List.map_singleton] at distinct
    obtain ⟨before, -, apart⟩ := List.nodup_append.mp distinct
    have fresh : last ∉ files := fun inside =>
      apart _ (List.mem_map_of_mem inside) _ (List.mem_singleton_self _) rfl
    have earlier : issue ∈ (parseOrdered readers files).issues → ∃ file ∈ files ++ [last],
        standing readers (files ++ [last]) file = none ∧ issue.path = file.path := by
      intro old
      obtain ⟨file, inside, fallen, path⟩ := ih before old
      exact ⟨file, List.mem_append_left _ inside, (standing_append inside).trans fallen, path⟩
    have mine : last ∈ files ++ [last] := List.mem_append_right _ (List.mem_singleton_self _)
    have alone : standing readers (files ++ [last]) last = _ := standing_last fresh
    rw [parseOrdered_append] at known
    rcases parseFile_cases readers (parseOrdered readers files) last with
      ⟨none, more, after, all, _⟩ | ⟨_, read, after⟩ |
      ⟨entity, key, read, ⟨taken, more, refused, after⟩ | ⟨free, after⟩⟩
    · rw [after] at known
      rcases List.mem_append.mp known with old | new
      · exact earlier old
      · rw [none] at alone
        exact ⟨last, mine, alone, all issue new⟩
    · rw [after] at known
      exact earlier known
    · rw [after] at known
      rcases List.mem_append.mp known with old | new
      · exact earlier old
      · rw [claimed_parseOrdered] at taken
        rw [read] at alone
        dsimp only at alone
        rw [if_pos (Option.isSome_iff_ne_none.mpr fun none => taken (by rw [none]; rfl))] at alone
        exact ⟨last, mine, alone, refused.2 issue new⟩
    · rw [after] at known
      exact earlier known

/-! ## Identifiers -/

/-- An entity that is placed adds its identifier. -/
theorem ids_place (spec : ParsedSpec) (path : Text) (entity : Entity) (kind : Kind) :
    (place spec path entity).ids kind =
      if kind = entity.kind then
        (if kind = .project then [] else spec.ids kind) ++ entity.id?.toList
      else spec.ids kind := by
  rw [ParsedSpec.ids, entries_place]
  split
  · rw [List.filterMap_append]
    have earlier : (if kind = .project then [] else spec.entries kind).filterMap (·.2.id?) =
        if kind = .project then [] else spec.ids kind := by
      split
      · rfl
      · rfl
    have last : [(path, entity)].filterMap (·.2.id?) = entity.id?.toList := by
      cases named : entity.id? with
      | none => simp [named]
      | some id => simp [named]
    rw [earlier, last]
  · rfl

/-- **Identifiers are unique**: an identifier that stands is claimed. -/
theorem ids_parseOrdered (files : List SpecFile) (kind : Kind) :
    ((parseOrdered readers files).spec.ids kind).Nodup ∧
      ∀ id ∈ (parseOrdered readers files).spec.ids kind,
        (parseOrdered readers files).claimed.get (kind, id) ≠ none := by
  induction files using List.reverseRecOn with
  | nil => cases kind <;> exact ⟨List.nodup_nil, List.forall_mem_nil _⟩
  | append_singleton files file ih =>
    obtain ⟨distinct, known⟩ := ih
    rw [parseOrdered_append]
    rcases parseFile_cases readers (parseOrdered readers files) file with
      ⟨-, more, after, -⟩ | ⟨entity, read, after⟩ |
      ⟨entity, key, read, ⟨-, more, -, after⟩ | ⟨free, after⟩⟩
    · rw [after]
      exact ⟨distinct, known⟩
    · have nameless : entity.id? = none := by
        have claims := (readFile_eq_some read).2.2.1
        rw [eq_comm, Option.map_eq_none_iff] at claims
        exact claims
      rw [after]
      dsimp only
      rw [ids_place, nameless, Option.toList_none, List.append_nil]
      split
      · split
        · exact ⟨List.nodup_nil, List.forall_mem_nil _⟩
        · exact ⟨distinct, known⟩
      · exact ⟨distinct, known⟩
    · rw [after]
      exact ⟨distinct, known⟩
    · have claims := (readFile_eq_some read).2.2.1
      obtain ⟨id, named, rfl⟩ := Option.map_eq_some_iff.mp claims.symm
      rw [after]
      dsimp only
      rw [ids_place, named, Option.toList_some]
      have grown : ∀ id' ∈ (parseOrdered readers files).spec.ids kind,
          (OrderedMap.set (parseOrdered readers files).claimed (entity.kind, id) file.path).get
            (kind, id') ≠ none := by
        intro id' member
        rw [OrderedMap.get_set]
        split
        · exact Option.some_ne_none _
        · exact known id' member
      by_cases mine : kind = entity.kind
      · subst mine
        rw [if_pos rfl]
        have fresh : id ∉ (parseOrdered readers files).spec.ids entity.kind :=
          fun member => known id member free
        have own : (OrderedMap.set (parseOrdered readers files).claimed (entity.kind, id)
            file.path).get (entity.kind, id) ≠ none := by
          rw [OrderedMap.get_set_self]
          exact Option.some_ne_none _
        split
        · exact ⟨List.nodup_singleton _, List.forall_mem_singleton.mpr own⟩
        · refine ⟨List.nodup_append.mpr ⟨distinct, List.nodup_singleton _, ?_⟩, ?_⟩
          · intro old member new single same
            rw [List.mem_singleton.mp single] at same
            exact fresh (same ▸ member)
          · intro id' member
            rcases List.mem_append.mp member with old | new
            · exact grown id' old
            · rw [List.mem_singleton.mp new]
              exact own
      · rw [if_neg mine]
        exact ⟨distinct, grown⟩

/-- **What stands was read** from a file. -/
theorem read_of_entry {files : List SpecFile} {kind : Kind} {entry : Text × Entity}
    (stands : entry ∈ (parseOrdered readers files).spec.entries kind) :
    entry.2.kind = kind ∧ ∃ file ∈ files, entry.1 = file.path ∧
      ∃ claimed, readFile readers file = some (entry.2, claimed) := by
  induction files using List.reverseRecOn with
  | nil => cases kind <;> cases stands
  | append_singleton files file ih =>
    have earlier : entry ∈ (parseOrdered readers files).spec.entries kind →
        entry.2.kind = kind ∧ ∃ file' ∈ files ++ [file], entry.1 = file'.path ∧
          ∃ claimed, readFile readers file' = some (entry.2, claimed) := by
      intro old
      obtain ⟨kinds, other, member, read⟩ := ih old
      exact ⟨kinds, other, List.mem_append_left _ member, read⟩
    have placed : ∀ {entity claimed}, readFile readers file = some (entity, claimed) →
        entry ∈ (place (parseOrdered readers files).spec file.path entity).entries kind →
        entry.2.kind = kind ∧ ∃ file' ∈ files ++ [file], entry.1 = file'.path ∧
          ∃ claimed, readFile readers file' = some (entry.2, claimed) := by
      intro entity claimed read member
      rw [entries_place] at member
      split at member
      · rename_i mine
        rcases List.mem_append.mp member with old | new
        · split at old
          · cases old
          · exact earlier old
        · rw [List.mem_singleton.mp new]
          exact ⟨mine.symm, file, List.mem_append_right _ (List.mem_singleton_self _), rfl, _, read⟩
      · exact earlier member
    rw [parseOrdered_append] at stands
    rcases parseFile_cases readers (parseOrdered readers files) file with
      ⟨-, more, after, -⟩ | ⟨entity, read, after⟩ |
      ⟨entity, key, read, ⟨-, more, -, after⟩ | ⟨-, after⟩⟩
    · rw [after] at stands
      exact earlier stands
    · rw [after] at stands
      exact placed read stands
    · rw [after] at stands
      exact earlier stands
    · rw [after] at stands
      exact placed read stands

/-- **An entity stands under the path that claimed its identifier.** -/
theorem claimed_of_entry {files : List SpecFile} {kind : Kind} (identified : kind.identified = true)
    {entry : Text × Entity} (stands : entry ∈ (parseOrdered readers files).spec.entries kind)
    {id : Text} (named : entry.2.id? = some id) :
    (parseOrdered readers files).claimed.get (kind, id) = some entry.1 := by
  induction files using List.reverseRecOn with
  | nil => cases kind <;> cases stands
  | append_singleton files file ih =>
    rw [parseOrdered_append] at stands ⊢
    rcases parseFile_cases readers (parseOrdered readers files) file with
      ⟨-, more, after, -⟩ | ⟨entity, read, after⟩ |
      ⟨entity, key, read, ⟨-, more, -, after⟩ | ⟨free, after⟩⟩
    · rw [after] at stands ⊢
      exact ih stands
    · have other : kind ≠ entity.kind := by
        rintro rfl
        have claims := (readFile_eq_some read).2.2.2.mp identified
        cases claims
      rw [after] at stands ⊢
      rw [entries_place, if_neg other] at stands
      exact ih stands
    · rw [after] at stands ⊢
      exact ih stands
    · obtain ⟨id', bears, rfl⟩ := Option.map_eq_some_iff.mp (readFile_eq_some read).2.2.1.symm
      rw [after] at stands ⊢
      dsimp only at stands ⊢
      have kept (old : entry ∈ (parseOrdered readers files).spec.entries kind) :
          (OrderedMap.set (parseOrdered readers files).claimed (entity.kind, id') file.path).get
            (kind, id) = some entry.1 := by
        rw [OrderedMap.get_set_of_ne, ih old]
        intro same
        rw [same, ih old] at free
        cases free
      rw [entries_place] at stands
      split at stands
      · rename_i mine
        subst mine
        rcases List.mem_append.mp stands with old | new
        · split at old
          · cases old
          · exact kept old
        · rw [List.mem_singleton.mp new] at named ⊢
          rw [bears] at named
          cases named
          exact OrderedMap.get_set_self _ _ _
      · exact kept stands

/-- **The first path keeps a contested identifier.** -/
theorem firstClaimant_orderedFiles {files : List SpecFile}
    (distinct : (files.map SpecFile.path).Nodup) {file : SpecFile} (member : file ∈ files)
    {key : Kind × Text} (claims : claim readers file = some key) :
    firstClaimant readers (orderedFiles files) key = some file ↔
      ∀ other ∈ files, claim readers other = some key → byPath file other ≤ 0 := by
  constructor
  · intro first other inside also
    exact (byPath_le_zero_iff _ _).mpr
      (le_of_find?_sortWith byPath_le_zero_iff first inside (decide_eq_true also))
  · intro least
    obtain ⟨first, found⟩ :=
      Option.isSome_iff_exists.mp (firstClaimant_isSome (mem_orderedFiles.mpr member) claims)
    have inside : first ∈ files := mem_orderedFiles.mp (List.mem_of_find?_eq_some found)
    have also : claim readers first = some key := by
      rw [firstClaimant] at found
      have claimed := List.find?_some found
      exact of_decide_eq_true claimed
    have before : rank first ≤ rank file :=
      le_of_find?_sortWith byPath_le_zero_iff found member (decide_eq_true claims)
    have after : rank file ≤ rank first := (byPath_le_zero_iff _ _).mp (least first inside also)
    rw [found, List.inj_on_of_nodup_map (nodup_rank distinct) inside member (le_antisymm before after)]

/-! ## Roles and permissions -/

theorem nodup_of_duplicatesFrom {key path : Text} {seen : List Text} {index : ℕ} {ids : List Text}
    (none : duplicatesFrom key path seen index ids = []) :
    ids.Nodup ∧ ∀ id ∈ ids, id ∉ seen := by
  induction ids generalizing seen index with
  | nil => exact ⟨List.nodup_nil, List.forall_mem_nil _⟩
  | cons id ids ih =>
    rw [duplicatesFrom, List.append_eq_nil_iff] at none
    obtain ⟨first, later⟩ := none
    obtain ⟨distinct, fresh⟩ := ih later
    have unseen : id ∉ seen := by
      intro known
      rw [if_pos known] at first
      cases first
    refine ⟨List.nodup_cons.mpr ⟨?_, distinct⟩, List.forall_mem_cons.mpr ⟨unseen, ?_⟩⟩
    · exact fun again => fresh id again List.mem_cons_self
    · exact fun other member known => fresh other member (List.mem_cons_of_mem _ known)

/-- The roles of a file that is read are distinct, and so are its permissions. -/
theorem roles_of_readFile {file : SpecFile} {value : RolesFile} {claimed : Option (Kind × Text)}
    (read : readFile readers file = some (.roles value, claimed)) :
    (value.roles.map Role.id).Nodup ∧ (value.permissions.map Permission.id).Nodup := by
  obtain ⟨data, decoded⟩ := readData_of_readFile read ⟨nofun, nofun⟩
  simp only [Entity.kind, readData] at decoded
  split at decoded
  · cases decoded
  · split at decoded
    · cases decoded
    · rename_i fine
      cases decoded
      rw [not_not, duplicateIdIssues, List.append_eq_nil_iff] at fine
      exact ⟨(nodup_of_duplicatesFrom fine.1).1, (nodup_of_duplicatesFrom fine.2).1⟩

theorem path_of_roles {path : Text} (roles : kindOf path = some .roles) :
    path = Text.lit "domain/roles.yaml" := by
  rw [kindOf] at roles
  split at roles
  · cases roles
  split at roles
  · cases roles
  split at roles
  · assumption
  · repeat (split at roles <;> [cases roles; skip])
    cases roles

/-! ## The specification of files -/

/-- The entity that a file gives is in the specification. -/
def Placed (readers : Readers) (spec : ParsedSpec) (file : SpecFile) : Prop :=
  ∃ kind entity known, kindOf file.path = some kind ∧
    parseOne readers file kind = .ok (entity, known) ∧ (file.path, entity) ∈ spec.entries kind

theorem placed_iff {files : List SpecFile} (distinct : (files.map SpecFile.path).Nodup)
    {file : SpecFile} (member : file ∈ files) :
    Placed readers (parseOrdered readers files).spec file ↔
      (standing readers files file).isSome = true := by
  rw [Option.isSome_iff_exists]
  constructor
  · rintro ⟨kind, entity, known, -, -, placed⟩
    rw [entries_parseOrdered distinct] at placed
    obtain ⟨other, inside, found⟩ := List.mem_filterMap.mp placed
    obtain ⟨stands, -, path⟩ := placement_eq_some.mp found
    rw [List.inj_on_of_nodup_map distinct inside member path] at stands
    exact ⟨entity, stands⟩
  · rintro ⟨entity, stands⟩
    obtain ⟨named, claimed, read⟩ := kindOf_of_standing stands
    obtain ⟨-, ⟨known, parsed⟩, -⟩ := readFile_eq_some read
    refine ⟨entity.kind, entity, known, named, parsed, ?_⟩
    rw [entries_parseOrdered distinct]
    exact List.mem_filterMap.mpr ⟨file, member, placement_eq_some.mpr ⟨stands, rfl, rfl⟩⟩

/-- The entities of a kind come from distinct files. -/
theorem nodup_paths {files : List SpecFile} (distinct : (files.map SpecFile.path).Nodup)
    (kind : Kind) : (((parseOrdered readers files).spec.entries kind).map Prod.fst).Nodup := by
  rw [entries_parseOrdered distinct]
  have apart := List.pairwise_map.mp distinct
  apply List.pairwise_map.mpr
  refine apart.filterMap _ fun file other differ entry placed entry' placed' same => ?_
  have path := (placement_eq_some.mp placed).2.2
  have path' := (placement_eq_some.mp placed').2.2
  exact differ (path.trans (same.trans path'.symm))

/-- **Roles are unique, and so are permissions**: one file holds them. -/
theorem roles_nodup {files : List SpecFile} (distinct : (files.map SpecFile.path).Nodup) :
    ((parseOrdered readers files).spec.roles.flatMap (·.value.roles.map Role.id)).Nodup ∧
      ((parseOrdered readers files).spec.roles.flatMap
        (·.value.permissions.map Permission.id)).Nodup := by
  have named : ∀ parsed ∈ (parseOrdered readers files).spec.roles,
      parsed.path = Text.lit "domain/roles.yaml" ∧
        (parsed.value.roles.map Role.id).Nodup ∧ (parsed.value.permissions.map Permission.id).Nodup := by
    intro parsed member
    have entry : (parsed.path, Entity.roles parsed.value) ∈
        (parseOrdered readers files).spec.entries .roles := List.mem_map_of_mem member
    rw [entries_parseOrdered distinct] at entry
    obtain ⟨file, -, found⟩ := List.mem_filterMap.mp entry
    obtain ⟨stands, -, path⟩ := placement_eq_some.mp found
    obtain ⟨kinds, claimed, read⟩ := kindOf_of_standing stands
    rw [path] at kinds
    exact ⟨path_of_roles kinds, roles_of_readFile read⟩
  have apart : (((parseOrdered readers files).spec.entries .roles).map Prod.fst).Nodup :=
    nodup_paths distinct .roles
  rw [ParsedSpec.entries, List.map_map] at apart
  rcases listed : (parseOrdered readers files).spec.roles with _ | ⟨parsed, _ | ⟨second, rest⟩⟩
  · exact ⟨List.nodup_nil, List.nodup_nil⟩
  · have mine := (named parsed (by rw [listed]; exact List.mem_singleton_self _)).2
    rw [List.flatMap_singleton, List.flatMap_singleton]
    exact mine
  · rw [listed] at named apart
    have one := (named parsed List.mem_cons_self).1
    have two := (named second (List.mem_cons_of_mem _ List.mem_cons_self)).1
    exact absurd (List.mem_map.mpr ⟨second, List.mem_cons_self, two.trans one.symm⟩)
      (List.nodup_cons.mp apart).1

end

/-- **The specification does not depend on the order of the files.** Each file of a known kind is in
the specification or has an issue, and not both; identifiers are unique; the first path keeps an
identifier that several files claim. -/
theorem parseSpecFiles_order_free (readers : Readers) {files files' : List SpecFile}
    (distinct : (files.map SpecFile.path).Nodup) (same : files'.Perm files) :
    let parsed := parseSpecFiles readers files
    parseSpecFiles readers files' = parsed ∧
      (∀ file ∈ files, (kindOf file.path).isSome = true →
        Xor (Placed readers parsed.1 file) (∃ issue ∈ parsed.2, issue.path = file.path)) ∧
      (∀ kind, (parsed.1.ids kind).Nodup) ∧
      (parsed.1.roles.flatMap (·.value.roles.map Role.id)).Nodup ∧
      (parsed.1.roles.flatMap (·.value.permissions.map Permission.id)).Nodup ∧
      ∀ file ∈ files, ∀ key, claim readers file = some key →
        (Placed readers parsed.1 file ↔
          ∀ other ∈ files, claim readers other = some key → byPath file other ≤ 0) := by
  have apart := nodup_orderedFiles distinct
  have reported : ∀ path, (∃ issue ∈ (parseSpecFiles readers files).2, issue.path = path) ↔
      ∃ issue ∈ (parseOrdered readers (orderedFiles files)).issues, issue.path = path := by
    intro path
    constructor
    · rintro ⟨issue, known, named⟩
      obtain ⟨raised, old, rfl⟩ := List.mem_map.mp (mem_sortIssues.mp known)
      exact ⟨raised, old, named⟩
    · rintro ⟨issue, known, named⟩
      exact ⟨issue.toSpecIssue, mem_sortIssues.mpr (List.mem_map_of_mem known), named⟩
  refine ⟨?_, fun file member recognized => ?_, fun kind => (ids_parseOrdered _ kind).1, (roles_nodup apart).1,
    (roles_nodup apart).2, fun file member key claims => ?_⟩
  · rw [parseSpecFiles, orderedFiles_perm distinct same]
    rfl
  · have inside := mem_orderedFiles.mpr member
    have placed : Placed readers (parseOrdered readers (orderedFiles files)).spec file ↔ _ :=
      placed_iff apart inside
    have fallen : (∃ issue ∈ (parseOrdered readers (orderedFiles files)).issues,
        issue.path = file.path) → standing readers (orderedFiles files) file = none := by
      rintro ⟨issue, known, path⟩
      obtain ⟨other, also, fallen, path'⟩ := blamed_parseOrdered apart known
      rwa [List.inj_on_of_nodup_map apart also inside (path'.symm.trans path)] at fallen
    rw [reported]
    rcases issue_parseOrdered apart inside recognized with stands | blamed
    · refine .inl ⟨placed.mpr stands, fun blamed => ?_⟩
      rw [fallen blamed] at stands
      cases stands
    · refine .inr ⟨blamed, fun stays => ?_⟩
      have stands := placed.mp stays
      rw [fallen blamed] at stands
      cases stands
  · have inside := mem_orderedFiles.mpr member
    rw [← firstClaimant_orderedFiles distinct member claims]
    obtain ⟨entity, read⟩ := claim_eq_some.mp claims
    refine (placed_iff apart inside).trans ?_
    rw [standing, read]
    dsimp only
    by_cases first : firstClaimant readers (orderedFiles files) key = some file
    · rw [if_pos first]
      exact iff_of_true rfl first
    · rw [if_neg first]
      exact iff_of_false Bool.false_ne_true first

/-- Two files that claim one feature. -/
theorem parseSpecFiles_order_free_two :
    let readers : Readers := ⟨fun _ => [], PlainYaml.package, id⟩
    let long : SpecFile := ⟨Text.lit "features/F-001-connexion.md", loginText (Text.lit "connexion")⟩
    let short : SpecFile := ⟨Text.lit "features/F-001.md", loginText (Text.lit "connexion")⟩
    parseSpecFiles readers [long, short] = parseSpecFiles readers [short, long] :=
  (parseSpecFiles_order_free _ (by decide) (List.Perm.swap _ _ _)).1

end Koklo.Schema
