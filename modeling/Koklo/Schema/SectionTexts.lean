import Koklo.Foundations.Splitting
import Koklo.Schema.RoundTrip

/-!
# What the sections of a feature say

The description says its lines that are not blank, up to white space at their ends; the criteria say
their headings and steps. A body that is read without an issue says what the feature holds, in the
same order (`texts_of_parse`). A body that is written says what the
feature holds as well (`describedTexts_emitted`, `criteriaTexts_emitted`).
-/

set_option autoImplicit false

namespace Koklo.Schema

open Koklo.Foundations
open Koklo.Foundations.Regex
open Koklo.Foundations.Decoding

/-! ## Visible lines -/

/-- The lines that are not blank, without the white space at their ends. -/
def shownTexts (lines : List Text) : List Text := (lines.map Text.trim).filter (· ≠ [])

theorem shownTexts_append (lines lines' : List Text) :
    shownTexts (lines ++ lines') = shownTexts lines ++ shownTexts lines' := by
  rw [shownTexts, List.map_append, List.filter_append, shownTexts, shownTexts]

theorem shownTexts_cons (line : Text) (lines : List Text) :
    shownTexts (line :: lines) = shownTexts [line] ++ shownTexts lines :=
  shownTexts_append [line] lines

theorem mem_shownTexts {lines : List Text} {line : Text} (member : line ∈ lines)
    (visible : Text.trim line ≠ []) : Text.trim line ∈ shownTexts lines := by
  rw [shownTexts, List.mem_filter]
  exact ⟨List.mem_map_of_mem member, by simpa using visible⟩

theorem trim_cons_space {u : CodeUnit} (space : Text.isSpace u = true) (t : Text) :
    Text.trim (u :: t) = Text.trim t := by
  rw [Text.trim, Text.trim, Text.trimStart, List.dropWhile_cons_of_pos space]
  rfl

theorem trim_append_space {u : CodeUnit} (space : Text.isSpace u = true) (t : Text) :
    Text.trim (t ++ [u]) = Text.trim t := by
  rw [Text.trim, Text.trim, Text.trimStart, Text.trimStart, List.dropWhile_append]
  split
  · rename_i blank
    rw [List.isEmpty_iff.mp blank, List.dropWhile_cons_of_pos space]
    rfl
  · exact List.rdropWhile_concat_pos Text.isSpace _ u space

/-- White space before a text is not shown. -/
theorem shownTexts_cons_space {u : CodeUnit} (space : Text.isSpace u = true) (t : Text) :
    shownTexts (Text.lines (u :: t)) = shownTexts (Text.lines t) := by
  rw [Text.lines, List.splitOn_cons_eq_if_modifyHead, ← Text.lines]
  split
  · exact shownTexts_cons [] _
  · obtain ⟨line, lines, shape⟩ := List.exists_cons_of_ne_nil (List.splitOn_ne_nil Text.newline t)
    rw [Text.lines, shape, List.modifyHead_cons, shownTexts, List.map_cons, trim_cons_space space]
    rfl

/-- White space after a text is not shown. -/
theorem shownTexts_append_space {u : CodeUnit} (space : Text.isSpace u = true) (t : Text) :
    shownTexts (Text.lines (t ++ [u])) = shownTexts (Text.lines t) := by
  obtain ⟨pieces, last, shape⟩ :=
    (List.eq_nil_or_concat (Text.lines t)).resolve_left (List.splitOn_ne_nil Text.newline t)
  rw [List.concat_eq_append] at shape
  rw [Text.lines, splitOn_append shape, shape, shownTexts_append, shownTexts_append]
  refine congrArg (shownTexts pieces ++ ·) ?_
  by_cases feed : u = Text.newline
  · rw [feed, List.splitOn_append_cons_self, List.splitOn_nil, shownTexts_append,
      List.splitOn_eq_singleton]
    · exact List.append_nil _
    · exact not_mem_of_mem_splitOn (shape ▸ List.mem_append_right _ List.mem_cons_self)
  · rw [List.splitOn_eq_singleton, shownTexts, List.map_singleton, trim_append_space space]
    · rfl
    · rw [List.mem_append, List.mem_singleton, not_or]
      refine ⟨?_, fun same => feed same.symm⟩
      exact not_mem_of_mem_splitOn (shape ▸ List.mem_append_right _ List.mem_cons_self)

/-- **A trimmed text shows what the text shows.** -/
theorem shownTexts_trim (t : Text) :
    shownTexts (Text.lines (Text.trim t)) = shownTexts (Text.lines t) := by
  have start : shownTexts (Text.lines (Text.trimStart t)) = shownTexts (Text.lines t) := by
    induction t with
    | nil => rfl
    | cons u t ih =>
      rw [Text.trimStart, List.dropWhile_cons]
      split
      · rename_i space
        rw [shownTexts_cons_space space]
        exact ih
      · rfl
  rw [← start, Text.trim]
  induction Text.trimStart t using List.reverseRecOn with
  | nil => rfl
  | append_singleton t u ih =>
    by_cases space : Text.isSpace u = true
    · rw [Text.trimEnd, List.rdropWhile_concat_pos _ _ _ space, shownTexts_append_space space]
      exact ih
    · rw [Text.trimEnd, List.rdropWhile_concat_neg _ _ _ space]

/-- Joined lines show what the lines show. -/
theorem shownTexts_joinLines {lines : List Text} (single : ∀ line ∈ lines, Text.newline ∉ line) :
    shownTexts (Text.lines (Text.joinLines lines)) = shownTexts lines := by
  by_cases none : lines = []
  · rw [none]
    rfl
  · rw [Text.lines_joinLines single none]

/-! ## Descriptions -/

/-- What the lines under `## Description` say. -/
def describedTexts (body : List Text) : List Text :=
  shownTexts ((sectionLines body descriptionPattern).getD [])

/-- The lines of a section are lines of the body. -/
theorem mem_of_mem_sectionLines {body found : List Text} {title : Pattern CodeUnit} {line : Text}
    (read : sectionLines body title = some found) (member : line ∈ found) : line ∈ body := by
  rw [sectionLines] at read
  split at read
  · cases read
  · rename_i first rest shape
    cases read
    have inside : line ∈ first :: rest :=
      List.mem_cons_of_mem _ ((List.takeWhile_prefix _).subset member)
    rw [← shape] at inside
    exact (List.dropWhile_suffix _).subset inside

/-- **What the description of a body says** is what the description that is read shows. -/
theorem shownTexts_description {body : List Text} (single : ∀ line ∈ body, Text.newline ∉ line)
    (path : Text) (id : Option Text) :
    shownTexts (Text.lines (bodyIssues path id body).description) = describedTexts body := by
  rw [bodyIssues, shownTexts_trim, describedTexts]
  refine shownTexts_joinLines fun line member => ?_
  cases read : sectionLines body descriptionPattern with
  | none =>
    rw [read] at member
    cases member
  | some found =>
    rw [read] at member
    exact single line (mem_of_mem_sectionLines read member)

/-- A description that is written says what it shows. -/
theorem describedTexts_emitted {feature : Feature} {description : Text}
    (describes : Describes description) :
    describedTexts (emittedBody feature description) = shownTexts (Text.lines description) := by
  rw [describedTexts, sectionLines_description describes, Option.getD_some, shownTexts_append,
    describedLines]
  split
  · rename_i none
    rw [none]
    rfl
  · exact List.append_nil _

/-! ## Criteria -/

/-- What a line of the criteria says. -/
inductive CriterionText where
  | heading (id titre : Text)
  | step (read : Step)
deriving DecidableEq

/-- What a line of the criteria says, if it is one. -/
def lineText (line : Text) : Option CriterionText :=
  match headingRegex.exec line with
  | some captures =>
    match criterionHeadingRegex.exec (captures.headD []) with
    | some [id, titre] => some (.heading id titre)
    | _ => none
  | none => (parseStep line).map .step

/-- What a criterion says: its heading, then its steps. -/
def Criterion.texts (criterion : Criterion) : List CriterionText :=
  .heading criterion.id criterion.titre :: criterion.etapes.map .step

/-- What the lines under `## Critères d'acceptation` say. -/
def criteriaTexts (body : List Text) : List (Option CriterionText) :=
  (((sectionLines body criteriaPattern).getD []).filter (Text.trim · ≠ [])).map lineText

/-- One more error is an error. -/
theorem addError_errors_ne (state : CriteriaState) (pointer message : Text) :
    (state.addError pointer message).errors ≠ state.errors := by
  intro same
  have longer := congrArg List.length same
  rw [CriteriaState.addError, List.length_append] at longer
  exact absurd longer (Nat.succ_ne_self _)

/-- A heading that raises no error opens the criterion that it says. -/
theorem openCriterion_texts {state : CriteriaState} {title : Text}
    (fine : (openCriterion state title).errors = state.errors) :
    ∃ id titre, criterionHeadingRegex.exec title = some [id, titre] ∧
      (openCriterion state title).criteria = state.criteria ++ [⟨id, titre, []⟩] := by
  rcases matched : criterionHeadingRegex.exec title with
    _ | _ | ⟨id, _ | ⟨titre, _ | ⟨other, rest⟩⟩⟩
  case some.cons.cons.nil =>
    refine ⟨id, titre, rfl, ?_⟩
    rw [openCriterion, matched]
  -- A heading without an identifier and a title is an error.
  all_goals
    rw [openCriterion, matched] at fine
    exact absurd fine (addError_errors_ne _ _ _)

/-- A step is said after what the criteria say. -/
theorem addStep_texts {criteria : List Criterion} (some : criteria ≠ []) (step : Step) :
    (addStep criteria step).flatMap Criterion.texts =
      criteria.flatMap Criterion.texts ++ [.step step] := by
  obtain ⟨before, current, shape⟩ := (List.eq_nil_or_concat criteria).resolve_left some
  rw [List.concat_eq_append] at shape
  rw [addStep, shape, List.getLast?_concat]
  simp only [List.dropLast_concat, List.flatMap_append, List.flatMap_singleton, Criterion.texts,
    List.map_append, List.map_singleton, List.append_assoc, List.cons_append]

/-- **A line that raises no error** adds what it says. -/
theorem parseLine_texts {state : CriteriaState} {line : Text}
    (fine : (parseLine state line).errors = state.errors) :
    ((parseLine state line).criteria.flatMap Criterion.texts).map some =
      (state.criteria.flatMap Criterion.texts).map some ++ [lineText line] := by
  rw [parseLine] at fine ⊢
  rw [lineText]
  cases matched : headingRegex.exec line with
  | some captures =>
    rw [matched] at fine
    obtain ⟨id, titre, heading, opened⟩ := openCriterion_texts fine
    dsimp only
    rw [opened, heading, List.flatMap_append, List.map_append]
    rfl
  | none =>
    rw [matched] at fine
    dsimp only at fine ⊢
    split at fine
    · exact absurd fine (addError_errors_ne _ _ _)
    · rename_i given
      rw [if_neg given]
      cases read : parseStep line with
      | some step =>
        dsimp only
        rw [addStep_texts given, List.map_append]
        rfl
      | none =>
        rw [read] at fine
        exact absurd fine (addError_errors_ne _ _ _)

/-- **Lines that raise no error** are said by their criteria, in their order. -/
theorem foldl_texts {lines : List Text} {state : CriteriaState}
    (fine : (lines.foldl parseLine state).errors = state.errors) :
    ((lines.foldl parseLine state).criteria.flatMap Criterion.texts).map some =
      (state.criteria.flatMap Criterion.texts).map some ++ lines.map lineText := by
  induction lines generalizing state with
  | nil => exact (List.append_nil _).symm
  | cons line lines ih =>
    have first := errors_prefix_parseLine state line
    have rest := errors_prefix_foldl lines (parseLine state line)
    rw [List.foldl_cons] at fine ⊢
    rw [fine] at rest
    have here : (parseLine state line).errors = state.errors :=
      (first.eq_of_length_le rest.length_le).symm
    rw [ih (fine.trans here.symm), parseLine_texts here, List.map_cons, List.append_assoc]
    rfl

theorem parseCriteria_texts {lines : List Text} (fine : (parseCriteria lines).errors = []) :
    ((parseCriteria lines).criteria.flatMap Criterion.texts).map some =
      (lines.filter (Text.trim · ≠ [])).map lineText :=
  foldl_texts fine

/-- **What the criteria of a body say** is what the criteria that are read hold. -/
theorem criteriaTexts_read {body : List Text} {path : Text} {id : Option Text}
    (fine : (bodyIssues path id body).issues = []) :
    ((bodyIssues path id body).criteres.flatMap Criterion.texts).map some = criteriaTexts body := by
  rw [bodyIssues, List.append_eq_nil_iff, List.map_eq_nil_iff] at fine
  exact parseCriteria_texts fine.2

/-- Criteria that are written say what they hold. -/
theorem criteriaTexts_emitted {feature : Feature} {description : Text}
    (describes : Describes description) (writable : ∀ c ∈ feature.criteres, c.Writable)
    (plain : ∀ c ∈ feature.criteres, c.Plain)
    (distinct : (feature.criteres.map Criterion.id).Nodup) :
    criteriaTexts (emittedBody feature description) =
      (feature.criteres.flatMap Criterion.texts).map some := by
  obtain ⟨criteria, errors⟩ := parseCriteria_emitted writable plain distinct
  rw [criteriaTexts, sectionLines_criteria describes, Option.getD_some,
    ← parseCriteria_texts errors, criteria]

/-! ## Criteria that are read -/

/-- What an expression captures last is matched by the dot. -/
def EndsPlain (r : Regex CodeUnit) : Prop :=
  ∀ s, ∀ o ∈ outcomes r s, ∃ run, o.1.getLast? = some run ∧ ∀ u ∈ run, anyUnit u = true

theorem EndsPlain.seq {q : Regex CodeUnit} (ends : EndsPlain q) (p : Regex CodeUnit) :
    EndsPlain (.seq p q) := by
  intro s o member
  obtain ⟨first, -, second, later, rfl⟩ := mem_outcomes_seq.mp member
  obtain ⟨run, last, plain⟩ := ends first.2 second later
  refine ⟨run, ?_, plain⟩
  rw [List.getLast?_append, last]
  rfl

theorem endsPlain_lazy (least : ℕ) (test : CodeUnit → Bool) :
    EndsPlain (.seq (.capture (.lazy least anyUnit)) (.greedy 0 test)) := by
  intro s o member
  obtain ⟨first, captured, second, later, rfl⟩ := mem_outcomes_seq.mp member
  obtain ⟨run, taken, -, -, plain⟩ := mem_outcomes_capture_lazy.mp captured
  obtain ⟨none, -⟩ := mem_outcomes_greedy.mp later
  refine ⟨run, ?_, plain⟩
  rw [taken, none]
  rfl

theorem endsPlain_greedy (least : ℕ) : EndsPlain (.capture (.greedy least anyUnit)) := by
  intro s o member
  obtain ⟨inner, taken, rfl⟩ := mem_outcomes_capture.mp member
  obtain ⟨none, run, split, -, plain⟩ := mem_outcomes_greedy.mp taken
  refine ⟨run, ?_, plain⟩
  dsimp only
  rw [none, split, take_append_left]
  rfl

/-- The second capture of an expression that ends plain. -/
theorem EndsPlain.second {r : Regex CodeUnit} (ends : EndsPlain r) {s first second : Text}
    (matched : r.exec s = some [first, second]) : ∀ u ∈ second, anyUnit u = true := by
  obtain ⟨run, last, plain⟩ := ends s _ (mem_outcomes_of_exec matched)
  obtain rfl : second = run := Option.some.inj last
  exact plain

theorem endsPlain_stepRegex : EndsPlain stepRegex :=
  ((((((endsPlain_lazy 1 Text.isSpace).seq _).seq _).seq _).seq _).seq _).seq _

theorem endsPlain_criterionHeadingRegex : EndsPlain criterionHeadingRegex :=
  ((((endsPlain_greedy 1).seq _).seq _).seq _).seq _

/-- A step that is read has no line terminator. -/
theorem plain_parseStep {line : Text} {step : Step} (read : parseStep line = some step) :
    ∀ u ∈ step.texte, anyUnit u = true := by
  rw [parseStep] at read
  split at read
  · rename_i label texte matched
    obtain ⟨type, -, rfl⟩ := Option.map_eq_some_iff.mp read
    exact endsPlain_stepRegex.second matched
  · cases read

theorem plain_heading {line id titre : Text} (tells : lineText line = some (.heading id titre)) :
    ∀ u ∈ titre, anyUnit u = true := by
  rw [lineText] at tells
  split at tells
  · split at tells
    · rename_i matched
      cases tells
      exact endsPlain_criterionHeadingRegex.second matched
    · cases tells
  · obtain ⟨step, -, other⟩ := Option.map_eq_some_iff.mp tells
    cases other

theorem plain_step {line : Text} {step : Step} (tells : lineText line = some (.step step)) :
    ∀ u ∈ step.texte, anyUnit u = true := by
  rw [lineText] at tells
  split at tells
  · split at tells
    · cases tells
    · cases tells
  · obtain ⟨read, parsed, same⟩ := Option.map_eq_some_iff.mp tells
    cases same
    exact plain_parseStep parsed

/-- **Criteria that are read are plain.** -/
theorem plain_of_texts {criteria : List Criterion} {lines : List Text}
    (same : (criteria.flatMap Criterion.texts).map some = lines.map lineText) :
    ∀ c ∈ criteria, c.Plain := by
  intro c member
  have said : ∀ text ∈ c.texts, ∃ line, lineText line = some text := by
    intro text inside
    have listed : some text ∈ lines.map lineText := by
      rw [← same]
      exact List.mem_map_of_mem (List.mem_flatMap.mpr ⟨c, member, inside⟩)
    obtain ⟨line, -, tells⟩ := List.mem_map.mp listed
    exact ⟨line, tells⟩
  constructor
  · obtain ⟨line, tells⟩ := said _ List.mem_cons_self
    exact plain_heading tells
  · intro step listed
    obtain ⟨line, tells⟩ := said _ (List.mem_cons_of_mem _ (List.mem_map_of_mem listed))
    exact plain_step tells

/-! ## Files that are read -/

section Files

variable {message : Defect → Text} {yaml : YamlPackage} {path content : Text} {feature : Feature}
  {parts : FrontMatterParts}

theorem newline_not_mem_splitLines (t : Text) : ∀ line ∈ splitLines t, Text.newline ∉ line := by
  intro line member
  rw [splitLines] at member
  rcases List.mem_append.mp member with early | last
  · obtain ⟨piece, known, rfl⟩ := List.mem_map.mp early
    have fresh : Text.newline ∉ piece := not_mem_of_mem_splitOn (List.mem_of_mem_dropLast known)
    rw [dropReturn]
    split
    · exact fun inside => fresh (List.mem_of_mem_dropLast inside)
    · exact fresh
  · exact not_mem_of_mem_splitOn (List.mem_of_getLast? (Option.mem_toList.mp last))

/-- The lines of a body hold no line feed. -/
theorem newline_not_mem_body (split : splitFrontMatter content = some parts) :
    ∀ line ∈ parts.body, Text.newline ∉ line := by
  intro line member
  rw [splitFrontMatter] at split
  split at split
  · cases split
  · rename_i first rest shape
    split at split
    · split at split
      · cases split
      · rename_i fence body closed
        cases split
        have inside : line ∈ rest := by
          have later : line ∈ fence :: body := List.mem_cons_of_mem _ member
          rw [← closed] at later
          exact (List.dropWhile_suffix _).subset later
        have listed := List.mem_cons_of_mem first inside
        rw [← shape] at listed
        exact newline_not_mem_splitLines _ line listed
    · cases split

/-- The description of an accepted feature is the text of its field. -/
theorem featureSchema_description {fields : List (Text × Data)}
    (accepted : featureSchema message (some (.record fields)) = .ok feature) :
    OrderedMap.get fields (Text.lit "description") = some (.text feature.description) := by
  obtain ⟨_, same, read⟩ := strictRecord_eq_ok accepted
  cases same
  obtain ⟨_, _, made, -, rfl⟩ := Decoded.ap_eq_ok.mp read
  obtain ⟨_, text, begun, described, rfl⟩ := Decoded.ap_eq_ok.mp made
  simp only [Decoded.ap_eq_ok] at begun
  obtain ⟨_, _, ⟨_, _, ⟨_, _, ⟨_, _, ⟨_, _, ⟨_, _, ⟨_, _, ⟨_, _, ⟨_, _, ⟨_, _, start, _, rfl⟩, _,
    rfl⟩, _, rfl⟩, _, rfl⟩, _, rfl⟩, _, rfl⟩, _, rfl⟩, _, rfl⟩, _, rfl⟩, _, rfl⟩ := begun
  cases start
  exact textWith_eq_ok message (Decoded.under_eq_ok.mp described)

/-- A file that is read has the two sections. -/
theorem sections_of_parse (split : splitFrontMatter content = some parts)
    (read : parseFeatureMarkdown message yaml path content = .ok feature) :
    (∃ found, sectionLines parts.body descriptionPattern = some found) ∧
      ∃ found, sectionLines parts.body criteriaPattern = some found := by
  obtain ⟨data, -, fine, -⟩ := (parseFeatureMarkdown_eq_ok (small_of_parse read) split).mp read
  rw [bodyIssues, List.append_eq_nil_iff, List.append_eq_nil_iff] at fine
  obtain ⟨⟨described, listed⟩, -⟩ := fine
  constructor
  · cases found : sectionLines parts.body descriptionPattern with
    | some lines => exact ⟨lines, rfl⟩
    | none =>
      rw [found, Option.isNone_none, if_pos rfl] at described
      cases described
  · cases found : sectionLines parts.body criteriaPattern with
    | some lines => exact ⟨lines, rfl⟩
    | none =>
      rw [found, Option.isNone_none, if_pos rfl] at listed
      cases listed

/-- **What a file that is read says**: its description and its criteria, in their order. -/
theorem texts_of_parse (split : splitFrontMatter content = some parts)
    (read : parseFeatureMarkdown message yaml path content = .ok feature) :
    shownTexts (Text.lines feature.description) = describedTexts parts.body ∧
      (feature.criteres.flatMap Criterion.texts).map some = criteriaTexts parts.body := by
  obtain ⟨data, -, fine, accepted⟩ :=
    (parseFeatureMarkdown_eq_ok (small_of_parse read) split).mp read
  have described := featureSchema_description accepted
  rw [withBody, OrderedMap.get_set_of_ne _ (by decide), OrderedMap.get_set_self] at described
  have listed := featureSchema_criteres (OrderedMap.get_set_self _ _ _) accepted
  rw [← Data.text.inj (Option.some.inj described), listed]
  have single : ∀ line ∈ parts.body, Text.newline ∉ line := newline_not_mem_body split
  exact ⟨shownTexts_description single path _, criteriaTexts_read fine⟩

end Files

end Koklo.Schema
