import Koklo.Schema.CriteriaLines
import Koklo.Schema.Emittable
import Koklo.Schema.FrontMatter

/-!
# Taking an emitted file apart

The lines of an emitted file are the fences, the front matter and the body
(`lines_emitted`). The parser finds the front matter (`splitFrontMatter_emitted`), the
description and the lines of the criteria (`sectionLines_description`,
`sectionLines_criteria`): no line of a description opens a section, and neither do the
lines of the criteria.
-/

set_option autoImplicit false

namespace Koklo.Schema

open Koklo.Foundations

/-! ## Sections -/

/-- A line opens a section when white space follows two hash signs. -/
theorem isSection_iff {line : Text} :
    isSection line = true ↔ ∃ u rest, line = 0x23 :: 0x23 :: u :: rest ∧ Text.isSpace u = true := by
  rw [isSection, Regex.startsWith_iff]
  constructor
  · rintro ⟨o, member⟩
    obtain ⟨first, mark, second, space, -⟩ := Regex.mem_outcomes_seq.mp member
    obtain ⟨-, split⟩ := Regex.mem_outcomes_text.mp mark
    obtain ⟨-, u, blank, rest⟩ := Regex.mem_outcomes_unit.mp space
    refine ⟨u, second.2, ?_, blank⟩
    rw [split, rest]
    rfl
  · rintro ⟨u, rest, rfl, blank⟩
    refine ⟨([], rest), Regex.mem_outcomes_seq.mpr ⟨([], u :: rest), ?_, ([], rest), ?_, rfl⟩⟩
    · exact Regex.mem_outcomes_text.mpr ⟨rfl, rfl⟩
    · exact Regex.mem_outcomes_unit.mpr ⟨rfl, u, blank, rfl⟩

theorem isSection_nil : isSection [] = false := by decide

theorem isSection_headingLine (criterion : Criterion) : isSection (headingLine criterion) = false := by
  rw [Bool.eq_false_iff]
  intro opens
  obtain ⟨u, rest, shape, blank⟩ := isSection_iff.mp opens
  have third : u = 0x23 := (List.cons.inj (List.cons.inj (List.cons.inj shape).2).2).1.symm
  rw [third] at blank
  cases blank

theorem isSection_stepLine (step : Step) : isSection (stepLine step) = false := by
  rw [Bool.eq_false_iff]
  intro opens
  obtain ⟨u, rest, shape, -⟩ := isSection_iff.mp opens
  cases (List.cons.inj shape).1

theorem isSection_criterionLines {criterion : Criterion} {line : Text}
    (member : line ∈ criterionLines criterion) : isSection line = false := by
  rcases List.mem_cons.mp member with rfl | rest
  · exact isSection_nil
  · rcases List.mem_cons.mp rest with rfl | steps
    · exact isSection_headingLine criterion
    · obtain ⟨step, -, rfl⟩ := List.mem_map.mp steps
      exact isSection_stepLine step

/-- The lines of a section reach to the next section. -/
theorem sectionLines_eq {before found after : List Text} {line : Text} {title : Pattern CodeUnit}
    (skipped : ∀ l ∈ before, (isSection l && title.accepts (Text.trim (l.drop 2))) = false)
    (opens : (isSection line && title.accepts (Text.trim (line.drop 2))) = true)
    (inside : ∀ l ∈ found, isSection l = false) (stop : ∀ l ∈ after.head?, isSection l = true) :
    sectionLines (before ++ line :: (found ++ after)) title = some found := by
  have start : (before ++ line :: (found ++ after)).dropWhile
      (fun l => !(isSection l && title.accepts (Text.trim (l.drop 2)))) =
        line :: (found ++ after) := by
    rw [List.dropWhile_append_of_pos fun l member => by rw [skipped l member]; rfl,
      List.dropWhile_cons_of_neg]
    rw [opens]
    exact Bool.false_ne_true
  have stops : after.takeWhile (!isSection ·) = [] := by
    cases after with
    | nil => rfl
    | cons l after =>
      rw [List.takeWhile_cons_of_neg]
      rw [stop l rfl]
      exact Bool.false_ne_true
  rw [sectionLines, start]
  simp only
  rw [List.takeWhile_append_of_pos fun l member => by rw [inside l member]; rfl, stops,
    List.append_nil]

/-! ## The lines of the file -/

/-- The lines of a description that is not empty. -/
def describedLines (description : Text) : List Text :=
  if description = [] then [] else Text.lines description

/-- The body of an emitted file. -/
def emittedBody (feature : Feature) (description : Text) : List Text :=
  [[], Text.lit "## " ++ descriptionTitle] ++ describedLines description ++
    [[], Text.lit "## " ++ criteriaTitle] ++ feature.criteres.flatMap criterionLines ++ [[]]

theorem flatMap_lines {ls : List Text} (single : ∀ l ∈ ls, Text.newline ∉ l) :
    ls.flatMap Text.lines = ls := by
  rw [List.flatMap_congr fun l member => Text.lines_of_not_mem (single l member),
    List.flatMap_singleton']

/-- Without carriage return, the file is cut at the line feeds. -/
theorem splitLines_eq {t : Text} (none : 0x0D ∉ t) : splitLines t = Text.lines t := by
  have kept : (Text.lines t).dropLast.map dropReturn = (Text.lines t).dropLast := by
    refine (List.map_congr_left fun piece member => ?_).trans (List.map_id _)
    have line := List.mem_of_mem_dropLast member
    refine if_neg fun ends => none (Text.mem_of_mem_lines line (List.mem_of_getLast? ends))
  have whole : (Text.lines t).dropLast ++ (Text.lines t).getLast?.toList = Text.lines t := by
    cases last : (Text.lines t).getLast? with
    | none =>
      rw [List.getLast?_eq_none_iff.mp last]
      rfl
    | some piece => exact List.dropLast_append_getLast? piece last
  simp only [splitLines, kept, whole]

/-- A line that opens with a letter is no fence. -/
theorem isFence_of_letter {l : Text} (letter : l.head?.any isLetter = true) : isFence l = false := by
  rw [isFence, decide_eq_false_iff_not]
  intro fence
  obtain ⟨rest, split⟩ := List.rdropWhile_prefix Text.isSpace l
  rw [show l.rdropWhile Text.isSpace = Text.lit "---" from fence] at split
  rw [← split] at letter
  cases letter

section File

variable {yaml : YamlPackage} {feature : Feature}

theorem Feature.Emittable.titreLine (emittable : feature.Emittable) : OneLine feature.titre :=
  ⟨emittable.titre.noNewline, emittable.titre.noReturn⟩

/-- What the emitter accepts can be written line by line. -/
theorem Feature.Emittable.writable (emittable : feature.Emittable) {criterion : Criterion}
    (member : criterion ∈ feature.criteres) : criterion.Writable := by
  have valid := emittable.valid.criteres criterion member
  refine ⟨valid.id, ⟨valid.titre, (emittable.titres criterion member).kept⟩, ?_⟩
  intro step listed
  exact ⟨valid.etapes step listed, (emittable.etapes criterion member step listed).kept⟩

theorem SingleLine.oneLine {t : Text} (single : SingleLine t) : OneLine t :=
  ⟨single.noNewline, single.noReturn⟩

theorem oneLine_digits {ds : Text} (numeric : ∀ u ∈ ds, Text.isDigit u = true) : OneLine ds := by
  constructor
  · intro member
    cases numeric _ member
  · intro member
    cases numeric _ member

theorem oneLine_label (type : StepType) : OneLine type.label := by
  cases type <;> decide

theorem criterionLines_oneLine (emittable : feature.Emittable) {criterion : Criterion}
    (member : criterion ∈ feature.criteres) : ∀ line ∈ criterionLines criterion, OneLine line := by
  obtain ⟨ds, shape, -, numeric⟩ := criterion_id_units (emittable.writable member).id
  have id : OneLine criterion.id := by
    rw [shape]
    exact OneLine.append (by decide) (oneLine_digits numeric)
  have titre := (emittable.titres criterion member).single.oneLine
  have heading : OneLine (headingLine criterion) :=
    ((OneLine.append (by decide) id).append (by decide)).append titre
  intro line inside
  rcases List.mem_cons.mp inside with rfl | rest
  · decide
  · rcases List.mem_cons.mp rest with rfl | steps
    · exact heading
    · obtain ⟨step, listed, rfl⟩ := List.mem_map.mp steps
      have texte := (emittable.etapes criterion member step listed).single.oneLine
      exact ((OneLine.append (by decide) (oneLine_label step.type)).append (by decide)).append texte

/-- The pieces that the emitter writes, and the empty line at the end. -/
theorem emittedPieces_eq (description : Text) : emittedPieces yaml feature description ++ [[]] =
    (Text.lit "---" :: frontLines yaml feature) ++
      [Text.lit "---", [], Text.lit "## " ++ descriptionTitle] ++
        (if description = [] then [] else [description]) ++
          [[], Text.lit "## " ++ criteriaTitle] ++ feature.criteres.flatMap criterionLines ++ [[]] := rfl

theorem described_flatMap (description : Text) :
    (if description = [] then [] else [description]).flatMap Text.lines =
      describedLines description := by
  unfold describedLines
  by_cases none : description = []
  · rw [if_pos none, if_pos none]
    rfl
  · rw [if_neg none, if_neg none, List.flatMap_singleton]

variable (laws : yaml.Laws) (emittable : feature.Emittable)

include laws emittable

/-- **The lines of an emitted file.** -/
theorem lines_emitted (description : Text) :
    Text.lines (Text.joinLines (emittedPieces yaml feature description) ++ [Text.newline]) =
      Text.lit "---" :: (frontLines yaml feature ++
        Text.lit "---" :: emittedBody feature description) := by
  have front : ∀ l ∈ Text.lit "---" :: frontLines yaml feature, Text.newline ∉ l := by
    refine List.forall_mem_cons.mpr ⟨by decide, fun l member => ?_⟩
    exact (frontLines_oneLine laws emittable.valid emittable.titreLine member).1.1
  have criteria : ∀ l ∈ feature.criteres.flatMap criterionLines, Text.newline ∉ l := by
    intro l member
    obtain ⟨criterion, listed, inside⟩ := List.mem_flatMap.mp member
    exact (criterionLines_oneLine emittable listed l inside).1
  have some : emittedPieces yaml feature description ≠ [] := List.cons_ne_nil _ _
  have ended : Text.joinLines (emittedPieces yaml feature description) ++ [Text.newline] =
      Text.joinLines (emittedPieces yaml feature description ++ [[]]) :=
    (Text.joinLines_append some (List.cons_ne_nil [] [])).symm
  rw [ended, Text.lines_joinLines_flatMap (List.append_ne_nil_of_left_ne_nil some _), emittedPieces_eq,
    List.flatMap_append, List.flatMap_append, List.flatMap_append, List.flatMap_append,
    List.flatMap_append, described_flatMap, flatMap_lines front, flatMap_lines criteria,
    flatMap_lines (by decide), flatMap_lines (by decide), flatMap_lines (by decide), emittedBody]
  simp only [List.append_assoc, List.cons_append, List.nil_append]

/-- The emitted file holds no carriage return. -/
theorem return_not_mem_emitted {description : Text} (none : 0x0D ∉ description) : 0x0D ∉ Text.joinLines
    (emittedPieces yaml feature description) ++ [Text.newline] := by
  have described : ∀ l ∈ describedLines description, (0x0D : CodeUnit) ∉ l := by
    intro l member inside
    unfold describedLines at member
    split at member
    · cases member
    · exact none (Text.mem_of_mem_lines member inside)
  have body : ∀ l ∈ emittedBody feature description, (0x0D : CodeUnit) ∉ l := by
    intro l member
    simp only [emittedBody, List.mem_append] at member
    rcases member with (((opening | known) | heading) | criteria) | last
    · exact (show ∀ l ∈ [[], Text.lit "## " ++ descriptionTitle], (0x0D : CodeUnit) ∉ l by decide) l opening
    · exact described l known
    · exact (show ∀ l ∈ [[], Text.lit "## " ++ criteriaTitle], (0x0D : CodeUnit) ∉ l by decide) l heading
    · obtain ⟨criterion, listed, inside⟩ := List.mem_flatMap.mp criteria
      exact (criterionLines_oneLine emittable listed l inside).2
    · rw [List.mem_singleton.mp last]
      exact List.not_mem_nil
  have fence : (0x0D : CodeUnit) ∉ Text.lit "---" := by decide
  intro member
  rw [← Text.joinLines_lines (Text.joinLines _ ++ _), lines_emitted laws emittable] at member
  rcases Text.mem_intercalate member with newline | ⟨l, line, inside⟩
  · cases newline
  · rcases List.mem_cons.mp line with rfl | rest
    · exact fence inside
    · rcases List.mem_append.mp rest with front | more
      · exact (frontLines_oneLine laws emittable.valid emittable.titreLine front).1.2 inside
      · rcases List.mem_cons.mp more with rfl | known
        · exact fence inside
        · exact body l known inside

/-- **The front matter and the body are found.** -/
theorem splitFrontMatter_emitted {description : Text} (none : 0x0D ∉ description) :
    splitFrontMatter (Text.joinLines (emittedPieces yaml feature description) ++ [Text.newline]) =
      some ⟨Text.joinLines (frontLines yaml feature), emittedBody feature description⟩ := by
  have unmarked : (Text.joinLines (emittedPieces yaml feature description) ++
      [Text.newline]).head? ≠ some 0xFEFF := by
    rw [← Text.joinLines_lines (Text.joinLines _ ++ _), lines_emitted laws emittable,
      Text.joinLines_cons (List.append_ne_nil_of_right_ne_nil _ (List.cons_ne_nil _ _))]
    intro mark
    cases mark
  have fence : isFence (Text.lit "---") = true := by decide
  have front : ∀ l ∈ frontLines yaml feature, (!isFence l) = true := by
    intro l member
    obtain ⟨-, letter⟩ := frontLines_oneLine laws emittable.valid emittable.titreLine member
    rw [isFence_of_letter letter]
    rfl
  rw [splitFrontMatter, if_neg unmarked,
    splitLines_eq (return_not_mem_emitted laws emittable none), lines_emitted laws emittable]
  simp only [fence, if_true]
  rw [List.dropWhile_append_of_pos front, List.takeWhile_append_of_pos front,
    List.dropWhile_cons_of_neg (by rw [fence]; exact Bool.false_ne_true),
    List.takeWhile_cons_of_neg (by rw [fence]; exact Bool.false_ne_true), List.append_nil]

end File

/-! ## The sections of the body -/

/-- A trimmed description is read back. -/
theorem trim_describedLines {description : Text} (trimmed : Text.trim description = description) :
    Text.trim (Text.joinLines (describedLines description ++ [[]])) = description := by
  unfold describedLines
  by_cases none : description = []
  · rw [if_pos none, none]
    decide
  · rw [if_neg none]
    obtain ⟨start, last, shape, visible⟩ := Text.Trimmed.exists_last ⟨none, trimmed⟩
    have some : Text.lines description ≠ [] := List.splitOn_ne_nil _ _
    have joined : Text.joinLines (Text.lines description ++ [[]]) = description ++ [Text.newline] := by
      rw [Text.joinLines_append some (List.cons_ne_nil [] []), Text.joinLines_lines]
      rfl
    have opening : Text.trimStart (description ++ [Text.newline]) = description ++ [Text.newline] := by
      have kept := Text.trimStart_eq_self_iff.mp (Text.trim_eq_self_iff.mp trimmed).1
      refine Text.trimStart_eq_self_iff.mpr fun u head => kept u ?_
      rwa [List.head?_append_of_ne_nil _ none] at head
    rw [joined, Text.trim, opening, shape, List.append_assoc]
    exact Text.trimEnd_append_space visible fun v newline => by
      rw [List.mem_singleton.mp newline]
      decide

section Body

variable {feature : Feature} {description : Text} (describes : Describes description)

include describes

theorem isSection_describedLines : ∀ l ∈ describedLines description, isSection l = false := by
  intro l member
  unfold describedLines at member
  split at member
  · cases member
  · have plain := describes.noStructure l member
    simp only [isStructural, Bool.or_eq_false_iff] at plain
    exact plain.1.1

/-- **The description is found**, and a blank line after it. -/
theorem sectionLines_description : sectionLines (emittedBody feature description) descriptionPattern =
    some (describedLines description ++ [[]]) := by
  have shape : emittedBody feature description =
      [[]] ++ (Text.lit "## " ++ descriptionTitle) :: ((describedLines description ++ [[]]) ++
        (Text.lit "## " ++ criteriaTitle) :: (feature.criteres.flatMap criterionLines ++ [[]])) := by
    simp only [emittedBody, List.append_assoc, List.cons_append, List.nil_append]
  rw [shape]
  refine sectionLines_eq ?_ (by decide) ?_ ?_
  · intro l member
    rw [List.mem_singleton.mp member]
    decide
  · intro l member
    rcases List.mem_append.mp member with known | last
    · exact isSection_describedLines describes l known
    · rw [List.mem_singleton.mp last]
      exact isSection_nil
  · rintro l ⟨⟩
    decide

/-- **The lines of the criteria are found**, and a blank line after them. -/
theorem sectionLines_criteria : sectionLines (emittedBody feature description) criteriaPattern =
    some (feature.criteres.flatMap criterionLines ++ [[]]) := by
  have shape : emittedBody feature description =
      ([[], Text.lit "## " ++ descriptionTitle] ++ describedLines description ++ [[]]) ++
        (Text.lit "## " ++ criteriaTitle) ::
          ((feature.criteres.flatMap criterionLines ++ [[]]) ++ []) := by
    simp only [emittedBody, List.append_assoc, List.cons_append, List.nil_append, List.append_nil]
  rw [shape]
  refine sectionLines_eq ?_ (by decide) ?_ ?_
  · intro l member
    simp only [List.mem_append, List.mem_cons, List.not_mem_nil, or_false] at member
    rcases member with ((rfl | rfl) | known) | rfl
    · decide
    · decide
    · rw [isSection_describedLines describes l known, Bool.false_and]
    · decide
  · intro l member
    rcases List.mem_append.mp member with criteria | last
    · obtain ⟨criterion, -, inside⟩ := List.mem_flatMap.mp criteria
      exact isSection_criterionLines inside
    · rw [List.mem_singleton.mp last]
      exact isSection_nil
  · intro l none
    cases none

end Body

end Koklo.Schema
