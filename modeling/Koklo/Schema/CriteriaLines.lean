import Koklo.Schema.FeatureMarkdown

/-!
# Reading the criteria that the emitter writes

A heading or a step that the emitter writes is recognised, and gives back its texts, when
these hold no line terminator (`parseLine_heading`, `parseLine_step`). The dot of the
expressions does not match the line and paragraph separators, which the emitter lets
through: a line with one of them is an error (`parseLine_refused`). So the criteria are
read back exactly when none of their texts holds a line terminator
(`parseCriteria_emitted`, `plain_of_parseCriteria`).
-/

set_option autoImplicit false

namespace Koklo.Schema

open Koklo.Foundations
open Koklo.Foundations.Regex
open Koklo.Foundations.Text (Trimmed)

/-! ## Expressions at the end of a line -/

section Ends

variable {β : Type}

theorem anyUnit_of_isDigit {u : CodeUnit} (digit : Text.isDigit u = true) : anyUnit u = true := by
  by_contra terminator
  rw [anyUnit, Bool.not_eq_true', Bool.not_eq_false] at terminator
  simp only [Text.isLineTerminator, Bool.or_eq_true, beq_iff_eq] at terminator
  rcases terminator with ((rfl | rfl) | rfl) | rfl <;> cases digit

theorem one_space : ∀ u ∈ [(0x20 : CodeUnit)], Text.isSpace u = true := by
  intro u member
  rw [List.mem_singleton.mp member]
  decide

/-- Spaces before a visible unit are the first run of spaces. -/
theorem space_run {v : CodeUnit} {rest run tail : Text} (visible : Text.isSpace v = false)
    (same : [0x20] ++ v :: rest = run ++ tail) (some : 1 ≤ run.length)
    (all : ∀ u ∈ run, Text.isSpace u = true) : run = [0x20] ∧ tail = v :: rest := by
  match run, some with
  | [u], _ =>
    obtain ⟨head, rest⟩ := List.cons.inj same
    exact ⟨by rw [← head], rest.symm⟩
  | u :: w :: run, _ =>
    obtain ⟨-, next⟩ := List.cons.inj same
    have space := all w (List.mem_cons_of_mem _ List.mem_cons_self)
    rw [← (List.cons.inj next).1, visible] at space
    cases space

/-- No space is left after a visible unit at the end. -/
theorem no_space_left {start body tail : Text} {v : CodeUnit} (visible : Text.isSpace v = false)
    (same : start ++ [v] = body ++ tail) (all : ∀ u ∈ tail, Text.isSpace u = true) :
    tail = [] := by
  by_contra some
  obtain ⟨front, last, shape⟩ := (List.eq_nil_or_concat tail).resolve_left some
  rw [List.concat_eq_append] at shape
  rw [shape, ← List.append_assoc] at same
  have ends : v = last := by simpa using (List.append_inj_right' same rfl)
  have space := all last (by rw [shape]; simp)
  rw [← ends, visible] at space
  cases space

/-- **A lazy capture to the end of a line takes a trimmed text whole**, when its units
are all matched by the dot. -/
theorem preferred_toEnd {least : ℕ} {t : Text} (trimmed : Trimmed t) (enough : least ≤ t.length)
    (all : ∀ u ∈ t, anyUnit u = true) {accept : Outcome CodeUnit → Option β} {b : β}
    (whole : ∀ captures rest, rest ≠ [] → accept (captures, rest) = none)
    (accepted : accept ([t], []) = some b) :
    preferred (.seq (.capture (.lazy least anyUnit)) (.greedy 0 Text.isSpace)) t accept = some b := by
  obtain ⟨start, v, shape, visible⟩ := trimmed.exists_last
  have taken : t.takeWhile anyUnit = t := List.takeWhile_eq_self_iff.mpr all
  rw [preferred_seq, preferred_capture]
  refine @preferred_lazy _ _ _ _ _ least t.length _ _ enough (by rw [taken]) ?_ ?_
  · intro m _ before
    refine preferred_eq_none.mpr fun o member => whole _ _ fun nothing => ?_
    obtain ⟨-, run, split, -, spaces⟩ := mem_outcomes_greedy.mp member
    rw [nothing, List.append_nil] at split
    have last : v ∈ t.drop m := by
      have bound : m ≤ start.length := by
        rw [shape, List.length_append, List.length_singleton] at before
        omega
      rw [shape, List.drop_append_of_le_length bound]
      exact List.mem_append_right _ List.mem_cons_self
    have space := spaces v (split ▸ last)
    rw [visible] at space
    cases space
  · have stop : ∀ a ∈ ([] : Text).head?, Text.isSpace a = false := fun a none => by cases none
    have rest := @preferred_greedy _ _ _ [] (fun o' => accept
      ([t.take (t.length - (t.drop t.length).length)] ++ o'.1, o'.2)) 0 Text.isSpace [] b
      (fun a member => absurd member List.not_mem_nil) stop le_rfl (by simpa using accepted)
    simpa using rest

/-- What the dot matched to the end of a line has no line terminator. -/
theorem anyUnit_of_toEnd {least : ℕ} {t : Text} (trimmed : Trimmed t) {o : Outcome CodeUnit}
    (member : o ∈ outcomes (.seq (.capture (.lazy least anyUnit)) (.greedy 0 Text.isSpace)) t)
    (nothing : o.2 = []) : ∀ u ∈ t, anyUnit u = true := by
  obtain ⟨start, v, shape, visible⟩ := trimmed.exists_last
  obtain ⟨captured, first, blanks, second, same⟩ := mem_outcomes_seq.mp member
  obtain ⟨body, -, split, -, dots⟩ := mem_outcomes_capture_lazy.mp first
  obtain ⟨-, tail, rest, -, spaces⟩ := mem_outcomes_greedy.mp second
  have ends : blanks.2 = [] := by rw [← nothing, same]
  rw [ends, List.append_nil] at rest
  rw [rest] at split
  have none : tail = [] := no_space_left visible (shape ▸ split) spaces
  rw [none, List.append_nil] at split
  rw [split]
  exact dots

end Ends

/-! ## Headings -/

theorem headingRegex_emitted {body : Text} (trimmed : Trimmed body)
    (all : ∀ u ∈ body, anyUnit u = true) :
    headingRegex.exec (Text.lit "### " ++ body) = some [body] := by
  obtain ⟨v, rest, shape, visible⟩ := trimmed.exists_head
  have parts : Text.lit "### " ++ body = Text.lit "###" ++ ([0x20] ++ body) := rfl
  rw [parts, exec, headingRegex, preferred_seq, preferred_text, preferred_seq]
  refine preferred_greedy one_space ?_ le_rfl ?_
  · rw [shape]
    rintro a ⟨⟩
    exact visible
  · refine preferred_toEnd trimmed (Nat.zero_le _) all ?_ rfl
    intro captures rest some
    exact if_neg some

/-- A heading is matched by the dot, since nothing of its body is left out. -/
theorem anyUnit_of_headingRegex {body : Text} (trimmed : Trimmed body)
    (matched : (headingRegex.exec (Text.lit "### " ++ body)).isSome) :
    ∀ u ∈ body, anyUnit u = true := by
  obtain ⟨captures, found⟩ := Option.isSome_iff_exists.mp matched
  obtain ⟨v, rest, head, visible⟩ := trimmed.exists_head
  obtain ⟨start, last, shape, visible'⟩ := trimmed.exists_last
  obtain ⟨first, mark, second, later, done⟩ := mem_outcomes_seq.mp (mem_outcomes_of_exec found)
  obtain ⟨-, split⟩ := mem_outcomes_text.mp mark
  have parts : Text.lit "### " ++ body = Text.lit "###" ++ ([0x20] ++ body) := rfl
  rw [parts, List.append_cancel_left_eq] at split
  obtain ⟨blanks, spaces, tail, ending, through⟩ := mem_outcomes_seq.mp later
  obtain ⟨-, run, cut, some, all⟩ := mem_outcomes_greedy.mp spaces
  rw [← split, head] at cut
  obtain ⟨-, content⟩ := space_run visible cut some all
  rw [content, ← head] at ending
  have nothing : tail.2 = [] := by
    have left : second.2 = tail.2 := by rw [through]
    rw [← left, ← congrArg Prod.snd done]
  exact anyUnit_of_toEnd trimmed ending nothing

/-- A line of the emitter that is not a heading. -/
theorem headingRegex_step (step : Step) : headingRegex.exec (stepLine step) = none := by
  refine preferred_eq_none.mpr fun o member => ?_
  obtain ⟨first, mark, -⟩ := mem_outcomes_seq.mp member
  obtain ⟨-, split⟩ := mem_outcomes_text.mp mark
  cases (List.cons.inj split).1

/-! ## Headings of criteria -/

theorem take_append_left (s t : Text) : (s ++ t).take ((s ++ t).length - t.length) = s := by
  simp

theorem criterionHeadingRegex_emitted {id titre : Text} (matched : Patterns.criterion.Matches id)
    (trimmed : Trimmed titre) (all : ∀ u ∈ titre, anyUnit u = true) :
    criterionHeadingRegex.exec (id ++ Text.lit " — " ++ titre) = some [id, titre] := by
  obtain ⟨ds, rfl, digits⟩ := Pattern.matches_text_seq.mp matched
  obtain ⟨some, numeric⟩ := Pattern.matches_plus_unit.mp digits
  obtain ⟨v, rest, shape, visible⟩ := trimmed.exists_head
  have parts : Text.lit "AC-" ++ ds ++ Text.lit " — " ++ titre =
      Text.lit "AC-" ++ (ds ++ ([0x20] ++ 0x2014 :: ([0x20] ++ titre))) := by
    have dash : Text.lit " — " = [0x20] ++ [0x2014] ++ [0x20] := rfl
    rw [dash]
    simp only [List.append_assoc, List.cons_append, List.nil_append]
  rw [parts, exec, criterionHeadingRegex, preferred_seq, preferred_capture, preferred_seq,
    preferred_text]
  refine preferred_greedy numeric (by rintro a ⟨⟩; decide) (List.length_pos_iff.mpr some) ?_
  simp only
  rw [preferred_seq]
  refine preferred_greedy one_space (by rintro a ⟨⟩; decide) le_rfl ?_
  simp only
  rw [preferred_seq, preferred_unit (by decide), preferred_seq]
  refine preferred_greedy one_space ?_ le_rfl ?_
  · rw [shape]
    rintro a ⟨⟩
    exact visible
  simp only
  rw [preferred_capture]
  have taken : (Text.lit "AC-" ++ (ds ++ ([0x20] ++ 0x2014 :: ([0x20] ++ titre)))).take
      ((Text.lit "AC-" ++ (ds ++ ([0x20] ++ 0x2014 :: ([0x20] ++ titre)))).length -
        ([0x20] ++ 0x2014 :: ([0x20] ++ titre)).length) = Text.lit "AC-" ++ ds := by
    rw [← List.append_assoc]
    exact take_append_left _ _
  rw [taken]
  have whole : ∀ accept : Outcome CodeUnit → Option (List Text), ∀ b, accept ([], []) = Option.some b →
      preferred (.greedy 1 anyUnit) titre accept = Option.some b := by
    intro accept b accepted
    have end_ : ∀ a ∈ ([] : Text).head?, anyUnit a = false := fun a none => by cases none
    have rest := preferred_greedy all end_ (List.length_pos_iff.mpr trimmed.some) accepted
    rwa [List.append_nil] at rest
  refine whole _ _ ?_
  simp

/-! ## Steps -/

theorem star_not_mem_label (type : StepType) : (0x2A : CodeUnit) ∉ type.label := by
  cases type <;> decide

theorem anyUnit_of_mem_label (type : StepType) : ∀ u ∈ type.label, anyUnit u = true := by
  cases type <;> exact List.all_eq_true.mp (by decide)

theorem stepTypeByLabel_label (type : StepType) : stepTypeByLabel type.label = some type := by
  cases type <;> decide

theorem label_of_stepTypeByLabel {label : Text} {type : StepType}
    (found : stepTypeByLabel label = some type) : label = type.label := by
  have same := List.find?_some found
  exact (of_decide_eq_true same).symm

theorem stepLine_parts (step : Step) : stepLine step = 0x2D :: ([0x20] ++ (Text.lit "**" ++
    (step.type.label ++ (Text.lit "**" ++ ([0x20] ++ step.texte))))) := by
  have opening : Text.lit "- **" = 0x2D :: ([0x20] ++ Text.lit "**") := rfl
  have closing : Text.lit "** " = Text.lit "**" ++ [0x20] := rfl
  rw [stepLine, opening, closing]
  simp only [List.append_assoc, List.cons_append, List.nil_append]

theorem stepRegex_emitted {step : Step} (trimmed : Trimmed step.texte)
    (all : ∀ u ∈ step.texte, anyUnit u = true) :
    stepRegex.exec (stepLine step) = some [step.type.label, step.texte] := by
  obtain ⟨v, rest, shape, visible⟩ := trimmed.exists_head
  have labelled : step.type.label.length ≤ ((step.type.label ++
      (Text.lit "**" ++ ([0x20] ++ step.texte))).takeWhile anyUnit).length := by
    rw [List.takeWhile_append_of_pos (anyUnit_of_mem_label step.type), List.length_append]
    exact Nat.le_add_right _ _
  have some : 1 ≤ step.type.label.length := by cases step.type <;> decide
  rw [stepLine_parts, exec, stepRegex, preferred_seq, preferred_unit (by decide), preferred_seq]
  refine preferred_greedy one_space (by rintro a ⟨⟩; decide) le_rfl ?_
  simp only
  rw [preferred_seq, preferred_text, preferred_seq, preferred_capture]
  refine @preferred_lazy _ _ _ _ _ 1 step.type.label.length _ _ some labelled ?_ ?_
  · intro m _ before
    -- A shorter label is followed by a unit of the label, which is no star.
    refine preferred_eq_none.mpr fun o member => ?_
    obtain ⟨first, mark, -⟩ := mem_outcomes_seq.mp member
    obtain ⟨-, split⟩ := mem_outcomes_text.mp mark
    simp only at split
    rw [List.drop_append_of_le_length before.le] at split
    obtain ⟨u, tail, left⟩ := List.exists_cons_of_ne_nil
      (List.ne_nil_of_length_pos (by rw [List.length_drop]; omega) : step.type.label.drop m ≠ [])
    rw [left] at split
    have star : u = 0x2A := (List.cons.inj split).1
    have inside : u ∈ step.type.label := List.mem_of_mem_drop (left ▸ List.mem_cons_self)
    exact absurd (star ▸ inside) (star_not_mem_label step.type)
  · simp only
    rw [List.drop_left, preferred_seq, preferred_text, preferred_seq]
    refine preferred_greedy one_space ?_ le_rfl ?_
    · rw [shape]
      rintro a ⟨⟩
      exact visible
    simp only
    refine preferred_toEnd trimmed (List.length_pos_iff.mpr trimmed.some) all ?_ ?_
    · intro captures rest some
      exact if_neg some
    · simp

/-- The parts of a line that is matched as a step. -/
theorem stepRegex_parts {line : Text} {captures : List Text}
    (matched : stepRegex.exec line = some captures) :
    ∃ mark run name run' rest, line = mark :: (run ++ (Text.lit "**" ++ (name ++
        (Text.lit "**" ++ (run' ++ rest))))) ∧
      (1 ≤ run.length ∧ ∀ u ∈ run, Text.isSpace u = true) ∧
        (1 ≤ run'.length ∧ ∀ u ∈ run', Text.isSpace u = true) ∧ captures.head? = some name ∧
          ∃ o ∈ outcomes (.seq (.capture (.lazy 1 anyUnit)) (.greedy 0 Text.isSpace)) rest,
            o.2 = [] := by
  obtain ⟨dash, first, o₁, tail₁, same₁⟩ := mem_outcomes_seq.mp (mem_outcomes_of_exec matched)
  obtain ⟨none₁, mark, -, split₁⟩ := mem_outcomes_unit.mp first
  obtain ⟨blanks, second, o₂, tail₂, rfl⟩ := mem_outcomes_seq.mp tail₁
  obtain ⟨none₂, run, split₂, some₂, all₂⟩ := mem_outcomes_greedy.mp second
  obtain ⟨opening, third, o₃, tail₃, rfl⟩ := mem_outcomes_seq.mp tail₂
  obtain ⟨none₃, split₃⟩ := mem_outcomes_text.mp third
  obtain ⟨captured, fourth, o₄, tail₄, rfl⟩ := mem_outcomes_seq.mp tail₃
  obtain ⟨name, named, split₄, -, -⟩ := mem_outcomes_capture_lazy.mp fourth
  obtain ⟨closing, fifth, o₅, tail₅, rfl⟩ := mem_outcomes_seq.mp tail₄
  obtain ⟨-, split₅⟩ := mem_outcomes_text.mp fifth
  obtain ⟨blanks', sixth, o₆, tail₆, rfl⟩ := mem_outcomes_seq.mp tail₅
  obtain ⟨-, run', split₆, some₆, all₆⟩ := mem_outcomes_greedy.mp sixth
  obtain ⟨heads, ends⟩ := Prod.mk.inj same₁
  refine ⟨mark, run, name, run', blanks'.2, ?_, ⟨some₂, all₂⟩, ⟨some₆, all₆⟩, ?_, o₆, tail₆, ends.symm⟩
  · rw [split₁, split₂, split₃, split₄, split₅, split₆]
  · rw [heads, none₁, none₂, none₃, named]
    rfl

/-- **A step that is read back has no line terminator**: the label that the emitter writes
ends at its first star, so that what follows is the text. -/
theorem anyUnit_of_parseStep {step : Step} (trimmed : Trimmed step.texte)
    (read : (parseStep (stepLine step)).isSome) : ∀ u ∈ step.texte, anyUnit u = true := by
  obtain ⟨found, parsed⟩ := Option.isSome_iff_exists.mp read
  unfold parseStep at parsed
  split at parsed
  · rename_i label texte matched
    obtain ⟨type, known, -⟩ := Option.map_eq_some_iff.mp parsed
    obtain ⟨v, tail, shape, visible⟩ := trimmed.exists_head
    obtain ⟨mark, run, name, run', rest, split, ⟨some, all⟩, ⟨some', all'⟩, named, o, member, nothing⟩ :=
      stepRegex_parts matched
    have same : label = name := Option.some.inj named
    rw [← same, label_of_stepTypeByLabel known] at split
    rw [stepLine_parts] at split
    obtain ⟨-, spaced⟩ := List.cons.inj split
    have starred : Text.lit "**" ++ (type.label ++ (Text.lit "**" ++ (run' ++ rest))) =
        Text.lit "**" ++ (step.type.label ++ (Text.lit "**" ++ ([0x20] ++ step.texte))) :=
      (space_run (v := 0x2A) (by decide) spaced some all).2
    have labels : type.label ++ 0x2A :: 0x2A :: (run' ++ rest) =
        step.type.label ++ 0x2A :: 0x2A :: ([0x20] ++ step.texte) := List.append_cancel_left starred
    obtain ⟨-, after⟩ := Text.append_separator_inj (star_not_mem_label type)
      (star_not_mem_label step.type) labels
    have spaced' : [0x20] ++ v :: tail = run' ++ rest := by
      rw [← shape]
      exact (List.cons.inj after).2.symm
    obtain ⟨-, left⟩ := space_run visible spaced' some' all'
    rw [left, ← shape] at member
    exact anyUnit_of_toEnd trimmed member nothing
  · cases parsed

theorem parseStep_emitted {step : Step} (trimmed : Trimmed step.texte)
    (all : ∀ u ∈ step.texte, anyUnit u = true) : parseStep (stepLine step) = some step := by
  rw [parseStep, stepRegex_emitted trimmed all]
  simp only [stepTypeByLabel_label, Option.map_some]

/-- A heading is no step. -/
theorem parseStep_heading (body : Text) : parseStep (Text.lit "### " ++ body) = none := by
  have unmatched : stepRegex.exec (Text.lit "### " ++ body) = none := by
    refine preferred_eq_none.mpr fun o member => ?_
    obtain ⟨first, mark, -⟩ := mem_outcomes_seq.mp member
    obtain ⟨-, d, dash, split⟩ := mem_outcomes_unit.mp mark
    have hash : d = 0x23 := (List.cons.inj split).1.symm
    rw [hash] at dash
    cases dash
  rw [parseStep, unmatched]

/-! ## One line -/

/-- A criterion whose title and steps are trimmed, and has an identifier. -/
structure Criterion.Writable (criterion : Criterion) : Prop where
  id : Patterns.criterion.Matches criterion.id
  titre : Trimmed criterion.titre
  etapes : ∀ step ∈ criterion.etapes, Trimmed step.texte

/-- No text of the criterion holds a line terminator. -/
structure Criterion.Plain (criterion : Criterion) : Prop where
  titre : ∀ u ∈ criterion.titre, anyUnit u = true
  etapes : ∀ step ∈ criterion.etapes, ∀ u ∈ step.texte, anyUnit u = true

/-- What follows the mark of a heading. -/
def headingBody (criterion : Criterion) : Text :=
  criterion.id ++ Text.lit " — " ++ criterion.titre

theorem headingLine_eq (criterion : Criterion) :
    headingLine criterion = Text.lit "### " ++ headingBody criterion := by
  simp only [headingLine, headingBody, List.append_assoc]

/-- The shape of an identifier of a criterion. -/
theorem criterion_id_units {id : Text} (matched : Patterns.criterion.Matches id) :
    ∃ ds, id = Text.lit "AC-" ++ ds ∧ ds ≠ [] ∧ ∀ u ∈ ds, Text.isDigit u = true := by
  obtain ⟨ds, shape, digits⟩ := Pattern.matches_text_seq.mp matched
  exact ⟨ds, shape, Pattern.matches_plus_unit.mp digits⟩

theorem trimmed_headingBody {criterion : Criterion} (writable : criterion.Writable) :
    Trimmed (headingBody criterion) := by
  obtain ⟨ds, shape, -, -⟩ := criterion_id_units writable.id
  obtain ⟨start, last, ends, visible⟩ := writable.titre.exists_last
  have split : headingBody criterion =
      0x41 :: (Text.lit "C-" ++ ds ++ Text.lit " — " ++ start) ++ [last] := by
    rw [headingBody, shape, ends, ← List.append_assoc]
    rfl
  refine ⟨by rw [split]; exact List.append_ne_nil_of_right_ne_nil _ (List.cons_ne_nil _ _), ?_⟩
  refine Text.trim_eq_self_iff.mpr ⟨Text.trimStart_eq_self_iff.mpr ?_, Text.trimEnd_eq_self_iff.mpr ?_⟩
  · rw [split]
    rintro u ⟨⟩
    decide
  · rw [split, List.getLast?_concat]
    rintro u ⟨⟩
    exact visible

theorem anyUnit_headingBody {criterion : Criterion} (id : Patterns.criterion.Matches criterion.id)
    (all : ∀ u ∈ criterion.titre, anyUnit u = true) : ∀ u ∈ headingBody criterion, anyUnit u = true := by
  obtain ⟨ds, shape, -, numeric⟩ := criterion_id_units id
  have letters : (Text.lit "AC-").all anyUnit = true := by decide
  have dash : (Text.lit " — ").all anyUnit = true := by decide
  intro u member
  rw [headingBody, shape] at member
  rcases List.mem_append.mp member with front | title
  · rcases List.mem_append.mp front with name | between
    · rcases List.mem_append.mp name with letter | digit
      · exact List.all_eq_true.mp letters u letter
      · exact anyUnit_of_isDigit (numeric u digit)
    · exact List.all_eq_true.mp dash u between
  · exact all u title

/-- **A heading that the emitter writes opens its criterion.** -/
theorem parseLine_heading {criterion : Criterion} (writable : criterion.Writable)
    (all : ∀ u ∈ criterion.titre, anyUnit u = true) {state : CriteriaState}
    (fresh : criterion.id ∉ state.seen) :
    parseLine state (headingLine criterion) =
      ⟨state.criteria ++ [⟨criterion.id, criterion.titre, []⟩], state.seen ++ [criterion.id],
        state.errors⟩ := by
  have named : criterion.id ≠ [] := by
    obtain ⟨ds, shape, -, -⟩ := criterion_id_units writable.id
    rw [shape]
    exact List.append_ne_nil_of_left_ne_nil (List.cons_ne_nil _ _) _
  rw [parseLine, headingLine_eq, headingRegex_emitted (trimmed_headingBody writable)
    (anyUnit_headingBody writable.id all)]
  simp only [List.headD_cons, openCriterion, headingBody,
    criterionHeadingRegex_emitted writable.id writable.titre all, if_neg named, if_neg fresh]

/-- **A step that the emitter writes is added to the last criterion.** -/
theorem parseLine_step {step : Step} (trimmed : Trimmed step.texte)
    (all : ∀ u ∈ step.texte, anyUnit u = true) {state : CriteriaState} {before : List Criterion}
    {current : Criterion} (opened : state.criteria = before ++ [current]) :
    parseLine state (stepLine step) =
      { state with
        criteria := before ++ [{ current with etapes := current.etapes ++ [step] }] } := by
  have some : state.criteria ≠ [] := by
    rw [opened]
    exact List.append_ne_nil_of_right_ne_nil _ (List.cons_ne_nil _ _)
  rw [parseLine, headingRegex_step]
  simp only [if_neg some, parseStep_emitted trimmed all]
  rw [addStep, opened, List.getLast?_concat]
  simp only [List.dropLast_concat]

/-- A line that is neither a heading nor a step is an error. -/
theorem parseLine_refused {line : Text} (heading : headingRegex.exec line = none)
    (step : parseStep line = none) (state : CriteriaState) :
    ∃ error, (parseLine state line).errors = state.errors ++ [error] := by
  rw [parseLine, heading]
  by_cases none : state.criteria = []
  · simp only [if_pos none, CriteriaState.addError]
    exact ⟨_, rfl⟩
  · simp only [if_neg none, step, CriteriaState.addError]
    exact ⟨_, rfl⟩

/-- An error about an identifier is added after the others. -/
theorem errors_prefix_reported (state : CriteriaState) (id pointer unnamed repeated : Text) :
    state.errors <+: (if id = [] then state.addError pointer unnamed
      else if id ∈ state.seen then state.addError pointer repeated else state).errors := by
  by_cases nameless : id = []
  · rw [if_pos nameless]
    exact List.prefix_append _ _
  · rw [if_neg nameless]
    by_cases known : id ∈ state.seen
    · rw [if_pos known]
      exact List.prefix_append _ _
    · rw [if_neg known]

/-- A line removes no error. -/
theorem errors_prefix_parseLine (state : CriteriaState) (line : Text) :
    state.errors <+: (parseLine state line).errors := by
  unfold parseLine
  split
  · exact errors_prefix_reported state _ _ _ _
  · split
    · exact List.prefix_append _ _
    · split
      · exact List.prefix_rfl
      · exact List.prefix_append _ _

theorem errors_prefix_foldl (lines : List Text) (state : CriteriaState) :
    state.errors <+: (lines.foldl parseLine state).errors := by
  induction lines generalizing state with
  | nil => exact List.prefix_rfl
  | cons line lines ih => exact (errors_prefix_parseLine state line).trans (ih _)

/-- **A refused line among others leaves an error.** -/
theorem errors_ne_nil_of_refused {lines : List Text} {line : Text} (member : line ∈ lines)
    (heading : headingRegex.exec line = none) (step : parseStep line = none)
    (state : CriteriaState) : (lines.foldl parseLine state).errors ≠ [] := by
  obtain ⟨before, after, rfl⟩ := List.append_of_mem member
  rw [List.foldl_append, List.foldl_cons]
  obtain ⟨error, refused⟩ := parseLine_refused heading step (before.foldl parseLine state)
  intro none
  have kept := errors_prefix_foldl after (parseLine (before.foldl parseLine state) line)
  rw [none, refused, List.prefix_nil] at kept
  exact List.append_ne_nil_of_right_ne_nil _ (List.cons_ne_nil _ _) kept

/-! ## All criteria -/

/-- The visible lines of the criteria. -/
def visibleLines (criteria : List Criterion) : List Text :=
  criteria.flatMap fun criterion => headingLine criterion :: criterion.etapes.map stepLine

theorem visible_of_head {u : CodeUnit} {rest : Text} (visible : Text.isSpace u = false) :
    Text.trim (u :: rest) ≠ [] :=
  Text.trim_ne_nil_of_mem List.mem_cons_self visible

/-- Blank lines are skipped. -/
theorem filter_criterionLines (criteria : List Criterion) :
    (criteria.flatMap criterionLines ++ [[]]).filter (Text.trim · ≠ []) = visibleLines criteria := by
  have blank : Text.trim [] = [] := rfl
  rw [List.filter_append, List.filter_cons_of_neg (by simp [blank]), List.filter_nil, List.append_nil,
    List.filter_flatMap, visibleLines]
  refine List.flatMap_congr fun criterion _ => ?_
  have heading : Text.trim (headingLine criterion) ≠ [] := visible_of_head (by decide)
  have steps : ∀ line ∈ criterion.etapes.map stepLine, Text.trim line ≠ [] := by
    intro line member
    obtain ⟨step, -, rfl⟩ := List.mem_map.mp member
    exact visible_of_head (by decide)
  rw [criterionLines, List.filter_cons_of_neg (by simp [blank]),
    List.filter_cons_of_pos (by simpa using heading),
    List.filter_eq_self.mpr fun line member => by simpa using steps line member]

/-- The steps of a criterion are added one after the other. -/
theorem foldl_steps {steps : List Step} (trimmed : ∀ step ∈ steps, Trimmed step.texte)
    (all : ∀ step ∈ steps, ∀ u ∈ step.texte, anyUnit u = true) {state : CriteriaState}
    {before : List Criterion} {current : Criterion} (opened : state.criteria = before ++ [current]) :
    (steps.map stepLine).foldl parseLine state =
      { state with
        criteria := before ++ [{ current with etapes := current.etapes ++ steps }] } := by
  induction steps generalizing state current with
  | nil =>
    rw [List.map_nil, List.foldl_nil, List.append_nil, ← opened]
  | cons step steps ih =>
    rw [List.map_cons, List.foldl_cons, parseLine_step (trimmed step List.mem_cons_self)
      (all step List.mem_cons_self) opened]
    refine (ih (fun other member => trimmed other (List.mem_cons_of_mem _ member))
      (fun other member => all other (List.mem_cons_of_mem _ member)) rfl).trans ?_
    simp only [List.append_assoc, List.singleton_append]

theorem foldl_criteria {criteria : List Criterion} (writable : ∀ c ∈ criteria, c.Writable)
    (plain : ∀ c ∈ criteria, c.Plain) (distinct : (criteria.map Criterion.id).Nodup)
    {state : CriteriaState} (fresh : ∀ c ∈ criteria, c.id ∉ state.seen) :
    (visibleLines criteria).foldl parseLine state =
      ⟨state.criteria ++ criteria, state.seen ++ criteria.map Criterion.id, state.errors⟩ := by
  induction criteria generalizing state with
  | nil => simp [visibleLines]
  | cons criterion criteria ih =>
    obtain ⟨first, others⟩ := List.forall_mem_cons.mp writable
    obtain ⟨plainFirst, plainOthers⟩ := List.forall_mem_cons.mp plain
    obtain ⟨unseen, unseenOthers⟩ := List.forall_mem_cons.mp fresh
    obtain ⟨apart, distinctOthers⟩ := List.nodup_cons.mp distinct
    rw [visibleLines, List.flatMap_cons, List.cons_append, List.foldl_cons, List.foldl_append,
      parseLine_heading first plainFirst.titre unseen, foldl_steps first.etapes plainFirst.etapes rfl]
    refine (ih others plainOthers distinctOthers fun other member seen => ?_).trans ?_
    · rcases List.mem_append.mp seen with old | new
      · exact unseenOthers other member old
      · exact apart (List.mem_singleton.mp new ▸ List.mem_map_of_mem member)
    · simp only [List.append_assoc, List.singleton_append, List.nil_append, List.map_cons]

/-- **The criteria that the emitter writes are read back**, when none of their texts holds
a line terminator. -/
theorem parseCriteria_emitted {criteria : List Criterion} (writable : ∀ c ∈ criteria, c.Writable)
    (plain : ∀ c ∈ criteria, c.Plain) (distinct : (criteria.map Criterion.id).Nodup) :
    (parseCriteria (criteria.flatMap criterionLines ++ [[]])).criteria = criteria ∧
      (parseCriteria (criteria.flatMap criterionLines ++ [[]])).errors = [] := by
  rw [parseCriteria, filter_criterionLines,
    foldl_criteria writable plain distinct fun c _ => List.not_mem_nil]
  exact ⟨rfl, rfl⟩

/-- **Criteria that are read without error hold no line terminator.** -/
theorem plain_of_parseCriteria {criteria : List Criterion} (writable : ∀ c ∈ criteria, c.Writable)
    (read : (parseCriteria (criteria.flatMap criterionLines ++ [[]])).errors = []) :
    ∀ c ∈ criteria, c.Plain := by
  rw [parseCriteria, filter_criterionLines] at read
  intro criterion member
  have known := writable criterion member
  have inside : ∀ line ∈ headingLine criterion :: criterion.etapes.map stepLine,
      line ∈ visibleLines criteria := fun line inside => List.mem_flatMap.mpr ⟨_, member, inside⟩
  have accepted : ∀ line ∈ visibleLines criteria, headingRegex.exec line = none →
      parseStep line ≠ none := fun line among heading step =>
    errors_ne_nil_of_refused among heading step _ read
  constructor
  case titre =>
    have found : (headingRegex.exec (headingLine criterion)).isSome := by
      by_contra none
      refine accepted _ (inside _ List.mem_cons_self) (Option.not_isSome_iff_eq_none.mp none) ?_
      rw [headingLine_eq]
      exact parseStep_heading _
    rw [headingLine_eq] at found
    exact fun u title => anyUnit_of_headingRegex (trimmed_headingBody known) found u
      (List.mem_append_right _ title)
  case etapes =>
    intro step listed
    have line := inside _ (List.mem_cons_of_mem _ (List.mem_map_of_mem listed))
    exact anyUnit_of_parseStep (known.etapes step listed)
      (Option.isSome_iff_ne_none.mpr (accepted _ line (headingRegex_step step)))

end Koklo.Schema
