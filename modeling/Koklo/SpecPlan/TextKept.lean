import Koklo.Schema.SectionPlaces
import Koklo.Schema.SectionTexts
import Koklo.SpecPlan.CriteriaHistory

/-!
# What an update of a feature keeps

An update reads a file, patches the feature and writes the file again. What stands in the two
sections of the body is in the feature, and is written again unless the payload replaces it. What
stands elsewhere (before the first section, in a third one, in a section whose title is repeated) is
read by nobody, and is not written again. So an update loses no text exactly when the body has its
two sections only (`update_loses_no_text_iff`).
-/

set_option autoImplicit false

namespace Koklo.SpecPlan

open Foundations Schema

/-- Where a visible line of a body is found in the feature that is read. -/
inductive Accounted (body : List Text) (feature : Feature) (index : ℕ) (line : Text) : Prop where
  /-- One of the two titles. -/
  | title {pattern : Pattern CodeUnit} (known : pattern ∈ [descriptionPattern, criteriaPattern])
    (opens : Opens body pattern index)
  /-- A line of the description. -/
  | description (under : Under body descriptionPattern index)
    (shown : Text.trim line ∈ shownTexts (Text.lines feature.description))
  /-- A heading or a step of a criterion. -/
  | criterion (under : Under body criteriaPattern index) {text : CriterionText}
    (held : text ∈ feature.criteres.flatMap Criterion.texts) (told : lineText line = some text)

/-- Where a visible line of a body is found in the body that is written, unless its field is
replaced. -/
inductive Rewritten (body next : List Text) (payload : FeaturePayload) (index : ℕ) (line : Text) :
    Prop where
  | title {pattern : Pattern CodeUnit} (known : pattern ∈ [descriptionPattern, criteriaPattern])
    (opens : Opens body pattern index) (opened : ∃ index', Opens next pattern index')
  | description (under : Under body descriptionPattern index)
    (shown : payload.description = none → Text.trim line ∈ describedTexts next)
  | criterion (under : Under body criteriaPattern index)
    (told : payload.criteria = none → lineText line ∈ criteriaTexts next)

/-- The body that is written holds every line of the body, and the lines of the fields that are not
replaced in their order. -/
structure KeepsText (body next : List Text) (payload : FeaturePayload) : Prop where
  lines : ∀ index line, body[index]? = some line → Text.trim line ≠ [] →
    Rewritten body next payload index line
  description : payload.description = none → describedTexts next = describedTexts body
  criteria : payload.criteria = none → criteriaTexts next = criteriaTexts body

/-- No text of a file is lost, neither when it is read nor when an update writes it again. -/
structure LosesNoText (message : Defect → Text) (yaml : YamlPackage) (path content : Text)
    (body : List Text) (feature : Feature) : Prop where
  accounted : ∀ index line, body[index]? = some line → Text.trim line ≠ [] →
    Accounted body feature index line
  rewritten : ∀ designer payload next,
    updatedContent message yaml designer path content payload = .ok next →
      ∃ parts, splitFrontMatter next = some parts ∧ KeepsText body parts.body payload

section Updates

variable {message : Defect → Text} {yaml : YamlPackage} {path content : Text} {feature : Feature}
  {parts : FrontMatterParts}

/-- A line of the description is shown. -/
theorem mem_describedTexts {body : List Text} {index : ℕ} {line : Text}
    (under : Under body descriptionPattern index) (here : body[index]? = some line)
    (visible : Text.trim line ≠ []) : Text.trim line ∈ describedTexts body := by
  obtain ⟨found, read, member⟩ := under.read here
  rw [describedTexts, read]
  exact mem_shownTexts member visible

/-- A line of the criteria is told. -/
theorem mem_criteriaTexts {body : List Text} {index : ℕ} {line : Text}
    (under : Under body criteriaPattern index) (here : body[index]? = some line)
    (visible : Text.trim line ≠ []) : lineText line ∈ criteriaTexts body := by
  obtain ⟨found, read, member⟩ := under.read here
  rw [criteriaTexts, read]
  exact List.mem_map_of_mem (List.mem_filter.mpr ⟨member, by simpa using visible⟩)

theorem Accounted.stands {body : List Text} {index : ℕ} {line : Text}
    (accounted : Accounted body feature index line) : Stands body index := by
  cases accounted with
  | title known opens => exact ⟨_, known, .inl opens⟩
  | description under shown => exact ⟨_, List.mem_cons_self, .inr under⟩
  | criterion under held told => exact ⟨_, List.mem_cons_of_mem _ List.mem_cons_self, .inr under⟩

/-- A line that stands in the two sections is found in the feature. -/
theorem accounted_of_stands (split : splitFrontMatter content = some parts)
    (read : parseFeatureMarkdown message yaml path content = .ok feature) {index : ℕ} {line : Text}
    (stands : Stands parts.body index) (here : parts.body[index]? = some line)
    (visible : Text.trim line ≠ []) : Accounted parts.body feature index line := by
  obtain ⟨shown, told⟩ := texts_of_parse split read
  obtain ⟨pattern, known, opens | under⟩ := stands
  · exact .title known opens
  · rcases List.mem_pair.mp known with rfl | rfl
    · refine .description under ?_
      rw [shown]
      exact mem_describedTexts under here visible
    · have member := mem_criteriaTexts under here visible
      rw [← told] at member
      obtain ⟨text, held, same⟩ := List.mem_map.mp member
      exact .criterion under held same.symm

/-- **What an update writes again**: the fields that it does not replace. -/
theorem texts_of_update (laws : yaml.Laws) (split : splitFrontMatter content = some parts)
    (read : parseFeatureMarkdown message yaml path content = .ok feature) {designer : Bool}
    {payload : FeaturePayload} {next : Text}
    (updated : updatedContent message yaml designer path content payload = .ok next) :
    ∃ parts', splitFrontMatter next = some parts' ∧
      (∀ pattern ∈ [descriptionPattern, criteriaPattern],
        ∃ index, Opens parts'.body pattern index) ∧
      (payload.description = none → describedTexts parts'.body = describedTexts parts.body) ∧
      (payload.criteria = none → criteriaTexts parts'.body = criteriaTexts parts.body) := by
  obtain ⟨current, read', wrote⟩ := updatedContent_eq_ok updated
  obtain rfl : feature = current := Except.ok.inj (read.symm.trans read')
  obtain ⟨emittable, rfl⟩ := emitFeatureMarkdown_eq_ok.mp wrote
  obtain ⟨shown, told⟩ := texts_of_parse split read
  refine ⟨_, splitFrontMatter_emitted laws emittable emittable.description.noReturn, ?_, ?_, ?_⟩
  · intro pattern known
    rcases List.mem_pair.mp known with rfl | rfl
    · exact exists_opens (sectionLines_description emittable.description)
    · exact exists_opens (sectionLines_criteria emittable.description)
  · intro kept
    have same : (patchedFeature feature payload).description = feature.description := by
      rw [patchedFeature, overlay, kept, Option.getD_none]
    rw [describedTexts_emitted emittable.description, shownTexts_trim, same, shown]
  · intro kept
    have same : (patchedFeature feature payload).criteres = feature.criteres := by
      rw [patchedFeature, overlay, kept, Option.map_none, Option.getD_none]
    have plain : ∀ c ∈ (patchedFeature feature payload).criteres, c.Plain := by
      rw [same]
      exact plain_of_texts told
    rw [criteriaTexts_emitted emittable.description (fun c member => emittable.writable member)
      plain emittable.distinct, same, told]

/-- **An update loses no text** exactly when the body has its two sections only. -/
theorem update_loses_no_text_iff (laws : yaml.Laws)
    (split : splitFrontMatter content = some parts)
    (read : parseFeatureMarkdown message yaml path content = .ok feature) :
    LosesNoText message yaml path content parts.body feature ↔ TwoSections parts.body := by
  obtain ⟨⟨_, described⟩, _, listed⟩ := sections_of_parse split read
  obtain ⟨a, opens⟩ := exists_opens described
  obtain ⟨b, opens'⟩ := exists_opens listed
  have whole := forall_stands_iff opens opens'
  constructor
  · intro loses
    exact whole.mp fun index line here visible => (loses.accounted index line here visible).stands
  · intro two
    have stands := whole.mpr two
    constructor
    · intro index line here visible
      exact accounted_of_stands split read (stands index line here visible) here visible
    · intro designer payload next updated
      obtain ⟨parts', split', opened, shown, told⟩ := texts_of_update laws split read updated
      refine ⟨parts', split', fun index line here visible => ?_, shown, told⟩
      obtain ⟨pattern, known, opens | under⟩ := stands index line here visible
      · exact .title known opens (opened pattern known)
      · rcases List.mem_pair.mp known with rfl | rfl
        · refine .description under fun kept => ?_
          rw [shown kept]
          exact mem_describedTexts under here visible
        · refine .criterion under fun kept => ?_
          rw [told kept]
          exact mem_criteriaTexts under here visible

end Updates

theorem update_loses_no_text_two_sections :
    LosesNoText (fun _ => []) PlainYaml.package (Text.lit "features/F-001.md")
      (notedText [noted "AC-1" "A"]) (emittedBody (notedFeature [noted "AC-1" "A"]) [])
      (notedFeature [noted "AC-1" "A"]) := by
  have notable := List.forall_mem_singleton.mpr notable_a
  have wrote : emitFeatureMarkdown (fun _ => []) PlainYaml.package
      (notedFeature [noted "AC-1" "A"]) = .ok (notedText [noted "AC-1" "A"]) :=
    notedFeature_emitted notable (by decide)
  obtain ⟨emittable, -⟩ := emitFeatureMarkdown_eq_ok.mp wrote
  have split : splitFrontMatter (notedText [noted "AC-1" "A"]) =
      some ⟨_, emittedBody (notedFeature [noted "AC-1" "A"]) []⟩ :=
    splitFrontMatter_emitted PlainYaml.laws emittable emittable.description.noReturn
  have read : parseFeatureMarkdown (fun _ => []) PlainYaml.package (Text.lit "features/F-001.md")
      (notedText [noted "AC-1" "A"]) = .ok (notedFeature [noted "AC-1" "A"]) :=
    parse_notedText notable (by decide) (by decide +kernel)
  exact (update_loses_no_text_iff PlainYaml.laws split read).mpr
    ⟨by decide +kernel, by decide +kernel⟩

/-- A file with notes after its criteria. -/
def notesText : Text := notedText [noted "AC-1" "A"] ++ Text.lit "## Notes\nÀ relire.\n"

/-- **The notes of a feature are lost**: the file is accepted, and nothing of them is read. -/
theorem update_loses_notes : ¬ ∀ (message : Defect → Text) (yaml : YamlPackage), yaml.Laws →
    ∀ (path content : Text) (parts : FrontMatterParts) (feature : Feature),
      splitFrontMatter content = some parts →
        parseFeatureMarkdown message yaml path content = .ok feature →
          LosesNoText message yaml path content parts.body feature := by
  intro always
  obtain ⟨parts, split⟩ := Option.isSome_iff_exists.mp
    (show (splitFrontMatter notesText).isSome = true by decide +kernel)
  have accepted : (parseFeatureMarkdown (fun _ => []) PlainYaml.package
      (Text.lit "features/F-001.md") notesText).isOk = true := by decide +kernel
  cases read : parseFeatureMarkdown (fun _ => []) PlainYaml.package
      (Text.lit "features/F-001.md") notesText with
  | error issues =>
    rw [read] at accepted
    cases accepted
  | ok feature =>
    have loses := always _ _ PlainYaml.laws _ _ parts feature split read
    obtain ⟨⟨_, described⟩, _, listed⟩ := sections_of_parse split read
    obtain ⟨a, opens⟩ := exists_opens described
    obtain ⟨b, opens'⟩ := exists_opens listed
    have two := ((forall_stands_iff opens opens').mp fun index line here visible =>
      (loses.accounted index line here visible).stands).two
    have three : (splitFrontMatter notesText).map (fun parts =>
        (parts.body.filter isSection).length) = some 3 := by decide +kernel
    rw [split, Option.map_some, two] at three
    cases three

end Koklo.SpecPlan
