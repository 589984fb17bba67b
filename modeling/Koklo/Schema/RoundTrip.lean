import Koklo.Schema.EmittedFile
import Koklo.Schema.PlainYaml

/-!
# The round trip of a feature file

What the emitter writes is read back as the feature with its description trimmed, exactly
when no title and no step of a criterion holds a line or paragraph separator and the end of
the title was not cut (`feature_read_back_iff`).
-/

set_option autoImplicit false

namespace Koklo.Schema

open Koklo.Foundations
open Koklo.Foundations.Decoding

/-! ## Reading the body -/

section Body

variable {feature : Feature} (emittable : feature.Emittable) (path : Text) (id : Option Text)

include emittable

/-- **The body is read back** when its criteria are plain. -/
theorem bodyIssues_emitted (plain : ∀ c ∈ feature.criteres, c.Plain) :
    bodyIssues path id (emittedBody feature (Text.trim feature.description)) =
      ⟨[], Text.trim feature.description, feature.criteres⟩ := by
  obtain ⟨criteria, errors⟩ := parseCriteria_emitted (fun c member => emittable.writable member)
    plain emittable.distinct
  have described := trim_describedLines (Text.trim_trim feature.description)
  simp only [bodyIssues, sectionLines_description emittable.description,
    sectionLines_criteria emittable.description, Option.getD_some, Option.isNone_some, criteria, errors,
    described]
  rfl

/-- Criteria that raise no issue are plain. -/
theorem plain_of_bodyIssues
    (none : (bodyIssues path id (emittedBody feature (Text.trim feature.description))).issues = []) :
    ∀ c ∈ feature.criteres, c.Plain := by
  refine plain_of_parseCriteria (fun c member => emittable.writable member) ?_
  simp only [bodyIssues, sectionLines_description emittable.description,
    sectionLines_criteria emittable.description, Option.getD_some, Option.isNone_some,
    List.append_eq_nil_iff, List.map_eq_nil_iff] at none
  exact none.2

end Body

/-! ## Validating the data -/

theorem parseWithSchema_eq_ok {α : Type} {schema : Decoder α} {path : Text} {data : Data}
    {id : Option Text} {value : α} :
    parseWithSchema schema path data id = .ok value ↔ schema (some data) = .ok value := by
  rw [parseWithSchema]
  cases schema (some data) with
  | ok other => simp only [Except.ok.injEq]
  | error issues => simp only [reduceCtorEq]

variable {message : Defect → Text}

/-- The title of an accepted feature is the text of its field. -/
theorem featureSchema_titre {fields : List (Text × Data)} {feature : Feature}
    (accepted : featureSchema message (some (.record fields)) = .ok feature) :
    OrderedMap.get fields (Text.lit "titre") = some (.text feature.titre) := by
  rw [featureSchema, strictRecord, Decoded.butRefuse_eq_ok] at accepted
  obtain ⟨decoded, -⟩ := accepted
  simp only [Decoded.ap_eq_ok] at decoded
  obtain ⟨_, _, ⟨_, _, ⟨_, _, ⟨_, _, ⟨_, _, ⟨_, _, ⟨_, _, ⟨_, _, ⟨_, _, ⟨_, _, ⟨_, titre, ⟨_, _, made,
    -, rfl⟩, titled, rfl⟩, -, rfl⟩, -, rfl⟩, -, rfl⟩, -, rfl⟩, -, rfl⟩, -, rfl⟩, -, rfl⟩, -, rfl⟩, -,
    rfl⟩, -, rfl⟩ := decoded
  cases made
  exact textWith_eq_ok message (Decoded.under_eq_ok.mp titled)

/-- The criteria of an accepted feature are those of its field. -/
theorem featureSchema_criteres {fields : List (Text × Data)} {feature : Feature}
    {criteres : List Criterion}
    (written : OrderedMap.get fields (Text.lit "criteres") =
      some (.list (criteres.map Criterion.toData)))
    (accepted : featureSchema message (some (.record fields)) = .ok feature) :
    feature.criteres = criteres := by
  rw [featureSchema, strictRecord, Decoded.butRefuse_eq_ok] at accepted
  obtain ⟨decoded, -⟩ := accepted
  obtain ⟨make, read, made, listed, same⟩ := Decoded.ap_eq_ok.mp decoded
  have listed' := Decoded.under_eq_ok.mp listed
  rw [written, listOf_map_eq_ok message fun criterion _ _ read => (criterionSchema_eq_ok.mp read).1]
    at listed'
  simp only [Decoded.ap_eq_ok] at made
  obtain ⟨_, _, ⟨_, _, ⟨_, _, ⟨_, _, ⟨_, _, ⟨_, _, ⟨_, _, ⟨_, _, ⟨_, _, ⟨_, _, ⟨_, _, begun,
    -, rfl⟩, -, rfl⟩, -, rfl⟩, -, rfl⟩, -, rfl⟩, -, rfl⟩, -, rfl⟩, -, rfl⟩, -, rfl⟩, -, rfl⟩, -,
    rfl⟩ := made
  cases begun
  rw [← same]
  exact listed'.1

/-- Only a record spreads a field whose name is no number. -/
theorem get_spread {data value : Data} {key : Text} (named : ∃ u ∈ key, Text.isDigit u = false)
    (read : OrderedMap.get (spread data) key = some value) :
    ∃ fields, data = .record fields ∧ OrderedMap.get fields key = some value := by
  obtain ⟨u, inside, letter⟩ := named
  have numbered : ∀ index, Text.ofNat index ≠ key := by
    intro index same
    have digit := Text.isDigit_of_mem_ofNat (same ▸ inside)
    rw [letter] at digit
    cases digit
  have member := OrderedMap.mem_of_get read
  cases data with
  | record fields => exact ⟨fields, rfl, read⟩
  | list items =>
    obtain ⟨_, -, same⟩ := List.mem_map.mp member
    exact absurd (Prod.mk.inj same).1 (numbered _)
  | text t =>
    obtain ⟨_, -, same⟩ := List.mem_map.mp member
    exact absurd (Prod.mk.inj same).1 (numbered _)
  | null => cases member
  | bool value => cases member
  | number value => cases member

/-- **What the parser accepts**: the front matter is read, the body raises no issue, and
the schema accepts both. -/
theorem parseFeatureMarkdown_eq_ok {yaml : YamlPackage} {path content : Text} {parts : FrontMatterParts}
    (small : content.length ≤ maxFileChars) (split : splitFrontMatter content = some parts)
    {feature : Feature} : parseFeatureMarkdown message yaml path content = .ok feature ↔
      ∃ data, loadYaml yaml path parts.front = .ok data ∧
        (bodyIssues path (rawId data) parts.body).issues = [] ∧
          featureSchema message (some (.record (withBody (spread data)
            (bodyIssues path (rawId data) parts.body).description
            (bodyIssues path (rawId data) parts.body).criteres))) = .ok feature := by
  have fits : tooLarge path content = none := if_pos small
  rw [parseFeatureMarkdown, fits, split]
  simp only
  cases loadYaml yaml path parts.front with
  | error issues => simp only [reduceCtorEq, false_and, exists_false]
  | ok data =>
    simp only [Except.ok.injEq, exists_eq_left']
    by_cases none : (bodyIssues path (rawId data) parts.body).issues = []
    · rw [if_neg (not_not.mpr none), parseWithSchema_eq_ok]
      exact (and_iff_right none).symm
    · rw [if_pos none]
      simp only [none, reduceCtorEq, false_and]

/-! ## The round trip -/

/-- When a feature is read back: its criteria hold no separator, and a title that is
written plain ends with a visible unit. -/
structure ReadBack (yaml : YamlPackage) (feature : Feature) : Prop where
  criteres : ∀ c ∈ feature.criteres, c.Plain
  titre : yaml.WritesPlain feature.titre → Text.trimEnd feature.titre = feature.titre

/-- The front matter is shorter than the file. -/
theorem length_frontLines_le {front body : List Text} {text : Text}
    (lines : Text.lines text = Text.lit "---" :: (front ++ Text.lit "---" :: body))
    (some : front ≠ []) : (Text.joinLines front).length ≤ text.length := by
  rw [← Text.joinLines_lines text, lines, Text.joinLines_cons
    (List.append_ne_nil_of_left_ne_nil some _), Text.joinLines_append some (List.cons_ne_nil _ _)]
  simp only [List.length_append, List.length_cons]
  omega

section RoundTrip

variable {yaml : YamlPackage} (laws : yaml.Laws) {feature : Feature} {text : Text} (path : Text)
  (emitted : emitFeatureMarkdown message yaml feature = .ok text)
  (small : text.length ≤ maxFileChars)

include laws emitted small

/-- Reading an emitted file: the front matter, the body, and both together. -/
theorem parse_emitted {other : Feature} : parseFeatureMarkdown message yaml path text = .ok other ↔
    ∃ data, (yaml.parseDocument (Text.joinLines (frontLines yaml feature))).Reads data ∧
      (bodyIssues path (rawId data) (emittedBody feature (Text.trim feature.description))).issues = [] ∧
        featureSchema message (some (.record (withBody (spread data)
          (bodyIssues path (rawId data)
            (emittedBody feature (Text.trim feature.description))).description
          (bodyIssues path (rawId data)
            (emittedBody feature (Text.trim feature.description))).criteres))) = .ok other := by
  obtain ⟨emittable, written⟩ := emitFeatureMarkdown_eq_ok.mp emitted
  have parts : splitFrontMatter text = some ⟨Text.joinLines (frontLines yaml feature),
      emittedBody feature (Text.trim feature.description)⟩ := by
    rw [written]
    exact splitFrontMatter_emitted laws emittable emittable.description.noReturn
  have lines := lines_emitted laws emittable (Text.trim feature.description)
  rw [← written] at lines
  have fits : (Text.joinLines (frontLines yaml feature)).length ≤ maxFileChars :=
    (length_frontLines_le lines (List.cons_ne_nil _ _)).trans small
  rw [parseFeatureMarkdown_eq_ok small parts]
  simp only [loadYaml_eq_ok fits]

/-- **An emitted file is read back under the condition.** -/
theorem parse_of_readBack (readBack : ReadBack yaml feature) :
    parseFeatureMarkdown message yaml path text = .ok feature.trimmed := by
  obtain ⟨emittable, -⟩ := emitFeatureMarkdown_eq_ok.mp emitted
  have front := reads_front laws emittable.valid emittable.titreLine readBack.titre
  refine (parse_emitted laws path emitted small).mpr ⟨_, front, ?_⟩
  rw [bodyIssues_emitted emittable path _ readBack.criteres]
  refine ⟨rfl, ?_⟩
  obtain ⟨trimmed, -⟩ := emitFeatureMarkdown_eq_ok.mp (emitFeatureMarkdown_trimmed emitted)
  exact featureSchema_toData.mpr ⟨rfl, trimmed.valid⟩

/-- **A file that is read back meets the condition.** -/
theorem readBack_of_parse (read : parseFeatureMarkdown message yaml path text = .ok feature.trimmed) :
    ReadBack yaml feature := by
  obtain ⟨emittable, -⟩ := emitFeatureMarkdown_eq_ok.mp emitted
  obtain ⟨data, front, none, accepted⟩ := (parse_emitted laws path emitted small).mp read
  refine ⟨plain_of_bodyIssues emittable path _ none, fun plain => ?_⟩
  have titled := featureSchema_titre accepted
  rw [withBody, OrderedMap.get_set_of_ne _ (by decide), OrderedMap.get_set_of_ne _ (by decide)] at titled
  obtain ⟨fields, rfl, found⟩ := get_spread ⟨0x74, by decide, by decide⟩ titled
  exact (titre_cut laws emittable.valid emittable.titreLine plain front found).symm

/-- **The criteria of a file that is read are those that were emitted.** -/
theorem criteres_of_parse {other : Feature}
    (read : parseFeatureMarkdown message yaml path text = .ok other) :
    other.criteres = feature.criteres := by
  obtain ⟨emittable, -⟩ := emitFeatureMarkdown_eq_ok.mp emitted
  obtain ⟨data, -, none, accepted⟩ := (parse_emitted laws path emitted small).mp read
  have plain := plain_of_bodyIssues emittable path _ none
  rw [bodyIssues_emitted emittable path _ plain] at accepted
  refine featureSchema_criteres ?_ accepted
  exact OrderedMap.get_set_self _ _ _

end RoundTrip

/-- What the parser accepts is not too large. -/
theorem small_of_parse {yaml : YamlPackage} {path content : Text} {feature : Feature}
    (read : parseFeatureMarkdown message yaml path content = .ok feature) :
    content.length ≤ maxFileChars := by
  by_contra large
  have refused : tooLarge path content ≠ none := by
    rw [tooLarge, if_neg large]
    exact Option.some_ne_none _
  unfold parseFeatureMarkdown at read
  split at read
  · cases read
  · rename_i fits
    exact refused fits

/-- **When an emitted feature is read back.** The parser returns the feature with its
description trimmed, whose text is the same, exactly when no title and no step of a
criterion holds a line or paragraph separator, and a title that is written plain ends with
a visible unit. -/
theorem feature_read_back_iff {yaml : YamlPackage} (laws : yaml.Laws) {feature : Feature} {text : Text}
    (emitted : emitFeatureMarkdown message yaml feature = .ok text)
    (small : text.length ≤ maxFileChars) (path : Text) :
    (parseFeatureMarkdown message yaml path text = .ok feature.trimmed ∧
      emitFeatureMarkdown message yaml feature.trimmed = .ok text) ↔ ReadBack yaml feature := by
  constructor
  · rintro ⟨read, -⟩
    exact readBack_of_parse laws path emitted small read
  · intro readBack
    exact ⟨parse_of_readBack laws path emitted small readBack, emitFeatureMarkdown_trimmed emitted⟩

/-- A feature with one criterion, whose title is given. -/
def loginFeature (titre : Text) : Feature where
  id := Text.lit "F-001"
  titre := Text.lit "Connexion"
  statut := .specifiee
  priorite := .must
  tables := [Text.lit "T-users"]
  endpoints := []
  ecrans := [Text.lit "S-login", Text.lit "S-home"]
  roles := []
  regles := []
  nfr := []
  description := Text.lit "Se connecter.\n"
  criteres := [⟨Text.lit "AC-1", titre, [⟨.quand, Text.lit "le mot de passe est valide"⟩]⟩]

/-- The text of the feature. -/
def loginText (titre : Text) : Text :=
  Text.joinLines (emittedPieces PlainYaml.package (loginFeature titre)
    (Text.trim (loginFeature titre).description)) ++ [Text.newline]

theorem loginFeature_emitted {titre : Text} (some : titre ≠ []) (line : TrimmedLine titre) :
    emitFeatureMarkdown message PlainYaml.package (loginFeature titre) = .ok (loginText titre) := by
  have feature : Patterns.feature.accepts (Text.lit "F-001") = true := by decide
  have table : [Text.lit "T-users"].all Patterns.table.accepts = true := by decide
  have screens : [Text.lit "S-login", Text.lit "S-home"].all Patterns.screen.accepts = true := by decide
  have criterion : Patterns.criterion.accepts (Text.lit "AC-1") = true := by decide
  have titled : SingleLine (Text.lit "Connexion") := ⟨by decide, by decide, by decide⟩
  have described : Describes (Text.trim (Text.lit "Se connecter.\n")) :=
    ⟨by decide, by decide, by decide⟩
  have step : TrimmedLine (Text.lit "le mot de passe est valide") :=
    ⟨⟨by decide, by decide, by decide⟩, by decide⟩
  have steps : Criterion.Valid
      ⟨Text.lit "AC-1", titre, [⟨.quand, Text.lit "le mot de passe est valide"⟩]⟩ :=
    ⟨Pattern.accepts_iff.mp criterion, some, List.forall_mem_singleton.mpr (List.cons_ne_nil _ _)⟩
  have none : ∀ {pattern : Pattern CodeUnit}, ∀ id ∈ ([] : List Text), pattern.Matches id :=
    fun id member => absurd member List.not_mem_nil
  have valid : (loginFeature titre).Valid :=
    { id := Pattern.accepts_iff.mp feature
      titre := List.cons_ne_nil _ _
      tables := fun id member => Pattern.accepts_iff.mp (List.all_eq_true.mp table id member)
      endpoints := none
      ecrans := fun id member => Pattern.accepts_iff.mp (List.all_eq_true.mp screens id member)
      roles := none
      regles := none
      nfr := none
      criteres := List.forall_mem_singleton.mpr steps }
  refine emitFeatureMarkdown_eq_ok.mpr ⟨⟨valid, titled, described, List.nodup_singleton _, ?_, ?_⟩, rfl⟩
  · exact List.forall_mem_singleton.mpr line
  · exact List.forall_mem_singleton.mpr (List.forall_mem_singleton.mpr step)

theorem feature_read_back_iff_login :
    parseFeatureMarkdown (fun _ => []) PlainYaml.package (Text.lit "specs/features/F-001.md")
        (loginText (Text.lit "mot de passe valide")) =
          .ok (loginFeature (Text.lit "mot de passe valide")).trimmed ∧
      emitFeatureMarkdown (fun _ => []) PlainYaml.package
        (loginFeature (Text.lit "mot de passe valide")).trimmed =
          .ok (loginText (Text.lit "mot de passe valide")) := by
  have emitted : emitFeatureMarkdown (fun _ => []) PlainYaml.package
      (loginFeature (Text.lit "mot de passe valide")) =
      .ok (loginText (Text.lit "mot de passe valide")) :=
    loginFeature_emitted (by decide) ⟨⟨by decide, by decide, by decide⟩, by decide⟩
  refine (feature_read_back_iff PlainYaml.laws emitted (by decide +kernel) _).mpr ⟨?_, fun _ => by decide⟩
  refine List.forall_mem_singleton.mpr ⟨?_, List.forall_mem_singleton.mpr ?_⟩
  · exact List.all_eq_true.mp (by decide)
  · exact List.all_eq_true.mp (by decide)

/-- **A title with a line separator is accepted and not read back.** -/
theorem feature_not_read_back : ¬ ∀ (message : Defect → Text) (yaml : YamlPackage), yaml.Laws →
    ∀ (feature : Feature) (text path : Text),
      emitFeatureMarkdown message yaml feature = .ok text → text.length ≤ maxFileChars →
        parseFeatureMarkdown message yaml path text = .ok feature.trimmed := by
  intro always
  have emitted : emitFeatureMarkdown (fun _ => []) PlainYaml.package
      (loginFeature [0x61, 0x2028, 0x62]) = .ok (loginText [0x61, 0x2028, 0x62]) :=
    loginFeature_emitted (by decide) ⟨⟨by decide, by decide, by decide⟩, by decide⟩
  have small : (loginText [0x61, 0x2028, 0x62]).length ≤ maxFileChars := by
    decide +kernel
  have read := always _ _ PlainYaml.laws _ _ (Text.lit "specs/features/F-001.md") emitted small
  have readBack := readBack_of_parse PlainYaml.laws _ emitted small read
  have plain := (readBack.criteres _ List.mem_cons_self).titre 0x2028 (by decide)
  cases plain

end Koklo.Schema
