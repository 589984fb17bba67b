import Koklo.Schema.FeatureMarkdown

/-!
# What the emitter accepts

The emitter accepts a feature that its schema accepts, whose title is on one line, whose
description holds no structural line, and whose criteria have distinct identifiers and
trimmed texts (`emitFeatureMarkdown_eq_ok`). Trimming the description changes neither
whether a feature is accepted nor its text (`emitFeatureMarkdown_trimmed`).
-/

set_option autoImplicit false

namespace Koklo.Schema

open Koklo.Foundations

/-- No carriage return, no line feed and no NUL. -/
structure SingleLine (t : Text) : Prop where
  noReturn : 0x0D ∉ t
  noNewline : Text.newline ∉ t
  noNul : 0x00 ∉ t

/-- A single line without white space at its ends. -/
structure TrimmedLine (t : Text) : Prop where
  single : SingleLine t
  kept : Text.trim t = t

/-- What a description may hold. -/
structure Describes (description : Text) : Prop where
  noReturn : 0x0D ∉ description
  noNul : 0x00 ∉ description
  noStructure : ∀ line ∈ Text.lines description, isStructural line = false

/-- What the emitter asks of a feature. -/
structure Feature.Emittable (feature : Feature) : Prop where
  valid : feature.Valid
  titre : SingleLine feature.titre
  description : Describes (Text.trim feature.description)
  distinct : (feature.criteres.map Criterion.id).Nodup
  titres : ∀ criterion ∈ feature.criteres, TrimmedLine criterion.titre
  etapes : ∀ criterion ∈ feature.criteres, ∀ step ∈ criterion.etapes, TrimmedLine step.texte

/-- The feature as the parser reads it back. -/
def Feature.trimmed (feature : Feature) : Feature :=
  { feature with description := Text.trim feature.description }

/-! ## The checks -/

theorem assertSingleLine_eq_ok {value path : Text} :
    assertSingleLine value path = .ok () ↔ SingleLine value := by
  rw [assertSingleLine, guard_eq_ok]
  constructor
  · rintro ⟨none, -⟩
    rw [not_or, not_or] at none
    exact ⟨none.1, none.2.1, none.2.2⟩
  · intro single
    refine ⟨?_, rfl⟩
    rintro (isReturn | isNewline | isNul)
    · exact single.noReturn isReturn
    · exact single.noNewline isNewline
    · exact single.noNul isNul

theorem assertTrimmedLine_eq_ok {value path : Text} :
    assertTrimmedLine value path = .ok () ↔ TrimmedLine value := by
  rw [assertTrimmedLine, bind_eq_ok]
  constructor
  · rintro ⟨⟨⟩, single, checked⟩
    obtain ⟨kept, -⟩ := guard_eq_ok.mp checked
    exact ⟨assertSingleLine_eq_ok.mp single, (not_not.mp kept).symm⟩
  · intro line
    refine ⟨(), assertSingleLine_eq_ok.mpr line.single, guard_eq_ok.mpr ⟨?_, rfl⟩⟩
    exact not_not.mpr line.kept.symm

theorem assertDescription_eq_ok {description : Text} :
    assertDescription description = .ok () ↔ Describes description := by
  rw [assertDescription, guard_eq_ok, guard_eq_ok, not_or, Bool.not_eq_true, List.any_eq_false]
  constructor
  · rintro ⟨⟨noReturn, noNul⟩, none, -⟩
    exact ⟨noReturn, noNul, fun line member => Bool.eq_false_iff.mpr (none line member)⟩
  · intro describes
    refine ⟨⟨describes.noReturn, describes.noNul⟩, ?_, rfl⟩
    intro line member
    exact Bool.eq_false_iff.mp (describes.noStructure line member)

theorem assertSteps_eq_ok {pointer : Text} {steps : List Step} {index : ℕ} :
    assertSteps pointer index steps = .ok () ↔ ∀ step ∈ steps, TrimmedLine step.texte := by
  induction steps generalizing index with
  | nil => exact ⟨fun _ step member => absurd member List.not_mem_nil, fun _ => rfl⟩
  | cons step steps ih =>
    rw [assertSteps, bind_eq_ok, List.forall_mem_cons]
    constructor
    · rintro ⟨⟨⟩, first, others⟩
      exact ⟨assertTrimmedLine_eq_ok.mp first, ih.mp others⟩
    · rintro ⟨first, others⟩
      exact ⟨(), assertTrimmedLine_eq_ok.mpr first, ih.mpr others⟩

theorem assertCriteriaFrom_eq_ok {criteria : List Criterion} {seen : List Text} {index : ℕ} :
    assertCriteriaFrom seen index criteria = .ok () ↔
      (criteria.map Criterion.id).Nodup ∧ (∀ c ∈ criteria, c.id ∉ seen) ∧
        (∀ c ∈ criteria, TrimmedLine c.titre) ∧
          ∀ c ∈ criteria, ∀ step ∈ c.etapes, TrimmedLine step.texte := by
  induction criteria generalizing seen index with
  | nil => simp [assertCriteriaFrom]
  | cons criterion criteria ih =>
    rw [assertCriteriaFrom, guard_eq_ok, bind_eq_ok]
    simp only [List.forall_mem_cons, List.map_cons, List.nodup_cons]
    constructor
    · rintro ⟨unseen, ⟨⟩, titre, rest⟩
      obtain ⟨⟨⟩, etapes, others⟩ := bind_eq_ok.mp rest
      obtain ⟨distinct, fresh, titres, steps⟩ := ih.mp others
      refine ⟨⟨?_, distinct⟩, ⟨unseen, ?_⟩, ⟨assertTrimmedLine_eq_ok.mp titre, titres⟩,
        assertSteps_eq_ok.mp etapes, steps⟩
      · intro repeated
        obtain ⟨other, member, same⟩ := List.mem_map.mp repeated
        exact fresh other member (same ▸ List.mem_cons_self)
      · intro other member known
        exact fresh other member (List.mem_cons_of_mem _ known)
    · rintro ⟨⟨apart, distinct⟩, ⟨unseen, fresh⟩, ⟨titre, titres⟩, etapes, steps⟩
      refine ⟨unseen, (), assertTrimmedLine_eq_ok.mpr titre, bind_eq_ok.mpr
        ⟨(), assertSteps_eq_ok.mpr etapes, ih.mpr ⟨distinct, ?_, titres, steps⟩⟩⟩
      intro other member known
      rcases List.mem_cons.mp known with same | old
      · exact apart (same ▸ List.mem_map_of_mem member)
      · exact fresh other member old

/-! ## The emitter -/

section Emitted

variable {message : Defect → Text} {yaml : YamlPackage} {feature : Feature} {text : Text}

/-- **What the emitter accepts**, and what it writes. -/
theorem emitFeatureMarkdown_eq_ok : emitFeatureMarkdown message yaml feature = .ok text ↔
    feature.Emittable ∧ text =
      Text.joinLines (emittedPieces yaml feature (Text.trim feature.description)) ++
        [Text.newline] := by
  constructor
  · intro emitted
    unfold emitFeatureMarkdown at emitted
    split at emitted
    · cases emitted
    · rename_i value accepted
      obtain ⟨rfl, valid⟩ := featureSchema_toData.mp accepted
      obtain ⟨⟨⟩, titre, described⟩ := bind_eq_ok.mp emitted
      obtain ⟨⟨⟩, description, checked⟩ := bind_eq_ok.mp described
      obtain ⟨⟨⟩, criteria, written⟩ := bind_eq_ok.mp checked
      obtain ⟨distinct, -, titres, etapes⟩ := assertCriteriaFrom_eq_ok.mp criteria
      exact ⟨⟨valid, assertSingleLine_eq_ok.mp titre, assertDescription_eq_ok.mp description,
        distinct, titres, etapes⟩, (Except.ok.inj written).symm⟩
  · intro given
    obtain ⟨emittable, written⟩ := given
    have accepted : featureSchema message (some feature.toData) = .ok feature :=
      featureSchema_toData.mpr ⟨rfl, emittable.valid⟩
    have criteria : assertCriteria feature.criteres = .ok () := by
      unfold assertCriteria
      refine assertCriteriaFrom_eq_ok.mpr ⟨emittable.distinct, ?_, emittable.titres, emittable.etapes⟩
      exact fun c _ => List.not_mem_nil
    unfold emitFeatureMarkdown
    rw [accepted, written]
    refine bind_eq_ok.mpr ⟨(), assertSingleLine_eq_ok.mpr emittable.titre, ?_⟩
    refine bind_eq_ok.mpr ⟨(), assertDescription_eq_ok.mpr emittable.description, ?_⟩
    exact bind_eq_ok.mpr ⟨(), criteria, rfl⟩

/-- **Trimming the description changes nothing to the text.** -/
theorem emitFeatureMarkdown_trimmed (emitted : emitFeatureMarkdown message yaml feature = .ok text) :
    emitFeatureMarkdown message yaml feature.trimmed = .ok text := by
  obtain ⟨emittable, written⟩ := emitFeatureMarkdown_eq_ok.mp emitted
  have once : Text.trim feature.trimmed.description = Text.trim feature.description :=
    Text.trim_trim _
  refine emitFeatureMarkdown_eq_ok.mpr ⟨⟨?_, emittable.titre, ?_, emittable.distinct,
    emittable.titres, emittable.etapes⟩, ?_⟩
  · exact ⟨emittable.valid.id, emittable.valid.titre, emittable.valid.tables,
      emittable.valid.endpoints, emittable.valid.ecrans, emittable.valid.roles,
      emittable.valid.regles, emittable.valid.nfr, emittable.valid.criteres⟩
  · rw [once]
    exact emittable.description
  · rw [once]
    exact written

end Emitted

end Koklo.Schema
