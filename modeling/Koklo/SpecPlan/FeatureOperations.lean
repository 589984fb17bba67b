import Koklo.Schema.FeatureMarkdown
import Koklo.SpecPlan.Criteria

/-!
# Operations on a feature

A feature is created from the defaults of the contract, or updated by the
fields that a payload carries; criteria are renumbered, every other field is
copied. An update works on the text of a file: the file is read, the feature is
patched, and the text is written again if the result is a feature the emitter
accepts.
-/

set_option autoImplicit false

namespace Koklo.SpecPlan

open Foundations Schema

/-- The fields of a payload, all optional. -/
structure FeaturePayload where
  title : Option Text := none
  status : Option Statut := none
  priority : Option Priorite := none
  description : Option Text := none
  criteria : Option (List SubmittedCriterion) := none
  tables : Option (List Text) := none
  endpoints : Option (List Text) := none
  screens : Option (List Text) := none
  roles : Option (List Text) := none
  rules : Option (List Text) := none
  nfr : Option (List Text) := none

/-- Applies the fields that are present on a feature. -/
def overlay (base : Feature) (payload : FeaturePayload) : Feature where
  id := base.id
  titre := payload.title.getD base.titre
  statut := payload.status.getD base.statut
  priorite := payload.priority.getD base.priorite
  tables := payload.tables.getD base.tables
  endpoints := payload.endpoints.getD base.endpoints
  ecrans := payload.screens.getD base.ecrans
  roles := payload.roles.getD base.roles
  regles := payload.rules.getD base.regles
  nfr := payload.nfr.getD base.nfr
  description := payload.description.getD base.description
  criteres := (payload.criteria.map (numberCriteria base.criteres)).getD base.criteres

/-- The defaults of the contract. -/
def emptyFeature (id : Text) : Feature where
  id := id
  titre := []
  statut := .brouillon
  priorite := .should
  tables := []
  endpoints := []
  ecrans := []
  roles := []
  regles := []
  nfr := []
  description := []
  criteres := []

/-- A new feature, with the fields of the payload. -/
def createdFeature (id : Text) (payload : FeaturePayload) : Feature :=
  overlay (emptyFeature id) payload

/-- The feature with the fields of the payload. -/
def patchedFeature (current : Feature) (payload : FeaturePayload) : Feature :=
  overlay current payload

/-- A feature that names a screen. -/
def isDesignLinked (feature : Feature) : Bool := !feature.ecrans.isEmpty

/-- Why an operation stops its batch. -/
inductive Refusal where
  /-- A designer changes a feature that no screen is linked to. -/
  | forbidden
  /-- The file does not parse. -/
  | unreadable (issues : List Issue)
  /-- The feature cannot be written. -/
  | unwritable (error : EmitFeatureError)

section Files

variable (message : Defect → Text) (yaml : YamlPackage)

/-- `requireDesign`. -/
def requireDesign (designer linked : Bool) : Except Refusal Unit :=
  if designer && !linked then .error .forbidden else .ok ()

/-- The feature as it is read from its file. -/
def currentFeature (path content : Text) : Except Refusal Feature :=
  match parseFeatureMarkdown message yaml path content with
  | .ok feature => .ok feature
  | .error issues => .error (.unreadable issues)

/-- The text of a file that is written. -/
def written (feature : Feature) : Except Refusal Text :=
  match emitFeatureMarkdown message yaml feature with
  | .ok content => .ok content
  | .error error => .error (.unwritable error)

/-- The text of a file after an update. -/
def updatedContent (designer : Bool) (path content : Text) (payload : FeaturePayload) :
    Except Refusal Text := do
  let current ← currentFeature message yaml path content
  requireDesign designer (isDesignLinked current)
  let next := patchedFeature current payload
  requireDesign designer (isDesignLinked next)
  written message yaml next

variable {message yaml}

theorem currentFeature_eq_ok {path content : Text} {feature : Feature} :
    currentFeature message yaml path content = .ok feature ↔
      parseFeatureMarkdown message yaml path content = .ok feature := by
  unfold currentFeature
  cases parseFeatureMarkdown message yaml path content with
  | ok other => simp
  | error issues => simp

theorem written_eq_ok {feature : Feature} {content : Text} :
    written message yaml feature = .ok content ↔
      emitFeatureMarkdown message yaml feature = .ok content := by
  unfold written
  cases emitFeatureMarkdown message yaml feature with
  | ok other => simp
  | error error => simp

/-- What an update that succeeds has read and written. -/
theorem updatedContent_eq_ok {designer : Bool} {path content next : Text} {payload : FeaturePayload}
    (updated : updatedContent message yaml designer path content payload = .ok next) :
    ∃ current, parseFeatureMarkdown message yaml path content = .ok current ∧
      emitFeatureMarkdown message yaml (patchedFeature current payload) = .ok next := by
  obtain ⟨current, read, rest⟩ := bind_eq_ok.mp updated
  obtain ⟨-, -, rest⟩ := bind_eq_ok.mp rest
  obtain ⟨-, -, wrote⟩ := bind_eq_ok.mp rest
  exact ⟨current, currentFeature_eq_ok.mp read, written_eq_ok.mp wrote⟩

/-- An update that nobody forbids writes the patched feature. -/
theorem updatedContent_of_read {path content next : Text} {payload : FeaturePayload}
    {current : Feature} (read : parseFeatureMarkdown message yaml path content = .ok current)
    (wrote : emitFeatureMarkdown message yaml (patchedFeature current payload) = .ok next) :
    updatedContent message yaml false path content payload = .ok next := by
  unfold updatedContent
  rw [currentFeature_eq_ok.mpr read]
  exact written_eq_ok.mpr wrote

end Files

end Koklo.SpecPlan
