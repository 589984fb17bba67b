import Koklo.Schema.Rule4

/-!
# Rule 5: what the status of a feature asks for

A specified feature has a screen or an endpoint, an implemented one a test for each criterion, and
from the status of specified on the steps of each criterion are complete and in order.
-/

set_option autoImplicit false

namespace Koklo.Schema

open Koklo.Foundations

/-! ## Steps -/

/-- The part of a step in its criterion. -/
inductive StepRole where
  | etantDonne | quand | alors
deriving DecidableEq

namespace StepRole

/-- `ROLE_ORDER`. -/
def order : StepRole → ℕ
  | etantDonne => 0
  | quand => 1
  | alors => 2

/-- `ROLE_LABEL`. -/
def label : StepRole → Text
  | etantDonne => Text.lit "Étant donné"
  | quand => Text.lit "Quand"
  | alors => Text.lit "Alors"

/-- `ROLES`. -/
def all : List StepRole := [.etantDonne, .quand, .alors]

end StepRole

/-- The part that a type of step has of its own. -/
def StepType.role? : StepType → Option StepRole
  | etantDonne => some .etantDonne
  | quand => some .quand
  | alors => some .alors
  | et => none

/-- What is wrong, and where. -/
structure Fault where
  pointer : Text
  reason : Text

/-- The first fault of steps, from a position on, after the parts that were seen. -/
def faultFrom (base : Text) (seen : List StepRole) (role : Option StepRole) :
    ℕ → List Step → Option Fault
  | _, [] =>
    let missing := StepRole.all.filter fun r => r ∉ seen
    if missing = [] then none
    else some ⟨base, Text.lit "étape manquante : " ++
      (Text.lit ", ").intercalate (missing.map StepRole.label)⟩
  | j, step :: rest =>
    match if step.type = .et then role else step.type.role? with
    | none => some ⟨base ++ Text.lit "/" ++ Text.ofNat j,
        Text.lit "une étape « Et » ne suit aucune autre étape"⟩
    | some effective =>
      match role.filter fun r => effective.order < r.order with
      | some r => some ⟨base ++ Text.lit "/" ++ Text.ofNat j,
          Text.lit "l'étape " ++ quoted effective.label ++ Text.lit " suit une étape " ++
            quoted r.label⟩
      | none => faultFrom base (effective :: seen) (some effective) (j + 1) rest

/-- The first fault of a criterion: a step out of place, or else a part that is missing. -/
def firstFault (c : Criterion) (base : Text) : Option Fault := faultFrom base [] none 0 c.etapes

/-- The criteria of a feature that is no draft have their steps, in order. -/
def checkCriteriaSteps (path : Text) (f : Feature) : List SpecIssue :=
  if f.statut = .brouillon then []
  else
    forEach f.criteres fun c i =>
      match firstFault c (Text.lit "/criteres/" ++ Text.ofNat i ++ Text.lit "/etapes") with
      | none => []
      | some fault => [ruleIssue .rule5 .r5CriterionIncomplete path fault.pointer (some f.id)
          (Text.lit "Le critère " ++ c.id ++ Text.lit " de la feature " ++ f.id ++
            Text.lit " est incomplet ou mal ordonné (" ++ fault.reason ++
            Text.lit ") ; l'ordre attendu est Étant donné, Quand, Alors.")]

/-! ## Statuses -/

section

variable (spec : ParsedSpec) (index : SpecIndex)

/-- The feature has a screen or an endpoint. -/
def specifiedIsCovered (id : Text) : Bool :=
  match spec.features.find? fun f => f.value.id = id with
  | none => false
  | some feature =>
    feature.value.ecrans.any (fun s => s ∈ index.screens) ||
      feature.value.endpoints.any (fun e => e ∈ index.endpoints) ||
      spec.screens.any fun s => id ∈ s.value.features

/-- The criteria that a test covers, by feature. -/
def testedCriteria : OrderedMap Text (List Text) :=
  spec.tests.foldl (fun tested t =>
    tested.set t.value.feature ((tested.get t.value.feature).getD [] ++ t.value.criteres)) []

/-- An implemented feature has criteria, all of them tested. -/
def checkImplemented (path : Text) (f : Feature) (tested : OrderedMap Text (List Text)) :
    List SpecIssue :=
  (if f.criteres = [] then
    [ruleIssue .rule5 .r5ImplementedWithoutCriteria path (Text.lit "/criteres") (some f.id)
      (Text.lit "La feature " ++ f.id ++
        Text.lit " est implémentée mais n'a aucun critère d'acceptation.")] else []) ++
  forEach f.criteres fun c i =>
    if c.id ∈ (tested.get f.id).getD [] then []
    else [ruleIssue .rule5 .r5ImplementedCriterionWithoutTest path
      (Text.lit "/criteres/" ++ Text.ofNat i) (some f.id)
      (Text.lit "Le critère " ++ c.id ++ Text.lit " de la feature " ++ f.id ++
        Text.lit " n'est couvert par aucun test alors que la feature est implémentée.")]

/-- What the status of a feature asks for. -/
def checkStatus (tested : OrderedMap Text (List Text)) (path : Text) (f : Feature) :
    List SpecIssue :=
  if f.statut = .implementee then checkImplemented path f tested
  else if f.statut ≠ .specifiee ∨ specifiedIsCovered spec index f.id = true then []
  else [ruleIssue .rule5 .r5SpecifiedWithoutScreenOrEndpoint path [] (some f.id)
    (Text.lit "La feature " ++ f.id ++
      Text.lit " est spécifiée mais n'a aucun écran ni endpoint existant.")]

/-- **Rule 5**: a feature has what its status asks for. -/
def checkRule5 : List SpecIssue :=
  spec.features.flatMap fun parsed =>
    checkCriteriaSteps parsed.path parsed.value ++
      checkStatus spec index (testedCriteria spec) parsed.path parsed.value

end

end Koklo.Schema
