import Koklo.Schema.Rule5

/-!
# Rule 7, and the validation of a specification

What nothing refers to is reported as a warning. A specification is validated by the rules 4, 5 and 7;
files are checked by reading them and validating what they give.
-/

set_option autoImplicit false

namespace Koklo.Schema

open Koklo.Foundations

/-! ## What is referred to -/

/-- The tables and the endpoints that are referred to. -/
structure Referenced where
  tables : List Text
  endpoints : List Text

def Referenced.append (a b : Referenced) : Referenced :=
  ⟨a.tables ++ b.tables, a.endpoints ++ b.endpoints⟩

/-- The table of a reference. -/
def tableOfRef (value : Text) : List Text :=
  match parseDataRef value with
  | some ref => [ref.table]
  | none => []

/-- What an annotation refers to. -/
def collectFromAnnotation (a : Annotation) : Referenced :=
  ⟨a.donnee.toList.flatMap tableOfRef, a.endpoint.toList⟩

mutual

/-- What a node and those below it refer to. -/
def collectFromNode : SpecNode → Referenced
  | .mk _ _ enfants annotations =>
    let own := (annotations.getD []).map collectFromAnnotation
    Referenced.append ⟨own.flatMap Referenced.tables, own.flatMap Referenced.endpoints⟩
      (collectFromEnfants enfants)

def collectFromEnfants : Option (List SpecNode) → Referenced
  | none => ⟨[], []⟩
  | some enfants => collectFromNodes enfants

def collectFromNodes : List SpecNode → Referenced
  | [] => ⟨[], []⟩
  | node :: rest => (collectFromNode node).append (collectFromNodes rest)

end

section

variable (spec : ParsedSpec) (index : SpecIndex)

/-- The tables of the relations. -/
def collectFromRelations : List Text :=
  spec.relations.flatMap fun parsed =>
    parsed.value.relations.flatMap fun r => tableOfRef r.source ++ tableOfRef r.target

/-- What the specification refers to. -/
def collectReferences : Referenced :=
  let screens := spec.screens.map fun parsed => collectFromNode parsed.value.arbre
  { tables := (spec.features.flatMap fun parsed => parsed.value.tables) ++
      (spec.endpoints.flatMap fun parsed => parsed.value.tables.getD []) ++
      collectFromRelations spec ++ screens.flatMap Referenced.tables
    endpoints := (spec.features.flatMap fun parsed => parsed.value.endpoints) ++
      screens.flatMap Referenced.endpoints }

/-! ## Orphans -/

def warn (code : IssueCode) (path pointer id message : Text) : SpecIssue :=
  ruleIssue .rule7 code path pointer (some id) message

/-- Roles, permissions and rules that are never used. -/
def checkDomainOrphans : List SpecIssue :=
  let citedRoles := (spec.features.flatMap fun f => f.value.roles) ++
    spec.screens.flatMap fun s => s.value.roles
  let citedRules := spec.features.flatMap fun f => f.value.regles
  let held := spec.roles.flatMap fun f => f.value.roles.flatMap Role.permissions
  (spec.roles.flatMap fun parsed => forEach parsed.value.roles fun r i =>
    if r.id ∈ citedRoles then []
    else [warn .r7OrphanRole parsed.path (Text.lit "/roles/" ++ Text.ofNat i) r.id
      (Text.lit "Le rôle " ++ r.id ++ Text.lit " n'est cité par aucune feature ni aucun écran.")]) ++
  (spec.roles.flatMap fun parsed => forEach parsed.value.permissions fun p i =>
    if p.id ∈ held then []
    else [warn .r7OrphanPermission parsed.path (Text.lit "/permissions/" ++ Text.ofNat i) p.id
      (Text.lit "La permission " ++ p.id ++ Text.lit " n'est détenue par aucun rôle.")]) ++
  (spec.rules.filter fun parsed => parsed.value.id ∉ citedRules).map fun parsed =>
    warn .r7OrphanRule parsed.path [] parsed.value.id
      (Text.lit "La règle " ++ parsed.value.id ++ Text.lit " n'est citée par aucune feature.")

/-- **Rule 7**: what nothing refers to gets a warning. -/
def checkRule7 : List SpecIssue :=
  let used := collectReferences spec
  let cited := spec.features.flatMap fun f => f.value.ecrans
  ((spec.tables.filter fun parsed => parsed.value.id ∉ used.tables).map fun parsed =>
    warn .r7OrphanTable parsed.path [] parsed.value.id
      (Text.lit "La table " ++ parsed.value.id ++ Text.lit
        " n'est référencée par aucune feature, endpoint, relation ni annotation.")) ++
  ((spec.endpoints.filter fun parsed => parsed.value.id ∉ used.endpoints).map fun parsed =>
    warn .r7OrphanEndpoint parsed.path [] parsed.value.id
      (Text.lit "L'endpoint " ++ parsed.value.id ++
        Text.lit " n'est référencé par aucune feature ni annotation.")) ++
  ((spec.screens.filter fun parsed => parsed.value.id ∉ cited ∧
      ¬parsed.value.features.any fun f => f ∈ index.features.keys).map fun parsed =>
    warn .r7OrphanScreen parsed.path [] parsed.value.id
      (Text.lit "L'écran " ++ parsed.value.id ++ Text.lit
        " n'est cité par aucune feature et ne cite aucune feature existante.")) ++
  ((spec.tests.filter fun parsed => parsed.value.feature ∉ index.features.keys).map fun parsed =>
    warn .r7OrphanTest parsed.path [] parsed.value.feature
      (Text.lit "Le scénario de test vise la feature " ++ parsed.value.feature ++
        Text.lit ", qui n'existe pas.")) ++
  checkDomainOrphans spec

/-! ## Validation -/

/-- Rules 4, 5 and 7 on the entities that were read. -/
def validateSpec : ValidationReport :=
  let index := buildIndex spec
  buildReport (checkRule4 index spec ++ checkRule5 spec index ++ checkRule7 spec index)

end

/-- The whole report on files, structure included. -/
def checkSpec (readers : Readers) (files : List SpecFile) : ValidationReport :=
  let parsed := parseSpecFiles readers files
  buildReport (parsed.2 ++ (validateSpec parsed.1).issues)

end Koklo.Schema
