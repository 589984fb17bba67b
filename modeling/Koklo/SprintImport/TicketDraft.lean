import Koklo.Foundations.Regex
import Koklo.SprintImport.SprintLines
import Koklo.Foundations.StableSort

/-!
# Tickets that are being read

The fields of a ticket are kept as they are read and checked when it is closed (`finalizeDraft`): a
ticket without a package or a sensitivity is refused, and what is wrong with a ticket comes with a
code, a severity and a message.
-/

set_option autoImplicit false

namespace Koklo.SprintImport

open Koklo.Foundations

/-! ## Packages -/

/-- `TICKET_PACKAGES`. -/
inductive TicketPackage where
  | web
  | api
  | worker
  | contract
  | db
  | domain
  | schema
  | github
  | rules
  | delivery
  | cli
  | ui
  | config
  | e2e
  | infra
deriving DecidableEq

namespace TicketPackage

def all : List TicketPackage := [web, api, worker, contract, db, domain, schema, github, rules,
  delivery, cli, ui, config, e2e, infra]

def name : TicketPackage → Text
  | web => Text.lit "web"
  | api => Text.lit "api"
  | worker => Text.lit "worker"
  | contract => Text.lit "contract"
  | db => Text.lit "db"
  | domain => Text.lit "domain"
  | schema => Text.lit "schema"
  | github => Text.lit "github"
  | rules => Text.lit "rules"
  | delivery => Text.lit "delivery"
  | cli => Text.lit "cli"
  | ui => Text.lit "ui"
  | config => Text.lit "config"
  | e2e => Text.lit "e2e"
  | infra => Text.lit "infra"

/-- The package of a name. -/
def named (value : Text) : Option TicketPackage := all.find? (·.name = value)

end TicketPackage

/-- `parseTicketPackage` of a text: an empty one, several ones and an unknown one are refused. -/
def parseTicketPackage (value : Text) : Option TicketPackage :=
  if value = [] ∨ 0x2C ∈ value then none else TicketPackage.named value

/-! ## Drafts -/

/-- Whether what a ticket changes is sensitive. -/
inductive Sensitivity where
  | safe
  | sensitive
deriving DecidableEq

/-- What the line of status of a ticket says. -/
inductive DraftStatus where
  | livree
  | rouverte
deriving DecidableEq

def DraftStatus.label : DraftStatus → Text
  | livree => Text.lit "livrée"
  | rouverte => Text.lit "rouverte"

/-- The state of a ticket that is imported. -/
inductive TicketState where
  | done
  | todo
deriving DecidableEq

/-- A criterion of acceptance, and its box. -/
structure ParsedCriterion where
  statement : Text
  proven : Bool
deriving DecidableEq

/-- The fields of a ticket, by their labels. -/
inductive FieldName where
  | statut
  | labels
  | agent
  | workflow
  | dependDe
  | source
  | aFaire
  | criteres
deriving DecidableEq

/-- The lists that the items of a ticket are added to. -/
inductive OpenList where
  | todo
  | criteria
deriving DecidableEq

/-- A ticket that is being read. -/
structure Draft where
  line : ℕ
  rawHead : Text
  key : Option Text
  title : Text
  checked : Bool
  zoneIndex : ℕ
  status : Option DraftStatus
  labels : Option (List Text)
  depends : Option (List Text)
  source : Option Text
  todo : Option (List Text)
  criteria : Option (List ParsedCriterion)
  openList : Option OpenList
  seen : List FieldName
deriving DecidableEq

/-- A ticket that is kept. -/
structure ParsedTicket where
  key : Text
  title : Text
  line : ℕ
  state : TicketState
  pkg : TicketPackage
  packageInferred : Bool
  sensitivity : Sensitivity
  labels : List Text
  dependsOn : List Text
  description : Text
  criteria : List ParsedCriterion
deriving DecidableEq

/-- What is wrong with a ticket. -/
structure Problem where
  code : ReasonCode
  severity : Severity
  message : Text
deriving DecidableEq

/-! ## Choices -/

/-- `/^(?:apps|packages)\/([a-z0-9-]+)/`. -/
def scopedTitle (root : Text) : Regex CodeUnit :=
  .seq (.text (root ++ Text.lit "/"))
    (.capture (.greedy 1 fun u => Text.isLower u || Text.isDigit u || u = 0x2D))

/-- The package that the start of a title names. -/
def scopedPackage (title : Text) : Option TicketPackage :=
  ([Text.lit "apps", Text.lit "packages"].findSome? fun root =>
    Regex.preferred (scopedTitle root) title fun o => o.1.head?).bind TicketPackage.named

/-- `/^e2e\b/i`. -/
def e2eTitle : RegExp Empty := .seqs [.start, .word "e2e", .boundary]

/-- `/^web\s*:/i`. -/
def webTitle : RegExp Empty :=
  .seqs [.start, .word "web", .many (.unit Text.isSpace), .text (Text.lit ":")]

/-- The package that a title stands for, when no label names one. -/
def inferPackage (title : Text) : Option TicketPackage :=
  match scopedPackage title with
  | some pkg => some pkg
  | none =>
    if e2eTitle.test title then some .e2e else if webTitle.test title then some .web else none

/-- The package of a ticket, and what is wrong with it. -/
structure PackageChoice where
  pkg : Option TicketPackage
  inferred : Bool
  problem : Option Problem

/-- A ticket without one package. -/
def failure (message : Text) : Problem := ⟨.missingPackage, .error, message⟩

/-- `pkg:`. -/
def packagePrefix : Text := Text.lit "pkg:"

/-- The package of a ticket: that of its only label `pkg:`, or that of its title. -/
def choosePackage (labels : List Text) (title : Text) : PackageChoice :=
  match (labels.filter (packagePrefix <+: ·)).map (·.drop 4) with
  | [] =>
    match inferPackage title with
    | some pkg => ⟨some pkg, true, some ⟨.missingPackage, .warning,
        Text.lit "paquet déduit du titre : " ++ pkg.name⟩⟩
    | none => ⟨none, false,
        some (failure (Text.lit "aucun label pkg:* et paquet non déductible du titre"))⟩
  | [declared] =>
    match parseTicketPackage declared with
    | some pkg => ⟨some pkg, false, none⟩
    | none => ⟨none, false, some (failure (Text.lit "paquet inconnu : " ++ declared))⟩
  | _ :: _ :: _ => ⟨none, false, some (failure (Text.lit "plusieurs labels pkg:*"))⟩

/-- The sensitivity of a label. -/
def sensitivityOf (label : Text) : Option Sensitivity :=
  if label = Text.lit "safe" then some .safe
  else if label = Text.lit "sensitive" then some .sensitive
  else none

/-- The sensitivity, when the labels say only one. -/
def chooseSensitivity (labels : List Text) : Option Sensitivity :=
  match uniqueItems (labels.filterMap sensitivityOf) with
  | [only] => some only
  | _ => none

/-- The state of a ticket: its status wins over its box. -/
def stateOf (draft : Draft) : TicketState × Option Problem :=
  let byBox : TicketState := if draft.checked then .done else .todo
  match draft.status with
  | none => (byBox, none)
  | some status =>
    let byStatus : TicketState := if status = .livree then .done else .todo
    (byStatus, if byStatus = byBox then none else some ⟨.statusConflict, .warning,
      Text.lit "case " ++ (if draft.checked then Text.lit "cochée" else Text.lit "vide") ++
        Text.lit " mais statut « " ++ status.label ++ Text.lit " » : le statut l'emporte"⟩)

/-- The description of a ticket. -/
def describe (draft : Draft) : Text :=
  let source := match draft.source with
    | none => []
    | some [] => []
    | some value => Text.lit "Source : " ++ value
  (Text.lit "\n\n").intercalate
    ([Text.joinLines (draft.todo.getD []), source].filter (· ≠ []))

/-- `TITLE_MAX`. -/
def titleMax : ℕ := 300

/-- `DESCRIPTION_MAX`. -/
def descriptionMax : ℕ := 20000

/-- `STATEMENT_MAX`. -/
def statementMax : ℕ := 2000

def tooLong (what : Text) : Problem := ⟨.unknownLine, .error, what ++ Text.lit " trop long"⟩

/-- What is too long in a ticket. -/
def sizeProblems (title description : Text) (criteria : List ParsedCriterion) : List Problem :=
  (if titleMax < title.length then [tooLong (Text.lit "titre")] else []) ++
    (if descriptionMax < description.length then [tooLong (Text.lit "description")] else []) ++
    if criteria.any (statementMax < ·.statement.length) then [tooLong (Text.lit "critère")] else []

def sensitivityProblem (labels : Option (List Text)) : Problem :=
  ⟨.missingSensitivity, .error, if labels = none then Text.lit "ligne Labels absente"
    else Text.lit "sensibilité (safe ou sensitive) absente ou ambiguë"⟩

/-! ## Closing a draft -/

/-- The labels that are kept. -/
def otherLabels (labels : List Text) : List Text :=
  labels.filter fun label => ¬ packagePrefix <+: label ∧ sensitivityOf label = none

/-- What is wrong with a draft. -/
def problemsOf (draft : Draft) : List Problem :=
  let labels := draft.labels.getD []
  (choosePackage labels draft.title).problem.toList ++
    (if chooseSensitivity labels = none then [sensitivityProblem draft.labels] else []) ++
    (stateOf draft).2.toList ++
    sizeProblems draft.title (describe draft) (draft.criteria.getD [])

/-- The ticket of a draft, if it is one, and what is wrong with it. -/
def finalizeDraft (draft : Draft) : Option ParsedTicket × List Problem :=
  let labels := draft.labels.getD []
  let choice := choosePackage labels draft.title
  let ticket := (draft.key.filter (· ≠ [])).bind fun key => choice.pkg.bind fun pkg =>
    (chooseSensitivity labels).map fun sensitivity =>
      { key := key
        title := draft.title
        line := draft.line
        state := (stateOf draft).1
        pkg := pkg
        packageInferred := choice.inferred
        sensitivity := sensitivity
        labels := otherLabels labels
        dependsOn := draft.depends.getD []
        description := describe draft
        criteria := draft.criteria.getD [] }
  (if (problemsOf draft).any (·.severity = .error) then none else ticket, problemsOf draft)

/-- The ticket of a draft bears its key, and stands at its line. -/
theorem finalizeDraft_some {draft : Draft} {ticket : ParsedTicket}
    (made : (finalizeDraft draft).1 = some ticket) :
    draft.key = some ticket.key ∧ ticket.line = draft.line := by
  rw [finalizeDraft] at made
  dsimp only at made
  split at made
  · cases made
  · obtain ⟨key, keyed, rest⟩ := Option.bind_eq_some_iff.mp made
    obtain ⟨pkg, -, rest⟩ := Option.bind_eq_some_iff.mp rest
    obtain ⟨sensitivity, -, rfl⟩ := Option.map_eq_some_iff.mp rest
    exact ⟨Option.eq_some_of_filter_eq_some keyed, rfl⟩

end Koklo.SprintImport
