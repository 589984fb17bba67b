import Koklo.SprintImport.TicketDraft

/-!
# The zone of tasks

The lines of the sections of tasks are read one by one. A head opens a ticket and closes the one
before it; what is indented belongs to the ticket that is open: its fields, and the items of its two
lists. Each line gets an entry in the zone (recognised, ignored or wrong), and a ticket that is
closed is kept or refused.
-/

set_option autoImplicit false

namespace Koklo.SprintImport

open Koklo.Foundations

/-! ## Expressions -/

/-- The dot of an expression. -/
def dot (u : CodeUnit) : Bool := !Text.isLineTerminator u

/-- `\S.*`. -/
def visibleText : Regex CodeUnit := .seq (.unit (!Text.isSpace ·)) (.greedy 0 dot)

/-- `[ xX]`. -/
def box : Regex CodeUnit := .capture (.unit (· ∈ Text.lit " xX"))

/-- `TK-[1-9][0-9]*`. -/
def keyRegex : Regex CodeUnit :=
  .seq (.text (Text.lit "TK-")) (.seq (.unit fun u => Text.isDigit u && u ≠ 0x30)
    (.greedy 0 Text.isDigit))

/-- `HEAD`: `/^- \[([ xX])\] \*\*\[(TK-[1-9][0-9]*)\]\*\* (\S.*)$/`. -/
def headRegex : Regex CodeUnit :=
  .seq (.text (Text.lit "- [")) (.seq box (.seq (.text (Text.lit "] **["))
    (.seq (.capture keyRegex) (.seq (.text (Text.lit "]** ")) (.capture visibleText)))))

/-- `LOOSE_HEAD`: `/^- \[.?\]/`. -/
def looseHead : RegExp Empty :=
  .seqs [.start, .text (Text.lit "- ["), .optional (.unit dot), .text (Text.lit "]")]

/-- `ITEM`: `/^( {4,})- (.*)$/`. -/
def itemRegex : Regex CodeUnit :=
  .seq (.capture (.greedy 4 (· = 0x20))) (.seq (.text (Text.lit "- ")) (.capture (.greedy 0 dot)))

/-- `CRITERION`: `/^\[([ xX])\] (\S.*)$/`. -/
def criterionRegex : Regex CodeUnit :=
  .seq (.text (Text.lit "[")) (.seq box (.seq (.text (Text.lit "] ")) (.capture visibleText)))

/-- `STATUS` with one of its two words: `/^(?:✅|🔁)\s*\*\*…\*\*/`. -/
def statusPattern (status : DraftStatus) : RegExp Empty :=
  .seqs [.start, .oneOf (.text (Text.lit "✅")) [.text (Text.lit "🔁")],
    .many (.unit Text.isSpace), .text (Text.lit "**" ++ status.label ++ Text.lit "**")]

def FieldName.label : FieldName → Text
  | statut => Text.lit "Statut"
  | labels => Text.lit "Labels"
  | agent => Text.lit "Agent"
  | workflow => Text.lit "Workflow"
  | dependDe => Text.lit "Dépend de"
  | source => Text.lit "Source"
  | aFaire => Text.lit "À faire"
  | criteres => Text.lit "Critères d'acceptation"

/-- The alternatives of `FIELD`, in its order. -/
def FieldName.all : List FieldName :=
  [.statut, .labels, .agent, .workflow, .dependDe, .source, .aFaire, .criteres]

/-- `FIELD` with one of its names: `/^ {2}- … ?:(.*)$/`, the space before the colon or not. -/
def fieldRegex (name : FieldName) (colon : Text) : Regex CodeUnit :=
  .seq (.text (Text.lit "  - " ++ name.label ++ colon)) (.capture (.greedy 0 dot))

/-- The field of a line, and its value. -/
def fieldOf (raw : Text) : Option (FieldName × Text) :=
  FieldName.all.findSome? fun name => [Text.lit " :", Text.lit ":"].findSome? fun colon =>
    ((fieldRegex name colon).exec raw).map fun groups => (name, Text.trim (groups.headD []))

/-! ## The parser -/

/-- What becomes of a line of the zone. -/
inductive ZoneEntry where
  | recognized (line : ℕ)
  | ignored (line : ℕ) (code : ReasonCode)
  | error (line : ℕ) (code : ReasonCode)
deriving DecidableEq

def ZoneEntry.line : ZoneEntry → ℕ
  | recognized line => line
  | ignored line _ => line
  | error line _ => line

/-- A ticket that is refused: its line, and its key when its head has one. -/
structure RejectedTicket where
  line : ℕ
  key : Option Text
deriving DecidableEq

/-- What has been read of the zone, and the ticket that is open. -/
structure TaskZoneParser where
  file : Text
  zone : List ZoneEntry
  report : List ReportLine
  tickets : List ParsedTicket
  rejected : List RejectedTicket
  heads : ℕ
  draft : Option Draft
deriving DecidableEq

/-- A parser before the first line. -/
def TaskZoneParser.start (file : Text) : TaskZoneParser := ⟨file, [], [], [], [], 0, none⟩

namespace TaskZoneParser

def hasWithoutTasksNotice (parser : TaskZoneParser) : Bool :=
  parser.report.any (·.code = .sprintWithoutTasks)

/-! ### What is made of a line -/

/-- A line that is left out. -/
def ignore (parser : TaskZoneParser) (line : MarkedLine) (code : ReasonCode) : TaskZoneParser :=
  { parser with
    report := parser.report ++
      [reportLine parser.file line.toSourceLine code .ignored line.raw none]
    zone := parser.zone ++ [.ignored line.n code] }

/-- A line that is read. -/
def recognize (parser : TaskZoneParser) (line : MarkedLine) : TaskZoneParser :=
  { parser with zone := parser.zone ++ [.recognized line.n] }

/-- A line that is read, and reported. -/
def warn (parser : TaskZoneParser) (line : MarkedLine) (code : ReasonCode) (text : Text) :
    TaskZoneParser :=
  recognize { parser with
    report := parser.report ++
      [reportLine parser.file line.toSourceLine code .warning text none] } line

/-- A line that is wrong. -/
def fail (parser : TaskZoneParser) (line : MarkedLine) (message : Text) : TaskZoneParser :=
  { parser with
    report := parser.report ++ [reportLine parser.file line.toSourceLine .unknownLine .error
      (Text.trim line.raw ++ Text.lit " (" ++ message ++ Text.lit ")") none]
    zone := parser.zone ++ [.error line.n .unknownLine] }

/-! ### Tickets -/

/-- The line of the report of a problem. -/
def problemLine (file : Text) (draft : Draft) (problem : Problem) : ReportLine :=
  reportLine file ⟨draft.line, draft.rawHead⟩ problem.code problem.severity
    (Text.trim draft.rawHead ++ Text.lit " (" ++ problem.message ++ Text.lit ")") draft.key

/-- The code of the first error of a ticket that is refused. -/
def refusalCode (problems : List Problem) : ReasonCode :=
  ((problems.find? (·.severity = .error)).map Problem.code).getD .unknownLine

/-- The ticket that is open becomes a ticket or is refused, and its head is then an error. -/
def closeDraft (parser : TaskZoneParser) : TaskZoneParser :=
  match parser.draft with
  | none => parser
  | some draft =>
    let closed := { parser with draft := none }
    if draft.key = none then { closed with rejected := closed.rejected ++ [⟨draft.line, none⟩] }
    else
      let (ticket, problems) := finalizeDraft draft
      let reported := { closed with
        report := closed.report ++ problems.map (problemLine parser.file draft) }
      match ticket with
      | some ticket => { reported with tickets := reported.tickets ++ [ticket] }
      | none => { reported with
          rejected := reported.rejected ++ [⟨draft.line, draft.key⟩]
          zone := reported.zone.set draft.zoneIndex (.error draft.line (refusalCode problems)) }

/-- A ticket without fields. -/
def newDraft (line : MarkedLine) (key : Option Text) (checked : Bool) (title : Text)
    (zoneIndex : ℕ) : Draft where
  line := line.n
  rawHead := line.raw
  key := key
  title := Text.trim title
  checked := checked
  zoneIndex := zoneIndex
  status := none
  labels := none
  depends := none
  source := none
  todo := none
  criteria := none
  openList := none
  seen := []

/-- A head closes the ticket that is open, and opens another one. -/
def startDraft (parser : TaskZoneParser) (line : MarkedLine) (key : Option Text) (checked : Bool)
    (title : Text) : TaskZoneParser :=
  let closed := parser.closeDraft
  let opened := { closed with
    heads := closed.heads + 1
    draft := some (newDraft line key checked title closed.zone.length) }
  if key = none then opened else opened.recognize line

/-- A line that is not indented. -/
def topLevel (parser : TaskZoneParser) (line : MarkedLine) : TaskZoneParser :=
  match headRegex.exec line.raw with
  | some [mark, key, title] => parser.startDraft line (some key) (mark ≠ Text.lit " ") title
  | _ =>
    if looseHead.test line.raw then
      (parser.startDraft line none false []).fail line
        (Text.lit "tête de ticket mal formée, attendu : - [ ] **[TK-n]** titre")
    else if Text.lit "Aucune tâche" <+: line.raw then parser.ignore line .sprintWithoutTasks
    else parser.fail line (Text.lit "ligne inattendue dans la zone des tâches")

/-! ### Fields -/

/-- The parser with another draft. -/
def withDraft (parser : TaskZoneParser) (draft : Draft) : TaskZoneParser :=
  { parser with draft := some draft }

/-- The status of a value. -/
def statusOf (value : Text) : Option DraftStatus :=
  [DraftStatus.livree, .rouverte].find? fun status => (statusPattern status).test value

/-- `/^aucune$/i`. -/
def isAucune (value : Text) : Bool := value.map Text.foldCase = Text.lit "aucune"

/-- The pieces of a list with commas, trimmed. -/
def commaList (value : Text) : List Text := (value.splitOn 0x2C).map Text.trim

/-- The keys of the tickets that a ticket depends on. -/
def readDepends (parser : TaskZoneParser) (draft : Draft) (value : Text) (line : MarkedLine) :
    TaskZoneParser :=
  let keys := commaList value
  if isAucune value then (parser.withDraft { draft with depends := some [] }).recognize line
  else if keys.all fun key => (keyRegex.exec key).isSome then
    (parser.withDraft { draft with depends := some (uniqueItems keys) }).recognize line
  else (parser.withDraft { draft with depends := some [] }).fail line
    (Text.lit "dépendances mal formées")

/-- `FIELD_HANDLERS`. -/
def handleField (parser : TaskZoneParser) (draft : Draft) (value : Text) (line : MarkedLine) :
    FieldName → TaskZoneParser
  | .statut =>
    match statusOf value with
    | some status => (parser.withDraft { draft with status := some status }).recognize line
    | none => (parser.withDraft draft).warn line .statusLineUnparsable (Text.trim line.raw)
  | .labels =>
    (parser.withDraft { draft with
      labels := some ((commaList value).filter (· ≠ [])) }).recognize line
  | .agent => (parser.withDraft draft).ignore line .fieldNotImported
  | .workflow => (parser.withDraft draft).ignore line .fieldNotImported
  | .dependDe => parser.readDepends draft value line
  | .source => (parser.withDraft { draft with source := some value }).recognize line
  | .aFaire =>
    (parser.withDraft { draft with
      openList := some .todo
      todo := some (if value = [] then [] else [Text.lit "- " ++ value]) }).recognize line
  | .criteres =>
    let opened := parser.withDraft { draft with
      openList := some .criteria
      criteria := some [] }
    if value = [] then opened.recognize line
    else opened.fail line (Text.lit "texte inattendu après le titre de la liste")

/-- A field is read once; it closes the list that was open. -/
def field (parser : TaskZoneParser) (draft : Draft) (line : MarkedLine) (name : FieldName)
    (value : Text) : TaskZoneParser :=
  if name ∈ draft.seen then
    parser.fail line (Text.lit "champ « " ++ name.label ++ Text.lit " » en double")
  else
    parser.handleField { draft with seen := draft.seen ++ [name], openList := none } value line name

/-! ### Items -/

/-- The text that an item adds to the last statement. -/
def continueLast (content : Text) (criteria : List ParsedCriterion) : List ParsedCriterion :=
  criteria.dropLast ++ (criteria.getLast?.map fun last =>
    { last with statement := last.statement ++ Text.lit " " ++ Text.trim content }).toList

/-- An item of the criteria, or the end of the one before it. -/
def criterion (parser : TaskZoneParser) (draft : Draft) (line : MarkedLine) (indent : ℕ)
    (content : Text) : TaskZoneParser :=
  let list := draft.criteria.getD []
  if 4 < indent ∧ list ≠ [] then
    (parser.withDraft { draft with criteria := some (continueLast content list) }).recognize line
  else
    match criterionRegex.exec content with
    | some [mark, statement] =>
      if 4 < indent then
        (parser.withDraft { draft with criteria := some list }).fail line
          (Text.lit "critère sans case à cocher")
      else
        (parser.withDraft { draft with
          criteria := some (list ++
            [⟨Text.trim statement, mark ≠ Text.lit " "⟩]) }).recognize line
    | _ =>
      (parser.withDraft { draft with criteria := some list }).fail line
        (Text.lit "critère sans case à cocher")

/-- An item belongs to the list that is open. -/
def item (parser : TaskZoneParser) (draft : Draft) (line : MarkedLine) (indent : ℕ)
    (content : Text) : TaskZoneParser :=
  match draft.openList with
  | some .todo =>
    (parser.withDraft { draft with
      todo := some (draft.todo.getD [] ++
        [List.replicate (indent - 4) 0x20 ++ Text.lit "- " ++ content]) }).recognize line
  | some .criteria => parser.criterion draft line indent content
  | none => parser.fail line (Text.lit "puce hors d'une liste À faire ou Critères")

/-- A line of the ticket that is open. -/
def indented (parser : TaskZoneParser) (line : MarkedLine) : TaskZoneParser :=
  match parser.draft with
  | none => parser.fail line (Text.lit "ligne indentée hors d'un ticket")
  | some draft =>
    match fieldOf line.raw with
    | some (name, value) => parser.field draft line name value
    | none =>
      match itemRegex.exec line.raw with
      | some [indent, content] => parser.item draft line indent.length content
      | _ => parser.fail line (Text.lit "ligne non reconnue dans un ticket")

/-! ### Feeding -/

/-- One more line. -/
def feed (parser : TaskZoneParser) (line : MarkedLine) : TaskZoneParser :=
  if line.mark = some .comment then parser.ignore line .comment
  else if line.mark = some .progress then parser.ignore line .sectionNotImported
  else if Text.trim line.raw = [] then parser.ignore line .blank
  else if Text.lit " " <+: line.raw then parser.indented line
  else parser.topLevel line

def finish (parser : TaskZoneParser) : TaskZoneParser := parser.closeDraft

end TaskZoneParser

end Koklo.SprintImport
