import Koklo.Foundations.RegExp

/-!
# The lines of a sprint file

A sprint file is cut into numbered lines. Those of HTML comments and of the block
`shipyard-progress` are marked, and the others that start with `## ` open the sections of the file.
What is not imported goes to a report, with its line, a code and a severity.
-/

set_option autoImplicit false

namespace Koklo.SprintImport

open Koklo.Foundations

/-! ## The report -/

/-- Why a line is not imported: those of `REASON_CODES` that a file is read with. -/
inductive ReasonCode where
  | blank
  | comment
  | fieldNotImported
  | humanAction
  | missingPackage
  | missingSensitivity
  | sectionNotImported
  | sprintDod
  | sprintWithoutTasks
  | statusConflict
  | statusLineUnparsable
  | unknownLine
deriving DecidableEq

/-- How much a line of the report matters. -/
inductive Severity where
  | ignored
  | warning
  | error
deriving DecidableEq

/-- A line of the report: a line of a file, with a text of its own. -/
structure ReportLine where
  file : Text
  line : ℕ
  text : Text
  code : ReasonCode
  severity : Severity
  key : Option Text
deriving DecidableEq

/-- `TEXT_LIMIT`. -/
def textLimit : ℕ := 200

/-- A text of the report: trimmed, and cut at the limit. -/
def clip (text : Text) : Text :=
  let trimmed := Text.trim text
  if textLimit < trimmed.length then trimmed.take textLimit ++ Text.lit "…" else trimmed

/-! ## Lines -/

/-- A line of a file, counted from one, without its end. -/
structure SourceLine where
  n : ℕ
  raw : Text
deriving DecidableEq

/-- The lines that hold nothing of a ticket. -/
inductive LineMark where
  | comment
  | progress
deriving DecidableEq

/-- A line, and what it is when it holds nothing of a ticket. -/
structure MarkedLine extends SourceLine where
  mark : Option LineMark
deriving DecidableEq

def reportLine (file : Text) (line : SourceLine) (code : ReasonCode) (severity : Severity)
    (text : Text) (key : Option Text) : ReportLine :=
  ⟨file, line.n, clip text, code, severity, key⟩

/-- A piece between line feeds, without the carriage return at its end. -/
def withoutReturn (raw : Text) : Text := if raw.getLast? = some 0x0D then raw.dropLast else raw

/-- The lines of a text. -/
def toLines (text : Text) : List SourceLine :=
  (Text.lines text).mapIdx fun index raw => ⟨index + 1, withoutReturn raw⟩

/-- Whether a comment is open, and the block of progress. -/
structure MarkState where
  commentOpen : Bool
  progress : Bool

/-- What a line makes of the state, and its mark. -/
def markLine (state : MarkState) (line : SourceLine) : MarkState × Option LineMark :=
  let trimmed := Text.trim line.raw
  let goesOn : Bool := ¬ Text.lit "-->" <:+: trimmed
  if state.commentOpen then (⟨goesOn, state.progress⟩, some .comment)
  else if Text.lit "<!--" <+: trimmed then
    let started := state.progress || decide (Text.lit "shipyard-progress:start" <:+: trimmed)
    (⟨goesOn, started && decide (¬ Text.lit "shipyard-progress:end" <:+: trimmed)⟩, some .comment)
  else (state, if state.progress then some .progress else none)

/-- The lines with their marks, after those that have led to a state. -/
def markFrom : MarkState → List SourceLine → List MarkedLine
  | _, [] => []
  | state, line :: lines =>
    ⟨line, (markLine state line).2⟩ :: markFrom (markLine state line).1 lines

/-- The lines of a file with their marks. -/
def markLines (lines : List SourceLine) : List MarkedLine := markFrom ⟨false, false⟩ lines

/-! ## Sections -/

/-- What a section is about. -/
inductive SectionKind where
  | goal
  | tasks
  | period
  | human
  | dod
  | risks
  | runs
  | other
deriving DecidableEq

/-- A heading and the lines under it. -/
structure Section where
  kind : SectionKind
  heading : MarkedLine
  lines : List MarkedLine
deriving DecidableEq

/-- Words between two `\b`. -/
def wholeWords (words : String) : RegExp Empty :=
  .seqs [.boundary, .text (Text.lit words), .boundary]

/-- `SECTION_KINDS`. -/
def sectionKinds : List (RegExp Empty × SectionKind) := [
  (wholeWords "Sprint Goal", .goal),
  (wholeWords "Tasks", .tasks),
  (wholeWords "Period", .period),
  (.text (Text.lit "Prérequis"), .human),
  (wholeWords "Sprint DoD", .dod),
  (wholeWords "Risks", .risks),
  (wholeWords "Workflow Runs", .runs)]

/-- The kind of a section, by its heading. -/
def kindOf (heading : Text) : SectionKind :=
  ((sectionKinds.find? fun entry => entry.1.test heading).map Prod.snd).getD .other

/-- Whether a line opens a section. -/
def isHeading (line : MarkedLine) : Bool := line.mark = none && decide (Text.lit "## " <+: line.raw)

/-- The sections after one more line: it opens one, or belongs to the last one if there is one. -/
def addLine (sections : List Section) (line : MarkedLine) : List Section :=
  if isHeading line then sections ++ [⟨kindOf line.raw, line, []⟩]
  else sections.dropLast ++
    (sections.getLast?.map fun last => { last with lines := last.lines ++ [line] }).toList

/-- The sections of a file; what precedes the first one belongs to none. -/
def splitSections (lines : List MarkedLine) : List Section := lines.foldl addLine []

end Koklo.SprintImport
