import Koklo.Foundations.Fallible
import Koklo.Foundations.Decimal
import Koklo.SprintImport.TaskZone

/-!
# Sprint files

A sprint file is read section by section: the goal, the definition of done, and the tickets of all
the sections of tasks. What is not imported is in the report, in the order of the lines.
-/

set_option autoImplicit false

namespace Koklo.SprintImport

open Koklo.Foundations

/-! ## The other sections -/

/-- Whether a line says nothing. -/
def isBlank (line : MarkedLine) : Bool := Text.trim line.raw = []

/-- The line of the report of a line that is in no section of tasks. -/
def classify (file : Text) (kind : SectionKind) (line : MarkedLine) : Option ReportLine :=
  let entry (code : ReasonCode) := reportLine file line.toSourceLine code .ignored line.raw none
  if isBlank line then none
  else match line.mark with
    | some .comment => some (entry .comment)
    | some .progress => some (entry .sectionNotImported)
    | none =>
      match kind with
      | .goal => none
      | .human => some (entry .humanAction)
      | .dod => some (entry .sprintDod)
      | .tasks | .period | .risks | .runs | .other => some (entry .sectionNotImported)

/-- `DOD_ITEM`: `/^- (?:\[[ xX]\] )?(.*)$/`, with its box or without. -/
def dodItem (boxed : Bool) : Regex CodeUnit :=
  if boxed then .seq (.text (Text.lit "- [")) (.seq (.unit (· ∈ Text.lit " xX"))
    (.seq (.text (Text.lit "] ")) (.capture (.greedy 0 dot))))
  else .seq (.text (Text.lit "- ")) (.capture (.greedy 0 dot))

/-- The text of an item of the definition of done. -/
def dodText (line : MarkedLine) : Text :=
  let trimmed := Text.trim line.raw
  (([true, false].findSome? fun boxed => (dodItem boxed).exec trimmed).bind List.head?).getD trimmed

/-- What is read in the sections that are not of tasks. -/
structure OtherSections where
  report : List ReportLine
  goal : Text
  goalLine : Option ℕ
  dodItems : List Text
deriving DecidableEq

/-- The lines of a section that say something. -/
def spoken (part : Section) : List MarkedLine :=
  part.lines.filter fun line => !isBlank line && line.mark = none

/-- The goal, the definition of done and the lines that are left out. -/
def readOtherSections (file : Text) (parts : List Section) : OtherSections :=
  let others := parts.filter (·.kind ≠ .tasks)
  let goals := others.filter (·.kind = .goal)
  { report := others.flatMap fun part =>
      (if part.kind = .other then
        [reportLine file part.heading.toSourceLine .sectionNotImported .ignored part.heading.raw
          none] else []) ++ part.lines.filterMap (classify file part.kind)
    goal := Text.joinLines (goals.flatMap fun part => (spoken part).map fun line =>
      Text.trim line.raw)
    goalLine := goals.head?.map fun part => part.heading.n
    dodItems := (others.filter (·.kind = .dod)).flatMap fun part => (spoken part).map dodText }

/-! ## The file -/

/-- What is read in a sprint file. -/
structure ParsedSprint where
  fileName : Text
  number : ℕ
  key : Text
  goal : Text
  goalLine : ℕ
  definitionOfDone : Text
  tickets : List ParsedTicket
  rejected : List RejectedTicket
  ticketHeads : ℕ
  taskZone : List ZoneEntry
  report : List ReportLine
deriving DecidableEq

/-- `FILE_NAME`: `/^sprint-([0-9]{3})\.md$/`. -/
def fileNameRegex : Regex CodeUnit :=
  .seq (.text (Text.lit "sprint-")) (.seq (.capture (.seq (.unit Text.isDigit)
    (.seq (.unit Text.isDigit) (.unit Text.isDigit)))) (.text (Text.lit ".md")))

/-- The file names that are no name of a sprint file. -/
structure InvalidFileName where
  clipped : Text
deriving DecidableEq

/-- The number of a sprint, from the name of its file. -/
def sprintNumberOf (fileName : Text) : Except InvalidFileName ℕ :=
  match fileNameRegex.exec fileName with
  | some [digits] =>
    if Text.decimal digits < 1 then .error ⟨clip fileName⟩ else .ok (Text.decimal digits)
  | _ => .error ⟨clip fileName⟩

/-- A sprint without a task, or without a goal. -/
def structureProblems (file : Text) (tasksSection : Option Section) (tasks : TaskZoneParser)
    (others : OtherSections) : List ReportLine :=
  let withoutTasks := if tasks.heads = 0 ∧ tasks.hasWithoutTasksNotice = false then
    let line := (tasksSection.map fun part => part.heading.toSourceLine).getD
      ⟨1, Text.lit "section ## ✅ Tasks absente"⟩
    [reportLine file line .sprintWithoutTasks .ignored line.raw none] else []
  let raw := Text.lit "## 🎯 Sprint Goal absent ou vide (objectif obligatoire)"
  let withoutGoal := if others.goal = [] then
    [reportLine file ⟨others.goalLine.getD 1, raw⟩ .unknownLine .error raw none] else []
  withoutTasks ++ withoutGoal

/-- The sections of a text. -/
def sectionsOf (text : Text) : List Section := splitSections (markLines (toLines text))

/-- The lines under the headings of tasks. -/
def taskLines (parts : List Section) : List MarkedLine :=
  (parts.filter (·.kind = .tasks)).flatMap Section.lines

/-- The zone of tasks, once its lines are read. -/
def readTasks (file : Text) (parts : List Section) : TaskZoneParser :=
  ((taskLines parts).foldl TaskZoneParser.feed (.start file)).finish

/-- The reading of a sprint file, whose name gives the number of the sprint. -/
def parseSprintFile (fileName text : Text) : Except InvalidFileName ParsedSprint :=
  (sprintNumberOf fileName).map fun number =>
    let parts := sectionsOf text
    let others := readOtherSections fileName parts
    let tasks := readTasks fileName parts
    { fileName := fileName
      number := number
      key := Text.lit "SP-" ++ Text.ofNat number
      goal := others.goal
      goalLine := others.goalLine.getD 1
      definitionOfDone := Text.joinLines others.dodItems
      tickets := tasks.tickets
      rejected := tasks.rejected
      ticketHeads := tasks.heads
      taskZone := tasks.zone
      report := sortWith (fun a b => (a.line : ℤ) - b.line)
        (others.report ++ tasks.report ++
          structureProblems fileName (parts.find? (·.kind = .tasks)) tasks others) }

end Koklo.SprintImport
