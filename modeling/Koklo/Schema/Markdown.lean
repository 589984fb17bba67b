import Koklo.Foundations.Regex
import Koklo.Schema.Feature

/-!
# The Markdown of a feature

How the parser takes a file apart: the front matter between two lines `---`, the section
under a title, and the criteria of a section, each a heading and its steps. The expressions
that recognise headings and steps are those of the source.
-/

set_option autoImplicit false

namespace Koklo.Schema

open Koklo.Foundations

/-! ## Vocabulary -/

/-- `DESCRIPTION_TITLE`. -/
def descriptionTitle : Text := Text.lit "Description"

/-- `CRITERIA_TITLE`. -/
def criteriaTitle : Text := Text.lit "Critères d'acceptation"

/-- `STEP_LABEL_BY_TYPE`. -/
def StepType.label : StepType → Text
  | etantDonne => Text.lit "Étant donné"
  | quand => Text.lit "Quand"
  | alors => Text.lit "Alors"
  | et => Text.lit "Et"

/-- `STEP_TYPE_BY_LABEL.get`. -/
def stepTypeByLabel (label : Text) : Option StepType :=
  [StepType.etantDonne, .quand, .alors, .et].find? (·.label = label)

/-! ## Front matter -/

/-- A piece that a line feed follows, without the carriage return before it. -/
def dropReturn (piece : Text) : Text :=
  if piece.getLast? = some 0x0D then piece.dropLast else piece

/-- `split(/\r?\n/)`. -/
def splitLines (content : Text) : List Text :=
  let pieces := Text.lines content
  pieces.dropLast.map dropReturn ++ pieces.getLast?.toList

/-- A line of three dashes, up to white space at its end. -/
def isFence (line : Text) : Bool := Text.trimEnd line = Text.lit "---"

/-- The front matter of a file, and the lines after it. -/
structure FrontMatterParts where
  front : Text
  body : List Text
deriving DecidableEq

/-- The front matter and the body. -/
def splitFrontMatter (content : Text) : Option FrontMatterParts :=
  let lines := splitLines (if content.head? = some 0xFEFF then content.tail else content)
  match lines with
  | [] => none
  | first :: rest =>
    if isFence first then
      match rest.dropWhile (!isFence ·) with
      | [] => none
      | _ :: body => some ⟨Text.joinLines (rest.takeWhile (!isFence ·)), body⟩
    else none

/-! ## Sections -/

/-- `/^##\s/`. -/
def sectionMark : Regex CodeUnit := .seq (.text (Text.lit "##")) (.unit Text.isSpace)

def isSection (line : Text) : Bool := sectionMark.startsWith line

/-- The lines under a title, to the next section. -/
def sectionLines (lines : List Text) (title : Pattern CodeUnit) : Option (List Text) :=
  match lines.dropWhile fun line => !(isSection line && title.accepts (Text.trim (line.drop 2))) with
  | [] => none
  | _ :: rest => some (rest.takeWhile (!isSection ·))

/-- `/^Description$/`. -/
def descriptionPattern : Pattern CodeUnit := .text (Text.lit "Description")

/-- `/^Crit[èe]res d['’]acceptation$/`. -/
def criteriaPattern : Pattern CodeUnit :=
  .seq (.text (Text.lit "Crit")) (.seq (.unit fun u => u == 0xE8 || u == 0x65)
    (.seq (.text (Text.lit "res d")) (.seq (.unit fun u => u == 0x27 || u == 0x2019)
      (.text (Text.lit "acceptation")))))

/-! ## Criteria -/

/-- The dot of an expression. -/
def anyUnit (u : CodeUnit) : Bool := !Text.isLineTerminator u

/-- `HEADING`: `/^###\s+(.*?)\s*$/`. -/
def headingRegex : Regex CodeUnit :=
  .seq (.text (Text.lit "###")) (.seq (.greedy 1 Text.isSpace)
    (.seq (.capture (.lazy 0 anyUnit)) (.greedy 0 Text.isSpace)))

/-- `CRITERION_HEADING`: `/^(AC-\d+)\s+[—–-]\s+(.+)$/`. -/
def criterionHeadingRegex : Regex CodeUnit :=
  .seq (.capture (.seq (.text (Text.lit "AC-")) (.greedy 1 Text.isDigit)))
    (.seq (.greedy 1 Text.isSpace) (.seq (.unit fun u => u == 0x2014 || u == 0x2013 || u == 0x2D)
      (.seq (.greedy 1 Text.isSpace) (.capture (.greedy 1 anyUnit)))))

/-- `STEP`: `/^[-*]\s+\*\*(.+?)\*\*\s+(.+?)\s*$/`. -/
def stepRegex : Regex CodeUnit :=
  .seq (.unit fun u => u == 0x2D || u == 0x2A) (.seq (.greedy 1 Text.isSpace)
    (.seq (.text (Text.lit "**")) (.seq (.capture (.lazy 1 anyUnit)) (.seq (.text (Text.lit "**"))
      (.seq (.greedy 1 Text.isSpace) (.seq (.capture (.lazy 1 anyUnit)) (.greedy 0 Text.isSpace)))))))

/-- What is wrong with a section, and where. -/
structure SectionError where
  pointer : Text
  message : Text
deriving DecidableEq

/-- The criteria read so far, the identifiers seen and the errors. -/
structure CriteriaState where
  criteria : List Criterion
  seen : List Text
  errors : List SectionError
deriving DecidableEq

/-- One more error. -/
def CriteriaState.addError (state : CriteriaState) (pointer message : Text) : CriteriaState :=
  { state with errors := state.errors ++ [⟨pointer, message⟩] }

/-- A text between French quotes. -/
def guillemets (t : Text) : Text := Text.lit "« " ++ t ++ Text.lit " »."

/-- The step of a line. -/
def parseStep (line : Text) : Option Step :=
  match stepRegex.exec line with
  | some [label, texte] => (stepTypeByLabel label).map fun type => ⟨type, texte⟩
  | _ => none

/-- Opens a criterion from a heading; reports a heading without identifier or a duplicate. -/
def openCriterion (state : CriteriaState) (title : Text) : CriteriaState :=
  let (id, titre) :=
    match criterionHeadingRegex.exec title with
    | some [id, titre] => (id, titre)
    | _ => ([], [])
  let pointer := Text.lit "/criteres/" ++ Text.ofNat state.criteria.length
  let reported :=
    if id = [] then
      state.addError pointer (Text.lit "Titre de critère sans identifiant AC-n : " ++ guillemets title)
    else if id ∈ state.seen then
      state.addError pointer (Text.lit "Identifiant de critère dupliqué : " ++ id ++ Text.lit ".")
    else state
  { reported with
    criteria := state.criteria ++ [⟨id, titre, []⟩]
    seen := state.seen ++ [id] }

/-- The criteria with a step added to the last. -/
def addStep (criteria : List Criterion) (step : Step) : List Criterion :=
  match criteria.getLast? with
  | none => []
  | some current =>
    criteria.dropLast ++ [{ current with etapes := current.etapes ++ [step] }]

/-- The criteria after one more line. -/
def parseLine (state : CriteriaState) (line : Text) : CriteriaState :=
  match headingRegex.exec line with
  | some captures => openCriterion state (captures.headD [])
  | none =>
    if state.criteria = [] then
      state.addError (Text.lit "/criteres")
        (Text.lit "Texte avant le premier critère : " ++ guillemets (Text.trim line))
    else
      match parseStep line with
      | some step => { state with criteria := addStep state.criteria step }
      | none =>
        let index := state.criteria.length - 1
        state.addError (Text.lit "/criteres/" ++ Text.ofNat index ++ Text.lit "/etapes")
          (Text.lit "Ligne d'étape non reconnue dans le critère n°" ++ Text.ofNat (index + 1) ++
            Text.lit " : " ++ guillemets (Text.trim line))

/-- The criteria of the lines that are not blank. -/
def parseCriteria (lines : List Text) : CriteriaState :=
  (lines.filter (Text.trim · ≠ [])).foldl parseLine ⟨[], [], []⟩

end Koklo.Schema
