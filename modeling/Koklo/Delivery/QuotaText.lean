import Koklo.Foundations.RegExp

/-!
# The lines that are searched for a quota

Only the last code units of what an agent has written are searched, line by line. A line is
cleaned: no terminal sequence, no control, one space for each run of blanks. A line that quotes
(a diff, a test, a comment, code, or what stands between two fences) is left out, when it quotes
before or after it is cleaned. A fence without its pair fences nothing.
-/

set_option autoImplicit false

namespace Koklo.Delivery.Quota

open Koklo.Foundations

/-! ## Cleaning -/

/-- `ESC`. -/
def escapeUnit : CodeUnit := 27

def tabUnit : CodeUnit := 9

/-- Between two code units. -/
def inRange (code low high : CodeUnit) : Bool := low ≤ code && code ≤ high

/-- The control characters, and those of direction or without width. -/
def isForbiddenCode (code : CodeUnit) : Bool :=
  (code < 32 && code ≠ tabUnit && code ≠ Text.newline) ||
    inRange code 127 159 ||
    inRange code 0x200B 0x200F ||
    inRange code 0x202A 0x202E ||
    inRange code 0x2066 0x2069 ||
    code = 0xFEFF

/-- How many units of a CSI sequence follow its `ESC`; none when the `ESC` stands alone. -/
def skipEscape (afterEsc : Text) : ℕ :=
  if afterEsc.head? = some 0x5B then
    let params := (afterEsc.tail.takeWhile (inRange · 0x20 0x3F)).length
    if (afterEsc.tail.drop params).head?.any (inRange · 0x40 0x7E) then params + 2 else params + 1
  else 0

/-- The loop of `cleanText`; the first `skip` units belong to a sequence. -/
def keptFrom : ℕ → Text → Text
  | _, [] => []
  | skip + 1, _ :: text => keptFrom skip text
  | 0, code :: text =>
    if code = escapeUnit then keptFrom (skipEscape text) text
    else if isForbiddenCode code then keptFrom 0 text
    else code :: keptFrom 0 text

/-- Hyphens and spaces of typography. -/
def normalizeUnicode (code : CodeUnit) : CodeUnit :=
  if inRange code 0x2010 0x2012 || code = 0x2212 then 0x2D
  else if code = 0x00A0 || code = 0x1680 || inRange code 0x2000 0x200A || code = 0x202F ||
    code = 0x205F || code = 0x3000 then 0x20
  else code

/-- `[ \t]`. -/
def isBlank (code : CodeUnit) : Bool := code = 0x20 || code = tabUnit

/-- `text.replace(/[ \t]+/g, " ")`; `inRun` when a blank precedes. -/
def collapseFrom : Bool → Text → Text
  | _, [] => []
  | inRun, code :: text =>
    if isBlank code then
      if inRun then collapseFrom true text else 0x20 :: collapseFrom true text
    else code :: collapseFrom false text

/-- The text without colours and control characters, its spaces collapsed. -/
def cleanText (text : Text) : Text := collapseFrom false ((keptFrom 0 text).map normalizeUnicode)

/-! ## Quotes -/

section Expressions

/-- A group that is captured and met again. -/
inductive QuoteGroup where
  | quote
deriving DecidableEq

/-- The expressions of the patterns of quotes. -/
abbrev QuoteExp := RegExp QuoteGroup

/-- `[ \t]`. -/
def blank : QuoteExp := .unit isBlank

/-- `^[ \t]*`, and what follows. -/
def indented (parts : List QuoteExp) : QuoteExp := .seqs (.start :: .many blank :: parts)

/-- `\S`. -/
def visible : QuoteExp := .unit (! Text.isSpace ·)

def literal (s : String) : QuoteExp := .text (Text.lit s)

/-- `(?:\.\w+)`. -/
def member : QuoteExp := .seq (literal ".") (.plus (.unit Text.isWord))

/-- `FENCE`. -/
def fence : QuoteExp := .seqs [.start, .upTo 3 blank, literal "```"]

/-- `DIFF_HEADER`. -/
def diffHeader : QuoteExp :=
  .seq .lineStart (.oneOf (literal "@@ ") [literal "diff --git ", .seq (literal "--- ") visible,
    .seq (literal "+++ ") visible])

/-- `BULLET`. -/
def bullet : QuoteExp := .seqs [.start, literal "-", blank, visible]

/-- `COMMENT`. -/
def comment : QuoteExp :=
  indented [.oneOf (literal "//") [literal "/*", literal "*", literal "#"]]

/-- `MARKDOWN_QUOTE`. -/
def markdownQuote : QuoteExp := indented [literal ">"]

/-- `TEST_NAME`. -/
def testName : QuoteExp :=
  indented [.oneOf (literal "it") [literal "test", literal "describe"], .many member, literal "("]

/-- `ASSERTION`. -/
def assertion : QuoteExp :=
  .alt
    (.seqs [.boundary, .alt (literal "expect") (.seq (literal "assert") (.optional member)),
      literal "("])
    (.seqs [literal ".", .oneOf (literal "toBe") [literal "toEqual", literal "toContain",
      literal "toMatch", literal "toThrow"], literal "("])

/-- A straight quotation mark or a backtick. -/
def isQuote (u : CodeUnit) : Bool := u ∈ Text.lit "\"'`"

/-- `ASSIGNED_STRING`. -/
def assignedString : QuoteExp :=
  indented [
    .many (.seq (.oneOf (literal "const") [literal "let", literal "var", literal "export",
      literal "readonly"]) (.plus blank)),
    .plus (.unit fun u => Text.isWord u || u ∈ Text.lit ".$[]"), .many blank, .among ":=",
    .many blank, .unit isQuote]

/-- `QUOTED_STRING`. -/
def quotedString : QuoteExp :=
  indented [.group .quote (.unit isQuote), .many (.unit (! isQuote ·)), .again .quote,
    .many (.among ",;)"), .many blank, .finish]

end Expressions

/-- The lines that are fences. -/
def fences (lines : List Text) : List ℕ :=
  lines.zipIdx.flatMap fun (line, i) => if fence.test line then [i] else []

/-- The first fence with the second, the third with the fourth; the last of an odd number of
fences has no pair. -/
def fencePairs : List ℕ → List (ℕ × ℕ)
  | first :: last :: others => (first, last) :: fencePairs others
  | _ => []

/-- The lines between two paired fences, with these. -/
def fencedLines (lines : List Text) : List ℕ :=
  (fencePairs (fences lines)).flatMap fun (first, last) => List.range' first (last + 1 - first)

/-- The line is one of a diff; a removed line only counts under a header. -/
def isDiffLine (line : Text) (hasDiffHeader : Bool) : Bool :=
  if Text.lit "+" <+: line ∨ Text.lit "@@" <+: line then true
  else Text.lit "-" <+: line && (hasDiffHeader || !bullet.test line)

/-- The line quotes code, a comment or a test. -/
def isCodeLine (line : Text) : Bool :=
  markdownQuote.test line ||
    comment.test line ||
    testName.test line ||
    assertion.test line ||
    assignedString.test line ||
    quotedString.test line

/-- `line.replace(/^-[ \t]+/, "")`. -/
def withoutBullet (line : Text) : Text :=
  if line.head? = some 0x2D ∧ line.tail.head?.any isBlank then line.tail.dropWhile isBlank else line

/-- The lines that quote something. -/
def quotedLines (lines : List Text) : List Bool :=
  let fenced := fencedLines lines
  let hasDiffHeader := lines.any diffHeader.test
  lines.zipIdx.map fun (line, i) =>
    decide (i ∈ fenced) || isDiffLine line hasDiffHeader || isCodeLine (withoutBullet line)

/-! ## Scanning -/

/-- A cleaned line, and whether it started with a terminal sequence. The position, which the
source does not keep, is the one of the line among the last ones. -/
structure ScannedLine where
  text : Text
  colored : Bool
  position : ℕ

/-- The line starts with a colour. -/
def startsColored (line : Text) : Bool := [escapeUnit, 0x5B] <+: Text.trimStart line

/-- `output.slice(-maxChars)`. -/
def lastUnits (output : Text) (maxChars : ℕ) : Text :=
  if maxChars = 0 then output else output.drop (output.length - maxChars)

/-- The last lines of the output, without those that are quoted before or after cleaning. -/
def scanLines (output : Text) (maxChars : ℕ) : List ScannedLine :=
  let raw := Text.lines (lastUnits output maxChars)
  let cleaned := raw.map cleanText
  let quoted := quotedLines raw
  let quotedClean := quotedLines cleaned
  cleaned.zipIdx.flatMap fun (text, i) =>
    if quoted.getD i false || quotedClean.getD i false then []
    else [⟨text, startsColored (raw.getD i []), i⟩]

end Koklo.Delivery.Quota
