import Koklo.Foundations.Decoding
import Koklo.Foundations.Json

/-!
# Reading YAML

The YAML package is a parameter: a function that writes a scalar and one that parses a
document. What a caller relies on is stated as laws (`YamlPackage.Laws`): a block mapping
of one-line values is read line by line, words and lists of words are read as such, a
scalar is written on one line, plain or quoted, or as a block, and a plain scalar is read
verbatim or not as a text. The reading of this repository refuses syntax errors, aliases,
anchors and tags.
-/

set_option autoImplicit false

namespace Koklo.Schema

open Koklo.Foundations

/-! ## Issues -/

/-- The codes of the issues of structure. -/
inductive StructCode where
  | yamlSyntax
  | duplicateKey
  | yamlForbiddenFeature
  | multipleDocuments
  | fileTooLarge
  | frontMatterMissing
  | markdownSyntax
  | schemaViolation
  | jsonSyntax
  | unsupportedSpecVersion
  | idMismatch
  | duplicateId
deriving DecidableEq

/-- An issue of structure: its rule is `structure` and its severity `error`. -/
structure Issue where
  code : StructCode
  path : Text
  pointer : Text
  entityId : Option Text
  message : Text
deriving DecidableEq

/-- An issue of the structure of a file. -/
def structIssue (code : StructCode) (path message : Text) (pointer : Text := [])
    (entityId : Option Text := none) : Issue :=
  ⟨code, path, pointer, entityId, message⟩

/-- `MAX_FILE_CHARS`. -/
def maxFileChars : ℕ := 1048576

/-- The issue of a file that is too large. -/
def tooLarge (path content : Text) : Option Issue :=
  if content.length ≤ maxFileChars then none
  else some (structIssue .fileTooLarge path
    (Text.lit "Le fichier dépasse le plafond de " ++ Text.ofNat maxFileChars ++ Text.lit " caractères."))

/-! ## The package -/

/-- The codes of the errors of the YAML parser that are told apart. -/
inductive YamlErrorCode where
  | duplicateKey
  | multipleDocs
  | other
deriving DecidableEq

/-- An error of the YAML parser. -/
structure YamlError where
  code : YamlErrorCode
  linePos : Option (ℕ × ℕ)
  pos : ℕ
  message : Text
deriving DecidableEq

/-- What a visit of a document finds at a node. -/
structure YamlNode where
  isAlias : Bool
  anchor : Option Text
  tag : Option Text
deriving DecidableEq

/-- A parsed document: its errors, its nodes in the order of a visit, and its data. -/
structure Document where
  errors : List YamlError
  nodes : List YamlNode
  data : Data

/-- The YAML package: `stringify` on one scalar without folding, and `parseDocument`. -/
structure YamlPackage where
  stringify : Text → Text
  parseDocument : Text → Document

/-! ## Reading -/

/-- Where an error is, in words. -/
def position (error : YamlError) : Text :=
  match error.linePos with
  | some (line, col) =>
    Text.lit "ligne " ++ Text.ofNat line ++ Text.lit ", colonne " ++ Text.ofNat col
  | none => Text.lit "position inconnue"

/-- The issue of an error of the parser. -/
def fromError (path content : Text) (error : YamlError) : Issue :=
  match error.code with
  | .duplicateKey =>
    let key := Text.trim ((content.drop error.pos).takeWhile fun u =>
      u ≠ 0x3A ∧ u ≠ 0x2C ∧ u ≠ 0x7D ∧ u ≠ Text.newline)
    structIssue .duplicateKey path (Text.lit "Clé dupliquée « " ++ key ++ Text.lit " » (" ++
      position error ++ Text.lit ").")
  | .multipleDocs =>
    structIssue .multipleDocuments path (Text.lit "Un seul document YAML est accepté (" ++
      position error ++ Text.lit ").")
  | .other =>
    structIssue .yamlSyntax path (Text.lit "YAML invalide (" ++ position error ++ Text.lit ") : " ++
      (Text.lines error.message).headD [])

/-- The forbidden feature of a node. -/
def forbiddenAt (node : YamlNode) : Option Text :=
  if node.isAlias then some (Text.lit "alias")
  else
    match node.anchor.filter (· ≠ []), node.tag.filter (· ≠ []) with
    | some anchor, _ => some (Text.lit "ancre &" ++ anchor)
    | none, some tag => some (Text.lit "étiquette " ++ tag)
    | none, none => none

/-- The first feature of YAML that is not admitted: an alias, an anchor or a tag. -/
def forbiddenFeature (document : Document) : Option Text := document.nodes.findSome? forbiddenAt

/-- The value of a file of YAML, or its issues. -/
def loadYaml (yaml : YamlPackage) (path content : Text) : Except (List Issue) Data :=
  match tooLarge path content with
  | some issue => .error [issue]
  | none =>
    let document := yaml.parseDocument content
    match document.errors with
    | error :: _ => .error [fromError path content error]
    | [] =>
      match forbiddenFeature document with
      | some feature => .error [structIssue .yamlForbiddenFeature path
          (Text.lit "Fonctionnalité YAML interdite dans la spec : " ++ feature ++ Text.lit ".")]
      | none => .ok document.data

/-! ## What callers rely on -/

/-- The document has no error and no forbidden feature, and holds the data. -/
structure Document.Reads (document : Document) (data : Data) : Prop where
  errors : document.errors = []
  allowed : forbiddenFeature document = none
  data : document.data = data

/-- Reading a document that is small enough. -/
theorem loadYaml_eq_ok {yaml : YamlPackage} {path content : Text}
    (small : content.length ≤ maxFileChars) {data : Data} :
    loadYaml yaml path content = .ok data ↔ (yaml.parseDocument content).Reads data := by
  have fits : tooLarge path content = none := by rw [tooLarge, if_pos small]
  rw [loadYaml, fits]
  simp only
  cases errors : (yaml.parseDocument content).errors with
  | cons error more =>
    constructor
    · intro failed
      cases failed
    · intro reads
      cases errors.symm.trans reads.errors
  | nil =>
    cases allowed : forbiddenFeature (yaml.parseDocument content) with
    | some feature =>
      constructor
      · intro failed
        cases failed
      · intro reads
        cases allowed.symm.trans reads.allowed
    | none =>
      constructor
      · intro same
        exact ⟨errors, allowed, Except.ok.inj same⟩
      · intro reads
        exact congrArg Except.ok reads.data

/-- A line of a block mapping. -/
def entryLine (key value : Text) : Text := key ++ Text.lit ": " ++ value

/-- A text on one line. -/
def OneLine (t : Text) : Prop := Text.newline ∉ t ∧ 0x0D ∉ t

instance (t : Text) : Decidable (OneLine t) :=
  inferInstanceAs (Decidable (Text.newline ∉ t ∧ 0x0D ∉ t))

theorem OneLine.append {s t : Text} (first : OneLine s) (second : OneLine t) : OneLine (s ++ t) := by
  constructor
  · intro member
    exact (List.mem_append.mp member).elim first.1 second.1
  · intro member
    exact (List.mem_append.mp member).elim first.2 second.2

/-- The words that the core schema does not read as texts. -/
def reserved : List Text :=
  ["null", "Null", "NULL", "true", "True", "TRUE", "false", "False", "FALSE"].map Text.lit

/-- The ASCII letters. -/
def isLetter (u : CodeUnit) : Bool := Text.isLower u || (0x41 ≤ u && u ≤ 0x5A)

/-- Letters, digits and the dash. -/
def isWordUnit (u : CodeUnit) : Bool := isLetter u || Text.isDigit u || u == 0x2D

/-- A letter and then letters, digits and dashes, that is read as a text. -/
structure Word (w : Text) : Prop where
  start : w.head?.any isLetter = true
  units : w.all isWordUnit = true
  free : w ∉ reserved

instance (w : Text) : Decidable (Word w) :=
  decidable_of_iff (w.head?.any isLetter = true ∧ w.all isWordUnit = true ∧ w ∉ reserved)
    ⟨fun ⟨start, units, free⟩ => ⟨start, units, free⟩, fun word => ⟨word.start, word.units, word.free⟩⟩

theorem newline_not_wordUnit : isWordUnit Text.newline = false := by decide

theorem return_not_wordUnit : isWordUnit 0x0D = false := by decide

theorem Word.oneLine {w : Text} (word : Word w) : OneLine w := by
  have all := List.all_eq_true.mp word.units
  constructor
  · intro inside
    exact Bool.false_ne_true (newline_not_wordUnit.symm.trans (all _ inside))
  · intro inside
    exact Bool.false_ne_true (return_not_wordUnit.symm.trans (all _ inside))

/-- Words between brackets are on one line. -/
theorem oneLine_flow {ws : List Text} (words : ∀ w ∈ ws, Word w) :
    OneLine (Text.lit "[" ++ (Text.lit ", ").intercalate ws ++ Text.lit "]") := by
  have inside : ∀ u : CodeUnit, isWordUnit u = false → u ∉ Text.lit "[" → u ∉ Text.lit ", " →
      u ∉ Text.lit "]" →
        u ∉ Text.lit "[" ++ (Text.lit ", ").intercalate ws ++ Text.lit "]" := by
    intro u outside opening comma closing member
    rw [List.mem_append, List.mem_append] at member
    rcases member with (first | between) | last
    · exact opening first
    · rcases Text.mem_of_mem_intercalate between with separator | ⟨w, listed, found⟩
      · exact comma separator
      · have unit := List.all_eq_true.mp (words w listed).units u found
        rw [outside] at unit
        cases unit
    · exact closing last
  exact ⟨inside _ newline_not_wordUnit (by decide) (by decide) (by decide),
    inside _ return_not_wordUnit (by decide) (by decide) (by decide)⟩

/-- The text is read as the data when it is the value of a field. -/
def YamlPackage.ReadsAs (yaml : YamlPackage) (text : Text) (data : Data) : Prop :=
  (yaml.parseDocument (entryLine (Text.lit "v") text)).Reads (.record [(Text.lit "v", data)])

/-- A field of a block mapping: its key, its one-line text and the data it is read as. -/
structure YamlPackage.Entry (yaml : YamlPackage) where
  key : Text
  text : Text
  data : Data
  word : Word key
  short : key.length ≤ 100
  oneLine : OneLine text
  reads : yaml.ReadsAs text data

/-- The scalar is written plain. -/
def YamlPackage.WritesPlain (yaml : YamlPackage) (value : Text) : Prop :=
  yaml.stringify value = value ++ [Text.newline]

/-- What the code relies on. -/
structure YamlPackage.Laws (yaml : YamlPackage) : Prop where
  /-- A block mapping is read line by line. -/
  mapping : ∀ entries : List yaml.Entry, entries ≠ [] → (entries.map (·.key)).Nodup →
    (yaml.parseDocument (Text.joinLines (entries.map fun e => entryLine e.key e.text))).Reads
      (.record (entries.map fun e => (e.key, e.data)))
  /-- A word is a plain scalar. -/
  word : ∀ w, Word w → yaml.ReadsAs w (.text w)
  /-- Words between brackets are a list. -/
  flow : ∀ ws : List Text, (∀ w ∈ ws, Word w) →
    yaml.ReadsAs (Text.lit "[" ++ (Text.lit ", ").intercalate ws ++ Text.lit "]")
      (.list (ws.map Data.text))
  /-- A scalar is written plain, quoted on one line, or as a block. -/
  scalar : ∀ value, value ≠ [] → OneLine value →
    (yaml.WritesPlain value ∧ yaml.ReadsAs value (.text value)) ∨
      (∃ quoted, yaml.stringify value = quoted ++ [Text.newline] ∧ OneLine quoted ∧
        (∃ u ∈ quoted.getLast?, Text.isSpace u = false) ∧ yaml.ReadsAs quoted (.text value)) ∨
      (Text.newline ∈ Text.trimEnd (yaml.stringify value))
  /-- The JSON string of a scalar that is written as a block is read as the scalar. -/
  json : ∀ value, OneLine value → Text.newline ∈ Text.trimEnd (yaml.stringify value) →
    yaml.ReadsAs (Text.jsonString value) (.text value)
  /-- A plain scalar, or what is left of it when its end is trimmed, is read verbatim when it
  is read as a text. -/
  verbatim : ∀ (before after : List yaml.Entry) (key value : Text), Word key → key.length ≤ 100 →
    (before.map (·.key) ++ key :: after.map (·.key)).Nodup →
      OneLine value → yaml.WritesPlain value →
        ∀ (fields : List (Text × Data)) (read : Text),
          (yaml.parseDocument (Text.joinLines (before.map (fun e => entryLine e.key e.text) ++
            entryLine key (Text.trimEnd value) :: after.map fun e => entryLine e.key e.text))).Reads
              (.record fields) →
            OrderedMap.get fields key = some (.text read) → read = Text.trimEnd value

end Koklo.Schema
