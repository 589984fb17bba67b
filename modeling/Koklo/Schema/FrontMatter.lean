import Koklo.Schema.FeatureMarkdown

/-!
# The front matter that the emitter writes

The identifiers of a valid feature are words, so that every field but the title is read
back as it is written. The title is read back when it is quoted; a title that YAML writes
plain is cut at its end, and is read back when nothing was cut (`reads_front`). When the
end was cut, the title is not read back (`titre_cut`).
-/

set_option autoImplicit false

namespace Koklo.Schema

open Koklo.Foundations

/-! ## Words -/

/-- A mark with a dash and then units of words make a word. -/
theorem word_of_mark {mark rest : Text} (start : mark.head?.any isLetter = true)
    (units : mark.all isWordUnit = true) (dash : 0x2D ∈ mark)
    (all : ∀ u ∈ rest, isWordUnit u = true) : Word (mark ++ rest) := by
  have dashless : reserved.all (fun w => !w.contains 0x2D) = true := by decide
  constructor
  case start =>
    cases mark with
    | nil => cases dash
    | cons u mark => exact start
  case units =>
    rw [List.all_append, units, Bool.true_and]
    exact List.all_eq_true.mpr all
  case free =>
    intro known
    have without := List.all_eq_true.mp dashless _ known
    rw [Bool.not_eq_true', List.contains_eq_mem, decide_eq_false_iff_not] at without
    exact without (List.mem_append_left _ dash)

theorem wordUnit_of_slug {u : CodeUnit}
    (known : (Text.isLower u || Text.isDigit u || u == 0x2D) = true) : isWordUnit u = true := by
  simp only [isWordUnit, isLetter, Bool.or_eq_true] at known ⊢
  rcases known with (lower | digit) | dash
  · exact .inl (.inl (.inl lower))
  · exact .inl (.inr digit)
  · exact .inr dash

/-- What follows the mark of an identifier is made of units of words. -/
theorem units_of_slug : slug.Units fun u => isWordUnit u = true := by
  refine ⟨fun u known => ?_, fun u known => wordUnit_of_slug known⟩
  have first : (Text.isLower u || Text.isDigit u) = true := known
  exact wordUnit_of_slug (by rw [first, Bool.true_or])

theorem units_of_digits : (digits 3).Units fun u => isWordUnit u = true := by
  have digit : ∀ u, Text.isDigit u = true → isWordUnit u = true := by
    intro u known
    rw [isWordUnit, known, Bool.or_true, Bool.true_or]
  exact ⟨⟨digit, digit, digit, trivial⟩, digit⟩

/-- **Identifiers are words.** -/
theorem word_of_id {mark id : Text} {body : Pattern CodeUnit}
    (matched : (Pattern.seq (.text mark) body).Matches id) (start : mark.head?.any isLetter = true)
    (units : mark.all isWordUnit = true) (dash : 0x2D ∈ mark)
    (all : body.Units fun u => isWordUnit u = true) : Word id := by
  obtain ⟨rest, rfl, inside⟩ := Pattern.matches_text_seq.mp matched
  exact word_of_mark start units dash (inside.forall_units all)

theorem word_of_statut (statut : Statut) : Word statut.name := by
  cases statut <;> decide

theorem word_of_priorite (priorite : Priorite) : Word priorite.name := by
  cases priorite <;> decide

/-! ## Fields -/

section Fields

variable {yaml : YamlPackage} (laws : yaml.Laws)

/-- A field whose value is a word. -/
def wordEntry (key value : Text) (word : Word key) (short : key.length ≤ 100) (plain : Word value) :
    yaml.Entry :=
  ⟨key, value, .text value, word, short, plain.oneLine, laws.word value plain⟩

/-- A field whose value is a list of words. -/
def flowEntry (key : Text) (ws : List Text) (word : Word key) (short : key.length ≤ 100)
    (words : ∀ w ∈ ws, Word w) : yaml.Entry :=
  ⟨key, flowList ws, .list (ws.map Data.text), word, short, oneLine_flow words, laws.flow ws words⟩

variable {feature : Feature} (valid : feature.Valid)

/-- The field before the title. -/
def idEntry : yaml.Entry :=
  wordEntry laws (Text.lit "id") feature.id (by decide) (by decide)
    (word_of_id valid.id (by decide) (by decide) (by decide) units_of_digits)

/-- The fields after the title. -/
def linkEntries : List yaml.Entry := [
  wordEntry laws (Text.lit "statut") feature.statut.name (by decide) (by decide)
    (word_of_statut feature.statut),
  wordEntry laws (Text.lit "priorite") feature.priorite.name (by decide) (by decide)
    (word_of_priorite feature.priorite),
  flowEntry laws (Text.lit "tables") feature.tables (by decide) (by decide) fun id member =>
    word_of_id (valid.tables id member) (by decide) (by decide) (by decide) units_of_slug,
  flowEntry laws (Text.lit "endpoints") feature.endpoints (by decide) (by decide) fun id member =>
    word_of_id (valid.endpoints id member) (by decide) (by decide) (by decide) units_of_slug,
  flowEntry laws (Text.lit "ecrans") feature.ecrans (by decide) (by decide) fun id member =>
    word_of_id (valid.ecrans id member) (by decide) (by decide) (by decide) units_of_slug,
  flowEntry laws (Text.lit "roles") feature.roles (by decide) (by decide) fun id member =>
    word_of_id (valid.roles id member) (by decide) (by decide) (by decide) units_of_slug,
  flowEntry laws (Text.lit "regles") feature.regles (by decide) (by decide) fun id member =>
    word_of_id (valid.regles id member) (by decide) (by decide) (by decide) units_of_digits,
  flowEntry laws (Text.lit "nfr") feature.nfr (by decide) (by decide) fun id member =>
    word_of_id (valid.nfr id member) (by decide) (by decide) (by decide) units_of_slug]

/-- The keys of the front matter. -/
def frontKeys : List Text :=
  ["id", "titre", "statut", "priorite", "tables", "endpoints", "ecrans", "roles", "regles",
    "nfr"].map Text.lit

theorem frontKeys_nodup : frontKeys.Nodup := by decide

/-- The lines of the front matter. -/
def frontLines (yaml : YamlPackage) (feature : Feature) : List Text :=
  (frontTexts yaml feature).map fun entry => entryLine entry.1 entry.2

theorem frontLines_eq : frontLines yaml feature =
    [idEntry laws valid].map (fun e => entryLine e.key e.text) ++
      entryLine (Text.lit "titre") (yamlScalar yaml feature.titre) ::
        (linkEntries laws valid).map fun e => entryLine e.key e.text := rfl

end Fields

/-! ## The title -/

section Title

variable {yaml : YamlPackage} {value : Text}

/-- A plain scalar is written without the white space at its end. -/
theorem yamlScalar_of_plain (single : Text.newline ∉ value) (plain : yaml.WritesPlain value) :
    yamlScalar yaml value = Text.trimEnd value := by
  have cut : Text.trimEnd (yaml.stringify value) = Text.trimEnd value := by
    rw [plain]
    exact List.rdropWhile_concat_pos Text.isSpace _ _ (by decide)
  have inside : Text.newline ∉ Text.trimEnd value := fun member =>
    single ((List.rdropWhile_prefix _ _).subset member)
  rw [yamlScalar, cut]
  exact if_neg inside

/-- A quoted scalar is written as it is. -/
theorem yamlScalar_of_quoted {quoted : Text} (written : yaml.stringify value = quoted ++ [Text.newline])
    (single : Text.newline ∉ quoted) (visible : ∃ u ∈ quoted.getLast?, Text.isSpace u = false) :
    yamlScalar yaml value = quoted := by
  obtain ⟨u, last, seen⟩ := visible
  have kept : Text.trimEnd quoted = quoted := by
    refine Text.trimEnd_eq_self_iff.mpr fun v ends => ?_
    rw [Option.mem_unique ends last]
    exact seen
  have cut : Text.trimEnd (yaml.stringify value) = quoted := by
    rw [written]
    exact (List.rdropWhile_concat_pos Text.isSpace _ _ (by decide)).trans kept
  rw [yamlScalar, cut]
  exact if_neg single

theorem oneLine_jsonString (t : Text) : OneLine (Text.jsonString t) :=
  ⟨Text.not_mem_jsonString (by decide), Text.not_mem_jsonString (by decide)⟩

/-- **A scalar is on one line**, and is read back unless its end was cut. -/
theorem yamlScalar_read (laws : yaml.Laws) (some : value ≠ []) (line : OneLine value) :
    OneLine (yamlScalar yaml value) ∧
      ((yaml.WritesPlain value → Text.trimEnd value = value) →
        yaml.ReadsAs (yamlScalar yaml value) (.text value)) := by
  rcases laws.scalar value some line with ⟨plain, reads⟩ | ⟨quoted, written, single, visible, reads⟩ |
    block
  · rw [yamlScalar_of_plain line.1 plain]
    refine ⟨⟨fun member => ?_, fun member => ?_⟩, fun kept => ?_⟩
    · exact line.1 ((List.rdropWhile_prefix _ _).subset member)
    · exact line.2 ((List.rdropWhile_prefix _ _).subset member)
    · rw [kept plain]
      exact reads
  · rw [yamlScalar_of_quoted written single.1 visible]
    exact ⟨single, fun _ => reads⟩
  · have json : yamlScalar yaml value = Text.jsonString value := by
      rw [yamlScalar]
      exact if_pos block
    rw [json]
    exact ⟨oneLine_jsonString value, fun _ => laws.json value line block⟩

end Title

/-! ## Reading the front matter -/

section Reading

variable {yaml : YamlPackage} (laws : yaml.Laws) {feature : Feature} (valid : feature.Valid)
  (line : OneLine feature.titre)

include laws valid line

/-- **The front matter is read back**, when the end of the title was not cut. -/
theorem reads_front (kept : yaml.WritesPlain feature.titre → Text.trimEnd feature.titre = feature.titre) :
    (yaml.parseDocument (Text.joinLines (frontLines yaml feature))).Reads (.record feature.front) := by
  obtain ⟨single, reads⟩ := yamlScalar_read laws valid.titre line
  exact laws.mapping (idEntry laws valid :: ⟨Text.lit "titre", yamlScalar yaml feature.titre,
    .text feature.titre, by decide, by decide, single, reads kept⟩ :: linkEntries laws valid)
    (List.cons_ne_nil _ _) frontKeys_nodup

/-- **A title that is written plain and read as a text is read without its end.** -/
theorem titre_cut (plain : yaml.WritesPlain feature.titre) {fields : List (Text × Data)} {read : Text}
    (reads : (yaml.parseDocument (Text.joinLines (frontLines yaml feature))).Reads (.record fields))
    (found : OrderedMap.get fields (Text.lit "titre") = some (.text read)) :
    read = Text.trimEnd feature.titre := by
  rw [frontLines_eq laws valid, yamlScalar_of_plain line.1 plain] at reads
  exact laws.verbatim [idEntry laws valid] (linkEntries laws valid) (Text.lit "titre") feature.titre
    (by decide) (by decide) frontKeys_nodup line plain fields read reads found

/-- Every line of the front matter is one line, and opens with a letter. -/
theorem frontLines_oneLine {l : Text} (member : l ∈ frontLines yaml feature) :
    OneLine l ∧ l.head?.any isLetter = true := by
  obtain ⟨single, -⟩ := yamlScalar_read laws valid.titre line
  have entry : ∀ {key text : Text}, Word key → OneLine text →
      OneLine (entryLine key text) ∧ (entryLine key text).head?.any isLetter = true := by
    intro key text word oneLine
    refine ⟨(word.oneLine.append (by decide)).append oneLine, ?_⟩
    have start := word.start
    cases key with
    | nil => cases start
    | cons u key => exact start
  rw [frontLines_eq laws valid, List.mem_append, List.mem_cons] at member
  rcases member with known | rfl | known
  · obtain ⟨e, -, rfl⟩ := List.mem_map.mp known
    exact entry e.word e.oneLine
  · exact entry (by decide) single
  · obtain ⟨e, -, rfl⟩ := List.mem_map.mp known
    exact entry e.word e.oneLine

end Reading

end Koklo.Schema
