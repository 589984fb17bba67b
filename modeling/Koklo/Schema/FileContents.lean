import Koklo.Schema.RoundTrip
import Koklo.Schema.SpecFilesOrder

/-!
# What the content of a file gives to its entity

A file that is accepted gives its entity the values of its YAML and, for a feature, what the headings
of its criteria hold. This is stated on the content: the value under a key (`yamlValue`), the lines
that the expression of headings matches (`headingLines`) and their parts (`headingParts`). The
identifiers, the titles and the links of a feature are those of its file (`feature_writtenIn`), and so
are those of tables and endpoints.

The entities of a specification are those of the files that are the first, in the order of paths, to
claim an identifier (`mem_entries_iff`).
-/

set_option autoImplicit false

namespace Koklo.Schema

open Koklo.Foundations
open Koklo.Foundations.Decoding
open Koklo.Foundations.Regex

/-! ## The content -/

/-- The YAML of a file: the front matter of a feature, the whole content of another file. -/
def yamlText (kind : Kind) (file : SpecFile) : Option Text :=
  if kind = .feature then (splitFrontMatter file.content).map FrontMatterParts.front
  else some file.content

/-- The value under a key of the YAML of a file. -/
def yamlValue (readers : Readers) (kind : Kind) (file : SpecFile) (key : Text) : Option Data :=
  (yamlText kind file).bind fun text =>
    (loadYaml readers.yaml file.path text).toOption.bind fun data => OrderedMap.get (spread data) key

/-- The text of a value. -/
def scalarText : Data → Option Text
  | .text t => some t
  | .null | .bool _ | .number _ | .list _ | .record _ => none

/-- The texts of a value: its own, or those of its items. -/
def textsOf : Option Data → List Text
  | some (.list items) => items.filterMap scalarText
  | some data => (scalarText data).toList
  | none => []

/-- The texts under a key of the YAML of a file. -/
def yamlTexts (readers : Readers) (kind : Kind) (file : SpecFile) (key : String) : List Text :=
  textsOf (yamlValue readers kind file (Text.lit key))

/-- The lines of the criteria of a file. -/
def criteriaLines (file : SpecFile) : List Text :=
  ((splitFrontMatter file.content).bind fun parts => sectionLines parts.body criteriaPattern).getD []

/-- Those that are headings. -/
def headingLines (file : SpecFile) : List Text :=
  (criteriaLines file).filter fun line => (headingRegex.exec line).isSome

/-- The identifier and the title of a heading. -/
def headingParts (line : Text) : Text × Text :=
  match criterionHeadingRegex.exec (((headingRegex.exec line).getD []).headD []) with
  | some [id, titre] => (id, titre)
  | _ => ([], [])

/-! ## Headings -/

/-- The parts of a line that is matched as a heading. -/
theorem headingRegex_parts {line : Text} {captures : List Text}
    (matched : headingRegex.exec line = some captures) :
    ∃ run body blanks, line = Text.lit "###" ++ (run ++ (body ++ blanks)) ∧ captures = [body] ∧
      ∀ u ∈ run ++ blanks, Text.isSpace u = true := by
  obtain ⟨mark, first, o₁, tail₁, same₁⟩ := mem_outcomes_seq.mp (mem_outcomes_of_exec matched)
  obtain ⟨none₁, split₁⟩ := mem_outcomes_text.mp first
  obtain ⟨spaces, second, o₂, tail₂, rfl⟩ := mem_outcomes_seq.mp tail₁
  obtain ⟨none₂, run, split₂, -, all₂⟩ := mem_outcomes_greedy.mp second
  obtain ⟨captured, third, o₃, tail₃, rfl⟩ := mem_outcomes_seq.mp tail₂
  obtain ⟨body, named, split₃, -, -⟩ := mem_outcomes_capture_lazy.mp third
  obtain ⟨none₄, blanks, split₄, -, all₄⟩ := mem_outcomes_greedy.mp tail₃
  obtain ⟨heads, ends⟩ := Prod.mk.inj same₁
  rw [← ends, List.append_nil] at split₄
  refine ⟨run, body, blanks, ?_, ?_, fun u member => ?_⟩
  · rw [split₁, split₂, split₃, split₄]
  · rw [heads, none₁, none₂, named, none₄]
    rfl
  · exact (List.mem_append.mp member).elim (all₂ u) (all₄ u)

/-- The parts of the title of a heading. -/
theorem criterionHeadingRegex_parts {body id titre : Text}
    (matched : criterionHeadingRegex.exec body = some [id, titre]) :
    ∃ digits run dash run', id = Text.lit "AC-" ++ digits ∧
      body = id ++ (run ++ (dash :: (run' ++ titre))) ∧ (∀ u ∈ digits, Text.isDigit u = true) ∧
        (dash = 0x2014 ∨ dash = 0x2013 ∨ dash = 0x2D) ∧
          ∀ u ∈ run ++ run', Text.isSpace u = true := by
  obtain ⟨name, first, o₁, tail₁, same₁⟩ := mem_outcomes_seq.mp (mem_outcomes_of_exec matched)
  obtain ⟨inner, inside, rfl⟩ := mem_outcomes_capture.mp first
  obtain ⟨mark, begun, count, rest, rfl⟩ := mem_outcomes_seq.mp inside
  obtain ⟨none₁, split₁⟩ := mem_outcomes_text.mp begun
  obtain ⟨none₂, digits, split₂, -, all₂⟩ := mem_outcomes_greedy.mp rest
  obtain ⟨spaces, second, o₂, tail₂, rfl⟩ := mem_outcomes_seq.mp tail₁
  obtain ⟨none₃, run, split₃, -, all₃⟩ := mem_outcomes_greedy.mp second
  obtain ⟨stroke, third, o₃, tail₃, rfl⟩ := mem_outcomes_seq.mp tail₂
  obtain ⟨none₄, dash, dashed, split₄⟩ := mem_outcomes_unit.mp third
  obtain ⟨spaces', fourth, o₄, tail₄, rfl⟩ := mem_outcomes_seq.mp tail₃
  obtain ⟨none₅, run', split₅, -, all₅⟩ := mem_outcomes_greedy.mp fourth
  obtain ⟨captured, dots, rfl⟩ := mem_outcomes_capture.mp tail₄
  obtain ⟨none₆, title, split₆, -, -⟩ := mem_outcomes_greedy.mp dots
  obtain ⟨heads, ends⟩ := Prod.mk.inj same₁
  dsimp only at heads ends split₃
  rw [← ends, List.append_nil] at split₆
  have whole : body = (Text.lit "AC-" ++ digits) ++ count.2 := by
    rw [split₁, split₂, List.append_assoc]
  have taken : body.take (body.length - count.2.length) = Text.lit "AC-" ++ digits := by
    rw [whole]
    exact take_append_left _ _
  rw [none₁, none₂, none₃, none₄, none₅, none₆, taken, ← ends] at heads
  simp only [List.nil_append, List.append_nil, List.singleton_append, List.cons.injEq, and_true,
    List.length_nil, Nat.sub_zero, List.take_length] at heads
  obtain ⟨rfl, rfl⟩ := heads
  refine ⟨digits, run, dash, run', rfl, ?_, all₂, ?_, fun u member => ?_⟩
  · rw [whole, split₃, split₄, split₅]
  · simpa only [Bool.or_eq_true, beq_iff_eq, or_assoc] using dashed
  · exact (List.mem_append.mp member).elim (all₃ u) (all₅ u)

/-- A unit that is visible, and stands neither in a mark nor among digits and dashes, is in a heading
exactly when it is in its title. -/
theorem mem_heading_iff {line id titre : Text} {u : CodeUnit}
    (heading : (headingRegex.exec line).isSome = true) (parts : headingParts line = (id, titre))
    (named : id ≠ []) (visible : Text.isSpace u = false) (other : Text.isDigit u = false)
    (apart : u ∉ Text.lit "###AC-" ++ [0x2014, 0x2013]) : u ∈ line ↔ u ∈ titre := by
  obtain ⟨captures, matched⟩ := Option.isSome_iff_exists.mp heading
  obtain ⟨run, body, blanks, rfl, rfl, spaces⟩ := headingRegex_parts matched
  rw [headingParts, matched, Option.getD_some, List.headD_cons] at parts
  have split : criterionHeadingRegex.exec body = some [id, titre] := by
    split at parts
    · rename_i found
      cases parts
      exact found
    · cases parts
      exact absurd rfl named
  obtain ⟨digits, run', dash, run'', rfl, rfl, all, dashes, spaces'⟩ :=
    criterionHeadingRegex_parts split
  have unspaced : ∀ {t : Text}, (∀ v ∈ t, Text.isSpace v = true) → u ∉ t := by
    intro t space member
    rw [space u member] at visible
    cases visible
  have undigit : u ∉ digits := by
    intro member
    rw [all u member] at other
    cases other
  have undash : u ≠ dash := by
    rintro rfl
    exact apart (by rcases dashes with rfl | rfl | rfl <;> decide)
  have mark : u ∉ Text.lit "###" ∧ u ∉ Text.lit "AC-" := by
    rw [show Text.lit "###AC-" = Text.lit "###" ++ Text.lit "AC-" from rfl, List.append_assoc,
      List.mem_append, List.mem_append, not_or, not_or] at apart
    exact ⟨apart.1, apart.2.1⟩
  rw [List.forall_mem_append] at spaces spaces'
  simp only [List.mem_append, List.mem_cons, mark.1, mark.2, undigit, undash, unspaced spaces.1,
    unspaced spaces.2, unspaced spaces'.1, unspaced spaces'.2, false_or, or_false]

/-- A step leaves the identifiers and the titles. -/
theorem map_addStep {criteria : List Criterion} (some : criteria ≠ []) (step : Step) :
    (addStep criteria step).map (fun c => (c.id, c.titre)) =
      criteria.map fun c => (c.id, c.titre) := by
  obtain ⟨before, last, rfl⟩ := (List.eq_nil_or_concat criteria).resolve_left some
  rw [List.concat_eq_append, addStep, List.getLast?_concat]
  dsimp only
  rw [List.dropLast_concat, List.map_append, List.map_append]
  rfl

/-- The criteria that are read are those of the headings, whatever the lines hold. -/
theorem criteria_of_headings (lines : List Text) (state : CriteriaState) :
    (lines.foldl parseLine state).criteria.map (fun c => (c.id, c.titre)) =
      state.criteria.map (fun c => (c.id, c.titre)) ++
        (lines.filter fun line => (headingRegex.exec line).isSome).map headingParts := by
  induction lines generalizing state with
  | nil => rw [List.filter_nil, List.map_nil, List.append_nil, List.foldl_nil]
  | cons line lines ih =>
    rw [List.foldl_cons, ih, List.filter_cons]
    cases matched : headingRegex.exec line with
    | some captures =>
      have opened : (parseLine state line).criteria.map (fun c => (c.id, c.titre)) =
          state.criteria.map (fun c => (c.id, c.titre)) ++ [headingParts line] := by
        rw [parseLine, matched]
        dsimp only
        rw [openCriterion, headingParts, matched, Option.getD_some]
        dsimp only
        rw [List.map_append]
        rfl
      rw [opened, Option.isSome_some, if_pos rfl, List.map_cons, List.append_assoc,
        List.singleton_append]
    | none =>
      have kept : (parseLine state line).criteria.map (fun c => (c.id, c.titre)) =
          state.criteria.map (fun c => (c.id, c.titre)) := by
        rw [parseLine, matched]
        dsimp only
        by_cases none : state.criteria = []
        · rw [if_pos none]
          rfl
        · rw [if_neg none]
          split
          · exact map_addStep none _
          · rfl
      rw [kept, Option.isSome_none, if_neg Bool.false_ne_true]

/-- A line that is blank is no heading. -/
theorem visible_of_heading {line : Text} (heading : (headingRegex.exec line).isSome = true) :
    Text.trim line ≠ [] := by
  obtain ⟨captures, matched⟩ := Option.isSome_iff_exists.mp heading
  obtain ⟨run, body, blanks, rfl, -, -⟩ := headingRegex_parts matched
  exact visible_of_head (by decide)

/-- The criteria of lines are those of their headings. -/
theorem criteria_parseCriteria (lines : List Text) :
    (parseCriteria lines).criteria.map (fun c => (c.id, c.titre)) =
      (lines.filter fun line => (headingRegex.exec line).isSome).map headingParts := by
  rw [parseCriteria, criteria_of_headings, List.map_nil, List.nil_append, List.filter_filter]
  congr 1
  refine List.filter_congr fun line _ => ?_
  cases heading : (headingRegex.exec line).isSome with
  | false => rfl
  | true => simpa using visible_of_heading heading

/-- The identifiers that are seen are those of the criteria, and differ when no error is reported. -/
def CriteriaState.Seen (state : CriteriaState) : Prop :=
  state.seen = state.criteria.map Criterion.id ∧ (state.errors = [] → state.seen.Nodup)

theorem CriteriaState.Seen.parseLine {state : CriteriaState} (sound : state.Seen) (line : Text) :
    (parseLine state line).Seen := by
  obtain ⟨same, distinct⟩ := sound
  have kept : ∀ {criteria : List Criterion} {errors : List SectionError},
      criteria.map Criterion.id = state.criteria.map Criterion.id →
        (errors = [] → state.errors = []) → CriteriaState.Seen ⟨criteria, state.seen, errors⟩ :=
    fun ids clean => ⟨same.trans ids.symm, fun none => distinct (clean none)⟩
  have refused : ∀ {errors : List SectionError} {error : SectionError},
      errors ++ [error] ≠ [] := List.append_ne_nil_of_right_ne_nil _ (List.cons_ne_nil _ _)
  have opened : ∀ id titre pointer unnamed repeated : Text,
      CriteriaState.Seen
        { (if id = [] then state.addError pointer unnamed
            else if id ∈ state.seen then state.addError pointer repeated else state) with
          criteria := state.criteria ++ [⟨id, titre, []⟩]
          seen := state.seen ++ [id] } := by
    intro id titre pointer unnamed repeated
    refine ⟨by rw [same, List.map_append]; rfl, fun clean => ?_⟩
    dsimp only at clean
    split at clean
    · exact absurd clean refused
    split at clean
    · exact absurd clean refused
    · rename_i unseen
      exact List.nodup_append.mpr ⟨distinct clean, List.nodup_singleton _,
        fun a known b one equal => unseen (List.mem_singleton.mp one ▸ equal ▸ known)⟩
  unfold Schema.parseLine
  split
  · exact opened _ _ _ _ _
  · split
    · exact kept rfl fun clean => absurd clean refused
    · rename_i some_
      split
      · refine kept ?_ id
        have parts := congrArg (List.map Prod.fst) (map_addStep some_ ‹Step›)
        rwa [List.map_map, List.map_map] at parts
      · exact kept rfl fun clean => absurd clean refused

/-- Criteria that are read without error have distinct identifiers. -/
theorem nodup_parseCriteria {lines : List Text} (clean : (parseCriteria lines).errors = []) :
    ((parseCriteria lines).criteria.map Criterion.id).Nodup := by
  have seen : ∀ (lines : List Text) (state : CriteriaState), state.Seen →
      (lines.foldl parseLine state).Seen := by
    intro lines
    induction lines with
    | nil => exact fun _ sound => sound
    | cons line lines ih => exact fun state sound => ih _ (sound.parseLine line)
  obtain ⟨same, distinct⟩ := seen (lines.filter (Text.trim · ≠ [])) ⟨[], [], []⟩
    ⟨rfl, fun _ => List.nodup_nil⟩
  exact same ▸ distinct clean

/-! ## Values -/

section Values

variable {message : Defect → Text}

/-- A list of texts that is accepted holds their values. -/
theorem texts_of_itemsFrom {checks : Text → List SchemaIssue} {index : ℕ} {items : List Data}
    {out : List Text} (decoded : itemsFrom (textWith message checks) index items = .ok out) :
    items.filterMap scalarText = out := by
  induction items generalizing index out with
  | nil =>
    cases decoded
    rfl
  | cons data items ih =>
    rw [itemsFrom, Decoded.ap_eq_ok] at decoded
    obtain ⟨g, rest, first, later, rfl⟩ := decoded
    obtain ⟨g', value, shape, head, rfl⟩ := Decoded.ap_eq_ok.mp first
    cases shape
    have text := Option.some.inj (textWith_eq_ok message (Decoded.under_eq_ok.mp head))
    rw [text]
    exact congrArg (value :: ·) (ih later)

/-- The links of a field are the texts of its value. -/
theorem texts_of_links {source : String} {pattern : Pattern CodeUnit}
    {fields : OrderedMap Text Data} {name : Text} {out : List Text}
    (decoded : field fields name (links message source pattern) = .ok out) :
    textsOf (fields.get name) = out := by
  have read := Decoded.under_eq_ok.mp decoded
  rw [links] at read
  cases found : fields.get name with
  | none =>
    rw [found] at read
    cases read
    rfl
  | some data =>
    rw [found, orDefault] at read
    cases data with
    | list items => exact texts_of_itemsFrom read
    | null | bool _ | number _ | text _ | record _ => cases read

/-- The values that an accepted feature is made of. -/
theorem featureSchema_values {fields : OrderedMap Text Data} {feature : Feature}
    (accepted : featureSchema message (some (.record fields)) = .ok feature) :
    fields.get (Text.lit "id") = some (.text feature.id) ∧
      fields.get (Text.lit "titre") = some (.text feature.titre) ∧
      textsOf (fields.get (Text.lit "tables")) = feature.tables ∧
      textsOf (fields.get (Text.lit "endpoints")) = feature.endpoints := by
  have titled := featureSchema_titre accepted
  obtain ⟨_, same, read⟩ := strictRecord_eq_ok accepted
  cases same
  simp only [Decoded.ap_eq_ok] at read
  obtain ⟨_, _, ⟨_, _, ⟨_, _, ⟨_, _, ⟨_, _, ⟨_, _, ⟨_, _, ⟨_, _, ⟨_, _, ⟨_, _, ⟨_, _, ⟨_, _, made, id,
    rfl⟩, _, rfl⟩, _, rfl⟩, _, rfl⟩, tables, rfl⟩, endpoints, rfl⟩, _, rfl⟩, _, rfl⟩, _, rfl⟩,
    _, rfl⟩, _, rfl⟩, _, rfl⟩ := read
  cases made
  exact ⟨(field_idText_eq_ok id).1, titled, texts_of_links tables, texts_of_links endpoints⟩

end Values

/-! ## What is written -/

section Written

variable (readers : Readers) (file : SpecFile)

/-- A feature whose identifiers, title and criteria are those of a file. -/
structure Feature.WrittenIn (feature : Feature) : Prop where
  id : yamlTexts readers .feature file "id" = [feature.id]
  titre : yamlTexts readers .feature file "titre" = [feature.titre]
  tables : yamlTexts readers .feature file "tables" = feature.tables
  endpoints : yamlTexts readers .feature file "endpoints" = feature.endpoints
  criteres : feature.criteres.map (fun c => (c.id, c.titre)) = (headingLines file).map headingParts
  distinct : (feature.criteres.map Criterion.id).Nodup
  short : feature.criteres.length ≤ maxFileChars + 1

variable {readers file}

theorem small_of_tooLarge {path content : Text} (fits : tooLarge path content = none) :
    content.length ≤ maxFileChars := by
  by_contra large
  rw [tooLarge, if_neg large] at fits
  cases fits

/-- A text has one line more than line feeds, at most. -/
theorem length_lines_le (t : Text) : (Text.lines t).length ≤ t.length + 1 := by
  have joined : ∀ ls : List Text, ls.length ≤ (Text.joinLines ls).length + 1 := by
    intro ls
    induction ls with
    | nil => exact Nat.zero_le _
    | cons l ls ih =>
      cases ls with
      | nil => exact Nat.le_add_left 1 _
      | cons l' ls =>
        rw [Text.joinLines_cons (List.cons_ne_nil _ _), List.length_append]
        simp only [List.length_cons] at ih ⊢
        omega
  have whole := joined (Text.lines t)
  rwa [Text.joinLines_lines] at whole

/-- The body of a file has no more lines than the file. -/
theorem length_body_le {content : Text} {parts : FrontMatterParts}
    (split : splitFrontMatter content = some parts) : parts.body.length ≤ content.length + 1 := by
  have count : ∀ t : Text, (splitLines t).length ≤ t.length + 1 := by
    intro t
    refine le_trans ?_ (length_lines_le t)
    rw [splitLines, List.length_append, List.length_map, List.length_dropLast]
    cases Text.lines t with
    | nil => exact Nat.zero_le _
    | cons l ls => simp [List.getLast?_cons]
  have whole : (splitLines (if content.head? = some 0xFEFF then content.tail else content)).length ≤
      content.length + 1 := by
    refine (count _).trans ?_
    split
    · rw [List.length_tail]
      omega
    · exact le_rfl
  rw [splitFrontMatter] at split
  split at split
  · cases split
  · rename_i first rest shape
    rw [shape, List.length_cons] at whole
    split at split
    · split at split
      · cases split
      · rename_i fence body after
        cases split
        have inside := (List.dropWhile_suffix (fun line => !isFence line) (l := rest)).length_le
        rw [after, List.length_cons] at inside
        dsimp only
        omega
    · cases split

theorem length_headingLines_le (small : file.content.length ≤ maxFileChars) :
    (headingLines file).length ≤ maxFileChars + 1 := by
  refine (List.length_filter_le _ _).trans ?_
  rw [criteriaLines]
  cases split : splitFrontMatter file.content with
  | none => exact Nat.zero_le _
  | some parts =>
    rw [Option.bind_some]
    cases found : sectionLines parts.body criteriaPattern with
    | none => exact Nat.zero_le _
    | some lines =>
      have inside : lines.length ≤ parts.body.length := by
        rw [sectionLines] at found
        split at found
        · cases found
        · rename_i title rest after
          cases found
          have taken := (List.takeWhile_prefix (fun line => !isSection line) (l := rest)).length_le
          have dropped := (List.dropWhile_suffix (fun line =>
            !(isSection line && criteriaPattern.accepts (Text.trim (line.drop 2))))
            (l := parts.body)).length_le
          rw [after, List.length_cons] at dropped
          omega
      rw [Option.getD_some]
      exact inside.trans ((length_body_le split).trans (Nat.succ_le_succ small))

/-- **A feature that is read is written in its file.** -/
theorem feature_writtenIn {feature : Feature}
    (read : parseFeatureMarkdown readers.message readers.yaml file.path file.content = .ok feature) :
    feature.WrittenIn readers file := by
  have fits : tooLarge file.path file.content = none := by
    rw [parseFeatureMarkdown] at read
    split at read
    · cases read
    · assumption
  have small := small_of_tooLarge fits
  cases split : splitFrontMatter file.content with
  | none =>
    rw [parseFeatureMarkdown, fits, split] at read
    cases read
  | some parts =>
    obtain ⟨data, loaded, clean, accepted⟩ := (parseFeatureMarkdown_eq_ok small split).mp read
    have values : ∀ key : Text, yamlValue readers .feature file key = OrderedMap.get (spread data) key := by
      intro key
      rw [yamlValue, yamlText, if_pos rfl, split, Option.map_some, Option.bind_some, loaded]
      rfl
    have kept : ∀ key : Text, Text.lit "criteres" ≠ key → Text.lit "description" ≠ key →
        OrderedMap.get (withBody (spread data)
          (bodyIssues file.path (rawId data) parts.body).description
          (bodyIssues file.path (rawId data) parts.body).criteres) key =
        yamlValue readers .feature file key := by
      intro key first second
      rw [withBody, OrderedMap.get_set_of_ne _ first, OrderedMap.get_set_of_ne _ second, values]
    obtain ⟨id, titre, tables, endpoints⟩ := featureSchema_values accepted
    rw [kept _ (by decide) (by decide)] at id titre tables endpoints
    have criteres : feature.criteres = (bodyIssues file.path (rawId data) parts.body).criteres :=
      featureSchema_criteres (OrderedMap.get_set_self _ _ _) accepted
    have parted : feature.criteres.map (fun c => (c.id, c.titre)) =
        (headingLines file).map headingParts := by
      rw [criteres, bodyIssues, criteria_parseCriteria, headingLines, criteriaLines, split,
        Option.bind_some]
    have distinct : (feature.criteres.map Criterion.id).Nodup := by
      rw [criteres]
      refine nodup_parseCriteria ?_
      simp only [bodyIssues, List.append_eq_nil_iff, List.map_eq_nil_iff] at clean
      exact clean.2
    refine ⟨by rw [yamlTexts, id]; rfl, by rw [yamlTexts, titre]; rfl, tables, endpoints, parted,
      distinct, ?_⟩
    have lengths := congrArg List.length parted
    rw [List.length_map, List.length_map] at lengths
    rw [lengths]
    exact length_headingLines_le small

/-- The data of a table or of an endpoint is that of its YAML. -/
theorem yamlValue_of_parseOne {kind : Kind} {entity : Entity} {known : Option Text}
    (other : kind ≠ .feature ∧ kind ≠ .rule ∧ kind ≠ .screen)
    (parsed : parseOne readers file kind = .ok (entity, known)) :
    ∃ data, readData readers kind file.path data = .ok entity ∧
      ∀ key, yamlValue readers kind file key = OrderedMap.get (spread data) key := by
  rw [parseOne_data other.1 other.2.1, loadData, if_neg other.2.2] at parsed
  cases loaded : loadYaml readers.yaml file.path file.content with
  | error issues =>
    rw [loaded] at parsed
    cases parsed
  | ok data =>
    rw [loaded] at parsed
    obtain ⟨value, decoded, same⟩ := map_eq_ok.mp parsed
    cases same
    refine ⟨data, decoded, fun key => ?_⟩
    rw [yamlValue, yamlText, if_neg other.1, Option.bind_some, loaded]
    rfl

theorem table_written {table : Table} {known : Option Text}
    (parsed : parseOne readers file .table = .ok (.table table, known)) :
    yamlTexts readers .table file "id" = [table.id] := by
  obtain ⟨data, decoded, values⟩ := yamlValue_of_parseOne ⟨by decide, by decide, by decide⟩ parsed
  obtain ⟨value, accepted, same⟩ := readAs_eq_ok.mp decoded
  cases same
  obtain ⟨fields, shape, id, -⟩ := tableSchema_eq_ok accepted
  cases shape
  rw [yamlTexts, values, spread, id]
  rfl

/-- The path of the requests of an endpoint that is accepted is the text of its field. -/
theorem endpointSchema_chemin {message : Defect → Text} {fields : OrderedMap Text Data}
    {endpoint : Endpoint} (accepted : endpointSchema message (some (.record fields)) = .ok endpoint) :
    fields.get (Text.lit "chemin") = some (.text endpoint.chemin) := by
  obtain ⟨_, same, read⟩ := strictRecord_eq_ok accepted
  cases same
  simp only [Decoded.ap_eq_ok] at read
  obtain ⟨_, _, ⟨_, _, ⟨_, _, ⟨_, _, ⟨_, _, ⟨_, _, ⟨_, _, made, _, rfl⟩, _, rfl⟩, chemin, rfl⟩, _,
    rfl⟩, _, rfl⟩, _, rfl⟩, _, rfl⟩ := read
  cases made
  exact textWith_eq_ok message (Decoded.under_eq_ok.mp chemin)

theorem endpoint_written {endpoint : Endpoint} {known : Option Text}
    (parsed : parseOne readers file .endpoint = .ok (.endpoint endpoint, known)) :
    yamlTexts readers .endpoint file "id" = [endpoint.id] ∧
      yamlTexts readers .endpoint file "chemin" = [endpoint.chemin] := by
  obtain ⟨data, decoded, values⟩ := yamlValue_of_parseOne ⟨by decide, by decide, by decide⟩ parsed
  obtain ⟨value, accepted, same⟩ := readAs_eq_ok.mp decoded
  cases same
  obtain ⟨fields, shape, id, -⟩ := endpointSchema_eq_ok accepted
  cases shape
  have chemin := endpointSchema_chemin accepted
  rw [yamlTexts, yamlTexts, values, values, spread, id, chemin]
  exact ⟨rfl, rfl⟩

end Written

/-! ## The files that entities are taken from -/

section Taken

variable {readers : Readers}

/-- A file that claims no identifier of a kind, or one that is taken, changes no first claimant. -/
theorem exists_claimant_append {files : List SpecFile} {file : SpecFile} {kind : Kind}
    (none : ∀ id, (firstClaimant readers files (kind, id)).isSome = true ∨
      claim readers file ≠ some (kind, id)) (gives : Text → SpecFile → Prop) :
    (∃ id other, firstClaimant readers (files ++ [file]) (kind, id) = some other ∧ gives id other) ↔
      ∃ id other, firstClaimant readers files (kind, id) = some other ∧ gives id other := by
  refine exists_congr fun id => exists_congr fun other => ?_
  rw [firstClaimant_append]
  rcases none id with known | unclaimed
  · obtain ⟨first, found⟩ := Option.isSome_iff_exists.mp known
    rw [found, Option.some_or]
  · rw [if_neg unclaimed, Option.or_none]

/-- A file that claims an identifier that is free becomes its first claimant. -/
theorem exists_claimant_append_free {files : List SpecFile} {file : SpecFile} {kind : Kind}
    {id : Text} (free : firstClaimant readers files (kind, id) = none)
    (claims : claim readers file = some (kind, id)) (gives : Text → SpecFile → Prop) :
    (∃ id other, firstClaimant readers (files ++ [file]) (kind, id) = some other ∧ gives id other) ↔
      (∃ id other, firstClaimant readers files (kind, id) = some other ∧ gives id other) ∨
        gives id file := by
  simp only [firstClaimant_append]
  constructor
  · rintro ⟨other, first, found, given⟩
    by_cases same : other = id
    · subst same
      rw [free, Option.none_or, if_pos claims, Option.some.injEq] at found
      subst found
      exact .inr given
    · have unclaimed : claim readers file ≠ some (kind, other) := by
        rw [claims]
        exact fun equal => same (Prod.mk.inj (Option.some.inj equal)).2.symm
      rw [if_neg unclaimed, Option.or_none] at found
      exact .inl ⟨other, first, found, given⟩
  · rintro (⟨other, first, found, given⟩ | given)
    · exact ⟨other, first, by rw [found, Option.some_or], given⟩
    · exact ⟨id, file, by rw [free, Option.none_or, if_pos claims], given⟩

/-- **The entities of a specification** are those of the files that are the first to claim an
identifier. -/
theorem mem_entries_iff {files : List SpecFile} {kind : Kind} (identified : kind.identified = true)
    {entry : Text × Entity} : entry ∈ (parseOrdered readers files).spec.entries kind ↔
      ∃ id file, firstClaimant readers files (kind, id) = some file ∧ file.path = entry.1 ∧
        readFile readers file = some (entry.2, some (kind, id)) := by
  induction files using List.reverseRecOn with
  | nil =>
    constructor
    · intro stands
      cases kind <;> cases stands
    · rintro ⟨_, _, found, -⟩
      cases found
  | append_singleton files file ih =>
    rw [parseOrdered_append]
    rcases parseFile_cases readers (parseOrdered readers files) file with
      ⟨unread, more, after, -⟩ | ⟨entity, read, after⟩ |
      ⟨entity, key, read, ⟨taken, more, -, after⟩ | ⟨free, after⟩⟩
    · rw [exists_claimant_append fun id => .inr ?_, after, ih]
      rw [claim, unread]
      intro claims
      cases claims
    · have other : kind ≠ entity.kind := by
        rintro rfl
        have claims := (readFile_eq_some read).2.2.2.mp identified
        cases claims
      rw [exists_claimant_append fun id => .inr ?_, after, entries_place, if_neg other, ih]
      rw [claim, read]
      intro claims
      cases claims
    · rw [exists_claimant_append fun id => ?_, after, ih]
      rw [claimed_parseOrdered, ne_eq, Option.map_eq_none_iff] at taken
      by_cases same : key = (kind, id)
      · exact .inl (same ▸ Option.isSome_iff_ne_none.mpr taken)
      · refine .inr fun claims => same ?_
        rw [claim, read] at claims
        exact Option.some.inj claims
    · rw [claimed_parseOrdered, Option.map_eq_none_iff] at free
      have claims : claim readers file = some key := by
        rw [claim, read]
        rfl
      obtain ⟨id, -, rfl⟩ := Option.map_eq_some_iff.mp (readFile_eq_some read).2.2.1.symm
      by_cases mine : kind = entity.kind
      · subst mine
        have listed : entity.kind ≠ .project := by
          intro project
          rw [project] at identified
          cases identified
        rw [exists_claimant_append_free free claims, after, entries_place, if_pos rfl, if_neg listed,
          List.mem_append, List.mem_singleton, ih, read]
        refine or_congr_right ⟨?_, ?_⟩
        · rintro rfl
          exact ⟨rfl, rfl⟩
        · rintro ⟨path, given⟩
          rw [Option.some.injEq, Prod.mk.injEq] at given
          exact Prod.ext path.symm given.1.symm
      · rw [exists_claimant_append fun id => .inr ?_, after, entries_place, if_neg mine, ih]
        rw [claims]
        exact fun equal => mine (Prod.mk.inj (Option.some.inj equal)).1.symm

end Taken

end Koklo.Schema
