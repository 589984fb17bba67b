import Koklo.Schema.Yaml

/-!
# A small YAML

A reading of block mappings whose values are on one line: plain scalars that open with a
letter, single-quoted scalars and lists of words. Scalars are written plain when they can
be read back as such and single-quoted otherwise. It keeps the laws that the code relies
on (`PlainYaml.laws`).
-/

set_option autoImplicit false

namespace Koklo.Schema.PlainYaml

open Koklo.Foundations

/-! ## Scalars -/

/-- A plain scalar: it opens with a letter, holds no colon, hash sign or end of line, and
does not end with a blank. -/
def isPlain (t : Text) : Bool :=
  t.head?.any isLetter && t.all (fun u => u != 0x3A && u != 0x23 && u != Text.newline && u != 0x0D) &&
    t.getLast?.all (fun u => u != 0x20 && u != 0x09) && t ∉ reserved

/-- The body of a single-quoted scalar, where quotes are doubled. -/
def quoteBody (t : Text) : Text := t.flatMap fun u => if u = 0x27 then [0x27, 0x27] else [u]

/-- Reads a single-quoted scalar up to its closing quote, which ends the text. -/
def unquote : Text → Option Text
  | [] => none
  | [u] => if u = 0x27 then some [] else none
  | u :: v :: rest =>
    if u = 0x27 then
      if v = 0x27 then (unquote rest).map (0x27 :: ·) else none
    else (unquote (v :: rest)).map (u :: ·)

/-- The items of a list, without the blank before each. -/
def flowItems (inner : Text) : List Text :=
  if inner = [] then [] else (inner.splitOn 0x2C).map fun item => item.dropWhile (· == 0x20)

def readFlow (inner : Text) : Option Data :=
  if (flowItems inner).all (fun item => decide (Word item)) then
    some (.list ((flowItems inner).map Data.text))
  else none

/-- The data of a reserved word. -/
def readReserved (t : Text) : Data :=
  if t ∈ ["null", "Null", "NULL"].map Text.lit then .null
  else .bool (t ∈ ["true", "True", "TRUE"].map Text.lit)

/-- The data that a one-line value is read as. -/
def readValue (t : Text) : Option Data :=
  match t with
  | [] => some .null
  | u :: rest =>
    if u = 0x5B then
      if rest.getLast? = some 0x5D then readFlow rest.dropLast else none
    else if u = 0x27 then (unquote rest).map Data.text
    else if t ∈ reserved then some (readReserved t)
    else if isPlain t then some (.text t)
    else none

/-- A line of a mapping: a word, a colon and a blank, and a value. -/
def readLine (line : Text) : Option (Text × Data) :=
  match line.dropWhile (· != 0x3A) with
  | 0x3A :: 0x20 :: value =>
    if Word (line.takeWhile (· != 0x3A)) then
      (readValue value).map fun data => (line.takeWhile (· != 0x3A), data)
    else none
  | _ => none

/-! ## The package -/

def refusal (code : YamlErrorCode) (message : String) : Document :=
  ⟨[⟨code, none, 0, Text.lit message⟩], [], .null⟩

/-- The document of a text of this part of YAML. -/
def parseDocument (content : Text) : Document :=
  match (Text.lines content).mapM readLine with
  | some fields =>
    if (fields.map Prod.fst).Nodup then ⟨[], [], .record fields⟩
    else refusal .duplicateKey "Map keys must be unique"
  | none => refusal .other "Unexpected scalar"

/-- A scalar as it is written, without the end of its line. -/
def written (value : Text) : Text :=
  if isPlain value then value else 0x27 :: (quoteBody value ++ [0x27])

def stringify (value : Text) : Text := written value ++ [Text.newline]

/-- The small YAML as a package. -/
def package : YamlPackage := ⟨stringify, parseDocument⟩

/-! ## Reading values -/

/-- A value that opens with a letter is a reserved word, a plain scalar or nothing. -/
theorem readValue_of_letter {t : Text} (letter : t.head?.any isLetter = true) : readValue t =
    if t ∈ reserved then some (readReserved t) else if isPlain t then some (.text t) else none := by
  cases t with
  | nil => cases letter
  | cons u rest =>
    have bracket : u ≠ 0x5B := by
      rintro rfl
      cases letter
    have quote : u ≠ 0x27 := by
      rintro rfl
      cases letter
    rw [readValue, if_neg bracket, if_neg quote]

theorem readReserved_ne_text (t read : Text) : readReserved t ≠ .text read := by
  unfold readReserved
  split <;> exact nofun

theorem isPlain_iff {t : Text} : isPlain t = true ↔ t.head?.any isLetter = true ∧
    (∀ u ∈ t, u ≠ 0x3A ∧ u ≠ 0x23 ∧ u ≠ Text.newline ∧ u ≠ 0x0D) ∧
      (∀ u ∈ t.getLast?, u ≠ 0x20 ∧ u ≠ 0x09) ∧ t ∉ reserved := by
  simp only [isPlain, Bool.and_eq_true, List.all_eq_true, bne_iff_ne, Option.all_eq_true,
    decide_eq_true_eq, Option.mem_def, and_assoc, ne_eq]

theorem readValue_plain {t : Text} (plain : isPlain t = true) : readValue t = some (.text t) := by
  obtain ⟨letter, -, -, free⟩ := isPlain_iff.mp plain
  rw [readValue_of_letter letter, if_neg free, if_pos plain]

theorem isPlain_of_word {w : Text} (word : Word w) : isPlain w = true := by
  have units := List.all_eq_true.mp word.units
  have other : ∀ v : CodeUnit, isWordUnit v = false → ∀ u ∈ w, u ≠ v := by
    intro v outside u member same
    have unit := units u member
    rw [same, outside] at unit
    cases unit
  refine isPlain_iff.mpr ⟨word.start, fun u member => ?_, fun u last => ?_, word.free⟩
  · exact ⟨other _ (by decide) u member, other _ (by decide) u member, other _ (by decide) u member,
      other _ (by decide) u member⟩
  · have member := List.mem_of_getLast? last
    exact ⟨other _ (by decide) u member, other _ (by decide) u member⟩

theorem unquote_quoteBody (t : Text) : unquote (quoteBody t ++ [0x27]) = some t := by
  induction t with
  | nil => rfl
  | cons u t ih =>
    by_cases quote : u = 0x27
    · have doubled : quoteBody (u :: t) ++ [0x27] = 0x27 :: 0x27 :: (quoteBody t ++ [0x27]) := by
        rw [quoteBody, List.flatMap_cons, if_pos quote]
        rfl
      rw [doubled, unquote, if_pos rfl, if_pos rfl, ih, quote]
      rfl
    · have kept : quoteBody (u :: t) ++ [0x27] = u :: (quoteBody t ++ [0x27]) := by
        rw [quoteBody, List.flatMap_cons, if_neg quote]
        rfl
      obtain ⟨v, rest, shape⟩ := List.exists_cons_of_ne_nil
        (List.append_ne_nil_of_right_ne_nil (quoteBody t) (List.cons_ne_nil 0x27 []))
      rw [kept, shape, unquote, if_neg quote, ← shape, ih]
      rfl

theorem mem_quoteBody {t : Text} {u : CodeUnit} (member : u ∈ quoteBody t) : u = 0x27 ∨ u ∈ t := by
  obtain ⟨v, inside, unit⟩ := List.mem_flatMap.mp member
  by_cases quote : v = 0x27
  · rw [if_pos quote] at unit
    exact .inl (by simpa using unit)
  · rw [if_neg quote, List.mem_singleton] at unit
    exact .inr (unit ▸ inside)

theorem length_le_quoteBody (t : Text) : t.length ≤ (quoteBody t).length := by
  induction t with
  | nil => exact le_rfl
  | cons u t ih =>
    rw [quoteBody, List.flatMap_cons, List.length_append, List.length_cons]
    have one : 1 ≤ (if u = 0x27 then [0x27, 0x27] else [u] : Text).length := by
      split
      · exact Nat.le_succ 1
      · exact le_rfl
    exact (Nat.add_comm _ _).trans_le (Nat.add_le_add one ih)

/-- The blank after a comma belongs to the next item. -/
theorem intercalate_comma (w : Text) (ws : List Text) :
    (Text.lit ", ").intercalate (w :: ws) = [0x2C].intercalate (w :: ws.map (0x20 :: ·)) := by
  induction ws generalizing w with
  | nil => rfl
  | cons v ws ih =>
    have blank : ∀ items : List Text, [0x2C].intercalate ((0x20 :: v) :: items) =
        0x20 :: [0x2C].intercalate (v :: items) := by
      intro items
      cases items with
      | nil => simp only [List.intercalate_singleton]
      | cons item items => simp only [List.intercalate_cons_cons, List.cons_append]
    rw [List.intercalate_cons_cons, ih, List.map_cons, List.intercalate_cons_cons, blank]
    simp only [List.append_assoc]
    rfl

/-- Words between brackets are cut at the commas. -/
theorem flowItems_intercalate {ws : List Text} (words : ∀ w ∈ ws, Word w) :
    flowItems ((Text.lit ", ").intercalate ws) = ws := by
  cases ws with
  | nil => rfl
  | cons w ws =>
    have comma : ∀ v ∈ w :: ws, (0x2C : CodeUnit) ∉ v := by
      intro v member inside
      cases List.all_eq_true.mp (words v member).units _ inside
    have blank : ∀ v ∈ w :: ws, v.dropWhile (· == 0x20) = v := by
      intro v member
      have start := (words v member).start
      cases v with
      | nil => rfl
      | cons u v =>
        refine List.dropWhile_cons_of_neg fun space => ?_
        rw [beq_iff_eq.mp space] at start
        cases start
    have some : (Text.lit ", ").intercalate (w :: ws) ≠ [] := by
      have start := (words w List.mem_cons_self).start
      cases w with
      | nil => cases start
      | cons u w =>
        cases ws with
        | nil =>
          rw [List.intercalate_singleton]
          exact List.cons_ne_nil u w
        | cons v ws =>
          rw [List.intercalate_cons_cons]
          exact List.cons_ne_nil u _
    rw [flowItems, if_neg some, intercalate_comma, List.splitOn_intercalate]
    · rw [List.map_cons, blank w List.mem_cons_self, List.map_map]
      refine congrArg (w :: ·) ((List.map_congr_left fun v member => ?_).trans (List.map_id _))
      exact blank v (List.mem_cons_of_mem _ member)
    · intro v member
      rcases List.mem_cons.mp member with rfl | later
      · exact comma v List.mem_cons_self
      · obtain ⟨word, listed, rfl⟩ := List.mem_map.mp later
        intro inside
        rcases List.mem_cons.mp inside with space | known
        · cases space
        · exact comma word (List.mem_cons_of_mem _ listed) known
    · exact List.cons_ne_nil _ _

theorem readValue_flow {ws : List Text} (words : ∀ w ∈ ws, Word w) :
    readValue (Text.lit "[" ++ (Text.lit ", ").intercalate ws ++ Text.lit "]") =
      some (.list (ws.map Data.text)) := by
  have shape : Text.lit "[" ++ (Text.lit ", ").intercalate ws ++ Text.lit "]" =
      0x5B :: ((Text.lit ", ").intercalate ws ++ [0x5D]) := rfl
  have all : ws.all (fun item => decide (Word item)) = true :=
    List.all_eq_true.mpr fun w member => decide_eq_true (words w member)
  rw [shape, readValue, if_pos rfl, List.getLast?_concat, if_pos rfl, List.dropLast_concat, readFlow,
    flowItems_intercalate words, if_pos all]

/-! ## Reading lines -/

theorem readLine_entryLine {key : Text} (word : Word key) (text : Text) :
    readLine (entryLine key text) = (readValue text).map fun data => (key, data) := by
  have all : ∀ u ∈ key, (u != 0x3A) = true := by
    intro u member
    rw [bne_iff_ne]
    rintro rfl
    cases List.all_eq_true.mp word.units _ member
  have shape : entryLine key text = key ++ 0x3A :: 0x20 :: text := by
    rw [entryLine, List.append_assoc]
    rfl
  have before : (entryLine key text).takeWhile (· != 0x3A) = key := by
    rw [shape, List.takeWhile_append_of_pos all, List.takeWhile_cons_of_neg (by decide), List.append_nil]
  have after : (entryLine key text).dropWhile (· != 0x3A) = 0x3A :: 0x20 :: text := by
    rw [shape, List.dropWhile_append_of_pos all, List.dropWhile_cons_of_neg (by decide)]
  rw [readLine, after, before]
  simp only [if_pos word]

theorem mapM_map_eq_some {α β γ : Type} {line : α → β} {read : β → Option γ} {value : α → γ}
    {list : List α} (each : ∀ a ∈ list, read (line a) = some (value a)) :
    (list.map line).mapM read = some (list.map value) := by
  induction list with
  | nil => rfl
  | cons a list ih =>
    rw [List.map_cons, List.mapM_cons, each a List.mem_cons_self,
      ih fun b member => each b (List.mem_cons_of_mem _ member)]
    rfl

theorem exists_of_mapM_eq_some {β γ : Type} {read : β → Option γ} {list : List β} {out : List γ}
    (mapped : list.mapM read = some out) {c : γ} (member : c ∈ out) :
    ∃ b ∈ list, read b = some c := by
  induction list generalizing out with
  | nil =>
    cases mapped
    cases member
  | cons b list ih =>
    rw [List.mapM_cons] at mapped
    obtain ⟨first, found, rest⟩ := Option.bind_eq_some_iff.mp mapped
    obtain ⟨others, later, same⟩ := Option.bind_eq_some_iff.mp rest
    cases same
    rcases List.mem_cons.mp member with rfl | inside
    · exact ⟨b, List.mem_cons_self, found⟩
    · obtain ⟨d, listed, known⟩ := ih later inside
      exact ⟨d, List.mem_cons_of_mem _ listed, known⟩

/-- What a document is read as. -/
theorem parseDocument_reads {content : Text} {fields : List (Text × Data)} :
    (parseDocument content).Reads (.record fields) ↔
      (Text.lines content).mapM readLine = some fields ∧ (fields.map Prod.fst).Nodup := by
  unfold parseDocument
  cases (Text.lines content).mapM readLine with
  | none =>
    constructor
    · intro reads
      cases reads.errors
    · rintro ⟨none, -⟩
      cases none
  | some found =>
    by_cases distinct : (found.map Prod.fst).Nodup
    · simp only [if_pos distinct, Option.some.injEq]
      constructor
      · intro reads
        cases reads.data
        exact ⟨rfl, distinct⟩
      · rintro ⟨rfl, -⟩
        exact ⟨rfl, rfl, rfl⟩
    · simp only [if_neg distinct, Option.some.injEq]
      constructor
      · intro reads
        cases reads.errors
      · rintro ⟨rfl, nodup⟩
        exact absurd nodup distinct

/-- One field. -/
theorem readsAs_iff {text : Text} (line : OneLine text) {data : Data} :
    package.ReadsAs text data ↔ readValue text = some data := by
  have single : Text.newline ∉ entryLine (Text.lit "v") text :=
    (OneLine.append (s := Text.lit "v" ++ Text.lit ": ") (by decide) line).1
  have word : Word (Text.lit "v") := by decide
  have read := readLine_entryLine word text
  refine parseDocument_reads.trans ?_
  rw [Text.lines_of_not_mem single, List.mapM_cons, read]
  cases value : readValue text with
  | none => simp
  | some found => simp

/-! ## The laws -/

/-- Lines of entries are read entry by entry. -/
theorem lines_entries {lines : List Text} (single : ∀ l ∈ lines, OneLine l) (some : lines ≠ []) :
    Text.lines (Text.joinLines lines) = lines :=
  Text.lines_joinLines (fun l member => (single l member).1) some

theorem oneLine_entryLine {key text : Text} (word : Word key) (line : OneLine text) :
    OneLine (entryLine key text) :=
  (word.oneLine.append (by decide)).append line

theorem isPlain_of_writesPlain {value : Text} (plain : package.WritesPlain value) :
    isPlain value = true := by
  by_contra quoted
  have text : 0x27 :: (quoteBody value ++ [0x27]) = value := by
    have same : written value = value := List.append_cancel_right plain
    rwa [written, if_neg quoted] at same
  have same := congrArg List.length text
  have longer := length_le_quoteBody value
  simp only [List.length_cons, List.length_append, List.length_nil] at same
  omega

theorem oneLine_quoted {value : Text} (line : OneLine value) :
    OneLine (0x27 :: (quoteBody value ++ [0x27])) := by
  have body : OneLine (quoteBody value) := by
    constructor
    · intro member
      exact (mem_quoteBody member).elim (by decide) line.1
    · intro member
      exact (mem_quoteBody member).elim (by decide) line.2
  exact OneLine.append (s := [0x27]) (by decide) (body.append (by decide))

theorem oneLine_written {value : Text} (line : OneLine value) : OneLine (written value) := by
  unfold written
  split
  · exact line
  · exact oneLine_quoted line

/-- A line of a field that is read tells its key. -/
theorem readValue_of_readLine {key text known : Text} (word : Word key) {data : Data}
    (read : readLine (entryLine key text) = some (known, data)) :
    key = known ∧ readValue text = some data := by
  rw [readLine_entryLine word] at read
  obtain ⟨value, found, same⟩ := Option.map_eq_some_iff.mp read
  obtain ⟨keys, values⟩ := Prod.mk.inj same
  exact ⟨keys, values ▸ found⟩

theorem isSpace_of_isLetter {u : CodeUnit} (letter : isLetter u = true) : Text.isSpace u = false := by
  have bounds : 0x41 ≤ u.val ∧ u.val ≤ 0x7A := by
    simp only [isLetter, Text.isLower, Bool.or_eq_true, Bool.and_eq_true, decide_eq_true_eq] at letter
    rcases letter with ⟨least, most⟩ | ⟨least, most⟩
    · exact ⟨le_trans (by decide) (Fin.le_def.mp least), Fin.le_def.mp most⟩
    · exact ⟨Fin.le_def.mp least, le_trans (Fin.le_def.mp most) (by decide)⟩
  rw [Bool.eq_false_iff]
  intro space
  simp [Text.isSpace, Fin.le_def, Fin.ext_iff] at space
  omega

/-- A plain scalar that opens with a letter keeps it when its end is trimmed. -/
theorem trimEnd_letter {value : Text} (letter : value.head?.any isLetter = true) :
    (Text.trimEnd value).head?.any isLetter = true := by
  cases value with
  | nil => exact letter
  | cons u rest =>
    have visible : Text.isSpace u = false := isSpace_of_isLetter letter
    obtain ⟨cut, split⟩ := List.rdropWhile_prefix Text.isSpace (u :: rest)
    cases trimmed : Text.trimEnd (u :: rest) with
    | nil =>
      have blank := List.rdropWhile_eq_nil_iff.mp trimmed u List.mem_cons_self
      rw [visible] at blank
      cases blank
    | cons v tail =>
      rw [show (u :: rest).rdropWhile Text.isSpace = v :: tail from trimmed] at split
      rw [← (List.cons.inj split).1] at letter
      exact letter

/-- **The small YAML keeps the laws.** -/
theorem laws : package.Laws where
  mapping entries some distinct := by
    have single : ∀ l ∈ entries.map (fun e => entryLine e.key e.text), OneLine l := by
      intro l member
      obtain ⟨e, -, rfl⟩ := List.mem_map.mp member
      exact oneLine_entryLine e.word e.oneLine
    refine parseDocument_reads.mpr ⟨?_, ?_⟩
    · rw [lines_entries single (mt List.map_eq_nil_iff.mp some)]
      refine mapM_map_eq_some fun e _ => ?_
      rw [readLine_entryLine e.word, (readsAs_iff e.oneLine).mp e.reads]
      rfl
    · rw [List.map_map]
      exact distinct
  word w word := (readsAs_iff word.oneLine).mpr (readValue_plain (isPlain_of_word word))
  flow ws words := by
    exact (readsAs_iff (oneLine_flow words)).mpr (readValue_flow words)
  scalar value _ line := by
    by_cases plain : isPlain value = true
    · refine .inl ⟨?_, (readsAs_iff line).mpr (readValue_plain plain)⟩
      exact congrArg (· ++ [Text.newline]) (if_pos plain)
    · have quoted := oneLine_quoted line
      refine .inr (.inl ⟨0x27 :: (quoteBody value ++ [0x27]), ?_, quoted, ?_, ?_⟩)
      · exact congrArg (· ++ [Text.newline]) (if_neg plain)
      · refine ⟨0x27, ?_, by decide⟩
        rw [← List.cons_append, List.getLast?_concat]
        rfl
      · refine (readsAs_iff quoted).mpr ?_
        rw [readValue, if_neg (by decide), if_pos rfl, unquote_quoteBody]
        rfl
  json value line block := by
    have cut : Text.trimEnd (package.stringify value) = Text.trimEnd (written value) :=
      List.rdropWhile_concat_pos Text.isSpace _ _ (by decide)
    rw [cut] at block
    exact absurd ((List.rdropWhile_prefix _ _).subset block) (oneLine_written line).1
  verbatim before after key value word _ distinct line plain fields read reads found := by
    obtain ⟨letter, -⟩ := isPlain_iff.mp (isPlain_of_writesPlain plain)
    obtain ⟨mapped, -⟩ := parseDocument_reads.mp reads
    obtain ⟨apart, -⟩ := List.nodup_cons.mp (List.nodup_middle.mp distinct)
    have kept : OneLine (Text.trimEnd value) :=
      ⟨fun member => line.1 ((List.rdropWhile_prefix _ _).subset member),
        fun member => line.2 ((List.rdropWhile_prefix _ _).subset member)⟩
    have entries : ∀ list : List package.Entry,
        ∀ l ∈ list.map (fun e => entryLine e.key e.text), OneLine l := by
      intro list l member
      obtain ⟨e, -, rfl⟩ := List.mem_map.mp member
      exact oneLine_entryLine e.word e.oneLine
    have single : ∀ l ∈ before.map (fun e => entryLine e.key e.text) ++
        entryLine key (Text.trimEnd value) :: after.map (fun e => entryLine e.key e.text),
        OneLine l := by
      intro l member
      rcases List.mem_append.mp member with first | rest
      · exact entries before l first
      · rcases List.mem_cons.mp rest with rfl | last
        · exact oneLine_entryLine word kept
        · exact entries after l last
    rw [lines_entries single (List.append_ne_nil_of_right_ne_nil _ (List.cons_ne_nil _ _))] at mapped
    obtain ⟨l, listed, known⟩ := exists_of_mapM_eq_some mapped (OrderedMap.mem_of_get found)
    -- Another line with the key would repeat it.
    rcases List.mem_append.mp listed with first | rest
    · obtain ⟨e, member, rfl⟩ := List.mem_map.mp first
      obtain ⟨same, -⟩ := readValue_of_readLine e.word known
      exact absurd (List.mem_append_left _ (List.mem_map.mpr ⟨e, member, same⟩)) apart
    · rcases List.mem_cons.mp rest with rfl | last
      · obtain ⟨-, value⟩ := readValue_of_readLine word known
        rw [readValue_of_letter (trimEnd_letter letter)] at value
        split at value
        · exact absurd (Option.some.inj value) (readReserved_ne_text _ _)
        · split at value
          · cases value
            rfl
          · cases value
      · obtain ⟨e, member, rfl⟩ := List.mem_map.mp last
        obtain ⟨same, -⟩ := readValue_of_readLine e.word known
        exact absurd (List.mem_append_right _ (List.mem_map.mpr ⟨e, member, same⟩)) apart

end Koklo.Schema.PlainYaml
