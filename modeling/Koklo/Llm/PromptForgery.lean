import Koklo.Foundations.Occurrences
import Koklo.Llm.PromptFraming

/-!
# Data blocks and forged markers

In a framed prompt each marker occurs once, and the text is cut into the neutralised contents in one
way only (`joinBlocks_inj`). A content that holds the start of a delimiter, or the nonce, is refused
unless normalisation joins its last letter with what follows it (`collides_of_kept`): such a content
passes, and it is the only one.
-/

set_option autoImplicit false

namespace Koklo.Llm

open Foundations

/-! ## What the blocks promise -/

/-- The blocks of a text from a rank on, with their origins and contents. -/
def joinBlocks (nonce : Text) (rank : ℕ) (blocks : List (Text × Text)) : Text :=
  [Text.newline, Text.newline].intercalate
    ((blocks.zipIdx rank).map fun (part, i) => frame part.1 part.2 i nonce)

/-- The data with their contents neutralised. -/
def neutralized (data : List Untrusted) : List (Text × Text) :=
  data.map fun datum => (datum.origin, neutralize datum.value)

/-- What no content may hold. -/
def forbidden (nonce : Text) : List Text := nonce :: delimiterStarts

/-- A text holds another one, up to the case of the ASCII letters. -/
def HoldsUpToCase (part text : Text) : Prop :=
  part.map Text.asciiLower <:+: text.map Text.asciiLower

/-- **The blocks of a prompt are not forged**: each marker occurs once, the text is cut into the
neutralised contents in one way, and none of them holds the nonce or the start of a delimiter. -/
structure Unforged (input : FramePromptInput) (user : Text) : Prop where
  opening : ∀ (i : ℕ) (datum : Untrusted), input.data[i]? = some datum →
    occurrences (openingMarker datum.origin (i + 1) input.nonce) user = 1
  closing : ∀ i < input.data.length, occurrences (closingMarker (i + 1) input.nonce) user = 1
  split : ∀ blocks : List (Text × Text), (∀ part ∈ blocks, isUntrustedOrigin part.1 = true) →
    (joinBlocks input.nonce 1 blocks = user ↔ blocks = neutralized input.data)
  clean : ∀ part ∈ neutralized input.data, ∀ text ∈ forbidden input.nonce,
    ¬ HoldsUpToCase text part.2

/-- The data that are framed: of a listed origin, and without collision. -/
structure Accepted (unicode : Unicode) (input : FramePromptInput) : Prop where
  nonce : isNonce input.nonce = true
  origins : ∀ part ∈ neutralized input.data, isUntrustedOrigin part.1 = true
  apart : ∀ part ∈ neutralized input.data, collides unicode part.2 input.nonce = false

/-- A text holds another one, whose last letter normalisation joins with what follows it. -/
def EndsJoined (unicode : Unicode) (part text : Text) : Prop :=
  ∃ (before start : Text) (last : CodeUnit) (after : Text),
    text = before ++ (start ++ last :: after) ∧
      (start ++ [last]).map Text.asciiLower = part.map Text.asciiLower ∧
      (unicode.nfkc (last :: after)).head? ≠ some last

/-! ## Framing -/

theorem block_eq_ok {unicode : Unicode} {datum : Untrusted} {rank : ℕ} {nonce text : Text} :
    block unicode datum rank nonce = .ok text ↔
      isUntrustedOrigin datum.origin = true ∧
        collides unicode (neutralize datum.value) nonce = false ∧
        text = frame datum.origin (neutralize datum.value) rank nonce := by
  rw [block, guard_eq_ok, guard_eq_ok, Bool.not_eq_false, Bool.not_eq_true, Except.ok.injEq,
    eq_comm (a := text)]

theorem mapM_block_eq_ok {unicode : Unicode} {nonce : Text} {data : List Untrusted} {i : ℕ}
    {texts : List Text} :
    (data.zipIdx i).mapM (fun (datum, i) => block unicode datum (i + 1) nonce) = .ok texts ↔
      (∀ part ∈ neutralized data, isUntrustedOrigin part.1 = true ∧
        collides unicode part.2 nonce = false) ∧
      texts = ((neutralized data).zipIdx (i + 1)).map fun (part, i) => frame part.1 part.2 i nonce := by
  induction data generalizing i texts with
  | nil =>
    rw [List.zipIdx_nil, List.mapM_nil]
    constructor
    · intro same
      cases same
      exact ⟨List.forall_mem_nil _, rfl⟩
    · rintro ⟨_, rfl⟩
      rfl
  | cons datum data ih =>
    rw [List.zipIdx_cons, List.mapM_cons, bind_eq_ok]
    simp only [bind_eq_ok, block_eq_ok, ih, neutralized, List.map_cons, List.forall_mem_cons,
      List.zipIdx_cons]
    constructor
    · rintro ⟨first, ⟨origin, apart, rfl⟩, rest, ⟨later, rfl⟩, same⟩
      cases same
      exact ⟨⟨⟨origin, apart⟩, later⟩, rfl⟩
    · rintro ⟨⟨⟨origin, apart⟩, later⟩, rfl⟩
      exact ⟨_, ⟨origin, apart, rfl⟩, _, ⟨later, rfl⟩, rfl⟩

/-- **The prompts that are framed**, and their texts. -/
theorem framePrompt_eq_ok {unicode : Unicode} {input : FramePromptInput} {prompt : FramedPrompt} :
    framePrompt unicode input = .ok prompt ↔ Accepted unicode input ∧
      prompt = ⟨untrustedDataPolicy ++ [Text.newline, Text.newline] ++ input.instructions,
        joinBlocks input.nonce 1 (neutralized input.data)⟩ := by
  rw [framePrompt, guard_eq_ok, bind_eq_ok, Bool.not_eq_false]
  simp only [mapM_block_eq_ok]
  constructor
  · rintro ⟨nonce, texts, ⟨all, rfl⟩, same⟩
    cases same
    exact ⟨⟨nonce, fun part known => (all part known).1, fun part known => (all part known).2⟩, rfl⟩
  · rintro ⟨accepted, rfl⟩
    exact ⟨accepted.nonce, _,
      ⟨fun part known => ⟨accepted.origins part known, accepted.apart part known⟩, rfl⟩, rfl⟩

/-! ## Markers -/

/-- A marker: three signs that nothing else in it repeats, and no line feed. -/
structure Marker (text : Text) : Prop where
  shape : ∃ rest, text = 0x3C :: 0x3C :: 0x3C :: rest ∧ (0x3C : CodeUnit) ∉ rest
  line : Text.newline ∉ text

theorem Marker.ne_nil {text : Text} (marker : Marker text) : text ≠ [] := by
  obtain ⟨rest, rfl, _⟩ := marker.shape
  exact List.cons_ne_nil _ _

theorem occurrences_marker {marker marker' : Text} (first : Marker marker)
    (second : Marker marker') :
    occurrences marker marker' = if marker <+: marker' then 1 else 0 := by
  obtain ⟨rest, rfl, _⟩ := first.shape
  obtain ⟨rest', rfl, absent⟩ := second.shape
  have inside : ∀ (signs : Text), ¬ (0x3C :: signs) <+: rest' := by
    intro signs starts
    exact absent (starts.subset List.mem_cons_self)
  have none : occurrences (0x3C :: 0x3C :: 0x3C :: rest) rest' = 0 :=
    occurrences_eq_zero_of_not_mem List.mem_cons_self absent
  rw [occurrences_cons, occurrences_cons, occurrences_cons, none, if_neg, if_neg, Nat.zero_add]
  · rw [List.cons_prefix_cons, List.cons_prefix_cons, not_and, not_and]
    exact fun _ _ => inside rest
  · rw [List.cons_prefix_cons, not_and]
    exact fun _ => inside _

/-- A unit that neither opens a marker nor ends a line. -/
def Plain (u : CodeUnit) : Prop := u ≠ 0x3C ∧ u ≠ Text.newline

theorem marker_of_plain {rest : Text} (plain : ∀ u ∈ rest, Plain u) :
    Marker (0x3C :: 0x3C :: 0x3C :: rest) where
  shape := ⟨rest, rfl, fun member => (plain _ member).1 rfl⟩
  line := by
    intro member
    simp only [List.mem_cons] at member
    rcases member with sign | sign | sign | member
    · exact absurd sign (by decide)
    · exact absurd sign (by decide)
    · exact absurd sign (by decide)
    · exact (plain _ member).2 rfl

theorem plain_ofNat (n : ℕ) : ∀ u ∈ Text.ofNat n, Plain u := by
  intro u member
  have digit := Text.isDigit_of_mem_ofNat member
  constructor
  · rintro rfl
    exact absurd digit (by decide)
  · rintro rfl
    exact absurd digit (by decide)

theorem plain_nonce {nonce : Text} (valid : isNonce nonce = true) : ∀ u ∈ nonce, Plain u := by
  intro u member
  have unit := List.all_eq_true.mp (Bool.and_eq_true_iff.mp valid).2 u member
  constructor
  · rintro rfl
    exact absurd unit (by decide)
  · rintro rfl
    exact absurd unit (by decide)

/-- The literal texts around ranks, contents and nonces. -/
def markerLiterals : List Text :=
  [Text.lit "DATA ", Text.lit "END ", Text.lit " origin=", Text.lit " nonce=", Text.lit ">>>"]

/-- What the known texts hold: the origins, the parts of the markers and their starts. -/
theorem literal_units :
    untrustedOrigins.all (fun origin => origin.all fun u =>
      u != 0x3C && u != Text.newline && u != 0x20) = true ∧
    markerLiterals.all (fun part => part.all fun u => u != 0x3C && u != Text.newline) = true ∧
    delimiterStarts.all (fun start =>
      start.all (fun u => decide (u.val < 0x80)) && !start.isEmpty) = true := by
  decide +kernel

/-- The origins of the list hold neither a sign of a marker nor a space. -/
theorem plain_origin {origin : Text} (listed : isUntrustedOrigin origin = true) :
    (∀ u ∈ origin, Plain u) ∧ (0x20 : CodeUnit) ∉ origin := by
  have units : ∀ u ∈ origin, (u ≠ 0x3C ∧ u ≠ Text.newline) ∧ u ≠ 0x20 := by
    intro u member
    have unit := List.all_eq_true.mp
      (List.all_eq_true.mp literal_units.1 origin (of_decide_eq_true listed)) u member
    simpa only [Bool.and_eq_true, bne_iff_ne] using unit
  exact ⟨fun u member => (units u member).1, fun space => (units _ space).2 rfl⟩

theorem plain_literals {part : Text} (known : part ∈ markerLiterals) : ∀ u ∈ part, Plain u := by
  intro u member
  have unit := List.all_eq_true.mp (List.all_eq_true.mp literal_units.2.1 part known) u member
  rwa [Bool.and_eq_true, bne_iff_ne, bne_iff_ne] at unit

theorem openingMarker_marker {origin nonce : Text} (listed : isUntrustedOrigin origin = true)
    (valid : isNonce nonce = true) (rank : ℕ) : Marker (openingMarker origin rank nonce) := by
  refine @marker_of_plain (Text.lit "DATA " ++ Text.ofNat rank ++ Text.lit " origin=" ++
    origin ++ Text.lit " nonce=" ++ nonce ++ Text.lit ">>>") ?_
  simp only [List.forall_mem_append]
  refine ⟨⟨⟨⟨⟨⟨?_, plain_ofNat rank⟩, ?_⟩, (plain_origin listed).1⟩, ?_⟩, plain_nonce valid⟩, ?_⟩
  · exact plain_literals (by simp [markerLiterals])
  · exact plain_literals (by simp [markerLiterals])
  · exact plain_literals (by simp [markerLiterals])
  · exact plain_literals (by simp [markerLiterals])

theorem closingMarker_marker {nonce : Text} (valid : isNonce nonce = true) (rank : ℕ) :
    Marker (closingMarker rank nonce) := by
  refine @marker_of_plain (Text.lit "END " ++ Text.ofNat rank ++ Text.lit " nonce=" ++
    nonce ++ Text.lit ">>>") ?_
  simp only [List.forall_mem_append]
  refine ⟨⟨⟨⟨?_, plain_ofNat rank⟩, ?_⟩, plain_nonce valid⟩, ?_⟩
  · exact plain_literals (by simp [markerLiterals])
  · exact plain_literals (by simp [markerLiterals])
  · exact plain_literals (by simp [markerLiterals])

/-- What follows a rank tells it. -/
theorem rank_of_starts {start rest rest' : Text} {rank rank' : ℕ}
    (starts : start ++ (Text.ofNat rank ++ 0x20 :: rest) <+: start ++ (Text.ofNat rank' ++ 0x20 :: rest')) :
    rank = rank' := by
  obtain ⟨beyond, same⟩ := starts
  rw [List.append_assoc, List.append_assoc, List.cons_append] at same
  have digits : ∀ n : ℕ, (0x20 : CodeUnit) ∉ Text.ofNat n := by
    intro n member
    exact absurd (Text.isDigit_of_mem_ofNat member) (by decide)
  obtain ⟨texts, _⟩ := Text.append_separator_inj (digits rank) (digits rank')
    (List.append_cancel_left same)
  rw [← Text.decimal_ofNat rank, texts, Text.decimal_ofNat]

/-- An opening marker, cut at the spaces around its origin. -/
theorem openingMarker_eq (origin : Text) (rank : ℕ) (nonce : Text) :
    openingMarker origin rank nonce = Text.lit "<<<DATA " ++ (Text.ofNat rank ++ 0x20 ::
      (Text.lit "origin=" ++ (origin ++ 0x20 :: (Text.lit "nonce=" ++ (nonce ++ Text.lit ">>>"))))) := by
  simp only [openingMarker, List.append_assoc]
  rfl

/-- **A marker starts another one** only if both are of one kind and of one rank. -/
theorem prefix_openingMarker {origin origin' nonce : Text} {rank rank' : ℕ}
    (starts : openingMarker origin rank nonce <+: openingMarker origin' rank' nonce) :
    rank = rank' := by
  rw [openingMarker_eq, openingMarker_eq] at starts
  exact rank_of_starts starts

/-- Opening markers of one rank tell their origins. -/
theorem openingMarker_inj {origin origin' nonce : Text} {rank : ℕ}
    (listed : isUntrustedOrigin origin = true) (listed' : isUntrustedOrigin origin' = true)
    (same : openingMarker origin rank nonce = openingMarker origin' rank nonce) :
    origin = origin' := by
  rw [openingMarker_eq, openingMarker_eq] at same
  have rests := (List.cons.inj (List.append_cancel_left (List.append_cancel_left same))).2
  exact (Text.append_separator_inj (plain_origin listed).2 (plain_origin listed').2
    (List.append_cancel_left rests)).1

theorem closingMarker_eq (rank : ℕ) (nonce : Text) :
    closingMarker rank nonce = Text.lit "<<<END " ++ (Text.ofNat rank ++ 0x20 ::
      (Text.lit "nonce=" ++ (nonce ++ Text.lit ">>>"))) := by
  simp only [closingMarker, List.append_assoc]
  rfl

theorem prefix_closingMarker {nonce : Text} {rank rank' : ℕ}
    (starts : closingMarker rank nonce <+: closingMarker rank' nonce) : rank = rank' := by
  rw [closingMarker_eq, closingMarker_eq] at starts
  exact rank_of_starts starts

theorem markers_apart (origin nonce : Text) (rank rank' : ℕ) :
    ¬ openingMarker origin rank nonce <+: closingMarker rank' nonce ∧
      ¬ closingMarker rank' nonce <+: openingMarker origin rank nonce := by
  constructor
  · rintro ⟨beyond, same⟩
    have letter : some (0x44 : CodeUnit) = some 0x45 := congrArg (fun text : Text => text[3]?) same
    exact absurd letter (by decide)
  · rintro ⟨beyond, same⟩
    have letter : some (0x45 : CodeUnit) = some 0x44 := congrArg (fun text : Text => text[3]?) same
    exact absurd letter (by decide)

/-! ## Occurrences of markers -/

/-- What stands after a block: an end, or the next blocks. -/
def blocksAfter (nonce : Text) (rank : ℕ) : List (Text × Text) → Text
  | [] => []
  | part :: parts => Text.newline :: Text.newline :: joinBlocks nonce rank (part :: parts)

theorem joinBlocks_cons (nonce : Text) (rank : ℕ) (part : Text × Text)
    (parts : List (Text × Text)) :
    joinBlocks nonce rank (part :: parts) = openingMarker part.1 rank nonce ++ Text.newline ::
      (part.2 ++ Text.newline :: (closingMarker rank nonce ++ blocksAfter nonce (rank + 1) parts)) := by
  have first : ∀ after : Text, frame part.1 part.2 rank nonce ++ after =
      openingMarker part.1 rank nonce ++ Text.newline ::
        (part.2 ++ Text.newline :: (closingMarker rank nonce ++ after)) := by
    intro after
    have last : Text.joinLines [closingMarker rank nonce] = closingMarker rank nonce :=
      List.intercalate_singleton
    rw [frame, Text.joinLines_cons (List.cons_ne_nil _ _), Text.joinLines_cons (List.cons_ne_nil _ _),
      last, List.append_assoc, List.cons_append, List.append_assoc, List.cons_append]
  rw [← first, joinBlocks, List.zipIdx_cons, List.map_cons]
  cases parts with
  | nil => exact List.intercalate_singleton.trans (List.append_nil _).symm
  | cons next parts =>
    rw [List.zipIdx_cons, List.map_cons, List.intercalate_cons_cons, List.append_assoc]
    rfl

/-- The content of a block holds no marker. -/
def Clean (nonce : Text) (part : Text × Text) : Prop :=
  isUntrustedOrigin part.1 = true ∧
    (∀ (origin : Text) (rank : ℕ), occurrences (openingMarker origin rank nonce) part.2 = 0) ∧
    ∀ rank : ℕ, occurrences (closingMarker rank nonce) part.2 = 0

section

variable {nonce : Text} (valid : isNonce nonce = true)

include valid

/-- The occurrences of a marker: those in the markers of the first block, and those after it. -/
theorem occurrences_joinBlocks {marker : Text} (shape : Marker marker) {rank : ℕ}
    {part : Text × Text} {parts : List (Text × Text)} (listed : isUntrustedOrigin part.1 = true)
    (absent : occurrences marker part.2 = 0) :
    occurrences marker (joinBlocks nonce rank (part :: parts)) =
      (if marker <+: openingMarker part.1 rank nonce then 1 else 0) +
        ((if marker <+: closingMarker rank nonce then 1 else 0) +
          if parts = [] then 0 else occurrences marker (joinBlocks nonce (rank + 1) parts)) := by
  have some := shape.ne_nil
  have apart := occurrences_append_separator some shape.line
  have after : occurrences marker (closingMarker rank nonce ++ blocksAfter nonce (rank + 1) parts) =
      (if marker <+: closingMarker rank nonce then 1 else 0) +
        if parts = [] then 0 else occurrences marker (joinBlocks nonce (rank + 1) parts) := by
    cases parts with
    | nil =>
      rw [blocksAfter, List.append_nil, if_pos rfl, Nat.add_zero]
      exact occurrences_marker shape (closingMarker_marker valid rank)
    | cons next parts =>
      have blank := apart [] (joinBlocks nonce (rank + 1) (next :: parts))
      rw [List.nil_append, occurrences_nil some, Nat.zero_add] at blank
      rw [blocksAfter, if_neg (List.cons_ne_nil _ _), apart, blank,
        occurrences_marker shape (closingMarker_marker valid rank)]
  rw [joinBlocks_cons, apart, apart, after, absent, Nat.zero_add,
    occurrences_marker shape (openingMarker_marker listed valid rank)]

/-- The markers of the ranks before do not occur. -/
theorem occurrences_before {blocks : List (Text × Text)} (clean : ∀ part ∈ blocks, Clean nonce part)
    {origin : Text} (listed : isUntrustedOrigin origin = true) {rank rank' : ℕ}
    (before : rank < rank') :
    occurrences (openingMarker origin rank nonce) (joinBlocks nonce rank' blocks) = 0 ∧
      occurrences (closingMarker rank nonce) (joinBlocks nonce rank' blocks) = 0 := by
  induction blocks generalizing rank' with
  | nil =>
    constructor
    · exact occurrences_nil (List.append_ne_nil_of_right_ne_nil _ (by decide))
    · exact occurrences_nil (List.append_ne_nil_of_right_ne_nil _ (by decide))
  | cons part parts ih =>
    obtain ⟨known, opening, closing⟩ := clean part List.mem_cons_self
    obtain ⟨laterOpening, laterClosing⟩ :=
      ih (fun other member => clean other (List.mem_cons_of_mem _ member)) (before.trans (Nat.lt_succ_self _))
    constructor
    · rw [occurrences_joinBlocks valid (openingMarker_marker listed valid rank) known
        (opening origin rank), laterOpening, if_neg fun starts => before.ne (prefix_openingMarker starts),
        if_neg (markers_apart origin nonce rank rank').1, ite_self]
    · rw [occurrences_joinBlocks valid (closingMarker_marker valid rank) known
        (closing rank), laterClosing, if_neg (markers_apart part.1 nonce rank' rank).2,
        if_neg fun starts => before.ne (prefix_closingMarker starts), ite_self]

/-- **The markers of a block occur once** in the text of the blocks. -/
theorem occurrences_once {blocks : List (Text × Text)} (clean : ∀ part ∈ blocks, Clean nonce part)
    {rank i : ℕ} {part : Text × Text} (here : blocks[i]? = some part) :
    occurrences (openingMarker part.1 (rank + i) nonce) (joinBlocks nonce rank blocks) = 1 ∧
      occurrences (closingMarker (rank + i) nonce) (joinBlocks nonce rank blocks) = 1 := by
  induction blocks generalizing rank i with
  | nil => cases here
  | cons first parts ih =>
    have rest : ∀ part ∈ parts, Clean nonce part :=
      fun other member => clean other (List.mem_cons_of_mem _ member)
    obtain ⟨known, opening, closing⟩ := clean first List.mem_cons_self
    obtain ⟨listed, _, _⟩ := clean part (List.mem_of_getElem? here)
    rw [occurrences_joinBlocks valid (openingMarker_marker listed valid _) known (opening _ _),
      occurrences_joinBlocks valid (closingMarker_marker valid _) known (closing _),
      if_neg (markers_apart part.1 nonce (rank + i) rank).1,
      if_neg (markers_apart first.1 nonce rank (rank + i)).2, Nat.zero_add, Nat.zero_add]
    cases i with
    | zero =>
      cases here
      obtain ⟨laterOpening, laterClosing⟩ :=
        occurrences_before valid rest listed (Nat.lt_succ_self rank)
      rw [Nat.add_zero, laterOpening, laterClosing, ite_self,
        if_pos (List.prefix_refl (openingMarker part.1 rank nonce)),
        if_pos (List.prefix_refl (closingMarker rank nonce))]
      exact ⟨rfl, rfl⟩
    | succ i =>
      rw [List.getElem?_cons_succ] at here
      have later : occurrences (openingMarker part.1 (rank + 1 + i) nonce)
            (joinBlocks nonce (rank + 1) parts) = 1 ∧
          occurrences (closingMarker (rank + 1 + i) nonce) (joinBlocks nonce (rank + 1) parts) = 1 :=
        ih rest here
      rw [Nat.add_assoc, Nat.add_comm 1 i] at later
      have some : parts ≠ [] := by
        rintro rfl
        cases here
      have other : rank + (i + 1) ≠ rank := by omega
      rw [if_neg fun starts => other (prefix_openingMarker starts),
        if_neg fun starts => other (prefix_closingMarker starts), if_neg some, if_neg some,
        Nat.zero_add, Nat.zero_add]
      exact later

/-- **The text of the blocks is cut in one way.** -/
theorem joinBlocks_inj {blocks blocks' : List (Text × Text)} {rank : ℕ}
    (clean : ∀ part ∈ blocks, Clean nonce part)
    (listed : ∀ part ∈ blocks', isUntrustedOrigin part.1 = true)
    (same : joinBlocks nonce rank blocks' = joinBlocks nonce rank blocks) : blocks' = blocks := by
  induction blocks generalizing blocks' rank with
  | nil =>
    cases blocks' with
    | nil => rfl
    | cons part' parts' =>
      rw [joinBlocks_cons] at same
      exact absurd (List.append_eq_nil_iff.mp same).2 (List.cons_ne_nil _ _)
  | cons part parts ih =>
    cases blocks' with
    | nil =>
      rw [joinBlocks_cons] at same
      exact absurd (List.append_eq_nil_iff.mp same.symm).2 (List.cons_ne_nil _ _)
    | cons part' parts' =>
      have rest : ∀ part ∈ parts, Clean nonce part :=
        fun other member => clean other (List.mem_cons_of_mem _ member)
      obtain ⟨known, _, closing⟩ := clean part List.mem_cons_self
      have known' := listed part' List.mem_cons_self
      rw [joinBlocks_cons, joinBlocks_cons] at same
      obtain ⟨markers, contents⟩ := Text.append_separator_inj
        (openingMarker_marker known' valid rank).line (openingMarker_marker known valid rank).line same
      have origins : part'.1 = part.1 := openingMarker_inj known' known markers
      -- The closing marker of this block stands nowhere else after its opening one.
      have shape := closingMarker_marker valid rank
      have once : occurrences (closingMarker rank nonce) (part.2 ++ Text.newline ::
          (closingMarker rank nonce ++ blocksAfter nonce (rank + 1) parts)) = 1 := by
        have all : occurrences (closingMarker (rank + 0) nonce)
            (joinBlocks nonce rank (part :: parts)) = 1 := (occurrences_once valid clean rfl).2
        rw [Nat.add_zero, joinBlocks_cons, occurrences_append_separator shape.ne_nil shape.line,
          occurrences_marker shape (openingMarker_marker known valid rank),
          if_neg (markers_apart part.1 nonce rank rank).2, Nat.zero_add] at all
        exact all
      rw [List.append_cons] at contents once
      rw [List.append_cons part.2] at contents
      obtain ⟨lines, after⟩ := append_pattern_inj once contents.symm
      have texts : part'.2 = part.2 := (List.append_cancel_right lines).symm
      have tails : parts' = parts := by
        cases parts with
        | nil =>
          cases parts' with
          | nil => rfl
          | cons next' parts' => cases after
        | cons next parts =>
          cases parts' with
          | nil => cases after
          | cons next' parts' =>
            rw [blocksAfter, blocksAfter, List.cons.injEq, List.cons.injEq] at after
            exact ih (fun other member => clean other (List.mem_cons_of_mem _ member))
              (fun other member => listed other (List.mem_cons_of_mem _ member)) after.2.2.symm
      rw [tails, Prod.ext origins texts]

end

/-! ## Collisions -/

theorem asciiLower_ascii {u : CodeUnit} (ascii : u.val < 0x80) : (Text.asciiLower u).val < 0x80 := by
  rw [Text.asciiLower]
  split
  · rename_i letter
    have bound : u.val ≤ 0x5A := letter.2
    have sum : (u + 0x20).val = u.val + 0x20 := by
      rw [Fin.val_add]
      exact Nat.mod_eq_of_lt (by change u.val + 0x20 < 0x10000; omega)
    omega
  · exact ascii

theorem isAscii_of_map_asciiLower {text part : Text} (ascii : Text.IsAscii part)
    (same : text.map Text.asciiLower = part.map Text.asciiLower) : Text.IsAscii text := by
  intro u member
  have lowered : Text.asciiLower u ∈ part.map Text.asciiLower := same ▸ List.mem_map_of_mem member
  obtain ⟨v, inside, equal⟩ := List.mem_map.mp lowered
  exact Text.isAscii_of_asciiLower (equal ▸ asciiLower_ascii (ascii v inside))

theorem isAscii_nonce {nonce : Text} (valid : isNonce nonce = true) : Text.IsAscii nonce := by
  intro u member
  have unit := List.all_eq_true.mp (Bool.and_eq_true_iff.mp valid).2 u member
  simp only [Text.isLower, Text.isDigit, Bool.or_eq_true, Bool.and_eq_true, decide_eq_true_eq,
    Fin.le_def] at unit
  rcases unit with (⟨_, upper⟩ | ⟨_, upper⟩) | ⟨_, upper⟩
  · exact upper.trans_lt (by decide)
  · exact upper.trans_lt (by decide)
  · exact upper.trans_lt (by decide)

/-- What is forbidden is ASCII, and not empty. -/
theorem forbidden_ascii {nonce : Text} (valid : isNonce nonce = true) :
    ∀ part ∈ forbidden nonce, Text.IsAscii part ∧ part ≠ [] := by
  intro part member
  rcases List.mem_cons.mp member with rfl | known
  · refine ⟨isAscii_nonce valid, ?_⟩
    rintro rfl
    exact absurd valid (by decide)
  · have start := Bool.and_eq_true_iff.mp (List.all_eq_true.mp literal_units.2.2 part known)
    refine ⟨fun u inside => of_decide_eq_true (List.all_eq_true.mp start.1 u inside), ?_⟩
    rintro rfl
    exact absurd start.2 (by decide)

theorem append_last (before start after : Text) (last : CodeUnit) :
    before ++ (start ++ last :: after) = before ++ (start ++ [last]) ++ after := by
  rw [List.append_assoc, List.append_assoc]
  rfl

section

variable {unicode : Unicode} (standard : unicode.Standard)

include standard

/-- A content is refused at a place where normalisation keeps what it may not hold. -/
theorem collides_of_occurrence {nonce part before start after : Text} {last : CodeUnit}
    (valid : isNonce nonce = true) (member : part ∈ forbidden nonce)
    (same : (start ++ [last]).map Text.asciiLower = part.map Text.asciiLower)
    (kept : (unicode.nfkc (last :: after)).head? = some last) :
    collides unicode (before ++ (start ++ last :: after)) nonce = true := by
  obtain ⟨ascii, _⟩ := forbidden_ascii valid part member
  have all := isAscii_of_map_asciiLower ascii same
  obtain ⟨rest, normal⟩ : ∃ rest, unicode.nfkc (last :: after) = last :: rest :=
    List.head?_eq_some_iff.mp kept
  have folded : unicode.nfkc (before ++ (start ++ last :: after)) =
      unicode.nfkc before ++ ((start ++ [last]) ++ rest) := by
    have boundary := standard.nfkc_boundary (before ++ start) after last
      (all last (List.mem_append_right _ (List.mem_singleton_self _)))
    rw [← List.append_assoc, boundary, normal, Unicode.nfkc_append_ascii standard
      fun u inside => all u (List.mem_append_left _ inside), List.append_assoc, List.append_assoc]
    rfl
  have inside : unicode.toLowerCase part <:+:
      unicode.toLowerCase (unicode.nfkc (before ++ (start ++ last :: after))) := by
    rw [Unicode.toLowerCase_ascii standard ascii, ← same, folded]
    exact Unicode.toLowerCase_infix standard all (List.concat_ne_nil _ _) _ _
  rw [collides, Bool.or_eq_true, decide_eq_true_eq, List.any_eq_true]
  rcases List.mem_cons.mp member with rfl | known
  · exact .inl inside
  · exact .inr ⟨part, known, decide_eq_true inside⟩

/-- **A content that holds what it may not is refused**, unless normalisation joins the last letter
with what follows it. -/
theorem collides_of_kept {nonce text part : Text} (valid : isNonce nonce = true)
    (member : part ∈ forbidden nonce) (holds : HoldsUpToCase part text)
    (kept : ¬ EndsJoined unicode part text) : collides unicode text nonce = true := by
  obtain ⟨start, rest, cut⟩ := holds
  obtain ⟨first, after, rfl, firsts, _⟩ := List.map_eq_append_iff.mp cut.symm
  obtain ⟨before, found, rfl, _, same⟩ := List.map_eq_append_iff.mp firsts
  have some : found ≠ [] := by
    rintro rfl
    exact (forbidden_ascii valid part member).2 (List.map_eq_nil_iff.mp same.symm)
  obtain ⟨found, last, rfl⟩ := (List.eq_nil_or_concat found).resolve_left some
  rw [List.concat_eq_append] at same kept ⊢
  rw [← append_last] at kept ⊢
  apply collides_of_occurrence standard valid member same
  by_contra joined
  exact kept ⟨before, found, last, after, rfl, same, joined⟩

/-- The start of a delimiter is not followed by a space in an accepted content. -/
theorem not_infix_of_apart {nonce text start rest : Text} {last : CodeUnit}
    (valid : isNonce nonce = true) (member : start ++ [last] ∈ forbidden nonce)
    (apart : collides unicode text nonce = false) :
    ¬ start ++ last :: 0x20 :: rest <:+: text := by
  rintro ⟨before, after, rfl⟩
  obtain ⟨ascii, _⟩ := forbidden_ascii valid _ member
  have alone : unicode.nfkc [last] = [last] := by
    apply standard.nfkc_ascii
    exact fun u inside => ascii u (List.mem_append_right _ inside)
  have kept : (unicode.nfkc (last :: 0x20 :: (rest ++ after))).head? = some last := by
    have boundary := standard.nfkc_boundary [last] (rest ++ after) 0x20 (by decide)
    rw [List.singleton_append, alone] at boundary
    rw [boundary]
    rfl
  have refused : collides unicode (before ++ (start ++ last :: 0x20 :: (rest ++ after))) nonce =
      true := collides_of_occurrence standard valid member rfl kept
  have shape : before ++ (start ++ last :: 0x20 :: rest) ++ after =
      before ++ (start ++ last :: 0x20 :: (rest ++ after)) := by
    simp only [List.append_assoc, List.cons_append]
  rw [shape, refused] at apart
  cases apart

/-- An accepted content holds no marker. -/
theorem clean_of_apart {nonce : Text} (valid : isNonce nonce = true) {part : Text × Text}
    (listed : isUntrustedOrigin part.1 = true) (apart : collides unicode part.2 nonce = false) :
    Clean nonce part := by
  refine ⟨listed, fun origin rank => ?_, fun rank => ?_⟩
  · rw [occurrences_eq_zero_iff, openingMarker_eq]
    have member : Text.lit "<<<DAT" ++ [0x41] ∈ forbidden nonce :=
      List.mem_cons_of_mem _ List.mem_cons_self
    exact not_infix_of_apart standard valid member apart
  · rw [occurrences_eq_zero_iff, closingMarker_eq]
    have member : Text.lit "<<<EN" ++ [0x44] ∈ forbidden nonce :=
      List.mem_cons_of_mem _ (List.mem_cons_of_mem _ List.mem_cons_self)
    exact not_infix_of_apart standard valid member apart

/-- **Data blocks cannot be forged** exactly when no accepted content ends the nonce, or the start of
a delimiter, with a letter that normalisation joins with what follows it. -/
theorem unforged_iff (input : FramePromptInput) :
    (∀ prompt, framePrompt unicode input = .ok prompt → Unforged input prompt.user) ↔
      ¬ (Accepted unicode input ∧ ∃ part ∈ neutralized input.data,
        ∃ text ∈ forbidden input.nonce, EndsJoined unicode text part.2) := by
  constructor
  · rintro unforged ⟨accepted, part, known, text, member, before, start, last, after, shape, same, _⟩
    refine (unforged _ (framePrompt_eq_ok.mpr ⟨accepted, rfl⟩)).clean part known text member ?_
    rw [HoldsUpToCase, shape, ← same, append_last]
    exact (List.infix_append _ _ _).map Text.asciiLower
  · intro apart prompt framed
    obtain ⟨accepted, rfl⟩ := framePrompt_eq_ok.mp framed
    have valid := accepted.nonce
    have clean : ∀ part ∈ neutralized input.data, Clean input.nonce part := fun part known =>
      clean_of_apart standard valid (accepted.origins part known) (accepted.apart part known)
    have once : ∀ (i : ℕ) (datum : Untrusted), input.data[i]? = some datum →
        occurrences (openingMarker datum.origin (1 + i) input.nonce)
            (joinBlocks input.nonce 1 (neutralized input.data)) = 1 ∧
          occurrences (closingMarker (1 + i) input.nonce)
            (joinBlocks input.nonce 1 (neutralized input.data)) = 1 := by
      intro i datum here
      have listed : (neutralized input.data)[i]? = some (datum.origin, neutralize datum.value) := by
        rw [neutralized, List.getElem?_map, here]
        rfl
      have first : ∀ rank, occurrences (openingMarker (datum.origin, neutralize datum.value).1
            (rank + i) input.nonce) (joinBlocks input.nonce rank (neutralized input.data)) = 1 ∧
          occurrences (closingMarker (rank + i) input.nonce)
            (joinBlocks input.nonce rank (neutralized input.data)) = 1 :=
        fun rank => occurrences_once valid clean listed
      exact first 1
    refine ⟨fun i datum here => ?_, fun i inside => ?_, fun blocks listed => ⟨?_, ?_⟩, ?_⟩
    · rw [Nat.add_comm i 1]
      exact (once i datum here).1
    · rw [Nat.add_comm i 1]
      exact (once i _ (List.getElem?_eq_getElem inside)).2
    · exact joinBlocks_inj valid clean listed
    · rintro rfl
      rfl
    · intro part known text member holds
      have refused := collides_of_kept standard valid member holds fun joined =>
        apart ⟨accepted, part, known, text, member, joined⟩
      rw [accepted.apart part known] at refused
      cases refused

end

/-! ## A mark that joins a letter -/

/-- Normalisation of texts in which an acute accent follows no other letter than `A`. -/
def acuteNfkc : Text → Text
  | [] => []
  | [u] => [u]
  | u :: v :: rest =>
    if u = 0x41 ∧ v = 0x301 then 0xC1 :: acuteNfkc rest else u :: acuteNfkc (v :: rest)

def acuteUnicode : Unicode where
  nfkc := acuteNfkc
  lowerCase _ point _ := point.map fun u => if u = 0xC1 then 0xE1 else Text.asciiLower u

theorem acuteNfkc_append {u : CodeUnit} (ascii : u.val < 0x80) (t rest : Text) :
    acuteNfkc (t ++ u :: rest) = acuteNfkc t ++ acuteNfkc (u :: rest) := by
  have plain : u ≠ 0x301 := by
    rintro rfl
    exact absurd ascii (by decide)
  induction t using acuteNfkc.induct with
  | case1 => rfl
  | case2 v =>
    change acuteNfkc (v :: u :: rest) = v :: acuteNfkc (u :: rest)
    rw [acuteNfkc, if_neg fun both => plain both.2]
  | case3 v w t both ih =>
    rw [List.cons_append, List.cons_append, acuteNfkc, if_pos both, ih, acuteNfkc, if_pos both]
    rfl
  | case4 v w t other ih =>
    rw [List.cons_append] at ih
    rw [List.cons_append, List.cons_append, acuteNfkc, if_neg other, ih, acuteNfkc, if_neg other]
    rfl

theorem acuteUnicode_standard : acuteUnicode.Standard where
  nfkc_ascii := by
    intro t ascii
    induction t using acuteNfkc.induct with
    | case1 => rfl
    | case2 u => rfl
    | case3 u v t both ih =>
      exact absurd (ascii v (List.mem_cons_of_mem _ List.mem_cons_self)) (by rw [both.2]; decide)
    | case4 u v t other ih =>
      have rest := ih fun w member => ascii w (List.mem_cons_of_mem _ member)
      change acuteNfkc (v :: t) = v :: t at rest
      change acuteNfkc (u :: v :: t) = u :: v :: t
      rw [acuteNfkc, if_neg other, rest]
  nfkc_boundary t rest u ascii := acuteNfkc_append ascii t rest
  lowerCase_ascii _ _ u ascii := by
    have plain : u ≠ 0xC1 := by
      rintro rfl
      exact absurd ascii (by decide)
    exact congrArg (fun lower => [lower]) (if_neg plain)

def promptNonce : Text := Text.lit "k3Zq9TxW7mB2vLpD"

/-- A prompt with one datum. -/
def promptOf (content : Text) : FramePromptInput :=
  ⟨Text.lit "R", [⟨Text.lit "brief", content⟩], promptNonce⟩

theorem not_endsJoined_ascii {unicode : Unicode} (standard : unicode.Standard) {part text : Text}
    (ascii : Text.IsAscii text) : ¬ EndsJoined unicode part text := by
  rintro ⟨before, start, last, after, rfl, _, joined⟩
  rw [standard.nfkc_ascii _ fun u member =>
    ascii u (List.mem_append_right _ (List.mem_append_right _ member))] at joined
  exact joined rfl

theorem unforged_iff_angle_brackets :
    ∃ prompt, framePrompt acuteUnicode (promptOf (Text.lit "a << b")) = .ok prompt ∧
      Unforged (promptOf (Text.lit "a << b")) prompt.user := by
  have facts : isNonce promptNonce = true ∧
      neutralized (promptOf (Text.lit "a << b")).data = [(Text.lit "brief", Text.lit "a << b")] ∧
      isUntrustedOrigin (Text.lit "brief") = true ∧
      collides acuteUnicode (Text.lit "a << b") promptNonce = false ∧
      (Text.lit "a << b").all (fun u => decide (u.val < 0x80)) = true := by decide +kernel
  obtain ⟨nonce, data, origin, apart, ascii⟩ := facts
  have accepted : Accepted acuteUnicode (promptOf (Text.lit "a << b")) := by
    refine ⟨nonce, ?_, ?_⟩
    · rw [data]
      exact List.forall_mem_singleton.mpr origin
    · rw [data]
      exact List.forall_mem_singleton.mpr apart
  have framed := framePrompt_eq_ok.mpr ⟨accepted, rfl⟩
  refine ⟨_, framed, (unforged_iff acuteUnicode_standard _).mpr ?_ _ framed⟩
  rintro ⟨_, part, member, text, _, joined⟩
  rw [data, List.mem_singleton] at member
  rw [member] at joined
  exact not_endsJoined_ascii acuteUnicode_standard
    (fun u inside => of_decide_eq_true (List.all_eq_true.mp ascii u inside)) joined

/-- **A start of a delimiter passes** when an accent joins its last letter. -/
theorem accent_hides_delimiter :
    ∃ prompt, framePrompt acuteUnicode (promptOf (Text.lit "<<<DATA" ++ [0x301])) = .ok prompt ∧
      ¬ Unforged (promptOf (Text.lit "<<<DATA" ++ [0x301])) prompt.user := by
  have facts : isNonce promptNonce = true ∧
      neutralized (promptOf (Text.lit "<<<DATA" ++ [0x301])).data =
        [(Text.lit "brief", Text.lit "<<<DATA" ++ [0x301])] ∧
      isUntrustedOrigin (Text.lit "brief") = true ∧
      collides acuteUnicode (Text.lit "<<<DATA" ++ [0x301]) promptNonce = false := by decide +kernel
  obtain ⟨nonce, data, origin, apart⟩ := facts
  have accepted : Accepted acuteUnicode (promptOf (Text.lit "<<<DATA" ++ [0x301])) := by
    refine ⟨nonce, ?_, ?_⟩
    · rw [data]
      exact List.forall_mem_singleton.mpr origin
    · rw [data]
      exact List.forall_mem_singleton.mpr apart
  refine ⟨_, framePrompt_eq_ok.mpr ⟨accepted, rfl⟩, fun unforged => ?_⟩
  refine unforged.clean _ (data ▸ List.mem_singleton_self _) (Text.lit "<<<DATA")
    (List.mem_cons_of_mem _ List.mem_cons_self) ?_
  exact (List.prefix_append _ _).isInfix.map Text.asciiLower

end Koklo.Llm
