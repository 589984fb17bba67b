import Koklo.SprintImport.SprintFile

/-!
# Nothing of the zone of tasks is lost

The lines of the zone are those that stand under a heading of tasks (`linesUnderTasks`), and each of
them has one entry, in their order. A line adds its entry and leaves the ticket that is open, unless
it is a head (`Adds`); a head closes that ticket, which is kept or refused. So each head becomes one
ticket or one refusal, in the order of the heads (`task_zone_conserved`).
-/

set_option autoImplicit false

namespace Koklo.SprintImport

open Koklo.Foundations

/-! ## Lines under a heading of tasks -/

/-- The numbered lines of a text, with their marks. -/
def fileLines (text : Text) : List MarkedLine := markLines (toLines text)

/-- The last heading of some lines. -/
def lastHeading (lines : List MarkedLine) : Option MarkedLine := (lines.filter isHeading).getLast?

/-- The line at an index is no heading, and the heading before it is one of tasks. -/
def underTasks (lines : List MarkedLine) (index : ℕ) : Bool :=
  lines[index]?.any (!isHeading ·) &&
    (lastHeading (lines.take index)).any fun heading => kindOf heading.raw = .tasks

/-- The lines that stand under a heading of tasks. -/
def linesUnderTasks (lines : List MarkedLine) : List MarkedLine :=
  ((List.range lines.length).filter (underTasks lines)).filterMap (lines[·]?)

/-- One more line stands under a heading of tasks, or not. -/
theorem linesUnderTasks_append (lines : List MarkedLine) (line : MarkedLine) :
    linesUnderTasks (lines ++ [line]) = linesUnderTasks lines ++
      if !isHeading line && (lastHeading lines).any fun heading => kindOf heading.raw = .tasks
      then [line] else [] := by
  have former : ∀ i ∈ List.range lines.length, underTasks (lines ++ [line]) i = underTasks lines i ∧
      (lines ++ [line])[i]? = lines[i]? := by
    intro i member
    have inside := List.mem_range.mp member
    have same : (lines ++ [line])[i]? = lines[i]? := List.getElem?_append_left inside
    rw [underTasks, underTasks, same, List.take_append_of_le_length inside.le]
    exact ⟨rfl, rfl⟩
  have kept : ((List.range lines.length).filter (underTasks (lines ++ [line]))).filterMap
      ((lines ++ [line])[·]?) = linesUnderTasks lines := by
    rw [linesUnderTasks, List.filter_congr fun i member => (former i member).1]
    exact List.filterMap_congr fun i member => (former i (List.mem_of_mem_filter member)).2
  have last : underTasks (lines ++ [line]) lines.length =
      (!isHeading line && (lastHeading lines).any fun heading => kindOf heading.raw = .tasks) := by
    rw [underTasks, List.getElem?_concat_length, List.take_left]
    rfl
  rw [linesUnderTasks, List.length_append, List.length_singleton, List.range_succ,
    List.filter_append, List.filterMap_append, kept, List.filter_cons, List.filter_nil, last]
  split
  · rw [List.filterMap_cons, List.getElem?_concat_length, List.filterMap_nil]
  · rfl

theorem lastHeading_append (lines : List MarkedLine) (line : MarkedLine) :
    lastHeading (lines ++ [line]) = if isHeading line then some line else lastHeading lines := by
  rw [lastHeading, List.filter_append, List.filter_cons, List.filter_nil]
  split
  · exact List.getLast?_concat
  · rw [List.append_nil, lastHeading]

/-- The last section is that of the last heading. -/
theorem kind_splitSections (lines : List MarkedLine) :
    (splitSections lines).getLast?.map Section.kind =
      (lastHeading lines).map fun heading => kindOf heading.raw := by
  induction lines using List.reverseRecOn with
  | nil => rfl
  | append_singleton lines line ih =>
    rw [splitSections, List.foldl_append, List.foldl_cons, List.foldl_nil, addLine,
      lastHeading_append]
    split
    · rw [List.getLast?_concat]
      rfl
    · rw [← ih]
      cases last : (lines.foldl addLine []).getLast? with
      | none =>
        rw [List.getLast?_eq_none_iff] at last
        rw [splitSections, last]
        rfl
      | some part =>
        rw [splitSections, last, Option.map_some, Option.toList_some, List.getLast?_concat]
        rfl

/-- **The lines of the sections of tasks** are those that stand under a heading of tasks. -/
theorem taskLines_splitSections (lines : List MarkedLine) :
    taskLines (splitSections lines) = linesUnderTasks lines := by
  induction lines using List.reverseRecOn with
  | nil => rfl
  | append_singleton lines line ih =>
    have kind := kind_splitSections lines
    rw [linesUnderTasks_append, ← ih, splitSections, List.foldl_append, List.foldl_cons,
      List.foldl_nil, addLine]
    rw [splitSections] at kind ⊢
    cases isHeading line with
    | true =>
      rw [if_pos rfl, Bool.not_true, Bool.false_and, if_neg Bool.false_ne_true, List.append_nil,
        taskLines, List.filter_append, List.flatMap_append, List.filter_cons, List.filter_nil,
        taskLines]
      split
      · exact List.append_nil _
      · exact List.append_nil _
    | false =>
      rw [if_neg Bool.false_ne_true, Bool.not_false, Bool.true_and]
      cases last : (lines.foldl addLine []).getLast? with
      | none =>
        rw [last, Option.map_none, eq_comm, Option.map_eq_none_iff] at kind
        rw [kind, Option.any_none, if_neg Bool.false_ne_true, List.getLast?_eq_none_iff.mp last]
        rfl
      | some part =>
        rw [last, Option.map_some, eq_comm, Option.map_eq_some_iff] at kind
        obtain ⟨heading, found, kind⟩ := kind
        obtain ⟨init, shape⟩ := List.getLast?_eq_some_iff.mp last
        rw [found, Option.any_some, kind, shape, List.dropLast_concat, Option.map_some,
          Option.toList_some, taskLines, taskLines, List.filter_append, List.filter_append,
          List.flatMap_append, List.flatMap_append, List.filter_cons, List.filter_cons,
          List.filter_nil]
        by_cases tasks : part.kind = .tasks
        · simp only [tasks, decide_true, if_true, List.flatMap_singleton, List.append_assoc]
        · simp only [tasks, decide_false, Bool.false_eq_true, if_false, List.flatMap_nil,
            List.append_nil]

/-- The lines of a file are numbered from one. -/
theorem getElem?_markFrom {state : MarkState} {lines : List SourceLine} {index : ℕ} :
    (markFrom state lines)[index]?.map MarkedLine.toSourceLine = lines[index]? := by
  induction lines generalizing state index with
  | nil => rfl
  | cons line lines ih =>
    rw [markFrom]
    cases index with
    | zero => rfl
    | succ index =>
      rw [List.getElem?_cons_succ, List.getElem?_cons_succ]
      exact ih

theorem n_of_getElem? {text : Text} {index : ℕ} {line : MarkedLine}
    (found : (fileLines text)[index]? = some line) : line.n = index + 1 := by
  have source := @getElem?_markFrom ⟨false, false⟩ (toLines text) index
  rw [← markLines, ← fileLines, found, Option.map_some, toLines, List.getElem?_mapIdx, eq_comm,
    Option.map_eq_some_iff] at source
  obtain ⟨raw, -, same⟩ := source
  rw [← same]

/-- The numbers of the lines under a heading of tasks. -/
theorem map_n_linesUnderTasks (text : Text) :
    (linesUnderTasks (fileLines text)).map (·.n) =
      ((List.range (fileLines text).length).filter
        (underTasks (fileLines text))).map (· + 1) := by
  rw [linesUnderTasks, List.map_filterMap]
  rw [← List.filterMap_eq_map]
  refine List.filterMap_congr fun index member => ?_
  have inside := List.mem_range.mp (List.mem_of_mem_filter member)
  have found := List.getElem?_eq_getElem inside
  rw [found, Option.map_some, n_of_getElem? found]
  rfl

/-! ## Heads -/

/-- The line and the key of a head, which has no key when it is malformed. -/
structure TicketHead where
  line : ℕ
  key : Option Text
deriving DecidableEq

/-- The head of a ticket at a line, if it is one. -/
def headOf (line : MarkedLine) : Option TicketHead :=
  if line.mark ≠ none then none
  else match headRegex.exec line.raw with
    | some [_, key, _] => some ⟨line.n, some key⟩
    | _ => if looseHead.test line.raw then some ⟨line.n, none⟩ else none

/-- What a head becomes. -/
inductive HeadOutcome where
  | ticket (made : ParsedTicket)
  | rejected (refused : RejectedTicket)

namespace HeadOutcome

/-- The head that an outcome is of. -/
def head : HeadOutcome → TicketHead
  | ticket made => ⟨made.line, some made.key⟩
  | rejected refused => ⟨refused.line, refused.key⟩

def ticket? : HeadOutcome → Option ParsedTicket
  | ticket made => some made
  | rejected _ => none

def rejected? : HeadOutcome → Option RejectedTicket
  | ticket _ => none
  | rejected refused => some refused

end HeadOutcome

/-- A line that starts with a dash is neither blank nor indented. -/
theorem visible_of_dash {raw : Text} (dash : raw.head? = some 0x2D) :
    Text.trim raw ≠ [] ∧ ¬ Text.lit " " <+: raw := by
  cases raw with
  | nil => cases dash
  | cons u raw =>
    cases dash
    constructor
    · exact Text.trim_ne_nil_of_mem List.mem_cons_self (by decide)
    · rintro ⟨rest, same⟩
      exact absurd (List.cons.inj same).1 (by decide)

theorem dash_of_headRegex {raw : Text} {groups : List Text}
    (matched : headRegex.exec raw = some groups) : raw.head? = some 0x2D := by
  obtain ⟨first, member, _⟩ := Regex.mem_outcomes_seq.mp (Regex.mem_outcomes_of_exec matched)
  rw [(Regex.mem_outcomes_text.mp member).2]
  rfl

theorem dash_of_looseHead {raw : Text} (matched : looseHead.test raw = true) :
    raw.head? = some 0x2D := by
  by_contra other
  have absent : raw.head?.any (fun u => decide (u = 0x2D)) = false := by
    cases head : raw.head? with
    | none => rfl
    | some u =>
      rw [head] at other
      exact decide_eq_false fun same => other (congrArg some same)
  have start := @RegExp.test_start Empty _
    (.seqs [.text (Text.lit "- ["), .optional (.unit dot), .text (Text.lit "]")]) raw
  have empty : RegExp.outcomes (γ := Empty) (.seqs [.text (Text.lit "- ["), .optional (.unit dot),
      .text (Text.lit "]")]) ⟨none, raw, []⟩ = [] := by
    show List.flatMap _ (List.flatMap _ (if raw.head?.any (fun u => decide (u = 0x2D)) = true
      then _ else [])) = []
    rw [absent]
    rfl
  rw [empty] at start
  exact absurd (matched.symm.trans start) Bool.noConfusion

/-- A head is read as a line of its own, not as one of the ticket before it. -/
theorem feed_of_head {parser : TaskZoneParser} {line : MarkedLine} {head : TicketHead}
    (isHead : headOf line = some head) :
    line.mark = none ∧ parser.feed line = parser.topLevel line := by
  rw [headOf] at isHead
  split at isHead
  · cases isHead
  rename_i unmarked
  rw [not_not] at unmarked
  have dash : line.raw.head? = some 0x2D := by
    split at isHead
    · rename_i matched
      exact dash_of_headRegex matched
    · split at isHead
      · rename_i loose
        exact dash_of_looseHead loose
      · cases isHead
  obtain ⟨visible, level⟩ := visible_of_dash dash
  rw [TaskZoneParser.feed, unmarked, if_neg (by decide), if_neg (by decide), if_neg visible,
    if_neg level]
  exact ⟨rfl, rfl⟩

/-- A head is at the line that it is read from. -/
theorem line_of_headOf {line : MarkedLine} {head : TicketHead} (isHead : headOf line = some head) :
    head.line = line.n := by
  rw [headOf] at isHead
  split at isHead
  · cases isHead
  split at isHead
  · cases isHead
    rfl
  · split at isHead
    · cases isHead
      rfl
    · cases isHead

/-! ## Lines that are no heads -/

/-- Where a draft stands: its head, and the entry of its head. -/
def Draft.place (draft : Draft) : TicketHead × ℕ := (⟨draft.line, draft.key⟩, draft.zoneIndex)

/-- A line gets its entry, and the ticket that is open stays open. -/
structure Adds (parser : TaskZoneParser) (line : MarkedLine) (after : TaskZoneParser) : Prop where
  zone : ∃ entry, entry.line = line.n ∧ after.zone = parser.zone ++ [entry]
  tickets : after.tickets = parser.tickets
  rejected : after.rejected = parser.rejected
  heads : after.heads = parser.heads
  draft : after.draft.map Draft.place = parser.draft.map Draft.place

namespace Adds

variable {parser after : TaskZoneParser} {line : MarkedLine} {draft changed : Draft}

theorem ignore (parser : TaskZoneParser) (line : MarkedLine) (code : ReasonCode) :
    Adds parser line (parser.ignore line code) := ⟨⟨_, rfl, rfl⟩, rfl, rfl, rfl, rfl⟩

theorem recognize (parser : TaskZoneParser) (line : MarkedLine) :
    Adds parser line (parser.recognize line) := ⟨⟨_, rfl, rfl⟩, rfl, rfl, rfl, rfl⟩

theorem warn (parser : TaskZoneParser) (line : MarkedLine) (code : ReasonCode) (text : Text) :
    Adds parser line (parser.warn line code text) := ⟨⟨_, rfl, rfl⟩, rfl, rfl, rfl, rfl⟩

theorem fail (parser : TaskZoneParser) (line : MarkedLine) (message : Text) :
    Adds parser line (parser.fail line message) := ⟨⟨_, rfl, rfl⟩, rfl, rfl, rfl, rfl⟩

/-- What is read into the ticket that is open does not move it. -/
theorem withDraft (isOpen : parser.draft = some draft) (same : changed.place = draft.place)
    (adds : Adds (parser.withDraft changed) line after) : Adds parser line after where
  zone := adds.zone
  tickets := adds.tickets
  rejected := adds.rejected
  heads := adds.heads
  draft := by
    rw [adds.draft, isOpen, Option.map_some, ← same]
    rfl

theorem readDepends (isOpen : parser.draft = some draft) (same : changed.place = draft.place)
    (value : Text) : Adds parser line (parser.readDepends changed value line) := by
  rw [TaskZoneParser.readDepends]
  split
  · refine withDraft isOpen ?_ (.recognize _ _)
    exact same
  · split
    · refine withDraft isOpen ?_ (.recognize _ _)
      exact same
    · refine withDraft isOpen ?_ (.fail _ _ _)
      exact same

theorem handleField (isOpen : parser.draft = some draft) (same : changed.place = draft.place)
    (value : Text) (name : FieldName) :
    Adds parser line (parser.handleField changed value line name) := by
  cases name with
  | statut =>
    rw [TaskZoneParser.handleField]
    split
    · refine withDraft isOpen ?_ (.recognize _ _)
      exact same
    · refine withDraft isOpen ?_ (.warn _ _ _ _)
      exact same
  | labels =>
    refine withDraft isOpen ?_ (.recognize _ _)
    exact same
  | agent =>
    refine withDraft isOpen ?_ (.ignore _ _ _)
    exact same
  | workflow =>
    refine withDraft isOpen ?_ (.ignore _ _ _)
    exact same
  | dependDe => exact readDepends isOpen same value
  | source =>
    refine withDraft isOpen ?_ (.recognize _ _)
    exact same
  | aFaire =>
    refine withDraft isOpen ?_ (.recognize _ _)
    exact same
  | criteres =>
    rw [TaskZoneParser.handleField]
    split
    · refine withDraft isOpen ?_ (.recognize _ _)
      exact same
    · refine withDraft isOpen ?_ (.fail _ _ _)
      exact same

theorem field (isOpen : parser.draft = some draft) (name : FieldName) (value : Text) :
    Adds parser line (parser.field draft line name value) := by
  rw [TaskZoneParser.field]
  split
  · exact .fail _ _ _
  · refine handleField isOpen ?_ value name
    rfl

theorem criterion (isOpen : parser.draft = some draft) (indent : ℕ) (content : Text) :
    Adds parser line (parser.criterion draft line indent content) := by
  rw [TaskZoneParser.criterion]
  split
  · refine withDraft isOpen ?_ (.recognize _ _)
    rfl
  · split
    · split
      · refine withDraft isOpen ?_ (.fail _ _ _)
        rfl
      · refine withDraft isOpen ?_ (.recognize _ _)
        rfl
    · refine withDraft isOpen ?_ (.fail _ _ _)
      rfl

theorem item (isOpen : parser.draft = some draft) (indent : ℕ) (content : Text) :
    Adds parser line (parser.item draft line indent content) := by
  rw [TaskZoneParser.item]
  split
  · refine withDraft isOpen ?_ (.recognize _ _)
    rfl
  · exact criterion isOpen indent content
  · exact .fail _ _ _

theorem indented (parser : TaskZoneParser) (line : MarkedLine) :
    Adds parser line (parser.indented line) := by
  rw [TaskZoneParser.indented]
  split
  · exact .fail _ _ _
  · rename_i draft isOpen
    split
    · exact field isOpen _ _
    · split
      · exact item isOpen _ _
      · exact .fail _ _ _

/-- **A line that is no head** gets its entry. -/
theorem feed (parser : TaskZoneParser) (noHead : headOf line = none) :
    Adds parser line (parser.feed line) := by
  rw [TaskZoneParser.feed]
  split
  · exact .ignore _ _ _
  rename_i noComment
  split
  · exact .ignore _ _ _
  rename_i noProgress
  split
  · exact .ignore _ _ _
  split
  · exact indented parser line
  have unmarked : line.mark = none := by
    cases marked : line.mark with
    | none => rfl
    | some mark =>
      cases mark with
      | comment => exact absurd marked noComment
      | progress => exact absurd marked noProgress
  rw [headOf, unmarked, if_neg (not_not.mpr rfl)] at noHead
  rw [TaskZoneParser.topLevel]
  split
  · rename_i matched
    rw [matched] at noHead
    cases noHead
  · rename_i other
    split at noHead
    · rename_i matched
      exact absurd matched (other _ _ _)
    split at noHead
    · cases noHead
    · rename_i loose
      rw [if_neg loose]
      split
      · exact .ignore _ _ _
      · exact .fail _ _ _

end Adds

/-! ## Every line -/

/-- What is kept of the lines that were fed. -/
structure Conserved (fed : List MarkedLine) (parser : TaskZoneParser) : Prop where
  zone : parser.zone.map ZoneEntry.line = fed.map (·.n)
  heads : parser.heads = (fed.filterMap headOf).length
  entry : ∀ draft, parser.draft = some draft →
    parser.zone[draft.zoneIndex]?.map ZoneEntry.line = some draft.line
  outcomes : ∃ outcomes : List HeadOutcome, outcomes.map HeadOutcome.head ++
      (parser.draft.map fun draft => draft.place.1).toList = fed.filterMap headOf ∧
    parser.tickets = outcomes.filterMap HeadOutcome.ticket? ∧
    parser.rejected = outcomes.filterMap HeadOutcome.rejected?

namespace Conserved

variable {fed : List MarkedLine} {parser after : TaskZoneParser} {line : MarkedLine}

theorem start (file : Text) : Conserved [] (.start file) :=
  ⟨rfl, rfl, fun _ isOpen => (by cases isOpen), [], rfl, rfl, rfl⟩

/-- A line that is no head. -/
theorem adds (conserved : Conserved fed parser) (noHead : headOf line = none)
    (adds : Adds parser line after) : Conserved (fed ++ [line]) after := by
  obtain ⟨entry, same, zone⟩ := adds.zone
  obtain ⟨outcomes, all, tickets, rejected⟩ := conserved.outcomes
  have heads : (fed ++ [line]).filterMap headOf = fed.filterMap headOf := by
    rw [List.filterMap_append, List.filterMap_cons, noHead, List.filterMap_nil, List.append_nil]
  refine ⟨?_, ?_, ?_, outcomes, ?_, adds.tickets.trans tickets, adds.rejected.trans rejected⟩
  · rw [zone, List.map_append, conserved.zone, List.map_append, List.map_singleton, same,
      List.map_singleton]
  · rw [adds.heads, conserved.heads, heads]
  · intro draft isOpen
    have place := adds.draft
    rw [isOpen, Option.map_some, eq_comm, Option.map_eq_some_iff] at place
    obtain ⟨former, wasOpen, place⟩ := place
    obtain ⟨head, index⟩ := Prod.mk.inj place
    have known := conserved.entry former wasOpen
    rw [index, (TicketHead.mk.inj head).1] at known
    obtain ⟨kept, found, _⟩ := Option.map_eq_some_iff.mp known
    rw [zone, List.getElem?_append_left (List.getElem?_eq_some_iff.mp found).1]
    exact known
  · have place := congrArg (Option.map Prod.fst) adds.draft
    rw [Option.map_map, Option.map_map] at place
    rw [heads, ← all]
    exact congrArg (fun last => outcomes.map HeadOutcome.head ++ last.toList) place

/-- The ticket that is open gets its outcome. -/
theorem settled {draft : Draft} (conserved : Conserved fed parser)
    (isOpen : parser.draft = some draft)
    (outcome : HeadOutcome) (same : outcome.head = draft.place.1)
    (zone : after.zone.map ZoneEntry.line = parser.zone.map ZoneEntry.line)
    (tickets : after.tickets = parser.tickets ++ outcome.ticket?.toList)
    (rejected : after.rejected = parser.rejected ++ outcome.rejected?.toList)
    (heads : after.heads = parser.heads) (shut : after.draft = none) :
    Conserved fed after ∧ after.draft = none := by
  obtain ⟨outcomes, all, kept, refused⟩ := conserved.outcomes
  rw [isOpen, Option.map_some, Option.toList_some] at all
  refine ⟨⟨zone.trans conserved.zone, heads.trans conserved.heads, ?_, outcomes ++ [outcome], ?_, ?_,
    ?_⟩, shut⟩
  · intro other opened
    rw [shut] at opened
    cases opened
  · rw [shut, Option.map_none, Option.toList_none, List.append_nil, List.map_append,
      List.map_singleton, same, all]
  · rw [tickets, kept, List.filterMap_append]
    cases outcome with
    | ticket made => rfl
    | rejected refusal => rfl
  · rw [rejected, refused, List.filterMap_append]
    cases outcome with
    | ticket made => rfl
    | rejected refusal => rfl

/-- **The ticket that is open becomes a ticket or a refusal.** -/
theorem closeDraft (conserved : Conserved fed parser) :
    Conserved fed parser.closeDraft ∧ parser.closeDraft.draft = none := by
  rw [TaskZoneParser.closeDraft]
  split
  · rename_i closed
    exact ⟨conserved, closed⟩
  rename_i draft isOpen
  dsimp only
  split
  · rename_i noKey
    refine conserved.settled isOpen (.rejected ⟨draft.line, none⟩) ?_ rfl ?_ rfl rfl rfl
    · rw [Draft.place, noKey]
      rfl
    · exact (List.append_nil _).symm
  · split
    · rename_i ticket made
      obtain ⟨key, level⟩ := finalizeDraft_some made
      refine conserved.settled isOpen (.ticket ticket) ?_ rfl rfl ?_ rfl rfl
      · rw [Draft.place, key, HeadOutcome.head, level]
      · exact (List.append_nil _).symm
    · refine conserved.settled isOpen (.rejected ⟨draft.line, draft.key⟩) rfl ?_ ?_ rfl rfl rfl
      · -- The entry of the head is replaced, and keeps its line.
        rw [List.map_set]
        have here := conserved.entry draft isOpen
        rw [← List.getElem?_map] at here
        obtain ⟨inside, same⟩ := List.getElem?_eq_some_iff.mp here
        rw [ZoneEntry.line, ← same, List.set_getElem_self]
      · exact (List.append_nil _).symm

/-- A head opens a ticket, with an entry of its own. -/
theorem head {head : TicketHead} {draft : Draft} {entry : ZoneEntry}
    (conserved : Conserved fed parser) (isHead : headOf line = some head)
    (zone : after.zone = parser.closeDraft.zone ++ [entry])
    (level : entry.line = line.n) (tickets : after.tickets = parser.closeDraft.tickets)
    (rejected : after.rejected = parser.closeDraft.rejected)
    (heads : after.heads = parser.closeDraft.heads + 1) (isOpen : after.draft = some draft)
    (place : draft.place = (head, parser.closeDraft.zone.length)) :
    Conserved (fed ++ [line]) after := by
  obtain ⟨closed, shut⟩ := conserved.closeDraft
  obtain ⟨outcomes, all, kept, refused⟩ := closed.outcomes
  obtain ⟨same, index⟩ := Prod.mk.inj place
  rw [shut, Option.map_none, Option.toList_none, List.append_nil] at all
  have more : (fed ++ [line]).filterMap headOf = fed.filterMap headOf ++ [head] := by
    rw [List.filterMap_append, List.filterMap_cons, isHead, List.filterMap_nil]
  refine ⟨?_, ?_, ?_, outcomes, ?_, tickets.trans kept, rejected.trans refused⟩
  · rw [zone, List.map_append, closed.zone, List.map_append, List.map_singleton, level,
      List.map_singleton]
  · rw [heads, closed.heads, more, List.length_append, List.length_singleton]
  · intro other opened
    obtain rfl := Option.some.inj (isOpen.symm.trans opened)
    rw [zone, index, List.getElem?_concat_length, Option.map_some, level]
    exact congrArg some (line_of_headOf isHead ▸ (congrArg TicketHead.line same).symm)
  · rw [isOpen, Option.map_some, Option.toList_some, place, all, more]

/-- **One more line.** -/
theorem feed (conserved : Conserved fed parser) (line : MarkedLine) :
    Conserved (fed ++ [line]) (parser.feed line) := by
  cases isHead : headOf line with
  | none => exact conserved.adds isHead (.feed parser isHead)
  | some head =>
    obtain ⟨unmarked, level⟩ := feed_of_head isHead
    have known := isHead
    rw [headOf, unmarked, if_neg (not_not.mpr rfl)] at known
    rw [level, TaskZoneParser.topLevel]
    split
    · rename_i mark key title matched
      rw [matched] at known
      cases known
      rw [TaskZoneParser.startDraft, if_neg (Option.some_ne_none key)]
      exact conserved.head isHead rfl rfl rfl rfl rfl rfl rfl
    · rename_i other
      split at known
      · rename_i matched
        exact absurd matched (other _ _ _)
      split at known
      · rename_i loose
        cases known
        rw [if_pos loose, TaskZoneParser.startDraft, if_pos rfl]
        exact conserved.head isHead rfl rfl rfl rfl rfl rfl rfl
      · cases known

/-- **A whole zone.** -/
theorem feeds (conserved : Conserved fed parser) (lines : List MarkedLine) :
    Conserved (fed ++ lines) (lines.foldl TaskZoneParser.feed parser) := by
  induction lines generalizing fed parser with
  | nil => rwa [List.append_nil]
  | cons line lines ih =>
    rw [List.foldl_cons, List.append_cons]
    exact ih (conserved.feed line)

end Conserved

/-- The zone of tasks of a file, once its lines are read. -/
theorem conserved_readTasks (file text : Text) :
    Conserved (linesUnderTasks (fileLines text)) (readTasks file (sectionsOf text)) ∧
      (readTasks file (sectionsOf text)).draft = none := by
  have fed := (Conserved.start file).feeds (taskLines (sectionsOf text))
  rw [List.nil_append] at fed
  obtain ⟨conserved, closed⟩ := fed.closeDraft
  refine ⟨?_, closed⟩
  rw [← taskLines_splitSections]
  exact conserved

/-- **The zone of tasks is conserved.** For every text of a sprint file, the lines of the zone are
those under its headings of tasks, each once and in their order, and each head of a ticket among
them has become one ticket or one refusal, in the order of the heads. -/
theorem task_zone_conserved {fileName : Text} {number : ℕ} (text : Text)
    (valid : sprintNumberOf fileName = .ok number) :
    ∃ parsed, parseSprintFile fileName text = .ok parsed ∧
      parsed.taskZone.map ZoneEntry.line =
        ((List.range (fileLines text).length).filter (underTasks (fileLines text))).map (· + 1) ∧
      parsed.ticketHeads = ((linesUnderTasks (fileLines text)).filterMap headOf).length ∧
      ∃ outcomes : List HeadOutcome,
        outcomes.map HeadOutcome.head = (linesUnderTasks (fileLines text)).filterMap headOf ∧
        parsed.tickets = outcomes.filterMap HeadOutcome.ticket? ∧
        parsed.rejected = outcomes.filterMap HeadOutcome.rejected? := by
  obtain ⟨conserved, closed⟩ := conserved_readTasks fileName text
  obtain ⟨outcomes, all, tickets, rejected⟩ := conserved.outcomes
  rw [closed, Option.map_none, Option.toList_none, List.append_nil] at all
  rw [parseSprintFile, valid]
  refine ⟨_, rfl, ?_, ?_, outcomes, all, ?_, ?_⟩
  · exact conserved.zone.trans (map_n_linesUnderTasks text)
  · exact conserved.heads
  · exact tickets
  · exact rejected

/-- A file whose tasks are a ticket, a ticket without labels and a malformed head. -/
def threeHeads : Text :=
  Text.lit "## 🎯 Sprint Goal\nLivrer\n## ✅ Tasks\n- [x] **[TK-1]** Une\n" ++
    Text.lit "  - Labels : safe, pkg:api\n- [ ] **[TK-2]** Deux\n- [ ] trois\n<!-- fin -->\n" ++
    Text.lit "## Risks\n- [ ] aucun\n"

theorem task_zone_conserved_three_heads :
    ∃ parsed, parseSprintFile (Text.lit "sprint-001.md") threeHeads = .ok parsed ∧
      parsed.taskZone.map ZoneEntry.line = [4, 5, 6, 7, 8] ∧ parsed.ticketHeads = 3 ∧
      ∃ outcomes : List HeadOutcome,
        outcomes.map HeadOutcome.head =
          [⟨4, some (Text.lit "TK-1")⟩, ⟨6, some (Text.lit "TK-2")⟩, ⟨7, none⟩] ∧
        parsed.tickets = outcomes.filterMap HeadOutcome.ticket? ∧
        parsed.rejected = outcomes.filterMap HeadOutcome.rejected? := by
  obtain ⟨parsed, read, zone, heads, outcomes, all, settled⟩ :=
    @task_zone_conserved (Text.lit "sprint-001.md") 1 threeHeads rfl
  have lines : ((List.range (fileLines threeHeads).length).filter
      (underTasks (fileLines threeHeads))).map (· + 1) = [4, 5, 6, 7, 8] := by decide +kernel
  have found : (linesUnderTasks (fileLines threeHeads)).filterMap headOf =
      [⟨4, some (Text.lit "TK-1")⟩, ⟨6, some (Text.lit "TK-2")⟩, ⟨7, none⟩] := by decide +kernel
  rw [lines] at zone
  rw [found] at heads all
  exact ⟨parsed, read, zone, heads, outcomes, all, settled⟩

end Koklo.SprintImport
