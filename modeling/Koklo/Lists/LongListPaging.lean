import Koklo.Foundations.JsonRoundTrip
import Koklo.Lists.LongList
import Mathlib.Tactic.IntervalCases

/-!
# The windows of a list

A source gives a list when its reads are those of one sequence of rows (`ListSource.Gives`).
Every window that is reached from the first page or from `around`, by the cursors of one
window after the other, then shows a segment of this sequence (`Shows`, `reached_shows`):
the cursors lead to the segments on both sides, and the cursors that the list has issued are
decoded to the positions that they name (`decodeCursor_encodeCursor`). From this, all that a
client sees of the list is exact (`pagesExactly`).
-/

set_option autoImplicit false

namespace Koklo.Lists

open Koklo.Foundations

/-! ## The texts of cursors -/

section Ascii

open Text

theorem isAscii_append {s t : Text} (first : IsAscii s) (second : IsAscii t) : IsAscii (s ++ t) :=
  fun u member => (List.mem_append.mp member).elim (first u) (second u)

theorem isAscii_cons {u : CodeUnit} {t : Text} (first : u.val < 0x80) (rest : IsAscii t) :
    IsAscii (u :: t) := List.forall_mem_cons.mpr ⟨first, rest⟩

theorem isAscii_of_all {t : Text} (all : t.all (fun u => u.val < 0x80) = true) : IsAscii t :=
  fun u member => of_decide_eq_true (List.all_eq_true.mp all u member)

theorem hexDigit_ascii {n : ℕ} (small : n < 0x10) : (hexDigit n).val < 0x80 := by
  interval_cases n <;> decide

theorem isAscii_jsonUnit {u : CodeUnit} (ascii : u.val < 0x80) : IsAscii (jsonUnit u) := by
  have digit : ∀ n, (hexDigit (n % 0x10)).val < 0x80 := fun n =>
    hexDigit_ascii (Nat.mod_lt n (by decide))
  have nothing : IsAscii [] := fun v member => absurd member List.not_mem_nil
  unfold jsonUnit
  split
  · exact isAscii_of_all (by decide)
  split
  · exact isAscii_of_all (by decide)
  split
  · exact isAscii_of_all (by decide)
  split
  · exact isAscii_of_all (by decide)
  split
  · exact isAscii_of_all (by decide)
  split
  · exact isAscii_of_all (by decide)
  split
  · exact isAscii_of_all (by decide)
  split
  · exact isAscii_cons (by decide) (isAscii_cons (by decide) (isAscii_cons (digit _)
      (isAscii_cons (digit _) (isAscii_cons (digit _) (isAscii_cons (digit _) nothing)))))
  · exact isAscii_cons ascii nothing

theorem isAscii_jsonBody {t : Text} (ascii : IsAscii t) : IsAscii (jsonBody t) := by
  induction t using jsonBody.induct with
  | case1 => exact ascii
  | case2 u => exact isAscii_jsonUnit (ascii u List.mem_cons_self)
  | case3 u v t pair ih =>
    obtain ⟨first, others⟩ := List.forall_mem_cons.mp ascii
    obtain ⟨second, others⟩ := List.forall_mem_cons.mp others
    rw [jsonBody, if_pos pair]
    exact isAscii_cons first (isAscii_cons second (ih others))
  | case4 u v t alone ih =>
    obtain ⟨first, others⟩ := List.forall_mem_cons.mp ascii
    rw [jsonBody, if_neg alone]
    exact isAscii_append (isAscii_jsonUnit first) (ih others)

theorem isAscii_jsonString {t : Text} (ascii : IsAscii t) : IsAscii (jsonString t) := by
  rw [jsonString]
  exact isAscii_append (isAscii_cons (by decide) (isAscii_jsonBody ascii))
    (isAscii_cons (by decide) fun v member => absurd member List.not_mem_nil)

/-- A UUID is ASCII. -/
theorem isAscii_of_isUuid {t : Text} (uuid : isUuid t = true) : IsAscii t := by
  intro u member
  rcases Uuid.isHexDigit_or ⟨t, uuid⟩ member with rfl | hex
  · decide
  · simp only [isHexDigit, isDigit, Bool.or_eq_true, Bool.and_eq_true, decide_eq_true_eq,
      Fin.le_def] at hex
    have bounds : u.val ≤ 0x39 ∨ u.val ≤ 0x46 ∨ u.val ≤ 0x66 := by
      rcases hex with (digit | upper) | lower
      · exact .inl digit.2
      · exact .inr (.inl upper.2)
      · exact .inr (.inr lower.2)
    omega

end Ascii

variable {R K : Type}

/-! ## What a source gives -/

/-- The reads of a source are those of a sequence of rows. -/
structure ListSource.Gives (source : ListSource R K) (rows : List R) : Prop where
  total : source.total = rows.length
  page_start : ∀ take skip, source.page .after none take skip = (rows.drop skip).take take
  page_after : ∀ {front row back}, rows = front ++ row :: back → ∀ take skip,
    source.page .after (some (source.positionOf row)) take skip = (back.drop skip).take take
  page_before : ∀ {front row back}, rows = front ++ row :: back → ∀ take skip,
    source.page .before (some (source.positionOf row)) take skip =
      (front.reverse.drop skip).take take
  countBefore : ∀ {front row back}, rows = front ++ row :: back →
    source.countBefore (source.positionOf row) = front.length
  fits : ∀ row, source.fits (source.positionOf row).key = true
  decodeKey : ∀ row, source.decodeKey (some (source.encodeKey (source.positionOf row).key)) =
    some (source.positionOf row).key
  plain : ∀ row, Json.Plain (source.encodeKey (source.positionOf row).key)
  ascii : ∀ row, Text.IsAscii (Json.stringify (source.encodeKey (source.positionOf row).key))
  isUuid : ∀ row, isUuid (source.positionOf row).id = true

section Gives

variable {source : ListSource R K} {rows : List R}

/-- **A cursor that the list has issued** names the position of its row. -/
theorem decodeCursor_encodeCursor (gives : source.Gives rows) {direction : Direction}
    (direct : direction ≠ .inherited) (row : R) :
    decodeCursor source (encodeCursor source direction row) =
      .ok (direction, source.positionOf row) := by
  generalize codeText : (if direction = .after then Text.lit "a" else Text.lit "b") = code
  have coded : codes code = some direction := by
    cases direction with
    | after => rw [← codeText]; decide
    | before => rw [← codeText]; decide
    | inherited => exact absurd rfl direct
  have codeAscii : Text.IsAscii code := by
    rw [← codeText]
    split
    · exact isAscii_of_all (by decide)
    · exact isAscii_of_all (by decide)
  have plain : Json.Plain (.list [.text code, source.encodeKey (source.positionOf row).key,
      .text (source.positionOf row).id]) := by
    apply Json.Plain.list
    simp only [List.mem_cons, List.not_mem_nil, or_false, forall_eq_or_imp, forall_eq]
    exact ⟨.text _, gives.plain row, .text _⟩
  have ascii : Text.IsAscii (Json.stringify (.list [.text code,
      source.encodeKey (source.positionOf row).key, .text (source.positionOf row).id])) := by
    refine isAscii_append (isAscii_cons (by decide) ?_) (isAscii_cons (by decide) nofun)
    refine isAscii_append (isAscii_jsonString codeAscii) (isAscii_cons (by decide) ?_)
    refine isAscii_append (gives.ascii row) (isAscii_cons (by decide) ?_)
    exact isAscii_jsonString (isAscii_of_isUuid (gives.isUuid row))
  have read : Json.parse (Text.ofUtf8 (Text.base64 (encodeCursor source direction row))) =
      some (.list [.text code, source.encodeKey (source.positionOf row).key,
        .text (source.positionOf row).id]) := by
    simp only [encodeCursor, codeText]
    rw [Text.base64_base64url, Text.ofUtf8_utf8 ascii, Json.parse_stringify plain.legible]
  rw [decodeCursor, read]
  simp only [Option.bind_some, elements, List.getElem?_cons_zero, List.getElem?_cons_succ,
    Option.map_some, Option.getD_some, propertyName, coded, gives.decodeKey row,
    if_pos (gives.isUuid row)]

/-! ## Segments -/

/-- A window shows a segment of the rows, with the rank of the segment and the cursors of
both sides. -/
structure Shows (source : ListSource R K) (rows front shown back : List R) (window : ListWindow R) :
    Prop where
  split : rows = front ++ shown ++ back
  page : window.rows = shown
  offset : window.offset = front.length
  total : window.total = rows.length
  next : window.nextCursor =
    if back = [] then none else shown.getLast?.map (encodeCursor source .after)
  previous : window.previousCursor =
    if front = [] then none else shown.head?.map (encodeCursor source .before)
  some : shown = [] → rows = []

section Shows

variable {front shown back : List R} {window : ListWindow R}

/-- There is a next cursor unless the last row is shown. -/
theorem Shows.next_eq_none_iff (shows : Shows source rows front shown back window) :
    window.nextCursor = none ↔ back = [] := by
  rw [shows.next]
  constructor
  · intro none
    by_contra more
    rw [if_neg more, Option.map_eq_none_iff, List.getLast?_eq_none_iff] at none
    have split := shows.split
    rw [shows.some none] at split
    exact more (List.append_eq_nil_iff.mp split.symm).2
  · exact fun last => if_pos last

/-- There is a previous cursor unless the first row is shown. -/
theorem Shows.previous_eq_none_iff (shows : Shows source rows front shown back window) :
    window.previousCursor = none ↔ front = [] := by
  rw [shows.previous]
  constructor
  · intro none
    by_contra more
    rw [if_neg more, Option.map_eq_none_iff, List.head?_eq_none_iff] at none
    have split := shows.split
    rw [shows.some none, List.append_assoc] at split
    exact more (List.append_eq_nil_iff.mp split.symm).1
  · exact fun first => if_pos first

/-- What is shown stands at its rank. -/
theorem Shows.slice (shows : Shows source rows front shown back window) :
    shown = (rows.drop window.offset).take shown.length := by
  rw [shows.offset, shows.split, List.append_assoc, List.drop_left, List.take_left]

theorem Shows.length (shows : Shows source rows front shown back window) :
    rows.length = window.offset + window.rows.length + back.length := by
  rw [shows.split, shows.offset, shows.page, List.length_append, List.length_append]

end Shows

/-- The window of a plan whose reads give a segment. -/
theorem shows_windowOf (gives : source.Gives rows) {plan : Plan K} {limit : ℕ}
    {front shown back : List R} (split : rows = front ++ shown ++ back)
    (fetched : (if plan.direction = .before then
        (source.page plan.direction plan.start limit plan.skip).reverse
      else source.page plan.direction plan.start limit plan.skip) = shown)
    (aligned : plan.start = none → plan.skip = front.length)
    (some : shown = [] → plan.start = none ∧ rows = []) :
    Shows source rows front shown back (windowOf source limit plan) := by
  rcases List.eq_nil_or_concat' shown with rfl | ⟨init, last, rfl⟩
  · obtain ⟨start, rfl⟩ := some rfl
    obtain ⟨noFront, rfl⟩ := List.append_eq_nil_iff.mp split.symm
    rw [List.append_nil] at noFront
    subst noFront
    have none : windowOf source limit plan = ⟨[], 0, 0, .none, .none⟩ := by
      simp only [windowOf, fetched, List.head?_nil]
      simp only [start, Option.isNone_none, if_true, gives.total, List.length_nil]
    rw [none]
    exact ⟨rfl, rfl, rfl, rfl, rfl, rfl, fun _ => rfl⟩
  · obtain ⟨first, tail, shape⟩ := List.exists_cons_of_ne_nil (List.concat_ne_nil last init)
    have head : (init ++ [last]).head? = .some first := by rw [shape]; rfl
    have rank : (if plan.start.isNone = true then plan.skip
        else source.countBefore (source.positionOf first)) = front.length := by
      cases start : plan.start with
      | none => exact aligned start
      | some position =>
        have place : rows = front ++ first :: (tail ++ back) := by
          rw [split, shape, List.append_assoc, List.cons_append]
        exact gives.countBefore place
    have length : rows.length = front.length + (init ++ [last]).length + back.length := by
      rw [split, List.length_append, List.length_append]
    have window : windowOf source limit plan =
        { rows := init ++ [last], offset := front.length, total := rows.length
          nextCursor := if front.length + (init ++ [last]).length < rows.length then
            .some (encodeCursor source .after last) else none
          previousCursor := if 0 < front.length then
            .some (encodeCursor source .before first) else none } := by
      simp only [windowOf, fetched, head, List.getLast?_concat, rank, gives.total]
    rw [window]
    refine ⟨split, rfl, rfl, rfl, ?_, ?_, fun blank => (some blank).2⟩
    · have more : front.length + (init ++ [last]).length < rows.length ↔ 0 < back.length := by
        omega
      dsimp only
      rw [List.getLast?_concat]
      by_cases final : back = []
      · rw [if_pos final, if_neg fun some => List.length_pos_iff.mp (more.mp some) final]
      · rw [if_neg final, if_pos (more.mpr (List.length_pos_iff.mpr final))]
        rfl
    · dsimp only
      rw [head]
      by_cases start : front = []
      · rw [if_pos start, if_neg fun some => List.length_pos_iff.mp some start]
      · rw [if_neg start, if_pos (List.length_pos_iff.mpr start)]
        rfl

/-- The window of a cursor that the list has issued. -/
theorem loadWindow_cursor (gives : source.Gives rows) (limit : ℕ) (direction : Direction)
    (direct : direction ≠ .inherited) (row : R) :
    loadWindow source ⟨limit, some (encodeCursor source direction row), none⟩ =
      .ok (windowOf source limit ⟨direction, some (source.positionOf row), 0⟩) := by
  simp only [loadWindow, planOf, decodeCursor_encodeCursor gives direct, Except.map, Except.bind,
    Option.all_some, gives.fits, if_true]

/-- **The first page.** -/
theorem shows_first (gives : source.Gives rows) {limit : ℕ} (one : 1 ≤ limit) :
    ∃ window, loadWindow source ⟨limit, none, none⟩ = .ok window ∧
      Shows source rows [] (rows.take limit) (rows.drop limit) window := by
  refine ⟨_, rfl, shows_windowOf gives ?_ ?_ (fun _ => rfl) ?_⟩
  · rw [List.nil_append, List.take_append_drop]
  · dsimp only
    rw [if_neg nofun, gives.page_start, List.drop_zero]
  · intro blank
    refine ⟨rfl, ?_⟩
    rcases List.take_eq_nil_iff.mp blank with zero | none
    · omega
    · exact none

/-- **The next page** shows what follows. -/
theorem shows_next (gives : source.Gives rows) {limit : ℕ} (one : 1 ≤ limit)
    {front shown back : List R} {window : ListWindow R} {cursor : Text}
    (shows : Shows source rows front shown back window) (next : window.nextCursor = some cursor) :
    ∃ window', loadWindow source ⟨limit, some cursor, none⟩ = .ok window' ∧
      Shows source rows (front ++ shown) (back.take limit) (back.drop limit) window' := by
  rw [shows.next] at next
  by_cases end_ : back = []
  · rw [if_pos end_] at next
    cases next
  rw [if_neg end_] at next
  obtain ⟨last, final, rfl⟩ := Option.map_eq_some_iff.mp next
  obtain ⟨init, rfl⟩ := List.getLast?_eq_some_iff.mp final
  have place : rows = (front ++ init) ++ last :: back := by
    rw [shows.split, List.append_assoc, List.append_assoc, List.append_assoc]
    rfl
  refine ⟨_, loadWindow_cursor gives limit .after nofun _, ?_⟩
  apply shows_windowOf gives
  · rw [List.append_assoc, List.take_append_drop]
    exact shows.split
  · dsimp only
    rw [if_neg nofun, gives.page_after place, List.drop_zero]
  · exact fun start => nomatch start
  · intro blank
    rcases List.take_eq_nil_iff.mp blank with zero | none
    · omega
    · exact absurd none end_

/-- **The previous page** shows what precedes. -/
theorem shows_previous (gives : source.Gives rows) {limit : ℕ} (one : 1 ≤ limit)
    {front shown back : List R} {window : ListWindow R} {cursor : Text}
    (shows : Shows source rows front shown back window)
    (previous : window.previousCursor = some cursor) :
    ∃ window', loadWindow source ⟨limit, some cursor, none⟩ = .ok window' ∧
      Shows source rows (front.take (front.length - limit)) (front.drop (front.length - limit))
        (shown ++ back) window' := by
  rw [shows.previous] at previous
  by_cases start : front = []
  · rw [if_pos start] at previous
    cases previous
  rw [if_neg start] at previous
  obtain ⟨first, initial, rfl⟩ := Option.map_eq_some_iff.mp previous
  obtain ⟨tail, rfl⟩ := List.head?_eq_some_iff.mp initial
  have place : rows = front ++ first :: (tail ++ back) := by
    rw [shows.split, List.append_assoc, List.cons_append]
  refine ⟨_, loadWindow_cursor gives limit .before nofun _, ?_⟩
  apply shows_windowOf gives
  · rw [List.take_append_drop, ← List.append_assoc]
    exact shows.split
  · dsimp only
    rw [if_pos rfl, gives.page_before place, List.drop_zero, List.take_reverse, List.reverse_reverse]
  · exact fun start => nomatch start
  · intro blank
    have := List.length_pos_iff.mpr start
    have := List.drop_eq_nil_iff.mp blank
    omega

/-- **The page of `around`** is aligned and shows its row. -/
theorem shows_around (gives : source.Gives rows) {limit : ℕ} (one : 1 ≤ limit) {around : Text}
    {row : R} (member : row ∈ rows)
    (located : source.locate around = some (source.positionOf row, true)) :
    ∃ window offset, loadWindow source ⟨limit, none, some around⟩ = .ok window ∧ limit ∣ offset ∧
      row ∈ (rows.drop offset).take limit ∧
      Shows source rows (rows.take offset) ((rows.drop offset).take limit)
        ((rows.drop offset).drop limit) window := by
  obtain ⟨front, back, place⟩ := List.append_of_mem member
  have inside : front.length < rows.length := by
    rw [place, List.length_append, List.length_cons]
    omega
  have parts := Nat.div_add_mod front.length limit
  have small := Nat.mod_lt front.length (show limit > 0 by omega)
  have shown : row ∈ (rows.drop (front.length - front.length % limit)).take limit := by
    have read : rows[front.length]? = some row := by
      rw [place, List.getElem?_append_right le_rfl, Nat.sub_self, List.getElem?_cons_zero]
    apply List.mem_of_getElem? (i := front.length % limit)
    rw [List.getElem?_take_of_lt small, List.getElem?_drop, Nat.sub_add_cancel (Nat.mod_le _ _), read]
  have loaded : loadWindow source ⟨limit, none, some around⟩ = .ok (windowOf source limit
      ⟨.after, none, source.countBefore (source.positionOf row) -
        source.countBefore (source.positionOf row) % limit⟩) := by
    simp only [loadWindow, planOf, located, Except.bind, Option.all_none, if_true]
  refine ⟨_, front.length - front.length % limit, loaded, ?_, shown, ?_⟩
  · apply Dvd.intro (front.length / limit)
    omega
  · apply shows_windowOf gives
    · rw [List.append_assoc, List.take_append_drop, List.take_append_drop]
    · dsimp only
      rw [if_neg nofun, gives.page_start, gives.countBefore place]
    · intro _
      dsimp only
      rw [gives.countBefore place, List.length_take]
      omega
    · intro blank
      rw [blank] at shown
      cases shown

end Gives

/-! ## What a client sees -/

/-- The windows that a client reaches: the first page, the page of `around`, and what their
cursors give. -/
inductive Reached (source : ListSource R K) (limit : ℕ) : ListWindow R → Prop
  | first {window : ListWindow R} :
      loadWindow source ⟨limit, none, none⟩ = .ok window → Reached source limit window
  | around {window : ListWindow R} {around : Text} :
      loadWindow source ⟨limit, none, some around⟩ = .ok window → Reached source limit window
  | next {window window' : ListWindow R} {cursor : Text} :
      Reached source limit window → window.nextCursor = some cursor →
      loadWindow source ⟨limit, some cursor, none⟩ = .ok window' → Reached source limit window'
  | previous {window window' : ListWindow R} {cursor : Text} :
      Reached source limit window → window.previousCursor = some cursor →
      loadWindow source ⟨limit, some cursor, none⟩ = .ok window' → Reached source limit window'

/-- The rows read by following the next cursors up to the last page, when `fuel` pages are
enough. -/
def browse (source : ListSource R K) (limit : ℕ) : ℕ → Option Text → Option (List R)
  | 0, _ => none
  | fuel + 1, cursor =>
    match loadWindow source ⟨limit, cursor, none⟩ with
    | .error _ => none
    | .ok window =>
      match window.nextCursor with
      | none => some window.rows
      | some next => (browse source limit fuel (some next)).map (window.rows ++ ·)

/-- Paging through the rows is exact. `designates` says which row of the list an `around`
names. -/
structure PagesExactly (source : ListSource R K) (designates : Text → R → Prop) (rows : List R)
    (limit : ℕ) : Prop where
  /-- The total and the rank of every window are exact. -/
  exact : ∀ window, Reached source limit window →
    window.total = rows.length ∧ window.offset + window.rows.length ≤ rows.length ∧
      window.rows = (rows.drop window.offset).take window.rows.length
  /-- The next cursor gives the page that follows, and there is none after the last row. -/
  next : ∀ window, Reached source limit window →
    if window.offset + window.rows.length = rows.length then window.nextCursor = none
    else ∃ cursor window', window.nextCursor = some cursor ∧
      loadWindow source ⟨limit, some cursor, none⟩ = .ok window' ∧
      window'.offset = window.offset + window.rows.length ∧
      window'.rows = (rows.drop (window.offset + window.rows.length)).take limit
  /-- The previous cursor gives the page that precedes, and there is none before the first
  row. -/
  previous : ∀ window, Reached source limit window →
    if window.offset = 0 then window.previousCursor = none
    else ∃ cursor window', window.previousCursor = some cursor ∧
      loadWindow source ⟨limit, some cursor, none⟩ = .ok window' ∧
      window'.offset = window.offset - limit ∧
      window'.rows = (rows.take window.offset).drop (window.offset - limit)
  /-- The pages from the first to the last enumerate the rows. -/
  browse : ∀ fuel, rows.length < fuel → browse source limit fuel none = some rows
  /-- The page of `around` is aligned and has its row. -/
  around : ∀ around row, designates around row → row ∈ rows →
    ∃ window, loadWindow source ⟨limit, none, some around⟩ = .ok window ∧ row ∈ window.rows ∧
      limit ∣ window.offset ∧ window.rows = (rows.drop window.offset).take limit

section Client

variable {source : ListSource R K} {rows : List R} {designates : Text → R → Prop} {limit : ℕ}

/-- A page of `around` is that of a row of the list or the first one. -/
theorem shows_of_around (gives : source.Gives rows)
    (located : ∀ around position, source.locate around = some (position, true) →
      ∃ row ∈ rows, position = source.positionOf row)
    (one : 1 ≤ limit) {around : Text} {window : ListWindow R}
    (loaded : loadWindow source ⟨limit, none, some around⟩ = .ok window) :
    ∃ front shown back, Shows source rows front shown back window := by
  cases found : source.locate around with
  | none =>
    simp only [loadWindow, planOf, found, Except.bind] at loaded
    cases loaded
  | some result =>
    obtain ⟨position, listed⟩ := result
    cases listed with
    | false =>
      obtain ⟨first, same, shows⟩ := shows_first gives one
      have again : loadWindow source ⟨limit, none, some around⟩ =
          loadWindow source ⟨limit, none, none⟩ := by
        simp only [loadWindow, planOf, found]
      rw [again, same] at loaded
      cases loaded
      exact ⟨_, _, _, shows⟩
    | true =>
      obtain ⟨row, member, rfl⟩ := located around position found
      obtain ⟨window', _, same, _, _, shows⟩ := shows_around gives one member found
      rw [same] at loaded
      cases loaded
      exact ⟨_, _, _, shows⟩

/-- **Every window that a client reaches shows a segment of the rows.** -/
theorem reached_shows (gives : source.Gives rows)
    (located : ∀ around position, source.locate around = some (position, true) →
      ∃ row ∈ rows, position = source.positionOf row)
    (one : 1 ≤ limit) {window : ListWindow R} (reached : Reached source limit window) :
    ∃ front shown back, Shows source rows front shown back window := by
  induction reached with
  | first loaded =>
    obtain ⟨window, same, shows⟩ := shows_first gives one
    rw [same] at loaded
    cases loaded
    exact ⟨_, _, _, shows⟩
  | around loaded => exact shows_of_around gives located one loaded
  | next _ cursor loaded ih =>
    obtain ⟨front, shown, back, shows⟩ := ih
    obtain ⟨window, same, shows'⟩ := shows_next gives one shows cursor
    rw [same] at loaded
    cases loaded
    exact ⟨_, _, _, shows'⟩
  | previous _ cursor loaded ih =>
    obtain ⟨front, shown, back, shows⟩ := ih
    obtain ⟨window, same, shows'⟩ := shows_previous gives one shows cursor
    rw [same] at loaded
    cases loaded
    exact ⟨_, _, _, shows'⟩

/-- The pages that follow a window give the rows that it leaves. -/
theorem browse_from (gives : source.Gives rows) (one : 1 ≤ limit) {fuel : ℕ}
    {front shown back : List R} {window : ListWindow R} {cursor : Text}
    (shows : Shows source rows front shown back window) (next : window.nextCursor = some cursor)
    (enough : back.length ≤ fuel) : browse source limit fuel (some cursor) = some back := by
  induction fuel generalizing front shown back window cursor with
  | zero =>
    have last := shows.next_eq_none_iff.mpr (List.length_eq_zero_iff.mp (Nat.le_zero.mp enough))
    rw [last] at next
    cases next
  | succ fuel ih =>
    have some : back ≠ [] := by
      intro last
      rw [shows.next_eq_none_iff.mpr last] at next
      cases next
    obtain ⟨window', loaded, shows'⟩ := shows_next gives one shows next
    rw [browse, loaded]
    cases following : window'.nextCursor with
    | none =>
      have whole := List.take_append_drop limit back
      rw [shows'.next_eq_none_iff.mp following, List.append_nil] at whole
      simp only [following, shows'.page, whole]
    | some cursor' =>
      have fewer : (back.drop limit).length ≤ fuel := by
        have positive := List.length_pos_iff.mpr some
        rw [List.length_drop]
        omega
      simp only [following, ih shows' following fewer, Option.map_some, shows'.page,
        List.take_append_drop]

/-- **The pages enumerate the rows**, each of them once and in order. -/
theorem browse_eq (gives : source.Gives rows) (one : 1 ≤ limit) {fuel : ℕ}
    (enough : rows.length < fuel) : browse source limit fuel none = some rows := by
  obtain ⟨fuel, rfl⟩ := Nat.exists_eq_add_of_le' (show 1 ≤ fuel by omega)
  obtain ⟨window, loaded, shows⟩ := shows_first gives one
  rw [browse, loaded]
  cases following : window.nextCursor with
  | none =>
    have whole := List.take_append_drop limit rows
    rw [shows.next_eq_none_iff.mp following, List.append_nil] at whole
    simp only [following, shows.page, whole]
  | some cursor =>
    have rest : browse source limit fuel (some cursor) = some (rows.drop limit) := by
      apply browse_from gives one shows following
      rw [List.length_drop]
      omega
    simp only [following, rest, Option.map_some, shows.page, List.take_append_drop]

/-- **Paging is exact** when the source gives the rows and locates those that `around`
names. -/
theorem pagesExactly (gives : source.Gives rows)
    (located : ∀ around position, source.locate around = some (position, true) →
      ∃ row ∈ rows, position = source.positionOf row)
    (locates : ∀ around row, designates around row → row ∈ rows →
      source.locate around = some (source.positionOf row, true))
    (one : 1 ≤ limit) : PagesExactly source designates rows limit where
  exact window reached := by
    obtain ⟨front, shown, back, shows⟩ := reached_shows gives located one reached
    refine ⟨shows.total, ?_, ?_⟩
    · have length := shows.length
      omega
    · rw [shows.page]
      exact shows.slice
  next window reached := by
    obtain ⟨front, shown, back, shows⟩ := reached_shows gives located one reached
    have length := shows.length
    by_cases last : back = []
    · rw [last, List.length_nil] at length
      rw [if_pos (by omega)]
      exact shows.next_eq_none_iff.mpr last
    · have more := List.length_pos_iff.mpr last
      rw [if_neg (by omega)]
      obtain ⟨cursor, following⟩ := Option.ne_none_iff_exists'.mp (mt shows.next_eq_none_iff.mp last)
      obtain ⟨window', loaded, shows'⟩ := shows_next gives one shows following
      refine ⟨cursor, window', following, loaded, ?_, ?_⟩
      · rw [shows'.offset, shows.offset, shows.page, List.length_append]
      · rw [shows'.page, shows.page, shows.offset, shows.split, ← List.length_append, List.drop_left]
  previous window reached := by
    obtain ⟨front, shown, back, shows⟩ := reached_shows gives located one reached
    by_cases start : front = []
    · rw [if_pos (by rw [shows.offset, start, List.length_nil])]
      exact shows.previous_eq_none_iff.mpr start
    · have behind := List.length_pos_iff.mpr start
      rw [if_neg (by rw [shows.offset]; omega)]
      obtain ⟨cursor, preceding⟩ :=
        Option.ne_none_iff_exists'.mp (mt shows.previous_eq_none_iff.mp start)
      obtain ⟨window', loaded, shows'⟩ := shows_previous gives one shows preceding
      refine ⟨cursor, window', preceding, loaded, ?_, ?_⟩
      · rw [shows'.offset, shows.offset, List.length_take]
        omega
      · rw [shows'.page, shows.offset, shows.split, List.append_assoc, List.take_left]
  browse fuel enough := browse_eq gives one enough
  around around row named member := by
    obtain ⟨window, offset, loaded, aligned, shown, shows⟩ :=
      shows_around gives one member (locates around row named member)
    have inside : offset ≤ rows.length := by
      by_contra beyond
      rw [List.drop_eq_nil_of_le (by omega), List.take_nil] at shown
      cases shown
    have rank : window.offset = offset := by
      rw [shows.offset, List.length_take]
      omega
    refine ⟨window, loaded, ?_, ?_, ?_⟩
    · rw [shows.page]
      exact shown
    · rw [rank]
      exact aligned
    · rw [shows.page, rank]

end Client

end Koklo.Lists
