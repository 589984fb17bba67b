import Koklo.Foundations.Keyset
import Koklo.Foundations.Regex
import Koklo.Lists.LongListPaging
import Mathlib.Data.Prod.Lex
import Mathlib.Order.WithBot

/-!
# The sources of the ticket list and of the feature list

Tickets are ordered by priority, then by the number of their key, then by identifier;
features by the number of their identifier, then by the identifier of their row. The numbers
are generated columns, which are never null and fit the type of their column; a query with a number
that does not fit it fails. The condition
that a row is beyond a position is written column by column, as the queries have it; on the
position of a row it is the order of the list (`beyond_iff`, `keysetBy_iff`). A source that
reads its table by such a condition gives the filtered rows in order (`gives_of_keyset`), and
paging through the two lists is exact (`window_paging`).
-/

set_option autoImplicit false

namespace Koklo.Lists

open Koklo.Foundations

/-! ## Queries -/

/-- `gt` and `lt` in a filter. -/
inductive KeysetOp where
  | gt
  | lt
deriving DecidableEq

/-- A number that an `INTEGER` column can be compared with. -/
def fitsInteger (key : Number) : Bool :=
  key.isInteger && (Number.finite (-2 ^ 31)).le key && key.le (.finite (2 ^ 31 - 1))

/-- A column beyond a number; a null column never is. -/
def KeysetOp.column (op : KeysetOp) (value : Option ℕ) (key : Number) : Bool :=
  match op, value with
  | _, none => false
  | gt, some n => key.lt (.finite n)
  | lt, some n => (Number.finite n).lt key

/-- A column equal to a number. -/
def columnIs (value : Option ℕ) (key : Number) : Bool :=
  match value with
  | none => false
  | some n => (Number.finite n).le key && key.le (.finite n)

/-- The lower case of a hexadecimal digit: UUIDs are compared without regard to case. -/
def lowerDigit (u : CodeUnit) : CodeUnit :=
  if 0x41 ≤ u ∧ u ≤ 0x46 then Fin.ofNat _ (u.val + 0x20) else u

def uuidKey (id : Text) : Text := id.map lowerDigit

/-- An identifier beyond another one. -/
def KeysetOp.uuid (op : KeysetOp) (value id : Text) : Bool :=
  match op with
  | gt => uuidKey id < uuidKey value
  | lt => uuidKey value < uuidKey id

/-- The operator of a direction. -/
def Direction.op : Direction → KeysetOp
  | after => .gt
  | before | inherited => .lt

/-- A column in an order: null is after every number. -/
def nullsLast (value : Option ℕ) : WithTop ℕ := value.elim ⊤ WithTop.some

/-- `findMany`: the rows that pass, in the order of a direction, from `skip` on. -/
def findMany {R κ : Type} [LinearOrder κ] (sortKey : R → κ) (direction : Direction) (table : List R)
    (passes : R → Bool) (take skip : ℕ) : List R :=
  let rows := table.filter passes
  let ordered :=
    if direction = .after then Keyset.ascending sortKey rows else Keyset.descending sortKey rows
  (ordered.drop skip).take take

/-- The rows that pass a filter and, from a position on, are beyond it. -/
def window {R K : Type} (filter : R → Bool) (beyond : Position K → KeysetOp → R → Bool)
    (start : Option (Position K)) (op : KeysetOp) (row : R) : Bool :=
  filter row && start.all fun position => beyond position op row

section Keyset

variable {R K κ : Type} [LinearOrder κ] {sortKey : R → κ} {table : List R} {filter : R → Bool}
  {source : ListSource R K} {beyond : Position K → KeysetOp → R → Bool}

/-- **A source that reads its table beyond positions** gives the filtered rows in order. -/
theorem gives_of_keyset (distinct : (table.map sortKey).Nodup)
    (gt : ∀ row a, beyond (source.positionOf row) .gt a = decide (sortKey row < sortKey a))
    (lt : ∀ row a, beyond (source.positionOf row) .lt a = decide (sortKey a < sortKey row))
    (total : source.total = (table.filter filter).length)
    (page : ∀ direction start take skip, source.page direction start take skip =
      findMany sortKey direction table (window filter beyond start direction.op) take skip)
    (countBefore : ∀ position, source.countBefore position =
      (table.filter fun row => filter row && beyond position .lt row).length)
    (fits : ∀ row, source.fits (source.positionOf row).key = true)
    (decodeKey : ∀ row, source.decodeKey (some (source.encodeKey (source.positionOf row).key)) =
      some (source.positionOf row).key)
    (plain : ∀ row, Json.Plain (source.encodeKey (source.positionOf row).key))
    (ascii : ∀ row, Text.IsAscii (Json.stringify (source.encodeKey (source.positionOf row).key)))
    (isUuid : ∀ row, isUuid (source.positionOf row).id = true) :
    source.Gives (Keyset.ascending sortKey (table.filter filter)) := by
  have apart : ((table.filter filter).map sortKey).Nodup :=
    distinct.sublist ((List.filter_sublist (p := filter)).map sortKey)
  have increasing := Keyset.increasing_ascending apart
  have same : (Keyset.ascending sortKey (table.filter filter)).Perm (table.filter filter) :=
    Keyset.perm_ascending (table.filter filter)
  have inside : ∀ test : R → Bool,
      ((Keyset.ascending sortKey (table.filter filter)).filter test).Perm
        (table.filter fun row => filter row && test row) := by
    intro test
    have both : (table.filter fun row => filter row && test row) = (table.filter filter).filter test := by
      rw [List.filter_filter]
      congr 1
      funext row
      exact Bool.and_comm _ _
    rw [both]
    exact same.filter test
  refine ⟨?_, ?_, ?_, ?_, ?_, fits, decodeKey, plain, ascii, isUuid⟩
  · rw [total, same.length_eq]
  · intro take skip
    have all : window filter beyond none KeysetOp.gt = filter := by
      funext row
      exact Bool.and_true _
    rw [page, findMany, Direction.op, all, if_pos rfl]
  · intro front row back split take skip
    have after : (table.filter (window filter beyond (some (source.positionOf row)) KeysetOp.gt)) =
        table.filter fun a => filter a && decide (sortKey row < sortKey a) := by
      congr 1
      funext a
      rw [window, Option.all_some, gt]
    have ordered := Keyset.ascending_eq (inside fun a => decide (sortKey row < sortKey a))
      (increasing.filter _)
    rw [Keyset.filter_gt increasing split] at ordered
    rw [page, findMany, Direction.op, after, if_pos rfl, ordered]
  · intro front row back split take skip
    have before : (table.filter (window filter beyond (some (source.positionOf row)) KeysetOp.lt)) =
        table.filter fun a => filter a && decide (sortKey a < sortKey row) := by
      congr 1
      funext a
      rw [window, Option.all_some, lt]
    have ordered := Keyset.descending_eq (inside fun a => decide (sortKey a < sortKey row))
      (increasing.filter _)
    rw [Keyset.filter_lt increasing split] at ordered
    rw [page, findMany, Direction.op, before, if_neg nofun, ordered]
  · intro front row back split
    have before := (inside fun a => decide (sortKey a < sortKey row)).length_eq
    rw [Keyset.filter_lt increasing split] at before
    rw [countBefore, before]
    congr 2
    funext a
    rw [lt]

end Keyset

/-! ## Columns that are numbers -/

theorem lt_natCast (m n : ℕ) : (Number.finite m).lt (.finite n) = decide (m < n) := by
  simp only [Number.lt, Number.le, Number.value?, Nat.cast_le]
  rw [← decide_not, ← Bool.decide_and]
  exact decide_eq_decide.mpr (by omega)

theorem columnIs_some (m n : ℕ) : columnIs (some m) (.finite n) = decide (m = n) := by
  simp only [columnIs, Number.le, Number.value?, Nat.cast_le]
  rw [← Bool.decide_and]
  exact decide_eq_decide.mpr le_antisymm_iff.symm

/-- The numbers of the columns fit them. -/
theorem fitsInteger_natCast {n : ℕ} (small : n < 2 ^ 31) : fitsInteger (.finite n) = true := by
  have below : (-2 ^ 31 : ℚ) ≤ n := by
    have := Nat.cast_nonneg (α := ℚ) n
    linarith
  have above : (n : ℚ) ≤ 2 ^ 31 - 1 := by
    have : (n : ℚ) + 1 ≤ 2 ^ 31 := by exact_mod_cast small
    linarith
  simp only [fitsInteger, Number.isInteger, Number.le, Number.value?, Rat.den_natCast, below, above,
    decide_true, Bool.and_true, beq_self_eq_true]

/-- The text of a number of a column. -/
theorem toText_column {n : ℕ} (small : n < 2 ^ 53) : (Number.finite n).toText = Text.ofNat n :=
  Number.toText_natCast small

theorem isAscii_ofNat (n : ℕ) : Text.IsAscii (Text.ofNat n) := by
  intro u member
  have digit := Text.isDigit_of_mem_ofNat member
  simp only [Text.isDigit, Bool.and_eq_true, decide_eq_true_eq, Fin.le_def] at digit
  exact digit.2.trans_lt (by decide)

theorem decimal_lt {digits : Text} (all : ∀ u ∈ digits, Text.isDigit u = true) :
    Text.decimal digits < 10 ^ digits.length := by
  have bound := Nat.ofDigits_lt_base_pow_length (b := 10) (l := (digits.map Text.digitValue).reverse)
    (by decide) (by
      intro d member
      obtain ⟨u, inside, rfl⟩ := List.mem_map.mp (List.mem_reverse.mp member)
      exact Text.digitValue_lt (all u inside))
  rwa [List.length_reverse, List.length_map] at bound

/-! ## Tickets -/

/-- The priorities of tickets, as the list ranks them. -/
inductive TicketPriority where
  | low | medium | high | critical
deriving DecidableEq

/-- A ticket as the list reads it. -/
structure TicketRow where
  id : Uuid
  projectId : Text
  key : Text
  priority : TicketPriority
  deleted : Bool

/-- `priority_rank`, generated from the priority. -/
def TicketRow.priorityRank (row : TicketRow) : Option ℕ :=
  match row.priority with
  | .critical => some 0
  | .high => some 1
  | .medium => some 2
  | .low => some 3

/-- `key_number`, generated from the key: one to nine digits after a hyphen, at its end. -/
def TicketRow.keyNumber (row : TicketRow) : Option ℕ :=
  let digits := row.key.rtakeWhile Text.isDigit
  if digits ≠ [] ∧ digits.length ≤ 9 ∧ (row.key.rdropWhile Text.isDigit).getLast? = some hyphen then
    some (Text.decimal digits)
  else some 0

/-- The order of the list. -/
def TicketRow.sortKey (row : TicketRow) : WithTop ℕ ×ₗ WithTop ℕ ×ₗ Text :=
  toLex (nullsLast row.priorityRank, toLex (nullsLast row.keyNumber, uuidKey row.id.text))

/-- The tickets of a database: identifiers are unique, and keys within a project. -/
structure TicketTable where
  rows : List TicketRow
  distinctIds : (rows.map fun row => uuidKey row.id.text).Nodup
  distinctKeys : (rows.map fun row => (row.projectId, row.key)).Nodup

/-- The sort key of a ticket: the rank of its priority and the number of its key. -/
structure Rank where
  priority : Number
  number : Number

/-- The row is beyond the position, in the order of the columns. -/
def beyond (position : Position Rank) (op : KeysetOp) (row : TicketRow) : Bool :=
  op.column row.priorityRank position.key.priority ||
    (columnIs row.priorityRank position.key.priority &&
      op.column row.keyNumber position.key.number) ||
    (columnIs row.priorityRank position.key.priority &&
      columnIs row.keyNumber position.key.number && op.uuid row.id.text position.id)

/-- The rank of a row, as it is put into cursors. -/
def rankOf (row : TicketRow) : Rank where
  priority := .finite (row.priorityRank.getD 3)
  number := .finite (row.keyNumber.getD 0)

/-- `^(\d+):(\d+)$`. -/
def rankPattern : Regex CodeUnit :=
  .seq (.capture (.greedy 1 Text.isDigit))
    (.seq (.text [0x3A]) (.capture (.greedy 1 Text.isDigit)))

/-- The rank of a key of a cursor. -/
def decodeRank : Option Data → Option Rank
  | some (.text raw) =>
    match rankPattern.exec raw with
    | some [priority, number] => some ⟨Number.ofDecimal priority, Number.ofDecimal number⟩
    | _ => none
  | _ => none

/-- The source of the tickets of a project. -/
def ticketSource (table : TicketTable) (projectId : Text) (filter : TicketRow → Bool) :
    ListSource TicketRow Rank where
  total := (table.rows.filter filter).length
  page direction start take skip :=
    findMany TicketRow.sortKey direction table.rows (window filter beyond start direction.op) take skip
  fits key := fitsInteger key.priority && fitsInteger key.number
  countBefore position :=
    (table.rows.filter fun row => filter row && beyond position .lt row).length
  locate key :=
    (table.rows.find? fun row => row.projectId = projectId && row.key = key && !row.deleted).map
      fun row =>
        let listed := (table.rows.filter fun other =>
          filter other && uuidKey other.id.text = uuidKey row.id.text).length
        (⟨rankOf row, row.id.text⟩, decide (0 < listed))
  positionOf row := ⟨rankOf row, row.id.text⟩
  encodeKey key := .text (key.priority.toText ++ 0x3A :: key.number.toText)
  decodeKey := decodeRank

theorem TicketRow.exists_priorityRank (row : TicketRow) : ∃ p ≤ 3, row.priorityRank = some p := by
  rw [priorityRank]
  cases row.priority with
  | low => exact ⟨3, by decide, rfl⟩
  | medium => exact ⟨2, by decide, rfl⟩
  | high => exact ⟨1, by decide, rfl⟩
  | critical => exact ⟨0, by decide, rfl⟩

theorem TicketRow.exists_keyNumber (row : TicketRow) : ∃ n < 10 ^ 9, row.keyNumber = some n := by
  simp only [keyNumber]
  split
  · rename_i numbered
    refine ⟨_, ?_, rfl⟩
    have all : ∀ u ∈ row.key.rtakeWhile Text.isDigit, Text.isDigit u = true := fun u member =>
      List.mem_rtakeWhile_imp member
    exact (decimal_lt all).trans_le (Nat.pow_le_pow_right (by decide) numbered.2.1)
  · exact ⟨0, by decide, rfl⟩

/-- **Beyond a ticket** is after it in the order of the list. -/
theorem beyond_gt_iff (row other : TicketRow) :
    beyond ⟨rankOf row, row.id.text⟩ .gt other = decide (row.sortKey < other.sortKey) := by
  obtain ⟨p, _, priority⟩ := row.exists_priorityRank
  obtain ⟨n, _, number⟩ := row.exists_keyNumber
  obtain ⟨p', _, priority'⟩ := other.exists_priorityRank
  obtain ⟨n', _, number'⟩ := other.exists_keyNumber
  simp only [beyond, rankOf, priority, number, priority', number', Option.getD_some,
    KeysetOp.column, KeysetOp.uuid, columnIs_some, lt_natCast, TicketRow.sortKey, nullsLast,
    Option.elim_some, Prod.Lex.toLex_lt_toLex, WithTop.coe_lt_coe, WithTop.coe_inj]
  rw [← Bool.decide_and, ← Bool.decide_and, ← Bool.decide_and, ← Bool.decide_or, ← Bool.decide_or]
  apply decide_eq_decide.mpr
  rw [eq_comm (a := p'), eq_comm (a := n')]
  tauto

/-- **Before a ticket**, likewise. -/
theorem beyond_lt_iff (row other : TicketRow) :
    beyond ⟨rankOf row, row.id.text⟩ .lt other = decide (other.sortKey < row.sortKey) := by
  obtain ⟨p, _, priority⟩ := row.exists_priorityRank
  obtain ⟨n, _, number⟩ := row.exists_keyNumber
  obtain ⟨p', _, priority'⟩ := other.exists_priorityRank
  obtain ⟨n', _, number'⟩ := other.exists_keyNumber
  simp only [beyond, rankOf, priority, number, priority', number', Option.getD_some,
    KeysetOp.column, KeysetOp.uuid, columnIs_some, lt_natCast, TicketRow.sortKey, nullsLast,
    Option.elim_some, Prod.Lex.toLex_lt_toLex, WithTop.coe_lt_coe, WithTop.coe_inj]
  rw [← Bool.decide_and, ← Bool.decide_and, ← Bool.decide_and, ← Bool.decide_or, ← Bool.decide_or]
  apply decide_eq_decide.mpr
  tauto

/-- Digits are read as the number that they write. -/
theorem ofDecimal_ofNat {n : ℕ} (small : n ≤ 2 ^ 53) : Number.ofDecimal (Text.ofNat n) = .finite n := by
  rw [Number.ofDecimal, Text.decimal_ofNat, Number.nearest_natCast small]

theorem exec_rankPattern (p n : ℕ) :
    rankPattern.exec (Text.ofNat p ++ 0x3A :: Text.ofNat n) = some [Text.ofNat p, Text.ofNat n] := by
  have numeric : ∀ k, ∀ u ∈ Text.ofNat k, Text.isDigit u = true := fun k u member =>
    Text.isDigit_of_mem_ofNat member
  have long : ∀ k, 1 ≤ (Text.ofNat k).length := fun k =>
    List.length_pos_iff.mpr (Text.ofNat_ne_nil k)
  rw [Regex.exec, rankPattern, Regex.preferred_seq, Regex.preferred_capture]
  apply Regex.preferred_greedy (numeric p) (by rintro u ⟨⟩; decide) (long p)
  have colon : 0x3A :: Text.ofNat n = [0x3A] ++ (Text.ofNat n ++ []) := by
    rw [List.append_nil]
    rfl
  have taken : (Text.ofNat p ++ 0x3A :: Text.ofNat n).take
      ((Text.ofNat p ++ 0x3A :: Text.ofNat n).length - (0x3A :: Text.ofNat n).length) =
        Text.ofNat p := by
    rw [List.length_append, Nat.add_sub_cancel, List.take_left]
  simp only [taken]
  rw [Regex.preferred_seq, colon, Regex.preferred_text, Regex.preferred_capture]
  apply Regex.preferred_greedy (numeric n) (fun u member => by cases member) (long n)
  simp only [List.length_nil, Nat.sub_zero, List.append_nil, List.take_length, if_true]
  rfl

/-- The key of a ticket is read back. -/
theorem decodeRank_encode {p n : ℕ} (small : p ≤ 2 ^ 53) (small' : n ≤ 2 ^ 53) :
    decodeRank (some (.text (Text.ofNat p ++ 0x3A :: Text.ofNat n))) =
      some ⟨.finite p, .finite n⟩ := by
  simp only [decodeRank, exec_rankPattern, ofDecimal_ofNat small, ofDecimal_ofNat small']

/-- A list of which the keys are distinct has one row of each. -/
theorem find?_eq {R κ : Type} [DecidableEq κ] {key : R → κ} {table : List R} {row : R}
    (distinct : (table.map key).Nodup) (member : row ∈ table) {test : R → Bool}
    (passes : test row = true) (named : ∀ other, test other = true → key other = key row) :
    table.find? test = some row := by
  induction table with
  | nil => cases member
  | cons first table ih =>
    obtain ⟨fresh, others⟩ := List.nodup_cons.mp distinct
    rcases List.mem_cons.mp member with rfl | later
    · rw [List.find?_cons_of_pos passes]
    · have apart : ¬ test first = true := by
        intro same
        exact fresh (named first same ▸ List.mem_map_of_mem later)
      rw [List.find?_cons_of_neg apart, ih others later]

section Tickets

variable (table : TicketTable) (projectId : Text) (filter : TicketRow → Bool)

/-- The tickets that pass, in the order of the list. -/
def ticketsInOrder : List TicketRow := Keyset.ascending TicketRow.sortKey (table.rows.filter filter)

/-- A ticket of the project, which is not deleted, under its key. -/
def IsTicket (key : Text) (row : TicketRow) : Prop :=
  row.projectId = projectId ∧ row.key = key ∧ row.deleted = false

theorem TicketTable.distinct : (table.rows.map TicketRow.sortKey).Nodup := by
  have ids := table.distinctIds
  have project : (fun row : TicketRow => uuidKey row.id.text) =
      (fun key : WithTop ℕ ×ₗ WithTop ℕ ×ₗ Text => (ofLex (ofLex key).2).2) ∘ TicketRow.sortKey := rfl
  rw [project, ← List.map_map] at ids
  exact List.Nodup.of_map _ ids

/-- The sort key of a ticket is two whole numbers. -/
theorem exists_rankOf (row : TicketRow) : ∃ p n, p < 2 ^ 31 ∧ n < 2 ^ 31 ∧
    rankOf row = ⟨.finite (p : ℕ), .finite (n : ℕ)⟩ := by
  obtain ⟨p, priority, same⟩ := row.exists_priorityRank
  obtain ⟨n, number, same'⟩ := row.exists_keyNumber
  refine ⟨p, n, by omega, by omega, ?_⟩
  rw [rankOf, same, same', Option.getD_some, Option.getD_some]

theorem ticketSource_gives :
    (ticketSource table projectId filter).Gives (ticketsInOrder table filter) := by
  apply gives_of_keyset table.distinct beyond_gt_iff beyond_lt_iff rfl (fun _ _ _ _ => rfl)
    (fun _ => rfl)
  · intro row
    obtain ⟨p, n, small, small', key⟩ := exists_rankOf row
    simp only [ticketSource, key, fitsInteger_natCast small, fitsInteger_natCast small',
      Bool.and_self]
  · intro row
    obtain ⟨p, n, small, small', key⟩ := exists_rankOf row
    simp only [ticketSource, key]
    rw [toText_column (by omega), toText_column (by omega), decodeRank_encode (by omega) (by omega)]
  · exact fun row => .text _
  · intro row
    obtain ⟨p, n, small, small', key⟩ := exists_rankOf row
    simp only [ticketSource, key, Json.stringify]
    rw [toText_column (by omega), toText_column (by omega)]
    exact isAscii_jsonString
      (isAscii_append (isAscii_ofNat p) (isAscii_cons (by decide) (isAscii_ofNat n)))
  · exact fun row => row.id.wellFormed

theorem mem_ticketsInOrder {row : TicketRow} :
    row ∈ ticketsInOrder table filter ↔ row ∈ table.rows ∧ filter row = true := by
  rw [ticketsInOrder, (Keyset.perm_ascending _).mem_iff, List.mem_filter]

/-- What `around` locates among the listed tickets is one of them. -/
theorem ticketSource_located {key : Text} {position : Position Rank}
    (located : (ticketSource table projectId filter).locate key = some (position, true)) :
    ∃ row ∈ ticketsInOrder table filter,
      position = (ticketSource table projectId filter).positionOf row := by
  obtain ⟨row, found, shape⟩ := Option.map_eq_some_iff.mp located
  obtain ⟨rfl, listed⟩ := Prod.mk.inj shape
  obtain ⟨other, member⟩ := List.exists_mem_of_length_pos (of_decide_eq_true listed)
  obtain ⟨inside, passes⟩ := List.mem_filter.mp member
  rw [Bool.and_eq_true, decide_eq_true_eq] at passes
  have same : other = row :=
    List.inj_on_of_nodup_map table.distinctIds inside (List.mem_of_find?_eq_some found) passes.2
  subst same
  exact ⟨other, (mem_ticketsInOrder table filter).mpr ⟨inside, passes.1⟩, rfl⟩

/-- A listed ticket of the project is located by its key. -/
theorem ticketSource_locates {key : Text} {row : TicketRow} (named : IsTicket projectId key row)
    (member : row ∈ ticketsInOrder table filter) :
    (ticketSource table projectId filter).locate key =
      some ((ticketSource table projectId filter).positionOf row, true) := by
  obtain ⟨project, rfl, live⟩ := named
  obtain ⟨inside, passes⟩ := (mem_ticketsInOrder table filter).mp member
  have found : (table.rows.find? fun other =>
      other.projectId = projectId && other.key = row.key && !other.deleted) = some row := by
    apply find?_eq table.distinctKeys inside
    · simp [project, live]
    · intro other same
      simp only [Bool.and_eq_true, decide_eq_true_eq] at same
      rw [same.1.1, same.1.2, project]
  have listed : 0 < (table.rows.filter fun other =>
      filter other && uuidKey other.id.text = uuidKey row.id.text).length := by
    apply List.length_pos_of_mem (a := row)
    rw [List.mem_filter]
    exact ⟨inside, by simp [passes]⟩
  simp only [ticketSource, found, Option.map_some, listed, decide_true]

end Tickets

/-! ## Features -/

/-- A feature of a snapshot as the list reads it. -/
structure FeatureRow where
  id : Uuid
  snapshotId : Text
  specId : Text

/-- `spec_number`, generated from the identifier; past nine digits it is the last of its type. -/
def FeatureRow.specNumber (row : FeatureRow) : Option ℕ :=
  let digits := row.specId.drop 2
  if Text.lit "F-" <+: row.specId ∧ digits ≠ [] ∧ digits.length ≤ 9 ∧ digits.all Text.isDigit then
    some (Text.decimal digits)
  else some 2147483647

/-- The order of the list. -/
def FeatureRow.sortKey (row : FeatureRow) : WithTop ℕ ×ₗ Text :=
  toLex (nullsLast row.specNumber, uuidKey row.id.text)

/-- The features of a database: row identifiers are unique, and identifiers within a
snapshot. -/
structure FeatureTable where
  rows : List FeatureRow
  distinctIds : (rows.map fun row => uuidKey row.id.text).Nodup
  distinctSpecIds : (rows.map fun row => (row.snapshotId, row.specId)).Nodup

/-- A row beyond a position on one column and the identifier. -/
def keysetBy {R : Type} (field : R → Option ℕ) (idOf : R → Text) (position : Position Number)
    (op : KeysetOp) (row : R) : Bool :=
  op.column (field row) position.key ||
    (columnIs (field row) position.key && op.uuid (idOf row) position.id)

/-- The row is beyond the position. -/
def FeatureRow.beyond : Position Number → KeysetOp → FeatureRow → Bool :=
  keysetBy FeatureRow.specNumber fun row => row.id.text

/-- The position of a row. -/
def FeatureRow.position (row : FeatureRow) : Position Number :=
  ⟨.finite (row.specNumber.getD 0), row.id.text⟩

/-- The number of a key of a cursor. -/
def decodeNumber : Option Data → Option Number
  | some (.number raw) => if raw.isInteger then some raw else none
  | _ => none

/-- The source of the features of a snapshot. -/
def featureSource (table : FeatureTable) (snapshotId : Text) (filter : FeatureRow → Bool) :
    ListSource FeatureRow Number where
  total := (table.rows.filter filter).length
  page direction start take skip :=
    findMany FeatureRow.sortKey direction table.rows
      (window filter FeatureRow.beyond start direction.op) take skip
  fits := fitsInteger
  countBefore position :=
    (table.rows.filter fun row => filter row && row.beyond position .lt).length
  locate specId :=
    (table.rows.find? fun row => row.snapshotId = snapshotId && row.specId = specId).map fun row =>
      let listed := (table.rows.filter fun other =>
        filter other && uuidKey other.id.text = uuidKey row.id.text).length
      (row.position, decide (0 < listed))
  positionOf := FeatureRow.position
  encodeKey := .number
  decodeKey := decodeNumber

theorem FeatureRow.exists_specNumber (row : FeatureRow) : ∃ n < 2 ^ 31, row.specNumber = some n := by
  simp only [specNumber]
  split
  · rename_i numbered
    obtain ⟨_, _, short, all⟩ := numbered
    refine ⟨_, ?_, rfl⟩
    calc Text.decimal (row.specId.drop 2) < 10 ^ (row.specId.drop 2).length :=
          decimal_lt (List.all_eq_true.mp all)
      _ ≤ 10 ^ 9 := Nat.pow_le_pow_right (by decide) short
      _ < 2 ^ 31 := by norm_num
  · exact ⟨2147483647, by norm_num, rfl⟩

/-- **Beyond a feature** is after it in the order of the list. -/
theorem keysetBy_gt_iff (row other : FeatureRow) :
    other.beyond row.position .gt = decide (row.sortKey < other.sortKey) := by
  obtain ⟨n, _, number⟩ := row.exists_specNumber
  obtain ⟨n', _, number'⟩ := other.exists_specNumber
  simp only [FeatureRow.beyond, keysetBy, FeatureRow.position, number, number', Option.getD_some,
    KeysetOp.column, KeysetOp.uuid, columnIs_some, lt_natCast, FeatureRow.sortKey, nullsLast,
    Option.elim_some, Prod.Lex.toLex_lt_toLex, WithTop.coe_lt_coe, WithTop.coe_inj]
  rw [← Bool.decide_and, ← Bool.decide_or]
  apply decide_eq_decide.mpr
  rw [eq_comm (a := n')]

/-- **Before a feature**, likewise. -/
theorem keysetBy_lt_iff (row other : FeatureRow) :
    other.beyond row.position .lt = decide (other.sortKey < row.sortKey) := by
  obtain ⟨n, _, number⟩ := row.exists_specNumber
  obtain ⟨n', _, number'⟩ := other.exists_specNumber
  simp only [FeatureRow.beyond, keysetBy, FeatureRow.position, number, number', Option.getD_some,
    KeysetOp.column, KeysetOp.uuid, columnIs_some, lt_natCast, FeatureRow.sortKey, nullsLast,
    Option.elim_some, Prod.Lex.toLex_lt_toLex, WithTop.coe_lt_coe, WithTop.coe_inj]
  rw [← Bool.decide_and, ← Bool.decide_or]

section Features

variable (table : FeatureTable) (snapshotId : Text) (filter : FeatureRow → Bool)

/-- The features that pass, in the order of the list. -/
def featuresInOrder : List FeatureRow :=
  Keyset.ascending FeatureRow.sortKey (table.rows.filter filter)

/-- A feature of the snapshot under its identifier. -/
def IsFeature (specId : Text) (row : FeatureRow) : Prop :=
  row.snapshotId = snapshotId ∧ row.specId = specId

theorem FeatureTable.distinct : (table.rows.map FeatureRow.sortKey).Nodup := by
  have ids := table.distinctIds
  have project : (fun row : FeatureRow => uuidKey row.id.text) =
      (fun key : WithTop ℕ ×ₗ Text => (ofLex key).2) ∘ FeatureRow.sortKey := rfl
  rw [project, ← List.map_map] at ids
  exact List.Nodup.of_map _ ids

theorem featureSource_gives :
    (featureSource table snapshotId filter).Gives (featuresInOrder table filter) := by
  apply gives_of_keyset table.distinct keysetBy_gt_iff keysetBy_lt_iff rfl (fun _ _ _ _ => rfl)
    (fun _ => rfl)
  · intro row
    obtain ⟨n, small, number⟩ := row.exists_specNumber
    simp only [featureSource, FeatureRow.position, number, Option.getD_some,
      fitsInteger_natCast small]
  · intro row
    obtain ⟨n, _, number⟩ := row.exists_specNumber
    simp only [featureSource, FeatureRow.position, number, Option.getD_some, decodeNumber]
    rw [if_pos]
    simp [Number.isInteger, Number.value?]
  · intro row
    obtain ⟨n, small, number⟩ := row.exists_specNumber
    simp only [featureSource, FeatureRow.position, number, Option.getD_some]
    exact .number (by omega)
  · intro row
    obtain ⟨n, small, number⟩ := row.exists_specNumber
    simp only [featureSource, FeatureRow.position, number, Option.getD_some, Json.stringify,
      Json.numberText]
    rw [toText_column (by omega)]
    exact isAscii_ofNat n
  · exact fun row => row.id.wellFormed

theorem mem_featuresInOrder {row : FeatureRow} :
    row ∈ featuresInOrder table filter ↔ row ∈ table.rows ∧ filter row = true := by
  rw [featuresInOrder, (Keyset.perm_ascending _).mem_iff, List.mem_filter]

/-- What `around` locates among the listed features is one of them. -/
theorem featureSource_located {specId : Text} {position : Position Number}
    (located : (featureSource table snapshotId filter).locate specId = some (position, true)) :
    ∃ row ∈ featuresInOrder table filter,
      position = (featureSource table snapshotId filter).positionOf row := by
  obtain ⟨row, found, shape⟩ := Option.map_eq_some_iff.mp located
  obtain ⟨rfl, listed⟩ := Prod.mk.inj shape
  obtain ⟨other, member⟩ := List.exists_mem_of_length_pos (of_decide_eq_true listed)
  obtain ⟨inside, passes⟩ := List.mem_filter.mp member
  rw [Bool.and_eq_true, decide_eq_true_eq] at passes
  have same : other = row :=
    List.inj_on_of_nodup_map table.distinctIds inside (List.mem_of_find?_eq_some found) passes.2
  subst same
  exact ⟨other, (mem_featuresInOrder table filter).mpr ⟨inside, passes.1⟩, rfl⟩

/-- A listed feature of the snapshot is located by its identifier. -/
theorem featureSource_locates {specId : Text} {row : FeatureRow}
    (named : IsFeature snapshotId specId row) (member : row ∈ featuresInOrder table filter) :
    (featureSource table snapshotId filter).locate specId =
      some ((featureSource table snapshotId filter).positionOf row, true) := by
  obtain ⟨snapshot, rfl⟩ := named
  obtain ⟨inside, passes⟩ := (mem_featuresInOrder table filter).mp member
  have found : (table.rows.find? fun other =>
      other.snapshotId = snapshotId && other.specId = row.specId) = some row := by
    apply find?_eq table.distinctSpecIds inside
    · simp [snapshot]
    · intro other same
      simp only [Bool.and_eq_true, decide_eq_true_eq] at same
      rw [same.1, same.2, snapshot]
  have listed : 0 < (table.rows.filter fun other =>
      filter other && uuidKey other.id.text = uuidKey row.id.text).length := by
    apply List.length_pos_of_mem (a := row)
    rw [List.mem_filter]
    exact ⟨inside, by simp [passes]⟩
  simp only [featureSource, found, Option.map_some, listed, decide_true]

end Features

/-! ## Both lists -/

/-- **Paging loses and repeats nothing.** For every table of tickets or features, every filter
and every limit, the rows that pass stand in one order, that of the list, and paging through
them is exact in this order. -/
theorem window_paging (limit : ℕ) (one : 1 ≤ limit) :
    (∀ (table : TicketTable) (projectId : Text) (filter : TicketRow → Bool), ∃ rows : List TicketRow,
      rows.Perm (table.rows.filter filter) ∧
      rows.Pairwise (fun row next => row.sortKey < next.sortKey) ∧
      PagesExactly (ticketSource table projectId filter) (IsTicket projectId) rows limit) ∧
    (∀ (table : FeatureTable) (snapshotId : Text) (filter : FeatureRow → Bool),
      ∃ rows : List FeatureRow,
        rows.Perm (table.rows.filter filter) ∧
        rows.Pairwise (fun row next => row.sortKey < next.sortKey) ∧
        PagesExactly (featureSource table snapshotId filter) (IsFeature snapshotId) rows limit) := by
  constructor
  · intro table projectId filter
    refine ⟨ticketsInOrder table filter, Keyset.perm_ascending _, ?_, ?_⟩
    · apply Keyset.increasing_ascending
      exact table.distinct.sublist ((List.filter_sublist (p := filter)).map _)
    · exact pagesExactly (ticketSource_gives table projectId filter)
        (fun _ _ => ticketSource_located table projectId filter)
        (fun _ _ => ticketSource_locates table projectId filter) one
  · intro table snapshotId filter
    refine ⟨featuresInOrder table filter, Keyset.perm_ascending _, ?_, ?_⟩
    · apply Keyset.increasing_ascending
      exact table.distinct.sublist ((List.filter_sublist (p := filter)).map _)
    · exact pagesExactly (featureSource_gives table snapshotId filter)
        (fun _ _ => featureSource_located table snapshotId filter)
        (fun _ _ => featureSource_locates table snapshotId filter) one

/-- Pages of two rows through a table of three tickets. -/
theorem window_paging_two :
    let id (last : CodeUnit) (fits : isUuid
        (Text.lit "00000000-0000-7000-8000-00000000000" ++ [last]) = true) : Uuid := ⟨_, fits⟩
    let table : TicketTable :=
      { rows := [
          ⟨id 0x31 (by decide +kernel), Text.lit "p", Text.lit "TK-9", .high, false⟩,
          ⟨id 0x32 (by decide +kernel), Text.lit "p", Text.lit "TK-10", .high, false⟩,
          ⟨id 0x33 (by decide +kernel), Text.lit "p", Text.lit "TK-11", .critical, true⟩]
        distinctIds := by decide +kernel
        distinctKeys := by decide +kernel }
    ∃ rows : List TicketRow, rows.Perm (table.rows.filter fun row => !row.deleted) ∧
      rows.Pairwise (fun row next => row.sortKey < next.sortKey) ∧
      PagesExactly (ticketSource table (Text.lit "p") fun row => !row.deleted)
        (IsTicket (Text.lit "p")) rows 2 := by
  intro id table
  exact (window_paging 2 (by decide)).1 table (Text.lit "p") fun row => !row.deleted

end Koklo.Lists
