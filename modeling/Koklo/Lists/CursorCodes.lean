import Koklo.Lists.ListSources

/-!
# The codes of cursors

A cursor comes from the client as any text. What is read from it is a list of items: a code, a
key and an identifier. Every text that does not read so is refused with `VALIDATION`
(`eq_invalidCursor`), but the code is looked up with `in`, which also finds the names that
every object inherits. A cursor with such a name is accepted, and its direction is neither of
the two (`decodeCursor_eq_inherited_iff`). The lists then read towards their start, as for
`before`, and the window leaves the rows as they were read (`rows_inherited`), the last one
first. A cursor whose key does not fit the columns of the list is accepted too, and the query
fails. These are all the cursors that are not validated (`cursor_validated_iff`).
-/

set_option autoImplicit false

namespace Koklo.Lists

open Koklo.Foundations

/-! ## What a cursor says -/

/-- The items that a cursor holds. -/
def cursorItems (cursor : Text) : Option (List Data) :=
  (Json.parse (Text.ofUtf8 (Text.base64 cursor))).bind elements

/-- The name under which the code of a cursor is looked up. -/
def codeName (items : List Data) : Text :=
  (items[0]?.map propertyName).getD (Text.lit "undefined")

/-- The names that are not codes of their own are inherited. -/
theorem codes_eq_inherited_iff {name : Text} :
    codes name = some .inherited ↔ name ∈ objectPrototype := by
  unfold codes
  split
  · rename_i same
    subst same
    decide
  split
  · rename_i same
    subst same
    decide
  split
  · rename_i member
    exact ⟨fun _ => member, fun _ => rfl⟩
  · rename_i foreign
    exact ⟨nofun, fun member => absurd member foreign⟩

section Decode

variable {R K κ : Type} [LinearOrder κ] {source : ListSource R K} {cursor : Text}

/-- **What is accepted**: a code that is found, a key of the list and a UUID. -/
theorem decodeCursor_eq_ok_iff {direction : Direction} {position : Position K} :
    decodeCursor source cursor = .ok (direction, position) ↔
      ∃ items, cursorItems cursor = some items ∧ codes (codeName items) = some direction ∧
        source.decodeKey items[1]? = some position.key ∧ items[2]? = some (.text position.id) ∧
        isUuid position.id = true := by
  rw [decodeCursor]
  constructor
  · intro accepted
    split at accepted
    · cases accepted
    · rename_i items read
      simp only at accepted
      split at accepted
      · rename_i direction' key id code decoded third
        split at accepted
        · rename_i uuid
          cases accepted
          exact ⟨items, read, code, decoded, third, uuid⟩
        · cases accepted
      · cases accepted
  · rintro ⟨items, read, code, decoded, third, uuid⟩
    have read' : (Json.parse (Text.ofUtf8 (Text.base64 cursor))).bind elements = some items := read
    have code' : codes ((items[0]?.map propertyName).getD (Text.lit "undefined")) =
      some direction := code
    simp only [read', code', decoded, third, if_pos uuid]

/-- **Every refusal is the same one.** -/
theorem eq_invalidCursor {error : ApiError} (refused : decodeCursor source cursor = .error error) :
    error = invalidCursor := by
  rw [decodeCursor] at refused
  split at refused
  · exact (Except.error.inj refused).symm
  · simp only at refused
    split at refused
    · split at refused
      · cases refused
      · exact (Except.error.inj refused).symm
    · exact (Except.error.inj refused).symm

/-- The code of a cursor is a name that every object inherits, and the rest of it is a key of
the list and a UUID. -/
def NamesInherited (source : ListSource R K) (cursor : Text) : Prop :=
  ∃ items key id, cursorItems cursor = some items ∧ codeName items ∈ objectPrototype ∧
    source.decodeKey items[1]? = some key ∧ items[2]? = some (.text id) ∧ isUuid id = true

/-- The code of a cursor is found, and the rest of it is a UUID and a key of the list that does not
fit the columns it is compared with. -/
def KeyUnfit (source : ListSource R K) (cursor : Text) : Prop :=
  ∃ items direction key id, cursorItems cursor = some items ∧
    codes (codeName items) = some direction ∧ source.decodeKey items[1]? = some key ∧
    items[2]? = some (.text id) ∧ isUuid id = true ∧ source.fits key = false

/-- The key of a cursor that is accepted does not fit its columns. -/
theorem keyUnfit_iff : KeyUnfit source cursor ↔ ∃ direction position,
    decodeCursor source cursor = .ok (direction, position) ∧ source.fits position.key = false := by
  constructor
  · rintro ⟨items, direction, key, id, read, code, decoded, third, uuid, unfit⟩
    exact ⟨direction, ⟨key, id⟩,
      decodeCursor_eq_ok_iff.mpr ⟨items, read, code, decoded, third, uuid⟩, unfit⟩
  · rintro ⟨direction, position, accepted, unfit⟩
    obtain ⟨items, read, code, decoded, third, uuid⟩ := decodeCursor_eq_ok_iff.mp accepted
    exact ⟨items, direction, _, _, read, code, decoded, third, uuid, unfit⟩

/-- A cursor has neither of the two directions when its code names what is inherited. -/
theorem decodeCursor_eq_inherited_iff :
    (∃ position, decodeCursor source cursor = .ok (.inherited, position)) ↔
      NamesInherited source cursor := by
  constructor
  · rintro ⟨position, accepted⟩
    obtain ⟨items, read, code, rest⟩ := decodeCursor_eq_ok_iff.mp accepted
    exact ⟨items, position.key, position.id, read, codes_eq_inherited_iff.mp code, rest⟩
  · rintro ⟨items, key, id, read, name, rest⟩
    exact ⟨⟨key, id⟩,
      decodeCursor_eq_ok_iff.mpr ⟨items, read, codes_eq_inherited_iff.mpr name, rest⟩⟩

/-! ## Validation -/

/-- A cursor is refused with `VALIDATION`, or its direction is one of the two. -/
def Declared (source : ListSource R K) (cursor : Text) : Prop :=
  decodeCursor source cursor = .error invalidCursor ∨
    ∃ direction position, decodeCursor source cursor = .ok (direction, position) ∧
      (direction = .after ∨ direction = .before)

theorem declared_iff : Declared source cursor ↔ ¬ NamesInherited source cursor := by
  rw [← decodeCursor_eq_inherited_iff]
  constructor
  · rintro (refused | ⟨direction, position, accepted, two⟩) ⟨position', inherited⟩
    · cases refused.symm.trans inherited
    · cases accepted.symm.trans inherited
      rcases two with same | same <;> cases same
  · intro direct
    cases decoded : decodeCursor source cursor with
    | error error => exact .inl (decoded.trans (congrArg Except.error (eq_invalidCursor decoded)))
    | ok found =>
      obtain ⟨direction, position⟩ := found
      refine .inr ⟨direction, position, decoded, ?_⟩
      cases direction with
      | after => exact .inl rfl
      | before => exact .inr rfl
      | inherited => exact absurd ⟨position, decoded⟩ direct

/-- A cursor is validated when it is refused or has one of the two directions, and, accepted,
is answered with rows in ascending order. -/
structure Validated (source : ListSource R K) (key : R → κ) (cursor : Text) : Prop where
  declared : Declared source cursor
  ascending : ∀ request found, request.cursor = some cursor →
    decodeCursor source cursor = .ok found →
    ∃ window, loadWindow source request = .ok window ∧ Keyset.Increasing key window.rows

/-- The pages of a source are in order: ascending after a position, and ascending in reverse
before it. -/
structure ListSource.Orders (source : ListSource R K) (key : R → κ) : Prop where
  page_after : ∀ start take skip, Keyset.Increasing key (source.page .after start take skip)
  page_before : ∀ start take skip,
    Keyset.Increasing key (source.page .before start take skip).reverse

/-- The rows of a window are those of its page, in reverse for `before`. -/
theorem rows_windowOf (limit : ℕ) (plan : Plan K) :
    (windowOf source limit plan).rows =
      if plan.direction = .before then
        (source.page plan.direction plan.start limit plan.skip).reverse
      else source.page plan.direction plan.start limit plan.skip := by
  unfold windowOf
  dsimp only
  split
  · rfl
  · rfl

/-- A cursor that is accepted is answered with the window at its position, when its key fits. -/
theorem loadWindow_of_decoded {request : ListRequest} (given : request.cursor = some cursor)
    {direction : Direction} {position : Position K}
    (decoded : decodeCursor source cursor = .ok (direction, position)) :
    loadWindow source request =
      if source.fits position.key = true then
        .ok (windowOf source request.limit ⟨direction, some position, 0⟩)
      else .error .internal := by
  simp only [loadWindow, planOf, given, decoded, Except.map, Except.bind, Option.all_some]

/-- **A cursor is validated** unless its code is inherited or its key does not fit. -/
theorem validated_iff {key : R → κ} (orders : source.Orders key) :
    Validated source key cursor ↔ ¬ NamesInherited source cursor ∧ ¬ KeyUnfit source cursor := by
  constructor
  · intro validated
    refine ⟨declared_iff.mp validated.declared, fun unfit => ?_⟩
    obtain ⟨direction, position, decoded, outside⟩ := keyUnfit_iff.mp unfit
    obtain ⟨window, loaded, -⟩ := validated.ascending ⟨1, some cursor, none⟩ _ rfl decoded
    rw [loadWindow_of_decoded rfl decoded, outside, if_neg Bool.false_ne_true] at loaded
    cases loaded
  · rintro ⟨direct, fit⟩
    refine ⟨declared_iff.mpr direct, ?_⟩
    rintro request ⟨direction, position⟩ given decoded
    have fits : source.fits position.key = true := by
      by_contra unfit
      exact fit (keyUnfit_iff.mpr ⟨direction, position, decoded, Bool.eq_false_iff.mpr unfit⟩)
    refine ⟨windowOf source request.limit ⟨direction, some position, 0⟩, ?_, ?_⟩
    · rw [loadWindow_of_decoded given decoded, if_pos fits]
    · rw [rows_windowOf]
      cases direction with
      | after => exact orders.page_after _ _ _
      | before => exact orders.page_before _ _ _
      | inherited => exact absurd (decodeCursor_eq_inherited_iff.mp ⟨position, decoded⟩) direct

end Decode

/-! ## The lists -/

section Keyset

variable {R κ : Type} [LinearOrder κ] {sortKey : R → κ} {table : List R}

theorem increasing_findMany_after (distinct : (table.map sortKey).Nodup) (passes : R → Bool)
    (take skip : ℕ) : Keyset.Increasing sortKey (findMany sortKey .after table passes take skip) := by
  have apart := distinct.sublist ((List.filter_sublist (p := passes)).map sortKey)
  rw [findMany, if_pos rfl]
  exact (Keyset.increasing_ascending apart).sublist
    ((List.take_sublist _ _).trans (List.drop_sublist _ _))

theorem increasing_findMany_before (distinct : (table.map sortKey).Nodup) (passes : R → Bool)
    (take skip : ℕ) :
    Keyset.Increasing sortKey (findMany sortKey .before table passes take skip).reverse := by
  have apart := distinct.sublist ((List.filter_sublist (p := passes)).map sortKey)
  have increasing := Keyset.increasing_ascending apart
  have ordered := Keyset.descending_eq (Keyset.perm_ascending (table.filter passes)) increasing
  rw [findMany, if_neg (fun same => by cases same), ordered, Keyset.Increasing, List.pairwise_reverse]
  exact (List.pairwise_reverse.mpr increasing).sublist
    ((List.take_sublist _ _).trans (List.drop_sublist _ _))

/-- What is read in an inherited direction is what is read before the position. -/
theorem findMany_inherited (passes : R → Bool) (take skip : ℕ) :
    findMany sortKey .inherited table passes take skip =
      findMany sortKey .before table passes take skip := rfl

end Keyset

theorem orders_ticketSource (table : TicketTable) (projectId : Text) (filter : TicketRow → Bool) :
    (ticketSource table projectId filter).Orders TicketRow.sortKey :=
  ⟨fun _ => increasing_findMany_after table.distinct _,
    fun _ => increasing_findMany_before table.distinct _⟩

theorem orders_featureSource (table : FeatureTable) (snapshotId : Text)
    (filter : FeatureRow → Bool) :
    (featureSource table snapshotId filter).Orders FeatureRow.sortKey :=
  ⟨fun _ => increasing_findMany_after table.distinct _,
    fun _ => increasing_findMany_before table.distinct _⟩

/-- **The window of an inherited direction** is that of `before`, in the wrong order. -/
theorem rows_inherited (table : TicketTable) (projectId : Text) (filter : TicketRow → Bool)
    (limit : ℕ) (position : Position Rank) :
    (windowOf (ticketSource table projectId filter) limit ⟨.inherited, some position, 0⟩).rows =
      (windowOf (ticketSource table projectId filter) limit
        ⟨.before, some position, 0⟩).rows.reverse := by
  rw [rows_windowOf, rows_windowOf, if_neg nofun, if_pos rfl, List.reverse_reverse]
  exact findMany_inherited _ _ _

/-- **A cursor is validated unless its code is inherited or its key does not fit**: for every list,
it is refused or has one of the two directions unless its code is inherited, and for the tickets and
the features it is then answered with rows in ascending order when its key fits the columns. -/
theorem cursor_validated_iff (cursor : Text) :
    (∀ (R K : Type) (source : ListSource R K),
      Declared source cursor ↔ ¬ NamesInherited source cursor) ∧
    (∀ (table : TicketTable) (projectId : Text) (filter : TicketRow → Bool),
      Validated (ticketSource table projectId filter) TicketRow.sortKey cursor ↔
        ¬ NamesInherited (ticketSource table projectId filter) cursor ∧
          ¬ KeyUnfit (ticketSource table projectId filter) cursor) ∧
    (∀ (table : FeatureTable) (snapshotId : Text) (filter : FeatureRow → Bool),
      Validated (featureSource table snapshotId filter) FeatureRow.sortKey cursor ↔
        ¬ NamesInherited (featureSource table snapshotId filter) cursor ∧
          ¬ KeyUnfit (featureSource table snapshotId filter) cursor) :=
  ⟨fun _ _ _ => declared_iff, fun _ _ _ => validated_iff (orders_ticketSource _ _ _),
    fun _ _ _ => validated_iff (orders_featureSource _ _ _)⟩

/-! ## A code that is inherited -/

def ticketId (last : CodeUnit) : Text := Text.lit "00000000-0000-7000-8000-00000000000" ++ [last]

theorem ticketId_uuids : isUuid (ticketId 0x31) = true ∧ isUuid (ticketId 0x32) = true ∧
    isUuid (ticketId 0x33) = true := by decide +kernel

theorem ticketId_one : isUuid (ticketId 0x31) = true := ticketId_uuids.1
theorem ticketId_two : isUuid (ticketId 0x32) = true := ticketId_uuids.2.1
theorem ticketId_three : isUuid (ticketId 0x33) = true := ticketId_uuids.2.2

def firstTicket : TicketRow := ⟨⟨_, ticketId_one⟩, Text.lit "p", Text.lit "TK-1", .high, false⟩
def secondTicket : TicketRow := ⟨⟨_, ticketId_two⟩, Text.lit "p", Text.lit "TK-2", .high, false⟩
def thirdTicket : TicketRow := ⟨⟨_, ticketId_three⟩, Text.lit "p", Text.lit "TK-3", .high, false⟩

def threeRows : List TicketRow := [firstTicket, secondTicket, thirdTicket]

theorem threeRows_nodup : (threeRows.map fun row => uuidKey row.id.text).Nodup ∧
    (threeRows.map fun row => (row.projectId, row.key)).Nodup := by decide +kernel

theorem threeRows_ids : (threeRows.map fun row => uuidKey row.id.text).Nodup := threeRows_nodup.1

theorem threeRows_keys : (threeRows.map fun row => (row.projectId, row.key)).Nodup :=
  threeRows_nodup.2

/-- Three tickets. -/
def threeTickets : TicketTable := ⟨threeRows, threeRows_ids, threeRows_keys⟩

theorem ticketsInOrder_threeTickets :
    ticketsInOrder threeTickets (fun _ => true) = [firstTicket, secondTicket] ++ thirdTicket :: [] := by
  apply Keyset.ascending_eq
  · rw [List.filter_true]
    rfl
  · unfold Keyset.Increasing
    decide +kernel

/-- What the cursor of a row would hold, with `toString` for its code. -/
def toStringItems : List Data :=
  [.text (Text.lit "toString"), .text (Text.lit "1:3"), .text (ticketId 0x33)]

def toStringText : Text :=
  Text.lit "[\"toString\",\"1:3\",\"00000000-0000-7000-8000-000000000003\"]"

def toStringCursor : Text := Text.base64url (Text.utf8 toStringText)

/-- A cursor of texts and numbers is read as it was written. -/
theorem cursorItems_base64url {t : Text} {items : List Data}
    (written : t = Json.stringify (.list items)) (ascii : Text.IsAscii t)
    (plain : ∀ item ∈ items, Json.Plain item) :
    cursorItems (Text.base64url (Text.utf8 t)) = some items := by
  have legible := (Json.Plain.list plain).legible
  rw [cursorItems, Text.base64_base64url, Text.ofUtf8_utf8 ascii, written,
    Json.parse_stringify legible]
  rfl

theorem cursorItems_toStringCursor : cursorItems toStringCursor = some toStringItems := by
  apply cursorItems_base64url (by decide +kernel) (isAscii_of_all (by decide +kernel))
  simp only [toStringItems, List.mem_cons, List.not_mem_nil, or_false, forall_eq_or_imp, forall_eq]
  exact ⟨.text _, .text _, .text _⟩

theorem decodeRank_thirdTicket :
    decodeRank (some (.text (Text.lit "1:3"))) = some (rankOf thirdTicket) := by
  have priority : thirdTicket.priorityRank = some 1 := rfl
  have number : thirdTicket.keyNumber = some 3 := by decide +kernel
  rw [rankOf, priority, number]
  exact @decodeRank_encode 1 3 (by norm_num) (by norm_num)

/-! ## A key that does not fit -/

/-- What a cursor of features would hold, with a number past the last one of an `INTEGER`. -/
def unfitItems : List Data := [.text (Text.lit "a"), .number (.finite 2147483648), .text (ticketId 0x33)]

def unfitCursor : Text :=
  Text.base64url (Text.utf8
    (Text.lit "[\"a\",2147483648,\"00000000-0000-7000-8000-000000000003\"]"))

theorem cursorItems_unfitCursor : cursorItems unfitCursor = some unfitItems := by
  apply cursorItems_base64url (by decide +kernel) (isAscii_of_all (by decide +kernel))
  simp only [unfitItems, List.mem_cons, List.not_mem_nil, or_false, forall_eq_or_imp, forall_eq]
  exact ⟨.text _, @Json.Plain.number 2147483648 (by norm_num), .text _⟩

/-- No feature. -/
def noFeatures : FeatureTable := ⟨[], .nil, .nil⟩

/-- **The cursor `toString` is accepted**, and the two tickets before its position are shown with
the second one first; and a number past the last one of an `INTEGER` is accepted, and its query
fails. -/
theorem toStringCursor_accepted :
    (∃ position window, decodeCursor (ticketSource threeTickets (Text.lit "p") fun _ => true)
        toStringCursor = .ok (.inherited, position) ∧
      loadWindow (ticketSource threeTickets (Text.lit "p") fun _ => true)
        ⟨10, some toStringCursor, none⟩ = .ok window ∧
      window.rows = [secondTicket, firstTicket] ∧
      ¬ Validated (ticketSource threeTickets (Text.lit "p") fun _ => true) TicketRow.sortKey
        toStringCursor) ∧
    ∃ position, decodeCursor (featureSource noFeatures (Text.lit "s") fun _ => true) unfitCursor =
        .ok (.after, position) ∧
      loadWindow (featureSource noFeatures (Text.lit "s") fun _ => true)
        ⟨10, some unfitCursor, none⟩ = .error .internal ∧
      ¬ Validated (featureSource noFeatures (Text.lit "s") fun _ => true) FeatureRow.sortKey
        unfitCursor := by
  constructor
  · have name : codes (Text.lit "toString") = some .inherited := by decide
    have decoded : decodeCursor (ticketSource threeTickets (Text.lit "p") fun _ => true)
        toStringCursor = .ok (.inherited, ⟨rankOf thirdTicket, ticketId 0x33⟩) :=
      decodeCursor_eq_ok_iff.mpr
        ⟨_, cursorItems_toStringCursor, name, decodeRank_thirdTicket, rfl, ticketId_three⟩
    have gives := ticketSource_gives threeTickets (Text.lit "p") fun _ => true
    have fits := gives.fits thirdTicket
    refine ⟨_, _, decoded, (loadWindow_of_decoded rfl decoded).trans (if_pos fits), ?_, ?_⟩
    · rw [rows_inherited, rows_windowOf, if_pos rfl, List.reverse_reverse]
      exact gives.page_before ticketsInOrder_threeTickets 10 0
    · rw [validated_iff (orders_ticketSource _ _ _)]
      exact fun both => both.1 (decodeCursor_eq_inherited_iff.mp ⟨_, decoded⟩)
  · have name : codes (Text.lit "a") = some .after := by decide
    have number : decodeNumber (some (.number (.finite 2147483648))) =
        some (.finite 2147483648) := by decide +kernel
    have unfit : fitsInteger (.finite 2147483648) = false := by decide +kernel
    have decoded : decodeCursor (featureSource noFeatures (Text.lit "s") fun _ => true)
        unfitCursor = .ok (.after, ⟨.finite 2147483648, ticketId 0x33⟩) :=
      decodeCursor_eq_ok_iff.mpr
        ⟨_, cursorItems_unfitCursor, name, number, rfl, ticketId_three⟩
    have refused : ¬ (featureSource noFeatures (Text.lit "s") fun _ => true).fits
        (.finite 2147483648) = true := Bool.eq_false_iff.mp unfit
    refine ⟨_, decoded, (loadWindow_of_decoded rfl decoded).trans (if_neg refused), ?_⟩
    rw [validated_iff (orders_featureSource _ _ _)]
    exact fun both => both.2 (keyUnfit_iff.mpr ⟨_, _, decoded, unfit⟩)

end Koklo.Lists
