import Koklo.Foundations.CodePoints
import Koklo.Foundations.JsonText
import Koklo.Foundations.Uuid

/-!
# Long lists

A list is ordered by a key and an identifier. A page is read from a position on, which a
cursor names, in one direction or the other, or from a rank, that of the row that `around`
designates. The engine knows neither the tables nor the filters: a list gives it a source,
whose reads see one state of the data. The columns that a key is compared with are integers
of the database: a query with a key that does not fit them fails.
-/

set_option autoImplicit false

namespace Koklo.Lists

open Koklo.Foundations

/-- The errors of the API that a list can answer. -/
inductive ApiError where
  | notFound
  | validation (field message : Text)
  /-- A query has failed. -/
  | internal
deriving DecidableEq

/-- The directions, and what `CODES` inherits, which is neither of them. -/
inductive Direction where
  | after
  | before
  | inherited
deriving DecidableEq

/-- The position of a row: its sort key and its identifier. -/
structure Position (K : Type) where
  key : K
  id : Text

/-- What a client asks for: a page from a cursor, or around an item. -/
structure ListRequest where
  limit : ℕ
  cursor : Option Text
  around : Option Text

/-- What the engine asks of a list, over one state of the data. -/
structure ListSource (R K : Type) where
  /-- The number of rows of the filtered list. -/
  total : ℕ
  /-- `take` rows after `skip` rows, from a position, excluded, or from the start. -/
  page : Direction → Option (Position K) → (take skip : ℕ) → List R
  /-- The key fits the columns that it is compared with. -/
  fits : K → Bool
  /-- The number of rows of the filtered list strictly before a position. -/
  countBefore : Position K → ℕ
  /-- The row that `around` designates, and whether it passes the filters. -/
  locate : Text → Option (Position K × Bool)
  positionOf : R → Position K
  encodeKey : K → Data
  decodeKey : Option Data → Option K

/-- What it is answered: the rows, where they are in the list, and the cursors beside them. -/
structure ListWindow (R : Type) where
  rows : List R
  offset : ℕ
  total : ℕ
  nextCursor : Option Text
  previousCursor : Option Text

/-! ## Cursors -/

/-- What every object inherits. -/
def objectPrototype : List Text :=
  ["constructor", "__defineGetter__", "__defineSetter__", "hasOwnProperty", "__lookupGetter__",
    "__lookupSetter__", "isPrototypeOf", "propertyIsEnumerable", "toString", "valueOf",
    "__proto__", "toLocaleString"].map Text.lit

/-- `CODES`. -/
def codes (name : Text) : Option Direction :=
  if name = Text.lit "a" then some .after
  else if name = Text.lit "b" then some .before
  else if name ∈ objectPrototype then some .inherited
  else none

mutual

/-- The property that data names. -/
def propertyName : Data → Text
  | .null => Text.lit "null"
  | .bool true => Text.lit "true"
  | .bool false => Text.lit "false"
  | .number number => number.toText
  | .text t => t
  | .record _ => Text.lit "[object Object]"
  | .list items => joinedNames items

/-- The names of items, with commas between them; `null` has none. -/
def joinedNames : List Data → Text
  | [] => []
  | [.null] => []
  | [data] => propertyName data
  | .null :: rest => 0x2C :: joinedNames rest
  | data :: rest => propertyName data ++ 0x2C :: joinedNames rest

end

/-- What an array pattern takes from data, when it can be iterated. -/
def elements : Data → Option (List Data)
  | .list items => some items
  | .text t => some ((Text.codePoints t).map Data.text)
  | _ => none

section Engine

variable {R K : Type} (source : ListSource R K)

/-- The cursor of what comes after a row, or before it. -/
def encodeCursor (direction : Direction) (row : R) : Text :=
  let position := source.positionOf row
  let code := if direction = .after then Text.lit "a" else Text.lit "b"
  Text.base64url
    (Text.utf8 (Json.stringify (.list [.text code, source.encodeKey position.key,
      .text position.id])))

/-- The error of a cursor that is not read. -/
def invalidCursor : ApiError := .validation (Text.lit "cursor") (Text.lit "Curseur invalide")

/-- A cursor that this list has issued; `VALIDATION` for every other. -/
def decodeCursor (cursor : Text) : Except ApiError (Direction × Position K) :=
  match (Json.parse (Text.ofUtf8 (Text.base64 cursor))).bind elements with
  | none => .error invalidCursor
  | some items =>
    let direction := codes ((items[0]?.map propertyName).getD (Text.lit "undefined"))
    let key := source.decodeKey items[1]?
    let id : Option Data := items[2]?
    match direction, key, id with
    | some direction, some key, some (.text id) =>
      if isUuid id then .ok (direction, ⟨key, id⟩) else .error invalidCursor
    | _, _, _ => .error invalidCursor

/-- Where a page starts. -/
structure Plan (K : Type) where
  direction : Direction
  start : Option (Position K)
  skip : ℕ

/-- After a cursor, on the page of `around`, aligned on `limit`, or at the start. -/
def planOf (request : ListRequest) : Except ApiError (Plan K) :=
  match request.cursor with
  | some cursor =>
    (decodeCursor source cursor).map fun (direction, position) => ⟨direction, some position, 0⟩
  | none =>
    match request.around with
    | none => .ok ⟨.after, none, 0⟩
    | some around =>
      match source.locate around with
      | none => .error .notFound
      | some (position, true) =>
        let rank := source.countBefore position
        .ok ⟨.after, none, rank - rank % request.limit⟩
      | some (_, false) => .ok ⟨.after, none, 0⟩

/-- The window of a plan. -/
def windowOf (limit : ℕ) (plan : Plan K) : ListWindow R :=
  let fetched := source.page plan.direction plan.start limit plan.skip
  let total := source.total
  let rows := if plan.direction = .before then fetched.reverse else fetched
  match rows.head?, rows.getLast? with
  | some first, some last =>
    let offset :=
      if plan.start.isNone then plan.skip else source.countBefore (source.positionOf first)
    { rows, offset, total
      nextCursor :=
        if offset + rows.length < total then some (encodeCursor source .after last) else none
      previousCursor := if 0 < offset then some (encodeCursor source .before first) else none }
  | _, _ =>
    { rows, offset := if plan.start.isNone then 0 else total, total
      nextCursor := none, previousCursor := none }

/-- A page of the list, with its rank, the total and the cursors of both sides. -/
def loadWindow (request : ListRequest) : Except ApiError (ListWindow R) :=
  (planOf source request).bind fun plan =>
    if plan.start.all fun position => source.fits position.key then
      .ok (windowOf source request.limit plan)
    else .error .internal

end Engine

end Koklo.Lists
