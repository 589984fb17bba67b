import Koklo.Foundations.Decoding
import Koklo.Foundations.Json
import Koklo.Foundations.NumberText

/-!
# JSON documents

`JSON.stringify` writes data without white space; `JSON.parse` reads a text by recursive
descent and refuses what is left after the value. The descent is bounded by the length of
the text: every value that is read uses up a part of it. A record keeps the order in which
its names are first written.
-/

set_option autoImplicit false

namespace Koklo.Foundations.Json

open Text

/-! ## Writing -/

/-- A number in a document: what is not finite is written `null`. -/
def numberText : Number → Text
  | .posInf | .negInf | .nan => lit "null"
  | number => number.toText

mutual

/-- `JSON.stringify` of data. -/
def stringify : Data → Text
  | .null => lit "null"
  | .bool true => lit "true"
  | .bool false => lit "false"
  | .number number => numberText number
  | .text t => jsonString t
  | .list items => 0x5B :: stringifyItems items ++ [0x5D]
  | .record fields => 0x7B :: stringifyFields fields ++ [0x7D]

/-- Items, with commas between them. -/
def stringifyItems : List Data → Text
  | [] => []
  | [data] => stringify data
  | data :: items => stringify data ++ 0x2C :: stringifyItems items

/-- Names and values, with commas between the fields. -/
def stringifyFields : List (Text × Data) → Text
  | [] => []
  | [(name, data)] => jsonString name ++ 0x3A :: stringify data
  | (name, data) :: fields =>
      jsonString name ++ 0x3A :: (stringify data ++ 0x2C :: stringifyFields fields)

end

/-! ## Reading -/

/-- White space between the tokens. -/
def isBlank (u : CodeUnit) : Bool := u == 0x09 || u == 0x0A || u == 0x0D || u == 0x20

def skipBlanks (t : Text) : Text := t.dropWhile isBlank

/-- The value of a hexadecimal digit. -/
def hexValue (u : CodeUnit) : Option ℕ :=
  if 0x30 ≤ u ∧ u ≤ 0x39 then some (u.val - 0x30)
  else if 0x61 ≤ u ∧ u ≤ 0x66 then some (u.val - 0x57)
  else if 0x41 ≤ u ∧ u ≤ 0x46 then some (u.val - 0x37)
  else none

/-- The code unit of four hexadecimal digits. -/
def hexUnit (a b c d : CodeUnit) : Option CodeUnit := do
  let a ← hexValue a
  let b ← hexValue b
  let c ← hexValue c
  let d ← hexValue d
  some (Fin.ofNat _ (((a * 0x10 + b) * 0x10 + c) * 0x10 + d))

/-- The code unit of an escape of one letter. -/
def escaped (u : CodeUnit) : Option CodeUnit :=
  if u = 0x22 ∨ u = 0x5C ∨ u = 0x2F then some u
  else if u = 0x62 then some 0x08
  else if u = 0x66 then some 0x0C
  else if u = 0x6E then some 0x0A
  else if u = 0x72 then some 0x0D
  else if u = 0x74 then some 0x09
  else none

/-- A unit before what was read. -/
def push (u : CodeUnit) (read : Text × Text) : Text × Text := (u :: read.1, read.2)

/-- A string after its opening quote, and what follows its closing quote. -/
def stringBody : Text → Option (Text × Text)
  | [] => none
  | u :: rest =>
    if u = 0x22 then some ([], rest)
    else if u = 0x5C then
      match rest with
      | [] => none
      | e :: rest =>
        if e = 0x75 then
          match rest with
          | a :: b :: c :: d :: rest =>
            (hexUnit a b c d).bind fun unit => (stringBody rest).map (push unit)
          | _ => none
        else (escaped e).bind fun unit => (stringBody rest).map (push unit)
    else if u < 0x20 then none
    else (stringBody rest).map (push u)

/-- A sign, when there is one. -/
def sign (mark : CodeUnit) (t : Text) : Bool × Text :=
  if t.head? = some mark then (true, t.tail) else (false, t)

/-- One digit at least. -/
def digits (t : Text) : Option (Text × Text) :=
  let run := t.takeWhile isDigit
  if run = [] then none else some (run, t.dropWhile isDigit)

/-- The digits after a decimal point, when there is one. -/
def fraction (t : Text) : Option (Text × Text) :=
  if t.head? = some 0x2E then digits t.tail else some ([], t)

/-- The exponent, when there is one. -/
def exponent (t : Text) : Option (ℤ × Text) :=
  if t.head? = some 0x65 ∨ t.head? = some 0x45 then
    let negative := (sign 0x2D t.tail).1
    let rest := if negative then (sign 0x2D t.tail).2 else (sign 0x2B t.tail).2
    (digits rest).map fun read =>
      (if negative then -(decimal read.1 : ℤ) else decimal read.1, read.2)
  else some (0, t)

/-- A number and what follows it. -/
def number (t : Text) : Option (Number × Text) := do
  let (negative, t) := sign 0x2D t
  let (whole, t) ← digits t
  if whole.head? = some 0x30 ∧ whole.length ≠ 1 then none
  else
    let (decimals, t) ← fraction t
    let (power, t) ← exponent t
    let magnitude :=
      Number.nearest (decimal (whole ++ decimals) * 10 ^ (power - decimals.length))
    some (if negative then magnitude.neg else magnitude, t)

mutual

/-- A value and what follows it. -/
def value : ℕ → Text → Option (Data × Text)
  | 0, _ => none
  | fuel + 1, t =>
    let t := skipBlanks t
    if t.head? = some 0x22 then (stringBody t.tail).map fun read => (.text read.1, read.2)
    else if t.head? = some 0x5B then
      let rest := skipBlanks t.tail
      if rest.head? = some 0x5D then some (.list [], rest.tail)
      else (items fuel rest).map fun read => (.list read.1, read.2)
    else if t.head? = some 0x7B then
      let rest := skipBlanks t.tail
      if rest.head? = some 0x7D then some (.record [], rest.tail)
      else (members fuel rest).map fun read => (.record (OrderedMap.ofEntries read.1), read.2)
    else if lit "null" <+: t then some (.null, t.drop 4)
    else if lit "true" <+: t then some (.bool true, t.drop 4)
    else if lit "false" <+: t then some (.bool false, t.drop 5)
    else (number t).map fun read => (.number read.1, read.2)

/-- The items of a list to its closing bracket. -/
def items : ℕ → Text → Option (List Data × Text)
  | 0, _ => none
  | fuel + 1, t =>
    (value fuel t).bind fun (data, rest) =>
      let rest := skipBlanks rest
      if rest.head? = some 0x2C then
        (items fuel rest.tail).map fun read => (data :: read.1, read.2)
      else if rest.head? = some 0x5D then some ([data], rest.tail)
      else none

/-- The fields of a record to its closing brace. -/
def members : ℕ → Text → Option (List (Text × Data) × Text)
  | 0, _ => none
  | fuel + 1, t =>
    let t := skipBlanks t
    if t.head? = some 0x22 then
      (stringBody t.tail).bind fun (name, rest) =>
        let rest := skipBlanks rest
        if rest.head? = some 0x3A then
          (value fuel rest.tail).bind fun (data, rest) =>
            let rest := skipBlanks rest
            if rest.head? = some 0x2C then
              (members fuel rest.tail).map fun read => ((name, data) :: read.1, read.2)
            else if rest.head? = some 0x7D then some ([(name, data)], rest.tail)
            else none
        else none
    else none

end

/-- `JSON.parse`. -/
def parse (t : Text) : Option Data :=
  (value (2 * t.length + 2) t).bind fun (data, rest) =>
    if skipBlanks rest = [] then some data else none

end Koklo.Foundations.Json
