import Koklo.Schema.Canonical
import Koklo.Schema.FeatureMarkdown

/-!
# Canonical text of the values of the language

The canonical writer takes any value of the language. Properties that are `undefined` are left out,
the negative zero is written as zero, and what JSON does not have (numbers that are not finite,
functions, objects that are not plain, `undefined` elsewhere) is refused with a pointer to it.

On JSON values it writes the canonical document of the data that the value stands for
(`canonicalize_eq_ok`), so it is a complete invariant of JSON values: two of them have one text
exactly when they are equal up to the order of their keys, and the text is read back as an equal
value, which has the same text again (`canonicalize_complete`).
-/

set_option autoImplicit false

namespace Koklo.Schema.CanonicalJson

open Koklo.Foundations Koklo.Foundations.Text Koklo.Foundations.Json
open Koklo.Schema.Canonical (container fieldText)

/-- A value of the language. The fields of an object are its own enumerable properties, in their
order; a value of another type is known by its `typeof`. -/
inductive JsValue where
  | undefined
  | null
  | bool (value : Bool)
  | number (value : Number)
  | string (value : Text)
  | array (items : List JsValue)
  | object (fields : List (Text × JsValue))
  | notPlain
  | other (typeOf : Text)

def JsValue.isUndefined : JsValue → Bool
  | .undefined => true
  | _ => false

/-! ## The writer -/

/-- `CanonicalizeError`: `path` is the pointer of the value that cannot be written. -/
structure CanonicalizeError where
  message : Text
  path : Text
deriving DecidableEq

def canonicalizeError (message path : Text) : CanonicalizeError :=
  ⟨message ++ lit " (" ++ (if path = [] then lit "racine" else path) ++ lit ")", path⟩

def unserializable (typeOf path : Text) : CanonicalizeError :=
  canonicalizeError (lit "type non sérialisable (" ++ typeOf ++ lit ")") path

/-- The pointer of an item or of a property. -/
def child (path key : Text) : Text := path ++ lit "/" ++ escapePointerSegment key

/-- A field whose value is not `undefined`. -/
def presentField {α : Type} (field : Text × Option α) : Option (Text × α) :=
  field.2.map fun value => (field.1, value)

/-- The line of a field, once its value is written. -/
def fieldPart (field : Text × Except CanonicalizeError Text) : Except CanonicalizeError Text :=
  field.2.map fun text => fieldText (field.1, text)

mutual

/-- The canonical text of a value, or what cannot be written. -/
def write (path : Text) (depth : ℕ) : JsValue → Except CanonicalizeError Text
  | .undefined => .error (unserializable (lit "undefined") path)
  | .null => .ok (lit "null")
  | .bool true => .ok (lit "true")
  | .bool false => .ok (lit "false")
  | .number number =>
    if number.value?.isSome then .ok (numberText number)
    else .error (canonicalizeError (lit "nombre non fini") path)
  | .string t => .ok (jsonString t)
  | .array items => (writeItems path (depth + 1) 0 items).map (container 0x5B 0x5D depth)
  | .object fields =>
    (((sortWith byName (writeFields path (depth + 1) fields)).filterMap presentField).mapM
      fieldPart).map (container 0x7B 0x7D depth)
  | .notPlain => .error (canonicalizeError (lit "objet non simple") path)
  | .other typeOf => .error (unserializable typeOf path)

/-- The items of an array, from an index on. -/
def writeItems (path : Text) (depth index : ℕ) :
    List JsValue → Except CanonicalizeError (List Text)
  | [] => .ok []
  | item :: items => do
    let text ← write (child path (ofNat index)) depth item
    let texts ← writeItems path depth (index + 1) items
    .ok (text :: texts)

/-- What is written of each field, unless it is `undefined`. -/
def writeFields (path : Text) (depth : ℕ) :
    List (Text × JsValue) → List (Text × Option (Except CanonicalizeError Text))
  | [] => []
  | (name, value) :: fields =>
    (name, if value.isUndefined then none else some (write (child path name) depth value)) ::
      writeFields path depth fields

end

/-- `canonicalize`. -/
def canonicalize (value : JsValue) : Except CanonicalizeError Text :=
  (write [] 0 value).map (· ++ [newline])

/-! ## JSON values -/

/-- A JSON value: its numbers are finite doubles, and only a property can be `undefined`. -/
inductive JsonValue : JsValue → Prop
  | null : JsonValue .null
  | bool (b : Bool) : JsonValue (.bool b)
  | number {n : Number} {q : ℚ} (value : n.value? = some q) (double : Number.Double q) :
      JsonValue (.number n)
  | string (t : Text) : JsonValue (.string t)
  | array {items : List JsValue} (all : ∀ item ∈ items, JsonValue item) : JsonValue (.array items)
  | object {fields : List (Text × JsValue)} (distinct : (fields.map Prod.fst).Nodup)
      (all : ∀ field ∈ fields, field.2 ≠ .undefined → JsonValue field.2) :
      JsonValue (.object fields)

/-- A property that is there and is not `undefined`. -/
def Present (fields : List (Text × JsValue)) (name : Text) : Prop :=
  ∃ value, (name, value) ∈ fields ∧ value ≠ .undefined

/-- Equal up to the order of the keys: the zeros are one value, and a property that is `undefined`
is not there. -/
inductive SameJson : JsValue → JsValue → Prop
  | null : SameJson .null .null
  | bool (b : Bool) : SameJson (.bool b) (.bool b)
  | number {n m : Number} {q : ℚ} (value : n.value? = some q) (value' : m.value? = some q) :
      SameJson (.number n) (.number m)
  | string (t : Text) : SameJson (.string t) (.string t)
  | array {items others : List JsValue} (length : items.length = others.length)
      (each : ∀ (i : ℕ) (item other : JsValue), items[i]? = some item → others[i]? = some other →
        SameJson item other) : SameJson (.array items) (.array others)
  | object {fields others : List (Text × JsValue)}
      (names : ∀ name, Present fields name ↔ Present others name)
      (each : ∀ (name : Text) (value other : JsValue), (name, value) ∈ fields →
        (name, other) ∈ others → value ≠ .undefined → other ≠ .undefined → SameJson value other) :
      SameJson (.object fields) (.object others)

/-! ## The data of a value -/

mutual

/-- The data that a JSON value stands for. -/
def toData : JsValue → Data
  | .bool b => .bool b
  | .number .negZero => .number (.finite 0)
  | .number n => .number n
  | .string t => .text t
  | .array items => .list (toItems items)
  | .object fields => .record (toFields fields)
  | _ => .null

def toItems : List JsValue → List Data
  | [] => []
  | item :: items => toData item :: toItems items

def toFields : List (Text × JsValue) → List (Text × Data)
  | [] => []
  | (name, value) :: fields =>
    if value.isUndefined then toFields fields else (name, toData value) :: toFields fields

end

mutual

/-- The value that a document is read as. -/
def ofData : Data → JsValue
  | .null => .null
  | .bool b => .bool b
  | .number n => .number n
  | .text t => .string t
  | .list items => .array (ofItems items)
  | .record fields => .object (ofFields fields)

def ofItems : List Data → List JsValue
  | [] => []
  | data :: items => ofData data :: ofItems items

def ofFields : List (Text × Data) → List (Text × JsValue)
  | [] => []
  | (name, data) :: fields => (name, ofData data) :: ofFields fields

end

/-- `JSON.parse`, which answers a value. -/
def parseValue (t : Text) : Option JsValue := (parse t).map ofData

/-! ### Their items and fields -/

theorem isUndefined_eq_true {value : JsValue} : value.isUndefined = true ↔ value = .undefined := by
  cases value <;> simp [JsValue.isUndefined]

def isPresent (field : Text × JsValue) : Bool := !field.2.isUndefined

theorem isPresent_eq_true {field : Text × JsValue} :
    isPresent field = true ↔ field.2 ≠ .undefined := by
  rw [isPresent, Bool.not_eq_true', ← Bool.not_eq_true, isUndefined_eq_true]

theorem toItems_eq_map (items : List JsValue) : toItems items = items.map toData := by
  induction items with
  | nil => rfl
  | cons item items ih => rw [toItems, ih, List.map_cons]

theorem toFields_eq_map (fields : List (Text × JsValue)) :
    toFields fields = (fields.filter isPresent).map fun field => (field.1, toData field.2) := by
  induction fields with
  | nil => rfl
  | cons field fields ih =>
    by_cases absent : field.2.isUndefined = true
    · rw [toFields, if_pos absent, ih, List.filter_cons_of_neg (by simp [isPresent, absent])]
    · rw [toFields, if_neg absent, ih, List.filter_cons_of_pos (by simp [isPresent, absent]),
        List.map_cons]

theorem ofItems_eq_map (items : List Data) : ofItems items = items.map ofData := by
  induction items with
  | nil => rfl
  | cons data items ih => rw [ofItems, ih, List.map_cons]

theorem ofFields_eq_map (fields : List (Text × Data)) :
    ofFields fields = fields.map fun field => (field.1, ofData field.2) := by
  induction fields with
  | nil => rfl
  | cons field fields ih => rw [ofFields, ih, List.map_cons]

theorem mem_toFields {fields : List (Text × JsValue)} {name : Text} {data : Data} :
    (name, data) ∈ toFields fields ↔
      ∃ value, (name, value) ∈ fields ∧ value ≠ .undefined ∧ toData value = data := by
  rw [toFields_eq_map, List.mem_map]
  constructor
  · rintro ⟨⟨name', value⟩, member, same⟩
    obtain ⟨rfl, rfl⟩ := Prod.ext_iff.mp same
    obtain ⟨inside, present⟩ := List.mem_filter.mp member
    exact ⟨value, inside, isPresent_eq_true.mp present, rfl⟩
  · rintro ⟨value, inside, present, rfl⟩
    exact ⟨(name, value), List.mem_filter.mpr ⟨inside, isPresent_eq_true.mpr present⟩, rfl⟩

/-- The names of the data are those of the properties that are there. -/
theorem mem_names_toFields {fields : List (Text × JsValue)} {name : Text} :
    name ∈ (toFields fields).map Prod.fst ↔ Present fields name := by
  rw [List.mem_map]
  constructor
  · rintro ⟨⟨_, data⟩, member, rfl⟩
    obtain ⟨value, inside, present, _⟩ := mem_toFields.mp member
    exact ⟨value, inside, present⟩
  · rintro ⟨value, inside, present⟩
    exact ⟨(name, toData value), mem_toFields.mpr ⟨value, inside, present, rfl⟩, rfl⟩

theorem distinct_toFields {fields : List (Text × JsValue)}
    (distinct : (fields.map Prod.fst).Nodup) : ((toFields fields).map Prod.fst).Nodup := by
  have names : (toFields fields).map Prod.fst = (fields.filter isPresent).map Prod.fst := by
    rw [toFields_eq_map, List.map_map]
    rfl
  rw [names]
  exact distinct.sublist (List.filter_sublist.map Prod.fst)

/-! ### Their numbers -/

theorem toData_number {n : Number} {q : ℚ} (value : n.value? = some q) :
    toData (.number n) = .number (.finite q) := by
  cases n with
  | finite r =>
    cases value
    rfl
  | negZero =>
    cases value
    rfl
  | posInf | negInf | nan => cases value

/-- The zeros are written alike. -/
theorem numberText_eq {n : Number} {q : ℚ} (value : n.value? = some q) :
    numberText n = numberText (.finite q) := by
  cases n with
  | finite r =>
    cases value
    rfl
  | negZero =>
    cases value
    rfl
  | posInf | negInf | nan => cases value

/-- The data of a JSON value is read back from its text. -/
theorem legible_toData {value : JsValue} (json : JsonValue value) : Legible (toData value) := by
  induction json with
  | null => exact .null
  | bool b => exact .bool b
  | number finite double =>
    rw [toData_number finite]
    exact .number double
  | string t => exact .text t
  | @array items _ ih =>
    rw [toData, toItems_eq_map]
    refine .list fun data member => ?_
    obtain ⟨item, inside, rfl⟩ := List.mem_map.mp member
    exact ih item inside
  | @object fields distinct _ ih =>
    refine .record (distinct_toFields distinct) ?_
    rintro ⟨name, data⟩ member
    obtain ⟨value, inside, present, rfl⟩ := mem_toFields.mp member
    exact ih (name, value) inside present

/-! ## What is written -/

theorem writeFields_eq_map (path : Text) (depth : ℕ) (fields : List (Text × JsValue)) :
    writeFields path depth fields = fields.map fun field =>
      (field.1, if field.2.isUndefined then none
        else some (write (child path field.1) depth field.2)) := by
  induction fields with
  | nil => rfl
  | cons field fields ih => rw [writeFields, ih, List.map_cons]

theorem filterMap_presentField {α : Type} (f : JsValue → α) (fields : List (Text × JsValue)) :
    (fields.map fun field =>
        (field.1, if field.2.isUndefined then none else some (f field.2))).filterMap presentField =
      (fields.filter isPresent).map fun field => (field.1, f field.2) := by
  induction fields with
  | nil => rfl
  | cons field fields ih =>
    by_cases absent : field.2.isUndefined = true
    · rw [List.map_cons, if_pos absent, List.filterMap_cons_none rfl, ih,
        List.filter_cons_of_neg (by simp [isPresent, absent])]
    · have here : presentField (field.1, some (f field.2)) = some (field.1, f field.2) := rfl
      rw [List.map_cons, if_neg absent, List.filterMap_cons_some here, ih,
        List.filter_cons_of_pos (by simp [isPresent, absent]), List.map_cons]

theorem writeItems_eq_ok {depth : ℕ} {items : List JsValue}
    (all : ∀ item ∈ items, ∀ path, write path depth item = .ok (Canonical.write depth (toData item)))
    (path : Text) : ∀ index, writeItems path depth index items =
      .ok (Canonical.writeItems depth (toItems items)) := by
  induction items with
  | nil => exact fun _ => rfl
  | cons item items ih =>
    intro index
    obtain ⟨first, others⟩ := List.forall_mem_cons.mp all
    rw [writeItems, first, ih others]
    rfl

/-- **A JSON value is written** as the data that it stands for. -/
theorem write_eq_ok {value : JsValue} (json : JsonValue value) :
    ∀ path depth, write path depth value = .ok (Canonical.write depth (toData value)) := by
  induction json with
  | null => exact fun _ _ => rfl
  | bool b =>
    intro path depth
    cases b <;> rfl
  | number finite double =>
    intro path depth
    rw [write, finite, toData_number finite, numberText_eq finite]
    rfl
  | string t => exact fun _ _ => rfl
  | @array items _ ih =>
    intro path depth
    rw [write, writeItems_eq_ok fun item member path => ih item member path (depth + 1)]
    rfl
  | @object fields distinct _ ih =>
    intro path depth
    have written : writeFields path (depth + 1) fields = fields.map fun field =>
        (field.1, if field.2.isUndefined then none
          else some (Except.ok (Canonical.write (depth + 1) (toData field.2)))) := by
      rw [writeFields_eq_map]
      refine List.map_congr_left fun field member => ?_
      by_cases absent : field.2.isUndefined = true
      · rw [if_pos absent, if_pos absent]
      · rw [if_neg absent, if_neg absent,
          ih field member (mt isUndefined_eq_true.mpr absent) _ (depth + 1)]
    have moved := sort_fields_map (fun value : JsValue => if value.isUndefined then none
      else some (Except.ok (Canonical.write (depth + 1) (toData value)) :
        Except CanonicalizeError Text)) fields
    have parts : ((sortWith byName (writeFields path (depth + 1) fields)).filterMap
        presentField).mapM fieldPart = .ok ((sortWith byName (fields.filter isPresent)).map
          fun field => fieldText (field.1, Canonical.write (depth + 1) (toData field.2))) := by
      have kept := filterMap_presentField (fun value : JsValue =>
        (Except.ok (Canonical.write (depth + 1) (toData value)) : Except CanonicalizeError Text))
        (sortWith byName fields)
      rw [written, moved, kept, sortWith_filter byName_le_zero_iff]
      exact mapM_map_eq_ok fun _ _ => rfl
    have moved' := sort_fields_map (fun value : JsValue =>
      Canonical.write (depth + 1) (toData value)) (fields.filter isPresent)
    have texts : Canonical.writeFields (depth + 1) (toFields fields) =
        (fields.filter isPresent).map fun field =>
          (field.1, Canonical.write (depth + 1) (toData field.2)) := by
      rw [Canonical.writeFields_eq_map, toFields_eq_map, List.map_map]
      rfl
    rw [write, parts, toData, Canonical.write, texts, moved', List.map_map]
    rfl

/-- **The canonical text of a JSON value** is that of its data. -/
theorem canonicalize_eq_ok {value : JsValue} (json : JsonValue value) {t : Text} :
    canonicalize value = .ok t ↔ Canonical.canonicalize (toData value) = some t := by
  rw [canonicalize, write_eq_ok json, Canonical.canonicalize_of_legible (legible_toData json)]
  constructor
  · intro same
    cases same
    rfl
  · intro same
    cases same
    rfl

/-! ## Equal values have equal data -/

theorem SameJson.toData {value other : JsValue} (same : SameJson value other) :
    SameValue (toData value) (toData other) := by
  induction same with
  | null => exact .null
  | bool b => exact .bool b
  | number finite finite' =>
    rw [toData_number finite, toData_number finite']
    exact .number _
  | string t => exact .text t
  | @array items others length _ ih =>
    rw [CanonicalJson.toData, CanonicalJson.toData, toItems_eq_map, toItems_eq_map]
    refine .list (by rw [List.length_map, List.length_map, length]) ?_
    intro i data data' known known'
    rw [List.getElem?_map, Option.map_eq_some_iff] at known known'
    obtain ⟨item, at_, rfl⟩ := known
    obtain ⟨other, at_', rfl⟩ := known'
    exact ih i item other at_ at_'
  | object names _ ih =>
    refine .record (fun name => ?_) fun name data data' known known' => ?_
    · rw [mem_names_toFields, mem_names_toFields]
      exact names name
    · obtain ⟨value, inside, present, rfl⟩ := mem_toFields.mp known
      obtain ⟨other, inside', present', rfl⟩ := mem_toFields.mp known'
      exact ih name value other inside inside' present present'

/-- JSON values whose data are equal are equal. -/
theorem SameJson.of_toData {value : JsValue} (json : JsonValue value) :
    ∀ {other : JsValue}, JsonValue other → SameValue (CanonicalJson.toData value)
      (CanonicalJson.toData other) → SameJson value other := by
  induction json with
  | null =>
    intro other json' same
    cases json' with
    | null => exact .null
    | number finite =>
      rw [toData_number finite] at same
      cases same
    | bool | string | array | object => cases same
  | bool b =>
    intro other json' same
    cases json' with
    | bool b' =>
      cases same
      exact .bool b
    | number finite =>
      rw [toData_number finite] at same
      cases same
    | null | string | array | object => cases same
  | number finite =>
    intro other json' same
    rw [toData_number finite] at same
    cases json' with
    | number finite' =>
      rw [toData_number finite'] at same
      cases same
      exact .number finite finite'
    | null | bool | string | array | object => cases same
  | string t =>
    intro other json' same
    cases json' with
    | string t' =>
      cases same
      exact .string t
    | number finite =>
      rw [toData_number finite] at same
      cases same
    | null | bool | array | object => cases same
  | @array items _ ih =>
    intro other json' same
    cases json' with
    | @array others all' =>
      rw [CanonicalJson.toData, CanonicalJson.toData, toItems_eq_map, toItems_eq_map] at same
      cases same with
      | list length each =>
        rw [List.length_map, List.length_map] at length
        refine .array length fun i item other known known' => ?_
        refine ih item (List.mem_of_getElem? known) (all' other (List.mem_of_getElem? known')) ?_
        apply each i
        · rw [List.getElem?_map, known, Option.map_some]
        · rw [List.getElem?_map, known', Option.map_some]
    | number finite =>
      rw [toData_number finite] at same
      cases same
    | null | bool | string | object => cases same
  | @object fields _ _ ih =>
    intro other json' same
    cases json' with
    | @object others _ all' =>
      cases same with
      | record names each =>
        refine .object (fun name => ?_) fun name value other known known' present present' => ?_
        · rw [← mem_names_toFields, ← mem_names_toFields]
          exact names name
        · exact ih (name, value) known present (all' (name, other) known' present')
            (each name _ _ (mem_toFields.mpr ⟨value, known, present, rfl⟩)
              (mem_toFields.mpr ⟨other, known', present', rfl⟩))
    | number finite =>
      rw [toData_number finite] at same
      cases same
    | null | bool | string | array => cases same

theorem sameJson_iff {value other : JsValue} (json : JsonValue value) (json' : JsonValue other) :
    SameJson value other ↔ SameValue (toData value) (toData other) :=
  ⟨SameJson.toData, SameJson.of_toData json json'⟩

/-! ## What is read is a JSON value -/

theorem ofData_ne_undefined (data : Data) : ofData data ≠ .undefined := by
  cases data <;> exact fun same => by cases same

theorem jsonValue_ofData {data : Data} (legible : Legible data) : JsonValue (ofData data) := by
  induction legible with
  | null => exact .null
  | bool b => exact .bool b
  | number double => exact .number rfl double
  | text t => exact .string t
  | @list items _ ih =>
    rw [ofData, ofItems_eq_map]
    refine .array fun item member => ?_
    obtain ⟨data, inside, rfl⟩ := List.mem_map.mp member
    exact ih data inside
  | @record fields distinct _ ih =>
    rw [ofData, ofFields_eq_map]
    refine .object ?_ fun field member _ => ?_
    · rw [List.map_map]
      exact distinct
    · obtain ⟨field', inside, rfl⟩ := List.mem_map.mp member
      exact ih field' inside

/-- What is read stands for the data that it was read from. -/
theorem toData_ofData {data : Data} (legible : Legible data) : toData (ofData data) = data := by
  induction legible with
  | null => rfl
  | bool b => rfl
  | number double => rfl
  | text t => rfl
  | @list items _ ih =>
    rw [ofData, toData, ofItems_eq_map, toItems_eq_map, List.map_map]
    congr 1
    exact (List.map_congr_left ih).trans (List.map_id items)
  | @record fields _ _ ih =>
    have kept : (fields.map fun field => (field.1, ofData field.2)).filter isPresent =
        fields.map fun field => (field.1, ofData field.2) := by
      rw [List.filter_eq_self]
      intro field member
      obtain ⟨field', _, rfl⟩ := List.mem_map.mp member
      exact isPresent_eq_true.mpr (ofData_ne_undefined field'.2)
    have values : fields.map ((fun field => (field.1, toData field.2)) ∘
        fun field => (field.1, ofData field.2)) = fields := by
      refine (List.map_congr_left fun field member => ?_).trans (List.map_id fields)
      exact Prod.ext rfl (ih field member)
    rw [ofData, toData, ofFields_eq_map, toFields_eq_map, kept, List.map_map, values]

/-! ## One text a value -/

/-- Two JSON values have one text exactly when they are equal. -/
theorem canonicalize_eq_iff_sameJson {value other : JsValue} (json : JsonValue value)
    (json' : JsonValue other) : canonicalize value = canonicalize other ↔ SameJson value other := by
  have written := Canonical.canonicalize_of_legible (legible_toData json)
  have written' := Canonical.canonicalize_of_legible (legible_toData json')
  rw [sameJson_iff json json',
    ← Canonical.canonicalize_eq_iff (legible_toData json) (legible_toData json'), written, written',
    (canonicalize_eq_ok json).mpr written, (canonicalize_eq_ok json').mpr written',
    Except.ok.injEq, Option.some.injEq]

/-- The text of a JSON value is read back as an equal JSON value. -/
theorem parseValue_canonicalize {value : JsValue} (json : JsonValue value) {t : Text}
    (written : canonicalize value = .ok t) :
    ∃ parsed, parseValue t = some parsed ∧ JsonValue parsed ∧ SameJson parsed value := by
  have legible := legible_toData json
  have read := Canonical.parse_canonicalize legible ((canonicalize_eq_ok json).mp written)
  refine ⟨ofData (sorted (toData value)), ?_, jsonValue_ofData legible.sorted, ?_⟩
  · rw [parseValue, read]
    rfl
  · rw [sameJson_iff (jsonValue_ofData legible.sorted) json, toData_ofData legible.sorted]
    exact .sorted legible

/-- **The canonical text is a complete invariant of JSON values.** Two of them have one text exactly
when they are equal up to the order of their keys, and the text is read back as an equal value, whose
text it is again. -/
theorem canonicalize_complete {value other : JsValue} (json : JsonValue value)
    (json' : JsonValue other) :
    (canonicalize value = canonicalize other ↔ SameJson value other) ∧
      ∃ t parsed, canonicalize value = .ok t ∧ parseValue t = some parsed ∧
        SameJson parsed value ∧ canonicalize parsed = .ok t := by
  refine ⟨canonicalize_eq_iff_sameJson json json', ?_⟩
  have written := (canonicalize_eq_ok json).mpr
    (Canonical.canonicalize_of_legible (legible_toData json))
  obtain ⟨parsed, read, json'', same⟩ := parseValue_canonicalize json written
  refine ⟨_, parsed, written, read, same, ?_⟩
  rw [(canonicalize_eq_iff_sameJson json'' json).mpr same, written]

/-- A half, a negative zero and a property that is `undefined`, in two orders. -/
theorem canonicalize_complete_object :
    (canonicalize (.object [(lit "b", .number (.finite (1 / 2))), (lit "c", .undefined),
        (lit "a", .array [.number .negZero])]) =
      canonicalize (.object [(lit "a", .array [.number (.finite 0)]),
        (lit "b", .number (.finite (1 / 2)))])) ∧
      ∃ t parsed, canonicalize (.object [(lit "b", .number (.finite (1 / 2))),
          (lit "c", .undefined), (lit "a", .array [.number .negZero])]) = .ok t ∧
        parseValue t = some parsed ∧ canonicalize parsed = .ok t := by
  have half : Number.Double (1 / 2) := by
    have exact := @Binary64.round_multiple 1 (-1) (by norm_num) (by norm_num)
    have value : ((1 : ℤ) : ℚ) * 2 ^ (-1 : ℤ) = 1 / 2 := by norm_num
    rw [value] at exact
    refine ⟨exact, ?_⟩
    rw [abs_of_pos (by norm_num)]
    calc (1 : ℚ) / 2 < 1 := by norm_num
      _ ≤ 2 ^ 1024 := one_le_pow₀ (by norm_num)
  have zeros : ∀ n : Number, n.value? = some 0 → JsonValue (.array [.number n]) := by
    intro n zero
    refine .array fun item member => ?_
    rw [List.mem_singleton.mp member]
    exact .number zero Number.double_zero
  have first : JsonValue (.object [(lit "b", .number (.finite (1 / 2))), (lit "c", .undefined),
      (lit "a", .array [.number .negZero])]) := by
    refine .object (by decide) fun field member present => ?_
    simp only [List.mem_cons, List.not_mem_nil, or_false] at member
    rcases member with rfl | rfl | rfl
    · exact .number rfl half
    · exact absurd rfl present
    · exact zeros _ rfl
  have second : JsonValue (.object [(lit "a", .array [.number (.finite 0)]),
      (lit "b", .number (.finite (1 / 2)))]) := by
    refine .object (by decide) fun field member _ => ?_
    simp only [List.mem_cons, List.not_mem_nil, or_false] at member
    rcases member with rfl | rfl
    · exact zeros _ rfl
    · exact .number rfl half
  obtain ⟨complete, t, parsed, written, read, _, again⟩ := canonicalize_complete first second
  have sameData := SameValue.of_sorted (legible_toData first) (legible_toData second) rfl
  exact ⟨complete.mpr (SameJson.of_toData first second sameData), t, parsed, written, read, again⟩

end Koklo.Schema.CanonicalJson
