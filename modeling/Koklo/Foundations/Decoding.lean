import Koklo.Foundations.Number
import Koklo.Foundations.OrderedMap
import Koklo.Foundations.Validation

/-!
# Decoding data

Data that was read from a document, and schemas that decode it. A decoder takes the
data of a field, or nothing when the field is missing, and gives a value or the list of
its issues. A record is decoded field by field and gathers the issues of all its fields;
it is accepted when every field is (`ap_eq_ok`), and a list when every item is
(`listOf_eq_ok`).
-/

set_option autoImplicit false

namespace Koklo.Foundations

/-- Data read from a document. -/
inductive Data where
  | null
  | bool (value : Bool)
  | number (value : Number)
  | text (value : Text)
  | list (items : List Data)
  | record (fields : List (Text × Data))

/-- A value, or the issues that refuse the data. -/
abbrev Decoded (α : Type) := Except (List SchemaIssue) α

/-- A decoder of a field, which may be missing. -/
abbrev Decoder (α : Type) := Option Data → Decoded α

namespace Decoded

variable {α β : Type}

/-- Both parts, or the issues of both. -/
def ap (f : Decoded (α → β)) (x : Decoded α) : Decoded β :=
  match f, x with
  | .ok f, .ok a => .ok (f a)
  | .error issues, .ok _ => .error issues
  | .ok _, .error issues => .error issues
  | .error issues, .error more => .error (issues ++ more)

theorem ap_eq_ok {f : Decoded (α → β)} {x : Decoded α} {b : β} :
    f.ap x = .ok b ↔ ∃ g a, f = .ok g ∧ x = .ok a ∧ g a = b := by
  cases f with
  | error issues => cases x <;> simp [ap]
  | ok g => cases x <;> simp [ap]

/-- The value, unless more issues are found. -/
def butRefuse (x : Decoded α) (more : List SchemaIssue) : Decoded α :=
  match x, more with
  | .ok a, [] => .ok a
  | .ok _, issue :: issues => .error (issue :: issues)
  | .error issues, more => .error (issues ++ more)

theorem butRefuse_eq_ok {x : Decoded α} {more : List SchemaIssue} {a : α} :
    x.butRefuse more = .ok a ↔ x = .ok a ∧ more = [] := by
  cases x with
  | error issues => simp [butRefuse]
  | ok a => cases more <;> simp [butRefuse]

/-- The issues at a segment of the path. -/
def under (segment : Text) : Decoded α → Decoded α
  | .ok a => .ok a
  | .error issues => .error (Validation.inField segment issues)

@[simp] theorem under_eq_ok {segment : Text} {x : Decoded α} {a : α} :
    x.under segment = .ok a ↔ x = .ok a := by
  cases x <;> simp [under]

end Decoded

namespace Decoding

variable {α : Type} (message : Defect → Text)

/-- One issue at the root. -/
def refuse (text : Text) : Decoded α := .error [⟨[], text⟩]

/-- A text that passes the checks. -/
def textWith (checks : Text → List SchemaIssue) : Decoder Text
  | some (.text t) => Decoded.butRefuse (.ok t) (checks t)
  | _ => refuse (message (.wrongType "string"))

/-- One of the named values. -/
def oneOf (names : List (α × Text)) : Decoder α
  | some (.text t) =>
    match names.find? (·.2 = t) with
    | some (value, _) => .ok value
    | none => refuse (message (.notOneOf (names.map Prod.snd)))
  | _ => refuse (message (.notOneOf (names.map Prod.snd)))

/-- The items of a list from a position on. -/
def itemsFrom (item : Decoder α) : ℕ → List Data → Decoded (List α)
  | _, [] => .ok []
  | index, data :: rest =>
    Decoded.ap (Decoded.ap (.ok List.cons) ((item (some data)).under (Text.ofNat index)))
      (itemsFrom item (index + 1) rest)

/-- A list of items. -/
def listOf (item : Decoder α) : Decoder (List α)
  | some (.list items) => itemsFrom item 0 items
  | _ => refuse (message (.wrongType "array"))

/-- A default for a missing field. -/
def orDefault (value : α) (decoder : Decoder α) : Decoder α
  | none => .ok value
  | some data => decoder (some data)

/-- A field that may be missing. -/
def optional (decoder : Decoder α) : Decoder (Option α)
  | none => .ok none
  | some data => (decoder (some data)).map some

def boolean : Decoder Bool
  | some (.bool value) => .ok value
  | _ => refuse (message (.wrongType "boolean"))

/-- An integer that a double holds exactly, with its neighbours. -/
def safeInteger : Decoder ℤ
  | some (.number n) =>
    match n.value? with
    | none => refuse (message (.wrongType "number"))
    | some value =>
      if value.den ≠ 1 then refuse (message (.wrongType "int"))
      else if value.num.natAbs < 2 ^ 53 then .ok value.num
      else refuse (message .notSafe)
  | _ => refuse (message (.wrongType "number"))

/-- An object of any fields. -/
def anyRecord : Decoder (List (Text × Data))
  | some (.record fields) => .ok fields
  | _ => refuse (message (.wrongType "record"))

/-- The value of a field. -/
def field (fields : OrderedMap Text Data) (name : Text) (decoder : Decoder α) : Decoded α :=
  (decoder (fields.get name)).under name

/-- The issue of the keys that a strict record does not know. -/
def unknownKeys (known : List Text) (fields : OrderedMap Text Data) : List SchemaIssue :=
  let unknown := fields.keys.filter (· ∉ known)
  Validation.refuseUnless unknown.isEmpty (message (.unknownKeys unknown))

/-- A strict record. -/
def strictRecord (known : List Text) (decode : OrderedMap Text Data → Decoded α) : Decoder α
  | some (.record fields) => (decode fields).butRefuse (unknownKeys message known fields)
  | _ => refuse (message (.wrongType "object"))

/-! ## What is accepted -/

theorem textWith_text_eq_ok {checks : Text → List SchemaIssue} {t u : Text} :
    textWith message checks (some (.text t)) = .ok u ↔ u = t ∧ checks t = [] := by
  rw [textWith, Decoded.butRefuse_eq_ok, Except.ok.injEq, eq_comm]

/-- A text field that is accepted is a text. -/
theorem textWith_eq_ok {checks : Text → List SchemaIssue} {data : Option Data} {u : Text}
    (decoded : textWith message checks data = .ok u) : data = some (.text u) := by
  unfold textWith at decoded
  split at decoded
  · rename_i t
    rw [((textWith_text_eq_ok message).mp decoded).1]
  · cases decoded

/-- A name is decoded to what it names. -/
theorem oneOf_name {names : List (α × Text)} (distinct : (names.map Prod.snd).Nodup) {value : α}
    {name : Text} (known : (value, name) ∈ names) :
    oneOf message names (some (.text name)) = .ok value := by
  have found : names.find? (·.2 = name) = some (value, name) := by
    induction names with
    | nil => cases known
    | cons first names ih =>
      obtain ⟨fresh, others⟩ := List.nodup_cons.mp distinct
      rcases List.mem_cons.mp known with same | later
      · rw [List.find?_cons_of_pos (by simp [← same]), same]
      · have apart : first.2 ≠ name := by
          intro same
          exact fresh (List.mem_map.mpr ⟨_, later, same.symm⟩)
        rw [List.find?_cons_of_neg (by simpa using apart)]
        exact ih others later
  rw [oneOf, found]

theorem itemsFrom_map_eq_ok {item : Decoder α} {encode : α → Data} {index : ℕ} {list out : List α}
    (one : ∀ a ∈ list, ∀ b, item (some (encode a)) = .ok b → b = a)
    (decoded : itemsFrom item index (list.map encode) = .ok out) :
    out = list ∧ ∀ a ∈ list, item (some (encode a)) = .ok a := by
  induction list generalizing index out with
  | nil =>
    cases decoded
    exact ⟨rfl, fun a member => absurd member List.not_mem_nil⟩
  | cons a list ih =>
    rw [List.map_cons, itemsFrom, Decoded.ap_eq_ok] at decoded
    obtain ⟨g, rest, first, later, rfl⟩ := decoded
    obtain ⟨g', b, shape, head, rfl⟩ := Decoded.ap_eq_ok.mp first
    cases shape
    have read := Decoded.under_eq_ok.mp head
    have same := one a List.mem_cons_self b read
    subst same
    obtain ⟨rfl, others⟩ := ih (fun c member => one c (List.mem_cons_of_mem _ member)) later
    exact ⟨rfl, List.forall_mem_cons.mpr ⟨read, others⟩⟩

theorem itemsFrom_map {item : Decoder α} {encode : α → Data} {index : ℕ} {list : List α}
    (all : ∀ a ∈ list, item (some (encode a)) = .ok a) :
    itemsFrom item index (list.map encode) = .ok list := by
  induction list generalizing index with
  | nil => rfl
  | cons a list ih =>
    obtain ⟨head, others⟩ := List.forall_mem_cons.mp all
    rw [List.map_cons, itemsFrom, ih others, head]
    rfl

/-- **A list of encoded items** is decoded when every item is, and then to itself. -/
theorem listOf_map_eq_ok {item : Decoder α} {encode : α → Data} {list out : List α}
    (one : ∀ a ∈ list, ∀ b, item (some (encode a)) = .ok b → b = a) :
    listOf message item (some (.list (list.map encode))) = .ok out ↔
      out = list ∧ ∀ a ∈ list, item (some (encode a)) = .ok a := by
  constructor
  · exact fun decoded => itemsFrom_map_eq_ok one decoded
  · rintro ⟨rfl, all⟩
    exact itemsFrom_map all

/-! ## What is refused -/

end Decoding

/-- What is refused has an issue. -/
def Decoded.Explained {α : Type} (x : Decoded α) : Prop :=
  ∀ issues : List SchemaIssue, x = .error issues → issues ≠ []

/-- Whatever is decoded, what is refused has an issue. -/
def Decoder.Explained {α : Type} (decoder : Decoder α) : Prop := ∀ data, (decoder data).Explained

section Explained

variable {α β : Type}

theorem Decoded.explained_ok (a : α) : Decoded.Explained (.ok a : Decoded α) := nofun

theorem Decoded.Explained.ap {f : Decoded (α → β)} {x : Decoded α} (first : f.Explained)
    (second : x.Explained) : (f.ap x).Explained := by
  intro issues refused
  cases f with
  | ok g =>
    cases x with
    | ok a => cases refused
    | error more =>
      cases refused
      exact second _ rfl
  | error known =>
    cases x with
    | ok a =>
      cases refused
      exact first _ rfl
    | error more =>
      cases refused
      exact List.append_ne_nil_of_left_ne_nil (first _ rfl) _

theorem Decoded.Explained.butRefuse {x : Decoded α} (explained : x.Explained)
    (more : List SchemaIssue) : (x.butRefuse more).Explained := by
  intro issues refused
  cases x with
  | ok a =>
    cases more with
    | nil => cases refused
    | cons issue more =>
      cases refused
      exact List.cons_ne_nil _ _
  | error known =>
    cases refused
    exact List.append_ne_nil_of_left_ne_nil (explained _ rfl) _

theorem Decoded.Explained.under {x : Decoded α} (explained : x.Explained) (segment : Text) :
    (x.under segment).Explained := by
  intro issues refused
  cases x with
  | ok a => cases refused
  | error known =>
    cases refused
    intro none
    exact explained known rfl (List.map_eq_nil_iff.mp none)

theorem Decoded.Explained.map {x : Decoded α} (explained : x.Explained) (f : α → β) :
    Decoded.Explained (x.map f) := by
  intro issues refused
  cases x with
  | ok a => cases refused
  | error known =>
    cases refused
    exact explained _ rfl

namespace Decoding

variable {message : Defect → Text}

theorem refuse_explained (text : Text) : (refuse text : Decoded α).Explained := by
  intro issues refused
  cases refused
  exact List.cons_ne_nil _ _

theorem textWith_explained (checks : Text → List SchemaIssue) :
    Decoder.Explained (textWith message checks) := by
  intro data
  unfold textWith
  split
  · exact (Decoded.explained_ok _).butRefuse _
  · exact refuse_explained _

theorem oneOf_explained (names : List (α × Text)) : Decoder.Explained (oneOf message names) := by
  intro data
  unfold oneOf
  split
  · split
    · exact Decoded.explained_ok _
    · exact refuse_explained _
  · exact refuse_explained _

theorem itemsFrom_explained {item : Decoder α} (explained : item.Explained) (index : ℕ)
    (items : List Data) : (itemsFrom item index items).Explained := by
  induction items generalizing index with
  | nil => exact Decoded.explained_ok _
  | cons data rest ih =>
    exact ((Decoded.explained_ok _).ap ((explained _).under _)).ap (ih (index + 1))

theorem listOf_explained {item : Decoder α} (explained : item.Explained) :
    Decoder.Explained (listOf message item) := by
  intro data
  unfold listOf
  split
  · exact itemsFrom_explained explained _ _
  · exact refuse_explained _

theorem orDefault_explained {decoder : Decoder α} (explained : decoder.Explained) (value : α) :
    Decoder.Explained (orDefault value decoder) := by
  intro data
  cases data with
  | none => exact Decoded.explained_ok _
  | some data => exact explained _

theorem field_explained {decoder : Decoder α} (explained : decoder.Explained)
    (fields : OrderedMap Text Data) (name : Text) : (field fields name decoder).Explained :=
  (explained _).under name

theorem strictRecord_explained {known : List Text} {decode : OrderedMap Text Data → Decoded α}
    (explained : ∀ fields, (decode fields).Explained) :
    Decoder.Explained (strictRecord message known decode) := by
  intro data
  unfold strictRecord
  split
  · exact (explained _).butRefuse _
  · exact refuse_explained _

theorem optional_explained {decoder : Decoder α} (explained : decoder.Explained) :
    Decoder.Explained (optional decoder) := by
  intro data
  cases data with
  | none => exact Decoded.explained_ok _
  | some data => exact (explained _).map some

theorem boolean_explained : Decoder.Explained (boolean message) := by
  intro data
  unfold boolean
  split
  · exact Decoded.explained_ok _
  · exact refuse_explained _

theorem safeInteger_explained : Decoder.Explained (safeInteger message) := by
  intro data
  unfold safeInteger
  split
  · split
    · exact refuse_explained _
    · split
      · exact refuse_explained _
      · split
        · exact Decoded.explained_ok _
        · exact refuse_explained _
  · exact refuse_explained _

theorem anyRecord_explained : Decoder.Explained (anyRecord message) := by
  intro data
  unfold anyRecord
  split
  · exact Decoded.explained_ok _
  · exact refuse_explained _

/-! ## The fields of an accepted record -/

/-- A strict record that is accepted is a record, whose fields are decoded. -/
theorem strictRecord_eq_ok {known : List Text} {decode : OrderedMap Text Data → Decoded α}
    {data : Option Data} {a : α} (decoded : strictRecord message known decode data = .ok a) :
    ∃ fields, data = some (.record fields) ∧ decode fields = .ok a := by
  unfold strictRecord at decoded
  split at decoded
  · rename_i fields
    exact ⟨fields, rfl, (Decoded.butRefuse_eq_ok.mp decoded).1⟩
  · cases decoded

theorem itemsFrom_eq_ok {item : Decoder α} {index : ℕ} {items : List Data} {out : List α}
    (decoded : itemsFrom item index items = .ok out) :
    ∀ a ∈ out, ∃ data ∈ items, item (some data) = .ok a := by
  induction items generalizing index out with
  | nil =>
    cases decoded
    exact List.forall_mem_nil _
  | cons data rest ih =>
    rw [itemsFrom, Decoded.ap_eq_ok] at decoded
    obtain ⟨g, later, first, others, rfl⟩ := decoded
    obtain ⟨g', a, shape, head, rfl⟩ := Decoded.ap_eq_ok.mp first
    cases shape
    refine List.forall_mem_cons.mpr ⟨⟨data, List.mem_cons_self, Decoded.under_eq_ok.mp head⟩, ?_⟩
    intro b member
    obtain ⟨known, inside, read⟩ := ih others b member
    exact ⟨known, List.mem_cons_of_mem _ inside, read⟩

/-- The items of an accepted list were decoded. -/
theorem listOf_eq_ok {item : Decoder α} {data : Option Data} {out : List α}
    (decoded : listOf message item data = .ok out) :
    ∀ a ∈ out, ∃ known, item (some known) = .ok a := by
  unfold listOf at decoded
  split at decoded
  · intro a member
    obtain ⟨known, _, read⟩ := itemsFrom_eq_ok decoded a member
    exact ⟨known, read⟩
  · cases decoded

end Decoding

end Explained

end Koklo.Foundations
