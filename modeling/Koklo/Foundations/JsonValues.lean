import Koklo.Foundations.JsonRoundTrip
import Koklo.Foundations.StableSort

/-!
# Equal JSON values

Two documents are equal as JSON values when their lists agree item by item and their records name
the same fields with equal values, in any order (`SameValue`). Each value has one representative
whose records are sorted by the names of their fields (`sorted`): documents with the same
representative are equal (`SameValue.of_sorted`), and whatever is computed of the fields of equal
records is the same once it is sorted by name (`sort_fields_congr`).
-/

set_option autoImplicit false

namespace Koklo.Foundations.Json

open Text

/-- Equal as JSON values. -/
inductive SameValue : Data → Data → Prop
  | null : SameValue .null .null
  | bool (b : Bool) : SameValue (.bool b) (.bool b)
  | number (n : Number) : SameValue (.number n) (.number n)
  | text (t : Text) : SameValue (.text t) (.text t)
  | list {items others : List Data} (length : items.length = others.length)
      (each : ∀ (i : ℕ) (item other : Data), items[i]? = some item → others[i]? = some other →
        SameValue item other) : SameValue (.list items) (.list others)
  | record {fields others : List (Text × Data)}
      (names : ∀ name, name ∈ fields.map Prod.fst ↔ name ∈ others.map Prod.fst)
      (each : ∀ (name : Text) (value other : Data), (name, value) ∈ fields →
        (name, other) ∈ others → SameValue value other) :
      SameValue (.record fields) (.record others)

/-! ## Sorted by name -/

/-- Fields in the order of their names. -/
def byName {α : Type} (first second : Text × α) : ℤ := compareText first.1 second.1

theorem byName_le_zero_iff {α : Type} (first second : Text × α) :
    byName first second ≤ 0 ↔ first.1 ≤ second.1 := compareText_le_zero_iff

mutual

/-- The data with its records sorted by name. -/
def sorted : Data → Data
  | .null => .null
  | .bool b => .bool b
  | .number n => .number n
  | .text t => .text t
  | .list items => .list (sortedItems items)
  | .record fields => .record (sortWith byName (sortedFields fields))

def sortedItems : List Data → List Data
  | [] => []
  | data :: items => sorted data :: sortedItems items

def sortedFields : List (Text × Data) → List (Text × Data)
  | [] => []
  | (name, data) :: fields => (name, sorted data) :: sortedFields fields

end

theorem sortedItems_eq_map (items : List Data) : sortedItems items = items.map sorted := by
  induction items with
  | nil => rfl
  | cons data items ih => rw [sortedItems, ih, List.map_cons]

theorem sortedFields_eq_map (fields : List (Text × Data)) :
    sortedFields fields = fields.map fun field => (field.1, sorted field.2) := by
  induction fields with
  | nil => rfl
  | cons field fields ih => rw [sortedFields, ih, List.map_cons]

/-- Sorting by name comes before or after what is computed of the values. -/
theorem sort_fields_map {α β : Type} (f : α → β) (fields : List (Text × α)) :
    sortWith byName (fields.map fun field => (field.1, f field.2)) =
      (sortWith byName fields).map fun field => (field.1, f field.2) := by
  symm
  apply List.map_insertionSort
  intro first _ second _
  exact Iff.rfl

theorem mem_sort_fields {α : Type} {fields : List (Text × α)} {field : Text × α} :
    field ∈ sortWith byName fields ↔ field ∈ fields := (perm_sortWith byName fields).mem_iff

theorem names_sort_fields {α : Type} {fields : List (Text × α)}
    (distinct : (fields.map Prod.fst).Nodup) :
    ((sortWith byName fields).map Prod.fst).Nodup :=
  ((perm_sortWith byName fields).map Prod.fst).nodup_iff.mpr distinct

/-- The value of a name that is given once. -/
theorem eq_of_distinct_names {α : Type} {fields : List (Text × α)}
    (distinct : (fields.map Prod.fst).Nodup) {name : Text} {value other : α}
    (first : (name, value) ∈ fields) (second : (name, other) ∈ fields) : value = other := by
  have same := List.inj_on_of_nodup_map distinct first second rfl
  exact (Prod.ext_iff.mp same).2

/-- **What is computed of the fields of equal records** is the same, sorted by name. -/
theorem sort_fields_congr {α : Type} {f : Data → α} {fields others : List (Text × Data)}
    (distinct : (fields.map Prod.fst).Nodup) (distinct' : (others.map Prod.fst).Nodup)
    (names : ∀ name, name ∈ fields.map Prod.fst ↔ name ∈ others.map Prod.fst)
    (each : ∀ name value other, (name, value) ∈ fields → (name, other) ∈ others →
      f value = f other) :
    sortWith byName (fields.map fun field => (field.1, f field.2)) =
      sortWith byName (others.map fun field => (field.1, f field.2)) := by
  have named : ∀ list : List (Text × Data),
      (list.map fun field => (field.1, f field.2)).map Prod.fst = list.map Prod.fst := by
    intro list
    rw [List.map_map]
    rfl
  have left : ((fields.map fun field => (field.1, f field.2)).map Prod.fst).Nodup := by
    rw [named]
    exact distinct
  have right : ((others.map fun field => (field.1, f field.2)).map Prod.fst).Nodup := by
    rw [named]
    exact distinct'
  refine sortWith_perm byName_le_zero_iff ?_ left
  refine (List.perm_ext_iff_of_nodup left.of_map right.of_map).mpr ?_
  rintro ⟨name, result⟩
  rw [List.mem_map, List.mem_map]
  constructor
  · rintro ⟨⟨_, value⟩, member, same⟩
    cases same
    obtain ⟨⟨_, other⟩, member', rfl⟩ :=
      List.mem_map.mp ((names _).mp (List.mem_map.mpr ⟨_, member, rfl⟩))
    exact ⟨_, member', Prod.ext rfl (each _ value other member member').symm⟩
  · rintro ⟨⟨_, other⟩, member', same⟩
    cases same
    obtain ⟨⟨_, value⟩, member, rfl⟩ :=
      List.mem_map.mp ((names _).mpr (List.mem_map.mpr ⟨_, member', rfl⟩))
    exact ⟨_, member, Prod.ext rfl (each _ value other member member')⟩

/-! ## One representative a value -/

/-- **Documents with the same representative are equal.** -/
theorem SameValue.of_sorted {data : Data} (legible : Legible data) :
    ∀ {other : Data}, Legible other → sorted data = sorted other → SameValue data other := by
  induction legible with
  | null =>
    intro other _ same
    cases other <;> cases same
    exact .null
  | bool b =>
    intro other _ same
    cases other <;> cases same
    exact .bool b
  | number double =>
    intro other _ same
    cases other <;> cases same
    exact .number _
  | text t =>
    intro other _ same
    cases other <;> cases same
    exact .text t
  | @list items all ih =>
    intro other legible' same
    cases other with
    | list others =>
      cases legible' with
      | list all' =>
        have same' := Data.list.inj same
        rw [sortedItems_eq_map, sortedItems_eq_map] at same'
        refine .list ?_ fun i item other known known' => ?_
        · have lengths := congrArg List.length same'
          rw [List.length_map, List.length_map] at lengths
          exact lengths
        · have at_ := congrArg (·[i]?) same'
          simp only [List.getElem?_map, known, known', Option.map_some, Option.some.injEq] at at_
          exact ih item (List.mem_of_getElem? known) (all' other (List.mem_of_getElem? known')) at_
    | null | bool | number | text | record => cases same
  | @record fields distinct all ih =>
    intro other legible' same
    cases other with
    | record others =>
      cases legible' with
      | record distinct' all' =>
        have same' := Data.record.inj same
        rw [sortedFields_eq_map, sortedFields_eq_map] at same'
        have alike : ∀ field, (field ∈ fields.map fun field => (field.1, sorted field.2)) ↔
            field ∈ others.map fun field => (field.1, sorted field.2) := by
          intro field
          rw [← mem_sort_fields, same', mem_sort_fields]
        refine .record (fun name => ?_) fun name value other known known' => ?_
        · rw [List.mem_map, List.mem_map]
          constructor
          · rintro ⟨field, member, rfl⟩
            obtain ⟨field', member', same⟩ :=
              List.mem_map.mp ((alike _).mp (List.mem_map.mpr ⟨field, member, rfl⟩))
            exact ⟨field', member', (Prod.ext_iff.mp same).1⟩
          · rintro ⟨field, member, rfl⟩
            obtain ⟨field', member', same⟩ :=
              List.mem_map.mp ((alike _).mpr (List.mem_map.mpr ⟨field, member, rfl⟩))
            exact ⟨field', member', (Prod.ext_iff.mp same).1⟩
        · apply ih _ known (all' _ known')
          obtain ⟨⟨_, former⟩, member, same⟩ :=
            List.mem_map.mp ((alike _).mp (List.mem_map.mpr ⟨_, known, rfl⟩))
          obtain ⟨rfl, same⟩ := Prod.ext_iff.mp same
          rw [eq_of_distinct_names distinct' known' member]
          exact same.symm
    | null | bool | number | text | list => cases same

theorem SameValue.refl {data : Data} (legible : Legible data) : SameValue data data :=
  .of_sorted legible legible rfl

theorem Legible.sorted {data : Data} (legible : Legible data) : Legible (sorted data) := by
  induction legible with
  | null => exact .null
  | bool b => exact .bool b
  | number double => exact .number double
  | text t => exact .text t
  | @list items _ ih =>
    rw [Json.sorted, sortedItems_eq_map]
    refine .list fun data member => ?_
    obtain ⟨item, inside, rfl⟩ := List.mem_map.mp member
    exact ih item inside
  | @record fields distinct _ ih =>
    rw [Json.sorted, sortedFields_eq_map, sort_fields_map]
    refine .record ?_ fun field member => ?_
    · rw [List.map_map]
      exact names_sort_fields distinct
    · obtain ⟨field', inside, rfl⟩ := List.mem_map.mp member
      exact ih field' (mem_sort_fields.mp inside)

/-- The representative of a value is its own. -/
theorem sorted_sorted {data : Data} (legible : Legible data) :
    sorted (sorted data) = sorted data := by
  induction legible with
  | null => rfl
  | bool b => rfl
  | number double => rfl
  | text t => rfl
  | @list items _ ih =>
    rw [sorted, sorted, sortedItems_eq_map, sortedItems_eq_map, List.map_map]
    congr 1
    exact List.map_congr_left ih
  | @record fields distinct _ ih =>
    have again : sortWith byName (sortWith byName fields) = sortWith byName fields :=
      sortWith_perm byName_le_zero_iff (perm_sortWith byName fields) (names_sort_fields distinct)
    have values : (sortWith byName fields).map
        ((fun field => (field.1, sorted field.2)) ∘ fun field => (field.1, sorted field.2)) =
          (sortWith byName fields).map fun field => (field.1, sorted field.2) := by
      refine List.map_congr_left fun field member => ?_
      exact Prod.ext rfl (ih field (mem_sort_fields.mp member))
    rw [sorted, sortedFields_eq_map, sort_fields_map, sorted, sortedFields_eq_map, List.map_map,
      values, sort_fields_map, again]

/-- A value equals its representative. -/
theorem SameValue.sorted {data : Data} (legible : Legible data) :
    SameValue (sorted data) data :=
  .of_sorted legible.sorted legible (sorted_sorted legible)

end Koklo.Foundations.Json
