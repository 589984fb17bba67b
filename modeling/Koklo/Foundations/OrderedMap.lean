import Mathlib.Data.List.Nodup
import Mathlib.Data.List.Perm.Basic

/-!
# Maps that keep the order of their keys

A map is the list of its entries, in the order in which their keys were first
set. Setting a known key changes its value in place; setting a new one adds it
last. Reading after a write is the usual update (`get_set`), and a write adds at
most its own key (`keys_set`). Two maps without repeated keys that read alike have
the same entries, in some order (`perm_of_get`).
-/

set_option autoImplicit false

namespace Koklo.Foundations

universe u v

/-- The entries of a map, in the order of their keys' first writes. -/
abbrev OrderedMap (κ : Type u) (α : Type v) := List (κ × α)

namespace OrderedMap

variable {κ : Type u} {α : Type v} [DecidableEq κ]

def get (m : OrderedMap κ α) (key : κ) : Option α :=
  match m with
  | [] => none
  | (known, value) :: rest => if known = key then some value else get rest key

def set (m : OrderedMap κ α) (key : κ) (value : α) : OrderedMap κ α :=
  match m with
  | [] => [(key, value)]
  | (known, old) :: rest =>
    if known = key then (known, value) :: rest else (known, old) :: set rest key value

def keys (m : OrderedMap κ α) : List κ := m.map Prod.fst

/-- The map without a key. -/
def erase (m : OrderedMap κ α) (key : κ) : OrderedMap κ α := m.filter (·.1 ≠ key)

/-- The map of a list of entries, set one after the other. -/
def ofEntries (entries : List (κ × α)) : OrderedMap κ α :=
  entries.foldl (fun m entry => m.set entry.1 entry.2) []

@[simp] theorem get_nil (key : κ) : get ([] : OrderedMap κ α) key = none := rfl

/-- **Reading after a write.** -/
theorem get_set (m : OrderedMap κ α) (key other : κ) (value : α) :
    (m.set key value).get other = if key = other then some value else m.get other := by
  induction m with
  | nil => rfl
  | cons entry rest ih =>
    obtain ⟨known, old⟩ := entry
    by_cases same : known = key
    · subst same
      by_cases read : known = other <;> simp [set, get, read]
    · by_cases read : known = other
      · subst read
        simp [set, get, same, Ne.symm same]
      · simp [set, get, same, read, ih]

@[simp] theorem get_set_self (m : OrderedMap κ α) (key : κ) (value : α) :
    (m.set key value).get key = some value := by simp [get_set]

theorem get_set_of_ne (m : OrderedMap κ α) {key other : κ} (distinct : key ≠ other) (value : α) :
    (m.set key value).get other = m.get other := by simp [get_set, distinct]

/-- A key is read exactly when it was set. -/
theorem get_isSome_iff {m : OrderedMap κ α} {key : κ} : (m.get key).isSome ↔ key ∈ m.keys := by
  induction m with
  | nil => simp [keys]
  | cons entry rest ih =>
    obtain ⟨known, old⟩ := entry
    by_cases same : known = key
    · simp [get, keys, same]
    · simpa [get, keys, same, Ne.symm same] using ih

theorem get_eq_none_iff {m : OrderedMap κ α} {key : κ} : m.get key = none ↔ key ∉ m.keys := by
  rw [← get_isSome_iff, Option.not_isSome_iff_eq_none]

/-- A value read is one of an entry. -/
theorem mem_of_get {m : OrderedMap κ α} {key : κ} {value : α} (read : m.get key = some value) :
    (key, value) ∈ m := by
  induction m with
  | nil => cases read
  | cons entry rest ih =>
    obtain ⟨known, old⟩ := entry
    by_cases same : known = key
    · simp only [get, same, if_true, Option.some.injEq] at read
      simp [same, read]
    · simp only [get, same, if_false] at read
      exact List.mem_cons_of_mem _ (ih read)

/-- An entry after a write is the one written or an earlier one. -/
theorem mem_of_mem_set {m : OrderedMap κ α} {key : κ} {value : α} {entry : κ × α}
    (member : entry ∈ m.set key value) : entry = (key, value) ∨ entry ∈ m := by
  induction m with
  | nil => exact .inl (List.mem_singleton.mp member)
  | cons first rest ih =>
    obtain ⟨known, old⟩ := first
    rw [set] at member
    split at member
    · rename_i same
      rcases List.mem_cons.mp member with rfl | later
      · exact .inl (by rw [same])
      · exact .inr (List.mem_cons_of_mem _ later)
    · rcases List.mem_cons.mp member with rfl | later
      · exact .inr List.mem_cons_self
      · exact (ih later).imp id (List.mem_cons_of_mem _)

/-- **A write adds at most its own key**, and adds it last. -/
theorem keys_set (m : OrderedMap κ α) (key : κ) (value : α) :
    (m.set key value).keys = if key ∈ m.keys then m.keys else m.keys ++ [key] := by
  induction m with
  | nil => simp [set, keys]
  | cons entry rest ih =>
    obtain ⟨known, old⟩ := entry
    by_cases same : known = key
    · simp [set, keys, same]
    · simp only [keys] at ih
      by_cases member : key ∈ rest.map Prod.fst <;>
        simp [set, keys, same, Ne.symm same, ih, member]

theorem nodup_keys_set {m : OrderedMap κ α} (distinct : m.keys.Nodup) (key : κ) (value : α) :
    (m.set key value).keys.Nodup := by
  rw [keys_set]
  by_cases member : key ∈ m.keys
  · rwa [if_pos member]
  · rw [if_neg member]
    exact List.nodup_append.mpr ⟨distinct, List.nodup_singleton _, by
      rintro a inside b single rfl
      exact member (List.mem_singleton.mp single ▸ inside)⟩

/-! ## Erasing and building -/

/-- **Reading after an erasure.** -/
theorem get_erase (m : OrderedMap κ α) (key other : κ) :
    (m.erase key).get other = if key = other then none else m.get other := by
  induction m with
  | nil => simp [erase]
  | cons entry rest ih =>
    obtain ⟨known, value⟩ := entry
    by_cases erased : known = key
    · subst erased
      have skipped : erase ((known, value) :: rest) known = erase rest known := by simp [erase]
      rw [skipped, ih]
      by_cases read : known = other
      · simp [read]
      · simp [get, read]
    · have kept : erase ((known, value) :: rest) key = (known, value) :: erase rest key := by
        simp [erase, erased]
      rw [kept]
      by_cases read : known = other
      · subst read
        simp [get, Ne.symm erased]
      · simpa [get, read] using ih

theorem keys_erase (m : OrderedMap κ α) (key : κ) :
    (m.erase key).keys = m.keys.filter (· ≠ key) := by
  rw [keys, keys, erase, List.filter_map]
  rfl

theorem nodup_keys_erase {m : OrderedMap κ α} (distinct : m.keys.Nodup) (key : κ) :
    (m.erase key).keys.Nodup := by
  rw [keys_erase]
  exact distinct.filter _

theorem nodup_keys_ofEntries (entries : List (κ × α)) : (ofEntries entries).keys.Nodup := by
  have grown : ∀ m : OrderedMap κ α, m.keys.Nodup →
      (entries.foldl (fun m entry => m.set entry.1 entry.2) m).keys.Nodup := by
    induction entries with
    | nil => exact fun m distinct => distinct
    | cons entry entries ih => exact fun m distinct => ih _ (nodup_keys_set distinct _ _)
  exact grown [] List.nodup_nil

/-- What is read in a map built from entries is one of them. -/
theorem mem_of_get_ofEntries {entries : List (κ × α)} {key : κ} {value : α}
    (read : (ofEntries entries).get key = some value) : (key, value) ∈ entries := by
  have grown : ∀ m : OrderedMap κ α,
      (entries.foldl (fun m entry => m.set entry.1 entry.2) m).get key = some value →
        (key, value) ∈ entries ∨ m.get key = some value := by
    clear read
    induction entries with
    | nil => exact fun m read => .inr read
    | cons entry entries ih =>
      intro m read
      obtain ⟨known, old⟩ := entry
      rcases ih _ read with later | first
      · exact .inl (List.mem_cons_of_mem _ later)
      · rw [get_set] at first
        by_cases mine : known = key
        · rw [if_pos mine, Option.some.injEq] at first
          rw [← mine, ← first]
          exact .inl List.mem_cons_self
        · rw [if_neg mine] at first
          exact .inr first
  rcases grown [] read with member | none
  · exact member
  · cases none

/-- An entry is what its key reads, when no key is repeated. -/
theorem get_of_mem {m : OrderedMap κ α} (distinct : m.keys.Nodup) {key : κ} {value : α}
    (member : (key, value) ∈ m) : m.get key = some value := by
  induction m with
  | nil => cases member
  | cons entry rest ih =>
    obtain ⟨known, old⟩ := entry
    obtain ⟨fresh, others⟩ := List.nodup_cons.mp distinct
    rcases List.mem_cons.mp member with same | later
    · cases same
      simp [get]
    · have apart : known ≠ key := by
        rintro rfl
        exact fresh (List.mem_map.mpr ⟨_, later, rfl⟩)
      rw [get, if_neg apart]
      exact ih others later

theorem get_eq_some_iff {m : OrderedMap κ α} (distinct : m.keys.Nodup) {key : κ} {value : α} :
    m.get key = some value ↔ (key, value) ∈ m := ⟨mem_of_get, get_of_mem distinct⟩

/-- **Maps that read alike have the same entries.** -/
theorem perm_of_get {m m' : OrderedMap κ α} (distinct : m.keys.Nodup) (distinct' : m'.keys.Nodup)
    (alike : ∀ key, m.get key = m'.get key) : m.Perm m' := by
  refine (List.perm_ext_iff_of_nodup (List.Nodup.of_map _ distinct)
    (List.Nodup.of_map _ distinct')).mpr ?_
  rintro ⟨key, value⟩
  rw [← get_eq_some_iff distinct, ← get_eq_some_iff distinct', alike]

/-- A new key is written last. -/
theorem set_of_not_mem {m : OrderedMap κ α} {key : κ} (fresh : key ∉ m.keys) (value : α) :
    m.set key value = m ++ [(key, value)] := by
  induction m with
  | nil => rfl
  | cons entry rest ih =>
    obtain ⟨known, old⟩ := entry
    obtain ⟨apart, later⟩ := List.ne_and_not_mem_of_not_mem_cons fresh
    rw [set, if_neg apart.symm, ih later]
    rfl

/-- Entries with distinct keys are the map that they build. -/
theorem ofEntries_of_nodup {entries : List (κ × α)} (distinct : (entries.map Prod.fst).Nodup) :
    ofEntries entries = entries := by
  have grown : ∀ m : OrderedMap κ α, (m.keys ++ entries.map Prod.fst).Nodup →
      entries.foldl (fun m entry => m.set entry.1 entry.2) m = m ++ entries := by
    clear distinct
    induction entries with
    | nil => exact fun m _ => (List.append_nil m).symm
    | cons entry entries ih =>
      intro m distinct
      obtain ⟨key, value⟩ := entry
      have fresh : key ∉ m.keys := by
        intro known
        exact List.disjoint_of_nodup_append distinct known List.mem_cons_self
      rw [List.foldl_cons, set_of_not_mem fresh, ih, List.append_assoc]
      · rfl
      · rw [keys, List.map_append, List.append_assoc]
        exact distinct
  exact grown [] distinct

/-- What a map built from entries with distinct keys reads. -/
theorem get_ofEntries {entries : List (κ × α)} (distinct : (entries.map Prod.fst).Nodup) (key : κ) :
    (ofEntries entries).get key = get entries key := by
  have grown : ∀ m : OrderedMap κ α, (entries.foldl (fun m entry => m.set entry.1 entry.2) m).get key =
      if key ∈ entries.map Prod.fst then get entries key else m.get key := by
    induction entries with
    | nil => exact fun m => rfl
    | cons entry entries ih =>
      intro m
      obtain ⟨known, value⟩ := entry
      obtain ⟨fresh, others⟩ := List.nodup_cons.mp distinct
      rw [List.foldl_cons, ih others, get_set]
      by_cases mine : known = key
      · subst mine
        simp [get, fresh]
      · have apart : key ≠ known := Ne.symm mine
        simp only [get, if_neg mine, List.map_cons, List.mem_cons, apart, false_or]
  rw [ofEntries, grown]
  by_cases member : key ∈ entries.map Prod.fst
  · rw [if_pos member]
  · rw [if_neg member, get_nil]
    exact (get_eq_none_iff.mpr member).symm

/-- **The order of entries with distinct keys does not matter to a reader.** -/
theorem get_ofEntries_perm {entries entries' : List (κ × α)} (same : entries.Perm entries')
    (distinct : (entries.map Prod.fst).Nodup) (key : κ) :
    (ofEntries entries).get key = (ofEntries entries').get key := by
  have distinct' := (same.map Prod.fst).nodup_iff.mp distinct
  rw [get_ofEntries distinct, get_ofEntries distinct']
  apply Option.ext
  intro value
  rw [get_eq_some_iff distinct, get_eq_some_iff distinct', same.mem_iff]

/-- Reading in the entries that pass a test. -/
theorem get_filter {m : OrderedMap κ α} (distinct : m.keys.Nodup) (test : α → Bool) (key : κ) :
    get (m.filter fun entry => test entry.2) key = (m.get key).filter (test ·) := by
  have distinct' : (keys (m.filter fun entry => test entry.2)).Nodup :=
    (List.filter_sublist.map Prod.fst).nodup distinct
  apply Option.ext
  intro value
  rw [get_eq_some_iff distinct', List.mem_filter, Option.filter_eq_some_iff,
    get_eq_some_iff distinct]

end OrderedMap

end Koklo.Foundations
