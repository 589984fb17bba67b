import Mathlib.Data.Fintype.Card
import Koklo.Schema.EmittedFile

/-!
# Where the lines of a body stand

A body has two sections that are read, each under the first line that bears its title and up to the
next line that opens a section. A line that stands in neither is read by nobody. When the two titles
are there, every visible line stands in one of them exactly when the body opens no other section and
nothing visible precedes the first one (`forall_stands_iff`).
-/

set_option autoImplicit false

namespace Koklo.Schema

open Koklo.Foundations

/-- Whether a line opens the section of a title. -/
def isTitle (title : Pattern CodeUnit) (line : Text) : Bool :=
  isSection line && title.accepts (Text.trim (line.drop 2))

/-- The line at an index is the first one that bears a title. -/
def Opens (body : List Text) (title : Pattern CodeUnit) (index : ℕ) : Prop :=
  body.findIdx? (isTitle title) = some index

/-- The line at an index stands under a title, before the next section. -/
def Under (body : List Text) (title : Pattern CodeUnit) (index : ℕ) : Prop :=
  ∃ start < index, Opens body title start ∧
    ∀ j, start < j → j ≤ index → ∀ line ∈ body[j]?, isSection line = false

/-- The body opens the two sections and no other, and nothing visible precedes them. -/
structure TwoSections (body : List Text) : Prop where
  before : ∀ line ∈ body.takeWhile (!isSection ·), Text.trim line = []
  two : (body.filter isSection).length = 2

/-- An item is taken when it passes the test, as all items before it do. -/
theorem mem_takeWhile {α : Type} {test : α → Bool} {list : List α} {index : ℕ} {a : α}
    (here : list[index]? = some a) (all : ∀ j ≤ index, ∀ b ∈ list[j]?, test b = true) :
    a ∈ list.takeWhile test := by
  induction list generalizing index with
  | nil => cases here
  | cons first rest ih =>
    rw [List.takeWhile_cons_of_pos (all 0 (Nat.zero_le _) first rfl)]
    cases index with
    | zero =>
      cases here
      exact List.mem_cons_self
    | succ index =>
      refine List.mem_cons_of_mem _ (ih here fun j le b member => ?_)
      exact all (j + 1) (Nat.succ_le_succ le) b member

/-- An item that is taken passes the test, and so do all items before it. -/
theorem exists_of_mem_takeWhile {α : Type} {test : α → Bool} {list : List α} {a : α}
    (member : a ∈ list.takeWhile test) :
    ∃ index : ℕ, list[index]? = some a ∧ ∀ j ≤ index, ∀ b ∈ list[j]?, test b = true := by
  obtain ⟨index, here⟩ := List.mem_iff_getElem?.mp member
  have bound := (List.getElem?_eq_some_iff.mp here).1
  have kept : ∀ j ≤ index, list[j]? = (list.takeWhile test)[j]? := by
    intro j le
    obtain ⟨rest, shape⟩ := List.takeWhile_prefix (l := list) test
    conv_lhs => rw [← shape]
    exact List.getElem?_append_left (le.trans_lt bound)
  refine ⟨index, (kept index le_rfl).trans here, fun j le b known => ?_⟩
  rw [kept j le] at known
  exact List.mem_takeWhile_imp (List.mem_of_getElem? known)

/-- The last item up to an index that passes a test, if there is one. -/
theorem last_or_none {α : Type} (test : α → Bool) (list : List α) (index : ℕ) :
    (∃ start ≤ index, (∃ a, list[start]? = some a ∧ test a = true) ∧
      ∀ j, start < j → j ≤ index → ∀ b ∈ list[j]?, test b = false) ∨
    ∀ j ≤ index, ∀ b ∈ list[j]?, test b = false := by
  by_cases passing : ∃ a, list[index]? = some a ∧ test a = true
  · exact .inl ⟨index, le_rfl, passing, fun j after before => absurd before (not_le.mpr after)⟩
  · have failing : ∀ b ∈ list[index]?, test b = false := fun b here =>
      Bool.eq_false_iff.mpr fun passes => passing ⟨b, here, passes⟩
    cases index with
    | zero =>
      refine .inr fun j le => ?_
      rw [Nat.le_zero.mp le]
      exact failing
    | succ index =>
      rcases last_or_none test list index with ⟨start, le, passed, after⟩ | none
      · refine .inl ⟨start, le.trans (Nat.le_succ _), passed, fun j later before => ?_⟩
        rcases Nat.le_succ_iff.mp before with within | rfl
        · exact after j later within
        · exact failing
      · refine .inr fun j before => ?_
        rcases Nat.le_succ_iff.mp before with within | rfl
        · exact none j within
        · exact failing

section Opening

variable {body : List Text} {title : Pattern CodeUnit} {index : ℕ} {line : Text}

/-- A section that is read is opened. -/
theorem exists_opens {found : List Text} (read : sectionLines body title = some found) :
    ∃ start, Opens body title start := by
  rw [sectionLines] at read
  split at read
  · cases read
  · rename_i first rest shape
    have member : first ∈ body :=
      (List.dropWhile_suffix _).subset (shape ▸ List.mem_cons_self)
    have stopped := List.head?_dropWhile_not (!isTitle title ·) body
    rw [show body.dropWhile (!isTitle title ·) = first :: rest from shape] at stopped
    exact ⟨_, List.findIdx?_eq_some_of_exists ⟨first, member, (by simpa using stopped)⟩⟩

theorem Opens.isTitle (opens : Opens body title index) :
    ∃ line, body[index]? = some line ∧ Schema.isTitle title line = true := by
  obtain ⟨inside, titled, -⟩ := List.findIdx?_eq_some_iff_getElem.mp opens
  exact ⟨body[index], List.getElem?_eq_getElem inside, titled⟩

/-- The lines that are read under a title. -/
theorem Opens.sectionLines (opens : Opens body title index) :
    Schema.sectionLines body title = some ((body.drop (index + 1)).takeWhile (!isSection ·)) := by
  obtain ⟨inside, first⟩ := List.findIdx?_eq_some_iff_findIdx_eq.mp opens
  have stopped : body.dropWhile (!Schema.isTitle title ·) =
      body[index] :: body.drop (index + 1) := by
    rw [List.dropWhile_eq_drop_findIdx_not]
    simp only [Bool.not_not]
    rw [first, List.drop_eq_getElem_cons inside]
  unfold Schema.isTitle at stopped
  rw [Schema.sectionLines, stopped]

/-- **A line under a title is read.** -/
theorem Under.read (under : Under body title index) (here : body[index]? = some line) :
    ∃ found, Schema.sectionLines body title = some found ∧ line ∈ found := by
  obtain ⟨start, before, opens, inside⟩ := under
  refine ⟨_, opens.sectionLines, ?_⟩
  obtain ⟨offset, rfl⟩ := Nat.exists_eq_add_of_lt before
  have shifted : ∀ j, (body.drop (start + 1))[j]? = body[start + j + 1]? := by
    intro j
    rw [List.getElem?_drop, Nat.add_right_comm]
  refine mem_takeWhile ((shifted offset).trans here) fun j le other member => ?_
  rw [shifted] at member
  rw [inside _ (by omega) (by omega) other member]
  rfl

end Opening

/-! ## Two sections -/

/-- The items that pass a test, by their indexes. -/
theorem length_filter_eq_card {α : Type} (test : α → Bool) (list : List α) :
    (list.filter test).length =
      (Finset.univ.filter fun index : Fin list.length => test (list.get index) = true).card := by
  have indexed : list.filter test =
      ((List.finRange list.length).filter (test ∘ list.get)).map list.get := by
    rw [← List.filter_map, List.map_get_finRange]
  rw [indexed, List.length_map, ← List.toFinset_card_of_nodup ((List.nodup_finRange _).filter _)]
  refine congrArg Finset.card (Finset.ext fun index => ?_)
  rw [List.mem_toFinset, List.mem_filter, Finset.mem_filter]
  exact ⟨fun listed => ⟨Finset.mem_univ _, listed.2⟩, fun known => ⟨List.mem_finRange _, known.2⟩⟩

/-- **Two items pass a test and no other does.** -/
theorem length_filter_eq_two_iff {α : Type} {test : α → Bool} {list : List α} {a b : ℕ} {x y : α}
    (first : list[a]? = some x) (second : list[b]? = some y) (passes : test x = true)
    (passes' : test y = true) (apart : a ≠ b) :
    (list.filter test).length = 2 ↔
      ∀ index item, list[index]? = some item → test item = true → index = a ∨ index = b := by
  obtain ⟨inside, rfl⟩ := List.getElem?_eq_some_iff.mp first
  obtain ⟨inside', rfl⟩ := List.getElem?_eq_some_iff.mp second
  have pair : ({⟨a, inside⟩, ⟨b, inside'⟩} : Finset (Fin list.length)).card = 2 :=
    Finset.card_pair fun same => apart (Fin.mk.inj same)
  have known : ({⟨a, inside⟩, ⟨b, inside'⟩} : Finset (Fin list.length)) ⊆
      Finset.univ.filter fun index : Fin list.length => test (list.get index) = true := by
    intro index member
    rw [Finset.mem_filter]
    rcases Finset.mem_insert.mp member with rfl | other
    · exact ⟨Finset.mem_univ _, passes⟩
    · rw [Finset.mem_singleton.mp other]
      exact ⟨Finset.mem_univ _, passes'⟩
  rw [length_filter_eq_card]
  constructor
  · intro two index item here passing
    obtain ⟨bound, rfl⟩ := List.getElem?_eq_some_iff.mp here
    have whole := Finset.eq_of_subset_of_card_le known (two.trans pair.symm).le
    have member : (⟨index, bound⟩ : Fin list.length) ∈
        Finset.univ.filter fun index : Fin list.length => test (list.get index) = true :=
      Finset.mem_filter.mpr ⟨Finset.mem_univ _, passing⟩
    rw [← whole] at member
    rcases Finset.mem_insert.mp member with same | other
    · exact .inl (Fin.mk.inj same)
    · exact .inr (Fin.mk.inj (Finset.mem_singleton.mp other))
  · intro only
    rw [← pair]
    refine congrArg Finset.card (Finset.Subset.antisymm ?_ known)
    intro index member
    obtain ⟨-, passing⟩ := Finset.mem_filter.mp member
    rcases only index _ (List.getElem?_eq_getElem index.isLt) passing with same | same
    · exact Finset.mem_insert.mpr (.inl (Fin.ext same))
    · exact Finset.mem_insert.mpr (.inr (Finset.mem_singleton.mpr (Fin.ext same)))

/-- A line that opens one of the two sections, or stands in it. -/
def Stands (body : List Text) (index : ℕ) : Prop :=
  ∃ title ∈ [descriptionPattern, criteriaPattern], Opens body title index ∨ Under body title index

/-- No line bears both titles. -/
theorem title_apart {line : Text} (described : isTitle descriptionPattern line = true) :
    isTitle criteriaPattern line = false := by
  obtain ⟨-, accepted⟩ := Bool.and_eq_true_iff.mp described
  have name : Text.trim (line.drop 2) = Text.lit "Description" :=
    Pattern.matches_text.mp (Pattern.accepts_iff.mp accepted)
  rw [isTitle, name, Bool.and_eq_false_iff]
  exact .inr (by decide)

section Bodies

variable {body : List Text} {index : ℕ} {line : Text}

theorem isSection_of_isTitle {title : Pattern CodeUnit} (titled : isTitle title line = true) :
    isSection line = true :=
  (Bool.and_eq_true_iff.mp titled).1

/-- A line that opens a section is visible. -/
theorem visible_of_isSection (opens : isSection line = true) : Text.trim line ≠ [] := by
  obtain ⟨u, rest, rfl, -⟩ := isSection_iff.mp opens
  exact visible_of_head (by decide)

/-- Before the first section, no line stands in one. -/
theorem not_stands_before
    (quiet : ∀ j ≤ index, ∀ other ∈ body[j]?, isSection other = false) : ¬ Stands body index := by
  rintro ⟨title, -, opens | ⟨start, before, opens, -⟩⟩
  · obtain ⟨other, there, titled⟩ := opens.isTitle
    have silent := quiet index le_rfl other there
    rw [isSection_of_isTitle titled] at silent
    cases silent
  · obtain ⟨other, there, titled⟩ := opens.isTitle
    have silent := quiet start before.le other there
    rw [isSection_of_isTitle titled] at silent
    cases silent

/-- A line that opens a section stands in none. -/
theorem opens_of_stands (here : body[index]? = some line) (opening : isSection line = true)
    (stands : Stands body index) :
    ∃ title ∈ [descriptionPattern, criteriaPattern], Opens body title index := by
  obtain ⟨title, known, opens | ⟨start, before, -, inside⟩⟩ := stands
  · exact ⟨title, known, opens⟩
  · rw [inside index before le_rfl line here] at opening
    cases opening

/-- **Every visible line stands in a section** when the body has its two sections only. -/
theorem forall_stands_iff {a b : ℕ} (described : Opens body descriptionPattern a)
    (listed : Opens body criteriaPattern b) :
    (∀ index line, body[index]? = some line → Text.trim line ≠ [] → Stands body index) ↔
      TwoSections body := by
  obtain ⟨first, there, titled⟩ := described.isTitle
  obtain ⟨second, there', titled'⟩ := listed.isTitle
  have apart : a ≠ b := by
    rintro rfl
    obtain rfl : first = second := Option.some.inj (there.symm.trans there')
    rw [title_apart titled] at titled'
    cases titled'
  have only := length_filter_eq_two_iff there there' (isSection_of_isTitle titled)
    (isSection_of_isTitle titled') apart
  constructor
  · intro stands
    refine ⟨?_, only.mpr ?_⟩
    · intro line member
      obtain ⟨index, here, quiet⟩ := exists_of_mem_takeWhile member
      by_contra visible
      refine not_stands_before (fun j le other there => ?_) (stands index line here visible)
      simpa using quiet j le other there
    · intro index line here opening
      obtain ⟨title, known, opens⟩ :=
        opens_of_stands here opening (stands index line here (visible_of_isSection opening))
      rcases List.mem_pair.mp known with rfl | rfl
      · exact .inl (Option.some.inj (opens.symm.trans described))
      · exact .inr (Option.some.inj (opens.symm.trans listed))
  · rintro ⟨blank, two⟩ index line here visible
    rcases last_or_none isSection body index with ⟨start, le, opening, inside⟩ | quiet
    · -- The last line to open a section is one of the two titles.
      obtain ⟨head, there, opens⟩ := opening
      have whose : ∃ title ∈ [descriptionPattern, criteriaPattern], Opens body title start := by
        rcases only.mp two start head there opens with rfl | rfl
        · exact ⟨_, List.mem_cons_self, described⟩
        · exact ⟨_, List.mem_cons_of_mem _ List.mem_cons_self, listed⟩
      obtain ⟨title, known, opens⟩ := whose
      rcases le.eq_or_lt with rfl | before
      · exact ⟨title, known, .inl opens⟩
      · exact ⟨title, known, .inr ⟨start, before, opens, inside⟩⟩
    · refine absurd (blank line (mem_takeWhile here fun j le other there => ?_)) visible
      rw [quiet j le other there]
      rfl

end Bodies

end Koklo.Schema
