import Koklo.Foundations.JsonNumerals
import Koklo.Foundations.LargeNumbers
import Koklo.SpecPlan.Criteria

/-!
# What the numbering of criteria promises

A numbering is sound when the identifiers are distinct and well formed, when a
criterion bears an existing identifier exactly if it is matched, one to one and
in order, with the existing criterion of that identifier, and when every number
that is newly given is above all existing ones (`NumberedSoundly`).

The numbers of the identifiers are of any length and the next number is counted
in double precision. The numbering is sound exactly when the numbers given fit
(`numberCriteria_sound_iff`): up to `2 ^ 53` all do, and beyond only a single
criterion can still be added to some of the existing lists. It fails from the
first criterion that is added to one with the number `2 ^ 53`
(`numberCriteria_repeats`).
-/

set_option autoImplicit false

namespace Koklo.SpecPlan

open Foundations Schema

/-! ## Sound numberings -/

/-- The number that the digits of an identifier write, of whatever length. -/
def writtenNumber (id : Text) : ℕ := Text.decimal (id.drop 3)

/-- The highest number that an existing criterion bears, zero when there is none. -/
def highestWritten (existing : List Criterion) : ℕ :=
  existing.foldl (fun highest criterion => Nat.max highest (writtenNumber criterion.id)) 0

/-- The existing criterion that a submitted title is matched with: of those that have the title,
the one before which there are as many as it was submitted before. -/
def matchAt (existing : List Criterion) (titles : List Text) (place : ℕ) : Option Criterion :=
  titles[place]?.bind fun title =>
    (existing.filter (·.titre == title))[(titles.take place).count title]?

/-- What the numbering of submitted criteria promises. -/
structure NumberedSoundly (existing : List Criterion) (submitted : List SubmittedCriterion) :
    Prop where
  all : (numberCriteria existing submitted).length = submitted.length
  distinct : ((numberCriteria existing submitted).map Criterion.id).Nodup
  wellFormed : ∀ criterion ∈ numberCriteria existing submitted,
    Patterns.criterion.Matches criterion.id
  kept : ∀ (place : ℕ) (criterion : Criterion),
    (numberCriteria existing submitted)[place]? = some criterion → ∀ old ∈ existing,
      (criterion.id = old.id ↔
        matchAt existing (submitted.map SubmittedCriterion.titre) place = some old)
  above : ∀ (place : ℕ) (criterion : Criterion),
    (numberCriteria existing submitted)[place]? = some criterion →
      matchAt existing (submitted.map SubmittedCriterion.titre) place = none →
        ∀ old ∈ existing, writtenNumber old.id < writtenNumber criterion.id

/-- The numbers that follow the highest existing one fit the doubles and their texts. Beyond
`2 ^ 53` there is only one, and it exceeds the highest existing one: up to `2 ^ 54` by the
remainder of that one, and from there on when that one, read as a number and written again, grows
and keeps its digits. -/
def Fits (highest added : ℕ) : Prop :=
  added = 0 ∨ highest + added ≤ 2 ^ 53 ∨
    added = 1 ∧ (2 ^ 53 ≤ highest ∧ highest < 2 ^ 54 ∧ 2 ≤ highest % 4 ∨
      2 ^ 54 ≤ highest ∧ highest < 10 ^ 21 - 65536 ∧
        highest < Text.decimal (Number.nearest highest).toText)

instance : DecidableRel Fits := fun _ _ => instDecidableOr

example : Fits (2 ^ 53 + 2) 1 ∧ ¬ Fits (2 ^ 53) 1 := by decide +kernel

example : Fits (2 ^ 60) 1 ∧ ¬ Fits (2 ^ 54) 1 := by decide +kernel

/-! ## The matching -/

theorem filter_eraseP_same {α : Type*} (test : α → Bool) (l : List α) :
    (l.eraseP test).filter test = (l.filter test).tail := by
  induction l with
  | nil => rfl
  | cons first rest ih =>
    cases passes : test first with
    | true => rw [List.eraseP_cons_of_pos passes, List.filter_cons_of_pos passes, List.tail_cons]
    | false =>
      have fails : ¬ test first = true := by rw [passes]; exact Bool.false_ne_true
      rw [List.eraseP_cons_of_neg fails, List.filter_cons_of_neg fails,
        List.filter_cons_of_neg fails, ih]

theorem filter_eraseP_other {α : Type*} {test other : α → Bool}
    (apart : ∀ a, other a = true → test a = false) (l : List α) :
    (l.eraseP test).filter other = l.filter other := by
  induction l with
  | nil => rfl
  | cons first rest ih =>
    cases passes : test first with
    | true =>
      have fails : ¬ other first = true := fun passed => by
        rw [apart first passed] at passes
        cases passes
      rw [List.eraseP_cons_of_pos passes, List.filter_cons_of_neg fails]
    | false =>
      have fails : ¬ test first = true := by rw [passes]; exact Bool.false_ne_true
      rw [List.eraseP_cons_of_neg fails, List.filter_cons, List.filter_cons, ih]

/-- The first title is matched with the first criterion that has it. -/
theorem matchAt_zero (existing : List Criterion) (title : Text) (titles : List Text) :
    matchAt existing (title :: titles) 0 = existing.find? (·.titre == title) := by
  rw [matchAt, List.getElem?_cons_zero, Option.bind_some, List.take_zero, List.count_nil,
    ← List.head?_eq_getElem?, List.head?_filter]

/-- The other titles are matched with what the first one leaves. -/
theorem matchAt_succ (existing : List Criterion) (title : Text) (titles : List Text) (place : ℕ) :
    matchAt existing (title :: titles) (place + 1) =
      matchAt (existing.eraseP (·.titre == title)) titles place := by
  rw [matchAt, matchAt, List.getElem?_cons_succ]
  congr 1
  funext other
  rw [List.take_succ_cons]
  by_cases same : title = other
  · subst same
    rw [List.count_cons_self, filter_eraseP_same, List.getElem?_tail]
  · have apart : ∀ criterion : Criterion, (criterion.titre == other) = true →
        (criterion.titre == title) = false := by
      intro criterion titled
      rw [beq_iff_eq] at titled
      rw [titled]
      exact beq_false_of_ne (Ne.symm same)
    rw [List.count_cons_of_ne same, filter_eraseP_other apart]

theorem mem_of_matchAt {existing : List Criterion} {titles : List Text} {place : ℕ}
    {old : Criterion} (matched : matchAt existing titles place = some old) : old ∈ existing := by
  obtain ⟨title, _, found⟩ := Option.bind_eq_some_iff.mp matched
  exact (List.mem_filter.mp (List.mem_of_getElem? found)).1

/-! ## What is given -/

section Numbered

variable {unused : List Criterion} {highest : Number} {submitted : List SubmittedCriterion}

theorem length_numberFrom : (numberFrom unused highest submitted).length = submitted.length := by
  induction submitted generalizing unused highest with
  | nil => rfl
  | cons first rest ih =>
    rw [numberFrom]
    split
    · rw [List.length_cons, List.length_cons, ih]
    · rw [List.length_cons, List.length_cons, ih]

/-- A title that no criterion has takes none away. -/
theorem eraseP_of_absent {title : Text} (absent : unused.find? (·.titre == title) = none) :
    unused.eraseP (·.titre == title) = unused :=
  List.eraseP_of_forall_not fun criterion member =>
    List.find?_eq_none.mp absent criterion member

/-- **A submitted criterion** keeps the identifier it is matched with, or its number is counted
on. -/
theorem numberFrom_at {place : ℕ} {criterion : Criterion}
    (placed : (numberFrom unused highest submitted)[place]? = some criterion) :
    (∃ old, matchAt unused (submitted.map SubmittedCriterion.titre) place = some old ∧
        criterion.id = old.id) ∨
      (matchAt unused (submitted.map SubmittedCriterion.titre) place = none ∧
        ∃ n ∈ countingFrom highest (addedTitles unused submitted).length,
          criterion.id = criterionId n) := by
  induction submitted generalizing unused highest place with
  | nil => cases placed
  | cons first rest ih =>
    rw [numberFrom] at placed
    rw [List.map_cons]
    split at placed
    · rename_i found taken
      rw [addedTitles_found taken]
      cases place with
      | zero =>
        cases placed
        rw [matchAt_zero, taken]
        exact .inl ⟨found, rfl, rfl⟩
      | succ place =>
        rw [matchAt_succ]
        exact ih placed
    · rename_i absent
      rw [addedTitles_not_found absent, List.length_cons, countingFrom]
      cases place with
      | zero =>
        cases placed
        rw [matchAt_zero, absent]
        exact .inr ⟨rfl, _, List.mem_cons_self, rfl⟩
      | succ place =>
        rw [matchAt_succ, eraseP_of_absent absent]
        rcases ih placed with kept | ⟨unmatched, n, counted, same⟩
        · exact .inl kept
        · exact .inr ⟨unmatched, n, List.mem_cons_of_mem _ counted, same⟩

/-- Every number counted on is given, at a place that is not matched. -/
theorem exists_numberFrom {n : Number}
    (counted : n ∈ countingFrom highest (addedTitles unused submitted).length) :
    ∃ (place : ℕ) (criterion : Criterion),
      (numberFrom unused highest submitted)[place]? = some criterion ∧
        matchAt unused (submitted.map SubmittedCriterion.titre) place = none ∧
        criterion.id = criterionId n := by
  induction submitted generalizing unused highest with
  | nil =>
    rw [addedTitles, List.map_nil, List.nil_diff] at counted
    cases counted
  | cons first rest ih =>
    rw [numberFrom, List.map_cons]
    cases taken : unused.find? (·.titre == first.titre) with
    | some found =>
      rw [addedTitles_found taken] at counted
      obtain ⟨place, criterion, placed, unmatched, same⟩ := ih counted
      refine ⟨place + 1, criterion, placed, ?_, same⟩
      rw [matchAt_succ]
      exact unmatched
    | none =>
      rw [addedTitles_not_found taken, List.length_cons, countingFrom] at counted
      rcases List.mem_cons.mp counted with rfl | later
      · refine ⟨0, _, rfl, ?_, rfl⟩
        rw [matchAt_zero, taken]
      · obtain ⟨place, criterion, placed, unmatched, same⟩ := ih later
        refine ⟨place + 1, criterion, placed, ?_, same⟩
        rw [matchAt_succ, eraseP_of_absent taken]
        exact unmatched

/-- **The identifiers given** are, in some order, those of existing criteria, each kept once, and
those counted on. -/
theorem numberFrom_perm : ∃ kept : List Criterion, kept.Subperm unused ∧
    ((numberFrom unused highest submitted).map Criterion.id).Perm
      (kept.map Criterion.id ++
        (countingFrom highest (addedTitles unused submitted).length).map criterionId) := by
  induction submitted generalizing unused highest with
  | nil =>
    have none : addedTitles unused [] = [] := List.nil_diff _
    refine ⟨[], List.nil_subperm, ?_⟩
    rw [none]
    exact List.Perm.nil
  | cons first rest ih =>
    rw [numberFrom]
    cases taken : unused.find? (·.titre == first.titre) with
    | some found =>
      obtain ⟨kept, fewer, same⟩ := @ih (unused.eraseP (·.titre == first.titre)) highest
      refine ⟨found :: kept, ?_, ?_⟩
      · obtain ⟨titled, before, after, whole, others⟩ := List.find?_eq_some_iff_append.mp taken
        have rest : unused.eraseP (·.titre == first.titre) = before ++ after := by
          rw [whole, List.eraseP_append_right _ fun other member => by simpa using others other member]
          exact congrArg (before ++ ·) (List.eraseP_cons_of_pos titled)
        rw [rest] at fewer
        rw [whole]
        exact ((List.subperm_cons found).mpr fewer).trans List.perm_middle.symm.subperm
      · rw [addedTitles_found taken, List.map_cons, List.map_cons, List.cons_append]
        exact same.cons _
    | none =>
      obtain ⟨kept, fewer, same⟩ := @ih unused (nextNumber highest)
      refine ⟨kept, fewer, ?_⟩
      rw [addedTitles_not_found taken, List.length_cons, countingFrom, List.map_cons, List.map_cons]
      exact (same.cons _).trans List.perm_middle.symm

end Numbered

/-! ## Numbers that are fresh -/

/-- The identifiers of the numbers are distinct, well formed and above the existing ones. -/
def Fresh (existing : List Criterion) (numbers : List Number) : Prop :=
  (numbers.map criterionId).Nodup ∧ ∀ n ∈ numbers, Patterns.criterion.Matches (criterionId n) ∧
    ∀ old ∈ existing, writtenNumber old.id < writtenNumber (criterionId n)

/-- **A numbering is sound** if the numbers counted on are fresh, and only then. -/
theorem numberedSoundly_iff_fresh {existing : List Criterion} {submitted : List SubmittedCriterion}
    (distinct : (existing.map Criterion.id).Nodup)
    (wellFormed : ∀ old ∈ existing, Patterns.criterion.Matches old.id) :
    NumberedSoundly existing submitted ↔
      Fresh existing (countingFrom (highestNumber existing) (addedTitles existing submitted).length) := by
  obtain ⟨kept, fewer, same⟩ := @numberFrom_perm existing (highestNumber existing) submitted
  have inside {old : Criterion} (member : old ∈ kept) : old ∈ existing := fewer.subset member
  constructor
  · intro sound
    have parts := List.nodup_append.mp (same.nodup_iff.mp sound.distinct)
    refine ⟨parts.2.1, fun n counted => ?_⟩
    obtain ⟨place, criterion, placed, unmatched, given⟩ := exists_numberFrom counted
    rw [← given]
    exact ⟨sound.wellFormed criterion (List.mem_of_getElem? placed),
      sound.above place criterion placed unmatched⟩
  · rintro ⟨apart, fresh⟩
    refine ⟨length_numberFrom, ?_, ?_, ?_, ?_⟩
    · refine same.nodup_iff.mpr (List.nodup_append.mpr ⟨?_, apart, ?_⟩)
      · obtain ⟨chosen, reordered, within⟩ := fewer
        exact (reordered.map Criterion.id).nodup_iff.mp ((within.map Criterion.id).nodup distinct)
      · intro id first other second equal
        obtain ⟨old, member, rfl⟩ := List.mem_map.mp first
        obtain ⟨n, counted, rfl⟩ := List.mem_map.mp second
        have above := (fresh n counted).2 old (inside member)
        rw [← equal] at above
        exact lt_irrefl _ above
    · intro criterion member
      obtain ⟨place, placed⟩ := List.mem_iff_getElem?.mp member
      rcases numberFrom_at placed with ⟨old, matched, given⟩ | ⟨_, n, counted, given⟩
      · rw [given]
        exact wellFormed old (mem_of_matchAt matched)
      · rw [given]
        exact (fresh n counted).1
    · intro place criterion placed old member
      rcases numberFrom_at placed with ⟨other, matched, given⟩ | ⟨unmatched, n, counted, given⟩
      · rw [matched, given]
        constructor
        · intro equal
          exact congrArg some (List.inj_on_of_nodup_map distinct (mem_of_matchAt matched) member equal)
        · rintro ⟨⟩
          rfl
      · rw [unmatched, given]
        refine iff_of_false (fun equal => ?_) (Option.some_ne_none old).symm
        have above := (fresh n counted).2 old member
        rw [equal] at above
        exact lt_irrefl _ above
    · intro place criterion placed unmatched
      rcases numberFrom_at placed with ⟨other, matched, _⟩ | ⟨_, n, counted, given⟩
      · rw [matched] at unmatched
        cases unmatched
      · rw [given]
        exact (fresh n counted).2

/-! ## The highest number -/

theorem foldl_highest (criteria : List Criterion) (n : ℕ) :
    criteria.foldl (fun highest criterion => highest.max (numberOf criterion.id)) (Number.nearest n) =
      Number.nearest (criteria.foldl
        (fun highest criterion => Nat.max highest (writtenNumber criterion.id)) n : ℕ) := by
  induction criteria generalizing n with
  | nil => rfl
  | cons first rest ih =>
    have both : (Number.nearest n).max (numberOf first.id) =
        Number.nearest (Nat.max n (writtenNumber first.id) : ℕ) := Number.max_nearest n _
    rw [List.foldl_cons, List.foldl_cons, both]
    exact ih _

/-- The highest number is the double nearest to the highest one that is written. -/
theorem highestNumber_eq (existing : List Criterion) :
    highestNumber existing = Number.nearest (highestWritten existing : ℕ) := by
  have zero : Number.finite 0 = Number.nearest (0 : ℕ) :=
    (Number.nearest_natCast (Nat.zero_le _)).symm
  rw [highestNumber, zero, foldl_highest]
  rfl

theorem highestWritten_le_iff {existing : List Criterion} {bound : ℕ} :
    highestWritten existing ≤ bound ↔ ∀ old ∈ existing, writtenNumber old.id ≤ bound := by
  have general (n : ℕ) : existing.foldl
      (fun highest criterion => Nat.max highest (writtenNumber criterion.id)) n ≤ bound ↔
        n ≤ bound ∧ ∀ old ∈ existing, writtenNumber old.id ≤ bound := by
    induction existing generalizing n with
    | nil => simp
    | cons first rest ih =>
      rw [List.foldl_cons, ih, List.forall_mem_cons, ← and_assoc]
      exact and_congr_left' Nat.max_le
  rw [highestWritten, general]
  exact and_iff_right (Nat.zero_le _)

/-- A number is above the existing ones exactly when it is above the highest. -/
theorem above_iff {existing : List Criterion} {n : ℕ} (some : 0 < highestWritten existing) :
    (∀ old ∈ existing, writtenNumber old.id < n) ↔ highestWritten existing < n := by
  constructor
  · intro above
    have least : highestWritten existing ≤ n - 1 :=
      highestWritten_le_iff.mpr fun old member => Nat.le_sub_one_of_lt (above old member)
    omega
  · intro above old member
    exact (highestWritten_le_iff.mp le_rfl old member).trans_lt above

/-! ## The numbers counted on -/

@[simp] theorem writtenNumber_criterionId (n : Number) :
    writtenNumber (criterionId n) = Text.decimal n.toText := by
  rw [writtenNumber, criterionId]
  rfl

/-- An identifier is well formed when the text of its number has digits only. -/
theorem matches_criterionId {n : Number} : Patterns.criterion.Matches (criterionId n) ↔
    n.toText ≠ [] ∧ ∀ u ∈ n.toText, Text.isDigit u = true := by
  rw [Patterns.criterion, criterionId, Pattern.matches_text_seq]
  constructor
  · rintro ⟨rest, same, matched⟩
    rw [List.append_cancel_left same]
    exact Pattern.matches_plus_unit.mp matched
  · intro digits
    exact ⟨_, rfl, Pattern.matches_plus_unit.mpr digits⟩

/-- The text of a whole number up to `2 ^ 53`. -/
theorem toText_exact {n : ℕ} (small : n ≤ 2 ^ 53) : (Number.finite n).toText = Text.ofNat n := by
  rcases small.lt_or_eq with below | rfl
  · exact Number.toText_natCast below
  · exact Number.toText_of_four_dvd (by norm_num) le_rfl (by norm_num)

theorem nextNumber_exact {n : ℕ} (small : n + 1 ≤ 2 ^ 53) :
    nextNumber (.finite n) = .finite (n + 1 : ℕ) := by
  have next : nextNumber (.finite n) = Number.nearest (n + 1 : ℕ) := by
    rw [Nat.cast_add, Nat.cast_one]
    rfl
  rw [next, Number.nearest_natCast small]

/-- Up to `2 ^ 53` every number follows the one before. -/
theorem mem_countingFrom {n added : ℕ} (fits : n + added ≤ 2 ^ 53) :
    countingFrom (.finite n) added = (List.range' (n + 1) added).map fun m => .finite (m : ℕ) := by
  induction added generalizing n with
  | zero => rfl
  | succ added ih =>
    rw [countingFrom, nextNumber_exact (by omega), ih (by omega), List.range'_succ, List.map_cons]

/-- From a number that is unchanged by counting on, it is given again. -/
theorem not_nodup_of_stuck {highest : Number} {added : ℕ}
    (stuck : nextNumber (nextNumber highest) = nextNumber highest) :
    ¬ ((countingFrom highest (added + 2)).map criterionId).Nodup := by
  intro distinct
  rw [countingFrom, countingFrom, stuck, List.map_cons, List.map_cons] at distinct
  exact (List.nodup_cons.mp distinct).1 List.mem_cons_self

theorem nextNumber_limit : nextNumber (.finite (2 ^ 53 : ℕ)) = .finite (2 ^ 53 : ℕ) :=
  Number.add_one_of_four_dvd (by norm_num) le_rfl (by norm_num)

/-- **Beyond `2 ^ 53` a number is given twice.** -/
theorem not_nodup_of_lt {n added : ℕ} (below : n < 2 ^ 53) (beyond : 2 ^ 53 < n + added) :
    ¬ ((countingFrom (.finite n) added).map criterionId).Nodup := by
  induction added generalizing n with
  | zero => omega
  | succ added ih =>
    rw [countingFrom, nextNumber_exact below, List.map_cons]
    rcases Nat.lt_or_ge (n + 1) (2 ^ 53) with still | reached
    · exact fun distinct => ih still (by omega) (List.nodup_cons.mp distinct).2
    · obtain rfl : n = 2 ^ 53 - 1 := by omega
      obtain ⟨more, rfl⟩ : ∃ more, added = more + 1 := ⟨added - 1, by omega⟩
      intro distinct
      have again : criterionId (.finite (2 ^ 53 : ℕ)) ∈
          (countingFrom (.finite (2 ^ 53 : ℕ)) (more + 1)).map criterionId := by
        rw [countingFrom, nextNumber_limit]
        exact List.mem_cons_self
      exact (List.nodup_cons.mp distinct).1 again

/-- From `2 ^ 53` on, counting on is stuck after one number. -/
theorem nextNumber_stuck {n : ℕ} (large : 2 ^ 53 ≤ n) :
    nextNumber (nextNumber (Number.nearest n)) = nextNumber (Number.nearest n) := by
  rcases Nat.lt_or_ge n (2 ^ 54) with below | beyond
  · rw [nextNumber, nextNumber, Number.nearest_add_one large below]
    exact Number.add_one_of_four_dvd (Binary64.nextFour_mod n) (Binary64.le_nextFour large)
      (Binary64.nextFour_le below)
  · rw [nextNumber, nextNumber, Number.nearest_add_one_of_le beyond,
      Number.nearest_add_one_of_le beyond]

/-! ## When the numbers are fresh -/

section Fresh

variable {existing : List Criterion} {added : ℕ}

/-- Up to `2 ^ 53` every number counted on is fresh. -/
theorem fresh_of_le (fits : highestWritten existing + added ≤ 2 ^ 53) :
    Fresh existing (countingFrom (Number.nearest (highestWritten existing : ℕ)) added) := by
  rw [Number.nearest_natCast (by omega), mem_countingFrom fits]
  have exact {m : ℕ} (member : m ∈ List.range' (highestWritten existing + 1) added) :
      (Number.finite m).toText = Text.ofNat m :=
    toText_exact (by have := List.mem_range'_1.mp member; omega)
  constructor
  · rw [List.map_map]
    refine List.Nodup.map_on ?_ List.nodup_range'
    intro m first n second same
    have written := congrArg writtenNumber same
    simpa [exact first, exact second] using written
  · intro n counted
    obtain ⟨m, member, rfl⟩ := List.mem_map.mp counted
    rw [matches_criterionId, writtenNumber_criterionId, exact member, Text.decimal_ofNat]
    refine ⟨⟨Text.ofNat_ne_nil m, fun u digit => Text.isDigit_of_mem_ofNat digit⟩, fun old kept => ?_⟩
    have order := List.mem_range'_1.mp member
    exact (highestWritten_le_iff.mp le_rfl old kept).trans_lt (by omega)

/-- A single number from `2 ^ 53` on. -/
theorem fresh_singleton {n : Number} (some : 0 < highestWritten existing) :
    Fresh existing [n] ↔ Patterns.criterion.Matches (criterionId n) ∧
      highestWritten existing < Text.decimal n.toText := by
  rw [Fresh, List.forall_mem_singleton, above_iff some, writtenNumber_criterionId]
  exact and_iff_right (List.nodup_singleton _)

/-- **The number after one from `2 ^ 53` to `2 ^ 54`** is fresh or not by the remainder of that
one. -/
theorem fresh_next_iff (lower : 2 ^ 53 ≤ highestWritten existing)
    (upper : highestWritten existing < 2 ^ 54) :
    Fresh existing [nextNumber (Number.nearest (highestWritten existing : ℕ))] ↔
      2 ≤ highestWritten existing % 4 := by
  have text := Number.toText_of_four_dvd (Binary64.nextFour_mod (highestWritten existing))
    (Binary64.le_nextFour lower) (Binary64.nextFour_le upper)
  rw [fresh_singleton (by omega), nextNumber, Number.nearest_add_one lower upper,
    matches_criterionId, text, Text.decimal_ofNat, Binary64.lt_nextFour_iff]
  exact and_iff_right ⟨Text.ofNat_ne_nil _, fun u digit => Text.isDigit_of_mem_ofNat digit⟩

/-- **The number after one from `2 ^ 54` on** is that one, read and written again. -/
theorem fresh_again_iff (large : 2 ^ 54 ≤ highestWritten existing) :
    Fresh existing [nextNumber (Number.nearest (highestWritten existing : ℕ))] ↔
      highestWritten existing < 10 ^ 21 - 65536 ∧ highestWritten existing <
        Text.decimal (Number.nearest (highestWritten existing : ℕ)).toText := by
  rw [fresh_singleton (by omega), nextNumber, Number.nearest_add_one_of_le large]
  refine and_congr_left' ?_
  rw [matches_criterionId, ← Number.round_lt_iff]
  have least : (2 : ℚ) ^ 54 ≤ Binary64.round (highestWritten existing : ℕ) := by
    have order := Binary64.round_mono
      (show ((2 ^ 54 : ℕ) : ℚ) ≤ highestWritten existing by exact_mod_cast large)
    rw [Binary64.round_even (by norm_num) le_rfl] at order
    exact_mod_cast order
  have positive : 0 < Binary64.round (highestWritten existing : ℕ) :=
    lt_of_lt_of_le (by norm_num) least
  rcases Number.nearest_natCast_cases (highestWritten existing) with ⟨value, wide⟩ | ⟨value, _⟩
  · have wider : (10 : ℚ) ^ 21 < 2 ^ 1024 := by
      calc (10 : ℚ) ^ 21 < 2 ^ 70 := by norm_num
        _ ≤ 2 ^ 1024 := pow_le_pow_right₀ (by norm_num) (by norm_num)
    rw [value]
    refine iff_of_false (fun digits => ?_) (not_lt.mpr (wider.le.trans wide))
    have letter := digits.2 (0x49) (by decide)
    revert letter
    decide
  · rw [value, Number.toText, if_neg positive.ne', if_pos positive,
      ← Number.digits_positiveText (Binary64.round_round _) (le_trans (by norm_num) least)]
    refine and_iff_right ?_
    intro empty
    obtain ⟨x, numeral, _⟩ := Json.numeral_positiveText ⟨Binary64.round_round _, by
      rw [abs_of_pos positive]; assumption⟩ positive
    obtain ⟨u, tail, shape, _⟩ := numeral.starts
    rw [shape] at empty
    cases empty

/-- **The numbers counted on are fresh exactly when they fit.** -/
theorem fresh_iff_fits : Fresh existing
    (countingFrom (Number.nearest (highestWritten existing : ℕ)) added) ↔
      Fits (highestWritten existing) added := by
  rcases Nat.lt_or_ge (2 ^ 53) (highestWritten existing + added) with beyond | fits
  swap
  · exact iff_of_true (fresh_of_le fits) (.inr (.inl fits))
  rcases Nat.lt_or_ge (highestWritten existing) (2 ^ 53) with below | large
  · refine iff_of_false (fun fresh => ?_) ?_
    · rw [Number.nearest_natCast below.le] at fresh
      exact not_nodup_of_lt below beyond fresh.1
    · rintro (none | fits | ⟨_, ⟨lower, _⟩ | ⟨lower, _⟩⟩) <;> omega
  · match added with
    | 0 =>
      refine iff_of_true ⟨List.nodup_nil, fun n counted => ?_⟩ (.inl rfl)
      cases counted
    | 1 =>
      rw [countingFrom, countingFrom]
      rcases Nat.lt_or_ge (highestWritten existing) (2 ^ 54) with upper | larger
      · rw [fresh_next_iff large upper, Fits]
        omega
      · rw [fresh_again_iff larger, Fits]
        omega
    | more + 2 =>
      refine iff_of_false (fun fresh => ?_) ?_
      · exact not_nodup_of_stuck (nextNumber_stuck large) fresh.1
      · rintro (none | fits | ⟨one, _⟩) <;> omega

end Fresh

/-! ## When the numbering is sound -/

/-- **The criteria are numbered soundly exactly when the numbers counted on fit.** -/
theorem numberCriteria_sound_iff {existing : List Criterion}
    (distinct : (existing.map Criterion.id).Nodup)
    (wellFormed : ∀ old ∈ existing, Patterns.criterion.Matches old.id)
    (submitted : List SubmittedCriterion) :
    NumberedSoundly existing submitted ↔
      Fits (highestWritten existing) (addedTitles existing submitted).length := by
  rw [numberedSoundly_iff_fresh distinct wellFormed, highestNumber_eq, fresh_iff_fits]

/-- A criterion without steps. -/
def titled (id titre : String) : Criterion := ⟨Text.lit id, Text.lit titre, []⟩

/-- Criteria submitted by their titles. -/
def submittedTitles (titles : List String) : List SubmittedCriterion :=
  titles.map fun title => ⟨Text.lit title, []⟩

theorem numberCriteria_sound_iff_reordered :
    NumberedSoundly [titled "AC-1" "A", titled "AC-3" "C"] (submittedTitles ["C", "A", "D"]) := by
  refine (numberCriteria_sound_iff (by decide) ?_ _).mpr (by decide +kernel)
  exact List.forall_mem_cons.mpr ⟨Pattern.accepts_iff.mp (by decide),
    List.forall_mem_singleton.mpr (Pattern.accepts_iff.mp (by decide))⟩

/-- **From `2 ^ 53` on the number of an existing criterion is given again.** -/
theorem numberCriteria_repeats : ¬ ∀ (existing : List Criterion),
    (existing.map Criterion.id).Nodup →
      (∀ old ∈ existing, Patterns.criterion.Matches old.id) →
        ∀ submitted : List SubmittedCriterion, NumberedSoundly existing submitted := by
  intro always
  have sound := always [titled "AC-9007199254740992" "A"] (by decide)
    (List.forall_mem_singleton.mpr (Pattern.accepts_iff.mp (by decide)))
    (submittedTitles ["A", "B"])
  have given : (numberCriteria [titled "AC-9007199254740992" "A"]
      (submittedTitles ["A", "B"])).map Criterion.id =
        [Text.lit "AC-9007199254740992", Text.lit "AC-9007199254740992"] := by decide +kernel
  have distinct := sound.distinct
  rw [given] at distinct
  exact (List.nodup_cons.mp distinct).1 List.mem_cons_self

end Koklo.SpecPlan
