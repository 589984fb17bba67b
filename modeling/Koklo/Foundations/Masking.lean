import Mathlib.Data.List.Infix

/-!
# Masking the matches of a list

The matches of a list are found from the left, each after the end of the one before, and give
way to a mask. What a finder answers at a place may depend on the item before it.

A list that cannot overlap the mask (`Apart`) is found in the result only where it already
stood, at a place that was tried and did not match (`exists_of_replaceFrom`). So what always
matches is nowhere in the result (`not_infix_replaceFrom`), and what was nowhere is not created
(`infix_of_infix_replaceFrom`).
-/

set_option autoImplicit false

namespace Koklo.Foundations.Masking

universe u

variable {α : Type u}

/-- How many items match at a place, after the item before it; zero when none does. -/
abbrev Finder (α : Type u) := Option α → List α → ℕ

/-- A match does not go past the end. -/
def Finder.Sound (find : Finder α) : Prop := ∀ before list, find before list ≤ list.length

/-- The pieces between the matches; the first `skip` items belong to a match. -/
def pieces (find : Finder α) : Option α → ℕ → List α → List (List α)
  | _, _, [] => [[]]
  | _, skip + 1, a :: list => pieces find (some a) skip list
  | before, 0, a :: list =>
    match find before (a :: list) with
    | 0 => (pieces find (some a) 0 list).modifyHead (a :: ·)
    | n + 1 => [] :: pieces find (some a) n list

/-- The list with a mask for each match; the first `skip` items belong to a match. -/
def replaceFrom (find : Finder α) (mask : List α) : Option α → ℕ → List α → List α
  | _, _, [] => []
  | _, skip + 1, a :: list => replaceFrom find mask (some a) skip list
  | before, 0, a :: list =>
    match find before (a :: list) with
    | 0 => a :: replaceFrom find mask (some a) 0 list
    | n + 1 => mask ++ replaceFrom find mask (some a) n list

theorem pieces_ne_nil (find : Finder α) (before : Option α) (skip : ℕ) (list : List α) :
    pieces find before skip list ≠ [] := by
  induction list generalizing before skip with
  | nil => cases skip <;> exact List.cons_ne_nil _ _
  | cons a list ih =>
    cases skip with
    | succ skip => exact ih (some a) skip
    | zero =>
      rw [pieces]
      cases find before (a :: list) with
      | zero =>
        obtain ⟨piece, others, shape⟩ := List.exists_cons_of_ne_nil (ih (some a) 0)
        simp only [shape, List.modifyHead_cons]
        exact List.cons_ne_nil _ _
      | succ n => exact List.cons_ne_nil _ _

/-- **Joining the pieces with the mask masks the matches.** -/
theorem intercalate_pieces (find : Finder α) (mask : List α) (before : Option α) (skip : ℕ)
    (list : List α) :
    mask.intercalate (pieces find before skip list) = replaceFrom find mask before skip list := by
  induction list generalizing before skip with
  | nil => cases skip <;> exact List.intercalate_singleton
  | cons a list ih =>
    cases skip with
    | succ skip => exact ih (some a) skip
    | zero =>
      rw [pieces, replaceFrom]
      cases find before (a :: list) with
      | zero =>
        show mask.intercalate ((pieces find (some a) 0 list).modifyHead (a :: ·)) = _
        rw [← ih]
        obtain ⟨piece, others, shape⟩ := List.exists_cons_of_ne_nil (pieces_ne_nil find (some a) 0 list)
        rw [shape, List.modifyHead_cons]
        cases others with
        | nil => rw [List.intercalate_singleton, List.intercalate_singleton]
        | cons other others =>
          rw [List.intercalate_cons_cons, List.intercalate_cons_cons]
          rfl
      | succ n =>
        show mask.intercalate ([] :: pieces find (some a) n list) = _
        obtain ⟨piece, others, shape⟩ := List.exists_cons_of_ne_nil (pieces_ne_nil find (some a) n list)
        rw [shape, List.intercalate_cons_cons, ← shape, ih]
        rfl

/-! ## What is tried -/

section Tried

variable {find : Finder α} {mask : List α}

/-- The item before a place. -/
def endOf (before : Option α) (list : List α) : Option α := list.getLast?.or before

@[simp] theorem endOf_nil (before : Option α) : endOf before [] = before := rfl

@[simp] theorem endOf_cons (before : Option α) (a : α) (list : List α) :
    endOf before (a :: list) = endOf (some a) list := by
  rw [endOf, endOf, List.getLast?_cons]
  cases list.getLast? <;> rfl

theorem endOf_append (before : Option α) (list more : List α) :
    endOf before (list ++ more) = endOf (endOf before list) more := by
  induction list generalizing before with
  | nil => rfl
  | cons a list ih => rw [List.cons_append, endOf_cons, endOf_cons, ih]

/-- Every place of `kept` was tried, and none matches. -/
def Tried (find : Finder α) (before : Option α) (kept rest : List α) : Prop :=
  ∀ first last, kept = first ++ last → last ≠ [] → find (endOf before first) (last ++ rest) = 0

theorem Tried.drop {before : Option α} {first kept rest : List α}
    (tried : Tried find before (first ++ kept) rest) : Tried find (endOf before first) kept rest := by
  rintro middle last rfl some
  rw [← endOf_append]
  exact tried (first ++ middle) last (List.append_assoc ..).symm some

/-- What matches nowhere is kept. -/
theorem replaceFrom_kept {before : Option α} {kept rest : List α}
    (tried : Tried find before kept rest) :
    replaceFrom find mask before 0 (kept ++ rest) =
      kept ++ replaceFrom find mask (endOf before kept) 0 rest := by
  induction kept generalizing before with
  | nil => rfl
  | cons a kept ih =>
    have here : find before (a :: (kept ++ rest)) = 0 := tried [] _ rfl (List.cons_ne_nil _ _)
    have later : Tried find (some a) kept rest := by
      have dropped := @Tried.drop _ find before [a] kept rest tried
      rwa [endOf_cons, endOf_nil] at dropped
    rw [List.cons_append, replaceFrom, here, endOf_cons]
    show a :: replaceFrom find mask (some a) 0 (kept ++ rest) = _
    rw [ih later]
    rfl

theorem replaceFrom_skip {before : Option α} {n : ℕ} {list : List α} (inside : n ≤ list.length) :
    replaceFrom find mask before n list =
      replaceFrom find mask (endOf before (list.take n)) 0 (list.drop n) := by
  induction n generalizing before list with
  | zero => rfl
  | succ n ih =>
    cases list with
    | nil => cases Nat.not_succ_le_zero n inside
    | cons a list =>
      rw [replaceFrom, ih (Nat.le_of_succ_le_succ inside), List.take_succ_cons, List.drop_succ_cons,
        endOf_cons]

/-- A match gives way to the mask. -/
theorem replaceFrom_match {before : Option α} {list : List α} (sound : find.Sound)
    (found : 0 < find before list) :
    replaceFrom find mask before 0 list =
      mask ++ replaceFrom find mask (endOf before (list.take (find before list))) 0
        (list.drop (find before list)) := by
  have inside := sound before list
  cases list with
  | nil => exact absurd found (Nat.not_lt.mpr inside)
  | cons a list =>
    rw [replaceFrom]
    cases length : find before (a :: list) with
    | zero => exact absurd length found.ne'
    | succ n =>
      rw [length] at inside
      show mask ++ replaceFrom find mask (some a) n list = _
      rw [replaceFrom_skip (Nat.le_of_succ_le_succ inside), List.take_succ_cons, List.drop_succ_cons,
        endOf_cons]

/-- A list starts with what matches nowhere, and then ends or matches. -/
theorem exists_tried (find : Finder α) (before : Option α) (list : List α) :
    ∃ kept rest, list = kept ++ rest ∧ Tried find before kept rest ∧
      (rest = [] ∨ 0 < find (endOf before kept) rest) := by
  induction list generalizing before with
  | nil =>
    refine ⟨[], [], rfl, fun first last split some => ?_, .inl rfl⟩
    exact absurd (List.append_eq_nil_iff.mp split.symm).2 some
  | cons a list ih =>
    rcases Nat.eq_zero_or_pos (find before (a :: list)) with none | found
    · obtain ⟨kept, rest, rfl, tried, ends⟩ := ih (some a)
      refine ⟨a :: kept, rest, rfl, fun first last split some => ?_, by rwa [endOf_cons]⟩
      cases first with
      | nil =>
        rw [List.nil_append] at split
        rw [← split]
        exact none
      | cons b first =>
        obtain ⟨rfl, split'⟩ := List.cons.inj split
        rw [endOf_cons]
        exact tried first last split' some
    · refine ⟨[], a :: list, rfl, fun first last split some => ?_, .inr found⟩
      exact absurd (List.append_eq_nil_iff.mp split.symm).2 some

/-- What matches nowhere is left as it is. -/
theorem replaceFrom_of_none {before : Option α} {list : List α}
    (none : ∀ first last, list = first ++ last → last ≠ [] → find (endOf before first) last = 0) :
    replaceFrom find mask before 0 list = list := by
  have tried : Tried find before list [] := by
    intro first last split some
    rw [List.append_nil]
    exact none first last split some
  have kept := @replaceFrom_kept _ find mask before list [] tried
  rwa [List.append_nil, replaceFrom, List.append_nil] at kept

end Tried

/-! ## How far matching gets -/

/-- Matching stops at the end of `first`, which has become `masked`: no match goes past it. -/
inductive Reaches (find : Finder α) (mask : List α) :
    Option α → List α → List α → List α → Prop
  | here {before : Option α} {rest : List α} : Reaches find mask before [] [] rest
  | keep {before : Option α} {a : α} {first masked rest : List α} :
      find before (a :: (first ++ rest)) = 0 → Reaches find mask (some a) first masked rest →
        Reaches find mask before (a :: first) (a :: masked) rest
  | skip {before : Option α} {matched first masked rest : List α} : matched ≠ [] →
      find before (matched ++ (first ++ rest)) = matched.length →
      Reaches find mask (endOf before matched) first masked rest →
        Reaches find mask before (matched ++ first) (mask ++ masked) rest

section Reaches

variable {find : Finder α} {mask : List α}

/-- Matching gets past what matches nowhere. -/
theorem Reaches.of_tried {before : Option α} {kept first masked rest : List α}
    (tried : Tried find before kept (first ++ rest))
    (later : Reaches find mask (endOf before kept) first masked rest) :
    Reaches find mask before (kept ++ first) (kept ++ masked) rest := by
  induction kept generalizing before with
  | nil => exact later
  | cons a kept ih =>
    have here := tried [] _ rfl (List.cons_ne_nil _ _)
    have dropped := @Tried.drop _ find before [a] kept _ tried
    rw [endOf_cons, endOf_nil] at dropped
    rw [endOf_cons] at later
    refine .keep ?_ (ih dropped later)
    show find before (a :: (kept ++ first ++ rest)) = 0
    rwa [List.append_assoc]

/-- What is reached is masked as it is, whatever follows. -/
theorem Reaches.replaceFrom_eq (sound : find.Sound) {before : Option α} {first masked rest : List α}
    (reaches : Reaches find mask before first masked rest) :
    replaceFrom find mask before 0 (first ++ rest) =
      masked ++ replaceFrom find mask (endOf before first) 0 rest := by
  induction reaches with
  | here => rfl
  | keep none _ ih =>
    rw [List.cons_append, replaceFrom, none, endOf_cons]
    exact congrArg _ ih
  | @skip before matched first masked rest some found _ ih =>
    have positive : 0 < find before (matched ++ (first ++ rest)) :=
      found ▸ List.length_pos_of_ne_nil some
    rw [List.append_assoc, replaceFrom_match sound positive, found, List.take_left, List.drop_left,
      ih, endOf_append, List.append_assoc]

/-- The same matching stops there, when another rest changes no match. -/
theorem Reaches.congr {before : Option α} {first masked rest stop : List α}
    (reaches : Reaches find mask before first masked stop)
    (same : ∀ start last, first = start ++ last → last ≠ [] →
      find (endOf before start) (last ++ rest) = find (endOf before start) (last ++ stop)) :
    Reaches find mask before first masked rest := by
  induction reaches with
  | here => exact .here
  | @keep before a first masked stop none _ ih =>
    refine .keep ?_ (ih fun start last split some => ?_)
    · rw [← none]
      exact same [] (a :: first) rfl (List.cons_ne_nil _ _)
    · have here := same (a :: start) last (congrArg (a :: ·) split) some
      rwa [endOf_cons] at here
  | @skip before matched first masked stop some found _ ih =>
    refine .skip some ?_ (ih fun start last split some' => ?_)
    · have here := same [] (matched ++ first) rfl (List.append_ne_nil_of_left_ne_nil some _)
      rw [List.append_assoc, List.append_assoc] at here
      exact here.trans found
    · have here := same (matched ++ start) last (by rw [split, List.append_assoc]) some'
      rwa [endOf_append] at here

/-- Matching gets to the end. -/
theorem reaches_end (sound : find.Sound) (before : Option α) (whole : List α) :
    Reaches find mask before whole (replaceFrom find mask before 0 whole) [] := by
  induction length : whole.length using Nat.strong_induction_on generalizing before whole with
  | _ n ih =>
    subst length
    obtain ⟨kept, tail, rfl, tried, ends⟩ := exists_tried find before whole
    rw [replaceFrom_kept tried]
    refine .of_tried (by rwa [List.append_nil]) ?_
    rcases ends with rfl | found
    · exact .here
    · have inside := sound (endOf before kept) tail
      have split := List.take_append_drop (find (endOf before kept) tail) tail
      have shorter : (tail.drop (find (endOf before kept) tail)).length < (kept ++ tail).length := by
        rw [List.length_drop, List.length_append]
        omega
      have later := ih _ shorter (endOf (endOf before kept) (tail.take (find (endOf before kept) tail)))
        _ rfl
      rw [replaceFrom_match sound found]
      have stops := @Reaches.skip _ find mask _ _ _ _ [] ?_ ?_ later
      · rwa [split] at stops
      · exact List.ne_nil_of_length_pos (by rw [List.length_take_of_le inside]; exact found)
      · rw [List.append_nil, split, List.length_take_of_le inside]

/-- **The end of what is reached is kept**, or a match ends there. -/
theorem Reaches.sameEnd {before : Option α} {first masked rest : List α}
    (reaches : Reaches find mask before first masked rest) :
    masked.getLast? = first.getLast? ∨ ∃ start matched, first = start ++ matched ∧ matched ≠ [] ∧
      find (endOf before start) (matched ++ rest) = matched.length := by
  induction reaches with
  | here => exact .inl rfl
  | @keep before a first masked rest _ _ ih =>
    rcases ih with same | ⟨start, matched, rfl, some, found⟩
    · exact .inl (by rw [List.getLast?_cons, List.getLast?_cons, same])
    · exact .inr ⟨a :: start, matched, rfl, some, by rwa [endOf_cons]⟩
  | @skip before matched first masked rest some found _ ih =>
    rcases ih with same | ⟨start, other, rfl, some', found'⟩
    · cases item : first.getLast? with
      | none =>
        rw [List.getLast?_eq_none_iff] at item
        subst item
        exact .inr ⟨[], matched, List.append_nil _, some, found⟩
      | some a =>
        left
        rw [List.getLast?_append, List.getLast?_append, same, item]
        rfl
    · exact .inr ⟨matched ++ start, other, (List.append_assoc ..).symm, some',
        by rwa [endOf_append]⟩

/-- **Two parts are masked on their own**, when what follows the first changes no match in it. -/
theorem replaceFrom_append (sound : find.Sound) {before : Option α} {first rest : List α}
    (same : ∀ start last, first = start ++ last → last ≠ [] →
      find (endOf before start) (last ++ rest) = find (endOf before start) last) :
    replaceFrom find mask before 0 (first ++ rest) =
      replaceFrom find mask before 0 first ++ replaceFrom find mask (endOf before first) 0 rest := by
  have ended := @reaches_end _ find mask sound before first
  refine Reaches.replaceFrom_eq sound (ended.congr fun start last split some => ?_)
  rw [List.append_nil]
  exact same start last split some

end Reaches

/-! ## What does not overlap the mask -/

/-- A list that stands on one side of the mask, wherever it stands. -/
def Apart (mask list : List α) : Prop :=
  ∀ left right before after, left ++ mask ++ right = before ++ list ++ after →
    (∃ middle, left = before ++ list ++ middle ∧ after = middle ++ mask ++ right) ∨
      ∃ middle, before = left ++ mask ++ middle ∧ right = middle ++ list ++ after

/-- A list without `a` stands on one side of it. -/
theorem append_cons_eq_append {a : α} {left right before list after : List α} (fresh : a ∉ list)
    (same : left ++ a :: right = before ++ list ++ after) :
    (∃ middle, left = before ++ list ++ middle ∧ after = middle ++ a :: right) ∨
      ∃ middle, before = left ++ a :: middle ∧ right = middle ++ list ++ after := by
  rcases List.append_eq_append_iff.mp same with ⟨rest, whole, tail⟩ | ⟨rest, whole, tail⟩
  · rcases List.append_eq_append_iff.mp whole with ⟨part, inside, shape⟩ | ⟨part, inside, shape⟩
    · -- `left` ends inside of the list, which then ends where `left` does.
      cases rest with
      | nil =>
        rw [List.append_nil] at shape
        subst shape
        exact .inl ⟨[], by rw [inside, List.append_nil], tail.symm⟩
      | cons b rest =>
        obtain ⟨rfl, _⟩ := List.cons.inj tail
        have member : a ∈ list := shape ▸ List.mem_append_right _ List.mem_cons_self
        exact absurd member fresh
    · -- `left` ends before the list starts.
      subst shape
      cases part with
      | nil =>
        cases list with
        | nil =>
          rw [List.append_nil] at inside
          exact .inl ⟨[], by rw [inside, List.append_nil, List.append_nil], tail.symm⟩
        | cons b list =>
          obtain ⟨rfl, _⟩ := List.cons.inj tail
          exact absurd List.mem_cons_self fresh
      | cons b part =>
        obtain ⟨rfl, shape⟩ := List.cons.inj tail
        exact .inr ⟨part, inside, shape⟩
  · exact .inl ⟨rest, whole, tail⟩

/-- **A list without the ends of the mask that is no piece of it does not overlap it.** -/
theorem apart_of_not_mem {first last : α} {middle list : List α} (left : first ∉ list)
    (right : last ∉ list) (inside : ¬ list <:+: middle) :
    Apart (first :: middle ++ [last]) list := by
  intro before after start rest same
  have opened : before ++ first :: (middle ++ last :: after) = start ++ list ++ rest := by
    rw [← same, List.cons_append, List.append_assoc, List.cons_append, List.append_assoc]
    rfl
  rcases append_cons_eq_append left opened with ⟨part, here, shape⟩ | ⟨part, here, shape⟩
  · refine .inl ⟨part, here, ?_⟩
    rw [shape, List.cons_append, List.append_assoc, List.cons_append, List.append_assoc]
    rfl
  · rcases append_cons_eq_append right shape with ⟨part', here', _⟩ | ⟨part', here', shape'⟩
    · exact absurd ⟨part, part', here'.symm⟩ inside
    · refine .inr ⟨part', ?_, shape'⟩
      rw [here, here', List.cons_append, List.append_assoc, List.cons_append, List.append_assoc]
      rfl

/-! ## What is found in the result -/

section Found

variable {find : Finder α} {mask list : List α}

/-- **What does not overlap the mask stands in the result where it stood in the list**, at a
place that was reached and did not match; what follows it is masked on its own. -/
theorem exists_of_replaceFrom (sound : find.Sound) (apart : Apart mask list) (some : list ≠ [])
    {before : Option α} {whole masked after : List α}
    (same : replaceFrom find mask before 0 whole = masked ++ list ++ after) :
    ∃ first rest, whole = first ++ list ++ rest ∧ find (endOf before first) (list ++ rest) = 0 ∧
      after = replaceFrom find mask (endOf before (first ++ list)) 0 rest ∧
      Reaches find mask before first masked (list ++ rest) := by
  induction length : whole.length using Nat.strong_induction_on generalizing before whole masked with
  | _ n ih =>
    subst length
    -- What is kept up to the first match, if there is one.
    obtain ⟨kept, tail, rfl, tried, ends⟩ := exists_tried find before whole
    have inKept : ∀ middle, kept = masked ++ list ++ middle →
        after = middle ++ replaceFrom find mask (endOf before kept) 0 tail →
        ∃ first rest, kept ++ tail = first ++ list ++ rest ∧
          find (endOf before first) (list ++ rest) = 0 ∧
          after = replaceFrom find mask (endOf before (first ++ list)) 0 rest ∧
          Reaches find mask before first masked (list ++ rest) := by
      rintro middle rfl shape
      refine ⟨masked, middle ++ tail, ?_, ?_, ?_, ?_⟩
      · rw [List.append_assoc]
      · have here := tried masked (list ++ middle) (List.append_assoc ..)
          (List.append_ne_nil_of_left_ne_nil some _)
        rwa [List.append_assoc] at here
      · rw [replaceFrom_kept tried.drop, ← endOf_append]
        exact shape
      · have start : Tried find before masked (list ++ (middle ++ tail)) := by
          rintro first last rfl some'
          have here := tried first (last ++ (list ++ middle)) (by simp only [List.append_assoc])
            (List.append_ne_nil_of_left_ne_nil some' _)
          simpa only [List.append_assoc] using here
        have reached := @Reaches.of_tried _ find mask before masked [] [] _ start .here
        rwa [List.append_nil] at reached
    rw [replaceFrom_kept tried] at same
    rcases ends with rfl | found
    · rw [replaceFrom, List.append_nil] at same
      apply inKept after same
      rw [replaceFrom, List.append_nil]
    · -- The list stands before the first mask, or after it.
      rw [replaceFrom_match sound found] at same
      have inside := sound (endOf before kept) tail
      obtain ⟨matched, later, rfl, size⟩ : ∃ matched later, tail = matched ++ later ∧
          matched.length = find (endOf before kept) tail :=
        ⟨tail.take _, tail.drop _, (List.take_append_drop _ _).symm, List.length_take_of_le inside⟩
      rw [← size, List.take_left, List.drop_left, ← List.append_assoc] at same
      rcases apart _ _ _ _ same with ⟨middle, here, shape⟩ | ⟨middle, here, shape⟩
      · apply inKept middle here
        rw [shape, replaceFrom_match sound found, ← size, List.take_left, List.drop_left,
          List.append_assoc]
      · have positive : 0 < matched.length := size ▸ found
        have shorter : later.length < (kept ++ (matched ++ later)).length := by
          rw [List.length_append, List.length_append]
          omega
        obtain ⟨first, rest, rfl, none, follows, reaches⟩ := ih _ shorter shape rfl
        have nonempty : matched ≠ [] := List.ne_nil_of_length_pos positive
        refine ⟨kept ++ matched ++ first, rest, ?_, ?_, ?_, ?_⟩
        · simp only [List.append_assoc]
        · rwa [endOf_append, endOf_append]
        · rw [follows, List.append_assoc (kept ++ matched), endOf_append _ (kept ++ matched),
            endOf_append _ kept]
        · rw [here, List.append_assoc, List.append_assoc]
          apply Reaches.of_tried
          · simpa only [List.append_assoc] using tried
          · refine .skip nonempty ?_ reaches
            rw [size]
            simp only [List.append_assoc]

/-- **What stands nowhere in the list stands nowhere in the result.** -/
theorem infix_of_infix_replaceFrom (sound : find.Sound) (apart : Apart mask list) (some : list ≠ [])
    {before : Option α} {whole : List α} (found : list <:+: replaceFrom find mask before 0 whole) :
    list <:+: whole := by
  obtain ⟨masked, after, same⟩ := found
  obtain ⟨first, rest, shape, _⟩ := exists_of_replaceFrom sound apart some same.symm
  exact ⟨first, rest, shape.symm⟩

/-- **What always matches stands nowhere in the result.** -/
theorem not_infix_replaceFrom (sound : find.Sound) (apart : Apart mask list) (some : list ≠ [])
    (always : ∀ before rest, 0 < find before (list ++ rest)) {before : Option α} {whole : List α} :
    ¬ list <:+: replaceFrom find mask before 0 whole := by
  rintro ⟨masked, after, same⟩
  obtain ⟨first, rest, _, none, _⟩ := exists_of_replaceFrom sound apart some same.symm
  exact absurd none (always _ rest).ne'

end Found

end Koklo.Foundations.Masking
