import Mathlib.Data.List.Basic

/-!
# Patterns

A pattern describes the texts that a regular expression without captures
matches from their first to their last unit. The relation `Matches` says which
ones these are; `accepts` decides it by derivatives, one unit at a time
(`accepts_iff`). A test that all units of a pattern pass is passed by every unit
of an accepted text (`Matches.forall_units`), and the parts of an accepted
sequence are accepted (`matches_text_seq`, `matches_plus_unit`).
-/

set_option autoImplicit false

namespace Koklo.Foundations

universe u

/-- A regular expression without captures, over any units. -/
inductive Pattern (α : Type u) where
  | never
  | empty
  | unit (test : α → Bool)
  | seq (p q : Pattern α)
  | alt (p q : Pattern α)
  | many (p : Pattern α)

namespace Pattern

variable {α : Type u}

/-- The texts that a pattern matches. A repetition is a sequence of texts of
which none is empty. -/
inductive Matches : Pattern α → List α → Prop
  | empty : Matches .empty []
  | unit {test : α → Bool} {a : α} : test a = true → Matches (.unit test) [a]
  | seq {p q : Pattern α} {s t : List α} : Matches p s → Matches q t → Matches (.seq p q) (s ++ t)
  | left {p q : Pattern α} {s : List α} : Matches p s → Matches (.alt p q) s
  | right {p q : Pattern α} {s : List α} : Matches q s → Matches (.alt p q) s
  | done {p : Pattern α} : Matches (.many p) []
  | more {p : Pattern α} {a : α} {s t : List α} :
      Matches p (a :: s) → Matches (.many p) t → Matches (.many p) (a :: (s ++ t))

/-! ## Deciding -/

/-- Whether the pattern matches the empty text. -/
def nullable : Pattern α → Bool
  | never => false
  | empty => true
  | unit _ => false
  | seq p q => p.nullable && q.nullable
  | alt p q => p.nullable || q.nullable
  | many _ => true

/-- What is left to match after one unit. -/
def after : Pattern α → α → Pattern α
  | never, _ => never
  | empty, _ => never
  | unit test, a => if test a then empty else never
  | seq p q, a =>
    if p.nullable then alt (seq (p.after a) q) (q.after a) else seq (p.after a) q
  | alt p q, a => alt (p.after a) (q.after a)
  | many p, a => seq (p.after a) (many p)

/-- Whether the pattern matches the whole text. -/
def accepts (p : Pattern α) : List α → Bool
  | [] => p.nullable
  | a :: s => (p.after a).accepts s

theorem nullable_iff {p : Pattern α} : p.nullable = true ↔ Matches p [] := by
  induction p with
  | never => exact ⟨(nomatch ·), (nomatch ·)⟩
  | empty => exact ⟨fun _ => .empty, fun _ => rfl⟩
  | unit test => exact ⟨(nomatch ·), (nomatch ·)⟩
  | seq p q ihp ihq =>
    rw [nullable, Bool.and_eq_true, ihp, ihq]
    constructor
    · rintro ⟨first, second⟩
      exact Matches.seq first second
    · intro both
      generalize split : ([] : List α) = w at both
      cases both with
      | seq first second =>
        obtain ⟨rfl, rfl⟩ := List.append_eq_nil_iff.mp split.symm
        exact ⟨first, second⟩
  | alt p q ihp ihq =>
    rw [nullable, Bool.or_eq_true, ihp, ihq]
    constructor
    · rintro (first | second)
      · exact .left first
      · exact .right second
    · intro either
      cases either with
      | left first => exact .inl first
      | right second => exact .inr second
  | many p _ => exact ⟨fun _ => .done, fun _ => rfl⟩

/-- **The rest of a match**: what is left after a unit matches what follows it. -/
theorem matches_after {p : Pattern α} {a : α} {w : List α} :
    Matches (p.after a) w ↔ Matches p (a :: w) := by
  induction p generalizing w with
  | never => exact ⟨(nomatch ·), (nomatch ·)⟩
  | empty => exact ⟨(nomatch ·), (nomatch ·)⟩
  | unit test =>
    by_cases passes : test a = true
    · rw [after, if_pos passes]
      constructor
      · intro h
        cases h
        exact .unit passes
      · intro h
        cases h
        exact .empty
    · rw [after, if_neg passes]
      constructor
      · intro h
        cases h
      · intro h
        cases h
        contradiction
  | seq p q ihp ihq =>
    have inside : Matches (.seq (p.after a) q) w ↔
        ∃ s t, w = s ++ t ∧ Matches p (a :: s) ∧ Matches q t := by
      constructor
      · intro h
        cases h with
        | seq first second => exact ⟨_, _, rfl, ihp.mp first, second⟩
      · rintro ⟨s, t, rfl, first, second⟩
        exact .seq (ihp.mpr first) second
    have split : Matches (.seq p q) (a :: w) ↔
        (∃ s t, w = s ++ t ∧ Matches p (a :: s) ∧ Matches q t) ∨
          (Matches p [] ∧ Matches q (a :: w)) := by
      constructor
      · intro h
        generalize whole : a :: w = v at h
        cases h with
        | @seq _ _ s t first second =>
          cases s with
          | nil =>
            rw [List.nil_append] at whole
            exact .inr ⟨first, whole ▸ second⟩
          | cons b s =>
            obtain ⟨rfl, rfl⟩ := List.cons.inj whole
            exact .inl ⟨s, t, rfl, first, second⟩
      · rintro (⟨s, t, rfl, first, second⟩ | ⟨first, second⟩)
        · exact Matches.seq first second
        · exact Matches.seq first second
    rw [split, ← nullable_iff, ← ihq, ← inside]
    by_cases skips : p.nullable = true
    · rw [after, if_pos skips]
      constructor
      · intro h
        cases h with
        | left first => exact .inl first
        | right second => exact .inr ⟨skips, second⟩
      · rintro (first | ⟨-, second⟩)
        · exact .left first
        · exact .right second
    · rw [after, if_neg skips]
      constructor
      · exact fun h => .inl h
      · rintro (first | ⟨skipped, -⟩)
        · exact first
        · exact absurd skipped skips
  | alt p q ihp ihq =>
    constructor
    · intro h
      cases h with
      | left first => exact .left (ihp.mp first)
      | right second => exact .right (ihq.mp second)
    · intro h
      cases h with
      | left first => exact .left (ihp.mpr first)
      | right second => exact .right (ihq.mpr second)
  | many p ih =>
    constructor
    · intro h
      cases h with
      | seq first rest => exact .more (ih.mp first) rest
    · intro h
      cases h with
      | more first rest => exact .seq (ih.mpr first) rest

/-- **The decision is right.** -/
theorem accepts_iff {p : Pattern α} {w : List α} : p.accepts w = true ↔ Matches p w := by
  induction w generalizing p with
  | nil => exact nullable_iff
  | cons a w ih => rw [accepts, ih, matches_after]

/-! ## Common patterns -/

/-- One text exactly. -/
def text [DecidableEq α] : List α → Pattern α
  | [] => empty
  | a :: s => seq (unit (· == a)) (text s)

/-- `p+`. -/
def plus (p : Pattern α) : Pattern α := seq p (many p)

/-- `p?`. -/
def optional (p : Pattern α) : Pattern α := alt p empty

/-- `p{n}`. -/
def times : ℕ → Pattern α → Pattern α
  | 0, _ => empty
  | n + 1, p => seq p (times n p)

/-- `p{n,}`. -/
def atLeast (n : ℕ) (p : Pattern α) : Pattern α := seq (times n p) (many p)

section Text

variable [DecidableEq α]

theorem matches_text {s w : List α} : Matches (text s) w ↔ w = s := by
  induction s generalizing w with
  | nil =>
    constructor
    · intro h
      cases h
      rfl
    · rintro rfl
      exact .empty
  | cons a s ih =>
    constructor
    · intro h
      cases h with
      | seq first rest =>
        cases first with
        | unit same => rw [ih.mp rest, beq_iff_eq.mp same, List.singleton_append]
    · rintro rfl
      have first : Matches (unit (· == a)) [a] := .unit (beq_iff_eq.mpr rfl)
      exact .seq first (ih.mpr rfl)

/-- A text and then a pattern. -/
theorem matches_text_seq {s w : List α} {p : Pattern α} :
    Matches (.seq (text s) p) w ↔ ∃ rest, w = s ++ rest ∧ Matches p rest := by
  constructor
  · intro h
    cases h with
    | seq first second => exact ⟨_, by rw [matches_text.mp first], second⟩
  · rintro ⟨rest, rfl, second⟩
    exact .seq (matches_text.mpr rfl) second

end Text

theorem matches_many_unit {test : α → Bool} {w : List α} :
    Matches (.many (.unit test)) w ↔ ∀ a ∈ w, test a = true := by
  constructor
  · intro h
    generalize shape : many (unit test) = p at h
    induction h with
    | done => exact fun a member => absurd member List.not_mem_nil
    | more first _ _ ih =>
      cases shape
      intro a member
      cases first with
      | unit passes =>
        rcases List.mem_cons.mp member with rfl | later
        · exact passes
        · exact ih rfl a later
    | _ => cases shape
  · intro all
    induction w with
    | nil => exact .done
    | cons a w ih =>
      have rest := ih fun b member => all b (List.mem_cons_of_mem _ member)
      exact .more (.unit (all a List.mem_cons_self)) rest

/-- One or more units that pass a test. -/
theorem matches_plus_unit {test : α → Bool} {w : List α} :
    Matches (plus (.unit test)) w ↔ w ≠ [] ∧ ∀ a ∈ w, test a = true := by
  constructor
  · intro h
    cases h with
    | seq first rest =>
      cases first with
      | unit passes =>
        refine ⟨List.cons_ne_nil _ _, fun a member => ?_⟩
        rcases List.mem_cons.mp member with rfl | later
        · exact passes
        · exact matches_many_unit.mp rest a later
  · rintro ⟨some, all⟩
    obtain ⟨a, s, rfl⟩ := List.exists_cons_of_ne_nil some
    exact .seq (.unit (all a List.mem_cons_self))
      (matches_many_unit.mpr fun b member => all b (List.mem_cons_of_mem _ member))

theorem matches_times_unit {test : α → Bool} {n : ℕ} {w : List α} :
    Matches (times n (.unit test)) w ↔ w.length = n ∧ ∀ a ∈ w, test a = true := by
  induction n generalizing w with
  | zero =>
    rw [times, List.length_eq_zero_iff]
    constructor
    · rintro ⟨⟩
      exact ⟨rfl, List.forall_mem_nil _⟩
    · rintro ⟨rfl, -⟩
      exact .empty
  | succ n ih =>
    rw [times]
    constructor
    · intro h
      cases h with
      | seq first rest =>
        cases first with
        | unit passes =>
          obtain ⟨length, all⟩ := ih.mp rest
          exact ⟨congrArg (· + 1) length, List.forall_mem_cons.mpr ⟨passes, all⟩⟩
    · rintro ⟨length, all⟩
      obtain ⟨a, s, rfl⟩ := List.exists_cons_of_length_eq_add_one length
      obtain ⟨passes, others⟩ := List.forall_mem_cons.mp all
      exact .seq (.unit passes) (ih.mpr ⟨Nat.succ.inj length, others⟩)

/-- Some units or more that pass a test. -/
theorem matches_atLeast_unit {test : α → Bool} {n : ℕ} {w : List α} :
    Matches (atLeast n (.unit test)) w ↔ n ≤ w.length ∧ ∀ a ∈ w, test a = true := by
  rw [atLeast]
  constructor
  · intro h
    cases h with
    | seq first rest =>
      obtain ⟨length, all⟩ := matches_times_unit.mp first
      rw [List.length_append, length]
      exact ⟨Nat.le_add_right _ _, List.forall_mem_append.mpr ⟨all, matches_many_unit.mp rest⟩⟩
  · rintro ⟨enough, all⟩
    rw [← List.take_append_drop n w] at all ⊢
    obtain ⟨first, rest⟩ := List.forall_mem_append.mp all
    exact .seq (matches_times_unit.mpr ⟨List.length_take_of_le enough, first⟩)
      (matches_many_unit.mpr rest)

/-! ## The units of a match -/

/-- Every unit that the pattern can match satisfies `ok`. -/
def Units (ok : α → Prop) : Pattern α → Prop
  | never | empty => True
  | unit test => ∀ a, test a = true → ok a
  | seq p q | alt p q => p.Units ok ∧ q.Units ok
  | many p => p.Units ok

/-- **The units of a matched text.** -/
theorem Matches.forall_units {ok : α → Prop} {p : Pattern α} {w : List α} (matched : Matches p w)
    (units : p.Units ok) : ∀ a ∈ w, ok a := by
  induction matched with
  | empty | done => exact fun a member => absurd member List.not_mem_nil
  | unit passes =>
    intro a member
    rw [List.mem_singleton.mp member]
    exact units _ passes
  | seq _ _ first second =>
    intro a member
    rcases List.mem_append.mp member with left | right
    · exact first units.1 a left
    · exact second units.2 a right
  | left _ ih => exact ih units.1
  | right _ ih => exact ih units.2
  | more _ _ first rest =>
    intro a member
    rw [← List.cons_append] at member
    rcases List.mem_append.mp member with left | right
    · exact first units a left
    · exact rest units a right

end Pattern

end Koklo.Foundations
