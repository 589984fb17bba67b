import Mathlib.Data.List.Infix

/-!
# Patterns with jokers

A pattern is a list whose jokers stand for any run of items, and whose other items stand for
one item each (`Wildcards.Matches`). A joker is passed over, or absorbs the first item of the
list (`matches_joker_cons`).

When the items stand for themselves, the last joker that was met decides alone: what stands
before it need not be tried again (`matches_joker_run_joker`), and after a mismatch the joker
absorbs one more item (`matches_joker_run_of_mismatch`). This is what makes a search that
remembers only its last joker complete.
-/

set_option autoImplicit false

namespace Koklo.Foundations.Wildcards

universe u v

variable {α : Type u} {β : Type v}

/-- A pattern matches a list: its jokers stand for any run of items. -/
inductive Matches (joker : α) (stands : α → β → Prop) : List α → List β → Prop
  | nil : Matches joker stands [] []
  | joker {pattern : List α} {rest : List β} (run : List β) (matched : Matches joker stands pattern rest) :
    Matches joker stands (joker :: pattern) (run ++ rest)
  | item {a : α} {b : β} {pattern : List α} {rest : List β} (other : a ≠ joker) (one : stands a b)
    (matched : Matches joker stands pattern rest) : Matches joker stands (a :: pattern) (b :: rest)

section Cases

variable {joker : α} {stands : α → β → Prop} {pattern : List α} {list : List β}

theorem matches_nil_iff : Matches joker stands [] list ↔ list = [] := by
  constructor
  · intro matched
    cases matched
    rfl
  · rintro rfl
    exact .nil

/-- **A joker absorbs a run.** -/
theorem matches_joker_iff : Matches joker stands (joker :: pattern) list ↔
    ∃ run rest, list = run ++ rest ∧ Matches joker stands pattern rest := by
  constructor
  · intro matched
    cases matched with
    | joker run matched => exact ⟨run, _, rfl, matched⟩
    | item other => exact absurd rfl other
  · rintro ⟨run, rest, rfl, matched⟩
    exact .joker run matched

theorem Matches.skip (matched : Matches joker stands pattern list) :
    Matches joker stands (joker :: pattern) list := .joker [] matched

/-- A joker that matches a list matches any longer one. -/
theorem Matches.absorb (run : List β) (matched : Matches joker stands (joker :: pattern) list) :
    Matches joker stands (joker :: pattern) (run ++ list) := by
  obtain ⟨run', rest, rfl, rest_⟩ := matches_joker_iff.mp matched
  rw [← List.append_assoc]
  exact .joker _ rest_

theorem matches_joker_nil :
    Matches joker stands (joker :: pattern) ([] : List β) ↔ Matches joker stands pattern [] := by
  refine ⟨fun matched => ?_, Matches.skip⟩
  obtain ⟨run, rest, empty, matched⟩ := matches_joker_iff.mp matched
  rwa [(List.append_eq_nil_iff.mp empty.symm).2] at matched

/-- **A joker is passed over, or absorbs the first item.** -/
theorem matches_joker_cons {b : β} : Matches joker stands (joker :: pattern) (b :: list) ↔
    Matches joker stands pattern (b :: list) ∨ Matches joker stands (joker :: pattern) list := by
  constructor
  · intro matched
    obtain ⟨run, rest, same, matched⟩ := matches_joker_iff.mp matched
    cases run with
    | nil => exact .inl (same ▸ matched)
    | cons b' run =>
      right
      rw [(List.cons.inj same).2]
      exact .joker run matched
  · rintro (matched | matched)
    · exact matched.skip
    · exact matched.absorb [b]

/-- An item that is not a joker stands for one item. -/
theorem matches_item_iff {a : α} (other : a ≠ joker) : Matches joker stands (a :: pattern) list ↔
    ∃ b rest, list = b :: rest ∧ stands a b ∧ Matches joker stands pattern rest := by
  constructor
  · intro matched
    cases matched with
    | joker => exact absurd rfl other
    | item _ one matched => exact ⟨_, _, rfl, one, matched⟩
  · rintro ⟨b, rest, rfl, one, matched⟩
    exact .item other one matched

/-- Only jokers match the empty list. -/
theorem matches_empty_iff :
    Matches joker stands pattern ([] : List β) ↔ ∀ a ∈ pattern, a = joker := by
  induction pattern with
  | nil => exact iff_of_true .nil (List.forall_mem_nil _)
  | cons a pattern ih =>
    rw [List.forall_mem_cons]
    by_cases same : a = joker
    · subst same
      rw [matches_joker_nil, ih, and_iff_right rfl]
    · refine iff_of_false (fun matched => ?_) fun all => same all.1
      obtain ⟨b, rest, empty, _⟩ := (matches_item_iff same).mp matched
      cases empty

end Cases

/-! ## Items that stand for themselves -/

section Literal

variable {joker : α} {pattern run list : List α}

/-- A run without joker stands for itself. -/
theorem matches_run_iff (literal : joker ∉ run) : Matches joker Eq (run ++ pattern) list ↔
    ∃ rest, list = run ++ rest ∧ Matches joker Eq pattern rest := by
  induction run generalizing list with
  | nil => simp
  | cons a run ih =>
    obtain ⟨other, literal⟩ := List.ne_and_not_mem_of_not_mem_cons literal
    rw [List.cons_append, matches_item_iff other.symm]
    constructor
    · rintro ⟨b, rest, rfl, rfl, matched⟩
      obtain ⟨last, rfl, later⟩ := (ih literal).mp matched
      exact ⟨last, rfl, later⟩
    · rintro ⟨rest, rfl, matched⟩
      exact ⟨a, run ++ rest, rfl, rfl, (ih literal).mpr ⟨rest, rfl, matched⟩⟩

theorem matches_run_append (literal : joker ∉ run) :
    Matches joker Eq (run ++ pattern) (run ++ list) ↔ Matches joker Eq pattern list := by
  rw [matches_run_iff literal]
  constructor
  · rintro ⟨rest, same, matched⟩
    rwa [List.append_cancel_left same]
  · exact fun matched => ⟨list, rfl, matched⟩

/-- **A later joker decides alone.** -/
theorem matches_joker_run_joker (literal : joker ∉ run) :
    Matches joker Eq (joker :: (run ++ joker :: pattern)) (run ++ list) ↔
      Matches joker Eq (joker :: pattern) list := by
  constructor
  · intro matched
    obtain ⟨skipped, rest, same, after⟩ := matches_joker_iff.mp matched
    obtain ⟨last, rfl, later⟩ := (matches_run_iff literal).mp after
    -- What is left is an end of the list, which the joker reaches.
    have short : last.length ≤ list.length := by
      have lengths := congrArg List.length same
      simp only [List.length_append] at lengths
      omega
    have isEnd : last <:+ list := by
      apply List.suffix_of_suffix_length_le _ (List.suffix_append run list) short
      exact ⟨skipped ++ run, by rw [same, List.append_assoc]⟩
    obtain ⟨absorbed, rfl⟩ := isEnd
    exact later.absorb absorbed
  · exact fun matched => ((matches_run_append literal).mpr matched).skip

/-- **After a mismatch the joker absorbs one more item.** -/
theorem matches_joker_run_of_mismatch {a : α} (literal : joker ∉ run)
    (mismatch : ¬ Matches joker Eq pattern (a :: list)) :
    Matches joker Eq (joker :: (run ++ pattern)) (run ++ a :: list) ↔
      Matches joker Eq (joker :: (run ++ pattern)) (run ++ a :: list).tail := by
  obtain ⟨b, rest, shape⟩ : ∃ b rest, run ++ a :: list = b :: rest := by
    cases run with
    | nil => exact ⟨a, list, rfl⟩
    | cons b run => exact ⟨b, run ++ a :: list, rfl⟩
  have here : ¬ Matches joker Eq (run ++ pattern) (b :: rest) := by
    rw [← shape, matches_run_append literal]
    exact mismatch
  rw [shape, matches_joker_cons, or_iff_right here, List.tail_cons]

/-- At the end of the list, what follows the run must match nothing. -/
theorem matches_joker_run_end (literal : joker ∉ run) :
    Matches joker Eq (joker :: (run ++ pattern)) run ↔ ∀ a ∈ pattern, a = joker := by
  rw [← @matches_empty_iff α α joker Eq pattern]
  constructor
  · intro matched
    obtain ⟨skipped, rest, same, after⟩ := matches_joker_iff.mp matched
    obtain ⟨last, rfl, later⟩ := (matches_run_iff literal).mp after
    have empty : last = [] := by
      have lengths := congrArg List.length same
      simp only [List.length_append] at lengths
      exact List.eq_nil_of_length_eq_zero (by omega)
    rwa [empty] at later
  · intro matched
    have whole := ((matches_run_append literal).mpr matched).skip
    rwa [List.append_nil] at whole

end Literal

end Koklo.Foundations.Wildcards
