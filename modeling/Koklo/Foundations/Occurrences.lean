import Mathlib.Data.List.Infix

/-!
# Occurrences of a pattern in a text

The number of places at which a pattern stands in a text. A pattern without the separator has its
occurrences on one side of it (`occurrences_append_separator`), and a pattern that occurs once cuts
the text in one way (`append_pattern_inj`).
-/

set_option autoImplicit false

namespace Koklo.Foundations

universe u

variable {α : Type u}

theorem prefix_append_separator {pattern text rest : List α} {separator : α}
    (absent : separator ∉ pattern) :
    pattern <+: text ++ separator :: rest ↔ pattern <+: text := by
  constructor
  · intro starts
    by_cases short : pattern.length ≤ text.length
    · exact List.prefix_of_prefix_length_le starts (List.prefix_append _ _) short
    · have through : text ++ [separator] <+: pattern := by
        have whole : text ++ [separator] <+: text ++ separator :: rest :=
          ⟨rest, (List.append_cons _ _ _).symm⟩
        apply List.prefix_of_prefix_length_le whole starts
        rw [List.length_append, List.length_singleton]
        omega
      exact absurd (through.subset (List.mem_append_right _ (List.mem_singleton_self _))) absent
  · exact fun starts => starts.trans (List.prefix_append _ _)

variable [DecidableEq α]

/-- The number of places at which a pattern stands. -/
def occurrences (pattern text : List α) : ℕ := text.tails.countP fun rest => pattern.isPrefixOf rest

theorem occurrences_cons (pattern : List α) (unit : α) (text : List α) :
    occurrences pattern (unit :: text) =
      occurrences pattern text + if pattern <+: unit :: text then 1 else 0 := by
  simp only [occurrences, List.tails_cons, List.countP_cons, List.isPrefixOf_iff_prefix]

theorem occurrences_nil {pattern : List α} (some : pattern ≠ []) : occurrences pattern [] = 0 := by
  rw [occurrences, List.countP_eq_zero]
  intro rest member
  have empty : rest = [] := List.suffix_nil.mp ((List.mem_tails _ _).mp member)
  rw [empty, List.isPrefixOf_iff_prefix, List.prefix_nil]
  exact some

/-- A pattern occurs when it is a part of the text. -/
theorem occurrences_pos_iff {pattern text : List α} :
    0 < occurrences pattern text ↔ pattern <:+: text := by
  rw [occurrences, List.countP_pos_iff, List.infix_iff_prefix_suffix]
  constructor
  · rintro ⟨rest, member, starts⟩
    exact ⟨rest, List.isPrefixOf_iff_prefix.mp starts, (List.mem_tails _ _).mp member⟩
  · rintro ⟨rest, starts, ends⟩
    exact ⟨rest, (List.mem_tails _ _).mpr ends, List.isPrefixOf_iff_prefix.mpr starts⟩

theorem occurrences_eq_zero_iff {pattern text : List α} :
    occurrences pattern text = 0 ↔ ¬ pattern <:+: text := by
  rw [← occurrences_pos_iff, Nat.pos_iff_ne_zero, not_not]

/-- A pattern does not occur in a text that lacks one of its units. -/
theorem occurrences_eq_zero_of_not_mem {pattern text : List α} {unit : α} (member : unit ∈ pattern)
    (absent : unit ∉ text) : occurrences pattern text = 0 := by
  rw [occurrences_eq_zero_iff]
  intro inside
  exact absent (inside.subset member)

/-- **A pattern without the separator occurs on one side of it.** -/
theorem occurrences_append_separator {pattern : List α} {separator : α} (some : pattern ≠ [])
    (absent : separator ∉ pattern) (text rest : List α) :
    occurrences pattern (text ++ separator :: rest) =
      occurrences pattern text + occurrences pattern rest := by
  induction text with
  | nil =>
    have apart : ¬ pattern <+: separator :: rest := by
      have none : pattern <+: [] ++ separator :: rest ↔ pattern <+: [] :=
        prefix_append_separator absent
      rw [List.nil_append, List.prefix_nil] at none
      exact none.not.mpr some
    rw [List.nil_append, occurrences_cons, if_neg apart, occurrences_nil some, Nat.add_comm]
  | cons unit text ih =>
    have here : pattern <+: unit :: text ++ separator :: rest ↔ pattern <+: unit :: text :=
      prefix_append_separator absent
    rw [List.cons_append] at here
    rw [List.cons_append, occurrences_cons, occurrences_cons, ih]
    simp only [here]
    omega

/-- **A pattern that occurs once** cuts the text in one way. -/
theorem append_pattern_inj {pattern before after before' after' : List α}
    (once : occurrences pattern (before ++ (pattern ++ after)) = 1)
    (same : before ++ (pattern ++ after) = before' ++ (pattern ++ after')) :
    before = before' ∧ after = after' := by
  have later : ∀ (unit : α) (first second : List α), pattern ++ second = unit :: first →
      pattern <:+: first → 2 ≤ occurrences pattern (pattern ++ second) := by
    intro unit first second shape inside
    have starts : pattern <+: unit :: first := shape ▸ List.prefix_append _ _
    have more := occurrences_pos_iff.mpr inside
    rw [shape, occurrences_cons, if_pos starts]
    omega
  induction before generalizing before' with
  | nil =>
    cases before' with
    | nil => exact ⟨rfl, List.append_cancel_left same⟩
    | cons unit before' =>
      have two := later unit _ after same ⟨before', after', List.append_assoc _ _ _⟩
      rw [List.nil_append] at once
      omega
  | cons unit before ih =>
    cases before' with
    | nil =>
      have two := later unit _ after' same.symm ⟨before, after, List.append_assoc _ _ _⟩
      rw [List.nil_append] at same
      rw [same] at once
      omega
    | cons unit' before' =>
      obtain ⟨head, tail⟩ := List.cons.inj same
      have inside : 0 < occurrences pattern (before ++ (pattern ++ after)) :=
        occurrences_pos_iff.mpr ⟨before, after, List.append_assoc _ _ _⟩
      rw [List.cons_append, occurrences_cons] at once
      obtain ⟨befores, afters⟩ := ih (by omega) tail
      exact ⟨by rw [head, befores], afters⟩

end Koklo.Foundations
