import Mathlib.Data.List.Basic
import Mathlib.Data.List.TakeWhile

/-!
# Regular expressions with captures

A regular expression that matches a text may do so in several ways. A matcher that
backtracks tries them in an order of preference: a greedy repetition takes as many
units as it can and then fewer, a lazy one as few as it can and then more. The list of
the outcomes of an expression, in this order, is its meaning (`outcomes`); a match from
the first unit to the last is the first outcome that leaves nothing (`exec`).

Repetitions are over one test. What is preferred is found by the rules `preferred_seq`,
`preferred_text`, `preferred_greedy` and `preferred_lazy`; what an outcome can be at all
is said by `mem_outcomes_seq` and its companions.
-/

set_option autoImplicit false

namespace Koklo.Foundations

universe u v

/-- A regular expression with captures; repetitions take at least `least` units. -/
inductive Regex (α : Type u) where
  | unit (test : α → Bool)
  | text (t : List α)
  | greedy (least : ℕ) (test : α → Bool)
  | lazy (least : ℕ) (test : α → Bool)
  | capture (r : Regex α)
  | seq (p q : Regex α)

namespace Regex

variable {α : Type u}

/-- The captures of a match, in the order of their groups, and what it leaves. -/
abbrev Outcome (α : Type u) := List (List α) × List α

/-- The numbers of units that a repetition can take, from the fewest. -/
def counts (least : ℕ) (test : α → Bool) (s : List α) : List ℕ :=
  (List.range ((s.takeWhile test).length + 1)).filter (least ≤ ·)

theorem mem_counts {least n : ℕ} {test : α → Bool} {s : List α} :
    n ∈ counts least test s ↔ least ≤ n ∧ n ≤ (s.takeWhile test).length := by
  rw [counts, List.mem_filter, List.mem_range, Nat.lt_succ_iff, decide_eq_true_eq, and_comm]

/-- The numbers of units that a repetition can take, around one of them. -/
theorem counts_split {least n : ℕ} {test : α → Bool} {s : List α} (enough : least ≤ n)
    (possible : n ≤ (s.takeWhile test).length) :
    ∃ more, counts least test s = (List.range n).filter (least ≤ ·) ++ n :: more ∧
      ∀ m ∈ more, n < m := by
  obtain ⟨k, whole⟩ := Nat.exists_eq_add_of_le possible
  refine ⟨(List.range' (n + 1) k).filter (least ≤ ·), ?_, ?_⟩
  · have around : List.range (n + (k + 1)) = List.range n ++ n :: List.range' (n + 1) k := by
      rw [List.range_eq_range', ← List.range'_append_1, Nat.zero_add, List.range'_succ,
        ← List.range_eq_range']
    rw [counts, whole, Nat.add_assoc, around, List.filter_append,
      List.filter_cons_of_pos (by simpa using enough)]
  · intro m member
    have bound := (List.mem_range'_1.mp (List.mem_filter.mp member).1).1
    omega

variable [DecidableEq α]

/-- The outcomes of an expression, in the order in which they are tried. -/
def outcomes : Regex α → List α → List (Outcome α)
  | unit _, [] => []
  | unit test, a :: s => if test a then [([], s)] else []
  | text t, s => if t <+: s then [([], s.drop t.length)] else []
  | greedy least test, s => (counts least test s).reverse.map fun n => ([], s.drop n)
  | lazy least test, s => (counts least test s).map fun n => ([], s.drop n)
  | capture r, s => (outcomes r s).map fun o => (s.take (s.length - o.2.length) :: o.1, o.2)
  | seq p q, s => (outcomes p s).flatMap fun o =>
      (outcomes q o.2).map fun o' => (o.1 ++ o'.1, o'.2)

attribute [local simp] outcomes

/-- The first outcome that a continuation accepts. -/
def preferred {β : Type v} (r : Regex α) (s : List α) (accept : Outcome α → Option β) : Option β :=
  (outcomes r s).findSome? accept

/-- The captures of the match of a whole text. -/
def exec (r : Regex α) (s : List α) : Option (List (List α)) :=
  preferred r s fun o => if o.2 = [] then some o.1 else none

/-- Whether the expression matches at the start of a text. -/
def startsWith (r : Regex α) (s : List α) : Bool := !(outcomes r s).isEmpty

/-! ## What is preferred -/

section Preferred

variable {β : Type v} {s : List α} {accept : Outcome α → Option β}

theorem preferred_eq_none {r : Regex α} :
    preferred r s accept = none ↔ ∀ o ∈ outcomes r s, accept o = none :=
  List.findSome?_eq_none_iff

theorem preferred_seq {p q : Regex α} : preferred (.seq p q) s accept =
    preferred p s fun o => preferred q o.2 fun o' => accept (o.1 ++ o'.1, o'.2) := by
  unfold preferred
  rw [outcomes]
  induction outcomes p s with
  | nil => rfl
  | cons o os ih =>
    rw [List.flatMap_cons, List.findSome?_append, ih, List.findSome?_cons, List.findSome?_map]
    have inner : (accept ∘ fun o' : Outcome α => (o.1 ++ o'.1, o'.2)) =
        fun o' => accept (o.1 ++ o'.1, o'.2) := rfl
    rw [inner]
    cases (outcomes q o.2).findSome? fun o' => accept (o.1 ++ o'.1, o'.2) with
    | none => rfl
    | some b => rfl

theorem preferred_capture {r : Regex α} : preferred (.capture r) s accept =
    preferred r s fun o => accept (s.take (s.length - o.2.length) :: o.1, o.2) := by
  unfold preferred
  rw [outcomes, List.findSome?_map]
  rfl

theorem preferred_text {t : List α} : preferred (.text t) (t ++ s) accept = accept ([], s) := by
  unfold preferred
  rw [outcomes, if_pos (List.prefix_append t s), List.drop_left, List.findSome?_singleton]

theorem preferred_unit {test : α → Bool} {a : α} (passes : test a = true) :
    preferred (.unit test) (a :: s) accept = accept ([], s) := by
  unfold preferred
  rw [outcomes, if_pos passes, List.findSome?_singleton]

/-- **A lazy repetition takes the fewest units that the rest accepts.** -/
theorem preferred_lazy {least n : ℕ} {test : α → Bool} {b : β} (enough : least ≤ n)
    (possible : n ≤ (s.takeWhile test).length)
    (fails : ∀ m, least ≤ m → m < n → accept ([], s.drop m) = none)
    (succeeds : accept ([], s.drop n) = some b) : preferred (.lazy least test) s accept = some b := by
  obtain ⟨more, split, -⟩ := counts_split enough possible
  rw [preferred, outcomes, split, List.map_append, List.map_cons, List.findSome?_append]
  have none : ((List.range n).filter (least ≤ ·)).findSome?
      (accept ∘ fun m => ([], s.drop m)) = none := by
    refine List.findSome?_eq_none_iff.mpr fun m member => ?_
    obtain ⟨inside, reached⟩ := List.mem_filter.mp member
    exact fails m (by simpa using reached) (List.mem_range.mp inside)
  rw [List.findSome?_map, none, Option.none_or, List.findSome?_cons, succeeds]

/-- **A greedy repetition takes all it can**, when the rest accepts that. -/
theorem preferred_greedy {least : ℕ} {test : α → Bool} {run : List α} {b : β}
    (all : ∀ a ∈ run, test a = true) (stop : ∀ a ∈ s.head?, test a = false)
    (enough : least ≤ run.length) (succeeds : accept ([], s) = some b) :
    preferred (.greedy least test) (run ++ s) accept = some b := by
  have taken : (run ++ s).takeWhile test = run := by
    rw [List.takeWhile_append_of_pos all]
    cases s with
    | nil => simp
    | cons a s =>
      have stopped := stop a rfl
      simp [stopped]
  have possible : run.length ≤ ((run ++ s).takeWhile test).length := by rw [taken]
  obtain ⟨more, split, beyond⟩ := counts_split enough possible
  have last : more = [] := by
    refine List.eq_nil_iff_forall_not_mem.mpr fun m member => ?_
    have inside : m ∈ counts least test (run ++ s) := by
      rw [split]
      exact List.mem_append_right _ (List.mem_cons_of_mem _ member)
    have bound := (mem_counts.mp inside).2
    rw [taken] at bound
    exact absurd (beyond m member) (by omega)
  rw [preferred, outcomes, split, last, List.reverse_append, List.reverse_singleton,
    List.singleton_append, List.map_cons, List.findSome?_cons, List.drop_left, succeeds]

end Preferred

/-! ## What an outcome is -/

section Outcomes

variable {s : List α} {o : Outcome α}

theorem mem_outcomes_seq {p q : Regex α} : o ∈ outcomes (.seq p q) s ↔
    ∃ first ∈ outcomes p s, ∃ second ∈ outcomes q first.2, o = (first.1 ++ second.1, second.2) := by
  simp only [outcomes, List.mem_flatMap, List.mem_map, eq_comm]

theorem mem_outcomes_text {t : List α} : o ∈ outcomes (.text t) s ↔ o.1 = [] ∧ s = t ++ o.2 := by
  obtain ⟨captures, rest⟩ := o
  rw [outcomes]
  by_cases starts : t <+: s
  · obtain ⟨tail, rfl⟩ := starts
    rw [if_pos (List.prefix_append t tail), List.mem_singleton, List.drop_left, Prod.mk.injEq,
      List.append_cancel_left_eq]
    constructor
    · rintro ⟨rfl, rfl⟩
      exact ⟨rfl, rfl⟩
    · rintro ⟨rfl, rfl⟩
      exact ⟨rfl, rfl⟩
  · rw [if_neg starts]
    constructor
    · intro none
      cases none
    · rintro ⟨-, rfl⟩
      exact absurd (List.prefix_append t rest) starts

theorem mem_outcomes_unit {test : α → Bool} : o ∈ outcomes (.unit test) s ↔
    o.1 = [] ∧ ∃ a, test a = true ∧ s = a :: o.2 := by
  obtain ⟨captures, rest⟩ := o
  cases s with
  | nil => simp [outcomes]
  | cons b s =>
    rw [outcomes]
    by_cases passes : test b = true
    · rw [if_pos passes, List.mem_singleton, Prod.mk.injEq]
      constructor
      · rintro ⟨rfl, rfl⟩
        exact ⟨rfl, b, passes, rfl⟩
      · rintro ⟨rfl, a, -, same⟩
        exact ⟨rfl, (List.cons.inj same).2.symm⟩
    · rw [if_neg passes]
      constructor
      · intro none
        cases none
      · rintro ⟨-, a, other, same⟩
        rw [(List.cons.inj same).1] at passes
        exact absurd other passes

omit [DecidableEq α] in
/-- What a repetition takes, greedy or lazy. -/
theorem exists_run {least : ℕ} {test : α → Bool} {rest : List α} :
    (∃ n ∈ counts least test s, s.drop n = rest) ↔
      ∃ run, s = run ++ rest ∧ least ≤ run.length ∧ ∀ a ∈ run, test a = true := by
  constructor
  · rintro ⟨n, member, rfl⟩
    obtain ⟨enough, possible⟩ := mem_counts.mp member
    have inside : s.take n = (s.takeWhile test).take n := by
      conv_lhs => rw [← @List.takeWhile_append_dropWhile _ test s]
      exact List.take_append_of_le_length possible
    refine ⟨s.take n, (List.take_append_drop n s).symm, ?_, fun a member => ?_⟩
    · rw [inside, List.length_take]
      omega
    · rw [inside] at member
      exact List.mem_takeWhile_imp (List.mem_of_mem_take member)
  · rintro ⟨run, rfl, enough, all⟩
    refine ⟨run.length, mem_counts.mpr ⟨enough, ?_⟩, List.drop_left⟩
    rw [List.takeWhile_append_of_pos all, List.length_append]
    exact Nat.le_add_right _ _

theorem mem_outcomes_greedy {least : ℕ} {test : α → Bool} : o ∈ outcomes (.greedy least test) s ↔
    o.1 = [] ∧ ∃ run, s = run ++ o.2 ∧ least ≤ run.length ∧ ∀ a ∈ run, test a = true := by
  obtain ⟨captures, rest⟩ := o
  rw [outcomes, ← exists_run]
  simp only [List.mem_map, List.mem_reverse, Prod.mk.injEq]
  constructor
  · rintro ⟨n, member, rfl, same⟩
    exact ⟨rfl, n, member, same⟩
  · rintro ⟨rfl, n, member, same⟩
    exact ⟨n, member, rfl, same⟩

theorem mem_outcomes_lazy {least : ℕ} {test : α → Bool} : o ∈ outcomes (.lazy least test) s ↔
    o.1 = [] ∧ ∃ run, s = run ++ o.2 ∧ least ≤ run.length ∧ ∀ a ∈ run, test a = true := by
  obtain ⟨captures, rest⟩ := o
  rw [outcomes, ← exists_run]
  simp only [List.mem_map, Prod.mk.injEq]
  constructor
  · rintro ⟨n, member, rfl, same⟩
    exact ⟨rfl, n, member, same⟩
  · rintro ⟨rfl, n, member, same⟩
    exact ⟨n, member, rfl, same⟩

theorem mem_outcomes_capture {r : Regex α} : o ∈ outcomes (.capture r) s ↔
    ∃ inner ∈ outcomes r s, o = (s.take (s.length - inner.2.length) :: inner.1, inner.2) := by
  simp only [outcomes, List.mem_map, eq_comm]

/-- A captured repetition captures what it takes. -/
theorem mem_outcomes_capture_lazy {least : ℕ} {test : α → Bool} :
    o ∈ outcomes (.capture (.lazy least test)) s ↔
      ∃ run, o.1 = [run] ∧ s = run ++ o.2 ∧ least ≤ run.length ∧ ∀ a ∈ run, test a = true := by
  obtain ⟨captures, rest⟩ := o
  rw [mem_outcomes_capture]
  constructor
  · rintro ⟨⟨inner, left⟩, taken, same⟩
    obtain ⟨none, run, split, enough, all⟩ := mem_outcomes_lazy.mp taken
    simp only at none split same
    cases same
    subst none split
    refine ⟨run, ?_, rfl, enough, all⟩
    simp
  · rintro ⟨run, captured, split, enough, all⟩
    simp only at captured split
    subst captured split
    refine ⟨([], rest), mem_outcomes_lazy.mpr ⟨rfl, run, rfl, enough, all⟩, ?_⟩
    simp

theorem startsWith_iff {r : Regex α} : startsWith r s = true ↔ ∃ o, o ∈ outcomes r s := by
  rw [startsWith, Bool.not_eq_true', List.isEmpty_eq_false_iff_exists_mem]

/-- A match of a whole text is an outcome that leaves nothing. -/
theorem mem_outcomes_of_exec {r : Regex α} {captures : List (List α)}
    (matched : exec r s = some captures) : (captures, []) ∈ outcomes r s := by
  obtain ⟨⟨found, rest⟩, member, accepted⟩ := List.exists_of_findSome?_eq_some matched
  simp only at accepted
  split at accepted
  · rename_i nothing
    cases accepted
    rwa [← nothing]
  · cases accepted

end Outcomes

end Regex

end Koklo.Foundations
