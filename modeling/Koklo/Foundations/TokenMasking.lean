import Koklo.Foundations.RegexMasking

/-!
# Masking tokens

A token is an opening and then a run of items, as long as it can be. What stands before a place
has an open token when a token that starts in it could go on at that place (`Token.Open`). Items
that no opening has stay in place exactly when no token is open before them: what precedes and
what follows them is then masked on its own (`Token.replaceFrom_around`, `Token.exists_around`).
-/

set_option autoImplicit false

namespace Koklo.Foundations.Regex

universe u

variable {α : Type u} [DecidableEq α]

/-- An opening and then the longest run of items that pass a test, with one of them at least. -/
structure Token (α : Type u) where
  opening : Regex α
  body : α → Bool

namespace Token

def regex (token : Token α) : Regex α := .seq token.opening (.greedy 1 token.body)

/-- All openings have one length, and their items could stand in the run. -/
structure Regular (token : Token α) : Prop where
  some : ¬ token.opening.Consumes []
  level : ∀ first second, token.opening.Consumes first → token.opening.Consumes second →
    first.length = second.length
  inBody : ∀ opening, token.opening.Consumes opening → ∀ a ∈ opening, token.body a = true

/-- No opening has the item. -/
def Fresh (token : Token α) (a : α) : Prop := ∀ opening, token.opening.Consumes opening → a ∉ opening

/-- A token could go on at the end of the list. -/
def Open (token : Token α) (list : List α) : Prop :=
  ∃ start opening run, list = start ++ (opening ++ run) ∧ token.opening.Consumes opening ∧
    ∀ a ∈ run, token.body a = true

variable {token : Token α}

theorem Open.append_left {list : List α} (isOpen : token.Open list) (start : List α) :
    token.Open (start ++ list) := by
  obtain ⟨first, opening, run, rfl, consumes, all⟩ := isOpen
  exact ⟨start ++ first, opening, run, (List.append_assoc ..).symm, consumes, all⟩

theorem regex_some (regular : token.Regular) : ¬ token.regex.Consumes [] := by
  intro consumes
  obtain ⟨first, second, split, opens, runs⟩ := consumes_seq_iff.mp consumes
  obtain ⟨rfl, _⟩ := List.append_eq_nil_iff.mp split.symm
  exact regular.some opens

/-- What a token is made of. -/
theorem consumes_regex_iff {list : List α} : token.regex.Consumes list ↔
    ∃ opening run, list = opening ++ run ∧ token.opening.Consumes opening ∧ run ≠ [] ∧
      ∀ a ∈ run, token.body a = true := by
  rw [regex, consumes_seq_iff]
  refine exists_congr fun opening => exists_congr fun run => and_congr_right fun _ =>
    and_congr_right fun _ => ?_
  rw [consumes_greedy_iff, ← List.length_pos_iff]
  exact Iff.rfl

/-- **A match takes the whole run.** -/
theorem exists_of_finder_pos {before : Option α} {list : List α}
    (found : 0 < finder token.regex before list) :
    ∃ opening run rest, list = opening ++ run ++ rest ∧ token.opening.Consumes opening ∧
      run ≠ [] ∧ (∀ a ∈ run, token.body a = true) ∧ (∀ a ∈ rest.head?, token.body a = false) ∧
      finder token.regex before list = (opening ++ run).length := by
  obtain ⟨matched, rest, rfl, consumes, length⟩ := exists_of_finder found
  have some : matched ≠ [] := List.ne_nil_of_length_pos (length ▸ found)
  have stops := head?_of_finder_seq_greedy some length.symm
  obtain ⟨opening, run, rfl, opens, nonempty, all⟩ := consumes_regex_iff.mp consumes
  exact ⟨opening, run, rest, rfl, opens, nonempty, all, stops, length.symm⟩

/-- An opening and a run that cannot go on are a match. -/
theorem finder_eq (regular : token.Regular) {before : Option α} {opening run rest : List α}
    (opens : token.opening.Consumes opening) (some : run ≠ [])
    (all : ∀ a ∈ run, token.body a = true) (stops : ∀ a ∈ rest.head?, token.body a = false) :
    finder token.regex before (opening ++ run ++ rest) = (opening ++ run).length := by
  have consumes := consumes_regex_iff.mpr ⟨opening, run, rfl, opens, some, all⟩
  have found := finder_pos (regex_some regular) consumes before rest
  obtain ⟨opening', run', rest', split, opens', _, all', stops', length⟩ :=
    exists_of_finder_pos found
  rw [length]
  rw [List.append_assoc, List.append_assoc] at split
  obtain ⟨rfl, tails⟩ := List.append_inj split (regular.level _ _ opens opens')
  -- Both runs are the longest one.
  have longest : ∀ {run rest : List α}, (∀ a ∈ run, token.body a = true) →
      (∀ a ∈ rest.head?, token.body a = false) → (run ++ rest).takeWhile token.body = run := by
    intro run rest all stops
    rw [List.takeWhile_append_of_pos all]
    cases rest with
    | nil => rw [List.takeWhile_nil, List.append_nil]
    | cons a rest =>
      rw [List.takeWhile_cons_of_neg (by rw [stops a rfl]; exact Bool.false_ne_true), List.append_nil]
  have same : run' = run := by rw [← longest all' stops', ← tails, longest all stops]
  rw [same]

/-- **What no opening has changes no match before it**, when no token is open there. -/
theorem finder_append (regular : token.Regular) {a : α} (fresh : token.Fresh a)
    {before : Option α} {list rest : List α} (closed : ¬ token.Open list) :
    finder token.regex before (list ++ a :: rest) = finder token.regex before list := by
  rcases Nat.eq_zero_or_pos (finder token.regex before list) with none | found
  · rw [none]
    by_contra nonzero
    obtain ⟨opening, run, more, split, opens, some, all, _⟩ :=
      exists_of_finder_pos (Nat.pos_of_ne_zero nonzero)
    rcases List.append_eq_append_iff.mp split with ⟨part, whole, tail⟩ | ⟨part, whole, tail⟩
    · -- The match would go past the end of the list, where it is then open.
      apply closed
      rcases List.append_eq_append_iff.mp whole with ⟨piece, shape, inside⟩ | ⟨piece, shape, inside⟩
      · refine ⟨[], opening, piece, shape, opens, fun b member => all b ?_⟩
        exact inside ▸ List.mem_append_left _ member
      · cases piece with
        | nil => exact ⟨[], opening, [], (by simp [shape]), opens, List.forall_mem_nil _⟩
        | cons b piece =>
          subst inside
          obtain ⟨rfl, _⟩ := List.cons.inj tail
          exact absurd (shape ▸ List.mem_append_right _ List.mem_cons_self) (fresh opening opens)
    · have consumes := consumes_regex_iff.mpr ⟨opening, run, rfl, opens, some, all⟩
      have found := finder_pos (regex_some regular) consumes before part
      rw [← whole, none] at found
      exact Nat.lt_irrefl 0 found
  · obtain ⟨opening, run, more, rfl, opens, some, all, stops, length⟩ := exists_of_finder_pos found
    cases more with
    | nil => exact absurd ⟨[], opening, run, List.append_nil _, opens, all⟩ closed
    | cons b more =>
      rw [length, List.append_assoc _ (b :: more)]
      exact finder_eq regular opens some all stops

/-- **Two parts are masked on their own**, when no token is open between them. -/
theorem replaceFrom_append (regular : token.Regular) {a : α} (fresh : token.Fresh a)
    {mask : List α} {before : Option α} {list rest : List α} (closed : ¬ token.Open list) :
    Masking.replaceFrom (finder token.regex) mask before 0 (list ++ a :: rest) =
      Masking.replaceFrom (finder token.regex) mask before 0 list ++
        Masking.replaceFrom (finder token.regex) mask (Masking.endOf before list) 0 (a :: rest) := by
  apply Masking.replaceFrom_append (finder_sound _)
  rintro start last rfl _
  exact finder_append regular fresh fun isOpen => closed (isOpen.append_left start)

/-- Items that no opening has are kept where matching gets to them. -/
theorem replaceFrom_fresh (regular : token.Regular) {mask : List α} {before : Option α}
    {list rest : List α} (fresh : ∀ a ∈ list, token.Fresh a) :
    Masking.replaceFrom (finder token.regex) mask before 0 (list ++ rest) =
      list ++ Masking.replaceFrom (finder token.regex) mask (Masking.endOf before list) 0 rest := by
  apply Masking.replaceFrom_kept
  rintro first last rfl some
  by_contra nonzero
  obtain ⟨opening, run, more, split, opens, _⟩ := exists_of_finder_pos (Nat.pos_of_ne_zero nonzero)
  obtain ⟨a, last, rfl⟩ := List.exists_cons_of_ne_nil some
  cases opening with
  | nil => exact regular.some opens
  | cons b opening =>
    obtain ⟨rfl, _⟩ := List.cons.inj split
    exact fresh a (List.mem_append_right _ List.mem_cons_self) _ opens List.mem_cons_self

/-- **Where matching stops before an item that could go on a run, no token is open.** -/
theorem not_open_of_reaches (regular : token.Regular) {a : α} (passes : token.body a = true)
    {mask : List α} {before : Option α} {list masked rest : List α}
    (reaches : Masking.Reaches (finder token.regex) mask before list masked (a :: rest)) :
    ¬ token.Open list := by
  generalize stop : a :: rest = after at reaches
  induction reaches with
  | here =>
    rintro ⟨start, opening, run, shape, opens, _⟩
    obtain ⟨_, none⟩ := List.append_eq_nil_iff.mp shape.symm
    obtain ⟨rfl, _⟩ := List.append_eq_nil_iff.mp none
    exact regular.some opens
  | @keep before b list masked after none _ ih =>
    subst stop
    rintro ⟨start, opening, run, shape, opens, all⟩
    cases start with
    | cons c start =>
      obtain ⟨_, shape⟩ := List.cons.inj shape
      exact ih rfl ⟨start, opening, run, shape, opens, all⟩
    | nil =>
      -- The token that starts here would be a match.
      have consumes : token.regex.Consumes (opening ++ (run ++ [a])) := by
        refine consumes_regex_iff.mpr ⟨opening, run ++ [a], rfl, opens, ?_, ?_⟩
        · exact List.append_ne_nil_of_right_ne_nil _ (List.cons_ne_nil _ _)
        · intro c member
          rcases List.mem_append.mp member with inside | last
          · exact all c inside
          · rwa [List.mem_singleton.mp last]
      have found := finder_pos (regex_some regular) consumes before rest
      have same : opening ++ (run ++ [a]) ++ rest = b :: (list ++ a :: rest) := by
        rw [← List.cons_append, shape]
        simp only [List.append_assoc, List.nil_append, List.singleton_append]
      rw [same, none] at found
      exact Nat.lt_irrefl 0 found
  | @skip before matched list masked after some found _ ih =>
    subst stop
    rintro ⟨start, opening, run, shape, opens, all⟩
    have stops := head?_of_finder_seq_greedy some found
    rcases List.append_eq_append_iff.mp shape with ⟨part, whole, tail⟩ | ⟨part, whole, tail⟩
    · exact ih rfl ⟨part, opening, run, tail, opens, all⟩
    · -- The token goes past the end of the match, which then did not take the whole run.
      have inToken : ∀ c ∈ opening ++ run, token.body c = true := by
        intro c member
        rcases List.mem_append.mp member with inside | inside
        · exact regular.inBody _ opens c inside
        · exact all c inside
      cases list with
      | nil =>
        rw [List.nil_append] at stops
        exact absurd (stops a rfl) (by rw [passes]; exact Bool.noConfusion)
      | cons c list =>
        have goes := inToken c (tail ▸ List.mem_append_right _ List.mem_cons_self)
        exact absurd (stops c rfl) (by rw [goes]; exact Bool.noConfusion)

/-! ## What stays in place -/

section Around

variable {mask list : List α}

/-- The masks of a text do not depend on what precedes it. -/
theorem replaceFrom_before (token : Token α) (before before' : Option α) (rest : List α) :
    Masking.replaceFrom (finder token.regex) mask before 0 rest =
      Masking.replaceFrom (finder token.regex) mask before' 0 rest := by
  cases rest <;> rfl

/-- Masking does not change what a text ends with, when no token is open there. -/
theorem getLast?_replaceFrom {left : List α} (closed : ¬ token.Open left) :
    (Masking.replaceFrom (finder token.regex) mask none 0 left).getLast? = left.getLast? := by
  rcases (Masking.reaches_end (finder_sound token.regex) none left).sameEnd with same | ended
  · exact same
  · obtain ⟨start, matched, rfl, some, found⟩ := ended
    rw [List.append_nil] at found
    have positive := found ▸ List.length_pos_of_ne_nil some
    obtain ⟨list, rest, split, consumes, length⟩ := exists_of_finder positive
    rw [found, split, List.length_append] at length
    obtain ⟨opening, run, rfl, opens, _, all⟩ := consumes_regex_iff.mp consumes
    have none : rest = [] := List.eq_nil_of_length_eq_zero (by omega)
    subst none
    rw [split, List.append_nil] at closed
    exact absurd ⟨start, opening, run, rfl, opens, all⟩ closed

/-- **What no opening has stays in place, when no token is open before it.** -/
theorem replaceFrom_around (regular : token.Regular) (some : list ≠ [])
    (fresh : ∀ a ∈ list, token.Fresh a) {left right : List α} (closed : ¬ token.Open left) :
    Masking.replaceFrom (finder token.regex) mask none 0 (left ++ list ++ right) =
      Masking.replaceFrom (finder token.regex) mask none 0 left ++ list ++
        Masking.replaceFrom (finder token.regex) mask none 0 right := by
  obtain ⟨a, list, rfl⟩ := List.exists_cons_of_ne_nil some
  rw [List.append_assoc, List.cons_append, replaceFrom_append regular (fresh a List.mem_cons_self) closed,
    ← List.cons_append, replaceFrom_fresh regular fresh, List.append_assoc,
    replaceFrom_before token _ none right]

/-- **What is found in the masked text has stayed in place there.** -/
theorem exists_around (regular : token.Regular) (apart : Masking.Apart mask list) (some : list ≠ [])
    (fresh : ∀ a ∈ list, token.Fresh a) (passes : ∀ a ∈ list, token.body a = true)
    {whole masked after : List α}
    (same : Masking.replaceFrom (finder token.regex) mask none 0 whole = masked ++ list ++ after) :
    ∃ left right, whole = left ++ list ++ right ∧ ¬ token.Open left ∧
      masked = Masking.replaceFrom (finder token.regex) mask none 0 left ∧
      after = Masking.replaceFrom (finder token.regex) mask none 0 right := by
  obtain ⟨left, right, rfl, _, follows, reaches⟩ :=
    Masking.exists_of_replaceFrom (finder_sound _) apart some same
  rw [replaceFrom_before token _ none right] at follows
  have closed : ¬ token.Open left := by
    obtain ⟨a, list, rfl⟩ := List.exists_cons_of_ne_nil some
    exact not_open_of_reaches regular (passes a List.mem_cons_self) reaches
  refine ⟨left, right, rfl, closed, ?_, follows⟩
  rw [replaceFrom_around regular some fresh closed, follows] at same
  exact (List.append_cancel_right (List.append_cancel_right same)).symm

end Around

end Token

end Koklo.Foundations.Regex
