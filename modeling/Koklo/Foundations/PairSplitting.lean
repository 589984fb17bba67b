import Koklo.Foundations.Splitting
import Mathlib.Data.List.Chain
import Mathlib.Data.List.DropRight

/-!
# Splitting at two separators in a row

A list is split where two separators stand in a row, and each piece at its separators (`shape`).
The list is what its shape joins to (`unshape_shape`), and lists of pieces that are not empty and
hold no separator are the shape of what they join to (`shape_unshape`). What is appended after a
separator continues the last pieces (`shape_append`).
-/

set_option autoImplicit false

namespace Koklo.Foundations

universe u

variable {α : Type u} {separator : α}

/-! ## Joined lists -/

theorem intercalate_modifyHead {joint : List α} {parts : List (List α)} (some : parts ≠ []) (a : α) :
    joint.intercalate (parts.modifyHead (a :: ·)) = a :: joint.intercalate parts := by
  obtain ⟨first, others, rfl⟩ := List.exists_cons_of_ne_nil some
  cases others with
  | nil => rw [List.modifyHead_cons, List.intercalate_singleton, List.intercalate_singleton]
  | cons second others =>
    rw [List.modifyHead_cons, List.intercalate_cons_cons, List.intercalate_cons_cons]
    rfl

/-- A list is empty or ends with a separator. -/
def Closed (separator : α) (list : List α) : Prop := list = [] ∨ list.getLast? = some separator

/-- Pieces with a separator after each of them. -/
def terminated (separator : α) (parts : List (List α)) : List α :=
  parts.flatMap (· ++ [separator])

theorem closed_terminated (parts : List (List α)) : Closed separator (terminated separator parts) := by
  rcases List.eq_nil_or_concat' parts with rfl | ⟨init, last, rfl⟩
  · exact .inl rfl
  · refine .inr ?_
    rw [terminated, List.flatMap_append, List.flatMap_singleton, ← List.append_assoc,
      List.getLast?_concat]

theorem Closed.append_separator {back : List α} (closed : Closed separator back) (front : List α) :
    Closed separator (front ++ separator :: back) := by
  right
  rw [List.getLast?_append_of_ne_nil _ (List.cons_ne_nil _ _)]
  rcases closed with rfl | last
  · rfl
  · cases back with
    | nil => cases last
    | cons a back => rwa [List.getLast?_cons_cons]

theorem intercalate_append {more : List (List α)} (some : more ≠ []) (parts : List (List α)) :
    [separator].intercalate (parts ++ more) =
      terminated separator parts ++ [separator].intercalate more := by
  induction parts with
  | nil => rfl
  | cons part parts ih =>
    obtain ⟨next, others, follow⟩ : ∃ next others, parts ++ more = next :: others :=
      List.exists_cons_of_ne_nil (List.append_ne_nil_of_right_ne_nil _ some)
    rw [List.cons_append, follow, List.intercalate_cons_cons, ← follow, ih, ← List.append_assoc]
    rfl

/-- No two separators stand in a row. -/
def Unpaired (separator : α) (list : List α) : Prop :=
  list.IsChain fun a b => ¬ (a = separator ∧ b = separator)

theorem unpaired_of_not_mem {list : List α} (absent : separator ∉ list) :
    Unpaired separator list := by
  induction list with
  | nil => exact List.IsChain.nil
  | cons a list ih =>
    obtain ⟨other, absent⟩ := List.ne_and_not_mem_of_not_mem_cons absent
    refine List.isChain_cons.mpr ⟨?_, ih absent⟩
    rintro b - ⟨same, -⟩
    exact other same.symm

/-- A piece that can be found again: it is not empty and holds no separator. -/
def Solid (separator : α) (piece : List α) : Prop := piece ≠ [] ∧ separator ∉ piece

variable {run : List (List α)}

theorem head?_intercalate {joint : List α} {piece : List α} (some : piece ≠ [])
    (others : List (List α)) : (joint.intercalate (piece :: others)).head? = piece.head? := by
  obtain ⟨a, rest, rfl⟩ := List.exists_cons_of_ne_nil some
  cases others with
  | nil => rw [List.intercalate_singleton]
  | cons second others =>
    rw [List.intercalate_cons_cons]
    rfl

theorem intercalate_ne_nil {joint : List α} {piece : List α} (some : piece ≠ [])
    (others : List (List α)) : joint.intercalate (piece :: others) ≠ [] := by
  intro none
  have head := @head?_intercalate _ joint piece some others
  rw [none] at head
  exact some (List.head?_eq_none_iff.mp head.symm)

theorem unpaired_intercalate (solid : ∀ piece ∈ run, Solid separator piece) :
    Unpaired separator ([separator].intercalate run) := by
  induction run with
  | nil => exact List.IsChain.nil
  | cons piece run ih =>
    obtain ⟨⟨_, absent⟩, others⟩ := List.forall_mem_cons.mp solid
    cases run with
    | nil =>
      rw [List.intercalate_singleton]
      exact unpaired_of_not_mem absent
    | cons second run =>
      obtain ⟨some, absent'⟩ := others second List.mem_cons_self
      have joined : [separator].intercalate (piece :: second :: run) =
          piece ++ separator :: [separator].intercalate (second :: run) := by
        rw [List.intercalate_cons_cons, List.append_assoc]
        rfl
      rw [joined]
      refine List.isChain_append.mpr
        ⟨unpaired_of_not_mem absent, List.isChain_cons.mpr ⟨?_, ih others⟩, ?_⟩
      · rintro b head ⟨-, rfl⟩
        rw [head?_intercalate some] at head
        exact absent' (List.mem_of_mem_head? head)
      · rintro a last b - ⟨rfl, -⟩
        exact absent (List.mem_of_mem_getLast? last)

theorem getLast?_intercalate (solid : ∀ piece ∈ run, Solid separator piece) :
    ([separator].intercalate run).getLast? ≠ some separator := by
  induction run with
  | nil => exact nofun
  | cons piece run ih =>
    obtain ⟨⟨some, absent⟩, others⟩ := List.forall_mem_cons.mp solid
    cases run with
    | nil =>
      rw [List.intercalate_singleton]
      exact fun last => absent (List.mem_of_mem_getLast? last)
    | cons second run =>
      have inside := @intercalate_ne_nil _ [separator] _ (others second List.mem_cons_self).1 run
      rw [List.intercalate_cons_cons, List.getLast?_append_of_ne_nil _ inside]
      exact ih others

variable [DecidableEq α]

/-! ## The shape of a list -/

/-- The pieces of a list between two separators in a row. -/
def splitOnPair (separator : α) : List α → List (List α)
  | [] => [[]]
  | [a] => [[a]]
  | a :: b :: rest =>
    if a = separator ∧ b = separator then [] :: splitOnPair separator rest
    else (splitOnPair separator (b :: rest)).modifyHead (a :: ·)

/-- The pieces of a list between its separators; the empty list has none. -/
def pieces (separator : α) (list : List α) : List (List α) :=
  if list = [] then [] else list.splitOn separator

/-- The pieces of each piece between two separators in a row. -/
def shape (separator : α) (list : List α) : List (List (List α)) :=
  (splitOnPair separator list).map (pieces separator)

/-- The pieces joined by a separator, and these by two. -/
def unshape (separator : α) (parts : List (List (List α))) : List α :=
  [separator, separator].intercalate (parts.map fun run => [separator].intercalate run)

/-! ## What was split -/

theorem splitOnPair_ne_nil (list : List α) : splitOnPair separator list ≠ [] := by
  induction list using splitOnPair.induct separator with
  | case1 => exact List.cons_ne_nil _ _
  | case2 a => exact List.cons_ne_nil _ _
  | case3 a b rest both ih =>
    rw [splitOnPair, if_pos both]
    exact List.cons_ne_nil _ _
  | case4 a b rest other ih =>
    rw [splitOnPair, if_neg other]
    obtain ⟨first, others, split⟩ := List.exists_cons_of_ne_nil ih
    rw [split]
    exact List.cons_ne_nil _ _

theorem intercalate_splitOnPair (list : List α) :
    [separator, separator].intercalate (splitOnPair separator list) = list := by
  induction list using splitOnPair.induct separator with
  | case1 => exact List.intercalate_singleton
  | case2 a => exact List.intercalate_singleton
  | case3 a b rest both ih =>
    obtain ⟨rfl, rfl⟩ := both
    rw [splitOnPair, if_pos ⟨rfl, rfl⟩]
    obtain ⟨first, others, split⟩ := List.exists_cons_of_ne_nil
      (@splitOnPair_ne_nil _ b _ rest)
    rw [split] at ih ⊢
    rw [List.intercalate_cons_cons, ih]
    rfl
  | case4 a b rest other ih =>
    rw [splitOnPair, if_neg other, intercalate_modifyHead (splitOnPair_ne_nil _), ih]

theorem intercalate_pieces (list : List α) :
    [separator].intercalate (pieces separator list) = list := by
  unfold pieces
  split
  · rename_i empty
    rw [empty]
    rfl
  · exact List.intercalate_splitOn separator

/-- **A list is what its shape joins to.** -/
theorem unshape_shape (list : List α) : unshape separator (shape separator list) = list := by
  have same : ((fun run => [separator].intercalate run) ∘ pieces separator) = id := by
    funext piece
    exact intercalate_pieces piece
  rw [unshape, shape, List.map_map, same, List.map_id, intercalate_splitOnPair]

/-! ## What was joined -/

theorem splitOnPair_of_unpaired {list : List α} (unpaired : Unpaired separator list) :
    splitOnPair separator list = [list] := by
  induction list using splitOnPair.induct separator with
  | case1 => rfl
  | case2 a => rfl
  | case3 a b rest both ih => exact absurd both (List.isChain_cons_cons.mp unpaired).1
  | case4 a b rest other ih =>
    rw [splitOnPair, if_neg other, ih (List.isChain_cons_cons.mp unpaired).2]
    rfl

theorem splitOnPair_append {first rest : List α} (unpaired : Unpaired separator first)
    (apart : first.getLast? ≠ some separator) :
    splitOnPair separator (first ++ separator :: separator :: rest) =
      first :: splitOnPair separator rest := by
  induction first using splitOnPair.induct separator with
  | case1 => rw [List.nil_append, splitOnPair, if_pos ⟨rfl, rfl⟩]
  | case2 a =>
    have other : a ≠ separator := fun same => apart (same ▸ rfl)
    rw [List.singleton_append, splitOnPair, if_neg fun both => other both.1, splitOnPair,
      if_pos ⟨rfl, rfl⟩]
    rfl
  | case3 a b more both ih => exact absurd both (List.isChain_cons_cons.mp unpaired).1
  | case4 a b more other ih =>
    rw [List.getLast?_cons_cons] at apart
    have rest' := ih (List.isChain_cons_cons.mp unpaired).2 apart
    rw [List.cons_append] at rest'
    rw [List.cons_append, List.cons_append, splitOnPair, if_neg other, rest']
    rfl

theorem pieces_intercalate (solid : ∀ piece ∈ run, Solid separator piece) :
    pieces separator ([separator].intercalate run) = run := by
  cases run with
  | nil => rfl
  | cons piece run =>
    rw [pieces, if_neg (intercalate_ne_nil (solid piece List.mem_cons_self).1 run)]
    exact List.splitOn_intercalate separator (fun l member => (solid l member).2)
      (List.cons_ne_nil _ _)

/-- **Solid pieces are the shape of what they join to.** -/
theorem shape_unshape {runs : List (List (List α))} (some : runs ≠ [])
    (solid : ∀ run ∈ runs, ∀ piece ∈ run, Solid separator piece) :
    shape separator (unshape separator runs) = runs := by
  induction runs with
  | nil => exact absurd rfl some
  | cons run runs ih =>
    obtain ⟨first, others⟩ := List.forall_mem_cons.mp solid
    cases runs with
    | nil =>
      rw [shape, unshape, List.map_singleton, List.intercalate_singleton,
        splitOnPair_of_unpaired (unpaired_intercalate first), List.map_singleton,
        pieces_intercalate first]
    | cons second runs =>
      have joined : unshape separator (run :: second :: runs) = [separator].intercalate run ++
          separator :: separator :: unshape separator (second :: runs) := by
        rw [unshape, List.map_cons, List.map_cons, List.intercalate_cons_cons, List.append_assoc]
        rfl
      rw [shape, joined, splitOnPair_append (unpaired_intercalate first)
        (getLast?_intercalate first), List.map_cons, pieces_intercalate first]
      exact congrArg (run :: ·) (ih (List.cons_ne_nil _ _) others)

/-! ## What is appended -/

/-- A list is cut after its last separator. -/
theorem cut_append {front last : List α} (closed : Closed separator front)
    (absent : separator ∉ last) :
    (front ++ last).rdropWhile (fun a => decide (a ≠ separator)) = front ∧
      (front ++ last).rtakeWhile (fun a => decide (a ≠ separator)) = last := by
  have free : ∀ a ∈ last.reverse, decide (a ≠ separator) = true := by
    intro a member
    rw [decide_eq_true_eq]
    rintro rfl
    exact absent (List.mem_reverse.mp member)
  have stop : ∀ a, front.reverse.head? = some a → ¬ decide (a ≠ separator) = true := by
    intro a head
    rw [List.head?_reverse] at head
    rcases closed with rfl | last
    · cases head
    · rw [last] at head
      cases head
      rw [decide_eq_true_eq, not_not]
  have dropped : front.reverse.dropWhile (fun a => decide (a ≠ separator)) = front.reverse := by
    cases shape : front.reverse with
    | nil => rfl
    | cons a rest => exact List.dropWhile_cons_of_neg (stop a (shape ▸ rfl))
  have taken : front.reverse.takeWhile (fun a => decide (a ≠ separator)) = [] := by
    cases shape : front.reverse with
    | nil => rfl
    | cons a rest => exact List.takeWhile_cons_of_neg (stop a (shape ▸ rfl))
  constructor
  · rw [List.rdropWhile, List.reverse_append, List.dropWhile_append_of_pos free, dropped,
      List.reverse_reverse]
  · rw [List.rtakeWhile, List.reverse_append, List.takeWhile_append_of_pos free, taken,
      List.append_nil, List.reverse_reverse]

theorem closed_rdropWhile (list : List α) :
    Closed separator (list.rdropWhile fun a => decide (a ≠ separator)) := by
  by_cases empty : (list.rdropWhile fun a => decide (a ≠ separator)) = []
  · exact .inl empty
  · right
    have last := List.rdropWhile_last_not _ _ empty
    rw [decide_eq_true_eq, not_not] at last
    rw [List.getLast?_eq_some_getLast empty, last]

theorem splitOnPair_append_closed {front : List α} (closed : Closed separator front) :
    ∃ before last, Closed separator last ∧ ∀ more : List α, more.head? ≠ some separator →
      Unpaired separator more →
      splitOnPair separator (front ++ more) = before ++ [last ++ more] := by
  induction front using splitOnPair.induct separator with
  | case1 =>
    refine ⟨[], [], .inl rfl, fun more _ unpaired => ?_⟩
    rw [List.nil_append, splitOnPair_of_unpaired unpaired]
    rfl
  | case2 a =>
    refine ⟨[], [a], closed, fun more head unpaired => ?_⟩
    apply splitOnPair_of_unpaired
    refine List.isChain_cons.mpr ⟨?_, unpaired⟩
    rintro b first ⟨-, rfl⟩
    exact head first
  | case3 a b rest both ih =>
    have closed' : Closed separator rest := by
      rcases closed with none | last
      · exact absurd none (List.cons_ne_nil _ _)
      · cases rest with
        | nil => exact .inl rfl
        | cons c rest =>
          rw [List.getLast?_cons_cons, List.getLast?_cons_cons] at last
          exact .inr last
    obtain ⟨before, last, ends, split⟩ := ih closed'
    refine ⟨[] :: before, last, ends, fun more head unpaired => ?_⟩
    rw [List.cons_append, List.cons_append, splitOnPair, if_pos both, split more head unpaired]
    rfl
  | case4 a b rest other ih =>
    have closed' : Closed separator (b :: rest) := by
      rcases closed with none | last
      · exact absurd none (List.cons_ne_nil _ _)
      · rw [List.getLast?_cons_cons] at last
        exact .inr last
    obtain ⟨before, last, ends, split⟩ := ih closed'
    cases before with
    | nil =>
      refine ⟨[], a :: last, .inr ?_, fun more head unpaired => ?_⟩
      · rcases ends with rfl | ends
        · have nothing := split [] nofun List.IsChain.nil
          have whole := @intercalate_splitOnPair _ separator _ (b :: rest ++ [])
          rw [nothing, List.append_nil, List.append_nil] at whole
          cases whole
        · cases last with
          | nil => cases ends
          | cons c last => rwa [List.getLast?_cons_cons]
      · rw [List.cons_append, List.cons_append, splitOnPair, if_neg other, ← List.cons_append,
          split more head unpaired]
        rfl
    | cons first before =>
      refine ⟨(a :: first) :: before, last, ends, fun more head unpaired => ?_⟩
      rw [List.cons_append, List.cons_append, splitOnPair, if_neg other, ← List.cons_append,
        split more head unpaired]
      rfl

/-- **Pieces that are appended after a separator** follow the last pieces. -/
theorem shape_append {front : List α} (closed : Closed separator front) :
    ∃ before last, ∀ run : List (List α), run ≠ [] → (∀ piece ∈ run, Solid separator piece) →
      shape separator (front ++ [separator].intercalate run) = before ++ [last ++ run] := by
  obtain ⟨before, last, ends, split⟩ := splitOnPair_append_closed closed
  obtain ⟨pieces', continued⟩ : ∃ pieces', ∀ more : List α,
      (last ++ more).splitOn separator = pieces' ++ more.splitOn separator := by
    rcases ends with rfl | ends
    · exact ⟨[], fun more => rfl⟩
    · obtain ⟨init, rfl⟩ := List.getLast?_eq_some_iff.mp ends
      refine ⟨init.splitOn separator, fun more => ?_⟩
      rw [List.append_assoc]
      exact List.splitOn_append_cons_self init more
  refine ⟨before.map (pieces separator), pieces', fun run some solid => ?_⟩
  obtain ⟨piece, others, rfl⟩ := List.exists_cons_of_ne_nil some
  obtain ⟨inside, absent⟩ := solid piece List.mem_cons_self
  have joined := @intercalate_ne_nil _ [separator] piece inside others
  have head : ([separator].intercalate (piece :: others)).head? ≠ Option.some separator := by
    rw [head?_intercalate inside]
    exact fun first => absent (List.mem_of_mem_head? first)
  have parts : ([separator].intercalate (piece :: others)).splitOn separator = piece :: others :=
    List.splitOn_intercalate separator (fun l member => (solid l member).2) (List.cons_ne_nil _ _)
  rw [shape, split _ head (unpaired_intercalate solid), List.map_append, List.map_singleton,
    pieces, if_neg (List.append_ne_nil_of_right_ne_nil _ joined), continued, parts]

end Koklo.Foundations
