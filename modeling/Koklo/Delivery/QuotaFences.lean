import Koklo.Delivery.QuotaSignal
import Koklo.Foundations.Splitting
import Mathlib.Algebra.Ring.Parity

/-!
# Fences that are cut off

Only the last code units of an output are scanned, and fences are paired from the first one that
is left. When an odd number of them is cut off, what stood between two fences stands outside of
the pairs of the scan, and can give a signal (`betweenFences_unused_iff`).
-/

set_option autoImplicit false

namespace Koklo.Delivery.Quota

open Koklo.Foundations

/-- Between two paired fences of the lines. -/
def BetweenFences (lines : List Text) (i : ℕ) : Prop :=
  ∃ pair ∈ fencePairs (fences lines), pair.1 < i ∧ i < pair.2

/-! ## Pairs -/

/-- What is before all the indices of a list is after none of them. -/
theorem countP_lt_eq_zero {indices : List ℕ} {bound i : ℕ} (above : ∀ index ∈ indices, bound < index)
    (within : i ≤ bound) : indices.countP (· < i) = 0 := by
  rw [List.countP_eq_zero]
  intro index member
  have far := above index member
  rw [decide_eq_true_eq]
  omega

theorem countP_lt_cons (first i : ℕ) (others : List ℕ) : (first :: others).countP (· < i) =
    others.countP (· < i) + if first < i then 1 else 0 := by
  rw [List.countP_cons]
  simp only [decide_eq_true_eq]

/-- **An index between two of a pair follows an odd number of indices**, and one follows it. -/
theorem between_fencePairs_iff {indices : List ℕ} (sorted : indices.Pairwise (· < ·)) {i : ℕ} :
    (∃ pair ∈ fencePairs indices, pair.1 < i ∧ i < pair.2) ↔
      i ∉ indices ∧ Odd (indices.countP (· < i)) ∧ ∃ index ∈ indices, i < index := by
  induction indices using fencePairs.induct with
  | case1 first last others ih =>
    rw [List.pairwise_cons, List.pairwise_cons] at sorted
    obtain ⟨afterFirst, afterLast, sorted⟩ := sorted
    have level : first < last := afterFirst last List.mem_cons_self
    have ih := ih sorted
    rw [fencePairs, List.exists_mem_cons_iff, ih]
    rcases Nat.lt_or_ge last i with past | within
    · -- After the first pair.
      have after : ∀ index, index = first ∨ index = last → index < i := by
        rintro index (rfl | rfl)
        · exact level.trans past
        · exact past
      rw [countP_lt_cons, countP_lt_cons, if_pos past, if_pos (level.trans past), Nat.add_assoc,
        Nat.odd_add, iff_true_right (by decide : Even (1 + 1))]
      constructor
      · rintro (⟨_, short⟩ | ⟨outside, odd, index, member, follows⟩)
        · exact absurd short (not_lt_of_gt past)
        · refine ⟨?_, odd, index, List.mem_cons_of_mem _ (List.mem_cons_of_mem _ member), follows⟩
          intro inside
          rcases List.mem_cons.mp inside with same | inside
          · exact absurd (after i (.inl same)) (Nat.lt_irrefl i)
          · rcases List.mem_cons.mp inside with same | inside
            · exact absurd (after i (.inr same)) (Nat.lt_irrefl i)
            · exact outside inside
      · rintro ⟨outside, odd, index, member, follows⟩
        refine .inr ⟨fun inside => outside (List.mem_cons_of_mem _ (List.mem_cons_of_mem _ inside)),
          odd, index, ?_, follows⟩
        rcases List.mem_cons.mp member with same | member
        · exact absurd (after index (.inl same)) (not_lt_of_gt follows)
        · rcases List.mem_cons.mp member with same | member
          · exact absurd (after index (.inr same)) (not_lt_of_gt follows)
          · exact member
    · -- Not after the first pair, and so before the others.
      have none : ¬ Odd (others.countP (· < i)) := by
        rw [countP_lt_eq_zero afterLast within]
        decide
      rw [or_iff_left (fun later => none later.2.1)]
      rcases Nat.lt_or_ge first i with started | early
      · rw [countP_lt_cons, countP_lt_cons, if_pos started, if_neg (not_lt_of_ge within),
          countP_lt_eq_zero afterLast within]
        constructor
        · rintro ⟨_, short⟩
          refine ⟨?_, by decide, last, List.mem_cons_of_mem _ List.mem_cons_self, short⟩
          intro inside
          rcases List.mem_cons.mp inside with same | inside
          · exact absurd same started.ne'
          · rcases List.mem_cons.mp inside with same | inside
            · exact absurd same short.ne
            · exact absurd (afterLast i inside) (not_lt_of_gt short)
        · rintro ⟨outside, _⟩
          refine ⟨started, lt_of_le_of_ne within ?_⟩
          rintro rfl
          exact outside (List.mem_cons_of_mem _ List.mem_cons_self)
      · have zero : (first :: last :: others).countP (· < i) = 0 := by
          rw [countP_lt_cons, if_neg (not_lt_of_ge early), countP_lt_eq_zero afterFirst early]
        rw [zero]
        constructor
        · rintro ⟨started, _⟩
          exact absurd started (not_lt_of_ge early)
        · rintro ⟨_, odd, _⟩
          exact absurd odd (by decide)
  | case2 indices short =>
    have none : fencePairs indices = [] := by
      unfold fencePairs
      split
      · exact absurd rfl (short _ _ _)
      · rfl
    rw [none]
    constructor
    · rintro ⟨_, member, _⟩
      cases member
    · rintro ⟨outside, odd, index, member, follows⟩
      -- At most one index, which follows.
      cases indices with
      | nil => cases member
      | cons first others =>
        cases others with
        | cons last others => exact absurd rfl (short _ _ _)
        | nil =>
          rw [List.mem_singleton] at member
          subst member
          rw [countP_lt_cons, if_neg (not_lt_of_gt follows), List.countP_nil] at odd
          exact absurd odd (by decide)

/-- **An index with one that follows is in a pair when an odd number precedes it**, or when it is
one of them. -/
theorem exists_fencePair {indices : List ℕ} (sorted : indices.Pairwise (· < ·)) {i index : ℕ}
    (member : index ∈ indices) (follows : i < index)
    (inside : i ∈ indices ∨ Odd (indices.countP (· < i))) :
    ∃ pair ∈ fencePairs indices, pair.1 ≤ i ∧ i ≤ pair.2 := by
  induction indices using fencePairs.induct with
  | case1 first last others ih =>
    rw [List.pairwise_cons, List.pairwise_cons] at sorted
    obtain ⟨afterFirst, afterLast, sorted⟩ := sorted
    have level : first < last := afterFirst last List.mem_cons_self
    rw [fencePairs, List.exists_mem_cons_iff]
    rcases Nat.lt_or_ge last i with past | within
    · have started := level.trans past
      right
      apply ih sorted
      · rcases List.mem_cons.mp member with rfl | member
        · exact absurd follows (not_lt_of_gt started)
        · rcases List.mem_cons.mp member with rfl | member
          · exact absurd follows (not_lt_of_gt past)
          · exact member
      · rcases inside with inside | odd
        · left
          rcases List.mem_cons.mp inside with same | inside
          · exact absurd same started.ne'
          · rcases List.mem_cons.mp inside with same | inside
            · exact absurd same past.ne'
            · exact inside
        · right
          rwa [countP_lt_cons, countP_lt_cons, if_pos past, if_pos started, Nat.add_assoc,
            Nat.odd_add, iff_true_right (by decide : Even (1 + 1))] at odd
    · refine .inl ⟨?_, within⟩
      by_contra early
      rcases inside with inside | odd
      · rcases List.mem_cons.mp inside with same | inside
        · exact early same.ge
        · exact early (afterFirst i inside).le
      · rw [countP_lt_cons, if_neg (fun started => early started.le),
          countP_lt_eq_zero afterFirst (Nat.le_of_not_le early)] at odd
        exact absurd odd (by decide)
  | case2 indices short =>
    -- At most one index, which follows.
    cases indices with
    | nil => cases member
    | cons first others =>
      cases others with
      | cons last others => exact absurd rfl (short _ _ _)
      | nil =>
        rw [List.mem_singleton] at member
        subst member
        rcases inside with inside | odd
        · exact absurd (List.mem_singleton.mp inside) follows.ne
        · rw [countP_lt_cons, if_neg (not_lt_of_gt follows), List.countP_nil] at odd
          exact absurd odd (by decide)

/-! ## The fences of lines -/

/-- The fences of lines that are counted from another number. -/
theorem flatMap_zipIdx_eq (lines : List Text) (n : ℕ) :
    ((lines.zipIdx n).flatMap fun (line, i) => if fence.test line then [i] else []) =
      (fences lines).map (n + ·) := by
  induction lines generalizing n with
  | nil => rfl
  | cons line lines ih =>
    have shifted : ∀ rest : List ℕ, (rest.map (0 + 1 + ·)).map (n + ·) = rest.map (n + 1 + ·) := by
      intro rest
      rw [List.map_map]
      apply List.map_congr_left
      intro i _
      show n + (0 + 1 + i) = n + 1 + i
      omega
    rw [fences, List.zipIdx_cons, List.zipIdx_cons, List.flatMap_cons, List.flatMap_cons, ih, ih,
      List.map_append, shifted]
    congr 1
    simp only
    split <;> rfl

theorem fences_append (first second : List Text) :
    fences (first ++ second) = fences first ++ (fences second).map (first.length + ·) := by
  have shifted := flatMap_zipIdx_eq second (0 + first.length)
  rw [fences, List.zipIdx_append, List.flatMap_append, shifted, Nat.zero_add]
  rfl

theorem fences_cons (line : Text) (lines : List Text) :
    fences (line :: lines) = (if fence.test line then [0] else []) ++ (fences lines).map (1 + ·) := by
  rw [← List.singleton_append, fences_append]
  congr 1
  exact List.append_nil _

/-- The fences are met in order. -/
theorem pairwise_fences (lines : List Text) : (fences lines).Pairwise (· < ·) := by
  induction lines with
  | nil => exact List.Pairwise.nil
  | cons line lines ih =>
    rw [fences_cons, List.pairwise_append, List.pairwise_map]
    refine ⟨?_, ih.imp (Nat.add_lt_add_left · 1), ?_⟩
    · split
      · exact List.pairwise_singleton _ _
      · exact List.Pairwise.nil
    · intro i member j member'
      obtain ⟨k, _, rfl⟩ := List.mem_map.mp member'
      split at member
      · rw [List.mem_singleton.mp member]
        omega
      · cases member

theorem lt_length_of_mem_fences {lines : List Text} {i : ℕ} (member : i ∈ fences lines) :
    i < lines.length := by
  obtain ⟨⟨line, j⟩, listed, chosen⟩ := List.mem_flatMap.mp member
  simp only at chosen
  split at chosen
  · rw [List.mem_singleton.mp chosen]
    exact List.snd_lt_of_mem_zipIdx listed
  · cases chosen

/-! ## The lines of the scan -/

theorem getD_quotedLines {lines : List Text} {i : ℕ} (inside : i < lines.length)
    (fenced : i ∈ fencedLines lines) : (quotedLines lines).getD i false = true := by
  have listed : lines.zipIdx[i]? = some (lines[i], i) := by
    rw [List.getElem?_zipIdx, List.getElem?_eq_getElem inside, Nat.zero_add]
    rfl
  simp only [quotedLines, List.getD_eq_getElem?_getD, List.getElem?_map, listed, Option.map_some,
    Option.getD_some, fenced, decide_true, Bool.true_or]

/-- **No scanned line is between two paired fences of the scan**, nor one of these. -/
theorem not_mem_fencedLines {output : Text} {maxChars : ℕ} {line : ScannedLine}
    (scanned : line ∈ scanLines output maxChars) :
    line.position < (Text.lines (lastUnits output maxChars)).length ∧
      line.position ∉ fencedLines (Text.lines (lastUnits output maxChars)) := by
  obtain ⟨⟨text, i⟩, listed, chosen⟩ := List.mem_flatMap.mp scanned
  have inside := List.snd_lt_of_mem_zipIdx listed
  rw [List.length_map] at inside
  simp only at chosen
  split at chosen
  · cases chosen
  · rename_i kept
    rw [List.mem_singleton.mp chosen]
    refine ⟨inside, fun fenced => kept ?_⟩
    rw [getD_quotedLines inside fenced]
    rfl

/-- A scanned line with a fence after it is no fence, and follows an even number of fences. -/
theorem not_mem_fences {lines : List Text} {i index : ℕ} (outside : i ∉ fencedLines lines)
    (member : index ∈ fences lines) (follows : i < index) :
    i ∉ fences lines ∧ ¬ Odd ((fences lines).countP (· < i)) := by
  rw [← not_or]
  intro inside
  obtain ⟨⟨first, last⟩, paired, started, within⟩ :=
    exists_fencePair (pairwise_fences lines) member follows inside
  apply outside
  refine List.mem_flatMap.mpr ⟨(first, last), paired, List.mem_range'_1.mpr ⟨started, ?_⟩⟩
  simp only at started within
  omega

/-! ## What the cut changes -/

/-- What continues a line is part of it up to the next line feed. -/
theorem lines_append {line rest : Text} (single : Text.newline ∉ line) :
    Text.lines (line ++ rest) = (Text.lines rest).modifyHead (line ++ ·) := by
  obtain ⟨first, others, shape⟩ := List.exists_cons_of_ne_nil (List.splitOn_ne_nil Text.newline rest)
  induction line with
  | nil =>
    rw [List.nil_append, Text.lines, shape]
    rfl
  | cons u line ih =>
    rw [List.mem_cons, not_or] at single
    have other : ¬ (u == Text.newline) = true := fun same => single.1 (eq_of_beq same).symm
    have continued := ih single.2
    rw [Text.lines, Text.lines, shape, List.modifyHead_cons] at continued
    rw [Text.lines, Text.lines, List.cons_append, List.splitOn_cons_eq_if_modifyHead, if_neg other,
      continued, shape]
    rfl

/-- **The lines of an output and of what is left of it** differ in the lines that are cut off and
in the first line that is left. -/
theorem exists_cut (output : Text) (maxChars : ℕ) : ∃ before cut first rest,
    Text.lines output = before ++ (cut ++ first) :: rest ∧
      Text.lines (lastUnits output maxChars) = first :: rest := by
  obtain ⟨start, whole⟩ : ∃ start, output = start ++ lastUnits output maxChars := by
    rw [lastUnits]
    split
    · exact ⟨[], rfl⟩
    · exact ⟨output.take _, (List.take_append_drop _ _).symm⟩
  have some := List.splitOn_ne_nil Text.newline start
  have split := (List.dropLast_append_getLast some).symm
  obtain ⟨first, rest, shape⟩ :=
    List.exists_cons_of_ne_nil (List.splitOn_ne_nil Text.newline (lastUnits output maxChars))
  refine ⟨(start.splitOn Text.newline).dropLast, (start.splitOn Text.newline).getLast some,
    first, rest, ?_, shape⟩
  have continued := @lines_append _ (lastUnits output maxChars)
    (not_mem_of_mem_splitOn (List.getLast_mem some))
  rw [Text.lines, Text.lines, shape, List.modifyHead_cons] at continued
  conv_lhs => rw [whole, Text.lines, splitOn_append split, continued]

/-- The line of an output that a scanned line comes from. -/
def lineIndex (output : Text) (line : ScannedLine) : ℕ :=
  (Text.lines output).length - (Text.lines (lastUnits output quotaScanChars)).length + line.position

/-- The lines that are scanned, with the lines that quote. -/
def scannedPart (output : Text) : List Text := Text.lines (lastUnits output quotaScanChars)

/-- A scanned line that an odd number of cut off fences leaves outside of the pairs of the scan:
an even number of scanned fences precedes it, one follows it, and it is no fence of the output. -/
structure Unpaired (output : Text) (line : ScannedLine) : Prop where
  precede : Even ((fences (scannedPart output)).countP (· < line.position))
  follows : ∃ index ∈ fences (scannedPart output), line.position < index
  noFence : lineIndex output line ∉ fences (Text.lines output)

/-- As many fences in the output as in what is scanned of it, up to an even number. -/
def EvenCut (output : Text) : Prop :=
  Even ((fences (Text.lines output)).length + (fences (scannedPart output)).length)

/-- The fences of lines of which the first may be one. -/
def fencesAfter (isFence : Bool) (rest : List ℕ) : List ℕ :=
  (if isFence then [0] else []) ++ rest.map (1 + ·)

theorem mem_fencesAfter {isFence : Bool} {rest : List ℕ} {i : ℕ} (later : 0 < i) :
    i ∈ fencesAfter isFence rest ↔ i ∈ rest.map (1 + ·) := by
  rw [fencesAfter, List.mem_append, or_iff_right]
  intro first
  split at first
  · exact absurd (List.mem_singleton.mp first) later.ne'
  · cases first

theorem zero_mem_fencesAfter {isFence : Bool} {rest : List ℕ} :
    0 ∈ fencesAfter isFence rest ↔ isFence = true := by
  rw [fencesAfter, List.mem_append, or_iff_left]
  · cases isFence <;> simp
  · intro later
    obtain ⟨i, _, same⟩ := List.mem_map.mp later
    omega

theorem length_fencesAfter (isFence : Bool) (rest : List ℕ) :
    (fencesAfter isFence rest).length = isFence.toNat + rest.length := by
  rw [fencesAfter, List.length_append, List.length_map]
  cases isFence <;> rfl

/-- Past the first line, what is counted is the first fence and the fences of the others. -/
theorem countP_fencesAfter {isFence : Bool} {rest : List ℕ} {i : ℕ} (later : 0 < i) :
    (fencesAfter isFence rest).countP (· < i) =
      isFence.toNat + (rest.map (1 + ·)).countP (· < i) := by
  rw [fencesAfter, List.countP_append]
  congr 1
  cases isFence with
  | false => rfl
  | true => rw [if_pos rfl, countP_lt_cons, if_pos later]; rfl

/-- Counting is the same after a shift. -/
theorem countP_shift (indices : List ℕ) (n i : ℕ) :
    (indices.map (n + ·)).countP (· < n + i) = indices.countP (· < i) := by
  rw [List.countP_map]
  apply List.countP_congr
  intro index _
  simp only [Function.comp_apply, decide_eq_true_eq]
  omega

/-- **A scanned line stands between two fences of the output exactly when an odd number of fences
is cut off and the line is left outside of the pairs.** -/
theorem betweenFences_iff {output : Text} {line : ScannedLine}
    (scanned : line ∈ scanLines output quotaScanChars) :
    BetweenFences (Text.lines output) (lineIndex output line) ↔
      ¬ EvenCut output ∧ Unpaired output line := by
  obtain ⟨inside, outside⟩ := not_mem_fencedLines scanned
  obtain ⟨before, cut, first, rest, whole, left⟩ := exists_cut output quotaScanChars
  have index : lineIndex output line = before.length + line.position := by
    rw [lineIndex, whole, left, List.length_append, List.length_cons, List.length_cons,
      Nat.add_sub_cancel]
  have fencesLeft : fences (scannedPart output) =
      fencesAfter (fence.test first) (fences rest) := by
    rw [scannedPart, left, fences_cons, fencesAfter]
  have fencesWhole : fences (Text.lines output) = fences before ++
      (fencesAfter (fence.test (cut ++ first)) (fences rest)).map (before.length + ·) := by
    rw [whole, fences_append, fences_cons, fencesAfter]
  -- What follows the line is the same in the output and in what is scanned of it.
  have followed : (∃ i ∈ fences (Text.lines output), lineIndex output line < i) ↔
      ∃ i ∈ fences (scannedPart output), line.position < i := by
    rw [fencesWhole, fencesLeft, index]
    constructor
    · rintro ⟨i, member, past⟩
      rcases List.mem_append.mp member with cutOff | member
      · have early := lt_length_of_mem_fences cutOff
        omega
      · obtain ⟨j, member', rfl⟩ := List.mem_map.mp member
        have later : 0 < j := by omega
        exact ⟨j, (mem_fencesAfter later).mpr ((mem_fencesAfter later).mp member'), by omega⟩
    · rintro ⟨j, member, past⟩
      have later : 0 < j := by omega
      refine ⟨before.length + j, List.mem_append_right _ (List.mem_map_of_mem ?_), by omega⟩
      exact (mem_fencesAfter later).mpr ((mem_fencesAfter later).mp member)
  -- What precedes it is counted up to the fences that are cut off.
  have counted : (fences (Text.lines output)).countP (· < lineIndex output line) =
      (fences before).length +
        (fencesAfter (fence.test (cut ++ first)) (fences rest)).countP (· < line.position) := by
    have cutOff : (fences before).countP (· < before.length + line.position) =
        (fences before).length := by
      rw [List.countP_eq_length]
      intro i member
      have early := lt_length_of_mem_fences member
      rw [decide_eq_true_eq]
      omega
    rw [fencesWhole, List.countP_append, index, countP_shift, cutOff]
  have total : (fences (Text.lines output)).length = (fences before).length +
      ((fence.test (cut ++ first)).toNat + (fences rest).length) := by
    rw [fencesWhole, List.length_append, List.length_map, length_fencesAfter]
  have totalLeft : (fences (scannedPart output)).length =
      (fence.test first).toNat + (fences rest).length := by
    rw [fencesLeft, length_fencesAfter]
  have parity : lineIndex output line ∉ fences (Text.lines output) →
      line.position ∉ fences (scannedPart output) →
      Even ((fences (scannedPart output)).countP (· < line.position)) →
      (Odd ((fences (Text.lines output)).countP (· < lineIndex output line)) ↔
        ¬ EvenCut output) := by
    intro noFence noFence' even
    rw [EvenCut, total, totalLeft, counted]
    rw [fencesLeft] at noFence' even
    rw [fencesWhole, index] at noFence
    rcases Nat.eq_zero_or_pos line.position with zero | later
    · -- The first line is no fence, neither as it is nor as it is cut.
      rw [zero] at noFence noFence' ⊢
      have plain : fence.test first = false := by
        rw [← Bool.not_eq_true, ← @zero_mem_fencesAfter _ (fences rest)]
        exact noFence'
      have plain' : fence.test (cut ++ first) = false := by
        rw [← Bool.not_eq_true, ← @zero_mem_fencesAfter _ (fences rest)]
        exact fun member => noFence (List.mem_append_right _ (List.mem_map_of_mem member))
      have none : (fencesAfter (fence.test (cut ++ first)) (fences rest)).countP (· < 0) = 0 :=
        List.countP_eq_zero.mpr fun i _ => by simp
      rw [none, plain, plain', Nat.odd_iff, Nat.even_iff, Bool.toNat_false]
      omega
    · rw [countP_fencesAfter later] at even ⊢
      rw [Nat.odd_iff, Nat.even_iff]
      rw [Nat.even_iff] at even
      omega
  rw [BetweenFences, between_fencePairs_iff (pairwise_fences _), followed]
  constructor
  · rintro ⟨noFence, odd, i, member, past⟩
    obtain ⟨noFence', even⟩ := not_mem_fences outside member past
    have even := Nat.not_odd_iff_even.mp even
    exact ⟨(parity noFence noFence' even).mp odd, even, ⟨i, member, past⟩, noFence⟩
  · rintro ⟨uneven, even, ⟨i, member, past⟩, noFence⟩
    obtain ⟨noFence', _⟩ := not_mem_fences outside member past
    exact ⟨noFence, (parity noFence noFence' even).mpr uneven, i, member, past⟩

/-! ## The line that gives the signal -/

/-- The pattern matches the line. -/
def recognizes (candidate : QuotaPattern) (line : ScannedLine) : Bool :=
  candidate.regex.test line.text

/-- **The first line that the first pattern recognizes** gives the signal. -/
theorem findQuota_eq_some_iff {patterns : List QuotaPattern} {lines : List ScannedLine}
    {detection : Detection} : findQuota patterns lines = some detection ↔
      ∃ before after first rest, patterns = before ++ detection.candidate :: after ∧
        lines = first ++ detection.line :: rest ∧
        detection.candidate.regex.exec detection.line.text = some detection.found ∧
        (∀ earlier ∈ before, ∀ other ∈ lines, recognizes earlier other = false) ∧
        ∀ other ∈ first, recognizes detection.candidate other = false := by
  have unmatched : ∀ (candidate : QuotaPattern) (line : ScannedLine),
      (candidate.regex.exec line.text).map (fun found => (⟨candidate, found, line⟩ : Detection)) =
        none ↔ recognizes candidate line = false := by
    intro candidate line
    rw [Option.map_eq_none_iff, recognizes, RegExp.test, Option.isSome_eq_false_iff,
      Option.isNone_iff_eq_none]
  rw [findQuota, List.findSome?_eq_some_iff]
  constructor
  · rintro ⟨before, candidate, after, rfl, matched, none⟩
    obtain ⟨first, line, rest, rfl, found, none'⟩ := List.findSome?_eq_some_iff.mp matched
    obtain ⟨capture, executed, rfl⟩ := Option.map_eq_some_iff.mp found
    refine ⟨before, after, first, rest, rfl, rfl, executed, ?_, ?_⟩
    · intro earlier member other member'
      exact (unmatched _ _).mp (List.findSome?_eq_none_iff.mp (none earlier member) other member')
    · exact fun other member => (unmatched _ _).mp (none' other member)
  · rintro ⟨before, after, first, rest, rfl, rfl, executed, none, none'⟩
    refine ⟨before, detection.candidate, after, rfl, ?_, ?_⟩
    · refine List.findSome?_eq_some_iff.mpr ⟨first, detection.line, rest, rfl, ?_, ?_⟩
      · rw [executed]
        rfl
      · exact fun other member => (unmatched _ _).mpr (none' other member)
    · intro earlier member
      exact List.findSome?_eq_none_iff.mpr fun other member' =>
        (unmatched _ _).mpr (none earlier member other member')

/-- **The signal of an output** is built from what is found in its scanned lines. -/
theorem detectQuota_eq_some_iff {output : Text} {signal : DetectedSignal} :
    detectQuota output = some signal ↔
      ∃ detection, findQuota quotaPatterns (scanLines output quotaScanChars) = some detection ∧
        buildSignal detection.candidate detection.found detection.line = signal :=
  Option.map_eq_some_iff

/-- **An output gives no signal** exactly when no pattern recognizes a scanned line. -/
theorem detectQuota_eq_none_iff {output : Text} : detectQuota output = none ↔
    ∀ candidate ∈ quotaPatterns, ∀ line ∈ scanLines output quotaScanChars,
      recognizes candidate line = false := by
  rw [detectQuota, Option.map_eq_none_iff, findQuota, List.findSome?_eq_none_iff]
  refine forall₂_congr fun candidate _ => ?_
  rw [List.findSome?_eq_none_iff]
  refine forall₂_congr fun line _ => ?_
  rw [Option.map_eq_none_iff, recognizes, RegExp.test, Option.isSome_eq_false_iff,
    Option.isNone_iff_eq_none]

/-- **No line between two fences of the output gives the signal** exactly when an even number of
fences is cut off, or when something else is recognized before each line that is left outside of
the pairs: an earlier pattern recognizes a line, or the same pattern an earlier line. -/
theorem betweenFences_unused_iff (output : Text) :
    (∀ detection, findQuota quotaPatterns (scanLines output quotaScanChars) = some detection →
      ¬ BetweenFences (Text.lines output) (lineIndex output detection.line)) ↔
    EvenCut output ∨ ∀ before candidate after, quotaPatterns = before ++ candidate :: after →
      ∀ first line rest, scanLines output quotaScanChars = first ++ line :: rest →
        Unpaired output line → recognizes candidate line = true →
          (∃ earlier ∈ before, ∃ other ∈ scanLines output quotaScanChars,
            recognizes earlier other = true) ∨
          ∃ other ∈ first, recognizes candidate other = true := by
  constructor
  · intro unused
    by_cases even : EvenCut output
    · exact .inl even
    · right
      intro before candidate after listed first line rest scanned unpaired recognized
      by_contra neither
      obtain ⟨noEarlier, noOther⟩ := not_or.mp neither
      obtain ⟨found, executed⟩ := Option.isSome_iff_exists.mp recognized
      have member : line ∈ scanLines output quotaScanChars :=
        scanned ▸ List.mem_append_right _ List.mem_cons_self
      refine unused ⟨candidate, found, line⟩ ?_ ((betweenFences_iff member).mpr ⟨even, unpaired⟩)
      refine findQuota_eq_some_iff.mpr
        ⟨before, after, first, rest, listed, scanned, executed, ?_, ?_⟩
      · intro earlier member other member'
        exact Bool.eq_false_iff.mpr fun known => noEarlier ⟨earlier, member, other, member', known⟩
      · intro other member
        exact Bool.eq_false_iff.mpr fun known => noOther ⟨other, member, known⟩
  · rintro condition detection found between
    obtain ⟨before, after, first, rest, listed, scanned, executed, none, none'⟩ :=
      findQuota_eq_some_iff.mp found
    have member : detection.line ∈ scanLines output quotaScanChars :=
      scanned ▸ List.mem_append_right _ List.mem_cons_self
    obtain ⟨uneven, unpaired⟩ := (betweenFences_iff member).mp between
    rcases condition with even | preceded
    · exact uneven even
    · have recognized : recognizes detection.candidate detection.line = true := by
        rw [recognizes, RegExp.test, executed]
        rfl
      rcases preceded before _ after listed first _ rest scanned unpaired recognized with
        ⟨earlier, inBefore, other, inLines, known⟩ | ⟨other, inFirst, known⟩
      · rw [none earlier inBefore other inLines] at known
        cases known
      · rw [none' other inFirst] at known
        cases known

/-! ## A limit between two fences -/

/-- What is scanned of the output below: a line that is a limit, blanks, and a fence. -/
def limitLines : List Text :=
  [Text.lit "Weekly limit reached", List.replicate 3975 0x20, Text.lit "```"]

/-- The same lines after a fence. -/
def fencedLimit : Text := Text.joinLines (Text.lit "```" :: limitLines)

theorem newline_not_mem_limitLines : ∀ line ∈ limitLines, Text.newline ∉ line := by
  intro line member
  rcases List.mem_cons.mp member with rfl | member
  · decide
  · rcases List.mem_cons.mp member with rfl | member
    · rw [List.mem_replicate, not_and]
      decide
    · rw [List.mem_singleton.mp member]
      decide

theorem lines_fencedLimit : Text.lines fencedLimit = Text.lit "```" :: limitLines :=
  Text.lines_joinLines (List.forall_mem_cons.mpr ⟨by decide, newline_not_mem_limitLines⟩)
    (List.cons_ne_nil _ _)

theorem scannedPart_fencedLimit : Text.lines (lastUnits fencedLimit quotaScanChars) = limitLines := by
  have whole : fencedLimit = Text.lit "```\n" ++ Text.joinLines limitLines := rfl
  have length : (Text.joinLines limitLines).length = quotaScanChars := by
    rw [limitLines, Text.joinLines_cons (List.cons_ne_nil _ _),
      Text.joinLines_cons (List.cons_ne_nil _ _), Text.joinLines, List.intercalate_singleton]
    simp only [List.length_append, List.length_cons, List.length_replicate]
    rfl
  rw [lastUnits, if_neg (by decide), whole, List.length_append, length, Nat.add_sub_cancel,
    List.drop_left]
  exact Text.lines_joinLines newline_not_mem_limitLines (List.cons_ne_nil _ _)

theorem fence_blanks : fence.test (List.replicate 3975 0x20) = false := by
  have shape : fence = .seq .start (.seqs [.upTo 3 blank, literal "```"]) := rfl
  rw [shape, RegExp.test_start]
  decide +kernel

theorem fences_fencedLimit : fences (Text.lines fencedLimit) = [0, 3] := by
  have first : fence.test (Text.lit "```") = true := by decide
  have second : fence.test (Text.lit "Weekly limit reached") = false := by decide +kernel
  rw [lines_fencedLimit, limitLines, fences_cons, fences_cons, fences_cons, fences_cons, first,
    second, fence_blanks]
  rfl

/-- Blanks are one blank once they are cleaned. -/
theorem cleanText_blanks (n : ℕ) : cleanText (List.replicate (n + 1) 0x20) = [0x20] := by
  have kept : ∀ n, keptFrom 0 (List.replicate n 0x20) = List.replicate n 0x20 := by
    intro n
    induction n with
    | zero => rfl
    | succ n ih =>
      rw [List.replicate_succ, keptFrom, if_neg (by decide), if_neg (by decide), ih]
  have collapsed : ∀ n, collapseFrom true (List.replicate n 0x20) = [] := by
    intro n
    induction n with
    | zero => rfl
    | succ n ih => rw [List.replicate_succ, collapseFrom, if_pos (by decide), if_pos rfl, ih]
  have same : normalizeUnicode 0x20 = 0x20 := by decide
  rw [cleanText, kept, List.map_replicate, same, List.replicate_succ, collapseFrom,
    if_pos (by decide), collapsed]
  rfl

theorem mem_of_mem_fencePairs {indices : List ℕ} {pair : ℕ × ℕ} (member : pair ∈ fencePairs indices) :
    pair.1 ∈ indices := by
  induction indices using fencePairs.induct with
  | case1 first last others ih =>
    rcases List.mem_cons.mp member with rfl | later
    · exact List.mem_cons_self
    · exact List.mem_cons_of_mem _ (List.mem_cons_of_mem _ (ih later))
  | case2 indices short =>
    unfold fencePairs at member
    split at member
    · exact absurd rfl (short _ _ _)
    · cases member

/-- A first line that is no fence and quotes nothing is not quoted. -/
theorem getD_quotedLines_zero {line : Text} (rest : List Text) (noFence : fence.test line = false)
    (noDiff : ∀ hasDiffHeader, isDiffLine line hasDiffHeader = false)
    (noCode : isCodeLine (withoutBullet line) = false) :
    (quotedLines (line :: rest)).getD 0 false = false := by
  have outside : 0 ∉ fencedLines (line :: rest) := by
    intro fenced
    obtain ⟨⟨first, last⟩, paired, inside⟩ := List.mem_flatMap.mp fenced
    have first' := mem_of_mem_fencePairs paired
    rw [Nat.le_zero.mp (List.mem_range'_1.mp inside).1, fences_cons, ← fencesAfter,
      zero_mem_fencesAfter, noFence] at first'
    cases first'
  have head : (quotedLines (line :: rest))[0]? = some (decide (0 ∈ fencedLines (line :: rest)) ||
      isDiffLine line ((line :: rest).any diffHeader.test) || isCodeLine (withoutBullet line)) := rfl
  rw [List.getD_eq_getElem?_getD, head, Option.getD_some, noDiff, noCode, decide_eq_false outside]
  rfl

theorem getElem?_of_mem_scanLines {output : Text} {maxChars : ℕ} {line : ScannedLine}
    (scanned : line ∈ scanLines output maxChars) :
    ((Text.lines (lastUnits output maxChars)).map cleanText)[line.position]? = some line.text := by
  obtain ⟨⟨text, i⟩, listed, chosen⟩ := List.mem_flatMap.mp scanned
  simp only at chosen
  split at chosen
  · cases chosen
  · rw [List.mem_singleton.mp chosen]
    exact List.mem_zipIdx_iff_getElem?.mp listed

/-- A first line that is not quoted is scanned. -/
theorem mem_scanLines_first {output line : Text} {rest : List Text} {maxChars : ℕ}
    (whole : Text.lines (lastUnits output maxChars) = line :: rest)
    (kept : (quotedLines (line :: rest)).getD 0 false = false)
    (kept' : (quotedLines (cleanText line :: rest.map cleanText)).getD 0 false = false) :
    ⟨cleanText line, startsColored line, 0⟩ ∈ scanLines output maxChars := by
  rw [scanLines, whole]
  refine List.mem_flatMap.mpr ⟨(cleanText line, 0), ?_, ?_⟩
  · rw [List.map_cons, List.zipIdx_cons]
    exact List.mem_cons_self
  · simp only [List.map_cons, kept, kept', Bool.or_self]
    exact List.mem_cons_self

/-- The line with the limit is scanned. -/
theorem exists_scanned_limit : ∃ line ∈ scanLines fencedLimit quotaScanChars,
    line.text = Text.lit "Weekly limit reached" := by
  have clean : cleanText (Text.lit "Weekly limit reached") = Text.lit "Weekly limit reached" := by
    decide +kernel
  have noFence : fence.test (Text.lit "Weekly limit reached") = false := by decide +kernel
  have noDiff : ∀ hasDiffHeader,
      isDiffLine (Text.lit "Weekly limit reached") hasDiffHeader = false := by
    intro hasDiffHeader
    cases hasDiffHeader <;> decide +kernel
  have noCode : isCodeLine (withoutBullet (Text.lit "Weekly limit reached")) = false := by
    decide +kernel
  refine ⟨_, mem_scanLines_first scannedPart_fencedLimit ?_ ?_, clean⟩
  · exact getD_quotedLines_zero _ noFence noDiff noCode
  · rw [clean]
    exact getD_quotedLines_zero _ noFence noDiff noCode

/-- No other line of the scan is recognized. -/
theorem position_of_recognized {candidate : QuotaPattern} (listed : candidate ∈ quotaPatterns)
    {line : ScannedLine} (scanned : line ∈ scanLines fencedLimit quotaScanChars)
    (recognized : recognizes candidate line = true) : line.position = 0 := by
  have unknown : quotaPatterns.all (fun candidate => ! candidate.regex.test [0x20]) = true := by
    decide +kernel
  have unknown' : quotaPatterns.all (fun candidate =>
      ! candidate.regex.test (cleanText (Text.lit "```"))) = true := by
    decide +kernel
  have read := getElem?_of_mem_scanLines scanned
  rw [scannedPart_fencedLimit, limitLines, List.map_cons, List.map_cons, List.map_cons,
    cleanText_blanks] at read
  rw [recognizes] at recognized
  cases position : line.position with
  | zero => rfl
  | succ i =>
    rw [position, List.getElem?_cons_succ] at read
    rcases List.mem_pair.mp (List.mem_of_getElem? read) with same | same
    · have refused := List.all_eq_true.mp unknown candidate listed
      rw [← same, recognized] at refused
      cases refused
    · have refused := List.all_eq_true.mp unknown' candidate listed
      rw [← same, recognized] at refused
      cases refused

/-- **A limit between two fences gives a signal**, when the first fence is cut off. -/
theorem fenced_limit_gives_signal : ∃ detection,
    findQuota quotaPatterns (scanLines fencedLimit quotaScanChars) = some detection ∧
      detectQuota fencedLimit =
        some (buildSignal detection.candidate detection.found detection.line) ∧
      BetweenFences (Text.lines fencedLimit) (lineIndex fencedLimit detection.line) := by
  have known : quotaPatterns.any (fun candidate =>
      candidate.regex.test (Text.lit "Weekly limit reached")) = true := by
    decide +kernel
  obtain ⟨candidate, listed, recognized⟩ := List.any_eq_true.mp known
  obtain ⟨limit, scanned, text⟩ := exists_scanned_limit
  cases detected : detectQuota fencedLimit with
  | none =>
    have refused := detectQuota_eq_none_iff.mp detected candidate listed limit scanned
    rw [recognizes, text, recognized] at refused
    cases refused
  | some signal =>
    obtain ⟨detection, found, built⟩ := detectQuota_eq_some_iff.mp detected
    refine ⟨detection, found, congrArg some built.symm, (0, 3), ?_, ?_⟩
    · rw [fences_fencedLimit]
      exact List.mem_cons_self
    · obtain ⟨before, after, first, rest, listed', scanned', executed, _⟩ :=
        findQuota_eq_some_iff.mp found
      have zero : detection.line.position = 0 := by
        apply @position_of_recognized detection.candidate
        · exact listed' ▸ List.mem_append_right _ List.mem_cons_self
        · exact scanned' ▸ List.mem_append_right _ List.mem_cons_self
        · rw [recognizes, RegExp.test, executed]
          rfl
      rw [lineIndex, lines_fencedLimit, scannedPart_fencedLimit, zero]
      decide

end Koklo.Delivery.Quota
