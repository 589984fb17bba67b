import Koklo.Foundations.Splitting
import Koklo.Foundations.Wildcards
import Koklo.Rules.ScopeMatch

/-!
# What scope patterns mean

A pattern covers a path when both are valid and their segments match: `*` stands for any run of
code units of one segment, `**` for any run of segments, and a pattern without joker for the
paths that start with its segments (`Covers`).

The loop over one segment keeps only its last joker. What it still has to decide (`Open`) is
the same after each of its steps (`open_step`), and each step lowers a measure, so that the
loop ends (`length_le_of_steps`) with the answer of the relation (`matchSegment_iff`). The
rows of the table of segments are those of the relation (`isRow_matchRow`), and the two agree on
every pattern and path (`matchesPath_iff_covers`).
-/

set_option autoImplicit false

namespace Koklo.Rules

open Koklo.Foundations

/-! ## The relation -/

/-- `*` stands for any run of code units, and any other code unit for itself. -/
def SegmentMatches : Text → Text → Prop := Wildcards.Matches wildcard Eq

/-- `**` stands for any run of segments, and any other segment for one that it matches. -/
def SegmentsMatch : List Text → List Text → Prop := Wildcards.Matches anyDepth SegmentMatches

/-- A relative path that does not go up, without backslash nor NUL. -/
structure ValidPath (path : Text) : Prop where
  backslash : 0x5C ∉ path
  nul : 0x00 ∉ path
  relative : path.head? ≠ some slash
  inside : dotDot ∉ segmentsOf path

/-- What the segments of a pattern stand for: their matches, or without joker what they start. -/
def SegmentsCover (pattern path : Text) : Prop :=
  (wildcard ∈ pattern ∧ SegmentsMatch (segmentsOf pattern) (segmentsOf path)) ∨
    (wildcard ∉ pattern ∧ segmentsOf pattern <+: segmentsOf path)

/-- **What a pattern covers.** -/
structure Covers (pattern path : Text) : Prop where
  some : pattern ≠ []
  validPattern : ValidPath pattern
  validPath : ValidPath path
  segments : SegmentsCover pattern path

/-! ## One segment -/

section Segment

variable {pattern text : Text}

/-- A step of the loop of `matchSegment`. -/
inductive SegmentStep (pattern text : Text) : SegmentCursors → SegmentCursors → Prop
  | joker (at_ : SegmentCursors) (inside : at_.t < text.length)
    (met : pattern[at_.p]? = some wildcard) :
    SegmentStep pattern text at_ ⟨at_.p + 1, at_.t, some at_.p, at_.t, le_rfl⟩
  | same (at_ : SegmentCursors) (inside : at_.t < text.length)
    (literal : pattern[at_.p]? ≠ some wildcard) (equal : pattern[at_.p]? = text[at_.t]?) :
    SegmentStep pattern text at_
      ⟨at_.p + 1, at_.t + 1, at_.star, at_.resume, Nat.le_succ_of_le at_.behind⟩
  | back (at_ : SegmentCursors) (star : ℕ) (inside : at_.t < text.length)
    (literal : pattern[at_.p]? ≠ some wildcard) (other : pattern[at_.p]? ≠ text[at_.t]?)
    (known : at_.star = some star) :
    SegmentStep pattern text at_ ⟨star + 1, at_.resume + 1, some star, at_.resume + 1, le_rfl⟩

/-- Between the last joker and the cursor of the pattern, the pattern holds the code units of
the text from where it resumes. -/
structure Aligned (pattern text : Text) (at_ : SegmentCursors) : Prop where
  inPattern : at_.p ≤ pattern.length
  inText : at_.t ≤ text.length
  run : ∀ star, at_.star = some star → ∃ run, wildcard ∉ run ∧
    pattern.drop star = wildcard :: (run ++ pattern.drop at_.p) ∧
    text.drop at_.resume = run ++ text.drop at_.t

/-- What is still to be decided: whether the pattern from the last joker on matches the text
from where it resumes, or from the cursors on when no joker was met. -/
def Open (pattern text : Text) (at_ : SegmentCursors) : Prop :=
  match at_.star with
  | none => SegmentMatches (pattern.drop at_.p) (text.drop at_.t)
  | some star => SegmentMatches (pattern.drop star) (text.drop at_.resume)

theorem drop_of_getElem? {list : Text} {i : ℕ} {u : CodeUnit} (here : list[i]? = some u) :
    list.drop i = u :: list.drop (i + 1) := by
  obtain ⟨inside, rfl⟩ := List.getElem?_eq_some_iff.mp here
  exact List.drop_eq_getElem_cons inside

/-- A text that goes on has a code unit at its cursor. -/
theorem exists_getElem?_of_lt {list : Text} {i : ℕ} (inside : i < list.length) :
    ∃ u, list[i]? = some u := ⟨_, List.getElem?_eq_getElem inside⟩

/-- Nothing matches when the cursor of the pattern is not on a joker nor on the code unit of
the text. -/
theorem not_matches_of_mismatch {p t : ℕ} {u : CodeUnit} (here : text[t]? = some u)
    (literal : pattern[p]? ≠ some wildcard) (other : pattern[p]? ≠ text[t]?) :
    ¬ SegmentMatches (pattern.drop p) (u :: text.drop (t + 1)) := by
  intro matched
  cases read : pattern[p]? with
  | none =>
    rw [List.drop_of_length_le (List.getElem?_eq_none_iff.mp read)] at matched
    cases Wildcards.matches_nil_iff.mp matched
  | some v =>
    rw [drop_of_getElem? read] at matched
    have apart : v ≠ wildcard := fun same => literal (read.trans (congrArg some same))
    obtain ⟨b, rest, same, equal, _⟩ := (Wildcards.matches_item_iff apart).mp matched
    rw [(List.cons.inj same).1, ← equal] at here
    exact other (read.trans here.symm)

/-- A step keeps the cursors aligned. -/
theorem Aligned.step {at_ next : SegmentCursors} (aligned : Aligned pattern text at_)
    (step : SegmentStep pattern text at_ next) : Aligned pattern text next := by
  cases step with
  | joker inside met =>
    obtain ⟨bound, _⟩ := List.getElem?_eq_some_iff.mp met
    refine ⟨bound, aligned.inText, fun star known => ?_⟩
    cases known
    exact ⟨[], List.not_mem_nil, drop_of_getElem? met, rfl⟩
  | same inside literal equal =>
    obtain ⟨u, here⟩ := exists_getElem?_of_lt inside
    have read := equal.trans here
    obtain ⟨bound, _⟩ := List.getElem?_eq_some_iff.mp read
    refine ⟨bound, inside, fun star known => ?_⟩
    obtain ⟨run, apart, before, after⟩ := aligned.run star known
    have other : wildcard ≠ u := fun same => literal (same ▸ read)
    refine ⟨run ++ [u], ?_, ?_, ?_⟩
    · rw [List.mem_append, List.mem_singleton, not_or]
      exact ⟨apart, other⟩
    · rw [before, drop_of_getElem? read, List.append_assoc, List.singleton_append]
    · rw [after, drop_of_getElem? here, List.append_assoc, List.singleton_append]
  | back star inside literal other known =>
    obtain ⟨run, _, before, _⟩ := aligned.run star known
    have behind := at_.behind
    have bound : star < pattern.length := by
      by_contra past
      rw [List.drop_of_length_le (Nat.not_lt.mp past)] at before
      cases before
    have met : pattern[star]? = some wildcard := by
      rw [← List.head?_drop, before, List.head?_cons]
    refine ⟨bound, by show at_.resume + 1 ≤ text.length; omega, fun star' known' => ?_⟩
    cases known'
    exact ⟨[], List.not_mem_nil, drop_of_getElem? met, rfl⟩

/-- **A step leaves what is to be decided as it is.** -/
theorem open_step {at_ next : SegmentCursors} (aligned : Aligned pattern text at_)
    (step : SegmentStep pattern text at_ next) :
    Open pattern text next ↔ Open pattern text at_ := by
  cases step with
  | joker inside met =>
    -- The new joker decides alone.
    show SegmentMatches (pattern.drop at_.p) (text.drop at_.t) ↔ _
    cases star : at_.star with
    | none => simp only [Open, star]
    | some star' =>
      obtain ⟨run, apart, before, after⟩ := aligned.run star' star
      simp only [Open, star]
      rw [before, after, drop_of_getElem? met]
      exact (Wildcards.matches_joker_run_joker apart).symm
  | same inside literal equal =>
    cases star : at_.star with
    | none =>
      obtain ⟨u, here⟩ := exists_getElem?_of_lt inside
      have read := equal.trans here
      have other : u ≠ wildcard := fun same => literal (same ▸ read)
      simp only [Open, star]
      rw [drop_of_getElem? read, drop_of_getElem? here]
      have single : wildcard ∉ [u] := fun member => other (List.mem_singleton.mp member).symm
      exact (Wildcards.matches_run_append single).symm
    | some star' => simp only [Open, star]
  | back star inside literal other known =>
    -- The last joker absorbs one more code unit.
    obtain ⟨run, apart, before, after⟩ := aligned.run star known
    obtain ⟨u, here⟩ := exists_getElem?_of_lt inside
    have mismatch := not_matches_of_mismatch here literal other
    simp only [Open, known]
    rw [← List.tail_drop, before, after, drop_of_getElem? here]
    exact (Wildcards.matches_joker_run_of_mismatch apart mismatch).symm

/-- The loop goes on with a step, or ends. -/
theorem matchSegmentFrom_step {at_ next : SegmentCursors} (step : SegmentStep pattern text at_ next) :
    matchSegmentFrom pattern text at_ = matchSegmentFrom pattern text next := by
  rw [matchSegmentFrom]
  cases step with
  | joker inside met =>
    have bound := (List.getElem?_eq_some_iff.mp met).1
    rw [dif_pos inside, dif_pos ⟨bound, met⟩]
  | same inside literal equal =>
    obtain ⟨u, here⟩ := exists_getElem?_of_lt inside
    have bound := (List.getElem?_eq_some_iff.mp (equal.trans here)).1
    rw [dif_pos inside, dif_neg fun joker => literal joker.2, dif_pos ⟨bound, equal⟩]
  | back star inside literal other known =>
    rw [dif_pos inside, dif_neg fun joker => literal joker.2, dif_neg fun same => other same.2]
    simp only [known]

/-- **The loop answers what was to be decided.** -/
theorem matchSegmentFrom_iff (at_ : SegmentCursors) (aligned : Aligned pattern text at_) :
    matchSegmentFrom pattern text at_ = true ↔ Open pattern text at_ := by
  induction at_ using matchSegmentFrom.induct pattern text with
  | case1 at_ inside joker ih =>
    have step := SegmentStep.joker at_ inside joker.2
    rw [matchSegmentFrom_step step, ih (aligned.step step), open_step aligned step]
  | case2 at_ inside joker same ih =>
    have literal : pattern[at_.p]? ≠ some wildcard := fun met => joker ⟨same.1, met⟩
    have step := SegmentStep.same at_ inside literal same.2
    rw [matchSegmentFrom_step step, ih (aligned.step step), open_step aligned step]
  | case3 at_ inside joker same star known ih =>
    have literal : pattern[at_.p]? ≠ some wildcard := fun met =>
      joker ⟨(List.getElem?_eq_some_iff.mp met).1, met⟩
    have other : pattern[at_.p]? ≠ text[at_.t]? := by
      intro equal
      obtain ⟨u, here⟩ := exists_getElem?_of_lt inside
      exact same ⟨(List.getElem?_eq_some_iff.mp (equal.trans here)).1, equal⟩
    have step := SegmentStep.back at_ star inside literal other known
    rw [matchSegmentFrom_step step, ih (aligned.step step), open_step aligned step]
  | case4 at_ inside joker same known =>
    have literal : pattern[at_.p]? ≠ some wildcard := fun met =>
      joker ⟨(List.getElem?_eq_some_iff.mp met).1, met⟩
    obtain ⟨u, here⟩ := exists_getElem?_of_lt inside
    have other : pattern[at_.p]? ≠ text[at_.t]? := fun equal =>
      same ⟨(List.getElem?_eq_some_iff.mp (equal.trans here)).1, equal⟩
    rw [matchSegmentFrom, dif_pos inside, dif_neg joker, dif_neg same]
    simp only [known, Open]
    rw [drop_of_getElem? here]
    exact iff_of_false Bool.false_ne_true (not_matches_of_mismatch here literal other)
  | case5 at_ outside =>
    have ended : text.drop at_.t = [] := List.drop_of_length_le (Nat.not_lt.mp outside)
    have jokers : (pattern.drop at_.p).all (· = wildcard) = true ↔
        ∀ u ∈ pattern.drop at_.p, u = wildcard := by
      simp only [List.all_eq_true, decide_eq_true_eq]
    rw [matchSegmentFrom, dif_neg outside, jokers]
    cases star : at_.star with
    | none =>
      simp only [Open, star]
      rw [ended]
      exact Wildcards.matches_empty_iff.symm
    | some star' =>
      obtain ⟨run, apart, before, after⟩ := aligned.run star' star
      simp only [Open, star]
      rw [before, after, ended, List.append_nil]
      exact (Wildcards.matches_joker_run_end apart).symm

/-- At the start the text resumes where its cursor stands. -/
theorem start_behind : (0 : ℕ) ≤ 0 := le_rfl

/-- The loop starts with both cursors at the start. -/
def SegmentCursors.start : SegmentCursors := ⟨0, 0, none, 0, start_behind⟩

/-- **A segment is matched as the relation says.** -/
theorem matchSegment_iff : matchSegment pattern text = true ↔ SegmentMatches pattern text :=
  matchSegmentFrom_iff .start ⟨Nat.zero_le _, Nat.zero_le _, fun _ known => by cases known⟩

/-- What a step lowers: what is left of the text after the last joker, then of the pattern. -/
def SegmentCursors.left (pattern text : Text) (at_ : SegmentCursors) : ℕ :=
  (text.length - at_.resume) * (pattern.length + 1) + (pattern.length - at_.p)

/-- **A step of the loop lowers what is left.** -/
theorem left_lt_of_step {at_ next : SegmentCursors} (step : SegmentStep pattern text at_ next) :
    next.left pattern text < at_.left pattern text := by
  have behind := at_.behind
  -- One code unit less of the text is worth more than the whole pattern.
  have later : ∀ {resume p : ℕ}, at_.resume < resume → resume ≤ text.length →
      (text.length - resume) * (pattern.length + 1) + (pattern.length - p) <
        at_.left pattern text := by
    intro resume p further bound
    have fewer : text.length - resume + 1 ≤ text.length - at_.resume := by omega
    have product := Nat.mul_le_mul_right (pattern.length + 1) fewer
    rw [Nat.succ_mul] at product
    rw [SegmentCursors.left]
    omega
  cases step with
  | joker inside met =>
    have bound := (List.getElem?_eq_some_iff.mp met).1
    rcases behind.lt_or_eq with further | level
    · exact later further inside.le
    · simp only [SegmentCursors.left, level]
      omega
  | same inside literal equal =>
    obtain ⟨u, here⟩ := exists_getElem?_of_lt inside
    have bound := (List.getElem?_eq_some_iff.mp (equal.trans here)).1
    simp only [SegmentCursors.left]
    omega
  | back star inside literal other known => 
    have bound : at_.resume + 1 ≤ text.length := by omega
    exact later (Nat.lt_succ_self _) bound

/-- A run of the loop has at most as many steps as are left at its start. -/
theorem length_le_of_steps {at_ : SegmentCursors} {steps : List SegmentCursors}
    (taken : List.IsChain (SegmentStep pattern text) (at_ :: steps)) :
    steps.length ≤ at_.left pattern text := by
  induction steps generalizing at_ with
  | nil => exact Nat.zero_le _
  | cons next steps ih =>
    obtain ⟨step, rest⟩ := List.isChain_cons_cons.mp taken
    have fewer := ih rest
    have lower := left_lt_of_step step
    rw [List.length_cons]
    omega

/-- **The loop ends**: it never has more steps than there are cursors. -/
theorem steps_le {steps : List SegmentCursors}
    (taken : List.IsChain (SegmentStep pattern text) (.start :: steps)) :
    steps.length < (text.length + 1) * (pattern.length + 1) := by
  have bound := length_le_of_steps taken
  have start : SegmentCursors.start.left pattern text =
      text.length * (pattern.length + 1) + pattern.length := rfl
  rw [Nat.succ_mul]
  omega

end Segment

/-! ## Lists of segments -/

section Segments

variable {segment : Text} {pattern path : List Text} {next : List Bool}

/-- The row of a pattern: whether it matches each end of the path. -/
def IsRow (pattern : List Text) : List Text → List Bool → Prop
  | [], row => ∃ whole, row = [whole] ∧ (whole = true ↔ SegmentsMatch pattern [])
  | name :: path, row => ∃ whole rest, row = whole :: rest ∧
    (whole = true ↔ SegmentsMatch pattern (name :: path)) ∧ IsRow pattern path rest

/-- The head of a row answers for the whole path. -/
theorem IsRow.head (row : IsRow pattern path next) :
    next.headD false = true ↔ SegmentsMatch pattern path := by
  cases path with
  | nil =>
    obtain ⟨whole, rfl, iff⟩ := row
    exact iff
  | cons name path =>
    obtain ⟨whole, rest, rfl, iff, _⟩ := row
    exact iff

theorem isRow_nil (path : List Text) : IsRow [] path (List.replicate path.length false ++ [true]) := by
  induction path with
  | nil => exact ⟨true, rfl, iff_of_true rfl .nil⟩
  | cons name path ih =>
    refine ⟨false, _, rfl, iff_of_false Bool.false_ne_true fun matched => ?_, ih⟩
    cases Wildcards.matches_nil_iff.mp matched

/-- **The row of a segment more.** -/
theorem isRow_matchRow (row : IsRow pattern path next) :
    IsRow (segment :: pattern) path (matchRow segment path next) := by
  induction path generalizing next with
  | nil =>
    refine ⟨_, rfl, ?_⟩
    rw [Bool.and_eq_true, decide_eq_true_eq, row.head]
    by_cases any : segment = anyDepth
    · subst any
      rw [and_iff_right rfl]
      exact Wildcards.matches_joker_nil.symm
    · refine iff_of_false (fun both => any both.1) fun matched => ?_
      obtain ⟨b, rest, empty, _⟩ := (Wildcards.matches_item_iff any).mp matched
      cases empty
  | cons name path ih =>
    have here := row.head
    obtain ⟨whole, rest, rfl, _, later⟩ := row
    have current := ih later
    refine ⟨_, _, rfl, ?_, current⟩
    by_cases any : segment = anyDepth
    · subst any
      rw [if_pos rfl, Bool.or_eq_true, here, List.tail_cons, current.head]
      exact Wildcards.matches_joker_cons.symm
    · rw [if_neg any, Bool.and_eq_true, List.tail_cons, later.head, matchSegment_iff]
      constructor
      · rintro ⟨others, one⟩
        exact (Wildcards.matches_item_iff any).mpr ⟨name, path, rfl, one, others⟩
      · intro matched
        obtain ⟨b, rest', same, one, others⟩ := (Wildcards.matches_item_iff any).mp matched
        cases same
        exact ⟨others, one⟩

/-- **Segments are matched as the relation says.** -/
theorem matchSegments_iff : matchSegments pattern path = true ↔ SegmentsMatch pattern path := by
  have row : IsRow pattern path (pattern.foldr (fun segment next => matchRow segment path next)
      (List.replicate path.length false ++ [true])) := by
    induction pattern with
    | nil => exact isRow_nil path
    | cons segment pattern ih => exact isRow_matchRow ih
  exact row.head

end Segments

/-! ## Paths -/

/-- A segment holds no slash, and is neither empty nor the current directory. -/
theorem mem_segmentsOf {path segment : Text} (member : segment ∈ segmentsOf path) :
    slash ∉ segment ∧ segment ≠ [] ∧ segment ≠ dot := by
  obtain ⟨piece, kept⟩ := List.mem_filter.mp member
  exact ⟨not_mem_of_mem_splitOn piece, of_decide_eq_true kept⟩

/-- **The normal form of a path has its segments.** -/
theorem segmentsOf_normalizePath {path normal : Text} (normalized : normalizePath path = some normal) :
    segmentsOf normal = segmentsOf path := by
  rw [normalizePath] at normalized
  split at normalized
  · cases normalized
  split at normalized
  · cases normalized
  split at normalized
  · rename_i empty
    cases normalized
    rw [List.eq_nil_of_length_eq_zero empty]
    decide
  · rename_i some_
    cases normalized
    have some : segmentsOf path ≠ [] := fun empty => some_ (by rw [empty]; rfl)
    have split := List.splitOn_intercalate slash
      (fun segment member => (mem_segmentsOf member).1) some
    rw [segmentsOf, split, List.filter_eq_self]
    intro segment member
    exact decide_eq_true (mem_segmentsOf member).2

theorem normalizePath_isSome_iff {path : Text} : (normalizePath path).isSome ↔ ValidPath path := by
  rw [normalizePath]
  split
  · rename_i refused
    refine iff_of_false Bool.false_ne_true fun valid => ?_
    rcases refused with backslash | nul | absolute
    · exact valid.backslash backslash
    · exact valid.nul nul
    · exact valid.relative absolute
  · rename_i accepted
    rw [not_or, not_or] at accepted
    split
    · rename_i up
      exact iff_of_false Bool.false_ne_true fun valid => valid.inside up
    · rename_i inside
      have valid : ValidPath path := ⟨accepted.1, accepted.2.1, accepted.2.2, inside⟩
      split
      · exact iff_of_true rfl valid
      · exact iff_of_true rfl valid

theorem normalizePath_eq_none {path : Text} (invalid : ¬ ValidPath path) :
    normalizePath path = none := by
  rw [← Option.not_isSome_iff_eq_none, normalizePath_isSome_iff]
  exact invalid

/-- The answer for a valid pattern and a valid path. -/
theorem matchesPath_of_valid {pattern path : Text} (some : pattern ≠ []) (valid : ValidPath pattern)
    (valid' : ValidPath path) : matchesPath pattern path = true ↔ SegmentsCover pattern path := by
  obtain ⟨pattern', normal⟩ := Option.isSome_iff_exists.mp (normalizePath_isSome_iff.mpr valid)
  obtain ⟨path', normal'⟩ := Option.isSome_iff_exists.mp (normalizePath_isSome_iff.mpr valid')
  have read : matchesPath pattern path =
      if wildcard ∈ pattern then matchSegments (segmentsOf pattern) (segmentsOf path)
      else decide (segmentsOf pattern <+: segmentsOf path) := by
    rw [← segmentsOf_normalizePath normal, ← segmentsOf_normalizePath normal']
    simp only [matchesPath, if_neg some, normal, normal']
  rw [read, SegmentsCover]
  by_cases joker : wildcard ∈ pattern
  · rw [if_pos joker, matchSegments_iff]
    simp only [joker, true_and, not_true_eq_false, false_and, or_false]
  · rw [if_neg joker, decide_eq_true_iff]
    simp only [joker, false_and, not_false_eq_true, true_and, false_or]

/-- **Scope patterns mean what they say**: a pattern matches a path exactly when it covers it,
and the loop over a segment ends on every input. -/
theorem matchesPath_iff_covers (pattern path : Text) :
    (matchesPath pattern path = true ↔ Covers pattern path) ∧
      ∀ segment name steps, List.IsChain (SegmentStep segment name) (.start :: steps) →
        steps.length < (name.length + 1) * (segment.length + 1) := by
  refine ⟨?_, fun segment name steps taken => steps_le taken⟩
  by_cases valid : pattern ≠ [] ∧ ValidPath pattern ∧ ValidPath path
  · obtain ⟨some, valid, valid'⟩ := valid
    rw [matchesPath_of_valid some valid valid']
    exact ⟨fun segments => ⟨some, valid, valid', segments⟩, Covers.segments⟩
  · refine iff_of_false ?_ fun covers => valid ⟨covers.some, covers.validPattern, covers.validPath⟩
    by_cases some : pattern = []
    · simp only [matchesPath, if_pos some, Bool.false_eq_true, not_false_eq_true]
    · simp only [matchesPath, if_neg some]
      by_cases valid' : ValidPath pattern
      · have invalid : ¬ ValidPath path := fun path => valid ⟨some, valid', path⟩
        rw [normalizePath_eq_none invalid]
        cases normalizePath pattern <;> exact Bool.false_ne_true
      · rw [normalizePath_eq_none valid']
        exact Bool.false_ne_true

end Koklo.Rules
