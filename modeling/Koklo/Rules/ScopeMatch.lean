import Koklo.Foundations.Text

/-!
# Paths and scope patterns

A relative path is normalised segment by segment. A pattern without joker covers
a path and what lies under it; `*` stands for code units of one segment and a
segment `**` for any number of segments. A segment is matched with two cursors,
and the list of segments row by row from the last segment of the pattern.
-/

set_option autoImplicit false

namespace Koklo.Rules

open Koklo.Foundations

/-- `WILDCARD`. -/
def wildcard : CodeUnit := 0x2A

/-- `ANY_DEPTH`. -/
def anyDepth : Text := [wildcard, wildcard]

def slash : CodeUnit := 0x2F

/-- The current directory. -/
def dot : Text := [0x2E]

/-- The parent directory. -/
def dotDot : Text := [0x2E, 0x2E]

/-- The segments of a path. -/
def segmentsOf (path : Text) : List Text :=
  (path.splitOn slash).filter fun segment => segment ≠ [] ∧ segment ≠ dot

/-- A relative path in normal form; none when the path is absolute, goes up, or holds a
backslash or a NUL. -/
def normalizePath (path : Text) : Option Text :=
  if 0x5C ∈ path ∨ 0x00 ∈ path ∨ path.head? = some slash then none
  else if dotDot ∈ segmentsOf path then none
  else if (segmentsOf path).length = 0 then some dot
  else some ([slash].intercalate (segmentsOf path))

/-- A valid pattern: relative, without `..`, not empty. -/
def isValidPattern (pattern : Text) : Bool := pattern ≠ [] && (normalizePath pattern).isSome

/-! ## One segment -/

/-- The cursors of a match: in the pattern, in the text, at the last joker and where the
text resumes after it. -/
structure SegmentCursors where
  p : ℕ
  t : ℕ
  star : Option ℕ
  resume : ℕ
  behind : resume ≤ t

/-- The loop of `matchSegment`. -/
def matchSegmentFrom (pattern text : Text) (at_ : SegmentCursors) : Bool :=
  if _inside : at_.t < text.length then
    if _joker : at_.p < pattern.length ∧ pattern[at_.p]? = some wildcard then
      matchSegmentFrom pattern text ⟨at_.p + 1, at_.t, some at_.p, at_.t, le_rfl⟩
    else if _same : at_.p < pattern.length ∧ pattern[at_.p]? = text[at_.t]? then
      matchSegmentFrom pattern text
        ⟨at_.p + 1, at_.t + 1, at_.star, at_.resume, Nat.le_succ_of_le at_.behind⟩
    else
      match at_.star with
      | some star =>
        matchSegmentFrom pattern text ⟨star + 1, at_.resume + 1, some star, at_.resume + 1, le_rfl⟩
      | none => false
  else (pattern.drop at_.p).all (· = wildcard)
termination_by (text.length - at_.resume, pattern.length - at_.p)
decreasing_by
  · have measured : text.length - at_.t < text.length - at_.resume ∨
        text.length - at_.t = text.length - at_.resume ∧
          pattern.length - (at_.p + 1) < pattern.length - at_.p := by
      rcases at_.behind.lt_or_eq with later | level
      · exact .inl (by omega)
      · exact .inr ⟨by rw [level], by omega⟩
    exact Prod.lex_def.mpr measured
  · exact Prod.lex_def.mpr (.inr ⟨rfl, by omega⟩)
  · have behind := at_.behind
    exact Prod.lex_def.mpr (.inl (by omega))

/-- Whether `*` in the pattern can stand for code units of the text. -/
def matchSegment (pattern text : Text) : Bool :=
  matchSegmentFrom pattern text ⟨0, 0, none, 0, le_rfl⟩

/-! ## Lists of segments -/

/-- The row of one segment of the pattern over the suffixes of the path, from the row of
the segments after it. -/
def matchRow (segment : Text) : List Text → List Bool → List Bool
  | [], next => [segment = anyDepth && next.headD false]
  | name :: path, next =>
    let current := matchRow segment path next.tail
    (if segment = anyDepth then next.headD false || current.headD false
      else next.tail.headD false && matchSegment segment name) :: current

/-- Segment by segment; `**` absorbs any number of segments. -/
def matchSegments (pattern path : List Text) : Bool :=
  (pattern.foldr (fun segment next => matchRow segment path next)
    (List.replicate path.length false ++ [true])).headD false

/-- Whether a pattern covers a path. -/
def matchesPath (pattern path : Text) : Bool :=
  match (if pattern = [] then none else normalizePath pattern), normalizePath path with
  | some pattern', some path' =>
    if wildcard ∈ pattern then matchSegments (segmentsOf pattern') (segmentsOf path')
    else segmentsOf pattern' <+: segmentsOf path'
  | _, _ => false

/-- A pattern matches the path. -/
def matchesAny (patterns : List Text) (path : Text) : Bool :=
  patterns.any fun pattern => matchesPath pattern path

end Koklo.Rules
