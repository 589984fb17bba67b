import Koklo.Foundations.Regex
import Koklo.Schema.Feature

/-!
# The paths of features

A feature `F-nnn` is kept in a file `features/F-nnn-slug.md`, whose slug is made of the title when
the file is created, or in `features/F-nnn.md`. The identifier is read back from the path
(`featureIdOfPath_eq_some`); it is the one that the path was made of
(`featureIdOfPath_featurePathOf`).
-/

set_option autoImplicit false

namespace Koklo.SpecPlan

open Foundations Schema

/-! ## Slugs -/

def maxSlugLength : ℕ := 40

/-- `[a-z0-9]`. -/
def isSlugUnit (u : CodeUnit) : Bool := Text.isLower u || Text.isDigit u

/-- `replace(/[^a-z0-9]+/g, "-")`, in a run of other units or not. -/
def dashesFrom : Bool → Text → Text
  | _, [] => []
  | inRun, u :: text =>
    if isSlugUnit u then u :: dashesFrom false text
    else if inRun then dashesFrom true text
    else 0x2D :: dashesFrom true text

/-- The slug of a title. `plain` stands for `normalize("NFD")` without its marks, in lower case. -/
def slugOf (plain : Text → Text) (title : Text) : Text :=
  let slug := (((dashesFrom false (plain title)).dropWhile (· == 0x2D)).take maxSlugLength).rdropWhile
    (· == 0x2D)
  if slug = [] then Text.lit "feature" else slug

/-- The path of a new feature: its identifier, and a slug of its title. -/
def featurePathOf (plain : Text → Text) (specId title : Text) : Text :=
  Text.lit "features/" ++ specId ++ Text.lit "-" ++ slugOf plain title ++ Text.lit ".md"

/-! ## Identifiers -/

/-- `FEATURE_FILE`: `/^features\/(F-\d{3,})(?:-[^/]*)?\.md$/`, with its optional group or
without. -/
def featureFile (group : Regex CodeUnit) : Regex CodeUnit :=
  .seq (.text (Text.lit "features/"))
    (.seq (.capture (.seq (.text (Text.lit "F-")) (.greedy 3 Text.isDigit)))
      (.seq group (.text (Text.lit ".md"))))

/-- `-[^/]*`. -/
def slugGroup : Regex CodeUnit := .seq (.text (Text.lit "-")) (.greedy 0 fun u => u != 0x2F)

/-- The identifier that a path bears. -/
def featureIdOfPath (path : Text) : Option Text :=
  (((featureFile slugGroup).exec path).or ((featureFile (.text [])).exec path)).bind List.head?

/-- What follows the identifier in the path of a feature. -/
def PathEnd (t : Text) : Prop :=
  t = Text.lit ".md" ∨ ∃ slug, 0x2F ∉ slug ∧ t = 0x2D :: (slug ++ Text.lit ".md")

theorem PathEnd.head_not_digit {t : Text} (ends : PathEnd t) :
    ∃ u rest, t = u :: rest ∧ Text.isDigit u = false := by
  rcases ends with rfl | ⟨slug, -, rfl⟩
  · exact ⟨0x2E, Text.lit "md", rfl, by decide⟩
  · exact ⟨0x2D, _, rfl, by decide⟩

/-- The digits of a path are those before what follows the identifier. -/
theorem takeWhile_digits {d t : Text} (digits : ∀ u ∈ d, Text.isDigit u = true)
    (ends : PathEnd t) : (d ++ t).takeWhile Text.isDigit = d := by
  obtain ⟨u, rest, rfl, other⟩ := ends.head_not_digit
  have stops : ¬ Text.isDigit u = true := by rw [other]; exact Bool.false_ne_true
  rw [List.takeWhile_append_of_pos digits, List.takeWhile_cons_of_neg stops, List.append_nil]

theorem mem_outcomes_slugGroup {s : Text} {o : Regex.Outcome CodeUnit} :
    o ∈ Regex.outcomes slugGroup s ↔
      o.1 = [] ∧ ∃ slug, s = 0x2D :: (slug ++ o.2) ∧ 0x2F ∉ slug := by
  rw [slugGroup, Regex.mem_outcomes_seq]
  constructor
  · rintro ⟨⟨first, rest⟩, starts, ⟨second, last⟩, runs, rfl⟩
    obtain ⟨rfl, rfl⟩ := Regex.mem_outcomes_text.mp starts
    obtain ⟨rfl, slug, rfl, -, all⟩ := Regex.mem_outcomes_greedy.mp runs
    exact ⟨rfl, slug, rfl, fun slash => bne_iff_ne.mp (all _ slash) rfl⟩
  · obtain ⟨captures, last⟩ := o
    rintro ⟨rfl, slug, rfl, free⟩
    refine ⟨([], slug ++ last), Regex.mem_outcomes_text.mpr ⟨rfl, rfl⟩, ([], last),
      Regex.mem_outcomes_greedy.mpr ⟨rfl, slug, rfl, Nat.zero_le _, fun u member => ?_⟩, rfl⟩
    rw [bne_iff_ne]
    rintro rfl
    exact free member

/-- `(F-\d{3,})` captures the letter and the digits. -/
theorem mem_outcomes_identifier {s : Text} {o : Regex.Outcome CodeUnit} :
    o ∈ Regex.outcomes (.capture (.seq (.text (Text.lit "F-")) (.greedy 3 Text.isDigit))) s ↔
      ∃ d, o.1 = [Text.lit "F-" ++ d] ∧ s = Text.lit "F-" ++ (d ++ o.2) ∧ 3 ≤ d.length ∧
        ∀ u ∈ d, Text.isDigit u = true := by
  have captured (d t : Text) : (Text.lit "F-" ++ (d ++ t)).take
      ((Text.lit "F-" ++ (d ++ t)).length - t.length) = Text.lit "F-" ++ d := by
    rw [← List.append_assoc, List.length_append, Nat.add_sub_cancel, List.take_left]
  rw [Regex.mem_outcomes_capture]
  constructor
  · rintro ⟨⟨inner, after⟩, taken, rfl⟩
    obtain ⟨⟨first, rest⟩, letter, ⟨second, left⟩, runs, same⟩ := Regex.mem_outcomes_seq.mp taken
    obtain ⟨rfl, rfl⟩ := Regex.mem_outcomes_text.mp letter
    obtain ⟨none, d, split, enough, all⟩ := Regex.mem_outcomes_greedy.mp runs
    dsimp only at none split same ⊢
    subst none split
    cases same
    refine ⟨d, ?_, rfl, enough, all⟩
    rw [captured]
    rfl
  · obtain ⟨captures, t⟩ := o
    rintro ⟨d, rfl, rfl, enough, all⟩
    refine ⟨([], t), Regex.mem_outcomes_seq.mpr ⟨([], d ++ t),
      Regex.mem_outcomes_text.mpr ⟨rfl, rfl⟩, ([], t),
      Regex.mem_outcomes_greedy.mpr ⟨rfl, d, rfl, enough, all⟩, rfl⟩, ?_⟩
    dsimp only
    rw [captured]

/-- What a match of a whole path captures. -/
theorem mem_outcomes_featureFile {group : Regex CodeUnit} {path : Text} {captures : List Text}
    (silent : ∀ (s : Text), ∀ o ∈ Regex.outcomes group s, o.1 = []) :
    (captures, []) ∈ Regex.outcomes (featureFile group) path ↔
      ∃ d t : Text, captures = [Text.lit "F-" ++ d] ∧ path = Text.lit "features/F-" ++ (d ++ t) ∧
        3 ≤ d.length ∧ (∀ u ∈ d, Text.isDigit u = true) ∧
        ([], Text.lit ".md") ∈ Regex.outcomes group t := by
  rw [featureFile, Regex.mem_outcomes_seq]
  constructor
  · rintro ⟨⟨first, rest⟩, starts, ⟨second, last⟩, inside, same⟩
    obtain ⟨rfl, rfl⟩ := Regex.mem_outcomes_text.mp starts
    obtain ⟨⟨third, t⟩, named, ⟨fourth, done⟩, finish, same'⟩ := Regex.mem_outcomes_seq.mp inside
    obtain ⟨d, captured, split, enough, all⟩ := mem_outcomes_identifier.mp named
    obtain ⟨⟨fifth, more⟩, grouped, ⟨sixth, none⟩, stops, same''⟩ := Regex.mem_outcomes_seq.mp finish
    have quiet := silent _ _ grouped
    obtain ⟨rfl, ends⟩ := Regex.mem_outcomes_text.mp stops
    dsimp only at captured split grouped quiet ends same same' same''
    subst captured split quiet ends
    cases same''
    cases same'
    cases same
    exact ⟨d, t, rfl, rfl, enough, all, grouped⟩
  · rintro ⟨d, t, rfl, rfl, enough, all, grouped⟩
    refine ⟨([], Text.lit "F-" ++ (d ++ t)), Regex.mem_outcomes_text.mpr ⟨rfl, rfl⟩,
      ([Text.lit "F-" ++ d], []), Regex.mem_outcomes_seq.mpr ⟨([Text.lit "F-" ++ d], t),
        mem_outcomes_identifier.mpr ⟨d, rfl, rfl, enough, all⟩, ([], []),
        Regex.mem_outcomes_seq.mpr ⟨([], Text.lit ".md"), grouped, ([], []),
          Regex.mem_outcomes_text.mpr ⟨rfl, rfl⟩, rfl⟩, rfl⟩, rfl⟩

/-- A match whose captures are determined. -/
theorem exec_eq_some {r : Regex CodeUnit} {s : Text} {captures : List Text}
    (matched : (captures, []) ∈ Regex.outcomes r s)
    (only : ∀ other, (other, []) ∈ Regex.outcomes r s → other = captures) :
    r.exec s = some captures := by
  cases found : r.exec s with
  | some other => rw [only other (Regex.mem_outcomes_of_exec found)]
  | none =>
    have refused := Regex.preferred_eq_none.mp found _ matched
    rw [if_pos rfl] at refused
    cases refused

/-- The path of a feature, by the digits of its identifier. -/
structure FeaturePath (path d : Text) : Prop where
  enough : 3 ≤ d.length
  digits : ∀ u ∈ d, Text.isDigit u = true
  shape : ∃ t, PathEnd t ∧ path = Text.lit "features/F-" ++ (d ++ t)

theorem FeaturePath.unique {path d d' : Text} (first : FeaturePath path d)
    (second : FeaturePath path d') : d = d' := by
  obtain ⟨t, ends, rfl⟩ := first.shape
  obtain ⟨t', ends', same⟩ := second.shape
  rw [← takeWhile_digits first.digits ends, List.append_cancel_left same,
    takeWhile_digits second.digits ends']

theorem featurePath_iff_slug {path : Text} {captures : List Text} :
    (captures, []) ∈ Regex.outcomes (featureFile slugGroup) path ↔
      ∃ d t : Text, captures = [Text.lit "F-" ++ d] ∧ path = Text.lit "features/F-" ++ (d ++ t) ∧
        3 ≤ d.length ∧ (∀ u ∈ d, Text.isDigit u = true) ∧
        ∃ slug, t = 0x2D :: (slug ++ Text.lit ".md") ∧ 0x2F ∉ slug := by
  rw [mem_outcomes_featureFile fun s o member => (mem_outcomes_slugGroup.mp member).1]
  simp only [mem_outcomes_slugGroup, true_and]

theorem featurePath_iff_bare {path : Text} {captures : List Text} :
    (captures, []) ∈ Regex.outcomes (featureFile (.text [])) path ↔
      ∃ d t : Text, captures = [Text.lit "F-" ++ d] ∧ path = Text.lit "features/F-" ++ (d ++ t) ∧
        3 ≤ d.length ∧ (∀ u ∈ d, Text.isDigit u = true) ∧ t = Text.lit ".md" := by
  rw [mem_outcomes_featureFile fun s o member => (Regex.mem_outcomes_text.mp member).1]
  simp only [Regex.mem_outcomes_text, List.nil_append, true_and]

/-- **The identifier that a path bears.** -/
theorem featureIdOfPath_eq_some {path id : Text} : featureIdOfPath path = some id ↔
    ∃ d, id = Text.lit "F-" ++ d ∧ FeaturePath path d := by
  have sound {group : Regex CodeUnit} {captures : List Text}
      (which : group = slugGroup ∨ group = .text [])
      (member : (captures, []) ∈ Regex.outcomes (featureFile group) path) :
      ∃ d, captures = [Text.lit "F-" ++ d] ∧ FeaturePath path d := by
    rcases which with rfl | rfl
    · obtain ⟨d, t, same, shape, enough, digits, slug, ends, free⟩ := featurePath_iff_slug.mp member
      exact ⟨d, same, enough, digits, t, .inr ⟨slug, free, ends⟩, shape⟩
    · obtain ⟨d, t, same, shape, enough, digits, ends⟩ := featurePath_iff_bare.mp member
      exact ⟨d, same, enough, digits, t, .inl ends, shape⟩
  constructor
  · intro read
    obtain ⟨captures, found, first⟩ := Option.bind_eq_some_iff.mp read
    rcases Option.or_eq_some_iff.mp found with slugged | ⟨-, bare⟩
    · obtain ⟨d, rfl, borne⟩ := sound (.inl rfl) (Regex.mem_outcomes_of_exec slugged)
      cases first
      exact ⟨d, rfl, borne⟩
    · obtain ⟨d, rfl, borne⟩ := sound (.inr rfl) (Regex.mem_outcomes_of_exec bare)
      cases first
      exact ⟨d, rfl, borne⟩
  · rintro ⟨d, rfl, borne⟩
    have only {group : Regex CodeUnit} (which : group = slugGroup ∨ group = .text [])
        (other : List Text) (member : (other, []) ∈ Regex.outcomes (featureFile group) path) :
        other = [Text.lit "F-" ++ d] := by
      obtain ⟨d', rfl, borne'⟩ := sound which member
      rw [borne.unique borne']
    have captured : ((featureFile slugGroup).exec path).or ((featureFile (.text [])).exec path) =
        some [Text.lit "F-" ++ d] := by
      obtain ⟨t, rfl | ⟨slug, free, rfl⟩, shape⟩ := borne.shape
      · have bare : (featureFile (.text [])).exec path = some [Text.lit "F-" ++ d] :=
          exec_eq_some (featurePath_iff_bare.mpr ⟨d, _, rfl, shape, borne.enough, borne.digits, rfl⟩)
            (only (.inr rfl))
        cases found : (featureFile slugGroup).exec path with
        | none => rw [bare, Option.none_or]
        | some other =>
          rw [only (.inl rfl) other (Regex.mem_outcomes_of_exec found)]
          rfl
      · have slugged : (featureFile slugGroup).exec path = some [Text.lit "F-" ++ d] :=
          exec_eq_some (featurePath_iff_slug.mpr
            ⟨d, _, rfl, shape, borne.enough, borne.digits, slug, rfl, free⟩) (only (.inl rfl))
        rw [slugged]
        rfl
    rw [featureIdOfPath, captured]
    rfl

theorem matches_feature {id : Text} : Patterns.feature.Matches id ↔
    ∃ d, id = Text.lit "F-" ++ d ∧ 3 ≤ d.length ∧ ∀ u ∈ d, Text.isDigit u = true := by
  rw [Patterns.feature, Pattern.matches_text_seq]
  simp only [digits, Pattern.matches_atLeast_unit]

/-! ## The path that is made of an identifier -/

theorem slash_not_mem_dashesFrom {inRun : Bool} {text : Text} : 0x2F ∉ dashesFrom inRun text := by
  induction text generalizing inRun with
  | nil => exact List.not_mem_nil
  | cons u text ih =>
    rw [dashesFrom]
    split
    · rename_i kept
      refine List.not_mem_cons_of_ne_of_not_mem ?_ ih
      rintro rfl
      revert kept
      decide
    · split
      · exact ih
      · exact List.not_mem_cons_of_ne_of_not_mem (by decide) ih

theorem slash_not_mem_slugOf {plain : Text → Text} {title : Text} : 0x2F ∉ slugOf plain title := by
  rw [slugOf]
  split
  · decide
  · intro member
    have taken := List.mem_of_mem_take ((List.rdropWhile_prefix _ _).subset member)
    exact slash_not_mem_dashesFrom ((List.dropWhile_suffix _).subset taken)

/-- **A path bears the identifier that it is made of.** -/
theorem featureIdOfPath_featurePathOf {plain : Text → Text} {specId title : Text}
    (matched : Patterns.feature.Matches specId) :
    featureIdOfPath (featurePathOf plain specId title) = some specId := by
  obtain ⟨d, rfl, enough, digits⟩ := matches_feature.mp matched
  refine featureIdOfPath_eq_some.mpr ⟨d, rfl, enough, digits, _,
    .inr ⟨slugOf plain title, slash_not_mem_slugOf, rfl⟩, ?_⟩
  rw [featurePathOf]
  simp only [List.append_assoc]
  rfl

end Koklo.SpecPlan
