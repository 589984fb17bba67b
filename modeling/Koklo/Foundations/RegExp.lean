import Koklo.Foundations.Text

/-!
# Searching a text with a regular expression

An expression is tried at a place of a text, where it sees the unit before the place and the
groups that are already captured. It may match there in several ways, which a matcher that
backtracks tries in an order of preference (`outcomes`): the first alternative before the second,
and as many rounds of a repetition as it can before fewer. A search takes the first place at which
the expression matches, and the preferred way there (`exec`).

An expression that starts with `^` is tried at the start only (`test_start`).
-/

set_option autoImplicit false

namespace Koklo.Foundations

namespace Text

def isUpper (u : CodeUnit) : Bool := 0x41 ≤ u && u ≤ 0x5A

/-- `[A-Za-z]`. -/
def isLetter (u : CodeUnit) : Bool := isUpper u || isLower u

/-- `[A-Za-z0-9]`. -/
def isAlphanumeric (u : CodeUnit) : Bool := isUpper u || isLower u || isDigit u

/-- `\w`. -/
def isWord (u : CodeUnit) : Bool := isAlphanumeric u || u = 0x5F

/-- The unit without its case, for the letters of ASCII. -/
def foldCase (u : CodeUnit) : CodeUnit := if isUpper u then u + 0x20 else u

end Text

/-- A regular expression that is searched in a text, with groups of given names. -/
inductive RegExp (γ : Type) where
  | empty
  | unit (test : CodeUnit → Bool)
  /-- `^`. -/
  | start
  /-- `^` of an expression with several lines. -/
  | lineStart
  /-- `$`. -/
  | finish
  /-- `\b`. -/
  | boundary
  | seq (p q : RegExp γ)
  | alt (p q : RegExp γ)
  /-- `*`. -/
  | many (p : RegExp γ)
  | group (name : γ) (p : RegExp γ)
  /-- What a group has captured, once more. -/
  | again (name : γ)

namespace RegExp

variable {γ : Type}

/-- A place of a text, and what is captured on the way to it, the last capture first. -/
structure Place (γ : Type) where
  before : Option CodeUnit
  rest : Text
  groups : List (γ × Text)

/-- The place after some units. -/
def Place.forward (place : Place γ) (n : ℕ) : Place γ :=
  { place with
    before := (place.rest.take n).getLast?.or place.before
    rest := place.rest.drop n }

/-- Rounds of a repetition, each of which takes something. -/
def rounds (round : Place γ → List (Place γ)) : ℕ → Place γ → List (Place γ)
  | 0, place => [place]
  | n + 1, place =>
    ((round place).filter fun next => next.rest.length < place.rest.length).flatMap
      (rounds round n) ++ [place]

variable [DecidableEq γ]

/-- The capture of a group. -/
def Place.captured (place : Place γ) (name : γ) : Option Text :=
  (place.groups.find? (·.1 = name)).map (·.2)

/-- The places at which a match can end, in the order in which they are tried. -/
def outcomes : RegExp γ → Place γ → List (Place γ)
  | empty, place => [place]
  | unit test, place => if place.rest.head?.any test then [place.forward 1] else []
  | start, place => if place.before.isNone then [place] else []
  | lineStart, place => if place.before.all Text.isLineTerminator then [place] else []
  | finish, place => if place.rest = [] then [place] else []
  | boundary, place =>
    if place.before.any Text.isWord != place.rest.head?.any Text.isWord then [place] else []
  | seq p q, place => (outcomes p place).flatMap (outcomes q)
  | alt p q, place => outcomes p place ++ outcomes q place
  | many p, place => rounds (outcomes p) place.rest.length place
  | group name p, place => (outcomes p place).map fun next =>
      { next with
        groups := (name, place.rest.take (place.rest.length - next.rest.length)) :: next.groups }
  | again name, place =>
    let wanted := (place.captured name).getD []
    if wanted <+: place.rest then [place.forward wanted.length] else []

/-- A match: where it starts, and what it captures. -/
structure Found (γ : Type) where
  index : ℕ
  groups : List (γ × Text)

/-- The first match from a place on. -/
def searchFrom (r : RegExp γ) : Option CodeUnit → ℕ → Text → Option (Found γ)
  | before, index, [] => (outcomes r ⟨before, [], []⟩).head?.map fun place => ⟨index, place.groups⟩
  | before, index, u :: rest =>
    ((outcomes r ⟨before, u :: rest, []⟩).head?.map fun place => ⟨index, place.groups⟩) <|>
      searchFrom r (some u) (index + 1) rest

/-- `RegExp.prototype.exec`. -/
def exec (r : RegExp γ) (t : Text) : Option (Found γ) := searchFrom r none 0 t

/-- `RegExp.prototype.test`. -/
def test (r : RegExp γ) (t : Text) : Bool := (exec r t).isSome

/-! ## Expressions -/

/-- One expression after the other. -/
def seqs (parts : List (RegExp γ)) : RegExp γ := parts.foldr seq empty

/-- One of several expressions. -/
def oneOf (first : RegExp γ) (others : List (RegExp γ)) : RegExp γ := others.foldl alt first

/-- The units of a text. -/
def text (t : Text) : RegExp γ := seqs (t.map fun u => unit (· = u))

/-- The units of a text, in any case. -/
def word (s : String) : RegExp γ :=
  seqs ((Text.lit s).map fun u => unit fun v => Text.foldCase v = Text.foldCase u)

/-- One of the units of a text. -/
def among (s : String) : RegExp γ := unit (· ∈ Text.lit s)

/-- `?`. -/
def optional (p : RegExp γ) : RegExp γ := alt p empty

/-- `{0,n}`. -/
def upTo : ℕ → RegExp γ → RegExp γ
  | 0, _ => empty
  | n + 1, p => optional (seq p (upTo n p))

/-- `{0,n}?`. -/
def fewUpTo : ℕ → RegExp γ → RegExp γ
  | 0, _ => empty
  | n + 1, p => alt empty (seq p (fewUpTo n p))

/-- `{n}`. -/
def times (n : ℕ) (p : RegExp γ) : RegExp γ := seqs (List.replicate n p)

/-- `{m,n}`. -/
def between (m n : ℕ) (p : RegExp γ) : RegExp γ := seq (times m p) (upTo (n - m) p)

/-- `+`. -/
def plus (p : RegExp γ) : RegExp γ := seq p (many p)

/-! ## Searches from the start -/

theorem searchFrom_eq_none_of_start {p : RegExp γ} {u : CodeUnit} {index : ℕ} {t : Text} :
    searchFrom (seq start p) (some u) index t = none := by
  induction t generalizing u index with
  | nil => rfl
  | cons v t ih =>
    rw [searchFrom, ih]
    rfl

/-- **An expression with `^` is tried at the start only.** -/
theorem test_start {p : RegExp γ} {t : Text} :
    (seq start p).test t = !(outcomes p ⟨none, t, []⟩).isEmpty := by
  have here : outcomes (seq start p) ⟨none, t, []⟩ = outcomes p ⟨none, t, []⟩ := by
    rw [outcomes, outcomes]
    exact List.flatMap_singleton _ _
  cases t with
  | nil =>
    rw [test, exec, searchFrom, here]
    cases outcomes p ⟨none, [], []⟩ <;> rfl
  | cons u t =>
    rw [test, exec, searchFrom, here, searchFrom_eq_none_of_start]
    cases outcomes p ⟨none, u :: t, []⟩ <;> rfl

end RegExp

end Koklo.Foundations
