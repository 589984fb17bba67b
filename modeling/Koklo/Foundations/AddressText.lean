import Koklo.Foundations.Decimal
import Koklo.Foundations.Hexadecimal
import Koklo.Foundations.PairSplitting

/-!
# The texts of internet addresses

An IPv4 address is written as four decimal octets (`Quad`). An IPv6 address is eight groups of
sixteen bits; it is written as hexadecimal groups, the last two of which may be a quad (`Run`),
and one `::` may stand for groups of zeros, at least one (`Layout.Standard`). A layout is
determined by its text (`Layout.text_injective`), and so are its brackets, when it has some
(`Literal.text_inj`).
-/

set_option autoImplicit false

namespace Koklo.Foundations.AddressText

def dot : CodeUnit := 0x2E
def colon : CodeUnit := 0x3A

/-! ## Octets and quads -/

/-- One to three decimal digits of a number below 256. -/
@[ext] structure Octet where
  text : Text
  some : text ≠ []
  short : text.length ≤ 3
  digits : ∀ u ∈ text, Text.isDigit u = true
  small : Text.decimal text ≤ 255

namespace Octet

variable (octet : Octet)

def value : ℕ := Text.decimal octet.text

/-- No zero leads the digits. -/
def Bare : Prop := octet.text.head? = .some 0x30 → octet.text.length = 1

theorem value_lt : octet.value < 0x100 := Nat.lt_succ_of_le octet.small

theorem dot_not_mem : dot ∉ octet.text :=
  fun member => absurd (octet.digits dot member) (by decide)

end Octet

/-- Four octets. -/
@[ext] structure Quad where
  a : Octet
  b : Octet
  c : Octet
  d : Octet

namespace Quad

variable (quad : Quad)

def octets : List Octet := [quad.a, quad.b, quad.c, quad.d]

/-- The octets with dots between them. -/
def text : Text := [dot].intercalate (quad.octets.map Octet.text)

/-- The first sixteen bits. -/
def high : ℕ := quad.a.value * 0x100 + quad.b.value

/-- The last sixteen bits. -/
def low : ℕ := quad.c.value * 0x100 + quad.d.value

theorem splitOn_text : quad.text.splitOn dot = quad.octets.map Octet.text := by
  apply List.splitOn_intercalate
  · intro piece member
    obtain ⟨octet, _, rfl⟩ := List.mem_map.mp member
    exact octet.dot_not_mem
  · exact List.cons_ne_nil _ _

theorem text_injective : Function.Injective text := by
  intro first second same
  have octets := congrArg (List.splitOn dot) same
  rw [splitOn_text, splitOn_text] at octets
  simp only [Quad.octets, List.map_cons, List.map_nil, List.cons.injEq, and_true] at octets
  obtain ⟨a, b, c, d⟩ := octets
  exact Quad.ext (Octet.ext a) (Octet.ext b) (Octet.ext c) (Octet.ext d)

/-- A quad is made of digits and dots. -/
theorem digit_or_dot {u : CodeUnit} (member : u ∈ quad.text) :
    u = dot ∨ Text.isDigit u = true := by
  rcases Text.mem_intercalate member with same | ⟨piece, known, inside⟩
  · exact .inl same
  · obtain ⟨octet, _, rfl⟩ := List.mem_map.mp known
    exact .inr (octet.digits u inside)

theorem colon_not_mem : colon ∉ quad.text := by
  intro member
  rcases quad.digit_or_dot member with same | digit
  · exact absurd same (by decide)
  · exact absurd digit (by decide)

theorem dot_mem : dot ∈ quad.text := by
  have joined : quad.text = quad.a.text ++ dot :: [dot].intercalate
      [quad.b.text, quad.c.text, quad.d.text] := by
    rw [text, octets, List.map_cons, List.map_cons, List.intercalate_cons_cons, List.append_assoc]
    rfl
  rw [joined]
  exact List.mem_append_right _ List.mem_cons_self

theorem ne_nil : quad.text ≠ [] := List.ne_nil_of_mem quad.dot_mem

theorem solid : ∀ part ∈ [quad.text], Solid colon part := by
  intro part member
  rw [List.mem_singleton.mp member]
  exact ⟨quad.ne_nil, quad.colon_not_mem⟩

theorem high_lt : quad.high < 0x10 ^ 4 := by
  have first := quad.a.value_lt
  have second := quad.b.value_lt
  unfold high
  omega

theorem low_lt : quad.low < 0x10 ^ 4 := by
  have third := quad.c.value_lt
  have fourth := quad.d.value_lt
  unfold low
  omega

end Quad

/-! ## Groups -/

/-- One to four hexadecimal digits. -/
@[ext] structure HexGroup where
  text : Text
  some : text ≠ []
  short : text.length ≤ 4
  hex : ∀ u ∈ text, isHexDigit u = true

namespace HexGroup

variable (group : HexGroup)

def value : ℕ := Text.hexadecimal group.text

theorem dot_not_mem : dot ∉ group.text := fun member => absurd (group.hex dot member) (by decide)

theorem colon_not_mem : colon ∉ group.text :=
  fun member => absurd (group.hex colon member) (by decide)

theorem solid : Solid colon group.text := ⟨group.some, group.colon_not_mem⟩

/-- The group that writes a number in lower case, without leading zeros. -/
def ofNat {n : ℕ} (small : n < 0x10 ^ 4) : HexGroup :=
  ⟨Text.hexText n, Text.hexText_ne_nil n, Text.length_hexText small (Nat.succ_pos 3),
    fun _ => Text.isHexDigit_of_mem_hexText⟩

theorem value_ofNat {n : ℕ} (small : n < 0x10 ^ 4) : (ofNat small).value = n :=
  Text.hexadecimal_hexText n

end HexGroup

theorem map_text_injective : Function.Injective (List.map HexGroup.text) :=
  List.map_injective_iff.mpr fun _ _ same => HexGroup.ext same

/-- Groups, and a quad for the two after them when there is one. -/
structure Run where
  groups : List HexGroup
  quad : Option Quad

namespace Run

variable (run : Run)

/-- What stands between the colons. -/
def parts : List Text := run.groups.map HexGroup.text ++ run.quad.toList.map Quad.text

def text : Text := [colon].intercalate run.parts

/-- The groups that the run writes. -/
def values : List ℕ :=
  run.groups.map HexGroup.value ++ run.quad.toList.flatMap fun quad => [quad.high, quad.low]

theorem parts_bare (groups : List HexGroup) :
    (Run.mk groups none).parts = groups.map HexGroup.text := List.append_nil _

theorem values_bare (groups : List HexGroup) :
    (Run.mk groups none).values = groups.map HexGroup.value := List.append_nil _

theorem length_values_le : run.values.length ≤ run.groups.length + 2 := by
  obtain ⟨groups, quad⟩ := run
  rw [values, List.length_append, List.length_map]
  cases quad with
  | none => exact Nat.le_add_right _ _
  | some quad => exact le_rfl

theorem solid {part : Text} (member : part ∈ run.parts) : Solid colon part := by
  rcases List.mem_append.mp member with inside | inside
  · obtain ⟨group, _, rfl⟩ := List.mem_map.mp inside
    exact group.solid
  · obtain ⟨quad, _, rfl⟩ := List.mem_map.mp inside
    exact quad.solid quad.text (List.mem_singleton_self _)

/-- A run of groups is not one that ends with a quad. -/
theorem parts_ne {groups others : List HexGroup} {quad : Quad} :
    groups.map HexGroup.text ≠ others.map HexGroup.text ++ [quad.text] := by
  intro same
  have member : quad.text ∈ groups.map HexGroup.text := by
    rw [same]
    exact List.mem_append_right _ (List.mem_singleton_self _)
  obtain ⟨group, _, text⟩ := List.mem_map.mp member
  exact group.dot_not_mem (text ▸ quad.dot_mem)

theorem parts_injective : Function.Injective parts := by
  rintro ⟨groups, quad⟩ ⟨groups', quad'⟩ same
  cases quad with
  | none =>
    cases quad' with
    | none =>
      simp only [parts, Option.toList_none, List.map_nil, List.append_nil] at same
      rw [map_text_injective same]
    | some quad' =>
      simp only [parts, Option.toList_none, List.map_nil, List.append_nil] at same
      exact absurd same parts_ne
  | some quad =>
    cases quad' with
    | none =>
      simp only [parts, Option.toList_none, List.map_nil, List.append_nil] at same
      exact absurd same.symm parts_ne
    | some quad' =>
      obtain ⟨first, last⟩ := List.append_inj' same rfl
      have groups := map_text_injective first
      have quads := Quad.text_injective (List.singleton_inj.mp last)
      dsimp only at groups quads
      rw [groups, quads]

end Run

/-- The two groups of a quad. -/
def expansion (q : Quad) : List HexGroup := [.ofNat q.high_lt, .ofNat q.low_lt]

theorem intercalate_expansion (q : Quad) :
    [colon].intercalate ((expansion q).map HexGroup.text) =
      Text.hexText q.high ++ colon :: Text.hexText q.low := by
  rw [expansion, List.map_cons, List.map_singleton, List.intercalate_cons_cons,
    List.intercalate_singleton, List.append_assoc]
  rfl

theorem solid_expansion (q : Quad) :
    ∀ part ∈ (expansion q).map HexGroup.text, Solid colon part := by
  intro part member
  obtain ⟨group, -, rfl⟩ := List.mem_map.mp member
  exact group.solid

namespace Run

/-- The run that writes a quad as two groups. -/
def expanded (run : Run) : Run := ⟨run.groups ++ run.quad.toList.flatMap expansion, none⟩

theorem values_expanded (run : Run) : run.expanded.values = run.values := by
  obtain ⟨groups, quad⟩ := run
  cases quad with
  | none => rw [expanded, Option.toList_none, List.flatMap_nil, List.append_nil]
  | some q =>
    have two : (expansion q).map HexGroup.value = [q.high, q.low] := by
      rw [expansion, List.map_cons, List.map_singleton, HexGroup.value_ofNat, HexGroup.value_ofNat]
    simp only [expanded, values, Option.toList_some, Option.toList_none, List.flatMap_cons,
      List.flatMap_nil, List.append_nil, List.map_append, two]

end Run

/-! ## Layouts -/

/-- A text of an IPv6 address: all its groups, or groups on both sides of `::`. -/
inductive Layout where
  | full (run : Run)
  | compressed (head : List HexGroup) (tail : Run)

namespace Layout

/-- What stands between the colons, on both sides of `::`. -/
def runs : Layout → List (List Text)
  | full run => [run.parts]
  | compressed head tail => [head.map HexGroup.text, tail.parts]

def text : Layout → Text
  | full run => run.text
  | compressed head tail =>
    [colon].intercalate (head.map HexGroup.text) ++ colon :: colon :: tail.text

/-- The eight groups: `::` stands for the zeros that are missing. -/
def values : Layout → List ℕ
  | full run => run.values
  | compressed head tail => head.map HexGroup.value ++
      List.replicate (8 - (head.length + tail.values.length)) 0 ++ tail.values

def quad : Layout → Option Quad
  | full run => run.quad
  | compressed _ tail => tail.quad

/-- There are eight groups, and `::` stands for at least one of them. -/
def Standard : Layout → Prop
  | full run => run.values.length = 8
  | compressed head tail => head.length + tail.values.length ≤ 7

/-- There are no more than eight groups, even beside `::`. -/
def Fits : Layout → Prop
  | full run => run.values.length = 8
  | compressed head tail => head.length + tail.values.length ≤ 8

variable {layout : Layout}

theorem Standard.fits (standard : layout.Standard) : layout.Fits := by
  cases layout with
  | full run => exact standard
  | compressed head tail => exact Nat.le_succ_of_le standard

theorem text_eq_unshape (layout : Layout) : layout.text = unshape colon layout.runs := by
  cases layout with
  | full run => rw [unshape, runs, List.map_singleton, List.intercalate_singleton]; rfl
  | compressed head tail =>
    rw [unshape, runs, List.map_cons, List.map_singleton, List.intercalate_cons_cons,
      List.intercalate_singleton, List.append_assoc]
    rfl

theorem shape_text (layout : Layout) : shape colon layout.text = layout.runs := by
  rw [text_eq_unshape]
  apply shape_unshape
  · cases layout with
    | full run => exact List.cons_ne_nil _ _
    | compressed head tail => exact List.cons_ne_nil _ _
  · intro run member part inside
    cases layout with
    | full run =>
      cases List.mem_singleton.mp member
      exact run.solid inside
    | compressed head tail =>
      rcases List.mem_cons.mp member with rfl | later
      · obtain ⟨group, _, rfl⟩ := List.mem_map.mp inside
        exact group.solid
      · cases List.mem_singleton.mp later
        exact tail.solid inside

/-- **A layout is determined by its text.** -/
theorem text_injective : Function.Injective text := by
  intro first second same
  have runs : first.runs = second.runs := by
    rw [← shape_text, ← shape_text, same]
  cases first with
  | full run =>
    cases second with
    | full run' => rw [Run.parts_injective (List.singleton_inj.mp runs)]
    | compressed head tail => exact absurd (List.cons.inj runs).2 (List.cons_ne_nil _ _).symm
  | compressed head tail =>
    cases second with
    | full run => exact absurd (List.cons.inj runs).2 (List.cons_ne_nil _ _)
    | compressed head' tail' =>
      obtain ⟨heads, tails⟩ := List.cons.inj runs
      rw [map_text_injective heads, Run.parts_injective (List.singleton_inj.mp tails)]

/-- The layout that writes a quad as two groups. -/
def expanded : Layout → Layout
  | full run => full run.expanded
  | compressed head tail => compressed head tail.expanded

theorem values_expanded (layout : Layout) : layout.expanded.values = layout.values := by
  cases layout with
  | full run => exact run.values_expanded
  | compressed head tail => simp only [expanded, values, tail.values_expanded]

theorem Fits.expanded (fits : layout.Fits) : layout.expanded.Fits := by
  cases layout with
  | full run =>
    have same := run.values_expanded
    rw [Fits] at fits
    rwa [Layout.expanded, Fits, same]
  | compressed head tail =>
    have same := tail.values_expanded
    rw [Fits] at fits
    rwa [Layout.expanded, Fits, same]

/-- **A quad stands at the end**, after a colon when something stands before it. -/
theorem exists_front {q : Quad} (ends : layout.quad = some q) :
    ∃ front, Closed colon front ∧ layout.text = front ++ q.text ∧
      layout.expanded.text = front ++ (Text.hexText q.high ++ colon :: Text.hexText q.low) := by
  have joined : ∀ groups : List HexGroup,
      (Run.mk groups (some q)).text = terminated colon (groups.map HexGroup.text) ++ q.text ∧
      (Run.mk groups (some q)).expanded.text = terminated colon (groups.map HexGroup.text) ++
        (Text.hexText q.high ++ colon :: Text.hexText q.low) := by
    intro groups
    constructor
    · rw [Run.text, Run.parts]
      exact (intercalate_append (List.cons_ne_nil _ _) _).trans
        (congrArg _ List.intercalate_singleton)
    · have two : (expansion q).map HexGroup.text ≠ [] := List.cons_ne_nil _ _
      rw [← intercalate_expansion, ← intercalate_append two, Run.text, Run.parts, Run.expanded]
      simp only [Option.toList_some, Option.toList_none, List.flatMap_cons, List.flatMap_nil,
        List.append_nil, List.map_append, List.map_nil]
  cases layout with
  | full run =>
    obtain ⟨groups, quad⟩ := run
    cases ends
    exact ⟨_, closed_terminated _, (joined groups).1, (joined groups).2⟩
  | compressed head tail =>
    obtain ⟨groups, quad⟩ := tail
    cases ends
    refine ⟨([colon].intercalate (head.map HexGroup.text) ++ [colon]) ++ colon ::
      terminated colon (groups.map HexGroup.text), (closed_terminated _).append_separator _, ?_, ?_⟩
    · rw [text, (joined groups).1, List.append_assoc, List.append_assoc]
      rfl
    · rw [expanded, text, (joined groups).2, List.append_assoc, List.append_assoc]
      rfl

/-- A layout without a quad has no dot. -/
theorem dot_not_mem (none : layout.quad = none) : dot ∉ layout.text := by
  have absent : ∀ groups : List HexGroup, dot ∉ [colon].intercalate (groups.map HexGroup.text) := by
    intro groups member
    rcases Text.mem_intercalate member with same | ⟨part, known, inside⟩
    · exact absurd same (by decide)
    · obtain ⟨group, -, rfl⟩ := List.mem_map.mp known
      exact group.dot_not_mem inside
  cases layout with
  | full run =>
    obtain ⟨groups, quad⟩ := run
    cases none
    rw [text, Run.text, Run.parts_bare]
    exact absent groups
  | compressed head tail =>
    obtain ⟨groups, quad⟩ := tail
    cases none
    intro member
    rw [text, Run.text, Run.parts_bare] at member
    rcases List.mem_append.mp member with first | last
    · exact absent head first
    · rcases List.mem_cons.mp last with same | last
      · exact absurd same (by decide)
      · rcases List.mem_cons.mp last with same | last
        · exact absurd same (by decide)
        · exact absent groups last

/-- A layout is made of hexadecimal digits, dots and colons. -/
theorem hex_or_mark {u : CodeUnit} (member : u ∈ layout.text) :
    u = colon ∨ u = dot ∨ isHexDigit u = true := by
  have inside : ∀ {run : Run}, u ∈ run.text → u = colon ∨ u = dot ∨ isHexDigit u = true := by
    intro run member
    refine (Text.mem_intercalate member).imp_right ?_
    rintro ⟨part, known, member⟩
    rcases List.mem_append.mp known with first | last
    · obtain ⟨group, -, rfl⟩ := List.mem_map.mp first
      exact .inr (group.hex u member)
    · obtain ⟨quad, -, rfl⟩ := List.mem_map.mp last
      refine (quad.digit_or_dot member).imp_right fun digit => ?_
      rw [isHexDigit, digit, Bool.true_or, Bool.true_or]
  cases layout with
  | full run => exact inside member
  | compressed head tail =>
    rcases List.mem_append.mp member with first | last
    · apply @inside ⟨head, none⟩
      rw [Run.text, Run.parts]
      rwa [Option.toList_none, List.map_nil, List.append_nil]
    · rcases List.mem_cons.mp last with same | last
      · exact .inl same
      · rcases List.mem_cons.mp last with same | last
        · exact .inl same
        · exact inside last

/-- A layout of eight groups is not a quad. -/
theorem Fits.colon_mem (fits : layout.Fits) : colon ∈ layout.text := by
  cases layout with
  | full run =>
    obtain ⟨groups, quad⟩ := run
    have eight : (Run.values ⟨groups, quad⟩).length = 8 := fits
    have bound := Run.length_values_le ⟨groups, quad⟩
    dsimp only at bound
    rcases groups with _ | ⟨first, _ | ⟨second, rest⟩⟩
    · simp only [List.length_nil] at bound
      omega
    · simp only [List.length_singleton] at bound
      omega
    · rw [text, Run.text, Run.parts, List.map_cons, List.map_cons, List.cons_append,
        List.cons_append, List.intercalate_cons_cons]
      exact List.mem_append_left _ (List.mem_append_right _ (List.mem_singleton_self _))
  | compressed head tail => exact List.mem_append_right _ List.mem_cons_self

end Layout

/-! ## Addresses in brackets -/

def openBracket : CodeUnit := 0x5B
def closeBracket : CodeUnit := 0x5D

/-- A quad or a layout. -/
inductive Address where
  | quad (q : Quad)
  | groups (layout : Layout)

namespace Address

def text : Address → Text
  | quad q => q.text
  | groups layout => layout.text

/-- There are no more than eight groups. -/
def Fits : Address → Prop
  | quad _ => True
  | groups layout => layout.Fits

/-- A quad stands without brackets, a layout without brackets or in brackets. -/
def Framed (opened closed : Bool) : Address → Prop
  | quad _ => opened = false ∧ closed = false
  | groups layout => opened = closed ∧ layout.Standard

/-- The octets that it writes. -/
def octets : Address → List Octet
  | quad q => q.octets
  | groups layout => layout.quad.toList.flatMap Quad.octets

variable {address : Address}

theorem hex_or_mark {u : CodeUnit} (member : u ∈ address.text) :
    u = colon ∨ u = dot ∨ isHexDigit u = true := by
  cases address with
  | quad q =>
    refine .inr ((q.digit_or_dot member).imp_right fun digit => ?_)
    rw [isHexDigit, digit, Bool.true_or, Bool.true_or]
  | groups layout => exact Layout.hex_or_mark member

theorem openBracket_not_mem : openBracket ∉ address.text := by
  intro member
  rcases hex_or_mark member with same | same | hex
  · exact absurd same (by decide)
  · exact absurd same (by decide)
  · exact absurd hex (by decide)

theorem closeBracket_not_mem : closeBracket ∉ address.text := by
  intro member
  rcases hex_or_mark member with same | same | hex
  · exact absurd same (by decide)
  · exact absurd same (by decide)
  · exact absurd hex (by decide)

theorem Framed.fits {opened closed : Bool} (framed : address.Framed opened closed) :
    address.Fits := by
  cases address with
  | quad q => trivial
  | groups layout => exact framed.2.fits

theorem text_inj {first second : Address} (fits : first.Fits) (fits' : second.Fits)
    (same : first.text = second.text) : first = second := by
  cases first with
  | quad q =>
    cases second with
    | quad q' => rw [Quad.text_injective same]
    | groups layout =>
      have texts : q.text = layout.text := same
      exact absurd (texts ▸ Layout.Fits.colon_mem fits') q.colon_not_mem
  | groups layout =>
    cases second with
    | quad q =>
      have texts : layout.text = q.text := same
      exact absurd (texts ▸ Layout.Fits.colon_mem fits) q.colon_not_mem
    | groups layout' => rw [Layout.text_injective same]

end Address

/-- An address with the brackets that stand around it. -/
structure Literal where
  opened : Bool
  closed : Bool
  address : Address

/-- A text with brackets around it. -/
def bracketed (opened closed : Bool) (t : Text) : Text :=
  (if opened then [openBracket] else []) ++ (t ++ if closed then [closeBracket] else [])

theorem bracketed_inj {opened closed opened' closed' : Bool} {first second : Text}
    (left : openBracket ∉ first) (left' : openBracket ∉ second)
    (right : closeBracket ∉ first) (right' : closeBracket ∉ second)
    (same : bracketed opened closed first = bracketed opened' closed' second) :
    opened = opened' ∧ closed = closed' ∧ first = second := by
  have apart : openBracket ≠ closeBracket := by decide
  have front : ∀ {o c : Bool} {t : Text}, openBracket ∉ t →
      (openBracket ∈ bracketed o c t ↔ o = true) := by
    intro o c t absent
    cases o with
    | false => cases c <;> simp [bracketed, absent, apart]
    | true => simp [bracketed]
  have back : ∀ {o c : Bool} {t : Text}, closeBracket ∉ t →
      (closeBracket ∈ bracketed o c t ↔ c = true) := by
    intro o c t absent
    cases c with
    | false => cases o <;> simp [bracketed, absent, apart.symm]
    | true => simp [bracketed]
  have opening : opened = opened' := Bool.eq_iff_iff.mpr (by rw [← front left, same, front left'])
  have closing : closed = closed' := Bool.eq_iff_iff.mpr (by rw [← back right, same, back right'])
  subst opening closing
  exact ⟨rfl, rfl, List.append_cancel_right (List.append_cancel_left same)⟩

namespace Literal

def text (literal : Literal) : Text :=
  bracketed literal.opened literal.closed literal.address.text

/-- A text of an address. Whether zeros may lead its octets is left open. -/
def Standard (zeros : Bool) (literal : Literal) : Prop :=
  literal.address.Framed literal.opened literal.closed ∧
    ∀ octet ∈ literal.address.octets, zeros = true ∨ octet.Bare

theorem Standard.fits {zeros : Bool} {literal : Literal} (standard : literal.Standard zeros) :
    literal.address.Fits := standard.1.fits

/-- **A literal is determined by its text.** -/
theorem text_inj {first second : Literal} (fits : first.address.Fits) (fits' : second.address.Fits)
    (same : first.text = second.text) : first = second := by
  obtain ⟨opened, closed, texts⟩ := bracketed_inj Address.openBracket_not_mem
    Address.openBracket_not_mem Address.closeBracket_not_mem Address.closeBracket_not_mem same
  obtain ⟨_, _, _⟩ := first
  obtain ⟨_, _, _⟩ := second
  rw [Literal.mk.injEq]
  exact ⟨opened, closed, Address.text_inj fits fits' texts⟩

end Literal

end Koklo.Foundations.AddressText
