import Koklo.Llm.IpAddress

/-!
# The check of private addresses

The check depends on the address alone. Every text of eight groups is read as its groups
(`parseV6_text`), a mapped address has the verdict of the address in it (`isPrivateV6_mapped`),
and a text is found public exactly when it is a literal that fits and whose address is public
(`isPrivateAddress_eq_false_iff`). Literals that fit are more than the texts of addresses: those
among them that are public are all the texts on which the check fails (`private_check_exact`).
-/

set_option autoImplicit false

namespace Koklo.Llm

open Koklo.Foundations AddressText

/-! ## Quads -/

/-- The bits of a quad. -/
def quadBits (q : Quad) : BitVec 32 := v4 q.a.value q.b.value q.c.value q.d.value

theorem v4_toNat {a b c d : ℕ} (first : a < 0x100) (second : b < 0x100) (third : c < 0x100)
    (fourth : d < 0x100) : (v4 a b c d).toNat = (a * 0x100 + b) * 0x10000 + (c * 0x100 + d) := by
  have shifted : ∀ {n k : ℕ}, n < 0x100 → k ≤ 24 →
      (BitVec.ofNat 32 n <<< k).toNat = n * 2 ^ k := by
    intro n k small bound
    have power : 2 ^ k ≤ 2 ^ 24 := Nat.pow_le_pow_right (by decide) bound
    have product : n * 2 ^ k < 2 ^ 32 :=
      calc n * 2 ^ k ≤ n * 2 ^ 24 := Nat.mul_le_mul_left n power
        _ < 0x100 * 2 ^ 24 := Nat.mul_lt_mul_of_pos_right small (by decide)
        _ = 2 ^ 32 := by norm_num
    have small' : n < 2 ^ 32 := small.trans (by norm_num)
    rw [BitVec.toNat_shiftLeft, BitVec.toNat_ofNat, Nat.mod_eq_of_lt small', Nat.shiftLeft_eq,
      Nat.mod_eq_of_lt product]
  have last : (BitVec.ofNat 32 d).toNat = d := by
    rw [BitVec.toNat_ofNat, Nat.mod_eq_of_lt (fourth.trans (by norm_num))]
  have joined : ∀ {n low : ℕ} (k : ℕ), low < 2 ^ k → n * 2 ^ k ||| low = n * 2 ^ k + low := by
    intro n low k small
    rw [← Nat.shiftLeft_eq, Nat.shiftLeft_add_eq_or_of_lt small]
  rw [v4, BitVec.toNat_or, BitVec.toNat_or, BitVec.toNat_or, shifted first le_rfl,
    shifted second (by decide), shifted third (by decide), last]
  have two : a * 2 ^ 24 + b * 2 ^ 16 = (a * 2 ^ 8 + b) * 2 ^ 16 := by ring
  have three : (a * 2 ^ 8 + b) * 2 ^ 16 + c * 2 ^ 8 = ((a * 2 ^ 8 + b) * 2 ^ 8 + c) * 2 ^ 8 := by
    ring
  rw [joined 24 (by omega), two, joined 16 (by omega), three, joined 8 (by omega)]
  ring

theorem high_quadBits (q : Quad) : (quadBits q >>> 16).toNat = q.high := by
  have total := v4_toNat q.a.value_lt q.b.value_lt q.c.value_lt q.d.value_lt
  have low := q.low_lt
  rw [quadBits, BitVec.toNat_ushiftRight, total, Nat.shiftRight_eq_div_pow]
  unfold Quad.low at low
  unfold Quad.high
  omega

theorem low_quadBits (q : Quad) : (quadBits q &&& 0xFFFF).toNat = q.low := by
  have total := v4_toNat q.a.value_lt q.b.value_lt q.c.value_lt q.d.value_lt
  have low := q.low_lt
  have mask : (0xFFFF : BitVec 32).toNat = 2 ^ 16 - 1 := by decide
  rw [quadBits, BitVec.toNat_and, total, mask, Nat.and_two_pow_sub_one_eq_mod]
  unfold Quad.low at low ⊢
  omega

theorem isNumber_iff {part : Text} :
    isNumber part = true ↔ part ≠ [] ∧ part.length ≤ 3 ∧ ∀ u ∈ part, Text.isDigit u = true := by
  rw [isNumber, Bool.and_eq_true, Bool.and_eq_true, decide_eq_true_eq, decide_eq_true_eq,
    List.all_eq_true, and_assoc]

/-- A number that fits a byte is an octet. -/
theorem exists_octet {part : Text} (number : isNumber part = true)
    (small : ¬ byteMax < Text.decimal part) : ∃ octet : Octet, octet.text = part := by
  obtain ⟨some, short, digits⟩ := isNumber_iff.mp number
  exact ⟨⟨part, some, short, digits, Nat.le_of_not_lt small⟩, rfl⟩

/-- **What is read as a quad.** -/
theorem parseV4_eq_some_iff {text : Text} {address : BitVec 32} :
    parseV4 text = some address ↔ ∃ q : Quad, q.text = text ∧ quadBits q = address := by
  constructor
  · intro read
    unfold parseV4 at read
    split at read
    · rename_i a b c d split
      split at read
      · rename_i numbers
        split at read
        · cases read
        · rename_i small
          simp only [List.all_cons, List.all_nil, Bool.and_true, Bool.and_eq_true] at numbers
          simp only [List.map_cons, List.map_nil, List.any_cons, List.any_nil, Bool.or_false,
            Bool.or_eq_true, decide_eq_true_eq, not_or] at small
          obtain ⟨a, rfl⟩ := exists_octet numbers.1 small.1
          obtain ⟨b, rfl⟩ := exists_octet numbers.2.1 small.2.1
          obtain ⟨c, rfl⟩ := exists_octet numbers.2.2.1 small.2.2.1
          obtain ⟨d, rfl⟩ := exists_octet numbers.2.2.2 small.2.2.2
          refine ⟨⟨a, b, c, d⟩, ?_, Option.some.inj read⟩
          have whole : [dot].intercalate (text.splitOn dot) = text := List.intercalate_splitOn dot
          rw [split] at whole
          exact whole
      · cases read
    · cases read
  · rintro ⟨q, rfl, rfl⟩
    have number : ∀ octet : Octet, isNumber octet.text = true := fun octet =>
      isNumber_iff.mpr ⟨octet.some, octet.short, octet.digits⟩
    have small : ∀ octet : Octet, ¬ byteMax < Text.decimal octet.text := fun octet =>
      Nat.not_lt.mpr octet.small
    rw [parseV4, q.splitOn_text]
    simp only [Quad.octets, List.map_cons, List.map_nil, List.all_cons, List.all_nil, number,
      List.any_cons, List.any_nil, small, Bool.and_true, if_true, decide_false, Bool.or_false,
      Bool.false_eq_true, if_false]
    rfl

/-! ## Groups -/

theorem groupValue_text (group : HexGroup) : groupValue group.text = some group.value := by
  have accepted : (group.text ≠ [] && decide (group.text.length ≤ 4) &&
      group.text.all isHexDigit) = true := by
    rw [Bool.and_eq_true, Bool.and_eq_true, decide_eq_true_eq, decide_eq_true_eq,
      List.all_eq_true]
    exact ⟨⟨group.some, group.short⟩, group.hex⟩
  rw [groupValue, if_pos accepted]
  rfl

theorem exists_group {text : Text} {value : ℕ} (read : groupValue text = some value) :
    ∃ group : HexGroup, group.text = text ∧ group.value = value := by
  unfold groupValue at read
  split at read
  · rename_i accepted
    rw [Bool.and_eq_true, Bool.and_eq_true, decide_eq_true_eq, decide_eq_true_eq,
      List.all_eq_true] at accepted
    exact ⟨⟨text, accepted.1.1, accepted.1.2, accepted.2⟩, rfl, Option.some.inj read⟩
  · cases read

theorem mapM_groupValue (groups : List HexGroup) :
    (groups.map HexGroup.text).mapM groupValue = some (groups.map HexGroup.value) := by
  induction groups with
  | nil => rfl
  | cons group groups ih =>
    rw [List.map_cons, List.mapM_cons, groupValue_text, ih]
    rfl

/-- **What is read as groups.** -/
theorem mapM_groupValue_eq_some_iff {texts : List Text} {values : List ℕ} :
    texts.mapM groupValue = some values ↔
      ∃ groups : List HexGroup, groups.map HexGroup.text = texts ∧
        groups.map HexGroup.value = values := by
  constructor
  · intro read
    have each := forall₂_of_mapM_eq_some read
    clear read
    induction each with
    | nil => exact ⟨[], rfl, rfl⟩
    | cons first _ ih =>
      obtain ⟨group, rfl, rfl⟩ := exists_group first
      obtain ⟨groups, rfl, rfl⟩ := ih
      exact ⟨group :: groups, rfl, rfl⟩
  · rintro ⟨groups, rfl, rfl⟩
    exact mapM_groupValue groups

/-! ## Layouts -/

/-- The groups of the pieces of a text, on both sides of `::` when it has one. -/
def readRuns : List (List Text) → Option (List ℕ)
  | [run] => if run.length = groupCount then run.mapM groupValue else none
  | [head, tail] =>
    let zeros := List.replicate (groupCount - head.length - tail.length) (Text.lit "0")
    if (head ++ zeros ++ tail).length = groupCount then (head ++ zeros ++ tail).mapM groupValue
    else none
  | _ => none

theorem parseGroups_eq (expanded : Text) : parseGroups expanded = readRuns (shape colon expanded) := by
  unfold parseGroups shape
  rcases splitOnPair colon expanded with _ | ⟨first, _ | ⟨second, _ | ⟨third, rest⟩⟩⟩
  · rfl
  · have none : pieces colon ([] : Text) = [] := rfl
    simp [readRuns, none]
  · simp [readRuns]
  · have many : 2 < (first :: second :: third :: rest).length := by
      simp only [List.length_cons]
      omega
    simp only [if_pos many, List.map_cons, readRuns]

def zeroGroup : HexGroup := HexGroup.ofNat (Nat.pow_pos (Nat.succ_pos 15))

theorem zeroGroup_text : zeroGroup.text = Text.lit "0" := by decide

theorem zeroGroup_value : zeroGroup.value = 0 := HexGroup.value_ofNat _

/-- The runs of a layout without a quad that fits are read as its groups. -/
theorem readRuns_runs {layout : Layout} (fits : layout.Fits) (bare : layout.quad = none) :
    readRuns layout.runs = some layout.values := by
  cases layout with
  | full run =>
    obtain ⟨groups, quad⟩ := run
    cases bare
    have eight : (Run.mk groups none).values.length = 8 := fits
    rw [Run.values_bare, List.length_map] at eight
    have eight' : (groups.map HexGroup.text).length = groupCount := (List.length_map _).trans eight
    rw [Layout.runs, Layout.values, readRuns, Run.parts_bare, Run.values_bare, if_pos eight',
      mapM_groupValue]
  | compressed head tail =>
    obtain ⟨groups, quad⟩ := tail
    cases bare
    have bound : head.length + (Run.mk groups none).values.length ≤ 8 := fits
    rw [Run.values_bare, List.length_map] at bound
    have all : head.map HexGroup.text ++
        List.replicate (groupCount - (head.map HexGroup.text).length -
          (groups.map HexGroup.text).length) (Text.lit "0") ++ groups.map HexGroup.text =
        (head ++ List.replicate (8 - (head.length + groups.length)) zeroGroup ++ groups).map
          HexGroup.text := by
      rw [List.map_append, List.map_append, List.map_replicate, zeroGroup_text, List.length_map,
        List.length_map, Nat.sub_sub]
      rfl
    have long : (head ++ List.replicate (8 - (head.length + groups.length)) zeroGroup ++
        groups).length = groupCount := by
      rw [List.length_append, List.length_append, List.length_replicate]
      unfold groupCount
      omega
    simp only [Layout.runs, Layout.values, Run.parts_bare, Run.values_bare, readRuns]
    rw [all, List.length_map, if_pos long, mapM_groupValue, List.map_append, List.map_append,
      List.map_replicate, zeroGroup_value, List.length_map]

/-- What is read are the runs of a layout without a quad that fits. -/
theorem exists_layout {runs : List (List Text)} {values : List ℕ}
    (read : readRuns runs = some values) :
    ∃ layout : Layout, layout.quad = none ∧ layout.Fits ∧ layout.runs = runs ∧
      layout.values = values := by
  unfold readRuns at read
  split at read
  · rename_i run
    split at read
    · rename_i eight
      obtain ⟨groups, rfl, rfl⟩ := mapM_groupValue_eq_some_iff.mp read
      refine ⟨.full ⟨groups, none⟩, rfl, ?_, ?_, ?_⟩
      · rw [Layout.Fits, Run.values_bare, List.length_map]
        exact (List.length_map _).symm.trans eight
      · rw [Layout.runs, Run.parts_bare]
      · rw [Layout.values, Run.values_bare]
    · cases read
  · rename_i head tail
    dsimp only at read
    split at read
    · rename_i eight
      obtain ⟨groups, texts, rfl⟩ := mapM_groupValue_eq_some_iff.mp read
      obtain ⟨front, back, rfl, fronts, backs⟩ := List.map_eq_append_iff.mp texts
      obtain ⟨first, zeros, rfl, firsts, fill⟩ := List.map_eq_append_iff.mp fronts
      subst firsts backs
      rw [List.length_map, List.length_map] at fill
      have allZero : zeros = List.replicate (8 - (first.length + back.length)) zeroGroup := by
        apply map_text_injective
        rw [fill, List.map_replicate, zeroGroup_text, Nat.sub_sub]
        rfl
      refine ⟨.compressed first ⟨back, none⟩, rfl, ?_, ?_, ?_⟩
      · rw [List.length_append, List.length_append, List.length_replicate, List.length_map,
          List.length_map] at eight
        rw [Layout.Fits, Run.values_bare, List.length_map]
        unfold groupCount at eight
        omega
      · rw [Layout.runs, Run.parts_bare]
      · rw [Layout.values, Run.values_bare, List.length_map, allZero, List.map_append,
          List.map_append, List.map_replicate, zeroGroup_value]
    · cases read
  · cases read

/-- **A text of eight groups is read as its groups.** -/
theorem parseV6_text {layout : Layout} (fits : layout.Fits) :
    parseV6 layout.text = some layout.values := by
  cases ends : layout.quad with
  | none =>
    rw [parseV6, expandTail, if_pos (Layout.dot_not_mem ends), Option.bind_some, parseGroups_eq,
      Layout.shape_text, readRuns_runs fits ends]
  | some q =>
    obtain ⟨front, closed, text, expanded⟩ := Layout.exists_front ends
    obtain ⟨before, last⟩ := cut_append closed q.colon_not_mem
    have dotted : ¬ dot ∉ front ++ q.text := not_not.mpr (List.mem_append_right _ q.dot_mem)
    have read : parseV4 q.text = some (quadBits q) := parseV4_eq_some_iff.mpr ⟨q, rfl, rfl⟩
    have bare : layout.expanded.quad = none := by
      cases layout with
      | full run => rfl
      | compressed head tail => rfl
    rw [parseV6, text, expandTail, if_neg dotted, last, before, read, Option.map_some,
      high_quadBits, low_quadBits, ← expanded, Option.bind_some, parseGroups_eq, Layout.shape_text,
      readRuns_runs fits.expanded bare, Layout.values_expanded]

/-- The runs of a layout that ends with two groups are those of the layout that ends with a quad
for them. -/
theorem exists_quad_layout {layout : Layout} (bare : layout.quad = none) (q : Quad)
    {before : List (List Text)} {last : List Text}
    (runs : layout.runs = before ++ [last ++ [Text.hexText q.high, Text.hexText q.low]]) :
    ∃ other : Layout, other.runs = before ++ [last ++ [q.text]] ∧ other.expanded = layout := by
  have cut : ∀ groups : List HexGroup,
      groups.map HexGroup.text = last ++ [Text.hexText q.high, Text.hexText q.low] →
      ∃ front, front.map HexGroup.text = last ∧ groups = front ++ expansion q := by
    intro groups same
    obtain ⟨front, back, rfl, fronts, backs⟩ := List.map_eq_append_iff.mp same
    exact ⟨front, fronts, congrArg (front ++ ·) (map_text_injective backs)⟩
  cases layout with
  | full run =>
    obtain ⟨groups, quad⟩ := run
    cases bare
    rw [Layout.runs, Run.parts_bare] at runs
    obtain ⟨rfl, same⟩ : before = [] ∧ groups.map HexGroup.text =
        last ++ [Text.hexText q.high, Text.hexText q.low] := by
      cases before with
      | nil => exact ⟨rfl, (List.cons.inj runs).1⟩
      | cons run before => exact absurd (List.cons.inj runs).2.symm (by simp)
    obtain ⟨front, rfl, rfl⟩ := cut groups same
    exact ⟨.full ⟨front, some q⟩, rfl, rfl⟩
  | compressed head tail =>
    obtain ⟨groups, quad⟩ := tail
    cases bare
    rw [Layout.runs, Run.parts_bare] at runs
    obtain ⟨rfl, same⟩ : before = [head.map HexGroup.text] ∧ groups.map HexGroup.text =
        last ++ [Text.hexText q.high, Text.hexText q.low] := by
      have parts := List.append_inj' (show [head.map HexGroup.text] ++ [groups.map HexGroup.text] =
        before ++ [last ++ [Text.hexText q.high, Text.hexText q.low]] from runs) rfl
      exact ⟨parts.1.symm, List.singleton_inj.mp parts.2⟩
    obtain ⟨front, rfl, rfl⟩ := cut groups same
    exact ⟨.compressed head ⟨front, some q⟩, rfl, rfl⟩

/-- A layout fits when it does with its quad as two groups. -/
theorem fits_of_expanded {layout : Layout} (fits : layout.expanded.Fits) : layout.Fits := by
  cases layout with
  | full run => exact (congrArg List.length run.values_expanded).symm.trans fits
  | compressed head tail =>
    have bound : head.length + tail.expanded.values.length ≤ 8 := fits
    rwa [tail.values_expanded] at bound

/-- **What is read as an IPv6 address.** -/
theorem parseV6_eq_some_iff {text : Text} {values : List ℕ} :
    parseV6 text = some values ↔
      ∃ layout : Layout, layout.Fits ∧ layout.text = text ∧ layout.values = values := by
  constructor
  · intro read
    obtain ⟨expanded, tail, groups⟩ := Option.bind_eq_some_iff.mp read
    rw [parseGroups_eq] at groups
    obtain ⟨layout, bare, fits, runs, rfl⟩ := exists_layout groups
    unfold expandTail at tail
    split at tail
    · cases tail
      exact ⟨layout, fits, by rw [Layout.text_eq_unshape, runs, unshape_shape], rfl⟩
    · obtain ⟨embedded, dotted, rfl⟩ := Option.map_eq_some_iff.mp tail
      obtain ⟨q, last, rfl⟩ := parseV4_eq_some_iff.mp dotted
      -- Both texts go on from one front, with one quad or with its two groups.
      obtain ⟨before, more, continued⟩ := shape_append (@closed_rdropWhile _ colon _ text)
      have whole : shape colon text = before ++ [more ++ [q.text]] := by
        rw [← continued [q.text] (List.cons_ne_nil _ _) q.solid, List.intercalate_singleton, last,
          List.rdropWhile_append_rtakeWhile]
      have two : (expansion q).map HexGroup.text ≠ [] := List.cons_ne_nil _ _
      rw [high_quadBits, low_quadBits, ← intercalate_expansion,
        continued _ two (solid_expansion q)] at runs
      obtain ⟨other, others, rfl⟩ := exists_quad_layout bare q runs
      refine ⟨other, fits_of_expanded fits, ?_, other.values_expanded.symm⟩
      rw [Layout.text_eq_unshape, others, ← whole, unshape_shape]
  · rintro ⟨layout, fits, rfl, rfl⟩
    exact parseV6_text fits

/-! ## Addresses -/

/-- Whether an address is not public. -/
def isPrivate : Address → Bool
  | .quad q => privateV4.any (inRange (quadBits q))
  | .groups layout => isPrivateV6 layout.values

theorem withoutBrackets_bracketed {t : Text} (left : openBracket ∉ t) (right : closeBracket ∉ t)
    (opened closed : Bool) : withoutBrackets (bracketed opened closed t) = t := by
  have apart : closeBracket ≠ openBracket := by decide
  have head : (t ++ if closed then [closeBracket] else []).head? ≠ some openBracket := by
    intro first
    rcases List.mem_append.mp (List.mem_of_mem_head? first) with inside | inside
    · exact left inside
    · split at inside
      · exact apart (List.mem_singleton.mp inside).symm
      · cases inside
  have last : t.getLast? ≠ some closeBracket := fun last => right (List.mem_of_mem_getLast? last)
  have opening : (if (bracketed opened closed t).head? = some openBracket then
      (bracketed opened closed t).tail else bracketed opened closed t) =
        t ++ if closed then [closeBracket] else [] := by
    cases opened with
    | false => exact if_neg head
    | true => rfl
  unfold withoutBrackets
  dsimp only
  rw [opening]
  cases closed with
  | false => simp [last]
  | true => simp

/-- A text is what is left of it with the brackets that were dropped. -/
theorem exists_bracketed (text : Text) :
    ∃ opened closed, bracketed opened closed (withoutBrackets text) = text := by
  have last : ∀ rest : Text, ∃ closed : Bool, (if rest.getLast? = some closeBracket then rest.dropLast
      else rest) ++ (if closed then [closeBracket] else []) = rest := by
    intro rest
    split
    · rename_i last
      exact ⟨true, List.dropLast_append_getLast? _ last⟩
    · exact ⟨false, List.append_nil _⟩
  unfold withoutBrackets bracketed
  dsimp only
  split
  · rename_i first
    obtain ⟨closed, whole⟩ := last text.tail
    refine ⟨true, closed, ?_⟩
    rw [whole]
    exact List.cons_head?_tail first
  · obtain ⟨closed, whole⟩ := last text
    exact ⟨false, closed, whole⟩

/-- **The verdict on a literal that fits** is that on its address. -/
theorem isPrivateAddress_text {literal : Literal} (fits : literal.address.Fits) :
    isPrivateAddress literal.text = isPrivate literal.address := by
  obtain ⟨opened, closed, address⟩ := literal
  rw [isPrivateAddress, Literal.text, withoutBrackets_bracketed Address.openBracket_not_mem
    Address.closeBracket_not_mem]
  cases address with
  | quad q =>
    have read : parseV4 q.text = some (quadBits q) := parseV4_eq_some_iff.mpr ⟨q, rfl, rfl⟩
    simp only [Address.text, read, isPrivate]
  | groups layout =>
    have apart : parseV4 layout.text = none := by
      rw [Option.eq_none_iff_forall_ne_some]
      intro address read
      obtain ⟨q, same, -⟩ := parseV4_eq_some_iff.mp read
      exact q.colon_not_mem (same ▸ Layout.Fits.colon_mem fits)
    simp only [Address.text, apart, parseV6_text fits, isPrivate]

/-- **A text is found public** exactly when it is a literal that fits, with a public address. -/
theorem isPrivateAddress_eq_false_iff {text : Text} :
    isPrivateAddress text = false ↔
      ∃ literal : Literal, literal.text = text ∧ literal.address.Fits ∧
        isPrivate literal.address = false := by
  constructor
  · intro verdict
    obtain ⟨opened, closed, whole⟩ := exists_bracketed text
    have known : ∃ address : Address, address.text = withoutBrackets text ∧ address.Fits := by
      unfold isPrivateAddress at verdict
      dsimp only at verdict
      split at verdict
      · rename_i read
        obtain ⟨q, same, -⟩ := parseV4_eq_some_iff.mp read
        exact ⟨.quad q, same, trivial⟩
      · split at verdict
        · cases verdict
        · rename_i read
          obtain ⟨layout, fits, same, -⟩ := parseV6_eq_some_iff.mp read
          exact ⟨.groups layout, same, fits⟩
    obtain ⟨address, same, fits⟩ := known
    have literal : (Literal.mk opened closed address).text = text := by
      rw [Literal.text, same, whole]
    refine ⟨⟨opened, closed, address⟩, literal, fits, ?_⟩
    rw [← @isPrivateAddress_text ⟨opened, closed, address⟩ fits, literal, verdict]
  · rintro ⟨literal, rfl, fits, verdict⟩
    rw [isPrivateAddress_text fits, verdict]

/-! ## Mapped addresses -/

/-- The groups of the IPv6 address that a quad is mapped to. -/
def mapped (q : Quad) : List ℕ := [0, 0, 0, 0, 0, 0xFFFF, q.high, q.low]

/-- **A mapped address has the verdict of the address in it.** -/
theorem isPrivateV6_mapped (q : Quad) :
    isPrivateV6 (mapped q) = privateV4.any (inRange (quadBits q)) := by
  have bytes : ∀ {first second : ℕ}, second < 0x100 →
      (first * 0x100 + second) >>> 8 = first ∧ (first * 0x100 + second) &&& 0xFF = second := by
    intro first second small
    have mask : 0xFF = 2 ^ 8 - 1 := rfl
    rw [Nat.shiftRight_eq_div_pow, mask, Nat.and_two_pow_sub_one_eq_mod]
    omega
  have high : q.high >>> 8 = q.a.value ∧ q.high &&& 0xFF = q.b.value := bytes q.b.value_lt
  have low : q.low >>> 8 = q.c.value ∧ q.low &&& 0xFF = q.d.value := bytes q.d.value_lt
  have bits : v4 (q.high >>> 8) (q.high &&& 0xFF) (q.low >>> 8) (q.low &&& 0xFF) = quadBits q := by
    rw [high.1, high.2, low.1, low.2, quadBits]
  rw [← bits]
  rfl

/-! ## The check -/

/-- A text of an address; `zeros` says whether zeros may lead an octet. -/
def IsAddress (zeros : Bool) (text : Text) : Prop :=
  ∃ literal : Literal, literal.text = text ∧ literal.Standard zeros

/-- A text that is not one of an address, but is read as one that is public: a bracket without
the other one or around a quad, `::` beside eight groups, or an octet that zeros may not lead. -/
def Lookalike (zeros : Bool) (text : Text) : Prop :=
  ∃ literal : Literal, literal.text = text ∧ literal.address.Fits ∧
    isPrivate literal.address = false ∧ ¬ literal.Standard zeros

/-- **Every text that is not an address is found private**, but for the lookalikes. -/
theorem private_unless_iff {zeros : Bool} {text : Text} :
    (¬ IsAddress zeros text → isPrivateAddress text = true) ↔ ¬ Lookalike zeros text := by
  constructor
  · rintro safe ⟨literal, rfl, fits, reached, other⟩
    have foreign : ¬ IsAddress zeros literal.text := by
      rintro ⟨literal', same, standard⟩
      exact other (Literal.text_inj standard.fits fits same ▸ standard)
    have verdict := safe foreign
    rw [isPrivateAddress_text fits, reached] at verdict
    cases verdict
  · intro genuine foreign
    by_contra verdict
    obtain ⟨literal, same, fits, reached⟩ :=
      isPrivateAddress_eq_false_iff.mp (Bool.eq_false_iff.mpr verdict)
    exact genuine ⟨literal, same, fits, reached, fun standard => foreign ⟨literal, same, standard⟩⟩

/-- Every eight groups are those of a text of an address. -/
theorem exists_standard {values : List ℕ} (eight : values.length = 8)
    (small : ∀ v ∈ values, v < 0x10 ^ 4) : ∃ layout : Layout, layout.Standard ∧ layout.values = values := by
  obtain ⟨groups, rfl⟩ : ∃ groups : List HexGroup, groups.map HexGroup.value = values := by
    clear eight
    induction values with
    | nil => exact ⟨[], rfl⟩
    | cons v values ih =>
      obtain ⟨first, others⟩ := List.forall_mem_cons.mp small
      obtain ⟨groups, rfl⟩ := ih others
      exact ⟨.ofNat first :: groups, congrArg (· :: _) (HexGroup.value_ofNat first)⟩
  refine ⟨.full ⟨groups, none⟩, ?_, Run.values_bare groups⟩
  rw [Layout.Standard, Run.values_bare, eight]

/-- **The check depends on the address alone**: every text of an IPv6 address is read as its
groups, and all of them have one verdict, which for a mapped address is that of the address in
it. A text that is not one of an address is found private unless it is a lookalike. -/
theorem private_check_exact (zeros : Bool) :
    (∀ layout : Layout, layout.Standard → parseV6 layout.text = some layout.values) ∧
    (∀ first second : Layout, first.Standard → second.Standard → first.values = second.values →
      isPrivateAddress first.text = isPrivateAddress second.text) ∧
    (∀ (layout : Layout) (q : Quad), layout.Standard → layout.values = mapped q →
      isPrivateAddress layout.text = isPrivateAddress q.text) ∧
    ∀ text, (¬ IsAddress zeros text → isPrivateAddress text = true) ↔ ¬ Lookalike zeros text := by
  have verdict : ∀ layout : Layout, layout.Standard →
      isPrivateAddress layout.text = isPrivateV6 layout.values := by
    intro layout standard
    have literal : (Literal.mk false false (.groups layout)).text = layout.text :=
      List.append_nil _
    rw [← literal]
    exact @isPrivateAddress_text ⟨false, false, .groups layout⟩ standard.fits
  refine ⟨fun layout standard => parseV6_text standard.fits, ?_, ?_,
    fun text => private_unless_iff⟩
  · intro first second standard standard' same
    rw [verdict first standard, verdict second standard', same]
  · intro layout q standard same
    have literal : (Literal.mk false false (.quad q)).text = q.text := List.append_nil _
    rw [verdict layout standard, same, isPrivateV6_mapped, ← literal]
    exact (@isPrivateAddress_text ⟨false, false, .quad q⟩ trivial).symm

def tenOctet : Octet :=
  ⟨Text.lit "10", by decide, by decide, List.all_eq_true.mp (by decide), by decide⟩

def zeroOctet : Octet :=
  ⟨Text.lit "0", by decide, by decide, List.all_eq_true.mp (by decide), by decide⟩

def oneOctet : Octet :=
  ⟨Text.lit "1", by decide, by decide, List.all_eq_true.mp (by decide), by decide⟩

/-- `10.0.0.1`. -/
def tenQuad : Quad := ⟨tenOctet, zeroOctet, zeroOctet, oneOctet⟩

theorem small_last : 0xFFFF < 0x10 ^ 4 := by norm_num

/-- `::ffff:10.0.0.1`. -/
def embeddedTen : Layout := .compressed [] ⟨[.ofNat small_last], some tenQuad⟩

theorem values_embeddedTen : embeddedTen.values = mapped tenQuad := by decide +kernel

/-- The private address `10.0.0.1`, mapped, in eight groups and in a compressed text. -/
theorem mapped_ten_private : ∃ layout : Layout, layout.values = mapped tenQuad ∧
    parseV6 layout.text = some (mapped tenQuad) ∧
    isPrivateAddress layout.text = isPrivateAddress embeddedTen.text ∧
    isPrivateAddress layout.text = true := by
  obtain ⟨layout, standard, values⟩ := @exists_standard (mapped tenQuad) rfl (by decide +kernel)
  have embedded : embeddedTen.Standard := by
    have three : 0 + 3 ≤ 7 := by decide
    exact three
  obtain ⟨read, alike, mappedAlike, -⟩ := private_check_exact true
  refine ⟨layout, values, (read layout standard).trans (congrArg _ values),
    alike layout embeddedTen standard embedded (values.trans values_embeddedTen.symm), ?_⟩
  rw [mappedAlike layout tenQuad standard values]
  decide +kernel

/-! ## Eight groups and `::` -/

/-- `2606:4700:1:1::1:1:1:1`. -/
def nineParts : Text := Text.lit "2606:4700:1:1::1:1:1:1"

theorem small_one : 1 < 0x10 ^ 4 := by norm_num
theorem small_first : 0x2606 < 0x10 ^ 4 := by norm_num
theorem small_second : 0x4700 < 0x10 ^ 4 := by norm_num

def one : HexGroup := .ofNat small_one

def ninePartsLayout : Layout :=
  .compressed [.ofNat small_first, .ofNat small_second, one, one] ⟨[one, one, one, one], none⟩

theorem fits_ninePartsLayout : ninePartsLayout.Fits := le_rfl

theorem text_ninePartsLayout :
    (Literal.mk false false (.groups ninePartsLayout)).text = nineParts := by decide +kernel

/-- **Eight groups and `::`** are not an address, and are found public. -/
theorem nineParts_public :
    ¬ IsAddress true nineParts ∧ isPrivateAddress nineParts = false := by
  constructor
  · rintro ⟨literal, same, standard⟩
    have known := @Literal.text_inj literal ⟨false, false, .groups ninePartsLayout⟩ standard.fits
      fits_ninePartsLayout (same.trans text_ninePartsLayout.symm)
    subst known
    have seven : 4 + 4 ≤ 7 := standard.1.2
    exact absurd seven (by decide)
  · decide +kernel

end Koklo.Llm
