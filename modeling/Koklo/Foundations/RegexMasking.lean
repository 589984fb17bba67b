import Koklo.Foundations.Masking
import Koklo.Foundations.Regex

/-!
# Masking the matches of a regular expression

What an expression consumes does not depend on what follows (`exists_consumes`), so that its
matches are the lists that it consumes (`Consumes`). When none of them overlaps the mask, none
is left after one pass (`not_infix_of_consumes`).
-/

set_option autoImplicit false

namespace Koklo.Foundations.Regex

universe u

variable {α : Type u} [DecidableEq α]

/-- The expression can consume the list, whatever follows. -/
def Consumes (r : Regex α) (list : List α) : Prop :=
  ∀ rest, ∃ captures, (captures, rest) ∈ outcomes r (list ++ rest)

/-- **What an outcome has consumed** is consumed whatever follows. -/
theorem exists_consumes {r : Regex α} {s : List α} {o : Outcome α} (member : o ∈ outcomes r s) :
    ∃ list, s = list ++ o.2 ∧ Consumes r list := by
  induction r generalizing s o with
  | unit test =>
    obtain ⟨_, a, passes, rfl⟩ := mem_outcomes_unit.mp member
    exact ⟨[a], rfl, fun rest => ⟨[], mem_outcomes_unit.mpr ⟨rfl, a, passes, rfl⟩⟩⟩
  | text t =>
    obtain ⟨_, rfl⟩ := mem_outcomes_text.mp member
    exact ⟨t, rfl, fun rest => ⟨[], mem_outcomes_text.mpr ⟨rfl, rfl⟩⟩⟩
  | greedy least test =>
    obtain ⟨_, run, rfl, enough, all⟩ := mem_outcomes_greedy.mp member
    exact ⟨run, rfl, fun rest => ⟨[], mem_outcomes_greedy.mpr ⟨rfl, run, rfl, enough, all⟩⟩⟩
  | lazy least test =>
    obtain ⟨_, run, rfl, enough, all⟩ := mem_outcomes_lazy.mp member
    exact ⟨run, rfl, fun rest => ⟨[], mem_outcomes_lazy.mpr ⟨rfl, run, rfl, enough, all⟩⟩⟩
  | capture r ih =>
    obtain ⟨inner, taken, rfl⟩ := mem_outcomes_capture.mp member
    obtain ⟨list, rfl, consumes⟩ := ih taken
    refine ⟨list, rfl, fun rest => ?_⟩
    obtain ⟨captures, again⟩ := consumes rest
    exact ⟨_, mem_outcomes_capture.mpr ⟨_, again, rfl⟩⟩
  | seq p q ihp ihq =>
    obtain ⟨first, taken, second, taken', rfl⟩ := mem_outcomes_seq.mp member
    obtain ⟨list, rfl, consumes⟩ := ihp taken
    obtain ⟨more, split, consumes'⟩ := ihq taken'
    refine ⟨list ++ more, by rw [split, List.append_assoc], fun rest => ?_⟩
    obtain ⟨captures, again⟩ := consumes (more ++ rest)
    obtain ⟨captures', again'⟩ := consumes' rest
    refine ⟨captures ++ captures',
      mem_outcomes_seq.mpr ⟨(captures, more ++ rest), ?_, (captures', rest), again', rfl⟩⟩
    rwa [List.append_assoc]

theorem consumes_unit_iff {test : α → Bool} {list : List α} :
    Consumes (.unit test) list ↔ ∃ a, test a = true ∧ list = [a] := by
  constructor
  · intro consumes
    obtain ⟨_, member⟩ := consumes []
    obtain ⟨_, a, passes, shape⟩ := mem_outcomes_unit.mp member
    exact ⟨a, passes, by rwa [List.append_nil] at shape⟩
  · rintro ⟨a, passes, rfl⟩ rest
    exact ⟨[], mem_outcomes_unit.mpr ⟨rfl, a, passes, rfl⟩⟩

theorem consumes_text_iff {t list : List α} : Consumes (.text t) list ↔ list = t := by
  constructor
  · intro consumes
    obtain ⟨_, member⟩ := consumes []
    exact List.append_cancel_right (mem_outcomes_text.mp member).2
  · rintro rfl rest
    exact ⟨[], mem_outcomes_text.mpr ⟨rfl, rfl⟩⟩

theorem consumes_greedy_iff {least : ℕ} {test : α → Bool} {list : List α} :
    Consumes (.greedy least test) list ↔ least ≤ list.length ∧ ∀ a ∈ list, test a = true := by
  constructor
  · intro consumes
    obtain ⟨_, member⟩ := consumes []
    obtain ⟨_, run, shape, enough, all⟩ := mem_outcomes_greedy.mp member
    rw [List.append_cancel_right shape]
    exact ⟨enough, all⟩
  · rintro ⟨enough, all⟩ rest
    exact ⟨[], mem_outcomes_greedy.mpr ⟨rfl, list, rfl, enough, all⟩⟩

theorem consumes_lazy_iff {least : ℕ} {test : α → Bool} {list : List α} :
    Consumes (.lazy least test) list ↔ least ≤ list.length ∧ ∀ a ∈ list, test a = true := by
  constructor
  · intro consumes
    obtain ⟨_, member⟩ := consumes []
    obtain ⟨_, run, shape, enough, all⟩ := mem_outcomes_lazy.mp member
    rw [List.append_cancel_right shape]
    exact ⟨enough, all⟩
  · rintro ⟨enough, all⟩ rest
    exact ⟨[], mem_outcomes_lazy.mpr ⟨rfl, list, rfl, enough, all⟩⟩

/-- **A sequence consumes what its parts consume, one after the other.** -/
theorem consumes_seq_iff {p q : Regex α} {list : List α} : Consumes (.seq p q) list ↔
    ∃ first second, list = first ++ second ∧ Consumes p first ∧ Consumes q second := by
  constructor
  · intro consumes
    obtain ⟨_, member⟩ := consumes []
    obtain ⟨one, taken, two, taken', same⟩ := mem_outcomes_seq.mp member
    obtain ⟨first, split, consumes⟩ := exists_consumes taken
    obtain ⟨second, split', consumes'⟩ := exists_consumes taken'
    rw [← (Prod.mk.inj same).2, List.append_nil] at split'
    rw [List.append_nil, split'] at split
    exact ⟨first, second, split, consumes, consumes'⟩
  · rintro ⟨first, second, rfl, consumes, consumes'⟩ rest
    obtain ⟨captures, member⟩ := consumes (second ++ rest)
    obtain ⟨captures', member'⟩ := consumes' rest
    refine ⟨captures ++ captures',
      mem_outcomes_seq.mpr ⟨(captures, second ++ rest), ?_, (captures', rest), member', rfl⟩⟩
    rwa [List.append_assoc]

/-! ## The first match at a place -/

/-- The length of the first outcome. -/
def finder (r : Regex α) : Masking.Finder α := fun _ list =>
  (preferred r list fun o => some (list.length - o.2.length)).getD 0

theorem finder_sound (r : Regex α) : (finder r).Sound := by
  intro before list
  rw [finder]
  cases found : preferred r list fun o => some (list.length - o.2.length) with
  | none => exact Nat.zero_le _
  | some n =>
    obtain ⟨o, _, same⟩ := List.exists_of_findSome?_eq_some found
    cases same
    exact Nat.sub_le _ _

/-- What matches has been consumed. -/
theorem exists_of_finder {r : Regex α} {before : Option α} {list : List α}
    (found : 0 < finder r before list) :
    ∃ matched rest, list = matched ++ rest ∧ Consumes r matched ∧
      matched.length = finder r before list := by
  rw [finder] at found ⊢
  cases first : preferred r list fun o => some (list.length - o.2.length) with
  | none =>
    rw [first] at found
    exact absurd found (Nat.lt_irrefl 0)
  | some n =>
    obtain ⟨o, member, same⟩ := List.exists_of_findSome?_eq_some first
    cases same
    obtain ⟨matched, rfl, consumes⟩ := exists_consumes member
    refine ⟨matched, o.2, rfl, consumes, ?_⟩
    rw [Option.getD_some, List.length_append, Nat.add_sub_cancel]

/-- What can be consumed matches, when nothing is consumed by the empty list. -/
theorem finder_pos {r : Regex α} (some : ¬ Consumes r []) {list : List α} (consumes : Consumes r list)
    (before : Option α) (rest : List α) : 0 < finder r before (list ++ rest) := by
  obtain ⟨captures, member⟩ := consumes rest
  rw [finder]
  cases first : preferred r (list ++ rest) fun o => Option.some ((list ++ rest).length - o.2.length) with
  | none => cases preferred_eq_none.mp first _ member
  | some n =>
    obtain ⟨o, taken, same⟩ := List.exists_of_findSome?_eq_some first
    cases same
    obtain ⟨matched, split, consumes'⟩ := exists_consumes taken
    have nonempty : matched ≠ [] := fun empty => some (empty ▸ consumes')
    have size := List.length_pos_of_ne_nil nonempty
    rw [split, List.length_append, Option.getD_some]
    omega

/-- **No match is left** after one pass, when the matches do not overlap the mask. -/
theorem not_infix_of_consumes {r : Regex α} {mask : List α} (some : ¬ Consumes r [])
    {list : List α} (consumes : Consumes r list) (apart : Masking.Apart mask list)
    {before : Option α} {whole : List α} :
    ¬ list <:+: Masking.replaceFrom (finder r) mask before 0 whole := by
  have nonempty : list ≠ [] := fun empty => some (empty ▸ consumes)
  exact Masking.not_infix_replaceFrom (finder_sound r) apart nonempty (finder_pos some consumes)

/-! ## What a text bears -/

/-- A match stands somewhere in the list. -/
def Bears (r : Regex α) (list : List α) : Prop := ∃ matched, r.Consumes matched ∧ matched <:+: list

/-- What bears no match is left as it is. -/
theorem replaceFrom_of_not_bears {r : Regex α} {mask : List α} {before : Option α} {list : List α}
    (absent : ¬ r.Bears list) : Masking.replaceFrom (finder r) mask before 0 list = list := by
  apply Masking.replaceFrom_of_none
  rintro first last rfl _
  by_contra nonzero
  obtain ⟨matched, rest, rfl, consumes, _⟩ := exists_of_finder (Nat.pos_of_ne_zero nonzero)
  exact absent ⟨matched, consumes, first, rest, List.append_assoc ..⟩

/-- One pass removes the matches, and another mask creates none. -/
structure Settles (r : Regex α) (mask : List α) : Prop where
  removed : ∀ {before : Option α} {list : List α},
    ¬ r.Bears (Masking.replaceFrom (finder r) mask before 0 list)
  kept : ∀ {find : Masking.Finder α} {before : Option α} {list : List α}, find.Sound →
    r.Bears (Masking.replaceFrom find mask before 0 list) → r.Bears list

/-- Matches that do not overlap the mask. -/
theorem Settles.of_apart {r : Regex α} {mask : List α} (some : ¬ Consumes r [])
    (apart : ∀ matched, r.Consumes matched → Masking.Apart mask matched) : r.Settles mask where
  removed := by
    rintro before list ⟨matched, consumes, found⟩
    exact not_infix_of_consumes some consumes (apart matched consumes) found
  kept := by
    rintro find before list sound ⟨matched, consumes, found⟩
    have nonempty : matched ≠ [] := fun empty => some (empty ▸ consumes)
    exact ⟨matched, consumes,
      Masking.infix_of_infix_replaceFrom sound (apart matched consumes) nonempty found⟩

/-- From a header to a footer. -/
def block (header footer : Regex α) : Regex α :=
  .seq header (.seq (.lazy 0 fun _ => true) footer)

theorem consumes_block_iff {header footer : Regex α} {list : List α} :
    (block header footer).Consumes list ↔ ∃ first middle last, list = first ++ (middle ++ last) ∧
      header.Consumes first ∧ footer.Consumes last := by
  rw [block, consumes_seq_iff]
  refine exists_congr fun first => ⟨?_, ?_⟩
  · rintro ⟨second, rfl, opens, rest⟩
    obtain ⟨middle, last, rfl, _, closes⟩ := consumes_seq_iff.mp rest
    exact ⟨middle, last, rfl, opens, closes⟩
  · rintro ⟨middle, last, rfl, opens, closes⟩
    refine ⟨middle ++ last, rfl, opens, consumes_seq_iff.mpr ⟨middle, last, rfl, ?_, closes⟩⟩
    exact consumes_lazy_iff.mpr ⟨Nat.zero_le _, fun _ _ => rfl⟩

/-- A header and a footer that do not overlap the mask stand where they stood. -/
theorem exists_block {header footer : Regex α} {mask : List α} (some : ¬ header.Consumes [])
    (some' : ¬ footer.Consumes []) (apart : ∀ first, header.Consumes first → Masking.Apart mask first)
    (apart' : ∀ last, footer.Consumes last → Masking.Apart mask last) {find : Masking.Finder α}
    (sound : find.Sound) {before : Option α} {list : List α}
    (bears : (block header footer).Bears (Masking.replaceFrom find mask before 0 list)) :
    ∃ start matched rest, list = start ++ (matched ++ rest) ∧
      (block header footer).Consumes matched ∧ find (Masking.endOf before start) (matched ++ rest) = 0 := by
  obtain ⟨_, consumes, masked, after, same⟩ := bears
  obtain ⟨first, middle, last, rfl, opens, closes⟩ := consumes_block_iff.mp consumes
  have nonempty : first ≠ [] := fun empty => some (empty ▸ opens)
  have nonempty' : last ≠ [] := fun empty => some' (empty ▸ closes)
  have shape : Masking.replaceFrom find mask before 0 list =
      masked ++ first ++ (middle ++ last ++ after) := by
    rw [← same]
    simp only [List.append_assoc]
  obtain ⟨start, rest, rfl, none, follows, _⟩ :=
    Masking.exists_of_replaceFrom sound (apart first opens) nonempty shape
  have found : last <:+: Masking.replaceFrom find mask (Masking.endOf before (start ++ first)) 0 rest :=
    ⟨middle, after, follows⟩
  obtain ⟨inner, later, rfl⟩ :=
    Masking.infix_of_infix_replaceFrom sound (apart' last closes) nonempty' found
  refine ⟨start, first ++ (inner ++ last), later, by simp only [List.append_assoc], ?_, ?_⟩
  · exact consumes_block_iff.mpr ⟨first, inner, last, rfl, opens, closes⟩
  · rw [← none]
    simp only [List.append_assoc]

/-- **Blocks settle** when their headers and their footers do not overlap the mask. -/
theorem Settles.block {header footer : Regex α} {mask : List α} (some : ¬ header.Consumes [])
    (some' : ¬ footer.Consumes []) (apart : ∀ first, header.Consumes first → Masking.Apart mask first)
    (apart' : ∀ last, footer.Consumes last → Masking.Apart mask last) :
    (block header footer).Settles mask where
  removed := by
    intro before list bears
    obtain ⟨start, matched, rest, _, consumes, none⟩ :=
      exists_block some some' apart apart' (finder_sound _) bears
    have nonempty : ¬ (Regex.block header footer).Consumes [] := by
      intro empty
      obtain ⟨first, _, _, shape, opens, _⟩ := consumes_block_iff.mp empty
      obtain ⟨rfl, _⟩ := List.append_eq_nil_iff.mp shape.symm
      exact some opens
    exact absurd none (finder_pos nonempty consumes _ rest).ne'
  kept := by
    intro find before list sound bears
    obtain ⟨start, matched, rest, rfl, consumes, _⟩ :=
      exists_block some some' apart apart' sound bears
    exact ⟨matched, consumes, start, rest, List.append_assoc ..⟩

/-! ## Runs -/

/-- A greedy repetition that is accepted as it is takes the whole run. -/
theorem preferred_greedy_all {β : Type*} {least : ℕ} {test : α → Bool} {s : List α}
    (accept : Outcome α → β) :
    preferred (.greedy least test) s (fun o => some (accept o)) =
      if least ≤ (s.takeWhile test).length then some (accept ([], s.dropWhile test)) else none := by
  split
  · rename_i enough
    have split : s = s.takeWhile test ++ s.dropWhile test := List.takeWhile_append_dropWhile.symm
    conv_lhs => rw [split]
    refine preferred_greedy ?_ ?_ enough rfl
    · exact fun a member => List.mem_takeWhile_imp member
    · intro a first
      have stops := List.head?_dropWhile_not test s
      rw [Option.mem_def.mp first] at stops
      simpa using stops
  · rename_i few
    rw [preferred_eq_none]
    intro o member
    obtain ⟨_, run, split, enough, all⟩ := mem_outcomes_greedy.mp member
    have inside : run.length ≤ (s.takeWhile test).length := by
      rw [split, List.takeWhile_append_of_pos all, List.length_append]
      exact Nat.le_add_right _ _
    exact absurd (enough.trans inside) few

/-- **A match that ends with a repetition is not followed by one of its items.** -/
theorem head?_of_finder_seq_greedy {p : Regex α} {least : ℕ} {test : α → Bool} {before : Option α}
    {matched rest : List α} (some : matched ≠ [])
    (found : finder (.seq p (.greedy least test)) before (matched ++ rest) = matched.length) :
    ∀ a ∈ rest.head?, test a = false := by
  rw [finder, preferred_seq] at found
  simp only [preferred_greedy_all] at found
  cases first : preferred p (matched ++ rest) fun o =>
      if least ≤ (o.2.takeWhile test).length then
        Option.some ((matched ++ rest).length - (o.2.dropWhile test).length)
      else none with
  | none =>
    rw [first] at found
    exact absurd (List.eq_nil_of_length_eq_zero found.symm) some
  | some n =>
    rw [first, Option.getD_some] at found
    obtain ⟨o, member, same⟩ := List.exists_of_findSome?_eq_some first
    split at same
    · cases same
      obtain ⟨consumed, split, _⟩ := exists_consumes member
      -- What is left after the run is what follows the match.
      have isEnd : o.2.dropWhile test = rest := by
        have whole : matched ++ rest =
            (consumed ++ o.2.takeWhile test) ++ o.2.dropWhile test := by
          rw [List.append_assoc, List.takeWhile_append_dropWhile, split]
        refine (List.append_inj' whole ?_).2.symm
        have lengths := congrArg List.length whole
        simp only [List.length_append] at lengths found
        omega
      intro a item
      have stops := List.head?_dropWhile_not test o.2
      rw [isEnd, Option.mem_def.mp item] at stops
      simpa using stops
    · cases same

end Koklo.Foundations.Regex
