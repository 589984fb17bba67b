import Koklo.Foundations.Base64
import Koklo.Foundations.Uuid

/-!
# Texts that JSON writes as they are

A text of visible ASCII without quotes and backslashes is its own JSON string, between quotes
(`jsonString_of_bare`): the digits of base64 are such texts, and UUIDs too.
-/

set_option autoImplicit false

namespace Koklo.Foundations.Text

/-- A visible ASCII code unit that JSON does not escape. -/
def isBareUnit (u : CodeUnit) : Bool := 0x20 ≤ u.val && u.val < 0x7F && u.val ≠ 0x22 && u.val ≠ 0x5C

/-- A text of bare code units. -/
def IsBare (t : Text) : Prop := ∀ u ∈ t, isBareUnit u = true

theorem isBareUnit_iff {u : CodeUnit} : isBareUnit u = true ↔
    0x20 ≤ u.val ∧ u.val < 0x7F ∧ u.val ≠ 0x22 ∧ u.val ≠ 0x5C := by
  rw [isBareUnit, Bool.and_eq_true, Bool.and_eq_true, Bool.and_eq_true, decide_eq_true_eq,
    decide_eq_true_eq, decide_eq_true_eq, decide_eq_true_eq, and_assoc, and_assoc]

theorem IsBare.ascii {t : Text} (bare : IsBare t) : IsAscii t := fun u member =>
  (isBareUnit_iff.mp (bare u member)).2.1.trans (by decide)

theorem jsonUnit_of_bare {u : CodeUnit} (bare : isBareUnit u = true) : jsonUnit u = [u] := by
  obtain ⟨visible, ascii, quote, backslash⟩ := isBareUnit_iff.mp bare
  have apart : ∀ v : CodeUnit, (v.val < 0x20 ∨ v.val = 0x22 ∨ v.val = 0x5C) → u ≠ v := by
    rintro v few rfl
    omega
  have plain : (u < 0x20 || isHighSurrogate u || isLowSurrogate u) = false := by
    simp only [isHighSurrogate, isLowSurrogate, Bool.or_eq_false_iff, Bool.and_eq_false_iff,
      decide_eq_false_iff_not, Fin.lt_def, Fin.le_def]
    refine ⟨⟨?_, .inl ?_⟩, .inl ?_⟩
    · change ¬ u.val < 0x20
      omega
    · change ¬ 0xD800 ≤ u.val
      omega
    · change ¬ 0xDC00 ≤ u.val
      omega
  rw [jsonUnit, if_neg (apart 0x08 (by decide)), if_neg (apart 0x09 (by decide)),
    if_neg (apart 0x0A (by decide)), if_neg (apart 0x0C (by decide)),
    if_neg (apart 0x0D (by decide)), if_neg (apart 0x22 (by decide)),
    if_neg (apart 0x5C (by decide)), if_neg (by rw [plain]; exact Bool.false_ne_true)]

/-- **A bare text is its own JSON string**, between quotes. -/
theorem jsonString_of_bare {t : Text} (bare : IsBare t) : jsonString t = 0x22 :: t ++ [0x22] := by
  have body : jsonBody t = t := by
    induction t using jsonBody.induct with
    | case1 => rfl
    | case2 u => exact jsonUnit_of_bare (bare u List.mem_cons_self)
    | case3 u v t pair ih =>
      rw [jsonBody, if_pos pair, ih fun w member =>
        bare w (List.mem_cons_of_mem _ (List.mem_cons_of_mem _ member))]
    | case4 u v t alone ih =>
      rw [jsonBody, if_neg alone, jsonUnit_of_bare (bare u List.mem_cons_self),
        ih fun w member => bare w (List.mem_cons_of_mem _ member)]
      rfl
  rw [jsonString, body]

/-- A base64 digit is bare, and no dot. -/
theorem bare_base64Digit {n : ℕ} (small : n < 64) :
    isBareUnit (base64Digit n) = true ∧ base64Digit n ≠ 0x2E := by
  interval_cases n <;> decide

/-- **The digits of bytes** are bare, without dots, and at most two for each byte. -/
theorem base64url_digits (bytes : List Byte) :
    (∀ u ∈ base64url bytes, isBareUnit u = true ∧ u ≠ 0x2E) ∧
      (base64url bytes).length = (4 * bytes.length + 2) / 3 := by
  induction bytes using base64url.induct with
  | case1 a b c rest ih =>
    have first := a.isLt
    have second := b.isLt
    have third := c.isLt
    refine ⟨?_, ?_⟩
    · rw [base64url]
      simp only [List.forall_mem_cons]
      exact ⟨bare_base64Digit (by omega), bare_base64Digit (by omega), bare_base64Digit (by omega),
        bare_base64Digit (by omega), ih.1⟩
    · rw [base64url, List.length_cons, List.length_cons, List.length_cons, List.length_cons, ih.2,
        List.length_cons, List.length_cons, List.length_cons]
      omega
  | case2 a b =>
    have first := a.isLt
    have second := b.isLt
    refine ⟨?_, by simp [base64url]⟩
    rw [base64url]
    simp only [List.forall_mem_cons, List.not_mem_nil, false_implies, implies_true, and_true]
    exact ⟨bare_base64Digit (by omega), bare_base64Digit (by omega), bare_base64Digit (by omega)⟩
  | case3 a =>
    have first := a.isLt
    refine ⟨?_, by simp [base64url]⟩
    rw [base64url]
    simp only [List.forall_mem_cons, List.not_mem_nil, false_implies, implies_true, and_true]
    exact ⟨bare_base64Digit (by omega), bare_base64Digit (by omega)⟩
  | case4 => exact ⟨fun u member => absurd member List.not_mem_nil, rfl⟩

theorem isBare_base64url (bytes : List Byte) : IsBare (base64url bytes) :=
  fun u member => ((base64url_digits bytes).1 u member).1

/-- A UUID is bare. -/
theorem isBare_of_isUuid {t : Text} (uuid : isUuid t = true) : IsBare t := by
  intro u member
  rcases Uuid.isHexDigit_or ⟨t, uuid⟩ member with rfl | hex
  · decide
  · simp only [isHexDigit, isDigit, Bool.or_eq_true, Bool.and_eq_true, decide_eq_true_eq,
      Fin.le_def] at hex
    have bounds : (0x30 ≤ u.val ∧ u.val ≤ 0x39) ∨ (0x41 ≤ u.val ∧ u.val ≤ 0x46) ∨
        (0x61 ≤ u.val ∧ u.val ≤ 0x66) := by
      rcases hex with (digit | upper) | lower
      · exact .inl digit
      · exact .inr (.inl upper)
      · exact .inr (.inr lower)
    exact isBareUnit_iff.mpr (by omega)

/-- A UUID has 36 code units. -/
theorem length_of_isUuid {t : Text} (uuid : isUuid t = true) : t.length = 36 := by
  rw [isUuid, Bool.and_eq_true, decide_eq_true_eq] at uuid
  have whole : [hyphen].intercalate (t.splitOn hyphen) = t := List.intercalate_splitOn hyphen
  obtain ⟨a, b, c, d, e, pieces⟩ : ∃ a b c d e, t.splitOn hyphen = [a, b, c, d, e] := by
    have count := congrArg List.length uuid.1
    rw [List.length_map] at count
    have nonempty : 0 < (t.splitOn hyphen).length := count ▸ Nat.succ_pos 4
    obtain ⟨a, rest, whole⟩ := List.exists_cons_of_length_pos nonempty
    rw [whole, List.length_cons] at count
    obtain ⟨b, c, d, e, rfl⟩ := List.length_eq_four.mp (Nat.succ.inj count)
    exact ⟨a, b, c, d, e, whole⟩
  rw [pieces] at uuid whole
  have lengths := uuid.1
  simp only [List.map_cons, List.map_nil, List.cons.injEq, and_true] at lengths
  obtain ⟨la, lb, lc, ld, le⟩ := lengths
  rw [← whole]
  simp only [List.intercalate_cons_cons, List.intercalate_singleton, List.length_append,
    List.length_cons, List.length_nil, la, lb, lc, ld, le]

/-! ## Texts by their bytes -/

/-- The bytes of a code point that is not ASCII are not all ASCII. -/
theorem high_scalarBytes {n : ℕ} (high : 0x80 ≤ n) (scalar : n < 0x110000) :
    ∃ b ∈ scalarBytes n, 0x80 ≤ b.val := by
  have byte : ∀ m : ℕ, 0x80 ≤ m → m < 0x100 → 0x80 ≤ (Fin.ofNat 0x100 m).val := by
    intro m low small
    rw [Fin.val_ofNat, Nat.mod_eq_of_lt small]
    exact low
  rw [scalarBytes, if_neg (by omega)]
  split
  · exact ⟨_, List.mem_cons_self, byte _ (by omega) (by omega)⟩
  split
  · exact ⟨_, List.mem_cons_self, byte _ (by omega) (by omega)⟩
  · exact ⟨_, List.mem_cons_self, byte _ (by omega) (by omega)⟩

/-- A unit whose bytes are ASCII is ASCII. -/
theorem ascii_of_unitBytes {u : CodeUnit} (low : ∀ b ∈ unitBytes u, b.val < 0x80) :
    u.val < 0x80 := by
  by_contra high
  rw [unitBytes] at low
  split at low
  · obtain ⟨b, member, large⟩ := @high_scalarBytes replacement.val (by decide) (by decide)
    exact absurd (low b member) (not_lt.mpr large)
  · have small := u.isLt
    obtain ⟨b, member, large⟩ := @high_scalarBytes u.val (by omega) (by omega)
    exact absurd (low b member) (not_lt.mpr large)

/-- A text whose bytes are ASCII is ASCII. -/
theorem isAscii_of_utf8 {t : Text} (low : ∀ b ∈ utf8 t, b.val < 0x80) : IsAscii t := by
  induction t using utf8.induct with
  | case1 => exact fun u member => absurd member List.not_mem_nil
  | case2 u =>
    intro v member
    rw [List.mem_singleton.mp member]
    exact ascii_of_unitBytes low
  | case3 u v rest pair ih =>
    rw [utf8, if_pos pair] at low
    have first := u.isLt
    have second := v.isLt
    simp only [isHighSurrogate, isLowSurrogate, Bool.and_eq_true, decide_eq_true_eq,
      Fin.le_def] at pair
    obtain ⟨⟨above, below⟩, _, under⟩ := pair
    change 0xD800 ≤ u.val at above
    change u.val ≤ 0xDBFF at below
    change v.val ≤ 0xDFFF at under
    obtain ⟨b, member, large⟩ := @high_scalarBytes
      (0x10000 + (u.val - 0xD800) * 0x400 + (v.val - 0xDC00)) (by omega) (by omega)
    exact absurd (low b (List.mem_append_left _ member)) (not_lt.mpr large)
  | case4 u v rest alone ih =>
    rw [utf8, if_neg alone] at low
    have tail := ih fun b member => low b (List.mem_append_right _ member)
    intro w member
    rcases List.mem_cons.mp member with rfl | later
    · exact ascii_of_unitBytes fun b within => low b (List.mem_append_left _ within)
    · exact tail w later

/-- **An ASCII text is the only one with its bytes.** -/
theorem eq_of_utf8 {s t : Text} (ascii : IsAscii t) (same : utf8 s = utf8 t) : s = t := by
  have low : ∀ b ∈ utf8 s, b.val < 0x80 := by
    intro b member
    rw [same, utf8_ascii ascii] at member
    obtain ⟨u, known, rfl⟩ := List.mem_map.mp member
    have small := ascii u known
    rw [Fin.val_ofNat, Nat.mod_eq_of_lt (by omega)]
    exact small
  rw [← ofUtf8_utf8 (isAscii_of_utf8 low), same, ofUtf8_utf8 ascii]

end Koklo.Foundations.Text
