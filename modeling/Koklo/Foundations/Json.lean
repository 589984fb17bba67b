import Koklo.Foundations.Text

/-!
# JSON texts

A text is written as a JSON string between double quotes: quotes, backslashes and
control code units are escaped, and so are the surrogates that are not part of a pair.
A JSON string has no line break (`not_mem_jsonString`).
-/

set_option autoImplicit false

namespace Koklo.Foundations.Text

/-- The lower-case hexadecimal digit of a number below sixteen. -/
def hexDigit (n : ℕ) : CodeUnit := Fin.ofNat _ (if n < 10 then 0x30 + n else 0x57 + n)

/-- `\u` and four hexadecimal digits. -/
def unicodeEscape (u : CodeUnit) : Text :=
  [0x5C, 0x75, hexDigit (u.val / 0x1000 % 0x10), hexDigit (u.val / 0x100 % 0x10),
    hexDigit (u.val / 0x10 % 0x10), hexDigit (u.val % 0x10)]

def isHighSurrogate (u : CodeUnit) : Bool := 0xD800 ≤ u && u ≤ 0xDBFF

def isLowSurrogate (u : CodeUnit) : Bool := 0xDC00 ≤ u && u ≤ 0xDFFF

/-- One code unit in a JSON string, outside a pair of surrogates. -/
def jsonUnit (u : CodeUnit) : Text :=
  if u = 0x08 then lit "\\b"
  else if u = 0x09 then lit "\\t"
  else if u = 0x0A then lit "\\n"
  else if u = 0x0C then lit "\\f"
  else if u = 0x0D then lit "\\r"
  else if u = 0x22 then lit "\\\""
  else if u = 0x5C then lit "\\\\"
  else if u < 0x20 || isHighSurrogate u || isLowSurrogate u then unicodeEscape u
  else [u]

/-- What stands between the quotes of a JSON string. -/
def jsonBody : Text → Text
  | [] => []
  | [u] => jsonUnit u
  | u :: v :: rest =>
    if isHighSurrogate u && isLowSurrogate v then u :: v :: jsonBody rest
    else jsonUnit u ++ jsonBody (v :: rest)

/-- `JSON.stringify` of a text. -/
def jsonString (t : Text) : Text := 0x22 :: jsonBody t ++ [0x22]

/-- A visible code unit that is not a control: what a JSON string is made of. -/
theorem hexDigit_ge {n : ℕ} (small : n < 0x10) : 0x20 ≤ hexDigit n := by
  simp only [hexDigit, Fin.le_def]
  split
  · rename_i digit
    show 0x20 ≤ (0x30 + n) % 0x10000
    omega
  · show 0x20 ≤ (0x57 + n) % 0x10000
    omega

theorem jsonUnit_ge {u v : CodeUnit} (member : v ∈ jsonUnit u) : 0x20 ≤ v := by
  have escaped : ∀ t : Text, t.all (0x20 ≤ ·) = true → v ∈ t → 0x20 ≤ v := fun t all inside =>
    of_decide_eq_true (List.all_eq_true.mp all v inside)
  unfold jsonUnit at member
  split at member
  · exact escaped _ (by decide) member
  split at member
  · exact escaped _ (by decide) member
  split at member
  · exact escaped _ (by decide) member
  split at member
  · exact escaped _ (by decide) member
  split at member
  · exact escaped _ (by decide) member
  split at member
  · exact escaped _ (by decide) member
  split at member
  · exact escaped _ (by decide) member
  split at member
  · have inside := member
    simp only [unicodeEscape, List.mem_cons, List.not_mem_nil, or_false] at inside
    rcases inside with rfl | rfl | rfl | rfl | rfl | rfl
    · decide
    · decide
    all_goals exact hexDigit_ge (Nat.mod_lt _ (by decide))
  · rename_i plain
    rw [List.mem_singleton.mp member]
    simp only [Bool.or_eq_true, decide_eq_true_eq, not_or] at plain
    exact not_lt.mp plain.1.1

theorem isHighSurrogate_ge {u : CodeUnit} (high : isHighSurrogate u = true) : 0x20 ≤ u := by
  simp only [isHighSurrogate, Bool.and_eq_true, decide_eq_true_eq] at high
  exact le_trans (by decide) high.1

theorem isLowSurrogate_ge {u : CodeUnit} (low : isLowSurrogate u = true) : 0x20 ≤ u := by
  simp only [isLowSurrogate, Bool.and_eq_true, decide_eq_true_eq] at low
  exact le_trans (by decide) low.1

theorem jsonBody_ge {t : Text} : ∀ v ∈ jsonBody t, 0x20 ≤ v := by
  induction t using jsonBody.induct with
  | case1 => exact fun v member => absurd member List.not_mem_nil
  | case2 u => exact fun v member => jsonUnit_ge member
  | case3 u v rest pair ih =>
    rw [jsonBody, if_pos pair]
    rw [Bool.and_eq_true] at pair
    exact List.forall_mem_cons.mpr ⟨isHighSurrogate_ge pair.1,
      List.forall_mem_cons.mpr ⟨isLowSurrogate_ge pair.2, ih⟩⟩
  | case4 u v rest alone ih =>
    rw [jsonBody, if_neg alone]
    intro w member
    rcases List.mem_append.mp member with first | later
    · exact jsonUnit_ge first
    · exact ih w later

/-- **A JSON string has no control code unit**, and no line break in particular. -/
theorem not_mem_jsonString {t : Text} {u : CodeUnit} (control : u < 0x20) : u ∉ jsonString t := by
  intro member
  have all : ∀ v ∈ jsonString t, 0x20 ≤ v := by
    intro v inside
    rcases List.mem_append.mp inside with body | quote
    · rcases List.mem_cons.mp body with rfl | body
      · decide
      · exact jsonBody_ge v body
    · rw [List.mem_singleton.mp quote]
      decide
  exact absurd (all u member) (not_le.mpr control)

end Koklo.Foundations.Text
