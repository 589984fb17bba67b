import Koklo.Foundations.RegExp
import Koklo.Foundations.RegexMasking
import Koklo.Foundations.StableSort
import Koklo.Foundations.Text

/-!
# Redacting secrets

What leaves the adapter of an agent has its secrets masked: first the values that are known,
the longest first, and then whatever looks like a key or a token. A known secret that is no
piece of the mask and has none of its brackets cannot overlap a mask: no masking brings it
back, and it is nowhere in what is left (`no_known_secret_left`).
-/

set_option autoImplicit false

namespace Koklo.Delivery.ClaudeCode

open Koklo.Foundations
open Text (isUpper isAlphanumeric isWord)

/-- `REDACTED`. -/
def redacted : Text := Text.lit "[redacted]"

def openBracket : CodeUnit := 0x5B

def closeBracket : CodeUnit := 0x5D

/-! ## Patterns -/

/-- `[A-Za-z0-9_-]`. -/
def isTokenUnit (u : CodeUnit) : Bool := isWord u || u = 0x2D

/-- `[A-Za-z0-9-]`. -/
def isSlackUnit (u : CodeUnit) : Bool := isAlphanumeric u || u = 0x2D

/-- `[A-Za-z0-9._~+/=-]`. -/
def isBearerUnit (u : CodeUnit) : Bool := isAlphanumeric u || u ∈ Text.lit "._~+/=-"

/-- `[A-Z0-9]`. -/
def isKeyUnit (u : CodeUnit) : Bool := isUpper u || Text.isDigit u

/-- `[A-Z ]`. -/
def isLabelUnit (u : CodeUnit) : Bool := isUpper u || u = 0x20

/-- Units that pass the tests, one after the other. -/
def units : List (CodeUnit → Bool) → Regex CodeUnit
  | [] => .text []
  | test :: tests => .seq (.unit test) (units tests)

/-- What follows `-----BEGIN ` or `-----END ` in a PEM block. -/
def pemLabel : Regex CodeUnit :=
  .seq (.greedy 0 isLabelUnit) (.text (Text.lit "PRIVATE KEY-----"))

/-- `sk-ant-[A-Za-z0-9_-]+`. -/
def anthropicKey : Regex CodeUnit := .seq (.text (Text.lit "sk-ant-")) (.greedy 1 isTokenUnit)

/-- `github_pat_[A-Za-z0-9_]+`. -/
def githubPat : Regex CodeUnit := .seq (.text (Text.lit "github_pat_")) (.greedy 1 isWord)

/-- `gh[pousr]_[A-Za-z0-9]+`. -/
def githubToken : Regex CodeUnit :=
  .seq (.seq (.text (Text.lit "gh")) (.seq (.unit (· ∈ Text.lit "pousr")) (.text (Text.lit "_"))))
    (.greedy 1 isAlphanumeric)

/-- `Bearer\s+[A-Za-z0-9._~+/=-]+`. -/
def bearer : Regex CodeUnit :=
  .seq (.seq (.text (Text.lit "Bearer")) (.greedy 1 Text.isSpace)) (.greedy 1 isBearerUnit)

/-- `(?:AKIA|ASIA)[A-Z0-9]{16}`, unit by unit. -/
def keyTests : List (CodeUnit → Bool) :=
  (· = 0x41) :: (· ∈ Text.lit "KS") :: (· = 0x49) :: (· = 0x41) :: List.replicate 16 isKeyUnit

/-- `(?:AKIA|ASIA)[A-Z0-9]{16}`, without its boundaries. -/
def awsKey : Regex CodeUnit := units keyTests

def pemBlock : Regex CodeUnit :=
  .seq (.seq (.text (Text.lit "-----BEGIN ")) pemLabel)
    (.seq (.lazy 0 fun _ => true) (.seq (.text (Text.lit "-----END ")) pemLabel))

/-- `sk-proj-[A-Za-z0-9_-]+`. -/
def openaiKey : Regex CodeUnit := .seq (.text (Text.lit "sk-proj-")) (.greedy 1 isTokenUnit)

/-- `xox[baprs]-[A-Za-z0-9-]+`. -/
def slackToken : Regex CodeUnit :=
  .seq (.seq (.text (Text.lit "xox")) (.seq (.unit (· ∈ Text.lit "baprs")) (.text (Text.lit "-"))))
    (.greedy 1 isSlackUnit)

/-- `glpat-[A-Za-z0-9_-]+`. -/
def gitlabToken : Regex CodeUnit := .seq (.text (Text.lit "glpat-")) (.greedy 1 isTokenUnit)

/-- `\b`: between a word unit and what is not one. -/
def atBoundary (before : Option CodeUnit) (rest : Text) : Bool :=
  before.any isWord != rest.head?.any isWord

/-- The length of an outcome that ends at a `\b`. -/
def boundedLength (before : Option CodeUnit) (t : Text) (o : Regex.Outcome CodeUnit) : Option ℕ :=
  let length := t.length - o.2.length
  if atBoundary (Masking.endOf before (t.take length)) o.2 then some length else none

/-- The first outcome of an expression between two `\b`. -/
def boundedFinder (r : Regex CodeUnit) : Masking.Finder CodeUnit := fun before t =>
  if atBoundary before t then (Regex.preferred r t (boundedLength before t)).getD 0 else 0

/-- `SECRET_PATTERNS`. -/
def secretPatterns : List (Masking.Finder CodeUnit) := [
  Regex.finder anthropicKey,
  Regex.finder githubPat,
  Regex.finder githubToken,
  Regex.finder bearer,
  boundedFinder awsKey,
  Regex.finder pemBlock,
  Regex.finder openaiKey,
  Regex.finder slackToken,
  Regex.finder gitlabToken]

/-! ## Redaction -/

/-- A text that is found as it is. -/
def literal (secret : Text) : Masking.Finder CodeUnit := fun _ rest =>
  if secret <+: rest then secret.length else 0

/-- `text.split(secret)`. -/
def splitBy (secret text : Text) : List Text := Masking.pieces (literal secret) none 0 text

/-- `out.split(secret).join(REDACTED)`. -/
def maskSecret (out secret : Text) : Text := redacted.intercalate (splitBy secret out)

/-- `out.replace(pattern, REDACTED)`. -/
def maskPattern (out : Text) (pattern : Masking.Finder CodeUnit) : Text :=
  Masking.replaceFrom pattern redacted none 0 out

/-- The secrets that are masked, the longest first. -/
def orderedSecrets (knownSecrets : List Text) : List Text :=
  sortWith (fun a b => (b.length : ℤ) - a.length) (knownSecrets.filter (· ≠ []))

/-- The known secrets are masked, the longest first, and then what the patterns match. -/
def redactSecrets (text : Text) (knownSecrets : List Text) : Text :=
  secretPatterns.foldl maskPattern ((orderedSecrets knownSecrets).foldl maskSecret text)

/-! ## Secrets that do not overlap the mask -/

/-- Without the brackets of the mask, and no piece of it. -/
structure Unmasked (secret : Text) : Prop where
  opening : openBracket ∉ secret
  closing : closeBracket ∉ secret
  noPiece : ¬ secret <:+: redacted

theorem redacted_eq : redacted = openBracket :: Text.lit "redacted" ++ [closeBracket] := by
  decide

/-- **Such a secret does not overlap the mask.** -/
theorem Unmasked.apart {secret : Text} (unmasked : Unmasked secret) :
    Masking.Apart redacted secret := by
  rw [redacted_eq]
  apply Masking.apart_of_not_mem unmasked.opening unmasked.closing
  intro inside
  apply unmasked.noPiece
  rw [redacted_eq]
  exact inside.trans ⟨[openBracket], [closeBracket], rfl⟩

theorem literal_sound (secret : Text) : (literal secret).Sound := by
  intro before rest
  rw [literal]
  split
  · rename_i starts
    exact starts.length_le
  · exact Nat.zero_le _

theorem maskSecret_eq (out secret : Text) :
    maskSecret out secret = Masking.replaceFrom (literal secret) redacted none 0 out :=
  Masking.intercalate_pieces _ _ _ _ _

/-- A secret is nowhere once it is masked. -/
theorem not_infix_maskSecret {secret : Text} (apart : Masking.Apart redacted secret)
    (some : secret ≠ []) (out : Text) : ¬ secret <:+: maskSecret out secret := by
  rw [maskSecret_eq]
  apply Masking.not_infix_replaceFrom (literal_sound secret) apart some
  intro before rest
  rw [literal, if_pos (List.prefix_append secret rest)]
  exact List.length_pos_of_ne_nil some

/-- Masking another secret does not bring it back. -/
theorem infix_of_infix_maskSecret {secret other out : Text} (apart : Masking.Apart redacted secret)
    (some : secret ≠ []) (found : secret <:+: maskSecret out other) : secret <:+: out := by
  rw [maskSecret_eq] at found
  exact Masking.infix_of_infix_replaceFrom (literal_sound other) apart some found

/-- After all the known secrets are masked, none of them is left. -/
theorem not_infix_foldl_maskSecret {secret : Text} (apart : Masking.Apart redacted secret)
    (some : secret ≠ []) {secrets : List Text} (known : secret ∈ secrets) (text : Text) :
    ¬ secret <:+: secrets.foldl maskSecret text := by
  have kept : ∀ (secrets : List Text) (out : Text), ¬ secret <:+: out →
      ¬ secret <:+: secrets.foldl maskSecret out := by
    intro secrets
    induction secrets with
    | nil => exact fun _ absent => absent
    | cons other secrets ih =>
      intro out absent
      exact ih _ fun found => absent (infix_of_infix_maskSecret apart some found)
  induction secrets generalizing text with
  | nil => cases known
  | cons first secrets ih =>
    rcases List.mem_cons.mp known with rfl | later
    · exact kept secrets _ (not_infix_maskSecret apart some text)
    · exact ih later _

theorem boundedFinder_sound (r : Regex CodeUnit) : (boundedFinder r).Sound := by
  intro before t
  rw [boundedFinder]
  split
  · cases found : Regex.preferred r t (boundedLength before t) with
    | none => exact Nat.zero_le _
    | some n =>
      obtain ⟨o, _, same⟩ := List.exists_of_findSome?_eq_some found
      rw [boundedLength] at same
      split at same
      · cases same
        exact Nat.sub_le _ _
      · cases same
  · exact Nat.zero_le _

theorem secretPatterns_sound : ∀ pattern ∈ secretPatterns, pattern.Sound := by
  intro pattern member
  simp only [secretPatterns, List.mem_cons, List.not_mem_nil, or_false] at member
  rcases member with rfl | rfl | rfl | rfl | rfl | rfl | rfl | rfl | rfl
  case inr.inr.inr.inr.inl => exact boundedFinder_sound _
  all_goals exact Regex.finder_sound _

/-- Masking what matches patterns does not bring a text back. -/
theorem infix_of_infix_foldl_maskPattern {secret : Text} (apart : Masking.Apart redacted secret)
    (some : secret ≠ []) {patterns : List (Masking.Finder CodeUnit)}
    (sound : ∀ pattern ∈ patterns, pattern.Sound) {out : Text}
    (found : secret <:+: patterns.foldl maskPattern out) : secret <:+: out := by
  induction patterns generalizing out with
  | nil => exact found
  | cons pattern patterns ih =>
    obtain ⟨first, others⟩ := List.forall_mem_cons.mp sound
    exact Masking.infix_of_infix_replaceFrom first apart some (ih others found)

theorem mem_orderedSecrets {knownSecrets : List Text} {secret : Text} :
    secret ∈ orderedSecrets knownSecrets ↔ secret ∈ knownSecrets ∧ secret ≠ [] := by
  rw [orderedSecrets, (perm_sortWith _ _).mem_iff, List.mem_filter, decide_eq_true_eq]

/-- What does not overlap the mask is not left. -/
theorem not_infix_redactSecrets {knownSecrets : List Text} {secret : Text}
    (apart : Masking.Apart redacted secret) (known : secret ∈ knownSecrets) (some : secret ≠ [])
    (text : Text) : ¬ secret <:+: redactSecrets text knownSecrets := by
  intro found
  apply not_infix_foldl_maskSecret apart some (mem_orderedSecrets.mpr ⟨known, some⟩) text
  exact infix_of_infix_foldl_maskPattern apart some secretPatterns_sound found

/-- **No known secret is left**, when none has a bracket of the mask or is a piece of it. -/
theorem no_known_secret_left {knownSecrets : List Text} (text : Text)
    (accepted : ∀ secret ∈ knownSecrets, secret ≠ [] → Unmasked secret) :
    ∀ secret ∈ knownSecrets, secret ≠ [] → ¬ secret <:+: redactSecrets text knownSecrets := by
  intro secret known some
  exact not_infix_redactSecrets (accepted secret known some).apart known some text

/-- Two secrets, one of which is inside of the other. -/
theorem no_known_secret_left_nested :
    ¬ Text.lit "s3" <:+: redactSecrets (Text.lit "s3cr3t s3") [Text.lit "s3", Text.lit "s3cr3t"] ∧
      ¬ Text.lit "s3cr3t" <:+:
        redactSecrets (Text.lit "s3cr3t s3") [Text.lit "s3", Text.lit "s3cr3t"] := by
  have each := @no_known_secret_left [Text.lit "s3", Text.lit "s3cr3t"] (Text.lit "s3cr3t s3") (by
    intro secret member _
    rcases List.mem_pair.mp member with rfl | rfl
    · exact ⟨by decide, by decide, by decide +kernel⟩
    · exact ⟨by decide, by decide, by decide +kernel⟩)
  exact ⟨each _ (.head _) (by decide), each _ (.tail _ (.head _)) (by decide)⟩

example : redactSecrets (Text.lit "s3cr3t s3") [Text.lit "s3", Text.lit "s3cr3t"] =
    Text.lit "[redacted] [redacted]" := by
  decide +kernel

end Koklo.Delivery.ClaudeCode
