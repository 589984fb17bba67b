import Koklo.Delivery.Redaction
import Koklo.Foundations.TokenMasking

/-!
# Redacting what is redacted

What is redacted holds no known secret and no match of a pattern without a word boundary, when no
known secret overlaps the mask. Only the pattern of AWS keys can still match: it needs a word
boundary on both sides, and the three patterns after it can make one, when a key is directly
followed by a token that they mask. A second redaction then changes the text
(`redactSecrets_twice_eq_iff`).
-/

set_option autoImplicit false

namespace Koklo.Delivery.ClaudeCode

open Koklo.Foundations
open Text (isUpper isAlphanumeric isWord)

/-! ## Tokens -/

def anthropicToken : Regex.Token CodeUnit := ⟨.text (Text.lit "sk-ant-"), isTokenUnit⟩

def githubPatToken : Regex.Token CodeUnit := ⟨.text (Text.lit "github_pat_"), isWord⟩

/-- Some text, one of the units of a choice, and a last unit. -/
def choice (start units last : Text) : Regex CodeUnit :=
  .seq (.text start) (.seq (.unit (· ∈ units)) (.text last))

def githubShortToken : Regex.Token CodeUnit :=
  ⟨choice (Text.lit "gh") (Text.lit "pousr") (Text.lit "_"), isAlphanumeric⟩

def bearerToken : Regex.Token CodeUnit :=
  ⟨.seq (.text (Text.lit "Bearer")) (.greedy 1 Text.isSpace), isBearerUnit⟩

def openaiToken : Regex.Token CodeUnit := ⟨.text (Text.lit "sk-proj-"), isTokenUnit⟩

def slackKey : Regex.Token CodeUnit :=
  ⟨choice (Text.lit "xox") (Text.lit "baprs") (Text.lit "-"), isSlackUnit⟩

def gitlabKey : Regex.Token CodeUnit := ⟨.text (Text.lit "glpat-"), isTokenUnit⟩

/-- The patterns that are applied after the one of PEM blocks. -/
def lastTokens : List (Regex.Token CodeUnit) := [openaiToken, slackKey, gitlabKey]

/-- `out.replace(pattern, REDACTED)`, for the pattern of a token. -/
def maskToken (out : Text) (token : Regex.Token CodeUnit) : Text :=
  maskPattern out (Regex.finder token.regex)

/-- What is left for the patterns of the last tokens. -/
def handedOn (text : Text) (knownSecrets : List Text) : Text :=
  (secretPatterns.take 6).foldl maskPattern ((orderedSecrets knownSecrets).foldl maskSecret text)

theorem redactSecrets_eq (text : Text) (knownSecrets : List Text) :
    redactSecrets text knownSecrets = lastTokens.foldl maskToken (handedOn text knownSecrets) := rfl

/-! ## Exposed keys -/

/-- None of the tokens is open at the end, as the patterns are applied one after the other. -/
def Spared : List (Regex.Token CodeUnit) → Text → Prop
  | [], _ => True
  | token :: tokens, left => ¬ token.Open left ∧ Spared tokens (maskToken left token)

/-- The text starts with one of the tokens, as the patterns are applied one after the other. -/
def Followed : List (Regex.Token CodeUnit) → Text → Prop
  | [], _ => False
  | token :: tokens, right => 0 < Regex.finder token.regex none right ∨
      Followed tokens (maskToken right token)

/-- Not a unit of a word. -/
def NoWord (u : Option CodeUnit) : Prop := u.any isWord = false

/-- **An AWS key at the start of a word is directly followed by a token that is masked after it**,
and is not itself inside of such a token. -/
def Exposed (text : Text) : Prop :=
  ∃ left key right, text = left ++ key ++ right ∧ awsKey.Consumes key ∧ NoWord left.getLast? ∧
    Spared lastTokens left ∧ Followed lastTokens right

/-- An AWS key between two word boundaries. -/
def HasKey (text : Text) : Prop :=
  ∃ left key right, text = left ++ key ++ right ∧ awsKey.Consumes key ∧ NoWord left.getLast? ∧
    NoWord right.head?

/-! ## The units of a key -/

/-- What passes the tests one after the other is as long, and has what all the tests ask for. -/
theorem of_consumes_units {tests : List (CodeUnit → Bool)} {asked : CodeUnit → Prop}
    (ask : ∀ test ∈ tests, ∀ u, test u = true → asked u) {list : Text}
    (consumes : (units tests).Consumes list) :
    list.length = tests.length ∧ ∀ u ∈ list, asked u := by
  induction tests generalizing list with
  | nil =>
    rw [units, Regex.consumes_text_iff] at consumes
    subst consumes
    exact ⟨rfl, List.forall_mem_nil _⟩
  | cons test tests ih =>
    rw [units, Regex.consumes_seq_iff] at consumes
    obtain ⟨_, others, rfl, one, rest⟩ := consumes
    obtain ⟨u, passes, rfl⟩ := Regex.consumes_unit_iff.mp one
    obtain ⟨first, later⟩ := List.forall_mem_cons.mp ask
    obtain ⟨length, all⟩ := ih later rest
    exact ⟨congrArg (· + 1) length, List.forall_mem_cons.mpr ⟨first u passes, all⟩⟩

/-- A key has capitals and digits only. -/
theorem isKeyUnit_of_awsKey {key : Text} (consumes : awsKey.Consumes key) :
    key ≠ [] ∧ ∀ u ∈ key, isKeyUnit u = true := by
  have ask : ∀ test ∈ keyTests, ∀ u, test u = true → isKeyUnit u = true := by
    intro test member u passes
    rw [keyTests, List.mem_cons, List.mem_cons, List.mem_cons, List.mem_cons,
      List.mem_replicate] at member
    rcases member with rfl | rfl | rfl | rfl | ⟨_, rfl⟩
    case inr.inl =>
      have choice : (Text.lit "KS").all isKeyUnit = true := by decide
      exact List.all_eq_true.mp choice u (decide_eq_true_eq.mp passes)
    case inr.inr.inr.inr => exact passes
    all_goals
      rw [decide_eq_true_eq.mp passes]
      decide
  obtain ⟨length, all⟩ := of_consumes_units ask consumes
  exact ⟨List.ne_nil_of_length_eq_add_one length, all⟩

theorem isWord_of_isKeyUnit {u : CodeUnit} (isKey : isKeyUnit u = true) : isWord u = true := by
  rw [isKeyUnit, Bool.or_eq_true] at isKey
  rw [isWord, isAlphanumeric]
  rcases isKey with upper | digit
  · rw [upper]
    rfl
  · rw [digit, Bool.or_true]
    rfl

/-- No unit of the mask is one of a key. -/
theorem not_mem_redacted {u : CodeUnit} (isKey : isKeyUnit u = true) : u ∉ redacted := by
  have none : redacted.all (! isKeyUnit ·) = true := by decide
  intro member
  have other := List.all_eq_true.mp none u member
  rw [isKey] at other
  cases other

/-! ## What does not overlap the mask -/

/-- A text without brackets that has a unit of its own does not overlap the mask. -/
theorem apart_of_mem {list : Text} {u : CodeUnit} (opening : openBracket ∉ list)
    (closing : closeBracket ∉ list) (own : u ∈ list) (foreign : u ∉ redacted) :
    Masking.Apart redacted list :=
  Unmasked.apart ⟨opening, closing, fun piece => foreign (piece.subset own)⟩

/-- A key does not overlap the mask. -/
theorem apart_of_awsKey {key : Text} (consumes : awsKey.Consumes key) :
    Masking.Apart redacted key := by
  obtain ⟨some, all⟩ := isKeyUnit_of_awsKey consumes
  obtain ⟨u, key, rfl⟩ := List.exists_cons_of_ne_nil some
  apply apart_of_mem _ _ List.mem_cons_self (not_mem_redacted (all u List.mem_cons_self))
  · intro member
    exact absurd (all _ member) (by decide)
  · intro member
    exact absurd (all _ member) (by decide)

/-- A token without brackets, whose opening has a unit that is not in the mask. -/
structure Foreign (token : Regex.Token CodeUnit) : Prop where
  opening : ∀ opening, token.opening.Consumes opening → openBracket ∉ opening ∧
    closeBracket ∉ opening ∧ ∃ u ∈ opening, u ∉ redacted
  body : token.body openBracket = false ∧ token.body closeBracket = false

/-- **The pattern of such a token settles.** -/
theorem Foreign.settles {token : Regex.Token CodeUnit} (foreign : Foreign token) :
    token.regex.Settles redacted := by
  have consumed : ∀ list, token.regex.Consumes list → openBracket ∉ list ∧
      closeBracket ∉ list ∧ ∃ u ∈ list, u ∉ redacted := by
    intro list consumes
    obtain ⟨opening, run, rfl, opens, _, all⟩ := Regex.Token.consumes_regex_iff.mp consumes
    obtain ⟨left, right, u, own, notMask⟩ := foreign.opening opening opens
    refine ⟨?_, ?_, u, List.mem_append_left _ own, notMask⟩
    · intro member
      rcases List.mem_append.mp member with inside | inside
      · exact left inside
      · exact absurd (all _ inside) (by rw [foreign.body.1]; exact Bool.false_ne_true)
    · intro member
      rcases List.mem_append.mp member with inside | inside
      · exact right inside
      · exact absurd (all _ inside) (by rw [foreign.body.2]; exact Bool.false_ne_true)
  apply Regex.Settles.of_apart
  · intro empty
    obtain ⟨_, _, u, own, _⟩ := consumed [] empty
    cases own
  · intro list consumes
    obtain ⟨left, right, u, own, notMask⟩ := consumed list consumes
    exact apart_of_mem left right own notMask

/-- Openings that are one text. -/
theorem foreign_text {opening : Text} {body : CodeUnit → Bool} (left : openBracket ∉ opening)
    (right : closeBracket ∉ opening) (own : ∃ u ∈ opening, u ∉ redacted)
    (run : body openBracket = false ∧ body closeBracket = false) : Foreign ⟨.text opening, body⟩ where
  opening := by
    intro list opens
    rw [Regex.consumes_text_iff.mp opens]
    exact ⟨left, right, own⟩
  body := run

theorem consumes_choice_iff {start units last list : Text} : (choice start units last).Consumes list ↔
    ∃ u ∈ units, list = start ++ u :: last := by
  rw [choice, Regex.consumes_seq_iff]
  constructor
  · rintro ⟨_, _, rfl, first, rest⟩
    obtain ⟨_, _, rfl, one, final⟩ := Regex.consumes_seq_iff.mp rest
    obtain ⟨u, member, rfl⟩ := Regex.consumes_unit_iff.mp one
    rw [Regex.consumes_text_iff.mp first, Regex.consumes_text_iff.mp final]
    exact ⟨u, of_decide_eq_true member, rfl⟩
  · rintro ⟨u, member, rfl⟩
    refine ⟨start, u :: last, rfl, Regex.consumes_text_iff.mpr rfl, ?_⟩
    refine Regex.consumes_seq_iff.mpr ⟨[u], last, rfl, ?_, Regex.consumes_text_iff.mpr rfl⟩
    exact Regex.consumes_unit_iff.mpr ⟨u, decide_eq_true member, rfl⟩

/-- Openings with a choice. -/
theorem foreign_choice {start units last : Text} {body : CodeUnit → Bool}
    (left : units.all fun u => openBracket ∉ start ++ u :: last)
    (right : units.all fun u => closeBracket ∉ start ++ u :: last) (own : ∃ u ∈ last, u ∉ redacted)
    (run : body openBracket = false ∧ body closeBracket = false) :
    Foreign ⟨choice start units last, body⟩ where
  opening := by
    intro list opens
    obtain ⟨v, member, rfl⟩ := consumes_choice_iff.mp opens
    obtain ⟨u, inside, foreign⟩ := own
    exact ⟨decide_eq_true_eq.mp (List.all_eq_true.mp left v member),
      decide_eq_true_eq.mp (List.all_eq_true.mp right v member), u,
      List.mem_append_right _ (List.mem_cons_of_mem _ inside), foreign⟩
  body := run

theorem foreign_bearer : Foreign bearerToken where
  opening := by
    intro list opens
    obtain ⟨_, spaces, rfl, word, run⟩ := Regex.consumes_seq_iff.mp opens
    rw [Regex.consumes_text_iff.mp word]
    obtain ⟨_, all⟩ := Regex.consumes_greedy_iff.mp run
    refine ⟨?_, ?_, 0x42, List.mem_append_left _ (by decide), by decide⟩
    · rw [List.mem_append, not_or]
      exact ⟨by decide, fun member => absurd (all _ member) (by decide)⟩
    · rw [List.mem_append, not_or]
      exact ⟨by decide, fun member => absurd (all _ member) (by decide)⟩
  body := by decide

/-- A header or a footer of a PEM block. -/
theorem apart_pemLine {start list : Text} (left : openBracket ∉ start)
    (right : closeBracket ∉ start) (own : 0x2D ∈ start)
    (consumes : Regex.Consumes (.seq (.text start) pemLabel) list) :
    list ≠ [] ∧ Masking.Apart redacted list := by
  obtain ⟨_, _, rfl, first, rest⟩ := Regex.consumes_seq_iff.mp consumes
  obtain ⟨label, _, rfl, run, final⟩ := Regex.consumes_seq_iff.mp rest
  rw [Regex.consumes_text_iff.mp first, Regex.consumes_text_iff.mp final]
  obtain ⟨_, all⟩ := Regex.consumes_greedy_iff.mp run
  refine ⟨List.ne_nil_of_mem (List.mem_append_left _ own), ?_⟩
  apply apart_of_mem _ _ (List.mem_append_left _ own) (by decide)
  · rw [List.mem_append, List.mem_append, not_or, not_or]
    exact ⟨left, fun member => absurd (all _ member) (by decide), by decide⟩
  · rw [List.mem_append, List.mem_append, not_or, not_or]
    exact ⟨right, fun member => absurd (all _ member) (by decide), by decide⟩

theorem settles_pemBlock : pemBlock.Settles redacted := by
  have first : ∀ list, Regex.Consumes (.seq (.text (Text.lit "-----BEGIN ")) pemLabel) list →
      list ≠ [] ∧ Masking.Apart redacted list :=
    fun list consumes => apart_pemLine (by decide) (by decide) (by decide) consumes
  have last : ∀ list, Regex.Consumes (.seq (.text (Text.lit "-----END ")) pemLabel) list →
      list ≠ [] ∧ Masking.Apart redacted list :=
    fun list consumes => apart_pemLine (by decide) (by decide) (by decide) consumes
  exact Regex.Settles.block (fun empty => (first [] empty).1 rfl) (fun empty => (last [] empty).1 rfl)
    (fun list consumes => (first list consumes).2) (fun list consumes => (last list consumes).2)

/-- The patterns without a word boundary, before and after the one of AWS keys. -/
def plainBefore : List (Regex CodeUnit) := [anthropicKey, githubPat, githubToken, bearer]

def plainAfter : List (Regex CodeUnit) := [pemBlock, openaiKey, slackToken, gitlabToken]

theorem secretPatterns_eq : secretPatterns =
    plainBefore.map Regex.finder ++ boundedFinder awsKey :: plainAfter.map Regex.finder := rfl

/-- **All of them settle.** -/
theorem settles_plain : ∀ r ∈ plainBefore ++ plainAfter, r.Settles redacted := by
  intro r member
  simp only [plainBefore, plainAfter, List.cons_append, List.nil_append, List.mem_cons,
    List.not_mem_nil, or_false] at member
  rcases member with rfl | rfl | rfl | rfl | rfl | rfl | rfl | rfl
  · exact @Foreign.settles anthropicToken
      (foreign_text (by decide) (by decide) ⟨0x2D, by decide, by decide⟩ (by decide))
  · exact @Foreign.settles githubPatToken
      (foreign_text (by decide) (by decide) ⟨0x5F, by decide, by decide⟩ (by decide))
  · exact @Foreign.settles githubShortToken
      (foreign_choice (by decide) (by decide) ⟨0x5F, by decide, by decide⟩ (by decide))
  · exact foreign_bearer.settles
  · exact settles_pemBlock
  · exact @Foreign.settles openaiToken
      (foreign_text (by decide) (by decide) ⟨0x2D, by decide, by decide⟩ (by decide))
  · exact @Foreign.settles slackKey
      (foreign_choice (by decide) (by decide) ⟨0x2D, by decide, by decide⟩ (by decide))
  · exact @Foreign.settles gitlabKey
      (foreign_text (by decide) (by decide) ⟨0x2D, by decide, by decide⟩ (by decide))

/-! ## What a second redaction changes -/

theorem not_bears_foldl_maskPattern {r : Regex CodeUnit} (settles : r.Settles redacted)
    {patterns : List (Masking.Finder CodeUnit)} (sound : ∀ pattern ∈ patterns, pattern.Sound)
    {out : Text} (absent : ¬ r.Bears out) : ¬ r.Bears (patterns.foldl maskPattern out) := by
  induction patterns generalizing out with
  | nil => exact absent
  | cons pattern patterns ih =>
    obtain ⟨first, others⟩ := List.forall_mem_cons.mp sound
    exact ih others fun bears => absent (settles.kept first bears)

/-- No match of a pattern that settles is left after all of them. -/
theorem not_bears_of_mem {r : Regex CodeUnit} (settles : r.Settles redacted)
    {patterns : List (Masking.Finder CodeUnit)} (sound : ∀ pattern ∈ patterns, pattern.Sound)
    (member : Regex.finder r ∈ patterns) (out : Text) :
    ¬ r.Bears (patterns.foldl maskPattern out) := by
  induction patterns generalizing out with
  | nil => cases member
  | cons pattern patterns ih =>
    obtain ⟨_, others⟩ := List.forall_mem_cons.mp sound
    rcases List.mem_cons.mp member with rfl | later
    · exact not_bears_foldl_maskPattern settles others settles.removed
    · exact ih others later _

theorem not_bears_redactSecrets {r : Regex CodeUnit} (member : r ∈ plainBefore ++ plainAfter)
    (text : Text) (knownSecrets : List Text) : ¬ r.Bears (redactSecrets text knownSecrets) := by
  apply not_bears_of_mem (settles_plain r member) secretPatterns_sound
  rw [secretPatterns_eq]
  rcases List.mem_append.mp member with before | after
  · exact List.mem_append_left _ (List.mem_map_of_mem before)
  · exact List.mem_append_right _ (List.mem_cons_of_mem _ (List.mem_map_of_mem after))

/-- Patterns that match nowhere leave the text. -/
theorem foldl_finder_eq {rs : List (Regex CodeUnit)} {out : Text}
    (absent : ∀ r ∈ rs, ¬ r.Bears out) : (rs.map Regex.finder).foldl maskPattern out = out := by
  induction rs with
  | nil => rfl
  | cons r rs ih =>
    obtain ⟨first, others⟩ := List.forall_mem_cons.mp absent
    have kept : maskPattern out (Regex.finder r) = out := Regex.replaceFrom_of_not_bears first
    rw [List.map_cons, List.foldl_cons, kept]
    exact ih others

theorem maskSecret_eq_self {secret out : Text} (absent : ¬ secret <:+: out) :
    maskSecret out secret = out := by
  rw [maskSecret_eq]
  apply Masking.replaceFrom_of_none
  rintro first last rfl _
  rw [literal, if_neg]
  intro starts
  exact absent (starts.isInfix.trans (List.suffix_append first last).isInfix)

/-- Secrets that are not in the text leave it. -/
theorem foldl_maskSecret_eq {secrets : List Text} {out : Text}
    (absent : ∀ secret ∈ secrets, ¬ secret <:+: out) : secrets.foldl maskSecret out = out := by
  induction secrets with
  | nil => rfl
  | cons secret secrets ih =>
    obtain ⟨first, others⟩ := List.forall_mem_cons.mp absent
    rw [List.foldl_cons, maskSecret_eq_self first]
    exact ih others

/-- **Only the pattern of AWS keys can change what is redacted.** -/
theorem redactSecrets_twice {knownSecrets : List Text} (text : Text)
    (apart : ∀ secret ∈ knownSecrets, secret ≠ [] → Masking.Apart redacted secret) :
    redactSecrets (redactSecrets text knownSecrets) knownSecrets =
      maskPattern (redactSecrets text knownSecrets) (boundedFinder awsKey) := by
  have secrets : (orderedSecrets knownSecrets).foldl maskSecret (redactSecrets text knownSecrets) =
      redactSecrets text knownSecrets := by
    apply foldl_maskSecret_eq
    intro secret member
    obtain ⟨known, some⟩ := mem_orderedSecrets.mp member
    exact not_infix_redactSecrets (apart secret known some) known some text
  have before := @foldl_finder_eq plainBefore (redactSecrets text knownSecrets) fun r member =>
    not_bears_redactSecrets (List.mem_append_left _ member) text knownSecrets
  have after := @foldl_finder_eq plainAfter
    (maskPattern (redactSecrets text knownSecrets) (boundedFinder awsKey)) fun r member bears => by
      have listed := List.mem_append_right plainBefore member
      exact not_bears_redactSecrets listed text knownSecrets
        ((settles_plain r listed).kept (boundedFinder_sound _) bears)
  conv_lhs => rw [redactSecrets, secrets, secretPatterns_eq, List.foldl_append, List.foldl_cons]
  rw [before, after]

/-! ## Keys between word boundaries -/

theorem atBoundary_of_noWord {before : Option CodeUnit} {u : CodeUnit} {rest : Text}
    (isKey : isKeyUnit u = true) : atBoundary before (u :: rest) = true ↔ NoWord before := by
  rw [atBoundary, List.head?_cons, Option.any_some, isWord_of_isKeyUnit isKey, NoWord]
  cases before.any isWord <;> decide

/-- What precedes the end of a key is a word unit. -/
theorem any_endOf {before : Option CodeUnit} {key : Text} (some : key ≠ [])
    (all : ∀ u ∈ key, isKeyUnit u = true) : (Masking.endOf before key).any isWord = true := by
  rw [Masking.endOf, List.getLast?_eq_some_getLast some, Option.some_or, Option.any_some]
  exact isWord_of_isKeyUnit (all _ (List.getLast_mem some))

theorem atBoundary_endOf {before : Option CodeUnit} {key rest : Text} (some : key ≠ [])
    (all : ∀ u ∈ key, isKeyUnit u = true) :
    atBoundary (Masking.endOf before key) rest = true ↔ NoWord rest.head? := by
  rw [atBoundary, any_endOf some all, NoWord]
  cases rest.head?.any isWord <;> decide

/-- What an outcome of the pattern of AWS keys counts for. -/
theorem boundedLength_eq {before : Option CodeUnit} {key rest : Text} {captures : List Text}
    (consumes : awsKey.Consumes key) : boundedLength before (key ++ rest) (captures, rest) =
      if rest.head?.any isWord then none else some key.length := by
  obtain ⟨some, all⟩ := isKeyUnit_of_awsKey consumes
  have length : (key ++ rest).length - rest.length = key.length := by
    rw [List.length_append, Nat.add_sub_cancel]
  have boundary := @atBoundary_endOf before key rest some all
  simp only [boundedLength, length, List.take_left]
  cases next : rest.head?.any isWord with
  | true =>
    rw [if_pos rfl, if_neg]
    intro bounded
    have noWord := boundary.mp bounded
    rw [NoWord, next] at noWord
    cases noWord
  | false =>
    rw [if_pos (boundary.mpr next)]
    rfl

/-- A key between word boundaries is a match. -/
theorem boundedFinder_pos {before : Option CodeUnit} {key rest : Text}
    (consumes : awsKey.Consumes key) (noWord : NoWord before) (noWord' : NoWord rest.head?) :
    0 < boundedFinder awsKey before (key ++ rest) := by
  obtain ⟨captures, member⟩ := consumes rest
  obtain ⟨nonempty, all⟩ := isKeyUnit_of_awsKey consumes
  have starts : atBoundary before (key ++ rest) = true := by
    obtain ⟨u, key, rfl⟩ := List.exists_cons_of_ne_nil nonempty
    exact (atBoundary_of_noWord (all u List.mem_cons_self)).mpr noWord
  rw [boundedFinder, if_pos starts]
  cases found : Regex.preferred awsKey (key ++ rest) (boundedLength before (key ++ rest)) with
  | none =>
    have refused := Regex.preferred_eq_none.mp found _ member
    rw [boundedLength_eq consumes, noWord'] at refused
    cases refused
  | some n =>
    obtain ⟨⟨captures', rest'⟩, taken, same⟩ := List.exists_of_findSome?_eq_some found
    obtain ⟨key', split, consumes'⟩ := Regex.exists_consumes taken
    rw [split, boundedLength_eq consumes'] at same
    split at same
    · cases same
    · cases same
      exact List.length_pos_of_ne_nil (isKeyUnit_of_awsKey consumes').1

/-- **A match is a key between word boundaries.** -/
theorem exists_of_boundedFinder {before : Option CodeUnit} {text : Text}
    (found : 0 < boundedFinder awsKey before text) : ∃ key rest, text = key ++ rest ∧
      awsKey.Consumes key ∧ NoWord before ∧ NoWord rest.head? ∧
      boundedFinder awsKey before text = key.length := by
  rw [boundedFinder] at found ⊢
  split at found
  · rename_i starts
    rw [if_pos starts]
    cases first : Regex.preferred awsKey text (boundedLength before text) with
    | none =>
      rw [first] at found
      exact absurd found (Nat.lt_irrefl 0)
    | some n =>
      obtain ⟨⟨captures, rest⟩, taken, same⟩ := List.exists_of_findSome?_eq_some first
      obtain ⟨key, rfl, consumes⟩ := Regex.exists_consumes taken
      rw [boundedLength_eq consumes] at same
      obtain ⟨nonempty, all⟩ := isKeyUnit_of_awsKey consumes
      split at same
      · cases same
      · rename_i next
        cases same
        refine ⟨key, rest, rfl, consumes, ?_, Bool.eq_false_iff.mpr next, rfl⟩
        obtain ⟨u, key, rfl⟩ := List.exists_cons_of_ne_nil nonempty
        exact (atBoundary_of_noWord (all u List.mem_cons_self)).mp starts
  · exact absurd found (Nat.lt_irrefl 0)

/-- **The pattern of AWS keys leaves a text without such a key**, and no other. -/
theorem maskPattern_awsKey_eq_iff {text : Text} :
    maskPattern text (boundedFinder awsKey) = text ↔ ¬ HasKey text := by
  constructor
  · rintro same ⟨left, key, right, rfl, consumes, noWord, noWord'⟩
    obtain ⟨kept, rest, split, tried, ends⟩ :=
      Masking.exists_tried (boundedFinder awsKey) none (left ++ key ++ right)
    rw [split, maskPattern, Masking.replaceFrom_kept tried] at same
    rcases ends with rfl | found
    · -- Every place would have been tried, the one of the key too.
      rw [List.append_nil] at split
      obtain ⟨nonempty, _⟩ := isKeyUnit_of_awsKey consumes
      have refused := tried left (key ++ right) (by rw [← split, List.append_assoc])
        (List.append_ne_nil_of_left_ne_nil nonempty _)
      rw [List.append_nil] at refused
      have noWord : NoWord (Masking.endOf none left) := by rwa [Masking.endOf, Option.or_none]
      exact absurd refused (boundedFinder_pos consumes noWord noWord').ne'
    · -- The first match starts with a unit of a key, and the mask does not.
      rw [Masking.replaceFrom_match (boundedFinder_sound _) found] at same
      have tails := List.append_cancel_left same
      obtain ⟨other, later, shape, consumes', _⟩ := exists_of_boundedFinder found
      obtain ⟨nonempty, all⟩ := isKeyUnit_of_awsKey consumes'
      obtain ⟨u, other, rfl⟩ := List.exists_cons_of_ne_nil nonempty
      rw [shape, redacted_eq] at tails
      obtain ⟨first, _⟩ := List.cons.inj tails
      have isKey := all u List.mem_cons_self
      rw [← first] at isKey
      exact absurd isKey (by decide)
  · intro absent
    apply Masking.replaceFrom_of_none
    rintro first last rfl _
    by_contra nonzero
    obtain ⟨key, rest, rfl, consumes, noWord, noWord', _⟩ :=
      exists_of_boundedFinder (Nat.pos_of_ne_zero nonzero)
    rw [Masking.endOf, Option.or_none] at noWord
    exact absent ⟨first, key, rest, (List.append_assoc ..).symm, consumes, noWord, noWord'⟩

/-! ## Keys through the last patterns -/

/-- The units of a key could stand in the token, but not in its opening. -/
structure AroundKeys (token : Regex.Token CodeUnit) : Prop extends token.Regular where
  fresh : ∀ u, isKeyUnit u = true → token.Fresh u
  passes : ∀ u, isKeyUnit u = true → token.body u = true

theorem aroundKeys_text {opening : Text} {body : CodeUnit → Bool} (some : opening ≠ [])
    (inBody : opening.all body) (fresh : opening.all (! isKeyUnit ·))
    (passes : ∀ u, isKeyUnit u = true → body u = true) : AroundKeys ⟨.text opening, body⟩ where
  some := fun empty => some (Regex.consumes_text_iff.mp empty).symm
  level := by
    intro first second opens opens'
    rw [Regex.consumes_text_iff.mp opens, Regex.consumes_text_iff.mp opens']
  inBody := by
    intro list opens
    rw [Regex.consumes_text_iff.mp opens]
    exact List.all_eq_true.mp inBody
  fresh := by
    intro u isKey list opens member
    rw [Regex.consumes_text_iff.mp opens] at member
    have other := List.all_eq_true.mp fresh u member
    rw [isKey] at other
    cases other
  passes := passes

theorem aroundKeys_choice {start units last : Text} {body : CodeUnit → Bool}
    (inBody : (start ++ units ++ last).all body)
    (fresh : (start ++ units ++ last).all (! isKeyUnit ·))
    (passes : ∀ u, isKeyUnit u = true → body u = true) :
    AroundKeys ⟨choice start units last, body⟩ := by
  have inside : ∀ list, (choice start units last).Consumes list →
      ∀ u ∈ list, u ∈ start ++ units ++ last := by
    intro list opens u member
    obtain ⟨v, chosen, rfl⟩ := consumes_choice_iff.mp opens
    rw [List.mem_append, List.mem_cons] at member
    rw [List.mem_append, List.mem_append]
    rcases member with first | rfl | final
    · exact .inl (.inl first)
    · exact .inl (.inr chosen)
    · exact .inr final
  refine ⟨⟨?_, ?_, ?_⟩, ?_, passes⟩
  · intro empty
    obtain ⟨v, _, shape⟩ := consumes_choice_iff.mp empty
    exact List.append_ne_nil_of_right_ne_nil _ (List.cons_ne_nil _ _) shape.symm
  · intro first second opens opens'
    obtain ⟨v, _, rfl⟩ := consumes_choice_iff.mp opens
    obtain ⟨v', _, rfl⟩ := consumes_choice_iff.mp opens'
    rw [List.length_append, List.length_append]
    rfl
  · intro list opens u member
    exact List.all_eq_true.mp inBody u (inside list opens u member)
  · intro u isKey list opens member
    have other := List.all_eq_true.mp fresh u (inside list opens u member)
    rw [isKey] at other
    cases other

theorem isTokenUnit_of_isKeyUnit {u : CodeUnit} (isKey : isKeyUnit u = true) :
    isTokenUnit u = true := by
  rw [isTokenUnit, isWord_of_isKeyUnit isKey]
  rfl

theorem isSlackUnit_of_isKeyUnit {u : CodeUnit} (isKey : isKeyUnit u = true) :
    isSlackUnit u = true := by
  rw [isKeyUnit, Bool.or_eq_true] at isKey
  rw [isSlackUnit, isAlphanumeric]
  rcases isKey with upper | digit
  · rw [upper]
    rfl
  · rw [digit, Bool.or_true]
    rfl

theorem aroundKeys_lastTokens : ∀ token ∈ lastTokens, AroundKeys token := by
  intro token member
  simp only [lastTokens, List.mem_cons, List.not_mem_nil, or_false] at member
  rcases member with rfl | rfl | rfl
  · exact aroundKeys_text (by decide) (by decide) (by decide) fun _ => isTokenUnit_of_isKeyUnit
  · exact aroundKeys_choice (by decide) (by decide) fun _ => isSlackUnit_of_isKeyUnit
  · exact aroundKeys_text (by decide) (by decide) (by decide) fun _ => isTokenUnit_of_isKeyUnit

/-- After a pattern a text starts with no word unit when it did before, or with a match. -/
theorem noWord_head_maskToken {token : Regex.Token CodeUnit} {right : Text} :
    NoWord (maskToken right token).head? ↔
      NoWord right.head? ∨ 0 < Regex.finder token.regex none right := by
  cases right with
  | nil =>
    rw [maskToken, maskPattern, Masking.replaceFrom]
    exact ⟨.inl, fun _ => rfl⟩
  | cons u right =>
    rcases Nat.eq_zero_or_pos (Regex.finder token.regex none (u :: right)) with none | found
    · rw [maskToken, maskPattern, Masking.replaceFrom, none]
      show NoWord (some u) ↔ _
      exact ⟨.inl, fun either => either.elim id fun found => absurd found (Nat.lt_irrefl 0)⟩
    · rw [maskToken, maskPattern, Masking.replaceFrom_match (Regex.finder_sound _) found, redacted_eq]
      have noWord : isWord openBracket = false := by decide
      exact ⟨fun _ => .inr found, fun _ => noWord⟩

/-- **Where a key stands after one of the last patterns.** -/
theorem exists_of_maskToken {token : Regex.Token CodeUnit} (around : AroundKeys token)
    {text left key right : Text} (consumes : awsKey.Consumes key)
    (same : maskToken text token = left ++ key ++ right) : ∃ left' right',
      text = left' ++ key ++ right' ∧ ¬ token.Open left' ∧ left = maskToken left' token ∧
      right = maskToken right' token := by
  obtain ⟨some, all⟩ := isKeyUnit_of_awsKey consumes
  exact Regex.Token.exists_around around.toRegular (apart_of_awsKey consumes) some
    (fun u member => around.fresh u (all u member)) (fun u member => around.passes u (all u member))
    same

/-- A key that is not inside of a token stays. -/
theorem maskToken_around {token : Regex.Token CodeUnit} (around : AroundKeys token)
    {left key right : Text} (consumes : awsKey.Consumes key) (closed : ¬ token.Open left) :
    maskToken (left ++ key ++ right) token =
      maskToken left token ++ key ++ maskToken right token := by
  obtain ⟨some, all⟩ := isKeyUnit_of_awsKey consumes
  exact Regex.Token.replaceFrom_around around.toRegular some
    (fun u member => around.fresh u (all u member)) closed

/-- **A key has word boundaries in the end when it has them, or a token follows it**, and no token
takes it. -/
theorem hasKey_foldl_iff {tokens : List (Regex.Token CodeUnit)}
    (around : ∀ token ∈ tokens, AroundKeys token) {text : Text} :
    HasKey (tokens.foldl maskToken text) ↔ ∃ left key right, text = left ++ key ++ right ∧
      awsKey.Consumes key ∧ NoWord left.getLast? ∧ Spared tokens left ∧
      (NoWord right.head? ∨ Followed tokens right) := by
  induction tokens generalizing text with
  | nil =>
    constructor
    · rintro ⟨left, key, right, split, consumes, noWord, noWord'⟩
      exact ⟨left, key, right, split, consumes, noWord, trivial, .inl noWord'⟩
    · rintro ⟨left, key, right, split, consumes, noWord, _, noWord' | none⟩
      · exact ⟨left, key, right, split, consumes, noWord, noWord'⟩
      · exact none.elim
  | cons token tokens ih =>
    obtain ⟨first, others⟩ := List.forall_mem_cons.mp around
    rw [List.foldl_cons, ih others]
    constructor
    · rintro ⟨_, key, _, split, consumes, noWord, spared, ends⟩
      obtain ⟨left, right, rfl, closed, rfl, rfl⟩ := exists_of_maskToken first consumes split
      rw [maskToken, maskPattern, Regex.Token.getLast?_replaceFrom closed] at noWord
      rw [noWord_head_maskToken, or_assoc] at ends
      exact ⟨left, key, right, rfl, consumes, noWord, ⟨closed, spared⟩, ends⟩
    · rintro ⟨left, key, right, rfl, consumes, noWord, ⟨closed, spared⟩, ends⟩
      refine ⟨_, key, _, maskToken_around first consumes closed, consumes, ?_, spared, ?_⟩
      · rwa [maskToken, maskPattern, Regex.Token.getLast?_replaceFrom closed]
      · rwa [noWord_head_maskToken, or_assoc]

/-! ## Keys that are handed on -/

/-- **No key between word boundaries is left by the pattern of AWS keys.** -/
theorem not_hasKey_maskPattern (text : Text) : ¬ HasKey (maskPattern text (boundedFinder awsKey)) := by
  rintro ⟨masked, key, after, same, consumes, noWord, noWord'⟩
  obtain ⟨some, all⟩ := isKeyUnit_of_awsKey consumes
  obtain ⟨first, rest, rfl, refused, follows, reaches⟩ := Masking.exists_of_replaceFrom
    (boundedFinder_sound awsKey) (apart_of_awsKey consumes) some same
  apply absurd refused
  refine (boundedFinder_pos consumes ?_ ?_).ne'
  · rw [Masking.endOf, Option.or_none]
    rcases reaches.sameEnd with level | ⟨start, matched, rfl, nonempty, found⟩
    · rwa [← level]
    · -- A match does not end right before a key.
      have positive := found ▸ List.length_pos_of_ne_nil nonempty
      obtain ⟨other, later, split, _, _, boundary, length⟩ := exists_of_boundedFinder positive
      rw [found] at length
      obtain ⟨_, rfl⟩ := List.append_inj split length
      obtain ⟨u, key, rfl⟩ := List.exists_cons_of_ne_nil some
      have isWord := isWord_of_isKeyUnit (all u List.mem_cons_self)
      rw [NoWord, List.cons_append, List.head?_cons, Option.any_some, isWord] at boundary
      cases boundary
  · -- A match does not start right after a key.
    rcases Nat.eq_zero_or_pos (boundedFinder awsKey (Masking.endOf none (first ++ key)) rest) with
      none | found
    · cases rest with
      | nil => rfl
      | cons u rest =>
        rw [Masking.replaceFrom, none] at follows
        rw [follows] at noWord'
        exact noWord'
    · obtain ⟨_, _, _, _, boundary, _⟩ := exists_of_boundedFinder found
      rw [Masking.endOf_append, NoWord, any_endOf some all] at boundary
      cases boundary

/-- A PEM block starts and ends with dashes. -/
theorem dashes_of_pemBlock {list : Text} (consumes : pemBlock.Consumes list) :
    list.head? = some 0x2D ∧ list.getLast? = some 0x2D := by
  obtain ⟨_, middle, _, rfl, opens, closes⟩ := Regex.consumes_block_iff.mp consumes
  obtain ⟨_, label, rfl, start, _⟩ := Regex.consumes_seq_iff.mp opens
  obtain ⟨_, _, rfl, _, footer⟩ := Regex.consumes_seq_iff.mp closes
  obtain ⟨_, _, rfl, _, final⟩ := Regex.consumes_seq_iff.mp footer
  rw [Regex.consumes_text_iff.mp start, Regex.consumes_text_iff.mp final]
  have first : (Text.lit "-----BEGIN ").head? = some 0x2D := by decide
  have last : (Text.lit "PRIVATE KEY-----").getLast? = some 0x2D := by decide
  constructor
  · rw [List.append_assoc, List.head?_append, first]
    rfl
  · simp only [List.getLast?_append, last, Option.some_or]

/-- The pattern of PEM blocks gives no key a word boundary. -/
theorem hasKey_of_maskPattern_pemBlock {text : Text}
    (has : HasKey (maskPattern text (Regex.finder pemBlock))) : HasKey text := by
  obtain ⟨masked, key, after, same, consumes, noWord, noWord'⟩ := has
  obtain ⟨some, _⟩ := isKeyUnit_of_awsKey consumes
  obtain ⟨first, rest, rfl, _, follows, reaches⟩ := Masking.exists_of_replaceFrom
    (Regex.finder_sound pemBlock) (apart_of_awsKey consumes) some same
  have dash : NoWord (Option.some 0x2D) := by
    show isWord 0x2D = false
    decide
  refine ⟨first, key, rest, rfl, consumes, ?_, ?_⟩
  · rcases reaches.sameEnd with level | ⟨start, matched, rfl, nonempty, found⟩
    · rwa [← level]
    · have positive := found ▸ List.length_pos_of_ne_nil nonempty
      obtain ⟨block, later, split, consumes', length⟩ := Regex.exists_of_finder positive
      rw [found] at length
      obtain ⟨rfl, _⟩ := List.append_inj split length.symm
      rw [List.getLast?_append, (dashes_of_pemBlock consumes').2]
      exact dash
  · rcases Nat.eq_zero_or_pos
      (Regex.finder pemBlock (Masking.endOf none (first ++ key)) rest) with none | found
    · cases rest with
      | nil => rfl
      | cons u rest =>
        rw [Masking.replaceFrom, none] at follows
        rw [follows] at noWord'
        exact noWord'
    · obtain ⟨block, later, rfl, consumes', _⟩ := Regex.exists_of_finder found
      rw [List.head?_append, (dashes_of_pemBlock consumes').1]
      exact dash

theorem not_hasKey_handedOn (text : Text) (knownSecrets : List Text) :
    ¬ HasKey (handedOn text knownSecrets) :=
  fun has => not_hasKey_maskPattern _ (hasKey_of_maskPattern_pemBlock has)

/-! ## Redacting twice -/

/-- **Redacting twice is redacting once exactly when no AWS key is exposed**, for secrets that do
not overlap the mask. -/
theorem twice_eq_iff_of_apart {text : Text} {knownSecrets : List Text}
    (apart : ∀ secret ∈ knownSecrets, secret ≠ [] → Masking.Apart redacted secret) :
    redactSecrets (redactSecrets text knownSecrets) knownSecrets = redactSecrets text knownSecrets ↔
      ¬ Exposed (handedOn text knownSecrets) := by
  rw [redactSecrets_twice text apart, maskPattern_awsKey_eq_iff, redactSecrets_eq,
    hasKey_foldl_iff aroundKeys_lastTokens]
  apply not_congr
  constructor
  · rintro ⟨left, key, right, split, consumes, noWord, spared, noWord' | followed⟩
    · exact absurd ⟨left, key, right, split, consumes, noWord, noWord'⟩ (not_hasKey_handedOn _ _)
    · exact ⟨left, key, right, split, consumes, noWord, spared, followed⟩
  · rintro ⟨left, key, right, split, consumes, noWord, spared, followed⟩
    exact ⟨left, key, right, split, consumes, noWord, spared, .inr followed⟩

/-- Nothing in the text is masked. -/
structure Untouched (text : Text) (knownSecrets : List Text) : Prop where
  secrets : ∀ secret ∈ knownSecrets, secret ≠ [] → ¬ secret <:+: text
  patterns : ∀ pattern ∈ secretPatterns, ∀ first last, text = first ++ last → last ≠ [] →
    pattern (Masking.endOf none first) last = 0

/-- Patterns that match nowhere in the text leave it. -/
theorem foldl_maskPattern_eq {patterns : List (Masking.Finder CodeUnit)} {text : Text}
    (none : ∀ pattern ∈ patterns, ∀ first last, text = first ++ last → last ≠ [] →
      pattern (Masking.endOf none first) last = 0) : patterns.foldl maskPattern text = text := by
  induction patterns with
  | nil => rfl
  | cons pattern patterns ih =>
    obtain ⟨first, others⟩ := List.forall_mem_cons.mp none
    have kept : maskPattern text pattern = text := Masking.replaceFrom_of_none first
    rw [List.foldl_cons, kept]
    exact ih others

/-- Tokens that match nowhere follow nothing. -/
theorem not_followed {tokens : List (Regex.Token CodeUnit)} {left right : Text}
    (none : ∀ token ∈ tokens, ∀ first last, left ++ right = first ++ last → last ≠ [] →
      Regex.finder token.regex (Masking.endOf none first) last = 0) : ¬ Followed tokens right := by
  induction tokens with
  | nil => exact id
  | cons token tokens ih =>
    obtain ⟨first, others⟩ := List.forall_mem_cons.mp none
    rintro (found | followed)
    · cases right with
      | nil => exact absurd found (Nat.not_lt.mpr (Regex.finder_sound _ _ _))
      | cons u right => exact absurd (first left _ rfl (List.cons_ne_nil _ _)) found.ne'
    · have kept : maskToken right token = right := by
        apply Masking.replaceFrom_of_none
        rintro start last rfl some
        exact first (left ++ start) last (List.append_assoc ..).symm some
      rw [kept] at followed
      exact ih others followed

/-- **A text in which nothing is masked has no exposed key**, and is left as it is. -/
theorem Untouched.redactSecrets_eq {text : Text} {knownSecrets : List Text}
    (untouched : Untouched text knownSecrets) :
    redactSecrets text knownSecrets = text ∧ ¬ Exposed (handedOn text knownSecrets) := by
  have secrets : (orderedSecrets knownSecrets).foldl maskSecret text = text := by
    apply foldl_maskSecret_eq
    intro secret member
    obtain ⟨known, some⟩ := mem_orderedSecrets.mp member
    exact untouched.secrets secret known some
  have handed : handedOn text knownSecrets = text := by
    rw [handedOn, secrets]
    exact foldl_maskPattern_eq fun pattern member =>
      untouched.patterns pattern (List.mem_of_mem_take member)
  constructor
  · rw [redactSecrets, secrets]
    exact foldl_maskPattern_eq untouched.patterns
  · rw [handed]
    rintro ⟨left, key, right, rfl, _, _, _, followed⟩
    refine @not_followed lastTokens (left ++ key) right ?_ followed
    intro token member first last split some
    have listed : Regex.finder token.regex ∈ secretPatterns := by
      have after := List.mem_map_of_mem (f := fun token => Regex.finder token.regex) member
      rw [secretPatterns_eq]
      exact List.mem_append_right _ (List.mem_cons_of_mem _ (List.mem_cons_of_mem _ after))
    exact untouched.patterns _ listed first last split some

/-- **Redacting twice is redacting once exactly when no AWS key is exposed**, for secrets that do
not overlap the mask, and for a text in which nothing is masked. -/
theorem redactSecrets_twice_eq_iff {text : Text} {knownSecrets : List Text}
    (safe : Untouched text knownSecrets ∨
      ∀ secret ∈ knownSecrets, secret ≠ [] → Masking.Apart redacted secret) :
    redactSecrets (redactSecrets text knownSecrets) knownSecrets = redactSecrets text knownSecrets ↔
      ¬ Exposed (handedOn text knownSecrets) := by
  rcases safe with untouched | apart
  · obtain ⟨same, notExposed⟩ := untouched.redactSecrets_eq
    rw [same, same]
    exact ⟨fun _ => notExposed, fun _ => rfl⟩
  · exact twice_eq_iff_of_apart apart

-- A second redaction masks a key that the first one has left.
example : redactSecrets (Text.lit "AKIA0123456789ABCDEFglpat-a") [] =
    Text.lit "AKIA0123456789ABCDEF[redacted]" := by
  decide +kernel

example : redactSecrets (Text.lit "AKIA0123456789ABCDEF[redacted]") [] =
    Text.lit "[redacted][redacted]" := by
  decide +kernel

-- A secret that is a piece of the mask is found in the mask.
example : redactSecrets (redactSecrets (Text.lit "e") [Text.lit "e"]) [Text.lit "e"] ≠
    redactSecrets (Text.lit "e") [Text.lit "e"] := by
  decide +kernel

end Koklo.Delivery.ClaudeCode
