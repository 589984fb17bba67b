import Koklo.Foundations.OrderedMap
import Koklo.Foundations.Uuid

/-!
# The commit message of a batch

The subject of the commit is the first line of the message of the batch, or a
list of its operations; the trailers follow in a paragraph of their own, the
first of which names the batch. The recovery of a batch looks for this trailer
in the last paragraph of each commit.

Whatever the subject is, the last paragraph of the message of a batch is its
trailers (`last_paragraph_message`), so its own trailer is always found
(`hasOpsTrailer_buildCommitMessage`) and that of no other batch is
(`hasOpsTrailer_buildCommitMessage_iff`).
-/

set_option autoImplicit false

namespace Koklo.SpecWrite

open Koklo.Foundations

/-! ## Batches as the message sees them -/

/-- The kinds of operation that pass `integrityProblem`. -/
inductive OperationKind where
  | featureCreate | featureUpdate | featureDelete
deriving DecidableEq

/-- What a message says of an operation. -/
structure BatchOperation where
  kind : OperationKind
  targetSpecId : Option Text
deriving DecidableEq

/-- Whoever has submitted the batch. -/
structure BatchAuthor where
  name : Text
  email : Text
deriving DecidableEq

/-! ## The message -/

def maxSubject : ℕ := 200

def maxName : ℕ := 100

/-- `VERBS`. -/
def OperationKind.verb : OperationKind → Text
  | featureCreate => Text.lit "créé"
  | featureUpdate => Text.lit "modifié"
  | featureDelete => Text.lit "supprimé"

/-- The control characters of `\p{Cc}`. -/
def isControl (u : CodeUnit) : Bool := u ≤ 0x1F || (0x7F ≤ u && u ≤ 0x9F)

/-- `<`, `>` and `@`. -/
def isAngle (u : CodeUnit) : Bool := u == 0x3C || u == 0x3E

def atSign : CodeUnit := 0x40

/-- The text before the first line terminator. -/
def firstLine (t : Text) : Text := t.takeWhile fun u => !Text.isLineTerminator u

/-- `text.replace(CONTROL, "")`. -/
def withoutControl (t : Text) : Text := t.filter fun u => !isControl u

/-- The first line of a name, without what a trailer cannot hold. -/
def cleanName (name : Text) : Text :=
  Text.trim ((Text.trim (withoutControl ((firstLine name).filter fun u => !isAngle u))).take maxName)

/-- The code units of the two parts of an address. -/
def isEmailUnit (u : CodeUnit) : Bool :=
  !(Text.isSpace u || isAngle u || u == atSign || isControl u)

/-- `EMAIL`: two parts that are not empty around the only at sign. -/
def isEmail (value : Text) : Bool :=
  match value.splitOn atSign with
  | [first, second] =>
    first != [] && second != [] && first.all isEmailUnit && second.all isEmailUnit
  | _ => false

/-- `a || b`, the empty text being false. -/
def orElse (a b : Text) : Text := if a = [] then b else a

/-- The trailer of the author, when there is one. -/
def coAuthorLine (author : Option BatchAuthor) : Option Text :=
  match author with
  | none => none
  | some author =>
    let email := Text.trim author.email
    if isEmail email then
      some (Text.lit "Co-authored-by: " ++ orElse (cleanName author.name) email ++ Text.lit " <" ++
        email ++ Text.lit ">")
    else none

/-- The identifiers of the operations by verb, in the order of the verbs. -/
def operationsByVerb (operations : List BatchOperation) : OrderedMap Text (List Text) :=
  operations.foldl (fun byVerb operation =>
    byVerb.set operation.kind.verb
      ((byVerb.get operation.kind.verb).getD [] ++ [operation.targetSpecId.getD []])) []

/-- A subject that sums the operations up. -/
def defaultSubject (operations : List BatchOperation) : Text :=
  Text.lit "spec: " ++ (Text.lit " ; ").intercalate ((operationsByVerb operations).map fun group =>
    group.1 ++ Text.lit " " ++ (Text.lit ", ").intercalate group.2)

/-- The trailer by which the commit of a batch is found again. -/
def opsTrailer (batchId : Text) : Text := Text.lit "Koklo-Ops: " ++ batchId

/-- What the message of a commit is made from. -/
structure MessageInput where
  batchId : Text
  message : Option Text
  operations : List BatchOperation
  author : Option BatchAuthor

/-- The subject: the message that was given, or the one that sums up. -/
def subjectOf (input : MessageInput) : Text :=
  let custom := match input.message with
    | none => []
    | some message => Text.trim (withoutControl (firstLine message))
  (orElse custom (defaultSubject input.operations)).take maxSubject

/-- The trailers of the message. -/
def trailersOf (input : MessageInput) : List Text :=
  opsTrailer input.batchId :: (coAuthorLine input.author).toList

/-- The message of the commit: a subject, a blank line, and the trailers. -/
def buildCommitMessage (input : MessageInput) : Text :=
  subjectOf input ++ Text.newline :: Text.newline ::
    (Text.joinLines (trailersOf input) ++ [Text.newline])

/-! ## Paragraphs -/

/-- A space or a tab. -/
def isBlank (u : CodeUnit) : Bool := u == 0x20 || u == 0x09

/-- What follows a match of `/\n[ \t]*\n/` at the start of a text. -/
def afterBreak : Text → Option Text
  | [] => none
  | u :: t =>
    if u = Text.newline then
      match t.dropWhile isBlank with
      | v :: rest => if v = Text.newline then some rest else none
      | [] => none
    else none

/-- `split(/\n[ \t]*\n/)`, from the left; the fuel is the length of the text. -/
def paragraphsFrom : ℕ → Text → List Text
  | 0, t => [t]
  | _ + 1, [] => [[]]
  | fuel + 1, u :: t =>
    match afterBreak (u :: t) with
    | some rest => [] :: paragraphsFrom fuel rest
    | none => (paragraphsFrom fuel t).modifyHead (u :: ·)

/-- The parts of a text between its blank lines. -/
def paragraphs (t : Text) : List Text := paragraphsFrom t.length t

/-- The trailer is looked for in the last paragraph of a message that has two at least. -/
def hasOpsTrailer (message batchId : Text) : Bool :=
  let found := paragraphs (Text.trimEnd message)
  if found.length < 2 then false
  else (Text.lines (found.getLast?.getD [])).any fun line => Text.trimEnd line = opsTrailer batchId

/-! ## The last paragraph of a message -/

/-- A line that cannot take part in a break: it starts with a visible code unit
and has no line feed. -/
structure IsSolidLine (line : Text) : Prop where
  first : ∀ u ∈ line.head?, isBlank u = false
  some : line ≠ []
  single : Text.newline ∉ line

/-- There is no break in a text: neither at its start nor further on. -/
def Unbroken (t : Text) : Prop := ∀ s, s <:+ t → afterBreak s = none

theorem Unbroken.of_suffix {s t : Text} (unbroken : Unbroken t) (suffix : s <:+ t) : Unbroken s :=
  fun _ inner => unbroken _ (inner.trans suffix)

theorem afterBreak_of_ne {u : CodeUnit} (t : Text) (other : u ≠ Text.newline) :
    afterBreak (u :: t) = none := if_neg other

/-- Solid lines, each after a line feed, have no break. -/
theorem unbroken_flatMap {lines : List Text} (solid : ∀ line ∈ lines, IsSolidLine line) :
    Unbroken (lines.flatMap (Text.newline :: ·)) := by
  induction lines with
  | nil =>
    intro s suffix
    rw [List.suffix_nil.mp suffix]
    rfl
  | cons line lines ih =>
    obtain ⟨first, some, single⟩ := solid line List.mem_cons_self
    have rest := ih fun other member => solid other (List.mem_cons_of_mem _ member)
    intro s suffix
    rw [List.flatMap_cons, List.cons_append, List.suffix_cons_iff] at suffix
    rcases suffix with rfl | suffix
    · obtain ⟨u, line, rfl⟩ := List.exists_cons_of_ne_nil some
      have notBlank : isBlank u = false := first u rfl
      have other : u ≠ Text.newline := fun same => single (same ▸ List.mem_cons_self)
      simp [afterBreak, notBlank, other]
    · clear first some solid ih
      induction line with
      | nil => exact rest s suffix
      | cons u line ih =>
        rw [List.cons_append, List.suffix_cons_iff] at suffix
        rcases suffix with rfl | suffix
        · exact afterBreak_of_ne _ fun same => single (same ▸ List.mem_cons_self)
        · exact ih (fun member => single (List.mem_cons_of_mem _ member)) suffix

/-- A text without break is its only paragraph. -/
theorem paragraphsFrom_unbroken {t : Text} (unbroken : Unbroken t) (fuel : ℕ) :
    paragraphsFrom fuel t = [t] := by
  induction fuel generalizing t with
  | zero => rfl
  | succ fuel ih =>
    cases t with
    | nil => rfl
    | cons u t =>
      rw [paragraphsFrom, unbroken (u :: t) (List.suffix_refl _),
        ih (unbroken.of_suffix (List.suffix_cons u t))]
      rfl

/-- A break is a line feed, blanks and a line feed. -/
theorem afterBreak_eq_some {u : CodeUnit} {t rest : Text} :
    afterBreak (u :: t) = some rest ↔
      u = Text.newline ∧ t.dropWhile isBlank = Text.newline :: rest := by
  unfold afterBreak
  by_cases feed : u = Text.newline
  · cases skipped : t.dropWhile isBlank with
    | nil => simp [feed, skipped]
    | cons v after =>
      by_cases again : v = Text.newline <;> simp [feed, skipped, again]
  · simp [feed]

/-- What follows a break that starts in the first part of a text. -/
theorem afterBreak_append {s tail rest : Text} {u : CodeUnit}
    (found : afterBreak (u :: (s ++ Text.newline :: tail)) = some rest) :
    rest = tail ∨ ∃ shorter, shorter.length ≤ s.length ∧ rest = shorter ++ Text.newline :: tail := by
  obtain ⟨-, skipped⟩ := afterBreak_eq_some.mp found
  by_cases blank : ∀ w ∈ s, isBlank w
  · rw [List.dropWhile_append_of_pos blank, List.dropWhile_cons, if_neg (by decide)] at skipped
    exact .inl (List.cons.inj skipped).2.symm
  · have visible : s.dropWhile isBlank ≠ [] := by
      rwa [Ne, List.dropWhile_eq_nil_iff]
    rw [List.dropWhile_append, if_neg (by simpa [List.isEmpty_iff] using visible)] at skipped
    obtain ⟨w, shorter, cut⟩ := List.exists_cons_of_ne_nil visible
    rw [cut, List.cons_append] at skipped
    refine .inr ⟨shorter, ?_, (List.cons.inj skipped).2.symm⟩
    have bound := (@List.dropWhile_suffix _ s isBlank).length_le
    rw [cut, List.length_cons] at bound
    omega

/-- **After a blank line, a text without break is in the last paragraph**, alone or
after the line feed that is left of the blank line. -/
theorem paragraphsFrom_append {tail : Text} (unbroken : Unbroken (Text.newline :: tail)) (fuel : ℕ)
    (s : Text) (enough : s.length < fuel) :
    ∃ front last, paragraphsFrom fuel (s ++ Text.newline :: Text.newline :: tail) = front ++ [last] ∧
      front ≠ [] ∧ (last = tail ∨ last = Text.newline :: tail) := by
  induction fuel generalizing s with
  | zero => cases enough
  | succ fuel ih =>
    cases s with
    | nil =>
      have broken : afterBreak (Text.newline :: Text.newline :: tail) = some tail :=
        afterBreak_eq_some.mpr ⟨rfl, rfl⟩
      refine ⟨[[]], tail, ?_, by simp, .inl rfl⟩
      rw [List.nil_append, paragraphsFrom, broken]
      simp only [paragraphsFrom_unbroken (unbroken.of_suffix (List.suffix_cons _ tail)),
        List.singleton_append]
    | cons u s =>
      rw [List.length_cons, Nat.succ_lt_succ_iff] at enough
      rw [List.cons_append, paragraphsFrom]
      cases found : afterBreak (u :: (s ++ Text.newline :: Text.newline :: tail)) with
      | none =>
        obtain ⟨front, last, cut, some, ends⟩ := ih s enough
        obtain ⟨first, front, rfl⟩ := List.exists_cons_of_ne_nil some
        simp only [cut]
        exact ⟨(u :: first) :: front, last, rfl, by simp, ends⟩
      | some rest =>
        rcases afterBreak_append found with rfl | ⟨shorter, bound, rfl⟩
        · exact ⟨[[]], _, by simp only [paragraphsFrom_unbroken unbroken, List.singleton_append],
            by simp, .inr rfl⟩
        · obtain ⟨front, last, cut, -, ends⟩ := ih shorter (by omega)
          simp only [cut]
          exact ⟨[] :: front, last, rfl, by simp, ends⟩

/-- A trailer is a solid line that ends with a visible code unit. -/
structure IsTrailer (line : Text) : Prop extends IsSolidLine line where
  ends : ∃ front u, line = front ++ [u] ∧ Text.isSpace u = false

/-- Joined trailers end with a visible code unit. -/
theorem joinLines_ends {lines : List Text} (trailers : ∀ line ∈ lines, IsTrailer line)
    (some : lines ≠ []) : ∃ front u, Text.joinLines lines = front ++ [u] ∧ Text.isSpace u = false := by
  induction lines with
  | nil => exact absurd rfl some
  | cons line lines ih =>
    cases lines with
    | nil =>
      rw [Text.joinLines, List.intercalate_singleton]
      exact (trailers line List.mem_cons_self).ends
    | cons next lines =>
      obtain ⟨front, u, shape, visible⟩ :=
        ih (fun other member => trailers other (List.mem_cons_of_mem _ member)) (by simp)
      refine ⟨line ++ Text.newline :: front, u, ?_, visible⟩
      rw [Text.joinLines] at shape ⊢
      rw [List.intercalate_cons_cons, shape]
      simp

/-- **The last paragraph of a message is its trailers**, whatever its subject. -/
theorem last_paragraph_message (subject : Text) {lines : List Text}
    (trailers : ∀ line ∈ lines, IsTrailer line) (some : lines ≠ []) :
    ∃ front last, paragraphs (Text.trimEnd (subject ++ Text.newline :: Text.newline ::
        (Text.joinLines lines ++ [Text.newline]))) = front ++ [last] ∧ front ≠ [] ∧
      (last = Text.joinLines lines ∨ last = Text.newline :: Text.joinLines lines) := by
  obtain ⟨body, u, shape, visible⟩ := joinLines_ends trailers some
  have trimmed : Text.trimEnd (subject ++ Text.newline :: Text.newline ::
      (Text.joinLines lines ++ [Text.newline])) =
        subject ++ Text.newline :: Text.newline :: Text.joinLines lines := by
    have feed : ∀ v ∈ [Text.newline], Text.isSpace v = true := by
      intro v member
      rw [List.mem_singleton.mp member]
      decide
    have cut : Text.trimEnd ((subject ++ Text.newline :: Text.newline :: body) ++
        u :: [Text.newline]) = (subject ++ Text.newline :: Text.newline :: body) ++ [u] :=
      Text.trimEnd_append_space visible feed
    simpa only [shape, List.append_assoc, List.cons_append, List.nil_append] using cut
  have unbroken : Unbroken (Text.newline :: Text.joinLines lines) := by
    obtain ⟨line, rest, rfl⟩ := List.exists_cons_of_ne_nil some
    rw [Text.newline_cons_joinLines]
    exact unbroken_flatMap fun other member => (trailers other member).toIsSolidLine
  rw [trimmed, paragraphs]
  refine paragraphsFrom_append unbroken _ subject ?_
  simp only [List.length_append, List.length_cons]
  omega

/-- **A trailer is recognised exactly when it is one of the trailers of the message.** -/
theorem hasOpsTrailer_iff (subject batchId : Text) {lines : List Text}
    (trailers : ∀ line ∈ lines, IsTrailer line) (some : lines ≠ []) :
    hasOpsTrailer (subject ++ Text.newline :: Text.newline ::
        (Text.joinLines lines ++ [Text.newline])) batchId = true ↔
      ∃ line ∈ lines, Text.trimEnd line = opsTrailer batchId := by
  obtain ⟨front, last, cut, more, ends⟩ := last_paragraph_message subject trailers some
  have single : ∀ line ∈ lines, Text.newline ∉ line := fun line member =>
    (trailers line member).single
  have long : ¬ (front ++ [last]).length < 2 := by
    have := List.length_pos_iff.mpr more
    simp only [List.length_append, List.length_singleton]
    omega
  simp only [hasOpsTrailer, cut, if_neg long, List.getLast?_concat, Option.getD_some,
    List.any_eq_true, decide_eq_true_eq]
  rcases ends with rfl | rfl
  · rw [Text.lines_joinLines single some]
  · have cons : Text.newline :: Text.joinLines lines = Text.joinLines ([] :: lines) := by
      obtain ⟨line, rest, rfl⟩ := List.exists_cons_of_ne_nil some
      rw [Text.joinLines, Text.joinLines, List.intercalate_cons_cons]
      rfl
    rw [cons, Text.lines_joinLines (by simpa using single) (by simp)]
    simp only [List.mem_cons, exists_eq_or_imp, or_iff_right_iff_imp]
    intro blank
    cases blank

/-! ## The trailers of a batch -/

theorem isSolidLine_lit_append {start rest : Text} (some : start ≠ [])
    (first : ∀ u ∈ start.head?, isBlank u = false) (single : Text.newline ∉ start)
    (single' : Text.newline ∉ rest) : IsSolidLine (start ++ rest) where
  first u head := first u (by rwa [List.head?_append_of_ne_nil _ some] at head)
  some := by simp [some]
  single := by simp [single, single']

/-- The trailer of a batch is a trailer. -/
theorem isTrailer_opsTrailer (id : Uuid) : IsTrailer (opsTrailer id.text) where
  toIsSolidLine := by
    refine isSolidLine_lit_append (by decide) ?_ (by decide) fun member => ?_
    · intro u head
      cases head
      decide
    · exact absurd (id.visible member) (by decide)
  ends := by
    refine ⟨Text.lit "Koklo-Ops: " ++ id.text.dropLast, id.text.getLast id.ne_nil, ?_,
      id.visible (List.getLast_mem id.ne_nil)⟩
    rw [List.append_assoc, List.dropLast_append_getLast id.ne_nil, opsTrailer]

theorem newline_notMem_of_isEmail {value : Text} (email : isEmail value = true) :
    Text.newline ∉ value := by
  intro member
  have whole : [atSign].intercalate (value.splitOn atSign) = value :=
    List.intercalate_splitOn atSign
  rw [← whole] at member
  unfold isEmail at email
  split at email
  · rename_i first second parts
    simp only [Bool.and_eq_true, List.all_eq_true] at email
    rw [parts] at member
    rcases Text.mem_intercalate member with same | ⟨part, known, inside⟩
    · exact absurd same (by decide)
    · have unit : isEmailUnit Text.newline = true := by
        simp only [List.mem_cons, List.not_mem_nil, or_false] at known
        rcases known with rfl | rfl
        · exact email.1.2 _ inside
        · exact email.2 _ inside
      exact absurd unit (by decide)
  · cases email

theorem newline_notMem_cleanName (name : Text) : Text.newline ∉ cleanName name := by
  intro member
  have inside := Text.mem_of_mem_trim (List.mem_of_mem_take (Text.mem_of_mem_trim member))
  have kept := (List.mem_filter.mp inside).2
  exact absurd kept (by decide)

/-- The line of the author is a trailer. -/
theorem isTrailer_coAuthorLine {author : Option BatchAuthor} {line : Text}
    (written : coAuthorLine author = some line) : IsTrailer line := by
  unfold coAuthorLine at written
  split at written
  · cases written
  · rename_i author
    simp only at written
    split at written
    · rename_i email
      cases written
      have address := newline_notMem_of_isEmail email
      have label : Text.newline ∉ orElse (cleanName author.name) (Text.trim author.email) := by
        unfold orElse
        split
        · exact address
        · exact newline_notMem_cleanName author.name
      refine ⟨?_, _, 0x3E, rfl, by decide⟩
      simp only [List.append_assoc]
      refine isSolidLine_lit_append (by decide) ?_ (by decide) ?_
      · intro u head
        cases head
        decide
      · simp only [List.mem_append, not_or]
        exact ⟨label, by decide, address, by decide⟩
    · cases written

theorem isTrailer_trailersOf {id : Uuid} {input : MessageInput} (same : input.batchId = id.text) :
    ∀ line ∈ trailersOf input, IsTrailer line := by
  intro line member
  rcases List.mem_cons.mp member with rfl | author
  · rw [same]
    exact isTrailer_opsTrailer id
  · exact isTrailer_coAuthorLine (Option.mem_toList.mp author)

/-- A trailer has no white space at its end. -/
theorem IsTrailer.trimEnd_eq {line : Text} (trailer : IsTrailer line) : Text.trimEnd line = line := by
  obtain ⟨front, u, rfl, visible⟩ := trailer.ends
  exact List.rdropWhile_concat_neg _ _ _ (by simp [visible])

theorem trimEnd_opsTrailer (id : Uuid) : Text.trimEnd (opsTrailer id.text) = opsTrailer id.text :=
  (isTrailer_opsTrailer id).trimEnd_eq

/-- **The message of a batch carries its trailer.** -/
theorem hasOpsTrailer_buildCommitMessage {id : Uuid} {input : MessageInput}
    (same : input.batchId = id.text) : hasOpsTrailer (buildCommitMessage input) id.text = true := by
  refine (hasOpsTrailer_iff _ _ (isTrailer_trailersOf same) (by simp [trailersOf])).mpr
    ⟨opsTrailer input.batchId, List.mem_cons_self, ?_⟩
  rw [same, trimEnd_opsTrailer]

/-! ## No trailer is forged -/

/-- The line of the author does not name a batch. -/
theorem coAuthorLine_ne_opsTrailer {author : Option BatchAuthor} {line batchId : Text}
    (written : coAuthorLine author = some line) : line ≠ opsTrailer batchId := by
  unfold coAuthorLine at written
  split at written
  · cases written
  · simp only at written
    split at written
    · cases written
      intro same
      have first := congrArg List.head? same
      simp only [opsTrailer, List.append_assoc] at first
      rw [List.head?_append_of_ne_nil _ (by decide), List.head?_append_of_ne_nil _ (by decide)]
        at first
      exact absurd first (by decide)
    · cases written

theorem opsTrailer_injective : Function.Injective opsTrailer := fun _ _ => List.append_cancel_left

/-- **The message of a batch carries the trailer of no other batch**, whatever its text, its
operations and its author are. -/
theorem hasOpsTrailer_buildCommitMessage_iff (batch id : Uuid) (message : Option Text)
    (operations : List BatchOperation) (author : Option BatchAuthor) :
    hasOpsTrailer (buildCommitMessage ⟨batch.text, message, operations, author⟩) id.text = true ↔
      id.text = batch.text := by
  have trailers := @isTrailer_trailersOf batch ⟨batch.text, message, operations, author⟩ rfl
  refine (hasOpsTrailer_iff _ _ trailers (by simp [trailersOf])).trans ?_
  constructor
  · rintro ⟨line, member, named⟩
    rw [(trailers line member).trimEnd_eq] at named
    rcases List.mem_cons.mp member with rfl | written
    · exact (opsTrailer_injective named).symm
    · exact absurd named (coAuthorLine_ne_opsTrailer (Option.mem_toList.mp written))
  · intro same
    exact ⟨opsTrailer batch.text, List.mem_cons_self, by rw [same, trimEnd_opsTrailer]⟩

end Koklo.SpecWrite
