import Koklo.Foundations.CodePoints
import Koklo.Foundations.Decoding
import Koklo.Rules.Resolve

/-!
# Evidence and verdicts

An artifact brings the results of gates and items of evidence; each effective rule that is not
an instruction gets a verdict on it. A gate passes when it was run and never failed, a rule of
evidence when one of its items has a reference that shows something. The report can pass
exactly when every blocking rule is proven (`overall_eq_pass_iff`); it does not depend on the
order of the results and the items (`buildReport_perm`), and a failing result never makes it
pass (`canPass_of_failing`).
-/

set_option autoImplicit false

namespace Koklo.Rules.Evidence

open Koklo.Foundations

/-! ## The artifact and the report -/

/-- The verdict on a rule. -/
inductive Verdict where
  | pass | fail | unverified
deriving DecidableEq

/-- What a verdict rests on. -/
inductive VerdictReason where
  | gatePassed | gateFailed | gateNotRun | evidenceProvided | evidenceMissing | evidenceIncomplete
deriving DecidableEq

/-- The references that are given as evidence of a rule. -/
structure EvidenceItem where
  ruleId : Text
  references : List Text
deriving DecidableEq

/-- The outcome of a gate. -/
inductive GateStatus where
  | pass | fail
deriving DecidableEq

def GateStatus.names : List (GateStatus × Text) := [
  (.pass, Text.lit "pass"),
  (.fail, Text.lit "fail")]

/-- The outcome of the gate of a rule. -/
structure GateResult where
  ruleId : Text
  status : GateStatus
deriving DecidableEq

/-- What an agent hands in. -/
structure EvidenceArtifact where
  evidence : Option (List EvidenceItem)
  gates : Option (List GateResult)
deriving DecidableEq

/-- `artifact.evidence ?? []`. -/
def EvidenceArtifact.items (artifact : EvidenceArtifact) : List EvidenceItem :=
  artifact.evidence.getD []

/-- `artifact.gates ?? []`. -/
def EvidenceArtifact.results (artifact : EvidenceArtifact) : List GateResult :=
  artifact.gates.getD []

/-- The kinds of enforcement that are judged. -/
inductive VerdictKind where
  | gate | evidence
deriving DecidableEq

/-- The verdict on a rule, and what it rests on. -/
structure RuleVerdict where
  ruleId : Text
  severity : Severity
  kind : VerdictKind
  verdict : Verdict
  reason : VerdictReason
deriving DecidableEq

/-- The verdicts on all the rules, and whether they let the work pass. -/
structure EvidenceReport where
  verdicts : List RuleVerdict
  unknownRuleIds : List Text
  overall : Verdict
  canPass : Bool
deriving DecidableEq

/-- The codes of the errors. -/
inductive EvidenceErrorCode where
  | invalidShape
deriving DecidableEq

/-- Why an artifact is refused. -/
structure EvidenceError where
  code : EvidenceErrorCode
  message : Text
  path : Option Text
deriving DecidableEq

/-! ## Reading the artifact -/

section Schema

open Decoding

variable (message : Defect → Text)

/-- `z.string().min(1)`. -/
def ruleIdSchema : Decoder Text := textWith message (Validation.nonEmptyText message)

def evidenceItemSchema : Decoder EvidenceItem :=
  strictRecord message (["ruleId", "references"].map Text.lit) fun fields =>
    ((Decoded.ap (.ok EvidenceItem.mk)
      (field fields (Text.lit "ruleId") (ruleIdSchema message))).ap
      (field fields (Text.lit "references") (listOf message (textWith message fun _ => []))))

def gateResultSchema : Decoder GateResult :=
  strictRecord message (["ruleId", "status"].map Text.lit) fun fields =>
    ((Decoded.ap (.ok GateResult.mk)
      (field fields (Text.lit "ruleId") (ruleIdSchema message))).ap
      (field fields (Text.lit "status") (oneOf message GateStatus.names)))

def artifactSchema : Decoder EvidenceArtifact :=
  strictRecord message (["evidence", "gates"].map Text.lit) fun fields =>
    ((Decoded.ap (.ok EvidenceArtifact.mk)
      (field fields (Text.lit "evidence") (optional (listOf message (evidenceItemSchema message))))).ap
      (field fields (Text.lit "gates") (optional (listOf message (gateResultSchema message)))))

/-- An error without any text of the artifact: the path of the field only. -/
def invalidShape (path : List Text) : EvidenceError :=
  let joined := (Text.lit ".").intercalate path
  ⟨.invalidShape, Text.lit "the evidence artifact is malformed",
    if joined = [] then none else some joined⟩

/-- The artifact of an input, or the first of its defects. -/
def parseArtifact (input : Option Data) : Except EvidenceError EvidenceArtifact :=
  match artifactSchema message input with
  | .ok artifact => .ok artifact
  | .error issues => .error (invalidShape ((issues.head?.map SchemaIssue.path).getD []))

end Schema

/-! ## Verdicts -/

/-- The ranges of `\p{White_Space}`, `\p{Cc}`, `\p{Cf}` and `\p{Zs}`, and the fillers. -/
def invisibleRanges : List (ℕ × ℕ) := [
  (0x00, 0x20), (0x7F, 0xA0), (0xAD, 0xAD), (0x600, 0x605), (0x61C, 0x61C), (0x6DD, 0x6DD),
  (0x70F, 0x70F), (0x890, 0x891), (0x8E2, 0x8E2), (0x115F, 0x1160), (0x1680, 0x1680),
  (0x180E, 0x180E), (0x2000, 0x200F), (0x2028, 0x202F), (0x205F, 0x2064), (0x2066, 0x206F),
  (0x2800, 0x2800), (0x3000, 0x3000), (0x3164, 0x3164), (0xFEFF, 0xFEFF), (0xFFA0, 0xFFA0),
  (0xFFF9, 0xFFFB), (0x110BD, 0x110BD), (0x110CD, 0x110CD), (0x13430, 0x1343F),
  (0x1BCA0, 0x1BCA3), (0x1D173, 0x1D17A), (0xE0001, 0xE0001), (0xE0020, 0xE007F)]

/-- The code point is of one of the invisible ranges. -/
def isInvisible (codePoint : ℕ) : Bool :=
  invisibleRanges.any fun (first, last) => first ≤ codePoint && codePoint ≤ last

/-- `INVISIBLE_ONLY`. -/
def invisibleOnly (reference : Text) : Bool :=
  (Text.codePoints reference).all fun point => isInvisible (Text.codePointAt point)

/-- The verdict of a gate: one result that fails is enough, and one is needed to pass. -/
def gateOutcome (id : Text) (artifact : EvidenceArtifact) : Verdict × VerdictReason :=
  let results := artifact.results.filter (·.ruleId = id)
  if results.any (·.status = .fail) then (.fail, .gateFailed)
  else if 0 < results.length then (.pass, .gatePassed)
  else (.unverified, .gateNotRun)

/-- The verdict of an evidence: one visible reference is enough. -/
def evidenceOutcome (id : Text) (artifact : EvidenceArtifact) : Verdict × VerdictReason :=
  let items := artifact.items.filter (·.ruleId = id)
  if items.length = 0 then (.unverified, .evidenceMissing)
  else if items.any fun item => item.references.any fun reference => !invisibleOnly reference then
    (.pass, .evidenceProvided)
  else (.unverified, .evidenceIncomplete)

/-- The verdict of an effective rule; there is nothing to prove for an instruction. -/
def verdictFor (rule : EffectiveRule) (artifact : EvidenceArtifact) : Option RuleVerdict :=
  match rule.enforcement.kind with
  | .instruction => none
  | .gate =>
    let (verdict, reason) := gateOutcome rule.id artifact
    some ⟨rule.id, rule.severity, .gate, verdict, reason⟩
  | .evidence =>
    let (verdict, reason) := evidenceOutcome rule.id artifact
    some ⟨rule.id, rule.severity, .evidence, verdict, reason⟩

/-- The worst verdict on the rules of a severity. -/
def worst (verdicts : List RuleVerdict) (severity : Severity) : Verdict :=
  let blocking := verdicts.filter (·.severity = severity)
  if blocking.any (·.verdict = .fail) then .fail
  else if blocking.any (·.verdict = .unverified) then .unverified
  else .pass

/-- The verdicts of the rules, in the order of their ids. -/
def verdictsOf (rules : List EffectiveRule) (artifact : EvidenceArtifact) : List RuleVerdict :=
  sortWith (fun a b => compareText a.ruleId b.ruleId)
    (rules.filterMap fun rule => verdictFor rule artifact)

/-- The report of an artifact. -/
def buildReport (resolution : Resolution) (artifact : EvidenceArtifact) : EvidenceReport :=
  let verdicts := verdictsOf resolution.rules artifact
  let judged := verdicts.map RuleVerdict.ruleId
  let proven := artifact.items.map EvidenceItem.ruleId ++ artifact.results.map GateResult.ruleId
  let overall := worst verdicts .blocking
  { verdicts := verdicts
    unknownRuleIds := sortedUnique (proven.filter (· ∉ judged))
    overall := overall
    canPass := overall = .pass }

/-- The report of an input that is an artifact. -/
def validateEvidence (message : Defect → Text) (resolution : Resolution) (artifact : Option Data) :
    Except EvidenceError EvidenceReport :=
  (parseArtifact message artifact).map (buildReport resolution)

/-! ## What is proven -/

/-- A text that shows something. -/
def Visible (reference : Text) : Prop :=
  ∃ point ∈ Text.codePoints reference, isInvisible (Text.codePointAt point) = false

/-- A gate that was run, and never failed. -/
structure GateProven (id : Text) (artifact : EvidenceArtifact) : Prop where
  run : ∃ result ∈ artifact.results, result.ruleId = id
  passed : ∀ result ∈ artifact.results, result.ruleId = id → result.status ≠ .fail

/-- A rule of evidence with an item that has a visible reference. -/
def EvidenceProven (id : Text) (artifact : EvidenceArtifact) : Prop :=
  ∃ item ∈ artifact.items, item.ruleId = id ∧ ∃ reference ∈ item.references, Visible reference

/-- Every blocking rule is proven. -/
structure BlockingProven (rules : List EffectiveRule) (artifact : EvidenceArtifact) : Prop where
  gates : ∀ rule ∈ rules, rule.severity = .blocking → rule.enforcement.kind = .gate →
    GateProven rule.id artifact
  evidence : ∀ rule ∈ rules, rule.severity = .blocking → rule.enforcement.kind = .evidence →
    EvidenceProven rule.id artifact

theorem visible_iff {reference : Text} : Visible reference ↔ invisibleOnly reference = false := by
  rw [Visible, invisibleOnly, List.all_eq_false]
  constructor
  · rintro ⟨point, member, shown⟩
    exact ⟨point, member, by rw [shown]; exact Bool.false_ne_true⟩
  · rintro ⟨point, member, shown⟩
    exact ⟨point, member, Bool.not_eq_true _ ▸ shown⟩

/-- A gate passes when it was run and never failed. -/
theorem gateOutcome_eq_pass_iff {id : Text} {artifact : EvidenceArtifact} :
    (gateOutcome id artifact).1 = .pass ↔ GateProven id artifact := by
  simp only [gateOutcome]
  split
  · rename_i failed
    refine iff_of_false (by decide) fun proven => ?_
    obtain ⟨result, member, status⟩ := List.any_eq_true.mp failed
    obtain ⟨inside, mine⟩ := List.mem_filter.mp member
    exact proven.passed result inside (of_decide_eq_true mine) (of_decide_eq_true status)
  · rename_i passed
    split
    · rename_i some
      refine iff_of_true rfl ⟨?_, ?_⟩
      · obtain ⟨result, member⟩ := List.exists_mem_of_length_pos some
        obtain ⟨inside, mine⟩ := List.mem_filter.mp member
        exact ⟨result, inside, of_decide_eq_true mine⟩
      · intro result inside mine failed
        apply passed
        rw [List.any_eq_true]
        exact ⟨result, List.mem_filter.mpr ⟨inside, decide_eq_true mine⟩, decide_eq_true failed⟩
    · rename_i none_
      refine iff_of_false (by decide) fun proven => none_ ?_
      obtain ⟨result, inside, mine⟩ := proven.run
      exact List.length_pos_of_mem (List.mem_filter.mpr ⟨inside, decide_eq_true mine⟩)

/-- A rule of evidence passes when one of its items has a visible reference. -/
theorem evidenceOutcome_eq_pass_iff {id : Text} {artifact : EvidenceArtifact} :
    (evidenceOutcome id artifact).1 = .pass ↔ EvidenceProven id artifact := by
  have complete : ((artifact.items.filter (·.ruleId = id)).any fun item =>
      item.references.any fun reference => !invisibleOnly reference) = true ↔
      EvidenceProven id artifact := by
    rw [List.any_eq_true, EvidenceProven]
    constructor
    · rintro ⟨item, member, shown⟩
      obtain ⟨inside, mine⟩ := List.mem_filter.mp member
      obtain ⟨reference, known, visible⟩ := List.any_eq_true.mp shown
      rw [Bool.not_eq_true'] at visible
      exact ⟨item, inside, of_decide_eq_true mine, reference, known, visible_iff.mpr visible⟩
    · rintro ⟨item, inside, mine, reference, known, visible⟩
      refine ⟨item, List.mem_filter.mpr ⟨inside, decide_eq_true mine⟩, List.any_eq_true.mpr ?_⟩
      exact ⟨reference, known, by rw [visible_iff.mp visible]; rfl⟩
  simp only [evidenceOutcome]
  split
  · rename_i empty
    refine iff_of_false (by decide) fun proven => ?_
    obtain ⟨item, inside, mine, _⟩ := proven
    have member : item ∈ artifact.items.filter (·.ruleId = id) :=
      List.mem_filter.mpr ⟨inside, decide_eq_true mine⟩
    exact absurd empty (List.length_pos_of_mem member).ne'
  · split
    · rename_i shown
      exact iff_of_true rfl (complete.mp shown)
    · rename_i hidden
      exact iff_of_false (by decide) fun proven => hidden (complete.mpr proven)

/-! ## The overall verdict -/

/-- The worst verdict is a pass when each of them is. -/
theorem worst_eq_pass_iff {verdicts : List RuleVerdict} {severity : Severity} :
    worst verdicts severity = .pass ↔
      ∀ verdict ∈ verdicts, verdict.severity = severity → verdict.verdict = .pass := by
  simp only [worst]
  split
  · rename_i failed
    refine iff_of_false (by decide) fun all => ?_
    obtain ⟨verdict, member, status⟩ := List.any_eq_true.mp failed
    obtain ⟨inside, mine⟩ := List.mem_filter.mp member
    have pass := all verdict inside (of_decide_eq_true mine)
    exact absurd (pass.symm.trans (of_decide_eq_true status)) (by decide)
  · rename_i passed
    split
    · rename_i open_
      refine iff_of_false (by decide) fun all => ?_
      obtain ⟨verdict, member, status⟩ := List.any_eq_true.mp open_
      obtain ⟨inside, mine⟩ := List.mem_filter.mp member
      have pass := all verdict inside (of_decide_eq_true mine)
      exact absurd (pass.symm.trans (of_decide_eq_true status)) (by decide)
    · rename_i closed
      refine iff_of_true rfl fun verdict inside mine => ?_
      have member : verdict ∈ verdicts.filter (·.severity = severity) :=
        List.mem_filter.mpr ⟨inside, decide_eq_true mine⟩
      cases status : verdict.verdict with
      | pass => rfl
      | fail => exact absurd (List.any_eq_true.mpr ⟨verdict, member, decide_eq_true status⟩) passed
      | unverified =>
        exact absurd (List.any_eq_true.mpr ⟨verdict, member, decide_eq_true status⟩) closed

/-- **The verdict of a rule is a pass when the rule is proven.** -/
theorem verdictFor_spec {rule : EffectiveRule} {artifact : EvidenceArtifact} :
    (rule.enforcement.kind = .instruction ∧ verdictFor rule artifact = none) ∨
    (rule.enforcement.kind = .gate ∧ ∃ verdict, verdictFor rule artifact = some verdict ∧
      verdict.severity = rule.severity ∧ (verdict.verdict = .pass ↔ GateProven rule.id artifact)) ∨
    (rule.enforcement.kind = .evidence ∧ ∃ verdict, verdictFor rule artifact = some verdict ∧
      verdict.severity = rule.severity ∧
      (verdict.verdict = .pass ↔ EvidenceProven rule.id artifact)) := by
  cases kind : rule.enforcement.kind with
  | instruction => exact .inl ⟨rfl, by rw [verdictFor, kind]⟩
  | gate =>
    refine .inr (.inl ⟨rfl, _, by rw [verdictFor, kind], rfl, ?_⟩)
    exact gateOutcome_eq_pass_iff
  | evidence =>
    refine .inr (.inr ⟨rfl, _, by rw [verdictFor, kind], rfl, ?_⟩)
    exact evidenceOutcome_eq_pass_iff

/-- The verdicts are those of the rules. -/
theorem mem_verdictsOf {rules : List EffectiveRule} {artifact : EvidenceArtifact}
    {verdict : RuleVerdict} :
    verdict ∈ verdictsOf rules artifact ↔ ∃ rule ∈ rules, verdictFor rule artifact = some verdict := by
  rw [verdictsOf, (perm_sortWith _ _).mem_iff, List.mem_filterMap]

/-- **The report can pass exactly when every blocking rule is proven.** -/
theorem overall_eq_pass_iff {rules : List EffectiveRule} {artifact : EvidenceArtifact} :
    worst (verdictsOf rules artifact) .blocking = .pass ↔ BlockingProven rules artifact := by
  rw [worst_eq_pass_iff]
  constructor
  · intro all
    refine ⟨fun rule known blocking kind => ?_, fun rule known blocking kind => ?_⟩
    · rcases @verdictFor_spec rule artifact with ⟨other, _⟩ | ⟨_, verdict, judged, severity, iff⟩ |
        ⟨other, _⟩
      · exact absurd (kind.symm.trans other) (by decide)
      · exact iff.mp (all verdict (mem_verdictsOf.mpr ⟨rule, known, judged⟩) (severity.trans blocking))
      · exact absurd (kind.symm.trans other) (by decide)
    · rcases @verdictFor_spec rule artifact with ⟨other, _⟩ | ⟨other, _⟩ |
        ⟨_, verdict, judged, severity, iff⟩
      · exact absurd (kind.symm.trans other) (by decide)
      · exact absurd (kind.symm.trans other) (by decide)
      · exact iff.mp (all verdict (mem_verdictsOf.mpr ⟨rule, known, judged⟩) (severity.trans blocking))
  · intro proven verdict member blocking
    obtain ⟨rule, known, judged⟩ := mem_verdictsOf.mp member
    rcases @verdictFor_spec rule artifact with ⟨_, none_⟩ | ⟨kind, own, judged', severity, iff⟩ |
      ⟨kind, own, judged', severity, iff⟩
    · cases judged.symm.trans none_
    · cases judged.symm.trans judged'
      exact iff.mpr (proven.gates rule known (severity.symm.trans blocking) kind)
    · cases judged.symm.trans judged'
      exact iff.mpr (proven.evidence rule known (severity.symm.trans blocking) kind)

/-! ## The order of the artifact -/

/-- The same results and the same items, in any order. -/
structure EvidenceArtifact.Permuted (artifact other : EvidenceArtifact) : Prop where
  items : artifact.items.Perm other.items
  results : artifact.results.Perm other.results

section Permuted

variable {artifact other : EvidenceArtifact}

theorem gateOutcome_perm (same : artifact.Permuted other) (id : Text) :
    gateOutcome id artifact = gateOutcome id other := by
  have results := same.results.filter fun result => result.ruleId = id
  simp only [gateOutcome, results.length_eq, results.any_eq]

theorem evidenceOutcome_perm (same : artifact.Permuted other) (id : Text) :
    evidenceOutcome id artifact = evidenceOutcome id other := by
  have items := same.items.filter fun item => item.ruleId = id
  simp only [evidenceOutcome, items.length_eq, items.any_eq]

theorem verdictFor_perm (same : artifact.Permuted other) (rule : EffectiveRule) :
    verdictFor rule artifact = verdictFor rule other := by
  simp only [verdictFor, gateOutcome_perm same, evidenceOutcome_perm same]

/-- The texts of a set are sorted into one list. -/
theorem sortedUnique_perm {texts others : List Text} (same : texts.Perm others) :
    sortedUnique texts = sortedUnique others := by
  have unique : (uniqueItems texts).Perm (uniqueItems others) := by
    rw [List.perm_ext_iff_of_nodup (nodup_uniqueItems _) (nodup_uniqueItems _)]
    intro text
    rw [mem_uniqueItems, mem_uniqueItems, same.mem_iff]
  apply @sortWith_perm _ _ _ id _ (fun a b => compareText_le_zero_iff) _ _ unique
  rw [List.map_id]
  exact nodup_uniqueItems texts

/-- **The report does not depend on the order of the results and the items.** -/
theorem buildReport_perm (same : artifact.Permuted other) (resolution : Resolution) :
    buildReport resolution artifact = buildReport resolution other := by
  have verdicts : verdictsOf resolution.rules artifact = verdictsOf resolution.rules other := by
    simp only [verdictsOf, verdictFor_perm same]
  have ids := (same.items.map EvidenceItem.ruleId).append (same.results.map GateResult.ruleId)
  simp only [buildReport, verdicts]
  rw [sortedUnique_perm (ids.filter _)]

end Permuted

/-! ## A failing result -/

/-- The artifact with one more result, wherever it stands. -/
structure EvidenceArtifact.Adds (artifact more : EvidenceArtifact) (result : GateResult) : Prop where
  items : artifact.items.Perm more.items
  results : (result :: artifact.results).Perm more.results

/-- What is proven with a failing result was proven without it. -/
theorem BlockingProven.of_failing {rules : List EffectiveRule} {artifact more : EvidenceArtifact}
    {result : GateResult} (added : artifact.Adds more result) (failing : result.status = .fail)
    (proven : BlockingProven rules more) : BlockingProven rules artifact where
  gates rule known blocking kind := by
    obtain ⟨⟨passing, inside, mine⟩, passed⟩ := proven.gates rule known blocking kind
    refine ⟨?_, fun known_ inside_ => passed known_ (added.results.subset (.tail _ inside_))⟩
    rcases List.mem_cons.mp (added.results.mem_iff.mpr inside) with rfl | old
    · exact absurd failing (passed passing inside mine)
    · exact ⟨passing, old, mine⟩
  evidence rule known blocking kind := by
    obtain ⟨item, inside, rest⟩ := proven.evidence rule known blocking kind
    exact ⟨item, added.items.mem_iff.mpr inside, rest⟩

/-! ## The verdict -/

/-- **The evidence verdict is exact and monotone.** A report is made of any artifact that is
read: it can pass exactly when every blocking rule is proven, it is the same for any order of
the results and the items, and it does not pass with one more failing result unless it did
without it. -/
theorem evidence_verdict_exact {message : Defect → Text} {resolution : Resolution} {data : Option Data}
    {artifact : EvidenceArtifact} (parsed : parseArtifact message data = .ok artifact) :
    ∃ report, validateEvidence message resolution data = .ok report ∧
      (report.canPass = true ↔ report.overall = .pass) ∧
      (report.canPass = true ↔ BlockingProven resolution.rules artifact) ∧
      (∀ data' other, parseArtifact message data' = .ok other → artifact.Permuted other →
        validateEvidence message resolution data' = .ok report) ∧
      (∀ data' more result, parseArtifact message data' = .ok more → artifact.Adds more result →
        result.status = .fail → report.overall ≠ .pass →
        ∃ report', validateEvidence message resolution data' = .ok report' ∧
          report'.overall ≠ .pass) := by
  have validated : ∀ {data artifact}, parseArtifact message data = .ok artifact →
      validateEvidence message resolution data = .ok (buildReport resolution artifact) := by
    intro data artifact parsed
    rw [validateEvidence, parsed]
    rfl
  refine ⟨_, validated parsed, decide_eq_true_iff, decide_eq_true_iff.trans overall_eq_pass_iff,
    ?_, ?_⟩
  · intro data' other parsed' same
    rw [validated parsed', buildReport_perm same]
  · intro data' more result parsed' added failing refused
    refine ⟨_, validated parsed', fun passes => refused ?_⟩
    exact overall_eq_pass_iff.mpr ((overall_eq_pass_iff.mp passes).of_failing added failing)

/-! ## A gate that was run -/

/-- A blocking gate. -/
def secretsRule : EffectiveRule where
  id := Text.lit "global.secrets"
  title := Text.lit "Secrets"
  description := Text.lit "No secret in the code."
  profiles := [coreProfile]
  agents := [.developer]
  severity := .blocking
  isProtected := true
  enforcement := .gate (Text.lit "gitleaks") none none
  origin := .catalog
  locked := true
  paths := []
  excludePaths := []
  trace := []

def secretsResolution : Resolution where
  catalogVersion := Text.lit "1.0.0"
  role := .developer
  path := Text.lit "src/index.ts"
  profiles := [coreProfile]
  rules := [secretsRule]
  conflicts := []
  disabled := []
  waivers := []

/-- A result of the gate, as it is read. -/
def secretsResult (status : String) : Data :=
  .record [(Text.lit "ruleId", .text (Text.lit "global.secrets")),
    (Text.lit "status", .text (Text.lit status))]

def secretsData : Data := .record [(Text.lit "gates", .list [secretsResult "pass"])]

def secretsArtifact : EvidenceArtifact := ⟨none, some [⟨Text.lit "global.secrets", .pass⟩]⟩

theorem evidence_verdict_exact_secrets :
    ∃ report, validateEvidence (fun _ => []) secretsResolution (some secretsData) = .ok report ∧
      (report.canPass = true ↔ report.overall = .pass) ∧
      (report.canPass = true ↔ BlockingProven secretsResolution.rules secretsArtifact) ∧
      (∀ data' other, parseArtifact (fun _ => []) data' = .ok other →
        secretsArtifact.Permuted other →
        validateEvidence (fun _ => []) secretsResolution data' = .ok report) ∧
      (∀ data' more result, parseArtifact (fun _ => []) data' = .ok more →
        secretsArtifact.Adds more result → result.status = .fail → report.overall ≠ .pass →
        ∃ report', validateEvidence (fun _ => []) secretsResolution data' = .ok report' ∧
          report'.overall ≠ .pass) :=
  evidence_verdict_exact (by decide +kernel)

/-- The gate has failed in a later run. -/
example : (validateEvidence (fun _ => []) secretsResolution
    (some (.record [(Text.lit "gates", .list [secretsResult "pass", secretsResult "fail"])]))).map
      (·.overall) = .ok .fail := by
  decide +kernel

end Koklo.Rules.Evidence
