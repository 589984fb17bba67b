import Koklo.Foundations.StableSort
import Koklo.Schema.Yaml

/-!
# The issues of a specification

An issue is of structure, or breaks one of the rules 4, 5 and 7. Issues are sorted by path, pointer,
code and message. A report counts them, and is fine without error.
-/

set_option autoImplicit false

namespace Koklo.Schema

open Koklo.Foundations

/-- The code as it is written. -/
def StructCode.name : StructCode → Text
  | yamlSyntax => Text.lit "STRUCT_YAML_SYNTAX"
  | duplicateKey => Text.lit "STRUCT_DUPLICATE_KEY"
  | yamlForbiddenFeature => Text.lit "STRUCT_YAML_FORBIDDEN_FEATURE"
  | multipleDocuments => Text.lit "STRUCT_MULTIPLE_DOCUMENTS"
  | fileTooLarge => Text.lit "STRUCT_FILE_TOO_LARGE"
  | jsonSyntax => Text.lit "STRUCT_JSON_SYNTAX"
  | frontMatterMissing => Text.lit "STRUCT_FRONT_MATTER_MISSING"
  | markdownSyntax => Text.lit "STRUCT_MARKDOWN_SYNTAX"
  | schemaViolation => Text.lit "STRUCT_SCHEMA_VIOLATION"
  | unsupportedSpecVersion => Text.lit "STRUCT_UNSUPPORTED_SPEC_VERSION"
  | idMismatch => Text.lit "STRUCT_ID_MISMATCH"
  | duplicateId => Text.lit "STRUCT_DUPLICATE_ID"

/-- `ISSUE_CODES`. -/
inductive IssueCode where
  | struct (code : StructCode)
  | r4UnknownFeature
  | r4UnknownCriterion
  | r4UnknownTable
  | r4UnknownField
  | r4UnknownEndpoint
  | r4UnknownScreen
  | r4MalformedDataRef
  | r4UnknownRole
  | r4UnknownPermission
  | r4UnknownRule
  | r5SpecifiedWithoutScreenOrEndpoint
  | r5ImplementedCriterionWithoutTest
  | r5ImplementedWithoutCriteria
  | r5CriterionIncomplete
  | r7OrphanTable
  | r7OrphanEndpoint
  | r7OrphanScreen
  | r7OrphanTest
  | r7OrphanRole
  | r7OrphanPermission
  | r7OrphanRule
deriving DecidableEq

/-- The code as it is written. -/
def IssueCode.name : IssueCode → Text
  | struct code => code.name
  | r4UnknownFeature => Text.lit "R4_UNKNOWN_FEATURE"
  | r4UnknownCriterion => Text.lit "R4_UNKNOWN_CRITERION"
  | r4UnknownTable => Text.lit "R4_UNKNOWN_TABLE"
  | r4UnknownField => Text.lit "R4_UNKNOWN_FIELD"
  | r4UnknownEndpoint => Text.lit "R4_UNKNOWN_ENDPOINT"
  | r4UnknownScreen => Text.lit "R4_UNKNOWN_SCREEN"
  | r4MalformedDataRef => Text.lit "R4_MALFORMED_DATA_REF"
  | r4UnknownRole => Text.lit "R4_UNKNOWN_ROLE"
  | r4UnknownPermission => Text.lit "R4_UNKNOWN_PERMISSION"
  | r4UnknownRule => Text.lit "R4_UNKNOWN_RULE"
  | r5SpecifiedWithoutScreenOrEndpoint => Text.lit "R5_SPECIFIED_WITHOUT_SCREEN_OR_ENDPOINT"
  | r5ImplementedCriterionWithoutTest => Text.lit "R5_IMPLEMENTED_CRITERION_WITHOUT_TEST"
  | r5ImplementedWithoutCriteria => Text.lit "R5_IMPLEMENTED_WITHOUT_CRITERIA"
  | r5CriterionIncomplete => Text.lit "R5_CRITERION_INCOMPLETE"
  | r7OrphanTable => Text.lit "R7_ORPHAN_TABLE"
  | r7OrphanEndpoint => Text.lit "R7_ORPHAN_ENDPOINT"
  | r7OrphanScreen => Text.lit "R7_ORPHAN_SCREEN"
  | r7OrphanTest => Text.lit "R7_ORPHAN_TEST"
  | r7OrphanRole => Text.lit "R7_ORPHAN_ROLE"
  | r7OrphanPermission => Text.lit "R7_ORPHAN_PERMISSION"
  | r7OrphanRule => Text.lit "R7_ORPHAN_RULE"

/-- The rules that issues come from. -/
inductive IssueRule where
  | structural | rule4 | rule5 | rule7
deriving DecidableEq

/-- The rule as it is written. -/
def IssueRule.name : IssueRule → Text
  | structural => Text.lit "structure"
  | rule4 => Text.lit "4"
  | rule5 => Text.lit "5"
  | rule7 => Text.lit "7"

/-- The severities of issues. -/
inductive Severity where
  | error | warning
deriving DecidableEq

/-- An issue of any rule. -/
structure SpecIssue where
  rule : IssueRule
  code : IssueCode
  severity : Severity
  path : Text
  pointer : Text
  entityId : Option Text
  message : Text
deriving DecidableEq

/-- An issue of structure, among the others. -/
def Issue.toSpecIssue (issue : Issue) : SpecIssue where
  rule := .structural
  code := .struct issue.code
  severity := .error
  path := issue.path
  pointer := issue.pointer
  entityId := issue.entityId
  message := issue.message

/-- An issue of a rule: rule 7 warns, rules 4 and 5 refuse. -/
def ruleIssue (rule : IssueRule) (code : IssueCode) (path pointer : Text) (entityId : Option Text)
    (message : Text) : SpecIssue where
  rule := rule
  code := code
  severity := if rule = .rule7 then .warning else .error
  path := path
  pointer := pointer
  entityId := entityId
  message := message

/-- `a || b` on comparisons. -/
def compareThen (first second : ℤ) : ℤ := if first = 0 then second else first

/-- Issues are compared by path, pointer, code and message. -/
def compareIssues (a b : SpecIssue) : ℤ :=
  compareThen (compareText a.path b.path) (compareThen (compareText a.pointer b.pointer)
    (compareThen (compareText a.code.name b.code.name) (compareText a.message b.message)))

/-- The issues in their order. -/
def sortIssues (issues : List SpecIssue) : List SpecIssue := sortWith compareIssues issues

theorem mem_sortIssues {issues : List SpecIssue} {issue : SpecIssue} :
    issue ∈ sortIssues issues ↔ issue ∈ issues := (perm_sortWith compareIssues issues).mem_iff

/-- How many issues there are of each severity. -/
structure IssueCounts where
  error : ℕ
  warning : ℕ
deriving DecidableEq

/-- The report of a validation. -/
structure ValidationReport where
  ok : Bool
  counts : IssueCounts
  issues : List SpecIssue
deriving DecidableEq

/-- The report of issues, ok when none is an error. -/
def buildReport (issues : List SpecIssue) : ValidationReport :=
  let sorted := sortIssues issues
  let error := sorted.countP fun issue => issue.severity = .error
  { ok := error == 0
    counts := ⟨error, sorted.length - error⟩
    issues := sorted }

end Koklo.Schema
