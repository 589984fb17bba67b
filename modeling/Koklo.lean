import Koklo.Foundations.Text
import Koklo.Foundations.Decimal
import Koklo.Foundations.Number
import Koklo.Foundations.Fallible
import Koklo.Foundations.Runs
import Koklo.Foundations.OrderedMap
import Koklo.Foundations.Digraph
import Koklo.Foundations.SortedInsert
import Koklo.Foundations.StableSort
import Koklo.Domain.TicketKey
import Koklo.Domain.DependencyGraph
import Koklo.Domain.DependencyHistory
import Koklo.Domain.TicketTransitions
import Koklo.Tracker.TicketLifeCycle
import Koklo.Tracker.DependencyWrites
import Koklo.SpecWrite.Message
import Koklo.SpecWrite.Execution
import Koklo.SpecWrite.AtMostOnce
import Koklo.SpecWrite.Settlement
import Koklo.Delivery.RunSafety
import Koklo.Delivery.RunWork
import Koklo.Foundations.Pattern
import Koklo.Foundations.Validation
import Koklo.Foundations.Regex
import Koklo.Foundations.Decoding
import Koklo.Foundations.Json
import Koklo.Rules.RuleTypes
import Koklo.Rules.Strength
import Koklo.Rules.ScopeMatch
import Koklo.Rules.LayerParsing
import Koklo.Rules.Compose
import Koklo.Rules.LockedRules
import Koklo.Rules.Resolve
import Koklo.Rules.PresentationOrder
import Koklo.Schema.Feature
import Koklo.Schema.Yaml
import Koklo.Schema.Markdown
import Koklo.Schema.FeatureMarkdown
import Koklo.Schema.Emittable
import Koklo.Schema.FrontMatter
import Koklo.Schema.PlainYaml
import Koklo.Schema.EmittedFile
import Koklo.Schema.RoundTrip
import Koklo.Schema.CriteriaLines
import Koklo.Foundations.Logged
import Koklo.Delivery.QuotaBackoff
import Koklo.Delivery.QuotaPersistence
import Koklo.Foundations.Base64
import Koklo.Foundations.Keyset
import Koklo.Lists.ListSources
import Koklo.Llm.Providers
import Koklo.Llm.Router
import Koklo.Llm.RouterPolicy
import Koklo.SpecPlan.Criteria
import Koklo.SpecPlan.CriteriaHistory
import Koklo.Crypto.KeyRing
import Koklo.Crypto.Rotation
import Koklo.Crypto.RotationSafety
import Koklo.Delivery.QuotaAccounting
import Koklo.Domain.Lease
import Koklo.Domain.LeaseHistory
import Koklo.Foundations.Occurrences
import Koklo.Foundations.ReadCommitted
import Koklo.Llm.PromptForgery
import Koklo.Schema.Entities
import Koklo.Schema.ReferenceValidation
import Koklo.Tracker.LeasePromises
import Koklo.Webhook.BranchIndex
import Koklo.Webhook.HeadConvergence
import Koklo.Foundations.RowSuccession
import Koklo.Webhook.Deliveries
import Koklo.Webhook.DeliverySafety
import Koklo.Webhook.IndexRows
import Koklo.Webhook.IndexRowsSafety
import Koklo.Foundations.UniqueUpdate
import Koklo.Tracker.SprintLifeCycle
import Koklo.Foundations.CommittedCounts
import Koklo.Foundations.Exclusion
import Koklo.Foundations.JsonLayout
import Koklo.Foundations.JsonValues
import Koklo.Foundations.Rows
import Koklo.Foundations.UniqueKey
import Koklo.Members.Authority
import Koklo.Members.ClientLinks
import Koklo.Members.ClientLinksSafety
import Koklo.Schema.Canonical
import Koklo.SpecBatch.BatchContent
import Koklo.SpecBatch.Numbering
import Koklo.SpecBatch.SubmissionInvariant
import Koklo.SpecBatch.SubmissionSafety
import Koklo.Suggestions.SuggestionLimits
import Koklo.Delivery.ClaudeStream
import Koklo.Delivery.QuotaLateUsage
import Koklo.Delivery.QuotaReplay
import Koklo.Delivery.QuotaStart
import Koklo.Delivery.Redaction
import Koklo.Delivery.RedactionTwice
import Koklo.Foundations.Wildcards
import Koklo.Rules.Evidence
import Koklo.Rules.ScopePatterns
import Koklo.Delivery.QuotaFences
import Koklo.Schema.CanonicalJson
import Koklo.Domain.Lock
import Koklo.Domain.SelectionOrder
import Koklo.Foundations.AddressText
import Koklo.Foundations.LargeNumbers
import Koklo.Foundations.Rotation
import Koklo.Lists.CursorCodes
import Koklo.Llm.IpAddress
import Koklo.Llm.PrivateAddresses
import Koklo.Reconcile.PullRequestFairness
import Koklo.SpecPlan.CriteriaNumbers
import Koklo.SpecPlan.FeaturePaths
import Koklo.SpecPlan.PlanBatch
import Koklo.SpecPlan.PlannedFiles
import Koklo.Foundations.Replacement
import Koklo.Foundations.SlidingWindow
import Koklo.Ai.CallQuota
import Koklo.Ai.Admissions
import Koklo.Ai.QuotaWindow
import Koklo.Ai.QuotaKept
import Koklo.Ai.CallPlaces
import Koklo.Foundations.BareJson
import Koklo.Installation.AuthState
import Koklo.Installation.Linking
import Koklo.Installation.LinkingTrail
import Koklo.Installation.LinkingOnce
import Koklo.Installation.LinkingTokens
import Koklo.SpecPlan.CommittedSpec
import Koklo.SpecPlan.FeatureEdits
import Koklo.SprintImport.SprintLines
import Koklo.SprintImport.TicketDraft
import Koklo.SprintImport.TaskZone
import Koklo.SprintImport.SprintFile
import Koklo.SprintImport.TaskZoneLines
import Koklo.Schema.SectionPlaces
import Koklo.Schema.SectionTexts
import Koklo.SpecPlan.TextKept
