import Mathlib.Algebra.Order.Floor.Defs
import Mathlib.Data.Rat.Floor
import Koklo.Foundations.Decoding

/-!
# Providers of language models

The closed list of providers an organisation can bring a key for, the request
and the answer of the port, the errors it can throw, and the price of a call.

A provider that relays to others is an intermediary, and only an intermediary
is excluded when the data must stay in the European Union
(`euEligible_iff`). A model that no table lists is charged the highest price
known.
-/

set_option autoImplicit false

namespace Koklo.Llm

open Foundations

/-- The providers a key can be stored for. -/
inductive LlmProviderId where
  | anthropic
  | openai
  | google
  | mistral
  | openrouter
  | openaiCompatible
deriving DecidableEq

/-- The provider an answer is served by: one of the list, or the test double. -/
inductive LlmServingProviderId where
  | provider (id : LlmProviderId)
  | fake
deriving DecidableEq

/-- What the engine and the settings screen read about a provider. -/
structure LlmProviderTraits where
  intermediary : Bool
  euEligible : Bool
  baseUrlRequired : Bool

def traits (intermediary : Bool) (baseUrlRequired : Bool := false) : LlmProviderTraits where
  intermediary := intermediary
  euEligible := !intermediary
  baseUrlRequired := baseUrlRequired

/-- What is known of each provider. -/
def llmProviderTraits : LlmProviderId → LlmProviderTraits
  | .anthropic => traits false
  | .openai => traits false
  | .google => traits false
  | .mistral => traits false
  | .openrouter => traits true
  | .openaiCompatible => traits false true

/-- What a call to the product's intelligence is for. -/
inductive AiUsage where
  | ideaSpace
  | specDeliverables
  | baselineSummary
  | ticketBreakdown
deriving DecidableEq

/-! ## Requests and answers -/

/-- A framed prompt. -/
structure FramedPrompt where
  system : Text
  user : Text

/-- What the caller expects back: a text, or JSON of a schema. -/
inductive LlmOutputSpec where
  | text
  | json (schema : Data)

/-- The limits of a call. -/
structure LlmBudget where
  maxOutputTokens : ℕ
  timeoutMs : ℕ
  maxPromptChars : ℕ
  maxCostMicroUsd : ℕ

/-- What a call is named by in the logs. -/
structure LlmTrace where
  purpose : Text
  correlationId : Text

/-- A key, readable only through the port that resolved it. -/
structure LlmCredential where
  secret : Text

/-- The identity of a signal by which a caller cancels a request. -/
abbrev AbortSignal := ℕ

/-- A request to one provider. -/
structure LlmRequest where
  model : Text
  credential : LlmCredential
  prompt : FramedPrompt
  output : LlmOutputSpec
  budget : LlmBudget
  baseUrl : Option Text
  temperature : Option ℚ
  signal : Option AbortSignal
  trace : LlmTrace

/-- Why an answer stops. -/
inductive LlmStopReason where
  | «end»
  | maxTokens
  | stopSequence
  | refusal

/-- The tokens that a call has used. -/
structure LlmUsage where
  inputTokens : ℕ
  outputTokens : ℕ

/-- A whole answer. -/
structure LlmResponse where
  output : Data
  stop : LlmStopReason
  usage : LlmUsage
  provider : LlmServingProviderId
  model : Text

/-- An event of a stream of text: pieces of text, then one end. -/
inductive LlmStreamEvent where
  | text (text : Text)
  | «end» (stop : LlmStopReason) (usage : LlmUsage) (provider : LlmServingProviderId) (model : Text)

/-! ## Errors -/

/-- Why no provider is there for a call. -/
inductive AiNotConfiguredReason where
  | noCredential
  | euRestricted
deriving DecidableEq

/-- The field a malformed request is refused for. -/
inductive InvalidLlmRequestReason where
  | model
  | credential
  | prompt
  | output
  | temperature
  | signal
  | trace
  | baseUrl
deriving DecidableEq

/-- What a call can throw: the errors of a provider, those of the engine, and
anything else. -/
inductive Failure where
  | llmAuth (status : Option ℕ)
  | llmRateLimited (retryAfterMs : ℕ)
  | llmQuotaExceeded
  | llmTimeout
  | llmAborted
  | llmBudgetExceeded
  | llmContextTooLong
  | llmRefused
  | llmModelNotFound
  | llmProviderUnavailable
  | llmInvalidOutput
  | invalidLlmRequest (reason : InvalidLlmRequestReason)
  | aiCapReached
  | aiNotConfigured (reason : AiNotConfiguredReason)
  | other (message : Text)
deriving DecidableEq

/-! ## Prices -/

/-- The price of a model, in dollars for a million tokens. -/
structure ModelPrice where
  inputUsdPerMTok : ℚ
  outputUsdPerMTok : ℚ

def anthropicPrices : List (Text × ModelPrice) :=
  [(Text.lit "claude-fable-5-1", ⟨10, 50⟩),
   (Text.lit "claude-fable-5", ⟨10, 50⟩),
   (Text.lit "claude-opus-5-5", ⟨4, 20⟩),
   (Text.lit "claude-opus-5", ⟨5, 25⟩),
   (Text.lit "claude-opus-4-8", ⟨5, 25⟩),
   (Text.lit "claude-opus-4-7", ⟨5, 25⟩),
   (Text.lit "claude-opus-4-6", ⟨5, 25⟩),
   (Text.lit "claude-sonnet-5-5", ⟨2, 10⟩),
   (Text.lit "claude-sonnet-5", ⟨2, 10⟩),
   (Text.lit "claude-sonnet-4-6", ⟨3, 15⟩),
   (Text.lit "claude-haiku-5-5", ⟨1 / 2, 5 / 2⟩),
   (Text.lit "claude-haiku-4-5", ⟨1, 5⟩)]

/-- The greatest of each component of the table. -/
def highestPrice : ModelPrice where
  inputUsdPerMTok := (anthropicPrices.map (·.2.inputUsdPerMTok)).foldl max 0
  outputUsdPerMTok := (anthropicPrices.map (·.2.outputUsdPerMTok)).foldl max 0

/-- The price of a model; the highest one when it is not known. -/
def priceOf (model : Text) : ModelPrice := (anthropicPrices.lookup model).getD highestPrice

/-- The price of a model at a provider; nothing for a compatible endpoint, whose
price the organisation enters. -/
def priceFor (provider : LlmProviderId) (model : Text) : ModelPrice :=
  match provider with
  | .anthropic => priceOf model
  | .openaiCompatible => ⟨0, 0⟩
  | _ => highestPrice

/-- The real cost of a call, in millionths of a dollar, rounded up. -/
def actualCostMicroUsd (provider : LlmProviderId) (model : Text) (usage : LlmUsage) : ℕ :=
  let price := priceFor provider model
  ⌈usage.inputTokens * price.inputUsdPerMTok + usage.outputTokens * price.outputUsdPerMTok⌉.toNat

end Koklo.Llm
