import Koklo.Foundations.Logged
import Koklo.Llm.RoutingPlan

/-!
# The router of language model calls

The engine behind every call to the product's intelligence. It loads the
settings of the organisation, refuses the call at the cap of the month, then
serves it with the first target whose key resolves. When the call fails for a
reason that justifies it, the engine tries the fallback provider once. A stream
falls back only while nothing of it has reached the caller.

Everything outside is a port that may fail and may answer differently at every
call: settings, keys, meter, journal, and the providers themselves. A provider's
stream is read event by event, and the caller may leave it or throw into it at
any event; `fuel` bounds the number of events that are read, so every prefix of
an endless stream is a run.
-/

set_option autoImplicit false

namespace Koklo.Llm

open Foundations

/-- A call of the product: a usage, never a provider. -/
structure AiRequest where
  organizationId : Text
  userId : Option Text
  usage : AiUsage
  euOnly : Bool
  prompt : FramedPrompt
  output : LlmOutputSpec
  budget : LlmBudget
  temperature : Option ℚ
  signal : Option AbortSignal
  trace : LlmTrace

/-- The key of a provider, resolved for an organisation. -/
structure ResolvedCredential where
  credential : LlmCredential
  baseUrl : Option Text
  defaultModel : Option Text
  revision : Option Text

/-- A resolved target: what a call to its provider needs. -/
structure Attempt where
  provider : LlmProviderId
  model : Text
  credential : LlmCredential
  baseUrl : Option Text
  revision : Option Text

/-- What the meter counts of a call. -/
structure MeterEntry where
  organizationId : Text
  provider : LlmProviderId
  inputTokens : ℕ
  outputTokens : ℕ
  costMicroUsd : ℕ

/-- The events of the journal. -/
inductive AiEvent where
  | llmFallback (organizationId : Text) (usage : AiUsage) (source target : LlmProviderId)
      (reason : AiFallbackReason) (userId : Option Text)
  | aiCapWarning (organizationId : Text) (userId : Option Text)

/-- What a caller does with an event of a stream: read on, leave, or throw. -/
inductive Reply where
  | resume
  | leave
  | interrupt (failure : Failure)

/-- What the engine asks of the outside and what it gives to the caller. -/
inductive RouterEvent where
  | loaded (routing : AiRouting)
  | metered (consumption : AiMonthConsumption)
  | resolved (provider : LlmProviderId) (credential : Option ResolvedCredential)
  | called (provider : LlmProviderId) (request : LlmRequest)
  | yielded (event : LlmStreamEvent)
  | recorded (entry : MeterEntry)
  | emitted (event : AiEvent)
  | keyUsed (provider : LlmProviderId)
  | keyRejected (provider : LlmProviderId) (revision : Option Text)

/-- A call to the outside: it answers or fails, and the world moves on. -/
abbrev Port (World α : Type) := World → Except Failure α × World

/-- A provider: a whole answer, or a stream that is read event by event. -/
structure LlmProvider (World Stream : Type) where
  complete : LlmRequest → Port World LlmResponse
  stream : LlmRequest → Port World Stream
  next : Stream → Port World (Option LlmStreamEvent)
  leave : Stream → Port World Unit

/-- What is told about the life of the keys. -/
structure AiKeyHooks (World : Type) where
  used : Text → LlmProviderId → Port World Unit
  rejected : Text → LlmProviderId → Option Text → Option Text → Port World Unit

/-- What the router is built on: the settings of organizations, the meter and the providers. -/
structure AiProviderRouterDeps (World Stream : Type) where
  load : Text → Port World AiRouting
  resolve : Text → LlmProviderId → Port World (Option ResolvedCredential)
  month : Text → Port World AiMonthConsumption
  markCapWarned : Text → Port World Bool
  record : MeterEntry → Port World Unit
  catalog : List QualifiedModel
  emit : AiEvent → Port World Unit
  keys : Option (AiKeyHooks World)
  providerFor : LlmProviderId → LlmProvider World Stream
  /-- Whether a signal is raised. -/
  aborted : AbortSignal → World → Bool
  /-- What the caller does with an event. -/
  consume : LlmStreamEvent → World → Reply × World

/-- The request of an attempt, as the provider gets it. -/
def llmRequestOf (request : AiRequest) (attempt : Attempt) : LlmRequest where
  model := attempt.model
  credential := attempt.credential
  prompt := request.prompt
  output := request.output
  budget := request.budget
  baseUrl := attempt.baseUrl
  temperature := request.temperature
  signal := request.signal
  trace := request.trace

/-- A program of the engine. -/
abbrev Engine (World α : Type) := Logged World RouterEvent Failure α

namespace AiProviderRouterDeps

variable {World Stream : Type} (deps : AiProviderRouterDeps World Stream)

/-! ## The ports -/

/-- The settings of the organization are read. -/
def loadRouting (organizationId : Text) : Engine World AiRouting :=
  .port (deps.load organizationId) fun routing => [.loaded routing]

/-- What the month has used is read. -/
def readMonth (organizationId : Text) : Engine World AiMonthConsumption :=
  .port (deps.month organizationId) fun consumption => [.metered consumption]

/-- The key of a provider is read. -/
def resolveKey (organizationId : Text) (provider : LlmProviderId) :
    Engine World (Option ResolvedCredential) :=
  .port (deps.resolve organizationId provider) fun found => [.resolved provider found]

/-- A journal that fails stops neither the fallback nor the call. -/
def emitEvent (event : AiEvent) : Engine World Unit :=
  Logged.quietly do
    .record (.emitted event)
    .port (deps.emit event) fun _ => []

/-- The warning of the month: once, and its failure never fails the call. -/
def warn (request : AiRequest) (alreadyWarned : Bool) : Engine World Unit :=
  Logged.quietly do
    if alreadyWarned then pure ()
    else
      let marked ← .port (deps.markCapWarned request.organizationId) fun _ => []
      if marked then deps.emitEvent (.aiCapWarning request.organizationId request.userId)
      else pure ()

/-- The warning, when it is due. -/
def warnWhen (due : Bool) (request : AiRequest) (consumption : AiMonthConsumption) :
    Engine World Unit :=
  if due then deps.warn request consumption.warnedThisMonth else pure ()

/-- Tells that a key was used. -/
def used (request : AiRequest) (provider : LlmProviderId) : Engine World Unit :=
  match deps.keys with
  | none => pure ()
  | some hooks => Logged.quietly do
      .record (.keyUsed provider)
      .port (hooks.used request.organizationId provider) fun _ => []

/-- Only an explicit 401 rejects a key. -/
def reject (request : AiRequest) (attempt : Attempt) : Failure → Engine World Unit
  | .llmAuth (some 401) =>
      match deps.keys with
      | none => pure ()
      | some hooks => Logged.quietly do
          .record (.keyRejected attempt.provider attempt.revision)
          .port (hooks.rejected request.organizationId attempt.provider attempt.revision
            request.userId) fun _ => []
  | _ => pure ()

/-- Counts the real cost at the price of the model that served. -/
def count (request : AiRequest) (attempt : Attempt) (servedModel : Text) (usage : LlmUsage) :
    Engine World Unit := do
  let entry : MeterEntry := {
    organizationId := request.organizationId
    provider := attempt.provider
    inputTokens := usage.inputTokens
    outputTokens := usage.outputTokens
    costMicroUsd := actualCostMicroUsd attempt.provider servedModel usage }
  .port (deps.record entry) fun _ => [.recorded entry]
  let routing ← deps.loadRouting request.organizationId
  let consumption ← deps.readMonth request.organizationId
  deps.warnWhen (capStateOf consumption routing.monthlyCapMicroUsd != .ok) request consumption
  deps.used request attempt.provider

/-! ## The choice of a provider -/

/-- The attempt at a target, when there is a key. -/
def attemptOf (organizationId : Text) (target : Target) : Engine World (Option Attempt) := do
  let resolved ← deps.resolveKey organizationId target.provider
  let model := (target.model.or (resolved.bind (·.defaultModel))).or target.fallbackModel
  match resolved, model with
  | some key, some model => pure (some {
      provider := target.provider
      model
      credential := key.credential
      baseUrl := key.baseUrl
      revision := key.revision })
  | _, _ => pure none

/-- The first target whose key resolves. -/
def firstAttempt (organizationId : Text) : List Target → Engine World (Option Attempt)
  | [] => pure none
  | target :: targets => do
      match ← deps.attemptOf organizationId target with
      | some attempt => pure (some attempt)
      | none => firstAttempt organizationId targets

/-- The settings, the cap, then the first target whose key resolves. -/
def prepare (request : AiRequest) : Engine World (PlanInput × Attempt) := do
  let routing ← deps.loadRouting request.organizationId
  let consumption ← deps.readMonth request.organizationId
  let state := capStateOf consumption routing.monthlyCapMicroUsd
  if state = .suspended then .raise .aiCapReached
  else
    deps.warnWhen (state == .warning) request consumption
    let plan : PlanInput :=
      { routing, catalog := deps.catalog, usage := request.usage, euOnly := request.euOnly }
    match ← deps.firstAttempt request.organizationId (mainTargets plan) with
    | some main => pure (plan, main)
    | none => .raise (.aiNotConfigured (notConfiguredReason plan))

/-- Writes a fallback in the journal. -/
def announce (request : AiRequest) (failed : Attempt) (reason : AiFallbackReason) :
    Option Attempt → Engine World Unit
  | none => pure ()
  | some next => deps.emitEvent (.llmFallback request.organizationId request.usage
      failed.provider next.provider reason request.userId)

/-- The target of the fallback when the error justifies one; never after the
caller has cancelled. -/
def fallbackAfter (request : AiRequest) (plan : PlanInput) (failed : Attempt)
    (error : Failure) : Engine World (Option Attempt) := do
  let cancelled ← .look fun world => request.signal.any fun signal => deps.aborted signal world
  match fallbackReasonOf error, fallbackTarget plan failed.provider, cancelled with
  | some reason, some target, false => do
      let attempt ← deps.attemptOf request.organizationId target
      deps.announce request failed reason attempt
      pure attempt
  | _, _, _ => pure none

/-! ## A whole answer -/

/-- The call of one provider. -/
def completeWith (request : AiRequest) (attempt : Attempt) : Engine World LlmResponse := do
  let asked := llmRequestOf request attempt
  .record (.called attempt.provider asked)
  match ← Logged.attempt (.port ((deps.providerFor attempt.provider).complete asked) fun _ => []) with
  | .error error => do
      deps.reject request attempt error
      .raise error
  | .ok response => do
      deps.count request attempt response.model response.usage
      pure { response with provider := .provider attempt.provider }

/-- A call: the main provider, and the second one when the first fails before it answers. -/
def complete (request : AiRequest) : Engine World LlmResponse := do
  let (plan, main) ← deps.prepare request
  match ← (deps.completeWith request main).attempt with
  | .ok response => pure response
  | .error error => do
      match ← deps.fallbackAfter request plan main error with
      | none => .raise error
      | some next => deps.completeWith request next

/-! ## A stream -/

end AiProviderRouterDeps

/-- How a stream ends: it was read to its end, left by the caller, or is still
being read. -/
inductive StreamEnd where
  | finished
  | left
  | reading

/-- What an attempt to stream did: whether an event reached the caller, and how
it ended. -/
structure Streamed where
  started : Bool
  result : Except Failure StreamEnd

namespace AiProviderRouterDeps

variable {World Stream : Type} (deps : AiProviderRouterDeps World Stream)

/-- The next event of a provider; its end is counted, then served under the
name of the provider that was called. -/
def readEvent (request : AiRequest) (attempt : Attempt) (stream : Stream) :
    Engine World (Option LlmStreamEvent) := do
  match ← .port ((deps.providerFor attempt.provider).next stream) fun _ => [] with
  | some (.end stop usage _ model) => do
      deps.count request attempt model usage
      pure (some (.end stop usage (.provider attempt.provider) model))
  | event => pure event

/-- Gives an event to the caller. -/
def yieldEvent (event : LlmStreamEvent) : Engine World Reply := do
  .record (.yielded event)
  .port (fun world => ((.ok (deps.consume event world).1), (deps.consume event world).2)) fun _ => []

/-- Leaves the stream of a provider. -/
def leaveStream (attempt : Attempt) (stream : Stream) : Engine World Unit :=
  .port ((deps.providerFor attempt.provider).leave stream) fun _ => []

/-- Reads a stream and gives its events to the caller. -/
def relay (request : AiRequest) (attempt : Attempt) (stream : Stream) :
    ℕ → Bool → Engine World Streamed
  | 0, started => pure ⟨started, .ok .reading⟩
  | fuel + 1, started => do
      match ← (deps.readEvent request attempt stream).attempt with
      | .error error => do
          deps.reject request attempt error
          pure ⟨started, .error error⟩
      | .ok none => pure ⟨started, .ok .finished⟩
      | .ok (some event) => do
          match ← deps.yieldEvent event with
          | .resume => relay request attempt stream fuel true
          | .leave => do
              match ← (deps.leaveStream attempt stream).attempt with
              | .ok _ => pure ⟨true, .ok .left⟩
              | .error error => do
                  deps.reject request attempt error
                  pure ⟨true, .error error⟩
          -- The error of the caller covers that of a stream that does not close.
          | .interrupt failure => do
              match ← (deps.leaveStream attempt stream).attempt with
              | .ok _ => pure ⟨true, .error failure⟩
              | .error error => do
                  deps.reject request attempt error
                  pure ⟨true, .error failure⟩

/-- The stream of one provider. -/
def streamWith (fuel : ℕ) (request : AiRequest) (attempt : Attempt) : Engine World Streamed := do
  let asked := llmRequestOf request attempt
  .record (.called attempt.provider asked)
  match ← Logged.attempt (.port ((deps.providerFor attempt.provider).stream asked) fun _ => []) with
  | .error error => do
      deps.reject request attempt error
      pure ⟨false, .error error⟩
  | .ok stream => deps.relay request attempt stream fuel false

/-- The loop of the source makes a second turn only after a fallback, and the
second turn never falls back. -/
def stream (fuel : ℕ) (request : AiRequest) : Engine World StreamEnd := do
  match request.output with
  | .json _ => .raise (.invalidLlmRequest .output)
  | .text => do
      let (plan, main) ← deps.prepare request
      match ← deps.streamWith fuel request main with
      | ⟨_, .ok ending⟩ => pure ending
      | ⟨true, .error error⟩ => .raise error
      | ⟨false, .error error⟩ => do
          match ← deps.fallbackAfter request plan main error with
          | none => .raise error
          | some next => do
              match ← deps.streamWith fuel request next with
              | ⟨_, .ok ending⟩ => pure ending
              | ⟨_, .error later⟩ => .raise later

/-- The checks of a call, without the call. -/
def preflight (request : AiRequest) : Engine World Unit := do
  let _ ← deps.prepare request
  pure ()

end AiProviderRouterDeps

/-- The calls of the engine. -/
inductive RouterCall where
  | preflight
  | complete
  | stream (fuel : ℕ)

/-- What a call of the engine does, in order. -/
def AiProviderRouterDeps.logOf {World Stream : Type} (deps : AiProviderRouterDeps World Stream)
    (request : AiRequest) (world : World) : RouterCall → List RouterEvent
  | .preflight => (deps.preflight request world).log
  | .complete => (deps.complete request world).log
  | .stream fuel => (deps.stream fuel request world).log

end Koklo.Llm
