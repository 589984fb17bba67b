import Koklo.Llm.Router

/-!
# What the router never does

Whatever the settings, the keys, the meter and the providers answer, and at
whatever point they fail, the log of a call has one of three shapes
(`RouterRun`): no provider is called; the main provider is called once; or the
main provider is called, nothing of it reaches the caller, and the fallback is
called once. The policy of the router is read off these shapes
(`router_policy`).
-/

set_option autoImplicit false

namespace Koklo.Llm

open Foundations

/-! ## What a log says -/

/-- The providers that were called, in order. -/
def providerCalls (log : List RouterEvent) : List LlmProviderId :=
  log.filterMap fun
    | .called provider _ => some provider
    | _ => none

/-- The providers that a fallback turned to, in order. -/
def fallbacks (log : List RouterEvent) : List LlmProviderId :=
  log.filterMap fun
    | .emitted (.llmFallback _ _ _ target _ _) => some target
    | _ => none

/-- The events that reached the caller, in order. -/
def yields (log : List RouterEvent) : List LlmStreamEvent :=
  log.filterMap fun
    | .yielded event => some event
    | _ => none

/-- The settings that the call is planned with: the first that are loaded. -/
def plannedRouting (log : List RouterEvent) : Option AiRouting :=
  log.findSome? fun
    | .loaded routing => some routing
    | _ => none

/-- The cost of the month that the call is checked against. -/
def plannedMonth (log : List RouterEvent) : Option AiMonthConsumption :=
  log.findSome? fun
    | .metered consumption => some consumption
    | _ => none

/-- An event that neither calls a provider, nor falls back, nor reaches the caller. -/
def RouterEvent.isNeutral : RouterEvent → Bool
  | .called _ _ | .yielded _ | .emitted (.llmFallback _ _ _ _ _ _) => false
  | _ => true

/-- A log that neither calls a provider, nor falls back, nor reaches the caller. -/
def Neutral (log : List RouterEvent) : Prop := ∀ event ∈ log, event.isNeutral = true

theorem Neutral.nil : Neutral [] := List.forall_mem_nil _

theorem Neutral.append {first second : List RouterEvent} (left : Neutral first)
    (right : Neutral second) : Neutral (first ++ second) :=
  List.forall_mem_append.mpr ⟨left, right⟩

theorem Neutral.single {event : RouterEvent} (neutral : event.isNeutral = true) :
    Neutral [event] :=
  List.forall_mem_singleton.mpr neutral

theorem Neutral.providerCalls {log : List RouterEvent} (neutral : Neutral log) :
    providerCalls log = [] := by
  refine List.filterMap_eq_nil_iff.mpr fun event member => ?_
  have here := neutral event member
  cases event <;> first | rfl | cases here

theorem Neutral.yields {log : List RouterEvent} (neutral : Neutral log) : yields log = [] := by
  refine List.filterMap_eq_nil_iff.mpr fun event member => ?_
  have here := neutral event member
  cases event <;> first | rfl | cases here

theorem Neutral.fallbacks {log : List RouterEvent} (neutral : Neutral log) :
    fallbacks log = [] := by
  refine List.filterMap_eq_nil_iff.mpr fun event member => ?_
  have here := neutral event member
  cases event with
  | emitted event =>
    cases event with
    | llmFallback => cases here
    | aiCapWarning => rfl
  | _ => rfl

@[simp] theorem providerCalls_append (first second : List RouterEvent) :
    providerCalls (first ++ second) = providerCalls first ++ providerCalls second :=
  List.filterMap_append

@[simp] theorem fallbacks_append (first second : List RouterEvent) :
    fallbacks (first ++ second) = fallbacks first ++ fallbacks second :=
  List.filterMap_append

@[simp] theorem yields_append (first second : List RouterEvent) :
    yields (first ++ second) = yields first ++ yields second :=
  List.filterMap_append

/-- A log that calls a provider, then neither calls nor falls back. -/
def Serves (provider : LlmProviderId) (log : List RouterEvent) : Prop :=
  ∃ asked rest, log = [.called provider asked] ++ rest ∧ providerCalls rest = [] ∧
    fallbacks rest = []

theorem Serves.providerCalls {provider : LlmProviderId} {log : List RouterEvent}
    (serves : Serves provider log) : providerCalls log = [provider] := by
  obtain ⟨asked, rest, rfl, calls, -⟩ := serves
  rw [providerCalls_append, calls]
  rfl

theorem Serves.fallbacks {provider : LlmProviderId} {log : List RouterEvent}
    (serves : Serves provider log) : fallbacks log = [] := by
  obtain ⟨asked, rest, rfl, -, turns⟩ := serves
  rw [fallbacks_append, turns]
  rfl

/-- A call that served goes on without another. -/
theorem Serves.append {provider : LlmProviderId} {log more : List RouterEvent}
    (serves : Serves provider log) (neutral : Neutral more) : Serves provider (log ++ more) := by
  obtain ⟨asked, rest, rfl, calls, turns⟩ := serves
  refine ⟨asked, rest ++ more, List.append_assoc .., ?_, ?_⟩
  · rw [providerCalls_append, calls, neutral.providerCalls]
    rfl
  · rw [fallbacks_append, turns, neutral.fallbacks]
    rfl

/-- A log that turns to another provider: its key resolves, and the fallback is
in the journal. -/
structure FallsBack (plan : PlanInput) (failed next : LlmProviderId) (log : List RouterEvent) :
    Prop where
  calls : providerCalls log = []
  fallbacks : fallbacks log = [next]
  yields : yields log = []
  enabled : plan.routing.fallbackEnabled = true
  chosen : plan.routing.fallback = some next
  different : next ≠ failed
  eligible : eligible plan next = true
  resolved : ∃ key, RouterEvent.resolved next (some key) ∈ log

/-- A log that prepares a call: settings and cost below the cap, then a target
whose key resolves. -/
structure Prepares (request : AiRequest) (plan : PlanInput) (main : LlmProviderId)
    (log : List RouterEvent) : Prop where
  neutral : Neutral log
  euOnly : plan.euOnly = request.euOnly
  planned : ∃ consumption rest,
    log = .loaded plan.routing :: .metered consumption :: rest ∧
      capStateOf consumption plan.routing.monthlyCapMicroUsd ≠ .suspended
  eligible : eligible plan main = true
  resolved : ∃ key, RouterEvent.resolved main (some key) ∈ log

/-- The shapes of the log of a call. -/
inductive RouterRun (request : AiRequest) : List RouterEvent → Prop where
  | uncalled {log : List RouterEvent} (neutral : Neutral log) : RouterRun request log
  | served {plan : PlanInput} {main : LlmProviderId} {start rest : List RouterEvent}
      (prepared : Prepares request plan main start) (serves : Serves main rest) :
      RouterRun request (start ++ rest)
  | fellBack {plan : PlanInput} {main next : LlmProviderId}
      {start first turn second : List RouterEvent}
      (prepared : Prepares request plan main start) (serves : Serves main first)
      (nothing : yields first = []) (falls : FallsBack plan main next turn)
      (again : Serves next second) : RouterRun request (start ++ (first ++ (turn ++ second)))

/-! ## What each part of the engine does -/

/-- A program that neither calls a provider, nor falls back, nor reaches the caller. -/
def IsNeutral {World α : Type} (program : Engine World α) : Prop :=
  program.Ends (fun _ log => Neutral log) fun _ log => Neutral log

section Parts

variable {World Stream : Type} {deps : AiProviderRouterDeps World Stream} {request : AiRequest}

namespace IsNeutral

/-- A port whose answers are neutral events. -/
theorem port {α : Type} {call : Port World α} {event : α → List RouterEvent}
    (neutral : ∀ a, Neutral (event a)) : IsNeutral (.port call event) :=
  Logged.Ends.port neutral fun _ => .nil

theorem pure {α : Type} (a : α) : IsNeutral (Pure.pure a : Engine World α) :=
  Logged.Ends.pure Neutral.nil

theorem record {event : RouterEvent} (neutral : event.isNeutral = true) :
    IsNeutral (.record event : Engine World Unit) :=
  Logged.Ends.record (Neutral.single neutral)

/-- A sequence of neutral programs is neutral. -/
theorem bind {α β : Type} {first : Engine World α} {next : α → Engine World β}
    (start : IsNeutral first) (rest : ∀ a, IsNeutral (next a)) : IsNeutral (first >>= next) := by
  refine Logged.Ends.bind start fun a log neutral => Logged.Ends.mono (rest a) ?_ ?_
  · intro _ _ more
    exact neutral.append more
  · intro _ _ more
    exact neutral.append more

theorem quietly {program : Engine World Unit} (neutral : IsNeutral program) :
    IsNeutral program.quietly :=
  Logged.Ends.quietly neutral

end IsNeutral

theorem isNeutral_warn (warned : Bool) : IsNeutral (deps.warn request warned) := by
  apply IsNeutral.quietly
  cases warned with
  | true => exact .pure ()
  | false =>
    refine .bind (.port fun _ => .nil) fun marked => ?_
    cases marked with
    | false => exact .pure ()
    | true =>
      apply IsNeutral.quietly
      exact .bind (.record rfl) fun _ => .port fun _ => .nil

theorem isNeutral_warnWhen (due : Bool) (consumption : AiMonthConsumption) :
    IsNeutral (deps.warnWhen due request consumption) := by
  cases due with
  | true => exact isNeutral_warn _
  | false => exact .pure ()

theorem isNeutral_used (provider : LlmProviderId) : IsNeutral (deps.used request provider) := by
  unfold AiProviderRouterDeps.used
  cases deps.keys with
  | none => exact .pure ()
  | some hooks =>
    apply IsNeutral.quietly
    exact .bind (.record rfl) fun _ => .port fun _ => .nil

theorem isNeutral_count (attempt : Attempt) (model : Text) (usage : LlmUsage) :
    IsNeutral (deps.count request attempt model usage) := by
  refine .bind (.port fun _ => .single rfl) fun _ => ?_
  refine .bind (.port fun _ => .single rfl) fun routing => ?_
  refine .bind (.port fun _ => .single rfl) fun consumption => ?_
  exact .bind (isNeutral_warnWhen _ consumption) fun _ => isNeutral_used attempt.provider

/-- The rejection of a key never fails. -/
theorem reject_ends (attempt : Attempt) (error : Failure) :
    (deps.reject request attempt error).Ends (fun _ log => Neutral log) fun _ _ => False := by
  unfold AiProviderRouterDeps.reject
  split
  · cases deps.keys with
    | none => exact .pure .nil
    | some hooks =>
      apply Logged.Ends.quietly
      exact IsNeutral.bind (.record rfl) fun _ => .port fun _ => .nil
  · exact .pure .nil

/-- An attempt is made of a target whose key resolves. -/
theorem attemptOf_ends (organizationId : Text) (target : Target) :
    (deps.attemptOf organizationId target).Ends
      (fun found log => Neutral log ∧ ∀ attempt ∈ found, attempt.provider = target.provider ∧
        ∃ key, RouterEvent.resolved target.provider (some key) ∈ log)
      fun _ log => Neutral log := by
  have asked : (deps.resolveKey organizationId target.provider).Ends
      (fun found log => log = [.resolved target.provider found]) fun _ log => Neutral log :=
    .port (fun _ => rfl) fun _ => .nil
  refine .bind asked ?_
  rintro found log rfl
  dsimp only
  split
  · rename_i key model _
    refine .pure ⟨(Neutral.single rfl).append .nil, ?_⟩
    intro attempt same
    cases same
    exact ⟨rfl, key, List.mem_append_left _ List.mem_cons_self⟩
  · exact .pure ⟨(Neutral.single rfl).append .nil, fun _ none => nomatch none⟩

/-- The first target that resolves is one of the targets. -/
theorem firstAttempt_ends (organizationId : Text) (targets : List Target) :
    (deps.firstAttempt organizationId targets).Ends
      (fun found log => Neutral log ∧ ∀ attempt ∈ found,
        (∃ target ∈ targets, attempt.provider = target.provider) ∧
          ∃ key, RouterEvent.resolved attempt.provider (some key) ∈ log)
      fun _ log => Neutral log := by
  induction targets with
  | nil => exact .pure ⟨.nil, fun _ none => nomatch none⟩
  | cons target targets ih =>
    refine .bind (attemptOf_ends organizationId target) ?_
    rintro found log ⟨neutral, resolves⟩
    cases found with
    | some attempt =>
      obtain ⟨same, key, logged⟩ := resolves attempt rfl
      refine .pure ⟨neutral.append .nil, ?_⟩
      intro other equal
      cases equal
      rw [same]
      exact ⟨⟨target, List.mem_cons_self, rfl⟩, key, List.mem_append_left _ logged⟩
    | none =>
      refine ih.mono ?_ fun _ _ more => neutral.append more
      rintro other more ⟨quiet, later⟩
      refine ⟨neutral.append quiet, fun attempt same => ?_⟩
      obtain ⟨⟨kept, member, provider⟩, key, logged⟩ := later attempt same
      exact ⟨⟨kept, List.mem_cons_of_mem _ member, provider⟩, key, List.mem_append_right _ logged⟩

/-- A prepared call has settings, a cost below the cap, and an eligible target
whose key resolves. -/
theorem prepare_ends : (deps.prepare request).Ends
    (fun prepared log => Prepares request prepared.1 prepared.2.provider log)
    fun _ log => Neutral log := by
  have loaded : (deps.loadRouting request.organizationId).Ends
      (fun routing log => log = [.loaded routing]) fun _ log => Neutral log :=
    .port (fun _ => rfl) fun _ => .nil
  have metered : (deps.readMonth request.organizationId).Ends
      (fun consumption log => log = [.metered consumption]) fun _ log => Neutral log :=
    .port (fun _ => rfl) fun _ => .nil
  refine .bind loaded ?_
  rintro routing _ rfl
  refine .bind (metered.mono (fun _ _ here => here) fun _ _ quiet => (Neutral.single rfl).append quiet) ?_
  rintro consumption _ rfl
  have start : Neutral ([.loaded routing] ++ [.metered consumption]) :=
    (Neutral.single rfl).append (.single rfl)
  dsimp only
  split
  · exact .raise (start.append .nil)
  · rename_i below
    refine .bind (Logged.Ends.mono (isNeutral_warnWhen _ consumption) (fun _ _ here => here)
      fun _ _ quiet => start.append quiet) fun _ warned quiet => ?_
    refine .bind ((firstAttempt_ends _ _).mono (fun _ _ here => here)
      fun _ _ more => start.append (quiet.append more)) ?_
    rintro found tried ⟨still, resolves⟩
    cases found with
    | none => exact .raise (start.append (quiet.append (still.append .nil)))
    | some main =>
      obtain ⟨⟨target, member, same⟩, key, logged⟩ := resolves main rfl
      refine .pure { neutral := ?_, euOnly := rfl, planned := ?_, eligible := ?_, resolved := ?_ }
      · exact start.append (quiet.append (still.append .nil))
      · exact ⟨consumption, _, rfl, below⟩
      · rw [same]
        exact eligible_of_mem_mainTargets member
      · refine ⟨key, List.mem_append_right _ (List.mem_append_right _ ?_)⟩
        exact List.mem_append_right _ (List.mem_append_left _ logged)

/-- An event is in the journal's log whether the journal keeps it or not. -/
theorem emitEvent_ends (event : AiEvent) :
    (deps.emitEvent event).Ends (fun _ log => log = [.emitted event]) fun _ _ => False := by
  apply Logged.Ends.quietly
  have written : (Logged.record (.emitted event) : Engine World Unit).Ends
      (fun _ log => log = [.emitted event]) fun _ log => log = [.emitted event] := .record rfl
  refine .bind written ?_
  rintro _ _ rfl
  exact .port (fun _ => rfl) fun _ => rfl

/-- **A fallback is announced before it is called.** -/
theorem fallbackAfter_ends (plan : PlanInput) (failed : Attempt) (error : Failure) :
    (deps.fallbackAfter request plan failed error).Ends
      (fun found log => match found with
        | none => Neutral log
        | some next => FallsBack plan failed.provider next.provider log)
      fun _ log => Neutral log := by
  have looked : (Logged.look fun world => request.signal.any fun signal =>
      deps.aborted signal world : Engine World Bool).Ends (fun _ log => log = [])
      fun _ log => Neutral log := .look fun _ => rfl
  refine .bind looked ?_
  rintro cancelled _ rfl
  split
  · rename_i reason target _ chosen
    obtain ⟨enabled, named, different, admitted⟩ := fallbackTarget_eq_some chosen
    refine .bind (attemptOf_ends _ _) ?_
    rintro found log ⟨neutral, resolves⟩
    cases found with
    | none =>
      have skipped : (deps.announce request failed reason none).Ends (fun _ log => log = [])
          fun _ _ => False := .pure rfl
      refine .bind skipped.safely ?_
      rintro _ _ rfl
      exact .pure (neutral.append .nil)
    | some next =>
      obtain ⟨same, key, logged⟩ := resolves next rfl
      refine .bind (emitEvent_ends _).safely ?_
      rintro _ _ rfl
      refine .pure ?_
      rw [← same] at named different admitted
      refine ⟨?_, ?_, ?_, enabled, named, different, admitted, key, ?_⟩
      · rw [List.nil_append, providerCalls_append, neutral.providerCalls]
        rfl
      · rw [List.nil_append, fallbacks_append, neutral.fallbacks]
        rfl
      · rw [List.nil_append, yields_append, neutral.yields]
        rfl
      · rw [same]
        exact List.mem_append_right _ (List.mem_append_left _ logged)
  · exact .pure .nil

/-- A provider is called and nothing of it reaches the caller. -/
theorem serves_neutral {provider : LlmProviderId} {asked : LlmRequest} {rest : List RouterEvent}
    (neutral : Neutral rest) :
    Serves provider ([.called provider asked] ++ rest) ∧
      yields ([.called provider asked] ++ rest) = [] := by
  refine ⟨⟨asked, rest, rfl, neutral.providerCalls, neutral.fallbacks⟩, ?_⟩
  rw [yields_append, neutral.yields]
  rfl

/-- A whole answer is one call. -/
theorem completeWith_ends (attempt : Attempt) :
    (deps.completeWith request attempt).Ends
      (fun _ log => Serves attempt.provider log)
      fun _ log => Serves attempt.provider log ∧ yields log = [] := by
  have called : (Logged.record (.called attempt.provider (llmRequestOf request attempt)) :
      Engine World Unit).Ends
      (fun _ log => log = [.called attempt.provider (llmRequestOf request attempt)])
      fun _ _ => False := .record rfl
  refine .bind called.safely ?_
  rintro _ _ rfl
  refine .bind .attempt_port ?_
  rintro result _ rfl
  cases result with
  | error error =>
    refine .bind (reject_ends attempt error).safely ?_
    intro _ log neutral
    exact .raise (serves_neutral (neutral.append .nil))
  | ok response =>
    refine .bind (Logged.Ends.mono (isNeutral_count attempt _ _) (fun _ _ here => here)
      fun _ _ neutral => serves_neutral neutral) ?_
    intro _ log neutral
    exact .pure (serves_neutral (neutral.append .nil)).1

/-- **A call for a whole answer has one of the shapes.** -/
theorem complete_ends : (deps.complete request).Ends (fun _ log => RouterRun request log)
    fun _ log => RouterRun request log := by
  refine .bind (prepare_ends.mono (fun _ _ here => here) fun _ _ neutral => .uncalled neutral) ?_
  rintro ⟨plan, main⟩ start prepared
  have caught : (deps.completeWith request main).attempt.Ends
      (fun result log => Serves main.provider log ∧ (result.isOk = false → yields log = []))
      fun _ _ => False := by
    refine (completeWith_ends main).attempt ?_ ?_
    · intro response log serves
      exact ⟨serves, fun failed => nomatch failed⟩
    · intro failure log failed
      exact ⟨failed.1, fun _ => failed.2⟩
  refine .bind caught.safely ?_
  rintro result first ⟨serves, nothing⟩
  cases result with
  | ok response =>
    refine .pure ?_
    rw [List.append_nil]
    exact .served prepared serves
  | error error =>
    refine .bind ((fallbackAfter_ends plan main error).mono (fun _ _ here => here)
      fun _ _ neutral => .served prepared (serves.append neutral)) ?_
    intro found turn turned
    cases found with
    | none =>
      refine .raise ?_
      rw [List.append_nil]
      exact .served prepared (serves.append turned)
    | some next =>
      refine (completeWith_ends next).mono ?_ ?_
      · intro _ second again
        exact .fellBack prepared serves (nothing rfl) turned again
      · rintro _ second ⟨again, -⟩
        exact .fellBack prepared serves (nothing rfl) turned again

/-! ## Streams -/

theorem isNeutral_readEvent (attempt : Attempt) (stream : Stream) :
    IsNeutral (deps.readEvent request attempt stream) := by
  refine .bind (.port fun _ => .nil) fun found => ?_
  split
  · exact .bind (isNeutral_count attempt _ _) fun _ => .pure _
  · exact .pure _

/-- A log that relays a stream: no provider is called, and an attempt that ends
without being started gave nothing. -/
structure Relays (started ended : Bool) (log : List RouterEvent) : Prop where
  calls : providerCalls log = []
  fallbacks : fallbacks log = []
  nothing : ended = false → started = false ∧ yields log = []

theorem Relays.of_neutral {started : Bool} {log : List RouterEvent} (neutral : Neutral log) :
    Relays started started log where
  calls := neutral.providerCalls
  fallbacks := neutral.fallbacks
  nothing := fun unstarted => ⟨unstarted, neutral.yields⟩

theorem Relays.after {started ended : Bool} {first log : List RouterEvent} (neutral : Neutral first)
    (relays : Relays started ended log) : Relays started ended (first ++ log) where
  calls := by rw [providerCalls_append, neutral.providerCalls, relays.calls]; rfl
  fallbacks := by rw [fallbacks_append, neutral.fallbacks, relays.fallbacks]; rfl
  nothing := by
    rw [yields_append, neutral.yields]
    exact relays.nothing

/-- After an event the attempt is started, so it stays started. -/
theorem Relays.yielded {started ended : Bool} {event : LlmStreamEvent} {log : List RouterEvent}
    (relays : Relays true ended log) : Relays started ended ([.yielded event] ++ log) where
  calls := by rw [providerCalls_append, relays.calls]; rfl
  fallbacks := by rw [fallbacks_append, relays.fallbacks]; rfl
  nothing := fun unstarted => nomatch (relays.nothing unstarted).1

theorem yieldEvent_ends (event : LlmStreamEvent) :
    (deps.yieldEvent event).Ends (fun _ log => log = [.yielded event]) fun _ _ => False := by
  have given : (Logged.record (.yielded event) : Engine World Unit).Ends
      (fun _ log => log = [.yielded event]) fun _ _ => False := .record rfl
  refine .bind given ?_
  rintro _ _ rfl
  intro world
  rfl

/-- Relaying a stream calls no provider, whatever the provider and the caller do. -/
theorem relay_ends (attempt : Attempt) (stream : Stream) (fuel : ℕ) (started : Bool) :
    (deps.relay request attempt stream fuel started).Ends
      (fun streamed log => Relays started streamed.started log) fun _ _ => False := by
  induction fuel generalizing started with
  | zero => exact .pure (.of_neutral .nil)
  | succ fuel ih =>
    have read : (deps.readEvent request attempt stream).attempt.Ends (fun _ log => Neutral log)
        fun _ _ => False :=
      Logged.Ends.attempt (isNeutral_readEvent attempt stream) (fun _ _ here => here)
        fun _ _ here => here
    -- The end of an attempt after an error that may reject the key.
    have rejected : ∀ (started : Bool) (error : Failure) (result : Except Failure StreamEnd),
        (do deps.reject request attempt error; pure ⟨started, result⟩ : Engine World Streamed).Ends
          (fun streamed log => Relays started streamed.started log) fun _ _ => False := by
      intro started error result
      refine .bind (reject_ends attempt error) fun _ log neutral => .pure ?_
      exact .of_neutral (neutral.append .nil)
    refine .bind read ?_
    intro found first neutral
    split
    · exact (rejected started _ _).mono (fun _ _ more => more.after neutral) fun _ _ none => none
    · exact .pure (.of_neutral (neutral.append .nil))
    · rename_i event
      refine .bind (yieldEvent_ends event) ?_
      rintro reply _ rfl
      split
      · refine (ih true).mono ?_ fun _ _ none => none
        intro _ _ more
        exact .after neutral (.yielded more)
      · refine .bind .attempt_port ?_
        rintro closed _ rfl
        split
        · exact .pure (.after neutral (.yielded (.of_neutral .nil)))
        · refine (rejected true _ _).mono ?_ fun _ _ none => none
          intro _ _ more
          exact .after neutral (.yielded more)
      · refine .bind .attempt_port ?_
        rintro closed _ rfl
        split
        · exact .pure (.after neutral (.yielded (.of_neutral .nil)))
        · refine (rejected true _ _).mono ?_ fun _ _ none => none
          intro _ _ more
          exact .after neutral (.yielded more)

/-- An attempt to stream is one call. -/
theorem streamWith_ends (fuel : ℕ) (attempt : Attempt) :
    (deps.streamWith fuel request attempt).Ends
      (fun streamed log => Serves attempt.provider log ∧ (streamed.started = false → yields log = []))
      fun _ _ => False := by
  have called : (Logged.record (.called attempt.provider (llmRequestOf request attempt)) :
      Engine World Unit).Ends
      (fun _ log => log = [.called attempt.provider (llmRequestOf request attempt)])
      fun _ _ => False := .record rfl
  refine .bind called ?_
  rintro _ _ rfl
  refine .bind .attempt_port ?_
  rintro opened _ rfl
  split
  · refine .bind (reject_ends attempt _) fun _ log neutral => .pure ?_
    obtain ⟨serves, nothing⟩ := serves_neutral (neutral.append .nil)
    exact ⟨serves, fun _ => nothing⟩
  · refine (relay_ends attempt _ fuel false).mono ?_ fun _ _ none => none
    intro streamed log relays
    refine ⟨⟨_, log, rfl, relays.calls, relays.fallbacks⟩, fun unstarted => ?_⟩
    rw [List.nil_append, yields_append, (relays.nothing unstarted).2]
    rfl

/-- **A stream has one of the shapes.** -/
theorem stream_ends (fuel : ℕ) : (deps.stream fuel request).Ends
    (fun _ log => RouterRun request log) fun _ log => RouterRun request log := by
  unfold AiProviderRouterDeps.stream
  split
  · exact .raise (.uncalled .nil)
  refine .bind (prepare_ends.mono (fun _ _ here => here) fun _ _ neutral => .uncalled neutral) ?_
  rintro ⟨plan, main⟩ start prepared
  refine .bind (streamWith_ends fuel main).safely ?_
  rintro streamed first ⟨serves, nothing⟩
  split
  · refine .pure ?_
    rw [List.append_nil]
    exact .served prepared serves
  · refine .raise ?_
    rw [List.append_nil]
    exact .served prepared serves
  · rename_i error
    refine .bind ((fallbackAfter_ends plan main error).mono (fun _ _ here => here)
      fun _ _ neutral => .served prepared (serves.append neutral)) ?_
    intro found turn turned
    cases found with
    | none =>
      refine .raise ?_
      rw [List.append_nil]
      exact .served prepared (serves.append turned)
    | some next =>
      refine .bind (streamWith_ends fuel next).safely ?_
      rintro streamed second ⟨again, -⟩
      split
      · refine .pure ?_
        rw [List.append_nil]
        exact .fellBack prepared serves (nothing rfl) turned again
      · refine .raise ?_
        rw [List.append_nil]
        exact .fellBack prepared serves (nothing rfl) turned again

theorem preflight_ends : (deps.preflight request).Ends
    (fun _ log => RouterRun request log) fun _ log => RouterRun request log := by
  refine .bind (prepare_ends.mono (fun _ _ here => here) fun _ _ neutral => .uncalled neutral) ?_
  rintro ⟨plan, main⟩ start prepared
  exact .pure (.uncalled (prepared.neutral.append .nil))

/-- **Every call of the engine has one of the shapes.** -/
theorem routerRun_logOf (world : World) (call : RouterCall) :
    RouterRun request (deps.logOf request world call) := by
  cases call with
  | preflight => exact preflight_ends.log (fun _ _ here => here) (fun _ _ here => here) world
  | complete => exact complete_ends.log (fun _ _ here => here) (fun _ _ here => here) world
  | stream fuel => exact (stream_ends fuel).log (fun _ _ here => here) (fun _ _ here => here) world

end Parts

/-! ## The policy -/

/-- **What the router never does.** -/
structure RouterPolicy (request : AiRequest) (log : List RouterEvent) : Prop where
  /-- A provider that is called has an available key, which resolved, and is
  admitted for European data when the call asks for that. -/
  admitted : ∀ provider ∈ providerCalls log,
    (∃ routing, plannedRouting log = some routing ∧ provider ∈ routing.availableProviders) ∧
    (∃ key, RouterEvent.resolved provider (some key) ∈ log) ∧
    (request.euOnly = true → (llmProviderTraits provider).euEligible = true)
  /-- At most two calls are made. -/
  twoCalls : (providerCalls log).length ≤ 2
  /-- At most one fallback is made. -/
  oneFallback : (fallbacks log).length ≤ 1
  /-- A second call is the fallback, on another provider. -/
  second : ∀ first next rest, providerCalls log = first :: next :: rest →
    fallbacks log = [next] ∧ next ≠ first
  /-- Nothing is called once an event has reached the caller. -/
  afterYield : ∀ before event after, log = before ++ .yielded event :: after →
    providerCalls after = [] ∧ fallbacks after = []
  /-- Nothing is called when the cost of the month has reached the cap. -/
  capped : ∀ routing consumption, plannedRouting log = some routing →
    plannedMonth log = some consumption →
    (∃ cap ∈ routing.monthlyCapMicroUsd, cap ≤ consumption.costMicroUsd) →
    providerCalls log = [] ∧ fallbacks log = []

/-- An event that reached the caller is not in a part that gave nothing. -/
theorem yielded_after {first rest before after : List RouterEvent} {event : LlmStreamEvent}
    (nothing : yields first = []) (split : first ++ rest = before ++ .yielded event :: after) :
    ∃ between, rest = between ++ .yielded event :: after := by
  rcases List.append_eq_append_iff.mp split with ⟨more, rfl, whole⟩ | ⟨more, whole, same⟩
  · exact ⟨more, whole⟩
  · cases more with
    | nil => exact ⟨[], same.symm⟩
    | cons here more =>
      cases same
      rw [whole, yields_append] at nothing
      exact absurd (List.append_eq_nil_iff.mp nothing).2 (List.cons_ne_nil _ _)

/-- After an event of a call that serves, nothing is called. -/
theorem Serves.afterYield {provider : LlmProviderId} {log before after : List RouterEvent}
    {event : LlmStreamEvent} (serves : Serves provider log)
    (split : log = before ++ .yielded event :: after) :
    Llm.providerCalls after = [] ∧ Llm.fallbacks after = [] := by
  obtain ⟨asked, rest, rfl, calls, turns⟩ := serves
  obtain ⟨between, rfl⟩ := yielded_after rfl split
  rw [List.append_cons, providerCalls_append] at calls
  rw [List.append_cons, fallbacks_append] at turns
  exact ⟨(List.append_eq_nil_iff.mp calls).2, (List.append_eq_nil_iff.mp turns).2⟩

/-- A call that is prepared is below the cap. -/
theorem Prepares.below {request : AiRequest} {plan : PlanInput} {main : LlmProviderId}
    {start rest : List RouterEvent} (prepared : Prepares request plan main start)
    {routing : AiRouting} {consumption : AiMonthConsumption}
    (planned : plannedRouting (start ++ rest) = some routing)
    (metered : plannedMonth (start ++ rest) = some consumption) :
    ¬ ∃ cap ∈ routing.monthlyCapMicroUsd, cap ≤ consumption.costMicroUsd := by
  obtain ⟨checked, more, rfl, below⟩ := prepared.planned
  cases planned
  cases metered
  intro reached
  exact below (capStateOf_eq_suspended.mpr reached)

/-- An eligible provider of the plan whose key resolved is admitted. -/
theorem Prepares.admits {request : AiRequest} {plan : PlanInput} {main provider : LlmProviderId}
    {start rest : List RouterEvent} (prepared : Prepares request plan main start)
    (admitted : Llm.eligible plan provider = true)
    (key : ∃ key, RouterEvent.resolved provider (some key) ∈ start ++ rest) :
    (∃ routing, plannedRouting (start ++ rest) = some routing ∧
        provider ∈ routing.availableProviders) ∧
      (∃ key, RouterEvent.resolved provider (some key) ∈ start ++ rest) ∧
      (request.euOnly = true → (llmProviderTraits provider).euEligible = true) := by
  obtain ⟨checked, more, rfl, -⟩ := prepared.planned
  obtain ⟨available, european⟩ := eligible_iff.mp admitted
  refine ⟨⟨plan.routing, rfl, available⟩, key, ?_⟩
  rw [← prepared.euOnly]
  exact european

/-- **Each shape obeys the policy.** -/
theorem RouterRun.policy {request : AiRequest} {log : List RouterEvent}
    (ran : RouterRun request log) : RouterPolicy request log := by
  cases ran with
  | uncalled neutral =>
    have calls := neutral.providerCalls
    have turns := neutral.fallbacks
    constructor
    · rw [calls]
      exact List.forall_mem_nil _
    · rw [calls]
      exact Nat.zero_le _
    · rw [turns]
      exact Nat.zero_le _
    · intro first next rest two
      rw [calls] at two
      cases two
    · rintro before event after rfl
      cases neutral _ (List.mem_append_right _ List.mem_cons_self)
    · intro _ _ _ _ _
      exact ⟨calls, turns⟩
  | @served plan main start rest prepared serves =>
    have calls : providerCalls (start ++ rest) = [main] := by
      rw [providerCalls_append, prepared.neutral.providerCalls, serves.providerCalls]
      rfl
    have turns : fallbacks (start ++ rest) = [] := by
      rw [fallbacks_append, prepared.neutral.fallbacks, serves.fallbacks]
      rfl
    constructor
    · rw [calls]
      refine List.forall_mem_singleton.mpr ?_
      exact prepared.admits prepared.eligible (prepared.resolved.imp fun _ =>
        List.mem_append_left _)
    · rw [calls]
      exact Nat.le_succ 1
    · rw [turns]
      exact Nat.zero_le _
    · intro first next rest two
      rw [calls] at two
      cases two
    · intro before event after split
      obtain ⟨between, tail⟩ := yielded_after prepared.neutral.yields split
      exact serves.afterYield tail
    · intro routing consumption planned metered reached
      exact absurd reached (prepared.below planned metered)
  | @fellBack plan main next start first turn second prepared serves nothing falls again =>
    have calls : providerCalls (start ++ (first ++ (turn ++ second))) = [main, next] := by
      rw [providerCalls_append, providerCalls_append, providerCalls_append,
        prepared.neutral.providerCalls, serves.providerCalls, falls.calls, again.providerCalls]
      rfl
    have turns : fallbacks (start ++ (first ++ (turn ++ second))) = [next] := by
      rw [fallbacks_append, fallbacks_append, fallbacks_append, prepared.neutral.fallbacks,
        serves.fallbacks, falls.fallbacks, again.fallbacks]
      rfl
    constructor
    · rw [calls]
      refine List.forall_mem_cons.mpr ⟨?_, List.forall_mem_singleton.mpr ?_⟩
      · exact prepared.admits prepared.eligible (prepared.resolved.imp fun _ =>
          List.mem_append_left _)
      · refine prepared.admits falls.eligible (falls.resolved.imp fun _ logged => ?_)
        exact List.mem_append_right _ (List.mem_append_right _ (List.mem_append_left _ logged))
    · rw [calls]
      exact Nat.le_refl 2
    · rw [turns]
      exact Nat.le_refl 1
    · intro one two rest same
      rw [calls] at same
      cases same
      exact ⟨turns, falls.different⟩
    · intro before event after split
      obtain ⟨afterStart, tail⟩ := yielded_after prepared.neutral.yields split
      obtain ⟨afterFirst, tail⟩ := yielded_after nothing tail
      obtain ⟨afterTurn, tail⟩ := yielded_after falls.yields tail
      exact again.afterYield tail
    · intro routing consumption planned metered reached
      exact absurd reached (prepared.below planned metered)

/-- **The policy of the router**, whatever the world answers and wherever it fails. -/
theorem router_policy {World Stream : Type} (deps : AiProviderRouterDeps World Stream)
    (request : AiRequest) (world : World) (call : RouterCall) :
    RouterPolicy request (deps.logOf request world call) :=
  (routerRun_logOf world call).policy

end Koklo.Llm
