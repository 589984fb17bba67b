import Mathlib.Data.List.Basic

/-!
# Computations that log what they do

A program that calls the outside changes a world it does not control, and may
fail at every call. Here such a program is a function of the world that gives
its result, the world it leaves and the log of what it did, in order. A caller
that catches an error sees the result as a value (`attempt`); the log keeps
what was done before the error.

What holds of every run is stated with `Ends`: a property of the value and the
log of the runs that return, and one of the error and the log of those that
throw, whatever the world answers. The rules follow the shape of the program: a
value (`Ends.pure`), a sequence (`Ends.bind`), a caught error (`Ends.attempt`),
a call to the outside (`Ends.port`).
-/

set_option autoImplicit false

namespace Koklo.Foundations

variable {World Event Failure α β : Type}

/-- How a computation ends: its result, the world it leaves and what it did,
in order. -/
structure Outcome (World Event Failure α : Type) where
  result : Except Failure α
  world : World
  log : List Event

/-- A computation on a world it does not control. -/
def Logged (World Event Failure α : Type) := World → Outcome World Event Failure α

namespace Logged

/-- The computation that does nothing. -/
def value (a : α) : Logged World Event Failure α := fun world => ⟨.ok a, world, []⟩

/-- Throws an error. -/
def raise (failure : Failure) : Logged World Event Failure α :=
  fun world => ⟨.error failure, world, []⟩

/-- Writes one entry of the log. -/
def record (event : Event) : Logged World Event Failure Unit := fun world => ⟨.ok (), world, [event]⟩

/-- Calls the outside and logs what it answered. -/
def port (call : World → Except Failure α × World) (event : α → List Event) :
    Logged World Event Failure α := fun world =>
  match call world with
  | (.ok a, next) => ⟨.ok a, next, event a⟩
  | (.error failure, next) => ⟨.error failure, next, []⟩

/-- One computation after another; an error ends the sequence. -/
def andThen (first : Logged World Event Failure α) (next : α → Logged World Event Failure β) :
    Logged World Event Failure β := fun world =>
  match first world with
  | ⟨.ok a, between, log⟩ =>
      ⟨(next a between).result, (next a between).world, log ++ (next a between).log⟩
  | ⟨.error failure, between, log⟩ => ⟨.error failure, between, log⟩

/-- Catches the error of a computation. -/
def attempt (program : Logged World Event Failure α) :
    Logged World Event Failure (Except Failure α) := fun world =>
  ⟨.ok (program world).result, (program world).world, (program world).log⟩

instance : Monad (Logged World Event Failure) where
  pure := value
  bind := andThen

/-- Reads the world without changing it. -/
def look (read : World → α) : Logged World Event Failure α :=
  fun world => ⟨.ok (read world), world, []⟩

/-- Runs a computation for its effects and ignores its error. -/
def quietly (program : Logged World Event Failure Unit) : Logged World Event Failure Unit := do
  let _ ← program.attempt
  pure ()

/-- What holds of the value and the log of every run that returns, and of the
error and the log of every run that throws, whatever the world answers. -/
def Ends (program : Logged World Event Failure α) (returns : α → List Event → Prop)
    (throws : Failure → List Event → Prop) : Prop :=
  ∀ world, match (program world).result with
    | .ok a => returns a (program world).log
    | .error failure => throws failure (program world).log

variable {returns : α → List Event → Prop} {throws : Failure → List Event → Prop}

/-- What holds at both ends holds of the log. -/
theorem Ends.log {program : Logged World Event Failure α} {holds : List Event → Prop}
    (ends : program.Ends returns throws) (returned : ∀ a log, returns a log → holds log)
    (thrown : ∀ failure log, throws failure log → holds log) (world : World) :
    holds (program world).log := by
  have here := ends world
  cases result : (program world).result with
  | ok a =>
    rw [result] at here
    exact returned a _ here
  | error failure =>
    rw [result] at here
    exact thrown failure _ here

theorem Ends.mono {returns' : α → List Event → Prop} {throws' : Failure → List Event → Prop}
    {program : Logged World Event Failure α} (ends : program.Ends returns throws)
    (returned : ∀ a log, returns a log → returns' a log)
    (thrown : ∀ failure log, throws failure log → throws' failure log) :
    program.Ends returns' throws' := by
  intro world
  have here := ends world
  split
  · rename_i a result
    rw [result] at here
    exact returned a _ here
  · rename_i failure result
    rw [result] at here
    exact thrown failure _ here

theorem Ends.pure {a : α} (done : returns a []) :
    (Pure.pure a : Logged World Event Failure α).Ends returns throws :=
  fun _ => done

theorem Ends.raise {failure : Failure} (failed : throws failure []) :
    (Logged.raise failure : Logged World Event Failure α).Ends returns throws :=
  fun _ => failed

theorem Ends.record {event : Event} {returns : Unit → List Event → Prop}
    (written : returns () [event]) :
    (Logged.record event : Logged World Event Failure Unit).Ends returns throws :=
  fun _ => written

theorem Ends.look {read : World → α} (seen : ∀ a, returns a []) :
    (Logged.look read : Logged World Event Failure α).Ends returns throws :=
  fun _ => seen _

/-- A call to the outside answers something or fails. -/
theorem Ends.port {call : World → Except Failure α × World} {event : α → List Event}
    (answered : ∀ a, returns a (event a)) (failed : ∀ failure, throws failure []) :
    (Logged.port call event).Ends returns throws := by
  intro world
  simp only [Logged.port]
  rcases call world with ⟨result, next⟩
  cases result with
  | ok a => exact answered a
  | error failure => exact failed failure

/-- **A sequence.** The second computation continues the log of the first. -/
theorem Ends.bind {between : α → List Event → Prop} {returns : β → List Event → Prop}
    {first : Logged World Event Failure α} {next : α → Logged World Event Failure β}
    (start : first.Ends between throws)
    (rest : ∀ a log, between a log → (next a).Ends
      (fun b more => returns b (log ++ more)) fun failure more => throws failure (log ++ more)) :
    (first >>= next).Ends returns throws := by
  intro world
  have here := start world
  change match (andThen first next world).result with
    | .ok b => returns b (andThen first next world).log
    | .error failure => throws failure (andThen first next world).log
  simp only [andThen]
  revert here
  rcases first world with ⟨result, middle, log⟩
  intro here
  cases result with
  | ok a => exact rest a log here middle
  | error failure => exact here

/-- A caught error is a value like another. -/
theorem Ends.attempt {after : Except Failure α → List Event → Prop}
    {program : Logged World Event Failure α} (ends : program.Ends returns throws)
    {throws' : Failure → List Event → Prop}
    (returned : ∀ a log, returns a log → after (.ok a) log)
    (thrown : ∀ failure log, throws failure log → after (.error failure) log) :
    program.attempt.Ends after throws' := by
  intro world
  have here := ends world
  change after (program world).result (program world).log
  cases result : (program world).result with
  | ok a =>
    rw [result] at here
    exact returned a _ here
  | error failure =>
    rw [result] at here
    exact thrown failure _ here

/-- What never throws meets any condition on its errors. -/
theorem Ends.safely {program : Logged World Event Failure α}
    (ends : program.Ends returns fun _ _ => False) : program.Ends returns throws :=
  ends.mono (fun _ _ here => here) fun _ _ none => none.elim

/-- A caught call that logs nothing. -/
theorem Ends.attempt_port {call : World → Except Failure α × World}
    {throws : Failure → List Event → Prop} :
    (Logged.port call fun _ => ([] : List Event)).attempt.Ends (fun _ log => log = []) throws := by
  have silent : (Logged.port call fun _ => ([] : List Event)).Ends (fun _ log => log = [])
      fun _ log => log = [] := .port (fun _ => rfl) fun _ => rfl
  exact silent.attempt (fun _ _ here => here) fun _ _ here => here

/-- What runs quietly always returns. -/
theorem Ends.quietly {program : Logged World Event Failure Unit} {holds : List Event → Prop}
    {throws' : Failure → List Event → Prop}
    (ends : program.Ends (fun _ log => holds log) fun _ log => holds log) :
    program.quietly.Ends (fun _ log => holds log) throws' := by
  have caught : program.attempt.Ends (fun _ log => holds log) throws' :=
    ends.attempt (fun _ _ here => here) fun _ _ here => here
  refine .bind caught fun _ log here => .pure ?_
  rw [List.append_nil]
  exact here

end Logged

end Koklo.Foundations
