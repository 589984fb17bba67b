import Mathlib.Data.List.Basic

/-!
# Runs of a step function

A system is a partial step function: at a state, a label is either impossible
or leads to one state. All the choices of the environment are in the label, so
a list of labels is a schedule and has at most one run.

What one step preserves, a whole run preserves (`run_invariant`). When a step
preserves a property only under a condition on the label and the state before
it, every run whose steps all meet the condition preserves it
(`run_invariant_along`). A relation that every step satisfies and that is
reflexive and transitive relates the two ends of a run (`run_relates`).
-/

set_option autoImplicit false

namespace Koklo.Foundations

universe u v

variable {State : Type u} {Label : Type v}

/-- The state a schedule leads to, when each of its labels is possible in turn. -/
def run (step : State → Label → Option State) : State → List Label → Option State
  | s, [] => some s
  | s, label :: schedule => (step s label).bind fun next => run step next schedule

/-- Every step of the schedule meets the condition in the state before it. -/
def Along (step : State → Label → Option State) (allowed : State → Label → Prop) :
    State → List Label → Prop
  | _, [] => True
  | s, label :: schedule =>
      allowed s label ∧ ∀ next, step s label = some next → Along step allowed next schedule

variable {step : State → Label → Option State}

@[simp] theorem run_nil (s : State) : run step s [] = some s := rfl

@[simp] theorem run_cons (s : State) (label : Label) (schedule : List Label) :
    run step s (label :: schedule) =
      (step s label).bind fun next => run step next schedule := rfl

/-- A schedule runs in two parts. -/
theorem run_append (s : State) (first second : List Label) :
    run step s (first ++ second) = (run step s first).bind fun mid => run step mid second := by
  induction first generalizing s with
  | nil => rfl
  | cons label first ih =>
    simp only [List.cons_append, run_cons, Option.bind_assoc, ih]

/-- A run that starts with a label takes its step first. -/
theorem run_cons_eq_some {s t : State} {label : Label} {schedule : List Label}
    (h : run step s (label :: schedule) = some t) :
    ∃ next, step s label = some next ∧ run step next schedule = some t :=
  Option.bind_eq_some_iff.mp h

/-- A schedule meets the condition when its first label does and so does the rest,
from the state that label leads to. -/
theorem Along.of_step {allowed : State → Label → Prop} {s next : State} {label : Label}
    {schedule : List Label} (taken : step s label = some next) (first : allowed s label)
    (rest : Along step allowed next schedule) : Along step allowed s (label :: schedule) := by
  refine ⟨first, fun other taken' => ?_⟩
  rw [taken] at taken'
  cases taken'
  exact rest

/-- A schedule meets the condition when its first label does and so does what follows the step. -/
theorem Along.cons_iff {allowed : State → Label → Prop} {s : State} {label : Label}
    {schedule : List Label} : Along step allowed s (label :: schedule) ↔
      allowed s label ∧ ∀ next ∈ step s label, Along step allowed next schedule := Iff.rfl

/-- A condition that can be tested on the steps can be tested along a schedule. -/
instance Along.decidable {allowed : State → Label → Prop}
    [∀ s label, Decidable (allowed s label)] :
    (s : State) → (schedule : List Label) → Decidable (Along step allowed s schedule)
  | _, [] => .isTrue trivial
  | _, _ :: schedule =>
    haveI : ∀ next, Decidable (Along step allowed next schedule) :=
      fun next => Along.decidable next schedule
    decidable_of_iff _ Along.cons_iff.symm

/-- A condition along a schedule holds along its two parts. -/
theorem Along.split {allowed : State → Label → Prop} {s mid : State} {first rest : List Label}
    (along : Along step allowed s (first ++ rest)) (reached : run step s first = some mid) :
    Along step allowed s first ∧ Along step allowed mid rest := by
  induction first generalizing s with
  | nil =>
    cases reached
    exact ⟨trivial, along⟩
  | cons label first ih =>
    obtain ⟨next, taken, onward⟩ := run_cons_eq_some reached
    obtain ⟨before, after⟩ := ih (along.2 next taken) onward
    exact ⟨.of_step taken along.1 before, after⟩

/-- A condition on all the labels, next to a condition on the steps. -/
theorem Along.and_labels {allowed : State → Label → Prop} {permitted : Label → Prop} {s : State}
    {schedule : List Label} (along : Along step allowed s schedule)
    (labels : ∀ label ∈ schedule, permitted label) :
    Along step (fun s label => allowed s label ∧ permitted label) s schedule := by
  induction schedule generalizing s with
  | nil => trivial
  | cons label schedule ih =>
    obtain ⟨first, others⟩ := List.forall_mem_cons.mp labels
    exact ⟨⟨along.1, first⟩, fun next taken => ih (along.2 next taken) others⟩

/-- A condition on all the labels. -/
theorem Along.of_labels {permitted : Label → Prop} {s : State} {schedule : List Label}
    (labels : ∀ label ∈ schedule, permitted label) :
    Along step (fun _ label => permitted label) s schedule := by
  induction schedule generalizing s with
  | nil => trivial
  | cons label schedule ih =>
    obtain ⟨first, others⟩ := List.forall_mem_cons.mp labels
    exact ⟨first, fun _ _ => ih others⟩

/-- **What one step preserves under a condition, a run whose steps meet the
condition preserves.** -/
theorem run_invariant_along {allowed : State → Label → Prop} {invariant : State → Prop}
    (preserved : ∀ s label next, invariant s → allowed s label → step s label = some next →
      invariant next)
    {s t : State} {schedule : List Label} (start : invariant s)
    (along : Along step allowed s schedule) (reached : run step s schedule = some t) :
    invariant t := by
  induction schedule generalizing s with
  | nil =>
    cases reached
    exact start
  | cons label schedule ih =>
    obtain ⟨next, taken, rest⟩ := run_cons_eq_some reached
    exact ih (preserved s label next start along.1 taken) (along.2 next taken) rest

/-- **What every step preserves, every run preserves.** -/
theorem run_invariant {invariant : State → Prop}
    (preserved : ∀ s label next, invariant s → step s label = some next → invariant next)
    {s t : State} {schedule : List Label} (start : invariant s)
    (reached : run step s schedule = some t) : invariant t := by
  induction schedule generalizing s with
  | nil =>
    cases reached
    exact start
  | cons label schedule ih =>
    obtain ⟨next, taken, rest⟩ := run_cons_eq_some reached
    exact ih (preserved s label next start taken) rest

/-- **Two conditions on labels that agree on every step of a run** agree on its schedule. -/
theorem run_labels_iff {invariant : State → Prop} {first second : Label → Prop}
    (preserved : ∀ s label next, invariant s → step s label = some next → invariant next)
    (agree : ∀ s label next, invariant s → step s label = some next → (first label ↔ second label))
    {s t : State} {schedule : List Label} (start : invariant s)
    (reached : run step s schedule = some t) :
    (∀ label ∈ schedule, first label) ↔ ∀ label ∈ schedule, second label := by
  induction schedule generalizing s with
  | nil => exact iff_of_true (List.forall_mem_nil _) (List.forall_mem_nil _)
  | cons label schedule ih =>
    obtain ⟨next, taken, rest⟩ := run_cons_eq_some reached
    rw [List.forall_mem_cons, List.forall_mem_cons, agree s label next start taken,
      ih (preserved s label next start taken) rest]

/-- A reflexive and transitive relation that holds across every step holds
across every run. -/
theorem run_relates {related : State → State → Prop} (refl : ∀ s, related s s)
    (trans : ∀ first second third, related first second → related second third →
      related first third)
    (single : ∀ s label next, step s label = some next → related s next)
    {s t : State} {schedule : List Label} (reached : run step s schedule = some t) :
    related s t := by
  induction schedule generalizing s with
  | nil =>
    cases reached
    exact refl _
  | cons label schedule ih =>
    obtain ⟨next, taken, rest⟩ := run_cons_eq_some reached
    exact trans s next t (single s label next taken) (ih rest)

end Koklo.Foundations
