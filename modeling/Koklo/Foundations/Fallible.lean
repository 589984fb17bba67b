import Mathlib.Data.List.Forall2

/-!
# Fallible computations

A computation that succeeds has succeeded in each of its parts. The lemmas take
a successful computation apart, so that a proof about it never unfolds the
monad.
-/

set_option autoImplicit false

namespace Koklo.Foundations

universe u v

variable {ε : Type u} {α β : Type v}

/-- A sequence of two computations succeeds when both do. -/
theorem bind_eq_ok {x : Except ε α} {f : α → Except ε β} {b : β} :
    (x >>= f) = .ok b ↔ ∃ a, x = .ok a ∧ f a = .ok b := by
  cases x with
  | error e => simp [bind, Except.bind]
  | ok a => simp [bind, Except.bind]

theorem map_eq_ok {x : Except ε α} {f : α → β} {b : β} :
    x.map f = .ok b ↔ ∃ a, x = .ok a ∧ f a = b := by
  cases x with
  | error e => simp [Except.map]
  | ok a => simp [Except.map]

theorem map_eq_error {x : Except ε α} {f : α → β} {e : ε} :
    x.map f = .error e ↔ x = .error e := by
  cases x with
  | error e => simp [Except.map]
  | ok a => simp [Except.map]

/-- A guard before a computation succeeds when the guard and the rest do. -/
theorem guard_eq_ok {condition : Prop} [Decidable condition] {e : ε} {x : Except ε α} {a : α} :
    (if condition then .error e else x) = .ok a ↔ ¬ condition ∧ x = .ok a := by
  by_cases holds : condition <;> simp [holds]

/-- A computation that succeeds on a list has succeeded on each of its items. -/
theorem forall₂_of_mapM_eq_some {f : α → Option β} {list : List α} {out : List β}
    (mapped : list.mapM f = some out) : List.Forall₂ (fun a b => f a = some b) list out := by
  induction list generalizing out with
  | nil =>
    cases mapped
    exact .nil
  | cons a list ih =>
    rw [List.mapM_cons] at mapped
    obtain ⟨b, found, rest⟩ := Option.bind_eq_some_iff.mp mapped
    obtain ⟨others, later, same⟩ := Option.bind_eq_some_iff.mp rest
    cases same
    exact .cons found (ih later)

/-- Reading back each written item of a list. -/
theorem mapM_map_eq_ok {ε α β γ : Type} {write : α → β} {read : β → Except ε γ} {value : α → γ}
    {list : List α} (each : ∀ a ∈ list, read (write a) = .ok (value a)) :
    (list.map write).mapM read = .ok (list.map value) := by
  induction list with
  | nil => rfl
  | cons a list ih =>
    obtain ⟨first, others⟩ := List.forall_mem_cons.mp each
    rw [List.map_cons, List.mapM_cons, first, ih others]
    rfl

end Koklo.Foundations
