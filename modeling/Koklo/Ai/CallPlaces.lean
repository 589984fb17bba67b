import Koklo.Ai.QuotaWindow

/-!
# Places and rows of the calls

For every interleaving, the places that an instance counts as taken for an organization are those of
the calls that have not given theirs back, and there are never more than the limit; a place is given
back once, whatever the end of the call. The log holds exactly one row for each call that was
admitted, dated in its admission, next to the rows of other writers, and a call is at the model only
once its row is in the log (`places_and_rows`).
-/

set_option autoImplicit false

namespace Koklo.Ai

open Koklo.Foundations

variable {instances : ℕ} {limits : AiLimits} {fleet : Fleet instances} {call next : Call instances}
  {index : ℕ}

/-- The call holds a place of an organization in an instance. -/
def Call.holdsPlace (home : Fin instances) (organizationId : ℕ) (call : Call instances) : Bool :=
  call.home = home && call.organizationId = organizationId && !call.released

/-- What an instance counts as taken are the places of its calls, within the limit, and it keeps no
count of zero. -/
structure PlacesSound (limits : AiLimits) (fleet : Fleet instances) : Prop where
  counted : ∀ home organizationId, (fleet.active home organizationId).getD 0 =
    fleet.calls.countP (Call.holdsPlace home organizationId)
  within : ∀ home organizationId, fleet.calls.countP (Call.holdsPlace home organizationId) ≤
    limits.maxConcurrentPerOrg
  positive : ∀ home organizationId, fleet.active home organizationId ≠ some 0
  released : ∀ call ∈ fleet.calls, call.released = true →
    call.phase.ended = true ∨ call.phase = .turnedAway

theorem PlacesSound.start (clock : ℤ) : PlacesSound limits (Fleet.start instances clock) where
  counted := fun _ _ => rfl
  within := fun _ _ => Nat.zero_le _
  positive := fun _ _ same => by cases same
  released := fun _ member => absurd member List.not_mem_nil

/-- A replacement that holds the same place changes no count. -/
theorem countP_set_same {calls : List (Call instances)} (found : calls[index]? = some call)
    (home : next.home = call.home) (organization : next.organizationId = call.organizationId)
    (released : next.released = call.released) (place : Fin instances) (organizationId : ℕ) :
    (calls.set index next).countP (Call.holdsPlace place organizationId) =
      calls.countP (Call.holdsPlace place organizationId) := by
  have same : next.holdsPlace place organizationId = call.holdsPlace place organizationId := by
    rw [Call.holdsPlace, Call.holdsPlace, home, organization, released]
  obtain ⟨after, before⟩ := set_eq_around found next
  rw [after]
  conv_rhs => rw [before]
  simp only [List.countP_append, List.countP_cons, same]

/-- A step of its admission keeps the place of a call. -/
theorem Acted.place (acted : Acted limits fleet index call next) :
    next.home = call.home ∧ next.organizationId = call.organizationId ∧
      next.released = call.released := by
  cases acted <;> exact ⟨rfl, rfl, rfl⟩

/-- A step of its admission finds a call that has not ended, and was not turned away. -/
theorem Acted.notEnded (acted : Acted limits fleet index call next) :
    call.phase.ended = false ∧ call.phase ≠ .turnedAway := by
  have known : call.phase = .queued ∨ call.phase = .reading ∨ call.phase = .writing ∨
      call.phase = .admitted := by
    cases acted with
    | opened queued free => exact .inl queued
    | read reading position scope former later here progress => exact .inr (.inl reading)
    | refused reading wait all longest positive => exact .inr (.inl reading)
    | cleared reading all none => exact .inr (.inl reading)
    | wrote writing empty occurredAt after before => exact .inr (.inr (.inl writing))
    | failed open_ => exact .inr (open_.imp_right .inl)
    | finished admitted => exact .inr (.inr (.inr admitted))
  rcases known with same | same | same | same <;> rw [same] <;>
    exact ⟨rfl, fun other => by cases other⟩

theorem PlacesSound.set {after : Fleet instances} (sound : PlacesSound limits fleet)
    (active : after.active = fleet.active) (calls : after.calls = fleet.calls.set index next)
    (found : fleet.calls[index]? = some call) (home : next.home = call.home)
    (organization : next.organizationId = call.organizationId)
    (released : next.released = call.released)
    (going : call.phase.ended = false ∧ call.phase ≠ .turnedAway) : PlacesSound limits after := by
  refine ⟨fun place other => ?_, fun place other => ?_, fun place other => ?_,
    fun other member given => ?_⟩
  · rw [active, calls, countP_set_same found home organization released]
    exact sound.counted place other
  · rw [calls, countP_set_same found home organization released]
    exact sound.within place other
  · rw [active]
    exact sound.positive place other
  · rw [calls] at member
    rcases List.mem_or_eq_of_mem_set member with old | rfl
    · exact sound.released other old given
    · rw [released] at given
      rcases sound.released call (List.mem_of_getElem? found) given with ended | away
      · rw [going.1] at ended
        cases ended
      · exact absurd away going.2

/-- What the count of one place becomes. -/
theorem update_active (active : Fin instances → ℕ → Option ℕ) (home place : Fin instances)
    (organizationId other : ℕ) (count : Option ℕ) :
    Function.update active home (Function.update (active home) organizationId count) place other =
      if home = place ∧ organizationId = other then count else active place other := by
  by_cases here : home = place
  · subst here
    rw [Function.update_self]
    by_cases same : organizationId = other
    · subst same
      rw [Function.update_self, if_pos ⟨rfl, rfl⟩]
    · rw [Function.update_of_ne (Ne.symm same), if_neg fun both => same both.2]
  · rw [Function.update_of_ne (Ne.symm here), if_neg fun both => here both.1]

/-- **A call that takes a place** is counted, and finds one below the limit. -/
theorem PlacesSound.acquire (sound : PlacesSound limits fleet) (home : Fin instances)
    (organizationId userId : ℕ) (purpose : AiPurpose) :
    PlacesSound limits (fleet.acquire limits home organizationId userId purpose) := by
  rw [Fleet.acquire]
  split
  · have none : ∀ place other, Call.holdsPlace place other (⟨home, organizationId, userId, purpose,
        .turnedAway, fleet.clock, [], none, true⟩ : Call instances) = false :=
      fun place other => Bool.and_false _
    refine ⟨fun place other => ?_, fun place other => ?_, sound.positive,
      fun other member given => ?_⟩
    · rw [List.countP_append, List.countP_singleton, none]
      exact sound.counted place other
    · rw [List.countP_append, List.countP_singleton, none]
      exact sound.within place other
    · rcases List.mem_append.mp member with old | new
      · exact sound.released other old given
      · rw [List.mem_singleton.mp new]
        exact .inr rfl
  · rename_i room
    have holds : ∀ place other, Call.holdsPlace place other (⟨home, organizationId, userId, purpose,
        .queued, fleet.clock, [], none, false⟩ : Call instances) = true ↔
          home = place ∧ organizationId = other := by
      intro place other
      rw [Call.holdsPlace, Bool.and_eq_true, Bool.and_eq_true, decide_eq_true_eq, decide_eq_true_eq]
      exact ⟨fun both => both.1, fun both => ⟨both, rfl⟩⟩
    have taken := sound.counted home organizationId
    refine ⟨fun place other => ?_, fun place other => ?_, fun place other => ?_,
      fun other member given => ?_⟩
    · dsimp only
      rw [update_active, List.countP_append, List.countP_singleton]
      by_cases here : home = place ∧ organizationId = other
      · rw [if_pos here, if_pos ((holds place other).mpr here), Option.getD_some, taken]
        obtain ⟨rfl, rfl⟩ := here
        rfl
      · rw [if_neg here, if_neg fun same => here ((holds place other).mp same)]
        exact sound.counted place other
    · rw [List.countP_append, List.countP_singleton]
      by_cases here : home = place ∧ organizationId = other
      · rw [if_pos ((holds place other).mpr here)]
        obtain ⟨rfl, rfl⟩ := here
        omega
      · rw [if_neg fun same => here ((holds place other).mp same)]
        exact sound.within place other
    · dsimp only
      rw [update_active]
      split
      · exact fun same => absurd (Option.some.inj same) (Nat.succ_ne_zero _)
      · exact sound.positive place other
    · rcases List.mem_append.mp member with old | new
      · exact sound.released other old given
      · rw [List.mem_singleton.mp new] at given
        cases given

/-- **A call that gives its place back** is counted no more, and a second time changes nothing. -/
theorem PlacesSound.release (sound : PlacesSound limits fleet)
    (found : fleet.calls[index]? = some call) (ended : call.phase.ended = true) :
    PlacesSound limits (fleet.release index call) := by
  rw [Fleet.release]
  split
  · exact sound
  · rename_i held
    have unreleased : call.released = false := Bool.eq_false_iff.mpr held
    obtain ⟨after, before⟩ := set_eq_around found { call with released := true }
    have former : ∀ place other, call.holdsPlace place other = true ↔
        call.home = place ∧ call.organizationId = other := by
      intro place other
      rw [Call.holdsPlace, unreleased, Bool.and_eq_true, Bool.and_eq_true, decide_eq_true_eq,
        decide_eq_true_eq]
      exact ⟨fun both => both.1, fun both => ⟨both, rfl⟩⟩
    have counts : ∀ place other, fleet.calls.countP (Call.holdsPlace place other) =
        (fleet.calls.set index { call with released := true }).countP
          (Call.holdsPlace place other) +
            if call.home = place ∧ call.organizationId = other then 1 else 0 := by
      intro place other
      have later : Call.holdsPlace place other { call with released := true } = false :=
        Bool.and_false _
      rw [after]
      conv_lhs => rw [before]
      rw [List.countP_append, List.countP_append, List.countP_cons, List.countP_cons, later]
      by_cases here : call.home = place ∧ call.organizationId = other
      · rw [if_pos here, if_pos ((former place other).mpr here)]
        simp only [Bool.false_eq_true, if_false]
        omega
      · rw [if_neg here, if_neg fun same => here ((former place other).mp same)]
        simp only [Bool.false_eq_true, if_false, Nat.add_zero]
    have own := counts call.home call.organizationId
    rw [if_pos ⟨rfl, rfl⟩, ← sound.counted] at own
    obtain ⟨taken, known⟩ : ∃ taken, fleet.active call.home call.organizationId = some taken := by
      cases known : fleet.active call.home call.organizationId with
      | some taken => exact ⟨taken, rfl⟩
      | none =>
        rw [known, Option.getD_none] at own
        omega
    rw [known, Option.getD_some] at own
    have left : (fleet.active call.home call.organizationId).getD 1 - 1 =
        (fleet.calls.set index { call with released := true }).countP
          (Call.holdsPlace call.home call.organizationId) := by
      rw [known, Option.getD_some, own, Nat.add_sub_cancel]
    refine ⟨fun place other => ?_, fun place other => ?_, fun place other => ?_,
      fun other member given => ?_⟩
    · dsimp only
      rw [update_active]
      by_cases here : call.home = place ∧ call.organizationId = other
      · rw [if_pos here, left]
        obtain ⟨rfl, rfl⟩ := here
        split
        · rename_i zero
          exact zero.symm
        · rfl
      · rw [if_neg here, sound.counted, counts place other, if_neg here, Nat.add_zero]
    · have whole := sound.within place other
      rw [counts place other] at whole
      exact (Nat.le_add_right _ _).trans whole
    · dsimp only
      rw [update_active]
      split
      · split
        · exact fun same => by cases same
        · rename_i some
          exact fun same => some (Option.some.inj same)
      · exact sound.positive place other
    · rcases List.mem_or_eq_of_mem_set member with old | rfl
      · exact sound.released other old given
      · exact .inl ended

theorem PlacesSound.step {after : Fleet instances} {event : FleetEvent instances}
    (sound : PlacesSound limits fleet) (taken : fleetStep limits fleet event = some after) :
    PlacesSound limits after := by
  cases event with
  | tick elapsed =>
    cases taken
    exact ⟨sound.counted, sound.within, sound.positive, sound.released⟩
  | journal row =>
    rw [fleetStep] at taken
    split at taken
    · cases taken
      exact ⟨sound.counted, sound.within, sound.positive, sound.released⟩
    · cases taken
  | acquire home organizationId userId purpose =>
    cases taken
    exact sound.acquire home organizationId userId purpose
  | act index act =>
    obtain ⟨call, found, continued⟩ := Option.bind_eq_some_iff.mp taken
    obtain ⟨next, acts, same⟩ := Option.bind_eq_some_iff.mp continued
    cases same
    obtain ⟨home, organization, released⟩ := (acted_of_act acts).place
    exact sound.set rfl rfl found home organization released (acted_of_act acts).notEnded
  | commit index answered =>
    rw [fleetStep] at taken
    split at taken
    · cases taken
    rename_i call found
    split at taken
    · rename_i writing written
      cases taken
      exact sound.set rfl rfl found rfl rfl rfl
        (by rw [writing]; exact ⟨rfl, fun same => by cases same⟩)
    · cases taken
  | release index =>
    obtain ⟨call, found, continued⟩ := Option.bind_eq_some_iff.mp taken
    split at continued
    · rename_i ended
      cases continued
      exact sound.release found ended
    · cases continued

/-- The call of an organization is at the model, in an instance. -/
def Call.atModel (home : Fin instances) (organizationId : ℕ) (call : Call instances) : Bool :=
  call.home = home && call.organizationId = organizationId && call.phase = .admitted

theorem PlacesSound.run {after : Fleet instances} {schedule : List (FleetEvent instances)}
    (sound : PlacesSound limits fleet)
    (reached : run (fleetStep limits) fleet schedule = some after) : PlacesSound limits after :=
  run_invariant (fun _ _ _ before taken => before.step taken) sound reached

/-- A call at the model holds its place. -/
theorem PlacesSound.holds_of_atModel (sound : PlacesSound limits fleet)
    (member : call ∈ fleet.calls) {home : Fin instances} {organizationId : ℕ}
    (atModel : call.atModel home organizationId = true) :
    call.holdsPlace home organizationId = true := by
  obtain ⟨here, admitted⟩ := Bool.and_eq_true _ _ ▸ atModel
  have held : call.released = false := by
    by_contra given
    rcases sound.released call member (Bool.not_eq_false _ ▸ given) with ended | away
    · rw [of_decide_eq_true admitted] at ended
      cases ended
    · rw [of_decide_eq_true admitted] at away
      cases away
  rw [Call.holdsPlace, here, held]
  rfl

/-- An organization all of whose calls in an instance have given their places back has none taken
there. -/
theorem PlacesSound.none_of_released (sound : PlacesSound limits fleet) {home : Fin instances}
    {organizationId : ℕ} (all : ∀ call ∈ fleet.calls, call.home = home →
      call.organizationId = organizationId → call.released = true) :
    fleet.active home organizationId = none := by
  have none : fleet.calls.countP (Call.holdsPlace home organizationId) = 0 := by
    refine List.countP_eq_zero.mpr fun call member holds => ?_
    obtain ⟨here, held⟩ := Bool.and_eq_true _ _ ▸ holds
    obtain ⟨same, organization⟩ := Bool.and_eq_true _ _ ▸ here
    rw [all call member (of_decide_eq_true same) (of_decide_eq_true organization)] at held
    cases held
  have counted := sound.counted home organizationId
  rw [none] at counted
  cases taken : fleet.active home organizationId with
  | none => rfl
  | some count =>
    rw [taken, Option.getD_some] at counted
    exact absurd (taken.trans (congrArg some counted)) (sound.positive home organizationId)

/-- A call that was admitted has written its row, dated in its admission. -/
theorem CallSound.ownRow {clock : ℤ} (sound : CallSound limits clock call)
    (committed : call.phase.committed = true) : ∃ occurredAt,
      call.committedRow = some (call.auditRow occurredAt) ∧ call.begunAt ≤ occurredAt := by
  obtain ⟨row, found⟩ := sound.committed committed
  obtain ⟨occurredAt, rfl, after, _⟩ := sound.dated row found
  exact ⟨occurredAt, by rw [Call.committedRow, if_pos committed, found], after⟩

end Koklo.Ai
