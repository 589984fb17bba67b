import Koklo.Installation.LinkingTrail

/-!
# States used once

For every run, a state is consumed by one callback at most, and a callback exchanges one code at
most, after it has consumed its state and before the state expired (`states_used_once`): what the
states that were signed, the rows, the starts and the journal hold of a nonce never adds up to more
than one.
-/

set_option autoImplicit false

namespace Koklo.Installation

open Koklo.Foundations Koklo.Members
open scoped List

variable {hmac : Hmac} {desk after : LinkDesk} {index : ℕ} {callback : Callback}

/-! ## Nonces -/

/-- The callback consumed a state with the nonce. -/
def Entry.consumes (nonce : Text) : Entry → Bool
  | .consumed _ other _ => other = nonce
  | _ => false

/-- The state may still be consumed. -/
def StateRow.open (nonce : Text) (row : StateRow) : Bool :=
  row.nonce = nonce ∧ row.consumedAt = none

/-- The start is about to keep a state with the nonce. -/
def Start.holds (nonce : Text) (start : Start) : Bool :=
  match start.phase with
  | .purging claim _ => claim.nonce = nonce
  | .counting claim _ => claim.nonce = nonce
  | .creating claim _ => claim.nonce = nonce
  | _ => false

/-- What the desk holds of a nonce: consumptions, states to consume and states to keep. -/
def usesOf (desk : LinkDesk) (nonce : Text) : ℕ :=
  desk.journal.countP (Entry.consumes nonce) + desk.states.countP (StateRow.open nonce) +
    desk.starts.countP (Start.holds nonce)

/-- **No nonce is held more often than it was signed.** -/
structure NoncesSound (desk : LinkDesk) : Prop where
  uses : ∀ nonce, usesOf desk nonce ≤ (desk.issued.map StateClaim.nonce).count nonce

theorem NoncesSound.empty (clock : ℤ) : NoncesSound (LinkDesk.empty clock) where
  uses := fun _ => Nat.zero_le _

/-- Steps that hold no more of any nonce, and sign nothing. -/
theorem NoncesSound.of_le (sound : NoncesSound desk) (issued : after.issued = desk.issued)
    (fewer : ∀ nonce, usesOf after nonce ≤ usesOf desk nonce) : NoncesSound after :=
  ⟨fun nonce => issued ▸ (fewer nonce).trans (sound.uses nonce)⟩

/-- A start that goes on and holds no nonce that it did not hold. -/
theorem NoncesSound.quietStart (sound : NoncesSound desk) {start : Start} {phase : StartPhase}
    (found : desk.starts[index]? = some start)
    (only : ∀ nonce, Start.holds nonce { start with phase := phase } = true →
      Start.holds nonce start = true) (keeps : StateRow → Bool) :
    NoncesSound { desk.setStart index start phase with states := desk.states.filter keeps } := by
  refine sound.of_le rfl fun nonce => ?_
  have starts := countP_set_le found (only nonce)
  have states : (desk.states.filter keeps).countP (StateRow.open nonce) ≤
      desk.states.countP (StateRow.open nonce) := List.Sublist.countP_le List.filter_sublist
  exact Nat.add_le_add (Nat.add_le_add_left states _) starts

/-- **A nonce that is signed** is held by its start alone. -/
theorem NoncesSound.issue (sound : NoncesSound desk) {start : Start} {claim : StateClaim}
    (found : desk.starts[index]? = some start) (issuing : start.phase = .issuing) :
    NoncesSound { desk.setStart index start (.purging claim desk.clock) with
      issued := desk.issued ++ [claim]
      journal := desk.journal ++ [.started claim desk.clock] } := by
  refine ⟨fun nonce => ?_⟩
  have former := sound.uses nonce
  have starts := @countP_set_add _ desk.starts index start
    { start with phase := .purging claim desk.clock } (Start.holds nonce) found
  have before : Start.holds nonce start = false := by
    rw [Start.holds, issuing]
  have later : Start.holds nonce { start with phase := .purging claim desk.clock } =
      decide (claim.nonce = nonce) := rfl
  have entry : (desk.journal ++ [Entry.started claim desk.clock]).countP (Entry.consumes nonce) =
      desk.journal.countP (Entry.consumes nonce) := by
    rw [List.countP_append]
    rfl
  have signed : ((desk.issued ++ [claim]).map StateClaim.nonce).count nonce =
      (desk.issued.map StateClaim.nonce).count nonce + (decide (claim.nonce = nonce)).toNat := by
    rw [List.map_append, List.map_singleton, List.count_append, List.count_singleton,
      beq_eq_decide]
    cases decide (claim.nonce = nonce) <;> rfl
  rw [before, later] at starts
  rw [usesOf] at former
  change _ + _ + (desk.starts.set index { start with phase := .purging claim desk.clock }).countP
    (Start.holds nonce) ≤ _
  rw [entry, signed]
  simp only [Bool.toNat_false, Nat.add_zero] at starts
  change _ + desk.states.countP (StateRow.open nonce) + _ ≤ _
  omega

/-- **A state that is kept** takes the place of what its start held. -/
theorem NoncesSound.create (sound : NoncesSound desk) {start : Start} {claim : StateClaim}
    {createdAt : ℤ} (found : desk.starts[index]? = some start)
    (creating : start.phase = .creating claim createdAt) (keeps : StateRow → Bool) :
    NoncesSound { desk.setStart index start (.ended .created) with
      states := desk.states.filter keeps ++ [LinkDesk.stateRow claim createdAt] } := by
  refine sound.of_le rfl fun nonce => ?_
  have starts := @countP_set_add _ desk.starts index start
    { start with phase := .ended .created } (Start.holds nonce) found
  have before : Start.holds nonce start = decide (claim.nonce = nonce) := by
    rw [Start.holds, creating]
  have later : Start.holds nonce { start with phase := .ended .created } = false := rfl
  have fewer : (desk.states.filter keeps).countP (StateRow.open nonce) ≤
      desk.states.countP (StateRow.open nonce) := List.Sublist.countP_le List.filter_sublist
  have states : (desk.states.filter keeps ++ [LinkDesk.stateRow claim createdAt]).countP
      (StateRow.open nonce) = (desk.states.filter keeps).countP (StateRow.open nonce) +
        (decide (claim.nonce = nonce)).toNat := by
    rw [List.countP_append, List.countP_singleton]
    have opened : StateRow.open nonce (LinkDesk.stateRow claim createdAt) =
        decide (claim.nonce = nonce) := by
      rw [StateRow.open]
      exact decide_eq_decide.mpr ⟨fun both => both.1, fun same => ⟨same, rfl⟩⟩
    rw [opened]
    cases decide (claim.nonce = nonce) <;> rfl
  rw [before, later] at starts
  simp only [Bool.toNat_false, Nat.add_zero] at starts
  rw [usesOf, usesOf]
  change desk.journal.countP (Entry.consumes nonce) + _ +
    (desk.starts.set index { start with phase := .ended .created }).countP (Start.holds nonce) ≤ _
  rw [states]
  omega

theorem NoncesSound.actStart (sound : NoncesSound desk) {start : Start} {act : StartAct}
    (found : desk.starts[index]? = some start)
    (taken : desk.actStart index start act = some after) : NoncesSound after := by
  have quiet : ∀ phase, (∀ nonce, Start.holds nonce { start with phase := phase } = true →
      Start.holds nonce start = true) → NoncesSound (desk.setStart index start phase) := by
    intro phase only
    have all := sound.quietStart found only fun _ => true
    rwa [List.filter_true] at all
  unfold LinkDesk.actStart at taken
  cases act with
  | find =>
    dsimp only at taken
    split at taken
    · split at taken
      · cases taken
        exact quiet _ fun nonce held => by cases held
      · split at taken
        · cases taken
          exact quiet _ fun nonce held => by cases held
        · split at taken
          · cases taken
            exact quiet _ fun nonce held => by cases held
          · cases taken
            exact quiet _ fun nonce held => by cases held
    · cases taken
  | issue nonce =>
    dsimp only at taken
    split at taken
    · rename_i may
      cases taken
      exact sound.issue found may.1
    · cases taken
  | purge =>
    dsimp only at taken
    split at taken
    · rename_i claim createdAt purging
      cases taken
      refine sound.quietStart found (fun nonce held => ?_) _
      rw [Start.holds, purging]
      exact held
    · cases taken
  | count =>
    dsimp only at taken
    split at taken
    · rename_i claim createdAt counting
      split at taken
      · cases taken
        exact quiet _ fun nonce held => by cases held
      · cases taken
        refine quiet _ fun nonce held => ?_
        rw [Start.holds, counting]
        exact held
    · cases taken
  | create =>
    dsimp only at taken
    split at taken
    · rename_i claim createdAt creating
      cases taken
      exact sound.create found creating _
    · cases taken
  | fail =>
    dsimp only at taken
    split at taken
    · cases taken
    · cases taken
      exact quiet _ fun nonce held => by cases held

/-- **A consumption** takes the place of the state that it consumes. -/
theorem NoncesSound.consumed (sound : NoncesSound desk) {found : StateRow}
    (row : desk.states.find? (LinkDesk.consumable callback) = some found)
    (phase : CallbackPhase) :
    NoncesSound { desk.advance index callback phase
        (.consumed index callback.claim.nonce callback.arrivedAt) with
      states := desk.states.map fun row => if LinkDesk.consumable callback row then
        { row with consumedAt := some callback.arrivedAt } else row } := by
  refine sound.of_le rfl fun nonce => ?_
  have only : ∀ row : StateRow, StateRow.open nonce
      (if LinkDesk.consumable callback row then
        { row with consumedAt := some callback.arrivedAt } else row) =
        true → StateRow.open nonce row = true := by
    intro row opened
    split at opened
    · rw [StateRow.open, decide_eq_true_eq] at opened
      cases opened.2
    · exact opened
  have entry : (desk.journal ++
      [Entry.consumed index callback.claim.nonce callback.arrivedAt]).countP
        (Entry.consumes nonce) = desk.journal.countP (Entry.consumes nonce) +
          if callback.claim.nonce = nonce then 1 else 0 := by
    rw [List.countP_append, List.countP_singleton, Entry.consumes]
    simp only [decide_eq_true_eq]
  rw [usesOf, usesOf]
  change (desk.journal ++ [Entry.consumed index callback.claim.nonce callback.arrivedAt]).countP
    (Entry.consumes nonce) + (desk.states.map _).countP (StateRow.open nonce) +
      desk.starts.countP (Start.holds nonce) ≤ _
  rw [entry]
  by_cases mine : callback.claim.nonce = nonce
  · have consumable := List.find?_some row
    have parts := consumable
    rw [LinkDesk.consumable, decide_eq_true_eq] at parts
    have lost := countP_map_lt (List.mem_of_find?_eq_some row)
      (decide_eq_true ⟨parts.2.1.trans mine, parts.2.2.2.1⟩ : StateRow.open nonce found = true)
      (by rw [if_pos consumable]; exact decide_eq_false fun both => by cases both.2) only
    rw [if_pos mine]
    omega
  · have states : (desk.states.map fun row => if LinkDesk.consumable callback row then
        { row with consumedAt := some callback.arrivedAt } else row).countP (StateRow.open nonce) ≤
          desk.states.countP (StateRow.open nonce) := by
      rw [List.countP_map]
      exact List.countP_mono_left fun row _ opened => only row opened
    rw [if_neg mine]
    omega

theorem NoncesSound.moved (sound : NoncesSound desk) (moved : Moved desk index callback after) :
    NoncesSound after := by
  have noted : ∀ (phase : CallbackPhase) (entry : Entry),
      (∀ nonce, Entry.consumes nonce entry = false) →
      NoncesSound (desk.advance index callback phase entry) := by
    intro phase entry other
    refine sound.of_le rfl fun nonce => ?_
    have same : (desk.journal ++ [entry]).countP (Entry.consumes nonce) =
        desk.journal.countP (Entry.consumes nonce) := by
      rw [List.countP_append, List.countP_singleton, other nonce]
      rfl
    exact Nat.add_le_add_right (Nat.add_le_add_right same.le _) _
  cases moved with
  | quiet phase quiet => exact sound.of_le rfl fun nonce => le_refl _
  | consumed found answered consuming row => exact sound.consumed row _
  | confirmed installationId confirming => exact noted _ _ fun _ => rfl
  | exchanged target code token exchanging => exact noted _ _ fun _ => rfl
  | listed target code token visible proven listing sees => exact noted _ _ fun _ => rfl
  | owned code token visible proven role owning owns => exact noted _ _ fun _ => rfl
  | committed again proof id isNew answered saving =>
    have same := noted (.ended (if answered then .installed else .providerError))
      (.linked index callback.userId callback.claim.organizationId proof.proven.externalId id
        proof.token) fun _ => rfl
    exact ⟨same.uses⟩

/-- The other writers hold no nonce. -/
theorem NoncesSound.aside (sound : NoncesSound desk) (aside : Aside desk after) :
    NoncesSound after := by
  refine sound.of_le aside.issued fun nonce => ?_
  obtain ⟨entries, journal, renewals⟩ := aside.journal
  have none : entries.countP (Entry.consumes nonce) = 0 := by
    refine List.countP_eq_zero.mpr fun entry member => ?_
    obtain ⟨userId, id, former, token, rfl⟩ := renewals entry member
    exact Bool.false_ne_true
  rw [usesOf, usesOf, journal, aside.states, aside.starts, List.countP_append, none, Nat.add_zero]

theorem NoncesSound.step {event : LinkEvent} (sound : NoncesSound desk)
    (taken : linkStep hmac desk event = some after) : NoncesSound after := by
  cases event with
  | start userId organizationId installationId =>
    rw [linkStep] at taken
    split at taken
    · cases taken
      refine sound.of_le rfl fun nonce => ?_
      have starts : (desk.starts ++
          [(⟨userId, organizationId, installationId, .finding⟩ : Start)]).countP
            (Start.holds nonce) = desk.starts.countP (Start.holds nonce) := by
        rw [List.countP_append]
        rfl
      exact Nat.add_le_add_left starts.le _
    · cases taken
  | startAct index act =>
    obtain ⟨start, found, acts⟩ := Option.bind_eq_some_iff.mp taken
    exact sound.actStart found acts
  | arrive session query =>
    rw [linkStep] at taken
    split at taken
    · cases taken
      unfold LinkDesk.arrive
      cases session with
      | none => exact sound
      | some userId =>
        cases query with
        | none => exact sound
        | some query =>
          dsimp only
          split
          · split
            · exact ⟨sound.uses⟩
            · exact sound
          · exact sound
    · cases taken
  | callbackAct index act =>
    obtain ⟨callback, found, acts⟩ := Option.bind_eq_some_iff.mp taken
    exact sound.moved (moved_of_act acts)
  | _ => exact sound.aside (aside_of_step taken trivial)

/-! ## Codes -/

/-- The callback exchanged its code. -/
def Entry.exchanges (index : ℕ) : Entry → Bool
  | .exchanged other _ _ => other = index
  | _ => false

/-- The callback may still exchange its code. -/
def Callback.before (callback : Callback) : Bool :=
  match callback.phase with
  | .consuming => true
  | .confirming _ => true
  | .targeting _ => true
  | .exchanging _ _ => true
  | _ => false

/-- A callback exchanges its code once, after what it has to do before. -/
structure ExchangesSound (desk : LinkDesk) : Prop where
  once : ∀ (index : ℕ) (callback : Callback), desk.callbacks[index]? = some callback →
    desk.journal.countP (Entry.exchanges index) + callback.before.toNat ≤ 1
  unborn : ∀ index, desk.callbacks.length ≤ index →
    desk.journal.countP (Entry.exchanges index) = 0
  rests : ∀ index code token, Entry.exchanged index code token ∈ desk.journal →
    ∃ callback createdAt, desk.callbacks[index]? = some callback ∧
      callback.query.code = some code ∧ callback.timely createdAt ∧
        callback.begun index createdAt ++ [.exchanged index code token] <+ desk.journal

theorem ExchangesSound.empty (clock : ℤ) : ExchangesSound (LinkDesk.empty clock) where
  once := fun _ _ found => by cases found
  unborn := fun _ _ => rfl
  rests := fun _ _ _ member => absurd member List.not_mem_nil

/-- A callback that goes on without writing exchanges nothing more. -/
theorem Quiet.before {phase : CallbackPhase} (quiet : Quiet desk callback phase)
    (later : Callback.before { callback with phase := phase } = true) : callback.before = true := by
  cases quiet with
  | aim installationId target code targeting code_eq =>
    rw [Callback.before, targeting]
  | stop outcome => cases later
  | refuse outcome => cases later
  | absent again proof linking => cases later
  | existing again proof row linking member external organization => cases later
  | inserts again proof id inserting fresh freshOpen free none => cases later
  | retry proof attempted => cases later

/-- **A callback that goes on**, with entries that are exchanges only of its own, and once. -/
theorem ExchangesSound.goesOn (sound : ExchangesSound desk)
    (found : desk.callbacks[index]? = some callback) {phase : CallbackPhase} {entries : List Entry}
    (callbacks : after.callbacks = desk.callbacks.set index { callback with phase })
    (journal : after.journal = desk.journal ++ entries)
    (own : entries.countP (Entry.exchanges index) +
      (Callback.before { callback with phase }).toNat ≤ callback.before.toNat)
    (others : ∀ i, i ≠ index → entries.countP (Entry.exchanges i) = 0)
    (rests : ∀ i code token, Entry.exchanged i code token ∈ entries → ∃ other createdAt,
      after.callbacks[i]? = some other ∧ other.query.code = some code ∧ other.timely createdAt ∧
        other.begun i createdAt ++ [.exchanged i code token] <+ after.journal) :
    ExchangesSound after := by
  have former := sound.once index callback found
  refine ⟨fun i other known => ?_, fun i outside => ?_, fun i code token member => ?_⟩
  · rw [callbacks] at known
    rw [journal, List.countP_append]
    rcases getElem?_replaced known with ⟨rfl, rfl⟩ | ⟨apart, old⟩
    · omega
    · rw [others i apart]
      exact sound.once i other old
  · rw [callbacks, List.length_set] at outside
    have inside := (List.getElem?_eq_some_iff.mp found).1
    rw [journal, List.countP_append, sound.unborn i outside, others i (by omega)]
  · rw [journal] at member
    rcases List.mem_append.mp member with old | new
    · obtain ⟨other, createdAt, known, same, timely, within⟩ := sound.rests i code token old
      obtain ⟨later, stands⟩ := getElem?_gone_on found phase i other known
      rw [← callbacks] at stands
      exact ⟨_, createdAt, stands, same, timely,
        within.trans (journal ▸ List.sublist_append_left _ _)⟩
    · exact rests i code token new

theorem ExchangesSound.moved (sound : ExchangesSound desk) (trails : TrailSound desk)
    (found : desk.callbacks[index]? = some callback) (moved : Moved desk index callback after) :
    ExchangesSound after := by
  have noted : ∀ (phase : CallbackPhase) (entry : Entry) (later : LinkDesk),
      later.callbacks = desk.callbacks.set index { callback with phase := phase } →
      later.journal = desk.journal ++ [entry] → (∀ i, Entry.exchanges i entry = false) →
      (Callback.before { callback with phase := phase } = true → callback.before = true) →
        ExchangesSound later := by
    intro phase entry later callbacks journal other only
    have none : ∀ i, [entry].countP (Entry.exchanges i) = 0 := fun i => by
      rw [List.countP_singleton, other i]
      rfl
    refine sound.goesOn found callbacks journal ?_ (fun i _ => none i) fun i code token member => ?_
    · rw [none, Nat.zero_add]
      exact Bool.toNat_le_toNat only
    · have same := other i
      rw [← List.mem_singleton.mp member, Entry.exchanges] at same
      exact absurd rfl (of_decide_eq_false same)
  cases moved with
  | quiet phase quiet =>
    refine sound.goesOn found rfl (List.append_nil _).symm ?_ (fun _ _ => rfl)
      fun _ _ _ member => absurd member List.not_mem_nil
    rw [List.countP_nil, Nat.zero_add]
    exact Bool.toNat_le_toNat quiet.before
  | consumed row answered consuming known =>
    refine noted _ _ _ rfl rfl (fun _ => rfl) fun _ => ?_
    rw [Callback.before, consuming]
  | confirmed installationId confirming =>
    refine noted _ _ _ rfl rfl (fun _ => rfl) fun _ => ?_
    rw [Callback.before, confirming]
  | exchanged target code token exchanging =>
    obtain ⟨createdAt, trail, timely⟩ := trails.trails index callback found
    have coherent := trails.coherent index callback found
    rw [exchanging] at timely
    rw [Callback.trail, exchanging] at trail
    rw [Callback.Coherent, exchanging] at coherent
    refine sound.goesOn found rfl rfl ?_ (fun i apart => ?_) fun i other token' member => ?_
    · have mine : callback.before = true := by
        rw [Callback.before, exchanging]
      rw [mine, List.countP_singleton, Entry.exchanges, decide_eq_true rfl]
      exact le_refl 1
    · rw [List.countP_singleton, Entry.exchanges, decide_eq_false (Ne.symm apart)]
      rfl
    · cases List.mem_singleton.mp member
      exact ⟨_, createdAt, List.getElem?_set_self (List.getElem?_eq_some_iff.mp found).1, coherent,
        timely.resolve_left (fun same => by cases same), sublist_noted trail _⟩
  | listed target code token visible proven listing sees =>
    exact noted _ _ _ rfl rfl (fun _ => rfl) fun later => by cases later
  | owned code token visible proven role owning owns =>
    exact noted _ _ _ rfl rfl (fun _ => rfl) fun later => by cases later
  | committed again proof id isNew answered saving =>
    exact noted (.ended (if answered then .installed else .providerError)) _ _ rfl rfl
      (fun _ => rfl) fun later => by cases later

/-- Steps that leave the callbacks and note no exchange. -/
theorem ExchangesSound.of_same (sound : ExchangesSound desk)
    (callbacks : after.callbacks = desk.callbacks) {entries : List Entry}
    (journal : after.journal = desk.journal ++ entries)
    (none : ∀ i, entries.countP (Entry.exchanges i) = 0) : ExchangesSound after := by
  refine ⟨fun i other known => ?_, fun i outside => ?_, fun i code token member => ?_⟩
  · rw [callbacks] at known
    rw [journal, List.countP_append, none, Nat.add_zero]
    exact sound.once i other known
  · rw [callbacks] at outside
    rw [journal, List.countP_append, none, Nat.add_zero]
    exact sound.unborn i outside
  · rw [journal] at member
    rcases List.mem_append.mp member with old | new
    · obtain ⟨other, createdAt, known, same, timely, within⟩ := sound.rests i code token old
      exact ⟨other, createdAt, callbacks ▸ known, same, timely,
        within.trans (journal ▸ List.sublist_append_left _ _)⟩
    · have counted := List.countP_eq_zero.mp (none i) _ new
      rw [Entry.exchanges, decide_eq_true_eq] at counted
      exact absurd rfl counted

/-- What a start leaves of the callbacks, of what they have written and of the journal. -/
theorem actStart_frame {start : Start} {act : StartAct}
    (taken : desk.actStart index start act = some after) :
    after.callbacks = desk.callbacks ∧ after.installations = desk.installations ∧
      after.credentials = desk.credentials ∧ after.renewals = desk.renewals ∧
      ∃ entries, after.journal = desk.journal ++ entries ∧
        ∀ entry ∈ entries, ∃ claim createdAt, entry = .started claim createdAt := by
  have same : desk.journal = desk.journal ++ [] := (List.append_nil _).symm
  have nothing : ∀ entry ∈ ([] : List Entry), ∃ claim createdAt, entry = .started claim createdAt :=
    fun _ member => absurd member List.not_mem_nil
  unfold LinkDesk.actStart at taken
  cases act with
  | find =>
    dsimp only at taken
    split at taken
    · split at taken
      · cases taken
        exact ⟨rfl, rfl, rfl, rfl, [], same, nothing⟩
      · split at taken
        · cases taken
          exact ⟨rfl, rfl, rfl, rfl, [], same, nothing⟩
        · split at taken
          · cases taken
            exact ⟨rfl, rfl, rfl, rfl, [], same, nothing⟩
          · cases taken
            exact ⟨rfl, rfl, rfl, rfl, [], same, nothing⟩
    · cases taken
  | issue nonce =>
    dsimp only at taken
    split at taken
    · cases taken
      exact ⟨rfl, rfl, rfl, rfl, _, rfl, fun entry member => ⟨_, _, List.mem_singleton.mp member⟩⟩
    · cases taken
  | purge =>
    dsimp only at taken
    split at taken
    · cases taken
      exact ⟨rfl, rfl, rfl, rfl, [], same, nothing⟩
    · cases taken
  | count =>
    dsimp only at taken
    split at taken
    · split at taken
      · cases taken
        exact ⟨rfl, rfl, rfl, rfl, [], same, nothing⟩
      · cases taken
        exact ⟨rfl, rfl, rfl, rfl, [], same, nothing⟩
    · cases taken
  | create =>
    dsimp only at taken
    split at taken
    · cases taken
      exact ⟨rfl, rfl, rfl, rfl, [], same, nothing⟩
    · cases taken
  | fail =>
    dsimp only at taken
    split at taken
    · cases taken
    · cases taken
      exact ⟨rfl, rfl, rfl, rfl, [], same, nothing⟩

/-- What an arrival changes: nothing, or one callback more. -/
theorem arrive_eq (session : Option Text) (query : Option CallbackQuery) :
    desk.arrive hmac session query = desk ∨ ∃ userId claim request,
      desk.arrive hmac session query = { desk with
        callbacks := desk.callbacks ++ [⟨userId, claim, request, desk.clock, .consuming⟩] } := by
  unfold LinkDesk.arrive
  cases session with
  | none => exact .inl rfl
  | some userId =>
    cases query with
    | none => exact .inl rfl
    | some query =>
      dsimp only
      split
      · split
        · exact .inr ⟨userId, _, query, rfl⟩
        · exact .inl rfl
      · exact .inl rfl

theorem ExchangesSound.step {event : LinkEvent} (sound : ExchangesSound desk)
    (trails : TrailSound desk) (taken : linkStep hmac desk event = some after) :
    ExchangesSound after := by
  cases event with
  | start userId organizationId installationId =>
    rw [linkStep] at taken
    split at taken
    · cases taken
      exact sound.of_same rfl (List.append_nil _).symm fun _ => rfl
    · cases taken
  | startAct index act =>
    obtain ⟨start, found, acts⟩ := Option.bind_eq_some_iff.mp taken
    obtain ⟨callbacks, _, _, _, entries, journal, started⟩ := actStart_frame acts
    refine sound.of_same callbacks journal fun i => List.countP_eq_zero.mpr fun entry member => ?_
    obtain ⟨claim, createdAt, rfl⟩ := started entry member
    exact Bool.false_ne_true
  | arrive session query =>
    rw [linkStep] at taken
    split at taken
    · cases taken
      rcases @arrive_eq hmac desk session query with same | ⟨userId, claim, request, joined⟩
      · rw [same]
        exact sound
      · rw [joined]
        refine ⟨fun i other found => ?_, fun i outside => ?_, fun i code token member => ?_⟩
        · rcases Nat.lt_or_ge i desk.callbacks.length with inside | outside
          · rw [List.getElem?_append_left inside] at found
            exact sound.once i other found
          · change desk.journal.countP (Entry.exchanges i) + _ ≤ 1
            rw [sound.unborn i outside, Nat.zero_add]
            exact Bool.toNat_le _
        · rw [List.length_append, List.length_singleton] at outside
          exact sound.unborn i (by omega)
        · obtain ⟨other, createdAt, found, same, timely, within⟩ := sound.rests i code token member
          exact ⟨other, createdAt,
            (List.getElem?_append_left (List.getElem?_eq_some_iff.mp found).1).trans found, same,
            timely, within⟩
    · cases taken
  | callbackAct index act =>
    obtain ⟨callback, found, acts⟩ := Option.bind_eq_some_iff.mp taken
    exact sound.moved trails found (moved_of_act acts)
  | _ =>
    have aside := aside_of_step taken trivial
    obtain ⟨entries, journal, renewals⟩ := aside.journal
    refine sound.of_same aside.callbacks journal fun i =>
      List.countP_eq_zero.mpr fun entry member => ?_
    obtain ⟨userId, id, former, token, rfl⟩ := renewals entry member
    exact Bool.false_ne_true

/-! ## Every run -/

/-- What holds of the nonces, of the exchanges and of the trails at every instant. -/
structure OnceSound (desk : LinkDesk) : Prop where
  nonces : NoncesSound desk
  exchanges : ExchangesSound desk
  trails : TrailSound desk

theorem OnceSound.empty (clock : ℤ) : OnceSound (LinkDesk.empty clock) where
  nonces := .empty clock
  exchanges := .empty clock
  trails := .empty clock

theorem OnceSound.step {event : LinkEvent} (sound : OnceSound desk)
    (taken : linkStep hmac desk event = some after) : OnceSound after where
  nonces := sound.nonces.step taken
  exchanges := sound.exchanges.step sound.trails taken
  trails := sound.trails.step taken

theorem OnceSound.run {schedule : List LinkEvent} (sound : OnceSound desk)
    (reached : run (linkStep hmac) desk schedule = some after) : OnceSound after :=
  run_invariant (fun _ _ _ before taken => before.step taken) sound reached

/-- At most one callback consumes the state of a nonce. -/
theorem OnceSound.consumed_le_one (sound : OnceSound desk) (nonce : Text) :
    desk.journal.countP (Entry.consumes nonce) ≤ 1 := by
  have uses := (sound.nonces.uses nonce).trans
    (List.nodup_iff_count_le_one.mp sound.trails.distinct nonce)
  rw [usesOf] at uses
  omega

/-- A callback exchanges one code at most. -/
theorem OnceSound.exchanged_le_one (sound : OnceSound desk) (index : ℕ) :
    desk.journal.countP (Entry.exchanges index) ≤ 1 := by
  rcases Nat.lt_or_ge index desk.callbacks.length with inside | outside
  · exact (Nat.le_add_right _ _).trans
      (sound.exchanges.once index _ (List.getElem?_eq_getElem inside))
  · rw [sound.exchanges.unborn index outside]
    exact Nat.zero_le 1

/-- A flow that ends with an installation; then a repository is created, and the token renewed. -/
def someFlow : List LinkEvent :=
  [.start someUser someOrganization none, .startAct 0 .find, .startAct 0 (.issue someNonce),
    .startAct 0 .purge, .startAct 0 .count, .startAct 0 .create, .tick 60000,
    .arrive (some someUser) (some ⟨someHmac.issue someClaim, some (Text.lit "4711"),
      some (Text.lit "c0de")⟩),
    .callbackAct 0 (.consume true), .callbackAct 0 (.confirm (some .owner)), .callbackAct 0 .target,
    .callbackAct 0 (.exchange (.token 7)),
    .callbackAct 0 (.list (some [⟨Text.lit "4711", .user, Text.lit "ada"⟩])),
    .callbackAct 0 (.own (some .self)), .callbackAct 0 .find,
    .callbackAct 0 (.insert (Text.lit "1")), .callbackAct 0 (.commit true),
    .plan someOrganization someUser (Text.lit "1"), .renew 0 8, .keep 0]

/-- The installation of the flow. -/
def someRow : InstallationRow :=
  ⟨Text.lit "1", someOrganization, Text.lit "4711", .user, Text.lit "ada", .active⟩

/-- Where the flow leads. -/
def someDesk : LinkDesk where
  clock := 60000
  states := [⟨someOrganization, someUser, none, someClaim.nonce, 600000, some 60000⟩]
  installations := [someRow]
  credentials := [⟨someOrganization, someUser, Text.lit "1", 8⟩]
  starts := [⟨someUser, someOrganization, none, .ended .created⟩]
  callbacks := [⟨someUser, someClaim, ⟨someHmac.issue someClaim, some (Text.lit "4711"),
      some (Text.lit "c0de")⟩, 60000, .ended .installed⟩]
  changes := []
  renewals := []
  issued := [someClaim]
  journal := [.started someClaim 0, .consumed 0 someClaim.nonce 60000,
    .confirmed 0 someUser someOrganization, .exchanged 0 (Text.lit "c0de") 7,
    .listed 0 7 [⟨Text.lit "4711", .user, Text.lit "ada"⟩],
    .owned 0 7 .user (Text.lit "ada") .self,
    .linked 0 someUser someOrganization (Text.lit "4711") (Text.lit "1") 7,
    .renewed someUser (Text.lit "1") 7 8]

theorem someFlow_reaches :
    run (linkStep someHmac) (LinkDesk.empty 0) someFlow = some someDesk := by
  decide +kernel

end Koklo.Installation
