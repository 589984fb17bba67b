import Koklo.Installation.Linking
import Koklo.Foundations.Runs

/-!
# What a link rests on

For every run, what was written as a link rests on a flow that its user started for its
organization (`Rests`): the state was consumed by the callback, in the session of the same user and
before it expired, the user managed the organization then, the code of the callback gave the token,
the token saw the installation, and its user proved to own it, all of this in that order. Every
installation that is stored was written so (`TrailSound`).

The journal of a callback grows with its phase (`Callback.trail`), and is found in the journal of
all callbacks, in its order. That the state had not expired is read off its row, which is that of
the claim of the callback, as nonces are signed once.
-/

set_option autoImplicit false

namespace Koklo.Installation

open Koklo.Foundations Koklo.Members
open scoped List

variable {hmac : Hmac} {desk after : LinkDesk} {index : ℕ} {callback : Callback}

/-! ## What a step does -/

/-- How a callback goes on without writing anything. -/
inductive Quiet (desk : LinkDesk) (callback : Callback) : CallbackPhase → Prop
  | stop (outcome : CallbackOutcome) : Quiet desk callback (.ended outcome)
  | refuse (outcome : CallbackOutcome) : Quiet desk callback (.refusing outcome)
  | aim (installationId : Option Text) (target code : Text)
      (targeting : callback.phase = .targeting installationId)
      (code_eq : callback.query.code = some code) : Quiet desk callback (.exchanging target code)
  | absent (again : Bool) (proof : Proof) (linking : callback.phase = .linking again proof) :
      Quiet desk callback (.inserting again proof)
  | existing (again : Bool) (proof : Proof) (row : InstallationRow)
      (linking : callback.phase = .linking again proof) (member : row ∈ desk.installations)
      (external : row.externalId = proof.proven.externalId)
      (organization : row.organizationId = callback.claim.organizationId) :
      Quiet desk callback (.saving again proof row.id false)
  | inserts (again : Bool) (proof : Proof) (id : Text)
      (inserting : callback.phase = .inserting again proof)
      (fresh : id ∉ desk.installations.map InstallationRow.id)
      (freshOpen : id ∉ desk.callbacks.filterMap LinkDesk.newId)
      (free : desk.callbacks.any (LinkDesk.insertedBy proof.proven.externalId) = false)
      (none : ∀ row ∈ desk.installations, row.externalId ≠ proof.proven.externalId) :
      Quiet desk callback (.saving again proof id true)
  | retry (proof : Proof)
      (attempted : callback.phase = .inserting false proof ∨
        ∃ id isNew, callback.phase = .saving false proof id isNew) :
      Quiet desk callback (.linking true proof)

/-- What a step of a callback makes of the desk. -/
inductive Moved (desk : LinkDesk) (index : ℕ) (callback : Callback) : LinkDesk → Prop
  | quiet (phase : CallbackPhase) (quiet : Quiet desk callback phase) :
      Moved desk index callback (desk.setCallback index callback phase)
  | consumed (found : StateRow) (answered : Bool) (consuming : callback.phase = .consuming)
      (row : desk.states.find? (LinkDesk.consumable callback) = some found) :
      Moved desk index callback { desk.advance index callback
          (if answered then .confirming found.installationId else .ended .providerError)
          (.consumed index callback.claim.nonce callback.arrivedAt) with
        states := desk.states.map fun row =>
          if LinkDesk.consumable callback row then
            { row with consumedAt := some callback.arrivedAt }
          else row }
  | confirmed (installationId : Option Text)
      (confirming : callback.phase = .confirming installationId) :
      Moved desk index callback (desk.advance index callback (.targeting installationId)
        (.confirmed index callback.userId callback.claim.organizationId))
  | exchanged (target code : Text) (token : ℕ)
      (exchanging : callback.phase = .exchanging target code) :
      Moved desk index callback (desk.advance index callback (.listing target code token)
        (.exchanged index code token))
  | listed (target code : Text) (token : ℕ) (visible : List UserInstallation)
      (proven : UserInstallation) (listing : callback.phase = .listing target code token)
      (sees : proven ∈ visible) :
      Moved desk index callback (desk.advance index callback (.owning code token visible proven)
        (.listed index token visible))
  | owned (code : Text) (token : ℕ) (visible : List UserInstallation) (proven : UserInstallation)
      (role : UserOwnerRole) (owning : callback.phase = .owning code token visible proven)
      (owns : provesOwnership proven.ownerKind role = true) :
      Moved desk index callback (desk.advance index callback
        (.linking false ⟨code, token, visible, proven, role⟩)
        (.owned index token proven.ownerKind proven.ownerLogin role))
  | committed (again : Bool) (proof : Proof) (id : Text) (isNew answered : Bool)
      (saving : callback.phase = .saving again proof id isNew) :
      Moved desk index callback { desk.advance index callback
          (.ended (if answered then .installed else .providerError))
          (.linked index callback.userId callback.claim.organizationId proof.proven.externalId id
            proof.token) with
        installations := desk.linkedInstallations callback proof id isNew
        credentials := desk.savedCredentials callback.claim.organizationId callback.userId id
          proof.token }

/-- An attempt that met a unique violation is made again, or the callback ends. -/
theorem quiet_retried {again : Bool} {proof : Proof}
    (attempted : callback.phase = .inserting again proof ∨
      ∃ id isNew, callback.phase = .saving again proof id isNew) :
    Quiet desk callback (LinkDesk.retried again proof) := by
  cases again with
  | false => exact .retry proof attempted
  | true => exact .stop .providerError

theorem moved_of_act {act : CallbackAct}
    (taken : desk.actCallback index callback act = some after) :
    Moved desk index callback after := by
  cases act with
  | consume answered =>
    rw [LinkDesk.actCallback] at taken
    split at taken
    · rename_i consuming
      cases taken
      rw [LinkDesk.consume]
      split
      · exact .quiet _ (.stop .invalidState)
      · rename_i found row
        exact .consumed found answered consuming row
    · cases taken
  | confirm role =>
    unfold LinkDesk.actCallback at taken
    dsimp only at taken
    split at taken
    · rename_i installationId role confirming
      split at taken
      · cases taken
        exact .confirmed installationId confirming
      · cases taken
        exact .quiet _ (.stop .denied)
    · cases taken
      exact .quiet _ (.stop .denied)
    · cases taken
  | target =>
    rw [LinkDesk.actCallback] at taken
    split at taken
    · rename_i installationId targeting
      split at taken
      · cases taken
        exact .quiet _ (.stop .invalidState)
      · cases taken
        exact .quiet _ (.refuse .denied)
      · cases taken
        exact .quiet _ (.refuse .denied)
      · rename_i target code _ code_eq
        cases taken
        exact .quiet _ (.aim installationId target code targeting code_eq)
    · cases taken
  | exchange answer =>
    unfold LinkDesk.actCallback at taken
    dsimp only at taken
    split at taken
    · rename_i target code token exchanging
      cases taken
      exact .exchanged target code token exchanging
    · cases taken
      exact .quiet _ (.refuse .denied)
    · cases taken
      exact .quiet _ (.stop .providerError)
    · cases taken
  | list answer =>
    unfold LinkDesk.actCallback at taken
    dsimp only at taken
    split at taken
    · rename_i target code token visible listing
      split at taken
      · cases taken
        exact .quiet _ (.refuse .denied)
      · rename_i proven sees
        cases taken
        exact .listed target code token visible proven listing (List.mem_of_find?_eq_some sees)
    · cases taken
      exact .quiet _ (.stop .providerError)
    · cases taken
  | own answer =>
    unfold LinkDesk.actCallback at taken
    dsimp only at taken
    split at taken
    · rename_i code token visible proven role owning
      split at taken
      · rename_i owns
        cases taken
        exact .owned code token visible proven role owning owns
      · cases taken
        exact .quiet _ (.refuse .notOwner)
    · cases taken
      exact .quiet _ (.stop .providerError)
    · cases taken
  | find =>
    rw [LinkDesk.actCallback] at taken
    split at taken
    · rename_i again proof linking
      split at taken
      · cases taken
        exact .quiet _ (.absent again proof linking)
      · rename_i existing found
        split at taken
        · cases taken
          exact .quiet _ (.refuse .alreadyLinked)
        · rename_i same
          cases taken
          have external := List.find?_some found
          exact .quiet _ (.existing again proof existing linking (List.mem_of_find?_eq_some found)
            (of_decide_eq_true external) (not_ne_iff.mp same))
    · cases taken
  | insert id =>
    rw [LinkDesk.actCallback] at taken
    split at taken
    · rename_i again proof inserting
      split at taken
      · cases taken
      rename_i fresh
      split at taken
      · cases taken
      rename_i free
      split at taken
      · cases taken
        exact .quiet _ (quiet_retried (.inl inserting))
      · rename_i none
        cases taken
        refine .quiet _ (.inserts again proof id inserting (fun known => fresh (.inl known))
          (fun known => fresh (.inr known)) (Bool.eq_false_iff.mpr free)
          fun row member same => none ?_)
        exact List.any_eq_true.mpr ⟨row, member, decide_eq_true same⟩
    · cases taken
  | conflict =>
    rw [LinkDesk.actCallback] at taken
    split at taken
    · rename_i again proof id isNew saving
      cases taken
      exact .quiet _ (quiet_retried (.inr ⟨id, isNew, saving⟩))
    · cases taken
  | commit answered =>
    rw [LinkDesk.actCallback] at taken
    split at taken
    · rename_i again proof id isNew saving
      cases taken
      exact .committed again proof id isNew answered saving
    · cases taken
  | record =>
    rw [LinkDesk.actCallback] at taken
    split at taken
    · cases taken
      exact .quiet _ (.stop _)
    · cases taken
  | fail =>
    rw [LinkDesk.actCallback] at taken
    split at taken
    · cases taken
    · cases taken
    · cases taken
      exact .quiet _ (.stop .providerError)

/-! ## Trails -/

/-- What a callback has done once the role of its user is confirmed. -/
def Callback.begun (index : ℕ) (createdAt : ℤ) (callback : Callback) : List Entry :=
  [.started callback.claim createdAt, .consumed index callback.claim.nonce callback.arrivedAt,
    .confirmed index callback.userId callback.claim.organizationId]

/-- What a callback has done once an installation is proven. -/
def Callback.proved (index : ℕ) (createdAt : ℤ) (callback : Callback) (proof : Proof) :
    List Entry :=
  callback.begun index createdAt ++ [.exchanged index proof.code proof.token,
    .listed index proof.token proof.visible,
    .owned index proof.token proof.proven.ownerKind proof.proven.ownerLogin proof.role]

/-- What a callback has done, by its phase. -/
def Callback.trail (index : ℕ) (createdAt : ℤ) (callback : Callback) : List Entry :=
  match callback.phase with
  | .consuming => [.started callback.claim createdAt]
  | .confirming _ => [.started callback.claim createdAt,
    .consumed index callback.claim.nonce callback.arrivedAt]
  | .targeting _ => callback.begun index createdAt
  | .exchanging _ _ => callback.begun index createdAt
  | .listing _ code token => callback.begun index createdAt ++ [.exchanged index code token]
  | .owning code token visible _ =>
    callback.begun index createdAt ++ [.exchanged index code token, .listed index token visible]
  | .linking _ proof => callback.proved index createdAt proof
  | .inserting _ proof => callback.proved index createdAt proof
  | .saving _ proof _ _ => callback.proved index createdAt proof
  | .refusing _ => []
  | .ended _ => []

/-- The callback has consumed a state that was created at an instant, before it expired. -/
def Callback.timely (createdAt : ℤ) (callback : Callback) : Prop :=
  callback.arrivedAt < createdAt + stateTtlMs

/-- What the callback has done is in the journal, and it had consumed its state in time. -/
def Callback.OnTrail (index : ℕ) (callback : Callback) (journal : List Entry) : Prop :=
  ∃ createdAt, callback.trail index createdAt <+ journal ∧
    (callback.phase = .consuming ∨ callback.timely createdAt)

/-- The code is that of the request, the token sees the installation and its user owns it. -/
structure Callback.Proves (callback : Callback) (proof : Proof) : Prop where
  code : callback.query.code = some proof.code
  sees : proof.proven ∈ proof.visible
  owns : provesOwnership proof.proven.ownerKind proof.role = true

/-- What the phase of a callback says of its request. -/
def Callback.Coherent (callback : Callback) : Prop :=
  match callback.phase with
  | .exchanging _ code => callback.query.code = some code
  | .listing _ code _ => callback.query.code = some code
  | .owning code _ visible proven => callback.query.code = some code ∧ proven ∈ visible
  | .linking _ proof => callback.Proves proof
  | .inserting _ proof => callback.Proves proof
  | .saving _ proof _ _ => callback.Proves proof
  | _ => True

/-- What a link rests on: a callback of the user, for the organization, with what it did before. -/
def Rests (desk : LinkDesk) (index : ℕ) (userId organizationId externalId id : Text) (token : ℕ) :
    Prop :=
  ∃ callback proof createdAt, desk.callbacks[index]? = some callback ∧ callback.userId = userId ∧
    callback.claim.userId = userId ∧ callback.claim.organizationId = organizationId ∧
    callback.timely createdAt ∧ callback.Proves proof ∧ proof.token = token ∧
    proof.proven.externalId = externalId ∧
    callback.proved index createdAt proof ++
      [.linked index userId organizationId externalId id token] <+ desk.journal

/-- The claim was signed, at an instant. -/
def Signed (desk : LinkDesk) (claim : StateClaim) (createdAt : ℤ) : Prop :=
  claim ∈ desk.issued ∧ Entry.started claim createdAt ∈ desk.journal

/-- The claim that a start has signed and is about to keep a row for. -/
def Start.pending (start : Start) : Option (StateClaim × ℤ) :=
  match start.phase with
  | .purging claim createdAt => some (claim, createdAt)
  | .counting claim createdAt => some (claim, createdAt)
  | .creating claim createdAt => some (claim, createdAt)
  | _ => none

/-- The identifiers of a start have the form of those that sessions and requests carry. -/
def Start.wellFormed (start : Start) : Prop :=
  isUuid start.userId = true ∧ isUuid start.organizationId = true ∧
    ∀ id, start.installationId = some id → isUuid id = true

/-- What the desk holds was signed, its callbacks are on their trails, and its links and
installations rest on them. -/
structure TrailSound (desk : LinkDesk) : Prop where
  starts : ∀ start ∈ desk.starts, start.wellFormed
  pending : ∀ start ∈ desk.starts, ∀ claim createdAt, start.pending = some (claim, createdAt) →
    Signed desk claim createdAt
  issuable : ∀ claim ∈ desk.issued, claim.Issuable
  distinct : (desk.issued.map StateClaim.nonce).Nodup
  started : ∀ claim ∈ desk.issued, ∃ createdAt, Entry.started claim createdAt ∈ desk.journal
  states : ∀ row ∈ desk.states, ∃ claim createdAt, Signed desk claim createdAt ∧
    row.nonce = claim.nonce ∧ row.expiresAt = createdAt + stateTtlMs
  claims : ∀ (index : ℕ) (callback : Callback), desk.callbacks[index]? = some callback →
    callback.claim.userId = callback.userId ∧ callback.claim ∈ desk.issued
  trails : ∀ (index : ℕ) (callback : Callback), desk.callbacks[index]? = some callback →
    callback.OnTrail index desk.journal
  coherent : ∀ (index : ℕ) (callback : Callback), desk.callbacks[index]? = some callback →
    callback.Coherent
  links : ∀ index userId organizationId externalId id token,
    Entry.linked index userId organizationId externalId id token ∈ desk.journal →
      Rests desk index userId organizationId externalId id token
  installations : ∀ row ∈ desk.installations, ∃ index userId token,
    Entry.linked index userId row.organizationId row.externalId row.id token ∈ desk.journal

theorem TrailSound.empty (clock : ℤ) : TrailSound (LinkDesk.empty clock) where
  starts := fun _ member => absurd member List.not_mem_nil
  pending := fun _ member => absurd member List.not_mem_nil
  issuable := fun _ member => absurd member List.not_mem_nil
  distinct := List.nodup_nil
  started := fun _ member => absurd member List.not_mem_nil
  states := fun _ member => absurd member List.not_mem_nil
  claims := fun _ _ found => by cases found
  trails := fun _ _ found => by cases found
  coherent := fun _ _ found => by cases found
  links := fun _ _ _ _ _ _ member => absurd member List.not_mem_nil
  installations := fun _ member => absurd member List.not_mem_nil

/-- **A link rests on the same** when callbacks only go on and the journal only grows. -/
theorem Rests.later {userId organizationId externalId id : Text} {token : ℕ}
    (rests : Rests desk index userId organizationId externalId id token)
    (callbacks : ∀ (i : ℕ) (callback : Callback), desk.callbacks[i]? = some callback →
      ∃ phase, after.callbacks[i]? = some { callback with phase })
    (journal : desk.journal <+ after.journal) :
    Rests after index userId organizationId externalId id token := by
  obtain ⟨callback, proof, createdAt, found, user, claim, organization, timely, proves, same,
    external, trail⟩ := rests
  obtain ⟨phase, later⟩ := callbacks index callback found
  exact ⟨_, proof, createdAt, later, user, claim, organization, timely,
    ⟨proves.code, proves.sees, proves.owns⟩, same, external, trail.trans journal⟩

theorem Callback.OnTrail.later {journal longer : List Entry}
    (onTrail : callback.OnTrail index journal) (grows : journal <+ longer) :
    callback.OnTrail index longer := by
  obtain ⟨createdAt, trail, timely⟩ := onTrail
  exact ⟨createdAt, trail.trans grows, timely⟩

/-- A callback with nothing to show is on its trail. -/
theorem Callback.OnTrail.of_nil {journal : List Entry}
    (nothing : ∀ createdAt, callback.trail index createdAt = []) :
    callback.OnTrail index journal := by
  refine ⟨callback.arrivedAt, nothing _ ▸ List.nil_sublist _, .inr ?_⟩
  exact Int.lt_add_of_pos_right _ (by decide)

theorem Signed.later {claim : StateClaim} {createdAt : ℤ} (signed : Signed desk claim createdAt)
    (issued : desk.issued <+ after.issued) (journal : desk.journal <+ after.journal) :
    Signed after claim createdAt :=
  ⟨issued.subset signed.1, journal.subset signed.2⟩

/-- The callbacks after one of them goes on. -/
theorem getElem?_gone_on (found : desk.callbacks[index]? = some callback) (phase : CallbackPhase)
    (i : ℕ) (other : Callback) (known : desk.callbacks[i]? = some other) :
    ∃ later, (desk.callbacks.set index { callback with phase })[i]? =
      some { other with phase := later } := by
  by_cases same : index = i
  · subst same
    rw [found] at known
    cases known
    exact ⟨phase, List.getElem?_set_self (List.getElem?_eq_some_iff.mp found).1⟩
  · exact ⟨other.phase, (List.getElem?_set_ne same).trans known⟩

/-- Rows that are those of a desk, but for their consumption. -/
def SameStates (desk after : LinkDesk) : Prop :=
  ∀ row ∈ after.states, ∃ former ∈ desk.states,
    row.nonce = former.nonce ∧ row.expiresAt = former.expiresAt

theorem SameStates.of_eq (same : after.states = desk.states) : SameStates desk after :=
  fun row member => ⟨row, same ▸ member, rfl, rfl⟩

/-- What was signed stays signed, and so do the rows of its claims. -/
theorem TrailSound.signedRows (sound : TrailSound desk) (states : SameStates desk after)
    (issued : desk.issued <+ after.issued) (journal : desk.journal <+ after.journal) :
    ∀ row ∈ after.states, ∃ claim createdAt, Signed after claim createdAt ∧
      row.nonce = claim.nonce ∧ row.expiresAt = createdAt + stateTtlMs := by
  intro row member
  obtain ⟨former, old, nonce, expiresAt⟩ := states row member
  obtain ⟨claim, createdAt, signed, same, expires⟩ := sound.states former old
  exact ⟨claim, createdAt, signed.later issued journal, nonce.trans same, expiresAt.trans expires⟩

/-- **A callback that goes on** and notes what it does. -/
theorem TrailSound.goesOn (sound : TrailSound desk)
    (found : desk.callbacks[index]? = some callback) {phase : CallbackPhase} {entries : List Entry}
    (callbacks : after.callbacks = desk.callbacks.set index { callback with phase })
    (journal : after.journal = desk.journal ++ entries) (issued : after.issued = desk.issued)
    (starts : after.starts = desk.starts) (states : SameStates desk after)
    (trail : Callback.OnTrail index { callback with phase } (desk.journal ++ entries))
    (coherent : Callback.Coherent { callback with phase })
    (links : ∀ i userId organizationId externalId id token,
      Entry.linked i userId organizationId externalId id token ∈ entries →
        Rests after i userId organizationId externalId id token)
    (installations : ∀ row ∈ after.installations, ∃ i userId token,
      Entry.linked i userId row.organizationId row.externalId row.id token ∈ after.journal) :
    TrailSound after := by
  have grows : desk.journal <+ after.journal := journal ▸ List.sublist_append_left _ _
  have kept : desk.issued <+ after.issued := issued ▸ .refl _
  refine ⟨starts ▸ sound.starts, ?_, issued ▸ sound.issuable, issued ▸ sound.distinct, ?_,
    sound.signedRows states kept grows, ?_, ?_, ?_, ?_, installations⟩
  · rw [starts]
    exact fun start member claim createdAt held =>
      (sound.pending start member claim createdAt held).later kept grows
  · rw [issued]
    intro claim member
    obtain ⟨createdAt, known⟩ := sound.started claim member
    exact ⟨createdAt, grows.subset known⟩
  · intro i other known
    rw [callbacks] at known
    rw [issued]
    rcases getElem?_replaced known with ⟨rfl, rfl⟩ | ⟨_, old⟩
    · exact sound.claims i callback found
    · exact sound.claims i other old
  · intro i other known
    rw [callbacks] at known
    rcases getElem?_replaced known with ⟨rfl, rfl⟩ | ⟨_, old⟩
    · rw [journal]
      exact trail
    · exact (sound.trails i other old).later grows
  · intro i other known
    rw [callbacks] at known
    rcases getElem?_replaced known with ⟨rfl, rfl⟩ | ⟨_, old⟩
    · exact coherent
    · exact sound.coherent i other old
  · intro i userId organizationId externalId id token member
    rw [journal] at member
    rcases List.mem_append.mp member with old | new
    · refine (sound.links i userId organizationId externalId id token old).later ?_ grows
      rw [callbacks]
      exact getElem?_gone_on found phase
    · exact links i userId organizationId externalId id token new

/-- A callback that goes on and writes no installation. -/
theorem TrailSound.noted (sound : TrailSound desk)
    (found : desk.callbacks[index]? = some callback) {phase : CallbackPhase} {entries : List Entry}
    (callbacks : after.callbacks = desk.callbacks.set index { callback with phase })
    (journal : after.journal = desk.journal ++ entries) (issued : after.issued = desk.issued)
    (starts : after.starts = desk.starts) (states : SameStates desk after)
    (installations : after.installations = desk.installations)
    (trail : Callback.OnTrail index { callback with phase } (desk.journal ++ entries))
    (coherent : Callback.Coherent { callback with phase })
    (none : ∀ i userId organizationId externalId id token,
      Entry.linked i userId organizationId externalId id token ∉ entries) : TrailSound after := by
  have grows : desk.journal <+ after.journal := journal ▸ List.sublist_append_left _ _
  refine sound.goesOn found callbacks journal issued starts states trail coherent
    (fun i userId organizationId externalId id token member =>
      absurd member (none i userId organizationId externalId id token)) ?_
  rw [installations]
  intro row member
  obtain ⟨i, userId, token, known⟩ := sound.installations row member
  exact ⟨i, userId, token, grows.subset known⟩

/-- A trail that gains the entry that the journal gains. -/
theorem sublist_noted {trail journal : List Entry} (within : trail <+ journal) (entry : Entry) :
    trail ++ [entry] <+ journal ++ [entry] := within.append_right [entry]

/-- **The state that a callback consumes** is that of its claim, and has not expired. -/
theorem TrailSound.consumedRow (sound : TrailSound desk)
    (found : desk.callbacks[index]? = some callback) {row : StateRow}
    (known : desk.states.find? (LinkDesk.consumable callback) = some row) :
    ∃ createdAt, Entry.started callback.claim createdAt ∈ desk.journal ∧
      callback.timely createdAt := by
  have consumable := List.find?_some known
  rw [LinkDesk.consumable, decide_eq_true_eq] at consumable
  obtain ⟨claim, createdAt, signed, nonce, expiresAt⟩ :=
    sound.states row (List.mem_of_find?_eq_some known)
  have same : claim = callback.claim :=
    List.inj_on_of_nodup_map sound.distinct signed.1 (sound.claims index callback found).2
      (nonce.symm.trans consumable.2.1)
  refine ⟨createdAt, same ▸ signed.2, ?_⟩
  rw [Callback.timely, ← expiresAt]
  exact consumable.2.2.2.2

/-- A callback that goes on, after its first phase, with the trail that it had. -/
theorem Callback.OnTrail.goes {phase : CallbackPhase} {journal : List Entry}
    (onTrail : callback.OnTrail index journal)
    (same : ∀ createdAt, Callback.trail index createdAt { callback with phase } =
      callback.trail index createdAt) (begun : callback.phase ≠ .consuming) :
    Callback.OnTrail index { callback with phase } journal := by
  obtain ⟨createdAt, trail, timely⟩ := onTrail
  exact ⟨createdAt, same createdAt ▸ trail, .inr (timely.resolve_left begun)⟩

/-- A callback that goes on, after its first phase, with the entry that the journal gains. -/
theorem Callback.OnTrail.gains {phase : CallbackPhase} {entry : Entry} {journal : List Entry}
    (onTrail : callback.OnTrail index journal)
    (same : ∀ createdAt, Callback.trail index createdAt { callback with phase } =
      callback.trail index createdAt ++ [entry]) (begun : callback.phase ≠ .consuming) :
    Callback.OnTrail index { callback with phase } (journal ++ [entry]) := by
  obtain ⟨createdAt, trail, timely⟩ := onTrail
  refine ⟨createdAt, ?_, .inr (timely.resolve_left begun)⟩
  rw [same createdAt]
  exact sublist_noted trail _

/-- What writes nothing leaves a callback on its trail. -/
theorem Quiet.onTrail {phase : CallbackPhase} {journal : List Entry}
    (quiet : Quiet desk callback phase) (onTrail : callback.OnTrail index journal) :
    Callback.OnTrail index { callback with phase } journal := by
  cases quiet with
  | stop outcome => exact .of_nil fun _ => rfl
  | refuse outcome => exact .of_nil fun _ => rfl
  | aim installationId target code targeting code_eq =>
    exact onTrail.goes (fun _ => by simp only [Callback.trail, targeting, Callback.begun])
      (by rw [targeting]; exact fun same => by cases same)
  | absent again proof linking =>
    exact onTrail.goes
      (fun _ => by simp only [Callback.trail, linking, Callback.proved, Callback.begun])
      (by rw [linking]; exact fun same => by cases same)
  | existing again proof row linking member external organization =>
    exact onTrail.goes
      (fun _ => by simp only [Callback.trail, linking, Callback.proved, Callback.begun])
      (by rw [linking]; exact fun same => by cases same)
  | inserts again proof id inserting fresh freshOpen free none =>
    exact onTrail.goes
      (fun _ => by simp only [Callback.trail, inserting, Callback.proved, Callback.begun])
      (by rw [inserting]; exact fun same => by cases same)
  | retry proof attempted =>
    rcases attempted with inserting | ⟨id, isNew, saving⟩
    · exact onTrail.goes
        (fun _ => by simp only [Callback.trail, inserting, Callback.proved, Callback.begun])
        (by rw [inserting]; exact fun same => by cases same)
    · exact onTrail.goes
        (fun _ => by simp only [Callback.trail, saving, Callback.proved, Callback.begun])
        (by rw [saving]; exact fun same => by cases same)

/-- What writes nothing keeps what the phase says of the request. -/
theorem Quiet.coherent {phase : CallbackPhase} (quiet : Quiet desk callback phase)
    (coherent : callback.Coherent) : Callback.Coherent { callback with phase } := by
  cases quiet with
  | stop outcome => exact trivial
  | refuse outcome => exact trivial
  | aim installationId target code targeting code_eq => exact code_eq
  | absent again proof linking =>
    rw [Callback.Coherent, linking] at coherent
    exact ⟨coherent.code, coherent.sees, coherent.owns⟩
  | existing again proof row linking member external organization =>
    rw [Callback.Coherent, linking] at coherent
    exact ⟨coherent.code, coherent.sees, coherent.owns⟩
  | inserts again proof id inserting fresh freshOpen free none =>
    rw [Callback.Coherent, inserting] at coherent
    exact ⟨coherent.code, coherent.sees, coherent.owns⟩
  | retry proof attempted =>
    rcases attempted with inserting | ⟨id, isNew, saving⟩
    · rw [Callback.Coherent, inserting] at coherent
      exact ⟨coherent.code, coherent.sees, coherent.owns⟩
    · rw [Callback.Coherent, saving] at coherent
      exact ⟨coherent.code, coherent.sees, coherent.owns⟩

/-- **What is written as a link rests on the callback that writes it.** -/
theorem TrailSound.linked (sound : TrailSound desk)
    (found : desk.callbacks[index]? = some callback) {again isNew : Bool} {proof : Proof}
    {id : Text} (saving : callback.phase = .saving again proof id isNew)
    (outcome : CallbackOutcome) :
    TrailSound { desk.advance index callback (.ended outcome)
        (.linked index callback.userId callback.claim.organizationId proof.proven.externalId id
          proof.token) with
      installations := desk.linkedInstallations callback proof id isNew
      credentials := desk.savedCredentials callback.claim.organizationId callback.userId id
        proof.token } := by
  obtain ⟨createdAt, trail, timely⟩ := sound.trails index callback found
  have coherent := sound.coherent index callback found
  rw [saving] at timely
  rw [Callback.trail, saving] at trail
  rw [Callback.Coherent, saving] at coherent
  have inTime : callback.timely createdAt := timely.resolve_left fun same => by cases same
  have written : ∀ entry, entry ∈ desk.journal → entry ∈ desk.journal ++
      [Entry.linked index callback.userId callback.claim.organizationId proof.proven.externalId id
        proof.token] := fun entry member => List.mem_append_left _ member
  refine sound.goesOn found rfl rfl rfl rfl (.of_eq rfl) (.of_nil fun _ => rfl) trivial ?_ ?_
  · intro i userId organizationId externalId other token member
    cases List.mem_singleton.mp member
    exact ⟨_, proof, createdAt, List.getElem?_set_self (List.getElem?_eq_some_iff.mp found).1,
      rfl, (sound.claims index callback found).1, rfl, inTime,
      ⟨coherent.code, coherent.sees, coherent.owns⟩, rfl, rfl, sublist_noted trail _⟩
  · intro row member
    dsimp only [LinkDesk.linkedInstallations] at member
    split at member
    · rcases List.mem_append.mp member with old | new
      · obtain ⟨i, userId, token, known⟩ := sound.installations row old
        exact ⟨i, userId, token, written _ known⟩
      · rw [List.mem_singleton.mp new]
        exact ⟨index, callback.userId, proof.token,
          List.mem_append_right _ (List.mem_singleton.mpr rfl)⟩
    · obtain ⟨former, old, same⟩ := List.mem_map.mp member
      obtain ⟨i, userId, token, known⟩ := sound.installations former old
      refine ⟨i, userId, token, written _ ?_⟩
      split at same
      · rw [← same]
        exact known
      · rw [← same]
        exact known

/-- **A step of a callback** keeps the trails. -/
theorem TrailSound.moved (sound : TrailSound desk)
    (found : desk.callbacks[index]? = some callback) (moved : Moved desk index callback after) :
    TrailSound after := by
  have onTrail := sound.trails index callback found
  have coherent := sound.coherent index callback found
  -- The other entries of the journal are none of a link.
  cases moved with
  | quiet phase quiet =>
    refine sound.noted found rfl (List.append_nil _).symm rfl rfl (.of_eq rfl) rfl ?_
      (quiet.coherent coherent) fun _ _ _ _ _ _ member => absurd member List.not_mem_nil
    rw [List.append_nil]
    exact quiet.onTrail onTrail
  | consumed row answered consuming known =>
    have states : SameStates desk { desk.advance index callback
        (if answered then .confirming row.installationId else .ended .providerError)
        (.consumed index callback.claim.nonce callback.arrivedAt) with
          states := desk.states.map fun row => if LinkDesk.consumable callback row then
            { row with consumedAt := some callback.arrivedAt } else row } := by
      intro later member
      obtain ⟨former, old, rfl⟩ := List.mem_map.mp member
      refine ⟨former, old, ?_⟩
      split <;> exact ⟨rfl, rfl⟩
    refine sound.noted found rfl rfl rfl rfl states rfl ?_ ?_ ?_
    · cases answered with
      | true =>
        obtain ⟨createdAt, started, timely⟩ := sound.consumedRow found known
        exact ⟨createdAt, sublist_noted (List.singleton_sublist.mpr started) _, .inr timely⟩
      | false => exact .of_nil fun _ => rfl
    · cases answered <;> exact trivial
    · intro i userId organizationId externalId id token member
      cases List.mem_singleton.mp member
  | confirmed installationId confirming =>
    refine sound.noted found rfl rfl rfl rfl (.of_eq rfl) rfl ?_ trivial ?_
    · exact onTrail.gains (fun _ => by simp only [Callback.trail, confirming, Callback.begun,
        List.cons_append, List.nil_append]) (by rw [confirming]; exact fun same => by cases same)
    · intro i userId organizationId externalId id token member
      cases List.mem_singleton.mp member
  | exchanged target code token exchanging =>
    refine sound.noted found rfl rfl rfl rfl (.of_eq rfl) rfl ?_ ?_ ?_
    · exact onTrail.gains (fun _ => by simp only [Callback.trail, exchanging, Callback.begun])
        (by rw [exchanging]; exact fun same => by cases same)
    · rw [Callback.Coherent, exchanging] at coherent
      exact coherent
    · intro i userId organizationId externalId id token member
      cases List.mem_singleton.mp member
  | listed target code token visible proven listing sees =>
    refine sound.noted found rfl rfl rfl rfl (.of_eq rfl) rfl ?_ ?_ ?_
    · exact onTrail.gains (fun _ => by simp only [Callback.trail, listing, Callback.begun,
        List.cons_append, List.nil_append])
        (by rw [listing]; exact fun same => by cases same)
    · rw [Callback.Coherent, listing] at coherent
      exact ⟨coherent, sees⟩
    · intro i userId organizationId externalId id token member
      cases List.mem_singleton.mp member
  | owned code token visible proven role owning owns =>
    refine sound.noted found rfl rfl rfl rfl (.of_eq rfl) rfl ?_ ?_ ?_
    · exact onTrail.gains (fun _ => by simp only [Callback.trail, owning, Callback.proved,
        Callback.begun, List.cons_append, List.nil_append])
        (by rw [owning]; exact fun same => by cases same)
    · rw [Callback.Coherent, owning] at coherent
      exact ⟨coherent.1, coherent.2, owns⟩
    · intro i userId organizationId externalId id token member
      cases List.mem_singleton.mp member
  | committed again proof id isNew answered saving => exact sound.linked found saving _

/-! ## Every run -/

/-- **A state that is read was issued**, as signatures are not forged. -/
theorem issued_of_unforged {issued : List StateClaim} {state : Text} {claim : StateClaim}
    (issuable : ∀ known ∈ issued, known.Issuable) (unforged : hmac.unforged issued state = true)
    (read : hmac.verify state = some claim) : claim ∈ issued := by
  rw [Hmac.unforged, read, Option.isNone_some, Bool.false_or, List.any_eq_true] at unforged
  obtain ⟨known, member, same⟩ := unforged
  obtain ⟨payload, _, piece, claims⟩ := signed_of_verify read
  rw [piece, decide_eq_true_eq] at same
  rw [Option.some.inj same, claimOf_payloadOf (issuable known member)] at claims
  exact Option.some.inj claims ▸ member

/-- A desk that holds the same callbacks and installations, and whose journal notes no link more. -/
theorem TrailSound.of_starts (sound : TrailSound desk) {entries : List Entry}
    (callbacks : after.callbacks = desk.callbacks)
    (installations : after.installations = desk.installations)
    (issued : desk.issued <+ after.issued) (journal : after.journal = desk.journal ++ entries)
    (starts : ∀ start ∈ after.starts, start.wellFormed)
    (pending : ∀ start ∈ after.starts, ∀ claim createdAt,
      start.pending = some (claim, createdAt) → Signed after claim createdAt)
    (issuable : ∀ claim ∈ after.issued, claim.Issuable)
    (distinct : (after.issued.map StateClaim.nonce).Nodup)
    (started : ∀ claim ∈ after.issued, claim ∈ desk.issued ∨
      ∃ createdAt, Entry.started claim createdAt ∈ after.journal)
    (states : ∀ row ∈ after.states, ∃ claim createdAt, Signed after claim createdAt ∧
      row.nonce = claim.nonce ∧ row.expiresAt = createdAt + stateTtlMs)
    (none : ∀ i userId organizationId externalId id token,
      Entry.linked i userId organizationId externalId id token ∉ entries) : TrailSound after := by
  have grows : desk.journal <+ after.journal := journal ▸ List.sublist_append_left _ _
  refine ⟨starts, pending, issuable, distinct, fun claim member => ?_, states, ?_, ?_, ?_, ?_, ?_⟩
  · rcases started claim member with old | new
    · obtain ⟨createdAt, known⟩ := sound.started claim old
      exact ⟨createdAt, grows.subset known⟩
    · exact new
  · rw [callbacks]
    intro i other found
    obtain ⟨user, member⟩ := sound.claims i other found
    exact ⟨user, issued.subset member⟩
  · rw [callbacks]
    exact fun i other found => (sound.trails i other found).later grows
  · rw [callbacks]
    exact sound.coherent
  · intro i userId organizationId externalId id token member
    rw [journal] at member
    rcases List.mem_append.mp member with old | new
    · refine (sound.links i userId organizationId externalId id token old).later ?_ grows
      rw [callbacks]
      exact fun i other found => ⟨other.phase, found⟩
    · exact absurd new (none i userId organizationId externalId id token)
  · rw [installations]
    intro row member
    obtain ⟨i, userId, token, known⟩ := sound.installations row member
    exact ⟨i, userId, token, grows.subset known⟩

/-- A start that goes on, and has signed nothing that it had not. -/
theorem TrailSound.startGoesOn (sound : TrailSound desk) {start : Start} {phase : StartPhase}
    (found : desk.starts[index]? = some start)
    (held : Start.pending { start with phase } = none ∨
      Start.pending { start with phase } = start.pending) {states : List StateRow}
    (kept : ∀ row ∈ states, row ∈ desk.states ∨ ∃ claim createdAt,
      Signed desk claim createdAt ∧ row = LinkDesk.stateRow claim createdAt) :
    TrailSound { desk.setStart index start phase with states := states } := by
  have known := List.mem_of_getElem? found
  refine sound.of_starts rfl rfl (.refl _) (List.append_nil _).symm ?_ ?_ sound.issuable
    sound.distinct (fun claim member => .inl member) ?_
    fun _ _ _ _ _ _ member => absurd member List.not_mem_nil
  · intro other member
    rcases List.mem_or_eq_of_mem_set member with old | rfl
    · exact sound.starts other old
    · exact sound.starts start known
  · intro other member claim createdAt pending
    rcases List.mem_or_eq_of_mem_set member with old | rfl
    · exact sound.pending other old claim createdAt pending
    · rcases held with none | same
      · rw [none] at pending
        cases pending
      · exact sound.pending start known claim createdAt (same.symm.trans pending)
  · intro row member
    rcases kept row member with old | ⟨claim, createdAt, signed, rfl⟩
    · exact sound.states row old
    · exact ⟨claim, createdAt, signed, rfl, rfl⟩

/-- **A claim that is signed** has a nonce of its own. -/
theorem TrailSound.issue (sound : TrailSound desk) {start : Start} {nonce : List Byte}
    (found : desk.starts[index]? = some start) (length : nonce.length = nonceBytes)
    (fresh : Text.base64url nonce ∉ desk.issued.map StateClaim.nonce) :
    let claim : StateClaim :=
      ⟨Text.base64url nonce, start.userId, start.organizationId, start.installationId⟩
    TrailSound { desk.setStart index start (.purging claim desk.clock) with
      issued := desk.issued ++ [claim]
      journal := desk.journal ++ [.started claim desk.clock] } := by
  intro claim
  have formed := sound.starts start (List.mem_of_getElem? found)
  have grows : desk.journal <+ desk.journal ++ [Entry.started claim desk.clock] :=
    List.sublist_append_left _ _
  have more : desk.issued <+ desk.issued ++ [claim] := List.sublist_append_left _ _
  have last : Entry.started claim desk.clock ∈ desk.journal ++ [Entry.started claim desk.clock] :=
    List.mem_append_right _ (List.mem_singleton.mpr rfl)
  refine sound.of_starts rfl rfl more rfl ?_ ?_ ?_ ?_ ?_ ?_ ?_
  · intro other member
    rcases List.mem_or_eq_of_mem_set member with old | rfl
    · exact sound.starts other old
    · exact formed
  · intro other member claim' createdAt pending
    rcases List.mem_or_eq_of_mem_set member with old | rfl
    · exact (sound.pending other old claim' createdAt pending).later more grows
    · cases pending
      exact ⟨List.mem_append_right _ (List.mem_singleton.mpr rfl), last⟩
  · intro other member
    rcases List.mem_append.mp member with old | new
    · exact sound.issuable other old
    · rw [List.mem_singleton.mp new]
      exact ⟨⟨nonce, length, rfl⟩, formed.1, formed.2.1, formed.2.2⟩
  · rw [List.map_append, List.map_singleton]
    refine List.nodup_append.mpr ⟨sound.distinct, List.nodup_singleton _, ?_⟩
    intro known member other is same
    rw [same, List.mem_singleton.mp is] at member
    exact fresh member
  · intro other member
    rcases List.mem_append.mp member with old | new
    · exact .inl old
    · rw [List.mem_singleton.mp new]
      exact .inr ⟨desk.clock, last⟩
  · exact sound.signedRows (.of_eq rfl) more grows
  · intro i userId organizationId externalId id token member
    cases List.mem_singleton.mp member

/-- A start that goes on changes nothing of the callbacks. -/
theorem TrailSound.actStart (sound : TrailSound desk) {start : Start} {act : StartAct}
    (found : desk.starts[index]? = some start)
    (taken : desk.actStart index start act = some after) : TrailSound after := by
  have quiet : ∀ phase, Start.pending { start with phase := phase } = none ∨
      Start.pending { start with phase := phase } = start.pending →
        TrailSound (desk.setStart index start phase) :=
    fun phase held => sound.startGoesOn found held fun row member => .inl member
  unfold LinkDesk.actStart at taken
  cases act with
  | find =>
    dsimp only at taken
    split at taken
    · split at taken
      · cases taken
        exact quiet _ (.inl rfl)
      · split at taken
        · cases taken
          exact quiet _ (.inl rfl)
        · split at taken
          · cases taken
            exact quiet _ (.inl rfl)
          · cases taken
            exact quiet _ (.inl rfl)
    · cases taken
  | issue nonce =>
    dsimp only at taken
    split at taken
    · rename_i may
      cases taken
      exact sound.issue found may.2.1 may.2.2
    · cases taken
  | purge =>
    dsimp only at taken
    split at taken
    · rename_i claim createdAt purging
      cases taken
      exact sound.startGoesOn found (.inr (by rw [Start.pending, Start.pending, purging]))
        fun row member => .inl (List.mem_filter.mp member).1
    · cases taken
  | count =>
    dsimp only at taken
    split at taken
    · rename_i claim createdAt counting
      split at taken
      · cases taken
        exact quiet _ (.inl rfl)
      · cases taken
        exact quiet _ (.inr (by rw [Start.pending, Start.pending, counting]))
    · cases taken
  | create =>
    dsimp only at taken
    split at taken
    · rename_i claim createdAt creating
      cases taken
      refine sound.startGoesOn found (.inl rfl) fun row member => ?_
      rcases List.mem_append.mp member with old | new
      · exact .inl (List.mem_filter.mp old).1
      · refine .inr ⟨claim, createdAt, ?_, List.mem_singleton.mp new⟩
        exact sound.pending start (List.mem_of_getElem? found) claim createdAt
          (by rw [Start.pending, creating])
    · cases taken
  | fail =>
    dsimp only at taken
    split at taken
    · cases taken
    · cases taken
      exact quiet _ (.inl rfl)

/-- A callback that begins has done what its claim says. -/
theorem TrailSound.joins (sound : TrailSound desk) {userId : Text} {claim : StateClaim}
    {query : CallbackQuery} {now : ℤ} (own : claim.userId = userId) (issued : claim ∈ desk.issued) :
    TrailSound { desk with
      callbacks := desk.callbacks ++ [⟨userId, claim, query, now, .consuming⟩] } := by
  have split : ∀ (i : ℕ) (other : Callback),
      (desk.callbacks ++ [⟨userId, claim, query, now, .consuming⟩])[i]? = some other →
        desk.callbacks[i]? = some other ∨ other = ⟨userId, claim, query, now, .consuming⟩ := by
    intro i other found
    rcases Nat.lt_or_ge i desk.callbacks.length with inside | outside
    · rw [List.getElem?_append_left inside] at found
      exact .inl found
    · rw [List.getElem?_append_right outside, List.getElem?_singleton] at found
      split at found
      · exact .inr (Option.some.inj found).symm
      · cases found
  refine ⟨sound.starts, sound.pending, sound.issuable, sound.distinct, sound.started, sound.states,
    ?_, ?_, ?_, ?_, sound.installations⟩
  · intro i other found
    rcases split i other found with old | rfl
    · exact sound.claims i other old
    · exact ⟨own, issued⟩
  · intro i other found
    rcases split i other found with old | rfl
    · exact sound.trails i other old
    · obtain ⟨createdAt, started⟩ := sound.started claim issued
      exact ⟨createdAt, List.singleton_sublist.mpr started, .inl rfl⟩
  · intro i other found
    rcases split i other found with old | rfl
    · exact sound.coherent i other old
    · exact trivial
  · intro i userId organizationId externalId id token member
    refine (sound.links i userId organizationId externalId id token member).later
      (fun j other found => ⟨other.phase, ?_⟩) (List.Sublist.refl _)
    exact (List.getElem?_append_left (List.getElem?_eq_some_iff.mp found).1).trans found

/-- A callback that begins has a state that was issued to its user. -/
theorem TrailSound.arrive (sound : TrailSound desk) {session : Option Text}
    {query : Option CallbackQuery}
    (unforged : query.all (fun query => hmac.unforged desk.issued query.state) = true) :
    TrailSound (desk.arrive hmac session query) := by
  unfold LinkDesk.arrive
  cases session with
  | none => exact sound
  | some userId =>
    cases query with
    | none => exact sound
    | some query =>
      dsimp only
      split
      · rename_i claim read
        split
        · rename_i own
          exact sound.joins own (issued_of_unforged sound.issuable unforged read)
        · exact sound
      · exact sound

/-- What the other writers leave of the starts, of the callbacks and of the links. -/
structure Aside (desk after : LinkDesk) : Prop where
  starts : after.starts = desk.starts
  issued : after.issued = desk.issued
  states : after.states = desk.states
  callbacks : after.callbacks = desk.callbacks
  installations : ∃ change : InstallationRow → InstallationRow,
    after.installations = desk.installations.map change ∧ ∀ row, (change row).id = row.id ∧
      (change row).organizationId = row.organizationId ∧ (change row).externalId = row.externalId
  journal : ∃ entries, after.journal = desk.journal ++ entries ∧
    ∀ entry ∈ entries, ∃ userId id former token, entry = .renewed userId id former token

theorem Aside.of_same (starts : after.starts = desk.starts) (issued : after.issued = desk.issued)
    (states : after.states = desk.states) (callbacks : after.callbacks = desk.callbacks)
    (installations : after.installations = desk.installations)
    (journal : after.journal = desk.journal) : Aside desk after :=
  ⟨starts, issued, states, callbacks, ⟨id, by rw [List.map_id]; exact installations,
    fun _ => ⟨rfl, rfl, rfl⟩⟩, ⟨[], by rw [List.append_nil]; exact journal,
    fun _ member => absurd member List.not_mem_nil⟩⟩

/-- **The other writers** change the status of installations, and tokens. -/
theorem aside_of_step {event : LinkEvent} (taken : linkStep hmac desk event = some after)
    (other : match event with
      | .tick _ | .deliver _ _ | .status _ | .plan _ _ _ | .renew _ _ | .keep _ => True
      | _ => False) : Aside desk after := by
  cases event with
  | tick elapsed =>
    cases taken
    exact .of_same rfl rfl rfl rfl rfl rfl
  | deliver externalId status =>
    cases taken
    rw [LinkDesk.deliver]
    split
    · exact .of_same rfl rfl rfl rfl rfl rfl
    · split <;> exact .of_same rfl rfl rfl rfl rfl rfl
  | status index =>
    obtain ⟨change, _, rfl⟩ := Option.map_eq_some_iff.mp taken
    refine ⟨rfl, rfl, rfl, rfl, ⟨_, rfl, fun row => ?_⟩, ⟨[], (List.append_nil _).symm,
      fun _ member => absurd member List.not_mem_nil⟩⟩
    split <;> exact ⟨rfl, rfl, rfl⟩
  | plan organizationId userId installationId =>
    cases taken
    rw [LinkDesk.plan]
    split
    · exact .of_same rfl rfl rfl rfl rfl rfl
    · split <;> exact .of_same rfl rfl rfl rfl rfl rfl
  | renew index token =>
    rw [linkStep] at taken
    split at taken
    · cases taken
    split at taken
    · cases taken
      rw [LinkDesk.renew]
      split
      · exact .of_same rfl rfl rfl rfl rfl rfl
      · split
        · exact .of_same rfl rfl rfl rfl rfl rfl
        · exact ⟨rfl, rfl, rfl, rfl, ⟨id, (List.map_id _).symm, fun _ => ⟨rfl, rfl, rfl⟩⟩, _, rfl,
            fun entry member => ⟨_, _, _, _, List.mem_singleton.mp member⟩⟩
    · cases taken
  | keep index =>
    obtain ⟨renewal, _, continued⟩ := Option.bind_eq_some_iff.mp taken
    obtain ⟨token, _, same⟩ := Option.bind_eq_some_iff.mp continued
    cases same
    exact .of_same rfl rfl rfl rfl rfl rfl
  | start userId organizationId installationId => cases other
  | startAct index act => cases other
  | arrive session query => cases other
  | callbackAct index act => cases other

/-- The other writers keep the trails. -/
theorem TrailSound.aside (sound : TrailSound desk) (aside : Aside desk after) :
    TrailSound after := by
  obtain ⟨entries, journal, renewals⟩ := aside.journal
  have grows : desk.journal <+ after.journal := journal ▸ List.sublist_append_left _ _
  have kept : desk.issued <+ after.issued := aside.issued ▸ .refl _
  refine ⟨aside.starts ▸ sound.starts, ?_, aside.issued ▸ sound.issuable,
    aside.issued ▸ sound.distinct, ?_, sound.signedRows (.of_eq aside.states) kept grows, ?_, ?_,
    ?_, ?_, ?_⟩
  · rw [aside.starts]
    exact fun start member claim createdAt held =>
      (sound.pending start member claim createdAt held).later kept grows
  · rw [aside.issued]
    intro claim member
    obtain ⟨createdAt, known⟩ := sound.started claim member
    exact ⟨createdAt, grows.subset known⟩
  · rw [aside.callbacks, aside.issued]
    exact sound.claims
  · rw [aside.callbacks]
    exact fun i other found => (sound.trails i other found).later grows
  · rw [aside.callbacks]
    exact sound.coherent
  · intro i userId organizationId externalId id token member
    rw [journal] at member
    rcases List.mem_append.mp member with old | new
    · refine (sound.links i userId organizationId externalId id token old).later ?_ grows
      rw [aside.callbacks]
      exact fun i other found => ⟨other.phase, found⟩
    · obtain ⟨_, _, _, _, same⟩ := renewals _ new
      cases same
  · obtain ⟨change, installations, same⟩ := aside.installations
    rw [installations]
    intro row member
    obtain ⟨former, old, rfl⟩ := List.mem_map.mp member
    obtain ⟨i, userId, token, known⟩ := sound.installations former old
    rw [(same former).1, (same former).2.1, (same former).2.2]
    exact ⟨i, userId, token, grows.subset known⟩

theorem TrailSound.step {event : LinkEvent} (sound : TrailSound desk)
    (taken : linkStep hmac desk event = some after) : TrailSound after := by
  cases event with
  | start userId organizationId installationId =>
    rw [linkStep] at taken
    split at taken
    · rename_i uuids
      cases taken
      refine sound.of_starts rfl rfl (.refl _) (List.append_nil _).symm ?_ ?_ sound.issuable
        sound.distinct (fun claim member => .inl member) sound.states
        fun _ _ _ _ _ _ member => absurd member List.not_mem_nil
      · intro start member
        rcases List.mem_append.mp member with old | new
        · exact sound.starts start old
        · rw [List.mem_singleton.mp new]
          obtain ⟨both, installation⟩ := Bool.and_eq_true _ _ ▸ uuids
          obtain ⟨user, organization⟩ := Bool.and_eq_true _ _ ▸ both
          exact ⟨user, organization,
            fun id same => (Option.all_eq_true _ _).mp installation id same⟩
      · intro start member claim createdAt pending
        rcases List.mem_append.mp member with old | new
        · exact sound.pending start old claim createdAt pending
        · rw [List.mem_singleton.mp new] at pending
          cases pending
    · cases taken
  | startAct index act =>
    obtain ⟨start, found, acts⟩ := Option.bind_eq_some_iff.mp taken
    exact sound.actStart found acts
  | arrive session query =>
    rw [linkStep] at taken
    split at taken
    · rename_i unforged
      cases taken
      exact sound.arrive unforged
    · cases taken
  | callbackAct index act =>
    obtain ⟨callback, found, acts⟩ := Option.bind_eq_some_iff.mp taken
    exact sound.moved found (moved_of_act acts)
  | _ => exact sound.aside (aside_of_step taken trivial)

end Koklo.Installation
