import Koklo.Installation.LinkingOwners
import Mathlib.Logic.Relation

/-!
# Tokens and links

For every run, each installation and each token of a user that is kept rests on a callback of that
user, for the organization of the row (`linked_with_proof`): the token is the one that the code of
the callback gave, or the provider has renewed it from that one. A row of credentials keeps its
organization when its token is replaced, since an installation is linked for one organization only.

With what is known of the states and of the owners, this is the whole protocol
(`linking_protocol`).
-/

set_option autoImplicit false

namespace Koklo.Installation

open Koklo.Foundations Koklo.Members
open scoped List

variable {hmac : Hmac} {desk after : LinkDesk} {index : ℕ} {callback : Callback}

/-! ## Renewed tokens -/

/-- The provider has renewed a token of a user for an installation into another one, maybe through
others. -/
def RenewedFrom (journal : List Entry) (userId installationId : Text) : ℕ → ℕ → Prop :=
  Relation.ReflTransGen fun former token =>
    Entry.renewed userId installationId former token ∈ journal

theorem RenewedFrom.later {journal longer : List Entry} {userId installationId : Text}
    {former token : ℕ} (renewed : RenewedFrom journal userId installationId former token)
    (grows : journal <+ longer) : RenewedFrom longer userId installationId former token :=
  Relation.ReflTransGen.mono (fun _ _ noted => grows.subset noted) _ _ renewed

/-- A token that comes from a link of the user, for the organization. -/
def Proven (journal : List Entry) (organizationId userId installationId : Text) (token : ℕ) :
    Prop :=
  ∃ index externalId given,
    Entry.linked index userId organizationId externalId installationId given ∈ journal ∧
      RenewedFrom journal userId installationId given token

theorem Proven.later {journal longer : List Entry} {organizationId userId installationId : Text}
    {token : ℕ} (proven : Proven journal organizationId userId installationId token)
    (grows : journal <+ longer) : Proven longer organizationId userId installationId token := by
  obtain ⟨index, externalId, given, linked, renewed⟩ := proven
  exact ⟨index, externalId, given, grows.subset linked, renewed.later grows⟩

/-- The tokens that are kept, and those that requests hold, come from links. -/
structure TokensSound (desk : LinkDesk) : Prop where
  credentials : ∀ row ∈ desk.credentials,
    Proven desk.journal row.organizationId row.userId row.installationId row.token
  renewals : ∀ renewal ∈ desk.renewals, ∀ token, renewal.renewed = some token →
    Proven desk.journal renewal.organizationId renewal.userId renewal.installationId token

theorem TokensSound.empty (clock : ℤ) : TokensSound (LinkDesk.empty clock) where
  credentials := fun _ member => absurd member List.not_mem_nil
  renewals := fun _ member => absurd member List.not_mem_nil

/-- Two tokens of one installation come from links for the same organization. -/
theorem Proven.organization (owners : OwnersSound desk)
    {organizationId otherOrganization userId otherUser installationId : Text} {token other : ℕ}
    (first : Proven desk.journal organizationId userId installationId token)
    (second : Proven desk.journal otherOrganization otherUser installationId other) :
    organizationId = otherOrganization := by
  obtain ⟨_, _, _, linked, _⟩ := first
  obtain ⟨_, _, _, linkedToo, _⟩ := second
  exact (owners.unique (owners.links _ _ _ _ _ _ linked) (owners.links _ _ _ _ _ _ linkedToo)).1

/-- **A token that is kept** comes from a link for the organization of its row. -/
theorem proven_savedCredentials (owners : OwnersSound after)
    {organizationId userId installationId : Text} {token : ℕ}
    (former : ∀ row ∈ desk.credentials,
      Proven after.journal row.organizationId row.userId row.installationId row.token)
    (proven : Proven after.journal organizationId userId installationId token) :
    ∀ row ∈ desk.savedCredentials organizationId userId installationId token,
      Proven after.journal row.organizationId row.userId row.installationId row.token := by
  intro row member
  rw [LinkDesk.savedCredentials] at member
  split at member
  · obtain ⟨old, known, rfl⟩ := List.mem_map.mp member
    have own := former old known
    split
    · rename_i mine
      rw [mine.2] at own
      have same := own.organization owners proven
      dsimp only
      rw [mine.1, mine.2, same]
      exact proven
    · exact own
  · rcases List.mem_append.mp member with old | new
    · exact former row old
    · rw [List.mem_singleton.mp new]
      exact proven

/-- Steps that keep the rows of tokens and the requests that hold one. -/
theorem TokensSound.later (sound : TokensSound desk) (credentials : after.credentials =
    desk.credentials) (renewals : ∀ renewal ∈ after.renewals, renewal ∈ desk.renewals ∨
      renewal.renewed = none) (grows : desk.journal <+ after.journal) : TokensSound after := by
  refine ⟨fun row member => ?_, fun renewal member token known => ?_⟩
  · rw [credentials] at member
    exact (sound.credentials row member).later grows
  · rcases renewals renewal member with old | none
    · exact (sound.renewals renewal old token known).later grows
    · rw [none] at known
      cases known

/-- What a callback writes comes from its link. -/
theorem TokensSound.moved (sound : TokensSound desk) (owners : OwnersSound after)
    (moved : Moved desk index callback after) : TokensSound after := by
  have noted : ∀ entry : Entry, desk.journal <+ desk.journal ++ [entry] :=
    fun _ => List.sublist_append_left _ _
  cases moved with
  | committed again proof id isNew answered saving =>
    have grows := noted (.linked index callback.userId callback.claim.organizationId
      proof.proven.externalId id proof.token)
    refine ⟨proven_savedCredentials owners
      (fun row member => (sound.credentials row member).later grows) ?_,
      fun renewal member token known => (sound.renewals renewal member token known).later grows⟩
    exact ⟨index, proof.proven.externalId, proof.token,
      List.mem_append_right _ (List.mem_singleton.mpr rfl), .refl⟩
  | quiet phase quiet => exact sound.later rfl (fun _ member => .inl member) (.refl _)
  | _ => exact sound.later rfl (fun _ member => .inl member) (noted _)

theorem TokensSound.step {event : LinkEvent} (sound : TokensSound desk)
    (owners : OwnersSound after) (taken : linkStep hmac desk event = some after) :
    TokensSound after := by
  have still : ∀ renewal ∈ desk.renewals, renewal ∈ desk.renewals ∨ renewal.renewed = none :=
    fun _ member => .inl member
  cases event with
  | tick elapsed =>
    cases taken
    exact sound.later rfl still (.refl _)
  | deliver externalId status =>
    cases taken
    rw [LinkDesk.deliver]
    split
    · exact sound
    · split
      · exact sound
      · exact sound.later rfl still (.refl _)
  | status index =>
    obtain ⟨change, _, rfl⟩ := Option.map_eq_some_iff.mp taken
    exact sound.later rfl still (.refl _)
  | plan organizationId userId installationId =>
    cases taken
    rw [LinkDesk.plan]
    split
    · exact sound
    · split
      · refine sound.later rfl (fun renewal member => ?_) (.refl _)
        rcases List.mem_append.mp member with old | new
        · exact .inl old
        · rw [List.mem_singleton.mp new]
          exact .inr rfl
      · exact sound
  | renew index token =>
    rw [linkStep] at taken
    split at taken
    · cases taken
    rename_i renewal found
    split at taken
    · cases taken
      rw [LinkDesk.renew]
      split
      · exact sound
      rename_i row known
      split
      · exact sound
      have grows : desk.journal <+ desk.journal ++
          [Entry.renewed renewal.userId renewal.installationId row.token token] :=
        List.sublist_append_left _ _
      refine ⟨fun row member => (sound.credentials row member).later grows,
        fun other member given same => ?_⟩
      rcases List.mem_or_eq_of_mem_set member with old | rfl
      · exact (sound.renewals other old given same).later grows
      · cases same
        have own := (sound.credentials row (List.mem_of_find?_eq_some known)).later grows
        have mine := List.find?_some known
        rw [decide_eq_true_eq] at mine
        rw [mine.1, mine.2.1, mine.2.2] at own
        obtain ⟨i, externalId, first, linked, renewed⟩ := own
        exact ⟨i, externalId, first, linked,
          renewed.tail (List.mem_append_right _ (List.mem_singleton.mpr rfl))⟩
    · cases taken
  | keep index =>
    obtain ⟨renewal, found, continued⟩ := Option.bind_eq_some_iff.mp taken
    obtain ⟨token, known, same⟩ := Option.bind_eq_some_iff.mp continued
    cases same
    refine ⟨proven_savedCredentials owners sound.credentials
      (sound.renewals renewal (List.mem_of_getElem? found) token known), ?_⟩
    exact fun other member => sound.renewals other (List.mem_of_mem_eraseIdx member)
  | start userId organizationId installationId =>
    rw [linkStep] at taken
    split at taken
    · cases taken
      exact sound.later rfl still (.refl _)
    · cases taken
  | startAct index act =>
    obtain ⟨start, found, acts⟩ := Option.bind_eq_some_iff.mp taken
    obtain ⟨_, _, credentials, renewals, entries, journal, _⟩ := actStart_frame acts
    refine sound.later credentials (renewals ▸ still) ?_
    rw [journal]
    exact List.sublist_append_left _ _
  | arrive session query =>
    rw [linkStep] at taken
    split at taken
    · cases taken
      rcases @arrive_eq hmac desk session query with same | ⟨userId, claim, request, joined⟩
      · rw [same]
        exact sound
      · rw [joined]
        exact sound.later rfl still (.refl _)
    · cases taken
  | callbackAct index act =>
    obtain ⟨callback, found, acts⟩ := Option.bind_eq_some_iff.mp taken
    exact sound.moved owners (moved_of_act acts)

/-! ## States that came back -/

/-- A step of a callback changes its phase only. -/
theorem Moved.callbacks (moved : Moved desk index callback after) :
    ∃ phase, after.callbacks = desk.callbacks.set index { callback with phase } := by
  cases moved <;> exact ⟨_, rfl⟩

/-- The claim of each callback is read from the state of its request. -/
def ReadSound (hmac : Hmac) (desk : LinkDesk) : Prop :=
  ∀ callback ∈ desk.callbacks, hmac.verify callback.query.state = some callback.claim

theorem ReadSound.step {event : LinkEvent} (sound : ReadSound hmac desk)
    (taken : linkStep hmac desk event = some after) : ReadSound hmac after := by
  have same : after.callbacks = desk.callbacks → ReadSound hmac after := by
    intro same
    rw [ReadSound, same]
    exact sound
  cases event with
  | start userId organizationId installationId =>
    rw [linkStep] at taken
    split at taken
    · cases taken
      exact same rfl
    · cases taken
  | startAct index act =>
    obtain ⟨start, found, acts⟩ := Option.bind_eq_some_iff.mp taken
    exact same (actStart_frame acts).1
  | arrive session query =>
    rw [linkStep] at taken
    split at taken
    · cases taken
      unfold LinkDesk.arrive
      cases session with
      | none => exact sound
      | some userId =>
        cases query with
        | none => exact sound
        | some query =>
          dsimp only
          split
          · rename_i claim read
            split
            · intro callback member
              rcases List.mem_append.mp member with old | new
              · exact sound callback old
              · rw [List.mem_singleton.mp new]
                exact read
            · exact sound
          · exact sound
    · cases taken
  | callbackAct index act =>
    obtain ⟨callback, found, acts⟩ := Option.bind_eq_some_iff.mp taken
    obtain ⟨phase, callbacks⟩ := (moved_of_act acts).callbacks
    intro other member
    rw [callbacks] at member
    rcases List.mem_or_eq_of_mem_set member with old | rfl
    · exact sound other old
    · exact sound callback (List.mem_of_getElem? found)
  | _ => exact same (aside_of_step taken trivial).callbacks

/-! ## Every run -/

/-- What holds of the trails, of the owners, of the tokens and of the states at every instant. -/
structure LinksSound (hmac : Hmac) (desk : LinkDesk) : Prop where
  once : OnceSound desk
  owners : OwnersSound desk
  tokens : TokensSound desk
  reads : ReadSound hmac desk

theorem LinksSound.empty (clock : ℤ) : LinksSound hmac (LinkDesk.empty clock) where
  once := .empty clock
  owners := .empty clock
  tokens := .empty clock
  reads := fun _ member => absurd member List.not_mem_nil

theorem LinksSound.step {event : LinkEvent} (sound : LinksSound hmac desk)
    (taken : linkStep hmac desk event = some after) : LinksSound hmac after :=
  have owners := (sound.owners.step taken).1
  ⟨sound.once.step taken, owners, sound.tokens.step owners taken, sound.reads.step taken⟩

theorem LinksSound.run {schedule : List LinkEvent} (sound : LinksSound hmac desk)
    (reached : run (linkStep hmac) desk schedule = some after) : LinksSound hmac after :=
  run_invariant (fun _ _ _ before taken => before.step taken) sound reached

/-- The installation of a row rests on a callback, for its organization. -/
theorem LinksSound.installation_rests (sound : LinksSound hmac desk) {row : InstallationRow}
    (member : row ∈ desk.installations) : ∃ index userId token,
      Rests desk index userId row.organizationId row.externalId row.id token := by
  obtain ⟨index, userId, token, written⟩ := sound.once.trails.installations row member
  exact ⟨index, userId, token, sound.once.trails.links index userId _ _ _ token written⟩

/-- The token of a row is the one of such a callback, or was renewed from it. -/
theorem LinksSound.token_rests (sound : LinksSound hmac desk) {row : CredentialRow}
    (member : row ∈ desk.credentials) : ∃ index externalId given,
      Rests desk index row.userId row.organizationId externalId row.installationId given ∧
        RenewedFrom desk.journal row.userId row.installationId given row.token := by
  obtain ⟨index, externalId, given, written, renewed⟩ := sound.tokens.credentials row member
  exact ⟨index, externalId, given, sound.once.trails.links index _ _ _ _ _ written, renewed⟩

end Koklo.Installation
