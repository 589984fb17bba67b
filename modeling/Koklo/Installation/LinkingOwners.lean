import Koklo.Installation.LinkingOnce

/-!
# Installations keep their organization

For every run, an installation of the provider is stored once, for one organization, and stays there
(`installations_keep_organization`). The external identifiers that are stored and those that open
transactions have inserted are all different (`OwnersSound`), rows are never removed, and what they
change is their owner and their status only.
-/

set_option autoImplicit false

namespace Koklo.Installation

open Koklo.Foundations Koklo.Members
open scoped List

variable {hmac : Hmac} {desk after : LinkDesk} {index : ℕ} {callback : Callback}

/-- The external identifier that an open transaction has inserted. -/
def newExternal (callback : Callback) : Option Text :=
  match callback.phase with
  | .saving _ proof _ true => some proof.proven.externalId
  | _ => none

/-- The external identifiers that are stored, and those that open transactions have inserted. -/
def externals (desk : LinkDesk) : List Text :=
  desk.installations.map InstallationRow.externalId ++ desk.callbacks.filterMap newExternal

/-- The identifiers of the installations, and those that open transactions have given. -/
def identifiers (desk : LinkDesk) : List Text :=
  desk.installations.map InstallationRow.id ++ desk.callbacks.filterMap LinkDesk.newId

/-- A row with an identifier, an organization and an external identifier is stored. -/
def Stored (desk : LinkDesk) (id organizationId externalId : Text) : Prop :=
  ∃ row ∈ desk.installations, row.id = id ∧ row.organizationId = organizationId ∧
    row.externalId = externalId

/-- Installations are stored and inserted once, and what was linked is stored. -/
structure OwnersSound (desk : LinkDesk) : Prop where
  distinctExternals : (externals desk).Nodup
  distinctIds : (identifiers desk).Nodup
  /-- A transaction that found the installation is for its row. -/
  held : ∀ callback ∈ desk.callbacks, ∀ again proof id,
    callback.phase = .saving again proof id false →
      Stored desk id callback.claim.organizationId proof.proven.externalId
  links : ∀ i userId organizationId externalId id token,
    Entry.linked i userId organizationId externalId id token ∈ desk.journal →
      Stored desk id organizationId externalId

theorem OwnersSound.empty (clock : ℤ) : OwnersSound (LinkDesk.empty clock) where
  distinctExternals := List.nodup_nil
  distinctIds := List.nodup_nil
  held := fun _ member => absurd member List.not_mem_nil
  links := fun _ _ _ _ _ _ member => absurd member List.not_mem_nil

/-- The rows of a desk are still those of a later one, but for their owner and status. -/
def Keeps (desk after : LinkDesk) : Prop :=
  ∀ id organizationId externalId, Stored desk id organizationId externalId →
    Stored after id organizationId externalId

theorem insertedBy_iff {externalId : Text} :
    LinkDesk.insertedBy externalId callback = true ↔ newExternal callback = some externalId := by
  unfold LinkDesk.insertedBy newExternal
  cases callback.phase with
  | saving again proof id isNew =>
    cases isNew with
    | true => exact decide_eq_true_iff.trans Option.some_inj.symm
    | false => exact ⟨fun not => (by cases not), fun not => (by cases not)⟩
  | _ => exact ⟨fun not => (by cases not), fun not => (by cases not)⟩

/-! ## What steps keep -/

theorem Keeps.of_same (same : after.installations = desk.installations) : Keeps desk after := by
  rintro id organizationId externalId ⟨row, member, known⟩
  exact ⟨row, same ▸ member, known⟩

/-- Rows that change their owner or their status. -/
theorem Keeps.of_map {change : InstallationRow → InstallationRow}
    (installations : after.installations = desk.installations.map change)
    (kept : ∀ row, (change row).id = row.id ∧ (change row).organizationId = row.organizationId ∧
      (change row).externalId = row.externalId) : Keeps desk after := by
  rintro id organizationId externalId ⟨row, member, rfl, rfl, rfl⟩
  exact ⟨change row, installations ▸ List.mem_map_of_mem member, kept row⟩

/-- Rows that change their owner or their status keep their identifiers. -/
theorem identifiers_of_map {change : InstallationRow → InstallationRow}
    (installations : after.installations = desk.installations.map change)
    (kept : ∀ row, (change row).id = row.id ∧ (change row).organizationId = row.organizationId ∧
      (change row).externalId = row.externalId) :
    after.installations.map InstallationRow.externalId =
        desk.installations.map InstallationRow.externalId ∧
      after.installations.map InstallationRow.id = desk.installations.map InstallationRow.id := by
  rw [installations, List.map_map, List.map_map]
  exact ⟨List.map_congr_left fun row _ => (kept row).2.2,
    List.map_congr_left fun row _ => (kept row).1⟩

/-- A desk whose callbacks have inserted no more than before. -/
theorem OwnersSound.of_sublist (sound : OwnersSound desk) (keeps : Keeps desk after)
    (externalIds : after.installations.map InstallationRow.externalId =
      desk.installations.map InstallationRow.externalId)
    (ids : after.installations.map InstallationRow.id = desk.installations.map InstallationRow.id)
    (newExternals : after.callbacks.filterMap newExternal <+ desk.callbacks.filterMap newExternal)
    (newIds : after.callbacks.filterMap LinkDesk.newId <+ desk.callbacks.filterMap LinkDesk.newId)
    (held : ∀ callback ∈ after.callbacks, ∀ again proof id,
      callback.phase = .saving again proof id false → callback ∈ desk.callbacks ∨
        Stored desk id callback.claim.organizationId proof.proven.externalId)
    (links : ∀ i userId organizationId externalId id token,
      Entry.linked i userId organizationId externalId id token ∈ after.journal →
        Entry.linked i userId organizationId externalId id token ∈ desk.journal) :
    OwnersSound after where
  distinctExternals := by
    rw [externals, externalIds]
    exact ((List.Sublist.refl _).append newExternals).nodup sound.distinctExternals
  distinctIds := by
    rw [identifiers, ids]
    exact ((List.Sublist.refl _).append newIds).nodup sound.distinctIds
  held := fun callback member again proof id saving => by
    rcases held callback member again proof id saving with old | stored
    · exact keeps _ _ _ (sound.held callback old again proof id saving)
    · exact keeps _ _ _ stored
  links := fun i userId organizationId externalId id token member =>
    keeps _ _ _ (sound.links i userId organizationId externalId id token
      (links i userId organizationId externalId id token member))

/-- A callback that goes on, without having inserted a row. -/
theorem OwnersSound.goesOn (sound : OwnersSound desk)
    (found : desk.callbacks[index]? = some callback) {phase : CallbackPhase}
    (callbacks : after.callbacks = desk.callbacks.set index { callback with phase })
    (installations : after.installations = desk.installations)
    (without : newExternal { callback with phase } = none)
    (withoutId : LinkDesk.newId { callback with phase } = none)
    (held : ∀ again proof id, phase = .saving again proof id false →
      Stored desk id callback.claim.organizationId proof.proven.externalId)
    (links : ∀ i userId organizationId externalId id token,
      Entry.linked i userId organizationId externalId id token ∈ after.journal →
        Entry.linked i userId organizationId externalId id token ∈ desk.journal) :
    OwnersSound after := by
  refine sound.of_sublist (.of_same installations) (congrArg _ installations)
    (congrArg _ installations) (callbacks ▸ filterMap_set_sublist found without)
    (callbacks ▸ filterMap_set_sublist found withoutId)
    (fun other member again proof id saving => ?_) links
  rw [callbacks] at member
  rcases List.mem_or_eq_of_mem_set member with old | rfl
  · exact .inl old
  · exact .inr (held again proof id saving)

/-- **A row that is inserted** is the only one with its external identifier. -/
theorem OwnersSound.inserts (sound : OwnersSound desk)
    (found : desk.callbacks[index]? = some callback) {again : Bool} {proof : Proof} {id : Text}
    (inserting : callback.phase = .inserting again proof)
    (fresh : id ∉ desk.installations.map InstallationRow.id)
    (freshOpen : id ∉ desk.callbacks.filterMap LinkDesk.newId)
    (free : desk.callbacks.any (LinkDesk.insertedBy proof.proven.externalId) = false)
    (unknown : ∀ row ∈ desk.installations, row.externalId ≠ proof.proven.externalId) :
    OwnersSound (desk.setCallback index callback (.saving again proof id true)) := by
  have without : newExternal callback = none ∧ LinkDesk.newId callback = none := by
    rw [newExternal, LinkDesk.newId, inserting]
    exact ⟨rfl, rfl⟩
  have absent : proof.proven.externalId ∉ externals desk := by
    intro member
    rcases List.mem_append.mp member with stored | open_
    · obtain ⟨row, known, same⟩ := List.mem_map.mp stored
      exact unknown row known same
    · obtain ⟨other, known, same⟩ := List.mem_filterMap.mp open_
      exact List.any_eq_false.mp free other known (insertedBy_iff.mpr same)
  have absentId : id ∉ identifiers desk := fun member =>
    (List.mem_append.mp member).elim fresh freshOpen
  let inserted : Callback := { callback with phase := .saving again proof id true }
  refine ⟨?_, ?_, fun other member again' proof' id' saving => ?_, sound.links⟩
  · have parts := @perm_filterMap_set _ _ _ _ _ inserted _ _ found without.1 rfl
    have whole := parts.append_left (desk.installations.map InstallationRow.externalId)
    rw [← List.append_assoc] at whole
    refine whole.nodup_iff.mpr (List.nodup_append.mpr
      ⟨sound.distinctExternals, List.nodup_singleton _, ?_⟩)
    intro known member last is same
    rw [same, List.mem_singleton.mp is] at member
    exact absent member
  · have parts := @perm_filterMap_set _ _ _ _ _ inserted _ _ found without.2 rfl
    have whole := parts.append_left (desk.installations.map InstallationRow.id)
    rw [← List.append_assoc] at whole
    refine whole.nodup_iff.mpr (List.nodup_append.mpr
      ⟨sound.distinctIds, List.nodup_singleton _, ?_⟩)
    intro known member last is same
    rw [same, List.mem_singleton.mp is] at member
    exact absentId member
  · rcases List.mem_or_eq_of_mem_set member with old | rfl
    · exact sound.held other old again' proof' id' saving
    · cases saving

/-- **A link that is committed** keeps the rows, and its row is stored. -/
theorem OwnersSound.committed (sound : OwnersSound desk)
    (found : desk.callbacks[index]? = some callback) {again isNew : Bool} {proof : Proof}
    {id : Text} (saving : callback.phase = .saving again proof id isNew)
    (outcome : CallbackOutcome) :
    let after := { desk.advance index callback (.ended outcome)
        (.linked index callback.userId callback.claim.organizationId proof.proven.externalId id
          proof.token) with
      installations := desk.linkedInstallations callback proof id isNew
      credentials := desk.savedCredentials callback.claim.organizationId callback.userId id
        proof.token }
    OwnersSound after ∧ Keeps desk after := by
  intro after
  let closed : Callback := { callback with phase := .ended outcome }
  have journal : ∀ i userId organizationId externalId other token,
      Entry.linked i userId organizationId externalId other token ∈ after.journal →
        Entry.linked i userId organizationId externalId other token ∈ desk.journal ∨
          other = id ∧ organizationId = callback.claim.organizationId ∧
            externalId = proof.proven.externalId := by
    intro i userId organizationId externalId other token member
    rcases List.mem_append.mp member with old | new
    · exact .inl old
    · cases List.mem_singleton.mp new
      exact .inr ⟨rfl, rfl, rfl⟩
  have quiet : ∀ other ∈ after.callbacks, ∀ again proof id,
      other.phase = .saving again proof id false → other ∈ desk.callbacks := by
    intro other member again proof id phase
    rcases List.mem_or_eq_of_mem_set member with old | rfl
    · exact old
    · cases phase
  cases isNew with
  | true =>
    have had : newExternal callback = some proof.proven.externalId ∧
        LinkDesk.newId callback = some id := by
      rw [newExternal, LinkDesk.newId, saving]
      exact ⟨rfl, rfl⟩
    have keeps : Keeps desk after := by
      rintro other organizationId externalId ⟨row, member, known⟩
      exact ⟨row, List.mem_append_left _ member, known⟩
    have stored : Stored after id callback.claim.organizationId proof.proven.externalId :=
      ⟨LinkDesk.installationRow callback proof id,
        List.mem_append_right _ (List.mem_singleton.mpr rfl), rfl, rfl, rfl⟩
    refine ⟨⟨?_, ?_, ?_, ?_⟩, keeps⟩
    · have parts := @perm_filterMap_unset _ _ _ _ _ closed _ _ found had.1 rfl
      have whole :=
        (parts.append_left (desk.installations.map InstallationRow.externalId)).nodup_iff
      have nodup := whole.mp sound.distinctExternals
      change ((desk.installations ++ [LinkDesk.installationRow callback proof id]).map
        InstallationRow.externalId ++ _).Nodup
      rw [List.map_append, List.append_assoc]
      exact nodup
    · have parts := @perm_filterMap_unset _ _ _ _ _ closed _ _ found had.2 rfl
      have whole := (parts.append_left (desk.installations.map InstallationRow.id)).nodup_iff
      have nodup := whole.mp sound.distinctIds
      change ((desk.installations ++ [LinkDesk.installationRow callback proof id]).map
        InstallationRow.id ++ _).Nodup
      rw [List.map_append, List.append_assoc]
      exact nodup
    · intro other member again proof id phase
      exact keeps _ _ _ (sound.held other (quiet other member again proof id phase) again proof id
        phase)
    · intro i userId organizationId externalId other token member
      rcases journal i userId organizationId externalId other token member with
        old | ⟨rfl, rfl, rfl⟩
      · exact keeps _ _ _ (sound.links i userId organizationId externalId other token old)
      · exact stored
  | false =>
    have kept : ∀ row : InstallationRow, let changed :=
        if row.id = id ∧ row.organizationId = callback.claim.organizationId then
          { row with ownerKind := proof.proven.ownerKind, ownerLogin := proof.proven.ownerLogin }
        else row
        changed.id = row.id ∧ changed.organizationId = row.organizationId ∧
          changed.externalId = row.externalId := by
      intro row
      dsimp only
      split <;> exact ⟨rfl, rfl, rfl⟩
    have keeps : Keeps desk after := .of_map rfl kept
    have same := @identifiers_of_map desk after _ rfl kept
    have without : newExternal closed = none ∧ LinkDesk.newId closed = none := ⟨rfl, rfl⟩
    have stored := keeps _ _ _
      (sound.held callback (List.mem_of_getElem? found) again proof id saving)
    refine ⟨⟨?_, ?_, ?_, ?_⟩, keeps⟩
    · rw [externals, same.1]
      exact ((List.Sublist.refl _).append (filterMap_set_sublist found without.1)).nodup
        sound.distinctExternals
    · rw [identifiers, same.2]
      exact ((List.Sublist.refl _).append (filterMap_set_sublist found without.2)).nodup
        sound.distinctIds
    · intro other member again proof id phase
      exact keeps _ _ _ (sound.held other (quiet other member again proof id phase) again proof id
        phase)
    · intro i userId organizationId externalId other token member
      rcases journal i userId organizationId externalId other token member with
        old | ⟨rfl, rfl, rfl⟩
      · exact keeps _ _ _ (sound.links i userId organizationId externalId other token old)
      · exact stored

/-! ## Steps -/

/-- A link that is noted is the only entry of its step. -/
theorem linked_of_noted {entry : Entry} (journal : after.journal = desk.journal ++ [entry])
    (other : ∀ i userId organizationId externalId id token,
      entry ≠ .linked i userId organizationId externalId id token) :
    ∀ i userId organizationId externalId id token,
      Entry.linked i userId organizationId externalId id token ∈ after.journal →
        Entry.linked i userId organizationId externalId id token ∈ desk.journal := by
  intro i userId organizationId externalId id token member
  rw [journal] at member
  rcases List.mem_append.mp member with old | new
  · exact old
  · exact absurd (List.mem_singleton.mp new).symm
      (other i userId organizationId externalId id token)

/-- What a step of a callback keeps. -/
theorem OwnersSound.moved (sound : OwnersSound desk)
    (found : desk.callbacks[index]? = some callback) (moved : Moved desk index callback after) :
    OwnersSound after ∧ Keeps desk after := by
  -- A callback that has no row yet, before and after.
  have noted : ∀ (phase : CallbackPhase) (entry : Entry) (later : LinkDesk),
      later.callbacks = desk.callbacks.set index { callback with phase := phase } →
      later.installations = desk.installations → later.journal = desk.journal ++ [entry] →
      newExternal { callback with phase := phase } = none →
      LinkDesk.newId { callback with phase := phase } = none →
      (∀ again proof id, phase ≠ .saving again proof id false) →
      (∀ i userId organizationId externalId id token,
        entry ≠ .linked i userId organizationId externalId id token) →
        OwnersSound later ∧ Keeps desk later :=
    fun phase entry later callbacks installations journal without withoutId unsaved other =>
      ⟨sound.goesOn found callbacks installations without withoutId
        (fun again proof id saving => absurd saving (unsaved again proof id))
        (linked_of_noted journal other), .of_same installations⟩
  cases moved with
  | quiet phase quiet =>
    refine ⟨?_, .of_same rfl⟩
    have kept : ∀ i userId organizationId externalId id token,
        Entry.linked i userId organizationId externalId id token ∈
            (desk.setCallback index callback phase).journal →
          Entry.linked i userId organizationId externalId id token ∈ desk.journal :=
      fun _ _ _ _ _ _ member => member
    cases quiet with
    | existing again proof row linking member external organization =>
      refine sound.goesOn found rfl rfl rfl rfl (fun _ _ _ saving => ?_) kept
      cases saving
      exact ⟨row, member, rfl, organization, external⟩
    | inserts again proof id inserting fresh freshOpen free unknown =>
      exact sound.inserts found inserting fresh freshOpen free unknown
    | _ => exact sound.goesOn found rfl rfl rfl rfl (fun _ _ _ saving => by cases saving) kept
  | consumed row answered consuming known =>
    cases answered with
    | true =>
      exact noted _ _ _ rfl rfl rfl rfl rfl (fun _ _ _ saving => by cases saving)
        fun _ _ _ _ _ _ same => by cases same
    | false =>
      exact noted _ _ _ rfl rfl rfl rfl rfl (fun _ _ _ saving => by cases saving)
        fun _ _ _ _ _ _ same => by cases same
  | committed again proof id isNew answered saving => exact sound.committed found saving _
  | _ =>
    exact noted _ _ _ rfl rfl rfl rfl rfl (fun _ _ _ saving => by cases saving)
      fun _ _ _ _ _ _ same => by cases same

/-- Steps that leave the callbacks as they are. -/
theorem OwnersSound.of_same (sound : OwnersSound desk) (keeps : Keeps desk after)
    (callbacks : after.callbacks = desk.callbacks)
    (externalIds : after.installations.map InstallationRow.externalId =
      desk.installations.map InstallationRow.externalId)
    (ids : after.installations.map InstallationRow.id = desk.installations.map InstallationRow.id)
    (links : ∀ i userId organizationId externalId id token,
      Entry.linked i userId organizationId externalId id token ∈ after.journal →
        Entry.linked i userId organizationId externalId id token ∈ desk.journal) :
    OwnersSound after :=
  sound.of_sublist keeps externalIds ids (callbacks ▸ .refl _) (callbacks ▸ .refl _)
    (fun _ member _ _ _ _ => .inl (callbacks ▸ member)) links

theorem OwnersSound.step {event : LinkEvent} (sound : OwnersSound desk)
    (taken : linkStep hmac desk event = some after) : OwnersSound after ∧ Keeps desk after := by
  cases event with
  | start userId organizationId installationId =>
    rw [linkStep] at taken
    split at taken
    · cases taken
      exact ⟨sound.of_same (.of_same rfl) rfl rfl rfl fun _ _ _ _ _ _ member => member,
        .of_same rfl⟩
    · cases taken
  | startAct index act =>
    obtain ⟨start, found, acts⟩ := Option.bind_eq_some_iff.mp taken
    obtain ⟨callbacks, installations, _, _, entries, journal, started⟩ := actStart_frame acts
    have keeps : Keeps desk after := .of_same installations
    refine ⟨sound.of_same keeps callbacks (congrArg _ installations) (congrArg _ installations)
      fun i userId organizationId externalId id token member => ?_, keeps⟩
    rw [journal] at member
    rcases List.mem_append.mp member with old | new
    · exact old
    · obtain ⟨claim, createdAt, same⟩ := started _ new
      cases same
  | arrive session query =>
    rw [linkStep] at taken
    split at taken
    · cases taken
      rcases @arrive_eq hmac desk session query with same | ⟨userId, claim, request, joined⟩
      · rw [same]
        exact ⟨sound, .of_same rfl⟩
      · rw [joined]
        refine ⟨sound.of_sublist (.of_same rfl) rfl rfl ?_ ?_ (fun other member _ _ _ saving => ?_)
          fun _ _ _ _ _ _ member => member, .of_same rfl⟩
        · rw [List.filterMap_append]
          exact (List.append_nil _).symm ▸ .refl _
        · rw [List.filterMap_append]
          exact (List.append_nil _).symm ▸ .refl _
        · rcases List.mem_append.mp member with old | new
          · exact .inl old
          · rw [List.mem_singleton.mp new] at saving
            cases saving
    · cases taken
  | callbackAct index act =>
    obtain ⟨callback, found, acts⟩ := Option.bind_eq_some_iff.mp taken
    exact sound.moved found (moved_of_act acts)
  | _ =>
    have aside := aside_of_step taken trivial
    obtain ⟨change, installations, kept⟩ := aside.installations
    obtain ⟨entries, journal, renewals⟩ := aside.journal
    have same := identifiers_of_map installations kept
    have keeps : Keeps desk after := .of_map installations kept
    refine ⟨sound.of_same keeps aside.callbacks same.1 same.2
      fun i userId organizationId externalId id token member => ?_, keeps⟩
    rw [journal] at member
    rcases List.mem_append.mp member with old | new
    · exact old
    · obtain ⟨_, _, _, _, same⟩ := renewals _ new
      cases same

theorem OwnersSound.run {schedule : List LinkEvent} (sound : OwnersSound desk)
    (reached : run (linkStep hmac) desk schedule = some after) :
    OwnersSound after ∧ Keeps desk after := by
  have single : ∀ (middle : LinkDesk) (event : LinkEvent) (next : LinkDesk),
      OwnersSound middle ∧ Keeps desk middle → linkStep hmac middle event = some next →
        OwnersSound next ∧ Keeps desk next := by
    intro middle event next before taken
    obtain ⟨later, keeps⟩ := before.1.step taken
    exact ⟨later, fun id organizationId externalId stored =>
      keeps _ _ _ (before.2 id organizationId externalId stored)⟩
  exact run_invariant single ⟨sound, .of_same rfl⟩ reached

/-! ## Owners -/

/-- An identifier is that of one row. -/
theorem OwnersSound.unique (sound : OwnersSound desk) {id organizationId otherOrganization
    externalId otherExternal : Text} (first : Stored desk id organizationId externalId)
    (second : Stored desk id otherOrganization otherExternal) :
    organizationId = otherOrganization ∧ externalId = otherExternal := by
  obtain ⟨row, member, same, rfl, rfl⟩ := first
  obtain ⟨other, known, alike, rfl, rfl⟩ := second
  have distinct := (List.nodup_append.mp sound.distinctIds).1
  have one := List.inj_on_of_nodup_map distinct member known (same.trans alike.symm)
  exact one ▸ ⟨rfl, rfl⟩

/-- What was linked with the external identifier of a row was linked to that row. -/
theorem OwnersSound.linked_to_row (sound : OwnersSound desk) {row : InstallationRow}
    (member : row ∈ desk.installations) {i : ℕ} {userId organizationId id : Text} {token : ℕ}
    (linked : Entry.linked i userId organizationId row.externalId id token ∈ desk.journal) :
    id = row.id ∧ organizationId = row.organizationId := by
  obtain ⟨other, known, rfl, rfl, same⟩ := sound.links _ _ _ _ _ _ linked
  have distinct := (List.nodup_append.mp sound.distinctExternals).1
  have one := List.inj_on_of_nodup_map distinct member known same.symm
  exact one ▸ ⟨rfl, rfl⟩

/-- A link has its row. -/
theorem OwnersSound.row_of_linked (sound : OwnersSound desk) {i : ℕ}
    {userId organizationId externalId id : Text} {token : ℕ}
    (linked : Entry.linked i userId organizationId externalId id token ∈ desk.journal) :
    ∃ row ∈ desk.installations, row.externalId = externalId ∧ row.id = id ∧
      row.organizationId = organizationId := by
  obtain ⟨row, member, same, organization, external⟩ := sound.links _ _ _ _ _ _ linked
  exact ⟨row, member, external, same, organization⟩

/-- **An installation keeps its organization**: in every run, an installation of the provider has
one row at most; all that was linked with its external identifier has been linked to that row, and
for its organization; and a row that is stored is still stored after any other steps, with its
organization and its external identifier. -/
theorem installations_keep_organization {clock : ℤ} {earlier later : List LinkEvent}
    (before : run (linkStep hmac) (LinkDesk.empty clock) earlier = some desk)
    (reached : run (linkStep hmac) desk later = some after) :
    (after.installations.map InstallationRow.externalId).Nodup ∧
      (∀ i userId organizationId externalId id token,
        Entry.linked i userId organizationId externalId id token ∈ after.journal →
          (∃ row ∈ after.installations, row.externalId = externalId) ∧
          ∀ row ∈ after.installations, row.externalId = externalId →
            id = row.id ∧ organizationId = row.organizationId) ∧
      ∀ row ∈ desk.installations, ∃ kept ∈ after.installations, kept.id = row.id ∧
        kept.organizationId = row.organizationId ∧ kept.externalId = row.externalId := by
  have sound := ((OwnersSound.empty clock).run before).1
  obtain ⟨later, keeps⟩ := sound.run reached
  refine ⟨(List.nodup_append.mp later.distinctExternals).1,
    fun i userId organizationId externalId id token linked => ⟨?_, ?_⟩, fun row member => ?_⟩
  · obtain ⟨row, member, same, _⟩ := later.row_of_linked linked
    exact ⟨row, member, same⟩
  · rintro row member rfl
    exact later.linked_to_row member linked
  · exact keeps _ _ _ ⟨row, member, rfl, rfl, rfl⟩

/-- The installation of the flow, after it is deleted. -/
def deletedDesk : LinkDesk :=
  { someDesk with installations := [{ someRow with status := .deleted }] }

theorem someRow_keeps_organization :
    (deletedDesk.installations.map InstallationRow.externalId).Nodup ∧
      (∀ i userId organizationId externalId id token,
        Entry.linked i userId organizationId externalId id token ∈ deletedDesk.journal →
          (∃ row ∈ deletedDesk.installations, row.externalId = externalId) ∧
          ∀ row ∈ deletedDesk.installations, row.externalId = externalId →
            id = row.id ∧ organizationId = row.organizationId) ∧
      ∀ row ∈ someDesk.installations, ∃ kept ∈ deletedDesk.installations, kept.id = row.id ∧
        kept.organizationId = row.organizationId ∧ kept.externalId = row.externalId :=
  @installations_keep_organization someHmac someDesk deletedDesk 0 someFlow
    [.deliver (Text.lit "4711") .deleted, .status 0] someFlow_reaches rfl

end Koklo.Installation
