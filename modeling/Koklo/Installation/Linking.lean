import Koklo.Installation.AuthState
import Koklo.Foundations.Replacement
import Koklo.Members.Authority

/-!
# Linking installations

A manager starts a flow for an organization: a state is signed and its row kept for ten minutes. The
browser comes back from the provider with a state, an installation and a code. The callback reads
the state, consumes its row, checks that the user manages the organization, exchanges the code,
looks for the installation among those the token sees and asks for the role of the user for its
owner; only then are the installation, its credentials and the audit written, in one transaction
that is tried twice when it meets a unique violation.

Starts and callbacks of any users interleave at each of their statements and requests, with any
answers of the provider, failures anywhere, and commits whose answer is lost. The journal keeps what
was done, in order. Signatures are not forged: the states that come back and are read as a claim
have a payload that was signed (`Hmac.unforged`).

Two other writers of these rows interleave with them. A webhook reads the status of an installation,
and writes another one later, whatever the status is then. A request that creates a repository for
an account of a user reads the token of that user, which the provider may renew, and keeps the
renewed one later.
-/

set_option autoImplicit false

namespace Koklo.Installation

open Koklo.Foundations Koklo.Members

/-! ## Rows -/

/-- The kind of account that owns an installation. -/
inductive OwnerKind where
  | user | organization
deriving DecidableEq

/-- The status of an installation, which webhooks change. -/
inductive InstallationStatus where
  | active | suspended | deleted
deriving DecidableEq

/-- A row of `provider_installations`, of the one provider. -/
structure InstallationRow where
  id : Text
  organizationId : Text
  externalId : Text
  ownerKind : OwnerKind
  ownerLogin : Text
  status : InstallationStatus
deriving DecidableEq

/-- A row of `provider_auth_states`. -/
structure StateRow where
  organizationId : Text
  userId : Text
  installationId : Option Text
  nonce : Text
  expiresAt : ℤ
  consumedAt : Option ℤ
deriving DecidableEq

/-- A row of `provider_user_credentials`, with its credentials in the clear. -/
structure CredentialRow where
  organizationId : Text
  userId : Text
  installationId : Text
  token : ℕ
deriving DecidableEq

/-- An installation that a user token sees. -/
structure UserInstallation where
  externalId : Text
  ownerKind : OwnerKind
  ownerLogin : Text
deriving DecidableEq

/-- The link of the user of a token with the owner of an installation. -/
inductive UserOwnerRole where
  | self | admin | member | none
deriving DecidableEq

/-- Only the personal account itself and an active administrator prove ownership. -/
def provesOwnership : OwnerKind → UserOwnerRole → Bool
  | .user, role => role = .self
  | .organization, role => role = .admin

/-! ## Starts -/

/-- A state expires ten minutes after it is created. -/
def stateTtlMs : ℤ := 10 * 60 * 1000

/-- How many flows of a user may be pending. -/
def maxPendingStates : ℕ := 20

/-- What a start is answered. -/
inductive StartAnswer where
  | created | notFound | tooManyPending | failed
deriving DecidableEq

/-- How far a start is; its claim and the instant of its creation are known once it is issued. -/
inductive StartPhase where
  | finding
  | issuing
  | purging (claim : StateClaim) (createdAt : ℤ)
  | counting (claim : StateClaim) (createdAt : ℤ)
  | creating (claim : StateClaim) (createdAt : ℤ)
  | ended (answer : StartAnswer)
deriving DecidableEq

/-- The start of a flow by a user, for an organization, maybe to authorize an installation again. -/
structure Start where
  userId : Text
  organizationId : Text
  installationId : Option Text
  phase : StartPhase
deriving DecidableEq

/-! ## Callbacks -/

/-- What a callback is answered. -/
inductive CallbackOutcome where
  | installed | denied | invalidState | alreadyLinked | notOwner | providerError
deriving DecidableEq

/-- What the browser brings back. -/
structure CallbackQuery where
  state : Text
  installationId : Option Text
  code : Option Text
deriving DecidableEq

/-- What proves an installation: the code, the token it gave, the installations that the token
sees, the one to link and the role of the user for its owner. -/
structure Proof where
  code : Text
  token : ℕ
  visible : List UserInstallation
  proven : UserInstallation
  role : UserOwnerRole
deriving DecidableEq

/-- How far a callback is. -/
inductive CallbackPhase where
  | consuming
  | confirming (installationId : Option Text)
  | targeting (installationId : Option Text)
  | exchanging (target code : Text)
  | listing (target code : Text) (token : ℕ)
  | owning (code : Text) (token : ℕ) (visible : List UserInstallation) (proven : UserInstallation)
  /-- The attempt reads who has the installation. -/
  | linking (again : Bool) (proof : Proof)
  | inserting (again : Bool) (proof : Proof)
  /-- The installation is inserted or updated, and the transaction open. -/
  | saving (again : Bool) (proof : Proof) (id : Text) (isNew : Bool)
  | refusing (outcome : CallbackOutcome)
  | ended (outcome : CallbackOutcome)
deriving DecidableEq

/-- A callback whose state was read as a claim of the user of its session. -/
structure Callback where
  userId : Text
  claim : StateClaim
  query : CallbackQuery
  arrivedAt : ℤ
  phase : CallbackPhase
deriving DecidableEq

/-! ## Other writers -/

/-- A webhook that has read an installation, and is about to write its status. -/
structure StatusChange where
  id : Text
  status : InstallationStatus
deriving DecidableEq

/-- A request that creates a repository: it has read its installation, and then the provider has
renewed the token of its user. -/
structure Renewal where
  organizationId : Text
  userId : Text
  installationId : Text
  renewed : Option ℕ
deriving DecidableEq

/-- What was done, in order; callbacks are numbered as they come. -/
inductive Entry where
  | started (claim : StateClaim) (createdAt : ℤ)
  | consumed (callback : ℕ) (nonce : Text) (now : ℤ)
  | confirmed (callback : ℕ) (userId organizationId : Text)
  | exchanged (callback : ℕ) (code : Text) (token : ℕ)
  | listed (callback : ℕ) (token : ℕ) (visible : List UserInstallation)
  | owned (callback : ℕ) (token : ℕ) (ownerKind : OwnerKind) (ownerLogin : Text)
    (role : UserOwnerRole)
  | linked (callback : ℕ) (userId organizationId externalId id : Text) (token : ℕ)
  | renewed (userId installationId : Text) (former token : ℕ)
deriving DecidableEq

/-- The rows of the database, the requests that go on, and what was done. -/
structure LinkDesk where
  clock : ℤ
  states : List StateRow
  installations : List InstallationRow
  credentials : List CredentialRow
  starts : List Start
  callbacks : List Callback
  changes : List StatusChange
  renewals : List Renewal
  /-- The claims that were signed. -/
  issued : List StateClaim
  journal : List Entry
deriving DecidableEq

/-- Nothing has been done. -/
def LinkDesk.empty (clock : ℤ) : LinkDesk := ⟨clock, [], [], [], [], [], [], [], [], []⟩

/-- The next statement or request of a start. -/
inductive StartAct where
  | find
  | issue (nonce : List Byte)
  | purge
  | count
  | create
  | fail
deriving DecidableEq

/-- What the provider answers to a code. -/
inductive ExchangeAnswer where
  | token (token : ℕ)
  | invalidCode
  | failed
deriving DecidableEq

/-- The next statement or request of a callback, with what it is answered. -/
inductive CallbackAct where
  | consume (answered : Bool)
  | confirm (role : Option Role)
  | target
  | exchange (answer : ExchangeAnswer)
  | list (answer : Option (List UserInstallation))
  | own (answer : Option UserOwnerRole)
  | find
  | insert (id : Text)
  /-- The credentials meet a unique violation. -/
  | conflict
  | commit (answered : Bool)
  | record
  | fail
deriving DecidableEq

/-- A step of a request, of a webhook or of the clock. -/
inductive LinkEvent where
  | tick (elapsed : ℕ)
  /-- A webhook reads an installation, and decides to change its status. -/
  | deliver (externalId : Text) (status : InstallationStatus)
  /-- A webhook writes the status that it decided. -/
  | status (change : ℕ)
  /-- A request to create a repository reads its installation. -/
  | plan (organizationId userId installationId : Text)
  /-- It reads the token of its user, and the provider answers with a token. -/
  | renew (renewal : ℕ) (token : ℕ)
  /-- A request keeps the renewed token. -/
  | keep (renewal : ℕ)
  | start (userId organizationId : Text) (installationId : Option Text)
  | startAct (start : ℕ) (act : StartAct)
  /-- A callback, with the user of its session and its query when it has the right form. -/
  | arrive (session : Option Text) (query : Option CallbackQuery)
  | callbackAct (callback : ℕ) (act : CallbackAct)
deriving DecidableEq

/-! ## Steps of a start -/

namespace LinkDesk

/-- A start goes on. -/
def setStart (desk : LinkDesk) (index : ℕ) (start : Start) (phase : StartPhase) : LinkDesk :=
  { desk with starts := desk.starts.set index { start with phase } }

/-- An installation of the organization. -/
def findInstallation (desk : LinkDesk) (organizationId id : Text) : Option InstallationRow :=
  desk.installations.find? fun row => row.organizationId = organizationId ∧ row.id = id

/-- States of the user that are neither consumed nor expired, in any organization. -/
def pendingOf (userId : Text) (now : ℤ) (row : StateRow) : Bool :=
  row.userId = userId ∧ row.consumedAt = none ∧ now < row.expiresAt

/-- The row of a claim. -/
def stateRow (claim : StateClaim) (createdAt : ℤ) : StateRow where
  organizationId := claim.organizationId
  userId := claim.userId
  installationId := claim.installationId
  nonce := claim.nonce
  expiresAt := createdAt + stateTtlMs
  consumedAt := none

/-- A step of a start. -/
def actStart (desk : LinkDesk) (index : ℕ) (start : Start) : StartAct → Option LinkDesk
  | .find =>
    if start.phase = .finding then
      match start.installationId with
      | none => some (desk.setStart index start .issuing)
      | some id =>
        match desk.findInstallation start.organizationId id with
        | none => some (desk.setStart index start (.ended .notFound))
        | some row =>
          if row.status = .deleted then some (desk.setStart index start (.ended .notFound))
          else some (desk.setStart index start .issuing)
    else none
  | .issue nonce =>
    let claim : StateClaim :=
      ⟨Text.base64url nonce, start.userId, start.organizationId, start.installationId⟩
    -- Random bytes that were not drawn before.
    if start.phase = .issuing ∧ nonce.length = nonceBytes ∧
        claim.nonce ∉ desk.issued.map StateClaim.nonce then
      some { desk.setStart index start (.purging claim desk.clock) with
        issued := desk.issued ++ [claim]
        journal := desk.journal ++ [.started claim desk.clock] }
    else none
  | .purge =>
    match start.phase with
    | .purging claim createdAt =>
      some { desk.setStart index start (.counting claim createdAt) with
        states := desk.states.filter fun row =>
          !(row.userId = start.userId && row.expiresAt < createdAt) }
    | _ => none
  | .count =>
    match start.phase with
    | .counting claim createdAt =>
      if maxPendingStates ≤ desk.states.countP (pendingOf start.userId createdAt) then
        some (desk.setStart index start (.ended .tooManyPending))
      else some (desk.setStart index start (.creating claim createdAt))
    | _ => none
  | .create =>
    match start.phase with
    | .creating claim createdAt =>
      some { desk.setStart index start (.ended .created) with
        states := (desk.states.filter fun row =>
          !(row.organizationId = start.organizationId && row.expiresAt < createdAt)) ++
            [stateRow claim createdAt] }
    | _ => none
  | .fail =>
    match start.phase with
    | .ended _ => none
    | _ => some (desk.setStart index start (.ended .failed))

/-! ## Steps of a callback -/

/-- A callback goes on. -/
def setCallback (desk : LinkDesk) (index : ℕ) (callback : Callback) (phase : CallbackPhase) :
    LinkDesk :=
  { desk with callbacks := desk.callbacks.set index { callback with phase } }

/-- A callback goes on, and what it has done is noted. -/
def advance (desk : LinkDesk) (index : ℕ) (callback : Callback) (phase : CallbackPhase)
    (entry : Entry) : LinkDesk :=
  { desk.setCallback index callback phase with journal := desk.journal ++ [entry] }

/-- The row that a callback consumes: that of its claim and of its user, in the organization of the
claim, neither consumed nor expired. -/
def consumable (callback : Callback) (row : StateRow) : Bool :=
  row.organizationId = callback.claim.organizationId ∧ row.nonce = callback.claim.nonce ∧
    row.userId = callback.userId ∧ row.consumedAt = none ∧ callback.arrivedAt < row.expiresAt

/-- One conditional update: the row is consumed, and answered. -/
def consume (desk : LinkDesk) (index : ℕ) (callback : Callback) (answered : Bool) : LinkDesk :=
  match desk.states.find? (consumable callback) with
  | none => desk.setCallback index callback (.ended .invalidState)
  | some found =>
    { desk.advance index callback
        (if answered then .confirming found.installationId else .ended .providerError)
        (.consumed index callback.claim.nonce callback.arrivedAt) with
      states := desk.states.map fun row =>
        if consumable callback row then { row with consumedAt := some callback.arrivedAt }
        else row }

/-- What there is to prove. -/
inductive Target where
  | invalidState
  | nothing
  | external (id : Text)
deriving DecidableEq

/-- The external identifier to prove. -/
def targetOf (desk : LinkDesk) (callback : Callback) : Option Text → Target
  | none => match callback.query.installationId with
    | none => .nothing
    | some id => .external id
  | some id => match desk.findInstallation callback.claim.organizationId id with
    | none => .nothing
    | some known =>
      if known.status = .deleted then .nothing
      else match callback.query.installationId with
        | none => .external known.externalId
        | some wanted =>
          if wanted ≠ known.externalId then .invalidState else .external known.externalId

/-- An open transaction of another callback has inserted the external identifier. -/
def insertedBy (externalId : Text) (callback : Callback) : Bool :=
  match callback.phase with
  | .saving _ proof _ true => proof.proven.externalId = externalId
  | _ => false

/-- The identifier that an open transaction has given to a new installation. -/
def newId (callback : Callback) : Option Text :=
  match callback.phase with
  | .saving _ _ id true => some id
  | _ => none

/-- The phase after an attempt that met a unique violation. -/
def retried (again : Bool) (proof : Proof) : CallbackPhase :=
  if again then .ended .providerError else .linking true proof

/-- The row of a proven installation. -/
def installationRow (callback : Callback) (proof : Proof) (id : Text) : InstallationRow where
  id := id
  organizationId := callback.claim.organizationId
  externalId := proof.proven.externalId
  ownerKind := proof.proven.ownerKind
  ownerLogin := proof.proven.ownerLogin
  status := .active

/-- The installations after the transaction: one more, or the owner of one brought up to date. -/
def linkedInstallations (desk : LinkDesk) (callback : Callback) (proof : Proof) (id : Text)
    (isNew : Bool) : List InstallationRow :=
  if isNew then desk.installations ++ [installationRow callback proof id]
  else desk.installations.map fun row =>
    if row.id = id ∧ row.organizationId = callback.claim.organizationId then
      { row with ownerKind := proof.proven.ownerKind, ownerLogin := proof.proven.ownerLogin }
    else row

/-- The credentials when a token of a user is kept for an installation, in an organization. -/
def savedCredentials (desk : LinkDesk) (organizationId userId installationId : Text) (token : ℕ) :
    List CredentialRow :=
  if desk.credentials.any fun row => row.userId = userId ∧ row.installationId = installationId then
    desk.credentials.map fun row =>
      if row.userId = userId ∧ row.installationId = installationId then { row with token } else row
  else desk.credentials ++ [⟨organizationId, userId, installationId, token⟩]

/-- A step of a callback. -/
def actCallback (desk : LinkDesk) (index : ℕ) (callback : Callback) :
    CallbackAct → Option LinkDesk
  | .consume answered =>
    match callback.phase with
    | .consuming => some (desk.consume index callback answered)
    | _ => none
  | .confirm role =>
    match callback.phase, role with
    | .confirming installationId, some role =>
      if role ∈ managerRoles then
        some (desk.advance index callback (.targeting installationId)
          (.confirmed index callback.userId callback.claim.organizationId))
      else some (desk.setCallback index callback (.ended .denied))
    | .confirming _, none => some (desk.setCallback index callback (.ended .denied))
    | _, _ => none
  | .target =>
    match callback.phase with
    | .targeting installationId =>
      match desk.targetOf callback installationId, callback.query.code with
      | .invalidState, _ => some (desk.setCallback index callback (.ended .invalidState))
      | .nothing, _ => some (desk.setCallback index callback (.refusing .denied))
      | .external _, none => some (desk.setCallback index callback (.refusing .denied))
      | .external target, some code =>
        some (desk.setCallback index callback (.exchanging target code))
    | _ => none
  | .exchange answer =>
    match callback.phase, answer with
    | .exchanging target code, .token token =>
      some (desk.advance index callback (.listing target code token)
        (.exchanged index code token))
    | .exchanging _ _, .invalidCode => some (desk.setCallback index callback (.refusing .denied))
    | .exchanging _ _, .failed => some (desk.setCallback index callback (.ended .providerError))
    | _, _ => none
  | .list answer =>
    match callback.phase, answer with
    | .listing target code token, some visible =>
      match visible.find? fun candidate => candidate.externalId = target with
      | none => some (desk.setCallback index callback (.refusing .denied))
      | some proven =>
        some (desk.advance index callback (.owning code token visible proven)
          (.listed index token visible))
    | .listing _ _ _, none => some (desk.setCallback index callback (.ended .providerError))
    | _, _ => none
  | .own answer =>
    match callback.phase, answer with
    | .owning code token visible proven, some role =>
      if provesOwnership proven.ownerKind role then
        some (desk.advance index callback (.linking false ⟨code, token, visible, proven, role⟩)
          (.owned index token proven.ownerKind proven.ownerLogin role))
      else some (desk.setCallback index callback (.refusing .notOwner))
    | .owning _ _ _ _, none => some (desk.setCallback index callback (.ended .providerError))
    | _, _ => none
  | .find =>
    match callback.phase with
    | .linking again proof =>
      match desk.installations.find? fun row => row.externalId = proof.proven.externalId with
      | none => some (desk.setCallback index callback (.inserting again proof))
      | some existing =>
        if existing.organizationId ≠ callback.claim.organizationId then
          some (desk.setCallback index callback (.refusing .alreadyLinked))
        else some (desk.setCallback index callback (.saving again proof existing.id false))
    | _ => none
  | .insert id =>
    match callback.phase with
    | .inserting again proof =>
      if id ∈ desk.installations.map InstallationRow.id ∨
          id ∈ desk.callbacks.filterMap newId then none
      -- The insert waits for the transaction that holds the same external identifier.
      else if desk.callbacks.any (insertedBy proof.proven.externalId) then none
      else if desk.installations.any fun row => row.externalId = proof.proven.externalId then
        some (desk.setCallback index callback (retried again proof))
      else some (desk.setCallback index callback (.saving again proof id true))
    | _ => none
  | .conflict =>
    match callback.phase with
    | .saving again proof _ _ => some (desk.setCallback index callback (retried again proof))
    | _ => none
  | .commit answered =>
    match callback.phase with
    | .saving _ proof id isNew =>
      some { desk.advance index callback (.ended (if answered then .installed else .providerError))
          (.linked index callback.userId callback.claim.organizationId proof.proven.externalId id
            proof.token) with
        installations := desk.linkedInstallations callback proof id isNew
        credentials := desk.savedCredentials callback.claim.organizationId callback.userId id
          proof.token }
    | _ => none
  | .record =>
    match callback.phase with
    | .refusing outcome => some (desk.setCallback index callback (.ended outcome))
    | _ => none
  | .fail =>
    match callback.phase with
    | .refusing _ => none
    | .ended _ => none
    | _ => some (desk.setCallback index callback (.ended .providerError))

/-! ## Steps of the other writers -/

/-- The webhook has something to write for a known installation that is not deleted. -/
def deliver (desk : LinkDesk) (externalId : Text) (status : InstallationStatus) : LinkDesk :=
  match desk.installations.find? fun row => row.externalId = externalId with
  | none => desk
  | some row =>
    if row.status = .deleted ∨ row.status = status then desk
    else { desk with changes := desk.changes ++ [⟨row.id, status⟩] }

/-- The status is written, whatever it has become since it was read. -/
def changeStatus (desk : LinkDesk) (index : ℕ) (change : StatusChange) : LinkDesk :=
  { desk with
    installations := desk.installations.map fun row =>
      if row.id = change.id then { row with status := change.status } else row
    changes := desk.changes.eraseIdx index }

/-- The request needs the token of its user when a user owns the installation. -/
def plan (desk : LinkDesk) (organizationId userId installationId : Text) : LinkDesk :=
  match desk.findInstallation organizationId installationId with
  | none => desk
  | some row =>
    if row.status = .active ∧ row.ownerKind = .user then
      { desk with
        renewals := desk.renewals ++ [⟨organizationId, userId, installationId, none⟩] }
    else desk

/-- The token of the user for the installation, as the provider answers it. -/
def renew (desk : LinkDesk) (index : ℕ) (renewal : Renewal) (token : ℕ) : LinkDesk :=
  match desk.credentials.find? fun row => row.organizationId = renewal.organizationId ∧
      row.userId = renewal.userId ∧ row.installationId = renewal.installationId with
  | none => desk
  | some row =>
    if row.token = token then desk
    else { desk with
      renewals := desk.renewals.set index { renewal with renewed := some token }
      journal := desk.journal ++
        [.renewed renewal.userId renewal.installationId row.token token] }

/-- The renewed token is kept. -/
def keep (desk : LinkDesk) (index : ℕ) (renewal : Renewal) (token : ℕ) : LinkDesk :=
  { desk with
    credentials := desk.savedCredentials renewal.organizationId renewal.userId
      renewal.installationId token
    renewals := desk.renewals.eraseIdx index }

end LinkDesk

/-! ## Steps -/

/-- The state is not read as a claim, or its payload was signed. -/
def Hmac.unforged (hmac : Hmac) (issued : List StateClaim) (state : Text) : Bool :=
  (hmac.verify state).isNone ||
    issued.any fun claim => (state.splitOn dot).head? = some (payloadOf claim)

/-- A callback begins when its session and its state agree. -/
def LinkDesk.arrive (hmac : Hmac) (desk : LinkDesk) (session : Option Text)
    (query : Option CallbackQuery) : LinkDesk :=
  match session, query with
  | some userId, some query =>
    match hmac.verify query.state with
    | some claim =>
      if claim.userId = userId then
        { desk with callbacks := desk.callbacks ++ [⟨userId, claim, query, desk.clock, .consuming⟩] }
      else desk
    | none => desk
  | _, _ => desk

/-- What an event makes of the desk, none when it is not possible. -/
def linkStep (hmac : Hmac) (desk : LinkDesk) : LinkEvent → Option LinkDesk
  | .tick elapsed => some { desk with clock := desk.clock + elapsed }
  | .deliver externalId status => some (desk.deliver externalId status)
  | .status index => desk.changes[index]?.map fun change => desk.changeStatus index change
  | .plan organizationId userId installationId =>
    some (desk.plan organizationId userId installationId)
  | .renew index token =>
    match desk.renewals[index]? with
    | none => none
    | some renewal =>
      if renewal.renewed = none then some (desk.renew index renewal token) else none
  | .keep index => do
    let renewal ← desk.renewals[index]?
    let token ← renewal.renewed
    return desk.keep index renewal token
  | .start userId organizationId installationId =>
    if isUuid userId && isUuid organizationId && installationId.all isUuid then
      some { desk with starts := desk.starts ++
        [⟨userId, organizationId, installationId, .finding⟩] }
    else none
  | .startAct index act => desk.starts[index]?.bind fun start => desk.actStart index start act
  | .arrive session query =>
    if query.all fun query => hmac.unforged desk.issued query.state then
      some (desk.arrive hmac session query)
    else none
  | .callbackAct index act =>
    desk.callbacks[index]?.bind fun callback => desk.actCallback index callback act

end Koklo.Installation
