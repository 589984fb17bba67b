import Koklo.Crypto.KeyRing
import Koklo.Foundations.Runs

/-!
# The rotation of the encryption key

A rotation reads the rows of a table that are not under the current key, then those that are, and
encrypts each of the first ones again. It writes a row only if the row still holds what was read, so
that a write made meanwhile stays. Between two of its steps rows may be written or removed by
others, and it may stop anywhere.
-/

set_option autoImplicit false

namespace Koklo.Crypto

open Koklo.Foundations

/-- The two tables whose secrets are rotated. -/
inductive RotationTableKey where
  | llm | userTokens
deriving DecidableEq

/-- A row of `llm_provider_credentials`, with its organisation and provider, or of
`provider_user_credentials`, with its user and installation. -/
structure StoredRow where
  table : RotationTableKey
  owner : Text × Text
  secret : EncryptedSecret
deriving DecidableEq

/-- The associated data, from the columns of the row. -/
def StoredRow.aad (row : StoredRow) : Text :=
  match row.table with
  | .llm => Text.lit "llm:v1:" ++ row.owner.1 ++ Text.lit ":" ++ row.owner.2
  | .userTokens => row.owner.1 ++ Text.lit ":" ++ row.owner.2

/-- The CHECK constraints of the tables and the range of `key_version`. -/
def admits (table : RotationTableKey) (secret : EncryptedSecret) : Bool :=
  decide (secret.nonce.length = nonceBytes) && decide (1 ≤ secret.keyVersion) &&
    decide (secret.keyVersion ≤ 2 ^ 31 - 1) && decide (tagBytes < secret.ciphertext.length) &&
    (decide (table ≠ .llm) || decide (secret.ciphertext.length ≤ 2064))

/-- A row, and the plaintext that was last written in it, as far as it is known. -/
structure Entry where
  row : StoredRow
  plaintext : Option Text
deriving DecidableEq

/-- The counts of a table, with the rows that are counted as rotated. -/
structure TableRotationReport where
  scanned : ℕ
  rotated : List ℕ
  alreadyCurrent : ℕ
  failed : ℕ
  conflicts : ℕ
deriving DecidableEq

/-- Where a rotation stands. -/
inductive RotationPhase where
  /-- Without a previous key, the tables must have no other rows than current ones. -/
  | checking (tables : List RotationTableKey)
  | listing (table : RotationTableKey)
  | listed (table : RotationTableKey) (outdated : List (ℕ × StoredRow))
  | looping (table : RotationTableKey) (rows : List (ℕ × StoredRow)) (counts : TableRotationReport)
  /-- A row is encrypted again, and about to be written. -/
  | swapping (table : RotationTableKey) (id : ℕ) (row : StoredRow) (next : EncryptedSecret)
      (rows : List (ℕ × StoredRow)) (counts : TableRotationReport)
  | finished
  /-- `RotationConfigError`. -/
  | refused
  | crashed
deriving DecidableEq

/-- The rows by their identifiers, in their order, without those that were removed. -/
structure CryptoState where
  rows : List (Option Entry)
  phase : RotationPhase
  reports : List TableRotationReport
deriving DecidableEq

section

variable (aes : Aes) (ring : KeyRing) (dryRun : Bool)

/-- The rows of a table whose version passes a test. -/
def CryptoState.list (state : CryptoState) (table : RotationTableKey) (test : ℤ → Bool) :
    List (ℕ × StoredRow) :=
  state.rows.zipIdx.filterMap fun (entry, id) => entry.bind fun entry =>
    if entry.row.table = table ∧ test entry.row.secret.keyVersion = true then some (id, entry.row)
    else none

/-- The rows of a table that are not under the current key. -/
def CryptoState.listOutdated (state : CryptoState) (table : RotationTableKey) :
    List (ℕ × StoredRow) :=
  state.list table fun version => version ≠ ring.current.version

/-- The rows of a table that are under the current key. -/
def CryptoState.listCurrent (state : CryptoState) (table : RotationTableKey) :
    List (ℕ × StoredRow) :=
  state.list table fun version => version = ring.current.version

/-- The rows already current are decrypted, and nothing is written. -/
def verifyCurrent (outdated current : List (ℕ × StoredRow)) : TableRotationReport where
  scanned := outdated.length + current.length
  rotated := []
  alreadyCurrent := current.countP fun found =>
    (ring.decrypt aes found.2.secret found.2.aad).isSome
  failed := current.countP fun found => !(ring.decrypt aes found.2.secret found.2.aad).isSome
  conflicts := 0

/-- A row that still holds what was read. -/
def stillHolds (row : StoredRow) (entry : Option Entry) : Bool :=
  entry.any fun entry => entry.row.table = row.table ∧ entry.row.secret = row.secret

/-- `swap`, when the row still holds what was read. -/
def CryptoState.writeSecret (state : CryptoState) (id : ℕ) (next : EncryptedSecret) :
    List (Option Entry) :=
  state.rows.modify id (Option.map fun entry =>
    { entry with row := { entry.row with secret := next } })

/-- The row is still stored as it was listed. -/
def CryptoState.holds (state : CryptoState) (id : ℕ) (row : StoredRow) : Bool :=
  state.rows[id]?.any (stillHolds row)

/-- What follows the rows of a table. -/
def CryptoState.endTable (state : CryptoState) (table : RotationTableKey)
    (counts : TableRotationReport) : CryptoState where
  rows := state.rows
  phase := match table with
    | .llm => .listing .userTokens
    | .userTokens => .finished
  reports := state.reports ++ [counts]

/-- The next row is decrypted, and encrypted again with the current key. -/
def nextRow (table : RotationTableKey) (id : ℕ) (row : StoredRow) (rows : List (ℕ × StoredRow))
    (counts : TableRotationReport) (nonce : List Byte) : RotationPhase :=
  match ring.decrypt aes row.secret row.aad with
  | none => .looping table rows { counts with failed := counts.failed + 1 }
  | some plaintext =>
    if dryRun then .looping table rows { counts with rotated := counts.rotated ++ [id] }
    else .swapping table id row (ring.encrypt aes nonce plaintext row.aad) rows counts

/-- The compare-and-set of a row. -/
def CryptoState.swap (state : CryptoState) (table : RotationTableKey) (id : ℕ) (row : StoredRow)
    (next : EncryptedSecret) (rows : List (ℕ × StoredRow)) (counts : TableRotationReport) :
    CryptoState :=
  if state.holds id row = false then
    { state with phase := .looping table rows { counts with conflicts := counts.conflicts + 1 } }
  else if admits table next then
    { state with
      rows := state.writeSecret id next
      phase := .looping table rows { counts with rotated := counts.rotated ++ [id] } }
  else { state with phase := .looping table rows { counts with failed := counts.failed + 1 } }

/-- The next step of the rotation. -/
def CryptoState.advance (state : CryptoState) (nonce : List Byte) : Option CryptoState :=
  match state.phase with
  | .checking [] => some { state with phase := .listing .llm }
  | .checking (table :: tables) =>
    if state.listOutdated ring table = [] then some { state with phase := .checking tables }
    else some { state with phase := .refused }
  | .listing table =>
    some { state with phase := .listed table (state.listOutdated ring table) }
  | .listed table outdated =>
    let counts := verifyCurrent aes ring outdated (state.listCurrent ring table)
    some { state with phase := .looping table outdated counts }
  | .looping table [] counts => some (state.endTable table counts)
  | .looping table ((id, row) :: rows) counts =>
    if nonce.length = nonceBytes then
      some { state with phase := nextRow aes ring dryRun table id row rows counts nonce }
    else none
  | .swapping table id row next rows counts => some (state.swap table id row next rows counts)
  | .finished => none
  | .refused => none
  | .crashed => none

/-- A write of a row fails, after it was made or not. -/
def CryptoState.swapFails (state : CryptoState) (made : Bool) : Option CryptoState :=
  match state.phase with
  | .swapping table id row next rows counts =>
    let counted := RotationPhase.looping table rows { counts with failed := counts.failed + 1 }
    if made && state.holds id row && admits table next then
      some { state with rows := state.writeSecret id next, phase := counted }
    else some { state with phase := counted }
  | _ => none

/-- A normal write: the row of the owner is written in place, or a new one is made. -/
def CryptoState.save (state : CryptoState) (table : RotationTableKey) (owner : Text × Text)
    (plaintext : Text) (nonce : List Byte) : CryptoState :=
  let secret := ring.encrypt aes nonce plaintext (StoredRow.mk table owner ⟨[], [], 0⟩).aad
  let entry : Entry := ⟨⟨table, owner, secret⟩, some (Text.carried plaintext)⟩
  let mine : Option Entry → Bool := fun known =>
    known.any fun known => known.row.table = table ∧ known.row.owner = owner
  if admits table secret = false then state
  else if state.rows.any mine then
    { state with rows := state.rows.map fun known => if mine known then some entry else known }
  else { state with rows := state.rows ++ [some entry] }

/-- What can happen: a step of the rotation, and the writes of the other processes. -/
inductive CryptoEvent where
  | advance (nonce : List Byte)
  | swapFails (made : Bool)
  | crash
  | save (table : RotationTableKey) (owner : Text × Text) (plaintext : Text) (nonce : List Byte)
  | remove (id : ℕ)

/-- The steps of the rotation itself. -/
def CryptoEvent.ofRotation : CryptoEvent → Bool
  | advance _ => true
  | swapFails _ => true
  | crash => true
  | save _ _ _ _ => false
  | remove _ => false

/-- The step of an event. -/
def cryptoStep (state : CryptoState) : CryptoEvent → Option CryptoState
  | .advance nonce => state.advance aes ring dryRun nonce
  | .swapFails made => state.swapFails made
  | .crash => some { state with phase := .crashed }
  | .save table owner plaintext nonce =>
    if nonce.length = nonceBytes then some (state.save aes ring table owner plaintext nonce)
    else none
  | .remove id => some { state with rows := state.rows.set id none }

/-- A rotation that starts on any tables: what a row holds is what the ring reads in it. -/
def startRotation (rows : List StoredRow) : CryptoState where
  rows := rows.map fun row => some ⟨row, ring.decrypt aes row.secret row.aad⟩
  phase := if ring.previous = [] then .checking [.llm, .userTokens] else .listing .llm
  reports := []

end

end Koklo.Crypto
