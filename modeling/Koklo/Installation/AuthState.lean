import Koklo.Foundations.BareJson
import Koklo.Foundations.JsonRoundTrip

/-!
# The signed state of the installation flow

The state that goes to the provider and comes back holds a claim: the nonce of its row, the user,
the organization and, to authorize again, the installation. It is the base64 of a JSON object, a dot
and the base64 of the HMAC of the former. A state that was issued is read back as its claim
(`verify_issue`), and a state is read only when it is a payload with its signature
(`signed_of_verify`): a state read as a claim that was never issued would be a forgery.
-/

set_option autoImplicit false

namespace Koklo.Installation

open Koklo.Foundations

/-- HMAC-SHA256 under the key of the flow: 32 bytes. -/
structure Hmac where
  digest : List Byte → List Byte
  size : ∀ message, (digest message).length = 32

/-- What a state says of the user who starts the flow. -/
structure StateClaim where
  nonce : Text
  userId : Text
  organizationId : Text
  /-- The installation to authorize again. -/
  installationId : Option Text
deriving DecidableEq

def nonceBytes : ℕ := 18

def maxStateLength : ℕ := 1024

def dot : CodeUnit := 0x2E

/-- `encode`, of a text. -/
def encodeText (value : Text) : Text := Text.base64url (Text.utf8 value)

/-- The signature of a payload, encoded. -/
def Hmac.sign (hmac : Hmac) (payload : Text) : Text :=
  Text.base64url (hmac.digest (Text.utf8 payload))

/-- What a state says, as it is written. -/
def stateBody (claim : StateClaim) : Data :=
  .record [(Text.lit "n", .text claim.nonce), (Text.lit "u", .text claim.userId),
    (Text.lit "o", .text claim.organizationId),
    (Text.lit "i", claim.installationId.elim .null .text)]

/-- The payload of a claim. -/
def payloadOf (claim : StateClaim) : Text := encodeText (Json.stringify (stateBody claim))

/-- The state of a claim. -/
def Hmac.issue (hmac : Hmac) (claim : StateClaim) : Text :=
  payloadOf claim ++ dot :: hmac.sign (payloadOf claim)

/-- The fields of JSON data; data of another kind has none of those that are looked up. -/
def fieldsOf : Data → OrderedMap Text Data
  | .record fields => fields
  | _ => []

/-- The claim of a payload, when it has its fields. -/
def claimOf (payload : Text) : Option StateClaim := do
  let raw ← Json.parse (Text.ofUtf8 (Text.base64 payload))
  let fields := fieldsOf raw
  match fields.get (Text.lit "n"), fields.get (Text.lit "u"), fields.get (Text.lit "o"),
      fields.get (Text.lit "i") with
  | some (.text nonce), some (.text userId), some (.text organizationId), some .null =>
    if isUuid userId && isUuid organizationId then some ⟨nonce, userId, organizationId, none⟩
    else none
  | some (.text nonce), some (.text userId), some (.text organizationId), some (.text id) =>
    if isUuid userId && isUuid organizationId && isUuid id then
      some ⟨nonce, userId, organizationId, some id⟩
    else none
  | _, _, _, _ => none

/-- The claim of a state that is signed. -/
def Hmac.verify (hmac : Hmac) (state : Text) : Option StateClaim :=
  if maxStateLength < state.length then none
  else
    match state.splitOn dot with
    | [payload, signature] =>
      if payload = [] ∨ signature = [] then none
      else if Text.utf8 (hmac.sign payload) = Text.utf8 signature then claimOf payload
      else none
    | _ => none

/-! ## Claims that are issued -/

/-- A claim as the flow makes it: 18 random bytes, and identifiers that are UUIDs. -/
structure StateClaim.Issuable (claim : StateClaim) : Prop where
  nonce : ∃ bytes : List Byte, bytes.length = nonceBytes ∧ claim.nonce = Text.base64url bytes
  user : isUuid claim.userId = true
  organization : isUuid claim.organizationId = true
  installation : ∀ id, claim.installationId = some id → isUuid id = true

variable {claim : StateClaim} {hmac : Hmac}

/-- What is written of a claim. -/
theorem stringify_stateBody (claim : StateClaim) : Json.stringify (stateBody claim) =
    0x7B :: (Text.jsonString (Text.lit "n") ++ 0x3A :: (Text.jsonString claim.nonce ++
      0x2C :: (Text.jsonString (Text.lit "u") ++ 0x3A :: (Text.jsonString claim.userId ++
        0x2C :: (Text.jsonString (Text.lit "o") ++ 0x3A ::
          (Text.jsonString claim.organizationId ++ 0x2C :: (Text.jsonString (Text.lit "i") ++
            0x3A :: Json.stringify (claim.installationId.elim .null .text)))))))) ++ [0x7D] := rfl

/-- The text of a bare value and its length. -/
theorem ascii_jsonString {t : Text} (bare : Text.IsBare t) :
    Text.IsAscii (Text.jsonString t) ∧ (Text.jsonString t).length = t.length + 2 := by
  rw [Text.jsonString_of_bare bare]
  refine ⟨fun u member => ?_, by simp⟩
  rcases List.mem_append.mp member with inside | last
  · rcases List.mem_cons.mp inside with rfl | inside
    · decide
    · exact bare.ascii u inside
  · rw [List.mem_singleton.mp last]
    decide

/-- The text of the last field and its length. -/
theorem ascii_installation (issuable : claim.Issuable) :
    Text.IsAscii (Json.stringify (claim.installationId.elim .null .text)) ∧
      (Json.stringify (claim.installationId.elim .null .text)).length ≤ 38 := by
  cases known : claim.installationId with
  | none =>
    refine ⟨fun u member => ?_, by decide⟩
    exact of_decide_eq_true (List.all_eq_true.mp (by decide :
      (Json.stringify (Option.elim none Data.null Data.text)).all (fun u => u.val < 0x80) = true)
        u member)
  | some id =>
    have uuid := issuable.installation id known
    obtain ⟨ascii, length⟩ := ascii_jsonString (Text.isBare_of_isUuid uuid)
    exact ⟨ascii, (length.trans (congrArg (· + 2) (Text.length_of_isUuid uuid))).le⟩

/-- **What is written of a claim** is ASCII and short. -/
theorem ascii_stateBody (issuable : claim.Issuable) :
    Text.IsAscii (Json.stringify (stateBody claim)) ∧
      (Json.stringify (stateBody claim)).length ≤ 163 := by
  obtain ⟨bytes, count, nonce⟩ := issuable.nonce
  obtain ⟨nonceAscii, nonceLength⟩ :=
    ascii_jsonString (nonce ▸ Text.isBare_base64url bytes : Text.IsBare claim.nonce)
  obtain ⟨userAscii, userLength⟩ := ascii_jsonString (Text.isBare_of_isUuid issuable.user)
  obtain ⟨organizationAscii, organizationLength⟩ :=
    ascii_jsonString (Text.isBare_of_isUuid issuable.organization)
  obtain ⟨lastAscii, lastLength⟩ := ascii_installation issuable
  have size : claim.nonce.length = 24 := by
    rw [nonce, (Text.base64url_digits bytes).2, count]
    rfl
  have user := Text.length_of_isUuid issuable.user
  have organization := Text.length_of_isUuid issuable.organization
  have name : ∀ u : CodeUnit, Text.isBareUnit u = true →
      Text.IsAscii (Text.jsonString [u]) ∧ (Text.jsonString [u]).length = 3 := fun u bare =>
    ascii_jsonString fun v member => List.mem_singleton.mp member ▸ bare
  obtain ⟨nAscii, nLength⟩ := name 0x6E (by decide)
  obtain ⟨uAscii, uLength⟩ := name 0x75 (by decide)
  obtain ⟨oAscii, oLength⟩ := name 0x6F (by decide)
  obtain ⟨iAscii, iLength⟩ := name 0x69 (by decide)
  have letters : Text.lit "n" = [0x6E] ∧ Text.lit "u" = [0x75] ∧ Text.lit "o" = [0x6F] ∧
      Text.lit "i" = [0x69] := by decide
  obtain ⟨n, u, o, i⟩ := letters
  rw [stringify_stateBody, n, u, o, i]
  constructor
  · simp only [Text.IsAscii, List.forall_mem_append, List.forall_mem_cons] at *
    refine ⟨⟨by decide, nAscii, by decide, nonceAscii, by decide, uAscii, by decide, userAscii,
      by decide, oAscii, by decide, organizationAscii, by decide, iAscii, by decide, lastAscii⟩,
      by decide, fun v member => absurd member List.not_mem_nil⟩
  · simp only [List.length_append, List.length_cons, List.length_nil]
    omega

/-- The fields of a claim, as they are read. -/
theorem parse_stateBody (issuable : claim.Issuable) :
    Json.parse (Text.ofUtf8 (Text.base64 (payloadOf claim))) = some (stateBody claim) := by
  have legible : Json.Legible (stateBody claim) := by
    have distinct : [Text.lit "n", Text.lit "u", Text.lit "o", Text.lit "i"].Nodup := by decide
    refine .record distinct ?_
    simp only [List.forall_mem_cons]
    refine ⟨.text _, .text _, .text _, ?_, fun field member => absurd member List.not_mem_nil⟩
    cases claim.installationId with
    | none => exact .null
    | some id => exact .text id
  rw [payloadOf, encodeText, Text.base64_base64url, Text.ofUtf8_utf8 (ascii_stateBody issuable).1,
    Json.parse_stringify legible]

/-- **A claim is read back** from its payload. -/
theorem claimOf_payloadOf (issuable : claim.Issuable) : claimOf (payloadOf claim) = some claim := by
  have read := parse_stateBody issuable
  have user := issuable.user
  have organization := issuable.organization
  have fields : ∀ data : Data,
      OrderedMap.get [(Text.lit "n", Data.text claim.nonce), (Text.lit "u", .text claim.userId),
        (Text.lit "o", .text claim.organizationId), (Text.lit "i", data)] (Text.lit "n") =
          some (.text claim.nonce) ∧
      OrderedMap.get [(Text.lit "n", Data.text claim.nonce), (Text.lit "u", .text claim.userId),
        (Text.lit "o", .text claim.organizationId), (Text.lit "i", data)] (Text.lit "u") =
          some (.text claim.userId) ∧
      OrderedMap.get [(Text.lit "n", Data.text claim.nonce), (Text.lit "u", .text claim.userId),
        (Text.lit "o", .text claim.organizationId), (Text.lit "i", data)] (Text.lit "o") =
          some (.text claim.organizationId) ∧
      OrderedMap.get [(Text.lit "n", Data.text claim.nonce), (Text.lit "u", .text claim.userId),
        (Text.lit "o", .text claim.organizationId), (Text.lit "i", data)] (Text.lit "i") =
          some data := fun data => ⟨rfl, rfl, rfl, rfl⟩
  rw [claimOf, read]
  obtain ⟨n, u, o, i⟩ := fields (claim.installationId.elim .null .text)
  simp only [Option.bind_eq_bind, Option.bind_some, fieldsOf, stateBody, n, u, o, i]
  obtain ⟨nonce, userId, organizationId, installationId⟩ := claim
  cases installationId with
  | none =>
    simp only [Option.elim_none, user, organization, Bool.and_self, if_true]
  | some id =>
    have uuid := issuable.installation id rfl
    simp only [Option.elim_some, user, organization, uuid, Bool.and_self, if_true]

/-! ## States -/

theorem not_mem_base64url (bytes : List Byte) : dot ∉ Text.base64url bytes := fun member =>
  ((Text.base64url_digits bytes).1 dot member).2 rfl

theorem length_sign (hmac : Hmac) (payload : Text) : (hmac.sign payload).length = 43 := by
  rw [Hmac.sign, (Text.base64url_digits _).2, hmac.size]

/-- A state cut at its dots. -/
theorem splitOn_issue (claim : StateClaim) :
    (hmac.issue claim).splitOn dot = [payloadOf claim, hmac.sign (payloadOf claim)] := by
  have whole : hmac.issue claim =
      [dot].intercalate [payloadOf claim, hmac.sign (payloadOf claim)] := by
    rw [List.intercalate_cons_cons, List.intercalate_singleton, Hmac.issue, List.append_assoc]
    rfl
  rw [whole]
  refine List.splitOn_intercalate dot ?_ (by simp)
  simp only [List.forall_mem_cons]
  exact ⟨not_mem_base64url _, not_mem_base64url _, fun _ member => absurd member List.not_mem_nil⟩

/-- A state that is issued is short. -/
theorem length_issue (issuable : claim.Issuable) : (hmac.issue claim).length ≤ 262 := by
  obtain ⟨ascii, short⟩ := ascii_stateBody issuable
  have bytes : (Text.utf8 (Json.stringify (stateBody claim))).length ≤ 163 := by
    rw [Text.utf8_ascii ascii, List.length_map]
    exact short
  have payload : (payloadOf claim).length ≤ 218 := by
    rw [payloadOf, encodeText, (Text.base64url_digits _).2]
    omega
  rw [Hmac.issue, List.length_append, List.length_cons, length_sign]
  omega

/-- **A state that was issued is read back** as its claim. -/
theorem verify_issue (hmac : Hmac) (issuable : claim.Issuable) :
    hmac.verify (hmac.issue claim) = some claim := by
  have length : ¬ maxStateLength < (hmac.issue claim).length := by
    have short := @length_issue claim hmac issuable
    rw [maxStateLength]
    omega
  have written : payloadOf claim ≠ [] := by
    intro empty
    have read := claimOf_payloadOf issuable
    rw [empty] at read
    cases read
  have signed : hmac.sign (payloadOf claim) ≠ [] := by
    intro empty
    have signature := length_sign hmac (payloadOf claim)
    rw [empty] at signature
    cases signature
  rw [Hmac.verify, if_neg length, splitOn_issue]
  simp only [written, signed, or_self, if_false, if_true]
  exact claimOf_payloadOf issuable

/-- **A state is read only with the signature of its payload**, written as it was issued. -/
theorem signed_of_verify {state : Text} (read : hmac.verify state = some claim) :
    ∃ payload, state = payload ++ dot :: hmac.sign payload ∧
      (state.splitOn dot).head? = some payload ∧ claimOf payload = some claim := by
  rw [Hmac.verify] at read
  split at read
  · cases read
  split at read
  · rename_i payload signature pieces
    split at read
    · cases read
    split at read
    · rename_i same
      have signed := Text.eq_of_utf8 (Text.isBare_base64url _).ascii same.symm
      have whole : [dot].intercalate (state.splitOn dot) = state := List.intercalate_splitOn dot
      rw [pieces, List.intercalate_cons_cons, List.intercalate_singleton, signed] at whole
      refine ⟨payload, whole.symm.trans (List.append_assoc _ _ _), ?_, read⟩
      rw [pieces]
      rfl
    · cases read
  · cases read

/-- **States are read as they were issued**: the state of a claim is short and read back as that
claim; whatever is read is a payload with its signature, and only the state that was issued is read
with the payload of the claim. -/
theorem states_as_issued (hmac : Hmac) (issuable : claim.Issuable) :
    (hmac.issue claim).length ≤ 262 ∧ hmac.verify (hmac.issue claim) = some claim ∧
      ∀ state read, hmac.verify state = some read →
        ∃ payload, state = payload ++ dot :: hmac.sign payload ∧ claimOf payload = some read ∧
          (payload = payloadOf claim → state = hmac.issue claim ∧ read = claim) := by
  refine ⟨length_issue issuable, verify_issue hmac issuable, fun state read known => ?_⟩
  obtain ⟨payload, whole, _, meant⟩ := signed_of_verify known
  refine ⟨payload, whole, meant, ?_⟩
  rintro rfl
  exact ⟨whole, Option.some.inj (meant.symm.trans (claimOf_payloadOf issuable))⟩

/-! ## A signed state -/

/-- The HMAC of the payload of `someClaim`, under the key of a secret of the bytes 0 to 31. -/
def someHmac : Hmac where
  digest := fun _ => [
    0xBA, 0xA7, 0xDD, 0xA6, 0x0A, 0xFE, 0xD5, 0x59, 0x9E, 0xEC, 0x62, 0xF1, 0x76, 0x2C, 0x68, 0xD4,
    0xB0, 0xE5, 0x8B, 0xE1, 0xBE, 0x72, 0x12, 0xA5, 0x52, 0xDB, 0x2C, 0xD9, 0x3D, 0x70, 0xAE, 0x3B]
  size := fun _ => rfl

def someNonce : List Byte := [1, 2, 3, 4, 5, 6, 7, 8, 9, 10, 11, 12, 13, 14, 15, 16, 17, 18]

def someUser : Text := Text.lit "6f1c2d3e-4a5b-4c6d-8e7f-0123456789ab"

def someOrganization : Text := Text.lit "0a1b2c3d-4e5f-4a6b-9c8d-fedcba987654"

def someClaim : StateClaim := ⟨Text.base64url someNonce, someUser, someOrganization, none⟩

theorem someClaim_issued : (someHmac.issue someClaim).length ≤ 262 ∧
    someHmac.verify (someHmac.issue someClaim) = some someClaim ∧
      ∀ state read, someHmac.verify state = some read →
        ∃ payload, state = payload ++ dot :: someHmac.sign payload ∧ claimOf payload = some read ∧
          (payload = payloadOf someClaim → state = someHmac.issue someClaim ∧ read = someClaim) :=
  have uuids : isUuid someUser = true ∧ isUuid someOrganization = true := by decide +kernel
  states_as_issued someHmac
    ⟨⟨someNonce, rfl, rfl⟩, uuids.1, uuids.2, fun id known => by cases known⟩

end Koklo.Installation
