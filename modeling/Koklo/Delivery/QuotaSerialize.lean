import Koklo.Delivery.QuotaUsage
import Koklo.Foundations.JsonText
import Koklo.Foundations.Pattern

/-!
# Quota states as documents

A state is written as JSON with sorted keys, after the same strict check that is made when it
is read: no key is missing or unknown, every number is a count or a plausible instant, every
window has a well-formed key, and the status agrees with the instant to resume at. The check
is of data, since what is read may be anything.
-/

set_option autoImplicit false

namespace Koklo.Delivery.Quota

open Koklo.Foundations
open Koklo.Foundations.Binary64

/-! ## Keys -/

/-- `STATE_KEYS`. -/
def stateKeys : List Text :=
  ["consecutiveHits", "lastHitAt", "lastSignalId", "resumeAt", "status", "usageIds", "version",
    "windows"].map Text.lit

/-- `WINDOW_KEYS`. -/
def windowKeys : List Text := ["runs", "start", "tokens"].map Text.lit

theorem sortedKeys_known : windowKeys.insertionSort (· ≤ ·) = windowKeys ∧
    stateKeys.insertionSort (· ≤ ·) = stateKeys := by
  decide +kernel

theorem nodup_keys : windowKeys.Nodup ∧ stateKeys.Nodup := by decide +kernel

def notSlash (u : CodeUnit) : Bool := u != slash

/-- What the dot of a pattern matches. -/
def dot (u : CodeUnit) : Bool := !Text.isLineTerminator u

/-- `WINDOW_KEY`: a letter and an organization, and for a project or an agent what follows the
first slash. -/
def windowKey : Pattern CodeUnit :=
  .alt (.seq (.text (Text.lit "o:")) (.plus (.unit notSlash)))
    (.seq (.alt (.text (Text.lit "p:")) (.text (Text.lit "a:")))
      (.seq (.plus (.unit notSlash)) (.seq (.text [slash]) (.plus (.unit dot)))))

/-- The keys of an object in the order of their code units. -/
def sortedKeys {α : Type} (fields : OrderedMap Text α) : List Text :=
  fields.keys.insertionSort (· ≤ ·)

/-! ## The check -/

/-- The value is an object. -/
def assertObject (value : Option Data) (reason : String) : Checked (OrderedMap Text Data) :=
  match value with
  | some (.record fields) => .ok fields
  | _ => fail reason

/-- The object has these keys and no other. -/
def assertKeys (fields : OrderedMap Text Data) (expected : List Text) : Checked Unit :=
  assertThat (sortedKeys fields = expected) "clés inattendues ou manquantes"

/-- A number that passes a check. -/
def assertNumber (accepts : ℚ → Bool) (value : Option Data) (reason : String) : Checked ℚ :=
  match value with
  | some (.number number) => (number.value?.filter (accepts ·)).elim (fail reason) .ok
  | _ => fail reason

/-- A text with something visible. -/
def assertText (value : Option Data) (reason : String) : Checked Text :=
  match value with
  | some (.text t) => if isText t then .ok t else fail reason
  | _ => fail reason

/-- An instant, or `null`. -/
def nullableEpoch (value : Option Data) : Checked (Option ℚ) :=
  match value with
  | some .null => .ok none
  | value => (assertNumber isEpoch value "instant persisté invalide").map some

/-- A text, or `null`. -/
def nullableText (value : Option Data) : Checked (Option Text) :=
  match value with
  | some .null => .ok none
  | value => (assertText value "lastSignalId invalide").map some

/-- The count of a window. -/
def checkWindow (value : Option Data) : Checked WindowCount := do
  let fields ← assertObject value "fenêtre invalide"
  assertKeys fields windowKeys
  let runs ← assertNumber isSafeCount (fields.get (Text.lit "runs")) "fenêtre invalide"
  let start ← assertNumber isSafeCount (fields.get (Text.lit "start")) "fenêtre invalide"
  let tokens ← assertNumber isSafeCount (fields.get (Text.lit "tokens")) "fenêtre invalide"
  .ok ⟨start, runs, tokens⟩

/-- An entry of the windows, under a key of a level. -/
def checkEntry (fields : OrderedMap Text Data) (key : Text) : Checked (Text × WindowCount) := do
  assertThat (windowKey.accepts key) "clé de fenêtre invalide"
  let count ← checkWindow (fields.get key)
  .ok (key, count)

/-- The windows, each under a key of a level. -/
def checkWindows (value : Option Data) : Checked (OrderedMap Text WindowCount) := do
  let fields ← assertObject value "fenêtres invalides"
  let entries ← (sortedKeys fields).mapM (checkEntry fields)
  .ok (OrderedMap.ofEntries entries)

/-- The identifiers that were seen, no more than the limit. -/
def checkUsageIds (value : Option Data) : Checked (List Text) :=
  match value with
  | some (.list items) =>
    if maxSeenIds < items.length then fail "usageIds invalide"
    else items.mapM fun item => assertText (some item) "usageIds invalide"
  | _ => fail "usageIds invalide"

/-- The status as it is written. -/
def QuotaStatus.text : QuotaStatus → Text
  | ok => Text.lit "ok"
  | backoff => Text.lit "backoff"
  | exhausted => Text.lit "exhausted"

/-- `QUOTA_STATUSES`. -/
def quotaStatuses : List QuotaStatus := [.ok, .backoff, .exhausted]

/-- The status that is written so. -/
def checkStatus (value : Option Data) : Checked QuotaStatus :=
  match value with
  | some (.text t) => (quotaStatuses.find? (·.text = t)).elim (fail "statut inconnu") .ok
  | _ => fail "statut inconnu"

/-- The strict check of a state that comes from outside; its windows are sorted. -/
def checkQuotaState (value : Data) : Checked QuotaState := do
  let fields ← assertObject (some value) "état de quota absent"
  assertKeys fields stateKeys
  let status ← checkStatus (fields.get (Text.lit "status"))
  let resumeAt ← nullableEpoch (fields.get (Text.lit "resumeAt"))
  assertThat (decide (status = .backoff) == resumeAt.isSome) "statut et resumeAt incohérents"
  let lastSignalId ← nullableText (fields.get (Text.lit "lastSignalId"))
  let consecutiveHits ←
    assertNumber isSafeCount (fields.get (Text.lit "consecutiveHits")) "compteur invalide"
  let version ← assertNumber isSafeCount (fields.get (Text.lit "version")) "compteur invalide"
  let lastHitAt ← nullableEpoch (fields.get (Text.lit "lastHitAt"))
  let usageIds ← checkUsageIds (fields.get (Text.lit "usageIds"))
  let windows ← checkWindows (fields.get (Text.lit "windows"))
  .ok ⟨status, resumeAt, consecutiveHits, lastHitAt, lastSignalId, windows, usageIds, version⟩

/-! ## Writing and reading -/

def numberData (q : ℚ) : Data := .number (.finite q)

def nullableData {α : Type} (toData : α → Data) : Option α → Data
  | none => .null
  | some a => toData a

/-- The count as it is written, its keys in order. -/
def WindowCount.toData (count : WindowCount) : Data :=
  .record [(Text.lit "runs", numberData count.runs), (Text.lit "start", numberData count.start),
    (Text.lit "tokens", numberData count.tokens)]

/-- The state as an object, with its keys sorted. -/
def QuotaState.toData (state : QuotaState) : Data :=
  .record
    [(Text.lit "consecutiveHits", numberData state.consecutiveHits),
      (Text.lit "lastHitAt", nullableData numberData state.lastHitAt),
      (Text.lit "lastSignalId", nullableData Data.text state.lastSignalId),
      (Text.lit "resumeAt", nullableData numberData state.resumeAt),
      (Text.lit "status", .text state.status.text),
      (Text.lit "usageIds", .list (state.usageIds.map Data.text)),
      (Text.lit "version", numberData state.version),
      (Text.lit "windows", .record (state.windows.map fun entry => (entry.1, entry.2.toData)))]

/-- `QUOTA_MAX_SERIALIZED_CHARS`. -/
def maxSerializedChars : ℕ := 1000000

/-- Stable JSON; a forged state is refused when it is written too. -/
def serializeQuotaState (state : QuotaState) : Checked Text := do
  let checked ← checkQuotaState state.toData
  let text := Json.stringify checked.toData
  if maxSerializedChars < text.length then fail "état trop volumineux" else .ok text

/-- The value of a text of JSON. -/
def parseJson (text : Text) : Checked Data := (Json.parse text).elim (fail "JSON invalide") .ok

/-- The state with an instant to resume at that is cut at a ceiling. -/
def QuotaState.clipped (state : QuotaState) (ceiling : ℚ) : QuotaState :=
  if state.resumeAt.any (ceiling < ·) then { state with resumeAt := some ceiling } else state

/-- Strict JSON; with `now`, what is beyond the hard cap is cut. -/
def parseQuotaState (text : Text) (now : Option ℚ) : Checked QuotaState := do
  assertThat (text.length ≤ maxSerializedChars) "état sérialisé trop volumineux"
  now.elim (.ok ()) assertNow
  let value ← parseJson text
  let state ← checkQuotaState value
  .ok (now.elim state fun now => state.clipped (add now maxBackoffMs))

end Koklo.Delivery.Quota
