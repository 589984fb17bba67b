import Koklo.Domain.TicketKey
import Koklo.Foundations.Fallible
import Koklo.Foundations.IsoInstant
import Koklo.Foundations.Number

/-!
# Leases

A lease gives one holder a ticket until an instant. Instants are texts: the time is received, and
the end of a lease is written from it. What a lease needs to stay usable is that its end is read
back (`Lease.Usable`); an accepted call gives such a lease exactly when the end falls before the
year 10000 (`formatInstant_usable_iff`).
-/

set_option autoImplicit false

namespace Koklo.Domain

open Koklo.Foundations

/-- Who can hold a lease. -/
inductive HolderKind where
  | member | runner
deriving DecidableEq

/-- A holder, by its kind and its identifier. -/
structure Holder where
  kind : HolderKind
  id : Text
deriving DecidableEq

/-- A lease of a ticket, with its instants as texts. -/
structure Lease where
  ticket : Text
  holder : Holder
  branch : Text
  worktree : Text
  acquiredAt : Text
  heartbeatAt : Text
  expiresAt : Text
  ttlMs : ℕ
  released : Bool
deriving DecidableEq

/-- What is asked of `acquireLease`. -/
structure LeaseRequest where
  ticket : Text
  holder : Holder
  branch : Text
  worktree : Text
  ttlMs : Option Number

/-- Why a call is refused. -/
inductive LeaseError where
  | invalidInstant (value : Text)
  | invalidTicketKey (value : Text)
  | invalidLease (field message : Text)
  | alreadyHeld (lease : Lease)
  | expired (lease : Lease)
  | notHeldBy (lease : Lease) (holder : Holder)
  /-- The `RangeError` of a date beyond what a date can hold. -/
  | invalidDate
deriving DecidableEq

/-- A value, or the error of the call. -/
abbrev Leased (α : Type) := Except LeaseError α

/-! ## Instants -/

/-- The milliseconds of a text, when it is an instant in UTC. -/
def parseInstant (value : Text) : Leased ℤ :=
  if IsoInstant.isoUtc.accepts value then
    (IsoInstant.isoInstant value).elim (.error (.invalidInstant value)) .ok
  else .error (.invalidInstant value)

/-- The text of an instant, when a date can hold it. -/
def formatInstant (ms : ℤ) : Leased Text :=
  if |ms| ≤ IsoInstant.maxTime then .ok (IsoInstant.isoText ms) else .error .invalidDate

/-! ## Checks -/

/-- `DEFAULT_LEASE_TTL_MS`. -/
def defaultLeaseTtlMs : Number := .finite 900000

def nonEmpty (value : Text) : Bool := Text.trim value ≠ []

def invalidLease {α : Type} (field message : String) : Leased α :=
  .error (.invalidLease (Text.lit field) (Text.lit message))

/-- The holder, when it has an identifier. -/
def freezeHolder (holder : Holder) : Leased Holder :=
  if nonEmpty holder.id then .ok holder
  else invalidLease "holder" "titulaire invalide (kind et id requis)"

/-- The text is not blank. -/
def requireText (value : Text) (field message : String) : Leased Unit :=
  if nonEmpty value then .ok () else invalidLease field message

/-- A positive safe integer. -/
def validTtl (ttlMs : Number) : Leased ℕ :=
  match ttlMs.value? with
  | some q =>
    if q.den = 1 ∧ 0 < q ∧ q ≤ 2 ^ 53 - 1 then .ok q.num.toNat
    else invalidLease "ttl" "durée entière strictement positive attendue"
  | none => invalidLease "ttl" "durée entière strictement positive attendue"

/-- The text is the key of a ticket. -/
def requireTicketKey (ticket : Text) : Leased ℕ :=
  match parseTicketKey ticket with
  | .ok number => .ok number
  | .error e => .error (.invalidTicketKey e.value)

/-! ## The functions -/

/-- The lease is neither released nor expired. -/
def isActive (lease : Lease) (now : Text) : Leased Bool :=
  if lease.released then .ok false
  else do
    let nowMs ← parseInstant now
    let expiresMs ← parseInstant lease.expiresAt
    .ok (nowMs < expiresMs)

/-- The first active lease of a ticket. -/
def activeLeaseFor (leases : List Lease) (ticket now : Text) : Leased (Option Lease) :=
  match leases with
  | [] => .ok none
  | lease :: rest =>
    if lease.ticket = ticket then do
      let active ← isActive lease now
      if active then .ok (some lease) else activeLeaseFor rest ticket now
    else activeLeaseFor rest ticket now

/-- The lease of a request that passed its checks. -/
def newLease (request : LeaseRequest) (holder : Holder) (now expiresAt : Text) (ttlMs : ℕ) :
    Lease where
  ticket := request.ticket
  holder := holder
  branch := request.branch
  worktree := request.worktree
  acquiredAt := now
  heartbeatAt := now
  expiresAt := expiresAt
  ttlMs := ttlMs
  released := false

/-- The new lease; the leases are those received, with this one last. -/
def acquireLease (leases : List Lease) (request : LeaseRequest) (now : Text) : Leased Lease := do
  let nowMs ← parseInstant now
  let _ ← requireTicketKey request.ticket
  let holder ← freezeHolder request.holder
  requireText request.branch "branch" "branche requise"
  requireText request.worktree "worktree" "worktree requis"
  let ttlMs ← validTtl (request.ttlMs.getD defaultLeaseTtlMs)
  let active ← activeLeaseFor leases request.ticket now
  match active with
  | some held => .error (.alreadyHeld held)
  | none => do
    let expiresAt ← formatInstant (nowMs + ttlMs)
    .ok (newLease request holder now expiresAt ttlMs)

/-- The holder gives a sign of life, while the lease is active. -/
def heartbeat (lease : Lease) (holder : Holder) (now : Text) : Leased Lease := do
  let nowMs ← parseInstant now
  if lease.holder ≠ holder then .error (.notHeldBy lease holder)
  else do
    let active ← isActive lease now
    if active then do
      let expiresAt ← formatInstant (nowMs + lease.ttlMs)
      .ok { lease with heartbeatAt := now, expiresAt := expiresAt }
    else .error (.expired lease)

/-- The holder releases the lease. -/
def release (lease : Lease) (holder : Holder) : Leased Lease :=
  if lease.holder ≠ holder then .error (.notHeldBy lease holder)
  else .ok { lease with released := true }

/-- The leases that are active and those that are not, in their order. -/
def releaseExpired (leases : List Lease) (now : Text) : Leased (List Lease × List Lease) :=
  match leases with
  | [] => .ok ([], [])
  | lease :: rest => do
    let active ← isActive lease now
    let (actives, expired) ← releaseExpired rest now
    .ok (if active then (lease :: actives, expired) else (actives, lease :: expired))

/-! ## Usable leases -/

/-- The end of a lease is read back. -/
def Lease.Readable (lease : Lease) : Prop := ∃ ms, parseInstant lease.expiresAt = .ok ms

/-- The end of a lease is read back, and is after the instant of a call. -/
def Lease.Usable (lease : Lease) (nowMs : ℤ) : Prop :=
  ∃ ms, parseInstant lease.expiresAt = .ok ms ∧ nowMs < ms

theorem parseInstant_eq_ok {value : Text} {ms : ℤ} :
    parseInstant value = .ok ms ↔
      IsoInstant.isoUtc.accepts value = true ∧ IsoInstant.isoInstant value = some ms := by
  rw [parseInstant]
  split
  · rename_i accepted
    cases IsoInstant.isoInstant value with
    | none => exact iff_of_false nofun fun both => nomatch both.2
    | some read =>
      rw [Option.elim_some, Except.ok.injEq, Option.some.injEq]
      exact (and_iff_right accepted).symm
  · rename_i refused
    exact iff_of_false nofun fun both => refused both.1

/-- An instant whose text is read is the one that is read. -/
theorem parseInstant_isoText {ms read : ℤ}
    (parsed : parseInstant (IsoInstant.isoText ms) = .ok read) : read = ms := by
  obtain ⟨accepted, parsed⟩ := parseInstant_eq_ok.mp parsed
  by_cases four : IsoInstant.FourDigitYear ms
  · rw [IsoInstant.isoInstant_isoText four] at parsed
    exact (Option.some.inj parsed).symm
  · rw [IsoInstant.not_accepts_isoText four] at accepted
    cases accepted

theorem formatInstant_eq_ok {ms : ℤ} {text : Text} (written : formatInstant ms = .ok text) :
    text = IsoInstant.isoText ms := by
  rw [formatInstant] at written
  split at written
  · exact (Except.ok.inj written).symm
  · cases written

/-- **What is written is read back before the year 10000**, and never from then on. -/
theorem formatInstant_usable_iff {ms nowMs : ℤ} {text : Text} (start : IsoInstant.firstInstant ≤ nowMs)
    (later : nowMs < ms) (written : formatInstant ms = .ok text) :
    (∃ read, parseInstant text = .ok read ∧ nowMs < read) ↔ ms < IsoInstant.endInstant := by
  rw [formatInstant] at written
  split at written
  · cases written
    constructor
    · rintro ⟨read, parsed, _⟩
      by_contra late
      have refused := IsoInstant.not_accepts_isoText fun four => late four.2
      rw [(parseInstant_eq_ok.mp parsed).1] at refused
      cases refused
    · intro soon
      have four : IsoInstant.FourDigitYear ms := ⟨start.trans later.le, soon⟩
      exact ⟨ms, parseInstant_eq_ok.mpr
        ⟨IsoInstant.accepts_isoText four, IsoInstant.isoInstant_isoText four⟩, later⟩
  · cases written

theorem validTtl_pos {ttlMs : Number} {ttl : ℕ} (valid : validTtl ttlMs = .ok ttl) : 0 < ttl := by
  rw [validTtl] at valid
  split at valid
  · rename_i q _
    split at valid
    · rename_i checked
      cases valid
      have positive : 0 < q.num := Rat.num_pos.mpr checked.2.1
      omega
    · cases valid
  · cases valid

/-! ## What the calls do -/

/-- **What an accepted `acquireLease` gives.** -/
theorem acquireLease_eq_ok {leases : List Lease} {request : LeaseRequest} {now : Text} {lease : Lease}
    (accepted : acquireLease leases request now = .ok lease) :
    ∃ nowMs ttlMs expiresAt, parseInstant now = .ok nowMs ∧
      validTtl (request.ttlMs.getD defaultLeaseTtlMs) = .ok ttlMs ∧
      activeLeaseFor leases request.ticket now = .ok none ∧
      formatInstant (nowMs + ttlMs) = .ok expiresAt ∧
      lease = newLease request request.holder now expiresAt ttlMs := by
  rw [acquireLease] at accepted
  obtain ⟨nowMs, parsed, accepted⟩ := bind_eq_ok.mp accepted
  obtain ⟨_, _, accepted⟩ := bind_eq_ok.mp accepted
  obtain ⟨holder, frozen, accepted⟩ := bind_eq_ok.mp accepted
  obtain ⟨_, _, accepted⟩ := bind_eq_ok.mp accepted
  obtain ⟨_, _, accepted⟩ := bind_eq_ok.mp accepted
  obtain ⟨ttlMs, valid, accepted⟩ := bind_eq_ok.mp accepted
  obtain ⟨active, none_, accepted⟩ := bind_eq_ok.mp accepted
  have same : holder = request.holder := by
    rw [freezeHolder] at frozen
    split at frozen
    · exact (Except.ok.inj frozen).symm
    · cases frozen
  subst same
  cases active with
  | some held => cases accepted
  | none =>
    obtain ⟨expiresAt, written, accepted⟩ := bind_eq_ok.mp accepted
    cases accepted
    exact ⟨nowMs, ttlMs, expiresAt, parsed, valid, none_, written, rfl⟩

/-- **What an accepted `heartbeat` gives.** -/
theorem heartbeat_eq_ok {lease next : Lease} {holder : Holder} {now : Text}
    (accepted : heartbeat lease holder now = .ok next) :
    ∃ nowMs expiresAt, parseInstant now = .ok nowMs ∧ lease.holder = holder ∧
      isActive lease now = .ok true ∧ formatInstant (nowMs + lease.ttlMs) = .ok expiresAt ∧
      next = { lease with heartbeatAt := now, expiresAt := expiresAt } := by
  rw [heartbeat] at accepted
  obtain ⟨nowMs, parsed, accepted⟩ := bind_eq_ok.mp accepted
  split at accepted
  · cases accepted
  rename_i mine
  obtain ⟨active, checked, accepted⟩ := bind_eq_ok.mp accepted
  split at accepted
  · rename_i alive
    obtain ⟨expiresAt, written, accepted⟩ := bind_eq_ok.mp accepted
    cases accepted
    rw [alive] at checked
    exact ⟨nowMs, expiresAt, parsed, not_not.mp mine, checked, written, rfl⟩
  · cases accepted

/-- **What an accepted `release` gives.** -/
theorem release_eq_ok {lease next : Lease} {holder : Holder}
    (accepted : release lease holder = .ok next) :
    lease.holder = holder ∧ next = { lease with released := true } := by
  rw [release] at accepted
  split at accepted
  · cases accepted
  · rename_i mine
    exact ⟨not_not.mp mine, (Except.ok.inj accepted).symm⟩

end Koklo.Domain
