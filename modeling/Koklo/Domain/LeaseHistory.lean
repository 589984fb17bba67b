import Koklo.Domain.Lease
import Koklo.Foundations.Runs

/-!
# Lease histories

A history is made of accepted calls on the leases that earlier calls gave. A call that gives a
lease fits (`LeaseCall.Fits`) when the end it writes falls before the year 10000. In every history,
each call gives leases that end later than its own instant exactly when each call fits, and then no
lease of the history makes a later call throw on its end (`leases_stay_usable`). Nothing in the
calls keeps a time to live from passing that year (`lease_beyond_four_digit_years`).
-/

set_option autoImplicit false

namespace Koklo.Domain

open Koklo.Foundations

/-- The calls of the module. -/
inductive LeaseCall where
  | acquire (leases : List Lease) (request : LeaseRequest) (now : Text)
  | heartbeat (lease : Lease) (holder : Holder) (now : Text)
  | release (lease : Lease) (holder : Holder)
  | releaseExpired (leases : List Lease) (now : Text)

namespace LeaseCall

/-- The leases a call is given. -/
def received : LeaseCall → List Lease
  | acquire leases _ _ => leases
  | heartbeat lease _ _ => [lease]
  | release lease _ => [lease]
  | releaseExpired leases _ => leases

/-- The leases a call gives. -/
def perform : LeaseCall → Leased (List Lease)
  | acquire leases request now => do
    let lease ← acquireLease leases request now
    .ok [lease]
  | heartbeat lease holder now => do
    let next ← Domain.heartbeat lease holder now
    .ok [next]
  | release lease holder => do
    let next ← Domain.release lease holder
    .ok [next]
  | releaseExpired leases now => do
    let (actives, expired) ← Domain.releaseExpired leases now
    .ok (actives ++ expired)

/-- One accepted call on leases of the history, which gains those that the call gives. -/
def step (history : List Lease) (call : LeaseCall) : Option (List Lease) :=
  if ∀ lease ∈ call.received, lease ∈ history then
    match call.perform with
    | .ok given => some (history ++ given)
    | .error _ => none
  else none

/-- The end that the call would write is before the year 10000. -/
def Fits : LeaseCall → Prop
  | acquire _ request now => ∀ nowMs ttlMs, parseInstant now = .ok nowMs →
      validTtl (request.ttlMs.getD defaultLeaseTtlMs) = .ok ttlMs →
      nowMs + ttlMs < IsoInstant.endInstant
  | heartbeat lease _ now => ∀ nowMs, parseInstant now = .ok nowMs →
      nowMs + lease.ttlMs < IsoInstant.endInstant
  | release _ _ => True
  | releaseExpired _ _ => True

/-- The leases that a call gives as active end later than its instant. -/
def Sound : LeaseCall → Prop
  | acquire leases request now => ∀ nowMs lease, parseInstant now = .ok nowMs →
      acquireLease leases request now = .ok lease → lease.Usable nowMs
  | heartbeat lease holder now => ∀ nowMs next, parseInstant now = .ok nowMs →
      Domain.heartbeat lease holder now = .ok next → next.Usable nowMs
  | release _ _ => True
  | releaseExpired leases now => ∀ nowMs actives expired, parseInstant now = .ok nowMs →
      Domain.releaseExpired leases now = .ok (actives, expired) →
      ∀ lease ∈ actives, lease.Usable nowMs

theorem step_eq_some {history next : List Lease} {call : LeaseCall}
    (taken : step history call = some next) :
    (∀ lease ∈ call.received, lease ∈ history) ∧
      ∃ given, call.perform = .ok given ∧ next = history ++ given := by
  rw [step] at taken
  split at taken
  · rename_i known
    split at taken
    · rename_i given performed
      cases taken
      exact ⟨known, given, performed, rfl⟩
    · cases taken
  · cases taken

end LeaseCall

/-! ## What the leases of a history never do -/

/-- Reading the end of a lease never makes a call throw. -/
structure Lease.NeverThrows (lease : Lease) : Prop where
  isActive : ∀ {now : Text} {nowMs : ℤ}, parseInstant now = .ok nowMs →
    ∃ active, Domain.isActive lease now = .ok active
  heartbeat : ∀ {now : Text} {nowMs : ℤ} {holder : Holder} {e : LeaseError},
    parseInstant now = .ok nowMs → nowMs + lease.ttlMs < IsoInstant.endInstant →
    Domain.heartbeat lease holder now = .error e →
    e = .notHeldBy lease holder ∧ lease.holder ≠ holder ∨
      e = .expired lease ∧ Domain.isActive lease now = .ok false

theorem Lease.Usable.readable {lease : Lease} {nowMs : ℤ} (usable : lease.Usable nowMs) :
    lease.Readable := by
  obtain ⟨ms, parsed, _⟩ := usable
  exact ⟨ms, parsed⟩

theorem isActive_of_readable {lease : Lease} {now : Text} {nowMs : ℤ} (readable : lease.Readable)
    (parsed : parseInstant now = .ok nowMs) : ∃ active, isActive lease now = .ok active := by
  obtain ⟨ms, ends⟩ := readable
  rw [isActive]
  split
  · exact ⟨false, rfl⟩
  · exact ⟨_, bind_eq_ok.mpr ⟨nowMs, parsed, bind_eq_ok.mpr ⟨ms, ends, rfl⟩⟩⟩

/-- An active lease ends later. -/
theorem usable_of_isActive {lease : Lease} {now : Text} {nowMs : ℤ}
    (parsed : parseInstant now = .ok nowMs) (active : isActive lease now = .ok true) :
    lease.Usable nowMs := by
  rw [isActive] at active
  split at active
  · cases active
  · obtain ⟨read, again, active⟩ := bind_eq_ok.mp active
    obtain ⟨ms, ends, active⟩ := bind_eq_ok.mp active
    rw [parsed] at again
    cases again
    exact ⟨ms, ends, of_decide_eq_true (Except.ok.inj active)⟩

/-- The end of an instant written from the years that are read. -/
theorem formatInstant_of_lt {ms : ℤ} (start : IsoInstant.firstInstant ≤ ms)
    (soon : ms < IsoInstant.endInstant) : ∃ text, formatInstant ms = .ok text := by
  have inside : |ms| ≤ IsoInstant.maxTime := by
    rw [IsoInstant.firstInstant] at start
    rw [IsoInstant.endInstant] at soon
    rw [IsoInstant.maxTime, abs_le]
    omega
  exact ⟨_, if_pos inside⟩

theorem firstInstant_le_of_parse {now : Text} {nowMs : ℤ} (parsed : parseInstant now = .ok nowMs) :
    IsoInstant.firstInstant ≤ nowMs :=
  IsoInstant.firstInstant_le (parseInstant_eq_ok.mp parsed).2

/-- **A lease whose end is read back makes no call throw on it.** -/
theorem Lease.Readable.neverThrows {lease : Lease} (readable : lease.Readable) :
    lease.NeverThrows where
  isActive := isActive_of_readable readable
  heartbeat := by
    intro now nowMs holder e parsed fits failed
    obtain ⟨active, checked⟩ := isActive_of_readable readable parsed
    have start : IsoInstant.firstInstant ≤ nowMs + lease.ttlMs :=
      (firstInstant_le_of_parse parsed).trans (by omega)
    obtain ⟨expiresAt, written⟩ := formatInstant_of_lt start fits
    rw [Domain.heartbeat, parsed] at failed
    change (if lease.holder ≠ holder then _ else _) = _ at failed
    split at failed
    · rename_i other
      cases failed
      exact .inl ⟨rfl, other⟩
    · rw [checked] at failed
      cases active with
      | false =>
        cases failed
        exact .inr ⟨rfl, checked⟩
      | true =>
        change (formatInstant (nowMs + lease.ttlMs) >>= _) = _ at failed
        rw [written] at failed
        cases failed

theorem releaseExpired_of_readable {leases : List Lease} {now : Text} {nowMs : ℤ}
    (readable : ∀ lease ∈ leases, lease.Readable) (parsed : parseInstant now = .ok nowMs) :
    ∃ both, releaseExpired leases now = .ok both := by
  induction leases with
  | nil => exact ⟨_, rfl⟩
  | cons lease rest ih =>
    obtain ⟨first, others⟩ := List.forall_mem_cons.mp readable
    obtain ⟨active, checked⟩ := isActive_of_readable first parsed
    obtain ⟨⟨actives, expired⟩, released⟩ := ih others
    refine ⟨if active then (lease :: actives, expired) else (actives, lease :: expired), ?_⟩
    exact bind_eq_ok.mpr ⟨active, checked, bind_eq_ok.mpr ⟨(actives, expired), released, rfl⟩⟩

/-- The leases that `releaseExpired` gives are those received, and the first ones are active. -/
theorem releaseExpired_eq_ok {leases actives expired : List Lease} {now : Text}
    (released : releaseExpired leases now = .ok (actives, expired)) :
    (∀ lease ∈ actives, lease ∈ leases ∧ isActive lease now = .ok true) ∧
      ∀ lease ∈ expired, lease ∈ leases ∧ isActive lease now = .ok false := by
  induction leases generalizing actives expired with
  | nil =>
    cases released
    exact ⟨List.forall_mem_nil _, List.forall_mem_nil _⟩
  | cons first rest ih =>
    obtain ⟨active, checked, released⟩ := bind_eq_ok.mp released
    obtain ⟨⟨before, after⟩, others, released⟩ := bind_eq_ok.mp released
    obtain ⟨actives_, expired_⟩ := ih others
    have wider : ∀ {group : List Lease} {b : Bool},
        (∀ lease ∈ group, lease ∈ rest ∧ isActive lease now = .ok b) →
        ∀ lease ∈ group, lease ∈ first :: rest ∧ isActive lease now = .ok b :=
      fun known lease member =>
        ⟨List.mem_cons_of_mem first (known lease member).1, (known lease member).2⟩
    cases active with
    | true =>
      cases released
      refine ⟨List.forall_mem_cons.mpr ⟨⟨List.mem_cons_self, checked⟩, wider actives_⟩,
        wider expired_⟩
    | false =>
      cases released
      refine ⟨wider actives_, List.forall_mem_cons.mpr ⟨⟨List.mem_cons_self, checked⟩,
        wider expired_⟩⟩

/-! ## One call -/

/-- The end written for a lease is read back exactly when it falls before the year 10000. -/
theorem usable_iff {lease : Lease} {now : Text} {nowMs : ℤ} {ttlMs : ℕ}
    (parsed : parseInstant now = .ok nowMs) (positive : 0 < ttlMs)
    (written : formatInstant (nowMs + ttlMs) = .ok lease.expiresAt) :
    lease.Usable nowMs ↔ nowMs + ttlMs < IsoInstant.endInstant :=
  formatInstant_usable_iff (firstInstant_le_of_parse parsed) (by omega) written

/-- The lease of an accepted `acquireLease`. -/
theorem acquireLease_usable_iff {leases : List Lease} {request : LeaseRequest} {now : Text}
    {lease : Lease} {nowMs : ℤ} (parsed : parseInstant now = .ok nowMs)
    (accepted : acquireLease leases request now = .ok lease) :
    0 < lease.ttlMs ∧ validTtl (request.ttlMs.getD defaultLeaseTtlMs) = .ok lease.ttlMs ∧
      (lease.Usable nowMs ↔ nowMs + lease.ttlMs < IsoInstant.endInstant) := by
  obtain ⟨read, ttlMs, expiresAt, again, valid, _, written, rfl⟩ := acquireLease_eq_ok accepted
  rw [parsed] at again
  cases again
  exact ⟨validTtl_pos valid, valid, usable_iff parsed (validTtl_pos valid) written⟩

/-- The lease of an accepted `heartbeat`. -/
theorem heartbeat_usable_iff {lease next : Lease} {holder : Holder} {now : Text} {nowMs : ℤ}
    (positive : 0 < lease.ttlMs) (parsed : parseInstant now = .ok nowMs)
    (accepted : heartbeat lease holder now = .ok next) :
    next.ttlMs = lease.ttlMs ∧
      (next.Usable nowMs ↔ nowMs + lease.ttlMs < IsoInstant.endInstant) := by
  obtain ⟨read, expiresAt, again, _, _, written, rfl⟩ := heartbeat_eq_ok accepted
  rw [parsed] at again
  cases again
  exact ⟨rfl, usable_iff parsed positive written⟩

namespace LeaseCall

/-- A lease that a call gives is one it received, one it released, or the lease of an accepted
`acquireLease` or `heartbeat`. -/
theorem perform_eq_ok {call : LeaseCall} {given : List Lease} (performed : call.perform = .ok given)
    {lease : Lease} (member : lease ∈ given) :
    lease ∈ call.received ∨ (∃ former ∈ call.received, lease = { former with released := true }) ∨
      (∃ leases request now, call = acquire leases request now ∧
        acquireLease leases request now = .ok lease) ∨
      ∃ former holder now, call = heartbeat former holder now ∧
        Domain.heartbeat former holder now = .ok lease := by
  cases call with
  | acquire leases request now =>
    obtain ⟨acquired, accepted, performed⟩ := bind_eq_ok.mp performed
    cases performed
    cases List.mem_singleton.mp member
    exact .inr (.inr (.inl ⟨leases, request, now, rfl, accepted⟩))
  | heartbeat former holder now =>
    obtain ⟨next, accepted, performed⟩ := bind_eq_ok.mp performed
    cases performed
    cases List.mem_singleton.mp member
    exact .inr (.inr (.inr ⟨former, holder, now, rfl, accepted⟩))
  | release former holder =>
    obtain ⟨next, accepted, performed⟩ := bind_eq_ok.mp performed
    cases performed
    cases List.mem_singleton.mp member
    exact .inr (.inl ⟨former, List.mem_singleton_self former, (release_eq_ok accepted).2⟩)
  | releaseExpired leases now =>
    obtain ⟨⟨actives, expired⟩, accepted, performed⟩ := bind_eq_ok.mp performed
    cases performed
    obtain ⟨first, second⟩ := releaseExpired_eq_ok accepted
    rcases List.mem_append.mp member with active | ended
    · exact .inl (first lease active).1
    · exact .inl (second lease ended).1

/-- Every lease of the history lives for some time. -/
def Lasting (history : List Lease) : Prop := ∀ lease ∈ history, 0 < lease.ttlMs

theorem lasting_step (history : List Lease) (call : LeaseCall) (next : List Lease)
    (lasting : Lasting history) (taken : step history call = some next) : Lasting next := by
  obtain ⟨known, given, performed, rfl⟩ := step_eq_some taken
  intro lease member
  rcases List.mem_append.mp member with before | new
  · exact lasting lease before
  rcases perform_eq_ok performed new with old | ⟨former, old, rfl⟩ |
    ⟨leases, request, now, rfl, accepted⟩ | ⟨former, holder, now, rfl, accepted⟩
  · exact lasting lease (known lease old)
  · exact lasting former (known former old)
  · obtain ⟨_, _, _, parsed, _⟩ := acquireLease_eq_ok accepted
    exact (acquireLease_usable_iff parsed accepted).1
  · have positive := lasting former (known former List.mem_cons_self)
    obtain ⟨_, _, parsed, _⟩ := heartbeat_eq_ok accepted
    rw [(heartbeat_usable_iff positive parsed accepted).1]
    exact positive

/-- **An accepted call gives leases that end later exactly when it fits.** -/
theorem sound_iff_fits {history next : List Lease} {call : LeaseCall} (lasting : Lasting history)
    (taken : step history call = some next) : call.Fits ↔ call.Sound := by
  obtain ⟨known, given, performed, rfl⟩ := step_eq_some taken
  cases call with
  | acquire leases request now =>
    obtain ⟨acquired, accepted, _⟩ := bind_eq_ok.mp performed
    obtain ⟨nowMs, _, _, parsed, _⟩ := acquireLease_eq_ok accepted
    obtain ⟨_, valid, usable⟩ := acquireLease_usable_iff parsed accepted
    constructor
    · intro fits read lease again given
      rw [accepted] at given
      rw [parsed] at again
      cases given
      cases again
      exact usable.mpr (fits nowMs acquired.ttlMs parsed valid)
    · intro sound read ttlMs again checked
      rw [parsed] at again
      rw [valid] at checked
      cases again
      cases checked
      exact usable.mp (sound nowMs acquired parsed accepted)
  | heartbeat lease holder now =>
    obtain ⟨renewed, accepted, _⟩ := bind_eq_ok.mp performed
    obtain ⟨nowMs, _, parsed, _⟩ := heartbeat_eq_ok accepted
    have positive := lasting lease (known lease List.mem_cons_self)
    obtain ⟨_, usable⟩ := heartbeat_usable_iff positive parsed accepted
    constructor
    · intro fits read other again given
      rw [accepted] at given
      rw [parsed] at again
      cases given
      cases again
      exact usable.mpr (fits nowMs parsed)
    · intro sound read again
      rw [parsed] at again
      cases again
      exact usable.mp (sound nowMs renewed parsed accepted)
  | release lease holder => exact Iff.rfl
  | releaseExpired leases now =>
    refine iff_of_true trivial ?_
    intro nowMs actives expired parsed accepted lease member
    exact usable_of_isActive parsed ((releaseExpired_eq_ok accepted).1 lease member).2

/-- Every lease of the history is read back. -/
def AllReadable (history : List Lease) : Prop := ∀ lease ∈ history, lease.Readable

theorem allReadable_step (history : List Lease) (call : LeaseCall) (next : List Lease)
    (readable : AllReadable history) (sound : call.Sound) (taken : step history call = some next) :
    AllReadable next := by
  obtain ⟨known, given, performed, rfl⟩ := step_eq_some taken
  intro lease member
  rcases List.mem_append.mp member with before | new
  · exact readable lease before
  rcases perform_eq_ok performed new with old | ⟨former, old, rfl⟩ |
    ⟨leases, request, now, rfl, accepted⟩ | ⟨former, holder, now, rfl, accepted⟩
  · exact readable lease (known lease old)
  · exact readable former (known former old)
  · obtain ⟨nowMs, _, _, parsed, _⟩ := acquireLease_eq_ok accepted
    exact (sound nowMs lease parsed accepted).readable
  · obtain ⟨nowMs, _, parsed, _⟩ := heartbeat_eq_ok accepted
    exact (sound nowMs lease parsed accepted).readable

end LeaseCall

/-! ## Histories -/

/-- **Every accepted lease stays usable exactly in the histories whose calls fit**: there each call
gives leases that end later than its instant, and none of them makes a later call throw. -/
theorem leases_stay_usable {calls : List LeaseCall} {history : List Lease}
    (reached : run LeaseCall.step [] calls = some history) :
    ((∀ call ∈ calls, call.Fits) ↔ ∀ call ∈ calls, call.Sound) ∧
      ((∀ call ∈ calls, call.Fits) → ∀ lease ∈ history, lease.NeverThrows) ∧
      ((∀ call ∈ calls, call.Fits) → ∀ leases : List Lease, (∀ lease ∈ leases, lease ∈ history) →
        ∀ now nowMs, parseInstant now = .ok nowMs → ∃ both, releaseExpired leases now = .ok both) := by
  have lasting : LeaseCall.Lasting [] := List.forall_mem_nil _
  have same : (∀ call ∈ calls, call.Fits) ↔ ∀ call ∈ calls, call.Sound :=
    run_labels_iff LeaseCall.lasting_step (fun _ _ _ => LeaseCall.sound_iff_fits) lasting reached
  have readable : (∀ call ∈ calls, call.Fits) → LeaseCall.AllReadable history := by
    intro fits
    have along : Along LeaseCall.step (fun _ call => LeaseCall.Sound call) [] calls :=
      Along.of_labels (same.mp fits)
    exact run_invariant_along LeaseCall.allReadable_step (List.forall_mem_nil _) along reached
  refine ⟨same, fun fits lease member => (readable fits lease member).neverThrows, ?_⟩
  intro fits leases known now nowMs parsed
  exact releaseExpired_of_readable (fun lease member => readable fits lease (known lease member))
    parsed

/-- A request of a member for the ticket TK-1. -/
def memberRequest (ttlMs : Option Number) : LeaseRequest where
  ticket := Text.lit "TK-1"
  holder := ⟨.member, Text.lit "m"⟩
  branch := Text.lit "b"
  worktree := Text.lit "w"
  ttlMs := ttlMs

def newYear : Text := Text.lit "2026-01-01T00:00:00Z"

/-- The lease of that request at the start of the year 2026, until an instant. -/
def newYearLease (expiresAt : String) (ttlMs : ℕ) : Lease :=
  newLease (memberRequest none) (memberRequest none).holder newYear (Text.lit expiresAt) ttlMs

/-- A lease that is taken, renewed once and no longer active at the end. -/
def renewedHistory : List LeaseCall :=
  let taken := newYearLease "2026-01-01T00:15:00.000Z" 900000
  let later := Text.lit "2026-01-01T00:10:00.5Z"
  let renewed := { taken with
    heartbeatAt := later, expiresAt := Text.lit "2026-01-01T00:25:00.500Z" }
  [.acquire [] (memberRequest none) newYear, .heartbeat taken taken.holder later,
    .releaseExpired [taken, renewed] (Text.lit "2026-01-01T00:20:00Z")]

theorem leases_stay_usable_renewed :
    ∃ history, run LeaseCall.step [] renewedHistory = some history ∧
      ((∀ call ∈ renewedHistory, call.Fits) ↔ ∀ call ∈ renewedHistory, call.Sound) := by
  have ends : (run LeaseCall.step [] renewedHistory).isSome = true := by decide +kernel
  obtain ⟨history, reached⟩ := Option.isSome_iff_exists.mp ends
  exact ⟨history, reached, (leases_stay_usable reached).1⟩

/-- **An accepted time to live can end a lease beyond the years that are read**: the lease is given,
and `isActive` throws on it from then on. -/
theorem lease_beyond_four_digit_years :
    let lease := newYearLease "+011532-08-16T05:20:00.000Z" 300000000000000
    run LeaseCall.step [] [.acquire [] (memberRequest (some (.finite 300000000000000))) newYear] =
        some [lease] ∧
      isActive lease newYear = .error (.invalidInstant lease.expiresAt) ∧
      heartbeat lease lease.holder newYear = .error (.invalidInstant lease.expiresAt) ∧
      releaseExpired [lease] newYear = .error (.invalidInstant lease.expiresAt) := by
  decide +kernel

end Koklo.Domain
