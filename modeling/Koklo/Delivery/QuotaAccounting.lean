import Koklo.Delivery.QuotaUsage
import Mathlib.Data.Finset.Card

/-!
# Usage is counted once

A usage may be delivered any number of times. What the windows hold is compared with what was
delivered: the deliveries that were accepted, each usage at its first one (`firstDeliveries`), in
the window of its instant (`expectedCount`). While no identifier is forgotten, the count of the
current window of every key is the sum over these (`usage_accounting_exact`): each accepted
delivery keeps the invariant `Accounted` (`deliver_accounted`), and so does a whole sequence.
-/

set_option autoImplicit false

namespace Koklo.Delivery.Quota

open Koklo.Foundations
open Koklo.Foundations.Binary64

/-! ## Deliveries -/

/-- A call of `recordUsage`. -/
structure UsageDelivery where
  usage : Usage
  now : ℚ
  expectedVersion : Option ℚ

/-- The state, and the deliveries that were accepted. -/
structure Ledger where
  state : QuotaState
  accepted : List UsageDelivery

/-- Nothing has been counted. -/
def Ledger.start : Ledger := ⟨startQuotaState, []⟩

/-- A delivery; one that is refused changes nothing. -/
def Ledger.deliver (policy : UsagePolicy) (ledger : Ledger) (delivery : UsageDelivery) : Ledger :=
  match recordUsage ledger.state delivery.usage delivery.now policy delivery.expectedVersion with
  | .ok next => ⟨next, ledger.accepted ++ [delivery]⟩
  | .error _ => ledger

/-! ## What is expected -/

/-- The first delivery of each usage. -/
def firstDeliveries (deliveries : List UsageDelivery) : List UsageDelivery :=
  deliveries.foldl
    (fun firsts delivery =>
      if delivery.usage.id ∈ firsts.map (·.usage.id) then firsts else firsts ++ [delivery]) []

/-- The distinct usages of a key that were delivered in a window. -/
def usagesIn (policy : UsagePolicy) (deliveries : List UsageDelivery) (key : Text) (start : ℚ) :
    List Usage :=
  ((firstDeliveries deliveries).filter fun delivery =>
    key ∈ (scopeLevels delivery.usage.scope).map Prod.snd ∧
      windowStart delivery.now policy.windowMs = start).map UsageDelivery.usage

/-- The sum over the distinct usages of a key in a window. -/
def expectedCount (policy : UsagePolicy) (deliveries : List UsageDelivery) (key : Text)
    (start : ℚ) : WindowCount where
  start := start
  runs := ((usagesIn policy deliveries key start).map Usage.runs).sum
  tokens := ((usagesIn policy deliveries key start).map Usage.tokens).sum

theorem firstDeliveries_append (deliveries : List UsageDelivery) (delivery : UsageDelivery) :
    firstDeliveries (deliveries ++ [delivery]) =
      if delivery.usage.id ∈ (firstDeliveries deliveries).map (·.usage.id) then
        firstDeliveries deliveries
      else firstDeliveries deliveries ++ [delivery] := by
  rw [firstDeliveries, List.foldl_append]
  rfl

theorem nodup_firstDeliveries (deliveries : List UsageDelivery) :
    ((firstDeliveries deliveries).map (·.usage.id)).Nodup := by
  induction deliveries using List.reverseRecOn with
  | nil => exact List.nodup_nil
  | append_singleton deliveries delivery ih =>
    rw [firstDeliveries_append]
    split
    · exact ih
    · rename_i fresh
      rw [List.map_append]
      apply ih.append (List.nodup_singleton _)
      exact List.disjoint_singleton.mpr fresh

theorem firstDeliveries_subset (deliveries : List UsageDelivery) :
    firstDeliveries deliveries ⊆ deliveries := by
  induction deliveries using List.reverseRecOn with
  | nil => exact List.nil_subset _
  | append_singleton deliveries delivery ih =>
    rw [firstDeliveries_append]
    split
    · exact List.subset_append_of_subset_left _ ih
    · exact List.append_subset.mpr
        ⟨List.subset_append_of_subset_left _ ih, List.subset_append_right _ _⟩

/-- A usage that was delivered before is not counted again. -/
theorem expectedCount_replay {policy : UsagePolicy} {deliveries : List UsageDelivery}
    {delivery : UsageDelivery}
    (known : delivery.usage.id ∈ (firstDeliveries deliveries).map (·.usage.id)) (key : Text)
    (start : ℚ) :
    expectedCount policy (deliveries ++ [delivery]) key start =
      expectedCount policy deliveries key start := by
  rw [expectedCount, expectedCount, usagesIn, usagesIn, firstDeliveries_append, if_pos known]

/-- A usage that is new counts for its keys, in its window. -/
theorem expectedCount_new {policy : UsagePolicy} {deliveries : List UsageDelivery}
    {delivery : UsageDelivery}
    (fresh : delivery.usage.id ∉ (firstDeliveries deliveries).map (·.usage.id)) (key : Text)
    (start : ℚ) :
    expectedCount policy (deliveries ++ [delivery]) key start =
      if key ∈ (scopeLevels delivery.usage.scope).map Prod.snd ∧
          windowStart delivery.now policy.windowMs = start then
        ⟨start, (expectedCount policy deliveries key start).runs + delivery.usage.runs,
          (expectedCount policy deliveries key start).tokens + delivery.usage.tokens⟩
      else expectedCount policy deliveries key start := by
  rw [expectedCount, usagesIn, firstDeliveries_append, if_neg fresh, List.filter_append,
    List.filter_singleton]
  by_cases mine : key ∈ (scopeLevels delivery.usage.scope).map Prod.snd ∧
      windowStart delivery.now policy.windowMs = start
  · rw [decide_eq_true mine, if_pos mine, cond_true, List.map_append, List.map_append,
      List.map_append, List.sum_append, List.sum_append]
    simp only [List.map_cons, List.map_nil, List.sum_cons, List.sum_nil, add_zero]
    rfl
  · rw [decide_eq_false mine, if_neg mine, cond_false, List.append_nil]
    rfl

/-! ## The invariant -/

/-- The last window starts no earlier than the others. -/
theorem windowStart_mono {m n : ℕ} {windowMs : ℚ} (small : n < 2 ^ 53) (order : m ≤ n)
    (length : isPositiveInt windowMs = true) : windowStart m windowMs ≤ windowStart n windowMs := by
  obtain ⟨w, rfl, positive, wide⟩ := isPositiveInt_iff.mp length
  rw [windowStart_natCast (order.trans_lt small) positive wide,
    windowStart_natCast small positive wide]
  exact_mod_cast Nat.mul_le_mul_right w (Nat.div_le_div_right order)

/-- **The invariant of the accounting**: the identifiers that are kept are those of the first
deliveries, and from the last delivery on the current windows hold what is expected. -/
structure Accounted (policy : UsagePolicy) (ledger : Ledger) : Prop where
  ids : ledger.state.usageIds = (firstDeliveries ledger.accepted).map (·.usage.id)
  distinct : ledger.state.windows.keys.Nodup
  counts : ∀ entry ∈ ledger.state.windows, entry.2.Valid
  instants : ∀ delivery ∈ ledger.accepted, isSafeCount delivery.now = true
  current : ∀ (n : ℕ) (key : Text), n < 2 ^ 53 →
    (∀ delivery ∈ ledger.accepted, delivery.now ≤ n) →
    currentCount ledger.state key (windowStart n policy.windowMs) =
      expectedCount policy ledger.accepted key (windowStart n policy.windowMs)

theorem accounted_start (policy : UsagePolicy) : Accounted policy .start where
  ids := rfl
  distinct := List.nodup_nil
  counts := nofun
  instants := nofun
  current := fun _ _ _ _ => rfl

/-- Nothing was expected yet in a window after the last delivery. -/
theorem expectedCount_of_later {policy : UsagePolicy} {deliveries : List UsageDelivery} {start : ℚ}
    (before : ∀ delivery ∈ deliveries, windowStart delivery.now policy.windowMs ≠ start)
    (key : Text) : expectedCount policy deliveries key start = ⟨start, 0, 0⟩ := by
  have none_ : usagesIn policy deliveries key start = [] := by
    rw [usagesIn, List.map_eq_nil_iff, List.filter_eq_nil_iff]
    intro delivery first same
    rw [decide_eq_true_eq] at same
    exact before delivery (firstDeliveries_subset deliveries first) same.2
  rw [expectedCount, none_]
  rfl

/-- What is read of a window that is there. -/
theorem currentCount_of_get {state : QuotaState} {key : Text} {count : WindowCount} {start : ℚ}
    (read : state.windows.get key = some count) :
    currentCount state key start = if count.start = start then count else ⟨start, 0, 0⟩ := by
  rw [currentCount, read]

/-- A window that has not ended is still read after the purge of the others. -/
theorem currentCount_of_filter {state next : QuotaState} {key : Text} {start least : ℚ}
    (read : next.windows.get key = (state.windows.get key).filter (least ≤ ·.start))
    (later : least ≤ start) : currentCount next key start = currentCount state key start := by
  rw [currentCount, currentCount, read]
  cases present : state.windows.get key with
  | none => rfl
  | some count =>
    by_cases same : count.start = start
    · rw [Option.filter_some, if_pos (decide_eq_true (same ▸ later))]
    · by_cases purged : least ≤ count.start
      · rw [Option.filter_some, if_pos (decide_eq_true purged)]
      · rw [Option.filter_some, if_neg (by simpa using purged)]
        exact (if_neg same).symm

/-- **A usage that is new is counted once.** -/
theorem accounted_new {policy : UsagePolicy} {ledger : Ledger} {delivery : UsageDelivery}
    {windows : OrderedMap Text WindowCount} (accounted : Accounted policy ledger)
    (input : UsageInput delivery.usage delivery.now policy)
    (fresh : delivery.usage.id ∉ ledger.state.usageIds)
    (room : (ledger.state.usageIds.length + 1 : ℕ) ≤ policy.maxSeenIds)
    (order : ∀ earlier ∈ ledger.accepted, earlier.now ≤ delivery.now)
    (added : addToWindows ledger.state delivery.usage (windowStart delivery.now policy.windowMs) =
      .ok windows) :
    Accounted policy ⟨usageRecorded ledger.state delivery.usage delivery.now policy windows,
      ledger.accepted ++ [delivery]⟩ := by
  obtain ⟨m, instant, small⟩ := isSafeCount_iff.mp input.now
  have begins : isSafeCount (windowStart delivery.now policy.windowMs) = true := by
    obtain ⟨w, length, positive, wide⟩ := isPositiveInt_iff.mp input.windowMs
    rw [instant, length, windowStart_natCast small positive wide]
    exact isSafeCount_natCast ((Nat.div_mul_le_self m w).trans_lt small)
  have new : delivery.usage.id ∉ (firstDeliveries ledger.accepted).map (·.usage.id) := accounted.ids ▸ fresh
  obtain ⟨distinct, written, kept⟩ := addToWindows_spec accounted.distinct added
  refine ⟨?_, distinct, ?_, ?_, ?_⟩
  · obtain ⟨most, same, _, _⟩ := isPositiveInt_iff.mp input.seenIds
    rw [same, Nat.cast_le] at room
    rw [firstDeliveries_append, if_neg new, List.map_append, ← accounted.ids]
    show takeLast ⌊policy.maxSeenIds⌋.toNat (ledger.state.usageIds ++ [delivery.usage.id]) = _
    rw [same, Int.floor_natCast, Int.toNat_natCast, takeLast, List.length_append,
      List.length_singleton, Nat.sub_eq_zero_of_le room, List.drop_zero]
    rfl
  · intro entry member
    rcases mem_addToWindows accounted.distinct added member with ⟨_, _, _, done⟩ | old
    · exact (counted_eq_ok accounted.counts begins input.runs input.tokens done).1
    · exact accounted.counts entry old
  · intro other member
    rcases List.mem_append.mp member with earlier | last
    · exact accounted.instants other earlier
    · rw [List.mem_singleton.mp last]
      exact input.now
  · intro n key smaller later
    have earlier : ∀ first ∈ ledger.accepted, first.now ≤ n := fun first member =>
      later first (List.mem_append_left _ member)
    have after : windowStart delivery.now policy.windowMs ≤ windowStart n policy.windowMs := by
      have last := later delivery (List.mem_append_right _ (List.mem_singleton_self _))
      rw [instant, Nat.cast_le] at last
      rw [instant]
      exact windowStart_mono smaller last input.windowMs
    rw [expectedCount_new new]
    by_cases level : key ∈ (scopeLevels delivery.usage.scope).map Prod.snd
    · obtain ⟨count, done, read⟩ := written key level
      obtain ⟨_, rfl⟩ := counted_eq_ok accounted.counts begins input.runs input.tokens done
      rw [currentCount_of_get read]
      by_cases now : windowStart delivery.now policy.windowMs = windowStart n policy.windowMs
      · rw [if_pos now, if_pos ⟨level, now⟩, now, accounted.current n key smaller earlier]
      · rw [if_neg now, if_neg fun both => now both.2]
        refine (expectedCount_of_later ?_ key).symm
        intro other member
        obtain ⟨k, instant', _⟩ := isSafeCount_iff.mp (accounted.instants other member)
        have before := order other member
        rw [instant, instant', Nat.cast_le] at before
        have bound := windowStart_mono small before input.windowMs
        rw [← instant', ← instant] at bound
        exact (bound.trans_lt (lt_of_le_of_ne after now)).ne
    · rw [if_neg fun both => level both.1, ← accounted.current n key smaller earlier]
      exact currentCount_of_filter (kept key level) after

/-- **An accepted delivery keeps the invariant.** -/
theorem deliver_accounted {policy : UsagePolicy} {ledger : Ledger} {delivery : UsageDelivery}
    (accounted : Accounted policy ledger)
    (few : ((((ledger.accepted ++ [delivery]).map (·.usage.id)).toFinset.card : ℕ) : ℚ) ≤
      policy.maxSeenIds)
    (order : ∀ earlier ∈ ledger.accepted, earlier.now ≤ delivery.now) :
    Accounted policy (ledger.deliver policy delivery) := by
  rw [Ledger.deliver]
  cases done : recordUsage ledger.state delivery.usage delivery.now policy delivery.expectedVersion with
  | error e => exact accounted
  | ok next =>
    obtain ⟨input, ⟨known, rfl⟩ | ⟨fresh, windows, added, rfl⟩⟩ := recordUsage_cases done
    · rw [accounted.ids] at known
      refine ⟨?_, accounted.distinct, accounted.counts, ?_, ?_⟩
      · rw [firstDeliveries_append, if_pos known]
        exact accounted.ids
      · intro other member
        rcases List.mem_append.mp member with earlier | last
        · exact accounted.instants other earlier
        · rw [List.mem_singleton.mp last]
          exact input.now
      · intro n key small later
        rw [expectedCount_replay known]
        apply accounted.current n key small
        exact fun earlier member => later earlier (List.mem_append_left _ member)
    · apply accounted_new accounted input fresh _ order added
      refine le_trans ?_ few
      have new : delivery.usage.id ∉ (firstDeliveries ledger.accepted).map (·.usage.id) :=
        accounted.ids ▸ fresh
      have distinct := nodup_firstDeliveries (ledger.accepted ++ [delivery])
      have length : ((firstDeliveries (ledger.accepted ++ [delivery])).map (·.usage.id)).length =
          ledger.state.usageIds.length + 1 := by
        rw [firstDeliveries_append, if_neg new, accounted.ids, List.map_append, List.length_append]
        rfl
      rw [← length, Nat.cast_le, ← List.toFinset_card_of_nodup distinct]
      apply Finset.card_le_card
      intro id member
      rw [List.mem_toFinset] at member ⊢
      exact List.map_subset _ (firstDeliveries_subset _) member

/-! ## Sequences -/

/-- The ledger after a sequence of deliveries. -/
def Ledger.deliverAll (policy : UsagePolicy) (deliveries : List UsageDelivery) : Ledger :=
  deliveries.foldl (Ledger.deliver policy) .start

/-- What is accepted was delivered, in the same order. -/
theorem accepted_sublist (policy : UsagePolicy) (deliveries : List UsageDelivery) :
    (Ledger.deliverAll policy deliveries).accepted.Sublist deliveries := by
  induction deliveries using List.reverseRecOn with
  | nil => exact List.Sublist.refl []
  | append_singleton deliveries delivery ih =>
    rw [Ledger.deliverAll, List.foldl_append]
    show ((Ledger.deliverAll policy deliveries).deliver policy delivery).accepted.Sublist _
    rw [Ledger.deliver]
    split
    · exact ih.append (List.Sublist.refl _)
    · exact ih.trans (List.sublist_append_left _ _)

theorem deliverAll_accounted {policy : UsagePolicy} {deliveries : List UsageDelivery}
    (ordered : deliveries.Pairwise (·.now ≤ ·.now))
    (few : (((deliveries.map (·.usage.id)).toFinset.card : ℕ) : ℚ) ≤ policy.maxSeenIds) :
    Accounted policy (Ledger.deliverAll policy deliveries) := by
  induction deliveries using List.reverseRecOn with
  | nil => exact accounted_start policy
  | append_singleton deliveries delivery ih =>
    have fewer : ∀ shorter : List UsageDelivery, shorter ⊆ deliveries ++ [delivery] →
        (((shorter.map (·.usage.id)).toFinset.card : ℕ) : ℚ) ≤ policy.maxSeenIds := by
      intro shorter subset
      refine le_trans ?_ few
      rw [Nat.cast_le]
      apply Finset.card_le_card
      intro id member
      rw [List.mem_toFinset] at member ⊢
      exact List.map_subset _ subset member
    obtain ⟨before, _, across⟩ := List.pairwise_append.mp ordered
    have sublist := accepted_sublist policy deliveries
    have accounted := ih before (fewer _ (List.subset_append_left _ _))
    rw [Ledger.deliverAll, List.foldl_append]
    show Accounted policy ((Ledger.deliverAll policy deliveries).deliver policy delivery)
    apply deliver_accounted accounted
    · apply fewer
      exact (sublist.append (List.Sublist.refl _)).subset
    · intro earlier member
      exact across earlier (sublist.subset member) delivery (List.mem_singleton_self _)

/-- **The accounting of usage is exact.** In every sequence of deliveries with a clock that never
goes back and with no more usages than are remembered, the current window of every key holds the
sum over the distinct usages that were accepted for it. -/
theorem usage_accounting_exact {policy : UsagePolicy} {deliveries : List UsageDelivery} {now : ℚ}
    (ordered : deliveries.Pairwise (·.now ≤ ·.now))
    (few : (((deliveries.map (·.usage.id)).toFinset.card : ℕ) : ℚ) ≤ policy.maxSeenIds)
    (instant : isSafeCount now = true) (later : ∀ delivery ∈ deliveries, delivery.now ≤ now)
    (key : Text) :
    currentCount (Ledger.deliverAll policy deliveries).state key (windowStart now policy.windowMs) =
      expectedCount policy (Ledger.deliverAll policy deliveries).accepted key
        (windowStart now policy.windowMs) := by
  obtain ⟨n, rfl, small⟩ := isSafeCount_iff.mp instant
  apply (deliverAll_accounted ordered few).current n key small
  intro delivery member
  exact later delivery ((accepted_sublist policy deliveries).subset member)

/-! ## A usage delivered twice -/

def hourPolicy : UsagePolicy := ⟨3600000, 2, none, none, none⟩

def webUsage (id : String) (tokens : ℚ) : Usage :=
  ⟨Text.lit id, ⟨Text.lit "acme", some (Text.lit "web"), none⟩, 1, tokens⟩

/-- Two usages, the first one delivered again. -/
def twice : List UsageDelivery :=
  [⟨webUsage "u1" 10, 1700000000000, none⟩, ⟨webUsage "u2" 5, 1700000001000, none⟩,
    ⟨webUsage "u1" 10, 1700000002000, none⟩]

theorem usage_accounting_exact_twice :
    currentCount (Ledger.deliverAll hourPolicy twice).state (organizationKey (Text.lit "acme"))
        (windowStart 1700000002000 hourPolicy.windowMs) =
      expectedCount hourPolicy (Ledger.deliverAll hourPolicy twice).accepted
        (organizationKey (Text.lit "acme")) (windowStart 1700000002000 hourPolicy.windowMs) := by
  have checked : twice.Pairwise (·.now ≤ ·.now) ∧
      (((twice.map (·.usage.id)).toFinset.card : ℕ) : ℚ) ≤ hourPolicy.maxSeenIds ∧
      isSafeCount 1700000002000 = true ∧ ∀ delivery ∈ twice, delivery.now ≤ 1700000002000 := by
    decide +kernel
  exact usage_accounting_exact checked.1 checked.2.1 checked.2.2.1 checked.2.2.2 _

example : currentCount (Ledger.deliverAll hourPolicy twice).state (organizationKey (Text.lit "acme"))
    (windowStart 1700000002000 hourPolicy.windowMs) = ⟨1699999200000, 2, 15⟩ := by
  decide +kernel

end Koklo.Delivery.Quota
