import Koklo.Domain.DependencyGraph
import Koklo.Domain.TicketTransitions
import Koklo.Foundations.IsoInstant
import Koklo.Foundations.StableSort
import Mathlib.Data.Prod.Lex

/-!
# The order in which tickets are selected

Tickets are ranked by the active sprint, their priority, whether their dependencies are satisfied,
their age and the number of their key. The comparison chains these criteria; it is the comparison of
one lexicographic key (`compareRanked_le_zero_iff`), and the number of the key tells any two tickets
apart, so the ranking of tickets with distinct keys does not depend on the order in which they are
given (`selection_independent`). The queue keeps the eligible tickets, and the next ticket is the
first of those of the active sprint (`nextTicket_eq_some_iff`).
-/

set_option autoImplicit false

namespace Koklo.Domain

open Koklo.Foundations

/-- The priorities of tickets, from the lowest to the highest. -/
inductive TicketPriority where
  | low | medium | high | critical
deriving DecidableEq

/-- The position in `TICKET_PRIORITIES`. -/
def priorityRank : TicketPriority → ℕ
  | .low => 0
  | .medium => 1
  | .high => 2
  | .critical => 3

/-- What the selection reads of a ticket. -/
structure Ticket where
  key : TicketKey
  status : TicketStatus
  priority : TicketPriority
  sprint : Option Text
  createdAt : IsoInstant.Instant

/-- What a selection is made for. -/
structure SelectionContext where
  activeSprint : Option Text

/-! ## Eligibility -/

/-- `dependenciesOf`, in the edges of a graph. -/
def dependenciesOf (graph : List Dependency) (key : TicketKey) : List Dependency :=
  graph.filter fun edge => edge.ticket = key

/-- The tickets under their keys. -/
def byKeyMap (tickets : List Ticket) : OrderedMap TicketKey Ticket :=
  .ofEntries (tickets.map fun ticket => (ticket.key, ticket))

/-- Every `blocks` dependency is a ticket that is `done`; a missing one is not. -/
def areDependenciesSatisfied (ticket : Ticket) (graph : List Dependency)
    (ticketsByKey : OrderedMap TicketKey Ticket) : Bool :=
  (dependenciesOf graph ticket.key).all fun edge =>
    decide (edge.type ≠ .blocks) ||
      decide ((ticketsByKey.get edge.dependsOn).map Ticket.status = some .done)

/-- The ticket is to do, and nothing that blocks it is left. -/
def isEligible (ticket : Ticket) (graph : List Dependency)
    (ticketsByKey : OrderedMap TicketKey Ticket) : Bool :=
  decide (ticket.status = .todo) && areDependenciesSatisfied ticket graph ticketsByKey

/-! ## The ranking -/

/-- The ticket is in the active sprint. -/
def isInActiveSprint (ticket : Ticket) (context : SelectionContext) : Bool :=
  context.activeSprint.isSome && decide (ticket.sprint = context.activeSprint)

/-- A ticket with what it is ranked by. -/
structure Ranked where
  ticket : Ticket
  active : ℤ
  satisfied : ℤ
  created : ℤ
  number : ℤ

/-- What a ticket is ranked by. -/
def decorate (graph : List Dependency) (ticketsByKey : OrderedMap TicketKey Ticket)
    (context : SelectionContext) (ticket : Ticket) : Ranked where
  ticket := ticket
  active := if isInActiveSprint ticket context then 0 else 1
  satisfied := if areDependenciesSatisfied ticket graph ticketsByKey then 0 else 1
  created := ticket.createdAt.ms
  number := ticket.key.number

/-- `a || b`, of numbers. -/
def orNext (difference next : ℤ) : ℤ := if difference ≠ 0 then difference else next

/-- The active sprint first, then the priority, what waits for nothing, the oldest, and the number. -/
def compareRanked (a b : Ranked) : ℤ :=
  orNext (a.active - b.active)
    (orNext (priorityRank b.ticket.priority - priorityRank a.ticket.priority)
      (orNext (a.satisfied - b.satisfied)
        (orNext (a.created - b.created) (a.number - b.number))))

/-- The tickets in their rank. -/
def rankTickets (tickets : List Ticket) (graph : List Dependency) (context : SelectionContext) :
    List Ticket :=
  (sortWith compareRanked (tickets.map (decorate graph (byKeyMap tickets) context))).map
    Ranked.ticket

/-- The eligible tickets in their rank. -/
def selectionOrder (tickets : List Ticket) (graph : List Dependency)
    (context : SelectionContext) : List Ticket :=
  (rankTickets tickets graph context).filter fun ticket =>
    isEligible ticket graph (byKeyMap tickets)

/-- The first eligible ticket of the active sprint. -/
def nextTicket (tickets : List Ticket) (graph : List Dependency) (context : SelectionContext) :
    Option Ticket :=
  (selectionOrder tickets graph context).find? fun ticket => isInActiveSprint ticket context

/-! ## One key for the comparison -/

/-- The criteria as one key, in lexicographic order. -/
abbrev RankKey := ℤ ×ₗ ℤ ×ₗ ℤ ×ₗ ℤ ×ₗ ℤ

def Ranked.rankKey (ranked : Ranked) : RankKey :=
  toLex (ranked.active, toLex (-(priorityRank ranked.ticket.priority : ℤ),
    toLex (ranked.satisfied, toLex (ranked.created, ranked.number))))

/-- A chain of comparisons is a lexicographic comparison. -/
theorem orNext_le_zero_iff {α : Type} [LinearOrder α] {a b next : ℤ} {rest rest' : α}
    (later : next ≤ 0 ↔ rest ≤ rest') :
    orNext (a - b) next ≤ 0 ↔ toLex (a, rest) ≤ toLex (b, rest') := by
  rw [Prod.Lex.toLex_le_toLex, ← later, orNext]
  by_cases same : a = b
  · rw [if_neg (by omega)]
    simp only [same, lt_irrefl, false_or, true_and]
  · rw [if_pos (by omega)]
    simp only [same, false_and, or_false]
    omega

/-- **The comparison is that of the keys.** -/
theorem compareRanked_le_zero_iff (a b : Ranked) :
    compareRanked a b ≤ 0 ↔ a.rankKey ≤ b.rankKey := by
  have number : a.number - b.number ≤ 0 ↔ a.number ≤ b.number := sub_nonpos
  have created := @orNext_le_zero_iff ℤ _ a.created b.created _ _ _ number
  have satisfied := @orNext_le_zero_iff _ _ a.satisfied b.satisfied _ _ _ created
  have priority := @orNext_le_zero_iff _ _ (-(priorityRank a.ticket.priority : ℤ))
    (-(priorityRank b.ticket.priority : ℤ)) _ _ _ satisfied
  rw [neg_sub_neg] at priority
  exact orNext_le_zero_iff priority

/-! ## The documented order -/

section Outranks

variable (graph : List Dependency) (ticketsByKey : OrderedMap TicketKey Ticket)
  (context : SelectionContext)

/-- The documented order: the active sprint, the highest priority, satisfied dependencies, the
oldest ticket, the smallest number. -/
def Outranks (first second : Ticket) : Prop :=
  let active := fun ticket => isInActiveSprint ticket context
  let satisfied := fun ticket => areDependenciesSatisfied ticket graph ticketsByKey
  (active first = true ∧ active second = false) ∨ active first = active second ∧
    (priorityRank second.priority < priorityRank first.priority ∨
      priorityRank first.priority = priorityRank second.priority ∧
      ((satisfied first = true ∧ satisfied second = false) ∨ satisfied first = satisfied second ∧
        (first.createdAt.ms < second.createdAt.ms ∨
          first.createdAt.ms = second.createdAt.ms ∧ first.key.number < second.key.number)))

/-- The key that a ticket is ranked by. -/
def ticketKey (ticket : Ticket) : RankKey := (decorate graph ticketsByKey context ticket).rankKey

/-- Of two truth values, the one that holds comes first. -/
theorem indicator_lt_iff (first second : Bool) :
    ((if first then 0 else 1 : ℤ) < if second then 0 else 1) ↔ first = true ∧ second = false := by
  cases first <;> cases second <;> decide

theorem indicator_eq_iff (first second : Bool) :
    ((if first then 0 else 1 : ℤ) = if second then 0 else 1) ↔ first = second := by
  cases first <;> cases second <;> decide

/-- **The documented order is that of the keys.** -/
theorem outranks_iff (first second : Ticket) : Outranks graph ticketsByKey context first second ↔
    ticketKey graph ticketsByKey context first < ticketKey graph ticketsByKey context second := by
  simp only [ticketKey, Ranked.rankKey, decorate, Prod.Lex.toLex_lt_toLex, indicator_lt_iff,
    indicator_eq_iff, neg_lt_neg_iff, neg_inj, Nat.cast_lt, Nat.cast_inj]
  rfl

theorem Outranks.trans {first second third : Ticket}
    (early : Outranks graph ticketsByKey context first second)
    (late : Outranks graph ticketsByKey context second third) :
    Outranks graph ticketsByKey context first third := by
  rw [outranks_iff] at *
  exact early.trans late

theorem Outranks.asymm {first second : Ticket}
    (early : Outranks graph ticketsByKey context first second) :
    ¬ Outranks graph ticketsByKey context second first := by
  rw [outranks_iff] at *
  exact early.asymm

/-- A ticket of another key comes before or after. -/
theorem outranks_or_outranked {first second : Ticket} (other : first.key ≠ second.key) :
    Outranks graph ticketsByKey context first second ∨
      Outranks graph ticketsByKey context second first := by
  rw [outranks_iff, outranks_iff]
  apply lt_or_gt_of_ne
  intro same
  apply other
  apply TicketKey.ext_number
  simp only [ticketKey, Ranked.rankKey, decorate, EmbeddingLike.apply_eq_iff_eq, Prod.mk.injEq,
    Nat.cast_inj] at same
  exact same.2.2.2.2

end Outranks

/-! ## The ranking is the same for every order of the tickets -/

theorem byKeyMap_get_perm {tickets others : List Ticket} (same : tickets.Perm others)
    (distinct : (tickets.map Ticket.key).Nodup) (key : TicketKey) :
    (byKeyMap tickets).get key = (byKeyMap others).get key := by
  refine OrderedMap.get_ofEntries_perm (same.map _) ?_ key
  rw [List.map_map]
  exact distinct

theorem areDependenciesSatisfied_congr {byKey byKey' : OrderedMap TicketKey Ticket}
    (same : ∀ key, byKey.get key = byKey'.get key) (ticket : Ticket) (graph : List Dependency) :
    areDependenciesSatisfied ticket graph byKey = areDependenciesSatisfied ticket graph byKey' := by
  simp only [areDependenciesSatisfied, same]

theorem isEligible_congr {byKey byKey' : OrderedMap TicketKey Ticket}
    (same : ∀ key, byKey.get key = byKey'.get key) (ticket : Ticket) (graph : List Dependency) :
    isEligible ticket graph byKey = isEligible ticket graph byKey' := by
  rw [isEligible, isEligible, areDependenciesSatisfied_congr same]

theorem decorate_congr {byKey byKey' : OrderedMap TicketKey Ticket}
    (same : ∀ key, byKey.get key = byKey'.get key) (graph : List Dependency)
    (context : SelectionContext) : decorate graph byKey context = decorate graph byKey' context := by
  funext ticket
  rw [decorate, decorate, areDependenciesSatisfied_congr same]

section Ranking

variable {tickets : List Ticket} (distinct : (tickets.map Ticket.key).Nodup)
  (graph : List Dependency) (context : SelectionContext)

include distinct

/-- Tickets with distinct keys have distinct rank keys. -/
theorem nodup_rankKey (byKey : OrderedMap TicketKey Ticket) :
    ((tickets.map (decorate graph byKey context)).map Ranked.rankKey).Nodup := by
  rw [List.map_map]
  refine List.Nodup.map_on ?_ distinct.of_map
  intro first member second member' same
  by_contra other
  have keys : first.key ≠ second.key := fun equal =>
    other (List.inj_on_of_nodup_map distinct member member' equal)
  rcases outranks_or_outranked graph byKey context keys with early | late
  · exact ((outranks_iff graph byKey context first second).mp early).ne same
  · exact ((outranks_iff graph byKey context second first).mp late).ne same.symm

theorem rankTickets_congr {others : List Ticket} (same : tickets.Perm others) :
    rankTickets tickets graph context = rankTickets others graph context := by
  rw [rankTickets, rankTickets, decorate_congr (byKeyMap_get_perm same distinct)]
  rw [sortWith_perm compareRanked_le_zero_iff (same.map _)
    (nodup_rankKey distinct graph context _)]

theorem selectionOrder_congr {others : List Ticket} (same : tickets.Perm others) :
    selectionOrder tickets graph context = selectionOrder others graph context := by
  rw [selectionOrder, selectionOrder, rankTickets_congr distinct graph context same]
  refine List.filter_congr fun ticket _ => ?_
  exact isEligible_congr (byKeyMap_get_perm same distinct) ticket graph

omit distinct in
theorem rankTickets_perm : (rankTickets tickets graph context).Perm tickets := by
  have sorted := (perm_sortWith compareRanked
    (tickets.map (decorate graph (byKeyMap tickets) context))).map Ranked.ticket
  rw [List.map_map] at sorted
  refine sorted.trans (.of_eq ?_)
  exact List.map_id tickets

/-- **The ranking is sorted by the documented criteria.** -/
theorem pairwise_rankTickets :
    (rankTickets tickets graph context).Pairwise (Outranks graph (byKeyMap tickets) context) := by
  have sorted := pairwise_sortWith compareRanked_le_zero_iff
    (tickets.map (decorate graph (byKeyMap tickets) context))
  have apart : (sortWith compareRanked (tickets.map (decorate graph (byKeyMap tickets)
      context))).Pairwise fun a b => a.rankKey ≠ b.rankKey := by
    have perm := (perm_sortWith compareRanked
      (tickets.map (decorate graph (byKeyMap tickets) context))).map Ranked.rankKey
    have nodup := perm.nodup_iff.mpr (nodup_rankKey distinct graph context _)
    exact List.pairwise_map.mp nodup
  have strict := sorted.and apart
  rw [rankTickets, List.pairwise_map]
  refine strict.imp_of_mem ?_
  intro a b member member' order
  obtain ⟨first, _, rfl⟩ := List.mem_map.mp ((perm_sortWith _ _).mem_iff.mp member)
  obtain ⟨second, _, rfl⟩ := List.mem_map.mp ((perm_sortWith _ _).mem_iff.mp member')
  exact (outranks_iff graph (byKeyMap tickets) context first second).mpr
    (lt_of_le_of_ne order.1 order.2)

/-! ## The queue and the next ticket -/

omit distinct in
/-- The queue has exactly the eligible tickets. -/
theorem selectionOrder_perm : (selectionOrder tickets graph context).Perm
    (tickets.filter fun ticket => isEligible ticket graph (byKeyMap tickets)) :=
  (rankTickets_perm graph context).filter _

/-- **The next ticket** is eligible, of the active sprint, and before every other such ticket. -/
theorem nextTicket_eq_some_iff {ticket : Ticket} :
    nextTicket tickets graph context = some ticket ↔
      (ticket ∈ tickets ∧ isEligible ticket graph (byKeyMap tickets) = true ∧
        isInActiveSprint ticket context = true) ∧
      ∀ other ∈ tickets, isEligible other graph (byKeyMap tickets) = true →
        isInActiveSprint other context = true → other ≠ ticket →
          Outranks graph (byKeyMap tickets) context ticket other := by
  have order := (pairwise_rankTickets distinct graph context).filter
    fun ticket => isEligible ticket graph (byKeyMap tickets)
  have queued : ∀ other, other ∈ selectionOrder tickets graph context ↔
      other ∈ tickets ∧ isEligible other graph (byKeyMap tickets) = true := by
    intro other
    rw [(selectionOrder_perm graph context).mem_iff, List.mem_filter]
  constructor
  · intro found
    obtain ⟨active, before, after, whole, passed⟩ := List.find?_eq_some_iff_append.mp found
    have member : ticket ∈ selectionOrder tickets graph context := List.mem_of_find?_eq_some found
    obtain ⟨inside, eligible⟩ := (queued ticket).mp member
    refine ⟨⟨inside, eligible, active⟩, fun other inside' eligible' active' apart => ?_⟩
    have member' := (queued other).mpr ⟨inside', eligible'⟩
    rw [← selectionOrder, whole] at order
    rw [whole] at member'
    rcases List.mem_append.mp member' with earlier | later
    · have absent := passed other earlier
      rw [active'] at absent
      cases absent
    · rcases List.mem_cons.mp later with same | later
      · exact absurd same apart
      · exact (List.pairwise_cons.mp (List.pairwise_append.mp order).2.1).1 other later
  · rintro ⟨⟨inside, eligible, active⟩, least⟩
    have member := (queued ticket).mpr ⟨inside, eligible⟩
    have some : (nextTicket tickets graph context).isSome := by
      rw [nextTicket, List.find?_isSome]
      exact ⟨ticket, member, active⟩
    obtain ⟨found, first⟩ := Option.isSome_iff_exists.mp some
    rw [first, Option.some.injEq]
    by_contra apart
    obtain ⟨active', before, after, whole, passed⟩ := List.find?_eq_some_iff_append.mp first
    obtain ⟨inside', eligible'⟩ := (queued found).mp (List.mem_of_find?_eq_some first)
    have early := least found inside' eligible' active' apart
    rw [← selectionOrder, whole] at order
    rw [whole] at member
    rcases List.mem_append.mp member with earlier | later
    · have absent := passed ticket earlier
      rw [active] at absent
      cases absent
    · rcases List.mem_cons.mp later with same | later
      · exact apart same.symm
      · exact early.asymm graph (byKeyMap tickets) context
          ((List.pairwise_cons.mp (List.pairwise_append.mp order).2.1).1 ticket later)

/-- **The selection does not depend on the order of its input**, and follows the documented
criteria, which order any two tickets of distinct keys. -/
theorem selection_independent :
    (∀ first second third : Ticket, Outranks graph (byKeyMap tickets) context first second →
      ¬ Outranks graph (byKeyMap tickets) context second first ∧
        (Outranks graph (byKeyMap tickets) context second third →
          Outranks graph (byKeyMap tickets) context first third)) ∧
    (∀ first second : Ticket, first.key ≠ second.key →
      Outranks graph (byKeyMap tickets) context first second ∨
        Outranks graph (byKeyMap tickets) context second first) ∧
    (∀ others : List Ticket, tickets.Perm others →
      rankTickets others graph context = rankTickets tickets graph context ∧
        selectionOrder others graph context = selectionOrder tickets graph context ∧
        nextTicket others graph context = nextTicket tickets graph context) ∧
    (rankTickets tickets graph context).Perm tickets ∧
    (rankTickets tickets graph context).Pairwise (Outranks graph (byKeyMap tickets) context) ∧
    (selectionOrder tickets graph context).Perm
      (tickets.filter fun ticket => isEligible ticket graph (byKeyMap tickets)) ∧
    (selectionOrder tickets graph context).Pairwise (Outranks graph (byKeyMap tickets) context) ∧
    ∀ ticket, nextTicket tickets graph context = some ticket ↔
      (ticket ∈ tickets ∧ isEligible ticket graph (byKeyMap tickets) = true ∧
        isInActiveSprint ticket context = true) ∧
      ∀ other ∈ tickets, isEligible other graph (byKeyMap tickets) = true →
        isInActiveSprint other context = true → other ≠ ticket →
          Outranks graph (byKeyMap tickets) context ticket other := by
  refine ⟨fun first second third early => ⟨early.asymm _ _ _, early.trans _ _ _⟩,
    fun first second => outranks_or_outranked _ _ _, fun others same => ?_, rankTickets_perm graph context,
    pairwise_rankTickets distinct graph context, selectionOrder_perm graph context,
    (pairwise_rankTickets distinct graph context).filter _,
    fun ticket => nextTicket_eq_some_iff distinct graph context⟩
  have queue := selectionOrder_congr distinct graph context same
  refine ⟨(rankTickets_congr distinct graph context same).symm, queue.symm, ?_⟩
  rw [nextTicket, nextTicket, queue]

end Ranking

theorem newYear_accepted :
    IsoInstant.isoUtc.accepts (Text.lit "2026-01-01T00:00:00Z") = true := by decide +kernel

theorem newYear_read :
    IsoInstant.isoInstant (Text.lit "2026-01-01T00:00:00Z") = some 1767225600000 := by
  decide +kernel

/-- A ticket of the first instant of 2026, ready to be taken. -/
def readyTicket (key : TicketKey) (priority : TicketPriority) : Ticket where
  key := key
  status := .todo
  priority := priority
  sprint := some (Text.lit "s")
  createdAt := ⟨_, _, newYear_accepted, newYear_read⟩

/-- A ticket of low priority, and two of high priority, of which the first waits for it. -/
def threeTickets : List Ticket :=
  [readyTicket ⟨Text.lit "TK-21", 21, rfl⟩ .low, readyTicket ⟨Text.lit "TK-22", 22, rfl⟩ .high,
    readyTicket ⟨Text.lit "TK-23", 23, rfl⟩ .high]

def oneDependency : List Dependency :=
  [⟨⟨Text.lit "TK-22", 22, rfl⟩, ⟨Text.lit "TK-21", 21, rfl⟩, .blocks⟩]

/-- The ticket that waits is ranked after the other of its priority and is not in the queue, in
whatever order the tickets are given. -/
theorem selection_independent_three :
    rankTickets threeTickets.reverse oneDependency ⟨some (Text.lit "s")⟩ =
        rankTickets threeTickets oneDependency ⟨some (Text.lit "s")⟩ ∧
      (rankTickets threeTickets oneDependency ⟨some (Text.lit "s")⟩).map (·.key.number) =
        [23, 22, 21] ∧
      (selectionOrder threeTickets oneDependency ⟨some (Text.lit "s")⟩).map (·.key.number) =
        [23, 21] := by
  have independent := @selection_independent threeTickets (by decide) oneDependency
    ⟨some (Text.lit "s")⟩
  exact ⟨(independent.2.2.1 _ (List.reverse_perm threeTickets).symm).1, by decide +kernel,
    by decide +kernel⟩

end Koklo.Domain
