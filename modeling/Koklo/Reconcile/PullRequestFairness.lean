import Koklo.Reconcile.PullRequestRotation

/-!
# Whether the rotation starves a ticket

A pass handles each ticket at most once and reads within its cap, and all tickets unless it is
stopped. It resumes after the last ticket that it has reconciled, but for one case (`Stalls`): it
comes to the end of the list, goes back to its start, and is stopped at the first ticket there by
the limit of the rate. The position then stays what it was (`reconciles_iff`), and the next pass
visits the same tickets again. Without this case the passes are fair (`passes_fair`): a
ticket is visited twice only when all the others have been (`rotation_fair_iff`).
-/

set_option autoImplicit false

namespace Koklo.Reconcile

open Koklo.Foundations

/-- The tickets that were reconciled, in order. -/
def visited (run : PassRun) : List PullRequestTicketRow :=
  (run.calls.filter fun call => call.2 ≠ .stop).map Prod.fst

/-- The number of tickets that cost a call of the provider. -/
def providerReads (run : PassRun) : ℕ := run.calls.countP fun call => call.2 ≠ .skipped

variable {Repo : Type} {s : Surroundings Repo} {cap : ℕ}

section Walked

variable {tickets front back : List PullRequestTicketRow}

theorem visited_walked (walked : Walked s cap tickets .start front back) :
    visited (walk s cap tickets .start).1 = front := by
  have kept : ∀ {more : List PullRequestTicketRow},
      (∀ ticket ∈ more, outcome s ticket ≠ .stop) →
      (((more.map (entry s)).filter fun call => call.2 ≠ .stop).map Prod.fst) = more := by
    intro more free
    have all : (more.map (entry s)).filter (fun call => call.2 ≠ .stop) = more.map (entry s) := by
      apply List.filter_eq_self.mpr
      intro call member
      obtain ⟨ticket, inside, rfl⟩ := List.mem_map.mp member
      exact decide_eq_true (free ticket inside)
    rw [all, List.map_map]
    exact List.map_id _
  have ends := walked.ends
  unfold visited
  generalize (walk s cap tickets .start).2.stopped = stopped at ends
  cases ends with
  | finished none recorded below => rw [recorded]; exact kept walked.free
  | limited some stop recorded below =>
    rename_i ticket rest
    have last : ([ticket].map (entry s)).filter (fun call => call.2 ≠ .stop) = [] := by
      simp [entry, stop]
    rw [recorded, PassRun.start, List.nil_append, List.map_append, List.filter_append, last,
      List.append_nil, kept walked.free]
  | capped some recorded full => rw [recorded]; exact kept walked.free

/-- The number of reads of tickets that are not limited. -/
theorem countP_entry (free : ∀ ticket ∈ front, outcome s ticket ≠ .stop) :
    (front.map (entry s)).countP (fun call => call.2 ≠ .skipped) = front.countP (isRead s) := by
  rw [List.countP_map]
  apply List.countP_congr
  intro ticket member
  have free' := free ticket member
  have same : outcome s ticket ≠ .skipped ↔ outcome s ticket = .read := by
    cases result : outcome s ticket with
    | read => simp
    | skipped => simp
    | stop => exact absurd result free'
  exact decide_eq_true_iff.trans (same.trans decide_eq_true_iff.symm)

/-- The reads of a walk are within the cap, a cap of zero being one. -/
theorem providerReads_walked (walked : Walked s cap tickets .start front back) :
    providerReads (walk s cap tickets .start).1 ≤ max cap 1 := by
  have total := walked.reads
  have ends := walked.ends
  have zero : PassRun.start.reads = 0 := rfl
  have blank : PassRun.start.calls = [] := rfl
  rw [zero, Nat.zero_add] at total
  unfold providerReads
  generalize (walk s cap tickets .start).2.stopped = stopped at ends
  cases ends with
  | finished none recorded below =>
    rw [recorded, blank, List.nil_append, countP_entry walked.free, ← total]
    exact below.le
  | limited some stop recorded below =>
    rename_i ticket rest
    have one := @List.countP_le_length _ (fun call => decide (call.2 ≠ Outcome.skipped))
      ([ticket].map (entry s))
    rw [recorded, blank, List.nil_append, List.map_append, List.countP_append,
      countP_entry walked.free, ← total]
    exact (Nat.add_le_add_left one _).trans below
  | capped some recorded full =>
    rw [recorded, blank, List.nil_append, countP_entry walked.free, ← total, full]

/-- A ticket that is not skipped is met, or one that stops the walk before it. -/
theorem providerReads_pos (walked : Walked s cap tickets .start front back)
    {ticket : PullRequestTicketRow} (member : ticket ∈ tickets)
    (costs : outcome s ticket ≠ .skipped) :
    0 < providerReads (walk s cap tickets .start).1 := by
  have met : ∀ {calls : List PullRequestTicketRow} {other : PullRequestTicketRow},
      other ∈ calls → outcome s other ≠ .skipped →
      0 < (calls.map (entry s)).countP (fun call => call.2 ≠ .skipped) := by
    intro calls other inside other'
    exact List.countP_pos_iff.mpr ⟨entry s other, List.mem_map_of_mem inside, decide_eq_true other'⟩
  have ends := walked.ends
  have whole := walked.whole
  have blank : PassRun.start.calls = [] := rfl
  unfold providerReads
  generalize (walk s cap tickets .start).2.stopped = stopped at ends
  cases ends with
  | finished none recorded below =>
    rw [none, List.append_nil] at whole
    rw [recorded, blank, List.nil_append]
    exact met (whole ▸ member) costs
  | limited some stop recorded below =>
    rw [recorded, blank, List.nil_append]
    exact met (List.mem_append_right _ (List.mem_singleton_self _)) (by rw [stop]; decide)
  | capped some recorded full =>
    obtain ⟨read, inside, found⟩ := some
    rw [recorded, blank, List.nil_append]
    exact met inside (by rw [found]; decide)

end Walked

/-! ## Where a pass resumes -/

/-- The tickets beyond the position are all handled, and the first ticket of the list, up to the
position, meets the limit of the rate. -/
def Stalls (s : Surroundings Repo) (cap : ℕ) (cursor : Option Text) : Prop :=
  remaining s cursor ≠ [] ∧ (∀ ticket ∈ remaining s cursor, outcome s ticket ≠ .stop) ∧
    (remaining s cursor).countP (isRead s) < max cap 1 ∧
    ∃ ticket rest, before s cursor = ticket :: rest ∧ outcome s ticket = .stop

theorem start_fresh : PassRun.start.reads < max cap 1 := by
  have zero : PassRun.start.reads = 0 := rfl
  omega

/-- A walk goes to the end when no ticket is limited and the reads are below the cap. -/
theorem firstWalk_free_iff {cursor : Option Text} : (firstWalk s cap cursor).2.stopped = false ↔
    (∀ ticket ∈ remaining s cursor, outcome s ticket ≠ .stop) ∧
      (remaining s cursor).countP (isRead s) < max cap 1 := by
  obtain ⟨front, back, walked⟩ := @exists_walked _ s cap (remaining s cursor) .start start_fresh
  have reads := walked.reads
  have zero : PassRun.start.reads = 0 := rfl
  rw [zero, Nat.zero_add] at reads
  have ends := walked.ends
  unfold firstWalk
  generalize (walk s cap (remaining s cursor) .start).2.stopped = stopped at ends ⊢
  cases ends with
  | finished none recorded below =>
    rw [walked.whole, none, List.append_nil]
    exact ⟨fun _ => ⟨walked.free, reads ▸ below⟩, fun _ => rfl⟩
  | limited some stop recorded below =>
    refine ⟨nofun, fun free => absurd stop (free.1 _ ?_)⟩
    rw [walked.whole, some]
    exact List.mem_append_right _ List.mem_cons_self
  | capped some recorded full =>
    refine ⟨nofun, fun free => ?_⟩
    have bound := free.2
    rw [walked.whole, List.countP_append, ← reads, full] at bound
    omega

/-- The reads of the first walk leave some to the second. -/
theorem firstWalk_fresh {cursor : Option Text}
    (free : (firstWalk s cap cursor).2.stopped = false) :
    (firstWalk s cap cursor).1.reads < max cap 1 := by
  obtain ⟨front, back, walked⟩ := @exists_walked _ s cap (remaining s cursor) .start start_fresh
  have ends := walked.ends
  unfold firstWalk at free ⊢
  rw [free] at ends
  cases ends with
  | finished none recorded below => exact below

/-- **A pass stalls** when its second walk stops before any ticket, after some in the first. -/
theorem stalls_iff {cursor : Option Text} : Stalls s cap cursor ↔
    remaining s cursor ≠ [] ∧ (firstWalk s cap cursor).2.stopped = false ∧
      (secondWalk s cap cursor).2.stopped = true ∧ (secondWalk s cap cursor).2.last = none := by
  constructor
  · rintro ⟨some, free, below, ticket, rest, shape, stop⟩
    have step : secondWalk s cap cursor =
        ((firstWalk s cap cursor).1.reconciled s ticket, ⟨none, true⟩) := by
      rw [secondWalk, shape, walk, stop]
    exact ⟨some, firstWalk_free_iff.mpr ⟨free, below⟩, by rw [step], by rw [step]⟩
  · rintro ⟨some, free, stopped, none⟩
    obtain ⟨all, below⟩ := firstWalk_free_iff.mp free
    obtain ⟨front, back, walked⟩ :=
      @exists_walked _ s cap (before s cursor) (firstWalk s cap cursor).1 (firstWalk_fresh free)
    have last := walked.last
    have ends := walked.ends
    unfold secondWalk at stopped none
    rw [none, eq_comm, Option.map_eq_none_iff, List.getLast?_eq_none_iff] at last
    rw [stopped, last] at ends
    have whole := walked.whole
    rw [last, List.nil_append] at whole
    cases ends with
    | limited shape stop recorded below => exact ⟨some, all, ‹_›, _, _, whole.trans shape, stop⟩
    | capped some recorded full =>
      obtain ⟨ticket, member, _⟩ := some
      cases member

/-- The last ticket that a walk has handled. -/
theorem last_eq {tickets : List PullRequestTicketRow} :
    (walk s cap tickets .start).2.last =
      ((visited (walk s cap tickets .start).1).map PullRequestTicketRow.id).getLast? := by
  obtain ⟨front, back, walked⟩ := @exists_walked _ s cap tickets .start start_fresh
  rw [visited_walked walked, walked.last, List.getLast?_map]

/-- A walk to the end leaves the position as it was when there is no ticket beyond it. -/
theorem last_firstWalk {cursor : Option Text} (free : (firstWalk s cap cursor).2.stopped = false) :
    cursor = (firstWalk s cap cursor).2.last.or cursor ↔ ¬ remaining s cursor ≠ [] := by
  obtain ⟨front, back, walked⟩ := @exists_walked _ s cap (remaining s cursor) .start start_fresh
  have whole := walked.whole
  have last := walked.last
  have ends := walked.ends
  unfold firstWalk at free ⊢
  rw [free] at ends
  cases ends with
  | finished none recorded below =>
    rw [none, List.append_nil] at whole
    rw [last, ← whole, not_not]
    constructor
    · intro same
      by_contra more
      obtain ⟨final, ends⟩ : ∃ final, (remaining s cursor).getLast? = some final :=
        Option.isSome_iff_exists.mp (by rwa [List.getLast?_isSome])
      have beyond := (List.mem_filter.mp (List.mem_of_mem_getLast? ends)).2
      rw [ends, Option.map_some, Option.some_or] at same
      rw [same, beyond_some, decide_eq_true_eq] at beyond
      exact lt_irrefl _ beyond
    · intro none
      rw [none]
      rfl

/-- **A pass that is stopped resumes after the last ticket** that it has reconciled, unless it
stalls. -/
theorem resumes_iff {cursor : Option Text} :
    ((pullRequestsPass cap (some s) cursor).stopped = true →
      (pullRequestsPass cap (some s) cursor).cursor = Rotation.positionAfter cursor
        ((visited (pullRequestsPass cap (some s) cursor).run).map PullRequestTicketRow.id)) ↔
      ¬ Stalls s cap cursor := by
  obtain ⟨run, stop, kept⟩ := @pullRequestsPass_eq _ s cap cursor
  have joined := @walk_append _ s cap (remaining s cursor) (before s cursor) .start
  rw [← order, ← firstWalk] at joined
  rw [run, stop, kept, Rotation.positionAfter, ← last_eq, stalls_iff, joined]
  by_cases first : (firstWalk s cap cursor).2.stopped = true
  · simp [first]
  · rw [Bool.not_eq_true] at first
    have second : walk s cap (before s cursor) (firstWalk s cap cursor).1 =
      secondWalk s cap cursor := rfl
    simp only [first, second, Bool.false_eq_true, if_false, true_and]
    by_cases stopped : (secondWalk s cap cursor).2.stopped = true
    · simp only [stopped, if_true, true_and, forall_const]
      cases last : (secondWalk s cap cursor).2.last with
      | some id => simp
      | none =>
        simp only [Option.none_or, and_true]
        exact last_firstWalk first
    · simp [stopped]

/-! ## One pass -/

/-- What a pass promises: each ticket is handled at most once, the reads are within the cap, every
ticket is reconciled unless the pass is stopped, and otherwise the position is kept after the last
one that was. -/
structure Reconciles (s : Surroundings Repo) (cap : ℕ) (cursor : Option Text) (result : PassResult) :
    Prop where
  once : (result.run.calls.map fun call => call.1.id).Nodup
  reads : providerReads result.run ≤ cap
  complete : result.stopped = false → ∀ ticket ∈ s.tickets, ticket ∈ visited result.run
  resumes : result.stopped = true → result.cursor =
    Rotation.positionAfter cursor ((visited result.run).map PullRequestTicketRow.id)

theorem mem_order {cursor : Option Text} {ticket : PullRequestTicketRow} :
    ticket ∈ order s cursor ↔ ticket ∈ s.tickets := by
  rw [order, remaining, before, List.mem_append, List.mem_filter, List.mem_filter]
  cases Rotation.beyond cursor ticket.id <;> simp

/-- Every ticket that is handed to `reconcile` has its place in the rotation. -/
theorem prefix_of_calls {tickets front back : List PullRequestTicketRow}
    (walked : Walked s cap tickets .start front back) :
    (walk s cap tickets .start).1.calls.map Prod.fst <+: tickets := by
  have entries : ∀ more : List PullRequestTicketRow, (more.map (entry s)).map Prod.fst = more := by
    intro more
    rw [List.map_map]
    exact List.map_id _
  have blank : PassRun.start.calls = [] := rfl
  have ends := walked.ends
  have whole := walked.whole
  generalize (walk s cap tickets .start).2.stopped = stopped at ends
  cases ends with
  | finished none recorded below =>
    rw [recorded, blank, List.nil_append, entries, whole]
    exact List.prefix_append _ _
  | limited some stop recorded below =>
    rename_i ticket rest
    rw [recorded, blank, List.nil_append, entries, whole, some]
    exact ⟨rest, by rw [List.append_assoc]; rfl⟩
  | capped some recorded full =>
    rw [recorded, blank, List.nil_append, entries, whole]
    exact List.prefix_append _ _

/-- A pass reads within its cap, unless the cap is zero and a ticket costs a read. -/
theorem providerReads_le_iff (cursor : Option Text) :
    providerReads (walk s cap (order s cursor) .start).1 ≤ cap ↔
      1 ≤ cap ∨ ∀ ticket ∈ s.tickets, outcome s ticket = .skipped := by
  obtain ⟨front, back, walked⟩ := @exists_walked _ s cap (order s cursor) .start start_fresh
  have bound := providerReads_walked walked
  constructor
  · intro within
    rcases Nat.eq_zero_or_pos cap with zero | some
    · right
      intro ticket member
      by_contra costs
      have more := providerReads_pos walked (mem_order.mpr member) costs
      omega
    · exact .inl some
  · rintro (some | skipped)
    · omega
    · have whole := walked.whole
      have ends := walked.ends
      have known : ∀ ticket ∈ front ++ back, outcome s ticket = .skipped := by
        intro ticket member
        exact skipped ticket (mem_order.mp (whole ▸ member))
      have blank : PassRun.start.calls = [] := rfl
      unfold providerReads
      generalize (walk s cap (order s cursor) .start).2.stopped = stopped at ends
      cases ends with
      | finished none recorded below =>
        have free : front.countP (isRead s) = 0 := by
          apply List.countP_eq_zero.mpr
          intro ticket member
          rw [isRead, known ticket (List.mem_append_left _ member)]
          decide
        rw [recorded, blank, List.nil_append, countP_entry walked.free, free]
        exact Nat.zero_le cap
      | limited some stop recorded below =>
        have skip := known _ (List.mem_append_right _ (some ▸ List.mem_cons_self))
        rw [stop] at skip
        cases skip
      | capped some recorded full =>
        obtain ⟨ticket, member, read⟩ := some
        have skip := known ticket (List.mem_append_left _ member)
        rw [read] at skip
        cases skip

/-- **When a pass keeps its promise**: exactly when it does not stall, and its cap allows a read
that a ticket costs. -/
theorem reconciles_iff (cursor : Option Text) :
    Reconciles s cap cursor (pullRequestsPass cap (some s) cursor) ↔
      ¬ Stalls s cap cursor ∧ (1 ≤ cap ∨ ∀ ticket ∈ s.tickets, outcome s ticket = .skipped) := by
  obtain ⟨run, stop, kept⟩ := @pullRequestsPass_eq _ s cap cursor
  obtain ⟨front, back, walked⟩ := @exists_walked _ s cap (order s cursor) .start start_fresh
  rw [← resumes_iff, ← providerReads_le_iff cursor]
  constructor
  · intro promise
    exact ⟨promise.resumes, run ▸ promise.reads⟩
  · rintro ⟨resumes, reads⟩
    refine ⟨?_, run ▸ reads, ?_, resumes⟩
    · have ids := ((prefix_of_calls walked).map PullRequestTicketRow.id).sublist
      rw [map_id_order, List.map_map] at ids
      have ranks := (Rotation.pairwise_rotated s.increasing cursor).sublist ids
      rw [run]
      refine ranks.imp ?_
      rintro a b less rfl
      exact lt_irrefl _ less
    · intro free ticket member
      have ends := walked.ends
      have whole := walked.whole
      rw [stop] at free
      rw [free] at ends
      cases ends with
      | finished none recorded below =>
        rw [none, List.append_nil] at whole
        rw [run, visited_walked walked, ← whole]
        exact mem_order.mpr member

/-! ## Passes that follow each other -/

/-- The position before each pass, and what the passes leave; the first one starts afresh. -/
def cursorAt (runs : ℕ → Surroundings Repo) (cap : ℕ) : ℕ → Option Text
  | 0 => none
  | n + 1 => (pullRequestsPass cap (some (runs n)) (cursorAt runs cap n)).cursor

/-- The pass of a run. -/
def passAt (runs : ℕ → Surroundings Repo) (cap n : ℕ) : PassResult :=
  pullRequestsPass cap (some (runs n)) (cursorAt runs cap n)

def Surroundings.ids (s : Surroundings Repo) : List Text := s.tickets.map PullRequestTicketRow.id

/-- The identifiers of the tickets that a pass has reconciled. -/
def PassResult.visitedIds (result : PassResult) : List Text :=
  (visited result.run).map PullRequestTicketRow.id

/-- **A pass is a turn of the rotation**, when it does not stall. -/
theorem turn_of_pass {cursor : Option Text} (flows : ¬ Stalls s cap cursor) :
    Rotation.Turn s.ids cursor (pullRequestsPass cap (some s) cursor).visitedIds
      ((pullRequestsPass cap (some s) cursor).stopped = true)
      (pullRequestsPass cap (some s) cursor).cursor := by
  obtain ⟨run, stop, kept⟩ := @pullRequestsPass_eq _ s cap cursor
  obtain ⟨front, back, walked⟩ := @exists_walked _ s cap (order s cursor) .start start_fresh
  have whole := walked.whole
  have ids : (pullRequestsPass cap (some s) cursor).visitedIds =
      front.map PullRequestTicketRow.id := by
    rw [PassResult.visitedIds, run, visited_walked walked]
  refine ⟨?_, ?_, resumes_iff.mpr flows⟩
  · rw [ids, Surroundings.ids, ← map_id_order, whole]
    exact (List.prefix_append front back).map _
  · intro free
    have ends := walked.ends
    rw [Bool.not_eq_true, stop] at free
    rw [free] at ends
    cases ends with
    | finished none recorded below =>
      rw [ids, Surroundings.ids, ← map_id_order, whole, none, List.append_nil]

/-- **Passes that do not stall starve no ticket**: between two passes that reconcile the same
ticket, every ticket that was open all along is reconciled. -/
theorem passes_fair {runs : ℕ → Surroundings Repo} {i j : ℕ} (order : i < j)
    (flows : ∀ n, i ≤ n → n ≤ j → ¬ Stalls (runs n) cap (cursorAt runs cap n))
    {again other : Text} (first : again ∈ (passAt runs cap i).visitedIds)
    (second : again ∈ (passAt runs cap j).visitedIds)
    (there : ∀ n, i ≤ n → n ≤ j → other ∈ (runs n).ids) :
    ∃ n, i ≤ n ∧ n ≤ j ∧ other ∈ (passAt runs cap n).visitedIds := by
  have turns : ∀ n, i ≤ n → n ≤ j → Rotation.Turn (runs n).ids (cursorAt runs cap n)
      (passAt runs cap n).visitedIds ((passAt runs cap n).stopped = true)
      (cursorAt runs cap (n + 1)) := fun n lower upper => turn_of_pass (flows n lower upper)
  exact Rotation.visited_of_again (fun n => (runs n).increasing) order
    (fun n lower upper => turns n lower upper.le) ⟨_, turns j order.le le_rfl⟩ first second there

/-- **The rotation starves no ticket unless it stalls**: a pass keeps its promise exactly when it
does not stall and its cap allows the reads of its tickets, and in passes that do not stall no
ticket stays unvisited while another is visited twice. -/
theorem rotation_fair_iff (cap : ℕ) :
    (∀ (s : Surroundings Repo) (cursor : Option Text),
      Reconciles s cap cursor (pullRequestsPass cap (some s) cursor) ↔
        ¬ Stalls s cap cursor ∧
          (1 ≤ cap ∨ ∀ ticket ∈ s.tickets, outcome s ticket = .skipped)) ∧
    ∀ (runs : ℕ → Surroundings Repo) (i j : ℕ), i < j →
      (∀ n, i ≤ n → n ≤ j → ¬ Stalls (runs n) cap (cursorAt runs cap n)) →
      ∀ again other : Text, again ∈ (passAt runs cap i).visitedIds →
        again ∈ (passAt runs cap j).visitedIds →
        (∀ n, i ≤ n → n ≤ j → other ∈ (runs n).ids) →
        ∃ n, i ≤ n ∧ n ≤ j ∧ other ∈ (passAt runs cap n).visitedIds :=
  ⟨fun _ cursor => reconciles_iff cursor,
    fun _ _ _ order flows _ _ first second there => passes_fair order flows first second there⟩

/-! ## A pass that stalls -/

/-- A ticket in review with its reference. -/
def ticketOf (id : CodeUnit) : PullRequestTicketRow :=
  ⟨[id], Text.lit "org", Text.lit "project",
    Text.lit "https://github.com/acme/spec/pull/" ++ [id]⟩

def threeTickets : List PullRequestTicketRow := [ticketOf 0x31, ticketOf 0x32, ticketOf 0x33]

theorem increasing_threeTickets :
    (threeTickets.map PullRequestTicketRow.id).Pairwise (· < ·) := by decide +kernel

/-- The first pass is limited at the second ticket, and the others at the first one. -/
def limitedRuns (n : ℕ) : Surroundings Unit where
  tickets := threeTickets
  increasing := increasing_threeTickets
  linkedRepo _ _ _ := some ()
  getPullRequestState ticket _ _ :=
    if ticket.id = [if n = 0 then 0x32 else 0x31] then .rateLimited else .opened
  settleMerged _ := true

/-- **The second and the third pass** both reconcile the second and the third ticket, and neither
of them the first one: the position stays before the tickets that were visited. -/
theorem limitedRuns_stall :
    (passAt limitedRuns 200 1).visitedIds = [[0x32], [0x33]] ∧
    (passAt limitedRuns 200 2).visitedIds = [[0x32], [0x33]] ∧
    cursorAt limitedRuns 200 2 = some [0x31] ∧
    ¬ Reconciles (limitedRuns 1) 200 (cursorAt limitedRuns 200 1) (passAt limitedRuns 200 1) := by
  have one : (passAt limitedRuns 200 1).visitedIds = [[0x32], [0x33]] := by decide +kernel
  have kept : cursorAt limitedRuns 200 2 = some [0x31] := by decide +kernel
  refine ⟨one, by decide +kernel, kept, fun promise => ?_⟩
  have stopped : (passAt limitedRuns 200 1).stopped = true := by decide +kernel
  have resumes := promise.resumes stopped
  have cursor : (passAt limitedRuns 200 1).cursor = some [0x31] := kept
  rw [cursor, ← PassResult.visitedIds, one] at resumes
  exact absurd resumes (by decide)

end Koklo.Reconcile
