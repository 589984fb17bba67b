import Koklo.Foundations.Keyset
import Koklo.Foundations.Rotation
import Koklo.Reconcile.PullRequests

/-!
# The rotation of the pass over pull requests

A pass walks once through the tickets, from the position that it was left: those beyond it, and
then those up to it (`pullRequestsPass_eq`).
-/

set_option autoImplicit false

namespace Koklo.Reconcile

open Koklo.Foundations

section Walk

variable {Repo : Type} (s : Surroundings Repo) (cap : ℕ)

/-- The outcome of a ticket. -/
def outcome (ticket : PullRequestTicketRow) : Outcome := (reconcile s ticket).1

/-! ## Walking through tickets -/

/-- Tickets are handled one after the other, up to the cap or the limit of the rate. -/
def walk : List PullRequestTicketRow → PassRun → PassRun × Progress
  | [], run => (run, ⟨none, false⟩)
  | ticket :: rest, run =>
    let run := run.reconciled s ticket
    let onward := fun run : PassRun =>
      let walked := walk rest run
      (walked.1, ⟨walked.2.last.or (some ticket.id), walked.2.stopped⟩)
    match outcome s ticket with
    | .stop => (run, ⟨none, true⟩)
    | .skipped => onward run
    | .read =>
      if cap ≤ run.spent.reads then (run.spent, ⟨some ticket.id, true⟩) else onward run.spent

variable {s cap}

theorem walk_append (first second : List PullRequestTicketRow) (run : PassRun) :
    walk s cap (first ++ second) run =
      if (walk s cap first run).2.stopped then walk s cap first run
      else
        let walked := walk s cap second (walk s cap first run).1
        (walked.1, ⟨walked.2.last.or (walk s cap first run).2.last, walked.2.stopped⟩) := by
  induction first generalizing run with
  | nil => simp [walk]
  | cons ticket first ih =>
    rw [List.cons_append, walk, walk]
    cases outcome s ticket with
    | stop => rfl
    | skipped =>
      simp only [ih]
      split
      · rfl
      · simp only [Option.or_assoc]
    | read =>
      dsimp only
      split
      · rfl
      · simp only [ih]
        split
        · rfl
        · simp only [Option.or_assoc]

/-- The tickets of a page up to the bound. -/
def within (bound : Option Text) (page : List PullRequestTicketRow) : List PullRequestTicketRow :=
  page.takeWhile fun ticket => !bound.any (· < ticket.id)

/-- **A page is walked through** up to the bound. -/
theorem scanPage_eq (bound : Option Text) (page : List PullRequestTicketRow) (last : Option Text)
    (run : PassRun) : scanPage s cap bound page last run =
      ((walk s cap (within bound page) run).1,
        ⟨⟨(walk s cap (within bound page) run).2.last.or last,
          (walk s cap (within bound page) run).2.stopped⟩,
          !(walk s cap (within bound page) run).2.stopped &&
            (within bound page).length < page.length⟩) := by
  induction page generalizing last run with
  | nil => simp [scanPage, within, walk]
  | cons ticket page ih =>
    rw [scanPage]
    by_cases past : bound.any (· < ticket.id) = true
    · have none : within bound (ticket :: page) = [] :=
        List.takeWhile_cons_of_neg (by rw [past]; decide)
      rw [if_pos past, none]
      simp [walk]
    · have some : within bound (ticket :: page) = ticket :: within bound page :=
        List.takeWhile_cons_of_pos (by rw [Bool.eq_false_iff.mpr past]; rfl)
      rw [if_neg past, some, walk]
      simp only [outcome, ih]
      cases (reconcile s ticket).1 with
      | stop => simp
      | skipped => simp
      | read =>
        dsimp only
        split
        · simp
        · simp

/-- The tickets beyond a position. -/
def remaining (s : Surroundings Repo) (position : Option Text) : List PullRequestTicketRow :=
  s.tickets.filter fun ticket => Rotation.beyond position ticket.id

theorem increasing_tickets (s : Surroundings Repo) :
    Keyset.Increasing PullRequestTicketRow.id s.tickets := List.pairwise_map.mp s.increasing

theorem beyond_some {position id : Text} :
    Rotation.beyond (some position) id = decide (position < id) :=
  decide_eq_decide.mpr Iff.rfl

/-- The tickets beyond one of them are those after it. -/
theorem remaining_of_split {position : Option Text} {front back : List PullRequestTicketRow}
    {final : PullRequestTicketRow} (split : remaining s position = front ++ final :: back) :
    remaining s (some final.id) = back := by
  have increasing := (increasing_tickets s).filter fun ticket => Rotation.beyond position ticket.id
  have later : remaining s (some final.id) =
      (remaining s position).filter fun ticket => final.id < ticket.id := by
    have beyond : Rotation.beyond position final.id = true := by
      have member : final ∈ remaining s position := by
        rw [split]
        exact List.mem_append_right _ List.mem_cons_self
      exact (List.mem_filter.mp member).2
    rw [remaining, remaining, List.filter_filter]
    congr 1
    funext ticket
    rw [beyond_some]
    cases position with
    | none => exact (Bool.and_true _).symm
    | some position =>
      rw [beyond_some] at beyond ⊢
      rw [← Bool.decide_and]
      apply decide_eq_decide.mpr
      exact ⟨fun after => ⟨after, (of_decide_eq_true beyond).trans after⟩, And.left⟩
  rw [later, ← Keyset.filter_gt increasing split]
  exact List.filter_congr fun ticket _ => decide_eq_decide.mpr Iff.rfl

/-- **The pages are walked through** beyond the position, up to the bound. -/
theorem scan_eq (bound : Option Text) {pages : ℕ} (position last : Option Text) (run : PassRun)
    (enough : (remaining s position).length < pages * pageSize) :
    scan s cap bound pages position last run =
      ((walk s cap (within bound (remaining s position)) run).1,
        ⟨(walk s cap (within bound (remaining s position)) run).2.last.or last,
          (walk s cap (within bound (remaining s position)) run).2.stopped⟩) := by
  induction pages generalizing position last run with
  | zero =>
    rw [Nat.zero_mul] at enough
    exact absurd enough (Nat.not_lt_zero _)
  | succ pages ih =>
    have page : ticketPage s position pageSize = (remaining s position).take pageSize := by
      unfold ticketPage remaining Rotation.beyond
      congr!
    obtain ⟨taken, more, split, short, size⟩ : ∃ taken more, remaining s position = taken ++ more ∧
        (remaining s position).take pageSize = taken ∧
        taken.length = min pageSize (remaining s position).length :=
      ⟨_, _, (List.take_append_drop pageSize _).symm, rfl, List.length_take⟩
    have total := congrArg List.length split
    rw [List.length_append] at total
    rw [scan, page, short, scanPage_eq, split]
    simp only [Option.or_none]
    have whole : within bound (taken ++ more) =
        if (within bound taken).length = taken.length then taken ++ within bound more
        else within bound taken := List.takeWhile_append
    have shorter : (within bound taken).length ≤ taken.length :=
      (List.takeWhile_prefix _).length_le
    by_cases all : (within bound taken).length = taken.length
    · have same : within bound taken = taken := (List.takeWhile_prefix _).eq_of_length all
      rw [whole, if_pos all, same, walk_append]
      by_cases stopped : (walk s cap taken run).2.stopped = true
      · simp only [stopped, if_true]
      · rw [Bool.not_eq_true] at stopped
        simp only [stopped, Bool.false_eq_true, if_false, Bool.not_false, Bool.true_and,
          lt_irrefl, decide_false, Bool.false_or, decide_eq_true_eq]
        by_cases final : taken.length < pageSize
        · -- The page is the last one.
          have none : more = [] := List.length_eq_zero_iff.mp (by omega)
          subst none
          have nothing : within bound [] = [] := rfl
          rw [nothing, walk]
          cases taken.getLast? with
          | none => simp
          | some last => simp [final]
        · obtain ⟨init, last, rfl⟩ : ∃ init last, taken = init ++ [last] := by
            rcases List.eq_nil_or_concat' taken with none | some
            · subst none
              exact absurd (Nat.zero_lt_succ 499) final
            · exact some
          have next : remaining s (some last.id) = more := by
            have parted : remaining s position = init ++ last :: more := by
              rw [split, List.append_assoc]
              rfl
            exact remaining_of_split parted
          have enough' : (remaining s (some last.id)).length < pages * pageSize := by
            rw [next]
            rw [Nat.succ_mul] at enough
            omega
          rw [List.getLast?_concat]
          simp only [if_neg final, ih _ _ _ enough', next]
          rw [Option.or_assoc]
    · have past : (within bound taken).length < taken.length := lt_of_le_of_ne shorter all
      obtain ⟨final, ends⟩ : ∃ final, taken.getLast? = some final :=
        Option.isSome_iff_exists.mp (by
          rw [List.getLast?_isSome]
          exact List.length_pos_iff.mp (Nat.zero_lt_of_lt past))
      rw [whole, if_neg all, ends]
      simp only [past, decide_true, Bool.and_true]
      cases (walk s cap (within bound taken) run).2.stopped <;> simp

/-- The tickets up to a position. -/
def before (s : Surroundings Repo) (position : Option Text) : List PullRequestTicketRow :=
  s.tickets.filter fun ticket => !Rotation.beyond position ticket.id

/-- The tickets in the order of the rotation. -/
def order (s : Surroundings Repo) (cursor : Option Text) : List PullRequestTicketRow :=
  remaining s cursor ++ before s cursor

theorem map_id_order (s : Surroundings Repo) (cursor : Option Text) :
    (order s cursor).map PullRequestTicketRow.id =
      Rotation.rotated cursor (s.tickets.map PullRequestTicketRow.id) := by
  rw [order, List.map_append, Rotation.rotated, List.filter_map, List.filter_map]
  rfl

theorem remaining_none (s : Surroundings Repo) : remaining s none = s.tickets :=
  List.filter_true _

theorem before_none (s : Surroundings Repo) : before s none = [] := List.filter_false _

theorem within_none (page : List PullRequestTicketRow) : within none page = page :=
  List.takeWhile_eq_self_iff.mpr fun _ _ => rfl

/-- The tickets up to a position stand first. -/
theorem within_some (s : Surroundings Repo) (position : Text) :
    within (some position) s.tickets = before s (some position) := by
  have increasing := increasing_tickets s
  unfold before
  generalize s.tickets = tickets at increasing
  induction tickets with
  | nil => rfl
  | cons ticket tickets ih =>
    obtain ⟨first, others⟩ := List.pairwise_cons.mp increasing
    by_cases past : position < ticket.id
    · have none : tickets.filter (fun later => !Rotation.beyond (some position) later.id) = [] := by
        apply List.filter_eq_nil_iff.mpr
        intro later member
        rw [beyond_some, decide_eq_true (past.trans (first later member))]
        decide
      have beyond : Rotation.beyond (some position) ticket.id = true := by
        rw [beyond_some, decide_eq_true past]
      rw [within, List.takeWhile_cons_of_neg (by simp [past]), List.filter_cons_of_neg
        (by simp [beyond]), none]
    · have beyond : Rotation.beyond (some position) ticket.id = false := by
        rw [beyond_some, decide_eq_false past]
      rw [within, List.takeWhile_cons_of_pos (by simp [past]), List.filter_cons_of_pos
        (by simp [beyond]), ← ih others]
      rfl

/-! ## A pass -/

/-- The walk of a pass through the tickets beyond its position. -/
def firstWalk (s : Surroundings Repo) (cap : ℕ) (cursor : Option Text) : PassRun × Progress :=
  walk s cap (remaining s cursor) .start

/-- The walk of a pass through the tickets up to its position. -/
def secondWalk (s : Surroundings Repo) (cap : ℕ) (cursor : Option Text) : PassRun × Progress :=
  walk s cap (before s cursor) (firstWalk s cap cursor).1

theorem length_remaining_le (s : Surroundings Repo) (cursor : Option Text) :
    (remaining s cursor).length < (s.tickets.length + 1) * pageSize := by
  have bound := List.length_filter_le (fun ticket => Rotation.beyond cursor ticket.id) s.tickets
  unfold remaining pageSize
  omega

/-- **A pass walks once through the tickets** in the order of the rotation, and keeps the last
ticket of the walk in which it was stopped. -/
theorem pullRequestsPass_eq (cursor : Option Text) :
    (pullRequestsPass cap (some s) cursor).run = (walk s cap (order s cursor) .start).1 ∧
    (pullRequestsPass cap (some s) cursor).stopped =
      (walk s cap (order s cursor) .start).2.stopped ∧
    (pullRequestsPass cap (some s) cursor).cursor =
      if (firstWalk s cap cursor).2.stopped then (firstWalk s cap cursor).2.last.or cursor
      else if (secondWalk s cap cursor).2.stopped then (secondWalk s cap cursor).2.last.or cursor
      else none := by
  have first := @scan_eq _ s cap none _ cursor none .start (length_remaining_le s cursor)
  rw [within_none] at first
  have joined := @walk_append _ s cap (remaining s cursor) (before s cursor) .start
  rw [← order] at joined
  simp only [Option.or_none] at first
  rw [joined, pullRequestsPass]
  simp only [first, firstWalk, secondWalk]
  by_cases stopped : (walk s cap (remaining s cursor) .start).2.stopped = true
  · simp [stopped]
  · rw [Bool.not_eq_true] at stopped
    cases cursor with
    | none => simp [stopped, before_none, walk]
    | some position =>
      have enough := length_remaining_le s none
      have second := @scan_eq _ s cap (some position) _ none none
        (walk s cap (remaining s (some position)) .start).1 enough
      rw [remaining_none, within_some] at second
      simp [second, stopped]

/-! ## What a walk leaves -/

/-- What is recorded of a ticket. -/
def entry (s : Surroundings Repo) (ticket : PullRequestTicketRow) :
    PullRequestTicketRow × Outcome := (ticket, outcome s ticket)

/-- The pull request of the ticket is read. -/
def isRead (s : Surroundings Repo) (ticket : PullRequestTicketRow) : Bool :=
  outcome s ticket = .read

/-- How a walk ends that has handled `front`: at the end of the tickets, at the limit of the rate,
or at the cap. -/
inductive Ends (s : Surroundings Repo) (cap : ℕ) (front back : List PullRequestTicketRow)
    (run next : PassRun) : Bool → Prop
  | finished : back = [] → next.calls = run.calls ++ front.map (entry s) →
      next.reads < max cap 1 → Ends s cap front back run next false
  | limited {ticket : PullRequestTicketRow} {rest : List PullRequestTicketRow} :
      back = ticket :: rest → outcome s ticket = .stop →
      next.calls = run.calls ++ (front ++ [ticket]).map (entry s) →
      next.reads < max cap 1 → Ends s cap front back run next true
  | capped : (∃ ticket ∈ front, outcome s ticket = .read) →
      next.calls = run.calls ++ front.map (entry s) →
      next.reads = max cap 1 → Ends s cap front back run next true

/-- What a walk leaves: it has handled the first tickets, in order. -/
structure Walked (s : Surroundings Repo) (cap : ℕ) (tickets : List PullRequestTicketRow)
    (run : PassRun) (front back : List PullRequestTicketRow) : Prop where
  whole : tickets = front ++ back
  free : ∀ ticket ∈ front, outcome s ticket ≠ .stop
  last : (walk s cap tickets run).2.last = front.getLast?.map PullRequestTicketRow.id
  reads : (walk s cap tickets run).1.reads = run.reads + front.countP (isRead s)
  ends : Ends s cap front back run (walk s cap tickets run).1 (walk s cap tickets run).2.stopped

theorem exists_walked {tickets : List PullRequestTicketRow} {run : PassRun}
    (fresh : run.reads < max cap 1) : ∃ front back, Walked s cap tickets run front back := by
  induction tickets generalizing run with
  | nil =>
    exact ⟨[], [], rfl, fun _ member => absurd member List.not_mem_nil, rfl, rfl,
      .finished rfl (List.append_nil _).symm fresh⟩
  | cons ticket tickets ih =>
    have onward : ∀ {next : PassRun}, next.reads < max cap 1 → outcome s ticket ≠ .stop →
        next.calls = run.calls ++ [entry s ticket] →
        next.reads = run.reads + [ticket].countP (isRead s) →
        walk s cap (ticket :: tickets) run = ((walk s cap tickets next).1,
          ⟨(walk s cap tickets next).2.last.or (some ticket.id),
            (walk s cap tickets next).2.stopped⟩) →
        ∃ front back, Walked s cap (ticket :: tickets) run front back := by
      intro next fresh free calls reads step
      obtain ⟨front, back, walked⟩ := @ih next fresh
      refine ⟨ticket :: front, back, congrArg (ticket :: ·) walked.whole, ?_, ?_, ?_, ?_⟩
      · exact List.forall_mem_cons.mpr ⟨free, walked.free⟩
      · rw [step, walked.last]
        cases front with
        | nil => rfl
        | cons first front =>
          rw [List.getLast?_cons_cons]
          obtain ⟨last, ends⟩ : ∃ last, (first :: front).getLast? = some last :=
            Option.isSome_iff_exists.mp (by rw [List.getLast?_isSome]; exact List.cons_ne_nil _ _)
          rw [ends]
          rfl
      · rw [step, walked.reads, reads, Nat.add_assoc, ← List.countP_append, List.singleton_append]
      · rw [step]
        have joined : ∀ more : List PullRequestTicketRow, next.calls ++ more.map (entry s) =
            run.calls ++ (ticket :: more).map (entry s) := by
          intro more
          rw [calls, List.append_assoc]
          rfl
        have ends := walked.ends
        dsimp only
        generalize (walk s cap tickets next).2.stopped = stopped at ends ⊢
        cases ends with
        | finished none recorded below => exact .finished none (recorded.trans (joined _)) below
        | limited some stop recorded below =>
          exact .limited some stop (recorded.trans (joined _)) below
        | capped some recorded full =>
          obtain ⟨read, member, found⟩ := some
          exact .capped ⟨read, List.mem_cons_of_mem _ member, found⟩ (recorded.trans (joined _))
            full
    cases result : outcome s ticket with
    | stop =>
      have step : walk s cap (ticket :: tickets) run = (run.reconciled s ticket, ⟨none, true⟩) := by
        rw [walk, result]
      refine ⟨[], ticket :: tickets, rfl, fun _ member => absurd member List.not_mem_nil, ?_, ?_, ?_⟩
      · rw [step]
        rfl
      · rw [step]
        rfl
      · rw [step]
        exact .limited rfl result rfl fresh
    | skipped =>
      apply @onward (run.reconciled s ticket) fresh (by rw [result]; decide) rfl
      · rw [List.countP_singleton, isRead, result]
        rfl
      · rw [walk, result]
    | read =>
      have read : isRead s ticket = true := by rw [isRead, result]; rfl
      by_cases full : cap ≤ (run.reconciled s ticket).spent.reads
      · have step : walk s cap (ticket :: tickets) run =
            ((run.reconciled s ticket).spent, ⟨some ticket.id, true⟩) := by
          rw [walk, result]
          exact if_pos full
        refine ⟨[ticket], tickets, rfl, ?_, ?_, ?_, ?_⟩
        · intro other member
          rw [List.mem_singleton.mp member, result]
          decide
        · rw [step]
          rfl
        · rw [step, List.countP_singleton, read]
          rfl
        · rw [step]
          refine .capped ⟨ticket, List.mem_singleton_self _, result⟩ rfl ?_
          have more : (run.reconciled s ticket).spent.reads = run.reads + 1 := rfl
          dsimp only
          omega
      · apply @onward (run.reconciled s ticket).spent (by omega) (by rw [result]; decide) rfl
        · rw [List.countP_singleton, read]
          rfl
        · rw [walk, result]
          exact if_neg full

end Walk

end Koklo.Reconcile
