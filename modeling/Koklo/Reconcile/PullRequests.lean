import Koklo.Foundations.Decimal
import Koklo.Foundations.OrderedMap
import Koklo.Foundations.RegExp

/-!
# The pass over pull requests

A ticket in review whose pull request was merged by hand becomes done. A pass reads the state of
the pull requests at the provider, one ticket after the other, up to a cap. It keeps the position
at which it was stopped: the next pass starts there and comes back to the start of the list.

What the store and the provider answer is given for each pass (`Surroundings`), and the tickets
handed to `reconcile` are recorded with what came of them (`PassRun.calls`).
-/

set_option autoImplicit false

namespace Koklo.Reconcile

open Koklo.Foundations

/-! ## References -/

/-- The pull request that a reference names. -/
structure ParsedPullRequestRef where
  owner : Text
  name : Text
  number : ℕ
deriving DecidableEq

def maxPullRequestNumber : ℕ := 2147483647

/-- `[A-Za-z0-9][A-Za-z0-9-]{0,38}`. -/
def isOwner (t : Text) : Bool :=
  t.length ≤ 39 && t.head?.any Text.isAlphanumeric &&
    t.all fun u => Text.isAlphanumeric u || u = 0x2D

/-- `[A-Za-z0-9._-]{1,100}`. -/
def isRepoName (t : Text) : Bool :=
  t ≠ [] && t.length ≤ 100 && t.all fun u => Text.isWord u || u = 0x2E || u = 0x2D

/-- `[1-9][0-9]{0,9}`. -/
def isPullRequestNumber (t : Text) : Bool :=
  t.length ≤ 10 && t.head?.any (fun u => Text.isDigit u && u ≠ 0x30) && t.all Text.isDigit

/-- `https://github.com/<owner>/<repo>/pull/<n>`, and nothing else. -/
def parsePullRequestRef (text : Text) : Option ParsedPullRequestRef :=
  match text.splitOn 0x2F with
  | [scheme, blank, host, owner, name, pull, digits] =>
    if scheme = Text.lit "https:" && blank = [] && host = Text.lit "github.com" && isOwner owner &&
        isRepoName name && pull = Text.lit "pull" && isPullRequestNumber digits then
      if name = Text.lit "." || name = Text.lit ".." ||
          maxPullRequestNumber < Text.decimal digits then none
      else some ⟨owner, name, Text.decimal digits⟩
    else none
  | _ => none

/-! ## One ticket -/

/-- A ticket with a pull request, as the pass reads it. -/
structure PullRequestTicketRow where
  id : Text
  organizationId : Text
  projectId : Text
  pullRequest : Text

/-- What the provider answers about a pull request. -/
inductive ProviderAnswer where
  | opened
  | merged
  | closed
  | rateLimited
  | failed
deriving DecidableEq

/-- What the store and the provider answer in a pass. -/
structure Surroundings (Repo : Type) where
  /-- The tickets in review that carry a reference. -/
  tickets : List PullRequestTicketRow
  increasing : (tickets.map PullRequestTicketRow.id).Pairwise (· < ·)
  /-- The repository of the project under an owner and a name. -/
  linkedRepo : PullRequestTicketRow → Text → Text → Option Repo
  /-- The answer when the ticket is read. -/
  getPullRequestState : PullRequestTicketRow → Repo → ℕ → ProviderAnswer
  /-- Whether the ticket was still in review. -/
  settleMerged : PullRequestTicketRow → Bool

/-- The balance of a pass. -/
structure PullRequestCount where
  done : ℕ
  closed : ℕ
  skipped : ℕ
  reasons : OrderedMap Text ℕ
deriving DecidableEq

def emptyPullRequestCount : PullRequestCount := ⟨0, 0, 0, []⟩

/-- `read`: the ticket has cost a call; `skipped`: it has not; `stop`: the provider limits the
rate, and the pass stops. -/
inductive Outcome where
  | read
  | skipped
  | stop
deriving DecidableEq

/-- A ticket is skipped for a reason. -/
def skip (reason : Text) (count : PullRequestCount) : PullRequestCount :=
  { count with
    skipped := count.skipped + 1
    reasons := count.reasons.set reason ((count.reasons.get reason).getD 0 + 1) }

section Pass

variable {Repo : Type} (s : Surroundings Repo) (cap : ℕ)

/-- What comes of a ticket, and what it adds to the balance. -/
def reconcile (ticket : PullRequestTicketRow) : Outcome × (PullRequestCount → PullRequestCount) :=
  match parsePullRequestRef ticket.pullRequest with
  | none => (.skipped, skip (Text.lit "pr_ref_unparsable"))
  | some ref =>
    match s.linkedRepo ticket ref.owner ref.name with
    | none => (.skipped, skip (Text.lit "repo_not_linked"))
    | some repo =>
      match s.getPullRequestState ticket repo ref.number with
      | .rateLimited => (.stop, skip (Text.lit "rate_limited"))
      | .failed => (.read, skip (Text.lit "provider_error"))
      | .merged =>
        (.read, fun count => if s.settleMerged ticket then { count with done := count.done + 1 }
          else count)
      | .closed => (.read, fun count => { count with closed := count.closed + 1 })
      | .opened => (.read, id)

/-! ## Pages -/

/-- The balance, the reads of the budget, and the tickets handed to `reconcile`. -/
structure PassRun where
  count : PullRequestCount
  reads : ℕ
  calls : List (PullRequestTicketRow × Outcome)

def PassRun.start : PassRun := ⟨emptyPullRequestCount, 0, []⟩

/-- A ticket is reconciled. -/
def PassRun.reconciled (run : PassRun) (ticket : PullRequestTicketRow) : PassRun where
  count := (reconcile s ticket).2 run.count
  reads := run.reads
  calls := run.calls ++ [(ticket, (reconcile s ticket).1)]

/-- A read is taken from the budget. -/
def PassRun.spent (run : PassRun) : PassRun := { run with reads := run.reads + 1 }

/-- The last ticket handled, and whether the pass goes no further. -/
structure Progress where
  last : Option Text
  stopped : Bool

/-- How far a page has been handled, and whether it has gone past the bound. -/
structure PageProgress extends Progress where
  pastUntil : Bool

/-- Handles a page; stops at the cap, at the limit of the rate, or beyond `bound`. -/
def scanPage (bound : Option Text) :
    List PullRequestTicketRow → Option Text → PassRun → PassRun × PageProgress
  | [], last, run => (run, ⟨⟨last, false⟩, false⟩)
  | ticket :: page, last, run =>
    if bound.any (· < ticket.id) then (run, ⟨⟨last, false⟩, true⟩)
    else
      let run := run.reconciled s ticket
      match (reconcile s ticket).1 with
      | .stop => (run, ⟨⟨last, true⟩, false⟩)
      | .skipped => scanPage bound page (some ticket.id) run
      | .read =>
        let run := run.spent
        if cap ≤ run.reads then (run, ⟨⟨some ticket.id, true⟩, false⟩)
        else scanPage bound page (some ticket.id) run

def pageSize : ℕ := 500

/-- The tickets beyond a position, by increasing identifier. -/
def ticketPage (position : Option Text) (limit : ℕ) : List PullRequestTicketRow :=
  (s.tickets.filter fun ticket => position.all (· < ticket.id)).take limit

/-- Goes through the tickets page by page, beyond `position`, to the end or up to `bound`; the
first argument bounds the number of pages. -/
def scan (bound : Option Text) : ℕ → Option Text → Option Text → PassRun → PassRun × Progress
  | 0, _, last, run => (run, ⟨last, false⟩)
  | pages + 1, position, last, run =>
    let page := ticketPage s position pageSize
    let (run, result) := scanPage s cap bound page none run
    let last := result.last.or last
    if result.stopped then (run, ⟨last, true⟩)
    else
      match page.getLast? with
      | none => (run, ⟨last, false⟩)
      | some final =>
        if result.pastUntil || page.length < pageSize then (run, ⟨last, false⟩)
        else scan bound pages (some final.id) last run

/-- What a pass leaves. -/
structure PassResult where
  run : PassRun
  stopped : Bool
  cursor : Option Text

/-- A pass from the position that the pass before has left. Without a provider it does nothing. -/
def pullRequestsPass (provider : Option (Surroundings Repo)) (cursor : Option Text) : PassResult :=
  match provider with
  | none => ⟨.start, false, cursor⟩
  | some s =>
    let pages := s.tickets.length + 1
    let (run, progress) := scan s cap none pages cursor none .start
    let (run, progress) :=
      if !progress.stopped && cursor.isSome then scan s cap cursor pages none none run
      else (run, progress)
    ⟨run, progress.stopped, if progress.stopped then progress.last.or cursor else none⟩

end Pass

end Koklo.Reconcile
