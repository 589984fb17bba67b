import Koklo.Domain.DependencyHistory

/-!
# The stored dependencies of a project under concurrent requests

An `addDependency` request checks that its two tickets exist, reads the edges of
the project, builds their graph and adds its edge to it, inserts the edge in a
later statement and commits. Each statement sees what is committed when it runs;
an edge that is inserted is not seen by the others before its commit, and nothing
holds the edges between the read and the commit.

Each request alone keeps the edges acyclic. So does every run in which the edges
committed when an insert is committed were all read by its request: the edges of
the project are acyclic in every state, and building their graph never fails
(`project_edges_acyclic`). Two requests that read the same edges and add opposite
ones close a cycle together (`project_edges_cyclic`).
-/

set_option autoImplicit false

namespace Koklo.Tracker

open Koklo.Domain Koklo.Foundations

/-- A history of graph calls in the process that serves a request. -/
abbrev GraphCalls := List (DependencyGraph × DependencyInput)

/-- Where the transaction of a request stands. -/
inductive EdgePhase where
  /-- Both tickets were found. -/
  | found (edge : Dependency)
  /-- The edge closes no cycle in the edges that were read, and is not one of them. -/
  | checked (edge : Dependency) (read : List Dependency)
  /-- The row of the edge is inserted, and not committed. -/
  | inserted (edge : Dependency) (read : List Dependency)
  /-- A removal found both tickets. -/
  | removing (edge : Dependency)
  /-- The row of the edge is deleted, and not committed. -/
  | removed (edge : Dependency)
  /-- Nothing was written: the commit changes nothing. -/
  | unchanged
  | finished
deriving DecidableEq

/-- The tickets of a project, the committed rows of its dependencies and the transactions of its
requests. -/
structure DependencyTable where
  tickets : List TicketKey
  deleted : List TicketKey
  rows : List Dependency
  requests : List EdgePhase
deriving DecidableEq

/-- `find`: a ticket of the project that is not deleted. -/
def DependencyTable.hasTicket (table : DependencyTable) (key : TicketKey) : Bool :=
  table.tickets.contains key && !table.deleted.contains key

/-- `projectEdges`: the committed rows between tickets that are not deleted. -/
def DependencyTable.projectEdges (table : DependencyTable) : List Dependency :=
  table.rows.filter fun edge =>
    !table.deleted.contains edge.ticket && !table.deleted.contains edge.dependsOn

/-- The row that a transaction has written and not committed. -/
def EdgePhase.written : EdgePhase → Option Dependency
  | .inserted edge _ | .removed edge => some edge
  | .found _ | .checked _ _ | .removing _ | .unchanged | .finished => none

/-- A transaction that is open has written the row. -/
def DependencyTable.isLocked (table : DependencyTable) (edge : Dependency) : Bool :=
  table.requests.any fun phase => phase.written = some edge

/-- `graphOf`. -/
def graphOf (heap : Heap) (edges : List Dependency) : Except DependencyError DependencyGraph × Heap :=
  createDependencyGraph heap (edges.map Dependency.input)

/-- The check of a request on the edges it read: refused, nothing to insert, or an
edge to insert. -/
def checkEdge (heap : Heap) (read : List Dependency) (edge : Dependency) : EdgePhase :=
  match graphOf heap read with
  | (.error _, _) => .finished
  | (.ok graph, heap) =>
    match (addDependency heap graph edge.input).1 with
    | .error _ => .finished
    | .ok next => if next = graph then .unchanged else .checked edge read

/-- What happens to the tickets and in the transactions of the requests. -/
inductive DependencyEvent where
  | createTicket (key : TicketKey)
  /-- A deletion of a ticket is committed. -/
  | softDelete (key : TicketKey)
  /-- `addDependency` finds its two tickets. -/
  | requireEnds (edge : Dependency)
  /-- A request reads the project's edges and checks its own, in a process with some history. -/
  | check (request : ℕ) (process : GraphCalls)
  /-- `addEdge`, which skips duplicates. -/
  | insert (request : ℕ)
  /-- `removeDependency` finds its two tickets. -/
  | remove (edge : Dependency)
  /-- `removeEdge`. -/
  | delete (request : ℕ)
  | commit (request : ℕ)
  /-- A request fails or its process stops: its transaction is rolled back. -/
  | abandon (request : ℕ)

/-- A statement on a row waits for the transaction that has written it. -/
def dependencyStep (table : DependencyTable) : DependencyEvent → Option DependencyTable
  | .createTicket key =>
    if key ∈ table.tickets then none else some { table with tickets := key :: table.tickets }
  | .softDelete key => some { table with deleted := key :: table.deleted }
  | .requireEnds edge =>
    if table.hasTicket edge.ticket && table.hasTicket edge.dependsOn then
      some { table with requests := table.requests ++ [.found edge] }
    else some table
  | .check request process =>
    match table.requests[request]?, run call initialHeap process with
    | some (.found edge), some heap =>
      some { table with
        requests := table.requests.set request (checkEdge heap table.projectEdges edge) }
    | _, _ => none
  | .insert request =>
    match table.requests[request]? with
    | some (.checked edge read) =>
      if table.isLocked edge then none
      else if edge ∈ table.rows then
        some { table with requests := table.requests.set request .unchanged }
      else some { table with requests := table.requests.set request (.inserted edge read) }
    | _ => none
  | .remove edge =>
    if table.hasTicket edge.ticket && table.hasTicket edge.dependsOn then
      some { table with requests := table.requests ++ [.removing edge] }
    else some table
  | .delete request =>
    match table.requests[request]? with
    | some (.removing edge) =>
      if edge ∈ table.rows then
        if table.isLocked edge then none
        else some { table with requests := table.requests.set request (.removed edge) }
      -- Nothing is deleted: the request is answered that there is no such dependency.
      else some { table with requests := table.requests.set request .finished }
    | _ => none
  | .commit request =>
    match table.requests[request]? with
    | some (.inserted edge _) =>
      some { table with
        rows := table.rows ++ [edge]
        requests := table.requests.set request .finished }
    | some (.removed edge) =>
      some { table with
        rows := table.rows.filter (· ≠ edge)
        requests := table.requests.set request .finished }
    | some .unchanged => some { table with requests := table.requests.set request .finished }
    | _ => none
  | .abandon request => some { table with requests := table.requests.set request .finished }

/-- When an insert is committed, its request has read each committed edge of the project. -/
def CommitsWhatItRead (table : DependencyTable) : DependencyEvent → Prop
  | .commit request => ∀ edge read, table.requests[request]? = some (.inserted edge read) →
      ∀ known ∈ table.projectEdges, known ∈ read
  | _ => True

/-- The table of a project before any dependency. -/
def DependencyTable.Fresh (table : DependencyTable) : Prop :=
  table.rows = [] ∧ table.requests = []

/-! ## The invariant -/

/-- The edge that a transaction has checked, with the edges that it read. -/
def EdgePhase.checks : EdgePhase → Option (Dependency × List Dependency)
  | .checked edge read | .inserted edge read => some (edge, read)
  | .found _ | .removing _ | .removed _ | .unchanged | .finished => none

/-- The project's edges are acyclic, and so is what each request has checked. -/
structure DependencyTable.Sound (table : DependencyTable) : Prop where
  acyclic : Acyclic (DependsOn table.projectEdges)
  checked : ∀ phase ∈ table.requests, ∀ edge read, phase.checks = some (edge, read) →
    Acyclic (DependsOn (edge :: read))

theorem dependsOn_mono {edges edges' : List Dependency} (sub : edges ⊆ edges') (a b : TicketKey)
    (link : DependsOn edges a b) : DependsOn edges' a b := by
  obtain ⟨edge, member, ends⟩ := link
  exact ⟨edge, sub member, ends⟩

/-- **A checked edge closes no cycle in the edges that were read.** -/
theorem acyclic_of_checkEdge {process : GraphCalls} {heap : Heap}
    (reached : run call initialHeap process = some heap) {read read' : List Dependency}
    {edge edge' : Dependency} (checked : (checkEdge heap read edge).checks = some (edge', read')) :
    Acyclic (DependsOn (edge' :: read')) := by
  unfold checkEdge graphOf at checked
  by_cases acyclic : Acyclic (DependsOn read)
  · obtain ⟨graph, later, edges, index, shared, built, sound, holds, same⟩ :=
      (createDependencyGraph_spec reached read).1 acyclic
    rw [built] at checked
    have answers := holds.answers sound edge.input
    have parsed := parseEdge_input edge
    have congr_ : DependsOn (edge :: edges) = DependsOn (edge :: read) :=
      dependsOn_congr fun other => by simp only [List.mem_cons, same]
    by_cases member : edge ∈ edges
    · simp [answers.same edge parsed member, EdgePhase.checks] at checked
    · by_cases closes : Acyclic (DependsOn (edge :: edges))
      · obtain ⟨next, answer, -⟩ := answers.inserted edge parsed member closes
        simp only [answer] at checked
        split at checked
        · cases checked
        · cases checked
          exact congr_ ▸ closes
      · obtain ⟨path, answer, -⟩ := answers.refused edge parsed member closes
        simp [answer, EdgePhase.checks] at checked
  · obtain ⟨path, later, failed⟩ := (createDependencyGraph_spec reached read).2 acyclic
    simp [failed, EdgePhase.checks] at checked

/-- Losing edges of the project keeps the table sound. -/
theorem DependencyTable.Sound.shrink {table next : DependencyTable} (sound : table.Sound)
    (fewer : next.projectEdges ⊆ table.projectEdges)
    (requests : ∀ phase ∈ next.requests, phase ∈ table.requests ∨ phase.checks = none) :
    next.Sound where
  acyclic := sound.acyclic.mono (dependsOn_mono fewer)
  checked phase member edge read checks := by
    rcases requests phase member with old | none_
    · exact sound.checked phase old edge read checks
    · rw [none_] at checks
      cases checks

/-- A request moves on to a phase that checks nothing, or what it had checked. -/
theorem DependencyTable.Sound.advance {table : DependencyTable} (sound : table.Sound)
    {request : ℕ} {before phase : EdgePhase} (asked : table.requests[request]? = some before)
    (same : phase.checks = none ∨ phase.checks = before.checks) :
    DependencyTable.Sound { table with requests := table.requests.set request phase } where
  acyclic := sound.acyclic
  checked other member edge read checks := by
    rcases List.mem_or_eq_of_mem_set member with old | rfl
    · exact sound.checked other old edge read checks
    · rcases same with none_ | kept
      · rw [none_] at checks
        cases checks
      · rw [kept] at checks
        exact sound.checked before (List.mem_of_getElem? asked) edge read checks

/-- A new request has checked nothing. -/
theorem DependencyTable.Sound.append {table : DependencyTable} (sound : table.Sound)
    {phase : EdgePhase} (new : phase.checks = none) :
    DependencyTable.Sound { table with requests := table.requests ++ [phase] } := by
  refine sound.shrink (List.Subset.refl _) fun other member => ?_
  rcases List.mem_append.mp member with old | last
  · exact .inl old
  · rw [List.mem_singleton.mp last]
    exact .inr new

/-- A request that ends leaves the others as they are. -/
theorem mem_set_finished {requests : List EdgePhase} {request : ℕ} {phase : EdgePhase}
    (member : phase ∈ requests.set request .finished) : phase ∈ requests ∨ phase.checks = none := by
  rcases List.mem_or_eq_of_mem_set member with old | rfl
  · exact .inl old
  · exact .inr rfl

/-- **A committed insert closes no cycle**, when its request has read the edges of the project. -/
theorem DependencyTable.Sound.commitInsert {table : DependencyTable} (sound : table.Sound)
    {request : ℕ} {edge : Dependency} {read : List Dependency}
    (asked : table.requests[request]? = some (.inserted edge read))
    (known : ∀ other ∈ table.projectEdges, other ∈ read) :
    DependencyTable.Sound { table with
      rows := table.rows ++ [edge], requests := table.requests.set request .finished } where
  acyclic := by
    have checked := sound.checked _ (List.mem_of_getElem? asked) edge read rfl
    refine checked.mono (dependsOn_mono fun other member => ?_)
    rw [projectEdges, List.filter_append] at member
    rcases List.mem_append.mp member with old | new
    · exact List.mem_cons_of_mem _ (known other old)
    · rw [List.mem_singleton.mp (List.mem_of_mem_filter new)]
      exact List.mem_cons_self
  checked phase member edge' read' checks := by
    rcases mem_set_finished member with old | none_
    · exact sound.checked phase old edge' read' checks
    · rw [none_] at checks
      cases checks

/-- **A step that commits what it has read keeps the edges acyclic.** -/
theorem DependencyTable.Sound.step {table next : DependencyTable} {event : DependencyEvent}
    (sound : table.Sound) (allowed : CommitsWhatItRead table event)
    (taken : dependencyStep table event = some next) : next.Sound := by
  cases event with
  | createTicket key =>
    simp only [dependencyStep] at taken
    split at taken
    · cases taken
    · cases taken
      exact ⟨sound.acyclic, sound.checked⟩
  | softDelete key =>
    cases taken
    refine sound.shrink (fun edge member => ?_) fun _ member => .inl member
    simp only [projectEdges, List.contains_cons, List.mem_filter, Bool.and_eq_true,
      Bool.not_eq_true', Bool.or_eq_false_iff] at member ⊢
    exact ⟨member.1, member.2.1.2, member.2.2.2⟩
  | requireEnds edge | remove edge =>
    simp only [dependencyStep] at taken
    split at taken
    · cases taken
      exact sound.append rfl
    · cases taken
      exact sound
  | check request process =>
    simp only [dependencyStep] at taken
    split at taken
    · rename_i edge heap asked reached
      cases taken
      refine ⟨sound.acyclic, fun phase member other read checks => ?_⟩
      rcases List.mem_or_eq_of_mem_set member with old | rfl
      · exact sound.checked phase old other read checks
      · exact acyclic_of_checkEdge reached checks
    · cases taken
  | insert request =>
    simp only [dependencyStep] at taken
    split at taken
    · rename_i edge read asked
      split at taken
      · cases taken
      · split at taken
        · cases taken
          exact sound.advance asked (.inl rfl)
        · cases taken
          exact sound.advance asked (.inr rfl)
    · cases taken
  | delete request =>
    simp only [dependencyStep] at taken
    split at taken
    · rename_i edge asked
      split at taken
      · split at taken
        · cases taken
        · cases taken
          exact sound.advance asked (.inl rfl)
      · cases taken
        exact sound.advance asked (.inl rfl)
    · cases taken
  | commit request =>
    simp only [dependencyStep] at taken
    split at taken
    · rename_i edge read asked
      cases taken
      exact sound.commitInsert asked (allowed edge read asked)
    · rename_i edge asked
      cases taken
      refine sound.shrink (fun other member => ?_) fun _ => mem_set_finished
      simp only [projectEdges, List.filter_filter, List.mem_filter,
        Bool.and_eq_true] at member ⊢
      exact ⟨member.1, member.2.1⟩
    · rename_i asked
      cases taken
      exact sound.advance asked (.inl rfl)
    · cases taken
  | abandon request =>
    cases taken
    exact sound.shrink (List.Subset.refl _) fun _ => mem_set_finished

theorem DependencyTable.Fresh.sound {table : DependencyTable} (fresh : table.Fresh) :
    table.Sound where
  acyclic a cycle := by
    obtain ⟨b, ⟨edge, member, -⟩, -⟩ := Relation.TransGen.head'_iff.mp cycle
    simp [projectEdges, fresh.1] at member
  checked phase member := by
    rw [fresh.2] at member
    cases member

/-! ## Every run -/

/-- **The edges of the project stay acyclic**, and building their graph never
fails, in every run in which each insert is committed by a request that has read
the committed edges of the project. -/
theorem project_edges_acyclic {start table : DependencyTable} {events : List DependencyEvent}
    (fresh : start.Fresh) (along : Along dependencyStep CommitsWhatItRead start events)
    (reached : run dependencyStep start events = some table) :
    Acyclic (DependsOn table.projectEdges) ∧
      ∀ process heap, run call initialHeap process = some heap →
        ∃ graph later, graphOf heap table.projectEdges = (.ok graph, later) := by
  have sound : table.Sound :=
    run_invariant_along (fun _ _ _ sound allowed taken => sound.step allowed taken)
      fresh.sound along reached
  refine ⟨sound.acyclic, fun process heap built => ?_⟩
  obtain ⟨graph, later, -, -, -, answer, -⟩ :=
    (createDependencyGraph_spec built table.projectEdges).1 sound.acyclic
  exact ⟨graph, later, answer⟩

def firstKey : TicketKey := ⟨Text.lit "TK-1", 1, rfl⟩

def secondKey : TicketKey := ⟨Text.lit "TK-2", 2, rfl⟩

/-- A project with two tickets. -/
def twoTickets : DependencyTable := ⟨[firstKey, secondKey], [], [], []⟩

/-- Requests for opposite edges, one after the other: the second one is refused. -/
def addedInTurn : List DependencyEvent :=
  [.requireEnds ⟨firstKey, secondKey, .blocks⟩, .check 0 [], .insert 0, .commit 0,
    .requireEnds ⟨secondKey, firstKey, .blocks⟩, .check 1 []]

theorem project_edges_acyclic_in_turn :
    ∃ table, run dependencyStep twoTickets addedInTurn = some table ∧
      table.rows = [⟨firstKey, secondKey, .blocks⟩] ∧ table.requests = [.finished, .finished] ∧
      Acyclic (DependsOn table.projectEdges) := by
  have along : Along dependencyStep CommitsWhatItRead twoTickets addedInTurn := by
    refine .of_step rfl trivial (.of_step rfl trivial (.of_step rfl trivial (.of_step rfl ?_
      (.of_step rfl trivial (.of_step rfl trivial trivial)))))
    intro edge read asked known member
    cases member
  exact ⟨_, rfl, by decide, by decide, (project_edges_acyclic ⟨rfl, rfl⟩ along rfl).1⟩

/-- Requests for opposite edges, which both read and insert before either commits. -/
def addedTogether : List DependencyEvent :=
  [.requireEnds ⟨firstKey, secondKey, .blocks⟩, .requireEnds ⟨secondKey, firstKey, .blocks⟩,
    .check 0 [], .check 1 [], .insert 0, .insert 1, .commit 0, .commit 1]

/-- **Two requests close a cycle together**: each reads the project without
edges, and they insert opposite ones. No graph is built from these edges. -/
theorem project_edges_cyclic :
    twoTickets.Fresh ∧ ∃ table, run dependencyStep twoTickets addedTogether = some table ∧
      ¬ Acyclic (DependsOn table.projectEdges) ∧
      ∃ path later, graphOf initialHeap table.projectEdges = (.error (.cycle path), later) := by
  refine ⟨⟨rfl, rfl⟩, _, rfl, ?_, _, _, rfl⟩
  intro acyclic
  refine acyclic firstKey (.head (b := secondKey) ?_ (.single ?_))
  · exact ⟨⟨firstKey, secondKey, .blocks⟩, by decide, rfl, rfl⟩
  · exact ⟨⟨secondKey, firstKey, .blocks⟩, by decide, rfl, rfl⟩

end Koklo.Tracker
