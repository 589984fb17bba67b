import Koklo.Domain.TicketKey
import Koklo.Foundations.Digraph
import Koklo.Foundations.OrderedMap
import Koklo.Foundations.SortedInsert

/-!
# The dependency graph of tickets

A graph is an object that holds its sorted edges. A shared index accelerates it:
each entry carries the version of the graph that brought it, and a graph of
version `v` sees the entries of version at most `v`. An addition to the graph at
the head of its index extends the index in place; an addition to an older graph
copies the branch into an index of its own.

The heap holds the shared indexes and the graphs, each graph with the index the
module keeps for it. A reference to a graph is its position in the heap, so two
references are the same object exactly when they are equal.
-/

set_option autoImplicit false

namespace Koklo.Domain

open Koklo.Foundations

/-! ## Edges -/

/-- The types of dependencies; only those that block make cycles. -/
inductive DependencyType where
  | blocks | related
deriving DecidableEq

/-- The position in `DEPENDENCY_TYPES`. -/
def DependencyType.index : DependencyType → ℕ
  | blocks => 0
  | related => 1

def DependencyType.label : DependencyType → Text
  | blocks => Text.lit "blocks"
  | related => Text.lit "related"

/-- An edge as a caller writes it: `ticket` depends on `dependsOn`. -/
structure DependencyInput where
  ticket : Text
  dependsOn : Text
  type : DependencyType

/-- An edge between two ticket keys. -/
structure Dependency where
  ticket : TicketKey
  dependsOn : TicketKey
  type : DependencyType
deriving DecidableEq

/-- Why a dependency is refused. -/
inductive DependencyError where
  | invalidTicketKey (value : Text)
  | cycle (path : List TicketKey)
deriving DecidableEq

/-- `parseTicketKey`, as the key it accepts. -/
def toTicketKey (value : Text) : Except DependencyError TicketKey :=
  match parsed : parseTicketKey value with
  | .error invalid => .error (.invalidTicketKey invalid.value)
  | .ok number => .ok ⟨value, number, parsed⟩

/-- The dependency of an input, when its keys are keys of tickets. -/
def parseEdge (edge : DependencyInput) : Except DependencyError Dependency := do
  let ticket ← toTicketKey edge.ticket
  let dependsOn ← toTicketKey edge.dependsOn
  return ⟨ticket, dependsOn, edge.type⟩

/-- `compareEdges`: by ticket, then by dependency, then by type. -/
def compareEdges (a b : Dependency) : ℤ :=
  let byTicket : ℤ := a.ticket.number - b.ticket.number
  let byDependsOn : ℤ := a.dependsOn.number - b.dependsOn.number
  if byTicket ≠ 0 then byTicket
  else if byDependsOn ≠ 0 then byDependsOn
  else (a.type.index : ℤ) - b.type.index

/-- What makes two dependencies the same one. -/
def edgeKey (edge : Dependency) : Text :=
  edge.ticket.text ++ 0 :: (edge.dependsOn.text ++ 0 :: edge.type.label)

/-- `insertSorted`: bisection, then a splice. -/
def insertSorted (edges : List Dependency) (edge : Dependency) : List Dependency :=
  insertBisect (fun known => decide (compareEdges known edge ≤ 0)) edge edges

/-! ## The heap -/

/-- The index that the versions of one history share: each edge with the version that added it. -/
structure SharedIndex where
  head : ℕ
  keys : OrderedMap Text ℕ
  out : OrderedMap TicketKey (List (TicketKey × ℕ))
deriving DecidableEq

/-- A reference to a shared index, and the version of the graph in it. -/
structure GraphIndex where
  shared : ℕ
  version : ℕ
deriving DecidableEq

/-- A graph, with the index that `indexes` keeps for it. -/
structure GraphObject where
  edges : List Dependency
  index : Option GraphIndex
deriving DecidableEq

/-- The indexes and the graphs that were made. -/
structure Heap where
  shareds : List SharedIndex
  graphs : List GraphObject
deriving DecidableEq

/-- A reference to a graph. -/
abbrev DependencyGraph := ℕ

/-- An index without edges. -/
def SharedIndex.empty (head : ℕ) : SharedIndex := ⟨head, [], []⟩

/-- The index at an address. -/
def Heap.sharedAt (heap : Heap) (address : ℕ) : SharedIndex :=
  heap.shareds[address]?.getD (.empty 0)

/-- `dependencyEdges`. -/
def Heap.edgesOf (heap : Heap) (graph : DependencyGraph) : List Dependency :=
  (heap.graphs[graph]?.map GraphObject.edges).getD []

/-- The index with one more edge, at a version. -/
def record (shared : SharedIndex) (edge : Dependency) (version : ℕ) : SharedIndex :=
  { shared with
    keys := shared.keys.set (edgeKey edge) version
    out := shared.out.set edge.ticket
      ((shared.out.get edge.ticket).getD [] ++ [(edge.dependsOn, version)]) }

/-- An index of its own for a list of edges, at version 0. -/
def copyIndex (head : ℕ) (edges : List Dependency) : SharedIndex :=
  edges.foldl (fun shared edge => record shared edge 0) (.empty head)

/-- A new graph on an index. -/
def freezeGraph (heap : Heap) (edges : List Dependency) (index : GraphIndex) :
    DependencyGraph × Heap :=
  (heap.graphs.length, { heap with graphs := heap.graphs ++ [⟨edges, some index⟩] })

/-- `indexOf`: the index known for a graph, or one built from its edges. -/
def indexOf (heap : Heap) (graph : DependencyGraph) : GraphIndex × Heap :=
  match heap.graphs[graph]?.bind GraphObject.index with
  | some known => (known, heap)
  | none =>
    let edges := heap.edgesOf graph
    let built : GraphIndex := ⟨heap.shareds.length, edges.length⟩
    (built,
      { shareds := heap.shareds ++ [copyIndex edges.length edges]
        graphs := heap.graphs.set graph ⟨edges, some built⟩ })

/-- `extendIndex`: in place at the head of the index, else in a copy of the branch. -/
def extendIndex (heap : Heap) (edges : List Dependency) (index : GraphIndex) (edge : Dependency) :
    GraphIndex × Heap :=
  let shared := heap.sharedAt index.shared
  if index.version ≠ shared.head then
    let copy := { copyIndex index.version edges with head := index.version + 1 }
    (⟨heap.shareds.length, copy.head⟩,
      { heap with shareds := heap.shareds ++ [record copy edge copy.head] })
  else
    let grown := { shared with head := shared.head + 1 }
    (⟨index.shared, grown.head⟩,
      { heap with shareds := heap.shareds.set index.shared (record grown edge grown.head) })

/-! ## The search -/

/-- The targets a graph of some version sees from a node. -/
def visible (shared : SharedIndex) (version : ℕ) (node : TicketKey) : List TicketKey :=
  (((shared.out.get node).getD []).filter fun entry => entry.2 ≤ version).map Prod.fst

/-- All the targets a graph of some version sees. -/
def visibleTargets (shared : SharedIndex) (version : ℕ) : List TicketKey :=
  ((shared.out.flatMap Prod.snd).filter fun entry => entry.2 ≤ version).map Prod.fst

/-- `findPath`. Each node is pushed once, so the visible targets bound the search. -/
def findBack (shared : SharedIndex) (version : ℕ) (source target : TicketKey) :
    Option (List TicketKey) :=
  findPath (visible shared version) source target ((visibleTargets shared version).length + 2)

/-- Whether a graph of some version knows an edge. -/
def isKnown (shared : SharedIndex) (version : ℕ) (edge : Dependency) : Bool :=
  (shared.keys.get (edgeKey edge)).any (· ≤ version)

/-! ## Building graphs -/

/-- `addDependency`. -/
def addDependency (heap : Heap) (graph : DependencyGraph) (edge : DependencyInput) :
    Except DependencyError DependencyGraph × Heap :=
  match parseEdge edge with
  | .error error => (.error error, heap)
  | .ok added =>
    let (index, heap) := indexOf heap graph
    let shared := heap.sharedAt index.shared
    if isKnown shared index.version added then (.ok graph, heap)
    else
      match findBack shared index.version added.dependsOn added.ticket with
      | some back => (.error (.cycle (added.ticket :: back)), heap)
      | none =>
        let edges := heap.edgesOf graph
        let (next, heap) := extendIndex heap edges index added
        let (created, heap) := freezeGraph heap (insertSorted edges added) next
        (.ok created, heap)

/-- `EMPTY_GRAPH` and its index, as the module starts. -/
def initialHeap : Heap := ⟨[.empty 0], [⟨[], some ⟨0, 0⟩⟩]⟩

/-- The graph without edges. -/
def emptyGraph : DependencyGraph := 0

/-- The dependencies are added one after the other. -/
def addAll (heap : Heap) (graph : DependencyGraph) :
    List DependencyInput → Except DependencyError DependencyGraph × Heap
  | [] => (.ok graph, heap)
  | edge :: edges =>
    match addDependency heap graph edge with
    | (.error error, heap) => (.error error, heap)
    | (.ok next, heap) => addAll heap next edges

/-- `createDependencyGraph`. -/
def createDependencyGraph (heap : Heap) (edges : List DependencyInput) :
    Except DependencyError DependencyGraph × Heap :=
  addAll heap emptyGraph edges

end Koklo.Domain
