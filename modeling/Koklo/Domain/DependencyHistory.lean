import Koklo.Domain.DependencyIndex
import Koklo.Foundations.Fallible
import Koklo.Foundations.Runs

/-!
# The shared index behaves as a persistent list of edges

A graph holds when its edges are sorted and acyclic and its index represents
them at its version (`Heap.Holds`). Every call keeps the graphs that hold: an
addition below or above them is invisible to their version (`Heap.Extends`).

In every reachable heap a call answers what the plain list of edges of its graph
answers, and leaves every older graph and its later verdicts as they were
(`dependency_index_is_persistent`). The reference is the list itself: the sorted
insertion of an edge that closes no cycle.
-/

set_option autoImplicit false

namespace Koklo.Domain

open Koklo.Foundations

/-! ## Graphs that hold -/

/-- A graph of the heap, with its edges and the index that represents them. -/
structure Heap.Holds (heap : Heap) (graph : DependencyGraph) (edges : List Dependency)
    (index : GraphIndex) (shared : SharedIndex) : Prop where
  stored : heap.graphs[graph]? = some ⟨edges, some index⟩
  indexed : heap.shareds[index.shared]? = some shared
  below : index.version ≤ shared.head
  represents : Represents shared index.version edges
  acyclic : Acyclic (DependsOn edges)
  sorted : SortedEdges edges

/-- Every graph of the heap holds, and no entry is above the head of its index. -/
structure Heap.Sound (heap : Heap) : Prop where
  holds : ∀ graph < heap.graphs.length, ∃ edges index shared, heap.Holds graph edges index shared
  capped : ∀ shared ∈ heap.shareds, shared.Capped

/-- What the graphs of a heap see is the same in a later heap. -/
def Heap.Extends (heap later : Heap) : Prop :=
  ∀ graph edges index shared, heap.Holds graph edges index shared →
    ∃ shared', later.Holds graph edges index shared' ∧ SameView shared' shared index.version

theorem Heap.Extends.refl (heap : Heap) : heap.Extends heap :=
  fun _ _ _ shared holds => ⟨shared, holds, ⟨rfl, rfl, rfl⟩⟩

theorem SameView.represents {first second : SharedIndex} {version : ℕ} {edges : List Dependency}
    (same : SameView first second version) (represents : Represents second version edges) :
    Represents first version edges where
  keys edge := by rw [same.known]; exact represents.keys edge
  out a b := by rw [same.visible]; exact represents.out a b

theorem Heap.Holds.edgesOf {heap : Heap} {graph : DependencyGraph} {edges : List Dependency}
    {index : GraphIndex} {shared : SharedIndex} (holds : heap.Holds graph edges index shared) :
    heap.edgesOf graph = edges := by
  simp [Heap.edgesOf, holds.stored]

theorem initialHeap_sound : initialHeap.Sound where
  holds graph inside := by
    obtain rfl : graph = 0 := Nat.lt_one_iff.mp inside
    refine ⟨[], ⟨0, 0⟩, .empty 0, rfl, rfl, le_rfl, ?_, ?_, .nil, .nil⟩
    · exact ⟨fun _ => by simp [isKnown, SharedIndex.empty], fun _ _ => by
        simp [visible, SharedIndex.empty, DependsOn]⟩
    · intro a cycle
      obtain ⟨b, ⟨edge, member, -⟩, -⟩ := Relation.TransGen.head'_iff.mp cycle
      cases member
  capped shared member := by
    rw [List.mem_singleton.mp member]
    exact capped_empty 0

/-! ## Where an addition goes -/

/-- The head of an index grows in place. -/
def growIndex (shared : SharedIndex) (added : Dependency) : SharedIndex :=
  record { shared with head := shared.head + 1 } added (shared.head + 1)

/-- The copy of a branch, with the edge that leaves it. -/
def branchIndex (version : ℕ) (edges : List Dependency) (added : Dependency) : SharedIndex :=
  record { copyIndex version edges with head := version + 1 } added (version + 1)

section Addition

variable {heap : Heap} {graph : DependencyGraph} {edges : List Dependency} {index : GraphIndex}
  {shared : SharedIndex} {added : Dependency}

theorem Heap.Holds.sharedAt (holds : heap.Holds graph edges index shared) :
    heap.sharedAt index.shared = shared := by
  simp [Heap.sharedAt, holds.indexed]

theorem Heap.Holds.extendIndex_behind (holds : heap.Holds graph edges index shared)
    (behind : index.version ≠ shared.head) (added : Dependency) :
    extendIndex heap edges index added = (⟨heap.shareds.length, index.version + 1⟩,
      { heap with shareds := heap.shareds ++ [branchIndex index.version edges added] }) := by
  simp only [extendIndex, holds.sharedAt]
  rw [if_pos behind]
  rfl

theorem Heap.Holds.extendIndex_head (holds : heap.Holds graph edges index shared)
    (front : index.version = shared.head) (added : Dependency) :
    extendIndex heap edges index added = (⟨index.shared, shared.head + 1⟩,
      { heap with shareds := heap.shareds.set index.shared (growIndex shared added) }) := by
  simp only [extendIndex, holds.sharedAt]
  rw [if_neg (not_not.mpr front)]
  rfl

/-- A copied branch represents its edges and the one that leaves it. -/
theorem branchIndex_spec (version : ℕ) (edges : List Dependency) (added : Dependency) :
    (branchIndex version edges added).Capped ∧
      Represents (branchIndex version edges added) (version + 1) (added :: edges) := by
  obtain ⟨capped, head, represents⟩ := represents_copyIndex version (version + 1) edges
  have raised : SharedIndex.Capped { copyIndex version edges with head := version + 1 } :=
    ⟨fun key w read => (capped.keys key w read).trans (by rw [head]; exact Nat.le_succ _),
      fun node targets read entry member =>
        (capped.out node targets read entry member).trans (by rw [head]; exact Nat.le_succ _)⟩
  have same : Represents { copyIndex version edges with head := version + 1 } (version + 1) edges :=
    ⟨represents.keys, represents.out⟩
  exact ⟨capped_record raised added le_rfl, same.record added le_rfl⟩

/-- An index that grows in place represents one more edge at its new head, and
looks the same to every version that does not know the edge. -/
theorem growIndex_spec (capped : shared.Capped) (represents : Represents shared shared.head edges)
    (added : Dependency) : (growIndex shared added).Capped ∧
      Represents (growIndex shared added) (shared.head + 1) (added :: edges) ∧
      ∀ version ≤ shared.head, isKnown shared version added = false →
        SameView (growIndex shared added) shared version := by
  have raised : SharedIndex.Capped { shared with head := shared.head + 1 } :=
    ⟨fun key w read => (capped.keys key w read).trans (Nat.le_succ _),
      fun node targets read entry member =>
        (capped.out node targets read entry member).trans (Nat.le_succ _)⟩
  have above := represents.raise capped (Nat.le_succ shared.head)
  have same : Represents { shared with head := shared.head + 1 } (shared.head + 1) edges :=
    ⟨above.keys, above.out⟩
  refine ⟨capped_record raised added le_rfl, same.record added le_rfl, ?_⟩
  intro version below unknown
  have seen : SameView (growIndex shared added) { shared with head := shared.head + 1 } version :=
    sameView_record (Nat.lt_succ_of_le below) unknown
  exact ⟨seen.known, seen.visible, seen.targets⟩

/-! ## One call -/

/-- An edge that a version does not know is not known below it. -/
theorem isKnown_mono {low high : ℕ} (below : low ≤ high)
    (unknown : isKnown shared high added = false) : isKnown shared low added = false := by
  rw [Bool.eq_false_iff] at unknown ⊢
  intro known
  obtain ⟨w, seen, read⟩ := isKnown_iff.mp known
  exact unknown (isKnown_iff.mpr ⟨w, seen.trans below, read⟩)

/-- What an accepted addition makes of a heap. -/
structure Added (heap later : Heap) (edges : List Dependency) (added : Dependency) : Prop where
  sound : later.Sound
  extended : heap.Extends later
  created : later.graphs.length = heap.graphs.length + 1
  edges : later.edgesOf heap.graphs.length = edges.orderedInsert Before added

/-- Storing a new graph whose index represents its edges keeps the heap sound,
when the other indexes look the same. -/
theorem Heap.Sound.store (sound : heap.Sound) (sorted : SortedEdges edges) (fresh : added ∉ edges)
    (acyclic : Acyclic (DependsOn (added :: edges))) {shareds : List SharedIndex}
    {next : GraphIndex} {indexOfNext : SharedIndex} (indexed : shareds[next.shared]? = some indexOfNext)
    (below : next.version ≤ indexOfNext.head)
    (represents : Represents indexOfNext next.version (added :: edges))
    (capped : ∀ shared ∈ shareds, shared.Capped)
    (kept : ∀ (address : ℕ) (old : SharedIndex), heap.shareds[address]? = some old → ∃ new, shareds[address]? = some new ∧
      old.head ≤ new.head ∧ ∀ version ≤ old.head, SameView new old version) :
    Added heap ⟨shareds, heap.graphs ++ [⟨insertSorted edges added, some next⟩]⟩ edges added := by
  have inserted := insertSorted_eq sorted fresh
  have created : Heap.Holds ⟨shareds, heap.graphs ++ [⟨insertSorted edges added, some next⟩]⟩
      heap.graphs.length (edges.orderedInsert Before added) next indexOfNext := by
    have perm := List.perm_orderedInsert Before added edges
    refine ⟨by simp [inserted], indexed, below, ?_, ?_, sortedEdges_orderedInsert sorted fresh⟩
    · exact represents.of_mem_iff fun edge => perm.mem_iff.symm
    · rwa [dependsOn_perm perm]
  have extended : heap.Extends
      ⟨shareds, heap.graphs ++ [⟨insertSorted edges added, some next⟩]⟩ := by
    intro graph edges' index shared holds
    obtain ⟨new, found, grown, same⟩ := kept _ _ holds.indexed
    have view := same index.version holds.below
    refine ⟨new, ⟨?_, found, holds.below.trans grown, view.represents holds.represents,
      holds.acyclic, holds.sorted⟩, view⟩
    exact List.getElem?_append_left (List.getElem?_eq_some_iff.mp holds.stored).1 ▸ holds.stored
  refine ⟨⟨?_, capped⟩, extended, by simp, created.edgesOf⟩
  intro graph inside
  rw [List.length_append, List.length_singleton, Nat.lt_succ_iff_lt_or_eq] at inside
  rcases inside with old | rfl
  · obtain ⟨edges', index, shared, holds⟩ := sound.holds graph old
    obtain ⟨shared', holds', -⟩ := extended graph edges' index shared holds
    exact ⟨edges', index, shared', holds'⟩
  · exact ⟨_, _, _, created⟩

/-- **An accepted addition keeps the heap sound**, in place at the head of an
index and in a copy of the branch elsewhere. -/
theorem Heap.Holds.addition (holds : heap.Holds graph edges index shared) (sound : heap.Sound)
    (fresh : added ∉ edges) (acyclic : Acyclic (DependsOn (added :: edges))) :
    Added heap (freezeGraph (extendIndex heap edges index added).2 (insertSorted edges added)
      (extendIndex heap edges index added).1).2 edges added := by
  by_cases front : index.version = shared.head
  · have unknown : isKnown shared shared.head added = false := by
      rw [Bool.eq_false_iff, ← front]
      exact mt (holds.represents.keys added).mp fresh
    have represents : Represents shared shared.head edges := front ▸ holds.represents
    obtain ⟨capped, represents', view⟩ :=
      growIndex_spec (sound.capped shared (List.mem_of_getElem? holds.indexed)) represents added
    have inside := (List.getElem?_eq_some_iff.mp holds.indexed).1
    rw [holds.extendIndex_head front]
    have indexed : (heap.shareds.set index.shared (growIndex shared added))[index.shared]? =
        some (growIndex shared added) := by simp [inside]
    refine sound.store holds.sorted fresh acyclic indexed le_rfl represents' ?_ ?_
    · intro other member
      rcases List.mem_or_eq_of_mem_set member with old | rfl
      · exact sound.capped other old
      · exact capped
    · intro address old found
      by_cases same : address = index.shared
      · subst same
        cases holds.indexed.symm.trans found
        exact ⟨growIndex shared added, by simp [inside], Nat.le_succ _,
          fun version below => view version below (isKnown_mono below unknown)⟩
      · exact ⟨old, by rw [List.getElem?_set_ne (Ne.symm same)]; exact found, le_rfl,
          fun _ _ => ⟨rfl, rfl, rfl⟩⟩
  · obtain ⟨capped, represents⟩ := branchIndex_spec index.version edges added
    rw [holds.extendIndex_behind front]
    have indexed : (heap.shareds ++ [branchIndex index.version edges added])[heap.shareds.length]? =
        some (branchIndex index.version edges added) := by simp
    refine sound.store holds.sorted fresh acyclic indexed le_rfl represents ?_ ?_
    · intro other member
      rcases List.mem_append.mp member with old | new
      · exact sound.capped other old
      · rw [List.mem_singleton.mp new]
        exact capped
    · intro address old found
      have inside := (List.getElem?_eq_some_iff.mp found).1
      exact ⟨old, by rw [List.getElem?_append_left inside]; exact found, le_rfl,
        fun _ _ => ⟨rfl, rfl, rfl⟩⟩

/-- What a call reads: the version, the index and the edges of its graph. -/
theorem Heap.Holds.addDependency (holds : heap.Holds graph edges index shared)
    {edge : DependencyInput} (parsed : parseEdge edge = .ok added) :
    addDependency heap graph edge =
      if isKnown shared index.version added then (.ok graph, heap)
      else
        match findBack shared index.version added.dependsOn added.ticket with
        | some back => (.error (.cycle (added.ticket :: back)), heap)
        | none =>
          (.ok heap.graphs.length, (freezeGraph (extendIndex heap edges index added).2
            (insertSorted edges added) (extendIndex heap edges index added).1).2) := by
  have known : indexOf heap graph = (index, heap) := by simp [indexOf, holds.stored]
  have graphs : (extendIndex heap edges index added).2.graphs = heap.graphs := by
    by_cases front : index.version = shared.head
    · rw [holds.extendIndex_head front]
    · rw [holds.extendIndex_behind front]
  simp only [Domain.addDependency, parsed, known, holds.sharedAt, holds.edgesOf]
  split_ifs
  · rfl
  · cases findBack shared index.version added.dependsOn added.ticket with
    | some back => rfl
    | none => simp only [freezeGraph, graphs]

/-- The answer of a call on a plain list of edges: a known edge gives the same
graph, an edge that closes a cycle is refused with the cycle, any other edge is
inserted at its place. -/
structure Answers (heap : Heap) (graph : DependencyGraph) (edges : List Dependency)
    (edge : DependencyInput) : Prop where
  malformed : ∀ error, parseEdge edge = .error error →
    Domain.addDependency heap graph edge = (.error error, heap)
  same : ∀ added, parseEdge edge = .ok added → added ∈ edges →
    Domain.addDependency heap graph edge = (.ok graph, heap)
  refused : ∀ added, parseEdge edge = .ok added → added ∉ edges →
    ¬ Acyclic (DependsOn (added :: edges)) → ∃ path,
      Domain.addDependency heap graph edge = (.error (.cycle path), heap) ∧
        IsCycle (added :: edges) path
  inserted : ∀ added, parseEdge edge = .ok added → added ∉ edges →
    Acyclic (DependsOn (added :: edges)) → ∃ later,
      Domain.addDependency heap graph edge = (.ok heap.graphs.length, later) ∧
        Added heap later edges added

/-- **A call answers what the list of edges of its graph answers.** -/
theorem Heap.Holds.answers (holds : heap.Holds graph edges index shared) (sound : heap.Sound)
    (edge : DependencyInput) : Answers heap graph edges edge where
  malformed error parsed := by simp [Domain.addDependency, parsed]
  same added parsed member := by
    rw [holds.addDependency parsed, if_pos ((holds.represents.keys added).mpr member)]
  refused added parsed fresh cyclic := by
    have back := (holds.represents.findBack_isSome_iff added.dependsOn added.ticket).mpr
      (not_not.mp (mt (acyclic_cons_iff holds.acyclic added).mpr cyclic))
    obtain ⟨path, found⟩ := Option.isSome_iff_exists.mp back
    refine ⟨added.ticket :: path, ?_, holds.represents.findBack_cycle found⟩
    rw [holds.addDependency parsed, if_neg (mt (holds.represents.keys added).mp fresh), found]
  inserted added parsed fresh acyclic := by
    have missed : findBack shared index.version added.dependsOn added.ticket = none := by
      rw [← Option.not_isSome_iff_eq_none, holds.represents.findBack_isSome_iff]
      exact (acyclic_cons_iff holds.acyclic added).mp acyclic
    refine ⟨_, ?_, holds.addition sound fresh acyclic⟩
    rw [holds.addDependency parsed, if_neg (mt (holds.represents.keys added).mp fresh), missed]

end Addition

/-! ## Every history of calls -/

/-- A call on any graph of the heap, old or new. -/
def call (heap : Heap) (request : DependencyGraph × DependencyInput) : Option Heap :=
  if request.1 < heap.graphs.length then some (addDependency heap request.1 request.2).2 else none

/-- What a caller learns from a call: an error, or whether the graph is the same
and its edges. -/
def verdict (heap : Heap) (graph : DependencyGraph) (edge : DependencyInput) :
    Except DependencyError (Bool × List Dependency) :=
  match addDependency heap graph edge with
  | (.error error, _) => .error error
  | (.ok next, later) => .ok (next == graph, later.edgesOf next)

theorem Heap.Extends.trans {first second third : Heap} (one : first.Extends second)
    (two : second.Extends third) : first.Extends third := by
  intro graph edges index shared holds
  obtain ⟨shared', holds', same⟩ := one graph edges index shared holds
  obtain ⟨shared'', holds'', same'⟩ := two graph edges index shared' holds'
  exact ⟨shared'', holds'', same'.known.trans same.known, same'.visible.trans same.visible,
    same'.targets.trans same.targets⟩

/-- One call keeps the heap sound and what its graphs see. -/
theorem call_sound {heap later : Heap} {request : DependencyGraph × DependencyInput}
    (sound : heap.Sound) (called : call heap request = some later) :
    later.Sound ∧ heap.Extends later := by
  unfold call at called
  split at called
  · rename_i inside
    cases called
    obtain ⟨edges, index, shared, holds⟩ := sound.holds request.1 inside
    have answers := holds.answers sound request.2
    cases parsed : parseEdge request.2 with
    | error error =>
      rw [answers.malformed error parsed]
      exact ⟨sound, .refl heap⟩
    | ok added =>
      by_cases member : added ∈ edges
      · rw [answers.same added parsed member]
        exact ⟨sound, .refl heap⟩
      · by_cases acyclic : Acyclic (DependsOn (added :: edges))
        · obtain ⟨next, answer, stored⟩ := answers.inserted added parsed member acyclic
          rw [answer]
          exact ⟨stored.sound, stored.extended⟩
        · obtain ⟨path, answer, -⟩ := answers.refused added parsed member acyclic
          rw [answer]
          exact ⟨sound, .refl heap⟩
  · cases called

theorem run_sound {heap later : Heap} {calls : List (DependencyGraph × DependencyInput)}
    (sound : heap.Sound) (ran : run call heap calls = some later) : later.Sound :=
  run_invariant (fun _ _ _ sound called => (call_sound sound called).1) sound ran

theorem run_extends {heap later : Heap} {calls : List (DependencyGraph × DependencyInput)}
    (sound : heap.Sound) (ran : run call heap calls = some later) : heap.Extends later := by
  have both : later.Sound ∧ heap.Extends later := by
    refine @run_invariant _ _ call (fun now => now.Sound ∧ heap.Extends now) ?_ _ _ _
      ⟨sound, .refl heap⟩ ran
    intro now request next before called
    obtain ⟨sound', extended⟩ := call_sound before.1 called
    exact ⟨sound', before.2.trans extended⟩
  exact both.2

/-- What a caller learns depends on what the graph sees. -/
theorem Heap.Holds.verdict {heap : Heap} (sound : heap.Sound) {graph : DependencyGraph}
    {edges : List Dependency} {index : GraphIndex} {shared : SharedIndex}
    (holds : heap.Holds graph edges index shared) (edge : DependencyInput) :
    verdict heap graph edge =
      match parseEdge edge with
      | .error error => .error error
      | .ok added =>
        if isKnown shared index.version added then .ok (true, edges)
        else
          match findBack shared index.version added.dependsOn added.ticket with
          | some back => .error (.cycle (added.ticket :: back))
          | none => .ok (false, edges.orderedInsert Before added) := by
  unfold Domain.verdict
  cases parsed : parseEdge edge with
  | error error => rw [(holds.answers sound edge).malformed error parsed]
  | ok added =>
    simp only
    by_cases known : isKnown shared index.version added = true
    · rw [holds.addDependency parsed, if_pos known, if_pos known]
      simp [holds.edgesOf]
    · have fresh : added ∉ edges := mt (holds.represents.keys added).mpr known
      rw [if_neg known]
      cases found : findBack shared index.version added.dependsOn added.ticket with
      | some back => rw [holds.addDependency parsed, if_neg known, found]
      | none =>
        have acyclic : Acyclic (DependsOn (added :: edges)) := by
          rw [acyclic_cons_iff holds.acyclic, ← holds.represents.findBack_isSome_iff, found]
          simp
        obtain ⟨later, answer, stored⟩ :=
          (holds.answers sound edge).inserted added parsed fresh acyclic
        have distinct : heap.graphs.length ≠ graph :=
          Nat.ne_of_gt (List.getElem?_eq_some_iff.mp holds.stored).1
        rw [answer]
        simp [stored.edges, distinct]

/-- **The shared index behaves as a persistent list of edges.** After any history
of calls, on any graphs, old or new: the edges of a graph are sorted, without
duplicate and acyclic; a call on it answers what its list of edges answers; and
no later history changes its edges or what a call on it answers. -/
theorem dependency_index_is_persistent {calls : List (DependencyGraph × DependencyInput)}
    {heap : Heap} (reached : run call initialHeap calls = some heap) {graph : DependencyGraph}
    (known : graph < heap.graphs.length) :
    SortedEdges (heap.edgesOf graph) ∧ Acyclic (DependsOn (heap.edgesOf graph)) ∧
      (∀ edge, Answers heap graph (heap.edgesOf graph) edge) ∧
      ∀ calls' later, run call heap calls' = some later →
        later.edgesOf graph = heap.edgesOf graph ∧
          ∀ edge, verdict later graph edge = verdict heap graph edge := by
  have sound := run_sound initialHeap_sound reached
  obtain ⟨edges, index, shared, holds⟩ := sound.holds graph known
  rw [holds.edgesOf]
  refine ⟨holds.sorted, holds.acyclic, holds.answers sound, fun calls' later ran => ?_⟩
  obtain ⟨shared', holds', same⟩ := run_extends sound ran graph edges index shared holds
  refine ⟨holds'.edgesOf, fun edge => ?_⟩
  rw [holds'.verdict (run_sound sound ran), holds.verdict sound]
  simp only [same.known, same.findBack]

/-- Three additions, the third of which branches from the graph before the second. -/
def branchingCalls : List (DependencyGraph × DependencyInput) :=
  [(0, ⟨Text.lit "TK-1", Text.lit "TK-2", .blocks⟩), (1, ⟨Text.lit "TK-2", Text.lit "TK-3", .blocks⟩),
    (1, ⟨Text.lit "TK-2", Text.lit "TK-13", .related⟩)]

/-- The two branches share their first edge and hold two edges each. -/
theorem dependency_index_is_persistent_branching :
    ∃ heap, run call initialHeap branchingCalls = some heap ∧ (heap.edgesOf 2).length = 2 ∧
      SortedEdges (heap.edgesOf 2) ∧ (heap.edgesOf 3).length = 2 ∧
      Acyclic (DependsOn (heap.edgesOf 3)) := by
  have reached : run call initialHeap branchingCalls = some _ := rfl
  exact ⟨_, reached, by decide, (dependency_index_is_persistent reached (by decide)).1, by decide,
    (dependency_index_is_persistent reached (by decide)).2.1⟩

/-! ## Graphs built from a list of edges -/

/-- A dependency as it is given. -/
def Dependency.input (edge : Dependency) : DependencyInput :=
  ⟨edge.ticket.text, edge.dependsOn.text, edge.type⟩

theorem toTicketKey_text (key : TicketKey) : toTicketKey key.text = .ok key := by
  unfold toTicketKey
  split
  · rename_i invalid
    rw [key.parsed] at invalid
    cases invalid
  · exact congrArg Except.ok (TicketKey.ext rfl)

theorem parseEdge_input (edge : Dependency) : parseEdge edge.input = .ok edge := by
  simp [parseEdge, Dependency.input, toTicketKey_text, bind, Except.bind, pure, Except.pure]

theorem dependsOn_congr {edges edges' : List Dependency} (same : ∀ edge, edge ∈ edges ↔ edge ∈ edges') :
    DependsOn edges = DependsOn edges' := by
  funext a b
  simp only [DependsOn, same]

/-- **Adding edges in turn succeeds exactly when all of them close no cycle**, and
the graph then has these edges. -/
theorem addAll_spec (edges : List Dependency) {heap : Heap} (sound : heap.Sound)
    {graph : DependencyGraph} {known : List Dependency} {index : GraphIndex} {shared : SharedIndex}
    (holds : heap.Holds graph known index shared) :
    (Acyclic (DependsOn (edges ++ known)) → ∃ next later edges' index' shared',
      addAll heap graph (edges.map Dependency.input) = (.ok next, later) ∧ later.Sound ∧
        later.Holds next edges' index' shared' ∧ ∀ edge, edge ∈ edges' ↔ edge ∈ edges ++ known) ∧
    (¬ Acyclic (DependsOn (edges ++ known)) → ∃ path later,
      addAll heap graph (edges.map Dependency.input) = (.error (.cycle path), later)) := by
  induction edges generalizing heap graph known index shared with
  | nil => exact ⟨fun _ => ⟨graph, heap, known, index, shared, rfl, sound, holds, fun _ => by simp⟩,
      fun cyclic => absurd holds.acyclic cyclic⟩
  | cons edge edges ih =>
    have answers := holds.answers sound edge.input
    have parsed := parseEdge_input edge
    by_cases member : edge ∈ known
    · have same : ∀ other, other ∈ edge :: edges ++ known ↔ other ∈ edges ++ known := by
        intro other
        simp only [List.cons_append, List.mem_cons, List.mem_append]
        constructor
        · rintro (rfl | h)
          · exact .inr member
          · exact h
        · exact .inr
      rw [dependsOn_congr same, List.map_cons, addAll, answers.same edge parsed member]
      simp only [same]
      exact ih sound holds
    · by_cases acyclic : Acyclic (DependsOn (edge :: known))
      · obtain ⟨later, answer, stored⟩ := answers.inserted edge parsed member acyclic
        obtain ⟨edges', index', shared', holds'⟩ :=
          stored.sound.holds heap.graphs.length (by rw [stored.created]; exact Nat.lt_succ_self _)
        have inserted : edges' = known.orderedInsert Before edge := by
          rw [← holds'.edgesOf, stored.edges]
        have same : ∀ other, other ∈ edge :: edges ++ known ↔ other ∈ edges ++ edges' := by
          intro other
          rw [inserted]
          simp only [List.cons_append, List.mem_cons, List.mem_append, List.mem_orderedInsert]
          exact or_left_comm
        rw [dependsOn_congr same, List.map_cons, addAll, answer]
        simp only [same]
        exact ih stored.sound holds'
      · obtain ⟨path, answer, -⟩ := answers.refused edge parsed member acyclic
        refine ⟨fun whole => absurd (whole.mono fun a b link => ?_) acyclic, fun _ => ⟨path, heap, ?_⟩⟩
        · obtain ⟨e, inside, ends⟩ := link
          refine ⟨e, ?_, ends⟩
          rcases List.mem_cons.mp inside with rfl | old
          · exact List.mem_append_left _ List.mem_cons_self
          · exact List.mem_append_right _ old
        · rw [List.map_cons, addAll, answer]

/-- **A graph is built from a list of edges exactly when they have no cycle**, in
a module with any history of calls. -/
theorem createDependencyGraph_spec {calls : List (DependencyGraph × DependencyInput)} {heap : Heap}
    (reached : run call initialHeap calls = some heap) (edges : List Dependency) :
    (Acyclic (DependsOn edges) → ∃ graph later edges' index shared,
      createDependencyGraph heap (edges.map Dependency.input) = (.ok graph, later) ∧ later.Sound ∧
        later.Holds graph edges' index shared ∧ ∀ edge, edge ∈ edges' ↔ edge ∈ edges) ∧
    (¬ Acyclic (DependsOn edges) → ∃ path later,
      createDependencyGraph heap (edges.map Dependency.input) = (.error (.cycle path), later)) := by
  obtain ⟨known, index, shared, holds⟩ := initialHeap_sound.holds emptyGraph (by decide)
  have blank : known = [] := holds.edgesOf.symm
  subst blank
  obtain ⟨shared', holds', -⟩ := run_extends initialHeap_sound reached emptyGraph [] index shared holds
  have spec := addAll_spec edges (run_sound initialHeap_sound reached) holds'
  rwa [List.append_nil] at spec

end Koklo.Domain
