import Mathlib.Data.List.Chain
import Mathlib.Data.List.Perm.Subperm
import Mathlib.Logic.Relation

/-!
# Directed graphs and depth-first search

A graph is given by the successors of each node. The search keeps a stack of
nodes to visit, the nodes seen so far and the node each of them was first seen
from; it stops at the target, and then climbs the parents back to the source.

The search answers a path exactly when the target is reachable
(`findPath_isSome_iff`), provided its fuel exceeds the number of nodes, and the
path it answers is one of the graph (`findPath_path`).

A relation is acyclic when no node reaches itself in one step or more. Adding an
edge to an acyclic relation closes a cycle exactly when its target already
reaches its source (`acyclic_insert_iff`).
-/

set_option autoImplicit false

namespace Koklo.Foundations

universe u

variable {α : Type u}

/-! ## Acyclic relations -/

/-- No node reaches itself in one step or more. -/
def Acyclic (r : α → α → Prop) : Prop := ∀ a, ¬ Relation.TransGen r a a

/-- A relation with one more edge. -/
def InsertEdge (r : α → α → Prop) (source target a b : α) : Prop :=
  r a b ∨ (a = source ∧ b = target)

theorem Acyclic.mono {r s : α → α → Prop} (acyclic : Acyclic s) (sub : ∀ a b, r a b → s a b) :
    Acyclic r := fun a cycle => acyclic a (Relation.TransGen.mono sub a a cycle)

/-- A path of the larger relation avoids the new edge or goes through it. -/
theorem transGen_insertEdge {r : α → α → Prop} {source target a b : α}
    (path : Relation.TransGen (InsertEdge r source target) a b) :
    Relation.TransGen r a b ∨
      (Relation.ReflTransGen r a source ∧ Relation.ReflTransGen r target b) := by
  induction path with
  | single edge =>
    rcases edge with edge | ⟨rfl, rfl⟩
    · exact .inl (.single edge)
    · exact .inr ⟨.refl, .refl⟩
  | tail _ edge ih =>
    rcases edge with edge | ⟨rfl, rfl⟩
    · rcases ih with before | ⟨before, after⟩
      · exact .inl (before.tail edge)
      · exact .inr ⟨before, after.tail edge⟩
    · rcases ih with before | ⟨before, after⟩
      · exact .inr ⟨before.to_reflTransGen, .refl⟩
      · exact .inr ⟨before, .refl⟩

/-- **An edge closes a cycle exactly when its target reaches its source.** -/
theorem acyclic_insert_iff {r : α → α → Prop} (acyclic : Acyclic r) (source target : α) :
    Acyclic (InsertEdge r source target) ↔ ¬ Relation.ReflTransGen r target source := by
  constructor
  · intro larger back
    have return_ : Relation.ReflTransGen (InsertEdge r source target) target source :=
      Relation.ReflTransGen.mono (fun _ _ edge => Or.inl edge) _ _ back
    exact larger source (.head' (.inr ⟨rfl, rfl⟩) return_)
  · intro unreachable a cycle
    rcases transGen_insertEdge cycle with inside | ⟨before, after⟩
    · exact acyclic a inside
    · exact unreachable (after.trans before)

/-! ## Depth-first search -/

/-- The state of a search: the top of the stack and the latest node come first. -/
structure Search (α : Type u) where
  stack : List α
  seen : List α
  parent : List (α × α)

variable [DecidableEq α]

/-- Pushes a successor of `node` that was not seen yet. -/
def visit (node : α) (search : Search α) (next : α) : Search α :=
  if next ∈ search.seen then search
  else ⟨next :: search.stack, next :: search.seen, (next, node) :: search.parent⟩

/-- Climbs the parents from a node to the source, the path so far being given. -/
def climb (source : α) (parent : List (α × α)) : ℕ → α → List α → Option (List α)
  | 0, _, _ => none
  | fuel + 1, node, path =>
    if node = source then some path
    else
      match parent.lookup node with
      | none => none
      | some above => climb source parent fuel above (above :: path)

def searchPath (nexts : α → List α) (source target : α) : ℕ → Search α → Option (List α)
  | 0, _ => none
  | fuel + 1, search =>
    match search.stack with
    | [] => none
    | node :: rest =>
      if node = target then climb source search.parent (search.parent.length + 1) node [node]
      else
        searchPath nexts source target fuel
          ((nexts node).foldl (visit node) { search with stack := rest })

/-- A path from the source to the target, by depth-first search. -/
def findPath (nexts : α → List α) (source target : α) (fuel : ℕ) : Option (List α) :=
  searchPath nexts source target fuel ⟨[source], [source], []⟩

/-! ### The tree of parents -/

/-- The parents form a tree under the source, each edge of which is one of the graph. -/
inductive SearchTree (nexts : α → List α) (source : α) : List (α × α) → Prop where
  | root : SearchTree nexts source []
  | branch {parent : List (α × α)} {node next : α} (tree : SearchTree nexts source parent)
      (known : node ∈ parent.map Prod.fst ++ [source])
      (fresh : next ∉ parent.map Prod.fst ++ [source]) (edge : next ∈ nexts node) :
      SearchTree nexts source ((next, node) :: parent)

variable {nexts : α → List α} {source target : α}

/-- The parent of a node of the tree is in the tree. -/
theorem SearchTree.lookup {parent : List (α × α)} (tree : SearchTree nexts source parent)
    {node : α} (known : node ∈ parent.map Prod.fst ++ [source]) (below : node ≠ source) :
    ∃ above, parent.lookup node = some above ∧ above ∈ parent.map Prod.fst ++ [source] := by
  induction tree with
  | root =>
    simp only [List.map_nil, List.nil_append, List.mem_singleton] at known
    exact absurd known below
  | @branch parent last next tree known' fresh edge ih =>
    by_cases same : node = next
    · refine ⟨last, by rw [List.lookup_cons, beq_iff_eq.mpr same], ?_⟩
      simp only [List.map_cons, List.cons_append]
      exact List.mem_cons_of_mem _ known'
    · simp only [List.map_cons, List.cons_append, List.mem_cons, same, false_or] at known
      obtain ⟨above, found, member⟩ := ih known
      refine ⟨above, ?_, ?_⟩
      · rw [List.lookup_cons, beq_false_of_ne same]
        exact found
      · simp only [List.map_cons, List.cons_append]
        exact List.mem_cons_of_mem _ member

/-- Climbing from a node of the tree does not see a newer branch. -/
theorem SearchTree.climb_branch {parent : List (α × α)} (tree : SearchTree nexts source parent)
    {next last : α} (fresh : next ∉ parent.map Prod.fst ++ [source]) (fuel : ℕ) {node : α}
    (known : node ∈ parent.map Prod.fst ++ [source]) (path : List α) :
    climb source ((next, last) :: parent) fuel node path = climb source parent fuel node path := by
  induction fuel generalizing node path with
  | zero => rfl
  | succ fuel ih =>
    unfold climb
    by_cases root : node = source
    · simp [root]
    · obtain ⟨above, found, member⟩ := tree.lookup known root
      have other : node ≠ next := fun same => fresh (same ▸ known)
      rw [List.lookup_cons, beq_false_of_ne other]
      simp only [root, if_false, found]
      exact ih member _

/-- **Climbing from a node of the tree answers a path of the graph from the source.** -/
theorem SearchTree.climb_path {parent : List (α × α)} (tree : SearchTree nexts source parent)
    {fuel : ℕ} (enough : parent.length < fuel) {node : α}
    (known : node ∈ parent.map Prod.fst ++ [source]) {path : List α}
    (chain : List.IsChain (fun a b => b ∈ nexts a) (node :: path)) :
    ∃ front, climb source parent fuel node (node :: path) = some (front ++ node :: path) ∧
      List.IsChain (fun a b => b ∈ nexts a) (front ++ node :: path) ∧
      (front ++ node :: path).head? = some source := by
  induction tree generalizing fuel node path with
  | root =>
    simp only [List.map_nil, List.nil_append, List.mem_singleton] at known
    obtain ⟨fuel, rfl⟩ := Nat.exists_eq_succ_of_ne_zero (Nat.ne_of_gt enough)
    exact ⟨[], by simp [climb, known], chain, by simp [known]⟩
  | @branch parent last next tree known' fresh edge ih =>
    by_cases same : node = next
    · subst same
      have below : node ≠ source := fun root => fresh (by simp [root])
      obtain ⟨fuel, rfl⟩ := Nat.exists_eq_succ_of_ne_zero (Nat.ne_of_gt (Nat.zero_lt_of_lt enough))
      obtain ⟨front, climbed, whole, starts⟩ :=
        ih (Nat.lt_of_succ_lt_succ enough) known' (.cons_cons edge chain)
      refine ⟨front ++ [last], ?_, by simpa using whole, by simpa using starts⟩
      rw [climb, if_neg below, List.lookup_cons, beq_self_eq_true]
      simp only [tree.climb_branch fresh fuel known', climbed, List.append_assoc,
        List.singleton_append]
    · simp only [List.map_cons, List.cons_append, List.mem_cons, same, false_or] at known
      obtain ⟨front, climbed, whole, starts⟩ := ih (Nat.lt_of_succ_lt enough) known chain
      exact ⟨front, by rw [tree.climb_branch fresh fuel known, climbed], whole, starts⟩

/-! ### What the search has explored -/

/-- The tree holds every node seen, and the nodes on the stack were seen. -/
structure Rooted (nexts : α → List α) (source : α) (search : Search α) : Prop where
  tree : SearchTree nexts source search.parent
  seen : search.seen = search.parent.map Prod.fst ++ [source]
  waiting : search.stack ⊆ search.seen

/-- What a few visits from a node do: nothing seen is lost, only new nodes are
pushed, and each new node is pushed once. -/
structure Grown (before after : Search α) : Prop where
  kept : before.seen ⊆ after.seen
  pushed : ∀ x ∈ after.seen, x ∉ after.stack → x ∈ before.seen ∧ x ∉ before.stack
  count : after.seen.length + before.stack.length = before.seen.length + after.stack.length

theorem visit_rooted {search : Search α} (rooted : Rooted nexts source search) {node next : α}
    (known : node ∈ search.seen) (edge : next ∈ nexts node) :
    Rooted nexts source (visit node search next) := by
  unfold visit
  by_cases old : next ∈ search.seen
  · rw [if_pos old]
    exact rooted
  · rw [if_neg old]
    constructor
    case tree => exact .branch rooted.tree (rooted.seen ▸ known) (rooted.seen ▸ old) edge
    case seen => simp [rooted.seen]
    case waiting =>
      intro x member
      rcases List.mem_cons.mp member with rfl | member
      · exact List.mem_cons_self
      · exact List.mem_cons_of_mem _ (rooted.waiting member)

theorem visit_grown (search : Search α) (node next : α) :
    Grown search (visit node search next) ∧ next ∈ (visit node search next).seen := by
  unfold visit
  by_cases old : next ∈ search.seen
  · rw [if_pos old]
    exact ⟨⟨fun _ member => member, fun _ member away => ⟨member, away⟩, rfl⟩, old⟩
  · rw [if_neg old]
    refine ⟨⟨fun _ => List.mem_cons_of_mem _, ?_, ?_⟩, List.mem_cons_self⟩
    · intro x member away
      simp only [List.mem_cons, not_or] at member away
      exact ⟨member.resolve_left away.1, away.2⟩
    · simp only [List.length_cons]
      omega

omit [DecidableEq α] in
theorem Grown.trans {first second third : Search α} (one : Grown first second)
    (two : Grown second third) : Grown first third where
  kept := List.Subset.trans one.kept two.kept
  pushed x member away := (two.pushed x member away).elim (one.pushed x)
  count := by
    have := one.count
    have := two.count
    omega

/-- Expanding a node sees all its successors. -/
theorem expand_spec {search : Search α} (rooted : Rooted nexts source search) {node : α}
    (known : node ∈ search.seen) {successors : List α} (sub : successors ⊆ nexts node) :
    Rooted nexts source (successors.foldl (visit node) search) ∧
      Grown search (successors.foldl (visit node) search) ∧
      successors ⊆ (successors.foldl (visit node) search).seen := by
  induction successors generalizing search with
  | nil => exact ⟨rooted, ⟨fun _ m => m, fun _ m a => ⟨m, a⟩, rfl⟩, List.nil_subset _⟩
  | cons next successors ih =>
    obtain ⟨grown, now⟩ := visit_grown search node next
    have edge : next ∈ nexts node := sub List.mem_cons_self
    obtain ⟨rooted', grown', all⟩ := ih (visit_rooted rooted known edge) (grown.kept known)
      fun _ member => sub (List.mem_cons_of_mem _ member)
    refine ⟨rooted', grown.trans grown', ?_⟩
    intro x member
    rcases List.mem_cons.mp member with rfl | member
    · exact grown'.kept now
    · exact all member

/-- The invariant of the search: a node seen that left the stack is not the
target and all its successors were seen. -/
structure Explored (nexts : α → List α) (source target : α) (search : Search α) : Prop where
  rooted : Rooted nexts source search
  closed : ∀ node ∈ search.seen, node ∉ search.stack →
    node ≠ target ∧ nexts node ⊆ search.seen

/-- Popping a node that is not the target and expanding it keeps the invariant. -/
theorem Explored.expand {search : Search α} (explored : Explored nexts source target search)
    {node : α} {rest : List α} (top : search.stack = node :: rest) (other : node ≠ target) :
    Explored nexts source target
      ((nexts node).foldl (visit node) { search with stack := rest }) := by
  have known : node ∈ search.seen :=
    explored.rooted.waiting (top ▸ List.mem_cons_self)
  have popped : Rooted nexts source { search with stack := rest } :=
    ⟨explored.rooted.tree, explored.rooted.seen,
      fun x member => explored.rooted.waiting (top ▸ List.mem_cons_of_mem _ member)⟩
  obtain ⟨rooted, grown, all⟩ := expand_spec popped known (List.Subset.refl (nexts node))
  refine ⟨rooted, fun x member away => ?_⟩
  obtain ⟨seen, notWaiting⟩ := grown.pushed x member away
  by_cases same : x = node
  · subst same
    exact ⟨other, all⟩
  · have left : x ∉ search.stack := by
      rw [top, List.mem_cons, not_or]
      exact ⟨same, notWaiting⟩
    obtain ⟨distinct, inside⟩ := explored.closed x seen left
    exact ⟨distinct, List.Subset.trans inside grown.kept⟩

/-- A path from the source to the target in the graph. -/
structure IsPath (nexts : α → List α) (source target : α) (path : List α) : Prop where
  chain : List.IsChain (fun a b => b ∈ nexts a) path
  first : path.head? = some source
  last : path.getLast? = some target

/-- **A path the search answers is one of the graph.** -/
theorem searchPath_path {fuel : ℕ} {search : Search α}
    (explored : Explored nexts source target search) {path : List α}
    (found : searchPath nexts source target fuel search = some path) :
    IsPath nexts source target path := by
  induction fuel generalizing search with
  | zero => cases found
  | succ fuel ih =>
    unfold searchPath at found
    split at found
    · cases found
    · rename_i node rest top
      by_cases goal : node = target
      · rw [if_pos goal] at found
        have known : node ∈ search.parent.map Prod.fst ++ [source] := by
          rw [← explored.rooted.seen]
          exact explored.rooted.waiting (top ▸ List.mem_cons_self)
        obtain ⟨front, climbed, chain, first⟩ :=
          explored.rooted.tree.climb_path (Nat.lt_succ_self _) known (.singleton node)
        rw [climbed] at found
        cases found
        exact ⟨chain, first, by simp [goal]⟩
      · rw [if_neg goal] at found
        exact ih (explored.expand top goal) found

omit [DecidableEq α] in
/-- The tree has no node twice. -/
theorem SearchTree.nodup {parent : List (α × α)} (tree : SearchTree nexts source parent) :
    (parent.map Prod.fst ++ [source]).Nodup := by
  induction tree with
  | root => simp
  | branch tree known fresh edge ih => exact List.nodup_cons.mpr ⟨fresh, ih⟩

omit [DecidableEq α] in
/-- The tree has only nodes of the graph. -/
theorem SearchTree.subset {nodes : List α} (sub : ∀ a, nexts a ⊆ nodes) (inside : source ∈ nodes)
    {parent : List (α × α)} (tree : SearchTree nexts source parent) :
    parent.map Prod.fst ++ [source] ⊆ nodes := by
  induction tree with
  | root => simpa using inside
  | branch tree known fresh edge ih => exact List.cons_subset.mpr ⟨sub _ edge, ih⟩

omit [DecidableEq α] in
theorem Rooted.length_le {nodes : List α} (sub : ∀ a, nexts a ⊆ nodes) (inside : source ∈ nodes)
    {search : Search α} (rooted : Rooted nexts source search) :
    search.seen.length ≤ nodes.length := by
  rw [rooted.seen]
  exact (List.Nodup.subperm rooted.tree.nodup (rooted.tree.subset sub inside)).length_le

omit [DecidableEq α] in
/-- A node reached from a node seen was seen, once the stack is empty. -/
theorem Explored.reached {search : Search α} (explored : Explored nexts source target search)
    (done : search.stack = []) {a b : α} (seen : a ∈ search.seen)
    (path : Relation.ReflTransGen (fun a b => b ∈ nexts a) a b) : b ∈ search.seen := by
  induction path with
  | refl => exact seen
  | tail _ edge ih => exact (explored.closed _ ih (by simp [done])).2 edge

/-- **A search with enough fuel that answers nothing has no path to find.** -/
theorem not_reaches_of_searchPath {nodes : List α} (sub : ∀ a, nexts a ⊆ nodes)
    (inside : source ∈ nodes) {fuel : ℕ} {search : Search α}
    (explored : Explored nexts source target search)
    (enough : nodes.length + search.stack.length < fuel + search.seen.length)
    (missed : searchPath nexts source target fuel search = none) :
    ¬ Relation.ReflTransGen (fun a b => b ∈ nexts a) source target := by
  induction fuel generalizing search with
  | zero =>
    have := explored.rooted.length_le sub inside
    omega
  | succ fuel ih =>
    unfold searchPath at missed
    split at missed
    · rename_i done
      intro path
      have root : source ∈ search.seen := by simp [explored.rooted.seen]
      have seen := explored.reached done root path
      exact (explored.closed target seen (by simp [done])).1 rfl
    · rename_i node rest top
      have known : node ∈ search.seen := explored.rooted.waiting (top ▸ List.mem_cons_self)
      by_cases goal : node = target
      · rw [if_pos goal] at missed
        rw [explored.rooted.seen] at known
        obtain ⟨front, climbed, -⟩ :=
          explored.rooted.tree.climb_path (Nat.lt_succ_self _) known (.singleton node)
        rw [climbed] at missed
        cases missed
      · rw [if_neg goal] at missed
        have popped : Rooted nexts source { search with stack := rest } :=
          ⟨explored.rooted.tree, explored.rooted.seen,
            fun x member => explored.rooted.waiting (top ▸ List.mem_cons_of_mem _ member)⟩
        have count := (expand_spec popped known (List.Subset.refl (nexts node))).2.1.count
        refine ih (explored.expand top goal) ?_ missed
        rw [top, List.length_cons] at enough
        simp only at count
        omega

/-! ### The answer of the search -/

omit [DecidableEq α] in
theorem explored_start : Explored nexts source target ⟨[source], [source], []⟩ where
  rooted := ⟨.root, rfl, List.Subset.refl _⟩
  closed := fun _ seen away => absurd seen away

theorem findPath_path {fuel : ℕ} {path : List α}
    (found : findPath nexts source target fuel = some path) :
    IsPath nexts source target path :=
  searchPath_path explored_start found

omit [DecidableEq α] in
/-- A path of the graph reaches its last node from its first. -/
theorem IsPath.reaches {path : List α} (isPath : IsPath nexts source target path) :
    Relation.ReflTransGen (fun a b => b ∈ nexts a) source target := by
  obtain ⟨chain, first, last⟩ := isPath
  induction path generalizing source with
  | nil => cases first
  | cons a path ih =>
    cases first
    cases path with
    | nil =>
      cases last
      exact .refl
    | cons b path =>
      rw [List.isChain_cons_cons] at chain
      exact .head chain.1 (ih chain.2 rfl (by simpa using last))

/-- **The search answers a path exactly when the target is reachable.** -/
theorem findPath_isSome_iff {nodes : List α} (sub : ∀ a, nexts a ⊆ nodes)
    (inside : source ∈ nodes) {fuel : ℕ} (enough : nodes.length < fuel) :
    (findPath nexts source target fuel).isSome ↔
      Relation.ReflTransGen (fun a b => b ∈ nexts a) source target := by
  constructor
  · intro some
    obtain ⟨path, found⟩ := Option.isSome_iff_exists.mp some
    exact (findPath_path found).reaches
  · intro reaches
    by_contra missed
    rw [Option.not_isSome_iff_eq_none] at missed
    exact not_reaches_of_searchPath sub inside explored_start (by simpa using enough) missed reaches

end Koklo.Foundations
