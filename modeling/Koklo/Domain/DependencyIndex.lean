import Koklo.Domain.DependencyGraph

/-!
# What an index represents

The order of edges is total and its insertion is the sorted insertion
(`insertSorted_eq`). A graph of version `v` represents its edges when the
entries it sees, those of version at most `v`, are exactly its edges
(`Represents`); its search then decides whether an edge closes a cycle
(`findBack_isSome_iff`).

An addition brings an entry above the versions of the older graphs, and such an
entry is invisible to them (`SameView`). A copy of a branch represents its edges
whatever its version (`represents_copyIndex`).
-/

set_option autoImplicit false

namespace Koklo.Domain

open Koklo.Foundations

/-! ## The order of edges -/

theorem compareEdges_swap (a b : Dependency) : compareEdges b a = -compareEdges a b := by
  simp only [compareEdges]
  split_ifs <;> omega

theorem compareEdges_eq_zero_iff {a b : Dependency} : compareEdges a b = 0 ↔ a = b := by
  constructor
  · intro same
    obtain ⟨ticket, dependsOn, type⟩ := a
    obtain ⟨ticket', dependsOn', type'⟩ := b
    simp only [compareEdges] at same
    have first : ticket.number = ticket'.number := by split_ifs at same <;> omega
    have second : dependsOn.number = dependsOn'.number := by split_ifs at same <;> omega
    have third : type.index = type'.index := by split_ifs at same <;> omega
    cases TicketKey.ext_number first
    cases TicketKey.ext_number second
    cases type <;> cases type' <;> first | rfl | cases third
  · rintro rfl
    simp [compareEdges]

theorem compareEdges_trans {a b c : Dependency} (first : compareEdges a b ≤ 0)
    (second : compareEdges b c ≤ 0) : compareEdges a c ≤ 0 := by
  simp only [compareEdges] at first second ⊢
  split_ifs at first second ⊢ <;> omega

/-- An edge comes before another one, or is the same. -/
def Before (a b : Dependency) : Prop := compareEdges a b ≤ 0

instance : DecidableRel Before := fun _ _ => inferInstanceAs (Decidable (_ ≤ _))

instance : IsTrans Dependency Before := ⟨fun _ _ _ => compareEdges_trans⟩

instance : Std.Total Before := ⟨fun a b => by
  unfold Before
  rw [compareEdges_swap a b]
  omega⟩

instance : Std.Antisymm Before := ⟨fun a b first second => by
  unfold Before at first second
  rw [compareEdges_swap a b] at second
  exact compareEdges_eq_zero_iff.mp (by omega)⟩

/-- A sorted list of edges without duplicate. -/
def SortedEdges (edges : List Dependency) : Prop := edges.Pairwise Before ∧ edges.Nodup

/-- **The insertion of the source is the sorted insertion**, for a new edge. -/
theorem insertSorted_eq {edges : List Dependency} {edge : Dependency} (sorted : SortedEdges edges)
    (fresh : edge ∉ edges) : insertSorted edges edge = edges.orderedInsert Before edge := by
  refine insertBisect_eq_orderedInsert sorted.1 fun known member => ?_
  rw [decide_eq_true_iff]
  have distinct : compareEdges known edge ≠ 0 :=
    mt compareEdges_eq_zero_iff.mp fun same => fresh (same ▸ member)
  unfold Before
  rw [compareEdges_swap known edge]
  omega

theorem sortedEdges_orderedInsert {edges : List Dependency} {edge : Dependency}
    (sorted : SortedEdges edges) (fresh : edge ∉ edges) :
    SortedEdges (edges.orderedInsert Before edge) :=
  ⟨sorted.1.orderedInsert edge edges,
    (List.perm_orderedInsert Before edge edges).nodup_iff.mpr
      (List.nodup_cons.mpr ⟨fresh, sorted.2⟩)⟩

/-! ## Edges as a relation -/

/-- A ticket depends on another one. -/
def DependsOn (edges : List Dependency) (a b : TicketKey) : Prop :=
  ∃ edge ∈ edges, edge.ticket = a ∧ edge.dependsOn = b

/-- A closed path along the edges. -/
structure IsCycle (edges : List Dependency) (path : List TicketKey) : Prop where
  chain : List.IsChain (DependsOn edges) path
  closed : path.head? = path.getLast?
  long : 2 ≤ path.length

theorem dependsOn_cons {edges : List Dependency} {edge : Dependency} (a b : TicketKey) :
    DependsOn (edge :: edges) a b ↔
      InsertEdge (DependsOn edges) edge.ticket edge.dependsOn a b := by
  simp only [DependsOn, InsertEdge, List.mem_cons, or_and_right, exists_or, exists_eq_left,
    eq_comm (a := edge.ticket), eq_comm (a := edge.dependsOn)]
  exact Or.comm

/-- **A new edge closes a cycle exactly when its target depends on its source.** -/
theorem acyclic_cons_iff {edges : List Dependency} (acyclic : Acyclic (DependsOn edges))
    (edge : Dependency) : Acyclic (DependsOn (edge :: edges)) ↔
      ¬ Relation.ReflTransGen (DependsOn edges) edge.dependsOn edge.ticket := by
  rw [← acyclic_insert_iff acyclic edge.ticket edge.dependsOn]
  have same : DependsOn (edge :: edges) =
      InsertEdge (DependsOn edges) edge.ticket edge.dependsOn := by
    funext a b
    exact propext (dependsOn_cons a b)
  rw [same]

theorem dependsOn_perm {edges edges' : List Dependency} (perm : edges.Perm edges') :
    DependsOn edges = DependsOn edges' := by
  funext a b
  simp only [DependsOn, perm.mem_iff]

/-! ## The keys of edges -/

theorem label_injective {a b : DependencyType} (same : a.label = b.label) : a = b := by
  cases a <;> cases b <;> first | rfl | exact absurd same (by decide)

/-- A key of the index determines its edge. -/
theorem edgeKey_injective {a b : Dependency} (same : edgeKey a = edgeKey b) : a = b := by
  obtain ⟨ticket, dependsOn, type⟩ := a
  obtain ⟨ticket', dependsOn', type'⟩ := b
  have free (key : TicketKey) : (0 : CodeUnit) ∉ key.text := fun member =>
    key.ne_zero_of_mem member rfl
  unfold edgeKey at same
  obtain ⟨first, same⟩ := Text.append_separator_inj (free _) (free _) same
  obtain ⟨second, third⟩ := Text.append_separator_inj (free _) (free _) same
  cases TicketKey.ext first
  cases TicketKey.ext second
  cases label_injective third
  rfl

/-! ## Representation -/

/-- The entries a version sees are the edges. -/
structure Represents (shared : SharedIndex) (version : ℕ) (edges : List Dependency) : Prop where
  keys : ∀ edge, isKnown shared version edge = true ↔ edge ∈ edges
  out : ∀ a b, b ∈ visible shared version a ↔ DependsOn edges a b

/-- No entry is above the head. -/
structure SharedIndex.Capped (shared : SharedIndex) : Prop where
  keys : ∀ key version, shared.keys.get key = some version → version ≤ shared.head
  out : ∀ node targets, shared.out.get node = some targets →
    ∀ entry ∈ targets, entry.2 ≤ shared.head

theorem mem_visible {shared : SharedIndex} {version : ℕ} {node target : TicketKey} :
    target ∈ visible shared version node ↔
      ∃ w ≤ version, (target, w) ∈ (shared.out.get node).getD [] := by
  simp only [visible, List.mem_map, List.mem_filter, decide_eq_true_eq, Prod.exists,
    exists_and_right, exists_eq_right]
  exact exists_congr fun w => And.comm

theorem isKnown_iff {shared : SharedIndex} {version : ℕ} {edge : Dependency} :
    isKnown shared version edge = true ↔
      ∃ w ≤ version, shared.keys.get (edgeKey edge) = some w := by
  simp only [isKnown, Option.any_eq_true, decide_eq_true_eq]
  exact exists_congr fun w => And.comm

/-- What an index knows after a record. -/
theorem isKnown_record (shared : SharedIndex) (edge other : Dependency) (w version : ℕ) :
    isKnown (record shared edge w) version other =
      if edge = other then decide (w ≤ version) else isKnown shared version other := by
  unfold isKnown record
  rw [OrderedMap.get_set]
  by_cases same : edge = other
  · simp [same]
  · rw [if_neg (mt edgeKey_injective same), if_neg same]

theorem get_out_record (shared : SharedIndex) (edge : Dependency) (w : ℕ) (node : TicketKey) :
    ((record shared edge w).out.get node).getD [] = (shared.out.get node).getD [] ++
      if edge.ticket = node then [(edge.dependsOn, w)] else [] := by
  unfold record
  rw [OrderedMap.get_set]
  by_cases same : edge.ticket = node
  · simp [same]
  · simp [same]

/-- What a node of an index sees after a record. -/
theorem visible_record (shared : SharedIndex) (edge : Dependency) (w version : ℕ)
    (node : TicketKey) : visible (record shared edge w) version node =
      visible shared version node ++
        if edge.ticket = node ∧ w ≤ version then [edge.dependsOn] else [] := by
  unfold visible
  rw [get_out_record, List.filter_append, List.map_append]
  congr 1
  by_cases same : edge.ticket = node <;> by_cases seen : w ≤ version <;> simp [same, seen]

/-- A record that a version sees adds its edge. -/
theorem Represents.record {shared : SharedIndex} {version w : ℕ} {edges : List Dependency}
    (represents : Represents shared version edges) (edge : Dependency) (seen : w ≤ version) :
    Represents (record shared edge w) version (edge :: edges) where
  keys other := by
    rw [isKnown_record, List.mem_cons]
    by_cases same : edge = other
    · simp [same, seen]
    · simp [same, Ne.symm same, represents.keys]
  out a b := by
    rw [visible_record, List.mem_append, represents.out, dependsOn_cons, InsertEdge]
    by_cases same : edge.ticket = a
    · simp [same, seen]
    · simp [same, Ne.symm same]

theorem Represents.of_mem_iff {shared : SharedIndex} {version : ℕ} {edges edges' : List Dependency}
    (represents : Represents shared version edges) (same : ∀ edge, edge ∈ edges ↔ edge ∈ edges') :
    Represents shared version edges' where
  keys edge := (represents.keys edge).trans (same edge)
  out a b := (represents.out a b).trans (by simp only [DependsOn, same])

/-- Below the head, all versions see the same entries. -/
theorem Represents.raise {shared : SharedIndex} (capped : shared.Capped) {edges : List Dependency}
    (represents : Represents shared shared.head edges) {version : ℕ}
    (above : shared.head ≤ version) : Represents shared version edges where
  keys edge := by
    rw [← represents.keys, isKnown_iff, isKnown_iff]
    refine exists_congr fun w => and_congr_left fun read => ?_
    have := capped.keys _ _ read
    omega
  out a b := by
    rw [← represents.out, mem_visible, mem_visible]
    refine exists_congr fun w => and_congr_left fun member => ?_
    cases read : shared.out.get a with
    | none => simp [read] at member
    | some targets =>
      rw [read] at member
      have := capped.out a targets read _ member
      simp only at this
      omega

theorem capped_record {shared : SharedIndex} (capped : shared.Capped) (edge : Dependency) {w : ℕ}
    (below : w ≤ shared.head) : (record shared edge w).Capped where
  keys key version read := by
    simp only [record] at read ⊢
    rw [OrderedMap.get_set] at read
    split at read
    · cases read
      exact below
    · exact capped.keys key version read
  out node targets read entry member := by
    have whole := get_out_record shared edge w node
    rw [read, Option.getD_some] at whole
    rw [whole, List.mem_append] at member
    rcases member with old | new
    · cases was : shared.out.get node with
      | none => simp [was] at old
      | some before =>
        rw [was] at old
        exact capped.out node before was entry old
    · split at new
      · rw [List.mem_singleton.mp new]
        exact below
      · cases new

theorem capped_empty (head : ℕ) : (SharedIndex.empty head).Capped where
  keys _ _ read := by cases read
  out _ _ read := by cases read

theorem head_record (shared : SharedIndex) (edge : Dependency) (w : ℕ) :
    (record shared edge w).head = shared.head := rfl

theorem copy_spec (version : ℕ) (edges : List Dependency) (shared : SharedIndex)
    (known : List Dependency) (capped : shared.Capped) (represents : Represents shared version known) :
    (edges.foldl (fun shared edge => record shared edge 0) shared).Capped ∧
      (edges.foldl (fun shared edge => record shared edge 0) shared).head = shared.head ∧
      Represents (edges.foldl (fun shared edge => record shared edge 0) shared) version
        (edges ++ known) := by
  induction edges generalizing shared known with
  | nil => exact ⟨capped, rfl, represents⟩
  | cons edge edges ih =>
    obtain ⟨cap, same, rep⟩ := ih (record shared edge 0) (edge :: known)
      (capped_record capped edge (Nat.zero_le _)) (represents.record edge (Nat.zero_le _))
    refine ⟨cap, same.trans (head_record shared edge 0), rep.of_mem_iff fun other => ?_⟩
    simp only [List.cons_append, List.mem_append, List.mem_cons]
    exact or_left_comm

/-- **A copy of a branch represents its edges, whatever its version.** -/
theorem represents_copyIndex (head version : ℕ) (edges : List Dependency) :
    (copyIndex head edges).Capped ∧ (copyIndex head edges).head = head ∧
      Represents (copyIndex head edges) version edges := by
  have blank : Represents (.empty head) version [] :=
    ⟨fun _ => by simp [isKnown, SharedIndex.empty], fun _ _ => by
      simp [visible, SharedIndex.empty, DependsOn]⟩
  have spec := copy_spec version edges (.empty head) [] (capped_empty head) blank
  rwa [List.append_nil] at spec

/-! ## The search of an index -/

theorem visible_subset (shared : SharedIndex) (version : ℕ) (node : TicketKey) :
    visible shared version node ⊆ visibleTargets shared version := by
  intro target member
  obtain ⟨w, seen, inside⟩ := mem_visible.mp member
  simp only [visibleTargets, List.mem_map, List.mem_filter, List.mem_flatMap, decide_eq_true_eq]
  cases read : shared.out.get node with
  | none => simp [read] at inside
  | some targets =>
    rw [read] at inside
    exact ⟨(target, w), ⟨⟨(node, targets), OrderedMap.mem_of_get read, inside⟩, seen⟩, rfl⟩

/-- The search of an index is one of the relation of its edges. -/
theorem Represents.successors {shared : SharedIndex} {version : ℕ} {edges : List Dependency}
    (represents : Represents shared version edges) :
    (fun a b => b ∈ visible shared version a) = DependsOn edges := by
  funext a b
  exact propext (represents.out a b)

/-- **The search finds a way back exactly when one exists.** -/
theorem Represents.findBack_isSome_iff {shared : SharedIndex} {version : ℕ}
    {edges : List Dependency} (represents : Represents shared version edges)
    (source target : TicketKey) : (findBack shared version source target).isSome ↔
      Relation.ReflTransGen (DependsOn edges) source target := by
  rw [← represents.successors, findBack]
  refine findPath_isSome_iff
    (fun a => List.Subset.trans (visible_subset shared version a) (List.subset_cons_self _ _))
    List.mem_cons_self (by simp)

/-- **A way back and the edge it answers to are a cycle.** -/
theorem Represents.findBack_cycle {shared : SharedIndex} {version : ℕ} {edges : List Dependency}
    (represents : Represents shared version edges) {edge : Dependency} {back : List TicketKey}
    (found : findBack shared version edge.dependsOn edge.ticket = some back) :
    IsCycle (edge :: edges) (edge.ticket :: back) := by
  obtain ⟨chain, first, last⟩ := findPath_path found
  rw [represents.successors] at chain
  cases back with
  | nil => cases first
  | cons node back =>
    cases first
    constructor
    case chain =>
      refine .cons_cons ⟨edge, List.mem_cons_self, rfl, rfl⟩ (chain.imp fun a b link => ?_)
      exact (dependsOn_cons a b).mpr (.inl link)
    case closed =>
      rw [List.head?_cons, ← last]
      rfl
    case long => simp

/-! ## What a version sees -/

/-- Two indexes look the same to a version. -/
structure SameView (first second : SharedIndex) (version : ℕ) : Prop where
  known : isKnown first version = isKnown second version
  visible : visible first version = visible second version
  targets : visibleTargets first version = visibleTargets second version

theorem SameView.findBack {first second : SharedIndex} {version : ℕ}
    (same : SameView first second version) :
    findBack first version = findBack second version := by
  funext source target
  rw [Domain.findBack, Domain.findBack, same.visible, same.targets]

/-- Pushing an entry that a version does not see changes nothing of what it sees. -/
theorem flatMap_push_unseen {out : OrderedMap TicketKey (List (TicketKey × ℕ))} {version w : ℕ}
    (unseen : version < w) (node target : TicketKey) :
    ((out.set node ((out.get node).getD [] ++ [(target, w)])).flatMap Prod.snd).filter
        (fun entry => decide (entry.2 ≤ version)) =
      (out.flatMap Prod.snd).filter fun entry => decide (entry.2 ≤ version) := by
  have hidden : ¬ w ≤ version := Nat.not_le.mpr unseen
  induction out with
  | nil => simp [OrderedMap.set, OrderedMap.get, hidden]
  | cons entry rest ih =>
    obtain ⟨known, targets⟩ := entry
    by_cases same : known = node
    · simp [OrderedMap.set, OrderedMap.get, same, hidden]
    · simp [OrderedMap.set, OrderedMap.get, same, ih]

/-- **A record above a version is invisible to it**, when the version does not
know the edge. -/
theorem sameView_record {shared : SharedIndex} {version w : ℕ} {edge : Dependency}
    (unseen : version < w) (unknown : isKnown shared version edge = false) :
    SameView (record shared edge w) shared version where
  known := by
    funext other
    rw [isKnown_record]
    by_cases same : edge = other
    · simp [← same, unknown, Nat.not_le.mpr unseen]
    · rw [if_neg same]
  visible := by
    funext node
    rw [visible_record]
    simp [Nat.not_le.mpr unseen]
  targets := congrArg (List.map Prod.fst) (flatMap_push_unseen unseen _ _)

end Koklo.Domain
