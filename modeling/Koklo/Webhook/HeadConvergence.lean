import Koklo.Foundations.Runs
import Koklo.Webhook.BranchIndex

/-!
# The stored head of a branch

When the executions of a branch write in the order in which they read its head, the stored head
is the newest head that was read (`Invariant.newest`), and so it is the last one pushed once an
execution that read it is processed (`branch_index_converges`). Nothing enforces that order: the
reconcile pass that read an older head may write after a delivery that read the newer one
(`branch_index_overwritten`).
-/

set_option autoImplicit false

namespace Koklo.Webhook

open Koklo.Foundations

section Store

variable {Spec : Type}

/-! ## The store -/

/-- The identifiers of the snapshots. -/
def IndexStore.ids (store : IndexStore Spec) : List ℕ := store.snapshots.map (·.2.id)

/-- The commit that the stored head points to. -/
def IndexStore.headCommit (store : IndexStore Spec) : Option Sha :=
  store.head.bind fun id => (store.snapshots.find? (·.2.id = id)).map Prod.fst

/-- The stored head points to the snapshot of a commit, or there is none. -/
def IndexStore.PointsTo (store : IndexStore Spec) : Option Sha → Prop
  | none => store.head = none
  | some sha => ∃ snapshot, store.snapshots.get sha = some snapshot ∧ store.head = some snapshot.id

/-- No snapshot is lost, and none changes its identifier. -/
def Keeps (store next : IndexStore Spec) : Prop :=
  ∀ sha snapshot, store.snapshots.get sha = some snapshot →
    ∃ snapshot', next.snapshots.get sha = some snapshot' ∧ snapshot'.id = snapshot.id

theorem headCommit_of_pointsTo {store : IndexStore Spec} (distinct : store.ids.Nodup)
    {head : Option Sha} (points : store.PointsTo head) : store.headCommit = head := by
  cases head with
  | none =>
    have absent : store.head = none := points
    rw [IndexStore.headCommit, absent, Option.bind_none]
  | some sha =>
    obtain ⟨snapshot, read, pointed⟩ := points
    have member := OrderedMap.mem_of_get read
    have found : store.snapshots.find? (·.2.id = snapshot.id) = some (sha, snapshot) := by
      rw [List.find?_eq_some_iff_append]
      obtain ⟨before, later, split⟩ := List.append_of_mem member
      refine ⟨decide_eq_true rfl, before, later, split, ?_⟩
      intro entry earlier
      rw [IndexStore.ids, split, List.map_append, List.map_cons] at distinct
      have apart := List.disjoint_of_nodup_append distinct (List.mem_map_of_mem earlier)
      rw [Bool.not_eq_true', decide_eq_false_iff_not]
      intro same
      exact apart (same ▸ List.mem_cons_self)
    rw [IndexStore.headCommit, pointed, Option.bind_some, found, Option.map_some]

@[simp] theorem under_id (write : SnapshotWrite Spec) (id : ℕ) : (write.under id).id = id := by
  cases write <;> rfl

/-- A snapshot that is written again keeps the identifiers. -/
theorem map_id_set {snapshots : OrderedMap Sha (Snapshot Spec)} {sha : Sha}
    {existing snapshot : Snapshot Spec} (read : snapshots.get sha = some existing)
    (same : snapshot.id = existing.id) :
    (snapshots.set sha snapshot).map (·.2.id) = snapshots.map (·.2.id) := by
  induction snapshots with
  | nil => cases read
  | cons entry rest ih =>
    obtain ⟨known, old⟩ := entry
    rw [OrderedMap.get] at read
    rw [OrderedMap.set]
    split at read
    · rename_i mine
      cases read
      rw [if_pos mine, List.map_cons, List.map_cons, same]
    · rename_i other
      rw [if_neg other, List.map_cons, List.map_cons, ih read]

/-- **What `reset` does**: the commit has a snapshot under the identifier that is answered, no
snapshot is lost, and the identifiers stay distinct. -/
theorem reset_spec {store next : IndexStore Spec} {sha : Sha} {newId id : ℕ}
    {write : SnapshotWrite Spec} (distinct : store.ids.Nodup)
    (done : store.reset sha newId write = some (next, id)) :
    next.ids.Nodup ∧ Keeps store next ∧ next.head = store.head ∧
      ∃ snapshot, next.snapshots.get sha = some snapshot ∧ snapshot.id = id := by
  rw [IndexStore.reset] at done
  cases read : store.snapshots.get sha with
  | some existing =>
    rw [read] at done
    cases done
    refine ⟨?_, ?_, rfl, _, OrderedMap.get_set_self _ _ _, under_id _ _⟩
    · rw [IndexStore.ids, map_id_set read (under_id _ _)]
      exact distinct
    · intro other snapshot present
      by_cases same : sha = other
      · subst same
        rw [read] at present
        cases present
        exact ⟨_, OrderedMap.get_set_self _ _ _, under_id _ _⟩
      · exact ⟨snapshot, (OrderedMap.get_set_of_ne _ same _).trans present, rfl⟩
  | none =>
    rw [read] at done
    simp only at done
    split at done
    · cases done
    rename_i fresh
    cases done
    have absent : sha ∉ store.snapshots.keys := OrderedMap.get_eq_none_iff.mp read
    refine ⟨?_, ?_, rfl, _, OrderedMap.get_set_self _ _ _, under_id _ _⟩
    · rw [IndexStore.ids, OrderedMap.set_of_not_mem absent, List.map_append]
      apply List.Nodup.append distinct (List.nodup_singleton _)
      rw [List.disjoint_singleton]
      intro known
      exact fresh (under_id write newId ▸ known)
    · intro other snapshot present
      have apart : sha ≠ other := by
        rintro rfl
        rw [read] at present
        cases present
      exact ⟨snapshot, (OrderedMap.get_set_of_ne _ apart _).trans present, rfl⟩

theorem Keeps.refl (store : IndexStore Spec) : Keeps store store :=
  fun _ snapshot present => ⟨snapshot, present, rfl⟩

/-- A write of the head alone keeps the snapshots. -/
theorem Keeps.of_snapshots {store next : IndexStore Spec} (same : next.snapshots = store.snapshots) :
    Keeps store next := by
  intro sha snapshot present
  exact ⟨snapshot, same ▸ present, rfl⟩

theorem IndexStore.PointsTo.keeps {store next : IndexStore Spec} {head : Option Sha} (kept : Keeps store next)
    (same : next.head = store.head) (points : store.PointsTo head) : next.PointsTo head := by
  cases head with
  | none => exact same.trans points
  | some sha =>
    obtain ⟨snapshot, read, pointed⟩ := points
    obtain ⟨snapshot', read', id⟩ := kept sha snapshot read
    exact ⟨snapshot', read', by rw [same, pointed, id]⟩

/-! ## The steps -/

/-- The branch had this head after `seen` earlier ones. -/
def WasHead (heads : List (Option Sha)) (seen : ℕ) (head : Option Sha) : Prop :=
  ∃ older, head :: older <:+ heads ∧ older.length = seen

/-- The branch had one head at a time. -/
theorem WasHead.unique {heads : List (Option Sha)} {seen : ℕ} {head other : Option Sha}
    (first : WasHead heads seen head) (second : WasHead heads seen other) : head = other := by
  obtain ⟨older, suffix, length⟩ := first
  obtain ⟨older', suffix', length'⟩ := second
  have same : head :: older = other :: older' := by
    apply (List.suffix_of_suffix_length_le suffix suffix' _).eq_of_length
    · simp only [List.length_cons, length, length']
    · simp only [List.length_cons, length, length', le_refl]
  exact (List.cons.inj same).1

theorem WasHead.push {heads : List (Option Sha)} {seen : ℕ} {head : Option Sha}
    (was : WasHead heads seen head) (pushed : Option Sha) : WasHead (pushed :: heads) seen head := by
  obtain ⟨older, suffix, length⟩ := was
  exact ⟨older, suffix.trans (List.suffix_cons pushed heads), length⟩

/-- The head that an execution read, and how many the branch had before it. -/
def Phase.read? : Phase Spec → Option (ℕ × Option Sha)
  | listing | failed => none
  | missing seen => some (seen, none)
  | listed seen ref | known seen ref _ | reading seen ref | writing seen ref _ => some (seen, some ref)
  | processed seen head => some (seen, head)

/-- What is kept of an execution: the head that it read, and the snapshot that it found. -/
structure Phase.Valid (world : World Spec) (phase : Phase Spec) : Prop where
  read : ∀ seen head, phase.read? = some (seen, head) → WasHead world.heads seen head
  found : ∀ seen ref id, phase = .known seen ref id →
    ∃ snapshot, world.store.snapshots.get ref = some snapshot ∧ snapshot.id = id

theorem Phase.Valid.keeps {world next : World Spec} {phase : Phase Spec} (valid : phase.Valid world)
    (heads : ∀ seen head, WasHead world.heads seen head → WasHead next.heads seen head)
    (kept : Keeps world.store next.store) : phase.Valid next := by
  refine ⟨fun seen head read => heads seen head (valid.read seen head read), ?_⟩
  intro seen ref id known
  obtain ⟨snapshot, present, same⟩ := valid.found seen ref id known
  obtain ⟨snapshot', present', same'⟩ := kept ref snapshot present
  exact ⟨snapshot', present', same'.trans same⟩

/-- **What a write does**: the stored head points to what the execution read. -/
theorem writeStep_spec {world : World Spec} {phase next : Phase Spec} {store : IndexStore Spec}
    {newId : ℕ} (distinct : world.store.ids.Nodup) (valid : phase.Valid world)
    (done : writeStep world.store newId phase = some (store, next)) :
    store.ids.Nodup ∧ Keeps world.store store ∧
      ∃ seen head, phase.read? = some (seen, head) ∧ next = .processed seen head ∧
        store.PointsTo head := by
  cases phase with
  | missing seen =>
    cases done
    exact ⟨distinct, Keeps.of_snapshots rfl, seen, none, rfl, rfl, rfl⟩
  | known seen ref id =>
    cases done
    obtain ⟨snapshot, present, same⟩ := valid.found seen ref id rfl
    refine ⟨distinct, Keeps.of_snapshots rfl, seen, some ref, rfl, rfl, snapshot, present, ?_⟩
    rw [same]
    rfl
  | writing seen ref snapshot =>
    obtain ⟨written, wrote, same⟩ := Option.map_eq_some_iff.mp done
    cases same
    obtain ⟨⟨reset, id⟩, made, rfl⟩ := Option.map_eq_some_iff.mp wrote
    obtain ⟨distinct', kept, _, row, present, same⟩ := reset_spec distinct made
    exact ⟨distinct', kept, seen, some ref, rfl, rfl, row, present, by rw [same]⟩
  | listing | listed _ _ | reading _ _ | processed _ _ | failed => cases done

/-- **What a step of an execution does**: it writes, or leaves the store alone and goes on with
what it read. -/
theorem executionStep_cases {repo : SpecRepo Spec} {world : World Spec} {phase next : Phase Spec}
    {store : IndexStore Spec} {event : IndexEvent Spec} (valid : phase.Valid world)
    (taken : executionStep repo world phase event = some (store, next)) :
    (∃ index newId, event = .write index newId ∧
        writeStep world.store newId phase = some (store, next)) ∨
      store = world.store ∧ next.Valid world ∧ ∀ seen head, next ≠ .processed seen head := by
  cases event with
  | push _ | start | elsewhere _ _ _ => cases taken
  | write index newId => exact .inl ⟨index, newId, rfl, taken⟩
  | list index =>
    right
    simp only [executionStep] at taken
    split at taken
    · rename_i older heads
      cases taken
      refine ⟨rfl, ⟨?_, nofun⟩, nofun⟩
      rintro seen head ⟨⟩
      exact ⟨older, by rw [heads], rfl⟩
    · rename_i ref older heads
      cases taken
      refine ⟨rfl, ⟨?_, nofun⟩, nofun⟩
      rintro seen head ⟨⟩
      exact ⟨older, by rw [heads], rfl⟩
    · cases taken
  | look index =>
    right
    cases phase with
    | listed seen ref =>
      cases taken
      have was := valid.read seen (some ref) rfl
      unfold afterLook
      split
      · rename_i known present
        split
        · refine ⟨rfl, ⟨?_, ?_⟩, nofun⟩
          · rintro _ _ ⟨⟩
            exact was
          · rintro _ _ _ ⟨⟩
            exact ⟨known, present, rfl⟩
        · refine ⟨rfl, ⟨?_, nofun⟩, nofun⟩
          rintro _ _ ⟨⟩
          exact was
      · refine ⟨rfl, ⟨?_, nofun⟩, nofun⟩
        rintro _ _ ⟨⟩
        exact was
    | listing | missing _ | known _ _ _ | reading _ _ | writing _ _ _ | processed _ _ | failed =>
      cases taken
  | read index =>
    right
    cases phase with
    | reading seen ref =>
      cases taken
      refine ⟨rfl, ⟨?_, nofun⟩, nofun⟩
      rintro _ _ ⟨⟩
      exact valid.read seen (some ref) rfl
    | listing | missing _ | listed _ _ | known _ _ _ | writing _ _ _ | processed _ _ | failed =>
      cases taken
  | fail index =>
    right
    cases phase with
    | processed _ _ | failed => cases taken
    | listing | missing _ | listed _ _ | known _ _ _ | reading _ _ | writing _ _ _ =>
      cases taken
      exact ⟨rfl, ⟨nofun, nofun⟩, nofun⟩

/-! ## Runs -/

/-- **The invariant**: the identifiers are distinct, what executions hold is valid, and the stored
head is the newest one that an execution processed. -/
structure Invariant (world : World Spec) : Prop where
  distinct : world.store.ids.Nodup
  valid : ∀ phase ∈ world.executions, phase.Valid world
  newest : ∀ seen head, .processed seen head ∈ world.executions →
    (∀ other head', .processed other head' ∈ world.executions → other ≤ seen) →
    world.store.PointsTo head

/-- An execution writes in the order of the heads: no execution that is processed had read a newer
one. -/
def WritesInOrder (world : World Spec) (event : IndexEvent Spec) : Prop :=
  ∀ index newId, event = .write index newId → ∀ phase ∈ world.executions[index]?,
    ∀ seen head, phase.read? = some (seen, head) →
      ∀ other head', .processed other head' ∈ world.executions → other ≤ seen

theorem Invariant.execution {world : World Spec} (invariant : Invariant world) {index : ℕ}
    {phase : Phase Spec} (current : world.executions[index]? = some phase) : phase.Valid world :=
  invariant.valid phase (List.mem_of_getElem? current)

/-- An execution that is processed takes no step. -/
theorem executionStep_processed (repo : SpecRepo Spec) (world : World Spec) (seen : ℕ)
    (head : Option Sha) (event : IndexEvent Spec) :
    executionStep repo world (.processed seen head) event = none := by
  cases event <;> rfl

/-- Another execution is processed as before. -/
theorem mem_set_of_ne {executions : List (Phase Spec)} {index : ℕ} {phase next other : Phase Spec}
    (current : executions[index]? = some phase) (apart : other ≠ phase)
    (member : other ∈ executions) : other ∈ executions.set index next := by
  obtain ⟨position, inside, rfl⟩ := List.mem_iff_getElem.mp member
  have elsewhere : index ≠ position := by
    rintro rfl
    rw [List.getElem?_eq_getElem inside, Option.some.injEq] at current
    exact apart current
  rw [List.mem_iff_getElem?]
  exact ⟨position, by rw [List.getElem?_set_ne elsewhere, List.getElem?_eq_getElem inside]⟩

/-- A step of an execution that does not write keeps the invariant. -/
theorem Invariant.advance {world : World Spec} (invariant : Invariant world) {index : ℕ}
    {phase next : Phase Spec} (current : world.executions[index]? = some phase)
    (running : ∀ seen head, .processed seen head ≠ phase) (valid : next.Valid world)
    (still : ∀ seen head, next ≠ .processed seen head) :
    Invariant { world with executions := world.executions.set index next } := by
  refine ⟨invariant.distinct, ?_, ?_⟩
  · intro other member
    rcases List.mem_or_eq_of_mem_set member with old | rfl
    · exact (invariant.valid other old).keeps (fun _ _ was => was) (Keeps.refl _)
    · exact valid.keeps (fun _ _ was => was) (Keeps.refl _)
  · intro seen head processed newest
    rcases List.mem_or_eq_of_mem_set processed with old | same
    · apply invariant.newest seen head old
      intro other head' member
      exact newest other head' (mem_set_of_ne current (running other head') member)
    · exact absurd same.symm (still seen head)

/-- **A write in order keeps the invariant.** -/
theorem Invariant.write {world : World Spec} (invariant : Invariant world) {index newId : ℕ}
    {phase next : Phase Spec} {store : IndexStore Spec}
    (current : world.executions[index]? = some phase)
    (inOrder : WritesInOrder world (.write index newId))
    (done : writeStep world.store newId phase = some (store, next)) :
    Invariant { world with store, executions := world.executions.set index next } := by
  obtain ⟨distinct, kept, seen, head, read, rfl, points⟩ :=
    writeStep_spec invariant.distinct (invariant.execution current) done
  have was := (invariant.execution current).read seen head read
  refine ⟨distinct, ?_, ?_⟩
  · intro other member
    rcases List.mem_or_eq_of_mem_set member with old | rfl
    · exact (invariant.valid other old).keeps (fun _ _ was => was) kept
    · refine ⟨?_, nofun⟩
      rintro _ _ ⟨⟩
      exact was
  · intro last lastHead processed newest
    have latest : seen ≤ last :=
      newest seen head (List.mem_set (List.getElem?_eq_some_iff.mp current).1 _)
    rcases List.mem_or_eq_of_mem_set processed with old | same
    · have earlier : last ≤ seen :=
        inOrder index newId rfl phase current seen head read last lastHead old
      have same : last = seen := le_antisymm earlier latest
      subst same
      have agreed := was.unique ((invariant.valid _ old).read last lastHead rfl)
      rw [← agreed]
      exact points
    · cases same
      exact points

/-- **What a step whose writes are in order keeps.** -/
theorem indexStep_invariant {repo : SpecRepo Spec} {world next : World Spec}
    {event : IndexEvent Spec} (invariant : Invariant world) (inOrder : WritesInOrder world event)
    (taken : indexStep repo world event = some next) : Invariant next := by
  have advanced : ∀ index phase, world.executions[index]? = some phase →
      ∀ store phase', executionStep repo world phase event = some (store, phase') →
      event.execution = some index →
      Invariant { world with store, executions := world.executions.set index phase' } := by
    intro index phase current store phase' stepped named
    rcases executionStep_cases (invariant.execution current) stepped with
      ⟨index', newId, rfl, done⟩ | ⟨rfl, valid, still⟩
    · cases named
      exact invariant.write current inOrder done
    · refine invariant.advance current ?_ valid still
      rintro seen head rfl
      rw [executionStep_processed] at stepped
      cases stepped
  cases event with
  | push head =>
    cases taken
    refine ⟨invariant.distinct, fun phase member => ?_, invariant.newest⟩
    exact (invariant.valid phase member).keeps (fun _ _ was => was.push head) (Keeps.refl _)
  | start =>
    cases taken
    have same : ∀ seen head, .processed seen head ∈ world.executions ++ [Phase.listing] →
        .processed seen head ∈ world.executions := by
      intro seen head member
      rcases List.mem_append.mp member with old | new
      · exact old
      · cases List.mem_singleton.mp new
    refine ⟨invariant.distinct, fun phase member => ?_, fun seen head processed newest => ?_⟩
    · rcases List.mem_append.mp member with old | new
      · exact (invariant.valid phase old).keeps (fun _ _ was => was) (Keeps.refl _)
      · rw [List.mem_singleton.mp new]
        exact ⟨nofun, nofun⟩
    · apply invariant.newest seen head (same seen head processed)
      exact fun other head' member => newest other head' (List.mem_append_left _ member)
  | elsewhere commitSha newId snapshot =>
    obtain ⟨⟨store, id⟩, made, rfl⟩ := Option.map_eq_some_iff.mp taken
    obtain ⟨distinct, kept, pointed, _⟩ := reset_spec invariant.distinct made
    refine ⟨distinct, fun phase member => ?_, fun seen head processed newest => ?_⟩
    · exact (invariant.valid phase member).keeps (fun _ _ was => was) kept
    · exact (invariant.newest seen head processed newest).keeps kept pointed
  | list index | look index | read index | write index newId | fail index =>
    obtain ⟨phase, current, taken⟩ := Option.bind_eq_some_iff.mp taken
    obtain ⟨⟨store, phase'⟩, stepped, rfl⟩ := Option.map_eq_some_iff.mp taken
    exact advanced index phase current store phase' stepped rfl

/-! ## Convergence -/

/-- Every execution has completed, and one of them read the head after the last push. -/
structure World.Settled (world : World Spec) : Prop where
  completed : ∀ phase ∈ world.executions, (∃ seen head, phase = .processed seen head) ∨ phase = .failed
  fresh : ∃ seen head, .processed seen head ∈ world.executions ∧ seen + 1 = world.heads.length

/-- The stored head of a settled branch points to the snapshot of the last head, or there is none
when the branch is gone. -/
def Converged (world : World Spec) : Prop :=
  world.Settled → world.store.headCommit = world.heads.head?.join ∧
    (world.heads.head?.join = none → world.store.head = none)

/-- A branch before its executions start. -/
structure World.Initial (world : World Spec) : Prop where
  executions : world.executions = []
  distinct : world.store.ids.Nodup

/-- **The stored head converges to the last head** in every run whose executions write in the
order of the heads that they read. -/
theorem branch_index_converges {repo : SpecRepo Spec} {world last : World Spec}
    {schedule : List (IndexEvent Spec)} (initial : world.Initial)
    (inOrder : Along (indexStep repo) WritesInOrder world schedule)
    (reached : run (indexStep repo) world schedule = some last) : Converged last := by
  have start : Invariant world := by
    refine ⟨initial.distinct, ?_, ?_⟩
    · rw [initial.executions]
      exact nofun
    · rw [initial.executions]
      exact nofun
  have invariant : Invariant last := run_invariant_along
    (fun _ _ _ invariant allowed taken => indexStep_invariant invariant allowed taken) start inOrder
    reached
  rintro ⟨_, seen, head, processed, fresh⟩
  obtain ⟨older, ⟨newer, split⟩, length⟩ := (invariant.valid _ processed).read seen head rfl
  have sizes := congrArg List.length split
  rw [List.length_append, List.length_cons, length, fresh] at sizes
  have none_ : newer = [] := List.eq_nil_of_length_eq_zero (by omega)
  rw [none_, List.nil_append] at split
  have points : last.store.PointsTo head := by
    apply invariant.newest seen head processed
    intro other head' member
    obtain ⟨older', suffix, rfl⟩ := (invariant.valid _ member).read other head' rfl
    have bound := suffix.length_le
    rw [List.length_cons, ← fresh] at bound
    exact Nat.le_of_succ_le_succ bound
  rw [← split, List.head?_cons, Option.join_some]
  refine ⟨headCommit_of_pointsTo invariant.distinct points, ?_⟩
  rintro rfl
  exact points

end Store

/-! ## A reconcile pass that is overtaken -/

/-- A repository of which the schema recognizes nothing. -/
def bareRepo : SpecRepo Unit := ⟨none, fun _ => [], fun _ => false, fun _ => ()⟩

def firstHead : Sha := Text.lit "a1"
def secondHead : Sha := Text.lit "b2"

/-- A branch with a first head that is not indexed. -/
def unindexed : World Unit := ⟨[some firstHead], ⟨[], none⟩, []⟩

/-- The events of one execution, from its look up to its write. -/
def finish (execution newId : ℕ) : List (IndexEvent Unit) :=
  [.look execution, .read execution, .write execution newId]

/-- A delivery for each head, one after the other. -/
def inTurn : List (IndexEvent Unit) :=
  [.start, .list 0] ++ finish 0 1 ++ [.push (some secondHead), .start, .list 1] ++ finish 1 2

/-- The reconcile pass reads the first head, a delivery indexes the second one, and the reconcile
pass goes on. -/
def overtaken : List (IndexEvent Unit) :=
  [.start, .list 0, .push (some secondHead), .start, .list 1] ++ finish 1 2 ++ finish 0 1

/-- The world that the executions in turn leave. -/
def indexedInTurn : World Unit where
  heads := [some secondHead, some firstHead]
  store :=
    { snapshots := [(firstHead, ⟨1, .ready, none, some ()⟩), (secondHead, ⟨2, .ready, none, some ()⟩)]
      head := some 2 }
  executions := [.processed 0 (some firstHead), .processed 1 (some secondHead)]

/-- The world that the overtaken reconcile pass leaves. -/
def indexedOvertaken : World Unit where
  heads := [some secondHead, some firstHead]
  store :=
    { snapshots := [(secondHead, ⟨2, .ready, none, some ()⟩), (firstHead, ⟨1, .ready, none, some ()⟩)]
      head := some 1 }
  executions := [.processed 0 (some firstHead), .processed 1 (some secondHead)]

theorem initial_unindexed : unindexed.Initial := ⟨rfl, List.nodup_nil⟩

theorem run_inTurn : run (indexStep bareRepo) unindexed inTurn = some indexedInTurn := by
  decide +kernel

theorem inOrder_of_not_write {world : World Unit} {event : IndexEvent Unit}
    (other : ∀ index newId, event ≠ .write index newId) : WritesInOrder world event :=
  fun index newId same => absurd same (other index newId)

/-- Executions in turn write in order. -/
theorem branch_index_converges_inTurn : Converged indexedInTurn := by
  have first : WritesInOrder ⟨[some firstHead], ⟨[], none⟩,
      [.writing 0 firstHead (snapshotWrite bareRepo firstHead)]⟩ (.write 0 1) := by
    rintro index newId ⟨⟩ phase ⟨⟩ seen head ⟨⟩ other head' member
    cases List.mem_singleton.mp member
  have second : ∀ store, WritesInOrder ⟨[some secondHead, some firstHead], store,
      [.processed 0 (some firstHead), .writing 1 secondHead (snapshotWrite bareRepo secondHead)]⟩
      (.write 1 2) := by
    rintro store index newId ⟨⟩ phase ⟨⟩ seen head ⟨⟩ other head' member
    rcases List.mem_cons.mp member with same | later
    · cases same
      exact Nat.zero_le 1
    · cases List.mem_singleton.mp later
  apply branch_index_converges initial_unindexed _ run_inTurn
  refine .of_step rfl (inOrder_of_not_write nofun) ?_
  refine .of_step rfl (inOrder_of_not_write nofun) ?_
  refine .of_step rfl (inOrder_of_not_write nofun) ?_
  refine .of_step rfl (inOrder_of_not_write nofun) ?_
  refine .of_step rfl first ?_
  refine .of_step rfl (inOrder_of_not_write nofun) ?_
  refine .of_step rfl (inOrder_of_not_write nofun) ?_
  refine .of_step rfl (inOrder_of_not_write nofun) ?_
  refine .of_step rfl (inOrder_of_not_write nofun) ?_
  refine .of_step rfl (inOrder_of_not_write nofun) ?_
  exact .of_step rfl (second _) trivial

/-- **An older head overwrites the newer one**: every execution has completed, the last one that
read the head is the delivery, and the stored head points to the first commit. -/
theorem branch_index_overwritten :
    ¬ ∀ (repo : SpecRepo Unit) (world last : World Unit) (schedule : List (IndexEvent Unit)),
      world.Initial → run (indexStep repo) world schedule = some last → Converged last := by
  intro claim
  have reached : run (indexStep bareRepo) unindexed overtaken = some indexedOvertaken := by
    decide +kernel
  have converged := claim bareRepo unindexed indexedOvertaken overtaken initial_unindexed reached
  have settled : indexedOvertaken.Settled := by
    refine ⟨?_, 1, some secondHead, List.mem_cons_of_mem _ List.mem_cons_self, rfl⟩
    intro phase member
    rcases List.mem_cons.mp member with rfl | later
    · exact .inl ⟨0, some firstHead, rfl⟩
    · rw [List.mem_singleton.mp later]
      exact .inl ⟨1, some secondHead, rfl⟩
  have wrong := (converged settled).1
  revert wrong
  decide +kernel

end Koklo.Webhook
