import Koklo.Foundations.Runs
import Koklo.SpecWrite.Execution

/-!
# A batch is committed at most once

A batch that has a commit on the branch is marked, and an execution that loads
it then looks through the whole history or gives up. So an execution that goes
past its recovery loaded the batch before any commit of it, and the head it plans
on has none below it (`ClearFrom`). The comparison of the head at the write does
the rest.

What can go wrong is a commit of another execution between the load and the read
of the head. When the base of the batch is known, the comparison with it excludes
this; when it is not, nothing does (`batch_committed_twice`). In a run without
such a read the branch has at most one commit of the batch
(`batch_committed_at_most_once`).
-/

set_option autoImplicit false

namespace Koklo.SpecWrite

open Koklo.Foundations

variable {batch : Batch}

/-! ## Phases -/

/-- The phases past the recovery, from which a commit can still follow. -/
def Phase.searched : Phase → Bool
  | listing _ | marking _ _ | writing _ _ => true
  | _ => false

/-- The head that a phase is going to write on. -/
def Phase.head? : Phase → Option Sha
  | marking _ head | writing _ head => some head
  | _ => none

/-- The batch is committed. -/
def Outcome.isCommitted : Outcome → Bool
  | committed _ => true
  | _ => false

/-- **Where an error leaves an execution**: at its second attempt, which only a
stale head in the first one leads to, at a refusal to settle, or ended. -/
theorem afterError_cases (lastAttempt : Bool) (attempt : Option Attempt) (error : GitError) :
    (attempt = some .first ∧ afterError lastAttempt attempt error = .listing .second) ∨
      (∃ outcome, outcome.isCommitted = false ∧
        afterError lastAttempt attempt error = .settling outcome) ∨
      afterError lastAttempt attempt error = .ended := by
  unfold afterError
  split
  · rename_i stale
    exact .inl ⟨stale.1, rfl⟩
  · split
    · rename_i outcome business
      refine .inr (.inl ⟨outcome, ?_, rfl⟩)
      cases error <;> cases business <;> rfl
    · split
      · exact .inr (.inl ⟨_, rfl, rfl⟩)
      · exact .inr (.inr rfl)

/-- A lost answer is not a stale head: it never leads to a second attempt. -/
theorem afterError_unavailable (lastAttempt : Bool) (attempt : Option Attempt) :
    afterError lastAttempt attempt .unavailable =
      if lastAttempt then .settling (.failed .providerUnavailable) else .ended := by
  unfold afterError
  rw [if_neg (by rintro ⟨-, stale⟩; cases stale)]
  rfl

/-- **What the first half of an attempt leads to**: a refusal, or the write on the
head, which is then the base of the batch if it has one. -/
theorem attemptAt_cases (batch : Batch) (attempt : Attempt) (head : Sha) :
    (∃ outcome, outcome.isCommitted = false ∧ attemptAt batch attempt head = .settling outcome) ∨
      ((∀ base ∈ batch.baseSha, base = head) ∧ attemptAt batch attempt head = .marking attempt head) := by
  unfold attemptAt
  split
  · exact .inl ⟨_, rfl, rfl⟩
  · rename_i same
    split
    · exact .inl ⟨_, rfl, rfl⟩
    · exact .inl ⟨_, rfl, rfl⟩
    · refine .inr ⟨fun base known => ?_, rfl⟩
      rw [Option.mem_def] at known
      simpa [known] using same

/-- A recovery that finds nothing and does not give up has seen no commit of the
batch, unless the batch was still queued. -/
theorem batchCommits_of_recover {status : BatchStatus} {branch : List Commit}
    (missed : recover batch status branch = none) (taken : status = .committing) :
    batchCommits batch branch = 0 := by
  unfold recover at missed
  simp only at missed
  split at missed
  · cases missed
  · rename_i absent
    split at missed
    · cases missed
    · rename_i partial_
      have short : branch.length < recoveryWindow := by
        rw [not_and] at partial_
        have := partial_ taken
        rw [List.length_take] at this
        omega
      rw [List.take_of_length_le short.le, List.find?_eq_none] at absent
      exact List.countP_eq_zero.mpr absent

/-- A recovery that finds a commit answers the sha of one that carries the trailer. -/
theorem recover_committed {status : BatchStatus} {branch : List Commit} {sha : Sha}
    (recovered : recover batch status branch = some (.committed sha)) :
    ∃ commit ∈ branch, commit.sha = sha ∧ carriesTrailer batch commit = true := by
  unfold recover at recovered
  simp only at recovered
  split at recovered
  · rename_i commit found
    cases recovered
    exact ⟨commit, List.mem_of_mem_take (List.mem_of_find?_eq_some found), rfl,
      List.find?_some found⟩
  · split at recovered <;> cases recovered

/-! ## Commits of the batch -/

theorem batchCommits_cons (batch : Batch) (commit : Commit) (branch : List Commit) :
    batchCommits batch (commit :: branch) =
      batchCommits batch branch + if carriesTrailer batch commit then 1 else 0 :=
  List.countP_cons

/-- The commit of an execution carries the trailer of its batch. -/
theorem carriesTrailer_messageOf (batch : Batch) (sha : Sha) (author : Option BatchAuthor) :
    carriesTrailer batch ⟨sha, messageOf batch author⟩ = true :=
  hasOpsTrailer_buildCommitMessage rfl

/-- The branch below a head has no commit of the batch. -/
def ClearFrom (batch : Batch) (branch : List Commit) (head : Sha) : Prop :=
  ∃ newer older, branch = newer ++ older ∧ older.head?.map Commit.sha = some head ∧
    batchCommits batch older = 0

/-- While the head did not move, the branch has no commit of the batch. -/
theorem ClearFrom.batchCommits_eq_zero {branch : List Commit} {head : Sha}
    (clear : ClearFrom batch branch head) (distinct : (branch.map Commit.sha).Nodup)
    (current : branch.head?.map Commit.sha = some head) : batchCommits batch branch = 0 := by
  obtain ⟨newer, older, rfl, first, none⟩ := clear
  cases newer with
  | nil => exact none
  | cons commit newer =>
    exfalso
    cases older with
    | nil => cases first
    | cons base older =>
      simp only [List.head?_cons, Option.map_some, Option.some.injEq, List.cons_append] at first current
      rw [List.cons_append, List.map_cons, List.nodup_cons] at distinct
      apply distinct.1
      rw [current, ← first, List.map_append]
      exact List.mem_append_right _ (by simp)

theorem ClearFrom.mono {branch branch' : List Commit} {head : Sha}
    (clear : ClearFrom batch branch head) (suffix : branch <:+ branch') :
    ClearFrom batch branch' head := by
  obtain ⟨front, rfl⟩ := suffix
  obtain ⟨newer, older, rfl, first, none⟩ := clear
  exact ⟨front ++ newer, older, by rw [List.append_assoc], first, none⟩

/-! ## The invariant -/

/-- What is known of an execution. -/
structure ExecutionLedger (batch : Batch) (branch : List Commit) (row : BatchRow)
    (execution : Execution) : Prop where
  seen_le : execution.seen ≤ batchCommits batch branch
  marked : execution.seen ≠ 0 → execution.status = .committing
  searched : execution.phase.searched = true → execution.seen = 0
  planned : ∀ head ∈ execution.phase.head?,
    (∀ base ∈ batch.baseSha, base = head) ∧ ClearFrom batch branch head
  writing : ∀ attempt head, execution.phase = .writing attempt head → row.status ≠ .queued

/-- The branch has at most one commit of the batch, and every execution knows what it has to. -/
structure Ledger (batch : Batch) (world : World) : Prop where
  distinct : (world.branch.map Commit.sha).Nodup
  once : batchCommits batch world.branch ≤ 1
  marked : batchCommits batch world.branch ≠ 0 → world.row.status ≠ .queued
  based : ∀ base ∈ batch.baseSha, batchCommits batch world.branch ≠ 0 →
    base ∈ world.branch.tail.map Commit.sha
  executions : ∀ execution ∈ world.executions,
    ExecutionLedger batch world.branch world.row execution

/-- What an execution knows stays true when the branch grows and the row advances. -/
theorem ExecutionLedger.mono {branch branch' : List Commit} {row row' : BatchRow}
    {execution : Execution} (ledger : ExecutionLedger batch branch row execution)
    (suffix : branch <:+ branch') (advanced : row.status ≠ .queued → row'.status ≠ .queued) :
    ExecutionLedger batch branch' row' execution where
  seen_le := ledger.seen_le.trans (suffix.sublist.countP_le)
  marked := ledger.marked
  searched := ledger.searched
  planned head known := ⟨(ledger.planned head known).1, (ledger.planned head known).2.mono suffix⟩
  writing attempt head phase := advanced (ledger.writing attempt head phase)

theorem head?_of_not_searched {phase : Phase} (left : phase.searched = false) :
    phase.head? = none := by
  cases phase <;> first | rfl | cases left

/-- An execution that leaves the phases of a commit keeps what it knows. -/
theorem ExecutionLedger.leave {branch : List Commit} {row : BatchRow} {execution : Execution}
    (ledger : ExecutionLedger batch branch row execution) {phase : Phase}
    (left : phase.searched = false) :
    ExecutionLedger batch branch row { execution with phase } where
  seen_le := ledger.seen_le
  marked := ledger.marked
  searched searched := by
    rw [left] at searched
    cases searched
  planned head known := by
    rw [head?_of_not_searched left] at known
    cases known
  writing attempt head written := by
    simp only at written
    rw [written] at left
    cases left

/-- An execution that reads the head again has seen no commit of the batch. -/
theorem ExecutionLedger.list {branch : List Commit} {row : BatchRow} {execution : Execution}
    (ledger : ExecutionLedger batch branch row execution) (attempt : Attempt)
    (unseen : execution.seen = 0) :
    ExecutionLedger batch branch row { execution with phase := .listing attempt } where
  seen_le := ledger.seen_le
  marked := ledger.marked
  searched _ := unseen
  planned head known := by cases known
  writing attempt head written := by cases written

/-! ## Steps -/

/-- The condition of the theorem: no other party forges the trailer of the batch,
and when the base is not known, an execution reads the head only while no commit
of the batch was made since it loaded the batch. -/
def ReadsBeforeCommits (batch : Batch) (world : World) : BatchEvent → Prop
  | .push commit => carriesTrailer batch commit = false
  | .list index => batch.baseSha = none → ∀ execution ∈ world.executions[index]?,
      batchCommits batch world.branch ≤ execution.seen
  | _ => True

/-- Changing one execution keeps the ledger, once the new one has its own. -/
theorem Ledger.set {world : World} (ledger : Ledger batch world) {row : BatchRow}
    (advanced : world.row.status ≠ .queued → row.status ≠ .queued) (index : ℕ)
    {execution : Execution}
    (known : ExecutionLedger batch world.branch row execution) :
    Ledger batch ⟨world.branch, row, world.executions.set index execution⟩ where
  distinct := ledger.distinct
  once := ledger.once
  marked some := advanced (ledger.marked some)
  based := ledger.based
  executions other member := by
    rcases List.mem_or_eq_of_mem_set member with old | rfl
    · exact (ledger.executions other old).mono (List.suffix_refl _) advanced
    · exact known

theorem Ledger.push {world next : World} {commit : Commit} (ledger : Ledger batch world)
    (foreign : carriesTrailer batch commit = false) (pushed : world.commit commit = some next) :
    Ledger batch next := by
  unfold World.commit at pushed
  split at pushed
  · cases pushed
  · rename_i fresh
    cases pushed
    have same : batchCommits batch (commit :: world.branch) = batchCommits batch world.branch := by
      rw [batchCommits_cons, foreign]
      rfl
    constructor
    case distinct => exact List.nodup_cons.mpr ⟨fresh, ledger.distinct⟩
    case once => exact same.trans_le ledger.once
    case marked =>
      rw [same]
      exact ledger.marked
    case based =>
      intro base known some
      rw [same] at some
      have below := ledger.based base known some
      exact List.map_subset _ (List.tail_subset _) below
    case executions =>
      intro execution member
      exact (ledger.executions execution member).mono (List.suffix_cons _ _) id

theorem Ledger.start {world : World} (ledger : Ledger batch world)
    (lastAttempt provider : Bool) (author : Option BatchAuthor)
    (open_ : world.row.status.isOpen = true) :
    Ledger batch { world with
      executions := world.executions ++
        [⟨world.row.status, author, lastAttempt, batchCommits batch world.branch,
          startPhase batch provider⟩] } where
  distinct := ledger.distinct
  once := ledger.once
  marked := ledger.marked
  based := ledger.based
  executions execution member := by
    have first : (startPhase batch provider).searched = false := by
      unfold startPhase
      split_ifs <;> rfl
    rcases List.mem_append.mp member with old | new
    · exact ledger.executions execution old
    · rw [List.mem_singleton.mp new]
      constructor
      case seen_le => exact le_rfl
      case marked =>
        intro some
        have notQueued := ledger.marked some
        cases status : world.row.status <;> rw [status] at open_ notQueued <;>
          first | rfl | exact absurd rfl notQueued | cases open_
      case searched =>
        intro searched
        rw [first] at searched
        cases searched
      case planned =>
        intro head known
        rw [head?_of_not_searched first] at known
        cases known
      case writing =>
        intro attempt head phase
        simp only at phase
        rw [phase] at first
        cases first

/-- An error keeps the ledger: a second attempt comes after a recovery that found nothing. -/
theorem ExecutionLedger.error {branch : List Commit} {row : BatchRow} {execution : Execution}
    (ledger : ExecutionLedger batch branch row execution) (error : GitError) :
    ExecutionLedger batch branch row { execution with
      phase := afterError execution.lastAttempt execution.phase.attempt error } := by
  rcases afterError_cases execution.lastAttempt execution.phase.attempt error with
    ⟨first, again⟩ | ⟨outcome, -, refused⟩ | stopped
  · rw [again]
    refine ledger.list .second (ledger.searched ?_)
    cases phase : execution.phase <;> rw [phase] at first <;> first | rfl | cases first
  · rw [refused]
    exact ledger.leave rfl
  · rw [stopped]
    exact ledger.leave rfl

/-- **The write of an execution that planned on the head is the first commit of
the batch.** -/
theorem Ledger.write {world committed : World} (ledger : Ledger batch world)
    {index : ℕ} {execution : Execution} (member : execution ∈ world.executions)
    {attempt : Attempt} {head sha : Sha} (writing : execution.phase = .writing attempt head)
    (current : world.branch.head?.map Commit.sha = some head)
    (written : world.commit ⟨sha, messageOf batch execution.author⟩ = some committed)
    {phase : Phase} (left : phase.searched = false) :
    Ledger batch (committed.setPhase index execution phase) := by
  have known := ledger.executions execution member
  have planned := known.planned head (by rw [writing]; rfl)
  have none := planned.2.batchCommits_eq_zero ledger.distinct current
  unfold World.commit at written
  split at written
  · cases written
  · rename_i fresh
    cases written
    have one : batchCommits batch (⟨sha, messageOf batch execution.author⟩ :: world.branch) = 1 := by
      rw [batchCommits_cons, none, carriesTrailer_messageOf]
      rfl
    have grown : ∀ other ∈ world.executions, ExecutionLedger batch
        (⟨sha, messageOf batch execution.author⟩ :: world.branch) world.row other :=
      fun other inside => (ledger.executions other inside).mono (List.suffix_cons _ _) id
    constructor
    case distinct => exact List.nodup_cons.mpr ⟨fresh, ledger.distinct⟩
    case once => exact one.le
    case marked =>
      intro _
      exact known.writing attempt head writing
    case based =>
      intro base isBase _
      rw [planned.1 base isBase]
      obtain ⟨top, found, same⟩ := Option.map_eq_some_iff.mp current
      exact List.mem_map.mpr ⟨top, List.mem_of_mem_head? found, same⟩
    case executions =>
      intro other inside
      rcases List.mem_or_eq_of_mem_set inside with old | rfl
      · exact grown other old
      · exact (grown execution member).leave left

/-- **A step of one execution keeps the ledger.** -/
theorem Ledger.executionStep {world next : World} {index : ℕ} {execution : Execution}
    {event : BatchEvent} (ledger : Ledger batch world) (member : execution ∈ world.executions)
    (unseen : ∀ i, event = .list i → batch.baseSha = none →
      batchCommits batch world.branch ≤ execution.seen)
    (taken : executionStep batch world index execution event = some next) : Ledger batch next := by
  have known := ledger.executions execution member
  cases event with
  | push commit => cases taken
  | start lastAttempt provider author => cases taken
  | recover i =>
    simp only [SpecWrite.executionStep] at taken
    split at taken
    · cases taken
      refine ledger.set id index ?_
      cases found : SpecWrite.recover batch execution.status world.branch with
      | some outcome => exact known.leave rfl
      | none =>
        refine known.list .first ?_
        by_contra seen
        have none := batchCommits_of_recover found (known.marked seen)
        have bound := known.seen_le
        omega
    · cases taken
  | list i =>
    simp only [SpecWrite.executionStep] at taken
    split at taken
    · rename_i attempt head older listing branch
      cases taken
      refine ledger.set id index ?_
      have seen := known.searched (by rw [listing]; rfl)
      rcases attemptAt_cases batch attempt head.sha with ⟨outcome, -, refused⟩ | ⟨base, marking⟩
      · rw [refused]
        exact known.leave rfl
      · rw [marking]
        have none : batchCommits batch world.branch = 0 := by
          cases isBase : batch.baseSha with
          | none =>
            have := unseen i rfl isBase
            omega
          | some sha =>
            by_contra some
            have below := ledger.based sha isBase some
            have distinct := ledger.distinct
            rw [base sha isBase, branch, List.tail_cons] at below
            rw [branch, List.map_cons, List.nodup_cons] at distinct
            exact distinct.1 below
        exact ⟨known.seen_le, known.marked, fun _ => seen, fun other target => by
          cases target
          exact ⟨base, [], world.branch, rfl, by simp [branch], none⟩,
          fun _ _ written => by cases written⟩
    · cases taken
  | markCommitting i =>
    simp only [SpecWrite.executionStep] at taken
    split at taken
    · rename_i attempt head marking
      cases taken
      have advanced : world.row.markCommitting.status ≠ .queued := by
        unfold BatchRow.markCommitting
        split
        · exact BatchStatus.noConfusion
        · assumption
      refine ledger.set (fun _ => advanced) index ?_
      have planned := known.planned head (by rw [marking]; rfl)
      exact ⟨known.seen_le, known.marked, fun _ => known.searched (by rw [marking]; rfl),
        fun other target => by
          cases target
          exact planned,
        fun _ _ _ => advanced⟩
    · cases taken
  | writeCommit i sha lost =>
    simp only [SpecWrite.executionStep] at taken
    split at taken
    · rename_i attempt head writing
      split at taken
      · rename_i current
        obtain ⟨committed, written, rfl⟩ := Option.map_eq_some_iff.mp taken
        refine ledger.write member writing current written ?_
        rw [afterError_unavailable]
        split_ifs <;> rfl
      · cases taken
        have kept := known.error .staleSha
        rw [writing] at kept
        exact ledger.set id index kept
    · cases taken
  | fail i error =>
    simp only [SpecWrite.executionStep] at taken
    split at taken
    · cases taken
    · cases taken
    · cases taken
      exact ledger.set id index (known.error error)
  | settle i =>
    simp only [SpecWrite.executionStep] at taken
    split at taken
    · rename_i outcome settling
      cases taken
      have advanced : world.row.status ≠ .queued → (world.row.settle outcome).status ≠ .queued := by
        intro notQueued
        unfold BatchRow.settle
        split
        · cases outcome <;> exact BatchStatus.noConfusion
        · exact notQueued
      exact ledger.set advanced index ((known.leave rfl).mono (List.suffix_refl _) advanced)
    · cases taken
  | crash i =>
    cases taken
    exact ledger.set id index (known.leave rfl)

/-- **A step that meets the condition keeps the ledger.** -/
theorem Ledger.step {world next : World} {event : BatchEvent} (ledger : Ledger batch world)
    (allowed : ReadsBeforeCommits batch world event) (taken : batchStep batch world event = some next) :
    Ledger batch next := by
  unfold batchStep at taken
  split at taken
  · exact ledger.push allowed taken
  · split at taken
    · rename_i open_
      cases taken
      exact ledger.start _ _ _ open_
    · cases taken
      exact ledger
  · rename_i event _ _
    obtain ⟨index, about, taken⟩ := Option.bind_eq_some_iff.mp taken
    obtain ⟨execution, found, taken⟩ := Option.bind_eq_some_iff.mp taken
    refine ledger.executionStep (List.mem_of_getElem? found) ?_ taken
    rintro i rfl unknown
    cases about
    exact allowed unknown execution found

theorem World.Submitted.ledger {world : World} (submitted : world.Submitted batch) :
    Ledger batch world where
  distinct := submitted.distinct
  once := submitted.unused.trans_le (Nat.zero_le _)
  marked some := absurd submitted.unused some
  based _ _ some := absurd submitted.unused some
  executions execution member := by
    rw [submitted.executions] at member
    cases member

/-! ## Every run -/

/-- **The branch has at most one commit of a batch**, in every run of its
executions whose reads of the head meet the condition. -/
theorem batch_committed_at_most_once {start world : World} {events : List BatchEvent}
    (submitted : start.Submitted batch)
    (along : Along (batchStep batch) (ReadsBeforeCommits batch) start events)
    (reached : run (batchStep batch) start events = some world) :
    batchCommits batch world.branch ≤ 1 :=
  (run_invariant_along (fun _ _ _ ledger allowed taken => Ledger.step ledger allowed taken)
    submitted.ledger along reached).once

/-- A batch of one update, submitted without base. -/
def updateBatch : Batch where
  id := ⟨Text.lit "11111111-1111-4111-8111-111111111111", by decide⟩
  baseSha := none
  message := none
  operations := [⟨.featureUpdate, some (Text.lit "F-001")⟩]
  intact := true
  plan := fun _ => .changes

/-- A branch of one commit, and the batch just submitted. -/
def submittedWorld : World :=
  ⟨[⟨Text.lit "a", Text.lit "init"⟩], ⟨.queued, none, none⟩, []⟩

theorem submittedWorld_submitted : submittedWorld.Submitted updateBatch :=
  ⟨rfl, rfl, by decide, by decide⟩

/-- A first execution commits and stops before it settles the batch. -/
def committedThenCrashed : List BatchEvent :=
  [.start false true none, .recover 0, .list 0, .markCommitting 0, .writeCommit 0 (Text.lit "b") false,
    .crash 0]

/-- A retry after a crash finds the commit of the batch. -/
theorem batch_committed_at_most_once_retry :
    ∃ world, run (batchStep updateBatch) submittedWorld
        (committedThenCrashed ++ [.start false true none, .recover 1, .settle 1]) = some world ∧
      world.row.status = .committed ∧ batchCommits updateBatch world.branch ≤ 1 := by
  have along : Along (batchStep updateBatch) (ReadsBeforeCommits updateBatch) submittedWorld
      (committedThenCrashed ++ [.start false true none, .recover 1, .settle 1]) := by
    refine .of_step rfl trivial (.of_step rfl trivial (.of_step rfl ?_ (.of_step rfl trivial
      (.of_step rfl trivial (.of_step rfl trivial (.of_step rfl trivial (.of_step rfl trivial
        (.of_step rfl trivial trivial))))))))
    intro _ execution found
    cases found
    decide
  exact ⟨_, rfl, by decide, batch_committed_at_most_once submittedWorld_submitted along rfl⟩

/-- **Two executions that overlap commit the batch twice**: the second one looks
for the trailer before the first one commits, and reads the head after. -/
theorem batch_committed_twice :
    submittedWorld.Submitted updateBatch ∧
      ∃ world, run (batchStep updateBatch) submittedWorld
          [.start false true none, .recover 0, .list 0, .markCommitting 0, .start false true none,
            .recover 1, .writeCommit 0 (Text.lit "b") false, .list 1, .markCommitting 1,
            .writeCommit 1 (Text.lit "c") false] = some world ∧
        batchCommits updateBatch world.branch = 2 :=
  ⟨submittedWorld_submitted, _, rfl, by decide⟩

end Koklo.SpecWrite
