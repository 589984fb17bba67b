import Koklo.SpecWrite.AtMostOnce

/-!
# The settled status of a batch and the branch

A batch settled `committed` records the sha of a commit that carries its trailer,
in every run (`Recorded`).

A batch settled `failed` or `conflict` has no commit on the branch when each
refusal comes from an execution that knows it (`Refused`): it loaded the batch
before any commit of it, or it looked through the history up to the commits of
the batch. The one refusal by which an execution says that it does not know is
`INTERNAL`, when the window of its recovery is full; the commit may then be
further down. The last attempt also refuses the batch when the answer of its
commit is lost, and an execution when another one has committed since it looked
(`batch_failed_with_commit`).
-/

set_option autoImplicit false

namespace Koklo.SpecWrite

open Koklo.Foundations

variable {batch : Batch}

/-! ## What a committed batch records -/

/-- A commit of the branch that carries the trailer of the batch. -/
def IsBatchCommit (batch : Batch) (branch : List Commit) (sha : Sha) : Prop :=
  ∃ commit ∈ branch, commit.sha = sha ∧ carriesTrailer batch commit = true

theorem IsBatchCommit.mono {branch branch' : List Commit} {sha : Sha}
    (isCommit : IsBatchCommit batch branch sha) (sub : branch ⊆ branch') :
    IsBatchCommit batch branch' sha := by
  obtain ⟨commit, member, same, carries⟩ := isCommit
  exact ⟨commit, sub member, same, carries⟩

/-- The row of a committed batch, and every execution about to settle it so, name
a commit of the batch. -/
structure Recorded (batch : Batch) (world : World) : Prop where
  row : world.row.status = .committed →
    ∃ sha, world.row.commitSha = some sha ∧ IsBatchCommit batch world.branch sha
  executions : ∀ execution ∈ world.executions, ∀ sha,
    execution.phase = .settling (.committed sha) → IsBatchCommit batch world.branch sha

/-- Changing one execution and growing the branch keeps what is recorded. -/
theorem Recorded.set {world : World} (recorded : Recorded batch world) {branch : List Commit}
    (sub : world.branch ⊆ branch) (index : ℕ) {execution : Execution}
    (known : ∀ sha, execution.phase = .settling (.committed sha) → IsBatchCommit batch branch sha) :
    Recorded batch ⟨branch, world.row, world.executions.set index execution⟩ where
  row status := by
    obtain ⟨sha, named, isCommit⟩ := recorded.row status
    exact ⟨sha, named, isCommit.mono sub⟩
  executions other member sha settling := by
    rcases List.mem_or_eq_of_mem_set member with old | rfl
    · exact (recorded.executions other old sha settling).mono sub
    · exact known sha settling

/-- An error never settles a batch as committed. -/
theorem afterError_ne_committed (lastAttempt : Bool) (attempt : Option Attempt) (error : GitError)
    (sha : Sha) : afterError lastAttempt attempt error ≠ .settling (.committed sha) := by
  intro settling
  rcases afterError_cases lastAttempt attempt error with ⟨-, again⟩ | ⟨outcome, refusal, refused⟩ |
    stopped
  · rw [settling] at again
    cases again
  · rw [settling] at refused
    cases refused
    cases refusal
  · rw [settling] at stopped
    cases stopped

theorem attemptAt_ne_committed (batch : Batch) (attempt : Attempt) (head sha : Sha) :
    attemptAt batch attempt head ≠ .settling (.committed sha) := by
  intro settling
  rcases attemptAt_cases batch attempt head with ⟨outcome, refusal, refused⟩ | ⟨-, marking⟩
  · rw [settling] at refused
    cases refused
    cases refusal
  · rw [settling] at marking
    cases marking

theorem commit_branch {world committed : World} {commit : Commit}
    (written : world.commit commit = some committed) :
    committed = { world with branch := commit :: world.branch } := by
  unfold World.commit at written
  split at written
  · cases written
  · exact (Option.some.inj written).symm

/-- **A step of one execution keeps what is recorded.** -/
theorem Recorded.executionStep {world next : World} {index : ℕ} {execution : Execution}
    {event : BatchEvent} (recorded : Recorded batch world) (member : execution ∈ world.executions)
    (taken : executionStep batch world index execution event = some next) :
    Recorded batch next := by
  cases event with
  | push commit => cases taken
  | start lastAttempt provider author => cases taken
  | recover i =>
    simp only [SpecWrite.executionStep] at taken
    split at taken
    · cases taken
      refine recorded.set (List.Subset.refl _) index fun sha settling => ?_
      cases found : SpecWrite.recover batch execution.status world.branch with
      | none => simp [found] at settling
      | some outcome =>
        simp only [found, Option.map_some, Option.getD_some, Phase.settling.injEq] at settling
        rw [settling] at found
        exact recover_committed found
    · cases taken
  | list i =>
    simp only [SpecWrite.executionStep] at taken
    split at taken
    · cases taken
      exact recorded.set (List.Subset.refl _) index fun sha settling =>
        (attemptAt_ne_committed batch _ _ sha settling).elim
    · cases taken
  | markCommitting i =>
    simp only [SpecWrite.executionStep] at taken
    split at taken
    · cases taken
      have advanced : Recorded batch { world with row := world.row.markCommitting } := by
        refine ⟨fun status => ?_, recorded.executions⟩
        simp only [BatchRow.markCommitting] at status ⊢
        split at status
        · cases status
        · rename_i taken_
          rw [if_neg taken_]
          exact recorded.row status
      exact advanced.set (List.Subset.refl _) index fun sha settling => by cases settling
    · cases taken
  | writeCommit i sha lost =>
    simp only [SpecWrite.executionStep] at taken
    split at taken
    · split at taken
      · obtain ⟨committed, written, rfl⟩ := Option.map_eq_some_iff.mp taken
        rw [commit_branch written]
        refine recorded.set (List.subset_cons_self _ _) index fun other settling => ?_
        cases lost with
        | true => exact (afterError_ne_committed _ _ _ other settling).elim
        | false =>
          cases settling
          exact ⟨_, List.mem_cons_self, rfl, carriesTrailer_messageOf batch sha execution.author⟩
      · cases taken
        exact recorded.set (List.Subset.refl _) index fun other settling =>
          (afterError_ne_committed execution.lastAttempt _ .staleSha other settling).elim
    · cases taken
  | fail i error =>
    simp only [SpecWrite.executionStep] at taken
    split at taken
    · cases taken
    · cases taken
    · cases taken
      exact recorded.set (List.Subset.refl _) index fun sha settling =>
        (afterError_ne_committed _ _ _ sha settling).elim
  | settle i =>
    simp only [SpecWrite.executionStep] at taken
    split at taken
    · rename_i outcome settling
      cases taken
      have settled : Recorded batch { world with row := world.row.settle outcome } := by
        refine ⟨fun status => ?_, recorded.executions⟩
        simp only [BatchRow.settle] at status ⊢
        split at status
        · rename_i open_
          rw [if_pos open_]
          cases outcome with
          | committed sha => exact ⟨sha, rfl, recorded.executions execution member sha settling⟩
          | failed code => cases status
          | conflict code => cases status
        · rename_i closed
          rw [if_neg closed]
          exact recorded.row status
      exact settled.set (List.Subset.refl _) index fun sha settling => by cases settling
    · cases taken
  | crash i =>
    cases taken
    exact recorded.set (List.Subset.refl _) index fun sha settling => by cases settling

/-- **Every step keeps what is recorded.** -/
theorem Recorded.step {world next : World} {event : BatchEvent} (recorded : Recorded batch world)
    (taken : batchStep batch world event = some next) : Recorded batch next := by
  unfold batchStep at taken
  split at taken
  · rw [commit_branch taken]
    refine ⟨fun status => ?_, fun execution member sha settling => ?_⟩
    · obtain ⟨sha, named, isCommit⟩ := recorded.row status
      exact ⟨sha, named, isCommit.mono (List.subset_cons_self _ _)⟩
    · exact (recorded.executions execution member sha settling).mono (List.subset_cons_self _ _)
  · split at taken
    · cases taken
      refine ⟨recorded.row, fun execution member sha settling => ?_⟩
      rcases List.mem_append.mp member with old | new
      · exact recorded.executions execution old sha settling
      · rw [List.mem_singleton.mp new] at settling
        simp only [startPhase] at settling
        split_ifs at settling <;> cases settling
    · cases taken
      exact recorded
  · obtain ⟨index, -, taken⟩ := Option.bind_eq_some_iff.mp taken
    obtain ⟨execution, found, taken⟩ := Option.bind_eq_some_iff.mp taken
    exact recorded.executionStep (List.mem_of_getElem? found) taken

theorem World.Submitted.recorded {world : World} (submitted : world.Submitted batch) :
    Recorded batch world where
  row status := by
    rw [submitted.row] at status
    cases status
  executions execution member := by
    rw [submitted.executions] at member
    cases member

/-! ## What a refused batch knows -/

/-- The refusal by which an execution says that it does not know. -/
def SaysUnknown (branch : List Commit) (outcome : Outcome) : Prop :=
  outcome = .failed .internal ∧ recoveryWindow ≤ branch.length

/-- A refusal is right, or it says that it does not know, where a recovery may be cut off before the
commit of the batch. -/
def RefusalHolds (cut : Prop) (batch : Batch) (branch : List Commit) (outcome : Outcome) : Prop :=
  batchCommits batch branch = 0 ∨ cut ∧ SaysUnknown branch outcome

/-- What is known of an execution: past its recovery, or when it loaded the batch
queued, no commit of the batch is on the branch. -/
structure ExecutionRefuses (cut : Prop) (batch : Batch) (branch : List Commit) (row : BatchRow)
    (execution : Execution) : Prop where
  loaded : execution.phase = .recovering → execution.status ≠ .committing →
    batchCommits batch branch = 0
  searched : execution.phase.searched = true → batchCommits batch branch = 0
  intact : execution.phase = .recovering ∨ execution.phase.searched = true → batch.intact = true
  writing : ∀ attempt head, execution.phase = .writing attempt head → row.status ≠ .queued
  settling : ∀ outcome, execution.phase = .settling outcome → outcome.isCommitted = false →
    RefusalHolds cut batch branch outcome

/-- The outcome that a refused row records. -/
def BatchRow.Refuses (row : BatchRow) (outcome : Outcome) : Prop :=
  (∃ code, outcome = .failed code ∧ row.status = .failed ∧ row.errorCode = some code) ∨
    (∃ code, outcome = .conflict code ∧ row.status = .conflict ∧ row.errorCode = some code)

/-- What is known of a batch that is queued or refused, and of its executions. -/
structure Refused (cut : Prop) (batch : Batch) (world : World) : Prop where
  queued : world.row.status = .queued → batchCommits batch world.branch = 0
  row : world.row.status = .failed ∨ world.row.status = .conflict →
    ∃ outcome, world.row.Refuses outcome ∧ RefusalHolds cut batch world.branch outcome
  intact : batch.intact = false → batchCommits batch world.branch = 0
  executions : ∀ execution ∈ world.executions,
    ExecutionRefuses cut batch world.branch world.row execution

/-- What the theorem asks of each step. No other party forges the trailer of the batch.
A commit is made while no other execution runs and the batch is open, and its
answer is not lost on the last attempt. An execution that loads the batch once it
was taken has a provider, and gets through its recovery or is tried again. -/
def SettlesWhatItKnows (batch : Batch) (world : World) : BatchEvent → Prop
  | .push commit => carriesTrailer batch commit = false
  | .start _ provider _ => world.row.status = .committing → provider = true
  | .writeCommit index _ lost =>
    ∀ execution attempt head, world.executions[index]? = some execution →
      execution.phase = .writing attempt head →
      world.branch.head?.map Commit.sha = some head →
        world.row.status.isOpen = true ∧ (lost = true → execution.lastAttempt = false) ∧
          ∀ i other, i ≠ index → world.executions[i]? = some other → other.phase = .ended
  | .fail index error =>
    ∀ execution, world.executions[index]? = some execution → execution.phase = .recovering →
      execution.status = .committing →
        (∃ code, classify error = .retry code) ∧ execution.lastAttempt = false
  | _ => True

/-- A recovery of a batch that was taken lists the commits of the batch, if there are any: none is
further down than its window. -/
def LooksFarEnough (batch : Batch) (world : World) : BatchEvent → Prop
  | .recover index => ∀ execution, world.executions[index]? = some execution →
      execution.status = .committing → batchCommits batch (world.branch.drop recoveryWindow) = 0
  | _ => True

variable {cut : Prop}

theorem SaysUnknown.mono {branch branch' : List Commit} {outcome : Outcome}
    (unknown : SaysUnknown branch outcome) (longer : branch.length ≤ branch'.length) :
    SaysUnknown branch' outcome := ⟨unknown.1, unknown.2.trans longer⟩

/-- What an execution knows stays true when foreign commits arrive and the row advances. -/
theorem ExecutionRefuses.mono {branch branch' : List Commit} {row row' : BatchRow}
    {execution : Execution} (refuses : ExecutionRefuses cut batch branch row execution)
    (same : batchCommits batch branch' = batchCommits batch branch)
    (longer : branch.length ≤ branch'.length)
    (advanced : row.status ≠ .queued → row'.status ≠ .queued) :
    ExecutionRefuses cut batch branch' row' execution where
  loaded phase status := same.trans (refuses.loaded phase status)
  searched phase := same.trans (refuses.searched phase)
  intact := refuses.intact
  writing attempt head phase := advanced (refuses.writing attempt head phase)
  settling outcome phase refusal := by
    rcases refuses.settling outcome phase refusal with none | unknown
    · exact .inl (same.trans none)
    · exact .inr ⟨unknown.1, unknown.2.mono longer⟩

section Phases

variable {branch : List Commit} {row : BatchRow} (execution : Execution)

theorem executionRefuses_ended :
    ExecutionRefuses cut batch branch row { execution with phase := .ended } where
  loaded phase := by cases phase
  searched phase := by cases phase
  intact phase := by rcases phase with phase | phase <;> cases phase
  writing _ _ phase := by cases phase
  settling _ phase := by cases phase

theorem executionRefuses_settling {outcome : Outcome}
    (holds : outcome.isCommitted = false → RefusalHolds cut batch branch outcome) :
    ExecutionRefuses cut batch branch row { execution with phase := .settling outcome } where
  loaded phase := by cases phase
  searched phase := by cases phase
  intact phase := by rcases phase with phase | phase <;> cases phase
  writing _ _ phase := by cases phase
  settling _ phase refusal := by
    cases phase
    exact holds refusal

/-- An execution that looks for the commit of the batch, and loaded the batch queued
only when there is none. -/
theorem executionRefuses_recovering
    (loaded : execution.status ≠ .committing → batchCommits batch branch = 0)
    (intact : batch.intact = true) :
    ExecutionRefuses cut batch branch row { execution with phase := .recovering } where
  loaded _ := loaded
  searched phase := by cases phase
  intact _ := intact
  writing _ _ phase := by cases phase
  settling _ phase := by cases phase

/-- An execution past its recovery has no commit of the batch before it. -/
theorem executionRefuses_searched {phase : Phase} (searched : phase.searched = true)
    (none : batchCommits batch branch = 0) (intact : batch.intact = true)
    (writing : ∀ attempt head, phase = .writing attempt head → row.status ≠ .queued) :
    ExecutionRefuses cut batch branch row { execution with phase } where
  loaded _ _ := none
  searched _ := none
  intact _ := intact
  writing := writing
  settling outcome settling := by
    simp only at settling
    rw [settling] at searched
    cases searched

/-- Where an error leaves an execution that knows there is no commit of the batch. -/
theorem executionRefuses_error (lastAttempt : Bool) (attempt : Option Attempt) (error : GitError)
    (none : batchCommits batch branch = 0) (intact : batch.intact = true) :
    ExecutionRefuses cut batch branch row
      { execution with phase := afterError lastAttempt attempt error } := by
  rcases afterError_cases lastAttempt attempt error with ⟨-, again⟩ | ⟨outcome, -, refused⟩ | stopped
  · rw [again]
    exact executionRefuses_searched execution rfl none intact fun _ _ phase => by cases phase
  · rw [refused]
    exact executionRefuses_settling execution fun _ => .inl none
  · rw [stopped]
    exact executionRefuses_ended execution

end Phases

/-! ## Steps of a refused batch -/

/-- Changing one execution keeps the refusals right. -/
theorem Refused.set {world : World} (refused : Refused cut batch world) (index : ℕ)
    {execution : Execution}
    (known : ExecutionRefuses cut batch world.branch world.row execution) :
    Refused cut batch { world with executions := world.executions.set index execution } where
  queued := refused.queued
  row := refused.row
  intact := refused.intact
  executions other member := by
    rcases List.mem_or_eq_of_mem_set member with old | rfl
    · exact refused.executions other old
    · exact known

theorem Refused.push {world next : World} {commit : Commit} (refused : Refused cut batch world)
    (foreign : carriesTrailer batch commit = false) (pushed : world.commit commit = some next) :
    Refused cut batch next := by
  have same : batchCommits batch (commit :: world.branch) = batchCommits batch world.branch := by
    rw [batchCommits_cons, foreign]
    rfl
  have longer : world.branch.length ≤ (commit :: world.branch).length := Nat.le_succ _
  rw [commit_branch pushed]
  constructor
  case queued => exact fun status => same.trans (refused.queued status)
  case row =>
    intro status
    obtain ⟨outcome, recorded, none | unknown⟩ := refused.row status
    · exact ⟨outcome, recorded, .inl (same.trans none)⟩
    · exact ⟨outcome, recorded, .inr ⟨unknown.1, unknown.2.mono longer⟩⟩
  case intact => exact fun broken => same.trans (refused.intact broken)
  case executions =>
    intro execution member
    exact (refused.executions execution member).mono same longer id

theorem Refused.start {world : World} (refused : Refused cut batch world) (lastAttempt provider : Bool)
    (author : Option BatchAuthor) (open_ : world.row.status.isOpen = true)
    (configured : world.row.status = .committing → provider = true) :
    Refused cut batch { world with
      executions := world.executions ++
        [⟨world.row.status, author, lastAttempt, batchCommits batch world.branch,
          startPhase batch provider⟩] } where
  queued := refused.queued
  row := refused.row
  intact := refused.intact
  executions execution member := by
    rcases List.mem_append.mp member with old | new
    · exact refused.executions execution old
    · rw [List.mem_singleton.mp new]
      have fresh : world.row.status ≠ .committing → batchCommits batch world.branch = 0 := by
        intro notTaken
        apply refused.queued
        cases status : world.row.status <;> rw [status] at open_ notTaken <;>
          first | rfl | exact absurd rfl notTaken | cases open_
      by_cases intact : batch.intact = true
      · by_cases provided : provider = true
        · have first : startPhase batch provider = .recovering := by
            simp [startPhase, intact, provided]
          rw [first]
          exact executionRefuses_recovering ⟨world.row.status, author, lastAttempt,
            batchCommits batch world.branch, .ended⟩ fresh intact
        · have first : startPhase batch provider = .settling (.failed .providerUnavailable) := by
            simp [startPhase, intact, provided]
          rw [first]
          exact executionRefuses_settling ⟨world.row.status, author, lastAttempt,
            batchCommits batch world.branch, .ended⟩ fun _ => .inl (fresh (mt configured provided))
      · have first : startPhase batch provider = .settling (.failed .internal) := by
          simp [startPhase, intact]
        rw [first]
        exact executionRefuses_settling ⟨world.row.status, author, lastAttempt,
          batchCommits batch world.branch, .ended⟩
            fun _ => .inl (refused.intact (Bool.eq_false_iff.mpr intact))

/-- What the recovery knows: it found a commit, gave up on a full window, or there
is no commit of the batch. -/
theorem ExecutionRefuses.recover {branch : List Commit} {row : BatchRow} {execution : Execution}
    (refuses : ExecutionRefuses cut batch branch row execution)
    (recovering : execution.phase = .recovering)
    (far : cut ∨ (execution.status = .committing →
      batchCommits batch (branch.drop recoveryWindow) = 0)) :
    ExecutionRefuses cut batch branch row { execution with
      phase := ((SpecWrite.recover batch execution.status branch).map Phase.settling).getD
        (.listing .first) } := by
  cases found : SpecWrite.recover batch execution.status branch with
  | none =>
    have none : batchCommits batch branch = 0 := by
      by_cases taken : execution.status = .committing
      · exact batchCommits_of_recover found taken
      · exact refuses.loaded recovering taken
    exact executionRefuses_searched execution rfl none (refuses.intact (.inl recovering))
      fun _ _ phase => by cases phase
  | some outcome =>
    refine executionRefuses_settling execution fun refusal => ?_
    unfold SpecWrite.recover at found
    simp only at found
    split at found
    · cases found
      cases refusal
    · rename_i absent
      split at found
      · rename_i full
        cases found
        rcases far with cut_ | seen
        · refine .inr ⟨cut_, rfl, ?_⟩
          have := full.2
          rw [List.length_take] at this
          omega
        · -- Neither the commits that are listed nor those further down are of the batch.
          refine .inl ?_
          have listed : batchCommits batch (branch.take recoveryWindow) = 0 :=
            List.countP_eq_zero.mpr (List.find?_eq_none.mp absent)
          rw [← List.take_append_drop recoveryWindow branch, batchCommits, List.countP_append]
          exact Nat.add_eq_zero_iff.mpr ⟨listed, seen full.1⟩
      · cases found

/-- A new row of the batch keeps the refusals right when it is itself a right one. -/
theorem Refused.setRow {world : World} (refused : Refused cut batch world) {row : BatchRow}
    (advanced : row.status ≠ .queued)
    (holds : row.status = .failed ∨ row.status = .conflict →
      ∃ outcome, row.Refuses outcome ∧ RefusalHolds cut batch world.branch outcome) :
    Refused cut batch { world with row := row } where
  queued status := absurd status advanced
  row := holds
  intact := refused.intact
  executions execution member :=
    (refused.executions execution member).mono rfl le_rfl fun _ => advanced

theorem markCommitting_status (row : BatchRow) : row.markCommitting.status ≠ .queued := by
  unfold BatchRow.markCommitting
  split
  · exact BatchStatus.noConfusion
  · assumption

/-- Marking a batch refuses nothing. -/
theorem Refused.markCommitting {world : World} (refused : Refused cut batch world) :
    Refused cut batch { world with row := world.row.markCommitting } := by
  refine refused.setRow (markCommitting_status world.row) fun status => ?_
  unfold BatchRow.markCommitting at status ⊢
  split
  · rename_i queued
    rw [if_pos queued] at status
    rcases status with status | status <;> cases status
  · rename_i taken
    rw [if_neg taken] at status
    exact refused.row status

/-- **A settled refusal is as right as the execution that settles it.** -/
theorem Refused.settle {world : World} (refused : Refused cut batch world) {outcome : Outcome}
    (holds : outcome.isCommitted = false → RefusalHolds cut batch world.branch outcome) :
    Refused cut batch { world with row := world.row.settle outcome } := by
  by_cases open_ : world.row.status.isOpen = true
  · cases outcome with
    | committed sha =>
      simp only [BatchRow.settle, if_pos open_]
      refine refused.setRow BatchStatus.noConfusion fun status => ?_
      rcases status with status | status <;> cases status
    | failed code =>
      simp only [BatchRow.settle, if_pos open_]
      exact refused.setRow BatchStatus.noConfusion fun _ =>
        ⟨.failed code, .inl ⟨code, rfl, rfl, rfl⟩, holds rfl⟩
    | conflict code =>
      simp only [BatchRow.settle, if_pos open_]
      exact refused.setRow BatchStatus.noConfusion fun _ =>
        ⟨.conflict code, .inr ⟨code, rfl, rfl, rfl⟩, holds rfl⟩
  · have same : world.row.settle outcome = world.row := if_neg open_
    rw [same]
    exact refused

/-- A transient failure before the last attempt ends the job. -/
theorem afterError_retry {error : GitError} {code : ErrorCode} (transient : classify error = .retry code)
    (attempt : Option Attempt) : afterError false attempt error = .ended := by
  cases error <;> cases transient <;> simp [afterError, GitError.isStaleHead, classify]

/-- A commit of an execution, while no other one runs and the batch is open. -/
theorem Refused.write {world committed : World} (refused : Refused cut batch world) {index : ℕ}
    {execution : Execution} (found : world.executions[index]? = some execution)
    {attempt : Attempt} {head sha : Sha} (writing : execution.phase = .writing attempt head)
    (written : world.commit ⟨sha, messageOf batch execution.author⟩ = some committed)
    (open_ : world.row.status.isOpen = true)
    (alone : ∀ i other, i ≠ index → world.executions[i]? = some other → other.phase = .ended)
    {phase : Phase} (quiet : phase = .ended ∨ ∃ sha, phase = .settling (.committed sha)) :
    Refused cut batch (committed.setPhase index execution phase) := by
  have known := refused.executions execution (List.mem_of_getElem? found)
  have taken := known.writing attempt head writing
  rw [commit_branch written]
  constructor
  case queued => exact fun status => absurd status taken
  case row =>
    intro status
    simp only [World.setPhase] at status
    rcases status with status | status <;> rw [status] at open_ <;> cases open_
  case intact =>
    intro broken
    rw [known.intact (.inr (by rw [writing]; rfl))] at broken
    cases broken
  case executions =>
    intro other member
    obtain ⟨i, inside⟩ := List.mem_iff_getElem?.mp member
    by_cases same : i = index
    · subst same
      have bound := (List.getElem?_eq_some_iff.mp found).1
      simp only [World.setPhase, List.getElem?_set_self bound, Option.some.injEq] at inside
      subst inside
      rcases quiet with rfl | ⟨sha', rfl⟩
      · exact executionRefuses_ended execution
      · exact executionRefuses_settling execution fun refusal => by cases refusal
    · simp only [World.setPhase] at inside
      rw [List.getElem?_set_ne (Ne.symm same)] at inside
      have ended := alone i other same inside
      have quietOther : ExecutionRefuses cut batch (⟨sha, messageOf batch execution.author⟩ :: world.branch)
          world.row { other with phase := .ended } := executionRefuses_ended other
      rwa [← ended] at quietOther

/-- **A step of one execution keeps the refusals right**, when it meets the condition. -/
theorem Refused.executionStep {world next : World} {index : ℕ} {execution : Execution}
    {event : BatchEvent} (refused : Refused cut batch world)
    (found : world.executions[index]? = some execution) (about : event.execution = some index)
    (allowed : SettlesWhatItKnows batch world event)
    (far : cut ∨ LooksFarEnough batch world event)
    (taken : executionStep batch world index execution event = some next) :
    Refused cut batch next := by
  have known := refused.executions execution (List.mem_of_getElem? found)
  cases event with
  | push commit => cases taken
  | start lastAttempt provider author => cases taken
  | recover i =>
    cases about
    simp only [SpecWrite.executionStep] at taken
    split at taken
    · rename_i recovering
      cases taken
      exact refused.set index (known.recover recovering (far.imp_right fun looks =>
        looks execution found))
    · cases taken
  | list i =>
    simp only [SpecWrite.executionStep] at taken
    split at taken
    · rename_i attempt head older listing branch
      cases taken
      have none := known.searched (by rw [listing]; rfl)
      refine refused.set index ?_
      rcases attemptAt_cases batch attempt head.sha with ⟨outcome, -, refusal⟩ | ⟨-, marking⟩
      · rw [refusal]
        exact executionRefuses_settling execution fun _ => .inl none
      · rw [marking]
        exact executionRefuses_searched execution rfl none
          (known.intact (.inr (by rw [listing]; rfl))) fun _ _ phase => by cases phase
    · cases taken
  | markCommitting i =>
    simp only [SpecWrite.executionStep] at taken
    split at taken
    · rename_i attempt head marking
      cases taken
      exact refused.markCommitting.set index (executionRefuses_searched execution rfl
        (known.searched (by rw [marking]; rfl)) (known.intact (.inr (by rw [marking]; rfl)))
        fun _ _ _ => markCommitting_status world.row)
    · cases taken
  | writeCommit i sha lost =>
    cases about
    simp only [SpecWrite.executionStep] at taken
    split at taken
    · rename_i attempt head writing
      split at taken
      · rename_i current
        obtain ⟨committed, written, rfl⟩ := Option.map_eq_some_iff.mp taken
        obtain ⟨open_, notLast, alone⟩ := allowed execution attempt head found writing current
        refine refused.write found writing written open_ alone ?_
        cases lost with
        | true =>
          rw [if_pos rfl, afterError_unavailable, notLast rfl]
          exact .inl rfl
        | false => exact .inr ⟨sha, rfl⟩
      · cases taken
        exact refused.set index (executionRefuses_error execution _ _ _
          (known.searched (by rw [writing]; rfl)) (known.intact (.inr (by rw [writing]; rfl))))
    · cases taken
  | fail i error =>
    cases about
    simp only [SpecWrite.executionStep] at taken
    split at taken
    · cases taken
    · cases taken
    · rename_i notSettling notEnded
      cases taken
      refine refused.set index ?_
      by_cases recovering : execution.phase = .recovering
      · by_cases committing : execution.status = .committing
        · obtain ⟨⟨code, transient⟩, notLast⟩ := allowed execution found recovering committing
          have stopped : afterError execution.lastAttempt execution.phase.attempt error = .ended := by
            rw [notLast]
            exact afterError_retry transient _
          rw [stopped]
          exact executionRefuses_ended execution
        · exact executionRefuses_error execution _ _ _ (known.loaded recovering committing)
            (known.intact (.inl recovering))
      · have searched : execution.phase.searched = true := by
          cases phase : execution.phase with
          | recovering => exact absurd phase recovering
          | settling outcome => exact absurd phase (notSettling outcome)
          | ended => exact absurd phase notEnded
          | listing | marking | writing => rfl
        exact executionRefuses_error execution _ _ _ (known.searched searched)
          (known.intact (.inr searched))
  | settle i =>
    simp only [SpecWrite.executionStep] at taken
    split at taken
    · rename_i outcome settling
      cases taken
      exact (refused.settle (known.settling outcome settling)).set index
        (executionRefuses_ended execution)
    · cases taken
  | crash i =>
    cases taken
    exact refused.set index (executionRefuses_ended execution)

/-- **A step that meets the condition keeps the refusals right.** -/
theorem Refused.step {world next : World} {event : BatchEvent} (refused : Refused cut batch world)
    (allowed : SettlesWhatItKnows batch world event)
    (far : cut ∨ LooksFarEnough batch world event)
    (taken : batchStep batch world event = some next) : Refused cut batch next := by
  unfold batchStep at taken
  split at taken
  · exact refused.push allowed taken
  · split at taken
    · rename_i open_
      cases taken
      exact refused.start _ _ _ open_ allowed
    · cases taken
      exact refused
  · obtain ⟨index, about, taken⟩ := Option.bind_eq_some_iff.mp taken
    obtain ⟨execution, found, taken⟩ := Option.bind_eq_some_iff.mp taken
    exact refused.executionStep found about allowed far taken

theorem World.Submitted.refused {world : World} (submitted : world.Submitted batch) :
    Refused cut batch world where
  queued _ := submitted.unused
  row status := by
    rw [submitted.row] at status
    rcases status with status | status <;> cases status
  intact _ := submitted.unused
  executions execution member := by
    rw [submitted.executions] at member
    cases member

/-! ## Every run -/

/-- What a step has to meet for a refused batch to have no commit. -/
def SettlesWhatItSees (batch : Batch) (world : World) (event : BatchEvent) : Prop :=
  SettlesWhatItKnows batch world event ∧ LooksFarEnough batch world event

/-- **The settled status of a batch agrees with the branch.** In every run, a
committed batch records the sha of a commit that carries its trailer. In a run
whose steps meet the condition, a refused batch has no commit on the branch. When
recoveries may be cut off before the commit of the batch, the one exception is a
batch that failed with `INTERNAL` on a branch as long as the window. -/
theorem batch_status_agrees {start world : World} {events : List BatchEvent}
    (submitted : start.Submitted batch) (reached : run (batchStep batch) start events = some world) :
    (world.row.status = .committed → ∃ sha, world.row.commitSha = some sha ∧
      ∃ commit ∈ world.branch, commit.sha = sha ∧ carriesTrailer batch commit = true) ∧
    (Along (batchStep batch) (SettlesWhatItSees batch) start events →
      world.row.status = .failed ∨ world.row.status = .conflict →
        batchCommits batch world.branch = 0) ∧
    (Along (batchStep batch) (SettlesWhatItKnows batch) start events →
      world.row.status = .failed ∨ world.row.status = .conflict →
        batchCommits batch world.branch = 0 ∨
          (world.row.status = .failed ∧ world.row.errorCode = some .internal ∧
            recoveryWindow ≤ world.branch.length)) := by
  have recorded : Recorded batch world :=
    run_invariant (fun _ _ _ recorded taken => Recorded.step recorded taken) submitted.recorded reached
  refine ⟨recorded.row, fun along status => ?_, fun along status => ?_⟩
  · have refused : Refused False batch world :=
      run_invariant_along (fun _ _ _ refused allowed taken =>
        Refused.step refused allowed.1 (.inr allowed.2) taken) submitted.refused along reached
    obtain ⟨outcome, -, none | unknown⟩ := refused.row status
    · exact none
    · exact unknown.1.elim
  · have refused : Refused True batch world :=
      run_invariant_along (fun _ _ _ refused allowed taken =>
        Refused.step refused allowed (.inl trivial) taken) submitted.refused along reached
    obtain ⟨outcome, records, none | unknown⟩ := refused.row status
    · exact .inl none
    · rcases records with ⟨code, rfl, failed, named⟩ | ⟨code, rfl, -⟩
      · cases unknown.2.1
        exact .inr ⟨failed, named, unknown.2.2⟩
      · cases unknown.2.1

/-- A retry that finds its commit. -/
def retriedAfterCrash : List BatchEvent :=
  committedThenCrashed ++ [.start false true none, .recover 1, .settle 1]

/-- A batch that is taken, and whose retry is its last attempt. -/
def unavailableTwice : List BatchEvent :=
  [.start false true none, .recover 0, .list 0, .markCommitting 0, .fail 0 .unavailable,
    .start true true none, .recover 1, .list 1, .markCommitting 1, .fail 1 .unavailable, .settle 1]

/-- A retry that finds its commit settles the batch with the sha of that commit; a batch that the
provider never writes is refused, and has no commit. -/
theorem batch_status_agrees_retry :
    (∃ world, run (batchStep updateBatch) submittedWorld retriedAfterCrash = some world ∧
      ∃ sha, world.row.commitSha = some sha ∧
        ∃ commit ∈ world.branch, commit.sha = sha ∧ carriesTrailer updateBatch commit = true) ∧
    ∃ world, run (batchStep updateBatch) submittedWorld unavailableTwice = some world ∧
      world.row.errorCode = some .providerUnavailable ∧
      batchCommits updateBatch world.branch = 0 := by
  have retried : run (batchStep updateBatch) submittedWorld retriedAfterCrash = some _ := rfl
  have refused : run (batchStep updateBatch) submittedWorld unavailableTwice = some _ := rfl
  have along : Along (batchStep updateBatch) (SettlesWhatItSees updateBatch) submittedWorld
      unavailableTwice := by
    have sees : ∀ world event, SettlesWhatItKnows updateBatch world event →
        batchCommits updateBatch (world.branch.drop recoveryWindow) = 0 →
        SettlesWhatItSees updateBatch world event := by
      intro world event knows far
      refine ⟨knows, ?_⟩
      cases event <;> first | trivial | exact fun _ _ _ => far
    refine .of_step rfl (sees _ _ (fun _ => rfl) rfl) (.of_step rfl (sees _ _ trivial rfl) (.of_step rfl
      (sees _ _ trivial rfl) (.of_step rfl (sees _ _ trivial rfl) (.of_step rfl (sees _ _ ?_ rfl)
      (.of_step rfl (sees _ _ (fun _ => rfl) rfl) (.of_step rfl (sees _ _ trivial rfl) (.of_step rfl
      (sees _ _ trivial rfl) (.of_step rfl (sees _ _ trivial rfl) (.of_step rfl (sees _ _ ?_ rfl)
      (.of_step rfl (sees _ _ trivial rfl) trivial))))))))))
    · intro execution found recovering
      cases found
      cases recovering
    · intro execution found recovering
      cases found
      cases recovering
  exact ⟨⟨_, retried, (batch_status_agrees submittedWorld_submitted retried).1 (by decide)⟩,
    _, refused, by decide,
    (batch_status_agrees submittedWorld_submitted refused).2.1 along (by decide)⟩

/-- Fifty commits of other parties. -/
def fiftyPushes : List BatchEvent :=
  (List.range 50).map fun i => .push ⟨[0x30, Fin.ofNat _ i], Text.lit "x"⟩

/-- **A refused batch may have its commit on the branch**: the answer of the commit is lost on the
last attempt; a commit is made by an execution while another one, on its last attempt, finds the
provider unavailable; and a commit was made before a crash, and fifty commits have hidden it from
the recovery since. -/
theorem batch_failed_with_commit :
    submittedWorld.Submitted updateBatch ∧
      (∃ world, run (batchStep updateBatch) submittedWorld
          [.start true true none, .recover 0, .list 0, .markCommitting 0,
            .writeCommit 0 (Text.lit "b") true, .settle 0] = some world ∧
        world.row.status = .failed ∧ world.row.errorCode = some .providerUnavailable ∧
        batchCommits updateBatch world.branch = 1) ∧
      (∃ world, run (batchStep updateBatch) submittedWorld
          [.start false true none, .recover 0, .list 0, .markCommitting 0, .start true true none,
            .recover 1, .writeCommit 0 (Text.lit "b") false, .fail 1 .unavailable, .settle 1,
            .settle 0] = some world ∧
        world.row.status = .failed ∧ world.row.errorCode = some .providerUnavailable ∧
        batchCommits updateBatch world.branch = 1) ∧
      ∃ world, run (batchStep updateBatch) submittedWorld
          (committedThenCrashed ++ fiftyPushes ++ [.start false true none, .recover 1, .settle 1]) =
            some world ∧
        world.row.status = .failed ∧ world.row.errorCode = some .internal ∧
        batchCommits updateBatch world.branch = 1 := by
  refine ⟨submittedWorld_submitted, ⟨_, rfl, ?_⟩, ⟨_, rfl, ?_⟩, _, rfl, ?_⟩
  · exact ⟨by decide, by decide, by decide⟩
  · exact ⟨by decide, by decide, by decide⟩
  · exact ⟨by decide, by decide, by decide⟩

end Koklo.SpecWrite
