import CoolDown.Client.JobEnd

/-!
# How `run` ends

The main loop is left where it is meant to be when the job is removed or `get_chunk` finds
nothing. Anything that throws leaves it too, and then `run` has ended without clearing
`is_running_`, so no `StartJob` will ever start the job again. One such throw needs nothing
but time: the wait on `download_pause_cond` has a timeout, which Poco reports as a
`TimeoutException`. The wait for a thread, further down, catches it; this one does not.

## The model

`Watched` is a job with the record of how its main loop has been left. `ThrowsAt` says what
makes a step of `run` throw: what it finds, or what the outside decides.

## What is proved

* `runStep_throws`: those are the steps after which `run` has thrown.
* `exitReason_of_leaves`: any other step that leaves the main loop has one of the two reasons.
* `run_disciplined_iff`: over a run, the main loop has only been left for one of them, and the
  job can be started again once `run` has ended, if and only if no step of `run` throws.
* `pause_expires`: a job that is paused for a second is lost.
-/

namespace CoolDown

open Library ChunkSelector

namespace Job

/-! ### Steps that throw -/

/-- The step of `run` at `pc` throws. -/
def ThrowsAt (j : Job) : Pc → RunEvent → Prop
  | .findOwners (_ :: _), .throws | .findOwner _, .throws | .copying (_ :: _), .throws => True
  -- the timeout of the wait
  | .waitPaused, .throws => True
  | .initQueue, .go => ∃ e, (initQueue j.jobInfo).2 = .error e
  | .chooseOwner chunk, .go =>
    chunk.clientLists = [] ∧ ∃ e, reportNoOwnerChunk j.jobInfo j.queue chunk.chunkNum chunk.fileid = .error e
  | .getSock _ peer, .conn r =>
    match j.sockManager.getIdleClientSock peer r with
    | .error _ => True
    | .ok (some _, _) => False
    | .ok (none, m) => ∃ e, m.getSockIdelCondition peer = .error e
  | .checkFile chunk _ _, .go =>
    ∀ fileInfo, j.jobInfo.torrentInfo.getOneFileOfSameFileid chunk.fileid = .ok fileInfo →
      ¬j.jobInfo.localFileInfo.hasLocalFile chunk.fileid fileInfo.relativePath fileInfo.filename
  | .copying ((_, source, target) :: _), .go => j.disk.copyTo false source target = none
  | .copying ((_, source, target) :: _), .emptyDirectory => j.disk.copyTo true source target = none
  | _, _ => False

/-- **After a step of `run` it has thrown if and only if the step throws.** -/
theorem runStep_throws {j j' : Job} {pc : Pc} {ev : RunEvent} (h : j.runStep pc ev = some j') :
    j'.pc = .aborted ↔ j.ThrowsAt pc ev := by
  cases pc with
  | notStarted | ended | aborted => cases ev <;> cases h
  | findOwners todo =>
    cases todo with
    | nil => cases ev <;> cases h; simp [ThrowsAt]
    | cons fileid todo =>
      by_cases hfind : (j.jobInfo.ownerInfoMap.find? fileid).isSome
      · cases ev <;> simp only [runStep, if_pos hfind, reduceCtorEq] at h
        cases h
        simp [ThrowsAt]
      · cases ev <;> simp only [runStep, if_neg hfind, reduceCtorEq] at h <;> cases h <;> simp [ThrowsAt]
  | initQueue =>
    cases ev <;> simp only [runStep, reduceCtorEq] at h
    split at h <;> rename_i hinit <;> cases h <;> simp [ThrowsAt, hinit]
  | readRemoved | readStopped | readPaused =>
    cases ev <;> simp only [runStep, reduceCtorEq] at h
    cases h
    split_ifs <;> simp [ThrowsAt]
  | waitStopped | waitPaused | waitSock => cases ev <;> cases h <;> simp [ThrowsAt]
  | getChunk =>
    cases ev <;> simp only [runStep, reduceCtorEq] at h
    split at h <;> cases h
    · simp [ThrowsAt]
    · simp only [ThrowsAt, iff_false]
      split_ifs <;> simp
  | findOwner chunk => cases ev <;> cases h <;> simp [ThrowsAt]
  | chooseOwner chunk =>
    cases ev <;> simp only [runStep, reduceCtorEq] at h
    split at h
    · rename_i hnone
      split at h <;> rename_i hreport <;> cases h <;> simp [ThrowsAt, hnone, hreport]
    · rename_i hsome
      cases h
      simp [ThrowsAt, hsome]
  | getSock chunk peer =>
    cases ev <;> simp only [runStep, reduceCtorEq] at h
    split at h
    · rename_i hsock
      cases h
      simp [ThrowsAt, hsock]
    · rename_i hsock
      cases h
      simp [ThrowsAt, hsock]
    · rename_i hsock
      split at h <;> rename_i hcond <;> cases h <;> simp [ThrowsAt, hsock, hcond]
  | checkFile chunk peer sock =>
    cases ev <;> simp only [runStep, reduceCtorEq] at h
    split at h <;> rename_i hfile <;> cases h
    · simp [ThrowsAt, hfile]
    · simp only [ThrowsAt, hfile, Except.ok.injEq, forall_eq']
      split_ifs with hlocal <;> simp [hlocal]
  | startTask chunk peer sock fileInfo =>
    cases ev <;> simp only [runStep, reduceCtorEq] at h
    · split at h
      · cases h
        simp [ThrowsAt]
      · split_ifs at h
        cases h
        simp [ThrowsAt]
    · split_ifs at h
      cases h
      simp [ThrowsAt]
  | joinAll =>
    cases ev <;> simp only [runStep, reduceCtorEq] at h
    split_ifs at h
    cases h
    simp [ThrowsAt]
  | copying todo =>
    cases todo with
    | nil => cases ev <;> cases h; simp [ThrowsAt]
    | cons copy todo =>
      obtain ⟨fileid, source, target⟩ := copy
      have hcopy : ∀ {emptyDir : Bool}, some (j.copyFile emptyDir source target todo) = some j' →
          (j'.pc = .aborted ↔ j.disk.copyTo emptyDir source target = none) := by
        rintro emptyDir ⟨⟩
        unfold copyFile
        cases j.disk.copyTo emptyDir source target <;> simp
      cases ev <;> simp only [runStep, reduceCtorEq] at h
      · exact hcopy h
      · cases h
        simp [ThrowsAt]
      · exact hcopy h

/-- A step that does not make `run` throw. -/
def Quiet (j : Job) (a : Action) : Prop := ∀ ev, a = .run ev → ¬j.ThrowsAt j.pc ev

/-! ### Steps that leave the main loop -/

/-- Why the main loop is left. -/
inductive Exit where
  /-- `is_job_removed` is set. -/
  | removed
  /-- `get_chunk` returns null. -/
  | noChunk
  /-- Anything else. -/
  | other
  deriving DecidableEq

/-- Why a step leaves the main loop, if it does. -/
def exitReason (j : Job) : Action → Exit
  | .run .go => if j.pc = .readRemoved ∧ j.jobInfo.downloadInfo.isJobRemoved then .removed else .other
  | .run (.top i) => if j.pc = .getChunk ∧ (ChunkSelector.getChunk j.queue i).map Prod.fst = some none then .noChunk else .other
  | _ => .other

variable {sha1 : Bytes → String}

/-- **A step of `run` that leaves the main loop and does not throw has one of the two reasons.** -/
theorem exitReason_of_leaves {j j' : Job} {ev : RunEvent} (h : step sha1 j (.run ev) = some j')
    (hloop : j.pc.stage = .loop) (hleft : j'.pc.stage ≠ .loop) (hpc : j'.pc ≠ .aborted) : exitReason j
    (.run ev) ≠ .other := by
  have hnot : ∀ {pc : Pc}, j.pc = pc → pc.stage ≠ .loop → False := by
    rintro pc rfl hne
    exact hne hloop
  cases runStep_cases h with
  | move pc owners m hstage => exact absurd (hstage.trans hloop) hleft
  | take i chunk pc hget hi hheld hstage => exact absurd hstage hleft
  | empty hget hqueue =>
    rw [step, hget] at h
    cases ev with
    | top i =>
      have hnull : (ChunkSelector.getChunk j.queue i).map Prod.fst = some none := by
        rw [hqueue]
        rfl
      simp [exitReason, hget, hnull]
    | go | throws | owners | conn | emptyDirectory => cases h
  | leave hread hremoved hev =>
    subst hev
    simp [exitReason, hread, hremoved]
  | init info queue hinit => exact (hnot hinit (by decide)).elim
  | initThrows | abort => exact absurd rfl hpc
  | putBack | launch | drop | noFile => exact absurd rfl hleft
  | joined hjoin => exact (hnot hjoin (by decide)).elim
  | copied fileid source target todo disk hcopy => exact (hnot hcopy (by simp [Pc.stage])).elim
  | ended hcopy => exact (hnot hcopy (by simp [Pc.stage])).elim

/-- What has ended can only be started again. -/
theorem over_step {j j' : Job} {a : Action} (hpc : j.pc = .ended ∨ j.pc = .aborted) (ha : a ≠ .start)
    (h : step sha1 j a = some j') : j'.pc = j.pc ∧ j'.isRunning = j.isRunning := by
  by_cases hrun : ∃ ev, a = .run ev
  · obtain ⟨ev, rfl⟩ := hrun
    rcases hpc with hpc | hpc <;> (rw [step, hpc] at h; cases ev <;> cases h)
  · exact step_of_others ha (not_exists.mp hrun) h

/-! ### The record -/

/-- A job, and why its main loop has been left so far. -/
structure Watched where
  job : Job
  exits : List Exit

variable (sha1) in
/-- One step of the job, recorded. -/
def watch (s : Watched) (a : Action) : Option Watched :=
  (step sha1 s.job a).map fun j =>
    { job := j
      exits := if s.job.pc.stage = .loop ∧ j.pc.stage ≠ .loop then s.exits ++ [exitReason s.job a] else s.exits }

theorem watch_eq_some {s s' : Watched} {a : Action} (h : watch sha1 s a = some s') :
    step sha1 s.job a = some s'.job ∧
      s'.exits = if s.job.pc.stage = .loop ∧ s'.job.pc.stage ≠ .loop then s.exits ++ [exitReason s.job a] else s.exits := by
  obtain ⟨j, hj, rfl⟩ := Option.map_eq_some_iff.mp h
  exact ⟨hj, rfl⟩

namespace Watched

variable (sha1) in
/-- The main loop has only been left because the job is removed or `get_chunk` has found
nothing; and when `run` has ended, it is not running and can be started again. -/
structure Disciplined (s : Watched) : Prop where
  exits : ∀ e ∈ s.exits, e = .removed ∨ e = .noChunk
  ended : s.job.pc = .ended ∨ s.job.pc = .aborted → s.job.isRunning = false ∧ ∃ j, step sha1 s.job .start = some j

/-- What holds while no step of `run` throws. -/
structure Orderly (s : Watched) : Prop where
  exits : ∀ e ∈ s.exits, e ≠ .other
  notAborted : s.job.pc ≠ .aborted
  running : s.job.isRunning = false → s.job.pc = .notStarted ∨ s.job.pc = .ended
  ended : s.job.pc = .ended → s.job.isRunning = false

theorem Orderly.disciplined {s : Watched} (h : s.Orderly) : s.Disciplined sha1 := by
  constructor
  · intro e he
    cases e with
    | removed => exact .inl rfl
    | noChunk => exact .inr rfl
    | other => exact absurd rfl (h.exits _ he)
  · intro hover
    have hrunning : s.job.isRunning = false := h.ended (hover.resolve_right h.notAborted)
    refine ⟨hrunning, { s.job with isRunning := true, pc := .findOwners s.job.jobInfo.fileidlist }, ?_⟩
    rw [step, if_neg (by simp [hrunning])]

/-- A new job has left nothing. -/
theorem orderly_new (info : JobInfo) (m : LocalSockManager) (disk : Disk) : Orderly ⟨.new info m disk, []⟩ where
  exits := by simp
  notAborted := by simp [Job.new]
  running _ := .inl rfl
  ended := by simp [Job.new]

/-- `run` has not thrown, if it had not. -/
theorem notAborted_step {s s' : Watched} {a : Action} (hs : s.Orderly) (hq : s.job.Quiet a)
    (h : step sha1 s.job a = some s'.job) : s'.job.pc ≠ .aborted := by
  cases a with
  | start =>
    rw [(step_start h).2]
    simp
  | run ev =>
    intro hpc
    exact hq ev rfl ((runStep_throws h).mp hpc)
  | task | onFailed | onFinished | env =>
    rw [pc_step (by simp) (by simp) h]
    exact hs.notAborted

/-- `is_running_` is clear when `run` has ended. -/
theorem ended_step {s s' : Watched} {a : Action} (hs : s.Orderly) (h : step sha1 s.job a = some s'.job) :
    s'.job.pc = .ended → s'.job.isRunning = false := by
  cases a with
  | start =>
    rw [(step_start h).2]
    simp
  | run ev =>
    generalize s'.job = j' at h
    cases runStep_cases h with
    | ended => exact fun _ => rfl
    | move pc owners m hstage hin =>
      rintro rfl
      rcases hin with hin | hin <;> cases hin
    | take i chunk pc hget hi hheld hloop =>
      rintro rfl
      cases hloop
    | init | initThrows | empty | putBack | launch | drop | noFile | leave | joined | copied | abort => rintro ⟨⟩
  | task | onFailed | onFinished | env =>
    rw [pc_step (by simp) (by simp) h, isRunning_step (by simp) (by simp) h]
    exact hs.ended

/-- A step that does not throw leaves the main loop for one of the two reasons. -/
theorem exits_step {s s' : Watched} {a : Action} (hs : s.Orderly) (hq : s.job.Quiet a) (h : watch sha1 s a = some s') :
    ∀ e ∈ s'.exits, e ≠ .other := by
  obtain ⟨hstep, hexits⟩ := watch_eq_some h
  rw [hexits]
  split_ifs with hleft
  · intro e he
    rcases List.mem_append.mp he with he | he
    · exact hs.exits e he
    · rw [List.mem_singleton.mp he]
      cases a with
      | start =>
        -- a job in the main loop is running
        rcases hs.running (step_start hstep).1 with hpc | hpc
        · rw [hpc] at hleft
          exact absurd hleft.1 (by decide)
        · rw [hpc] at hleft
          exact absurd hleft.1 (by decide)
      | run ev => exact exitReason_of_leaves hstep hleft.1 hleft.2 (notAborted_step hs hq hstep)
      | task | onFailed | onFinished | env =>
        rw [pc_step (by simp) (by simp) hstep] at hleft
        exact absurd hleft.1 hleft.2
  · exact hs.exits

/-- A step that does not throw keeps the order. -/
theorem orderly_step {s s' : Watched} {a : Action} (hs : s.Orderly) (hq : s.job.Quiet a)
    (h : watch sha1 s a = some s') :
    s'.Orderly where
  exits := exits_step hs hq h
  notAborted := notAborted_step hs hq (watch_eq_some h).1
  running := step_running hs.running (watch_eq_some h).1
  ended := ended_step hs (watch_eq_some h).1

/-- A step that throws leaves a job that is running and will never be started. -/
theorem not_disciplined_of_throws {s s' : Watched} {a : Action} (hs : s.Orderly) (hq : ¬s.job.Quiet a)
    (h : watch sha1 s a = some s') : ¬s'.Disciplined sha1 := by
  obtain ⟨hstep, -⟩ := watch_eq_some h
  obtain ⟨ev, rfl, hthrows⟩ : ∃ ev, a = .run ev ∧ s.job.ThrowsAt s.job.pc ev := by
    simpa [Quiet] using hq
  have hpc : s'.job.pc = .aborted := (runStep_throws hstep).mpr hthrows
  intro hd
  rcases step_running hs.running hstep (hd.ended (.inr hpc)).1 with hpc' | hpc' <;> (rw [hpc] at hpc'; cases hpc')

/-- What has gone wrong stays wrong. -/
theorem not_disciplined_step {s s' : Watched} {a : Action} (hs : ¬s.Disciplined sha1) (h : watch sha1 s a = some s') :
    ¬s'.Disciplined sha1 := by
  obtain ⟨hstep, hexits⟩ := watch_eq_some h
  intro hd
  apply hs
  constructor
  · intro e he
    apply hd.exits
    rw [hexits]
    split_ifs
    · exact List.mem_append_left _ he
    · exact he
  · intro hover
    by_cases hstart : a = .start
    · subst hstart
      exact ⟨(step_start hstep).1, s'.job, hstep⟩
    · obtain ⟨hpc, hrunning⟩ := over_step hover hstart hstep
      have hclear : s.job.isRunning = false := by
        rw [← hrunning]
        exact (hd.ended (hpc ▸ hover)).1
      refine ⟨hclear, { s.job with isRunning := true, pc := .findOwners s.job.jobInfo.fileidlist }, ?_⟩
      rw [step, if_neg (by simp [hclear])]

/-- **How `run` ends.** Take any run of a new job. Its main loop has only been left because the job
was removed or because `get_chunk` found nothing, and where `run` has ended the job is not running and
can be started again, if and only if no step of `run` throws. -/
theorem run_disciplined_iff {info : JobInfo} {m : LocalSockManager} {disk : Disk} {as : List Action} {s : Watched}
    (hrun : exec (watch sha1) ⟨.new info m disk, []⟩ as = some s) :
    Always (watch sha1) (fun s a => s.job.Quiet a) ⟨.new info m disk, []⟩ as ↔ s.Disciplined sha1 :=
  always_iff orderly_step Orderly.disciplined not_disciplined_of_throws not_disciplined_step hrun (orderly_new info m disk)

/-- **A pause expires.** The small job is paused, and a second later `run` has left its main loop for no good
reason. The job says that it runs, and cannot be started. -/
theorem pause_expires :
    ∃ s, exec (watch oneChunkSha1) ⟨oneChunkJob, []⟩
        [.start, .run .go, .run .go, .run .go, .run .go, .run .go, .env .pause, .run .go, .run .throws] = some s ∧
      s.exits = [.other] ∧ s.job.pc = .aborted ∧ s.job.jobInfo.downloadInfo.isJobRemoved = false ∧
        s.job.isRunning = true ∧
      step oneChunkSha1 s.job .start = none ∧ ¬s.Disciplined oneChunkSha1 :=
  ⟨_, rfl, rfl, rfl, rfl, rfl, rfl, fun hd => absurd (hd.ended (.inr rfl)).1 (by decide)⟩

/-- The small job fetches its chunk, and ends in order. -/
theorem run_disciplined_iff_complete :
    ∃ s, exec (watch oneChunkSha1) ⟨oneChunkJob, []⟩ completeRun = some s ∧
      (Always (watch oneChunkSha1) (fun s a => s.job.Quiet a) ⟨oneChunkJob, []⟩ completeRun ↔
        s.Disciplined oneChunkSha1) ∧
      s.exits = [.noChunk] ∧ s.job.pc = .ended := by
  have hrun : ∃ s, exec (watch oneChunkSha1) ⟨oneChunkJob, []⟩ completeRun = some s ∧ s.exits = [.noChunk] ∧
      s.job.pc = .ended := ⟨_, rfl, rfl, rfl⟩
  obtain ⟨s, hs, hexits, hpc⟩ := hrun
  exact ⟨s, hs, run_disciplined_iff hs, hexits, hpc⟩

end Watched

end Job

end CoolDown
