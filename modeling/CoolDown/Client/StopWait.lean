import CoolDown.Client.JobExit

/-!
# Waiting while a job is stopped: `job_stopped_cond`

`run` reads `is_stopped`, and only afterwards begins to wait on `job_stopped_cond`. No mutex
covers the two: the one it waits with is a local variable. `ResumeJob` clears the flag and
broadcasts, and if it does both in between, `run` waits for a broadcast that has gone by.
`RemoveJob` sets `is_job_removed` and broadcasts other conditions, but not this one.

## The model

A state is a job with one activation of its `run` at most, whether that has begun to wait
(`blocked`), and the calls in progress. The flags are atomic.
The steps of `run` are those of `Job.runStep`, but for the wait: it begins with a step of its
own, and ends only when somebody broadcasts. Each assignment and each broadcast of a call is
a step. `StopJob`, `PauseJob`, `ResumeJob` and `StartJob` hold `mutex_` from their first step to
their last, so there is one of them at a time; `RemoveJob` holds it only while it looks the job
up, and any number of them may go on at once. A call that still waits for `mutex_` has done
nothing. The waits on the other conditions may end at any moment, so it does not matter who
broadcasts those. The calls for other jobs leave this one alone, and are left out.

## What is proved

* `not_stuck_iff`: over a run, `run` is never stuck if and only if it only begins to wait
  while it should, and `RemoveJob` only sets the flag while `run` does not wait.
* `stuck_forever`: once the handle is gone from `jobs_` too, it waits for ever.
* `lost_wakeups`: a broadcast may come too soon, and may not come at all.
-/

namespace CoolDown

open Library

namespace StopWait

/-- How far `ResumeJobWithoutLock` has got: what it does next. -/
inductive Resuming where
  /-- Clear `is_stopped`. -/
  | clearStopped
  /-- Clear `is_download_paused`. -/
  | clearPaused
  /-- Broadcast `download_pause_cond`. -/
  | wakePaused
  /-- Broadcast `job_stopped_cond`. -/
  | wakeStopped
  deriving DecidableEq

/-- The call that holds `mutex_` and has found the job. -/
inductive Locked where
  /-- `StopJob`. -/
  | stop
  /-- `PauseJob`. -/
  | pause
  /-- `ResumeJob`, or `StartJob` if it `starts` the job, in `ResumeJobWithoutLock`. -/
  | resume (starts : Bool) (next : Resuming)
  /-- `StartJob`, after `ResumeJobWithoutLock`. -/
  | start
  deriving DecidableEq

/-- How far a `RemoveJob` has got: what it does next. -/
inductive Removing where
  /-- Set `is_job_removed`. -/
  | setRemoved
  /-- Broadcast `download_pause_cond`. -/
  | wakePaused
  /-- Broadcast `download_speed_limit_cond`. -/
  | wakeSpeedLimit
  /-- Erase the handle from `jobs_`. -/
  | erase
  /-- Keep the job in `removed_jobs_`. -/
  | keep
  deriving DecidableEq

end StopWait

open StopWait in
/-- A job, and the calls for it that are in progress. -/
structure StopWait where
  job : Job
  /-- `run` waits on `job_stopped_cond`. -/
  blocked : Bool
  /-- The handle is in `jobs_`. -/
  inJobs : Bool
  /-- The call that holds `mutex_`. -/
  locked : Option Locked
  /-- The calls of `RemoveJob` that have found the job. -/
  removing : List Removing
  /-- How often the pool has been given the job and has not begun to run it. -/
  scheduled : ℕ

namespace StopWait

/-- A job that `AddNewJob` has just made. -/
def new (info : JobInfo) (m : LocalSockManager) (disk : Disk) : StopWait := ⟨.new info m disk, false, true, none, [], 0⟩

/-- `downloadInfo` is changed. -/
def modify (s : StopWait) (f : DownloadInfo → DownloadInfo) : StopWait :=
  { s with job := { s.job with jobInfo := { s.job.jobInfo with downloadInfo := f s.job.jobInfo.downloadInfo } } }

/-! ### The calls -/

/-- A call takes `mutex_` and looks the job up. Without the job it returns at once. -/
def lookUp (s : StopWait) (found : StopWait) : Option StopWait :=
  match s.locked with
  | some _ => none
  | none => some (if s.inJobs then found else s)

/-- `job_stopped_cond.broadcast`: `run` goes on at the top of its main loop if it waits. -/
def broadcastStopped (s : StopWait) : StopWait :=
  if s.blocked then { s with blocked := false, job := { s.job with pc := .readRemoved } } else s

/-- `ResumeJobWithoutLock`, from where it has got. -/
def resumeJobWithoutLock (s : StopWait) (starts : Bool) : Resuming → StopWait
  | .clearStopped => { s.modify (fun d => { d with isStopped := false }) with locked := some (.resume starts .clearPaused) }
  | .clearPaused => { s.modify (fun d => { d with isDownloadPaused := false }) with locked := some (.resume starts .wakePaused) }
  | .wakePaused => { s with locked := some (.resume starts .wakeStopped) }
  | .wakeStopped => { s.broadcastStopped with locked := if starts then some .start else none }

/-- The rest of `StartJob`, where `pool` is what becomes of `jobThreads_.start`. -/
def startJob (s : StopWait) (pool : Except Exception Unit) : StopWait :=
  -- the job may be gone: then an assertion fails
  if s.inJobs ∧ ¬s.job.isRunning ∧ pool = .ok () then { s with locked := none, scheduled := s.scheduled + 1 }
  else { s with locked := none }

/-- The call that holds `mutex_` goes on. -/
def lockedStep (s : StopWait) (pool : Except Exception Unit) : Locked → StopWait
  | .stop => { s.modify (fun d => { d with isStopped := true }) with locked := none }
  | .pause => { s.modify (fun d => { d with isDownloadPaused := true }) with locked := none }
  | .resume starts next => s.resumeJobWithoutLock starts next
  | .start => s.startJob pool

/-- The `i`th `RemoveJob` goes on. -/
def removeJob (s : StopWait) (i : ℕ) : Removing → StopWait
  | .setRemoved =>
    { s.modify (fun d => { d with isJobRemoved := true }) with removing := s.removing.set i .wakePaused }
  | .wakePaused => { s with removing := s.removing.set i .wakeSpeedLimit }
  | .wakeSpeedLimit => { s with removing := s.removing.set i .erase }
  | .erase => { s with inJobs := false, removing := s.removing.set i .keep }
  | .keep => { s with removing := s.removing.eraseIdx i }

/-- A step. -/
inductive Action where
  /-- Of `run`, of a task, or of somebody else who makes none of these calls. -/
  | job (a : Job.Action)
  /-- `run` begins to wait on `job_stopped_cond`. -/
  | wait
  /-- A call begins. -/
  | stopJob
  | pauseJob
  | resumeJob
  | startJob
  | removeJob
  /-- The call that holds `mutex_` goes on. -/
  | locked (pool : Except Exception Unit)
  /-- A `RemoveJob` goes on. -/
  | removing (i : ℕ)

/-- A step of the job alone. The pool starts `run`; only a broadcast ends its wait; the flags are
left to the calls. -/
def jobAllowed (s : StopWait) : Job.Action → Bool
  | .start => decide (0 < s.scheduled)
  | .run _ => decide (s.job.pc ≠ .waitStopped)
  | .env .stop | .env .pause | .env .resume | .env .remove => false
  | .task _ _ | .onFailed _ | .onFinished _ | .env .newSecond | .env (.setDownloadSpeedLimit _) | .env (.sockets _) => true

/-- How often the pool has still to begin the job, after a step of it. -/
def scheduledAfter (s : StopWait) : Job.Action → ℕ
  | .start => s.scheduled - 1
  | .run _ | .task _ _ | .onFailed _ | .onFinished _ | .env _ => s.scheduled

variable (sha1 : Bytes → String) in
/-- One step: `none` where it is not possible. -/
def step (s : StopWait) : Action → Option StopWait
  | .job a =>
    if s.jobAllowed a then
      (Job.step sha1 s.job a).map fun j => { s with job := j, scheduled := s.scheduledAfter a }
    else none
  | .wait => if s.job.pc = .waitStopped ∧ ¬s.blocked then some { s with blocked := true } else none
  | .stopJob => s.lookUp { s with locked := some .stop }
  | .pauseJob => s.lookUp { s with locked := some .pause }
  | .resumeJob => s.lookUp { s with locked := some (.resume false .clearStopped) }
  | .startJob => s.lookUp { s with locked := some (.resume true .clearStopped) }
  | .removeJob => s.lookUp { s with removing := s.removing ++ [.setRemoved] }
  | .locked pool => s.locked.map (s.lockedStep pool)
  | .removing i => s.removing[i]?.map (s.removeJob i)

/-! ### Being stuck -/

/-- A call in progress is going to broadcast `job_stopped_cond`. -/
def waking (s : StopWait) : Bool :=
  match s.locked with
  | some (.resume _ _) => true
  | some .stop | some .pause | some .start | none => false

/-- `run` has a reason to wait: the job is stopped, and not removed. -/
def Waits (s : StopWait) : Prop :=
  s.job.jobInfo.downloadInfo.isStopped = true ∧ s.job.jobInfo.downloadInfo.isJobRemoved = false

/-- `run` waits on `job_stopped_cond`, though `is_stopped` is clear or `is_job_removed` is set, and no
call in progress is going to broadcast it. -/
structure Stuck (s : StopWait) : Prop where
  pc : s.job.pc = .waitStopped
  blocked : s.blocked = true
  ready : s.job.jobInfo.downloadInfo.isStopped = false ∨ s.job.jobInfo.downloadInfo.isJobRemoved = true
  nobody : s.waking = false

/-- A step at the right moment: `run` begins to wait, and `RemoveJob` takes away the reason, only
while that is no loss. -/
def InTime (s : StopWait) : Action → Prop
  | .wait => s.Waits ∨ s.waking
  | .removing i => s.removing[i]? = some .setRemoved → s.blocked → s.waking
  | _ => True

variable {sha1 : Bytes → String}

/-- What holds in every state: a `run` that waits is at the wait. -/
structure Placed (s : StopWait) : Prop where
  running : s.job.isRunning = false → s.job.pc = .notStarted ∨ s.job.pc = .ended
  pc : s.blocked → s.job.pc = .waitStopped

theorem placed_new (info : JobInfo) (m : LocalSockManager) (disk : Disk) : Placed (new info m disk) where
  running _ := .inl rfl
  pc h := by cases h

/-! ### What a step can do -/

/-- A step of the job alone leaves the flags as they are. -/
theorem flags_step {s : StopWait} {a : Job.Action} {j : Job} (hallowed : s.jobAllowed a)
    (h : Job.step sha1 s.job a = some j) :
    j.jobInfo.downloadInfo.isStopped = s.job.jobInfo.downloadInfo.isStopped ∧
      j.jobInfo.downloadInfo.isJobRemoved = s.job.jobInfo.downloadInfo.isJobRemoved := by
  cases a with
  | start =>
    obtain ⟨-, rfl⟩ := Job.step_start h
    exact ⟨rfl, rfl⟩
  | run ev =>
    cases Job.runStep_cases h with
    | init info queue hpc hinit =>
      obtain ⟨rfl, -⟩ := ChunkSelector.initFiles_eq_ok hinit
      exact ⟨rfl, rfl⟩
    | initThrows info hpc hinfo =>
      obtain ⟨⟨bitmaps, rfl⟩, -⟩ := hinfo
      exact ⟨rfl, rfl⟩
    | move | take | empty | putBack | launch | drop | noFile | leave | joined | copied | ended | abort => exact ⟨rfl, rfl⟩
  | task i ev =>
    obtain ⟨t, phase, d, disk, hi, hrun, rfl⟩ := Job.step_task h
    obtain ⟨-, ⟨n, rfl⟩, -⟩ := DownloadTask.runTask_frame hrun
    exact ⟨rfl, rfl⟩
  | onFailed i =>
    obtain ⟨t, hi, hphase, rfl⟩ := Job.step_onFailed h
    rcases s.job.onFailed_cases i t with ⟨_, _, heq⟩ | ⟨_, heq⟩ <;> (rw [heq]; exact ⟨rfl, rfl⟩)
  | onFinished i =>
    obtain ⟨t, hi, hphase, rfl⟩ := Job.step_onFinished h
    obtain ⟨honly, -⟩ := ChunkSelector.reportSuccessChunk_spec s.job.jobInfo t.chunkPos t.fileid
    rcases s.job.onFinished_cases i t with ⟨-, _, _, _, heq⟩ | ⟨-, _, _, _, hr, _, heq⟩ | ⟨-, _, _, hr, heq⟩
    · rw [heq]
      exact ⟨rfl, rfl⟩
    · rw [hr] at honly
      obtain ⟨bitmaps, rfl⟩ := honly
      rw [heq]
      exact ⟨rfl, rfl⟩
    · rw [hr] at honly
      obtain ⟨bitmaps, rfl⟩ := honly
      rw [heq]
      exact ⟨rfl, rfl⟩
  | env ev =>
    cases h
    cases ev with
    | stop | pause | resume | remove => cases hallowed
    | newSecond | setDownloadSpeedLimit | sockets => exact ⟨rfl, rfl⟩

/-- A step of the job alone does not move a `run` that waits. -/
theorem pc_step {s : StopWait} {a : Job.Action} {j : Job} (hs : s.Placed) (hblocked : s.blocked)
    (hallowed : s.jobAllowed a) (h : Job.step sha1 s.job a = some j) : j.pc = .waitStopped := by
  have hpc := hs.pc hblocked
  cases a with
  | start =>
    rcases hs.running (Job.step_start h).1 with hpc' | hpc' <;> (rw [hpc] at hpc'; cases hpc')
  | run ev => simp [jobAllowed, hpc] at hallowed
  | task | onFailed | onFinished | env =>
    rw [Job.pc_step (by simp) (by simp) h]
    exact hpc

/-- The steps of a job alone. -/
theorem step_job {s t : StopWait} {a : Job.Action} (h : step sha1 s (.job a) = some t) :
    s.jobAllowed a ∧ ∃ j, Job.step sha1 s.job a = some j ∧
      t = { s with job := j, scheduled := s.scheduledAfter a } := by
  rw [step] at h
  split_ifs at h with hallowed
  obtain ⟨j, hj, rfl⟩ := Option.map_eq_some_iff.mp h
  exact ⟨hallowed, j, hj, rfl⟩

/-- A call that looks the job up finds it or not, and `mutex_` is free. -/
theorem lookUp_eq_some {s found t : StopWait} (h : s.lookUp found = some t) :
    s.locked = none ∧ (s.inJobs ∧ t = found ∨ s.inJobs = false ∧ t = s) := by
  unfold lookUp at h
  split at h
  · cases h
  · rename_i hlocked
    refine ⟨hlocked, ?_⟩
    cases hjobs : s.inJobs with
    | true =>
      rw [hjobs, if_pos rfl] at h
      exact .inl ⟨rfl, (Option.some.inj h).symm⟩
    | false =>
      rw [hjobs, if_neg (by decide)] at h
      exact .inr ⟨rfl, (Option.some.inj h).symm⟩

theorem waking_of_locked_none {s : StopWait} (h : s.locked = none) : s.waking = false := by
  rw [waking, h]

/-- The last step of `ResumeJobWithoutLock` leaves nobody waiting. -/
@[simp] theorem blocked_broadcastStopped (s : StopWait) : s.broadcastStopped.blocked = false := by
  unfold broadcastStopped
  split_ifs with hblocked
  · rfl
  · exact Bool.eq_false_iff.mpr hblocked

theorem Placed.broadcastStopped {s : StopWait} (hs : s.Placed) : s.broadcastStopped.Placed := by
  refine ⟨?_, by simp⟩
  unfold StopWait.broadcastStopped
  split_ifs with hblocked
  · intro hrunning
    rcases hs.running hrunning with hpc | hpc <;> (rw [hs.pc hblocked] at hpc; cases hpc)
  · exact hs.running

/-- Every step keeps a waiting `run` at the wait. -/
theorem placed_step {s t : StopWait} {a : Action} (hs : s.Placed) (h : step sha1 s a = some t) : t.Placed := by
  cases a with
  | job a =>
    obtain ⟨hallowed, j, hj, rfl⟩ := step_job h
    exact ⟨Job.step_running hs.running hj, fun hblocked => pc_step hs hblocked hallowed hj⟩
  | wait =>
    rw [step] at h
    split_ifs at h with hwait
    cases h
    exact ⟨hs.running, fun _ => hwait.1⟩
  | stopJob | pauseJob | resumeJob | startJob | removeJob =>
    obtain ⟨-, ⟨-, rfl⟩ | ⟨-, rfl⟩⟩ := lookUp_eq_some h <;> exact ⟨hs.running, hs.pc⟩
  | locked pool =>
    obtain ⟨c, -, rfl⟩ := Option.map_eq_some_iff.mp h
    cases c with
    | stop | pause => exact ⟨hs.running, hs.pc⟩
    | resume starts next =>
      cases next with
      | clearStopped | clearPaused | wakePaused => exact ⟨hs.running, hs.pc⟩
      | wakeStopped => exact ⟨hs.broadcastStopped.running, hs.broadcastStopped.pc⟩
    | start =>
      rw [lockedStep, StopWait.startJob]
      split_ifs <;> exact ⟨hs.running, hs.pc⟩
  | removing i =>
    obtain ⟨r, -, rfl⟩ := Option.map_eq_some_iff.mp h
    cases r <;> exact ⟨hs.running, hs.pc⟩

/-! ### In time -/

/-- A `run` that waits has a reason to, or is about to be woken. -/
def Awake (s : StopWait) : Prop := s.blocked → s.Waits ∨ s.waking

theorem Awake.not_stuck {s : StopWait} (h : s.Awake) : ¬s.Stuck := by
  rintro ⟨-, hblocked, hready, hnobody⟩
  rcases h hblocked with ⟨hstopped, hremoved⟩ | hwaking
  · rcases hready with hready | hready
    · exact absurd (hstopped.symm.trans hready) (by decide)
    · exact absurd (hremoved.symm.trans hready) (by decide)
  · exact absurd (hnobody.symm.trans hwaking) (by decide)

/-- Where nobody is about to wake it, it has a reason. -/
theorem Awake.waits {s : StopWait} (h : s.Awake) (hwaking : s.waking = false) (hblocked : s.blocked) : s.Waits :=
  (h hblocked).resolve_right (by simp [hwaking])

/-- A step that is in time keeps it so. -/
theorem awake_step {s t : StopWait} {a : Action} (hs : s.Awake) (ha : s.InTime a) (h : step sha1 s a = some t) :
    t.Awake := by
  cases a with
  | job a =>
    obtain ⟨hallowed, j, hj, rfl⟩ := step_job h
    obtain ⟨hstopped, hremoved⟩ := flags_step hallowed hj
    intro hblocked
    refine (hs hblocked).imp_left ?_
    rintro ⟨hwait, hkept⟩
    exact ⟨hstopped.trans hwait, hremoved.trans hkept⟩
  | wait =>
    rw [step] at h
    split_ifs at h
    cases h
    exact fun _ => ha
  | stopJob | pauseJob | resumeJob | startJob =>
    obtain ⟨hlocked, ⟨-, rfl⟩ | ⟨-, rfl⟩⟩ := lookUp_eq_some h
    · exact fun hblocked => .inl (hs.waits (waking_of_locked_none hlocked) hblocked)
    · exact hs
  | removeJob => obtain ⟨-, ⟨-, rfl⟩ | ⟨-, rfl⟩⟩ := lookUp_eq_some h <;> exact hs
  | locked pool =>
    obtain ⟨c, hc, rfl⟩ := Option.map_eq_some_iff.mp h
    cases c with
    | stop => exact fun hblocked => .inl ⟨rfl, (hs.waits (by rw [waking, hc]) hblocked).2⟩
    | pause => exact fun hblocked => .inl (hs.waits (by rw [waking, hc]) hblocked)
    | resume starts next =>
      cases next with
      | clearStopped | clearPaused | wakePaused => exact fun _ => .inr rfl
      | wakeStopped =>
        intro hblocked
        cases (blocked_broadcastStopped s).symm.trans hblocked
    | start =>
      rw [lockedStep, StopWait.startJob]
      split_ifs <;> exact fun hblocked => .inl (hs.waits (by rw [waking, hc]) hblocked)
  | removing i =>
    obtain ⟨r, hr, rfl⟩ := Option.map_eq_some_iff.mp h
    cases r with
    | setRemoved => exact fun hblocked => .inr (ha hr hblocked)
    | wakePaused | wakeSpeedLimit | erase | keep => exact hs

/-- After a step that is not in time `run` is stuck. -/
theorem stuck_of_not_inTime {s t : StopWait} {a : Action} (hs : s.Placed) (ha : ¬s.InTime a)
    (h : step sha1 s a = some t) :
    t.Stuck := by
  cases a with
  | wait =>
    obtain ⟨hreason, hnobody⟩ := not_or.mp ha
    rw [step] at h
    split_ifs at h with hwait
    cases h
    refine ⟨hwait.1, rfl, ?_, Bool.eq_false_iff.mpr hnobody⟩
    rcases not_and_or.mp hreason with hstopped | hremoved
    · exact .inl (Bool.eq_false_iff.mpr hstopped)
    · exact .inr (Bool.not_eq_false _ ▸ hremoved)
  | removing i =>
    simp only [InTime, Classical.not_imp] at ha
    obtain ⟨hr, hblocked, hnobody⟩ := ha
    rw [step, hr] at h
    cases h
    exact ⟨hs.pc hblocked, hblocked, .inr rfl, Bool.eq_false_iff.mpr hnobody⟩
  | job | stopJob | pauseJob | resumeJob | startJob | removeJob | locked => exact absurd trivial ha

/-- What holds of a run whose steps are all in time. -/
structure Inv (s : StopWait) : Prop where
  placed : s.Placed
  awake : s.Awake

theorem inv_new (info : JobInfo) (m : LocalSockManager) (disk : Disk) : Inv (new info m disk) where
  placed := placed_new info m disk
  awake h := by cases h

theorem inv_step {s t : StopWait} {a : Action} (hs : s.Inv) (ha : s.InTime a) (h : step sha1 s a = some t) : t.Inv :=
  ⟨placed_step hs.placed h, awake_step hs.awake ha h⟩

/-- **No lost wake-up.** Take any run of a job that has just been made. `run` is never stuck in it if and
only if every step is in time: `run` begins to wait only while the job is stopped and not removed, and
`RemoveJob` sets `is_job_removed` only while `run` does not wait; or else a call is about to broadcast. -/
theorem not_stuck_iff {info : JobInfo} {m : LocalSockManager} {disk : Disk} {as : List Action} {s : StopWait}
    (hrun : exec (step sha1) (new info m disk) as = some s) :
    Always (step sha1) InTime (new info m disk) as ↔
      Throughout (step sha1) (fun s => ¬s.Stuck) (new info m disk) as := by
  apply always_iff_throughout inv_step (fun hs => hs.awake.not_stuck) ?_ hrun (inv_new info m disk)
  intro s a t hs ha h hstuck
  exact hstuck (stuck_of_not_inTime hs.placed ha h)

/-- The job is started, and `run` is at the top of its main loop. -/
def startRun : List Action :=
  [.startJob, .locked (.ok ()), .locked (.ok ()), .locked (.ok ()), .locked (.ok ()), .locked (.ok ()), .job .start,
    .job (.run .go), .job (.run .go), .job (.run .go)]

/-- `StopJob`, and `run` reads both flags. -/
def stopRun : List Action := [.stopJob, .locked (.ok ()), .job (.run .go), .job (.run .go)]

/-- `ResumeJob`. -/
def resumeRun : List Action := [.resumeJob, .locked (.ok ()), .locked (.ok ()), .locked (.ok ()), .locked (.ok ())]

/-- `RemoveJob`. -/
def removeRun : List Action := [.removeJob, .removing 0, .removing 0, .removing 0, .removing 0, .removing 0]

/-- The small job, in `jobs_`. -/
def oneChunk : StopWait := ⟨Job.oneChunkJob, false, true, none, [], 0⟩

/-- **Lost wake-ups.** `ResumeJob` comes after `run` has read `is_stopped` and before it waits; or `RemoveJob`
comes while it waits. Either way nothing is in progress any more, and `run` waits. -/
theorem lost_wakeups :
    (∃ s, exec (step Job.oneChunkSha1) oneChunk (startRun ++ stopRun ++ resumeRun ++ [.wait]) = some s ∧
      s.job.jobInfo.downloadInfo.isStopped = false ∧ s.locked = none ∧ s.removing = [] ∧ s.Stuck) ∧
    ∃ s, exec (step Job.oneChunkSha1) oneChunk (startRun ++ stopRun ++ [.wait] ++ removeRun) = some s ∧
      s.job.jobInfo.downloadInfo.isJobRemoved = true ∧ s.locked = none ∧ s.removing = [] ∧ s.Stuck :=
  ⟨⟨_, rfl, rfl, rfl, rfl, rfl, rfl, .inl rfl, rfl⟩, ⟨_, rfl, rfl, rfl, rfl, rfl, rfl, .inr rfl, rfl⟩⟩

/-- `ResumeJob` comes while `run` waits, and wakes it. -/
theorem not_stuck_iff_resumed :
    ∃ s, exec (step Job.oneChunkSha1) oneChunk (startRun ++ stopRun ++ [.wait] ++ resumeRun) = some s ∧
      (Always (step Job.oneChunkSha1) InTime oneChunk (startRun ++ stopRun ++ [.wait] ++ resumeRun) ↔
        Throughout (step Job.oneChunkSha1) (fun s => ¬s.Stuck) oneChunk (startRun ++ stopRun ++ [.wait] ++ resumeRun)) ∧
      s.job.pc = .readRemoved :=
  ⟨_, rfl, not_stuck_iff rfl, rfl⟩

/-! ### Stuck for ever -/

/-- `run` waits, the handle is gone from `jobs_`, and nobody is about to wake it. -/
structure Forgotten (s : StopWait) : Prop where
  blocked : s.blocked = true
  inJobs : s.inJobs = false
  nobody : s.waking = false

/-- No step changes that. -/
theorem forgotten_step {s t : StopWait} {a : Action} (hs : s.Forgotten) (h : step sha1 s a = some t) : t.Forgotten := by
  obtain ⟨hblocked, hjobs, hnobody⟩ := hs
  cases a with
  | job a =>
    obtain ⟨-, j, -, rfl⟩ := step_job h
    exact ⟨hblocked, hjobs, hnobody⟩
  | wait =>
    rw [step] at h
    split_ifs at h with hwait
    exact absurd hblocked hwait.2
  | stopJob | pauseJob | resumeJob | startJob | removeJob =>
    obtain ⟨-, ⟨hfound, -⟩ | ⟨-, rfl⟩⟩ := lookUp_eq_some h
    · cases hjobs.symm.trans hfound
    · exact ⟨hblocked, hjobs, hnobody⟩
  | locked pool =>
    obtain ⟨c, hc, rfl⟩ := Option.map_eq_some_iff.mp h
    cases c with
    | stop | pause => exact ⟨hblocked, hjobs, rfl⟩
    | resume starts next => simp [waking, hc] at hnobody
    | start =>
      rw [lockedStep, StopWait.startJob]
      split_ifs <;> exact ⟨hblocked, hjobs, rfl⟩
  | removing i =>
    obtain ⟨r, -, rfl⟩ := Option.map_eq_some_iff.mp h
    cases r with
    | erase => exact ⟨hblocked, rfl, hnobody⟩
    | setRemoved | wakePaused | wakeSpeedLimit | keep => exact ⟨hblocked, hjobs, hnobody⟩

/-- **Stuck for ever.** If in some state of a run `run` waits, the handle is gone from `jobs_` and no call in
progress is going to broadcast, then it waits in every later state. -/
theorem stuck_forever {info : JobInfo} {m : LocalSockManager} {disk : Disk} {as bs : List Action} {s t : StopWait}
    (hrun : exec (step sha1) (new info m disk) as = some s) (hblocked : s.blocked = true) (hjobs : s.inJobs = false)
    (hnobody : s.waking = false) (hlater : exec (step sha1) s bs = some t) :
    t.blocked = true ∧ t.job.pc = .waitStopped := by
  have hs : s.Placed := exec_invariant placed_step hrun (placed_new info m disk)
  have ht : t.Placed := exec_invariant placed_step hlater hs
  have hforgotten : t.Forgotten := exec_invariant forgotten_step hlater ⟨hblocked, hjobs, hnobody⟩
  exact ⟨hforgotten.blocked, ht.pc hforgotten.blocked⟩

end StopWait

end CoolDown
