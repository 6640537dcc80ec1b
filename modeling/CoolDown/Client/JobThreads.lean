import CoolDown.Library.Run
import CoolDown.Public.ErrorCode
import Mathlib.Logic.Function.Basic

/-!
# Starting a job: `CoolClient` and its thread pool

`StartJob` puts the job into a thread pool, unless `is_running_` says that it runs. But it
is `Job::run` that sets `is_running_`, as the first thing it does, in the thread of the
pool. Until that thread has come so far, a second `StartJob` finds the job not running and
puts it into the pool once more.

## The model

An `Activity` is the flags of a job, and how many activations of its `run` are scheduled
(the pool has been given the job, and its thread has not begun) and how many are running.
A call that holds `mutex_` is one step. `RemoveJob` holds it only while it looks the job
up, so it has two: it finds the job and sets the flag, and it takes the handle out of
`jobs_`. The threads of the pool begin and end a `run` at any moment: at its end it clears
`is_running_`, unless it throws.

## What is proved

* `startJob_scheduled`: when `StartJob` schedules an activation.
* `single_iff`: over a run, no job ever has two activations if and only if no `StartJob`
  schedules one while another is scheduled.
* `two_activations`: two calls of `StartJob` one after the other make two.
-/

namespace CoolDown

open Library

namespace JobThreads

/-- A job: its flags, and the activations of its `run`. -/
structure Activity where
  isJobRemoved : Bool
  isStopped : Bool
  isDownloadPaused : Bool
  isRunning : Bool
  /-- Activations that the pool has been given and has not begun. -/
  scheduled : ℕ
  /-- Activations that have begun and have not ended. -/
  running : ℕ
  deriving DecidableEq

/-- A job that has just been made. -/
def Activity.new : Activity := ⟨false, true, true, false, 0, 0⟩

end JobThreads

open JobThreads in
/-- `CoolClient`, as far as the threads of its jobs go. A handle that is not in `jobs_` any more
still has its job. -/
structure JobThreads where
  jobIndex : ℕ
  /-- The handles in `jobs_`. -/
  jobs : List ℕ
  job : ℕ → Activity

namespace JobThreads

/-- A client that has just been started. -/
def new : JobThreads := ⟨0, [], fun _ => .new⟩

/-- A job is changed. -/
def modify (s : JobThreads) (handle : ℕ) (f : Activity → Activity) : JobThreads :=
  { s with job := Function.update s.job handle (f (s.job handle)) }

@[simp] theorem job_modify_self (s : JobThreads) (handle : ℕ) (f : Activity → Activity) :
    (s.modify handle f).job handle = f (s.job handle) :=
  Function.update_self _ _ _

theorem job_modify_of_ne (s : JobThreads) {handle handle' : ℕ} (h : handle' ≠ handle) (f : Activity → Activity) :
    (s.modify handle f).job handle' = s.job handle' :=
  Function.update_of_ne h _ _

/-! ### The calls -/

/-- `AddNewJob`. -/
def addNewJob (s : JobThreads) : JobThreads :=
  { s with jobIndex := s.jobIndex + 1, jobs := s.jobs ++ [s.jobIndex] }

/-- A call that looks a job up, and changes it. -/
def withJob (s : JobThreads) (handle : ℕ) (f : Activity → Activity) : Retcode × JobThreads :=
  if handle ∈ s.jobs then (.errorOk, s.modify handle f) else (.errorJobNotExists, s)

/-- `ResumeJobWithoutLock`. -/
def resumeJobWithoutLock (s : JobThreads) (handle : ℕ) : Retcode × JobThreads :=
  s.withJob handle fun a => { a with isStopped := false, isDownloadPaused := false }

/-- `ResumeJob`. -/
def resumeJob (s : JobThreads) (handle : ℕ) : Retcode × JobThreads := s.resumeJobWithoutLock handle

/-- `StartJob`, where `pool` is what becomes of `jobThreads_.start`. -/
def startJob (s : JobThreads) (handle : ℕ) (pool : Except Exception Unit) : Except Exception Retcode × JobThreads :=
  let (ret, s) := s.resumeJobWithoutLock handle
  if ret ≠ .errorOk then (.ok ret, s)
  else if (s.job handle).isRunning then (.ok .errorJobAlreadyStarted, s)
  else
    match pool with
    | .error e => (.error e, s)
    | .ok () => (.ok .errorOk, s.modify handle fun a => { a with scheduled := a.scheduled + 1 })

/-- `StopJob`. -/
def stopJob (s : JobThreads) (handle : ℕ) : Retcode × JobThreads := s.withJob handle fun a => { a with isStopped := true }

/-- `PauseJob`. -/
def pauseJob (s : JobThreads) (handle : ℕ) : Retcode × JobThreads :=
  s.withJob handle fun a => { a with isDownloadPaused := true }

/-- `RemoveJob`, up to where it has set the flag. -/
def removeJob (s : JobThreads) (handle : ℕ) : Retcode × JobThreads :=
  s.withJob handle fun a => { a with isJobRemoved := true }

/-- The rest of `RemoveJob`. -/
def eraseJob (s : JobThreads) (handle : ℕ) : JobThreads := { s with jobs := s.jobs.filter fun h => decide (h ≠ handle) }

/-- What happens: a call, or a step of a thread of the pool. -/
inductive Event where
  | addNewJob
  | startJob (handle : ℕ) (pool : Except Exception Unit)
  | stopJob (handle : ℕ)
  | pauseJob (handle : ℕ)
  | resumeJob (handle : ℕ)
  | removeJob (handle : ℕ)
  | eraseJob (handle : ℕ)
  /-- A thread of the pool begins `run`. -/
  | begin (handle : ℕ)
  /-- `run` returns. -/
  | finish (handle : ℕ)
  /-- `run` throws. -/
  | abort (handle : ℕ)

/-- One event. -/
def step (s : JobThreads) : Event → Option JobThreads
  | .addNewJob => some s.addNewJob
  | .startJob handle pool => some (s.startJob handle pool).2
  | .stopJob handle => some (s.stopJob handle).2
  | .pauseJob handle => some (s.pauseJob handle).2
  | .resumeJob handle => some (s.resumeJob handle).2
  | .removeJob handle => some (s.removeJob handle).2
  | .eraseJob handle => if (s.job handle).isJobRemoved then some (s.eraseJob handle) else none
  | .begin handle =>
    if 0 < (s.job handle).scheduled then
      some (s.modify handle fun a =>
        { a with scheduled := a.scheduled - 1, running := a.running + 1, isRunning := true })
    else none
  | .finish handle =>
    if 0 < (s.job handle).running then
      some (s.modify handle fun a => { a with running := a.running - 1, isRunning := false })
    else none
  | .abort handle =>
    if 0 < (s.job handle).running then some (s.modify handle fun a => { a with running := a.running - 1 }) else none

/-! ### Activations -/

/-- No job has two activations. -/
def Single (s : JobThreads) : Prop := ∀ handle, (s.job handle).scheduled + (s.job handle).running ≤ 1

/-- The call schedules no activation next to one that is scheduled already: the pool refuses it, or there is
no such job, or it runs, or nothing is scheduled. -/
def InTurn (s : JobThreads) : Event → Prop
  | .startJob handle pool =>
    pool = .ok () → handle ∈ s.jobs → (s.job handle).isRunning = false → (s.job handle).scheduled = 0
  | _ => True

/-- What holds of a job that has one activation at most: it says that it runs when it does, and one that is
scheduled does not. -/
structure Activity.Sound (a : Activity) : Prop where
  single : a.scheduled + a.running ≤ 1
  isRunning : 0 < a.running → a.isRunning = true
  not_isRunning : 0 < a.scheduled → a.isRunning = false

/-- Every job is sound. -/
def Inv (s : JobThreads) : Prop := ∀ handle, (s.job handle).Sound

theorem sound_new : Activity.new.Sound := ⟨by decide, by decide, by decide⟩

theorem inv_new : Inv new := fun _ => sound_new

theorem Inv.single {s : JobThreads} (h : Inv s) : Single s := fun handle => (h handle).single

/-- A job that has changed is sound, and the others are as they were. -/
theorem Inv.modify {s : JobThreads} (h : Inv s) {handle : ℕ} {f : Activity → Activity} (hf : (f (s.job handle)).Sound) :
    Inv (s.modify handle f) := by
  intro handle'
  by_cases he : handle' = handle
  · subst he
    rwa [job_modify_self]
  · rw [job_modify_of_ne s he]
    exact h handle'

/-- A call that only sets flags. -/
theorem inv_withJob {s : JobThreads} (h : Inv s) {handle : ℕ} {f : Activity → Activity}
    (hf : ∀ a, (f a).scheduled = a.scheduled ∧ (f a).running = a.running ∧ (f a).isRunning = a.isRunning) :
    Inv (s.withJob handle f).2 := by
  unfold withJob
  split_ifs
  · apply h.modify
    obtain ⟨hscheduled, hrunning, hflag⟩ := hf (s.job handle)
    obtain ⟨hsingle, hup, hdown⟩ := h handle
    constructor
    · rwa [hscheduled, hrunning]
    · rwa [hrunning, hflag]
    · rwa [hscheduled, hflag]
  · exact h

/-- **When `StartJob` schedules an activation**: there is such a job, it does not say that it runs, and the
pool takes it. -/
theorem startJob_scheduled (s : JobThreads) (handle : ℕ) (pool : Except Exception Unit) :
    (s.startJob handle pool).2 =
      if pool = .ok () ∧ handle ∈ s.jobs ∧ (s.job handle).isRunning = false then
        (s.resumeJobWithoutLock handle).2.modify handle fun a => { a with scheduled := a.scheduled + 1 }
      else (s.resumeJobWithoutLock handle).2 := by
  unfold startJob resumeJobWithoutLock withJob
  by_cases hjobs : handle ∈ s.jobs
  · cases hrunning : (s.job handle).isRunning <;> cases pool <;> simp [hjobs, hrunning]
  · simp [hjobs]

/-- An event that is in turn keeps every job sound. -/
theorem inv_step {s t : JobThreads} {e : Event} (hs : Inv s) (he : InTurn s e) (h : step s e = some t) : Inv t := by
  cases e with
  | addNewJob =>
    cases h
    exact hs
  | startJob handle pool =>
    cases h
    rw [startJob_scheduled]
    have hresumed : Inv (s.resumeJobWithoutLock handle).2 := inv_withJob hs fun _ => ⟨rfl, rfl, rfl⟩
    split_ifs with hstart
    · obtain ⟨hpool, hjobs, hrunning⟩ := hstart
      apply hresumed.modify
      have hscheduled := he hpool hjobs hrunning
      have hzero : (s.job handle).running = 0 := by
        by_contra hne
        rw [(hs handle).isRunning (Nat.pos_of_ne_zero hne)] at hrunning
        cases hrunning
      simp only [resumeJobWithoutLock, withJob, hjobs, if_true, job_modify_self]
      refine ⟨?_, ?_, fun _ => hrunning⟩
      · simp only
        omega
      · simp only
        omega
    · exact hresumed
  | stopJob handle | pauseJob handle | resumeJob handle | removeJob handle =>
    cases h
    exact inv_withJob hs fun _ => ⟨rfl, rfl, rfl⟩
  | eraseJob handle =>
    rw [step] at h
    split_ifs at h
    cases h
    exact hs
  | begin handle =>
    rw [step] at h
    split_ifs at h with hscheduled
    cases h
    have hsingle := (hs handle).single
    apply hs.modify
    constructor
    · simp only
      omega
    · exact fun _ => rfl
    · simp only
      omega
  | finish handle =>
    rw [step] at h
    split_ifs at h with hrunning
    cases h
    have hsingle := (hs handle).single
    apply hs.modify
    constructor
    · simp only
      omega
    · simp only
      omega
    · exact fun _ => rfl
  | abort handle =>
    rw [step] at h
    split_ifs at h with hrunning
    cases h
    have hsingle := (hs handle).single
    apply hs.modify
    constructor
    · simp only
      omega
    · simp only
      omega
    · simp only
      omega

/-- A call that is not in turn makes two activations. -/
theorem not_single_of_not_inTurn {s t : JobThreads} {e : Event} (he : ¬InTurn s e) (h : step s e = some t) :
    ¬Single t := by
  cases e with
  | startJob handle pool =>
    cases h
    simp only [InTurn, Classical.not_imp] at he
    obtain ⟨hpool, hjobs, hrunning, hscheduled⟩ := he
    intro hsingle
    have hle := hsingle handle
    simp only [startJob_scheduled, hpool, hjobs, hrunning, true_and, if_true, resumeJobWithoutLock, withJob, job_modify_self] at hle
    omega
  | addNewJob | stopJob | pauseJob | resumeJob | removeJob | eraseJob | begin | finish | abort =>
    exact absurd trivial he

/-- **Single activation.** Over a run, no job ever has two activations, scheduled or running, if and only if
every `StartJob` is in turn. -/
theorem single_iff {events : List Event} {s : JobThreads} (hrun : exec step new events = some s) :
    Always step InTurn new events ↔ Throughout step Single new events :=
  always_iff_throughout inv_step Inv.single (fun _ => not_single_of_not_inTurn) hrun inv_new

/-- **Two activations.** The second call comes before the thread has begun. -/
theorem two_activations :
    ∃ s, exec step new [.addNewJob, .startJob 0 (.ok ()), .startJob 0 (.ok ())] = some s ∧
      (s.job 0).scheduled = 2 ∧ ¬Single s :=
  ⟨_, rfl, rfl, fun h => absurd (h 0) (by decide)⟩

/-- The second call comes after it has. -/
theorem single_iff_inTurn :
    ∃ s, exec step new [.addNewJob, .startJob 0 (.ok ()), .begin 0, .startJob 0 (.ok ())] = some s ∧
      (Always step InTurn new [.addNewJob, .startJob 0 (.ok ()), .begin 0, .startJob 0 (.ok ())] ↔
        Throughout step Single new [.addNewJob, .startJob 0 (.ok ()), .begin 0, .startJob 0 (.ok ())]) :=
  ⟨_, rfl, single_iff rfl⟩

end JobThreads

end CoolDown
