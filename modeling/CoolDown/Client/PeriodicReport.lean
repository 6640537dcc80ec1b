import CoolDown.Client.Collector
import CoolDown.Library.Run

/-!
# A report every thirty seconds

Each job has a countdown to its next report. The collector takes one off every second, and sets it back when it comes
to zero while the job is running. When it comes to zero while the job is not running it goes on below zero, and does
not come back.

## The model

An `Agenda` is what the collector goes through, with the next handle. A `tick` is a whole round of it. In between, jobs
are added, start running and finish, and are removed, what is to be reported is taken away, and whatever else a job
keeps in its `downloadInfo` changes. Nobody else touches the countdown.

## What is proved

* `step_inPeriod`: a tick that is `Punctual` keeps the countdown of a job between one and thirty.
* `reports_in_time`: and there is a report before it has come to zero.
* `periodic_report`: so it is in a run of such ticks, from an empty client on.
* `never_again`: a job that is added and not started for thirty seconds.
-/

namespace CoolDown

open Library Collector

/-- The jobs and their reports, with `job_index_`. -/
structure Agenda where
  desk : Desk
  jobIndex : ℕ
  deriving DecidableEq

namespace Agenda

/-- What can happen. -/
inductive Action where
  /-- The collector's round. -/
  | tick
  /-- `AddNewJob`. -/
  | add (trackerAddress : String) (d : DownloadInfo)
  /-- `RemoveJob`. -/
  | remove (handle : ℕ)
  /-- The job starts running, or has finished. -/
  | setRunning (handle : ℕ) (isRunning : Bool)
  /-- Something else of the job becomes what it is there. -/
  | rest (handle : ℕ) (d : DownloadInfo)
  /-- `ReportProgressRoutine` takes what is to be reported. -/
  | take
  deriving DecidableEq

/-- A client without jobs. -/
def new : Agenda := ⟨⟨∅, []⟩, 0⟩

/-- Something becomes of a job, if it is there. -/
def update (s : Agenda) (handle : ℕ) (f : Listed → Listed) : Agenda :=
  match s.desk.jobs.find? handle with
  | none => s
  | some j => { s with desk := { s.desk with jobs := s.desk.jobs.insert handle (f j) } }

variable (percentage : Bitmap → Int32)

/-- One step. -/
def step (s : Agenda) : Action → Option Agenda
  | .tick => some { s with desk := onJobInfoCollectorWakeUp percentage s.desk }
  | .add trackerAddress d =>
    let j : Listed := ⟨false, trackerAddress, { d with timeToNextReport := DownloadInfo.reportPeriod }⟩
    some ⟨{ s.desk with jobs := s.desk.jobs.insert s.jobIndex j }, s.jobIndex + 1⟩
  | .remove handle => some { s with desk := { s.desk with jobs := s.desk.jobs.erase handle } }
  | .setRunning handle isRunning => some (s.update handle fun j => { j with isRunning := isRunning })
  | .rest handle d => some (s.update handle fun j =>
      { j with downloadInfo := { d with timeToNextReport := j.downloadInfo.timeToNextReport } })
  | .take => some { s with desk := { s.desk with progressInfoToReport := [] } }

variable {percentage} {s s' : Agenda} {a : Action} {handle : ℕ}

/-- The job with a handle. -/
def job (s : Agenda) (handle : ℕ) : Option Listed := s.desk.jobs.find? handle

/-- Its countdown is between one and `report_period`. -/
def InPeriod (s : Agenda) (handle : ℕ) : Prop :=
  ∀ j ∈ s.job handle, 1 ≤ j.downloadInfo.timeToNextReport ∧ j.downloadInfo.timeToNextReport ≤ DownloadInfo.reportPeriod

/-- If it is a tick: the job is running if it is its last second, and no job has a null bitmap. -/
def Punctual (handle : ℕ) (s : Agenda) (a : Action) : Prop :=
  a = .tick → (∀ j ∈ s.job handle, j.downloadInfo.timeToNextReport = 1 → j.isRunning) ∧ s.desk.HasBitmaps

/-- If it is a tick, the job is running. -/
def Running (handle : ℕ) (s : Agenda) (a : Action) : Prop := a = .tick → ∃ j ∈ s.job handle, j.isRunning

variable (percentage) in
/-- A tick now queues a `ProgressInfo` for every file of the job. -/
def Reports (handle : ℕ) (s : Agenda) : Prop :=
  ∃ j ∈ s.job handle, Covers percentage j.trackerAddress j.downloadInfo
    (onJobInfoCollectorWakeUp percentage s.desk).progressInfoToReport

theorem job_update (s : Agenda) (handle' : ℕ) (f : Listed → Listed) (handle : ℕ) :
    (s.update handle' f).job handle = if handle' = handle then (s.job handle).map f else s.job handle := by
  unfold update job
  split
  · next hnone =>
    split_ifs with heq
    · rw [← heq, hnone]
      rfl
    · rfl
  · next j hj =>
    rw [SortedMap.find?_insert]
    split_ifs with heq
    · rw [← heq, hj]
      rfl
    · rfl

/-- The countdown of a job that is punctual. -/
theorem collected_time {j : Listed} (hlast : j.downloadInfo.timeToNextReport = 1 → j.isRunning) :
    (j.collected percentage).downloadInfo.timeToNextReport =
      if j.downloadInfo.timeToNextReport = 1 then DownloadInfo.reportPeriod else j.downloadInfo.timeToNextReport - 1 := by
  rw [Listed.collected, collectJob_time]
  split_ifs with hone
  · rw [hlast hone, countdown_of_running hone]
  · rw [countdown_of_ne_one hone]

/-! ### The countdown -/

/-- One second less. -/
theorem toInt_sub_one {t : Int32} (hone : 1 ≤ t) (hperiod : t ≤ DownloadInfo.reportPeriod) :
    (t - 1).toInt = t.toInt - 1 := by
  have hone := Int32.le_iff_toInt_le.mp hone
  have hperiod := Int32.le_iff_toInt_le.mp hperiod
  have h30 : DownloadInfo.reportPeriod.toInt = 30 := by decide
  rw [Int32.toInt_one] at hone
  rw [Int32.toInt_sub, Int32.toInt_one]
  exact Int.bmod_eq_of_le (by omega) (by omega)

/-- A second that is not the last one leaves the countdown where it should be. -/
theorem sub_one_inPeriod {t : Int32} (hone : 1 ≤ t) (hperiod : t ≤ DownloadInfo.reportPeriod) (hne : t ≠ 1) :
    1 ≤ t - 1 ∧ t - 1 ≤ DownloadInfo.reportPeriod := by
  have hsub := toInt_sub_one hone hperiod
  have hne' : t.toInt ≠ 1 := fun h => hne (Int32.toInt_inj.mp (h.trans Int32.toInt_one.symm))
  rw [Int32.le_iff_toInt_le, Int32.toInt_one] at hone ⊢
  rw [Int32.le_iff_toInt_le] at hperiod ⊢
  omega

/-- The job after a tick. -/
theorem job_tick (hbitmaps : s.desk.HasBitmaps) (h : step percentage s .tick = some s') (handle : ℕ) :
    s'.job handle = (s.job handle).map (Listed.collected percentage) := by
  cases h
  exact (wakeUp_of_hasBitmaps hbitmaps handle).1

/-- **What a step that is no tick makes of a job**: nothing of its countdown. -/
theorem job_of_ne_tick (htick : a ≠ .tick) (h : step percentage s a = some s') {j' : Listed} (hj' : j' ∈ s'.job handle) :
    (∃ j ∈ s.job handle, j'.downloadInfo.timeToNextReport = j.downloadInfo.timeToNextReport) ∨
      handle = s.jobIndex ∧ handle < s'.jobIndex ∧ j'.downloadInfo.timeToNextReport = DownloadInfo.reportPeriod := by
  -- a job to which something becomes that leaves its countdown alone
  have hupdate : ∀ (handle' : ℕ) (f : Listed → Listed),
      j' ∈ (s.update handle' f).job handle →
      (∀ j, (f j).downloadInfo.timeToNextReport = j.downloadInfo.timeToNextReport) →
      ∃ j ∈ s.job handle, j'.downloadInfo.timeToNextReport = j.downloadInfo.timeToNextReport := by
    intro handle' f hmem hf
    rw [job_update] at hmem
    split_ifs at hmem
    · obtain ⟨j, hj, rfl⟩ := Option.mem_map.mp hmem
      exact ⟨j, hj, hf j⟩
    · exact ⟨j', hmem, rfl⟩
  cases a with
  | tick => exact absurd rfl htick
  | add trackerAddress d =>
    cases h
    have hfind := Option.mem_def.mp hj'
    rw [job, SortedMap.find?_insert] at hfind
    split_ifs at hfind with heq
    · cases hfind
      exact .inr ⟨heq.symm, heq ▸ Nat.lt_succ_self _, rfl⟩
    · exact .inl ⟨j', hfind, rfl⟩
  | remove handle' =>
    cases h
    have hfind := Option.mem_def.mp hj'
    rw [job, SortedMap.find?_erase] at hfind
    split_ifs at hfind
    exact .inl ⟨j', hfind, rfl⟩
  | setRunning handle' isRunning => cases h; exact .inl (hupdate _ _ hj' fun _ => rfl)
  | rest handle' d => cases h; exact .inl (hupdate _ _ hj' fun _ => rfl)
  | take => cases h; exact .inl ⟨j', hj', rfl⟩

/-- **A tick that is punctual keeps the countdown** between one and thirty, and so does everything else. -/
theorem step_inPeriod (hs : s.InPeriod handle) (ha : Punctual handle s a) (h : step percentage s a = some s') :
    s'.InPeriod handle := by
  intro j' hj'
  by_cases htick : a = .tick
  · subst htick
    obtain ⟨hlast, hbitmaps⟩ := ha rfl
    rw [job_tick hbitmaps h] at hj'
    obtain ⟨j, hj, rfl⟩ := Option.mem_map.mp hj'
    obtain ⟨hone, hperiod⟩ := hs j hj
    rw [collected_time (hlast j hj)]
    split_ifs with hend
    · exact ⟨by decide, by decide⟩
    · exact sub_one_inPeriod hone hperiod hend
  · rcases job_of_ne_tick htick h hj' with ⟨j, hj, htime⟩ | ⟨-, -, htime⟩
    · rw [htime]
      exact hs j hj
    · rw [htime]
      exact ⟨by decide, by decide⟩

/-! ### The report -/

theorem exists_step (s : Agenda) (a : Action) : ∃ t, step percentage s a = some t := by
  cases a <;> exact ⟨_, rfl⟩

theorem jobIndex_update (s : Agenda) (handle : ℕ) (f : Listed → Listed) : (s.update handle f).jobIndex = s.jobIndex := by
  unfold update
  split <;> rfl

/-- Handles are not given back. -/
theorem jobIndex_le (h : step percentage s a = some s') : s.jobIndex ≤ s'.jobIndex := by
  cases a with
  | add => cases h; exact Nat.le_succ _
  | setRunning | rest => cases h; exact (jobIndex_update s _ _).ge
  | tick | remove | take => cases h; exact le_rfl

/-- A handle that has been given out, if there is a job with it. -/
def Known (s : Agenda) (handle : ℕ) : Prop := ∀ j ∈ s.job handle, handle < s.jobIndex

theorem step_known (hs : s.Known handle) (ha : Punctual handle s a) (h : step percentage s a = some s') :
    s'.Known handle := by
  intro j' hj'
  have hle := jobIndex_le h
  by_cases htick : a = .tick
  · subst htick
    rw [job_tick (ha rfl).2 h] at hj'
    obtain ⟨j, hj, -⟩ := Option.mem_map.mp hj'
    exact (hs j hj).trans_le hle
  · rcases job_of_ne_tick htick h hj' with ⟨j, hj, -⟩ | ⟨-, hlt, -⟩
    · exact (hs j hj).trans_le hle
    · exact hlt

/-- **A report in time.** As many punctual ticks as the countdown says, with the job running at each, and one of them
reports. -/
theorem reports_in_time {as : List Action} (hperiod : s.InPeriod handle) (hknown : handle < s.jobIndex)
    (htime : ∀ j ∈ s.job handle, j.downloadInfo.timeToNextReport.toInt ≤ as.count .tick) (hticks : 1 ≤ as.count .tick)
    (hpunctual : Always (step percentage) (Punctual handle) s as)
    (hrunning : Always (step percentage) (Running handle) s as) :
    ∃ as₁ as₂ t, as = as₁ ++ .tick :: as₂ ∧ exec (step percentage) s as₁ = some t ∧ t.Reports percentage handle := by
  induction as generalizing s with
  | nil => cases hticks
  | cons a as ih =>
    obtain ⟨t, ht⟩ := @exists_step percentage s a
    have hnext := step_inPeriod hperiod hpunctual.1 ht
    have hknown' := hknown.trans_le (jobIndex_le ht)
    -- what comes after this step
    have hlater : (∀ j ∈ t.job handle, j.downloadInfo.timeToNextReport.toInt ≤ as.count .tick) → 1 ≤ as.count .tick →
        ∃ as₁ as₂ u, a :: as = as₁ ++ .tick :: as₂ ∧ exec (step percentage) s as₁ = some u ∧
          u.Reports percentage handle := by
      intro htime hticks
      obtain ⟨as₁, as₂, u, rfl, hu, hreports⟩ := ih hnext hknown' htime hticks (hpunctual.2 t ht) (hrunning.2 t ht)
      exact ⟨a :: as₁, as₂, u, rfl, exec_cons_eq_some.mpr ⟨t, ht, hu⟩, hreports⟩
    by_cases htick : a = .tick
    · subst htick
      obtain ⟨hlast, hbitmaps⟩ := hpunctual.1 rfl
      obtain ⟨j, hj, hrun⟩ := hrunning.1 rfl
      obtain ⟨hone, hle⟩ := hperiod j hj
      have hcount := htime j hj
      rw [List.count_cons_self] at hcount
      by_cases hend : j.downloadInfo.timeToNextReport = 1
      · have hdue : (countdown j.isRunning j.downloadInfo).1 = true := by rw [hrun, countdown_of_running hend]
        exact ⟨[], as, s, rfl, rfl, j, hj, (wakeUp_of_hasBitmaps hbitmaps handle).2 j hj hdue⟩
      · have hsub := toInt_sub_one hone hle
        have hone' := Int32.le_iff_toInt_le.mp hone
        have hne : j.downloadInfo.timeToNextReport.toInt ≠ 1 :=
          fun h => hend (Int32.toInt_inj.mp (h.trans Int32.toInt_one.symm))
        rw [Int32.toInt_one] at hone'
        refine hlater ?_ (by omega)
        intro j' hj'
        rw [job_tick hbitmaps ht] at hj'
        obtain ⟨j₀, hj₀, rfl⟩ := Option.mem_map.mp hj'
        obtain rfl := Option.mem_unique hj hj₀
        rw [collected_time (hlast j hj), if_neg hend, hsub]
        omega
    · have hcount : (a :: as).count .tick = as.count .tick := List.count_cons_of_ne htick
      rw [hcount] at htime hticks
      refine hlater ?_ hticks
      intro j' hj'
      rcases job_of_ne_tick htick ht hj' with ⟨j, hj, hsame⟩ | ⟨hnew, -, -⟩
      · rw [hsame]
        exact htime j hj
      · exact absurd hnew hknown.ne

/-- A client starts without jobs. -/
theorem notMem_job_new (j : Listed) : j ∉ new.job handle := by
  rw [job, new, SortedMap.find?_empty]
  exact Option.not_mem_none j

/-- **The periodic report.** In a run of a client all of whose ticks find the job running in its last second, and no
null bitmap, the countdown of the job stays between one and thirty; and when the job is running at thirty ticks from
there on, one of them queues a `ProgressInfo` for every file of it. -/
theorem periodic_report {as : List Action} (hpunctual : Always (step percentage) (Punctual handle) new as)
    (h : exec (step percentage) new as = some s) :
    s.InPeriod handle ∧
      ∀ j ∈ s.job handle, ∀ bs : List Action, DownloadInfo.reportPeriod.toInt ≤ bs.count .tick →
        Always (step percentage) (Punctual handle) s bs → Always (step percentage) (Running handle) s bs →
        ∃ bs₁ bs₂ t, bs = bs₁ ++ .tick :: bs₂ ∧ exec (step percentage) s bs₁ = some t ∧ t.Reports percentage handle := by
  obtain ⟨hperiod, hknown⟩ : s.InPeriod handle ∧ s.Known handle :=
    exec_invariant_of_always (I := fun s => s.InPeriod handle ∧ s.Known handle)
      (fun hs ha hstep => ⟨step_inPeriod hs.1 ha hstep, step_known hs.2 ha hstep⟩) hpunctual h
      ⟨fun j hj => absurd hj (notMem_job_new j), fun j hj => absurd hj (notMem_job_new j)⟩
  refine ⟨hperiod, fun j hj bs hticks hpunctual hrunning => ?_⟩
  refine reports_in_time hperiod (hknown j hj) ?_ ?_ hpunctual hrunning
  · intro j hj
    exact (Int32.le_iff_toInt_le.mp (hperiod j hj).2).trans hticks
  · have h30 : DownloadInfo.reportPeriod.toInt = 30 := by decide
    omega

/-- A job of one file. -/
def oneFile : DownloadInfo :=
  { DownloadInfo.new 0 0 with bitmapMap := (∅ : SortedMap String (Option Bitmap)).insert "f" (some [true]) }

/-- It is added, and started at once. -/
def startedAtOnce : List Action := [.add "tracker" oneFile, .setRunning 0 true]

/-- A job is added, and not started for thirty seconds. -/
def notStarted : List Action := .add "tracker" (.new 0 0) :: List.replicate 30 .tick

/-- The end of a run. -/
def endOf (as : List Action) : Agenda := (exec (step fun _ => 0) new as).getD new

instance (handle : ℕ) (s : Agenda) (a : Action) : Decidable (Punctual handle s a) :=
  inferInstanceAs (Decidable (a = .tick → (∀ j ∈ s.job handle, _ → _) ∧ s.desk.HasBitmaps))

instance (handle : ℕ) (s : Agenda) (a : Action) : Decidable (Running handle s a) :=
  inferInstanceAs (Decidable (a = .tick → ∃ j ∈ s.job handle, _))

/-- The report of a job that is started at once. -/
theorem periodic_report_startedAtOnce :
    ∃ bs₁ bs₂ t, List.replicate 30 Action.tick = bs₁ ++ .tick :: bs₂ ∧
      exec (step fun _ => 0) (endOf startedAtOnce) bs₁ = some t ∧ t.Reports (fun _ => 0) 0 := by
  have hjob : (endOf startedAtOnce).job 0 = some ⟨true, "tracker", oneFile⟩ := by decide
  exact (@periodic_report (fun _ => 0) (endOf startedAtOnce) 0 startedAtOnce (by decide) (by decide)).2 _ hjob
    (List.replicate 30 .tick) (by decide) (by decide) (by decide)

/-- **A countdown that does not come back**: it has come to zero before the job is started. -/
theorem never_again :
    ¬ ∀ (as : List Action) (s : Agenda) (handle : ℕ), exec (step fun _ => 0) new as = some s → s.InPeriod handle := by
  intro h
  have hrun : exec (step fun _ => 0) new notStarted = some (endOf notStarted) := by decide
  have hjob : (endOf notStarted).job 0 = some ⟨false, "tracker", { DownloadInfo.new 0 0 with timeToNextReport := 0 }⟩ := by
    decide
  exact absurd (h _ _ 0 hrun _ hjob).1 (by decide)

end Agenda

end CoolDown
