import CoolDown.Client.Collector
import CoolDown.Library.Mailbox
import CoolDown.Library.Run

/-!
# From the collector to the reporter: `ReportProgressRoutine`

The collector swaps the reports of its round with `progress_info_to_report_`, and another thread swaps that with an
empty list of its own and sends one report after another to the tracker. The collector does not look at what the swap
gives it: reports that have not been taken yet by then are gone with the round.

## The model

A round is two steps, `collect` and `handOff`, and the reporter's steps may come in between, as `progress_info_mutex_`
is held for the swap only. The jobs are whatever they are at each round. A null bitmap ends a round with the reports it
has made so far, and an exception from `ReportProgress` ends the reporter's thread with those it has taken. The reporter
may be woken at any time. `produced` and `passed` are the reports of all rounds so far, and those that `ReportProgress`
has been called with.

## What is proved

* `tick`: the two steps are `onJobInfoCollectorWakeUp`.
* `step_mailbox`: what a step does is a step of `Library.Mailbox`, which loses nothing if the step `Keeps`.
* `produced_eq`: in runs of such steps nothing is lost, and the reports go out in the order they were made.
* `accounted_iff`: every report is in one place, once, just when all steps were of this kind.
* `slow_tracker`: two rounds during one send.
-/

namespace CoolDown

open Library Collector

namespace ReportHandOff

/-- Where `ReportProgressRoutine` is. -/
inductive Reporter where
  /-- About to look whether there is something to report. -/
  | loop
  /-- Waiting for `reportProgressCond_`. -/
  | waiting
  /-- About to swap. -/
  | swapping
  /-- About to send the first of these, or done with them. -/
  | sending (progressInfoToReport : List ProgressInfo)
  /-- Out of the loop. -/
  | over
  /-- Left by an exception. -/
  | threw
  deriving DecidableEq

/-- The reports that the reporter has taken and not sent yet. -/
def Reporter.hand : Reporter → List ProgressInfo
  | .sending infos => infos
  | .loop | .waiting | .swapping | .over | .threw => []

/-- What can happen. -/
inductive Action where
  /-- The collector goes through the jobs. -/
  | collect
  /-- It swaps. -/
  | handOff
  /-- The reporter looks whether there is something to report, and whether the client is to exit. -/
  | look
  /-- It is woken. -/
  | wake
  /-- It swaps. -/
  | swap
  /-- It calls `ReportProgress`. -/
  | send (ret : Except Exception Retcode)
  /-- It has sent all and begins again. -/
  | again
  /-- Something becomes of the jobs. -/
  | rest (jobs : SortedMap ℕ Listed)
  /-- `uninitialize`. -/
  | exit

end ReportHandOff

open ReportHandOff in
/-- The collector, the reporter, and what is between them. -/
structure ReportHandOff where
  desk : Desk
  /-- `progress_to_report`, between the two steps of a round. -/
  progressToReport : Option (List ProgressInfo)
  reporter : Reporter
  exiting : Bool
  produced : List ProgressInfo
  passed : List ProgressInfo
  deriving DecidableEq

namespace ReportHandOff

/-- A client that has been started. -/
def new : ReportHandOff := ⟨⟨∅, []⟩, none, .loop, false, [], []⟩

variable (percentage : Bitmap → Int32)

/-- What the loop over the files has made until it ends, or a null bitmap ends it. -/
def pushedFiles (trackerAddress : String) (needToReport : Bool) : List String → DownloadInfo → List ProgressInfo
  | [], _ => []
  | fileid :: rest, d =>
    match collectFile percentage trackerAddress needToReport fileid d with
    | .error _ => []
    | .ok (infos, d) => infos ++ pushedFiles trackerAddress needToReport rest d

/-- What the part of a job has made. -/
def pushedJob (j : Listed) : List ProgressInfo :=
  let (needToReport, d) := countdown j.isRunning j.downloadInfo
  pushedFiles percentage j.trackerAddress needToReport d.bitmapMap.keys d

/-- What a round has made. -/
def pushedJobs : List (ℕ × Listed) → List ProgressInfo
  | [] => []
  | (_, j) :: rest =>
    match (collectJob percentage j.trackerAddress j.isRunning j.downloadInfo).1 with
    | .error _ => pushedJob percentage j
    | .ok _ => pushedJob percentage j ++ pushedJobs rest

/-- One step: `none` where the action is not possible. -/
def step (s : ReportHandOff) : Action → Option ReportHandOff
  | .collect =>
    if s.progressToReport.isSome then none
    else
      match collectJobs percentage s.desk.jobs.entries s.desk.jobs with
      | (.error _, jobs) => some { s with
          desk := { s.desk with jobs := jobs }
          produced := s.produced ++ pushedJobs percentage s.desk.jobs.entries }
      | (.ok infos, jobs) => some { s with desk := { s.desk with jobs := jobs }, progressToReport := some infos }
  | .handOff =>
    match s.progressToReport with
    | none => none
    | some infos =>
      if infos = [] then some { s with progressToReport := none }
      else some { s with
        desk := { s.desk with progressInfoToReport := infos }
        progressToReport := none
        produced := s.produced ++ infos }
  | .look =>
    if s.reporter = .loop then
      if s.desk.progressInfoToReport.length = 0 ∧ s.exiting = false then some { s with reporter := .waiting }
      else if s.exiting = true then some { s with reporter := .over }
      else some { s with reporter := .swapping }
    else none
  | .wake => if s.reporter = .waiting then some { s with reporter := .loop } else none
  | .swap =>
    if s.reporter = .swapping then
      some { s with
        desk := { s.desk with progressInfoToReport := [] }
        reporter := .sending s.desk.progressInfoToReport }
    else none
  | .send ret =>
    match s.reporter with
    | .sending (oneInfo :: rest) =>
      some { s with
        reporter := match ret with | .ok _ => .sending rest | .error _ => .threw
        passed := s.passed ++ [oneInfo] }
    | _ => none
  | .again => if s.reporter = .sending [] then some { s with reporter := .loop } else none
  | .rest jobs => some { s with desk := { s.desk with jobs := jobs } }
  | .exit => some { s with exiting := true }

variable {percentage} {s s' t : ReportHandOff} {a : Action}

/-! ### A round -/

theorem pushedFiles_eq {trackerAddress : String} {needToReport : Bool} {rest : List String} {d : DownloadInfo}
    {infos : List ProgressInfo} (h : (collectFiles percentage trackerAddress needToReport rest d).1 = .ok infos) :
    pushedFiles percentage trackerAddress needToReport rest d = infos := by
  induction rest generalizing d infos with
  | nil => exact Except.ok.inj h
  | cons fileid rest ih =>
    rw [collectFiles] at h
    rw [pushedFiles]
    cases hfile : collectFile percentage trackerAddress needToReport fileid d with
    | error e => simp only [hfile, reduceCtorEq] at h
    | ok r =>
      simp only [hfile] at h ⊢
      cases hrest : (collectFiles percentage trackerAddress needToReport rest r.2).1 with
      | error e => simp only [hrest, Except.map, reduceCtorEq] at h
      | ok infos' =>
        rw [hrest] at h
        rw [ih hrest]
        exact Except.ok.inj h

theorem pushedJob_eq {j : Listed} {infos : List ProgressInfo}
    (h : (collectJob percentage j.trackerAddress j.isRunning j.downloadInfo).1 = .ok infos) :
    pushedJob percentage j = infos := by
  rw [fst_collectJob] at h
  exact pushedFiles_eq h

/-- A round that comes to its end has made what it hands off. -/
theorem pushedJobs_eq {es : List (ℕ × Listed)} {jobs : SortedMap ℕ Listed} {infos : List ProgressInfo}
    (h : (collectJobs percentage es jobs).1 = .ok infos) : pushedJobs percentage es = infos := by
  induction es generalizing jobs infos with
  | nil => exact Except.ok.inj h
  | cons e es ih =>
    obtain ⟨handle, j⟩ := e
    cases hjob : (collectJob percentage j.trackerAddress j.isRunning j.downloadInfo).1 with
    | error e =>
      rw [collectJobs] at h
      split at h
      · cases h
      · next hok =>
        rw [hok] at hjob
        cases hjob
    | ok infos₁ =>
      rw [collectJobs_cons hjob] at h
      cases hrest : (collectJobs percentage es (jobs.insert handle (j.collected percentage))).1 with
      | error e => simp only [hrest, Except.map, reduceCtorEq] at h
      | ok infos₂ =>
        rw [hrest] at h
        rw [pushedJobs, hjob]
        simp only [pushedJob_eq hjob, ih hrest]
        exact Except.ok.inj h

/-- **A round in two steps**, or in one if an exception ends it. -/
theorem tick (h : step percentage s .collect = some t) :
    ∃ u, (u = t ∨ step percentage t .handOff = some u) ∧ u.progressToReport = none ∧
      u.desk = onJobInfoCollectorWakeUp percentage s.desk ∧
      u.produced = s.produced ++ pushedJobs percentage s.desk.jobs.entries := by
  rw [step] at h
  split_ifs at h with hbusy
  have hnone : s.progressToReport = none := Option.not_isSome_iff_eq_none.mp hbusy
  rcases hround : collectJobs percentage s.desk.jobs.entries s.desk.jobs with ⟨r, jobs⟩
  unfold onJobInfoCollectorWakeUp
  rw [hround] at h ⊢
  cases r with
  | error e =>
    obtain rfl := Option.some.inj h
    exact ⟨_, .inl rfl, hnone, rfl, rfl⟩
  | ok infos =>
    obtain rfl := Option.some.inj h
    have hpushed : pushedJobs percentage s.desk.jobs.entries = infos := pushedJobs_eq (congrArg Prod.fst hround)
    rw [hpushed]
    by_cases hempty : infos = []
    · refine ⟨_, .inr (if_pos hempty), rfl, ?_, ?_⟩
      · simp only [if_pos hempty]
      · simp only [hempty, List.append_nil]
    · refine ⟨_, .inr (if_neg hempty), rfl, ?_, rfl⟩
      simp only [if_neg hempty]

/-! ### Nothing is lost -/

/-- What has been sent, taken, and handed off. -/
def mailbox (s : ReportHandOff) : Mailbox ProgressInfo where
  used := s.passed
  hand := s.reporter.hand
  box := s.desk.progressInfoToReport
  sent := s.produced

variable (percentage) in
/-- The step loses nothing: all that was handed off before has been taken, an exception ends no round that has made
something already, and none ends the reporter while it has more to send. -/
def Keeps (s : ReportHandOff) : Action → Prop
  | .collect => ∀ e, (collectJobs percentage s.desk.jobs.entries s.desk.jobs).1 = .error e →
      pushedJobs percentage s.desk.jobs.entries = []
  | .handOff => ∀ infos ∈ s.progressToReport, infos ≠ [] → s.desk.progressInfoToReport = []
  | .send (.error _) => s.reporter.hand.length ≤ 1
  | .look | .wake | .swap | .send (.ok _) | .again | .rest _ | .exit => True

/-- **A step is one of the mailbox**, and what is lost in it is nothing just when it keeps everything. -/
theorem step_mailbox (h : step percentage s a = some s') :
    ∃ lost, Mailbox.Step s.mailbox lost s'.mailbox ∧ (lost = [] ↔ Keeps percentage s a) := by
  have hidle : ∀ {u : ReportHandOff}, u.mailbox = s.mailbox → Mailbox.Step s.mailbox [] u.mailbox :=
    fun he => (Mailbox.Step.idle _).of_eq rfl rfl he
  cases a with
  | collect =>
    rw [step] at h
    split_ifs at h
    split at h
    · next e jobs hround =>
      obtain rfl := Option.some.inj h
      refine ⟨_, Mailbox.Step.spoil (pushedJobs percentage s.desk.jobs.entries) _ _ _ _, ?_⟩
      constructor
      · exact fun hlost _ _ => hlost
      · exact fun hkeeps => hkeeps e (congrArg Prod.fst hround)
    · next infos jobs hround =>
      obtain rfl := Option.some.inj h
      refine ⟨[], hidle rfl, iff_of_true rfl fun e he => ?_⟩
      rw [hround] at he
      cases he
  | handOff =>
    rw [step] at h
    split at h
    · cases h
    · next infos hinfos =>
      split_ifs at h with hempty
      · obtain rfl := Option.some.inj h
        refine ⟨[], hidle rfl, iff_of_true rfl fun infos' hinfos' hne => ?_⟩
        rw [hinfos] at hinfos'
        exact absurd (Option.some.inj hinfos' ▸ hempty) hne
      · obtain rfl := Option.some.inj h
        refine ⟨_, Mailbox.Step.put infos _ _ _ _, ?_⟩
        constructor
        · exact fun hlost _ _ _ => hlost
        · exact fun hkeeps => hkeeps infos hinfos hempty
  | look =>
    rw [step] at h
    split_ifs at h with hloop <;> obtain rfl := Option.some.inj h
    all_goals exact ⟨[], hidle (by simp only [mailbox, hloop, Reporter.hand]), iff_of_true rfl trivial⟩
  | wake =>
    rw [step] at h
    split_ifs at h with hwaiting
    obtain rfl := Option.some.inj h
    exact ⟨[], hidle (by simp only [mailbox, hwaiting, Reporter.hand]), iff_of_true rfl trivial⟩
  | swap =>
    rw [step] at h
    split_ifs at h with hswapping
    obtain rfl := Option.some.inj h
    refine ⟨[], (Mailbox.Step.take _ _ _).of_eq ?_ rfl rfl, iff_of_true rfl trivial⟩
    simp only [mailbox, hswapping, Reporter.hand]
  | send ret =>
    rw [step] at h
    split at h
    · next oneInfo rest hsending =>
      obtain rfl := Option.some.inj h
      have hs : s.mailbox = ⟨s.passed, oneInfo :: rest, s.desk.progressInfoToReport, s.produced⟩ := by
        simp only [mailbox, hsending, Reporter.hand]
      cases ret with
      | ok ret => exact ⟨[], (Mailbox.Step.use oneInfo _ _ _ _).of_eq hs rfl rfl, iff_of_true rfl trivial⟩
      | error e =>
        refine ⟨rest, (Mailbox.Step.giveUp oneInfo _ _ _ _).of_eq hs rfl rfl, ?_⟩
        simp only [Keeps, hsending, Reporter.hand, List.length_cons]
        rw [Nat.succ_le_succ_iff, Nat.le_zero, List.length_eq_zero_iff]
    · cases h
  | again =>
    rw [step] at h
    split_ifs at h with hdone
    obtain rfl := Option.some.inj h
    exact ⟨[], hidle (by simp only [mailbox, hdone, Reporter.hand]), iff_of_true rfl trivial⟩
  | rest jobs => exact ⟨[], hidle (Option.some.inj h ▸ rfl), iff_of_true rfl trivial⟩
  | exit => exact ⟨[], hidle (Option.some.inj h ▸ rfl), iff_of_true rfl trivial⟩

/-- All reports there have been are those sent, then those taken, then those handed off. -/
def InOrder (s : ReportHandOff) : Prop := s.mailbox.sent = s.mailbox.present

theorem step_inOrder (hs : s.InOrder) (ha : Keeps percentage s a) (h : step percentage s a = some s') : s'.InOrder := by
  obtain ⟨lost, hstep, hlost⟩ := step_mailbox h
  obtain rfl := hlost.mpr ha
  exact hstep.inOrder hs

/-- **Nothing is lost, and nothing is sent out of turn**, in a run of steps that keep everything. -/
theorem produced_eq {as : List Action} (hkeeps : Always (step percentage) (Keeps percentage) new as)
    (h : exec (step percentage) new as = some s) :
    s.produced = s.passed ++ s.reporter.hand ++ s.desk.progressInfoToReport :=
  exec_invariant_of_always (I := InOrder) (fun hs ha hstep => step_inOrder hs ha hstep) hkeeps h rfl

/-- A report is where it should be, once: still in `progress_info_to_report_`, taken, or passed to `ReportProgress`. -/
def Accounted (s : ReportHandOff) : Prop := s.mailbox.Accounted

/-- **When the hand-off loses nothing.** Every report that has been made is in one place, as often as it has been made,
just when each step so far has kept everything. -/
theorem accounted_iff {as : List Action} (h : exec (step percentage) new as = some s) :
    Always (step percentage) (Keeps percentage) new as ↔ s.Accounted := by
  constructor
  · intro hkeeps
    exact Mailbox.accounted_of_inOrder (produced_eq hkeeps h)
  · intro haccounted
    have hmissing : ¬ 0 < s.mailbox.missing := by
      rw [Mailbox.Accounted.missing_eq haccounted]
      exact lt_irrefl 0
    refine (always_iff (I := InOrder) (Q := fun s => ¬ 0 < s.mailbox.missing) ?_ ?_ ?_ ?_ h rfl).mpr hmissing
    · exact fun hs ha hstep => step_inOrder hs ha hstep
    · intro s hs
      rw [Mailbox.missing_of_inOrder hs]
      exact lt_irrefl 0
    · intro s a t hs ha hstep hnone
      obtain ⟨lost, hmailbox, hlost⟩ := step_mailbox hstep
      exact hnone (hmailbox.missing_pos_of_lost (Mailbox.missing_of_inOrder hs) (hlost.not.mpr ha))
    · intro s a t hs hstep hnone
      obtain ⟨lost, hmailbox, -⟩ := step_mailbox hstep
      exact hs fun hpos => hnone (hmailbox.missing_pos hpos)

/-- A job that is running, in the last second before its report. -/
def dueJob : SortedMap ℕ Listed :=
  let d : DownloadInfo := { DownloadInfo.new 0 0 with
    timeToNextReport := 1
    bitmapMap := (∅ : SortedMap String (Option Bitmap)).insert "f" (some [true]) }
  (∅ : SortedMap ℕ Listed).insert 0 ⟨true, "tracker", d⟩

/-- A report that is handed off, taken and sent. -/
theorem accounted_iff_oneRound :
    ∃ s, exec (step fun _ => 100) new [.rest dueJob, .collect, .handOff, .look, .swap, .send (.ok .errorOk), .again] =
        some s ∧
      (Always (step fun _ => 100) (Keeps fun _ => 100) new
        [.rest dueJob, .collect, .handOff, .look, .swap, .send (.ok .errorOk), .again] ↔ s.Accounted) := by
  have hrun : exec (step fun _ => 100) new [.rest dueJob, .collect, .handOff, .look, .swap, .send (.ok .errorOk), .again] =
      some ((exec (step fun _ => 100) new
        [.rest dueJob, .collect, .handOff, .look, .swap, .send (.ok .errorOk), .again]).getD new) := by
    decide
  exact ⟨_, hrun, accounted_iff hrun⟩

/-- The reporter sends a report; meanwhile the job has two more. -/
def twoRounds : List Action :=
  [.rest dueJob, .collect, .handOff, .look, .swap, .rest dueJob, .collect, .handOff, .rest dueJob, .collect, .handOff,
    .send (.ok .errorOk), .again]

/-- **A slow tracker**: of two reports that are handed off during one send, the first is lost. -/
theorem slow_tracker :
    ¬ ∀ (as : List Action) (s : ReportHandOff), exec (step fun _ => 100) new as = some s → s.exiting = false →
      s.Accounted := by
  intro h
  have hrun : exec (step fun _ => 100) new twoRounds = some ((exec (step fun _ => 100) new twoRounds).getD new) := by
    decide
  exact absurd (h _ _ hrun (by decide) ⟨"tracker", "f", 100⟩) (by decide)

end ReportHandOff

end CoolDown
