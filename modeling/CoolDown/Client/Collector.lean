import CoolDown.Client.JobInfo

/-!
# The collector: `onJobInfoCollectorWakeUp`

Every second a timer goes through the jobs. For each it takes a copy of the bytes of this second, counts down to
the next report to the tracker, looks at every file's bitmap, adds the copies to the totals, and sets the counters
to zero. What is to be reported is handed over after the last job.

## The model

The tasks of a job go on meanwhile, so that the collector's part of a job is a small-step machine: a `Phase` is a
place in it with its local variables, and `step` takes one step from there, with what it pushes onto the list of
reports. `collectJob` is the same part in one piece. A null bitmap is dereferenced, and the exception ends the
whole round. The percentage of a bitmap is taken with `double`s; it is a parameter. The broadcast at the end wakes
tasks, which look again at what they wait for.

## What is proved

* `alone_collectJob`: the machine, left alone, does what `collectJob` does.
* `countdown_of_ne_one`, `countdown_of_running`: what becomes of the countdown.
* `collectFile_eq_ok`, `fst_collectJob`, `snd_collectJob`: what the parts in one piece come to.
* `step_countdown`, `step_files`: where the longer steps lead, and what they leave alone.
* `wakeUp_of_hasBitmaps`: what a round does when no bitmap is null.
* `bitmapMap_collectJobs`, `mem_of_collectJobs`: a round leaves the bitmaps, and reports what they come to.
-/

namespace CoolDown

open Library

/-- `ProgressInfo`. -/
structure ProgressInfo where
  trackerAddress : String
  fileid : String
  percentage : Int32
  deriving DecidableEq

namespace Collector

/-- A place in the part of a job. -/
inductive Phase where
  /-- Not there; about to read `bytes_upload_this_second`. -/
  | away
  /-- Left by an exception; about to read `bytes_upload_this_second` the next time. -/
  | threw
  /-- About to read `bytes_download_this_second`. -/
  | readDownload (upload : UInt64)
  /-- About to count down. -/
  | countdown (upload download : UInt64)
  /-- About to look at the first of these files. -/
  | files (upload download : UInt64) (needToReport : Bool) (rest : List String)
  /-- About to add to `upload_total`. -/
  | addUpload (upload download : UInt64)
  /-- About to add to `download_total`. -/
  | addDownload (download : UInt64)
  /-- About to set `bytes_upload_this_second` to zero. -/
  | zeroUpload
  /-- About to set `bytes_download_this_second` to zero. -/
  | zeroDownload
  deriving DecidableEq

/-- The collector is not in the part of the job. -/
def Phase.Between (ph : Phase) : Prop := ph = .away ∨ ph = .threw

instance (ph : Phase) : Decidable ph.Between := inferInstanceAs (Decidable (_ ∨ _))

/-- Counts down to the next report; whether it is due. -/
def countdown (isRunning : Bool) (d : DownloadInfo) : Bool × DownloadInfo :=
  let d := { d with timeToNextReport := d.timeToNextReport - 1 }
  if d.timeToNextReport = 0 ∧ isRunning = true then (true, { d with timeToNextReport := DownloadInfo.reportPeriod })
  else (false, d)

variable (percentage : Bitmap → Int32) (trackerAddress : String)

/-- One round of the loop over the files. -/
def collectFile (needToReport : Bool) (fileid : String) (d : DownloadInfo) :
    Except Exception (List ProgressInfo × DownloadInfo) :=
  match d.bitmapMap.find? fileid with
  | some (some bits) =>
    .ok (if needToReport then [⟨trackerAddress, fileid, percentage bits⟩] else [],
      { d with percentageMap := d.percentageMap.insert fileid (percentage bits) })
  | some none | none => .error .nullPointer

/-- One step in the part of a job. -/
def step (isRunning : Bool) (d : DownloadInfo) : Phase → Phase × DownloadInfo × List ProgressInfo
  | .away | .threw => (.readDownload d.bytesUploadThisSecond, d, [])
  | .readDownload upload => (.countdown upload d.bytesDownloadThisSecond, d, [])
  | .countdown upload download =>
    let (needToReport, d) := countdown isRunning d
    (.files upload download needToReport d.bitmapMap.keys, d, [])
  | .files upload download _ [] => (.addUpload upload download, d, [])
  | .files upload download needToReport (fileid :: rest) =>
    match collectFile percentage trackerAddress needToReport fileid d with
    | .error _ => (.threw, d, [])
    | .ok (infos, d) => (.files upload download needToReport rest, d, infos)
  | .addUpload upload download => (.addDownload download, { d with uploadTotal := d.uploadTotal + upload }, [])
  | .addDownload download => (.zeroUpload, { d with downloadTotal := d.downloadTotal + download }, [])
  | .zeroUpload => (.zeroDownload, { d with bytesUploadThisSecond := 0 }, [])
  | .zeroDownload => (.away, { d with bytesDownloadThisSecond := 0 }, [])

/-- The loop over the files. -/
def collectFiles (needToReport : Bool) : List String → DownloadInfo → Except Exception (List ProgressInfo) × DownloadInfo
  | [], d => (.ok [], d)
  | fileid :: rest, d =>
    match collectFile percentage trackerAddress needToReport fileid d with
    | .error e => (.error e, d)
    | .ok (infos, d) =>
      let (infos', d) := collectFiles needToReport rest d
      (infos'.map fun infos' => infos ++ infos', d)

/-- The part of a job. -/
def collectJob (isRunning : Bool) (d : DownloadInfo) : Except Exception (List ProgressInfo) × DownloadInfo :=
  let upload := d.bytesUploadThisSecond
  let download := d.bytesDownloadThisSecond
  let (needToReport, d) := countdown isRunning d
  match collectFiles percentage trackerAddress needToReport d.bitmapMap.keys d with
  | (.error e, d) => (.error e, d)
  | (.ok infos, d) =>
    (.ok infos, { d with
      uploadTotal := d.uploadTotal + upload
      downloadTotal := d.downloadTotal + download
      bytesUploadThisSecond := 0
      bytesDownloadThisSecond := 0 })

/-! ### The machine and the part in one piece -/

/-- The machine takes steps and nobody else does; what it pushes. -/
inductive Alone (isRunning : Bool) : Phase × DownloadInfo → List ProgressInfo → Phase × DownloadInfo → Prop where
  | refl (s : Phase × DownloadInfo) : Alone isRunning s [] s
  | cons {ph ph' : Phase} {d d' : DownloadInfo} {out infos : List ProgressInfo} {s : Phase × DownloadInfo}
      (hstep : step percentage trackerAddress isRunning d ph = (ph', d', out)) (hrest : Alone isRunning (ph', d') infos s) :
      Alone isRunning (ph, d) (out ++ infos) s

variable {percentage trackerAddress} {isRunning : Bool}

theorem Alone.trans {s t u : Phase × DownloadInfo} {infos infos' : List ProgressInfo}
    (h : Alone percentage trackerAddress isRunning s infos t) (h' : Alone percentage trackerAddress isRunning t infos' u) :
    Alone percentage trackerAddress isRunning s (infos ++ infos') u := by
  induction h with
  | refl => exact h'
  | cons hstep _ ih =>
    rw [List.append_assoc]
    exact .cons hstep (ih h')

/-- A file with a bitmap. -/
theorem step_files_ok {upload download : UInt64} {needToReport : Bool} {fileid : String} {rest : List String}
    {d d' : DownloadInfo} {infos : List ProgressInfo}
    (h : collectFile percentage trackerAddress needToReport fileid d = .ok (infos, d')) :
    step percentage trackerAddress isRunning d (.files upload download needToReport (fileid :: rest)) =
      (.files upload download needToReport rest, d', infos) := by
  rw [step, h]

/-- A file with none. -/
theorem step_files_error {upload download : UInt64} {needToReport : Bool} {fileid : String} {rest : List String}
    {d : DownloadInfo} {e : Exception}
    (h : collectFile percentage trackerAddress needToReport fileid d = .error e) :
    step percentage trackerAddress isRunning d (.files upload download needToReport (fileid :: rest)) = (.threw, d, []) := by
  rw [step, h]

/-- What the loop over the files leads to. -/
def afterFiles (upload download : UInt64) : Except Exception (List ProgressInfo) → Phase
  | .ok _ => .addUpload upload download
  | .error _ => .threw

/-- The loop over the files. -/
theorem alone_collectFiles (upload download : UInt64) (needToReport : Bool) (rest : List String) (d : DownloadInfo) :
    ∃ infos, (∀ infos', (collectFiles percentage trackerAddress needToReport rest d).1 = .ok infos' → infos = infos') ∧
      Alone percentage trackerAddress isRunning (.files upload download needToReport rest, d) infos
        (afterFiles upload download (collectFiles percentage trackerAddress needToReport rest d).1,
          (collectFiles percentage trackerAddress needToReport rest d).2) := by
  induction rest generalizing d with
  | nil => exact ⟨[], fun _ h => Except.ok.inj h, .cons rfl (.refl _)⟩
  | cons fileid rest ih =>
    rw [collectFiles]
    cases hfile : collectFile percentage trackerAddress needToReport fileid d with
    | error e => exact ⟨[], nofun, .cons (step_files_error hfile) (.refl _)⟩
    | ok r =>
      obtain ⟨infos, d'⟩ := r
      obtain ⟨infos', heq, halone⟩ := ih d'
      refine ⟨infos ++ infos', ?_, ?_⟩
      · cases hrest : (collectFiles percentage trackerAddress needToReport rest d').1 with
        | error e => simp [hrest, Except.map]
        | ok rest' =>
          obtain rfl := heq rest' hrest
          simp [hrest, Except.map]
      · have hafter : afterFiles upload download
            ((collectFiles percentage trackerAddress needToReport rest d').1.map fun infos' => infos ++ infos') =
            afterFiles upload download (collectFiles percentage trackerAddress needToReport rest d').1 := by
          cases (collectFiles percentage trackerAddress needToReport rest d').1 <;> rfl
        simp only [hafter]
        exact .cons (step_files_ok hfile) halone

/-- Where the part of a job ends. -/
def afterJob : Except Exception (List ProgressInfo) → Phase
  | .ok _ => .away
  | .error _ => .threw

/-- **The machine, left alone, does the part of a job in one piece.** -/
theorem alone_collectJob {ph : Phase} (hbetween : ph.Between) (isRunning : Bool) (d : DownloadInfo) :
    ∃ infos, (∀ infos', (collectJob percentage trackerAddress isRunning d).1 = .ok infos' → infos = infos') ∧
      Alone percentage trackerAddress isRunning (ph, d) infos
        (afterJob (collectJob percentage trackerAddress isRunning d).1,
          (collectJob percentage trackerAddress isRunning d).2) := by
  obtain ⟨infos, heq, hfiles⟩ := @alone_collectFiles percentage trackerAddress isRunning d.bytesUploadThisSecond
    d.bytesDownloadThisSecond (countdown isRunning d).1 (countdown isRunning d).2.bitmapMap.keys (countdown isRunning d).2
  have hbegin : step percentage trackerAddress isRunning d ph = (.readDownload d.bytesUploadThisSecond, d, []) := by
    rcases hbetween with rfl | rfl <;> rfl
  refine ⟨infos, ?_⟩
  unfold collectJob
  simp only
  generalize collectFiles percentage trackerAddress (countdown isRunning d).1 (countdown isRunning d).2.bitmapMap.keys
    (countdown isRunning d).2 = r at heq hfiles ⊢
  obtain ⟨r, d'⟩ := r
  cases r with
  | error e => exact ⟨nofun, .cons hbegin (.cons rfl (.cons rfl hfiles))⟩
  | ok infos' =>
    refine ⟨heq, .cons hbegin (.cons rfl (.cons rfl ?_))⟩
    rw [← List.append_nil infos]
    exact hfiles.trans (.cons rfl (.cons rfl (.cons rfl (.cons rfl (.refl _)))))

/-! ### The countdown -/

/-- The countdown changes nothing else. -/
theorem countdown_frame (isRunning : Bool) (d : DownloadInfo) :
    ∃ n, (countdown isRunning d).2 = { d with timeToNextReport := n } := by
  unfold countdown
  simp only
  split_ifs
  · exact ⟨_, rfl⟩
  · exact ⟨_, rfl⟩

/-- The last second of a job that is running. -/
theorem countdown_of_running {d : DownloadInfo} (htime : d.timeToNextReport = 1) :
    countdown true d = (true, { d with timeToNextReport := DownloadInfo.reportPeriod }) := by
  unfold countdown
  simp [htime]

/-- Any other second. -/
theorem countdown_of_ne_one {d : DownloadInfo} (htime : d.timeToNextReport ≠ 1) (isRunning : Bool) :
    countdown isRunning d = (false, { d with timeToNextReport := d.timeToNextReport - 1 }) := by
  have hne : d.timeToNextReport - 1 ≠ 0 := by grind
  unfold countdown
  simp [hne]

/-! ### The files -/

/-- No file of the job has a null bitmap. -/
def HasBitmaps (d : DownloadInfo) : Prop := ∀ e ∈ d.bitmapMap.entries, e.2 ≠ none

instance (d : DownloadInfo) : Decidable (HasBitmaps d) := inferInstanceAs (Decidable (∀ e ∈ d.bitmapMap.entries, _))

/-- A round of the loop stores the percentage of a bitmap that is there. -/
theorem collectFile_eq_ok {needToReport : Bool} {fileid : String} {d d' : DownloadInfo} {infos : List ProgressInfo}
    (h : collectFile percentage trackerAddress needToReport fileid d = .ok (infos, d')) :
    ∃ bits, d.bitmapMap.find? fileid = some (some bits) ∧
      d' = { d with percentageMap := d.percentageMap.insert fileid (percentage bits) } ∧
        infos = if needToReport then [⟨trackerAddress, fileid, percentage bits⟩] else [] := by
  unfold collectFile at h
  split at h
  · next bits hfind =>
    cases h
    exact ⟨bits, hfind, rfl, rfl⟩
  · cases h
  · cases h

/-- It changes the percentage of its file only. -/
theorem collectFile_frame {needToReport : Bool} {fileid : String} {d d' : DownloadInfo} {infos : List ProgressInfo}
    (h : collectFile percentage trackerAddress needToReport fileid d = .ok (infos, d')) :
    ∃ m, d' = { d with percentageMap := m } := by
  obtain ⟨_, -, hd', -⟩ := collectFile_eq_ok h
  exact ⟨_, hd'⟩

theorem collectFiles_frame (needToReport : Bool) (rest : List String) (d : DownloadInfo) :
    ∃ m, (collectFiles percentage trackerAddress needToReport rest d).2 = { d with percentageMap := m } := by
  induction rest generalizing d with
  | nil => exact ⟨_, rfl⟩
  | cons fileid rest ih =>
    rw [collectFiles]
    cases hfile : collectFile percentage trackerAddress needToReport fileid d with
    | error e => exact ⟨_, rfl⟩
    | ok r =>
      obtain ⟨infos, d'⟩ := r
      obtain ⟨m, rfl⟩ := collectFile_frame hfile
      obtain ⟨m', hm'⟩ := ih { d with percentageMap := m }
      exact ⟨m', hm'⟩

theorem step_countdown (upload download : UInt64) (d : DownloadInfo) :
    ∃ needToReport rest n, step percentage trackerAddress isRunning d (.countdown upload download) =
      (.files upload download needToReport rest, { d with timeToNextReport := n }, []) := by
  obtain ⟨n, hn⟩ := countdown_frame isRunning d
  refine ⟨(countdown isRunning d).1, (countdown isRunning d).2.bitmapMap.keys, n, ?_⟩
  rw [← hn]
  rfl

/-- Where a step of the loop over the files leads. -/
theorem step_files (upload download : UInt64) (needToReport : Bool) (rest : List String) (d : DownloadInfo) :
    ∃ ph m infos, step percentage trackerAddress isRunning d (.files upload download needToReport rest) =
        (ph, { d with percentageMap := m }, infos) ∧
      (ph = .threw ∨ ph = .addUpload upload download ∨ ∃ rest', ph = .files upload download needToReport rest') := by
  cases rest with
  | nil => exact ⟨_, _, _, rfl, .inr (.inl rfl)⟩
  | cons fileid rest =>
    cases hfile : collectFile percentage trackerAddress needToReport fileid d with
    | error e => exact ⟨_, _, _, step_files_error hfile, .inl rfl⟩
    | ok r =>
      obtain ⟨infos, d'⟩ := r
      obtain ⟨m, rfl⟩ := collectFile_frame hfile
      exact ⟨_, _, _, step_files_ok hfile, .inr (.inr ⟨rest, rfl⟩)⟩

/-- With all bitmaps there, each file is gone through, and reported if a report is due. -/
theorem collectFiles_of_hasBitmaps {needToReport : Bool} {rest : List String} {d : DownloadInfo} (hbitmaps : HasBitmaps d)
    (hrest : ∀ fileid ∈ rest, fileid ∈ d.bitmapMap.keys) :
    ∃ infos, (collectFiles percentage trackerAddress needToReport rest d).1 = .ok infos ∧
      (needToReport → ∀ fileid ∈ rest, ∃ bits, d.bitmapMap.find? fileid = some (some bits) ∧
        ⟨trackerAddress, fileid, percentage bits⟩ ∈ infos) := by
  induction rest generalizing d with
  | nil => exact ⟨[], rfl, fun _ _ h => absurd h List.not_mem_nil⟩
  | cons fileid rest ih =>
    obtain ⟨hkey, hrest⟩ := List.forall_mem_cons.mp hrest
    obtain ⟨pBitmap, hfind⟩ := SortedMap.mem_keys.mp hkey
    cases pBitmap with
    | none => exact absurd rfl (hbitmaps _ (SortedMap.find?_eq_some.mp hfind))
    | some bits =>
      let d' : DownloadInfo := { d with percentageMap := d.percentageMap.insert fileid (percentage bits) }
      obtain ⟨infos, hinfos, hreported⟩ := @ih d' hbitmaps hrest
      have hfile : collectFile percentage trackerAddress needToReport fileid d =
          .ok (if needToReport then [⟨trackerAddress, fileid, percentage bits⟩] else [], d') := by
        rw [collectFile, hfind]
      refine ⟨(if needToReport then [⟨trackerAddress, fileid, percentage bits⟩] else []) ++ infos, ?_, ?_⟩
      · rw [collectFiles, hfile]
        simp only [hinfos, Except.map]
      · intro hneed fileid' hfileid'
        rcases List.mem_cons.mp hfileid' with rfl | hmem
        · exact ⟨bits, hfind, List.mem_append_left _ (by simp [hneed])⟩
        · obtain ⟨bits', hbits', hinfo⟩ := hreported hneed fileid' hmem
          exact ⟨bits', hbits', List.mem_append_right _ hinfo⟩

/-- The part of a job ends as the loop over its files does. -/
theorem fst_collectJob (isRunning : Bool) (d : DownloadInfo) :
    (collectJob percentage trackerAddress isRunning d).1 =
      (collectFiles percentage trackerAddress (countdown isRunning d).1 (countdown isRunning d).2.bitmapMap.keys
        (countdown isRunning d).2).1 := by
  unfold collectJob
  dsimp only
  split
  · next hfiles => rw [hfiles]
  · next hfiles => rw [hfiles]

/-- After the loop it changes nothing but totals and counters. -/
theorem snd_collectJob (isRunning : Bool) (d : DownloadInfo) :
    ∃ uploadTotal downloadTotal upload download, (collectJob percentage trackerAddress isRunning d).2 =
      { (collectFiles percentage trackerAddress (countdown isRunning d).1 (countdown isRunning d).2.bitmapMap.keys
          (countdown isRunning d).2).2 with
        uploadTotal := uploadTotal
        downloadTotal := downloadTotal
        bytesUploadThisSecond := upload
        bytesDownloadThisSecond := download } := by
  unfold collectJob
  dsimp only
  split
  · next hfiles =>
    rw [hfiles]
    exact ⟨_, _, _, _, rfl⟩
  · next hfiles =>
    rw [hfiles]
    exact ⟨_, _, _, _, rfl⟩

/-- The countdown goes on whatever becomes of the files. -/
theorem collectJob_time (isRunning : Bool) (d : DownloadInfo) :
    (collectJob percentage trackerAddress isRunning d).2.timeToNextReport = (countdown isRunning d).2.timeToNextReport := by
  obtain ⟨m, hm⟩ := @collectFiles_frame percentage trackerAddress (countdown isRunning d).1
    (countdown isRunning d).2.bitmapMap.keys (countdown isRunning d).2
  obtain ⟨_, _, _, _, hsnd⟩ := @snd_collectJob percentage trackerAddress isRunning d
  rw [hsnd, hm]

/-- The bitmaps stay. -/
theorem bitmapMap_collectJob (isRunning : Bool) (d : DownloadInfo) :
    (collectJob percentage trackerAddress isRunning d).2.bitmapMap = d.bitmapMap := by
  obtain ⟨n, hn⟩ := countdown_frame isRunning d
  obtain ⟨m, hm⟩ := @collectFiles_frame percentage trackerAddress (countdown isRunning d).1
    (countdown isRunning d).2.bitmapMap.keys (countdown isRunning d).2
  obtain ⟨_, _, _, _, hsnd⟩ := @snd_collectJob percentage trackerAddress isRunning d
  rw [hsnd, hm, hn]

/-- The files of the job that a report is about, as `infos` reports them. -/
def Covers (percentage : Bitmap → Int32) (trackerAddress : String) (d : DownloadInfo) (infos : List ProgressInfo) : Prop :=
  ∀ fileid ∈ d.bitmapMap.keys, ∃ bits, d.bitmapMap.find? fileid = some (some bits) ∧
    ⟨trackerAddress, fileid, percentage bits⟩ ∈ infos

/-- With all bitmaps there, the part of a job comes to its end, and a report that is due covers all its files. -/
theorem collectJob_of_hasBitmaps {d : DownloadInfo} (hbitmaps : HasBitmaps d) (isRunning : Bool) :
    ∃ infos, (collectJob percentage trackerAddress isRunning d).1 = .ok infos ∧
      ((countdown isRunning d).1 → Covers percentage trackerAddress d infos) := by
  obtain ⟨n, hn⟩ := countdown_frame isRunning d
  have hmap : (countdown isRunning d).2.bitmapMap = d.bitmapMap := by rw [hn]
  have hbitmaps' : HasBitmaps (countdown isRunning d).2 := by
    unfold HasBitmaps
    rw [hmap]
    exact hbitmaps
  obtain ⟨infos, hinfos, hcovers⟩ := @collectFiles_of_hasBitmaps percentage trackerAddress (countdown isRunning d).1
    _ _ hbitmaps' (fun _ h => h)
  refine ⟨infos, (fst_collectJob isRunning d).trans hinfos, fun hdue => ?_⟩
  have hfiles := hcovers hdue
  rw [hmap] at hfiles
  exact hfiles

/-- Each report is of a bitmap that is there. -/
theorem mem_of_collectFiles {trackerAddress : String} {needToReport : Bool} {rest : List String} {d : DownloadInfo}
    {infos : List ProgressInfo} (h : (collectFiles percentage trackerAddress needToReport rest d).1 = .ok infos) :
    ∀ info ∈ infos, ∃ bits, d.bitmapMap.find? info.fileid = some (some bits) ∧ info.percentage = percentage bits := by
  induction rest generalizing d infos with
  | nil =>
    obtain rfl := Except.ok.inj h
    rintro info ⟨⟩
  | cons fileid rest ih =>
    rw [collectFiles] at h
    cases hfile : collectFile percentage trackerAddress needToReport fileid d with
    | error e => simp only [hfile, reduceCtorEq] at h
    | ok r =>
      obtain ⟨infos₁, d'⟩ := r
      obtain ⟨bits, hbits, rfl, rfl⟩ := collectFile_eq_ok hfile
      simp only [hfile] at h
      cases hrest : (collectFiles percentage trackerAddress needToReport rest
          { d with percentageMap := d.percentageMap.insert fileid (percentage bits) }).1 with
      | error e => simp only [hrest, Except.map, reduceCtorEq] at h
      | ok infos₂ =>
        rw [hrest] at h
        obtain rfl := Except.ok.inj h
        intro info hinfo
        rcases List.mem_append.mp hinfo with hinfo | hinfo
        · split_ifs at hinfo
          · obtain rfl := List.mem_singleton.mp hinfo
            exact ⟨bits, hbits, rfl⟩
          · cases hinfo
        · exact ih hrest info hinfo

/-! ### All the jobs -/

/-- A job as the collector finds it in `jobs_`. -/
structure Listed where
  isRunning : Bool
  trackerAddress : String
  downloadInfo : DownloadInfo
  deriving DecidableEq

variable (percentage) in
/-- The loop over `jobs_`. -/
def collectJobs : List (ℕ × Listed) → SortedMap ℕ Listed → Except Exception (List ProgressInfo) × SortedMap ℕ Listed
  | [], jobs => (.ok [], jobs)
  | (handle, j) :: rest, jobs =>
    match collectJob percentage j.trackerAddress j.isRunning j.downloadInfo with
    | (.error e, d) => (.error e, jobs.insert handle { j with downloadInfo := d })
    | (.ok infos, d) =>
      let (infos', jobs) := collectJobs rest (jobs.insert handle { j with downloadInfo := d })
      (infos'.map fun infos' => infos ++ infos', jobs)

/-- The jobs, and `progress_info_to_report_`. -/
structure Desk where
  jobs : SortedMap ℕ Listed
  progressInfoToReport : List ProgressInfo
  deriving DecidableEq

variable (percentage) in
/-- `onJobInfoCollectorWakeUp`. What is still to be reported makes room for what is new. -/
def onJobInfoCollectorWakeUp (s : Desk) : Desk :=
  match collectJobs percentage s.jobs.entries s.jobs with
  | (.error _, jobs) => { s with jobs := jobs }
  | (.ok progressToReport, jobs) =>
    if progressToReport = [] then { s with jobs := jobs } else ⟨jobs, progressToReport⟩

/-- The job after the collector has been there. -/
def Listed.collected (percentage : Bitmap → Int32) (j : Listed) : Listed :=
  { j with downloadInfo := (collectJob percentage j.trackerAddress j.isRunning j.downloadInfo).2 }

/-- A round leaves each job its bitmaps. -/
theorem bitmapMap_collectJobs {es : List (ℕ × Listed)} {jobs₀ jobs : SortedMap ℕ Listed}
    (hes : ∀ e ∈ es, jobs₀.find? e.1 = some e.2)
    (hjobs : ∀ handle j, jobs.find? handle = some j →
      ∃ j₀, jobs₀.find? handle = some j₀ ∧ j.downloadInfo.bitmapMap = j₀.downloadInfo.bitmapMap)
    {handle : ℕ} {j : Listed} (h : (collectJobs percentage es jobs).2.find? handle = some j) :
    ∃ j₀, jobs₀.find? handle = some j₀ ∧ j.downloadInfo.bitmapMap = j₀.downloadInfo.bitmapMap := by
  induction es generalizing jobs with
  | nil => exact hjobs handle j h
  | cons e rest ih =>
    obtain ⟨handle', j'⟩ := e
    obtain ⟨he, hrest⟩ := List.forall_mem_cons.mp hes
    have hinsert : ∀ handle j, (jobs.insert handle' { j' with
        downloadInfo := (collectJob percentage j'.trackerAddress j'.isRunning j'.downloadInfo).2 }).find? handle = some j →
        ∃ j₀, jobs₀.find? handle = some j₀ ∧ j.downloadInfo.bitmapMap = j₀.downloadInfo.bitmapMap := by
      intro handle j hfind
      rw [SortedMap.find?_insert] at hfind
      split_ifs at hfind with heq
      · subst heq
        obtain rfl := Option.some.inj hfind
        exact ⟨j', he, bitmapMap_collectJob _ _⟩
      · exact hjobs handle j hfind
    rw [collectJobs] at h
    split at h
    · next hjob =>
      refine hinsert handle j ?_
      rwa [hjob]
    · next hjob =>
      refine ih hrest hinsert ?_
      rwa [hjob]

/-- A job whose part comes to its end. -/
theorem collectJobs_cons {handle : ℕ} {j : Listed} {infos : List ProgressInfo}
    (h : (collectJob percentage j.trackerAddress j.isRunning j.downloadInfo).1 = .ok infos) (rest : List (ℕ × Listed))
    (jobs : SortedMap ℕ Listed) :
    collectJobs percentage ((handle, j) :: rest) jobs =
      ((collectJobs percentage rest (jobs.insert handle (j.collected percentage))).1.map fun infos' => infos ++ infos',
        (collectJobs percentage rest (jobs.insert handle (j.collected percentage))).2) := by
  rw [collectJobs]
  split
  · next hjob =>
    rw [hjob] at h
    cases h
  · next hjob =>
    rw [hjob] at h
    obtain rfl := Except.ok.inj h
    rw [Listed.collected, hjob]

/-- So it is for all jobs. -/
theorem mem_of_collectJobs {es : List (ℕ × Listed)} {jobs : SortedMap ℕ Listed} {infos : List ProgressInfo}
    (h : (collectJobs percentage es jobs).1 = .ok infos) :
    ∀ info ∈ infos, ∃ e ∈ es, ∃ bits, e.2.downloadInfo.bitmapMap.find? info.fileid = some (some bits) ∧
      info.percentage = percentage bits := by
  induction es generalizing jobs infos with
  | nil =>
    obtain rfl := Except.ok.inj h
    rintro info ⟨⟩
  | cons e es ih =>
    obtain ⟨handle, j⟩ := e
    cases hjob : (collectJob percentage j.trackerAddress j.isRunning j.downloadInfo).1 with
    | error e =>
      rw [collectJobs] at h
      split at h
      · cases h
      · next hok =>
        rw [hok] at hjob
        cases hjob
    | ok infos₁ =>
      rw [collectJobs_cons hjob] at h
      cases hrest : (collectJobs percentage es (jobs.insert handle (j.collected percentage))).1 with
      | error e => simp only [hrest, Except.map, reduceCtorEq] at h
      | ok infos₂ =>
        rw [hrest] at h
        obtain rfl := Except.ok.inj h
        intro info hinfo
        rcases List.mem_append.mp hinfo with hinfo | hinfo
        · rw [fst_collectJob] at hjob
          obtain ⟨bits, hbits, hp⟩ := mem_of_collectFiles hjob info hinfo
          obtain ⟨n, hn⟩ := countdown_frame j.isRunning j.downloadInfo
          rw [hn] at hbits
          exact ⟨_, List.mem_cons_self, bits, hbits, hp⟩
        · obtain ⟨e, he, hbits⟩ := ih hrest info hinfo
          exact ⟨e, List.mem_cons_of_mem _ he, hbits⟩

/-- With all bitmaps there, the round goes through all the jobs, and the reports cover those for which one is due. -/
theorem collectJobs_of_hasBitmaps {es : List (ℕ × Listed)} (hbitmaps : ∀ e ∈ es, HasBitmaps e.2.downloadInfo)
    (jobs : SortedMap ℕ Listed) :
    ∃ infos, (collectJobs percentage es jobs).1 = .ok infos ∧
      ∀ e ∈ es, (countdown e.2.isRunning e.2.downloadInfo).1 →
        Covers percentage e.2.trackerAddress e.2.downloadInfo infos := by
  induction es generalizing jobs with
  | nil => exact ⟨[], rfl, fun _ h => absurd h List.not_mem_nil⟩
  | cons e es ih =>
    obtain ⟨handle, j⟩ := e
    obtain ⟨hj, hes⟩ := List.forall_mem_cons.mp hbitmaps
    obtain ⟨infos, hinfos, hcovers⟩ := @collectJob_of_hasBitmaps percentage j.trackerAddress _ hj j.isRunning
    obtain ⟨infos', hinfos', hcovers'⟩ := ih hes (jobs.insert handle (j.collected percentage))
    refine ⟨infos ++ infos', ?_, ?_⟩
    · rw [collectJobs_cons hinfos, hinfos']
      rfl
    · intro e he hdue fileid hfileid
      rcases List.mem_cons.mp he with rfl | he
      · obtain ⟨bits, hbits, hmem⟩ := hcovers hdue fileid hfileid
        exact ⟨bits, hbits, List.mem_append_left _ hmem⟩
      · obtain ⟨bits, hbits, hmem⟩ := hcovers' e he hdue fileid hfileid
        exact ⟨bits, hbits, List.mem_append_right _ hmem⟩

/-- The round leaves the other handles as they are. -/
theorem find?_collectJobs_of_notMem {es : List (ℕ × Listed)} (hbitmaps : ∀ e ∈ es, HasBitmaps e.2.downloadInfo)
    {handle : ℕ} (hnew : handle ∉ es.map Prod.fst) (jobs : SortedMap ℕ Listed) :
    (collectJobs percentage es jobs).2.find? handle = jobs.find? handle := by
  induction es generalizing jobs with
  | nil => rfl
  | cons e es ih =>
    obtain ⟨handle', j⟩ := e
    obtain ⟨hj, hes⟩ := List.forall_mem_cons.mp hbitmaps
    obtain ⟨infos, hinfos, -⟩ := @collectJob_of_hasBitmaps percentage j.trackerAddress _ hj j.isRunning
    rw [List.map_cons, List.mem_cons, not_or] at hnew
    rw [collectJobs_cons hinfos]
    exact (ih hes hnew.2 _).trans (SortedMap.find?_insert_of_ne _ (Ne.symm hnew.1))

/-- It collects each job once. -/
theorem find?_collectJobs_of_mem {es : List (ℕ × Listed)} (hbitmaps : ∀ e ∈ es, HasBitmaps e.2.downloadInfo)
    (hnodup : (es.map Prod.fst).Nodup) {handle : ℕ} {j : Listed} (hmem : (handle, j) ∈ es) (jobs : SortedMap ℕ Listed) :
    (collectJobs percentage es jobs).2.find? handle = some (j.collected percentage) := by
  induction es generalizing jobs with
  | nil => cases hmem
  | cons e es ih =>
    obtain ⟨handle', j'⟩ := e
    obtain ⟨hj, hes⟩ := List.forall_mem_cons.mp hbitmaps
    obtain ⟨infos, hinfos, -⟩ := @collectJob_of_hasBitmaps percentage j'.trackerAddress _ hj j'.isRunning
    obtain ⟨hnew, hnodup⟩ := List.nodup_cons.mp hnodup
    rw [collectJobs_cons hinfos]
    rcases List.mem_cons.mp hmem with heq | hmem
    · cases heq
      exact (find?_collectJobs_of_notMem hes hnew _).trans (SortedMap.find?_insert_self _ _ _)
    · exact ih hes hnodup hmem _

/-- No job has a null bitmap. -/
def Desk.HasBitmaps (s : Desk) : Prop := ∀ e ∈ s.jobs.entries, Collector.HasBitmaps e.2.downloadInfo

instance (s : Desk) : Decidable s.HasBitmaps := inferInstanceAs (Decidable (∀ e ∈ s.jobs.entries, _))

/-- **A round with no null bitmap** collects each job, and what is to be reported of those for which it is due. -/
theorem wakeUp_of_hasBitmaps {s : Desk} (hbitmaps : s.HasBitmaps) (handle : ℕ) :
    (onJobInfoCollectorWakeUp percentage s).jobs.find? handle = (s.jobs.find? handle).map (Listed.collected percentage) ∧
      ∀ j, s.jobs.find? handle = some j → (countdown j.isRunning j.downloadInfo).1 →
        Covers percentage j.trackerAddress j.downloadInfo (onJobInfoCollectorWakeUp percentage s).progressInfoToReport := by
  obtain ⟨infos, hinfos, hcovers⟩ := @collectJobs_of_hasBitmaps percentage _ hbitmaps s.jobs
  have hjobs : (onJobInfoCollectorWakeUp percentage s).jobs = (collectJobs percentage s.jobs.entries s.jobs).2 := by
    unfold onJobInfoCollectorWakeUp
    split
    · next hround => rw [hround]
    · next hround =>
      rw [hround]
      split_ifs <;> rfl
  constructor
  · rw [hjobs]
    cases hfind : s.jobs.find? handle with
    | none =>
      refine (find?_collectJobs_of_notMem hbitmaps ?_ _).trans hfind
      intro hmem
      obtain ⟨j, hj⟩ := SortedMap.mem_keys.mp hmem
      rw [hj] at hfind
      cases hfind
    | some j => exact find?_collectJobs_of_mem hbitmaps s.jobs.nodup_keys (SortedMap.find?_eq_some.mp hfind) _
  · intro j hj hdue fileid hfileid
    obtain ⟨bits, hbits, hmem⟩ := hcovers (handle, j) (SortedMap.find?_eq_some.mp hj) hdue fileid hfileid
    refine ⟨bits, hbits, ?_⟩
    unfold onJobInfoCollectorWakeUp
    split
    · next hround =>
      rw [hround] at hinfos
      cases hinfos
    · next hround =>
      rw [hround] at hinfos
      obtain rfl := Except.ok.inj hinfos
      rw [if_neg (List.ne_nil_of_mem hmem)]
      exact hmem

end Collector

end CoolDown
