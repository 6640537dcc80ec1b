import CoolDown.Client.CoolClient
import CoolDown.Client.Traffic
import CoolDown.Library.Meter
import Mathlib.Data.UInt

/-!
# What becomes of the bytes

The totals of a job are to say how much has been sent and received since it was there. The collector copies a counter,
goes through all the files, adds the copy to the total, and then sets the counter to zero, with whatever the tasks
have added to it in the meantime.

## The model

Each counter is a `Meter` with its total: a step of a task adds to it, and one of the collector moves the reading on,
or has nothing to do with it. Numbers wrap around at 2^64, in the code and here.

## What is proved

* `CoolClient.reloadOneJob_start`: what a run starts with.
* `collect_uploadMeter`, `collect_downloadMeter`, `step_meters`: every step is one of the meters.
* `totals_conserved_iff`: between two runs of the collector the totals are right just when what has been lost of each is
  a multiple of 2^64, and nothing is lost as long as no task adds at the wrong moment.
* `lost_bytes`: a byte that is lost.
-/

namespace CoolDown

open Library

/-! ### The totals of a job that is reloaded -/

/-- The constructor sets the counters to zero. -/
theorem JobInfo.counters_new (torrent : Torrent) (topPath : String) (needs : List FileIdentityInfo)
    (uploadTotal downloadTotal : UInt64) (fault : String → Option LocalFileInfo.Fault) (disk : Disk) :
    (new torrent topPath needs uploadTotal downloadTotal fault disk).1.downloadInfo.bytesUploadThisSecond = 0 ∧
      (new torrent topPath needs uploadTotal downloadTotal fault disk).1.downloadInfo.bytesDownloadThisSecond = 0 := by
  unfold new
  refine @List.foldlRecOn _ _ (fun s : JobInfo × Disk =>
    s.1.downloadInfo.bytesUploadThisSecond = 0 ∧ s.1.downloadInfo.bytesDownloadThisSecond = 0) _ _ _ ⟨rfl, rfl⟩ ?_
  intro s ih file _
  unfold addNeeded
  split_ifs
  · exact ih
  · exact ih

namespace CoolClient

/-- The bitmaps and percentages are all that the loop of `ReloadOneJob` changes. -/
theorem foldlM_reloadBitmap_frame {files : List JobHistory.FileInfo} {d d' : DownloadInfo}
    (h : files.foldlM reloadBitmap d = .ok d') : ∃ b m, d' = { d with bitmapMap := b, percentageMap := m } := by
  induction files generalizing d with
  | nil =>
    cases h
    exact ⟨_, _, rfl⟩
  | cons file files ih =>
    rw [List.foldlM_cons] at h
    cases hone : reloadBitmap d file with
    | error e =>
      rw [hone] at h
      cases h
    | ok d₁ =>
      rw [hone] at h
      obtain ⟨-, rfl⟩ := reloadBitmap_eq_ok_iff.mp hone
      obtain ⟨b, m, rfl⟩ := ih h
      exact ⟨b, m, rfl⟩

/-- A job that is reloaded starts with the totals of its record, and with no bytes of this second. -/
theorem reloadOneJob_start {env : Surroundings} {torrent : Torrent} {history : JobHistory.JobHistoryInfo}
    {s s' : CoolClient} {disk disk' : Disk} {ret : Retcode}
    (h : reloadOneJob env torrent history s disk = (.ok ret, s', disk')) :
    ∃ info, s'.jobs.find? s.jobIndex = some info ∧ info.downloadInfo.uploadTotal = history.uploadTotal.toUInt64 ∧
      info.downloadInfo.downloadTotal = history.downloadTotal.toUInt64 ∧
      (Traffic.start info.downloadInfo disk').d = info.downloadInfo := by
  unfold reloadOneJob at h
  split_ifs at h
  · cases h
  · simp only at h
    split at h
    · cases h
    · next d hfold =>
      obtain ⟨b, m, rfl⟩ := foldlM_reloadBitmap_frame hfold
      cases h
      obtain ⟨hupload, hdownload⟩ := JobInfo.counters_new torrent history.localTopPath
        (history.file.map fun oneFile => ⟨oneFile.relativePath, oneFile.filename⟩) env.uploadTotal env.downloadTotal
        env.fault disk
      refine ⟨_, SortedMap.find?_insert_self _ _ _, rfl, rfl, ?_⟩
      simp only [Traffic.start, hupload, hdownload]

end CoolClient

namespace Traffic

variable {sha1 : Bytes → String} {percentage : Bitmap → Int32} {trackerAddress : String}

/-! ### The accounts as meters -/

/-- How far the collector has got with the uploads. -/
def uploadStage (late : UInt64) : Collector.Phase → Meter.Stage UInt64
  | .away | .threw | .zeroDownload => .resting
  | .readDownload upload | .countdown upload _ | .files upload _ _ _ | .addUpload upload _ => .copied upload late
  | .addDownload _ | .zeroUpload => .moved late

/-- How far the collector has got with the downloads. -/
def downloadStage (late : UInt64) : Collector.Phase → Meter.Stage UInt64
  | .away | .threw | .readDownload _ => .resting
  | .countdown _ download | .files _ download _ _ | .addUpload _ download | .addDownload download =>
    .copied download late
  | .zeroUpload | .zeroDownload => .moved late

/-- The uploads of a job. -/
def uploadMeter (s : Traffic) : Meter UInt64 where
  total := s.d.uploadTotal
  counter := s.d.bytesUploadThisSecond
  stage := uploadStage (UInt64.ofNat s.upload.late) s.collector
  added := UInt64.ofNat s.upload.added
  lost := UInt64.ofNat s.upload.lost

/-- The downloads of a job. -/
def downloadMeter (s : Traffic) : Meter UInt64 where
  total := s.d.downloadTotal
  counter := s.d.bytesDownloadThisSecond
  stage := downloadStage (UInt64.ofNat s.download.late) s.collector
  added := UInt64.ofNat s.download.added
  lost := UInt64.ofNat s.download.lost

theorem add_uploadStage (late n : UInt64) (ph : Collector.Phase) :
    (uploadStage late ph).add n = uploadStage (late + n) ph := by
  cases ph <;> rfl

theorem add_downloadStage (late n : UInt64) (ph : Collector.Phase) :
    (downloadStage late ph).add n = downloadStage (late + n) ph := by
  cases ph <;> rfl

/-- The counter is set to zero. -/
theorem ofNat_lost_reset (l : Ledger) : UInt64.ofNat l.reset.lost = UInt64.ofNat l.lost + UInt64.ofNat l.late :=
  UInt64.ofNat_add _ _

/-- **A step of the collector is one of the meter of the uploads.** -/
theorem collect_uploadMeter (s : Traffic) (isRunning : Bool) :
    s.uploadMeter.Step 0 (s.collect percentage trackerAddress isRunning).uploadMeter := by
  obtain ⟨d, disk, collector, downloads, uploads, upload, download⟩ := s
  cases collector with
  | away | threw => exact .copy _ _ _ _
  | readDownload up => exact .idle _
  | countdown up down =>
    obtain ⟨needToReport, rest, n, hstep⟩ := @Collector.step_countdown percentage trackerAddress isRunning up down d
    rw [collect, hstep]
    exact .idle _
  | files up down needToReport rest =>
    obtain ⟨ph, m, infos, hstep, hph⟩ :=
      @Collector.step_files percentage trackerAddress isRunning up down needToReport rest d
    rw [collect, hstep]
    rcases hph with rfl | rfl | ⟨rest', rfl⟩
    · exact .giveUp _ _ _ _ _ _
    · exact .idle _
    · exact .idle _
  | addUpload up down => exact .move _ _ _ _ _ _
  | addDownload down => exact .idle _
  | zeroUpload => exact .of_eq (.reset _ _ _ _ _) rfl rfl (congrArg (Meter.mk _ _ _ _) (ofNat_lost_reset upload))
  | zeroDownload => exact .idle _

/-- **And one of the meter of the downloads.** -/
theorem collect_downloadMeter (s : Traffic) (isRunning : Bool) :
    s.downloadMeter.Step 0 (s.collect percentage trackerAddress isRunning).downloadMeter := by
  obtain ⟨d, disk, collector, downloads, uploads, upload, download⟩ := s
  cases collector with
  | away | threw => exact .idle _
  | readDownload up => exact .copy _ _ _ _
  | countdown up down =>
    obtain ⟨needToReport, rest, n, hstep⟩ := @Collector.step_countdown percentage trackerAddress isRunning up down d
    rw [collect, hstep]
    exact .idle _
  | files up down needToReport rest =>
    obtain ⟨ph, m, infos, hstep, hph⟩ :=
      @Collector.step_files percentage trackerAddress isRunning up down needToReport rest d
    rw [collect, hstep]
    rcases hph with rfl | rfl | ⟨rest', rfl⟩
    · exact .giveUp _ _ _ _ _ _
    · exact .idle _
    · exact .idle _
  | addUpload up down => exact .idle _
  | addDownload down => exact .move _ _ _ _ _ _
  | zeroUpload => exact .idle _
  | zeroDownload => exact .of_eq (.reset _ _ _ _ _) rfl rfl (congrArg (Meter.mk _ _ _ _) (ofNat_lost_reset download))

/-- A task adds to the uploads. -/
theorem add_uploadMeter (s : Traffic) (uploads : List (UploadTask × UploadTask.Phase)) (n : ℕ) :
    s.uploadMeter.Step (UInt64.ofNat n)
      { s with
        d := { s.d with bytesUploadThisSecond := s.d.bytesUploadThisSecond + UInt64.ofNat n }
        uploads := uploads
        upload := s.upload.add n }.uploadMeter := by
  refine .of_eq (.add (UInt64.ofNat n) _ _ _ _ _) rfl rfl ?_
  rw [uploadMeter, Ledger.add, add_uploadStage, UInt64.ofNat_add, UInt64.ofNat_add]

/-- A task adds to the downloads. -/
theorem add_downloadMeter (s : Traffic) (disk : Disk) (downloads : List DownloadTask) (n : ℕ) :
    s.downloadMeter.Step (UInt64.ofNat n)
      { s with
        d := { s.d with bytesDownloadThisSecond := s.d.bytesDownloadThisSecond + UInt64.ofNat n }
        disk := disk
        downloads := downloads
        download := s.download.add n }.downloadMeter := by
  refine .of_eq (.add (UInt64.ofNat n) _ _ _ _ _) rfl rfl ?_
  rw [downloadMeter, Ledger.add, add_downloadStage, UInt64.ofNat_add, UInt64.ofNat_add]

/-- The bytes that a step adds to the uploads. -/
def addsUpload (s : Traffic) : Action → ℕ
  | .upload i _ => (s.uploads[i]?.map fun u => UploadTask.adds u.2).getD 0
  | _ => 0

/-- The bytes that a step adds to the downloads. -/
def addsDownload (s : Traffic) : Action → ℕ
  | .download i _ => (s.downloads[i]?.map fun t => DownloadTask.adds t.phase).getD 0
  | _ => 0

variable {s s' : Traffic} {a : Action}

/-- **Every step is one of the two meters.** -/
theorem step_meters (h : step sha1 percentage trackerAddress s a = some s') :
    s.uploadMeter.Step (UInt64.ofNat (s.addsUpload a)) s'.uploadMeter ∧
      s.downloadMeter.Step (UInt64.ofNat (s.addsDownload a)) s'.downloadMeter := by
  cases a with
  | collect isRunning =>
    cases h
    exact ⟨collect_uploadMeter s isRunning, collect_downloadMeter s isRunning⟩
  | download i ev =>
    rw [step] at h
    split at h
    · cases h
    · next t ht =>
      split at h
      · cases h
      · next ph d disk hrun =>
        obtain rfl := DownloadTask.runTask_adds hrun
        cases h
        rw [addsDownload, ht]
        exact ⟨.idle _, add_downloadMeter s _ _ _⟩
  | upload i ev =>
    rw [step] at h
    split at h
    · cases h
    · next u ph hu =>
      split at h
      · cases h
      · next ph' d out hrun =>
        obtain rfl := UploadTask.runTask_adds hrun
        cases h
        rw [addsUpload, hu]
        exact ⟨add_uploadMeter s _ _, .idle _⟩
  | beginDownload t => cases h; exact ⟨.idle _, .idle _⟩
  | beginUpload u => cases h; exact ⟨.idle _, .idle _⟩
  | rest d => cases h; exact ⟨.idle _, .idle _⟩

/-- The totals and the counters make up what there was and what the tasks have added. -/
structure Conserved (d : DownloadInfo) (s : Traffic) : Prop where
  upload : s.d.uploadTotal + s.d.bytesUploadThisSecond = d.uploadTotal + UInt64.ofNat s.upload.added
  download : s.d.downloadTotal + s.d.bytesDownloadThisSecond = d.downloadTotal + UInt64.ofNat s.download.added

/-- The account of both meters is kept. -/
theorem exec_balanced {d : DownloadInfo} {disk : Disk} {as : List Action}
    (h : exec (step sha1 percentage trackerAddress) (start d disk) as = some s) :
    s.uploadMeter.Balanced d.uploadTotal ∧ s.downloadMeter.Balanced d.downloadTotal := by
  refine exec_invariant (I := fun s => s.uploadMeter.Balanced d.uploadTotal ∧ s.downloadMeter.Balanced d.downloadTotal)
    ?_ h ⟨add_zero _, add_zero _⟩
  intro s a s' hs hstep
  obtain ⟨hupload, hdownload⟩ := step_meters hstep
  exact ⟨hupload.balanced hs.1, hdownload.balanced hs.2⟩

theorem ofNat_eq_zero_iff {n : ℕ} : UInt64.ofNat n = 0 ↔ 2 ^ 64 ∣ n := by
  rw [← UInt64.toNat_inj, UInt64.toNat_ofNat', UInt64.toNat_zero, Nat.dvd_iff_mod_eq_zero]

/-- No task adds to a counter while the collector has a copy of it that it will set to zero. -/
def InTime (s : Traffic) (a : Action) : Prop :=
  (s.addsUpload a = 0 ∨ s.uploadMeter.stage = .resting) ∧ (s.addsDownload a = 0 ∨ s.downloadMeter.stage = .resting)

/-- Then nothing is lost. -/
theorem exec_clean {d : DownloadInfo} {disk : Disk} {as : List Action}
    (hin : Always (step sha1 percentage trackerAddress) InTime (start d disk) as)
    (h : exec (step sha1 percentage trackerAddress) (start d disk) as = some s) :
    s.uploadMeter.Clean ∧ s.downloadMeter.Clean := by
  refine exec_invariant_of_always (I := fun s => s.uploadMeter.Clean ∧ s.downloadMeter.Clean) ?_ hin h
    ⟨⟨rfl, trivial⟩, ⟨rfl, trivial⟩⟩
  intro s a s' hs ha hstep
  obtain ⟨hupload, hdownload⟩ := step_meters hstep
  exact ⟨hupload.clean (ha.1.imp_left (congrArg UInt64.ofNat)) hs.1,
    hdownload.clean (ha.2.imp_left (congrArg UInt64.ofNat)) hs.2⟩

/-- Both readings are over between two runs of the collector. -/
theorem resting_of_between (h : s.collector.Between) :
    s.uploadMeter.stage = .resting ∧ s.downloadMeter.stage = .resting := by
  rw [uploadMeter, downloadMeter]
  rcases h with haway | hthrew
  · rw [haway]; exact ⟨rfl, rfl⟩
  · rw [hthrew]; exact ⟨rfl, rfl⟩

/-- **What is missing has been lost**: between two runs of the collector the totals are right just when the bytes that
were added while it had its copy already, and set to zero with the others, are a multiple of 2^64. There are none in
a run whose steps are all in time. -/
theorem totals_conserved_iff {d : DownloadInfo} {disk : Disk} {as : List Action}
    (h : exec (step sha1 percentage trackerAddress) (start d disk) as = some s) (hbetween : s.collector.Between) :
    (s.Conserved d ↔ 2 ^ 64 ∣ s.upload.lost ∧ 2 ^ 64 ∣ s.download.lost) ∧
      (Always (step sha1 percentage trackerAddress) InTime (start d disk) as → s.Conserved d) := by
  obtain ⟨hupload, hdownload⟩ := exec_balanced h
  obtain ⟨huprest, hdownrest⟩ := resting_of_between hbetween
  have huploads : s.d.uploadTotal + s.d.bytesUploadThisSecond = d.uploadTotal + UInt64.ofNat s.upload.added ↔
      UInt64.ofNat s.upload.lost = 0 := hupload.conserved_iff huprest
  have hdownloads : s.d.downloadTotal + s.d.bytesDownloadThisSecond = d.downloadTotal + UInt64.ofNat s.download.added ↔
      UInt64.ofNat s.download.lost = 0 := hdownload.conserved_iff hdownrest
  constructor
  · rw [← ofNat_eq_zero_iff, ← ofNat_eq_zero_iff]
    constructor
    · rintro ⟨hup, hdown⟩
      exact ⟨huploads.mp hup, hdownloads.mp hdown⟩
    · rintro ⟨hup, hdown⟩
      exact ⟨huploads.mpr hup, hdownloads.mpr hdown⟩
  · intro hin
    obtain ⟨hup, hdown⟩ := exec_clean hin h
    exact ⟨huploads.mpr hup.1, hdownloads.mpr hdown.1⟩

/-- A job that has sent five bytes and received six, and goes on. -/
def reloaded : DownloadInfo := { DownloadInfo.new 5 6 with isStopped := false }

/-- An `UploadTask` that is about to count the one byte it has sent. -/
def sendOne : List Action :=
  [.beginUpload ⟨"", "f", 0, 1⟩, .upload 0 .ok, .upload 0 .ok, .upload 0 .ok, .upload 0 (.sent 1)]

/-- The collector runs after the byte has been counted. -/
def countedFirst : List Action := sendOne ++ .upload 0 .ok :: List.replicate 8 (.collect true)

/-- It runs while it is counted. -/
def countedMeanwhile : List Action := sendOne ++ .collect true :: .upload 0 .ok :: List.replicate 7 (.collect true)

/-- The end of a run. -/
def endOf (as : List Action) : Traffic :=
  (exec (step (fun _ => "") (fun _ => 0) "") (start reloaded ((∅ : Disk).insert "f" [7])) as).getD (start reloaded ∅)

/-- The job with six bytes sent in the end. -/
theorem totals_conserved_iff_countedFirst :
    ((endOf countedFirst).Conserved reloaded ↔
      2 ^ 64 ∣ (endOf countedFirst).upload.lost ∧ 2 ^ 64 ∣ (endOf countedFirst).download.lost) ∧
    (Always (step (fun _ => "") (fun _ => 0) "") InTime (start reloaded ((∅ : Disk).insert "f" [7])) countedFirst →
      (endOf countedFirst).Conserved reloaded) :=
  totals_conserved_iff (show exec (step (fun _ => "") (fun _ => 0) "") (start reloaded ((∅ : Disk).insert "f" [7])) countedFirst =
    some (endOf countedFirst) by decide) (by decide)

/-- **A byte that is lost**: it is added between the copy and the zero. -/
theorem lost_bytes :
    ¬ ∀ (d : DownloadInfo) (disk : Disk) (as : List Action) (s : Traffic),
      exec (step (fun _ => "") (fun _ => 0) "") (start d disk) as = some s → s.collector.Between → s.Conserved d := by
  intro h
  have hrun : exec (step (fun _ => "") (fun _ => 0) "") (start reloaded ((∅ : Disk).insert "f" [7])) countedMeanwhile =
      some (endOf countedMeanwhile) := by decide
  have hconserved := (h _ _ _ _ hrun (by decide)).upload
  exact absurd hconserved (by decide)

end Traffic

end CoolDown
