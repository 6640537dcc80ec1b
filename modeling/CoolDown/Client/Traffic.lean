import CoolDown.Client.Collector
import CoolDown.Client.DownloadTask
import CoolDown.Client.UploadTask
import CoolDown.Library.Run

/-!
# The bytes of this second

The tasks of a job add what they have received or sent to two counters of its `downloadInfo`, the collector empties
them every second, and nobody waits for anybody.

## The model

A `Traffic` is the shared `downloadInfo` with the tasks that use it and the place of the collector in the part of
this job. An `Action` is one step of the collector or of one task; each reads or writes a counter at most once. A task
can begin at any time, and whatever else changes of the job is up to `rest`, but for the counters, the totals and the
limits, which nobody else writes. A `Ledger` is not in the code: it keeps an account of what the tasks have added.

## What is proved

* `DownloadTask.runTask_adds`, `UploadTask.runTask_adds`: what the step of a task does to the job.
-/

namespace CoolDown

open Library

/-- The bytes that the step from here adds. -/
def DownloadTask.adds : DownloadTask.Phase → ℕ
  | .count _ n => n
  | _ => 0

/-- The bytes that the step from here adds. -/
def UploadTask.adds : UploadTask.Phase → ℕ
  | .count _ _ sendThisTime => sendThisTime
  | _ => 0

/-- An account of what has been added to a counter. -/
structure Ledger where
  /-- All of it. -/
  added : ℕ
  /-- What the collector does not have in its copy. -/
  late : ℕ
  /-- What it did not have in its copy when it set the counter to zero. -/
  lost : ℕ
  deriving DecidableEq

namespace Ledger

/-- A task adds so much. -/
def add (l : Ledger) (n : ℕ) : Ledger := { l with added := l.added + n, late := l.late + n }

/-- The collector takes a copy. -/
def copy (l : Ledger) : Ledger := { l with late := 0 }

/-- The collector sets the counter to zero. -/
def reset (l : Ledger) : Ledger := { l with lost := l.lost + l.late }

end Ledger

/-- A job, the tasks that use its `downloadInfo`, and the collector. -/
structure Traffic where
  d : DownloadInfo
  disk : Disk
  collector : Collector.Phase
  downloads : List DownloadTask
  uploads : List (UploadTask × UploadTask.Phase)
  upload : Ledger
  download : Ledger
  deriving DecidableEq

namespace Traffic

/-- What can happen. -/
inductive Action where
  /-- A step of the collector. -/
  | collect (isRunning : Bool)
  /-- A step of a `DownloadTask`. -/
  | download (i : ℕ) (ev : DownloadTask.Event)
  /-- A step of an `UploadTask`. -/
  | upload (i : ℕ) (ev : UploadTask.Event)
  /-- A `DownloadTask` begins. -/
  | beginDownload (t : DownloadTask)
  /-- An `UploadTask` begins. -/
  | beginUpload (u : UploadTask)
  /-- Something else of the job becomes what it is there. -/
  | rest (d : DownloadInfo)

/-- A job with nothing to do yet. -/
def start (d : DownloadInfo) (disk : Disk) : Traffic where
  d := { d with bytesUploadThisSecond := 0, bytesDownloadThisSecond := 0 }
  disk := disk
  collector := .away
  downloads := []
  uploads := []
  upload := ⟨0, 0, 0⟩
  download := ⟨0, 0, 0⟩

/-- The account of the uploads after a step of the collector. -/
def collectUpload (l : Ledger) : Collector.Phase → Ledger
  | .away | .threw => l.copy
  | .zeroUpload => l.reset
  | _ => l

/-- The account of the downloads after a step of the collector. -/
def collectDownload (l : Ledger) : Collector.Phase → Ledger
  | .readDownload _ => l.copy
  | .zeroDownload => l.reset
  | _ => l

variable (sha1 : Bytes → String) (percentage : Bitmap → Int32) (trackerAddress : String)

/-- A step of the collector. -/
def collect (s : Traffic) (isRunning : Bool) : Traffic :=
  let r := Collector.step percentage trackerAddress isRunning s.d s.collector
  { s with
    d := r.2.1
    collector := r.1
    upload := collectUpload s.upload s.collector
    download := collectDownload s.download s.collector }

/-- One step: `none` where the action is not possible. -/
def step (s : Traffic) : Action → Option Traffic
  | .collect isRunning => some (s.collect percentage trackerAddress isRunning)
  | .download i ev =>
    match s.downloads[i]? with
    | none => none
    | some t =>
      match t.runTask sha1 s.d s.disk t.phase ev with
      | none => none
      | some (ph, d, disk) =>
        some { s with
          d := d
          disk := disk
          downloads := s.downloads.set i { t with phase := ph }
          download := s.download.add (DownloadTask.adds t.phase) }
  | .upload i ev =>
    match s.uploads[i]? with
    | none => none
    | some (u, ph) =>
      match u.runTask s.disk s.d ph ev with
      | none => none
      | some (ph', d, _) =>
        some { s with d := d, uploads := s.uploads.set i (u, ph'), upload := s.upload.add (UploadTask.adds ph) }
  | .beginDownload t => some { s with downloads := s.downloads ++ [{ t with phase := .request, reported := false }] }
  | .beginUpload u => some { s with uploads := s.uploads ++ [(u, .map)] }
  | .rest d => some { s with d := { d with
      bytesUploadThisSecond := s.d.bytesUploadThisSecond
      bytesDownloadThisSecond := s.d.bytesDownloadThisSecond
      uploadSpeedLimit := s.d.uploadSpeedLimit
      downloadSpeedLimit := s.d.downloadSpeedLimit
      uploadTotal := s.d.uploadTotal
      downloadTotal := s.d.downloadTotal
      timeToNextReport := s.d.timeToNextReport } }

end Traffic

/-! ### What the steps of the tasks do to the job -/

/-- A step of a `DownloadTask` adds the bytes it counts. -/
theorem DownloadTask.runTask_adds {sha1 : Bytes → String} {t : DownloadTask} {d d' : DownloadInfo} {disk disk' : Disk}
    {ph ph' : DownloadTask.Phase} {ev : DownloadTask.Event}
    (h : t.runTask sha1 d disk ph ev = some (ph', d', disk')) :
    d' = { d with bytesDownloadThisSecond := d.bytesDownloadThisSecond + UInt64.ofNat (adds ph) } := by
  have hsame : d = { d with bytesDownloadThisSecond := d.bytesDownloadThisSecond + UInt64.ofNat 0 } := by simp
  cases ph with
  | count buf n =>
    cases ev with
    | ok => cases h; rfl
    | fail | bytes => cases h
  | _ => cases runTask_step h <;> exact hsame

/-- So does a step of an `UploadTask`. -/
theorem UploadTask.runTask_adds {u : UploadTask} {d d' : DownloadInfo} {disk : Disk} {ph ph' : UploadTask.Phase}
    {ev : UploadTask.Event} {out : Bytes} (h : u.runTask disk d ph ev = some (ph', d', out)) :
    d' = { d with bytesUploadThisSecond := d.bytesUploadThisSecond + UInt64.ofNat (adds ph) } := by
  have hsame : d = { d with bytesUploadThisSecond := d.bytesUploadThisSecond + UInt64.ofNat 0 } := by simp
  cases ph with
  | count content nSend sendThisTime =>
    cases ev with
    | ok => cases h; rfl
    | fail | sent => cases h
  | map =>
    cases ev with
    | ok =>
      rw [runTask] at h
      split at h
      · cases h; exact hsame
      · cases h; exact hsame
      · split_ifs at h <;> cases h <;> exact hsame
    | fail => cases h; exact hsame
    | sent => cases h
  | loop content nSend =>
    cases ev with
    | ok =>
      rw [runTask] at h
      split_ifs at h <;> cases h <;> exact hsame
    | fail | sent => cases h
  | readRemoved content nSend =>
    cases ev with
    | ok => cases h; exact hsame
    | fail | sent => cases h
  | send content nSend =>
    cases ev with
    | ok => cases h
    | fail => cases h; exact hsame
    | sent n =>
      rw [runTask] at h
      split_ifs at h <;> cases h <;> exact hsame
  | ended | threw => cases ev <;> cases h

end CoolDown
