import CoolDown.Client.HistoryEntries
import CoolDown.Client.ReloadHistory
import CoolDown.System.Publication

/-!
# From one run of the program to the next

With the path of a torrent file, `main` logs in to the tracker, reloads the history, adds a job for
the torrent and runs it, and in the end `uninitialize` saves the history. What one run of the program
leaves, the next one finds.

## The model

A session is one run of the program. It may be killed, or thrown out of `main`, before it gets to
`uninitialize`. Between two sessions anybody may write and remove files. The disk is all that stays.

`kept` says what ought to be in the history: the jobs that have been run in sessions that were saved,
each as it was when its session ended. A session that cannot log in leaves `main` before the history
has been reloaded, but saves it like any other: then nothing is kept. `Quiet` is asked of each session:
the torrent files of what is kept are as they were, the history is written in full and is no file of a torrent,
and the job makes no copy in a directory.

## What is proved

* `reloadJobHistory_invariant`: what reloading the history keeps.
* `reload_kept`: where the history has the jobs that are kept, they come back, paused.
* `session_cases`: what a session does with its torrent.
* `step_recorded`: it leaves a history that has the jobs that are kept.
* `run_kept`: so what is kept comes back after any number of sessions.
* `never_resumed`: and `main` does not go on with it.
-/

namespace CoolDown

open Library JobHistory CoolClient

namespace Sessions

/-- What a run of the program meets. -/
structure Session where
  /-- Whether `LoginTracker` returns `ERROR_OK`. -/
  login : Bool
  /-- The argument. -/
  torrentPath : String
  /-- What the constructor of each `JobInfo` meets, by handle. -/
  env : ℕ → Surroundings
  sockets : LocalSockManager
  /-- What becomes of the job, up to the end of the session. -/
  actions : List Job.Action
  /-- Whether it gets to `uninitialize`. -/
  ends : Bool
  /-- What becomes of the history file. -/
  out : Output

/-- What it leaves: the disk, and the job that was run, if any, with the path of its torrent file. -/
structure Outcome where
  disk : Disk
  ran : Option (String × JobInfo)

/-- `history_file_path_` of a client that downloads. -/
def historyPath : String := "/tmp/download.history"

variable (sha1 : Bytes → String) (c : Codec)

/-- `uninitialize`, if the session gets there. -/
def uninitializeWith (x : Session) (s : CoolClient) (disk : Disk) : Disk :=
  if x.ends then (saveJobHistory c x.out historyPath s disk).2.2 else disk

/-- One run of the program. The pool of threads is empty when the job is started. -/
def session (x : Session) (disk : Disk) : Option Outcome :=
  if x.login = false then some ⟨uninitializeWith c x .new disk, none⟩
  else
    match reloadJobHistory c x.env historyPath .new disk with
    | (.error _, s, disk) => some ⟨uninitializeWith c x s disk, none⟩
    | (.ok _, s, disk) =>
      match mainDownload c (x.env s.jobIndex) (.ok ()) x.torrentPath s disk with
      | (.ok (.waits (some handle)), s, disk) =>
        (s.jobs.find? handle).bind fun info =>
          (exec (Job.step sha1) (.new info x.sockets disk) x.actions).map fun j =>
            ⟨uninitializeWith c x { s with jobs := s.jobs.insert handle j.jobInfo } j.disk, some (x.torrentPath, j.jobInfo)⟩
      | (_, s, disk) => some ⟨uninitializeWith c x s disk, none⟩

/-- The disk, and the jobs that ought to be in the history. -/
structure State where
  disk : Disk
  kept : List (String × JobInfo)

/-- What is kept after a session. -/
def State.keep (s : State) (x : Session) (ran : Option (String × JobInfo)) : List (String × JobInfo) :=
  if x.ends && x.out.opens then if x.login then s.kept ++ ran.toList else [] else s.kept

/-- A session, or a file that somebody writes or removes. -/
inductive Action where
  | session (x : Session)
  | write (path : String) (content : Option Bytes)

def step (s : State) : Action → Option State
  | .session x => (session sha1 c x s.disk).map fun o => ⟨o.disk, s.keep x o.ran⟩
  | .write path (some content) => some { s with disk := s.disk.insert path content }
  | .write path none => some { s with disk := s.disk.erase path }

/-- The history of these jobs. -/
def historyOf (kept : List (String × JobInfo)) : History := ⟨kept.map fun k => jobHistory k.1 k.2⟩

/-! ### What is asked of a session -/

/-- The job that a session adds for a torrent, when the history has been reloaded. -/
def Session.job (x : Session) (t : CoolClient) (torrent : Torrent) (disk : Disk) : Job :=
  .ofTorrent torrent "/tmp/" (allFiles torrent) (x.env t.jobIndex).uploadTotal (x.env t.jobIndex).downloadTotal
    (x.env t.jobIndex).fault x.sockets disk

/-- The torrents of the jobs that are kept are where they were, the history is not a file of the torrent, no copy is made
in a directory, and what is saved is written. -/
structure Quiet (s : State) (x : Session) : Prop where
  inPlace : ∀ k ∈ s.kept, parseTorrent c s.disk k.1 = .ok k.2.torrentInfo.torrent
  counts : ∀ torrent, parseTorrent c s.disk x.torrentPath = .ok torrent → ∀ file ∈ torrent.file,
    0 < file.chunkCount ∧ file.chunkCount < 2 ^ 31
  apart : ∀ torrent, parseTorrent c s.disk x.torrentPath = .ok torrent → ∀ file ∈ torrent.file,
    JobInfo.localPath "/tmp/" file ≠ historyPath
  copies : ∀ ret t disk torrent, reloadJobHistory c x.env historyPath .new s.disk = (.ok ret, t, disk) →
    parseTorrent c disk x.torrentPath = .ok torrent → ¬ t.hasThisTorrent torrent.torrentId →
      Always (Job.step sha1) (fun j a => j.intoDirectory a = false) (x.job t torrent disk) (.env .resume :: x.actions)
  fits : ∀ t, step sha1 c s (.session x) = some t → (c.serialize (historyOf t.kept)).length ≤ x.out.written

/-- Sessions are like that, and nobody else touches the history. -/
def Undisturbed (s : State) : Action → Prop
  | .session x => Quiet sha1 c s x
  | .write path _ => path ≠ historyPath

variable {sha1 c}

/-! ### Jobs that are kept -/

/-- `main` has added the job for a torrent whose files have chunks, but fewer than 2³¹, and it has gone on since. -/
def Grown (info : JobInfo) : Prop :=
  ∃ (torrent : Torrent) (env : Surroundings) (disk : Disk),
    (∀ file ∈ torrent.file, 0 < file.chunkCount ∧ file.chunkCount < 2 ^ 31) ∧
      (JobInfo.new torrent "/tmp/" (allFiles torrent) env.uploadTotal env.downloadTotal env.fault disk).1.Advances info ∧
      ∀ fileid pos, (info.downloadInfo.bit fileid pos).isSome =
        ((JobInfo.new torrent "/tmp/" (allFiles torrent) env.uploadTotal env.downloadTotal env.fault disk).1.downloadInfo.bit
          fileid pos).isSome

theorem Grown.topPath {info : JobInfo} (h : Grown info) : info.localFileInfo.topPath = "/tmp/" := by
  obtain ⟨torrent, env, disk, -, hadv, -⟩ := h
  rw [hadv.localFileInfo, JobInfo.topPath_new]

theorem Grown.fileidlist {info : JobInfo} (h : Grown info) :
    info.fileidlist = info.torrentInfo.torrent.file.map Torrent.File.checkSum := by
  obtain ⟨torrent, env, disk, -, hadv, -⟩ := h
  rw [hadv.fileidlist, hadv.torrentInfo, JobInfo.fileidlist_new, JobInfo.torrentInfo_new]
  exact congrArg _ (neededFiles_allFiles torrent)

theorem Grown.paths {info : JobInfo} (h : Grown info) (fileid : String) :
    info.localFileInfo.paths fileid =
      (info.torrentInfo.torrent.file.filter fun file => file.checkSum = fileid).map (JobInfo.localPath "/tmp/") := by
  obtain ⟨torrent, env, disk, -, hadv, -⟩ := h
  rw [hadv.localFileInfo, hadv.torrentInfo, JobInfo.paths_new, JobInfo.torrentInfo_new, neededFiles_allFiles]

/-- A fileid of the torrent has its bitmap. -/
theorem Grown.exists_bits {info : JobInfo} (h : Grown info) {file : Torrent.File}
    (hfile : file ∈ info.torrentInfo.torrent.file) :
    ∃ bits, info.downloadInfo.bitmapMap.find? file.checkSum = some (some bits) ∧ (0 < bits.length ∧ bits.length < 2 ^ 31) := by
  obtain ⟨torrent, env, disk, hcounts, hadv, hbits⟩ := h
  rw [hadv.torrentInfo, JobInfo.torrentInfo_new] at hfile
  have hneeded : file ∈ JobInfo.neededFiles torrent (allFiles torrent) := by rwa [neededFiles_allFiles]
  obtain ⟨bitmap, hbitmap⟩ := Option.isSome_iff_exists.mp <|
    (@JobInfo.isSome_bitmapMap_new torrent "/tmp/" (allFiles torrent) env.uploadTotal env.downloadTotal env.fault disk
      file.checkSum).mpr ⟨file, hfile, of_decide_eq_true (List.mem_filter.mp hneeded).2, rfl⟩
  obtain ⟨file', hfile', -, rfl⟩ := JobInfo.exists_file_of_bitmapMap_new hbitmap
  obtain ⟨hpos, hlt⟩ := hcounts file' hfile'
  have hmade : ∀ pos, (info.downloadInfo.bit file.checkSum pos).isSome ↔ pos < file'.chunkCount := by
    intro pos
    rw [hbits, DownloadInfo.bit, hbitmap]
    dsimp only
    rw [isSome_getElem?, List.length_replicate]
  unfold DownloadInfo.bit at hmade
  cases hfind : info.downloadInfo.bitmapMap.find? file.checkSum with
  | none => simpa [hfind, hpos.ne'] using hmade 0
  | some bitmap =>
    cases bitmap with
    | none => simpa [hfind, hpos.ne'] using hmade 0
    | some bits =>
      simp only [hfind] at hmade
      have hcount : ∀ pos, pos < bits.length ↔ pos < file'.chunkCount := by
        intro pos
        rw [← hmade pos, isSome_getElem?]
      exact ⟨bits, rfl, (hcount 0).mpr hpos, not_le.mp fun hle => Nat.lt_irrefl _ ((hcount _).mp (hlt.trans_le hle))⟩

/-- No other fileid has a bit. -/
theorem Grown.bit_eq_none {info : JobInfo} (h : Grown info) {fileid : String}
    (hne : ∀ file ∈ info.torrentInfo.torrent.file, file.checkSum ≠ fileid) (pos : ℕ) :
    info.downloadInfo.bit fileid pos = none := by
  obtain ⟨torrent, env, disk, -, hadv, hbits⟩ := h
  rw [hadv.torrentInfo, JobInfo.torrentInfo_new] at hne
  have hnone : (JobInfo.new torrent "/tmp/" (allFiles torrent) env.uploadTotal env.downloadTotal env.fault
      disk).1.downloadInfo.bitmapMap.find? fileid = none := by
    rw [← Option.not_isSome_iff_eq_none, JobInfo.isSome_bitmapMap_new]
    rintro ⟨file, hfile, -, he⟩
    exact hne file hfile he
  rw [← Option.not_isSome_iff_eq_none, hbits, DownloadInfo.bit, hnone]
  exact Bool.false_ne_true

/-- A record gives the bitmap that it was made of. -/
theorem recordBits_of_records {m : SortedMap String (Option Bitmap)} {oneFile : FileInfo} (h : Records m oneFile) :
    m.find? oneFile.fileid = some (some (recordBits oneFile)) ∧ 0 < oneFile.fileBitCount := by
  obtain ⟨bits, hfind, ⟨hpos, hlt⟩, hblocks, hcount⟩ := h
  have hbits : recordBits oneFile = bits := by
    rw [recordBits, hcount, toNatClampNeg_ofNat hlt, hblocks]
    exact Bitmap.resize_ofBlockRange bits
  refine ⟨by rw [hbits, hfind], ?_⟩
  rw [hcount, Int32.lt_iff_toInt_lt, Int32.toInt_ofNat_of_lt hlt]
  exact Int.natCast_pos.mpr hpos

/-- Each record of the job has the bitmap of its fileid, which is one of the torrent. -/
theorem Grown.records {info : JobInfo} (h : Grown info) {torrentPath : String} {oneFile : FileInfo}
    (hmem : oneFile ∈ (jobHistory torrentPath info).file) :
    Records info.downloadInfo.bitmapMap oneFile ∧
      ∃ file ∈ info.torrentInfo.torrent.file, file.checkSum = oneFile.fileid := by
  obtain ⟨⟨fileid, files⟩, he, hmem⟩ := List.mem_flatMap.mp hmem
  obtain ⟨file, hfile, rfl⟩ := List.mem_map.mp hmem
  obtain ⟨hin, rfl⟩ := (mem_getFileMap he).2 file hfile
  obtain ⟨bits, hbits, hlen⟩ := h.exists_bits hin
  refine ⟨⟨bits, hbits, hlen, ?_, ?_⟩, file, hin, rfl⟩
  · simp [hbits]
  · simp [hbits]

/-! ### Jobs that come back -/

/-- The job of a table is one that was kept, and is paused. -/
structure Back (k : String × JobInfo) (j : Option String × JobInfo) : Prop where
  torrentPath : j.1 = some k.1
  torrentInfo : j.2.torrentInfo = k.2.torrentInfo
  topPath : j.2.localFileInfo.topPath = k.2.localFileInfo.topPath
  paths : ∀ fileid, j.2.localFileInfo.paths fileid = k.2.localFileInfo.paths fileid
  fileidlist : j.2.fileidlist = k.2.fileidlist
  uploadTotal : j.2.downloadInfo.uploadTotal = k.2.downloadInfo.uploadTotal
  downloadTotal : j.2.downloadInfo.downloadTotal = k.2.downloadInfo.downloadTotal
  bit : ∀ fileid pos, j.2.downloadInfo.bit fileid pos = k.2.downloadInfo.bit fileid pos
  paused : j.2.downloadInfo.isDownloadPaused

/-- A bitmap with bits is known by them. -/
theorem find?_of_bit {d d' : DownloadInfo} {fileid : String} {bits : Bitmap}
    (hfind : d.bitmapMap.find? fileid = some (some bits)) (hpos : 0 < bits.length)
    (h : ∀ pos, d'.bit fileid pos = d.bit fileid pos) : d'.bitmapMap.find? fileid = some (some bits) := by
  simp only [DownloadInfo.bit, hfind] at h
  have hzero := h 0
  rw [List.getElem?_eq_getElem hpos] at hzero
  cases hfind' : d'.bitmapMap.find? fileid with
  | none => simp [hfind'] at hzero
  | some bitmap =>
    cases bitmap with
    | none => simp [hfind'] at hzero
    | some bits' =>
      simp only [hfind'] at h
      rw [List.ext_getElem? h]

theorem Back.bitmap {k : String × JobInfo} {j : Option String × JobInfo} (h : Back k j) (hk : Grown k.2) {file : Torrent.File}
    (hfile : file ∈ k.2.torrentInfo.torrent.file) :
    j.2.downloadInfo.bitmapMap.find? file.checkSum = k.2.downloadInfo.bitmapMap.find? file.checkSum := by
  obtain ⟨bits, hbits, hpos, -⟩ := hk.exists_bits hfile
  rw [find?_of_bit hbits hpos (h.bit file.checkSum), hbits]

/-- It can be saved. -/
theorem Back.hasBitmaps {k : String × JobInfo} {j : Option String × JobInfo} (h : Back k j) (hk : Grown k.2) :
    HasBitmaps j.2 := by
  intro file hfile
  rw [h.torrentInfo] at hfile
  obtain ⟨bits, hbits, -⟩ := hk.exists_bits hfile
  exact ⟨bits, (h.bitmap hk hfile).trans hbits⟩

/-- And it is saved as it was. -/
theorem Back.jobHistory_eq {k : String × JobInfo} {j : Option String × JobInfo} (h : Back k j) (hk : Grown k.2) :
    jobHistory k.1 j.2 = jobHistory k.1 k.2 := by
  simp only [jobHistory, h.topPath, h.torrentInfo, h.uploadTotal, h.downloadTotal, JobHistoryInfo.mk.injEq, true_and, and_true]
  refine List.flatMap_congr fun e he => List.map_congr_left fun file hfile => ?_
  obtain ⟨hin, hid⟩ := (mem_getFileMap he).2 file hfile
  have hbitmap := h.bitmap hk hin
  rw [hid] at hbitmap
  rw [hbitmap]

/-- All files of the job's torrent have a record. -/
theorem neededFiles_jobHistory (info : JobInfo) (torrentPath : String) :
    JobInfo.neededFiles info.torrentInfo.torrent (needsOf (jobHistory torrentPath info)) = info.torrentInfo.torrent.file := by
  refine List.filter_eq_self.mpr fun file hfile => decide_eq_true ?_
  obtain ⟨oneFile, hmem, -, hpath, hname⟩ := exists_record hfile torrentPath
  exact List.mem_map.mpr ⟨oneFile, hmem, by rw [hpath, hname]⟩

/-- **A job comes back**: what has the state of its entry is the job. -/
theorem back_of_restored {k : String × JobInfo} (hk : Grown k.2) {info : JobInfo}
    (h : Restored info k.2.torrentInfo.torrent (jobHistory k.1 k.2)) : Back k (some k.1, info) where
  torrentPath := rfl
  torrentInfo := h.torrentInfo
  topPath := h.topPath
  paths := by
    intro fileid
    rw [h.paths, hk.paths, JobInfo.neededFilesOf, neededFiles_jobHistory]
    exact congrArg (fun topPath => List.map (JobInfo.localPath topPath) _) hk.topPath
  fileidlist := by rw [h.fileidlist, neededFiles_jobHistory, hk.fileidlist]
  uploadTotal := h.totals.1.trans (UInt64.toUInt64_toInt64 _)
  downloadTotal := h.totals.2.trans (UInt64.toUInt64_toInt64 _)
  bit := by
    intro fileid pos
    have hfind := h.bitmaps fileid
    by_cases hin : ∃ file ∈ k.2.torrentInfo.torrent.file, file.checkSum = fileid
    · -- the last record of the fileid has its bitmap
      obtain ⟨file, hfile, rfl⟩ := hin
      obtain ⟨oneFile, hmem, hid, -, -⟩ := exists_record hfile k.1
      cases hlast : lastRecord (jobHistory k.1 k.2).file file.checkSum with
      | none =>
        have hnil := List.getLast?_eq_none_iff.mp hlast
        exact absurd (List.mem_filter.mpr ⟨hmem, decide_eq_true hid⟩) (by rw [hnil]; exact List.not_mem_nil)
      | some last =>
        obtain ⟨hlastmem, hlastid⟩ := mem_of_lastRecord hlast
        have hbits := (recordBits_of_records (hk.records hlastmem).1).1
        rw [hlast, Option.map_some, Option.some_or] at hfind
        rw [hlastid] at hbits
        simp only [DownloadInfo.bit, hfind, hbits]
    · -- it has no bit, before or after
      have hnone : ∀ file ∈ k.2.torrentInfo.torrent.file, file.checkSum ≠ fileid := fun file hfile he => hin ⟨file, hfile, he⟩
      have hlast : lastRecord (jobHistory k.1 k.2).file fileid = none := by
        by_contra hsome
        obtain ⟨last, hlast⟩ := Option.ne_none_iff_exists'.mp hsome
        obtain ⟨hlastmem, hlastid⟩ := mem_of_lastRecord hlast
        obtain ⟨file, hfile, he⟩ := (hk.records hlastmem).2
        exact hnone file hfile (he.trans hlastid)
      have hneeded : JobInfo.neededFilesOf k.2.torrentInfo.torrent (needsOf (jobHistory k.1 k.2)) fileid = [] := by
        rw [JobInfo.neededFilesOf, neededFiles_jobHistory]
        exact List.filter_eq_nil_iff.mpr fun file hfile => by simpa using hnone file hfile
      rw [hlast, hneeded] at hfind
      rw [hk.bit_eq_none hnone, DownloadInfo.bit, hfind]
      rfl
  paused := h.paused.2.2

/-! ### Reloading -/

/-- **The rule for `ReloadJobHistory`**: it keeps what is kept where a torrent is registered and the constructor of its job
has been on the disk, whether the job is added then, with any bitmaps, or not. -/
theorem reloadJobHistory_invariant {I : CoolClient → Disk → Prop} {env : ℕ → Surroundings}
    (hregister : ∀ s disk torrent topPath needs, I s disk → I (s.registerTorrent torrent.torrentId)
      (JobInfo.new torrent topPath needs (env s.jobIndex).uploadTotal (env s.jobIndex).downloadTotal (env s.jobIndex).fault
        disk).2)
    (hadd : ∀ s disk torrent topPath needs downloadInfo torrentPath, I s disk →
      I ((s.registerTorrent torrent.torrentId).addNewJob { (JobInfo.new torrent topPath needs (env s.jobIndex).uploadTotal
          (env s.jobIndex).downloadTotal (env s.jobIndex).fault disk).1 with downloadInfo } torrentPath)
        (JobInfo.new torrent topPath needs (env s.jobIndex).uploadTotal (env s.jobIndex).downloadTotal (env s.jobIndex).fault
          disk).2)
    (filename : String) {s : CoolClient} {disk : Disk} (h : I s disk) :
    I (reloadJobHistory c env filename s disk).2.1 (reloadJobHistory c env filename s disk).2.2 := by
  have hone : ∀ torrent entry s disk, I s disk →
      I (reloadOneJob (env s.jobIndex) torrent entry s disk).2.1 (reloadOneJob (env s.jobIndex) torrent entry s disk).2.2 := by
    intro torrent entry s disk h
    unfold reloadOneJob
    split_ifs
    · exact h
    · dsimp only
      split
      · exact hregister s disk torrent _ _ h
      · exact hadd s disk torrent _ _ _ _ h
  have hjobs : ∀ entries s disk, I s disk →
      I (reloadJobs c env entries s disk).2.1 (reloadJobs c env entries s disk).2.2 := by
    intro entries
    induction entries with
    | nil => exact fun _ _ h => h
    | cons entry entries ih =>
      intro s disk h
      cases hparse : parseTorrent c disk entry.torrentPath with
      | error e =>
        simp only [reloadJobs, hparse]
        exact ih s disk h
      | ok torrent =>
        have hnext := hone torrent entry s disk h
        rcases hr : reloadOneJob (env s.jobIndex) torrent entry s disk with ⟨ret, s', disk'⟩
        rw [hr] at hnext
        cases ret with
        | error e =>
          simp only [reloadJobs, hparse, hr]
          exact hnext
        | ok ret =>
          simp only [reloadJobs, hparse, hr]
          exact ih s' disk' hnext
  unfold reloadJobHistory
  split
  · exact h
  · split
    · exact h
    · exact hjobs _ s disk h

/-- The files that are there stay as they are. -/
theorem find?_reloadJobHistory (env : ℕ → Surroundings) (filename : String) (s : CoolClient) {disk : Disk} {path : String}
    {content : Bytes} (h : disk.find? path = some content) :
    (reloadJobHistory c env filename s disk).2.2.find? path = some content :=
  reloadJobHistory_invariant (I := fun _ disk => disk.find? path = some content)
    (fun _ _ _ _ _ h => JobInfo.find?_disk_new h) (fun _ _ _ _ _ _ _ h => JobInfo.find?_disk_new h) filename h

/-- The torrents are the same. -/
theorem sameTorrents_reloadJobHistory (hzeros : c.RejectsZeros) (env : ℕ → Surroundings) (filename : String) (s : CoolClient)
    (disk : Disk) : SameTorrents c disk (reloadJobHistory c env filename s disk).2.2 :=
  reloadJobHistory_invariant (I := fun _ disk' => SameTorrents c disk disk')
    (fun _ disk' torrent _ _ h path torrent' => (sameTorrents_new hzeros torrent _ _ _ _ _ disk' path torrent').trans (h path torrent'))
    (fun _ disk' torrent _ _ _ _ h path torrent' =>
      (sameTorrents_new hzeros torrent _ _ _ _ _ disk' path torrent').trans (h path torrent'))
    filename fun _ _ => Iff.rfl

/-- The jobs of the entries go to the end of the table. -/
theorem table_addEntries {t : CoolClient} (ht : t.WellFormed) (added : List ((Torrent × JobHistoryInfo) × JobInfo)) :
    (addEntries t added).WellFormed ∧
      (addEntries t added).table = t.table ++ added.map fun a => (some a.1.2.torrentPath, a.2) := by
  induction added generalizing t with
  | nil => exact ⟨ht, (List.append_nil _).symm⟩
  | cons a added ih =>
    obtain ⟨hwf, htable⟩ := ih ((ht.registerTorrent a.1.1.torrentId).addNewJob a.2 a.1.2.torrentPath)
    refine ⟨hwf, ?_⟩
    rw [table_addNewJob (ht.registerTorrent _), table_registerTorrent, List.append_assoc, List.singleton_append] at htable
    rw [List.map_cons, ← htable]
    rfl

/-- The history file has the jobs that are kept. These have been added by `main`, for different torrents. -/
structure Recorded (c : Codec) (s : State) : Prop where
  file : s.disk.find? historyPath = some (c.serialize (historyOf s.kept)) ∨
    s.kept = [] ∧ s.disk.find? historyPath = none
  grown : ∀ k ∈ s.kept, Grown k.2
  ids : (s.kept.map fun k => k.2.torrentId).Nodup

/-- **The jobs that are kept come back**, and no other. -/
theorem reload_kept (hc : c.Lossless) (hzeros : c.RejectsZeros) {s : State} (hs : Recorded c s)
    (hplace : ∀ k ∈ s.kept, parseTorrent c s.disk k.1 = .ok k.2.torrentInfo.torrent) (env : ℕ → Surroundings) :
    ∃ ret t disk, reloadJobHistory c env historyPath .new s.disk = (.ok ret, t, disk) ∧ t.WellFormed ∧
      List.Forall₂ Back s.kept t.table ∧ ∀ id, t.hasThisTorrent id ↔ ∃ k ∈ s.kept, k.2.torrentId = id := by
  rcases hs.file with hfile | ⟨hnil, hnone⟩
  · have hparsed : parsedEntries c s.disk (historyOf s.kept).jobInfo =
        s.kept.map fun k => (k.2.torrentInfo.torrent, jobHistory k.1 k.2) := by
      rw [historyOf, parsedEntries, List.filterMap_map, ← List.filterMap_eq_map]
      refine List.filterMap_congr fun k hk => ?_
      have hparse : parseTorrent c s.disk (jobHistory k.1 k.2).torrentPath = .ok k.2.torrentInfo.torrent := hplace k hk
      simp only [Function.comp, hparse]
    have hharmless : Harmless new (parsedEntries c s.disk (historyOf s.kept).jobInfo) := by
      rw [hparsed, Harmless, List.map_map]
      refine ⟨hs.ids, fun e he => ?_⟩
      obtain ⟨k, hk, rfl⟩ := List.mem_map.mp he
      exact ⟨Bool.false_ne_true, fun oneFile hmem => (recordBits_of_records ((hs.grown k hk).records hmem).1).2⟩
    have hreload : reloadJobHistory c env historyPath .new s.disk = reloadJobs c env (historyOf s.kept).jobInfo .new s.disk := by
      simp only [reloadJobHistory, hfile, hc (historyOf s.kept)]
    rcases reloadJobs_cases hzeros env (historyOf s.kept).jobInfo .new s.disk with ⟨-, added, disk, hadded, hall, hrest⟩ | hbad
    · obtain ⟨hwf, htable⟩ := table_addEntries wellFormed_new added
      rw [hparsed] at hadded
      refine ⟨_, _, disk, hreload.trans hrest, hwf, ?_, fun id => ?_⟩
      · have hentries : List.Forall₂ (· = ·) (added.map Prod.fst)
            (s.kept.map fun k => (k.2.torrentInfo.torrent, jobHistory k.1 k.2)) := by
          rw [hadded, List.forall₂_eq_eq_eq]
        have hpairs := (List.forall₂_and_left _ _).mpr
          ⟨hall, List.forall₂_map_right_iff.mp (List.forall₂_map_left_iff.mp hentries)⟩
        have hnil : CoolClient.new.table = [] := rfl
        rw [htable, hnil, List.nil_append, List.forall₂_map_right_iff]
        refine ((List.forall₂_and_left _ _).mpr ⟨hs.grown, hpairs.flip⟩).imp ?_
        rintro k ⟨e, info⟩ ⟨hk, hrestored, rfl⟩
        exact back_of_restored hk hrestored
      · have hids : (∃ a ∈ added, a.1.1.torrentId = id) ↔ ∃ k ∈ s.kept, k.2.torrentId = id := by
          have hmap := congrArg (List.map fun e : Torrent × JobHistoryInfo => e.1.torrentId) hadded
          rw [List.map_map, List.map_map] at hmap
          exact List.mem_map.symm.trans ((Iff.of_eq (congrArg (id ∈ ·) hmap)).trans List.mem_map)
        rw [hasThisTorrent_addEntries, hids]
        simp [hasThisTorrent, new]
    · exact absurd hharmless hbad.1
  · refine ⟨.errorFileNotExists, .new, s.disk, by simp only [reloadJobHistory, hnone], wellFormed_new, ?_, fun id => ?_⟩
    · rw [hnil]
      exact .nil
    · rw [hnil]
      simp [hasThisTorrent, new]

/-! ### Saving -/

/-- The job of a table is saved as one that is kept. -/
structure Saved (k : String × JobInfo) (j : Option String × JobInfo) : Prop where
  torrentPath : j.1 = some k.1
  jobHistory_eq : jobHistory k.1 j.2 = jobHistory k.1 k.2
  hasBitmaps : HasBitmaps j.2

theorem Back.saved {k : String × JobInfo} {j : Option String × JobInfo} (h : Back k j) (hk : Grown k.2) : Saved k j :=
  ⟨h.torrentPath, h.jobHistory_eq hk, h.hasBitmaps hk⟩

theorem Grown.saved {info : JobInfo} (h : Grown info) (torrentPath : String) : Saved (torrentPath, info) (some torrentPath, info) := by
  refine ⟨rfl, rfl, fun file hfile => ?_⟩
  obtain ⟨bits, hbits, -⟩ := h.exists_bits hfile
  exact ⟨bits, hbits⟩

/-- The history of a client with such jobs. -/
theorem history_of_saved {t : CoolClient} (ht : t.WellFormed) {kept : List (String × JobInfo)}
    (h : List.Forall₂ Saved kept t.table) : t.history = historyOf kept ∧ t.Saveable := by
  constructor
  · rw [table_eq ht, List.forall₂_map_right_iff] at h
    have hjobs : List.Forall₂ (· = ·) (kept.map fun k => jobHistory k.1 k.2) (t.savedJobs.map fun j => jobHistory j.1 j.2) := by
      rw [List.forall₂_map_left_iff, List.forall₂_map_right_iff]
      refine h.imp fun k j hj => ?_
      rw [← hj.jobHistory_eq, Option.some.inj hj.torrentPath]
    rw [List.forall₂_eq_eq_eq] at hjobs
    rw [historyOf, hjobs, ← jobInfo_history]
  · intro e he
    have hall := ((List.forall₂_and_left _ _).mp (h.flip.imp fun j k hj => ⟨hj.hasBitmaps, hj⟩)).1
    exact hall _ (List.mem_map_of_mem he)

/-- What `uninitialize` does to the history file. -/
theorem find?_uninitializeWith {x : Session} {t : CoolClient} (ht : t.WellFormed) {kept : List (String × JobInfo)}
    (h : List.Forall₂ Saved kept t.table)
    (hfits : x.ends && x.out.opens → (c.serialize (historyOf kept)).length ≤ x.out.written) (disk : Disk) :
    (uninitializeWith c x t disk).find? historyPath =
      if x.ends && x.out.opens then some (c.serialize (historyOf kept)) else disk.find? historyPath := by
  unfold uninitializeWith
  obtain ⟨hhistory, hsaveable⟩ := history_of_saved ht h
  cases hends : x.ends with
  | false => rfl
  | true =>
    cases hopens : x.out.opens with
    | false => rw [saveJobHistory, if_pos hopens]; rfl
    | true =>
      have hall : (c.serialize (historyOf kept)).length ≤ x.out.written := by
        apply hfits
        simp [*]
      rw [saveJobHistory_of_saveable ht hopens hsaveable, hhistory, List.take_of_length_le hall]
      simp only [if_true, Bool.true_and, SortedMap.find?_insert_self]

/-- It leaves the other files alone. -/
theorem find?_uninitializeWith_of_ne {x : Session} {t : CoolClient} {disk : Disk} {path : String} (hne : historyPath ≠ path) :
    (uninitializeWith c x t disk).find? path = disk.find? path := by
  unfold uninitializeWith
  cases x.ends with
  | false => rfl
  | true =>
    rw [if_pos rfl, saveJobHistory]
    split
    · rfl
    · dsimp only
      split <;> simp only [SortedMap.find?_insert_of_ne _ hne]

/-! ### A session -/

section LoggedIn

variable {x : Session} {ret : Retcode} {t : CoolClient} {disk disk' : Disk} {torrent : Torrent} (hlogin : x.login = true)
  (hreload : reloadJobHistory c x.env historyPath .new disk = (.ok ret, t, disk'))

include hlogin hreload

/-- Nothing is run for a torrent that the client has. -/
theorem session_of_hasThisTorrent (hparse : parseTorrent c disk' x.torrentPath = .ok torrent)
    (hhas : t.hasThisTorrent torrent.torrentId) : session sha1 c x disk = some ⟨uninitializeWith c x t disk', none⟩ := by
  rw [session, if_neg (by simp [hlogin]), hreload]
  simp only [mainDownload_of_hasThisTorrent hparse hhas]

/-- For another, a new job is added and run. -/
theorem session_of_not_hasThisTorrent (hparse : parseTorrent c disk' x.torrentPath = .ok torrent)
    (hhas : ¬ t.hasThisTorrent torrent.torrentId) :
    session sha1 c x disk = (exec (Job.step sha1) (Job.ofTorrent torrent "/tmp/" (allFiles torrent)
        (x.env t.jobIndex).uploadTotal (x.env t.jobIndex).downloadTotal (x.env t.jobIndex).fault x.sockets disk')
        (.env .resume :: x.actions)).map fun j =>
      ⟨uninitializeWith c x ((t.registerTorrent torrent.torrentId).addNewJob j.jobInfo x.torrentPath) j.disk,
        some (x.torrentPath, j.jobInfo)⟩ := by
  have hindex : (t.registerTorrent torrent.torrentId).jobIndex = t.jobIndex := rfl
  have hfind : ∀ info : JobInfo, ((t.registerTorrent torrent.torrentId).addNewJob info x.torrentPath).jobs.find? t.jobIndex =
      some info := fun info => SortedMap.find?_insert_self _ _ _
  rw [session, if_neg (by simp [hlogin]), hreload]
  simp only [mainDownload_of_not_hasThisTorrent hparse hhas, Except.map, hfind, Option.bind_some]
  simp only [addNewJob, hindex, SortedMap.insert_insert]
  rfl

/-- **What a session does** that has logged in and reloaded its jobs. It has a job for the torrent in the file or finds none
there, or it adds a new job and runs it. -/
theorem session_cases {o : Outcome} (h : session sha1 c x disk = some o) :
    o = ⟨uninitializeWith c x t disk', none⟩ ∨
    ∃ torrent j, parseTorrent c disk' x.torrentPath = .ok torrent ∧ ¬ t.hasThisTorrent torrent.torrentId ∧
      exec (Job.step sha1) (Job.ofTorrent torrent "/tmp/" (allFiles torrent) (x.env t.jobIndex).uploadTotal
        (x.env t.jobIndex).downloadTotal (x.env t.jobIndex).fault x.sockets disk') (.env .resume :: x.actions) = some j ∧
      o = ⟨uninitializeWith c x ((t.registerTorrent torrent.torrentId).addNewJob j.jobInfo x.torrentPath) j.disk,
        some (x.torrentPath, j.jobInfo)⟩ := by
  cases hparse : parseTorrent c disk' x.torrentPath with
  | error ret =>
    rw [session, if_neg (by simp [hlogin]), hreload] at h
    simp only [mainDownload, hparse] at h
    exact .inl (Option.some.inj h).symm
  | ok torrent =>
    by_cases hhas : t.hasThisTorrent torrent.torrentId
    · rw [session_of_hasThisTorrent hlogin hreload hparse hhas] at h
      exact .inl (Option.some.inj h).symm
    · rw [session_of_not_hasThisTorrent hlogin hreload hparse hhas] at h
      obtain ⟨j, hrun, rfl⟩ := Option.map_eq_some_iff.mp h
      exact .inr ⟨torrent, j, rfl, hhas, hrun, rfl⟩

end LoggedIn

/-- The history file is as it was when it has been reloaded. -/
theorem find?_filename_reloadJobHistory (env : ℕ → Surroundings) (filename : String) (s : CoolClient) (disk : Disk) :
    (reloadJobHistory c env filename s disk).2.2.find? filename = disk.find? filename := by
  cases hfind : disk.find? filename with
  | none => simp only [reloadJobHistory, hfind]
  | some content => exact find?_reloadJobHistory env filename s hfind

/-- What is recorded when a session is over, if it would save these jobs. -/
theorem recorded_of_saved {s : State} (hs : Recorded c s) {x : Session} {t : CoolClient} {disk : Disk}
    {jobs : List (String × JobInfo)} (ht : t.WellFormed) (hsaved : List.Forall₂ Saved jobs t.table)
    (hgrown : ∀ k ∈ jobs, Grown k.2) (hids : (jobs.map fun k => k.2.torrentId).Nodup)
    (hdisk : disk.find? historyPath = s.disk.find? historyPath)
    (hfits : x.ends && x.out.opens → (c.serialize (historyOf jobs)).length ≤ x.out.written) :
    Recorded c ⟨uninitializeWith c x t disk, if x.ends && x.out.opens then jobs else s.kept⟩ := by
  have hfind := find?_uninitializeWith ht hsaved hfits disk
  split_ifs at hfind ⊢
  · exact ⟨.inl hfind, hgrown, hids⟩
  · refine ⟨?_, hs.grown, hs.ids⟩
    rw [hfind, hdisk]
    exact hs.file

/-- The job that a session has run, when it is over. -/
theorem grown_of_run {torrent : Torrent} {env : Surroundings} {m : LocalSockManager} {disk : Disk} {as : List Job.Action} {j : Job}
    (hcounts : ∀ file ∈ torrent.file, 0 < file.chunkCount ∧ file.chunkCount < 2 ^ 31)
    (hrun : exec (Job.step sha1) (Job.ofTorrent torrent "/tmp/" (allFiles torrent) env.uploadTotal env.downloadTotal env.fault m
      disk) as = some j) : Grown j.jobInfo ∧ j.jobInfo.torrentId = torrent.torrentId := by
  have hadv := Job.run_advances hrun
  refine ⟨⟨torrent, env, disk, hcounts, hadv, Job.run_isSome_bit hrun⟩, ?_⟩
  rw [JobInfo.torrentId, hadv.torrentInfo, JobInfo.torrentInfo_new]

/-- It has touched the files of its torrent only, if it has made no copy in a directory. -/
theorem find?_of_run {torrent : Torrent} {env : Surroundings} {m : LocalSockManager} {disk : Disk} {as : List Job.Action} {j : Job}
    (hrun : exec (Job.step sha1) (Job.ofTorrent torrent "/tmp/" (allFiles torrent) env.uploadTotal env.downloadTotal env.fault m
      disk) as = some j)
    (hinto : Always (Job.step sha1) (fun j a => j.intoDirectory a = false) (Job.ofTorrent torrent "/tmp/" (allFiles torrent)
      env.uploadTotal env.downloadTotal env.fault m disk) as)
    {path : String} (hpath : ∀ file ∈ torrent.file, JobInfo.localPath "/tmp/" file ≠ path) :
    j.disk.find? path = disk.find? path := by
  refine (Job.run_tidy hrun hinto).disk path fun fileid hmem => ?_
  rw [(Job.run_advances hrun).localFileInfo, JobInfo.paths_new, neededFiles_allFiles] at hmem
  obtain ⟨file, hfile, heq⟩ := List.mem_map.mp hmem
  exact hpath file (List.mem_of_mem_filter hfile) heq

/-- **Every step leaves a history that has the jobs that are kept.** -/
theorem step_recorded (hc : c.Lossless) (hzeros : c.RejectsZeros) {s s' : State} {a : Action} (hs : Recorded c s)
    (ha : Undisturbed sha1 c s a) (h : step sha1 c s a = some s') : Recorded c s' := by
  cases a with
  | write path content =>
    have hfind : s'.disk.find? historyPath = s.disk.find? historyPath ∧ s'.kept = s.kept := by
      cases content with
      | none =>
        obtain rfl := Option.some.inj h
        exact ⟨by rw [SortedMap.find?_erase, if_neg ha], rfl⟩
      | some bs =>
        obtain rfl := Option.some.inj h
        exact ⟨SortedMap.find?_insert_of_ne _ ha, rfl⟩
    refine ⟨?_, ?_, ?_⟩
    · rw [hfind.1, hfind.2]
      exact hs.file
    · rw [hfind.2]
      exact hs.grown
    · rw [hfind.2]
      exact hs.ids
  | session x =>
    have hfits := ha.fits s' h
    obtain ⟨o, ho, rfl⟩ := Option.map_eq_some_iff.mp h
    simp only [State.keep] at hfits ⊢
    cases hlogin : x.login with
    | false =>
      obtain rfl : o = ⟨uninitializeWith c x .new s.disk, none⟩ := by
        rw [session, if_pos hlogin] at ho
        exact (Option.some.inj ho).symm
      refine recorded_of_saved hs wellFormed_new .nil (by rintro k ⟨⟩) .nil rfl fun hends => ?_
      simpa [hends, hlogin] using hfits
    | true =>
      obtain ⟨ret, t, disk, hreload, ht, hback, hhas⟩ := reload_kept hc hzeros hs ha.inPlace x.env
      have hsaved : List.Forall₂ Saved s.kept t.table :=
        ((List.forall₂_and_left _ _).mpr ⟨hs.grown, hback⟩).imp fun k j hk => hk.2.saved hk.1
      have hdisk : disk.find? historyPath = s.disk.find? historyPath := by
        have := @find?_filename_reloadJobHistory c x.env historyPath .new s.disk
        rwa [hreload] at this
      have htorrents : SameTorrents c s.disk disk := by
        have := sameTorrents_reloadJobHistory hzeros x.env historyPath .new s.disk
        rwa [hreload] at this
      simp only [hlogin, if_true] at hfits ⊢
      rcases session_cases hlogin hreload ho with rfl | ⟨torrent, j, hparse, hnew, hrun, rfl⟩
      · rw [Option.toList_none, List.append_nil] at hfits ⊢
        exact recorded_of_saved hs ht hsaved hs.grown hs.ids hdisk fun hends => by simpa [hends] using hfits
      · rw [Option.toList_some] at hfits ⊢
        have hinto := ha.copies ret t disk torrent hreload hparse hnew
        rw [htorrents] at hparse
        obtain ⟨hgrown, hid⟩ := grown_of_run (ha.counts torrent hparse) hrun
        refine recorded_of_saved hs ((ht.registerTorrent _).addNewJob _ _) ?_ ?_ ?_ ?_ fun hends => by
          simpa [hends] using hfits
        · rw [table_addNewJob (ht.registerTorrent _), table_registerTorrent]
          exact List.rel_append hsaved (.cons (hgrown.saved _) .nil)
        · exact List.forall_mem_append.mpr ⟨hs.grown, by simpa using hgrown⟩
        · rw [List.map_append, List.map_singleton, List.nodup_append]
          refine ⟨hs.ids, List.nodup_singleton _, ?_⟩
          rintro id hmem id' hmem' rfl
          obtain ⟨k, hk, rfl⟩ := List.mem_map.mp hmem
          exact hnew ((hhas _).mpr ⟨k, hk, (List.mem_singleton.mp hmem').trans hid⟩)
        · rw [find?_of_run hrun hinto fun file hfile => ha.apart torrent hparse file hfile, hdisk]

/-! ### A session for one file -/

/-- The job of the session, when it has fetched the file. -/
def seedJob : Job :=
  (exec (Job.step Job.oneChunkSha1) (Job.ofTorrent seedTorrent "/tmp/" (allFiles seedTorrent) 0 0 (fun _ => none)
    (LocalSockManager.new.connectClient "p" (some 0)).2 seedDisk) (.env .resume :: seedRun)).getD
      (.ofTorrent seedTorrent "/tmp/" [] 0 0 (fun _ => none) .new ∅)

/-- The session; the history has room for the job. -/
def seedSession : Session where
  login := true
  torrentPath := "/t"
  env := fun _ => ⟨0, 0, fun _ => none⟩
  sockets := (LocalSockManager.new.connectClient "p" (some 0)).2
  actions := seedRun
  ends := true
  out := ⟨true, (checked.serialize (historyOf [("/t", seedJob.jobInfo)])).length, true⟩

/-- What it leaves. -/
def seedState : State where
  disk := uninitializeWith checked seedSession ((CoolClient.new.registerTorrent "other").addNewJob seedJob.jobInfo "/t") seedJob.disk
  kept := [("/t", seedJob.jobInfo)]

theorem parse_seedDisk : parseTorrent checked seedDisk "/t" = .ok seedTorrent :=
  parseTorrent_eq_ok_iff.mpr ⟨_, SortedMap.find?_insert_self _ _ _, checked_parseTorrent seedTorrent⟩

theorem parse_seedState : parseTorrent checked seedState.disk "/t" = .ok seedTorrent := by
  have hsame : seedState.disk.find? "/t" = seedDisk.find? "/t" := find?_uninitializeWith_of_ne (by decide)
  rw [parseTorrent, hsame, ← parseTorrent, parse_seedDisk]

theorem inPlace_seedState : ∀ k ∈ seedState.kept, parseTorrent checked seedState.disk k.1 = .ok k.2.torrentInfo.torrent := by
  intro k hk
  obtain rfl := List.mem_singleton.mp hk
  exact parse_seedState

theorem copies_seedJob : Always (Job.step Job.oneChunkSha1) (fun j a => j.intoDirectory a = false)
    (seedSession.job .new seedTorrent seedDisk) (.env .resume :: seedRun) := by decide +kernel

theorem step_seedSession : step Job.oneChunkSha1 checked ⟨seedDisk, []⟩ (.session seedSession) = some seedState := by
  have hrun : exec (Job.step Job.oneChunkSha1) (Job.ofTorrent seedTorrent "/tmp/" (allFiles seedTorrent) 0 0 (fun _ => none)
      seedSession.sockets seedDisk) (.env .resume :: seedRun) = some seedJob := rfl
  have hsession := @session_of_not_hasThisTorrent Job.oneChunkSha1 checked seedSession _ _ seedDisk _ _ rfl rfl parse_seedDisk
    Bool.false_ne_true
  rw [step, hsession]
  exact congrArg (Option.map _) (congrArg (Option.map _) hrun)

theorem run_seedSession : exec (step Job.oneChunkSha1 checked) ⟨seedDisk, []⟩ [.session seedSession] = some seedState :=
  exec_cons_eq_some.mpr ⟨_, step_seedSession, rfl⟩

theorem quiet_seedSession : Quiet Job.oneChunkSha1 checked ⟨seedDisk, []⟩ seedSession := by
  have hparse : ∀ torrent, parseTorrent checked seedDisk "/t" = .ok torrent → torrent = seedTorrent := by
    intro torrent h
    rw [parse_seedDisk] at h
    exact (Except.ok.inj h).symm
  refine ⟨by rintro k ⟨⟩, ?_, ?_, ?_, ?_⟩
  · intro torrent h
    obtain rfl := hparse torrent h
    decide
  · intro torrent h
    obtain rfl := hparse torrent h
    decide
  · intro ret t disk torrent hreload h hnew
    obtain ⟨rfl, rfl⟩ : CoolClient.new = t ∧ seedDisk = disk := (Prod.mk.inj hreload).2 |> Prod.mk.inj
    obtain rfl := hparse torrent h
    exact copies_seedJob
  · intro s' hs'
    obtain rfl := Option.some.inj (step_seedSession.symm.trans hs')
    exact Nat.le_refl _

/-! ### All sessions -/

section Run

variable {disk₀ : Disk} {s s' : State} {as bs : List Action}

theorem run_recorded (hc : c.Lossless) (hzeros : c.RejectsZeros) (hnone : disk₀.find? historyPath = none)
    (hrun : exec (step sha1 c) ⟨disk₀, []⟩ as = some s) (hquiet : Always (step sha1 c) (Undisturbed sha1 c) ⟨disk₀, []⟩ as) :
    Recorded c s :=
  exec_invariant_of_always (step_recorded hc hzeros) hquiet hrun ⟨.inr ⟨rfl, hnone⟩, by rintro k ⟨⟩, .nil⟩

/-- **What comes back.** Any number of sessions have been, in which jobs took any steps; some were killed before they could
save, some could not log in, and in between other files were written and removed. If the torrents of the jobs that are kept
are where they were whenever the program is started, then the history has just the jobs that were run in sessions that were
saved, since the last of these that could not log in: each with the bits, the totals and the paths that it had at the end
of its session, and paused. -/
theorem run_kept (hc : c.Lossless) (hzeros : c.RejectsZeros) (hnone : disk₀.find? historyPath = none)
    (hrun : exec (step sha1 c) ⟨disk₀, []⟩ as = some s) (hquiet : Always (step sha1 c) (Undisturbed sha1 c) ⟨disk₀, []⟩ as)
    (hplace : ∀ k ∈ s.kept, parseTorrent c s.disk k.1 = .ok k.2.torrentInfo.torrent) (env : ℕ → Surroundings) :
    ∃ ret t disk, reloadJobHistory c env historyPath .new s.disk = (.ok ret, t, disk) ∧ List.Forall₂ Back s.kept t.table := by
  obtain ⟨ret, t, disk, hreload, -, hback, -⟩ := reload_kept hc hzeros (run_recorded hc hzeros hnone hrun hquiet) hplace env
  exact ⟨ret, t, disk, hreload, hback⟩

theorem run_kept_seed : ∃ (ret : Retcode) (t : CoolClient) (disk : Disk) (j : Option String × JobInfo),
    reloadJobHistory checked (fun _ => ⟨5, 7, fun _ => none⟩) historyPath .new seedState.disk = (.ok ret, t, disk) ∧
    t.table = [j] ∧ j.2.downloadInfo.bit "sum" 0 = some true := by
  obtain ⟨ret, t, disk, hreload, hback⟩ := run_kept checked_lossless checked_rejectsZeros rfl
    run_seedSession ⟨quiet_seedSession, fun _ _ => trivial⟩ inPlace_seedState (fun _ => ⟨5, 7, fun _ => none⟩)
  obtain ⟨j, rest, hj, hrest, htable⟩ := List.forall₂_cons_left_iff.mp hback
  obtain rfl := List.forall₂_nil_left_iff.mp hrest
  exact ⟨ret, t, disk, j, hreload, htable, hj.bit "sum" 0⟩

/-- What is kept stays, unless a session cannot log in. -/
theorem step_kept {a : Action} (ha : ∀ x, a = .session x → x.login) (h : step sha1 c s a = some s') {k : String × JobInfo}
    (hk : k ∈ s.kept) : k ∈ s'.kept := by
  cases a with
  | write path content => cases content <;> (obtain rfl := Option.some.inj h; exact hk)
  | session x =>
    obtain ⟨o, -, rfl⟩ := Option.map_eq_some_iff.mp h
    simp only [State.keep, ha x rfl, if_true]
    split_ifs
    · exact List.mem_append_left _ hk
    · exact hk

/-- A session with the torrent of a job that is kept runs no job, and leaves the files that are there. -/
theorem session_of_kept (hc : c.Lossless) (hzeros : c.RejectsZeros) (hs : Recorded c s)
    (hplace : ∀ k ∈ s.kept, parseTorrent c s.disk k.1 = .ok k.2.torrentInfo.torrent) {k : String × JobInfo} (hk : k ∈ s.kept)
    {x : Session} (hlogin : x.login = true) (hpath : x.torrentPath = k.1) :
    ∃ disk, session sha1 c x s.disk = some ⟨disk, none⟩ ∧
      ∀ path content, historyPath ≠ path → s.disk.find? path = some content → disk.find? path = some content := by
  obtain ⟨ret, t, disk, hreload, -, -, hhas⟩ := reload_kept hc hzeros hs hplace x.env
  have hdisk : disk = (reloadJobHistory c x.env historyPath .new s.disk).2.2 := by rw [hreload]
  have hparse : parseTorrent c disk x.torrentPath = .ok k.2.torrentInfo.torrent := by
    rw [hdisk, sameTorrents_reloadJobHistory hzeros, hpath, hplace k hk]
  refine ⟨_, session_of_hasThisTorrent hlogin hreload hparse ((hhas _).mpr ⟨k, hk, rfl⟩), fun path content hne hfind => ?_⟩
  rw [find?_uninitializeWith_of_ne hne, hdisk]
  exact find?_reloadJobHistory x.env historyPath .new hfind

/-- **A download that has been left is not taken up again.** Some sessions after the one of a job that is kept, all of which
could log in, the job has the bits that it had then; and when the program is started with the path of its torrent once
more, no job is run. -/
theorem never_resumed (hc : c.Lossless) (hzeros : c.RejectsZeros) (hnone : disk₀.find? historyPath = none)
    (hrun : exec (step sha1 c) ⟨disk₀, []⟩ as = some s) (hquiet : Always (step sha1 c) (Undisturbed sha1 c) ⟨disk₀, []⟩ as)
    (hrun' : exec (step sha1 c) s bs = some s') (hquiet' : Always (step sha1 c) (Undisturbed sha1 c) s bs)
    (hlogin : ∀ x, .session x ∈ bs → x.login)
    (hplace : ∀ k ∈ s'.kept, parseTorrent c s'.disk k.1 = .ok k.2.torrentInfo.torrent) {k : String × JobInfo}
    (hk : k ∈ s.kept) (env : ℕ → Surroundings) :
    (∃ ret t disk, reloadJobHistory c env historyPath .new s'.disk = (.ok ret, t, disk) ∧ ∃ j ∈ t.table, Back k j) ∧
    ∀ x, x.login → x.torrentPath = k.1 → ∃ disk, session sha1 c x s'.disk = some ⟨disk, none⟩ := by
  have hs' : Recorded c s' :=
    exec_invariant_of_always (step_recorded hc hzeros) hquiet' hrun' (run_recorded hc hzeros hnone hrun hquiet)
  have hlogin' : ∀ a ∈ bs, ∀ x, a = .session x → x.login := by
    rintro a ha x rfl
    exact hlogin x ha
  have hk' : k ∈ s'.kept :=
    @exec_invariant_of_always _ _ _ (fun s => k ∈ s.kept) (fun _ a => ∀ x, a = .session x → x.login)
      (fun hk ha h => step_kept ha h hk) _ _ _ (always_of_forall_mem hlogin' s) hrun' hk
  constructor
  · obtain ⟨ret, t, disk, hreload, -, hback, -⟩ := reload_kept hc hzeros hs' hplace env
    refine ⟨ret, t, disk, hreload, ?_⟩
    obtain ⟨i, hi, rfl⟩ := List.getElem_of_mem hk'
    have hi' : i < t.table.length := hback.length_eq ▸ hi
    exact ⟨_, List.getElem_mem hi', hback.get hi hi'⟩
  · intro x hx hpath
    obtain ⟨disk, hsession, -⟩ := session_of_kept hc hzeros hs' hplace hk' hx hpath
    exact ⟨disk, hsession⟩

theorem never_resumed_seed : ∃ (s : State) (disk : Disk),
    step Job.oneChunkSha1 checked seedState (.session seedSession) = some s ∧
    session Job.oneChunkSha1 checked seedSession s.disk = some ⟨disk, none⟩ := by
  have hquiet : Always (step Job.oneChunkSha1 checked) (Undisturbed Job.oneChunkSha1 checked) ⟨seedDisk, []⟩
      [.session seedSession] := ⟨quiet_seedSession, fun _ _ => trivial⟩
  -- the program is started once more
  obtain ⟨disk, hsession, hdisk⟩ := @session_of_kept Job.oneChunkSha1 _ seedState checked_lossless checked_rejectsZeros
    (run_recorded checked_lossless checked_rejectsZeros rfl run_seedSession hquiet) inPlace_seedState _ List.mem_cons_self seedSession rfl rfl
  have hstep : step Job.oneChunkSha1 checked seedState (.session seedSession) = some ⟨disk, seedState.kept⟩ := by
    rw [step, hsession]
    rfl
  obtain ⟨content, hcontent, hcontent'⟩ := parseTorrent_eq_ok_iff.mp parse_seedState
  have hparse : ∀ torrent, parseTorrent checked seedState.disk "/t" = .ok torrent → torrent = seedTorrent := by
    intro torrent h
    exact (Except.ok.inj (parse_seedState.symm.trans h)).symm
  have hboth := @never_resumed Job.oneChunkSha1 checked _ _ _ _ [.session seedSession] checked_lossless
    checked_rejectsZeros rfl run_seedSession hquiet (exec_cons_eq_some.mpr ⟨_, hstep, rfl⟩) ?_ ?_ ?_ _ List.mem_cons_self
    (fun _ => ⟨0, 0, fun _ => none⟩)
  · obtain ⟨disk', hagain⟩ := hboth.2 seedSession rfl rfl
    exact ⟨_, disk', hstep, hagain⟩
  · refine ⟨⟨inPlace_seedState, ?_, ?_, ?_, ?_⟩, fun _ _ => trivial⟩
    · intro torrent h
      obtain rfl := hparse torrent h
      decide
    · intro torrent h
      obtain rfl := hparse torrent h
      decide
    · -- the client has the torrent
      intro ret t disk torrent hreload h hnew
      obtain ⟨ret', t', disk', hreload', -, -, hhas⟩ := reload_kept checked_lossless checked_rejectsZeros
        (run_recorded checked_lossless checked_rejectsZeros rfl run_seedSession hquiet) inPlace_seedState seedSession.env
      obtain ⟨-, rfl, rfl⟩ : ret' = ret ∧ t' = t ∧ disk' = disk := by simpa using hreload'.symm.trans hreload
      have hsame := sameTorrents_reloadJobHistory (c := checked) checked_rejectsZeros seedSession.env historyPath .new
        seedState.disk
      rw [hreload'] at hsame
      obtain rfl := hparse torrent ((hsame _ _).mp h)
      exact absurd ((hhas _).mpr ⟨_, List.mem_singleton_self _, rfl⟩) hnew
    · intro s' hs'
      obtain rfl := Option.some.inj (hstep.symm.trans hs')
      exact Nat.le_refl _
  · intro x hx
    obtain rfl := Action.session.inj (List.mem_singleton.mp hx)
    rfl
  · intro k hk
    obtain rfl := List.mem_singleton.mp hk
    exact parseTorrent_eq_ok_iff.mpr ⟨content, hdisk "/t" content (by decide) hcontent, hcontent'⟩

end Run

end Sessions

end CoolDown
