import CoolDown.Client.JobHistory

/-!
# The client and its jobs

`CoolClient` keeps the jobs by their handles, where each has its torrent file, and which
torrents it has seen. A job is added by `AddNewDownloadJob`, `AddNewUploadJob` or
`ReloadOneJob`, and taken away by `RemoveJob`. `SaveJobHistory` writes the jobs to the
history file, and `ReloadJobHistory` adds the jobs of that file again.

## The model

What the constructor of `JobInfo` meets (`Surroundings`) is given, and so is what becomes
of the history file (`Output`): whether it can be opened, how many of the bytes get there,
and what `SerializeToOstream` returns. A handle is a number that is never used again.

## What is proved

* `wellFormed_new` and the lemmas after it: a handle in use is below the next one, and
  has a torrent path.
* `reloadBitmap_eq_ok_iff`: when a record is reloaded, and what that changes.
* `saveJobs_eq`: what `SaveJobHistory` collects where all bitmaps are there, and that it
  changes nothing then. `saveJobs_null`: what it does where one is not.
-/

namespace CoolDown

open Library JobHistory

/-- `CoolClient`, as far as its jobs go. -/
structure CoolClient where
  /-- `job_index_`, the next handle. -/
  jobIndex : ℕ
  /-- Where the torrent file of each job is. -/
  torrentPathMap : SortedMap ℕ String
  /-- The torrents that have been registered. -/
  torrentIds : SortedMap String Unit
  /-- `jobs_`: what each job knows. -/
  jobs : SortedMap ℕ JobInfo

namespace CoolClient

/-- A client that has just been started. -/
def new : CoolClient := ⟨0, ∅, ∅, ∅⟩

/-- What the constructor of `JobInfo` meets: what the memory of the totals holds, and the
calls that fail, by path. -/
structure Surroundings where
  uploadTotal : UInt64
  downloadTotal : UInt64
  fault : String → Option LocalFileInfo.Fault

/-- `HasThisTorrent`. -/
def hasThisTorrent (s : CoolClient) (torrentId : String) : Bool := (s.torrentIds.find? torrentId).isSome

/-- `RegisterTorrent`. -/
def registerTorrent (s : CoolClient) (torrentId : String) : CoolClient :=
  { s with torrentIds := s.torrentIds.insert torrentId () }

/-- `AddNewJob`. -/
def addNewJob (s : CoolClient) (info : JobInfo) (torrentPath : String) : CoolClient :=
  { s with
    jobs := s.jobs.insert s.jobIndex info
    jobIndex := s.jobIndex + 1
    torrentPathMap := s.torrentPathMap.insert s.jobIndex torrentPath }

/-- `AddNewDownloadJob`. -/
def addNewDownloadJob (env : Surroundings) (torrentPath : String) (torrent : Torrent)
    (needs : List FileIdentityInfo) (topPath : String) (s : CoolClient) (disk : Disk) : Retcode × CoolClient × Disk :=
  if s.hasThisTorrent torrent.torrentId then (.errorJobExists, s, disk)
  else
    let s := s.registerTorrent torrent.torrentId
    let r := JobInfo.new torrent topPath needs env.uploadTotal env.downloadTotal env.fault disk
    (.errorOk, s.addNewJob r.1 torrentPath, r.2)

/-- The loop of `AddNewUploadJob`: the bitmap of each fileid is set and the fileid is
published, which may throw. -/
def setAll (publish : String → Option Exception) :
    List Torrent.File → List String → DownloadInfo → Except Exception DownloadInfo
  | [], _, d => .ok d
  | file :: files, sameFileid, d =>
    if file.checkSum ∈ sameFileid then setAll publish files sameFileid d
    else
      match d.bitmapAt file.checkSum with
      | (none, _) => .error .nullPointer
      | (some bits, d) =>
        match publish file.checkSum with
        | some e => .error e
        | none =>
          setAll publish files (file.checkSum :: sameFileid)
            { d with bitmapMap := d.bitmapMap.insert file.checkSum (some (List.replicate bits.length true)) }

/-- Every file of a torrent. -/
def allFiles (torrent : Torrent) : List FileIdentityInfo :=
  torrent.file.map fun file => ⟨file.relativePath, file.filename⟩

/-- `AddNewUploadJob`. -/
def addNewUploadJob (env : Surroundings) (publish : String → Option Exception) (torrentPath topPath : String)
    (torrent : Torrent) (s : CoolClient) (disk : Disk) : Except Exception Retcode × CoolClient × Disk :=
  if s.hasThisTorrent torrent.torrentId then (.ok .errorJobExists, s, disk)
  else
    let s := s.registerTorrent torrent.torrentId
    let r := JobInfo.new torrent topPath (allFiles torrent) env.uploadTotal env.downloadTotal env.fault disk
    match setAll publish torrent.file [] r.1.downloadInfo with
    | .error e => (.error e, s, r.2)
    | .ok d => (.ok .errorOk, s.addNewJob { r.1 with downloadInfo := d } torrentPath, r.2)

/-! ### Starting, stopping and removing -/

/-- A call that looks a job up and sets flags of it. -/
def withJob (s : CoolClient) (handle : ℕ) (f : DownloadInfo → DownloadInfo) : Retcode × CoolClient :=
  match s.jobs.find? handle with
  | none => (.errorJobNotExists, s)
  | some info => (.errorOk, { s with jobs := s.jobs.insert handle { info with downloadInfo := f info.downloadInfo } })

/-- `ResumeJobWithoutLock`. -/
def resumeJobWithoutLock (s : CoolClient) (handle : ℕ) : Retcode × CoolClient :=
  s.withJob handle fun d => { d with isStopped := false, isDownloadPaused := false }

/-- `StartJob`; `isRunning` is whether the job says that it runs, and `pool` what becomes of
`jobThreads_.start`. -/
def startJob (s : CoolClient) (handle : ℕ) (isRunning : Bool) (pool : Except Exception Unit) :
    Except Exception Retcode × CoolClient :=
  match s.resumeJobWithoutLock handle with
  | (.errorOk, s) =>
    if isRunning then (.ok .errorJobAlreadyStarted, s)
    else
      match pool with
      | .error e => (.error e, s)
      | .ok () => (.ok .errorOk, s)
  | (ret, s) => (.ok ret, s)

/-- `StopJob`. -/
def stopJob (s : CoolClient) (handle : ℕ) : Retcode × CoolClient :=
  s.withJob handle fun d => { d with isStopped := true }

/-- `RemoveJob`. The job lives on in `removed_jobs_`, where nobody looks for it. -/
def removeJob (s : CoolClient) (handle : ℕ) : Retcode × CoolClient :=
  match s.jobs.find? handle with
  | none => (.errorJobNotExists, s)
  | some _ => (.errorOk, { s with jobs := s.jobs.erase handle })

/-! ### Reloading -/

/-- `ParseTorrent`; the torrent is there only when it returns `ERROR_OK`. -/
def parseTorrent (c : Codec) (disk : Disk) (torrentPath : String) : Except Retcode Torrent :=
  match disk.find? torrentPath with
  | none => .error .errorFileNotExists
  | some content =>
    match c.parseTorrent content with
    | none => .error .errorFileParseError
    | some torrent => .ok torrent

/-- One round of the loop of `ReloadOneJob`: the bitmap is built from the blocks. A
negative count is a huge one, and a bitmap with no bit has no percentage. -/
def reloadBitmap (d : DownloadInfo) (oneFile : FileInfo) : Except Exception DownloadInfo :=
  if oneFile.fileBitCount < 0 then .error .badAlloc
  else
    let bits := resize (Bitmap.ofBlockRange oneFile.fileBit) oneFile.fileBitCount.toNatClampNeg
    if bits.length = 0 then .error .divideByZero
    else
      .ok { d with
        bitmapMap := d.bitmapMap.insert oneFile.fileid (some bits)
        percentageMap := d.percentageMap.insert oneFile.fileid (Int32.ofNat (bits.count true / bits.length)) }

/-- The bitmap of a record. -/
def recordBits (oneFile : FileInfo) : Bitmap :=
  resize (Bitmap.ofBlockRange oneFile.fileBit) oneFile.fileBitCount.toNatClampNeg

theorem length_recordBits (oneFile : FileInfo) : (recordBits oneFile).length = oneFile.fileBitCount.toNatClampNeg :=
  length_resize ..

/-- **A record is reloaded** if its count is positive, and then its fileid has its bitmap, and the percentage that goes
with it. -/
theorem reloadBitmap_eq_ok_iff {d d' : DownloadInfo} {oneFile : FileInfo} :
    reloadBitmap d oneFile = .ok d' ↔ 0 < oneFile.fileBitCount ∧ d' = { d with
      bitmapMap := d.bitmapMap.insert oneFile.fileid (some (recordBits oneFile))
      percentageMap := d.percentageMap.insert oneFile.fileid
        (Int32.ofNat ((recordBits oneFile).count true / (recordBits oneFile).length)) } := by
  have hlt : oneFile.fileBitCount < 0 ↔ oneFile.fileBitCount.toInt < 0 := Int32.lt_iff_toInt_lt
  have hpos : 0 < oneFile.fileBitCount ↔ 0 < oneFile.fileBitCount.toInt := Int32.lt_iff_toInt_lt
  have hzero : (recordBits oneFile).length = 0 ↔ oneFile.fileBitCount.toInt ≤ 0 := by
    rw [length_recordBits, ← Int32.toNat_toInt]
    omega
  rw [hpos]
  unfold reloadBitmap
  dsimp only
  split_ifs with hneg hnil
  · exact iff_of_false (by rintro ⟨⟩) fun h => absurd h.1 (hlt.mp hneg).not_gt
  · exact iff_of_false (by rintro ⟨⟩) fun h => absurd h.1 (hzero.mp hnil).not_gt
  · rw [and_iff_right (not_le.mp (hzero.not.mp hnil)), Except.ok.injEq, eq_comm]
    rfl

/-- `ReloadOneJob`. -/
def reloadOneJob (env : Surroundings) (torrent : Torrent) (history : JobHistoryInfo) (s : CoolClient) (disk : Disk) :
    Except Exception Retcode × CoolClient × Disk :=
  if s.hasThisTorrent torrent.torrentId then (.error .assertion, s, disk)
  else
    let s := s.registerTorrent torrent.torrentId
    let needs := history.file.map fun oneFile => ⟨oneFile.relativePath, oneFile.filename⟩
    let r := JobInfo.new torrent history.localTopPath needs env.uploadTotal env.downloadTotal env.fault disk
    let d := { r.1.downloadInfo with
      uploadTotal := history.uploadTotal.toUInt64
      downloadTotal := history.downloadTotal.toUInt64 }
    match history.file.foldlM reloadBitmap d with
    | .error e => (.error e, s, r.2)
    | .ok d =>
      let d := { d with isJobRemoved := false, isStopped := false, isDownloadPaused := true }
      (.ok .errorOk, s.addNewJob { r.1 with downloadInfo := d } history.torrentPath, r.2)

/-- The loop of `ReloadJobHistory`: a job whose torrent cannot be parsed is left out. -/
def reloadJobs (c : Codec) (env : ℕ → Surroundings) :
    List JobHistoryInfo → CoolClient → Disk → Except Exception Retcode × CoolClient × Disk
  | [], s, disk => (.ok .errorOk, s, disk)
  | oneHistory :: rest, s, disk =>
    match parseTorrent c disk oneHistory.torrentPath with
    | .error _ => reloadJobs c env rest s disk
    | .ok torrent =>
      match reloadOneJob (env s.jobIndex) torrent oneHistory s disk with
      | (.error e, s, disk) => (.error e, s, disk)
      | (.ok _, s, disk) => reloadJobs c env rest s disk

/-- `ReloadJobHistory`. -/
def reloadJobHistory (c : Codec) (env : ℕ → Surroundings) (filename : String) (s : CoolClient) (disk : Disk) :
    Except Exception Retcode × CoolClient × Disk :=
  match disk.find? filename with
  | none => (.ok .errorFileNotExists, s, disk)
  | some content =>
    match c.parse content with
    | none => (.ok .errorProtoParseError, s, disk)
    | some history => reloadJobs c env history.jobInfo s disk

/-! ### Saving -/

/-- What becomes of the history file. -/
structure Output where
  /-- Whether it can be opened, which empties it. -/
  opens : Bool
  /-- How many of the bytes get there. -/
  written : ℕ
  /-- What `SerializeToOstream` returns. -/
  good : Bool

/-- The record of a file; the bitmap of its fileid is dereferenced. -/
def saveFile (fileid : String) (pBitmap : Option Bitmap) (file : Torrent.File) : Except Exception FileInfo :=
  match pBitmap with
  | none => .error .nullPointer
  | some bits => .ok ⟨fileid, file.relativePath, file.filename, bits.toBlockRange, Int32.ofNat bits.length⟩

/-- The inner loop of `SaveJobHistory`, over the `file_map` of a job. -/
def saveFiles :
    List (String × List Torrent.File) → DownloadInfo → Except Exception (List FileInfo) × DownloadInfo
  | [], d => (.ok [], d)
  | (fileid, files) :: rest, d =>
    match d.bitmapAt fileid with
    | (pBitmap, d) =>
      match files.mapM (saveFile fileid pBitmap) with
      | .error e => (.error e, d)
      | .ok records =>
        match saveFiles rest d with
        | (.error e, d) => (.error e, d)
        | (.ok records', d) => (.ok (records ++ records'), d)

/-- The outer loop of `SaveJobHistory`. -/
def saveJobs : List (ℕ × JobInfo) → CoolClient → Except Exception (List JobHistoryInfo) × CoolClient
  | [], s => (.ok [], s)
  | (handle, info) :: rest, s =>
    match s.torrentPathMap.find? handle with
    | none => (.error .assertion, s)
    | some torrentPath =>
      match saveFiles info.torrentInfo.getFileMap.entries info.downloadInfo with
      | (files, d) =>
        let s := { s with jobs := s.jobs.insert handle { info with downloadInfo := d } }
        match files with
        | .error e => (.error e, s)
        | .ok files =>
          match saveJobs rest s with
          | (.error e, s) => (.error e, s)
          | (.ok infos, s) =>
            (.ok (⟨torrentPath, info.localFileInfo.topPath, files, info.downloadInfo.uploadTotal.toInt64,
              info.downloadInfo.downloadTotal.toInt64⟩ :: infos), s)

/-- `SaveJobHistory`. -/
def saveJobHistory (c : Codec) (out : Output) (filename : String) (s : CoolClient) (disk : Disk) :
    Except Exception Retcode × CoolClient × Disk :=
  if out.opens = false then (.ok .errorFileNotExists, s, disk)
  else
    let disk := disk.insert filename []
    match saveJobs s.jobs.entries s with
    | (.error e, s) => (.error e, s, disk)
    | (.ok infos, s) =>
      (.ok (if out.good then .errorOk else .errorProtoSerializeError), s,
        disk.insert filename ((c.serialize ⟨infos⟩).take out.written))

/-! ### What is saved -/

/-- The history of a job: a record for each file, grouped by fileid. -/
def jobHistory (torrentPath : String) (info : JobInfo) : JobHistoryInfo where
  torrentPath := torrentPath
  localTopPath := info.localFileInfo.topPath
  file := info.torrentInfo.getFileMap.entries.flatMap fun e => e.2.map fun file =>
    let bits := ((info.downloadInfo.bitmapMap.find? e.1).getD none).getD []
    ⟨e.1, file.relativePath, file.filename, bits.toBlockRange, Int32.ofNat bits.length⟩
  uploadTotal := info.downloadInfo.uploadTotal.toInt64
  downloadTotal := info.downloadInfo.downloadTotal.toInt64

/-- The history of the whole table, by handle. -/
def history (s : CoolClient) : History :=
  ⟨s.jobs.entries.map fun e => jobHistory ((s.torrentPathMap.find? e.1).getD "") e.2⟩

/-- Each fileid of the torrent has a bitmap. -/
def HasBitmaps (info : JobInfo) : Prop :=
  ∀ file ∈ info.torrentInfo.torrent.file, ∃ bits, info.downloadInfo.bitmapMap.find? file.checkSum = some (some bits)

/-- `SaveJobHistory` finds what it dereferences. -/
def Saveable (s : CoolClient) : Prop := ∀ e ∈ s.jobs.entries, HasBitmaps e.2

/-! ### Handles -/

/-- Every handle in use is below the next one and has a torrent path. -/
structure WellFormed (s : CoolClient) : Prop where
  lt : ∀ handle ∈ s.jobs.keys, handle < s.jobIndex
  path : ∀ handle ∈ s.jobs.keys, ∃ torrentPath, s.torrentPathMap.find? handle = some torrentPath

theorem wellFormed_new : new.WellFormed := ⟨fun _ h => absurd h List.not_mem_nil, fun _ h => absurd h List.not_mem_nil⟩

theorem hasThisTorrent_registerTorrent (s : CoolClient) (id id' : String) :
    (s.registerTorrent id).hasThisTorrent id' ↔ id = id' ∨ s.hasThisTorrent id' := by
  rw [hasThisTorrent, registerTorrent, SortedMap.find?_insert]
  split_ifs with he
  · simp [he]
  · simp [he, hasThisTorrent]

theorem WellFormed.registerTorrent {s : CoolClient} (h : s.WellFormed) (torrentId : String) :
    (s.registerTorrent torrentId).WellFormed := ⟨h.lt, h.path⟩

theorem WellFormed.addNewJob {s : CoolClient} (h : s.WellFormed) (info : JobInfo) (torrentPath : String) :
    (s.addNewJob info torrentPath).WellFormed := by
  constructor
  · intro handle hmem
    obtain rfl | hmem := SortedMap.mem_keys_insert.mp hmem
    · exact Nat.lt_succ_self _
    · exact Nat.lt_succ_of_lt (h.lt handle hmem)
  · intro handle hmem
    rw [CoolClient.addNewJob, SortedMap.find?_insert]
    split_ifs with he
    · exact ⟨torrentPath, rfl⟩
    · obtain rfl | hmem := SortedMap.mem_keys_insert.mp hmem
      · exact absurd rfl he
      · exact h.path handle hmem

theorem WellFormed.addNewDownloadJob {s : CoolClient} (h : s.WellFormed) (env : Surroundings) (torrentPath : String)
    (torrent : Torrent) (needs : List FileIdentityInfo) (topPath : String) (disk : Disk) :
    (addNewDownloadJob env torrentPath torrent needs topPath s disk).2.1.WellFormed := by
  unfold CoolClient.addNewDownloadJob
  split_ifs
  · exact h
  · exact (h.registerTorrent _).addNewJob _ _

theorem WellFormed.addNewUploadJob {s : CoolClient} (h : s.WellFormed) (env : Surroundings)
    (publish : String → Option Exception) (torrentPath topPath : String) (torrent : Torrent) (disk : Disk) :
    (addNewUploadJob env publish torrentPath topPath torrent s disk).2.1.WellFormed := by
  unfold CoolClient.addNewUploadJob
  split_ifs
  · exact h
  · dsimp only
    split
    · exact h.registerTorrent _
    · exact (h.registerTorrent _).addNewJob _ _

theorem WellFormed.reloadOneJob {s : CoolClient} (h : s.WellFormed) (env : Surroundings) (torrent : Torrent)
    (oneHistory : JobHistoryInfo) (disk : Disk) :
    (reloadOneJob env torrent oneHistory s disk).2.1.WellFormed := by
  unfold CoolClient.reloadOneJob
  split_ifs
  · exact h
  · dsimp only
    split
    · exact h.registerTorrent _
    · exact (h.registerTorrent _).addNewJob _ _

/-! ### What the loops of `SaveJobHistory` do -/

/-- The groups of the file map are not empty, and hold the files of their fileid. -/
theorem mem_getFileMap {t : TorrentInfo} {e : String × List Torrent.File} (h : e ∈ t.getFileMap.entries) :
    e.2 ≠ [] ∧ ∀ file ∈ e.2, file ∈ t.torrent.file ∧ file.checkSum = e.1 := by
  have hfind : t.getFileMap.find? e.1 = some e.2 := SortedMap.find?_eq_some.mpr h
  constructor
  · intro hnil
    rw [TorrentInfo.getFileMap, SortedMap.find?_groupBy] at hfind
    split_ifs at hfind with hempty
    rw [Option.some.inj hfind] at hempty
    exact hempty hnil
  · intro file hfile
    exact SortedMap.mem_of_find?_groupBy hfind hfile

/-- Each file is in the group of its fileid. -/
theorem exists_mem_getFileMap {t : TorrentInfo} {file : Torrent.File} (h : file ∈ t.torrent.file) :
    ∃ files, (file.checkSum, files) ∈ t.getFileMap.entries ∧ file ∈ files := by
  have hmem : file ∈ t.torrent.file.filter fun a => a.checkSum == file.checkSum :=
    List.mem_filter.mpr ⟨h, beq_self_eq_true _⟩
  have hfind := SortedMap.find?_groupBy Torrent.File.checkSum t.torrent.file file.checkSum
  rw [if_neg (List.ne_nil_of_mem hmem)] at hfind
  exact ⟨_, SortedMap.find?_eq_some.mp hfind, hmem⟩

theorem hasBitmaps_iff {info : JobInfo} :
    HasBitmaps info ↔
      ∀ e ∈ info.torrentInfo.getFileMap.entries, ∃ bits, info.downloadInfo.bitmapMap.find? e.1 = some (some bits) := by
  constructor
  · intro h e he
    obtain ⟨hne, hfiles⟩ := mem_getFileMap he
    obtain ⟨file, files, hcons⟩ := List.exists_cons_of_ne_nil hne
    have hfile : file ∈ e.2 := by rw [hcons]; exact List.mem_cons_self
    rw [← (hfiles file hfile).2]
    exact h file (hfiles file hfile).1
  · intro h file hfile
    obtain ⟨files, hmem, -⟩ := exists_mem_getFileMap hfile
    exact h _ hmem

/-- A bitmap that is there is found, and nothing is added. -/
theorem bitmapAt_of_find? {d : DownloadInfo} {fileid : String} {bits : Bitmap}
    (h : d.bitmapMap.find? fileid = some (some bits)) : d.bitmapAt fileid = (some bits, d) := by
  rw [DownloadInfo.bitmapAt, SortedMap.getOrInsert, h]

/-- One that is not there is a null pointer. -/
theorem bitmapAt_of_not_exists {d : DownloadInfo} {fileid : String}
    (h : ¬∃ bits, d.bitmapMap.find? fileid = some (some bits)) : (d.bitmapAt fileid).1 = none := by
  rw [DownloadInfo.bitmapAt, SortedMap.getOrInsert]
  cases hfind : d.bitmapMap.find? fileid with
  | none => rfl
  | some bitmap =>
    cases bitmap with
    | none => rfl
    | some bits => exact absurd ⟨bits, hfind⟩ h

theorem mapM_saveFile (fileid : String) (bits : Bitmap) (files : List Torrent.File) :
    files.mapM (saveFile fileid (some bits)) =
      .ok (files.map fun file =>
        ⟨fileid, file.relativePath, file.filename, bits.toBlockRange, Int32.ofNat bits.length⟩) := by
  induction files with
  | nil => rfl
  | cons file files ih =>
    rw [List.mapM_cons, ih]
    rfl

/-- Where all bitmaps are there, each file gets its record, and nothing is added. -/
theorem saveFiles_eq {es : List (String × List Torrent.File)} {d : DownloadInfo}
    (h : ∀ e ∈ es, ∃ bits, d.bitmapMap.find? e.1 = some (some bits)) :
    saveFiles es d =
      (.ok (es.flatMap fun e => e.2.map fun file =>
        let bits := ((d.bitmapMap.find? e.1).getD none).getD []
        ⟨e.1, file.relativePath, file.filename, bits.toBlockRange, Int32.ofNat bits.length⟩), d) := by
  induction es with
  | nil => rfl
  | cons e es ih =>
    obtain ⟨fileid, files⟩ := e
    obtain ⟨bits, hbits⟩ := h _ List.mem_cons_self
    have htail := ih fun e he => h e (List.mem_cons_of_mem _ he)
    simp only [saveFiles, bitmapAt_of_find? hbits, mapM_saveFile, htail, List.flatMap_cons, hbits]
    rfl

/-- Where one is not, a null pointer is dereferenced. -/
theorem saveFiles_null {es : List (String × List Torrent.File)} {d : DownloadInfo} (hne : ∀ e ∈ es, e.2 ≠ [])
    (h : ¬∀ e ∈ es, ∃ bits, d.bitmapMap.find? e.1 = some (some bits)) :
    (saveFiles es d).1 = .error .nullPointer := by
  induction es with
  | nil => exact absurd (fun e he => absurd he List.not_mem_nil) h
  | cons e es ih =>
    obtain ⟨fileid, files⟩ := e
    by_cases hbits : ∃ bits, d.bitmapMap.find? fileid = some (some bits)
    · have htail := ih (fun e he => hne e (List.mem_cons_of_mem _ he)) fun hall => h fun e he => by
        obtain rfl | he := List.mem_cons.mp he
        · exact hbits
        · exact hall e he
      obtain ⟨bits, hbits⟩ := hbits
      obtain ⟨d', hd'⟩ : ∃ d', saveFiles es d = (.error .nullPointer, d') := ⟨_, Prod.ext htail rfl⟩
      simp only [saveFiles, bitmapAt_of_find? hbits, mapM_saveFile, hd']
    · obtain ⟨file, files', hcons⟩ := List.exists_cons_of_ne_nil (hne _ List.mem_cons_self)
      obtain ⟨d', hd'⟩ : ∃ d', d.bitmapAt fileid = (none, d') := ⟨_, Prod.ext (bitmapAt_of_not_exists hbits) rfl⟩
      simp only at hcons
      simp only [saveFiles, hd', hcons, List.mapM_cons]
      rfl

/-- Where all jobs have their bitmaps, the jobs are collected, and nothing is changed. -/
theorem saveJobs_eq {es : List (ℕ × JobInfo)} {s : CoolClient} (hjobs : ∀ e ∈ es, s.jobs.find? e.1 = some e.2)
    (hpath : ∀ e ∈ es, ∃ torrentPath, s.torrentPathMap.find? e.1 = some torrentPath)
    (h : ∀ e ∈ es, HasBitmaps e.2) :
    saveJobs es s = (.ok (es.map fun e => jobHistory ((s.torrentPathMap.find? e.1).getD "") e.2), s) := by
  induction es with
  | nil => rfl
  | cons e es ih =>
    obtain ⟨handle, info⟩ := e
    obtain ⟨torrentPath, hp⟩ := hpath _ List.mem_cons_self
    have hfiles := saveFiles_eq (hasBitmaps_iff.mp (h _ List.mem_cons_self))
    have htail := ih (fun e he => hjobs e (List.mem_cons_of_mem _ he)) (fun e he => hpath e (List.mem_cons_of_mem _ he))
      fun e he => h e (List.mem_cons_of_mem _ he)
    have hsame : s.jobs.insert handle info = s.jobs := SortedMap.insert_of_find? (hjobs _ List.mem_cons_self)
    simp only [saveJobs, hp, hfiles, hsame, htail, List.map_cons]
    rfl

/-- Where one has not, a null pointer is dereferenced. -/
theorem saveJobs_null {es : List (ℕ × JobInfo)} {s : CoolClient}
    (hpath : ∀ e ∈ es, ∃ torrentPath, s.torrentPathMap.find? e.1 = some torrentPath)
    (h : ¬∀ e ∈ es, HasBitmaps e.2) : (saveJobs es s).1 = .error .nullPointer := by
  induction es generalizing s with
  | nil => exact absurd (fun e he => absurd he List.not_mem_nil) h
  | cons e es ih =>
    obtain ⟨handle, info⟩ := e
    obtain ⟨torrentPath, hp⟩ := hpath _ List.mem_cons_self
    by_cases hbits : HasBitmaps info
    · have hfiles := saveFiles_eq (hasBitmaps_iff.mp hbits)
      have htail := @ih { s with jobs := s.jobs.insert handle info } (fun e he => hpath e (List.mem_cons_of_mem _ he))
        fun hall => h fun e he => by
          obtain rfl | he := List.mem_cons.mp he
          · exact hbits
          · exact hall e he
      obtain ⟨s', hs'⟩ : ∃ s', saveJobs es { s with jobs := s.jobs.insert handle info } = (.error .nullPointer, s') :=
        ⟨_, Prod.ext htail rfl⟩
      simp only [saveJobs, hp, hfiles, hs']
    · have hnull := saveFiles_null (fun e he => (mem_getFileMap he).1) (hasBitmaps_iff.not.mp hbits)
      obtain ⟨d', hd'⟩ : ∃ d', saveFiles info.torrentInfo.getFileMap.entries info.downloadInfo =
          (.error .nullPointer, d') := ⟨_, Prod.ext hnull rfl⟩
      simp only [saveJobs, hp, hd']

/-- `SaveJobHistory` where it finds all it dereferences. -/
theorem saveJobHistory_of_saveable {c : Codec} {out : Output} {filename : String} {s : CoolClient} {disk : Disk}
    (hs : s.WellFormed) (hopens : out.opens = true) (h : s.Saveable) :
    saveJobHistory c out filename s disk =
      (.ok (if out.good then .errorOk else .errorProtoSerializeError), s,
        (disk.insert filename []).insert filename ((c.serialize s.history).take out.written)) := by
  have hjobs : ∀ e ∈ s.jobs.entries, s.jobs.find? e.1 = some e.2 := fun e he => SortedMap.find?_eq_some.mpr he
  have hpath : ∀ e ∈ s.jobs.entries, ∃ torrentPath, s.torrentPathMap.find? e.1 = some torrentPath := by
    intro e he
    exact hs.path e.1 (SortedMap.mem_keys.mpr ⟨e.2, hjobs e he⟩)
  rw [saveJobHistory, if_neg (by simp [hopens])]
  simp only [saveJobs_eq hjobs hpath h]
  rfl

/-- `SaveJobHistory` where it does not. -/
theorem saveJobHistory_of_not_saveable {c : Codec} {out : Output} {filename : String} {s : CoolClient} {disk : Disk}
    (hs : s.WellFormed) (hopens : out.opens = true) (h : ¬s.Saveable) :
    (saveJobHistory c out filename s disk).1 = .error .nullPointer := by
  have hpath : ∀ e ∈ s.jobs.entries, ∃ torrentPath, s.torrentPathMap.find? e.1 = some torrentPath := by
    intro e he
    exact hs.path e.1 (SortedMap.mem_keys.mpr ⟨e.2, SortedMap.find?_eq_some.mpr he⟩)
  obtain ⟨s', hs'⟩ : ∃ s', saveJobs s.jobs.entries s = (.error .nullPointer, s') :=
    ⟨_, Prod.ext (saveJobs_null hpath h) rfl⟩
  rw [saveJobHistory, if_neg (by simp [hopens])]
  simp only [hs']

end CoolClient

end CoolDown
