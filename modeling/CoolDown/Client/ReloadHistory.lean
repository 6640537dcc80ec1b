import CoolDown.Client.SaveHistory

/-!
# Reloading the history

A client that is started again reads the history file and adds the jobs of it. A job's
record has what the job keeps: where its torrent file is, its top path, the totals, and
a record for each file of the torrent, with the bitmap of its fileid. The constructor of
`JobInfo` makes the job anew, with all bits clear, and then each file's record gives its
fileid the bitmap that was saved.

## What is proved

* `reloadBitmaps_eq`: what the records of a job's files make of its bitmaps.
* `reloadOneJob_jobHistory`: a job with all its bitmaps comes back as it was.
* `reloadJobs_history`: so do the jobs of a table, one after the other.
* `reloadJobHistory_saveJobHistory`: saving and reloading gives the same table.
-/

namespace CoolDown

open Library JobHistory

namespace CoolClient

/-! ### Jobs that are kept -/

/-- What has become of a job that was made as `made`: its progress may be any, but each
fileid that had a bitmap has one, of one bit at least and of fewer than 2³¹. -/
structure Progress (made info : JobInfo) : Prop where
  fileidlist : info.fileidlist = made.fileidlist
  localFileInfo : info.localFileInfo = made.localFileInfo
  torrentInfo : info.torrentInfo = made.torrentInfo
  keys : ∀ fileid,
    (info.downloadInfo.bitmapMap.find? fileid).isSome ↔ (made.downloadInfo.bitmapMap.find? fileid).isSome
  bitmaps : ∀ fileid bitmap, info.downloadInfo.bitmapMap.find? fileid = some bitmap →
    ∃ bits, bitmap = some bits ∧ 0 < bits.length ∧ bits.length < 2 ^ 31

/-- A job whose bitmaps have the lengths they were made with, when every file of the torrent
has a chunk, and fewer than 2³¹. -/
theorem Progress.of_lengths {torrent : Torrent} {topPath : String} {needs : List FileIdentityInfo}
    {env : Surroundings} {disk : Disk} {made info : JobInfo}
    (hmade : made = (JobInfo.new torrent topPath needs env.uploadTotal env.downloadTotal env.fault disk).1)
    (hchunks : ∀ file ∈ torrent.file, 0 < file.chunkCount ∧ file.chunkCount < 2 ^ 31)
    (hlist : info.fileidlist = made.fileidlist) (hlocal : info.localFileInfo = made.localFileInfo)
    (htorrent : info.torrentInfo = made.torrentInfo)
    (hlengths : ∀ fileid, (info.downloadInfo.bitmapMap.find? fileid).map (Option.map List.length) =
      (made.downloadInfo.bitmapMap.find? fileid).map (Option.map List.length)) : Progress made info where
  fileidlist := hlist
  localFileInfo := hlocal
  torrentInfo := htorrent
  keys := by
    intro fileid
    have hsome := congrArg Option.isSome (hlengths fileid)
    rw [Option.isSome_map, Option.isSome_map] at hsome
    rw [hsome]
  bitmaps := by
    intro fileid bitmap hbitmap
    have hlen := hlengths fileid
    rw [hbitmap, Option.map_some] at hlen
    obtain ⟨bitmap', hbitmap', hlen'⟩ := Option.map_eq_some_iff.mp hlen.symm
    rw [hmade] at hbitmap'
    obtain ⟨file, hfile, -, rfl⟩ := JobInfo.exists_file_of_bitmapMap_new hbitmap'
    obtain ⟨bits, rfl, hbits⟩ := Option.map_eq_some_iff.mp hlen'.symm
    rw [List.length_replicate] at hbits
    exact ⟨bits, rfl, hbits ▸ hchunks file hfile⟩

/-- The job was added with all files of its torrent. -/
def AddedWhole (info : JobInfo) : Prop :=
  ∃ (torrent : Torrent) (topPath : String) (needs : List FileIdentityInfo) (env : Surroundings) (disk : Disk),
    (∀ file ∈ torrent.file, ⟨file.relativePath, file.filename⟩ ∈ needs) ∧
      Progress (JobInfo.new torrent topPath needs env.uploadTotal env.downloadTotal env.fault disk).1 info

/-- The jobs of a client: where the torrent file is, and what the job knows. -/
def table (s : CoolClient) : List (Option String × JobInfo) :=
  s.jobs.entries.map fun e => (s.torrentPathMap.find? e.1, e.2)

/-- Two jobs have the same of all that is kept. -/
structure SameJob (j j' : Option String × JobInfo) : Prop where
  torrentPath : j'.1 = j.1
  topPath : j'.2.localFileInfo.topPath = j.2.localFileInfo.topPath
  fileidlist : j'.2.fileidlist = j.2.fileidlist
  uploadTotal : j'.2.downloadInfo.uploadTotal = j.2.downloadInfo.uploadTotal
  downloadTotal : j'.2.downloadInfo.downloadTotal = j.2.downloadInfo.downloadTotal
  bitmaps : ∀ fileid, j'.2.downloadInfo.bitmapMap.find? fileid = j.2.downloadInfo.bitmapMap.find? fileid

/-! ### Bitmaps -/

/-- The record has a bitmap of `m`, which has bits but fewer than 2³¹. -/
def Records (m : SortedMap String (Option Bitmap)) (oneFile : FileInfo) : Prop :=
  ∃ bits : Bitmap, m.find? oneFile.fileid = some (some bits) ∧ (0 < bits.length ∧ bits.length < 2 ^ 31) ∧
    oneFile.fileBit = bits.toBlockRange ∧ oneFile.fileBitCount = Int32.ofNat bits.length

/-- A record gives its fileid the bitmap that was saved. -/
theorem reloadBitmap_eq {m : SortedMap String (Option Bitmap)} {oneFile : FileInfo} (h : Records m oneFile)
    (d : DownloadInfo) :
    ∃ d', reloadBitmap d oneFile = .ok d' ∧ (d'.uploadTotal = d.uploadTotal ∧ d'.downloadTotal = d.downloadTotal) ∧
      ∀ fileid, d'.bitmapMap.find? fileid = if oneFile.fileid = fileid then m.find? fileid else d.bitmapMap.find? fileid := by
  obtain ⟨bits, hfind, ⟨hpos, hlt⟩, hblocks, hcount⟩ := h
  have hbits : recordBits oneFile = bits := by
    rw [recordBits, hcount, toNatClampNeg_ofNat hlt, hblocks]
    exact Bitmap.resize_ofBlockRange bits
  have hpositive : 0 < oneFile.fileBitCount := by
    rw [hcount, Int32.lt_iff_toInt_lt, Int32.toInt_ofNat_of_lt hlt]
    exact Int.natCast_pos.mpr hpos
  refine ⟨_, reloadBitmap_eq_ok_iff.mpr ⟨hpositive, rfl⟩, ⟨rfl, rfl⟩, fun fileid => ?_⟩
  rw [hbits, SortedMap.find?_insert]
  split_ifs with he
  · rw [← he, hfind]
  · rfl

/-- The records of a job's files give their fileids the bitmaps that were saved. -/
theorem reloadBitmaps_eq {m : SortedMap String (Option Bitmap)} {files : List FileInfo}
    (h : ∀ oneFile ∈ files, Records m oneFile) (d : DownloadInfo) :
    ∃ d', files.foldlM reloadBitmap d = .ok d' ∧
      (d'.uploadTotal = d.uploadTotal ∧ d'.downloadTotal = d.downloadTotal) ∧
      ∀ fileid, d'.bitmapMap.find? fileid =
        if ∃ oneFile ∈ files, oneFile.fileid = fileid then m.find? fileid else d.bitmapMap.find? fileid := by
  induction files generalizing d with
  | nil => exact ⟨d, rfl, ⟨rfl, rfl⟩, fun fileid => by simp⟩
  | cons oneFile files ih =>
    obtain ⟨d₁, hone, htotals, hfind⟩ := reloadBitmap_eq (h oneFile List.mem_cons_self) d
    obtain ⟨d', hrest, htotals', hfind'⟩ := ih (fun f hf => h f (List.mem_cons_of_mem _ hf)) d₁
    refine ⟨d', ?_, ⟨htotals'.1.trans htotals.1, htotals'.2.trans htotals.2⟩, ?_⟩
    · rw [List.foldlM_cons, hone]
      exact hrest
    · intro fileid
      rw [hfind', hfind]
      by_cases hmem : ∃ f ∈ files, f.fileid = fileid
      · rw [if_pos hmem, if_pos]
        obtain ⟨f, hf, he⟩ := hmem
        exact ⟨f, List.mem_cons_of_mem _ hf, he⟩
      · rw [if_neg hmem]
        by_cases he : oneFile.fileid = fileid
        · rw [if_pos he, if_pos ⟨oneFile, List.mem_cons_self, he⟩]
        · rw [if_neg he, if_neg]
          rintro ⟨f, hf, hfe⟩
          obtain rfl | hf := List.mem_cons.mp hf
          · exact he hfe
          · exact hmem ⟨f, hf, hfe⟩

/-! ### One job -/

/-- A job added with all files has the torrent it was made from, and the fileids of all
its files. -/
theorem AddedWhole.fileidlist {info : JobInfo} (h : AddedWhole info) :
    info.fileidlist = info.torrentInfo.torrent.file.map Torrent.File.checkSum := by
  obtain ⟨torrent, topPath, needs, env, disk, hneeds, hprogress⟩ := h
  rw [hprogress.fileidlist, hprogress.torrentInfo, JobInfo.torrentInfo_new, JobInfo.fileidlist_new]
  congr 1
  exact List.filter_eq_self.mpr fun file hfile => decide_eq_true (hneeds file hfile)

/-- It has a bitmap for each of these fileids and for no other. -/
theorem AddedWhole.isSome_iff {info : JobInfo} (h : AddedWhole info) (fileid : String) :
    (info.downloadInfo.bitmapMap.find? fileid).isSome ↔
      ∃ file ∈ info.torrentInfo.torrent.file, file.checkSum = fileid := by
  obtain ⟨torrent, topPath, needs, env, disk, hneeds, hprogress⟩ := h
  rw [hprogress.keys, hprogress.torrentInfo, JobInfo.torrentInfo_new, JobInfo.isSome_bitmapMap_new]
  constructor
  · rintro ⟨file, hfile, -, he⟩
    exact ⟨file, hfile, he⟩
  · rintro ⟨file, hfile, he⟩
    exact ⟨file, hfile, hneeds file hfile, he⟩

/-- The bitmap of a file. -/
theorem AddedWhole.exists_bits {info : JobInfo} (h : AddedWhole info) {file : Torrent.File}
    (hfile : file ∈ info.torrentInfo.torrent.file) :
    ∃ bits, info.downloadInfo.bitmapMap.find? file.checkSum = some (some bits) ∧
      (0 < bits.length ∧ bits.length < 2 ^ 31) := by
  obtain ⟨bitmap, hbitmap⟩ := Option.isSome_iff_exists.mp ((h.isSome_iff file.checkSum).mpr ⟨file, hfile, rfl⟩)
  obtain ⟨torrent, topPath, needs, env, disk, hneeds, hprogress⟩ := h
  obtain ⟨bits, rfl, hpos, hlt⟩ := hprogress.bitmaps file.checkSum bitmap hbitmap
  exact ⟨bits, hbitmap, hpos, hlt⟩

theorem AddedWhole.hasBitmaps {info : JobInfo} (h : AddedWhole info) : HasBitmaps info := by
  intro file hfile
  obtain ⟨bits, hbits, -⟩ := h.exists_bits hfile
  exact ⟨bits, hbits⟩

/-- Each of the job's records has a bitmap of the job. -/
theorem records_jobHistory {info : JobInfo} (h : AddedWhole info) (torrentPath : String) :
    ∀ oneFile ∈ (jobHistory torrentPath info).file, Records info.downloadInfo.bitmapMap oneFile := by
  intro oneFile hmem
  obtain ⟨e, he, hmem⟩ := List.mem_flatMap.mp hmem
  obtain ⟨file, hfile, rfl⟩ := List.mem_map.mp hmem
  obtain ⟨hfile, hid⟩ := (mem_getFileMap he).2 file hfile
  obtain ⟨bits, hbits, hlen⟩ := h.exists_bits hfile
  rw [hid] at hbits
  refine ⟨bits, hbits, hlen, ?_, ?_⟩
  · simp [hbits]
  · simp [hbits]

/-- Each file of the torrent has a record. -/
theorem exists_record {info : JobInfo} {file : Torrent.File} (h : file ∈ info.torrentInfo.torrent.file)
    (torrentPath : String) :
    ∃ oneFile ∈ (jobHistory torrentPath info).file,
      oneFile.fileid = file.checkSum ∧ oneFile.relativePath = file.relativePath ∧ oneFile.filename = file.filename := by
  obtain ⟨files, he, hfile⟩ := exists_mem_getFileMap h
  exact ⟨_, List.mem_flatMap.mpr ⟨_, he, List.mem_map.mpr ⟨file, hfile, rfl⟩⟩, rfl, rfl, rfl⟩

/-- A job with all its bitmaps comes back as it was. What is on the disk stays. -/
theorem reloadOneJob_jobHistory {info : JobInfo} (h : AddedWhole info) (torrentPath : String) {t : CoolClient}
    (hnew : ¬t.hasThisTorrent info.torrentInfo.torrent.torrentId) (env : Surroundings) (disk : Disk) :
    ∃ info' disk',
      reloadOneJob env info.torrentInfo.torrent (jobHistory torrentPath info) t disk =
          (.ok .errorOk, (t.registerTorrent info.torrentInfo.torrent.torrentId).addNewJob info' torrentPath, disk') ∧
        SameJob (some torrentPath, info) (some torrentPath, info') ∧
        ∀ path content, disk.find? path = some content → disk'.find? path = some content := by
  obtain ⟨needs, hneeds⟩ : ∃ needs : List FileIdentityInfo,
      needs = (jobHistory torrentPath info).file.map fun oneFile => ⟨oneFile.relativePath, oneFile.filename⟩ := ⟨_, rfl⟩
  have hcover : ∀ file ∈ info.torrentInfo.torrent.file, ⟨file.relativePath, file.filename⟩ ∈ needs := by
    intro file hfile
    obtain ⟨oneFile, hmem, -, hpath, hname⟩ := exists_record hfile torrentPath
    rw [hneeds]
    exact List.mem_map.mpr ⟨oneFile, hmem, by rw [hpath, hname]⟩
  obtain ⟨r, hr⟩ : ∃ r, r = JobInfo.new info.torrentInfo.torrent info.localFileInfo.topPath needs env.uploadTotal
      env.downloadTotal env.fault disk := ⟨_, rfl⟩
  obtain ⟨d, hd, ⟨hup, hdown⟩, hfind⟩ := reloadBitmaps_eq (records_jobHistory h torrentPath)
    { r.1.downloadInfo with
      uploadTotal := info.downloadInfo.uploadTotal.toInt64.toUInt64
      downloadTotal := info.downloadInfo.downloadTotal.toInt64.toUInt64 }
  refine ⟨{ r.1 with downloadInfo := { d with isJobRemoved := false, isStopped := false, isDownloadPaused := true } },
    r.2, ?_, ?_, ?_⟩
  · have htop : (jobHistory torrentPath info).localTopPath = info.localFileInfo.topPath := rfl
    have hup : (jobHistory torrentPath info).uploadTotal = info.downloadInfo.uploadTotal.toInt64 := rfl
    have hdown : (jobHistory torrentPath info).downloadTotal = info.downloadInfo.downloadTotal.toInt64 := rfl
    rw [reloadOneJob, if_neg hnew, ← hneeds]
    simp only [htop, hup, hdown, ← hr, hd]
    rfl
  · constructor
    · rfl
    · show r.1.localFileInfo.topPath = info.localFileInfo.topPath
      rw [hr, JobInfo.topPath_new]
    · show r.1.fileidlist = info.fileidlist
      rw [hr, JobInfo.fileidlist_new, h.fileidlist]
      congr 1
      exact List.filter_eq_self.mpr fun file hfile => decide_eq_true (hcover file hfile)
    · show d.uploadTotal = info.downloadInfo.uploadTotal
      exact hup.trans (UInt64.toUInt64_toInt64 _)
    · show d.downloadTotal = info.downloadInfo.downloadTotal
      exact hdown.trans (UInt64.toUInt64_toInt64 _)
    · intro fileid
      show d.bitmapMap.find? fileid = info.downloadInfo.bitmapMap.find? fileid
      rw [hfind]
      split_ifs with hrecord
      · rfl
      · have hnone : ∀ file ∈ info.torrentInfo.torrent.file, file.checkSum ≠ fileid := by
          intro file hfile he
          obtain ⟨oneFile, hmem, hid, -⟩ := exists_record hfile torrentPath
          exact hrecord ⟨oneFile, hmem, hid.trans he⟩
        have hinfo : info.downloadInfo.bitmapMap.find? fileid = none := by
          rw [← Option.not_isSome_iff_eq_none, h.isSome_iff]
          rintro ⟨file, hfile, he⟩
          exact hnone file hfile he
        have hmade : r.1.downloadInfo.bitmapMap.find? fileid = none := by
          rw [← Option.not_isSome_iff_eq_none, hr, JobInfo.isSome_bitmapMap_new]
          rintro ⟨file, hfile, -, he⟩
          exact hnone file hfile he
        exact hmade.trans hinfo.symm
  · intro path content hpath
    rw [hr]
    exact JobInfo.find?_disk_new hpath

/-! ### The table -/

/-- A new job goes to the end of the table. -/
theorem table_addNewJob {t : CoolClient} (ht : t.WellFormed) (info : JobInfo) (torrentPath : String) :
    (t.addNewJob info torrentPath).table = t.table ++ [(some torrentPath, info)] := by
  have hentries : (t.addNewJob info torrentPath).jobs.entries = t.jobs.entries ++ [(t.jobIndex, info)] :=
    SortedMap.entries_insert_of_forall_lt info ht.lt
  rw [table, hentries, List.map_append, table]
  congr 1
  · apply List.map_congr_left
    intro e he
    have hlt : e.1 < t.jobIndex := ht.lt e.1 (SortedMap.mem_keys.mpr ⟨e.2, SortedMap.find?_eq_some.mpr he⟩)
    rw [addNewJob, SortedMap.find?_insert_of_ne _ (Nat.ne_of_gt hlt)]
  · simp [addNewJob]

theorem table_registerTorrent (t : CoolClient) (torrentId : String) : (t.registerTorrent torrentId).table = t.table :=
  rfl

theorem parseTorrent_of_find? {c : Codec} {disk disk' : Disk} {torrentPath : String} {torrent : Torrent}
    (hdisk : ∀ path content, disk.find? path = some content → disk'.find? path = some content)
    (h : parseTorrent c disk torrentPath = .ok torrent) : parseTorrent c disk' torrentPath = .ok torrent := by
  unfold parseTorrent at h ⊢
  cases hfind : disk.find? torrentPath with
  | none => simp [hfind] at h
  | some content =>
    rw [hfind] at h
    rw [hdisk torrentPath content hfind]
    exact h

/-- The jobs that were saved are added one after the other, as they were. -/
theorem reloadJobs_history {c : Codec} (env : ℕ → Surroundings) {jobs : List (String × JobInfo)}
    (hjobs : ∀ j ∈ jobs, AddedWhole j.2) (hids : (jobs.map fun j => j.2.torrentInfo.torrent.torrentId).Nodup)
    {t : CoolClient} (ht : t.WellFormed)
    (hnew : ∀ j ∈ jobs, ¬t.hasThisTorrent j.2.torrentInfo.torrent.torrentId) {disk : Disk}
    (htorrents : ∀ j ∈ jobs, parseTorrent c disk j.1 = .ok j.2.torrentInfo.torrent) :
    ∃ t' disk' added,
      reloadJobs c env (jobs.map fun j => jobHistory j.1 j.2) t disk = (.ok .errorOk, t', disk') ∧
        t'.table = t.table ++ added ∧ List.Forall₂ SameJob (jobs.map fun j => (some j.1, j.2)) added := by
  induction jobs generalizing t disk with
  | nil => exact ⟨t, disk, [], rfl, (List.append_nil _).symm, .nil⟩
  | cons j jobs ih =>
    obtain ⟨torrentPath, info⟩ := j
    obtain ⟨info', disk₁, hreload, hsame, hdisk⟩ := reloadOneJob_jobHistory (hjobs _ List.mem_cons_self) torrentPath
      (hnew _ List.mem_cons_self) (env t.jobIndex) disk
    obtain ⟨hnotin, hids⟩ := List.nodup_cons.mp hids
    have ht₁ : ((t.registerTorrent info.torrentInfo.torrent.torrentId).addNewJob info' torrentPath).WellFormed :=
      (ht.registerTorrent _).addNewJob _ _
    obtain ⟨t', disk', added, hrest, htable, hall⟩ := ih (fun j hj => hjobs j (List.mem_cons_of_mem _ hj)) hids ht₁
      (fun j hj => by
        show ¬(t.registerTorrent info.torrentInfo.torrent.torrentId).hasThisTorrent _ = true
        rw [hasThisTorrent_registerTorrent, not_or]
        exact ⟨fun he => hnotin (List.mem_map.mpr ⟨j, hj, he.symm⟩), hnew j (List.mem_cons_of_mem _ hj)⟩)
      (fun j hj => parseTorrent_of_find? hdisk (htorrents j (List.mem_cons_of_mem _ hj)))
    refine ⟨t', disk', (some torrentPath, info') :: added, ?_, ?_, .cons hsame hall⟩
    · have hparse : parseTorrent c disk (jobHistory torrentPath info).torrentPath = .ok info.torrentInfo.torrent :=
        htorrents _ List.mem_cons_self
      simp only [List.map_cons, reloadJobs, hparse, hreload, hrest]
    · rw [htable, table_addNewJob (ht.registerTorrent _), table_registerTorrent, List.append_assoc,
        List.singleton_append]

/-- The jobs of a client with the paths that are saved. -/
def savedJobs (s : CoolClient) : List (String × JobInfo) :=
  s.jobs.entries.map fun e => ((s.torrentPathMap.find? e.1).getD "", e.2)

theorem jobInfo_history (s : CoolClient) : s.history.jobInfo = s.savedJobs.map fun j => jobHistory j.1 j.2 := by
  rw [history, savedJobs, List.map_map]
  rfl

/-- Every job has a path, which is the one that is saved. -/
theorem table_eq {s : CoolClient} (hs : s.WellFormed) : s.table = s.savedJobs.map fun j => (some j.1, j.2) := by
  rw [table, savedJobs, List.map_map]
  apply List.map_congr_left
  intro e he
  obtain ⟨torrentPath, hpath⟩ := hs.path e.1 (SortedMap.mem_keys.mpr ⟨e.2, SortedMap.find?_eq_some.mpr he⟩)
  simp [hpath]

/-- A client whose jobs were added with all files of their torrents is saved, and another
one that has no jobs, and none of these torrents, reads the file while the torrents are
where they were: it then has the same jobs. A client is `WellFormed` in every state that
can be reached (`run_wellFormed`). -/
theorem reloadJobHistory_saveJobHistory {c : Codec} (hc : c.Lossless) {s : CoolClient} (hs : s.WellFormed)
    (hjobs : ∀ j ∈ s.table, AddedWhole j.2)
    (hids : (s.table.map fun j => j.2.torrentInfo.torrent.torrentId).Nodup) {out : Output} (hopens : out.opens = true)
    (hwritten : (c.serialize s.history).length ≤ out.written) {disk disk' : Disk} {filename : String}
    (hfile : disk'.find? filename = (saveJobHistory c out filename s disk).2.2.find? filename)
    (htorrents : ∀ j ∈ s.table, ∀ torrentPath, j.1 = some torrentPath →
      parseTorrent c disk' torrentPath = .ok j.2.torrentInfo.torrent)
    {t : CoolClient} (hempty : t.jobs = ∅)
    (hnew : ∀ j ∈ s.table, ¬t.hasThisTorrent j.2.torrentInfo.torrent.torrentId) (env : ℕ → Surroundings) :
    ∃ t' disk'', reloadJobHistory c env filename t disk' = (.ok .errorOk, t', disk'') ∧
      List.Forall₂ SameJob s.table t'.table := by
  rw [table_eq hs] at hjobs hids htorrents hnew ⊢
  have hmem : ∀ j ∈ s.savedJobs, (some j.1, j.2) ∈ s.savedJobs.map fun j => (some j.1, j.2) :=
    fun j hj => List.mem_map.mpr ⟨j, hj, rfl⟩
  have hsaveable : s.Saveable := by
    intro e he
    exact (hjobs _ (hmem _ (List.mem_map.mpr ⟨e, he, rfl⟩))).hasBitmaps
  have hsaved : disk'.find? filename = some (c.serialize s.history) := by
    rw [hfile, saveJobHistory_of_saveable hs hopens hsaveable, SortedMap.find?_insert_self,
      List.take_of_length_le hwritten]
  have ht : t.WellFormed := by
    constructor
    · intro handle h
      rw [hempty] at h
      exact absurd h List.not_mem_nil
    · intro handle h
      rw [hempty] at h
      exact absurd h List.not_mem_nil
  rw [List.map_map] at hids
  obtain ⟨t', disk'', added, hreload, htable, hall⟩ := reloadJobs_history env (fun j hj => hjobs _ (hmem j hj)) hids ht
    (fun j hj => hnew _ (hmem j hj)) (fun j hj => htorrents _ (hmem j hj) j.1 rfl)
  refine ⟨t', disk'', ?_, ?_⟩
  · rw [reloadJobHistory, hsaved]
    simp only [hc s.history, jobInfo_history, hreload]
  · have hnil : t.table = [] := by rw [table, hempty]; rfl
    rw [htable, hnil, List.nil_append]
    exact hall

theorem reloadJobHistory_saveJobHistory_two_files :
    let r := downloadTwoFiles (allFiles twoFiles)
    let out : Output := ⟨true, (Codec.wire.serialize r.1.history).length, true⟩
    let disk := (saveJobHistory .wire out "/history" r.1 r.2).2.2.insert "/two.torrent" (Torrent.message.encode twoFiles)
    ∃ t' disk', reloadJobHistory .wire (fun _ => ⟨5, 7, fun _ => none⟩) "/history" new disk = (.ok .errorOk, t', disk') ∧
      List.Forall₂ SameJob r.1.table t'.table := by
  intro r out disk
  obtain ⟨info, hinfo⟩ : ∃ info, info = (JobInfo.new twoFiles "/tmp" (allFiles twoFiles) 0 0 (fun _ => none) ∅).1 :=
    ⟨_, rfl⟩
  have htable : r.1.table = [(some "/two.torrent", info)] := by rw [hinfo]; rfl
  have hwhole : AddedWhole info := by
    refine ⟨twoFiles, "/tmp", allFiles twoFiles, ⟨0, 0, fun _ => none⟩, ∅, by decide, ?_⟩
    rw [hinfo]
    exact .of_lengths rfl (by decide) rfl rfl rfl fun _ => rfl
  have htorrent : info.torrentInfo.torrent = twoFiles := by rw [hinfo]; rfl
  have hwf : r.1.WellFormed := wellFormed_new.addNewDownloadJob _ _ _ _ _ _
  refine @reloadJobHistory_saveJobHistory .wire Codec.wire_lossless r.1 hwf ?_ ?_ out rfl (Nat.le_refl _) r.2 disk
    "/history" ?_ ?_ new rfl ?_ _
  · rw [htable]
    intro j hj
    rw [List.mem_singleton.mp hj]
    exact hwhole
  · rw [htable]
    exact List.pairwise_singleton _ _
  · exact SortedMap.find?_insert_of_ne _ (by decide)
  · rw [htable]
    intro j hj torrentPath hpath
    rw [List.mem_singleton.mp hj] at hpath ⊢
    obtain rfl := Option.some.inj hpath
    rw [parseTorrent, SortedMap.find?_insert_self]
    simp only [Codec.parseTorrent_wire, htorrent]
  · intro j _ h
    cases h

end CoolClient

end CoolDown
