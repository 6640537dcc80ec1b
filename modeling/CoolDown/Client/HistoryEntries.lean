import CoolDown.Client.HistoryWire
import CoolDown.Client.JobConstruction
import CoolDown.Client.TorrentRegistry

/-!
# The entries of the history: `ReloadJobHistory` and `ReloadOneJob`

`ReloadJobHistory` goes on to the next entry when a torrent cannot be parsed, and when `ReloadOneJob` returns an error.
`ReloadOneJob` never returns one: a torrent that is registered already fails its assertion, and a record without bits is
divided by, or takes too much memory. Either ends the whole loop, and the entries that follow are lost.

## The model

The client is any that can be reached, the disk any. A file that `add_file` makes is empty or has zeros in it, and the
generated classes refuse that for a torrent (`RejectsZeros`), so that entries parse or do not whatever has been reloaded
before them.

## What is proved

* `foldlM_reloadBitmap`: what the records of an entry make of bitmaps and percentages.
* `reloadOneJob_cases`: one entry is reloaded, with its state, or ends the loop.
* `reloadJobs_cases`: so is a list of entries, if all those that parse are harmless.
* `reloadJobHistory_iff`: the jobs of the entries are added, one for each torrent, just when they are all harmless.
* `shared_torrent_path`: two entries with one torrent path.
-/

namespace CoolDown

open Library JobHistory

/-- A torrent is not made of zeros. -/
def JobHistory.Codec.RejectsZeros (c : Codec) : Prop := ∀ n, c.parseTorrent (List.replicate n 0) = none

namespace CoolClient

/-! ### The records of an entry -/

/-- The last record with the fileid. -/
def lastRecord (files : List FileInfo) (fileid : String) : Option FileInfo :=
  (files.filter fun oneFile => oneFile.fileid = fileid).getLast?

theorem lastRecord_cons (oneFile : FileInfo) (files : List FileInfo) (fileid : String) :
    lastRecord (oneFile :: files) fileid =
      (lastRecord files fileid).or (if oneFile.fileid = fileid then some oneFile else none) := by
  unfold lastRecord
  by_cases he : oneFile.fileid = fileid
  · rw [List.filter_cons_of_pos (by simpa using he), List.getLast?_cons, if_pos he]
    cases List.getLast? _ <;> rfl
  · rw [List.filter_cons_of_neg (by simpa using he), if_neg he, Option.or_none]

theorem mem_of_lastRecord {files : List FileInfo} {fileid : String} {oneFile : FileInfo}
    (h : lastRecord files fileid = some oneFile) : oneFile ∈ files ∧ oneFile.fileid = fileid := by
  have hmem := List.mem_filter.mp (List.mem_of_getLast? h)
  exact ⟨hmem.1, of_decide_eq_true hmem.2⟩

/-- **What the records make**: each fileid has the bitmap of its last record, and the percentage that goes with it. -/
theorem foldlM_reloadBitmap {files : List FileInfo} {d d' : DownloadInfo}
    (h : files.foldlM reloadBitmap d = .ok d') :
    (d'.uploadTotal = d.uploadTotal ∧ d'.downloadTotal = d.downloadTotal) ∧ ∀ fileid,
      d'.bitmapMap.find? fileid =
        ((lastRecord files fileid).map fun oneFile => some (recordBits oneFile)).or (d.bitmapMap.find? fileid) ∧
      d'.percentageMap.find? fileid = ((lastRecord files fileid).map fun oneFile =>
        Int32.ofNat ((recordBits oneFile).count true / (recordBits oneFile).length)).or
          (d.percentageMap.find? fileid) := by
  induction files generalizing d with
  | nil =>
    obtain rfl := Except.ok.inj h
    exact ⟨⟨rfl, rfl⟩, fun fileid => ⟨rfl, rfl⟩⟩
  | cons oneFile files ih =>
    rw [List.foldlM_cons] at h
    cases hone : reloadBitmap d oneFile with
    | error e =>
      rw [hone] at h
      cases h
    | ok d₁ =>
      rw [hone] at h
      obtain ⟨-, rfl⟩ := reloadBitmap_eq_ok_iff.mp hone
      obtain ⟨htotals, hmaps⟩ := ih h
      refine ⟨htotals, fun fileid => ?_⟩
      rw [(hmaps fileid).1, (hmaps fileid).2, lastRecord_cons, SortedMap.find?_insert, SortedMap.find?_insert]
      cases lastRecord files fileid with
      | some _ => exact ⟨rfl, rfl⟩
      | none => split_ifs <;> exact ⟨rfl, rfl⟩

/-! ### One entry -/

/-- What an entry needs: which files. -/
def needsOf (oneHistory : JobHistoryInfo) : List FileIdentityInfo :=
  oneHistory.file.map fun oneFile => ⟨oneFile.relativePath, oneFile.filename⟩

/-- The job has the state of the entry: its torrent, the files that have a record and where they are, the bitmap of
the last record for each fileid (for a fileid without one that of the constructor) and the percentage that goes with
it, the totals, and it is paused. -/
structure Restored (info : JobInfo) (torrent : Torrent) (oneHistory : JobHistoryInfo) : Prop where
  torrentInfo : info.torrentInfo = ⟨torrent⟩
  topPath : info.localFileInfo.topPath = oneHistory.localTopPath
  fileidlist : info.fileidlist = (JobInfo.neededFiles torrent (needsOf oneHistory)).map Torrent.File.checkSum
  paths : ∀ fileid, info.localFileInfo.paths fileid =
    (JobInfo.neededFilesOf torrent (needsOf oneHistory) fileid).map (JobInfo.localPath oneHistory.localTopPath)
  bitmaps : ∀ fileid, info.downloadInfo.bitmapMap.find? fileid =
    ((lastRecord oneHistory.file fileid).map fun oneFile => some (recordBits oneFile)).or
      ((JobInfo.neededFilesOf torrent (needsOf oneHistory) fileid).getLast?.map
        fun file => some (List.replicate file.chunkCount false))
  percentages : ∀ fileid, info.downloadInfo.percentageMap.find? fileid =
    ((lastRecord oneHistory.file fileid).map fun oneFile =>
      Int32.ofNat ((recordBits oneFile).count true / (recordBits oneFile).length)).or
        ((JobInfo.neededFilesOf torrent (needsOf oneHistory) fileid).getLast?.map fun _ => 0)
  totals : info.downloadInfo.uploadTotal = oneHistory.uploadTotal.toUInt64 ∧
    info.downloadInfo.downloadTotal = oneHistory.downloadTotal.toUInt64
  paused : info.downloadInfo.isJobRemoved = false ∧ info.downloadInfo.isStopped = false ∧
    info.downloadInfo.isDownloadPaused = true

/-- The torrent is not registered, and each record has bits. -/
def Fine (s : CoolClient) (torrent : Torrent) (oneHistory : JobHistoryInfo) : Prop :=
  ¬ s.hasThisTorrent torrent.torrentId ∧ ∀ oneFile ∈ oneHistory.file, 0 < oneFile.fileBitCount

/-- **One entry** is reloaded with its state, or `ReloadOneJob` throws. -/
theorem reloadOneJob_cases (env : Surroundings) (torrent : Torrent) (oneHistory : JobHistoryInfo) (s : CoolClient)
    (disk : Disk) :
    (Fine s torrent oneHistory ∧ ∃ info, Restored info torrent oneHistory ∧
      reloadOneJob env torrent oneHistory s disk =
        (.ok .errorOk, (s.registerTorrent torrent.torrentId).addNewJob info oneHistory.torrentPath,
          (JobInfo.new torrent oneHistory.localTopPath (needsOf oneHistory) env.uploadTotal env.downloadTotal env.fault
            disk).2)) ∨
    ¬ Fine s torrent oneHistory ∧ ∃ e s' disk', reloadOneJob env torrent oneHistory s disk = (.error e, s', disk') := by
  unfold reloadOneJob
  split_ifs with hregistered
  · exact .inr ⟨fun hfine => hfine.1 hregistered, _, _, _, rfl⟩
  · dsimp only
    split
    · next e hfold =>
      refine .inr ⟨fun hfine => ?_, _, _, _, rfl⟩
      obtain ⟨d, hd⟩ := (TorrentRegistry.foldlM_reloadBitmap_isOk_iff _ _).mpr hfine.2
      rw [hfold] at hd
      cases hd
    · next d hfold =>
      obtain ⟨htotals, hmaps⟩ := foldlM_reloadBitmap hfold
      refine .inl ⟨⟨hregistered, (TorrentRegistry.foldlM_reloadBitmap_isOk_iff _ _).mp ⟨d, hfold⟩⟩, _, ?_, rfl⟩
      constructor
      · exact JobInfo.torrentInfo_new ..
      · exact JobInfo.topPath_new ..
      · exact JobInfo.fileidlist_new ..
      · exact fun fileid => JobInfo.paths_new ..
      · exact fun fileid => (hmaps fileid).1.trans (congrArg _ JobInfo.find?_bitmapMap_new)
      · exact fun fileid => (hmaps fileid).2.trans (congrArg _ JobInfo.find?_percentageMap_new)
      · exact htotals
      · exact ⟨rfl, rfl, rfl⟩

/-! ### Which entries parse -/

theorem parseTorrent_eq_ok_iff {c : Codec} {disk : Disk} {torrentPath : String} {torrent : Torrent} :
    parseTorrent c disk torrentPath = .ok torrent ↔
      ∃ content, disk.find? torrentPath = some content ∧ c.parseTorrent content = some torrent := by
  unfold parseTorrent
  cases disk.find? torrentPath with
  | none => simp
  | some content => cases hparse : c.parseTorrent content <;> simp [hparse]

/-- `add_file` leaves a file as it is, or makes it of zeros. -/
theorem find?_disk_addFile (l : LocalFileInfo) (fileid relativePath filename : String) (filesize : Int64)
    (fault : Option LocalFileInfo.Fault) (disk : Disk) (path : String) :
    (l.addFile fileid relativePath filename filesize fault disk).2.2.find? path = disk.find? path ∨
      disk.find? path = none ∧
        ∃ n, (l.addFile fileid relativePath filename filesize fault disk).2.2.find? path = some (List.replicate n 0) := by
  have hmade : ∀ {filepath : String} (n : ℕ), ¬(disk.find? filepath).isSome →
      (disk.insert filepath (List.replicate n 0)).find? path = disk.find? path ∨
        disk.find? path = none ∧ ∃ n', (disk.insert filepath (List.replicate n 0)).find? path = some (List.replicate n' 0) := by
    intro filepath n hnew
    rw [SortedMap.find?_insert]
    split_ifs with he
    · exact .inr ⟨by rwa [he, Option.not_isSome_iff_eq_none] at hnew, n, rfl⟩
    · exact .inl rfl
  unfold LocalFileInfo.addFile
  split
  · exact .inl rfl
  all_goals
    dsimp only
    split_ifs with _ hexists
    · exact .inl rfl
    · exact .inl rfl
    · exact .inl rfl
    · exact hmade 0 hexists
    · exact hmade _ hexists

/-- The same paths have the same torrents. -/
def SameTorrents (c : Codec) (disk disk' : Disk) : Prop :=
  ∀ path torrent, parseTorrent c disk' path = .ok torrent ↔ parseTorrent c disk path = .ok torrent

/-- **The constructor of a job** makes no torrent, and spoils none. -/
theorem sameTorrents_new {c : Codec} (hc : c.RejectsZeros) (torrent : Torrent) (topPath : String)
    (needs : List FileIdentityInfo) (uploadTotal downloadTotal : UInt64)
    (fault : String → Option LocalFileInfo.Fault) (disk : Disk) :
    SameTorrents c disk (JobInfo.new torrent topPath needs uploadTotal downloadTotal fault disk).2 := by
  unfold JobInfo.new
  refine @List.foldlRecOn _ _ (fun s : JobInfo × Disk => SameTorrents c disk s.2) _ _ _ (fun _ _ => Iff.rfl) ?_
  intro s ih file _
  unfold JobInfo.addNeeded
  split_ifs
  · intro path torrent
    rw [← ih path torrent, parseTorrent_eq_ok_iff, parseTorrent_eq_ok_iff]
    rcases find?_disk_addFile s.1.localFileInfo file.checkSum file.relativePath file.filename file.size
      (fault (s.1.localFileInfo.topPath ++ file.relativePath ++ file.filename)) s.2 path with hsame | ⟨hnone, n, hmade⟩
    · rw [hsame]
    · rw [hmade, hnone]
      refine iff_of_false ?_ (by rintro ⟨_, ⟨⟩, _⟩)
      rintro ⟨content, hcontent, hparse⟩
      rw [← Option.some.inj hcontent, hc n] at hparse
      cases hparse
  · exact ih

/-- The entries whose torrent parses, each with its torrent. -/
def parsedEntries (c : Codec) (disk : Disk) (entries : List JobHistoryInfo) : List (Torrent × JobHistoryInfo) :=
  entries.filterMap fun oneHistory =>
    match parseTorrent c disk oneHistory.torrentPath with
    | .error _ => none
    | .ok torrent => some (torrent, oneHistory)

theorem parsedEntries_congr {c : Codec} {disk disk' : Disk} (h : SameTorrents c disk disk')
    (entries : List JobHistoryInfo) : parsedEntries c disk' entries = parsedEntries c disk entries := by
  refine List.filterMap_congr fun oneHistory _ => ?_
  cases hparse : parseTorrent c disk oneHistory.torrentPath with
  | ok torrent => rw [(h _ _).mpr hparse]
  | error e =>
    cases hparse' : parseTorrent c disk' oneHistory.torrentPath with
    | ok torrent =>
      rw [h] at hparse'
      rw [hparse'] at hparse
      cases hparse
    | error e' => rfl

/-! ### All entries -/

/-- The torrents of the entries are different, none is registered, and each record has bits. -/
def Harmless (s : CoolClient) (entries : List (Torrent × JobHistoryInfo)) : Prop :=
  (entries.map fun e => e.1.torrentId).Nodup ∧ ∀ e ∈ entries, Fine s e.1 e.2

/-- The client with jobs for these entries. -/
def addEntries (s : CoolClient) (added : List ((Torrent × JobHistoryInfo) × JobInfo)) : CoolClient :=
  added.foldl (fun s j => (s.registerTorrent j.1.1.torrentId).addNewJob j.2 j.1.2.torrentPath) s

theorem fine_addNewJob {s : CoolClient} {id : String} {info : JobInfo} {torrentPath : String} {torrent : Torrent}
    {oneHistory : JobHistoryInfo} :
    Fine ((s.registerTorrent id).addNewJob info torrentPath) torrent oneHistory ↔
      id ≠ torrent.torrentId ∧ Fine s torrent oneHistory := by
  have hregistered : ((s.registerTorrent id).addNewJob info torrentPath).hasThisTorrent torrent.torrentId ↔
      id = torrent.torrentId ∨ s.hasThisTorrent torrent.torrentId :=
    hasThisTorrent_registerTorrent s id torrent.torrentId
  rw [Fine, Fine, hregistered, not_or, and_assoc]

/-- Entries are harmless one after the other. -/
theorem harmless_cons {s : CoolClient} {e : Torrent × JobHistoryInfo} {entries : List (Torrent × JobHistoryInfo)}
    (info : JobInfo) :
    Harmless s (e :: entries) ↔
      Fine s e.1 e.2 ∧ Harmless ((s.registerTorrent e.1.torrentId).addNewJob info e.2.torrentPath) entries := by
  simp only [Harmless, List.map_cons, List.nodup_cons, List.forall_mem_cons, fine_addNewJob, List.mem_map, not_exists,
    not_and]
  constructor
  · rintro ⟨⟨hnew, hnodup⟩, hfine, hall⟩
    exact ⟨hfine, hnodup, fun e' he' => ⟨fun heq => hnew e' he' heq.symm, hall e' he'⟩⟩
  · rintro ⟨hfine, hnodup, hall⟩
    exact ⟨⟨fun e' he' heq => (hall e' he').1 heq.symm, hnodup⟩, hfine, fun e' he' => (hall e' he').2⟩

/-- **The loop.** All entries that parse are reloaded, or one ends it. -/
theorem reloadJobs_cases {c : Codec} (hc : c.RejectsZeros) (env : ℕ → Surroundings) (entries : List JobHistoryInfo)
    (s : CoolClient) (disk : Disk) :
    (Harmless s (parsedEntries c disk entries) ∧ ∃ added disk', added.map Prod.fst = parsedEntries c disk entries ∧
      (∀ j ∈ added, Restored j.2 j.1.1 j.1.2) ∧
      reloadJobs c env entries s disk = (.ok .errorOk, addEntries s added, disk')) ∨
    ¬ Harmless s (parsedEntries c disk entries) ∧ ∃ e s' disk', reloadJobs c env entries s disk = (.error e, s', disk') := by
  induction entries generalizing s disk with
  | nil => exact .inl ⟨⟨.nil, by rintro _ ⟨⟩⟩, [], disk, rfl, by rintro _ ⟨⟩, rfl⟩
  | cons oneHistory entries ih =>
    cases hparse : parseTorrent c disk oneHistory.torrentPath with
    | error e =>
      have hparsed : parsedEntries c disk (oneHistory :: entries) = parsedEntries c disk entries := by
        simp only [parsedEntries, List.filterMap_cons, hparse]
      have hreload : reloadJobs c env (oneHistory :: entries) s disk = reloadJobs c env entries s disk := by
        simp only [reloadJobs, hparse]
      rw [hparsed, hreload]
      exact ih s disk
    | ok torrent =>
      have hparsed : parsedEntries c disk (oneHistory :: entries) =
          (torrent, oneHistory) :: parsedEntries c disk entries := by
        simp only [parsedEntries, List.filterMap_cons, hparse]
      rw [hparsed]
      rcases reloadOneJob_cases (env s.jobIndex) torrent oneHistory s disk with
        ⟨hfine, info, hrestored, hone⟩ | ⟨hfine, e, s', disk', hone⟩
      · have hreload : ∀ r, reloadJobs c env entries ((s.registerTorrent torrent.torrentId).addNewJob info
            oneHistory.torrentPath) (JobInfo.new torrent oneHistory.localTopPath (needsOf oneHistory)
              (env s.jobIndex).uploadTotal (env s.jobIndex).downloadTotal (env s.jobIndex).fault disk).2 = r →
            reloadJobs c env (oneHistory :: entries) s disk = r := by
          rintro r rfl
          simp only [reloadJobs, hparse, hone]
        have hih := ih ((s.registerTorrent torrent.torrentId).addNewJob info oneHistory.torrentPath)
          (JobInfo.new torrent oneHistory.localTopPath (needsOf oneHistory) (env s.jobIndex).uploadTotal
            (env s.jobIndex).downloadTotal (env s.jobIndex).fault disk).2
        rw [parsedEntries_congr (sameTorrents_new hc _ _ _ _ _ _ _)] at hih
        rw [harmless_cons info, and_iff_right hfine]
        rcases hih with ⟨hharmless, added, disk', hadded, hall, hrest⟩ | ⟨hharmless, e, s', disk', hrest⟩
        · refine .inl ⟨hharmless, ((torrent, oneHistory), info) :: added, disk', ?_, ?_, hreload _ hrest⟩
          · rw [List.map_cons, hadded]
          · exact List.forall_mem_cons.mpr ⟨hrestored, hall⟩
        · exact .inr ⟨hharmless, e, s', disk', hreload _ hrest⟩
      · refine .inr ⟨fun hharmless => hfine (hharmless.2 _ List.mem_cons_self), e, s', disk', ?_⟩
        simp only [reloadJobs, hparse, hone]

/-! ### The jobs that are added -/

theorem hasThisTorrent_addEntries (s : CoolClient) (added : List ((Torrent × JobHistoryInfo) × JobInfo)) (id : String) :
    (addEntries s added).hasThisTorrent id ↔ s.hasThisTorrent id ∨ ∃ j ∈ added, j.1.1.torrentId = id := by
  induction added generalizing s with
  | nil => simp [addEntries]
  | cons j added ih =>
    have hone : ((s.registerTorrent j.1.1.torrentId).addNewJob j.2 j.1.2.torrentPath).hasThisTorrent id ↔
        j.1.1.torrentId = id ∨ s.hasThisTorrent id :=
      hasThisTorrent_registerTorrent s _ id
    rw [addEntries, List.foldl_cons, ← addEntries, ih, hone, or_assoc, or_left_comm]
    simp only [List.mem_cons, exists_eq_or_imp]

/-- Each entry gets the next handle. -/
theorem find?_addEntries (s : CoolClient) (added : List ((Torrent × JobHistoryInfo) × JobInfo)) (handle : ℕ) :
    (addEntries s added).jobs.find? handle =
        (if handle < s.jobIndex then none else added[handle - s.jobIndex]?.map Prod.snd).or (s.jobs.find? handle) ∧
      (addEntries s added).torrentPathMap.find? handle =
        (if handle < s.jobIndex then none else added[handle - s.jobIndex]?.map fun j => j.1.2.torrentPath).or
          (s.torrentPathMap.find? handle) := by
  induction added generalizing s with
  | nil => simp [addEntries]
  | cons j added ih =>
    have hnext : ((s.registerTorrent j.1.1.torrentId).addNewJob j.2 j.1.2.torrentPath).jobIndex = s.jobIndex + 1 := rfl
    rw [addEntries, List.foldl_cons, ← addEntries, (ih _).1, (ih _).2, hnext]
    simp only [addNewJob, registerTorrent, SortedMap.find?_insert]
    rcases Nat.lt_trichotomy handle s.jobIndex with hlt | rfl | hgt
    · have hlt' : handle < s.jobIndex + 1 := Nat.lt_succ_of_lt hlt
      simp only [if_pos hlt, if_pos hlt', if_neg hlt.ne', and_self]
    · simp
    · have hindex : handle - s.jobIndex = handle - (s.jobIndex + 1) + 1 := by omega
      have hge : ¬ handle < s.jobIndex + 1 := by omega
      simp only [if_neg hgt.ne, if_neg (Nat.not_lt.mpr hgt.le), if_neg hge, hindex, List.getElem?_cons_succ, and_self]

/-- A job that is there is an old one, or that of an entry. -/
theorem job_addEntries {s : CoolClient} {added : List ((Torrent × JobHistoryInfo) × JobInfo)} {handle : ℕ}
    {info : JobInfo} (h : (addEntries s added).jobs.find? handle = some info) :
    s.jobs.find? handle = some info ∨ ∃ i j, handle = s.jobIndex + i ∧ added[i]? = some j ∧ j.2 = info ∧
      (addEntries s added).torrentPathMap.find? handle = some j.1.2.torrentPath := by
  rw [(find?_addEntries s added handle).1] at h
  split_ifs at h with hbefore
  · exact .inl h
  · cases hnew : added[handle - s.jobIndex]? with
    | none =>
      rw [hnew] at h
      exact .inl h
    | some j =>
      rw [hnew] at h
      refine .inr ⟨handle - s.jobIndex, j, by omega, hnew, Option.some.inj h, ?_⟩
      rw [(find?_addEntries s added handle).2, if_neg hbefore, hnew]
      rfl

/-- The old jobs are there, and one for each torrent of an entry, with the state of such an entry; and the torrents of
the entries have been registered. -/
structure Reloaded (s s' : CoolClient) (entries : List (Torrent × JobHistoryInfo)) : Prop where
  registered : ∀ id, s'.hasThisTorrent id ↔ s.hasThisTorrent id ∨ ∃ e ∈ entries, e.1.torrentId = id
  kept : ∀ handle info, s.jobs.find? handle = some info → s'.jobs.find? handle = some info
  one : ∀ e ∈ entries, ∃! handle, TorrentRegistry.idOf s' handle = some e.1.torrentId
  state : ∀ handle info, s'.jobs.find? handle = some info → s.jobs.find? handle = some info ∨
    ∃ e ∈ entries, Restored info e.1 e.2 ∧ s'.torrentPathMap.find? handle = some e.2.torrentPath

theorem Restored.torrentId {info : JobInfo} {torrent : Torrent} {oneHistory : JobHistoryInfo}
    (h : Restored info torrent oneHistory) : info.torrentId = torrent.torrentId := by
  rw [JobInfo.torrentId, h.torrentInfo]

/-- With handles that are new, and torrents that are. -/
theorem reloaded_addEntries {s : CoolClient} (hs : TorrentRegistry.Covered s)
    {added : List ((Torrent × JobHistoryInfo) × JobInfo)} (hharmless : Harmless s (added.map Prod.fst))
    (hall : ∀ j ∈ added, Restored j.2 j.1.1 j.1.2) : Reloaded s (addEntries s added) (added.map Prod.fst) := by
  have hlt : ∀ {handle info}, s.jobs.find? handle = some info → handle < s.jobIndex := by
    intro handle info hfind
    exact hs.lt handle info.torrentId (by rw [TorrentRegistry.idOf, hfind]; rfl)
  constructor
  · intro id
    rw [hasThisTorrent_addEntries]
    simp only [List.mem_map, exists_exists_and_eq_and]
  · intro handle info hfind
    rw [(find?_addEntries s added handle).1, if_pos (hlt hfind), Option.none_or, hfind]
  · intro e he
    obtain ⟨j, hj, rfl⟩ := List.mem_map.mp he
    obtain ⟨i, hi, rfl⟩ := List.getElem_of_mem hj
    refine ⟨s.jobIndex + i, ?_, ?_⟩
    · simp only [TorrentRegistry.idOf]
      rw [(find?_addEntries s added _).1, if_neg (by omega), Nat.add_sub_cancel_left, List.getElem?_eq_getElem hi]
      exact congrArg some (hall _ hj).torrentId
    · intro handle hid
      obtain ⟨info, hfind, hinfo⟩ := Option.map_eq_some_iff.mp hid
      rcases job_addEntries hfind with hold | ⟨i', j, rfl, hj', rfl, -⟩
      · -- an old job has another torrent
        refine absurd (hs.registered handle _ ?_) (hharmless.2 _ (List.mem_map_of_mem hj)).1
        rw [TorrentRegistry.idOf, hold, Option.map_some, hinfo]
      · obtain ⟨hi', rfl⟩ := List.getElem?_eq_some_iff.mp hj'
        rw [(hall _ (List.getElem_mem hi')).torrentId] at hinfo
        have hids : (added.map fun j => j.1.1.torrentId).Nodup := by
          have := hharmless.1
          rwa [List.map_map] at this
        have hsame := @List.Nodup.getElem_inj_iff _ _ hids i' (by simpa using hi') i (by simpa using hi)
        rw [List.getElem_map, List.getElem_map] at hsame
        rw [hsame.mp hinfo]
  · intro handle info hfind
    rcases job_addEntries hfind with hold | ⟨i, j, -, hj, rfl, hpath⟩
    · exact .inl hold
    · have hmem := List.mem_of_getElem? hj
      exact .inr ⟨j.1, List.mem_map_of_mem hmem, hall j hmem, hpath⟩

/-- **When reloading goes well.** For any history that is there and parses, `ReloadJobHistory` ends without an exception,
with one job for each torrent of an entry that parses, if and only if these torrents are different ones, none of which
is registered, and each file record of these entries has a positive count of bits. -/
theorem reloadJobHistory_iff {c : Codec} (hc : c.RejectsZeros) (env : ℕ → Surroundings) {disk₀ disk₁ : Disk}
    {actions : List TorrentRegistry.Action} {s : CoolClient}
    (hrun : exec TorrentRegistry.step (CoolClient.new, disk₀) actions = some (s, disk₁)) {disk : Disk} {filename : String}
    {content : Bytes} {history : History} (hfile : disk.find? filename = some content)
    (hparse : c.parse content = some history) :
    (∃ s' disk', reloadJobHistory c env filename s disk = (.ok .errorOk, s', disk') ∧
        Reloaded s s' (parsedEntries c disk history.jobInfo)) ↔
      Harmless s (parsedEntries c disk history.jobInfo) := by
  have hcovered : TorrentRegistry.Covered s :=
    exec_invariant (I := fun s => TorrentRegistry.Covered s.1) TorrentRegistry.step_covered hrun
      TorrentRegistry.covered_new
  have hreload : reloadJobHistory c env filename s disk = reloadJobs c env history.jobInfo s disk := by
    simp only [reloadJobHistory, hfile, hparse]
  rw [hreload]
  rcases reloadJobs_cases hc env history.jobInfo s disk with ⟨hharmless, added, disk', hadded, hall, hrest⟩ |
    ⟨hharmless, e, s', disk', hrest⟩
  · refine iff_of_true ⟨_, disk', hrest, ?_⟩ hharmless
    rw [← hadded] at hharmless ⊢
    exact reloaded_addEntries hcovered hharmless hall
  · refine iff_of_false ?_ hharmless
    rintro ⟨s'', disk'', hok, -⟩
    rw [hrest] at hok
    cases hok

/-! ### Two entries -/

/-- The encoding of the generated classes, which miss a required field of a torrent. -/
def checked : Codec where
  serialize := History.message.encode
  parse := History.message.decode
  parseTorrent bs := (Wire.decode bs).bind fun fs =>
    if ∀ number ∈ ([1, 2, 3, 4, 5, 6] : List ℕ), number ∈ fs.map Wire.Field.number then
      fs.foldlM Torrent.message.setField Torrent.message.init
    else none

/-- Zeros are fields with the number zero. -/
theorem number_of_readFields_replicate {k n : ℕ} {fs : List Wire.Field}
    (h : Wire.readFields k (List.replicate n 0) = some fs) : ∀ f ∈ fs, f.number = 0 := by
  induction k generalizing n fs with
  | zero =>
    cases n with
    | zero =>
      obtain rfl := Option.some.inj h
      rintro _ ⟨⟩
    | succ n => cases h
  | succ k ih =>
    match n with
    | 0 =>
      obtain rfl := Option.some.inj h
      rintro _ ⟨⟩
    | 1 => cases h
    | n + 2 =>
      have hone : Wire.readField (List.replicate (n + 2) 0) = some (⟨0, .varint 0⟩, List.replicate n 0) := rfl
      rw [List.replicate_succ, Wire.readFields, ← List.replicate_succ, hone] at h
      · obtain ⟨fs', hfs', rfl⟩ := Option.map_eq_some_iff.mp h
        exact List.forall_mem_cons.mpr ⟨rfl, ih hfs'⟩
      · exact List.cons_ne_nil _ _

theorem checked_rejectsZeros : checked.RejectsZeros := by
  intro n
  simp only [checked]
  cases hdecode : Wire.decode (List.replicate n 0) with
  | none => rfl
  | some fs =>
    rw [Option.bind_some, if_neg]
    intro hrequired
    obtain ⟨f, hf, hnumber⟩ := List.mem_map.mp (hrequired 1 List.mem_cons_self)
    rw [number_of_readFields_replicate hdecode f hf] at hnumber
    cases hnumber

/-- A torrent that is written is read back. -/
theorem checked_parseTorrent (torrent : Torrent) :
    checked.parseTorrent (Torrent.message.encode torrent) = some torrent := by
  have hrequired : ∀ number ∈ [1, 2, 3, 4, 5, 6], number ∈ (Torrent.message.toFields torrent).map Wire.Field.number := by
    simp [Torrent.message]
  simp only [checked, Wire.Message.encode, Wire.decode_encode, Option.bind_some, if_pos hrequired,
    Torrent.message.foldlM_toFields]

/-- The torrent file and the history file. -/
def diskWith (history : History) : Disk :=
  ((∅ : Disk).insert "/history" (checked.serialize history)).insert "/t"
    (Torrent.message.encode TorrentRegistry.emptyTorrent)

theorem checked_lossless : checked.Lossless := by
  intro history
  exact History.message.decode_encode history

theorem find?_diskWith (history : History) :
    (diskWith history).find? "/history" = some (checked.serialize history) := by
  rw [diskWith, SortedMap.find?_insert_of_ne _ (by decide), SortedMap.find?_insert_self]

/-- An entry for the torrent. -/
def emptyEntry : JobHistoryInfo := ⟨"/t", "/d/", [], 0, 0⟩

theorem parsedEntries_diskWith (history : History) (n : ℕ) :
    parsedEntries checked (diskWith history) (List.replicate n emptyEntry) =
      List.replicate n (TorrentRegistry.emptyTorrent, emptyEntry) := by
  have hparse : parseTorrent checked (diskWith history) emptyEntry.torrentPath = .ok TorrentRegistry.emptyTorrent :=
    parseTorrent_eq_ok_iff.mpr ⟨_, SortedMap.find?_insert_self .., checked_parseTorrent _⟩
  rw [parsedEntries, List.filterMap_replicate_of_some (b := (TorrentRegistry.emptyTorrent, emptyEntry))]
  simp only [hparse]

/-- A torrent with one file, of one chunk. -/
def oneFileTorrent (torrentId : String) : Torrent :=
  ⟨torrentId, 0, 1, "", "", "", [{ checkSum := "f", relativePath := "", filename := "a", size := 1, chunk := [⟨"s", 1⟩] }]⟩

/-- Two jobs for such torrents: one has the chunk, and the other has not. -/
def twoEntries : List (Torrent × JobHistoryInfo) :=
  [(oneFileTorrent "t", ⟨"/t", "/d/", [⟨"f", "", "a", [1], 1⟩], 5, 7⟩),
    (oneFileTorrent "u", ⟨"/u", "/e/", [⟨"f", "", "a", [0], 1⟩], 0, 0⟩)]

/-- The torrent files and the history file. -/
def diskWithTwo : Disk :=
  ((∅ : Disk).insert "/history" (checked.serialize ⟨twoEntries.map Prod.snd⟩)
    |>.insert "/t" (Torrent.message.encode (oneFileTorrent "t"))).insert "/u"
      (Torrent.message.encode (oneFileTorrent "u"))

theorem find?_diskWithTwo : diskWithTwo.find? "/history" = some (checked.serialize ⟨twoEntries.map Prod.snd⟩) := by
  rw [diskWithTwo, SortedMap.find?_insert_of_ne _ (by decide), SortedMap.find?_insert_of_ne _ (by decide),
    SortedMap.find?_insert_self]

theorem parsedEntries_diskWithTwo : parsedEntries checked diskWithTwo (twoEntries.map Prod.snd) = twoEntries := by
  have ht : parseTorrent checked diskWithTwo "/t" = .ok (oneFileTorrent "t") :=
    parseTorrent_eq_ok_iff.mpr ⟨_, (SortedMap.find?_insert_of_ne _ (by decide)).trans (SortedMap.find?_insert_self ..),
      checked_parseTorrent _⟩
  have hu : parseTorrent checked diskWithTwo "/u" = .ok (oneFileTorrent "u") :=
    parseTorrent_eq_ok_iff.mpr ⟨_, SortedMap.find?_insert_self .., checked_parseTorrent _⟩
  simp only [parsedEntries, twoEntries, List.map_cons, List.map_nil, List.filterMap_cons, ht, hu, List.filterMap_nil]

/-- Both jobs come back. -/
theorem reloadJobHistory_iff_two :
    ∃ s' disk', reloadJobHistory checked (fun _ => TorrentRegistry.calm) "/history" new diskWithTwo =
        (.ok .errorOk, s', disk') ∧
      Reloaded new s' twoEntries := by
  have hiff := @reloadJobHistory_iff checked checked_rejectsZeros (fun _ => TorrentRegistry.calm) ∅ ∅ [] new rfl diskWithTwo
    "/history" _ ⟨twoEntries.map Prod.snd⟩ find?_diskWithTwo (checked_lossless _)
  rw [parsedEntries_diskWithTwo] at hiff
  refine hiff.mpr ⟨by decide, fun e he => ?_⟩
  obtain rfl | rfl : e = twoEntries[0] ∨ e = twoEntries[1] := by simpa [twoEntries] using he
  · exact ⟨by decide, by decide⟩
  · exact ⟨by decide, by decide⟩

/-- **The second of two entries with one torrent path** fails the assertion, and what follows is lost. -/
theorem shared_torrent_path :
    ¬ ∀ (c : Codec) (env : ℕ → Surroundings) (filename : String) (disk : Disk) (content : Bytes) (history : History),
      c.RejectsZeros → disk.find? filename = some content → c.parse content = some history →
        ∃ s' disk', reloadJobHistory c env filename new disk = (.ok .errorOk, s', disk') ∧
          Reloaded new s' (parsedEntries c disk history.jobInfo) := by
  intro h
  obtain ⟨s', disk', hok, -⟩ := h checked (fun _ => TorrentRegistry.calm) "/history"
    (diskWith ⟨List.replicate 2 emptyEntry⟩) _ ⟨List.replicate 2 emptyEntry⟩ checked_rejectsZeros (find?_diskWith _)
    (checked_lossless _)
  have hreload : reloadJobs checked (fun _ => TorrentRegistry.calm) (List.replicate 2 emptyEntry) new
      (diskWith ⟨List.replicate 2 emptyEntry⟩) = (.ok .errorOk, s', disk') := by
    simpa only [reloadJobHistory, find?_diskWith, checked_lossless _] using hok
  rcases reloadJobs_cases checked_rejectsZeros (fun _ => TorrentRegistry.calm) (List.replicate 2 emptyEntry) new
    (diskWith ⟨List.replicate 2 emptyEntry⟩) with ⟨hharmless, -⟩ | ⟨-, e, s'', disk'', hthrown⟩
  · rw [parsedEntries_diskWith] at hharmless
    exact absurd hharmless.1 (by decide)
  · rw [hthrown] at hreload
    cases hreload

end CoolClient

end CoolDown
