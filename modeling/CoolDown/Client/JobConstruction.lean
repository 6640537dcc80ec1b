import CoolDown.Client.JobInfo

/-!
# What the job relies on: `JobInfo::JobInfo`

The constructor of `JobInfo` sees the files that are needed, and keeps what it has for a file under
its fileid: the paths of all of them, the bitmap of the last. `TorrentInfo` groups all files of the
torrent by their fileids, and what `get_one_file_of_same_fileid` returns is the first, needed or not.
`init_queue` goes by the chunks of that one, and `run` asserts that it is there to be downloaded.

## What is proved

* `find?_bitmapMap_new`, `find?_percentageMap_new`, `isSome_getFile_new`: what the constructor leaves under a fileid.
* `agrees_iff`: with it all succeeding, the two agree on a fileid if and only if the first file with
  it lies where a needed one does, and has as many chunks as the last that is needed.
* `agree_iff`: and so they do on all.
* `unneeded_first`: of two files with the same content the second is needed.
-/

namespace CoolDown

open Library

namespace JobInfo

variable (torrent : Torrent) (topPath : String) (needs : List FileIdentityInfo) (uploadTotal downloadTotal : UInt64)
  (fault : String → Option LocalFileInfo.Fault) (disk : Disk) (fileid : String)

/-- The files of the torrent with this fileid. -/
def filesOf : List Torrent.File := torrent.file.filter fun file => file.checkSum = fileid

/-- Those that are needed. -/
def neededFilesOf : List Torrent.File := (neededFiles torrent needs).filter fun file => file.checkSum = fileid

variable {torrent topPath needs uploadTotal downloadTotal fault disk fileid}

/-! ### What the constructor leaves -/

/-- The bitmap of a fileid is that of the last needed file with it. -/
theorem find?_bitmapMap_new :
    (new torrent topPath needs uploadTotal downloadTotal fault disk).1.downloadInfo.bitmapMap.find? fileid =
      (neededFilesOf torrent needs fileid).getLast?.map fun file => some (List.replicate file.chunkCount false) := by
  have hfold : ∀ (files : List Torrent.File) (s : JobInfo × Disk),
      (files.foldl (addNeeded needs fault) s).1.downloadInfo.bitmapMap.find? fileid =
        ((((files.filter fun file => ⟨file.relativePath, file.filename⟩ ∈ needs).filter
          fun file => file.checkSum = fileid).getLast?).map
            fun file => some (List.replicate file.chunkCount false)).or
          (s.1.downloadInfo.bitmapMap.find? fileid) := by
    intro files
    induction files with
    | nil => simp
    | cons file files ih =>
      intro s
      rw [List.foldl_cons, ih]
      by_cases hneeded : (⟨file.relativePath, file.filename⟩ : FileIdentityInfo) ∈ needs
      · by_cases he : file.checkSum = fileid
        · rw [List.filter_cons_of_pos (by simpa using hneeded), List.filter_cons_of_pos (by simpa using he),
            List.getLast?_cons]
          cases List.getLast? _ <;> simp [addNeeded, hneeded, he]
        · simp [addNeeded, hneeded, he, SortedMap.find?_insert_of_ne _ he]
      · simp [addNeeded, hneeded]
  exact (hfold torrent.file _).trans (by simp [DownloadInfo.new, neededFilesOf, neededFiles])

/-- Each bitmap has the percentage zero. -/
theorem find?_percentageMap_new :
    (new torrent topPath needs uploadTotal downloadTotal fault disk).1.downloadInfo.percentageMap.find? fileid =
      (neededFilesOf torrent needs fileid).getLast?.map fun _ => 0 := by
  have hboth : (new torrent topPath needs uploadTotal downloadTotal fault disk).1.downloadInfo.percentageMap.find? fileid =
      ((new torrent topPath needs uploadTotal downloadTotal fault disk).1.downloadInfo.bitmapMap.find? fileid).map
        fun _ => 0 := by
    unfold new
    refine @List.foldlRecOn _ _ (fun s : JobInfo × Disk => s.1.downloadInfo.percentageMap.find? fileid =
      (s.1.downloadInfo.bitmapMap.find? fileid).map fun _ => 0) _ _ _ rfl ?_
    intro s ih file _
    unfold addNeeded
    split_ifs
    · simp only [SortedMap.find?_insert]
      split_ifs
      · rfl
      · exact ih
    · exact ih
  rw [hboth, find?_bitmapMap_new, Option.map_map]
  rfl

/-- When nothing fails, `add_file` makes the file of a fileid that has no paths yet. -/
theorem getFile_addFile (l : LocalFileInfo) (fileid' relativePath filename : String) (filesize : Int64) :
    (l.addFile fileid' relativePath filename filesize none disk).2.1.getFile fileid =
      if fileid' = fileid ∧ l.paths fileid' = [] then some (l.topPath ++ relativePath ++ filename) else l.getFile fileid := by
  unfold LocalFileInfo.addFile LocalFileInfo.paths
  split
  · rename_i path paths hpaths
    simp [hpaths, LocalFileInfo.getFile, LocalFileInfo.addSameFile]
  all_goals
    rename_i hpaths
    simp only [reduceCtorEq, if_false]
    split_ifs <;> simp_all [LocalFileInfo.getFile, LocalFileInfo.addFirstFile, SortedMap.find?_insert]

/-- When nothing fails, a fileid has a file just when a file with it is needed. -/
theorem isSome_getFile_new :
    ((new torrent topPath needs uploadTotal downloadTotal (fun _ => none) disk).1.localFileInfo.getFile fileid).isSome ↔
      neededFilesOf torrent needs fileid ≠ [] := by
  have hpaths : ((new torrent topPath needs uploadTotal downloadTotal (fun _ => none) disk).1.localFileInfo.getFile
      fileid).isSome ↔
      (new torrent topPath needs uploadTotal downloadTotal (fun _ => none) disk).1.localFileInfo.paths fileid ≠ [] := by
    unfold new
    refine @List.foldlRecOn _ _ (fun s : JobInfo × Disk =>
      (s.1.localFileInfo.getFile fileid).isSome ↔ s.1.localFileInfo.paths fileid ≠ []) _ _ _ ?_ ?_
    · simp [LocalFileInfo.new, LocalFileInfo.getFile, LocalFileInfo.paths]
    · intro s ih file _
      unfold addNeeded
      split_ifs
      · simp only [getFile_addFile, LocalFileInfo.paths_addFile]
        by_cases he : file.checkSum = fileid
        · subst he
          by_cases hnil : s.1.localFileInfo.paths file.checkSum = []
          · simp [hnil]
          · simpa [hnil] using ih.mpr hnil
        · simpa [he] using ih
      · exact ih
  rw [hpaths, paths_new, ne_eq, List.map_eq_nil_iff]
  rfl

/-- The torrent's file for a fileid is the first with it. -/
theorem getOneFileOfSameFileid_eq_ok {file : Torrent.File} :
    (⟨torrent⟩ : TorrentInfo).getOneFileOfSameFileid fileid = .ok file ↔ (filesOf torrent fileid).head? = some file := by
  have hgroup : (⟨torrent⟩ : TorrentInfo).getFileMap.find? fileid =
      if filesOf torrent fileid = [] then none else some (filesOf torrent fileid) := by
    rw [TorrentInfo.getFileMap, SortedMap.find?_groupBy]
    rfl
  rw [TorrentInfo.getOneFileOfSameFileid, hgroup]
  cases filesOf torrent fileid with
  | nil => simp
  | cons file' files => simp

/-! ### What `init_queue` and `run` rely on -/

/-- There is a file to download a fileid to, it is the torrent's file for the fileid that is there,
and the bitmap has a bit for each chunk of that. -/
def Agrees (info : JobInfo) (fileid : String) : Prop :=
  (info.localFileInfo.getFile fileid).isSome ∧
    ∃ file, info.torrentInfo.getOneFileOfSameFileid fileid = .ok file ∧
      info.localFileInfo.hasLocalFile fileid file.relativePath file.filename ∧
        ∃ bits, info.downloadInfo.bitmapMap.find? fileid = some (some bits) ∧ bits.length = file.chunkCount

variable (torrent topPath needs fileid) in
/-- The first file with the fileid lies where a needed one does, and has as many chunks as the last
that is needed. -/
def FirstFits : Prop :=
  ∃ first last, (filesOf torrent fileid).head? = some first ∧ (neededFilesOf torrent needs fileid).getLast? = some last ∧
    (∃ file ∈ neededFilesOf torrent needs fileid, localPath topPath file = localPath topPath first) ∧
      last.chunkCount = first.chunkCount

/-- `has_local_file` looks among the paths, once there is a file. -/
theorem hasLocalFile_iff {l : LocalFileInfo} {relativePath filename : String} :
    l.hasLocalFile fileid relativePath filename ↔
      (l.getFile fileid).isSome ∧ l.topPath ++ relativePath ++ filename ∈ l.paths fileid := by
  unfold LocalFileInfo.hasLocalFile LocalFileInfo.getFile LocalFileInfo.paths
  cases l.files.find? fileid <;> simp

/-- **When the two agree on a fileid.** -/
theorem agrees_iff :
    Agrees (new torrent topPath needs uploadTotal downloadTotal (fun _ => none) disk).1 fileid ↔
      FirstFits torrent topPath needs fileid := by
  have hlocal : ∀ file : Torrent.File,
      (new torrent topPath needs uploadTotal downloadTotal (fun _ => none) disk).1.localFileInfo.hasLocalFile fileid
          file.relativePath file.filename ↔
        neededFilesOf torrent needs fileid ≠ [] ∧
          ∃ file' ∈ neededFilesOf torrent needs fileid, localPath topPath file' = localPath topPath file := by
    intro file
    rw [hasLocalFile_iff, isSome_getFile_new, topPath_new, paths_new, List.mem_map]
    rfl
  simp only [Agrees, FirstFits, isSome_getFile_new, hlocal, torrentInfo_new, getOneFileOfSameFileid_eq_ok,
    find?_bitmapMap_new]
  constructor
  · rintro ⟨-, first, hfirst, ⟨-, hpath⟩, bits, hbits, hcount⟩
    obtain ⟨last, hlast, rfl⟩ : ∃ last, (neededFilesOf torrent needs fileid).getLast? = some last ∧
        List.replicate last.chunkCount false = bits := by simpa using hbits
    exact ⟨first, last, hfirst, hlast, hpath, by simpa using hcount⟩
  · rintro ⟨first, last, hfirst, hlast, hpath, hcount⟩
    have hne : neededFilesOf torrent needs fileid ≠ [] := List.ne_nil_of_mem (List.mem_of_getLast? hlast)
    exact ⟨hne, first, hfirst, ⟨hne, hpath⟩, _, by rw [hlast]; rfl, by simpa using hcount⟩

variable (torrent topPath needs uploadTotal downloadTotal disk) in
/-- **When the constructor and `run` agree.** They agree on all fileids of the job if and only if for each of them the
first file of the torrent lies where a needed one does, and has as many chunks as the last that is needed. -/
theorem agree_iff :
    (∀ fileid ∈ (new torrent topPath needs uploadTotal downloadTotal (fun _ => none) disk).1.fileidlist,
        Agrees (new torrent topPath needs uploadTotal downloadTotal (fun _ => none) disk).1 fileid) ↔
      ∀ file ∈ neededFiles torrent needs, FirstFits torrent topPath needs file.checkSum := by
  simp only [fileidlist_new, agrees_iff]
  exact List.forall_mem_map

/-- Two files with the same content. -/
def twins : Torrent where
  torrentId := "t"
  type := 0
  totalSize := 2
  createBy := "c"
  createTime := "now"
  trackerAddress := "tracker"
  file :=
    [{ checkSum := "f", relativePath := "", filename := "a", size := 1, chunk := [⟨"sum", 1⟩] },
      { checkSum := "f", relativePath := "", filename := "b", size := 1, chunk := [⟨"sum", 1⟩] }]

/-- Only the second is needed, and `run` looks for the first. -/
theorem unneeded_first :
    ¬∀ fileid ∈ (new twins "/d/" [⟨"", "b"⟩] 0 0 (fun _ => none) ∅).1.fileidlist,
      Agrees (new twins "/d/" [⟨"", "b"⟩] 0 0 (fun _ => none) ∅).1 fileid := by
  intro hagree
  obtain ⟨-, file, hfile, hlocal, -⟩ := hagree "f" (by decide)
  obtain rfl : twins.file[0] = file := Except.ok.inj hfile
  exact absurd hlocal (by decide)

end JobInfo

end CoolDown
