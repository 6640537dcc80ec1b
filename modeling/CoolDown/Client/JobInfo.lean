import CoolDown.Client.Torrent
import CoolDown.Library.SortedMap
import Mathlib.Data.String.Basic

/-!
# What a job knows: `JobInfo`

A job's torrent, which of its files are needed and where they are on the disk, who
else has them, and how far the download has got.

## The model

`std::map` is `SortedMap`, and `operator[]` is `getOrInsert`: it adds the entry it
does not find. The calls of `add_file` that may throw do so when a given fault says so.
A `boost::dynamic_bitset` is the list of its bits. The limits, counters and totals are `uint64_t`; the totals are not
initialised by the constructor, which is therefore given what the memory holds.

## What is proved

* A fileid's file is the first of its paths: a field of `LocalFileInfo`, kept by
  `add_file`. Only needed fileids have paths: a field of `JobInfo`.
* `getOneFileOfSameFileid_mem`: the torrent's file for a fileid is one of the torrent's,
  with that fileid.
* `bit_bitmapAt`: looking for a bitmap changes no bit, even where it adds a null pointer.

## What is not

The disk is a map from the paths of the regular files to their contents. It has no directories: one is
there where a file lies below it, and of an empty one something has to be said where it matters
(`FileCopy`). A path is the string that the code makes of it, and two strings are two files, where the
file system may take them for one: `./` and `//` in them, `..`, links. A directory in the place of a file
that `add_file` is to make leaves the job as a file that cannot be made does; only the code that
`add_file` returns, and nobody looks at, is another.
-/

namespace CoolDown

open Library

/-! ### Bitmaps -/

/-- `file_bitmap_t`: the bits. -/
abbrev Bitmap := List Bool

/-- `dynamic_bitset::test`, which asserts that there is such a bit. -/
def Bitmap.test (b : Bitmap) (pos : ℕ) : Except Exception Bool :=
  match b[pos]? with
  | some x => .ok x
  | none => .error .assertion

/-- `dynamic_bitset::operator[]`, assigned `1`; it asserts that there is such a bit. -/
def Bitmap.setBit (b : Bitmap) (pos : ℕ) : Except Exception Bitmap :=
  if pos < b.length then .ok (b.set pos true) else .error .assertion

theorem Bitmap.test_eq_ok {b : Bitmap} {pos : ℕ} {x : Bool} : b.test pos = .ok x ↔ b[pos]? = some x := by
  unfold Bitmap.test
  cases b[pos]? <;> simp

/-! ### Files -/

/-- `FileIdentityInfo`. -/
structure FileIdentityInfo where
  relativePath : String
  filename : String
  deriving DecidableEq

/-- The regular files on the disk, by path. Directories are not recorded. -/
abbrev Disk := SortedMap String Bytes

/-- `LocalFileInfo`. -/
structure LocalFileInfo where
  topPath : String
  /-- The file each fileid is downloaded to. -/
  files : SortedMap String String
  /-- Every path a fileid has in the torrent. -/
  sameFiles : SortedMap String (List String)
  /-- The file of a fileid is the first of its paths. -/
  files_head : ∀ fileid path, files.find? fileid = some path → ∃ paths, sameFiles.find? fileid = some (path :: paths)

namespace LocalFileInfo

/-- `LocalFileInfo::LocalFileInfo`. -/
def new (topPath : String) : LocalFileInfo := ⟨topPath, ∅, ∅, by intro _ _ h; cases h⟩

/-- The call of `add_file` that throws. -/
inductive Fault where
  /-- A directory of the path cannot be made. -/
  | createDirectories
  /-- The file cannot be made. -/
  | createFile
  /-- The file cannot be given its size. -/
  | setSize
  deriving DecidableEq

/-- One more path of a fileid that has some. -/
def addSameFile (l : LocalFileInfo) (fileid path : String) (paths : List String) (filepath : String)
    (h : l.sameFiles.find? fileid = some (path :: paths)) : LocalFileInfo where
  topPath := l.topPath
  files := l.files
  sameFiles := l.sameFiles.insert fileid (path :: (paths ++ [filepath]))
  files_head := by
    intro fileid' path' h'
    obtain ⟨paths', hp⟩ := l.files_head fileid' path' h'
    rw [SortedMap.find?_insert]
    split_ifs with he
    · subst he
      rw [h] at hp
      cases hp
      exact ⟨_, rfl⟩
    · exact ⟨paths', hp⟩

/-- The first path of a fileid; `made` says whether the `File` has been made for it. -/
def addFirstFile (l : LocalFileInfo) (fileid filepath : String) (made : Bool) (h : l.files.find? fileid = none) :
    LocalFileInfo where
  topPath := l.topPath
  files := if made then l.files.insert fileid filepath else l.files
  sameFiles := l.sameFiles.insert fileid [filepath]
  files_head := by
    intro fileid' path' h'
    rw [SortedMap.find?_insert]
    split_ifs with he
    · subst he
      split_ifs at h' with hm
      · rw [SortedMap.find?_insert_self] at h'
        cases h'
        exact ⟨[], rfl⟩
      · rw [h] at h'
        cases h'
    · refine l.files_head fileid' path' ?_
      split_ifs at h' with hm
      · rwa [SortedMap.find?_insert_of_ne _ he] at h'
      · exact h'

/-- A fileid with no path has no file. -/
theorem files_eq_none (l : LocalFileInfo) {fileid : String}
    (h : ∀ path paths, l.sameFiles.find? fileid ≠ some (path :: paths)) : l.files.find? fileid = none := by
  refine Option.eq_none_iff_forall_ne_some.mpr fun path hpath => ?_
  obtain ⟨paths, hp⟩ := l.files_head fileid path hpath
  exact h path paths hp

/-- `add_file`. -/
def addFile (l : LocalFileInfo) (fileid relativePath filename : String) (filesize : Int64) (fault : Option Fault)
    (disk : Disk) : Retcode × LocalFileInfo × Disk :=
  let filepath := l.topPath ++ relativePath ++ filename
  match h : l.sameFiles.find? fileid with
  | some (path :: paths) => (.errorOk, l.addSameFile fileid path paths filepath h, disk)
  | some [] | none =>
    let l' (made : Bool) := l.addFirstFile fileid filepath made (l.files_eq_none fun path paths hp => by simp [h] at hp)
    if fault = some .createDirectories then (.errorUnknown, l' false, disk)
    else if (disk.find? filepath).isSome then (.errorOk, l' true, disk)
    else if fault = some .createFile then (.errorUnknown, l' true, disk)
    else if fault = some .setSize then (.errorUnknown, l' true, disk.insert filepath [])
    else (.errorOk, l' true, disk.insert filepath (List.replicate filesize.toInt.toNat 0))

/-- `add_file` gives paths to its fileid only. -/
theorem sameFiles_addFile {l : LocalFileInfo} {fileid fileid' relativePath filename : String} {filesize : Int64}
    {fault : Option Fault} {disk : Disk} (hne : fileid ≠ fileid') :
    (l.addFile fileid relativePath filename filesize fault disk).2.1.sameFiles.find? fileid' =
      l.sameFiles.find? fileid' := by
  unfold addFile
  split
  · exact SortedMap.find?_insert_of_ne _ hne
  all_goals
    simp only
    split_ifs <;> exact SortedMap.find?_insert_of_ne _ hne

theorem topPath_addFile (l : LocalFileInfo) (fileid relativePath filename : String) (filesize : Int64)
    (fault : Option Fault) (disk : Disk) :
    (l.addFile fileid relativePath filename filesize fault disk).2.1.topPath = l.topPath := by
  unfold addFile
  split
  · rfl
  all_goals
    simp only
    split_ifs <;> rfl

/-- `add_file` leaves the files that are there as they are. -/
theorem find?_addFile {l : LocalFileInfo} {fileid relativePath filename : String} {filesize : Int64}
    {fault : Option Fault} {disk : Disk} {path : String} {content : Bytes} (h : disk.find? path = some content) :
    (l.addFile fileid relativePath filename filesize fault disk).2.2.find? path = some content := by
  have hinsert : ∀ {filepath : String} (bs : Bytes), ¬(disk.find? filepath).isSome →
      (disk.insert filepath bs).find? path = some content := by
    intro filepath bs hnew
    rw [SortedMap.find?_insert_of_ne, h]
    intro he
    rw [he, h] at hnew
    exact hnew rfl
  unfold addFile
  split
  · exact h
  all_goals
    simp only
    split_ifs with _ hexists
    · exact h
    · exact h
    · exact h
    · exact hinsert _ hexists
    · exact hinsert _ hexists

/-- `add_file` touches no path but that of the file. -/
theorem find?_addFile_of_ne {l : LocalFileInfo} {fileid relativePath filename : String} {filesize : Int64}
    {fault : Option Fault} {disk : Disk} {path : String} (hne : l.topPath ++ relativePath ++ filename ≠ path) :
    (l.addFile fileid relativePath filename filesize fault disk).2.2.find? path = disk.find? path := by
  unfold addFile
  split
  · rfl
  all_goals
    simp only
    split_ifs
    · rfl
    · rfl
    · rfl
    · exact SortedMap.find?_insert_of_ne _ hne
    · exact SortedMap.find?_insert_of_ne _ hne

/-- `get_file`. -/
def getFile (l : LocalFileInfo) (fileid : String) : Option String := l.files.find? fileid

/-- Every local path of a fileid. -/
def paths (l : LocalFileInfo) (fileid : String) : List String := (l.sameFiles.find? fileid).getD []

/-- `add_file` adds the path of the file to those of its fileid, whether it throws or not. -/
theorem paths_addFile (l : LocalFileInfo) (fileid relativePath filename : String) (filesize : Int64)
    (fault : Option Fault) (disk : Disk) (fileid' : String) :
    (l.addFile fileid relativePath filename filesize fault disk).2.1.paths fileid' =
      l.paths fileid' ++ if fileid = fileid' then [l.topPath ++ relativePath ++ filename] else [] := by
  by_cases he : fileid = fileid'
  · subst he
    rw [if_pos rfl]
    unfold addFile paths
    split
    · rename_i path paths hpaths
      simp [addSameFile, hpaths]
    all_goals
      rename_i hpaths
      simp only
      split_ifs <;> simp [addFirstFile, hpaths]
  · rw [if_neg he, List.append_nil, paths, sameFiles_addFile he]
    rfl

theorem mem_paths_of_getFile {l : LocalFileInfo} {fileid path : String} (h : l.getFile fileid = some path) :
    path ∈ l.paths fileid := by
  obtain ⟨paths, hp⟩ := l.files_head fileid path h
  simp [LocalFileInfo.paths, hp]

/-- `has_local_file`. -/
def hasLocalFile (l : LocalFileInfo) (fileid relativePath filename : String) : Bool :=
  match l.files.find? fileid with
  | none => false
  | some _ => decide (l.topPath ++ relativePath ++ filename ∈ (l.sameFiles.find? fileid).getD [])

theorem isSome_getFile_of_hasLocalFile {l : LocalFileInfo} {fileid relativePath filename : String}
    (h : l.hasLocalFile fileid relativePath filename) : (l.getFile fileid).isSome := by
  unfold hasLocalFile at h
  unfold getFile
  cases hf : l.files.find? fileid with
  | none => simp [hf] at h
  | some path => rfl

/-- `has_file`. -/
def hasFile (l : LocalFileInfo) (fileid : String) : Bool := (l.files.find? fileid).isSome

end LocalFileInfo

/-! ### Torrents -/

/-- `TorrentInfo`. -/
structure TorrentInfo where
  torrent : Torrent

/-- `get_file_map`: the files of the torrent by fileid. -/
def TorrentInfo.getFileMap (t : TorrentInfo) : SortedMap String (List Torrent.File) :=
  SortedMap.groupBy Torrent.File.checkSum t.torrent.file

/-- `get_one_file_of_same_fileid`: the first of them. -/
def TorrentInfo.getOneFileOfSameFileid (t : TorrentInfo) (fileid : String) : Except Exception Torrent.File :=
  match t.getFileMap.find? fileid with
  | some (file :: _) => .ok file
  | some [] | none => .error .assertion

/-- It is one of the torrent's files, with that fileid. -/
theorem TorrentInfo.getOneFileOfSameFileid_mem {t : TorrentInfo} {fileid : String} {file : Torrent.File}
    (h : t.getOneFileOfSameFileid fileid = .ok file) : file ∈ t.torrent.file ∧ file.checkSum = fileid := by
  unfold TorrentInfo.getOneFileOfSameFileid at h
  split at h
  · rename_i file' files hf
    obtain rfl := Except.ok.inj h
    exact SortedMap.mem_of_find?_groupBy hf List.mem_cons_self
  · cases h
  · cases h

/-- Every fileid of the torrent has one. -/
theorem TorrentInfo.exists_getOneFileOfSameFileid {t : TorrentInfo} {file : Torrent.File} (h : file ∈ t.torrent.file) :
    ∃ file', t.getOneFileOfSameFileid file.checkSum = .ok file' := by
  have hgroup := SortedMap.find?_groupBy Torrent.File.checkSum t.torrent.file file.checkSum
  have hmem : file ∈ t.torrent.file.filter fun a => a.checkSum == file.checkSum := List.mem_filter.mpr ⟨h, beq_self_eq_true _⟩
  obtain ⟨file', files, hfiles⟩ := List.exists_cons_of_ne_nil (List.ne_nil_of_mem hmem)
  rw [hfiles, if_neg (List.cons_ne_nil _ _)] at hgroup
  refine ⟨file', ?_⟩
  rw [TorrentInfo.getOneFileOfSameFileid, TorrentInfo.getFileMap, hgroup]

/-! ### Owners and progress -/

/-- `FileOwnerInfo`. -/
structure FileOwnerInfo where
  clientid : String
  ip : String
  messagePort : Int32
  percentage : Int32
  bitmap : Bitmap
  deriving DecidableEq

/-- `DownloadInfo`. -/
structure DownloadInfo where
  isJobRemoved : Bool
  isStopped : Bool
  isDownloadPaused : Bool
  isUploadPaused : Bool
  bytesUploadThisSecond : UInt64
  bytesDownloadThisSecond : UInt64
  uploadSpeedLimit : UInt64
  downloadSpeedLimit : UInt64
  uploadTotal : UInt64
  downloadTotal : UInt64
  timeToNextReport : Int32
  percentageMap : SortedMap String Int32
  /-- The bitmap of each fileid, or a null pointer. -/
  bitmapMap : SortedMap String (Option Bitmap)
  deriving DecidableEq

/-- `DownloadInfo::report_period`. -/
def DownloadInfo.reportPeriod : Int32 := 30

/-- `DownloadInfo::DownloadInfo`, where the totals are what the memory holds. -/
def DownloadInfo.new (uploadTotal downloadTotal : UInt64) : DownloadInfo where
  isJobRemoved := false
  isStopped := true
  isDownloadPaused := true
  isUploadPaused := true
  bytesUploadThisSecond := 0
  bytesDownloadThisSecond := 0
  uploadSpeedLimit := (1 : UInt64) <<< 30
  downloadSpeedLimit := (1 : UInt64) <<< 30
  uploadTotal := uploadTotal
  downloadTotal := downloadTotal
  timeToNextReport := DownloadInfo.reportPeriod
  percentageMap := ∅
  bitmapMap := ∅

/-- `bitmap_map[fileid]`: a null pointer is added where there is no entry. -/
def DownloadInfo.bitmapAt (d : DownloadInfo) (fileid : String) : Option Bitmap × DownloadInfo :=
  let (b, m) := d.bitmapMap.getOrInsert fileid none
  (b, { d with bitmapMap := m })

/-- Bit `pos` of the bitmap of `fileid`, if there is one. -/
def DownloadInfo.bit (d : DownloadInfo) (fileid : String) (pos : ℕ) : Option Bool :=
  match d.bitmapMap.find? fileid with
  | some (some bits) => bits[pos]?
  | some none | none => none

/-- Where a bitmap is found, looking for it has changed nothing. -/
theorem DownloadInfo.bitmapAt_eq_some {d d' : DownloadInfo} {fileid : String} {bits : Bitmap}
    (h : d.bitmapAt fileid = (some bits, d')) : d' = d ∧ d.bitmapMap.find? fileid = some (some bits) := by
  unfold DownloadInfo.bitmapAt SortedMap.getOrInsert at h
  cases hf : d.bitmapMap.find? fileid with
  | none => simp [hf] at h
  | some b =>
    simp only [hf, Prod.mk.injEq] at h
    obtain ⟨rfl, rfl⟩ := h
    exact ⟨rfl, rfl⟩

/-- The bits are those of the bitmap that is found. -/
theorem DownloadInfo.bit_of_bitmapAt {d d' : DownloadInfo} {fileid : String} {bitmap : Option Bitmap}
    (h : d.bitmapAt fileid = (bitmap, d')) (pos : ℕ) : d.bit fileid pos = bitmap.bind fun bits => bits[pos]? := by
  unfold DownloadInfo.bitmapAt SortedMap.getOrInsert at h
  unfold DownloadInfo.bit
  cases hf : d.bitmapMap.find? fileid with
  | none =>
    simp only [hf, Prod.mk.injEq] at h
    obtain ⟨rfl, -⟩ := h
    rfl
  | some b =>
    simp only [hf, Prod.mk.injEq] at h
    obtain ⟨rfl, -⟩ := h
    cases b <;> rfl

/-- Looking for a bitmap changes no bit. -/
theorem DownloadInfo.bit_bitmapAt (d : DownloadInfo) (fileid fileid' : String) (pos : ℕ) :
    (d.bitmapAt fileid).2.bit fileid' pos = d.bit fileid' pos := by
  unfold DownloadInfo.bit DownloadInfo.bitmapAt SortedMap.getOrInsert
  cases hf : d.bitmapMap.find? fileid with
  | some b => rfl
  | none =>
    by_cases he : fileid = fileid'
    · subst he
      simp [hf]
    · simp [SortedMap.find?_insert_of_ne _ he]

/-- `JobInfo`. -/
structure JobInfo where
  fileidlist : List String
  localFileInfo : LocalFileInfo
  ownerInfoMap : SortedMap String (List FileOwnerInfo)
  downloadInfo : DownloadInfo
  torrentInfo : TorrentInfo
  /-- Only needed fileids have local paths. -/
  needed : ∀ fileid, localFileInfo.sameFiles.find? fileid ≠ none → fileid ∈ fileidlist

namespace JobInfo

/-- One round of the constructor's loop: the file is added if it is needed. -/
def addNeeded (needs : List FileIdentityInfo) (fault : String → Option LocalFileInfo.Fault) (s : JobInfo × Disk)
    (file : Torrent.File) : JobInfo × Disk :=
  if ⟨file.relativePath, file.filename⟩ ∈ needs then
    let r := s.1.localFileInfo.addFile file.checkSum file.relativePath file.filename file.size
      (fault (s.1.localFileInfo.topPath ++ file.relativePath ++ file.filename)) s.2
    ({ s.1 with
        downloadInfo := { s.1.downloadInfo with
          percentageMap := s.1.downloadInfo.percentageMap.insert file.checkSum 0
          bitmapMap := s.1.downloadInfo.bitmapMap.insert file.checkSum (some (List.replicate file.chunkCount false)) }
        localFileInfo := r.2.1
        fileidlist := s.1.fileidlist ++ [file.checkSum]
        needed := by
          intro fileid h
          by_cases hne : file.checkSum = fileid
          · simp [hne]
          · rw [LocalFileInfo.sameFiles_addFile hne] at h
            exact List.mem_append_left _ (s.1.needed fileid h) }, r.2.2)
  else s

/-- `JobInfo::JobInfo`. -/
def new (torrent : Torrent) (topPath : String) (needs : List FileIdentityInfo) (uploadTotal downloadTotal : UInt64)
    (fault : String → Option LocalFileInfo.Fault) (disk : Disk) : JobInfo × Disk :=
  torrent.file.foldl (addNeeded needs fault)
    ({ fileidlist := []
       localFileInfo := .new topPath
       ownerInfoMap := ∅
       downloadInfo := .new uploadTotal downloadTotal
       torrentInfo := ⟨torrent⟩
       needed := by intro _ h; exact absurd rfl h }, disk)

/-- The constructor gives a fileid the bitmap of a file of the torrent, all bits clear. -/
theorem exists_file_of_bitmapMap_new {torrent : Torrent} {topPath : String} {needs : List FileIdentityInfo}
    {uploadTotal downloadTotal : UInt64} {fault : String → Option LocalFileInfo.Fault} {disk : Disk} {fileid : String}
    {bitmap : Option Bitmap}
    (h : (new torrent topPath needs uploadTotal downloadTotal fault disk).1.downloadInfo.bitmapMap.find? fileid =
      some bitmap) :
    ∃ file ∈ torrent.file, file.checkSum = fileid ∧ bitmap = some (List.replicate file.chunkCount false) := by
  revert h
  unfold new
  refine @List.foldlRecOn _ _ (fun s : JobInfo × Disk => s.1.downloadInfo.bitmapMap.find? fileid = some bitmap →
    ∃ file ∈ torrent.file, file.checkSum = fileid ∧ bitmap = some (List.replicate file.chunkCount false)) _ _ _ ?_ ?_
  · rintro ⟨⟩
  · intro s ih file hfile h
    unfold addNeeded at h
    split_ifs at h with hneeded
    · rw [SortedMap.find?_insert] at h
      split_ifs at h with he
      · exact ⟨file, hfile, he, (Option.some.inj h).symm⟩
      · exact ih h
    · exact ih h

/-- All bits of a new job are clear. -/
theorem eq_false_of_bit_new {torrent : Torrent} {topPath : String} {needs : List FileIdentityInfo}
    {uploadTotal downloadTotal : UInt64} {fault : String → Option LocalFileInfo.Fault} {disk : Disk} {fileid : String}
    {c : ℕ} {b : Bool}
    (h : (new torrent topPath needs uploadTotal downloadTotal fault disk).1.downloadInfo.bit fileid c = some b) :
    b = false := by
  rw [DownloadInfo.bit] at h
  split at h
  · rename_i bits hbits
    obtain ⟨file, -, -, heq⟩ := exists_file_of_bitmapMap_new hbits
    obtain rfl := Option.some.inj heq
    rw [List.getElem?_replicate] at h
    split_ifs at h
    exact (Option.some.inj h).symm
  · cases h
  · cases h

/-- The constructor keeps the torrent. -/
@[simp] theorem torrentInfo_new (torrent : Torrent) (topPath : String) (needs : List FileIdentityInfo)
    (uploadTotal downloadTotal : UInt64) (fault : String → Option LocalFileInfo.Fault) (disk : Disk) :
    (new torrent topPath needs uploadTotal downloadTotal fault disk).1.torrentInfo = ⟨torrent⟩ := by
  unfold new
  refine @List.foldlRecOn _ _ (fun s : JobInfo × Disk => s.1.torrentInfo = ⟨torrent⟩) _ _ _ rfl ?_
  intro s ih file _
  unfold addNeeded
  split_ifs
  · exact ih
  · exact ih

/-- The constructor takes the fileids of the needed files, in the order of the torrent. -/
theorem fileidlist_new (torrent : Torrent) (topPath : String) (needs : List FileIdentityInfo)
    (uploadTotal downloadTotal : UInt64) (fault : String → Option LocalFileInfo.Fault) (disk : Disk) :
    (new torrent topPath needs uploadTotal downloadTotal fault disk).1.fileidlist =
      (torrent.file.filter fun file => ⟨file.relativePath, file.filename⟩ ∈ needs).map Torrent.File.checkSum := by
  have hfold : ∀ (files : List Torrent.File) (s : JobInfo × Disk),
      (files.foldl (addNeeded needs fault) s).1.fileidlist =
        s.1.fileidlist ++
          (files.filter fun file => ⟨file.relativePath, file.filename⟩ ∈ needs).map Torrent.File.checkSum := by
    intro files
    induction files with
    | nil => simp
    | cons file files ih =>
      intro s
      rw [List.foldl_cons, ih]
      by_cases hneeded : (⟨file.relativePath, file.filename⟩ : FileIdentityInfo) ∈ needs
      · simp [addNeeded, hneeded]
      · simp [addNeeded, hneeded]
  exact hfold torrent.file _

/-- A fileid has a bitmap just when a file with it is needed. -/
theorem isSome_bitmapMap_new {torrent : Torrent} {topPath : String} {needs : List FileIdentityInfo}
    {uploadTotal downloadTotal : UInt64} {fault : String → Option LocalFileInfo.Fault} {disk : Disk} {fileid : String} :
    ((new torrent topPath needs uploadTotal downloadTotal fault disk).1.downloadInfo.bitmapMap.find? fileid).isSome ↔
      ∃ file ∈ torrent.file, ⟨file.relativePath, file.filename⟩ ∈ needs ∧ file.checkSum = fileid := by
  have hfold : ∀ (files : List Torrent.File) (s : JobInfo × Disk),
      ((files.foldl (addNeeded needs fault) s).1.downloadInfo.bitmapMap.find? fileid).isSome ↔
        (s.1.downloadInfo.bitmapMap.find? fileid).isSome ∨
          ∃ file ∈ files, ⟨file.relativePath, file.filename⟩ ∈ needs ∧ file.checkSum = fileid := by
    intro files
    induction files with
    | nil => simp
    | cons file files ih =>
      intro s
      rw [List.foldl_cons, ih]
      by_cases hneeded : (⟨file.relativePath, file.filename⟩ : FileIdentityInfo) ∈ needs
      · by_cases he : file.checkSum = fileid
        · simp [addNeeded, hneeded, he]
        · simp [addNeeded, hneeded, he, SortedMap.find?_insert_of_ne _ he]
      · simp [addNeeded, hneeded]
  exact (hfold torrent.file _).trans (by simp [DownloadInfo.new])

/-- The constructor keeps the top path, and the files that are on the disk. -/
theorem topPath_new (torrent : Torrent) (topPath : String) (needs : List FileIdentityInfo)
    (uploadTotal downloadTotal : UInt64) (fault : String → Option LocalFileInfo.Fault) (disk : Disk) :
    (new torrent topPath needs uploadTotal downloadTotal fault disk).1.localFileInfo.topPath = topPath := by
  unfold new
  refine @List.foldlRecOn _ _ (fun s : JobInfo × Disk => s.1.localFileInfo.topPath = topPath) _ _ _ rfl ?_
  intro s ih file _
  unfold addNeeded
  split_ifs
  · rw [← ih]
    exact LocalFileInfo.topPath_addFile _ _ _ _ _ _ _
  · exact ih

theorem find?_disk_new {torrent : Torrent} {topPath : String} {needs : List FileIdentityInfo}
    {uploadTotal downloadTotal : UInt64} {fault : String → Option LocalFileInfo.Fault} {disk : Disk} {path : String}
    {content : Bytes} (h : disk.find? path = some content) :
    (new torrent topPath needs uploadTotal downloadTotal fault disk).2.find? path = some content := by
  unfold new
  refine @List.foldlRecOn _ _ (fun s : JobInfo × Disk => s.2.find? path = some content) _ _ _ h ?_
  intro s ih file _
  unfold addNeeded
  split_ifs
  · exact LocalFileInfo.find?_addFile ih
  · exact ih

/-- The files of the torrent that are needed. -/
def neededFiles (torrent : Torrent) (needs : List FileIdentityInfo) : List Torrent.File :=
  torrent.file.filter fun file => ⟨file.relativePath, file.filename⟩ ∈ needs

/-- Where a file of the torrent is on the disk. -/
def localPath (topPath : String) (file : Torrent.File) : String := topPath ++ file.relativePath ++ file.filename

/-- The paths of a fileid are those of the needed files with it, in the order of the torrent. -/
theorem paths_new (torrent : Torrent) (topPath : String) (needs : List FileIdentityInfo)
    (uploadTotal downloadTotal : UInt64) (fault : String → Option LocalFileInfo.Fault) (disk : Disk) (fileid : String) :
    (new torrent topPath needs uploadTotal downloadTotal fault disk).1.localFileInfo.paths fileid =
      ((neededFiles torrent needs).filter fun file => file.checkSum = fileid).map (localPath topPath) := by
  have hfold : ∀ (files : List Torrent.File) (s : JobInfo × Disk), s.1.localFileInfo.topPath = topPath →
      (files.foldl (addNeeded needs fault) s).1.localFileInfo.paths fileid = s.1.localFileInfo.paths fileid ++
        ((files.filter fun file => ⟨file.relativePath, file.filename⟩ ∈ needs).filter
          fun file => file.checkSum = fileid).map (localPath topPath) := by
    intro files
    induction files with
    | nil => simp
    | cons file files ih =>
      intro s hs
      rw [List.foldl_cons]
      by_cases hneeded : (⟨file.relativePath, file.filename⟩ : FileIdentityInfo) ∈ needs
      · rw [addNeeded, if_pos hneeded, ih _ ((LocalFileInfo.topPath_addFile _ _ _ _ _ _ _).trans hs)]
        simp only [LocalFileInfo.paths_addFile, hs]
        by_cases he : file.checkSum = fileid
        · simp [hneeded, he, localPath]
        · simp [hneeded, he]
      · rw [addNeeded, if_neg hneeded, ih s hs]
        simp [hneeded]
  exact hfold torrent.file _ rfl

/-- The constructor touches no path but those of the needed files. -/
theorem find?_disk_new_of_not_mem {torrent : Torrent} {topPath : String} {needs : List FileIdentityInfo}
    {uploadTotal downloadTotal : UInt64} {fault : String → Option LocalFileInfo.Fault} {disk : Disk} {path : String}
    (h : path ∉ (neededFiles torrent needs).map (localPath topPath)) :
    (new torrent topPath needs uploadTotal downloadTotal fault disk).2.find? path = disk.find? path := by
  unfold new
  refine (@List.foldlRecOn _ _ (fun s : JobInfo × Disk => s.1.localFileInfo.topPath = topPath ∧
    s.2.find? path = disk.find? path) _ _ _ ⟨rfl, rfl⟩ ?_).2
  rintro s ⟨htop, hdisk⟩ file hfile
  unfold addNeeded
  split_ifs with hneeded
  · refine ⟨(LocalFileInfo.topPath_addFile _ _ _ _ _ _ _).trans htop, ?_⟩
    rw [← hdisk]
    apply LocalFileInfo.find?_addFile_of_ne
    rintro rfl
    refine h (List.mem_map.mpr ⟨file, List.mem_filter.mpr ⟨hfile, by simpa using hneeded⟩, ?_⟩)
    rw [localPath, htop]
  · exact ⟨htop, hdisk⟩

/-- `UniqueFileidList`. -/
def uniqueFileidList (info : JobInfo) : List String := (SortedMap.ofList info.fileidlist).keys

@[simp] theorem mem_uniqueFileidList {info : JobInfo} {fileid : String} :
    fileid ∈ info.uniqueFileidList ↔ fileid ∈ info.fileidlist :=
  SortedMap.mem_keys_ofList

theorem nodup_uniqueFileidList (info : JobInfo) : info.uniqueFileidList.Nodup := SortedMap.nodup_keys _

end JobInfo

end CoolDown
