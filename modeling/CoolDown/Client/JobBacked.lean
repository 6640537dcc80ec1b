import CoolDown.Client.JobPlaces

/-!
# A bit that is set is backed by bytes

A chunk is backed when the bytes of the local file in its range have the recorded
digest. A task checks the digest of what it has received and only then copies it over
the chunk's range; the bit is set later, when `taskFinished` is delivered, and not at
all if the task has failed. In between any number of other tasks may write, and at the
end of `run` files are copied over others.

## The model

`Laid` is what the torrent and the job must be for that to work: the files are
uniformly tiled, so that the ranges of two chunks do not meet (`Torrent.File.chunk_disjoint`),
and no path belongs to two fileids. That is not enough where the target of a copy is a directory, as
then the copy is made in it, maybe over the file of another fileid: a step `SparesFiles` when it makes no
such copy.

## What is proved

* `backedAt_of_wrote`, `backedAt_of_copied`: a write to a chunk and a copy of a same file
  leave every backed chunk backed.
* `sparesFiles_of_not_intoDirectory`: a copy that is not made in a directory is over no such file.
* `step_backing`: every step of the job that spares these files keeps the invariant `Backing`.
* `run_bits_backed`: in every state that is reached by such steps, every bit that is set is backed.
* `overwritten_file`: and in one that is reached by another step it need not be.
-/

namespace CoolDown

open Library ChunkSelector

namespace Job

/-- What the torrent and the job must be: the files are uniformly tiled, and no path
belongs to two fileids. -/
structure Laid (t : TorrentInfo) (l : LocalFileInfo) : Prop where
  tiled : ∀ file ∈ t.torrent.file, file.UniformlyTiled
  paths : ∀ fileid fileid' path, fileid ≠ fileid' → path ∈ l.paths fileid → path ∉ l.paths fileid'

/-- The local files have at least the size the torrent gives them. -/
def LongEnough (t : TorrentInfo) (l : LocalFileInfo) (disk : Disk) : Prop :=
  ∀ fileid file path, t.getOneFileOfSameFileid fileid = .ok file → l.getFile fileid = some path →
    ∃ content, disk.find? path = some content ∧ file.size.toInt ≤ content.length

variable (sha1 : Bytes → String)

/-- The bytes of the local file of `fileid` in the range of chunk `pos` have the recorded digest. -/
def BackedAt (t : TorrentInfo) (l : LocalFileInfo) (disk : Disk) (fileid : String) (pos : ℕ) : Prop :=
  ∃ file path content, t.getOneFileOfSameFileid fileid = .ok file ∧ l.getFile fileid = some path ∧
    disk.find? path = some content ∧
    sha1 (slice content (file.chunkOffset pos).toNat (file.chunkSize pos).toNat) = file.chunkChecksum pos

variable {sha1} {t : TorrentInfo} {l : LocalFileInfo} {disk disk' : Disk}

instance (fileid : String) (pos : ℕ) : Decidable (BackedAt sha1 t l disk fileid pos) :=
  match hfile : t.getOneFileOfSameFileid fileid with
  | .error _ => isFalse fun ⟨_, _, _, h, _⟩ => by cases hfile.symm.trans h
  | .ok file =>
    match hpath : l.getFile fileid with
    | none => isFalse fun ⟨_, _, _, _, h, _⟩ => by cases hpath.symm.trans h
    | some path =>
      match hcontent : disk.find? path with
      | none => isFalse fun ⟨_, _, _, _, h, h', _⟩ => by
        cases hpath.symm.trans h
        cases hcontent.symm.trans h'
      | some content =>
        decidable_of_iff
          (sha1 (slice content (file.chunkOffset pos).toNat (file.chunkSize pos).toNat) = file.chunkChecksum pos)
          ⟨fun h => ⟨file, path, content, hfile, hpath, hcontent, h⟩, fun ⟨_, _, _, h, h', h'', hsum⟩ => by
            cases hfile.symm.trans h
            cases hpath.symm.trans h'
            cases hcontent.symm.trans h''
            exact hsum⟩

/-! ### Writes and copies -/

/-- The path of another fileid's file is another path. -/
theorem Laid.ne_of_getFile (h : Laid t l) {fileid fileid' path path' : String} (hne : fileid ≠ fileid')
    (hp : path ∈ l.paths fileid) (hp' : l.getFile fileid' = some path') : path ≠ path' := by
  rintro rfl
  exact h.paths fileid fileid' path hne hp (LocalFileInfo.mem_paths_of_getFile hp')

/-- Where the paths of the needed files are distinct, none belongs to two fileids. -/
theorem laid_new {torrent : Torrent} {topPath : String} {needs : List FileIdentityInfo}
    {uploadTotal downloadTotal : UInt64} {fault : String → Option LocalFileInfo.Fault} {disk₀ : Disk}
    (htiled : ∀ file ∈ torrent.file, file.UniformlyTiled)
    (hnodup : ((JobInfo.neededFiles torrent needs).map (JobInfo.localPath topPath)).Nodup) :
    Laid ⟨torrent⟩ (JobInfo.new torrent topPath needs uploadTotal downloadTotal fault disk₀).1.localFileInfo := by
  refine ⟨htiled, fun fileid fileid' path hne hmem hmem' => hne ?_⟩
  rw [JobInfo.paths_new] at hmem hmem'
  obtain ⟨file, hfile, rfl⟩ := List.mem_map.mp hmem
  obtain ⟨file', hfile', heq⟩ := List.mem_map.mp hmem'
  obtain ⟨hneeded, hid⟩ := List.mem_filter.mp hfile
  obtain ⟨hneeded', hid'⟩ := List.mem_filter.mp hfile'
  obtain rfl := List.inj_on_of_nodup_map hnodup hneeded' hneeded heq
  exact (of_decide_eq_true hid).symm.trans (of_decide_eq_true hid')

/-- Those of one fileid are distinct too. -/
theorem nodup_paths_new {torrent : Torrent} {topPath : String} {needs : List FileIdentityInfo}
    {uploadTotal downloadTotal : UInt64} {fault : String → Option LocalFileInfo.Fault} {disk₀ : Disk}
    (hnodup : ((JobInfo.neededFiles torrent needs).map (JobInfo.localPath topPath)).Nodup) (fileid : String) :
    ((JobInfo.new torrent topPath needs uploadTotal downloadTotal fault disk₀).1.localFileInfo.paths fileid).Nodup := by
  rw [JobInfo.paths_new]
  exact hnodup.sublist (List.filter_sublist.map _)

/-- The range of another chunk of the same file is not written to. -/
theorem slice_overwrite_of_ne {file : Torrent.File} (h : file.UniformlyTiled) {c d : ℕ} (hcd : c ≠ d)
    {mapped content : Bytes} (hlen : (content.length : ℤ) = file.chunkSize c)
    (hle : (file.chunkOffset c).toNat + content.length ≤ mapped.length) :
    slice (overwrite mapped (file.chunkOffset c).toNat content) (file.chunkOffset d).toNat (file.chunkSize d).toNat =
      slice mapped (file.chunkOffset d).toNat (file.chunkSize d).toNat := by
  by_cases hd : d < file.chunkCount
  · have hc : c < file.chunkCount := by
      by_contra hc
      have hneg : file.chunkSize c = -1 := by
        rw [Torrent.File.chunkSize, List.getElem?_eq_none (not_lt.mp hc)]
      omega
    have hsize : (file.chunkSize c).toNat = content.length := by omega
    have hdisj := Torrent.File.chunk_disjoint h hcd hc hd
    rw [hsize] at hdisj
    exact slice_overwrite_of_disjoint hle hdisj.symm
  · have hneg : file.chunkSize d = -1 := by
      rw [Torrent.File.chunkSize, List.getElem?_eq_none (not_lt.mp hd)]
    rw [hneg]
    simp

/-- A verified write leaves every backed chunk backed, and backs the chunk written. -/
theorem backedAt_of_wrote (hl : Laid t l) {task : DownloadTask} {content : Bytes}
    (hfile : t.getOneFileOfSameFileid task.fileid = .ok task.fileInfo) (hpath : l.getFile task.fileid = some task.file)
    (hlen : (content.length : ℤ) = task.chunkSize) (hsum : sha1 content = task.fileInfo.chunkChecksum task.chunkPos)
    (hw : task.Wrote disk content disk') {fileid : String} {pos : ℕ}
    (h : BackedAt sha1 t l disk fileid pos ∨ (fileid, pos) = task.item) : BackedAt sha1 t l disk' fileid pos := by
  obtain ⟨mapped, hmapped, hle, rfl⟩ := hw
  by_cases hf : task.fileid = fileid
  · subst hf
    refine ⟨task.fileInfo, task.file, _, hfile, hpath, SortedMap.find?_insert_self _ _ _, ?_⟩
    by_cases hp : task.chunkPos = pos
    · subst hp
      have hsize : (task.fileInfo.chunkSize task.chunkPos).toNat = content.length := by
        rw [← DownloadTask.chunkSize, ← hlen, Int.toNat_natCast]
      rw [hsize, ← DownloadTask.offset, slice_overwrite_self hle, hsum]
    · have htiled := hl.tiled _ (TorrentInfo.getOneFileOfSameFileid_mem hfile).1
      rw [DownloadTask.offset, slice_overwrite_of_ne htiled hp hlen hle]
      rcases h with ⟨file, path, content', hfile', hpath', hcontent', hsum'⟩ | h
      · obtain rfl := Except.ok.inj (hfile.symm.trans hfile')
        obtain rfl := Option.some.inj (hpath.symm.trans hpath')
        obtain rfl := Option.some.inj (hmapped.symm.trans hcontent')
        exact hsum'
      · exact absurd (congrArg Prod.snd h).symm hp
  · rcases h with ⟨file, path, content', hfile', hpath', hcontent', hsum'⟩ | h
    · have hne := hl.ne_of_getFile hf (LocalFileInfo.mem_paths_of_getFile hpath) hpath'
      exact ⟨file, path, content', hfile', hpath', by rwa [SortedMap.find?_insert_of_ne _ hne], hsum'⟩
    · exact absurd (congrArg Prod.fst h).symm hf

/-- A write leaves the local files as long as they are. -/
theorem longEnough_of_wrote {task : DownloadTask} {content : Bytes} (h : LongEnough t l disk)
    (hw : task.Wrote disk content disk') : LongEnough t l disk' := by
  obtain ⟨mapped, hmapped, hle, rfl⟩ := hw
  intro fileid file path hfile hpath
  obtain ⟨content', hcontent', hsize⟩ := h fileid file path hfile hpath
  by_cases hp : task.file = path
  · subst hp
    obtain rfl := Option.some.inj (hmapped.symm.trans hcontent')
    exact ⟨_, SortedMap.find?_insert_self _ _ _, by rwa [length_overwrite hle]⟩
  · exact ⟨content', by rwa [SortedMap.find?_insert_of_ne _ hp], hsize⟩

/-- A copy to make: the source is the first path of the fileid, the target another. -/
def IsCopy (l : LocalFileInfo) (copy : String × String × String) : Prop :=
  ∃ targets, l.sameFiles.find? copy.1 = some (copy.2.1 :: targets) ∧ copy.2.2 ∈ targets

/-- The target of a copy is one of the paths of its fileid. -/
theorem IsCopy.target_mem_paths {fileid source target : String} (h : IsCopy l (fileid, source, target)) :
    target ∈ l.paths fileid := by
  obtain ⟨targets, hsame, htarget⟩ := h
  simp [LocalFileInfo.paths, hsame, htarget]

/-- Where paths are distinct, the target of a copy is the first path of no fileid. -/
theorem IsCopy.target_ne_head (hl : Laid t l) (hnodup : ∀ fileid, (l.paths fileid).Nodup)
    {fileid fileid' source target path : String} {paths : List String} (h : IsCopy l (fileid, source, target))
    (hhead : l.sameFiles.find? fileid' = some (path :: paths)) : target ≠ path := by
  rintro rfl
  have hpaths : l.paths fileid' = target :: paths := by simp [LocalFileInfo.paths, hhead]
  by_cases hid : fileid = fileid'
  · subst hid
    obtain ⟨targets, hsame, htarget⟩ := h
    dsimp only at hsame htarget
    obtain ⟨rfl, rfl⟩ := List.cons.inj (Option.some.inj (hsame.symm.trans hhead))
    exact (List.nodup_cons.mp (hpaths ▸ hnodup fileid)).1 htarget
  · exact hl.paths _ _ _ hid h.target_mem_paths (hpaths ▸ List.mem_cons_self)

/-- A file that no fileid is downloaded to may be written. -/
theorem backedAt_insert {path : String} (hpath : ∀ fileid, l.getFile fileid ≠ some path) (content : Bytes) {fileid : String}
    {pos : ℕ} (h : BackedAt sha1 t l disk fileid pos) : BackedAt sha1 t l (disk.insert path content) fileid pos := by
  obtain ⟨file, path', content', hfile, hpath', hcontent', hsum⟩ := h
  refine ⟨file, path', content', hfile, hpath', ?_, hsum⟩
  rwa [SortedMap.find?_insert_of_ne]
  rintro rfl
  exact hpath fileid hpath'

/-- No copy is made over the file that a fileid is downloaded to. -/
def SparesFiles (j : Job) (a : Action) : Prop :=
  ∀ path, j.copiesTo a = some path → ∀ fileid, j.jobInfo.localFileInfo.getFile fileid ≠ some path

instance (j : Job) (a : Action) : Decidable (j.SparesFiles a) :=
  decidable_of_iff (∀ path ∈ j.copiesTo a, ∀ e ∈ j.jobInfo.localFileInfo.files.entries, e.2 ≠ path) <|
    forall₂_congr fun _ _ =>
      ⟨fun h _ hfile => h _ (SortedMap.find?_eq_some.mp hfile) rfl, fun h e he heq =>
        h e.1 (SortedMap.find?_eq_some.mpr (heq ▸ he))⟩

/-- Where paths are distinct, and the target is not a directory, it is not such a file. -/
theorem sparesFiles_of_not_intoDirectory {j : Job} {a : Action} (hl : Laid t j.jobInfo.localFileInfo)
    (hnodup : ∀ fileid, (j.jobInfo.localFileInfo.paths fileid).Nodup)
    (hcopies : ∀ todo, j.pc = .copying todo → ∀ copy ∈ todo, IsCopy j.jobInfo.localFileInfo copy)
    (h : j.intoDirectory a = false) : j.SparesFiles a := by
  intro path hpath fileid hfile
  obtain ⟨⟨emptyDir, source, target⟩, hcopy, rfl⟩ := Option.map_eq_some_iff.mp hpath
  rw [intoDirectory, hcopy, Option.any_some] at h
  dsimp only at h hfile
  rw [Disk.copyPath_eq_target h] at hfile
  obtain ⟨fileid', todo, hpc⟩ := copyAt_eq_some hcopy
  obtain ⟨paths, hhead⟩ := LocalFileInfo.files_head _ _ _ hfile
  exact (hcopies _ hpc _ List.mem_cons_self).target_ne_head hl hnodup hhead rfl

/-- The copies `run` makes. -/
theorem isCopy_of_mem_sameFileCopies {copy : String × String × String} (h : copy ∈ sameFileCopies l) :
    IsCopy l copy := by
  obtain ⟨⟨fileid, paths⟩, he, hmem⟩ := List.mem_flatMap.mp h
  cases paths with
  | nil => cases hmem
  | cons source targets =>
    obtain ⟨target, htarget, rfl⟩ := List.mem_map.mp hmem
    exact ⟨targets, SortedMap.find?_eq_some.mpr he, htarget⟩

/-! ### The invariant -/

variable (sha1 t l disk) in
/-- What is known of a task: it fetches a chunk of the torrent's file into the local
file, it knows its buffer, and when it is over and not reported its chunk is backed. -/
structure TaskBacked (task : DownloadTask) : Prop where
  fileInfo : t.getOneFileOfSameFileid task.fileid = .ok task.fileInfo
  file : l.getFile task.fileid = some task.file
  checkSum : task.checkSum = task.fileInfo.chunkChecksum task.chunkPos
  checked : DownloadTask.Checked sha1 task task.phase
  ended : task.phase = .ended → task.reported = false → BackedAt sha1 t l disk task.fileid task.chunkPos

variable (sha1) in
/-- What holds in every state of a job. -/
structure Backing (j : Job) : Prop where
  laid : Laid j.jobInfo.torrentInfo j.jobInfo.localFileInfo
  longEnough : LongEnough j.jobInfo.torrentInfo j.jobInfo.localFileInfo j.disk
  bits : ∀ fileid pos, j.jobInfo.downloadInfo.bit fileid pos = some true →
    BackedAt sha1 j.jobInfo.torrentInfo j.jobInfo.localFileInfo j.disk fileid pos
  tasks : ∀ task ∈ j.tasks, TaskBacked sha1 j.jobInfo.torrentInfo j.jobInfo.localFileInfo j.disk task
  copies : ∀ todo, j.pc = .copying todo → ∀ copy ∈ todo, IsCopy j.jobInfo.localFileInfo copy
  fileChecked : j.pc.FileChecked j.jobInfo.torrentInfo j.jobInfo.localFileInfo

/-- What is known of a task is kept when what is backed is. -/
theorem TaskBacked.of_disk {task : DownloadTask} (h : TaskBacked sha1 t l disk task)
    (hdisk : ∀ {fileid pos}, BackedAt sha1 t l disk fileid pos → BackedAt sha1 t l disk' fileid pos) :
    TaskBacked sha1 t l disk' task :=
  ⟨h.fileInfo, h.file, h.checkSum, h.checked, fun hp hr => hdisk (h.ended hp hr)⟩

/-- A task that has just been started. -/
theorem taskBacked_new {fileInfo : Torrent.File} {peer : String} {sock : Sock} {chunk : ChunkInfo} {file : String}
    (hinfo : t.getOneFileOfSameFileid chunk.fileid = .ok fileInfo) (hfile : l.getFile chunk.fileid = some file) :
    TaskBacked sha1 t l disk (.new fileInfo peer sock chunk.chunkNum file) := by
  have hid : fileInfo.checkSum = chunk.fileid := (TorrentInfo.getOneFileOfSameFileid_mem hinfo).2
  rw [← hid] at hinfo hfile
  exact ⟨hinfo, hfile, rfl, trivial, by intro h; cases h⟩

/-- A step of `run` keeps the invariant, if it makes no copy over a file that chunks are downloaded to. -/
theorem runStep_backing {j j' : Job} {ev : RunEvent} (hj : Backing sha1 j) (hspares : j.SparesFiles (.run ev))
    (h : RunStep j ev j') : Backing sha1 j' := by
  obtain ⟨hlaid, hlong, hbits, htasks, hcopies, hfile⟩ := hj
  have hno : ∀ {pc : Pc}, pc.stage ≠ .after → ∀ todo, pc = .copying todo →
      ∀ copy ∈ todo, IsCopy j.jobInfo.localFileInfo copy := by
    rintro pc hstage todo rfl
    exact absurd rfl hstage
  cases h with
  | move pc owners m hstage hin hheld hfile' =>
    exact ⟨hlaid, hlong, hbits, htasks, hno (by rcases hin with hin | hin <;> rw [hin] <;> decide), hfile'⟩
  | init info queue hpc hinit =>
    obtain ⟨rfl, -⟩ := initFiles_eq_ok hinit
    exact ⟨hlaid, hlong, hbits, htasks, by rintro todo ⟨⟩, trivial⟩
  | initThrows info hpc hinfo =>
    obtain ⟨⟨m, rfl⟩, hbit⟩ := hinfo
    exact ⟨hlaid, hlong, fun fileid pos h => hbits fileid pos (hbit fileid pos ▸ h), htasks,
      by rintro todo ⟨⟩, trivial⟩
  | take i chunk pc hpc hi hheld hstage hfile' =>
    exact ⟨hlaid, hlong, hbits, htasks, hno (by rw [hstage]; decide), hfile'⟩
  | launch chunk peer sock fileInfo file hpc hget =>
    rw [hpc] at hfile
    refine ⟨hlaid, hlong, hbits, ?_, by rintro todo ⟨⟩, trivial⟩
    intro task ht
    rcases List.mem_append.mp ht with ht | ht
    · exact htasks task ht
    · obtain rfl := List.mem_singleton.mp ht
      exact taskBacked_new hfile.1 hget
  | joined hpc hused =>
    refine ⟨hlaid, hlong, hbits, htasks, ?_, trivial⟩
    rintro todo ⟨⟩ copy hcopy
    exact isCopy_of_mem_sameFileCopies hcopy
  | copied fileid source target todo disk hpc hev hdisk =>
    obtain ⟨content, hcontent, -, rfl⟩ := Disk.copyTo_eq_some.mp hdisk
    have hpath := hspares _ (copiesTo_of_copying hpc hev)
    refine ⟨hlaid, ?_, ?_, ?_, ?_, trivial⟩
    · intro fileid' file path hf hfile
      obtain ⟨content', hc', hle⟩ := hlong fileid' file path hf hfile
      refine ⟨content', ?_, hle⟩
      rwa [SortedMap.find?_insert_of_ne]
      rintro rfl
      exact hpath fileid' hfile
    · intro fileid' pos hbit
      exact backedAt_insert hpath _ (hbits fileid' pos hbit)
    · intro task ht
      exact (htasks task ht).of_disk (backedAt_insert hpath _)
    · rintro todo' ⟨⟩ copy hmem
      exact hcopies _ hpc copy (List.mem_cons_of_mem _ hmem)
  | empty | putBack | drop | noFile | leave | ended | abort =>
    exact ⟨hlaid, hlong, hbits, htasks, by rintro todo ⟨⟩, trivial⟩

/-- Replacing a task. -/
theorem tasksBacked_set {tasks : List DownloadTask} {i : ℕ} {task' : DownloadTask}
    (h : ∀ task ∈ tasks, TaskBacked sha1 t l disk task) (h' : TaskBacked sha1 t l disk task') :
    ∀ task ∈ tasks.set i task', TaskBacked sha1 t l disk task := by
  intro task ht
  rcases List.mem_or_eq_of_mem_set ht with ht | rfl
  · exact h task ht
  · exact h'

/-- A step of a task keeps the invariant. -/
theorem task_backing {j : Job} {i : ℕ} {task : DownloadTask} {phase : DownloadTask.Phase} {d : DownloadInfo}
    {ev : DownloadTask.Event} (hj : Backing sha1 j) (hi : j.tasks[i]? = some task)
    (hrun : task.runTask sha1 j.jobInfo.downloadInfo j.disk task.phase ev = some (phase, d, disk)) :
    Backing sha1 { j with
      jobInfo := { j.jobInfo with downloadInfo := d }
      disk := disk
      tasks := j.tasks.set i { task with phase := phase } } := by
  obtain ⟨hlaid, hlong, hbits, htasks, hcopies, hfile⟩ := hj
  obtain ⟨hinfo, hpath, hsum, hchecked, -⟩ := htasks task (List.mem_of_getElem? hi)
  have hchecked' := DownloadTask.runTask_checked hchecked hrun
  obtain ⟨hpending, ⟨n, rfl⟩, ⟨hpending', rfl⟩ | ⟨content, hwrite, rfl, hw⟩⟩ := DownloadTask.runTask_frame hrun
  · refine ⟨hlaid, hlong, hbits, tasksBacked_set htasks ⟨hinfo, hpath, hsum, hchecked', ?_⟩, hcopies, hfile⟩
    rintro rfl
    cases hpending'
  · rw [hwrite] at hchecked
    obtain ⟨hlen, hdigest⟩ := hchecked
    have hkeep : ∀ {fileid pos}, BackedAt sha1 j.jobInfo.torrentInfo j.jobInfo.localFileInfo j.disk fileid pos ∨
        (fileid, pos) = task.item → BackedAt sha1 j.jobInfo.torrentInfo j.jobInfo.localFileInfo disk fileid pos :=
      backedAt_of_wrote hlaid hinfo hpath hlen (hdigest.trans hsum) hw
    exact ⟨hlaid, longEnough_of_wrote hlong hw, fun fileid pos hbit => hkeep (.inl (hbits fileid pos hbit)),
      tasksBacked_set (fun task' ht => (htasks task' ht).of_disk fun h => hkeep (.inl h))
        ⟨hinfo, hpath, hsum, trivial, fun _ _ => hkeep (.inr rfl)⟩, hcopies, hfile⟩

/-- The delivery of `taskFailed` keeps the invariant. -/
theorem onFailed_backing {j : Job} {i : ℕ} {task : DownloadTask} (hj : Backing sha1 j) (hi : j.tasks[i]? = some task) :
    Backing sha1 (j.onFailed i task) := by
  obtain ⟨hlaid, hlong, hbits, htasks, hcopies, hfile⟩ := hj
  obtain ⟨hinfo, hpath, hsum, -, -⟩ := htasks task (List.mem_of_getElem? hi)
  rcases j.onFailed_cases i task with ⟨chunk, hitem, heq⟩ | ⟨-, heq⟩
  · rw [heq]
    exact ⟨hlaid, hlong, hbits, tasksBacked_set htasks ⟨hinfo, hpath, hsum, trivial, by rintro - ⟨⟩⟩, hcopies, hfile⟩
  · rw [heq]
    exact ⟨hlaid, hlong, hbits, tasksBacked_set htasks ⟨hinfo, hpath, hsum, trivial, by rintro ⟨⟩⟩, hcopies, hfile⟩

/-- The delivery of `taskFinished` keeps the invariant: the bit it sets is backed. -/
theorem onFinished_backing {j : Job} {i : ℕ} {task : DownloadTask} (hj : Backing sha1 j)
    (hi : j.tasks[i]? = some task) (hphase : task.phase = .ended) : Backing sha1 (j.onFinished i task) := by
  obtain ⟨hlaid, hlong, hbits, htasks, hcopies, hfile⟩ := hj
  obtain ⟨hinfo, hpath, hsum, -, hover⟩ := htasks task (List.mem_of_getElem? hi)
  obtain ⟨honly, hbit⟩ := reportSuccessChunk_spec j.jobInfo task.chunkPos task.fileid
  have hdone : ∀ {phase : DownloadTask.Phase}, phase = .finished ∨ phase = .died →
      ∀ task' ∈ j.tasks.set i { task with reported := true, phase := phase },
        TaskBacked sha1 j.jobInfo.torrentInfo j.jobInfo.localFileInfo j.disk task' := by
    intro phase hp
    exact tasksBacked_set htasks ⟨hinfo, hpath, hsum, by rcases hp with rfl | rfl <;> trivial, by rintro - ⟨⟩⟩
  rcases j.onFinished_cases i task with ⟨-, m, phase, hp, heq⟩ | ⟨hr, info, m, phase, hs, hp, heq⟩ | ⟨-, info, e, hs, heq⟩
  · rw [heq]
    exact ⟨hlaid, hlong, hbits, hdone hp, hcopies, hfile⟩
  · rw [hs] at honly hbit
    obtain ⟨bitmaps, rfl⟩ := honly
    rw [heq]
    refine ⟨hlaid, hlong, ?_, hdone hp, hcopies, hfile⟩
    intro fileid pos hset
    rw [hbit] at hset
    split_ifs at hset with he
    · -- the task was over and not reported, so its chunk is backed
      obtain ⟨rfl, rfl⟩ := Prod.mk.inj he.2
      exact hover hphase hr
    · exact hbits fileid pos hset
  · rw [hs] at honly hbit
    obtain ⟨bitmaps, rfl⟩ := honly
    rw [heq]
    refine ⟨hlaid, hlong, ?_, tasksBacked_set htasks ⟨hinfo, hpath, hsum, trivial, by rintro ⟨⟩⟩, hcopies, hfile⟩
    intro fileid pos hset
    rw [hbit] at hset
    exact hbits fileid pos (by simpa using hset)

/-- Every step of the job keeps the invariant, if it makes no such copy. -/
theorem step_backing {j j' : Job} {a : Action} (hj : Backing sha1 j) (hspares : j.SparesFiles a)
    (h : step sha1 j a = some j') : Backing sha1 j' := by
  cases a with
  | start =>
    obtain ⟨hlaid, hlong, hbits, htasks, -, -⟩ := hj
    obtain ⟨-, rfl⟩ := step_start h
    exact ⟨hlaid, hlong, hbits, htasks, by rintro todo ⟨⟩, trivial⟩
  | run ev => exact runStep_backing hj hspares (runStep_cases h)
  | task i ev =>
    obtain ⟨task, phase, d, disk, hi, hrun, rfl⟩ := step_task h
    exact task_backing hj hi hrun
  | onFailed i =>
    obtain ⟨task, hi, -, rfl⟩ := step_onFailed h
    exact onFailed_backing hj hi
  | onFinished i =>
    obtain ⟨task, hi, hphase, rfl⟩ := step_onFinished h
    exact onFinished_backing hj hi hphase
  | env ev =>
    obtain ⟨hlaid, hlong, hbits, htasks, hcopies, hfile⟩ := hj
    cases h
    refine ⟨hlaid, hlong, ?_, htasks, hcopies, hfile⟩
    intro fileid pos hset
    refine hbits fileid pos ?_
    rwa [DownloadInfo.bit, bitmapMap_envDownloadInfo] at hset

/-- A job that has not been started begins with the invariant. -/
theorem backing_start {j : Job} (hpc : j.pc = .notStarted) (htasks : j.tasks = [])
    (hlaid : Laid j.jobInfo.torrentInfo j.jobInfo.localFileInfo)
    (hlong : LongEnough j.jobInfo.torrentInfo j.jobInfo.localFileInfo j.disk)
    (hbits : ∀ fileid pos, j.jobInfo.downloadInfo.bit fileid pos = some true →
      BackedAt sha1 j.jobInfo.torrentInfo j.jobInfo.localFileInfo j.disk fileid pos) : Backing sha1 j := by
  refine ⟨hlaid, hlong, hbits, ?_, ?_, ?_⟩
  · rw [htasks]
    rintro task ⟨⟩
  · intro todo h
    rw [hpc] at h
    cases h
  · rw [hpc]
    trivial

/-- So does one that has just been made, if its files are long enough: all its bits are clear. -/
theorem backing_ofTorrent {torrent : Torrent} {topPath : String} {needs : List FileIdentityInfo}
    {uploadTotal downloadTotal : UInt64} {fault : String → Option LocalFileInfo.Fault} {m : LocalSockManager} {disk₀ : Disk}
    (htiled : ∀ file ∈ torrent.file, file.UniformlyTiled)
    (hnodup : ((JobInfo.neededFiles torrent needs).map (JobInfo.localPath topPath)).Nodup)
    (hlong : LongEnough ⟨torrent⟩
      (ofTorrent torrent topPath needs uploadTotal downloadTotal fault m disk₀).jobInfo.localFileInfo
      (ofTorrent torrent topPath needs uploadTotal downloadTotal fault m disk₀).disk) :
    Backing sha1 (ofTorrent torrent topPath needs uploadTotal downloadTotal fault m disk₀) := by
  have htorrent := JobInfo.torrentInfo_new torrent topPath needs uploadTotal downloadTotal fault disk₀
  refine backing_start rfl rfl (htorrent ▸ laid_new htiled hnodup) (htorrent ▸ hlong) fun fileid pos hset => ?_
  cases JobInfo.eq_false_of_bit_new hset

/-- **A bit that is set is backed.** Let the files of the torrent be uniformly tiled, let
no path belong to two fileids, let the local files be long enough, and let every bit
already set be backed. Take any interleaving of `run`, its tasks, their notifications and
everybody else, in which no copy is made over a file that a fileid is downloaded to. In every
state that is reached every bit that is set is backed: the local file has, in the range of
the chunk, bytes with the recorded digest. -/
theorem run_bits_backed {j₀ j : Job} {as : List Action} (hpc : j₀.pc = .notStarted) (htasks : j₀.tasks = [])
    (htiled : ∀ file ∈ j₀.jobInfo.torrentInfo.torrent.file, file.UniformlyTiled)
    (hpaths : ∀ fileid fileid' path, fileid ≠ fileid' → path ∈ j₀.jobInfo.localFileInfo.paths fileid →
      path ∉ j₀.jobInfo.localFileInfo.paths fileid')
    (hlong : LongEnough j₀.jobInfo.torrentInfo j₀.jobInfo.localFileInfo j₀.disk)
    (hbits : ∀ fileid pos, j₀.jobInfo.downloadInfo.bit fileid pos = some true →
      BackedAt sha1 j₀.jobInfo.torrentInfo j₀.jobInfo.localFileInfo j₀.disk fileid pos)
    (hspares : Always (step sha1) SparesFiles j₀ as) (hrun : exec (step sha1) j₀ as = some j) :
    ∀ fileid pos, j.jobInfo.downloadInfo.bit fileid pos = some true →
      BackedAt sha1 j.jobInfo.torrentInfo j.jobInfo.localFileInfo j.disk fileid pos :=
  (exec_invariant_of_always step_backing hspares hrun (backing_start hpc htasks ⟨htiled, hpaths⟩ hlong hbits)).bits

/-- The small job fetches its chunk: `run` starts the task, the task receives the byte and
writes it, and `taskFinished` is delivered. -/
def oneChunkRun : List Action :=
  [.start, .run .go, .run .go, .run .go, .run .go, .run .go, .run .go, .run (.top 0), .run .go, .run (.conn (.ok none)),
    .run .go, .run .go, .task 0 .ok, .task 0 .ok, .task 0 .ok, .task 0 .ok, .task 0 .ok, .task 0 .ok, .task 0 .ok,
    .task 0 (.bytes [7]), .task 0 .ok, .task 0 .ok, .task 0 .ok, .task 0 .ok, .onFinished 0]

/-- The torrent of the small job, with its file under a second path. -/
def duplicateTorrent : Torrent :=
  { oneChunkTorrent with
    file := oneChunkTorrent.file ++
      [{ checkSum := "f", relativePath := "", filename := "b", size := 1, chunk := [⟨"sum", 1⟩] }] }

/-- Its job, with one connected peer. -/
def duplicateJob (disk : Disk) : Job :=
  ofTorrent duplicateTorrent "/d/" [⟨"", "a"⟩, ⟨"", "b"⟩] 0 0 (fun _ => none)
    (LocalSockManager.new.connectClient "p" (some 0)).2 disk

/-- The job is resumed, finds the peer, and fetches its chunk, up to the copies. -/
def duplicateRun : List Action :=
  .env .resume :: .start :: .run (.owners (some [⟨"p", "host", 1, 100, [true]⟩])) ::
    (oneChunkRun.tail ++ [.run .go, .run .go, .run .go, .run (.top 0), .run .go])

theorem tiled_duplicateTorrent : ∀ file ∈ duplicateTorrent.file, file.UniformlyTiled := by
  intro file hfile
  rcases List.mem_cons.mp hfile with rfl | hfile
  · exact ⟨⟨0, 1, rfl, by decide, by decide⟩, rfl⟩
  · obtain rfl := List.mem_singleton.mp hfile
    exact ⟨⟨0, 1, rfl, by decide, by decide⟩, rfl⟩

theorem backing_duplicateJob : Backing oneChunkSha1 (duplicateJob ∅) := by
  refine backing_ofTorrent tiled_duplicateTorrent (by decide) fun fileid file path hfile hpath => ?_
  have hpath : (if "f" = fileid then some "/d/a" else none) = some path := hpath
  split_ifs at hpath with hid
  subst hid
  obtain rfl := Option.some.inj hpath
  obtain rfl := Except.ok.inj hfile
  exact ⟨[0], rfl, by decide⟩

/-- Its bit is backed, also when the copy has been made. -/
theorem bits_backed_duplicateJob : ∃ j : Job,
    exec (step oneChunkSha1) (duplicateJob ∅) (duplicateRun ++ [.run .go]) = some j ∧
    j.disk.find? "/d/b" = some [7] ∧ j.jobInfo.downloadInfo.bit "f" 0 = some true ∧
    BackedAt oneChunkSha1 j.jobInfo.torrentInfo j.jobInfo.localFileInfo j.disk "f" 0 := by
  have hend : (exec (step oneChunkSha1) (duplicateJob ∅) (duplicateRun ++ [.run .go])).map (fun j =>
      (j.disk.find? "/d/b", j.jobInfo.downloadInfo.bit "f" 0)) = some (some [7], some true) := by decide +kernel
  obtain ⟨j, hrun, hj⟩ := Option.map_eq_some_iff.mp hend
  obtain ⟨hcopy, hbit⟩ := Prod.mk.inj hj
  have hspares : Always (step oneChunkSha1) SparesFiles (duplicateJob ∅) (duplicateRun ++ [.run .go]) := by decide +kernel
  have hstart := backing_duplicateJob
  exact ⟨j, hrun, hcopy, hbit, run_bits_backed rfl rfl hstart.laid.tiled hstart.laid.paths hstart.longEnough hstart.bits
    hspares hrun "f" 0 hbit⟩

/-- A torrent with a file `a`, the same under the path `d`, and another file `a` in a directory `d`. -/
def clashTorrent : Torrent :=
  { oneChunkTorrent with
    totalSize := 3
    file :=
      [{ checkSum := "f", relativePath := "", filename := "a", size := 1, chunk := [⟨"sum", 1⟩] },
        { checkSum := "f", relativePath := "", filename := "d", size := 1, chunk := [⟨"sum", 1⟩] },
        { checkSum := "g", relativePath := "d/", filename := "a", size := 1, chunk := [⟨"other", 1⟩] }] }

/-- Its job, with one connected peer, on an empty disk. -/
def clashJob : Job :=
  ofTorrent clashTorrent "/t/" [⟨"", "a"⟩, ⟨"", "d"⟩, ⟨"d/", "a"⟩] 0 0 (fun _ => none)
    (LocalSockManager.new.connectClient "p" (some 0)).2 ∅

/-- The task for the second chunk. -/
def secondTask : List Action :=
  List.replicate 7 (.task 1 .ok) ++ .task 1 (.bytes [8]) :: List.replicate 4 (.task 1 .ok)

/-- The job is resumed and fetches both chunks, one after the other; then `a` is copied to `d`. -/
def clashRun : List Action :=
  .env .resume :: .start :: .run (.owners (some [⟨"p", "host", 1, 100, [true]⟩])) :: .run .go ::
    .run (.owners (some [⟨"p", "host", 1, 100, [true]⟩])) :: (oneChunkRun.drop 2 ++
      .run .go :: .run .go :: .run .go :: .run (.top 0) :: .run .go :: .run (.conn (.ok none)) :: .run .go :: .run .go ::
        (secondTask ++ [.onFinished 1, .run .go, .run .go, .run .go, .run (.top 0), .run .go, .run .go]))

/-- The directory `d` is there, and the copy is made over the other file, whose bit stays set. -/
theorem overwritten_file : clashJob.pc = .notStarted ∧ clashJob.tasks = [] ∧ Backing oneChunkSha1 clashJob ∧
    ∃ j : Job, exec (step oneChunkSha1) clashJob clashRun = some j ∧ j.jobInfo.downloadInfo.bit "g" 0 = some true ∧
      ¬ BackedAt oneChunkSha1 j.jobInfo.torrentInfo j.jobInfo.localFileInfo j.disk "g" 0 := by
  refine ⟨rfl, rfl, ?_, ?_⟩
  · refine backing_ofTorrent ?_ (by decide) fun fileid file path hfile hpath => ?_
    · intro file hfile
      rcases List.mem_cons.mp hfile with rfl | hfile
      · exact ⟨⟨0, 1, rfl, by decide, by decide⟩, rfl⟩
      rcases List.mem_cons.mp hfile with rfl | hfile
      · exact ⟨⟨0, 1, rfl, by decide, by decide⟩, rfl⟩
      obtain rfl := List.mem_singleton.mp hfile
      exact ⟨⟨0, 1, rfl, by decide, by decide⟩, rfl⟩
    · have hpath : (if "f" = fileid then some "/t/a" else if "g" = fileid then some "/t/d/a" else none) = some path := hpath
      split_ifs at hpath with hf hg
      · subst hf
        obtain rfl := Option.some.inj hpath
        obtain rfl := Except.ok.inj hfile
        exact ⟨[0], rfl, by decide⟩
      · subst hg
        obtain rfl := Option.some.inj hpath
        obtain rfl := Except.ok.inj hfile
        exact ⟨[0], rfl, by decide⟩
  · have hend : (exec (step oneChunkSha1) clashJob clashRun).map (fun j =>
        decide (j.jobInfo.downloadInfo.bit "g" 0 = some true ∧
        ¬ BackedAt oneChunkSha1 j.jobInfo.torrentInfo j.jobInfo.localFileInfo j.disk "g" 0)) = some true := by decide +kernel
    obtain ⟨j, hrun, hj⟩ := Option.map_eq_some_iff.mp hend
    exact ⟨j, hrun, of_decide_eq_true hj⟩

end Job

end CoolDown
