import CoolDown.Client.JobConstruction
import CoolDown.Client.JobFiles

/-!
# Where a task writes: the end of `DownloadTask::runTask`

A task maps its file and copies the chunk to `chunk_offset`, without looking how long the file is.
The offset is the size of chunk `0` times the number of the chunk, the length of what is copied the
size of the chunk itself. The file has the `Size` the torrent gives it if `add_file` has made it; one
that was there is left as it is.

## The model

`localLength` is how long a local file is once the job has been made, from the torrent and the disk
before. What has become of the progress of the job since then is left open, as it may have been
reloaded.

## What is proved

* `length_of_find?_disk_new`: the constructor leaves a file of this length, if it is not empty.
* `step_lengths`: the files that chunks are downloaded to keep their lengths while tasks are about.
* `write_inside_iff`: a task that has mapped its file copies inside it if and only if the chunk fits
  in this length.
* `fits_of_tiled`: so it does when the file is uniformly tiled, and was not there.
* `short_file`: the file was there, with the first of its two bytes only.
-/

namespace CoolDown

open Library ChunkSelector

namespace JobInfo

variable (torrent : Torrent) (topPath : String) (needs : List FileIdentityInfo)

/-- The file that `add_file` makes a path for: the first of them that no file with its fileid comes
before. -/
def madeFor (path : String) : List String → List Torrent.File → Option Torrent.File
  | _, [] => none
  | seen, file :: files =>
    if file.checkSum ∉ seen ∧ localPath topPath file = path then some file
    else madeFor path (file.checkSum :: seen) files

/-- How long a local file is, once the job has been made. -/
def localLength (disk : Disk) (path : String) : ℕ :=
  match disk.find? path with
  | some content => content.length
  | none => ((madeFor topPath path [] (neededFiles torrent needs)).map fun file => file.size.toInt.toNat).getD 0

variable {torrent topPath needs} {uploadTotal downloadTotal : UInt64} {fault : String → Option LocalFileInfo.Fault}
  {path : String}

/-- What is on the disk stays there, while files are added. -/
theorem find?_foldl_addNeeded {files : List Torrent.File} {s : JobInfo × Disk} {content : Bytes}
    (h : s.2.find? path = some content) : (files.foldl (addNeeded needs fault) s).2.find? path = some content := by
  refine @List.foldlRecOn _ _ (fun s : JobInfo × Disk => s.2.find? path = some content) _ _ _ h ?_
  intro s ih file _
  unfold addNeeded
  split_ifs
  · exact LocalFileInfo.find?_addFile ih
  · exact ih

/-- What `add_file` leaves at the path of a file that is not on the disk. -/
theorem find?_addFile_self {l : LocalFileInfo} {fileid relativePath filename : String} {filesize : Int64}
    {fault : Option LocalFileInfo.Fault} {disk : Disk}
    (hnone : disk.find? (l.topPath ++ relativePath ++ filename) = none) :
    (l.addFile fileid relativePath filename filesize fault disk).2.2.find? (l.topPath ++ relativePath ++ filename) =
      if l.paths fileid ≠ [] ∨ fault = some .createDirectories ∨ fault = some .createFile then none
      else if fault = some .setSize then some []
      else some (List.replicate filesize.toInt.toNat 0) := by
  unfold LocalFileInfo.addFile LocalFileInfo.paths
  split
  · rename_i path paths hpaths
    simp [hpaths, hnone]
  all_goals
    rename_i hpaths
    simp only [hpaths, hnone]
    cases fault with
    | none => simp
    | some fault => cases fault <;> simp [hnone]

/-- A file that cannot be made is not there. -/
theorem find?_foldl_addNeeded_eq_none {files : List Torrent.File} {s : JobInfo × Disk}
    (hfault : fault path = some .createDirectories ∨ fault path = some .createFile) (h : s.2.find? path = none) :
    (files.foldl (addNeeded needs fault) s).2.find? path = none := by
  refine @List.foldlRecOn _ _ (fun s : JobInfo × Disk => s.2.find? path = none) _ _ _ h ?_
  intro s ih file _
  unfold addNeeded
  split_ifs
  · by_cases he : s.1.localFileInfo.topPath ++ file.relativePath ++ file.filename = path
    · subst he
      rw [find?_addFile_self ih, if_pos (.inr hfault)]
    · rw [LocalFileInfo.find?_addFile_of_ne he, ih]
  · exact ih

/-- While files are added: a file that is not empty in the end was there, or has been made for a
file of the torrent. -/
theorem length_of_find?_foldl {files : List Torrent.File} {s : JobInfo × Disk} {seen : List String} {content : Bytes}
    (htop : s.1.localFileInfo.topPath = topPath)
    (hseen : ∀ fileid, s.1.localFileInfo.paths fileid ≠ [] ↔ fileid ∈ seen)
    (h : (files.foldl (addNeeded needs fault) s).2.find? path = some content) (hne : content ≠ []) :
    content.length =
      match s.2.find? path with
      | some content => content.length
      | none => ((madeFor topPath path seen
          (files.filter fun file => ⟨file.relativePath, file.filename⟩ ∈ needs)).map
            fun file => file.size.toInt.toNat).getD 0 := by
  induction files generalizing s seen with
  | nil =>
    rw [List.foldl_nil] at h
    rw [h]
  | cons file files ih =>
    cases hfind : s.2.find? path with
    | some content' => rw [Option.some.inj (h.symm.trans (find?_foldl_addNeeded hfind))]
    | none =>
      rw [List.foldl_cons] at h
      by_cases hneeded : (⟨file.relativePath, file.filename⟩ : FileIdentityInfo) ∈ needs
      · rw [List.filter_cons_of_pos (by simpa using hneeded), madeFor]
        have htop' : (addNeeded needs fault s file).1.localFileInfo.topPath = topPath := by
          rw [addNeeded, if_pos hneeded]
          exact (LocalFileInfo.topPath_addFile _ _ _ _ _ _ _).trans htop
        have hseen' : ∀ fileid, (addNeeded needs fault s file).1.localFileInfo.paths fileid ≠ [] ↔
            fileid ∈ file.checkSum :: seen := by
          intro fileid
          rw [addNeeded, if_pos hneeded, List.mem_cons, ← hseen]
          simp only [LocalFileInfo.paths_addFile]
          by_cases he : file.checkSum = fileid
          · simp [he]
          · simp [he, Ne.symm he]
        by_cases hpath : localPath topPath file = path
        · subst hpath
          have hlocal : s.1.localFileInfo.topPath ++ file.relativePath ++ file.filename = localPath topPath file := by
            rw [localPath, htop]
          have hmade := @find?_addFile_self s.1.localFileInfo file.checkSum file.relativePath file.filename file.size
            (fault (localPath topPath file)) s.2
          rw [hlocal] at hmade
          have hstep : (addNeeded needs fault s file).2 = (s.1.localFileInfo.addFile file.checkSum file.relativePath
              file.filename file.size (fault (localPath topPath file)) s.2).2.2 := by
            rw [← hlocal, addNeeded, if_pos hneeded]
          rw [← hstep] at hmade
          specialize hmade hfind
          by_cases hmem : file.checkSum ∈ seen
          · -- the fileid has a path already, and this one is not made
            rw [if_pos (.inl ((hseen _).mpr hmem))] at hmade
            have := ih htop' hseen' h
            rw [hmade] at this
            simpa [hmem] using this
          · have hnil : s.1.localFileInfo.paths file.checkSum = [] := not_not.mp fun hpaths => hmem ((hseen _).mp hpaths)
            simp only [hmem, not_false_eq_true, and_self, if_true, Option.map_some, Option.getD_some]
            have hkept : ∀ made, (addNeeded needs fault s file).2.find? (localPath topPath file) = some made →
                content = made := fun made hfound => Option.some.inj (h.symm.trans (find?_foldl_addNeeded hfound))
            cases hfault : fault (localPath topPath file) with
            | none => rw [hkept _ (hmade.trans (by simp only [hnil, hfault]; rfl)), List.length_replicate]
            | some f =>
              cases f with
              | setSize => exact absurd (hkept [] (hmade.trans (by simp [hnil, hfault]))) hne
              | createDirectories =>
                cases h.symm.trans (find?_foldl_addNeeded_eq_none (.inl hfault) (hmade.trans (if_pos (.inr (.inl hfault)))))
              | createFile =>
                cases h.symm.trans (find?_foldl_addNeeded_eq_none (.inr hfault) (hmade.trans (if_pos (.inr (.inr hfault)))))
        · have hother : (addNeeded needs fault s file).2.find? path = none := by
            rw [addNeeded, if_pos hneeded]
            refine (LocalFileInfo.find?_addFile_of_ne fun he => hpath ?_).trans hfind
            rw [← he, localPath, htop]
          have := ih htop' hseen' h
          rw [hother] at this
          simpa [hpath] using this
      · rw [List.filter_cons_of_neg (by simpa using hneeded)]
        rw [addNeeded, if_neg hneeded] at h
        have := ih htop hseen h
        rwa [hfind] at this

/-- The constructor leaves a file of this length, if it is not empty. -/
theorem length_of_find?_disk_new {disk : Disk} {content : Bytes}
    (h : (new torrent topPath needs uploadTotal downloadTotal fault disk).2.find? path = some content)
    (hne : content ≠ []) : content.length = localLength torrent topPath needs disk path :=
  length_of_find?_foldl rfl (by simp [LocalFileInfo.new, LocalFileInfo.paths]) h hne

end JobInfo

namespace Job

variable {sha1 : Bytes → String} {t : TorrentInfo} {l : LocalFileInfo} {disk₁ : Disk} {j j' : Job} {a : Action}

/-! ### The tasks of a job -/

variable (sha1 t l) in
/-- What a task knows of its chunk: it is one of the torrent's file, to be written to the local file,
and its buffer is never larger. -/
structure TaskKnows (task : DownloadTask) : Prop where
  fileInfo : t.getOneFileOfSameFileid task.fileid = .ok task.fileInfo
  file : l.getFile task.fileid = some task.file
  checked : DownloadTask.Checked sha1 task task.phase

/-- It keeps that, whatever becomes of it. -/
theorem taskKnows_set {tasks : List DownloadTask} {i : ℕ} {task task' : DownloadTask}
    (h : ∀ task ∈ tasks, TaskKnows sha1 t l task) (hi : tasks[i]? = some task) (hinfo : task'.fileInfo = task.fileInfo)
    (hfile : task'.file = task.file) (hchecked : DownloadTask.Checked sha1 task' task'.phase) :
    ∀ task ∈ tasks.set i task', TaskKnows sha1 t l task := by
  intro task'' ht
  rcases List.mem_or_eq_of_mem_set ht with ht | rfl
  · exact h task'' ht
  · obtain ⟨hinfo', hfile', -⟩ := h task (List.mem_of_getElem? hi)
    exact ⟨by rwa [DownloadTask.fileid, hinfo], by rwa [DownloadTask.fileid, hinfo, hfile], hchecked⟩

/-- Every task of the job knows that, after any step. -/
theorem step_taskKnows (hl : j.jobInfo.localFileInfo = l) (htasks : ∀ task ∈ j.tasks, TaskKnows sha1 t l task) (hfile : j.pc.FileChecked t l)
    (h : step sha1 j a = some j') : ∀ task ∈ j'.tasks, TaskKnows sha1 t l task := by
  cases a with
  | start =>
    obtain ⟨-, rfl⟩ := step_start h
    exact htasks
  | run ev =>
    cases runStep_cases h with
    | launch chunk peer sock fileInfo file hpc hget =>
      intro task hmem
      rcases List.mem_append.mp hmem with hmem | hmem
      · exact htasks task hmem
      · obtain rfl := List.mem_singleton.mp hmem
        rw [hpc] at hfile
        obtain ⟨hinfo, -⟩ := hfile
        have hid : fileInfo.checkSum = chunk.fileid := (TorrentInfo.getOneFileOfSameFileid_mem hinfo).2
        rw [← hid] at hinfo hget
        exact ⟨hinfo, hl ▸ hget, trivial⟩
    | move | init | initThrows | take | empty | putBack | drop | noFile | leave | joined | copied | ended | abort =>
      exact htasks
  | task i ev =>
    obtain ⟨task, phase, d, disk, hi, hrun, rfl⟩ := step_task h
    have hchecked := DownloadTask.runTask_checked (htasks task (List.mem_of_getElem? hi)).checked hrun
    exact taskKnows_set htasks hi rfl rfl hchecked
  | onFailed i =>
    obtain ⟨task, hi, -, rfl⟩ := step_onFailed h
    rcases j.onFailed_cases i task with ⟨_, _, heq⟩ | ⟨_, heq⟩ <;> (rw [heq]; exact taskKnows_set htasks hi rfl rfl trivial)
  | onFinished i =>
    obtain ⟨task, hi, -, rfl⟩ := step_onFinished h
    rcases j.onFinished_cases i task with ⟨-, _, _, hp, heq⟩ | ⟨-, _, _, _, -, hp, heq⟩ | ⟨-, _, _, -, heq⟩
    · rw [heq]
      exact taskKnows_set htasks hi rfl rfl (by rcases hp with rfl | rfl <;> trivial)
    · rw [heq]
      exact taskKnows_set htasks hi rfl rfl (by rcases hp with rfl | rfl <;> trivial)
    · rw [heq]
      exact taskKnows_set htasks hi rfl rfl trivial
  | env ev =>
    cases h
    exact htasks

/-! ### The lengths of the files -/

/-- The files that chunks are downloaded to are as long as on `disk₁`. -/
def SameLengths (l : LocalFileInfo) (disk₁ disk : Disk) : Prop :=
  ∀ fileid path, l.getFile fileid = some path → (disk.find? path).map List.length = (disk₁.find? path).map List.length

/-- The tasks are over, and `run` is over, or making copies. -/
def Settled (j : Job) : Prop := j.NoTaskInFlight ∧ (j.pc.stage = .after ∨ j.pc.stage = .aborted)

/-- Only a copy changes the length of a file. -/
theorem length_step (hcopy : ∀ copy todo, j.pc ≠ .copying (copy :: todo)) (h : step sha1 j a = some j') (path : String) :
    (j'.disk.find? path).map List.length = (j.disk.find? path).map List.length := by
  cases a with
  | start =>
    obtain ⟨-, rfl⟩ := step_start h
    rfl
  | run ev =>
    cases runStep_cases h with
    | copied fileid source target todo disk hpc => exact absurd hpc (hcopy _ _)
    | move | init | initThrows | take | empty | putBack | launch | drop | noFile | leave | joined | ended | abort => rfl
  | task i ev =>
    obtain ⟨task, phase, d, disk, hi, hrun, rfl⟩ := step_task h
    obtain ⟨-, -, ⟨-, rfl⟩ | ⟨content, -, -, mapped, hmapped, hle, rfl⟩⟩ := DownloadTask.runTask_frame hrun
    · rfl
    · by_cases hpath : task.file = path
      · subst hpath
        simp [hmapped, Library.length_overwrite hle]
      · rw [SortedMap.find?_insert_of_ne _ hpath]
  | onFailed i =>
    obtain ⟨task, hi, -, rfl⟩ := step_onFailed h
    rcases j.onFailed_cases i task with ⟨_, _, heq⟩ | ⟨_, heq⟩ <;> rw [heq]
  | onFinished i =>
    obtain ⟨task, hi, -, rfl⟩ := step_onFinished h
    rcases j.onFinished_cases i task with ⟨_, _, _, _, heq⟩ | ⟨_, _, _, _, _, _, heq⟩ | ⟨_, _, _, _, heq⟩ <;> rw [heq]
  | env ev =>
    cases h
    rfl

/-- A job that has settled stays so, unless it is started again. -/
theorem Settled.step (hj : j.Settled) (ha : a ≠ .start) (h : step sha1 j a = some j') : j'.Settled := by
  obtain ⟨hidle, hstage⟩ := hj
  refine ⟨step_noTaskInFlight hidle (by rcases hstage with hstage | hstage <;> (rw [hstage]; decide)) h, ?_⟩
  by_cases hrun : ∃ ev, a = .run ev
  · obtain ⟨ev, rfl⟩ := hrun
    cases runStep_cases h with
    | copied | ended => exact .inl rfl
    | abort => exact .inr rfl
    | move pc owners m hsame hin =>
      rw [hsame] at hin
      rcases hstage with hstage | hstage <;> (rw [hstage] at hin; rcases hin with hin | hin <;> cases hin)
    | init | initThrows | take | empty | putBack | launch | drop | noFile | leave | joined =>
      -- these are before the copies
      have hpc : j.pc = _ := ‹_›
      rw [hpc] at hstage
      rcases hstage with hstage | hstage <;> cases hstage
  · rwa [pc_step ha (not_exists.mp hrun) h]

variable (sha1 t l disk₁) in
/-- What holds in every state of a job made with the disk `disk₁`. -/
structure Measured (j : Job) : Prop where
  torrentInfo : j.jobInfo.torrentInfo = t
  localFileInfo : j.jobInfo.localFileInfo = l
  tasks : ∀ task ∈ j.tasks, TaskKnows sha1 t l task
  sound : j.Sound
  running : j.isRunning = false → j.pc = .notStarted ∨ j.pc = .ended
  idle : j.pc.stage.idle → j.NoTaskInFlight
  lengths : SameLengths l disk₁ j.disk ∨ j.Settled

/-- **The lengths of the files.** Every step keeps that, if at a new start the files are as long as before. -/
theorem step_measured (hj : Measured sha1 t l disk₁ j)
    (hrestart : a = .start → j.pc ≠ .notStarted → SameLengths l disk₁ j.disk) (h : step sha1 j a = some j') :
    Measured sha1 t l disk₁ j' where
  torrentInfo := (step_advances h).torrentInfo.trans hj.torrentInfo
  localFileInfo := (step_advances h).localFileInfo.trans hj.localFileInfo
  tasks := by
    refine step_taskKnows hj.localFileInfo hj.tasks ?_ h
    rw [← hj.torrentInfo, ← hj.localFileInfo]
    exact hj.sound.fileChecked
  sound := step_sound hj.sound h
  running := step_running hj.running h
  idle := step_idle hj.idle hj.running h
  lengths := by
    by_cases hstart : a = .start
    · subst hstart
      obtain ⟨-, rfl⟩ := step_start h
      by_cases hpc : j.pc = .notStarted
      · refine .inl (hj.lengths.resolve_right ?_)
        rintro ⟨-, hstage | hstage⟩ <;> (rw [hpc] at hstage; cases hstage)
      · exact .inl (hrestart rfl hpc)
    · rcases hj.lengths with hsame | hsettled
      · by_cases hcopy : ∃ copy todo, j.pc = .copying (copy :: todo)
        · -- no task is in flight while copies are made
          obtain ⟨copy, todo, hpc⟩ := hcopy
          have hsettled : j.Settled := ⟨hj.idle (by rw [hpc]; rfl), .inl (by rw [hpc]; rfl)⟩
          exact .inr (hsettled.step hstart h)
        · have hcopy : ∀ copy todo, j.pc ≠ .copying (copy :: todo) := fun copy todo hpc => hcopy ⟨copy, todo, hpc⟩
          exact .inl fun fileid path hfile => (length_step hcopy h path).trans (hsame fileid path hfile)
      · exact .inr (hsettled.step hstart h)

/-! ### Where a task writes -/

section WriteInside

variable (torrent : Torrent) (topPath : String) (needs : List FileIdentityInfo) (uploadTotal downloadTotal : UInt64)
  (fault : String → Option LocalFileInfo.Fault) (m : LocalSockManager) (disk₀ : Disk)

/-- A job that has been made for a torrent, whatever has been reloaded of its progress. -/
def reloaded (d : DownloadInfo) : Job :=
  let (info, disk) := JobInfo.new torrent topPath needs uploadTotal downloadTotal fault disk₀
  .new { info with downloadInfo := d } m disk

/-- When it is started again, its files are as long as when it was made. -/
def KeepsLengths (j : Job) (a : Action) : Prop :=
  let (info, disk) := JobInfo.new torrent topPath needs uploadTotal downloadTotal fault disk₀
  a = .start → j.pc ≠ .notStarted → SameLengths info.localFileInfo disk j.disk

/-- A chunk of a fileid, as the first file of the torrent with it has it, fits in the local file of the
first that is needed. -/
def Fits (fileid : String) (pos : ℕ) : Prop :=
  ∃ first needed, (JobInfo.filesOf torrent fileid).head? = some first ∧
    (JobInfo.neededFilesOf torrent needs fileid).head? = some needed ∧
      (first.chunkOffset pos).toNat + first.chunkSize pos ≤
        JobInfo.localLength torrent topPath needs disk₀ (JobInfo.localPath topPath needed)

variable {torrent topPath needs uploadTotal downloadTotal fault m disk₀} {d : DownloadInfo} {as : List Action}

/-- A new job, and the job after a run. -/
theorem run_measured (hrun : exec (step sha1) (reloaded torrent topPath needs uploadTotal downloadTotal fault m disk₀ d) as = some j)
    (hkeeps : Always (step sha1) (KeepsLengths torrent topPath needs uploadTotal downloadTotal fault disk₀)
      (reloaded torrent topPath needs uploadTotal downloadTotal fault m disk₀ d) as) :
    Measured sha1 ⟨torrent⟩ (JobInfo.new torrent topPath needs uploadTotal downloadTotal fault disk₀).1.localFileInfo
      (JobInfo.new torrent topPath needs uploadTotal downloadTotal fault disk₀).2 j := by
  refine exec_invariant_of_always (fun hk hP hstep => step_measured hk hP hstep) hkeeps hrun ?_
  exact ⟨JobInfo.torrentInfo_new _ _ _ _ _ _ _, rfl, by rintro task ⟨⟩, ⟨by rintro task ⟨⟩, trivial⟩, fun _ => .inl rfl,
    by rintro - task ⟨⟩, .inl fun _ _ _ => rfl⟩

/-- The local file of a fileid is that of the first needed file with it. -/
theorem head?_neededFilesOf {fileid path : String}
    (h : (JobInfo.new torrent topPath needs uploadTotal downloadTotal fault disk₀).1.localFileInfo.getFile fileid = some path) :
    ∃ needed, (JobInfo.neededFilesOf torrent needs fileid).head? = some needed ∧ JobInfo.localPath topPath needed = path := by
  obtain ⟨paths, hpaths⟩ := LocalFileInfo.files_head _ _ _ h
  have hmap := JobInfo.paths_new torrent topPath needs uploadTotal downloadTotal fault disk₀ fileid
  rw [LocalFileInfo.paths, hpaths, Option.getD_some] at hmap
  change path :: paths = (JobInfo.neededFilesOf torrent needs fileid).map _ at hmap
  cases hneeded : JobInfo.neededFilesOf torrent needs fileid with
  | nil => simp [hneeded] at hmap
  | cons needed files =>
    rw [hneeded, List.map_cons] at hmap
    exact ⟨needed, rfl, (List.cons.inj hmap).1.symm⟩

/-- **Where a task writes.** In a run of a job, however often it is started, as long as the copies at the end have not
changed the lengths of its files: a task that has mapped its file copies a chunk of no negative size inside the
mapping if and only if the chunk fits in what the file was when the job was made. -/
theorem write_inside_iff
    (hrun : exec (step sha1) (reloaded torrent topPath needs uploadTotal downloadTotal fault m disk₀ d) as = some j)
    (hkeeps : Always (step sha1) (KeepsLengths torrent topPath needs uploadTotal downloadTotal fault disk₀)
      (reloaded torrent topPath needs uploadTotal downloadTotal fault m disk₀ d) as)
    {task : DownloadTask} (ht : task ∈ j.tasks) {content : Bytes} (hphase : task.phase = .write content) {mapped : Bytes}
    (hmapped : j.disk.find? task.file = some mapped) (hne : mapped ≠ []) :
    (0 ≤ task.chunkSize ∧ task.offset + task.chunkSize ≤ mapped.length) ↔
      Fits torrent topPath needs disk₀ task.fileid task.chunkPos := by
  have hj := run_measured hrun hkeeps
  obtain ⟨hinfo, hfile, hchecked⟩ := hj.tasks task ht
  -- the size is that of the buffer
  rw [hphase] at hchecked
  have hsize : (content.length : ℤ) = task.chunkSize := hchecked.1
  have hlength : mapped.length = JobInfo.localLength torrent topPath needs disk₀ task.file := by
    have hflying : ¬j.Settled := by
      rintro ⟨hidle, -⟩
      rcases hidle task ht with hover | hover <;> (rw [hphase] at hover; cases hover)
    have hmade := hj.lengths.resolve_right hflying _ _ hfile
    rw [hmapped, Option.map_some] at hmade
    obtain ⟨made, hfound, hlen⟩ := Option.map_eq_some_iff.mp hmade.symm
    rw [← hlen]
    refine JobInfo.length_of_find?_disk_new hfound ?_
    rintro rfl
    exact hne (List.eq_nil_of_length_eq_zero hlen.symm)
  obtain ⟨needed, hneeded, hpath⟩ := head?_neededFilesOf hfile
  rw [JobInfo.getOneFileOfSameFileid_eq_ok] at hinfo
  have hnonneg : 0 ≤ task.chunkSize := by omega
  rw [hlength]
  constructor
  · rintro ⟨-, hle⟩
    exact ⟨_, needed, hinfo, hneeded, hpath ▸ hle⟩
  · rintro ⟨first, needed', hfirst, hneeded', hle⟩
    obtain rfl := Option.some.inj (hinfo.symm.trans hfirst)
    obtain rfl := Option.some.inj (hneeded.symm.trans hneeded')
    exact ⟨hnonneg, hpath ▸ hle⟩

/-- A chunk of a uniformly tiled file fits in a local file that has the size of the file at least. -/
theorem fits_of_tiled {fileid : String} {pos : ℕ} {first needed : Torrent.File}
    (hfirst : (JobInfo.filesOf torrent fileid).head? = some first)
    (hneeded : (JobInfo.neededFilesOf torrent needs fileid).head? = some needed) (htiled : first.UniformlyTiled)
    (hpos : pos < first.chunkCount)
    (hsize : first.size.toInt ≤ JobInfo.localLength torrent topPath needs disk₀ (JobInfo.localPath topPath needed)) :
    Fits torrent topPath needs disk₀ fileid pos := by
  refine ⟨first, needed, hfirst, hneeded, ?_⟩
  rw [Torrent.File.toNat_chunkOffset htiled hpos]
  exact (Torrent.File.mul_add_chunkSize_le htiled hpos).trans hsize

end WriteInside

/-- A torrent of one file with two chunks, each the byte `7`. -/
def twoChunkTorrent : Torrent :=
  { oneChunkTorrent with
    totalSize := 2
    file := [{ checkSum := "f", relativePath := "", filename := "a", size := 2, chunk := [⟨"sum", 1⟩, ⟨"sum", 1⟩] }] }

/-- A job that has none of it, resumed. -/
def twoChunkJob (disk : Disk) : Job :=
  reloaded twoChunkTorrent "/d/" [⟨"", "a"⟩] 0 0 (fun _ => none) (LocalSockManager.new.connectClient "p" (some 0)).2 disk
    { DownloadInfo.new 0 0 with
      isStopped := false
      isDownloadPaused := false
      percentageMap := (∅ : SortedMap String Int32).insert "f" 0
      bitmapMap := (∅ : SortedMap String (Option Bitmap)).insert "f" (some [false, false]) }

/-- A connected peer has the second chunk, and the task for it has received and checked it. -/
def secondChunkRun : List Action :=
  [.start, .run (.owners (some [⟨"p", "host", 1, 100, [true, true]⟩])), .run .go, .run .go, .run .go, .run .go, .run .go,
    .run (.top 1), .run .go, .run (.conn (.ok none)), .run .go, .run .go, .task 0 .ok, .task 0 .ok, .task 0 .ok,
    .task 0 .ok, .task 0 .ok, .task 0 .ok, .task 0 .ok, .task 0 (.bytes [7]), .task 0 .ok, .task 0 .ok, .task 0 .ok]

/-- The file was not there: the second chunk fits. -/
theorem write_inside_iff_twoChunkJob : ∃ (j : Job) (task : DownloadTask),
    exec (step oneChunkSha1) (twoChunkJob ∅) secondChunkRun = some j ∧ task ∈ j.tasks ∧
      (0 ≤ task.chunkSize ∧ task.offset + task.chunkSize ≤ ([0, 0] : Bytes).length) ∧
        Fits twoChunkTorrent "/d/" [⟨"", "a"⟩] ∅ task.fileid task.chunkPos := by
  obtain ⟨j, task, hrun, ht, hphase, hmapped, hfits⟩ : ∃ (j : Job) (task : DownloadTask),
      exec (step oneChunkSha1) (twoChunkJob ∅) secondChunkRun = some j ∧ task ∈ j.tasks ∧ task.phase = .write [7] ∧
        j.disk.find? task.file = some [0, 0] ∧
          (0 ≤ task.chunkSize ∧ task.offset + task.chunkSize ≤ ([0, 0] : Bytes).length) :=
    ⟨_, _, rfl, List.mem_singleton_self _, rfl, rfl, by decide⟩
  have hkeeps : Always (step oneChunkSha1) (KeepsLengths twoChunkTorrent "/d/" [⟨"", "a"⟩] 0 0 (fun _ => none) ∅)
      (twoChunkJob ∅) secondChunkRun := by
    refine ⟨fun _ hpc => absurd rfl hpc, fun k _ => ?_⟩
    refine Always.mono ?_ (always_of_forall_mem (Q := fun a => a ≠ .start) ?_ k)
    · intro k a ha hstart
      exact absurd hstart ha
    · simp
  exact ⟨j, task, hrun, ht, hfits, (write_inside_iff hrun hkeeps ht hphase hmapped (by simp)).mp hfits⟩

/-- The file was there before, with one byte of two: the second chunk is copied past its end. -/
theorem short_file : ∃ (j : Job) (task : DownloadTask),
    exec (step oneChunkSha1) (twoChunkJob ((∅ : Disk).insert "/d/a" [7])) secondChunkRun = some j ∧
      task ∈ j.tasks ∧ task.phase = .write [7] ∧ j.disk.find? task.file = some [7] ∧
        ¬(0 ≤ task.chunkSize ∧ task.offset + task.chunkSize ≤ ([7] : Bytes).length) := by
  refine ⟨_, _, rfl, List.mem_singleton_self _, rfl, rfl, ?_⟩
  rintro ⟨-, hle⟩
  exact absurd hle (by decide)

end Job

end CoolDown
