import CoolDown.Client.JobEnd

/-!
# What a job leaves on the disk

A torrent may have one content under several paths. Only the first path of each fileid is
downloaded to; when all tasks are over, `run` copies that file over the others, fileid by
fileid, in the order of `same_files_`.

## The model

`Matches` is what a file of the torrent must hold: each of its chunks has the recorded digest
at its offset. `Copied` is the invariant of the copy loop: the first paths are as they were when
the loop began, and every copy that is not still to be made has been made. `Tidy` is what holds
all along of the other paths of the disk. A copy whose target is a directory is `Lost`: it is made in
the directory, and nothing is at the target, then or later.

## What is proved

* `step_tidy`: no step writes to a path that is not in `same_files_`.
* `step_copied`: a step of the copy loop keeps its invariant.
* `step_lost`: a copy that is lost stays so.
* `whole_job_iff`: when the loop is over, each needed file holds its content, and nothing else has been
  written, just when no copy has been made in a directory.
* `copied_into_directory`: a torrent with the same content under two paths, one of them that of a directory.
-/

namespace CoolDown

open Library ChunkSelector

/-- Two files of the same chunks have them at the same offsets, with the same sizes and digests. -/
theorem Torrent.File.chunks_congr {f f' : Torrent.File} (h : f.chunk = f'.chunk) (c : ℕ) :
    f.chunkOffset c = f'.chunkOffset c ∧ f.chunkSize c = f'.chunkSize c ∧ f.chunkChecksum c = f'.chunkChecksum c := by
  rcases f with ⟨_, _, _, _, chunk⟩
  rcases f' with ⟨_, _, _, _, chunk'⟩
  obtain rfl : chunk = chunk' := h
  exact ⟨rfl, rfl, rfl⟩

/-- A bit that is there stays there. -/
theorem JobInfo.Advances.bit_isSome {info info' : JobInfo} (h : info.Advances info') {fileid : String} {pos : ℕ}
    (hbit : (info.downloadInfo.bit fileid pos).isSome) : (info'.downloadInfo.bit fileid pos).isSome := by
  rcases h.bit fileid pos with heq | heq
  · rwa [heq]
  · rw [heq]
    rfl

/-- A new job has a clear bit for each chunk of a needed file. -/
theorem JobInfo.bit_new {torrent : Torrent} {topPath : String} {needs : List FileIdentityInfo}
    {uploadTotal downloadTotal : UInt64} {fault : String → Option LocalFileInfo.Fault} {disk : Disk}
    (hsame : ∀ file ∈ torrent.file, ∀ file' ∈ torrent.file, file.checkSum = file'.checkSum → file.chunk = file'.chunk)
    {file : Torrent.File} (hfile : file ∈ neededFiles torrent needs) {c : ℕ} (hc : c < file.chunkCount) :
    (new torrent topPath needs uploadTotal downloadTotal fault disk).1.downloadInfo.bit file.checkSum c =
      some false := by
  obtain ⟨hmem, hneeded⟩ := List.mem_filter.mp hfile
  obtain ⟨bitmap, hbitmap⟩ := Option.isSome_iff_exists.mp <|
    (@isSome_bitmapMap_new torrent topPath needs uploadTotal downloadTotal fault disk file.checkSum).mpr
      ⟨file, hmem, by simpa using hneeded, rfl⟩
  obtain ⟨file', hmem', hsum, rfl⟩ := exists_file_of_bitmapMap_new hbitmap
  have hcount : file'.chunkCount = file.chunkCount := congrArg List.length (hsame file' hmem' file hmem hsum)
  rw [DownloadInfo.bit, hbitmap]
  simp [hcount, hc]

/-- Where one bit is all that there is, and it is set, no bit is clear. -/
theorem DownloadInfo.bit_ne_false_of_one {d : DownloadInfo} {checkSum : String}
    (h : ∀ fileid, d.bitmapMap.find? fileid = if checkSum = fileid then some (some [true]) else none)
    (fileid : String) (pos : ℕ) :
    d.bit fileid pos ≠ some false := by
  rw [DownloadInfo.bit, h]
  split_ifs
  · cases pos <;> simp
  · simp

/-- And it is the only bit that is set. -/
theorem DownloadInfo.eq_of_bit_of_one {d : DownloadInfo} {checkSum : String}
    (h : ∀ fileid, d.bitmapMap.find? fileid = if checkSum = fileid then some (some [true]) else none)
    {fileid : String} {pos : ℕ}
    (hbit : d.bit fileid pos = some true) : fileid = checkSum ∧ pos = 0 := by
  rw [DownloadInfo.bit, h] at hbit
  split_ifs at hbit with hid
  · cases pos with
    | zero => exact ⟨hid.symm, rfl⟩
    | succ pos => simp at hbit

namespace Job

variable (sha1 : Bytes → String) in
/-- Each chunk of the file has, in the content, the recorded digest at its offset. -/
def Matches (file : Torrent.File) (content : Bytes) : Prop :=
  ∀ c < file.chunkCount,
    sha1 (slice content (file.chunkOffset c).toNat (file.chunkSize c).toNat) = file.chunkChecksum c

variable {sha1 : Bytes → String} {j j' : Job} {a : Action}

/-! ### The other paths -/

/-- The tasks and the copies are about paths in `same_files_`, and the other paths are as in `disk₀`. -/
structure Tidy (disk₀ : Disk) (j : Job) : Prop where
  tasks : ∀ task ∈ j.tasks, ∃ fileid, task.file ∈ j.jobInfo.localFileInfo.paths fileid
  copies : ∀ todo, j.pc = .copying todo → ∀ copy ∈ todo, IsCopy j.jobInfo.localFileInfo copy
  disk : ∀ path, (∀ fileid, path ∉ j.jobInfo.localFileInfo.paths fileid) → j.disk.find? path = disk₀.find? path

/-- What a step does to the disk: nothing, or a task writes to its file, which is there, or a copy is made. -/
theorem disk_step (h : step sha1 j a = some j') :
    j'.disk = j.disk ∨
      (∃ task ∈ j.tasks, ∃ content, (j.disk.find? task.file).isSome ∧ j'.disk = j.disk.insert task.file content) ∨
      ∃ emptyDir source target, j.copyAt a = some (emptyDir, source, target) ∧
        j.disk.copyTo emptyDir source target = some j'.disk := by
  cases a with
  | start =>
    obtain ⟨-, rfl⟩ := step_start h
    exact .inl rfl
  | run ev =>
    cases runStep_cases h with
    | copied fileid source target todo disk hpc hev hdisk =>
      exact .inr (.inr ⟨_, _, _, copyAt_of_copying hpc hev, hdisk⟩)
    | move | init | initThrows | take | empty | putBack | launch | drop | noFile | leave | joined | ended | abort =>
      exact .inl rfl
  | task i ev =>
    obtain ⟨task, phase, d, disk, hi, hrun, rfl⟩ := step_task h
    obtain ⟨-, -, ⟨-, rfl⟩ | ⟨content, -, -, mapped, hmapped, -, rfl⟩⟩ := DownloadTask.runTask_frame hrun
    · exact .inl rfl
    · exact .inr (.inl ⟨task, List.mem_of_getElem? hi, _, by rw [hmapped]; rfl, rfl⟩)
  | onFailed i =>
    obtain ⟨task, hi, -, rfl⟩ := step_onFailed h
    rcases j.onFailed_cases i task with ⟨_, _, heq⟩ | ⟨_, heq⟩ <;> (rw [heq]; exact .inl rfl)
  | onFinished i =>
    obtain ⟨task, hi, -, rfl⟩ := step_onFinished h
    rcases j.onFinished_cases i task with ⟨_, _, _, _, heq⟩ | ⟨_, _, _, _, _, _, heq⟩ | ⟨_, _, _, _, heq⟩ <;>
      (rw [heq]; exact .inl rfl)
  | env ev =>
    cases h
    exact .inl rfl

/-- A task of the new state has the file of a task of the old one, or that of a fileid. -/
theorem file_of_mem_tasks_step (h : step sha1 j a = some j') {task : DownloadTask} (ht : task ∈ j'.tasks) :
    (∃ task' ∈ j.tasks, task.file = task'.file) ∨
      ∃ fileid, j.jobInfo.localFileInfo.getFile fileid = some task.file := by
  have hset : ∀ {i : ℕ} {t t' : DownloadTask}, j.tasks[i]? = some t → task ∈ j.tasks.set i t' → t'.file = t.file →
      ∃ task' ∈ j.tasks, task.file = task'.file := by
    intro i t t' hi hmem hfile
    rcases List.mem_or_eq_of_mem_set hmem with hmem | rfl
    · exact ⟨task, hmem, rfl⟩
    · exact ⟨t, List.mem_of_getElem? hi, hfile⟩
  cases a with
  | start =>
    obtain ⟨-, rfl⟩ := step_start h
    exact .inl ⟨task, ht, rfl⟩
  | run ev =>
    cases runStep_cases h with
    | launch chunk peer sock fileInfo file hpc hfile =>
      rcases List.mem_append.mp ht with ht | ht
      · exact .inl ⟨task, ht, rfl⟩
      · obtain rfl := List.mem_singleton.mp ht
        exact .inr ⟨chunk.fileid, hfile⟩
    | move | init | initThrows | take | empty | putBack | drop | noFile | leave | joined | copied | ended | abort =>
      exact .inl ⟨task, ht, rfl⟩
  | task i ev =>
    obtain ⟨t, phase, d, disk, hi, hrun, rfl⟩ := step_task h
    exact .inl (hset hi ht rfl)
  | onFailed i =>
    obtain ⟨t, hi, -, rfl⟩ := step_onFailed h
    rcases j.onFailed_cases i t with ⟨_, _, heq⟩ | ⟨_, heq⟩ <;> (rw [heq] at ht; exact .inl (hset hi ht rfl))
  | onFinished i =>
    obtain ⟨t, hi, -, rfl⟩ := step_onFinished h
    rcases j.onFinished_cases i t with ⟨_, _, _, _, heq⟩ | ⟨_, _, _, _, _, _, heq⟩ | ⟨_, _, _, _, heq⟩ <;>
      (rw [heq] at ht; exact .inl (hset hi ht rfl))
  | env ev =>
    cases h
    exact .inl ⟨task, ht, rfl⟩

/-- No step writes to another path, if its copy, if it makes one, is not made in a directory. -/
theorem step_tidy {disk₀ : Disk} (hj : Tidy disk₀ j) (hinto : j.intoDirectory a = false) (h : step sha1 j a = some j') :
    Tidy disk₀ j' := by
  have hl : j'.jobInfo.localFileInfo = j.jobInfo.localFileInfo := (step_advances h).localFileInfo
  refine ⟨?_, step_copies hj.copies h, ?_⟩
  · intro task ht
    rw [hl]
    rcases file_of_mem_tasks_step h ht with ⟨task', ht', heq⟩ | ⟨fileid, hfile⟩
    · rw [heq]
      exact hj.tasks task' ht'
    · exact ⟨fileid, LocalFileInfo.mem_paths_of_getFile hfile⟩
  · intro path hpath
    rw [hl] at hpath
    rw [← hj.disk path hpath]
    rcases disk_step h with heq | ⟨task, ht, content, -, heq⟩ | ⟨emptyDir, source, target, hcopy, hdisk⟩
    · rw [heq]
    · obtain ⟨fileid, hmem⟩ := hj.tasks task ht
      rw [heq]
      apply SortedMap.find?_insert_of_ne
      rintro rfl
      exact hpath fileid hmem
    · rw [intoDirectory, hcopy, Option.any_some] at hinto
      obtain ⟨content, -, -, heq⟩ := Disk.copyTo_eq_some.mp hdisk
      obtain ⟨fileid, todo, hpc⟩ := copyAt_eq_some hcopy
      rw [heq, Disk.copyPath_eq_target hinto]
      apply SortedMap.find?_insert_of_ne
      rintro rfl
      exact hpath fileid (hj.copies _ hpc _ List.mem_cons_self).target_mem_paths

/-! ### A path that is lost -/

/-- There is a directory in the place of a file. -/
structure Lost (path : String) (j : Job) : Prop where
  find? : j.disk.find? path = none
  isDirectory : j.disk.isDirectory path

/-- It stays there: no file is written in its place. -/
theorem step_lost {path : String} (hj : Lost path j) (h : step sha1 j a = some j') : Lost path j' := by
  rcases disk_step h with heq | ⟨task, ht, content, hfind, heq⟩ | ⟨emptyDir, source, target, hcopy, hdisk⟩
  · exact ⟨heq ▸ hj.find?, heq ▸ hj.isDirectory⟩
  · have hne : task.file ≠ path := by
      rintro rfl
      rw [hj.find?] at hfind
      cases hfind
    exact ⟨by rw [heq, SortedMap.find?_insert_of_ne _ hne, hj.find?], heq ▸ Disk.isDirectory_insert hj.isDirectory _ _⟩
  · have hne := Disk.copyPath_ne_of_isDirectory hdisk hj.isDirectory
    obtain ⟨content, -, -, heq⟩ := Disk.copyTo_eq_some.mp hdisk
    exact ⟨by rw [heq, SortedMap.find?_insert_of_ne _ hne, hj.find?], heq ▸ Disk.isDirectory_insert hj.isDirectory _ _⟩

/-- A copy that is made in a directory leaves its target lost, if it does not throw. -/
theorem lost_of_intoDirectory (hinto : j.intoDirectory a) (h : step sha1 j a = some j') :
    ∃ fileid source target todo, j.pc = .copying ((fileid, source, target) :: todo) ∧
      (j'.pc = .aborted ∨ Lost target j') := by
  obtain ⟨⟨emptyDir, source, target⟩, hcopy, htakes⟩ := (Option.any_eq_true _ _).mp hinto
  dsimp only at htakes
  obtain ⟨fileid, todo, hpc, rfl⟩ := step_of_copyAt hcopy h
  refine ⟨fileid, source, target, todo, hpc, ?_⟩
  unfold copyFile
  split
  · exact .inl rfl
  · rename_i disk hdisk
    have hne := Disk.copyPath_ne_target htakes hdisk
    obtain ⟨content, -, -, rfl⟩ := Disk.copyTo_eq_some.mp hdisk
    have hnone : j.disk.find? target = none := by simpa using (Bool.and_eq_true_iff.mp htakes).1
    exact .inr ⟨(SortedMap.find?_insert_of_ne _ hne).trans hnone, Disk.isDirectory_insert_copyPath htakes _⟩

/-- A job whose `run` has thrown stays so. -/
theorem step_aborted (hj : j.pc = .aborted ∧ (j.isRunning = false → j.pc = .notStarted ∨ j.pc = .ended))
    (h : step sha1 j a = some j') : j'.pc = .aborted ∧ (j'.isRunning = false → j'.pc = .notStarted ∨ j'.pc = .ended) := by
  obtain ⟨hpc, hrunning⟩ := hj
  refine ⟨pc_step_aborted hpc ?_ h, step_running hrunning h⟩
  rintro rfl
  rcases hrunning (step_start h).1 with hpc' | hpc' <;> (rw [hpc] at hpc'; cases hpc')

/-- A run after which each path of a fileid has its file makes no copy in a directory. -/
theorem always_of_found (hrunning : j.isRunning = false → j.pc = .notStarted ∨ j.pc = .ended)
    (hcopies : ∀ todo, j.pc = .copying todo → ∀ copy ∈ todo, IsCopy j.jobInfo.localFileInfo copy) {as : List Action}
    (hrun : exec (step sha1) j as = some j') (hend : j'.pc ≠ .aborted)
    (hfound : ∀ fileid, ∀ path ∈ j.jobInfo.localFileInfo.paths fileid, (j'.disk.find? path).isSome) :
    Always (step sha1) (fun j a => j.intoDirectory a = false) j as := by
  induction as generalizing j with
  | nil => trivial
  | cons a as ih =>
    obtain ⟨k, hk, hrest⟩ := exec_cons_eq_some.mp hrun
    refine ⟨?_, fun k' hk' => ?_⟩
    · by_contra hinto
      obtain ⟨fileid, source, target, todo, hpc, haborted | hlost⟩ := lost_of_intoDirectory (by simpa using hinto) hk
      · exact hend (exec_invariant step_aborted hrest ⟨haborted, step_running hrunning hk⟩).1
      · have hsome := hfound fileid target (hcopies _ hpc _ List.mem_cons_self).target_mem_paths
        rw [(exec_invariant step_lost hrest hlost).find?] at hsome
        cases hsome
    · obtain rfl : k = k' := Option.some.inj (hk.symm.trans hk')
      exact ih (step_running hrunning hk) (step_copies hcopies hk) hrest
        (by rw [(step_advances hk).localFileInfo]; exact hfound)

/-! ### The copy loop -/

/-- What holds in the copy loop, which began with the disk `disk₁`, and after it. -/
structure Copied (l : LocalFileInfo) (disk₁ : Disk) (j : Job) : Prop where
  localFileInfo : j.jobInfo.localFileInfo = l
  idle : j.NoTaskInFlight
  place : (∃ todo, j.pc = .copying todo) ∨ j.pc = .ended ∨ j.pc = .aborted
  copies : ∀ todo, j.pc = .copying todo → ∀ copy ∈ todo, IsCopy l copy
  heads : ∀ fileid path paths, l.sameFiles.find? fileid = some (path :: paths) → j.disk.find? path = disk₁.find? path
  made : ∀ fileid source target, (fileid, source, target) ∈ sameFileCopies l →
    (∃ todo, j.pc = .copying todo ∧ (fileid, source, target) ∈ todo) ∨ j.pc = .aborted ∨
      j.disk.find? target = disk₁.find? source

/-- While no task is in flight, only `run` writes. -/
theorem disk_step_of_idle (hidle : j.NoTaskInFlight) (hrun : ∀ ev, a ≠ .run ev) (h : step sha1 j a = some j') :
    j'.disk = j.disk := by
  cases a with
  | start =>
    obtain ⟨-, rfl⟩ := step_start h
    rfl
  | run ev => exact absurd rfl (hrun ev)
  | task i ev =>
    obtain ⟨task, phase, d, disk, hi, htask, rfl⟩ := step_task h
    have hpending := (DownloadTask.runTask_frame htask).1
    rcases hidle task (List.mem_of_getElem? hi) with hphase | hphase <;> (rw [hphase] at hpending; cases hpending)
  | onFailed i =>
    obtain ⟨task, hi, -, rfl⟩ := step_onFailed h
    rcases j.onFailed_cases i task with ⟨_, _, heq⟩ | ⟨_, heq⟩ <;> rw [heq]
  | onFinished i =>
    obtain ⟨task, hi, -, rfl⟩ := step_onFinished h
    rcases j.onFinished_cases i task with ⟨_, _, _, _, heq⟩ | ⟨_, _, _, _, _, _, heq⟩ | ⟨_, _, _, _, heq⟩ <;> rw [heq]
  | env ev =>
    cases h
    rfl

/-- A step of `run` in the copy loop keeps that. -/
theorem runStep_copied {t : TorrentInfo} {l : LocalFileInfo} {disk₁ : Disk} (hl : Laid t l)
    (hnodup : ∀ fileid, (l.paths fileid).Nodup) (hj : Copied l disk₁ j) {ev : RunEvent}
    (hinto : j.intoDirectory (.run ev) = false) (h : RunStep j ev j')
    (hcopies : ∀ todo, j'.pc = .copying todo → ∀ copy ∈ todo, IsCopy l copy)
    (hidle : j'.NoTaskInFlight) : Copied l disk₁ j' := by
  have hstage : j.pc.stage = .after ∨ j.pc.stage = .aborted := by
    rcases hj.place with ⟨todo, hpc⟩ | hpc | hpc <;> rw [hpc]
    · exact .inl rfl
    · exact .inl rfl
    · exact .inr rfl
  have hno : ∀ {pc : Pc}, j.pc = pc → pc.stage ≠ .after → pc.stage ≠ .aborted → Copied l disk₁ j' := by
    rintro pc rfl hafter haborted
    exact (hstage.elim hafter haborted).elim
  cases h with
  | copied fileid source target todo disk hpc hev hdisk =>
    have hcopy := hj.copies _ hpc _ List.mem_cons_self
    have ⟨targets, hsource, _⟩ := hcopy
    rw [intoDirectory_of_copying hpc hev] at hinto
    obtain ⟨content, hcontent, -, rfl⟩ := Disk.copyTo_eq_some.mp hdisk
    rw [Disk.copyPath_eq_target hinto, if_neg (hcopy.target_ne_head hl hnodup hsource)] at hcopies hidle ⊢
    have hheads : ∀ fileid' path paths, l.sameFiles.find? fileid' = some (path :: paths) →
        (j.disk.insert target content).find? path = disk₁.find? path := by
      intro fileid' path paths hhead
      rw [SortedMap.find?_insert_of_ne _ (hcopy.target_ne_head hl hnodup hhead), hj.heads fileid' path paths hhead]
    refine ⟨hj.localFileInfo, hidle, .inl ⟨todo, rfl⟩, hcopies, hheads, ?_⟩
    intro fileid' source' target' hmem
    obtain ⟨targets', hhead', htarget'⟩ := isCopy_of_mem_sameFileCopies hmem
    by_cases he : target = target'
    · -- the path has one fileid, and so the copies one source
      subst he
      have hid : fileid = fileid' := by
        by_contra hne
        exact hl.paths _ _ _ hne hcopy.target_mem_paths (isCopy_of_mem_sameFileCopies hmem).target_mem_paths
      subst hid
      obtain ⟨targets, hhead, -⟩ := hcopy
      obtain ⟨rfl, -⟩ := List.cons.inj (Option.some.inj (hhead.symm.trans hhead'))
      refine .inr (.inr ?_)
      rw [SortedMap.find?_insert_self, ← hcontent]
      exact hj.heads fileid source targets hhead
    · rcases hj.made fileid' source' target' hmem with ⟨todo', hpc', htodo⟩ | hpc' | hdone
      · rw [hpc] at hpc'
        cases hpc'
        rcases List.mem_cons.mp htodo with heq | htodo
        · cases heq
          exact absurd rfl he
        · exact .inl ⟨todo, rfl, htodo⟩
      · rw [hpc] at hpc'
        cases hpc'
      · refine .inr (.inr ?_)
        rw [SortedMap.find?_insert_of_ne _ he, hdone]
  | ended hpc =>
    refine ⟨hj.localFileInfo, hidle, .inr (.inl rfl), hcopies, hj.heads, ?_⟩
    intro fileid source target hmem
    rcases hj.made fileid source target hmem with ⟨todo, hpc', htodo⟩ | hpc' | hdone
    · rw [hpc] at hpc'
      cases hpc'
      cases htodo
    · rw [hpc] at hpc'
      cases hpc'
    · exact .inr (.inr hdone)
  | abort m => exact ⟨hj.localFileInfo, hidle, .inr (.inr rfl), hcopies, hj.heads, fun _ _ _ _ => .inr (.inl rfl)⟩
  | move pc owners m hsame hin =>
    rcases hin with hin | hin <;> (rw [hin] at hsame; rw [← hsame] at hstage; rcases hstage with h | h <;> cases h)
  | init | initThrows | take | empty | putBack | launch | drop | noFile | leave | joined =>
    -- these are before the copy loop
    have hpc : j.pc = _ := ‹_›
    exact hno hpc (by simp [Pc.stage]) (by simp [Pc.stage])

/-- A step of the copy loop keeps that, if its copy is not made in a directory. -/
theorem step_copied {t : TorrentInfo} {l : LocalFileInfo} {disk₁ : Disk} (hl : Laid t l)
    (hnodup : ∀ fileid, (l.paths fileid).Nodup) (hj : Copied l disk₁ j) (ha : a ≠ .start)
    (hinto : j.intoDirectory a = false) (h : step sha1 j a = some j') : Copied l disk₁ j' := by
  have hlocal : j'.jobInfo.localFileInfo = l := (step_advances h).localFileInfo.trans hj.localFileInfo
  have hidle : j'.NoTaskInFlight := by
    refine step_noTaskInFlight hj.idle ?_ h
    rcases hj.place with ⟨todo, hpc⟩ | hpc | hpc <;> (rw [hpc]; rintro ⟨⟩)
  have hcopies := step_copies (hj.localFileInfo.symm ▸ hj.copies) h
  rw [hlocal] at hcopies
  by_cases hrun : ∃ ev, a = .run ev
  · obtain ⟨ev, rfl⟩ := hrun
    exact runStep_copied hl hnodup hj hinto (runStep_cases h) hcopies hidle
  · have hpc := pc_step ha (not_exists.mp hrun) h
    have hdisk := disk_step_of_idle hj.idle (not_exists.mp hrun) h
    refine ⟨hlocal, hidle, ?_, hcopies, ?_, ?_⟩
    · rw [hpc]
      exact hj.place
    · rw [hdisk]
      exact hj.heads
    · rw [hpc, hdisk]
      exact hj.made

/-- What the loop leaves, when it is over: every path of a fileid reads as its first path did. -/
theorem Copied.find?_of_over {l : LocalFileInfo} {disk₁ : Disk} (hj : Copied l disk₁ j)
    (hend : j.pc = .copying [] ∨ j.pc = .ended) {fileid path source : String} (hsource : l.getFile fileid = some source)
    (hpath : path ∈ l.paths fileid) : j.disk.find? path = disk₁.find? source := by
  obtain ⟨targets, hhead⟩ := l.files_head fileid source hsource
  rw [LocalFileInfo.paths, hhead] at hpath
  rcases List.mem_cons.mp hpath with rfl | htarget
  · exact hj.heads fileid path targets hhead
  · have hmem : (fileid, source, path) ∈ sameFileCopies l :=
      List.mem_flatMap.mpr ⟨_, SortedMap.find?_eq_some.mp hhead, List.mem_map.mpr ⟨path, htarget, rfl⟩⟩
    rcases hj.made fileid source path hmem with ⟨todo, hpc, htodo⟩ | hpc | hdone
    · rcases hend with hend | hend <;> (rw [hend] at hpc; cases hpc)
      cases htodo
    · rcases hend with hend | hend <;> (rw [hend] at hpc; cases hpc)
    · exact hdone

/-! ### The whole job -/

section ofTorrent

variable {torrent : Torrent} {topPath : String} {needs : List FileIdentityInfo} {uploadTotal downloadTotal : UInt64}
  {fault : String → Option LocalFileInfo.Fault} {m : LocalSockManager} {disk₀ : Disk} {as : List Action}

/-- A needed file's path is one of those of its fileid. -/
theorem localPath_mem_paths {file : Torrent.File} (hfile : file ∈ JobInfo.neededFiles torrent needs) :
    JobInfo.localPath topPath file ∈
      (JobInfo.new torrent topPath needs uploadTotal downloadTotal fault disk₀).1.localFileInfo.paths file.checkSum := by
  rw [JobInfo.paths_new]
  exact List.mem_map.mpr ⟨file, List.mem_filter.mpr ⟨hfile, decide_eq_true rfl⟩, rfl⟩

/-- A new job is tidy, and so is the job after a run that makes no copy in a directory. -/
theorem run_tidy (hrun : exec (step sha1) (ofTorrent torrent topPath needs uploadTotal downloadTotal fault m disk₀) as =
    some j) (hinto : Always (step sha1) (fun j a => j.intoDirectory a = false)
      (ofTorrent torrent topPath needs uploadTotal downloadTotal fault m disk₀) as) : Tidy disk₀ j := by
  refine exec_invariant_of_always step_tidy hinto hrun ⟨by rintro task ⟨⟩, by rintro todo ⟨⟩, fun path hpath => ?_⟩
  apply JobInfo.find?_disk_new_of_not_mem
  intro hmem
  obtain ⟨file, hfile, rfl⟩ := List.mem_map.mp hmem
  exact hpath file.checkSum (localPath_mem_paths hfile)

/-- A run of a new job only adds to what it knows. -/
theorem run_advances
    (hrun : exec (step sha1) (ofTorrent torrent topPath needs uploadTotal downloadTotal fault m disk₀) as =
    some j) : (JobInfo.new torrent topPath needs uploadTotal downloadTotal fault disk₀).1.Advances j.jobInfo :=
  @exec_invariant _ _ _ (fun k : Job =>
    (JobInfo.new torrent topPath needs uploadTotal downloadTotal fault disk₀).1.Advances k.jobInfo)
    (fun hk hstep => hk.trans (step_advances hstep)) _ _ _ hrun (.refl _)

/-- The copy loop begins with its invariant. -/
theorem copied_of_joined
    (hrun : exec (step sha1) (ofTorrent torrent topPath needs uploadTotal downloadTotal fault m disk₀)
    as = some j) (hjoined : j.pc = .copying (sameFileCopies j.jobInfo.localFileInfo)) :
    Copied j.jobInfo.localFileInfo j.disk j := by
  refine ⟨rfl, (run_idle hrun).2 (by rw [hjoined]; rfl), .inl ⟨_, hjoined⟩, ?_, fun _ _ _ _ => rfl, ?_⟩
  · rintro todo htodo copy hcopy
    cases hjoined.symm.trans htodo
    exact isCopy_of_mem_sameFileCopies hcopy
  · intro fileid source target hmem
    exact .inl ⟨_, hjoined, hmem⟩

/-- What a job leaves on the disk, if no copy is made in a directory. -/
theorem files_of_run {bs : List Action} (htiled : ∀ file ∈ torrent.file, file.UniformlyTiled)
    (hsame : ∀ file ∈ torrent.file, ∀ file' ∈ torrent.file, file.checkSum = file'.checkSum → file.chunk = file'.chunk)
    (hnodup : ((JobInfo.neededFiles torrent needs).map (JobInfo.localPath topPath)).Nodup)
    (hrun : exec (step sha1) (ofTorrent torrent topPath needs uploadTotal downloadTotal fault m disk₀) as = some j)
    (hjoined : j.pc = .copying (sameFileCopies j.jobInfo.localFileInfo))
    (hset : ∀ fileid ∈ j.jobInfo.fileidlist, ∀ pos, j.jobInfo.downloadInfo.bit fileid pos ≠ some false)
    (hbacked : ∀ fileid pos, j.jobInfo.downloadInfo.bit fileid pos = some true →
      BackedAt sha1 j.jobInfo.torrentInfo j.jobInfo.localFileInfo j.disk fileid pos)
    (hrest : exec (step sha1) j bs = some j') (hstart : ∀ b ∈ bs, b ≠ .start)
    (hend : j'.pc = .copying [] ∨ j'.pc = .ended)
    (hinto : Always (step sha1) (fun j a => j.intoDirectory a = false) j bs) :
    ∀ file ∈ JobInfo.neededFiles torrent needs, ∃ content,
      j'.disk.find? (JobInfo.localPath topPath file) = some content ∧ Matches sha1 file content := by
  have hadv := run_advances hrun
  have htorrent : j.jobInfo.torrentInfo = ⟨torrent⟩ := hadv.torrentInfo.trans (JobInfo.torrentInfo_new _ _ _ _ _ _ _)
  have hlaid : Laid ⟨torrent⟩ j.jobInfo.localFileInfo := hadv.localFileInfo ▸ laid_new htiled hnodup
  have hdistinct : ∀ fileid, (j.jobInfo.localFileInfo.paths fileid).Nodup :=
    hadv.localFileInfo ▸ nodup_paths_new hnodup
  have hcopied : Copied j.jobInfo.localFileInfo j.disk j' :=
    exec_invariant_of_always (fun hk hcond => step_copied hlaid hdistinct hk hcond.1 hcond.2)
      ((always_of_forall_mem hstart j).and hinto) hrest (copied_of_joined hrun hjoined)
  intro file hfile
  -- every chunk of the file is backed, in the file of its fileid
  have hchunk : ∀ c < file.chunkCount, BackedAt sha1 ⟨torrent⟩ j.jobInfo.localFileInfo j.disk file.checkSum c := by
    intro c hc
    have hid : file.checkSum ∈ j.jobInfo.fileidlist := by
      rw [hadv.fileidlist, JobInfo.fileidlist_new]
      exact List.mem_map.mpr ⟨file, hfile, rfl⟩
    have hclear := @JobInfo.bit_new torrent topPath needs uploadTotal downloadTotal fault disk₀ hsame file hfile c hc
    obtain ⟨b, hbit⟩ := Option.isSome_iff_exists.mp (hadv.bit_isSome (by rw [hclear]; rfl))
    have hb : b = true := by
      cases b with
      | true => rfl
      | false => exact absurd hbit (hset _ hid c)
    exact htorrent ▸ hbacked _ c (hb ▸ hbit)
  have hmem : file ∈ torrent.file := (List.mem_filter.mp hfile).1
  have hzero : 0 < file.chunkCount := by
    rw [← file.length_sizes]
    exact (htiled file hmem).1.length_pos
  obtain ⟨-, source, content, -, hsource, hcontent, -⟩ := hchunk 0 hzero
  have hpath : JobInfo.localPath topPath file ∈ j.jobInfo.localFileInfo.paths file.checkSum :=
    hadv.localFileInfo ▸ localPath_mem_paths hfile
  refine ⟨content, (hcopied.find?_of_over hend hsource hpath).trans hcontent, fun c hc => ?_⟩
  obtain ⟨file', source', content', hfile', hsource', hcontent', hsum⟩ := hchunk c hc
  obtain rfl := Option.some.inj (hsource.symm.trans hsource')
  obtain rfl := Option.some.inj (hcontent.symm.trans hcontent')
  obtain ⟨hmem', hid'⟩ := TorrentInfo.getOneFileOfSameFileid_mem hfile'
  obtain ⟨hoffset, hsize, hdigest⟩ := Torrent.File.chunks_congr (hsame file' hmem' file hmem hid') c
  rw [← hoffset, ← hsize, ← hdigest]
  exact hsum

/-- **What a job leaves on the disk.** Let the files of the torrent be uniformly tiled, let files
of the same checksum have the same chunks, and let the paths of the needed files be distinct.
Suppose the run of a new job gets past `joinAll`, no bit of a needed bitmap being clear then,
and every bit that is set being backed by the bytes of its fileid's file, and that the copies have
been made. Then every needed file has at its path a content all of whose chunks have the recorded
digests at their offsets, and a path that is not in `same_files_` is as it was before the job
was made, if and only if no copy has been made in a directory. Nothing is asked of the calls of
`add_file`: where one has failed to make the file, the bits of its fileid are not backed. -/
theorem whole_job_iff {bs : List Action} (htiled : ∀ file ∈ torrent.file, file.UniformlyTiled)
    (hsame : ∀ file ∈ torrent.file, ∀ file' ∈ torrent.file, file.checkSum = file'.checkSum → file.chunk = file'.chunk)
    (hnodup : ((JobInfo.neededFiles torrent needs).map (JobInfo.localPath topPath)).Nodup)
    (hrun : exec (step sha1) (ofTorrent torrent topPath needs uploadTotal downloadTotal fault m disk₀) as = some j)
    (hjoined : j.pc = .copying (sameFileCopies j.jobInfo.localFileInfo))
    (hset : ∀ fileid ∈ j.jobInfo.fileidlist, ∀ pos, j.jobInfo.downloadInfo.bit fileid pos ≠ some false)
    (hbacked : ∀ fileid pos, j.jobInfo.downloadInfo.bit fileid pos = some true →
      BackedAt sha1 j.jobInfo.torrentInfo j.jobInfo.localFileInfo j.disk fileid pos)
    (hrest : exec (step sha1) j bs = some j') (hstart : ∀ b ∈ bs, b ≠ .start)
    (hend : j'.pc = .copying [] ∨ j'.pc = .ended) :
    Always (step sha1) (fun j a => j.intoDirectory a = false)
        (ofTorrent torrent topPath needs uploadTotal downloadTotal fault m disk₀) (as ++ bs) ↔
      (∀ file ∈ JobInfo.neededFiles torrent needs, ∃ content,
        j'.disk.find? (JobInfo.localPath topPath file) = some content ∧ Matches sha1 file content) ∧
      ∀ path, (∀ fileid, path ∉ j'.jobInfo.localFileInfo.paths fileid) → j'.disk.find? path = disk₀.find? path := by
  have hall := exec_append_eq_some.mpr ⟨j, hrun, hrest⟩
  constructor
  · intro hinto
    exact ⟨files_of_run htiled hsame hnodup hrun hjoined hset hbacked hrest hstart hend (hinto.right hrun),
      (run_tidy hall hinto).disk⟩
  · rintro ⟨hfiles, -⟩
    refine always_of_found (fun _ => .inl rfl) (by rintro todo ⟨⟩) hall ?_ fun fileid path hpath => ?_
    · rcases hend with hend | hend <;> (rw [hend]; rintro ⟨⟩)
    · change path ∈
        (JobInfo.new torrent topPath needs uploadTotal downloadTotal fault disk₀).1.localFileInfo.paths fileid at hpath
      rw [JobInfo.paths_new] at hpath
      obtain ⟨file, hfile, rfl⟩ := List.mem_map.mp hpath
      obtain ⟨content, hcontent, -⟩ := hfiles file (List.mem_filter.mp hfile).1
      rw [hcontent]
      rfl

end ofTorrent

theorem same_duplicateTorrent : ∀ file ∈ duplicateTorrent.file, ∀ file' ∈ duplicateTorrent.file,
    file.checkSum = file'.checkSum → file.chunk = file'.chunk := by decide

/-- The copy is made, and the file of somebody else is as it was. -/
theorem whole_job_duplicateJob : ∃ j j' : Job,
    exec (step oneChunkSha1) (duplicateJob ((∅ : Disk).insert "/e" [1])) duplicateRun = some j ∧
    exec (step oneChunkSha1) j [.run .go, .run .go] = some j' ∧
    (∃ content, j'.disk.find? "/d/b" = some content ∧ Matches oneChunkSha1 duplicateTorrent.file[1] content) ∧
    j'.disk.find? "/e" = some [1] := by
  obtain ⟨j, j', hrun, hrest, hjoined, hend, hbit, hpaths, hchunk⟩ : ∃ j j' : Job,
      exec (step oneChunkSha1) (duplicateJob ((∅ : Disk).insert "/e" [1])) duplicateRun = some j ∧
      exec (step oneChunkSha1) j [.run .go, .run .go] = some j' ∧
      j.pc = .copying (sameFileCopies j.jobInfo.localFileInfo) ∧ j'.pc = .ended ∧
      (∀ fileid, j.jobInfo.downloadInfo.bitmapMap.find? fileid = if "f" = fileid then some (some [true]) else none) ∧
      (∀ fileid, j'.jobInfo.localFileInfo.paths fileid = if "f" = fileid then ["/d/a", "/d/b"] else []) ∧
      BackedAt oneChunkSha1 j.jobInfo.torrentInfo j.jobInfo.localFileInfo j.disk "f" 0 := by
    refine ⟨_, _, rfl, rfl, rfl, rfl, fun _ => rfl, fun fileid => ?_, _, _, _, rfl, rfl, rfl, rfl⟩
    show (if "f" = fileid then some ["/d/a", "/d/b"] else none).getD [] = _
    split_ifs <;> rfl
  have hinto : Always (step oneChunkSha1) (fun j a => j.intoDirectory a = false)
      (duplicateJob ((∅ : Disk).insert "/e" [1])) (duplicateRun ++ [.run .go, .run .go]) := by decide +kernel
  obtain ⟨hfiles, hother⟩ := (whole_job_iff tiled_duplicateTorrent same_duplicateTorrent (by decide) hrun hjoined
    (fun fileid _ => DownloadInfo.bit_ne_false_of_one hbit fileid)
    (fun fileid pos hset => by obtain ⟨rfl, rfl⟩ := DownloadInfo.eq_of_bit_of_one hbit hset; exact hchunk)
    hrest (by simp) (.inr hend)).mp hinto
  have hb : JobInfo.localPath "/d/" duplicateTorrent.file[1] = "/d/b" := rfl
  refine ⟨j, j', hrun, hrest, hb ▸ hfiles duplicateTorrent.file[1] (by decide), (hother "/e" ?_).trans rfl⟩
  intro fileid
  rw [hpaths]
  split_ifs <;> simp

/-- **A copy in a directory.** At the path of the second file there is a directory, with a file of somebody else.
The copy is made in it, and so over no path of the torrent, and the second file holds nothing. -/
theorem copied_into_directory : ∃ j j' : Job,
    exec (step oneChunkSha1) (duplicateJob ((∅ : Disk).insert "/d/b/x" [1])) duplicateRun = some j ∧
    exec (step oneChunkSha1) j [.run .go, .run .go] = some j' ∧
    j.pc = .copying (sameFileCopies j.jobInfo.localFileInfo) ∧ j'.pc = .ended ∧
    (∀ fileid pos, j.jobInfo.downloadInfo.bit fileid pos ≠ some false) ∧
    (∀ fileid pos, j.jobInfo.downloadInfo.bit fileid pos = some true →
      BackedAt oneChunkSha1 j.jobInfo.torrentInfo j.jobInfo.localFileInfo j.disk fileid pos) ∧
    JobInfo.localPath "/d/" duplicateTorrent.file[1] = "/d/b" ∧ j'.disk.find? "/d/b" = none ∧
    (∀ fileid, "/d/b/a" ∉ j'.jobInfo.localFileInfo.paths fileid) ∧ j'.disk.find? "/d/b/a" = some [7] := by
  obtain ⟨j, j', hrun, hrest, hjoined, hend, hbit, hpaths, hchunk, hb, ha⟩ : ∃ j j' : Job,
      exec (step oneChunkSha1) (duplicateJob ((∅ : Disk).insert "/d/b/x" [1])) duplicateRun = some j ∧
      exec (step oneChunkSha1) j [.run .go, .run .go] = some j' ∧
      j.pc = .copying (sameFileCopies j.jobInfo.localFileInfo) ∧ j'.pc = .ended ∧
      (∀ fileid, j.jobInfo.downloadInfo.bitmapMap.find? fileid = if "f" = fileid then some (some [true]) else none) ∧
      (∀ fileid, j'.jobInfo.localFileInfo.paths fileid = if "f" = fileid then ["/d/a", "/d/b"] else []) ∧
      BackedAt oneChunkSha1 j.jobInfo.torrentInfo j.jobInfo.localFileInfo j.disk "f" 0 ∧
      j'.disk.find? "/d/b" = none ∧ j'.disk.find? "/d/b/a" = some [7] := by
    refine ⟨_, _, rfl, rfl, rfl, rfl, fun _ => rfl, fun fileid => ?_, ⟨_, _, _, rfl, rfl, rfl, rfl⟩, rfl, rfl⟩
    show (if "f" = fileid then some ["/d/a", "/d/b"] else none).getD [] = _
    split_ifs <;> rfl
  refine ⟨j, j', hrun, hrest, hjoined, hend, DownloadInfo.bit_ne_false_of_one hbit, fun fileid pos hset => ?_, rfl, hb,
    fun fileid => ?_, ha⟩
  · obtain ⟨rfl, rfl⟩ := DownloadInfo.eq_of_bit_of_one hbit hset
    exact hchunk
  · rw [hpaths]
    split_ifs <;> simp

end Job

end CoolDown
