import CoolDown.Client.JobFiles
import CoolDown.Client.WriteBounds

/-!
# A job that has all its chunks

When `run` has returned and no bit of the job is clear, its files are what the torrent says.
That is so whatever has happened before: the job may have been stopped, paused and started
again, tasks may have failed, and peers may have sent anything.

## The model

`Whole` is what holds of a job in every state, if no copy is made in a directory. To what is known of
its bits (`Backing`) it adds that the files have the sizes of the torrent, and that after `joinAll` every copy is made or
still to be made (`Copied`). A start begins another round of `run`, with the copies all over.

## What is proved

* `find?_disk_new_needed`: the constructor leaves a file of the right size for each fileid.
* `step_whole`: every other step keeps `Whole`.
* `run_isSome_bit`: the bits that there are in the end are those there were.
* `Whole.matches`: what a job leaves at the path of a file that it has.
-/

namespace CoolDown

open Library ChunkSelector

namespace JobInfo

variable {torrent : Torrent} {topPath : String} {needs : List FileIdentityInfo} {uploadTotal downloadTotal : UInt64}
  {disk : Disk}

/-- When nothing fails, the file of a fileid is on the disk. -/
theorem isSome_find?_disk_new {fileid path : String}
    (h : (new torrent topPath needs uploadTotal downloadTotal (fun _ => none) disk).1.localFileInfo.getFile fileid = some path) :
    ((new torrent topPath needs uploadTotal downloadTotal (fun _ => none) disk).2.find? path).isSome := by
  revert h
  unfold new
  refine @List.foldlRecOn _ _ (fun s : JobInfo × Disk =>
    s.1.localFileInfo.getFile fileid = some path → (s.2.find? path).isSome) _ _ _ (by rintro ⟨⟩) ?_
  intro s ih file _ hfile
  unfold addNeeded at hfile ⊢
  split_ifs at hfile ⊢ with hneeded
  · dsimp only at hfile ⊢
    rw [getFile_addFile] at hfile
    split_ifs at hfile with hfirst
    · -- the file has just been made, or was there
      obtain ⟨-, hpaths⟩ := hfirst
      obtain rfl := Option.some.inj hfile
      cases hfind : s.2.find? (s.1.localFileInfo.topPath ++ file.relativePath ++ file.filename) with
      | some content => rw [LocalFileInfo.find?_addFile hfind]; rfl
      | none => simp [find?_addFile_self hfind, hpaths]
    · obtain ⟨content, hcontent⟩ := Option.isSome_iff_exists.mp (ih hfile)
      rw [LocalFileInfo.find?_addFile hcontent]
      rfl
  · exact ih hfile

/-- When nothing fails, a file that is there was there before, or has been made for a needed file. -/
theorem find?_disk_new_cases {path : String} {content : Bytes}
    (h : (new torrent topPath needs uploadTotal downloadTotal (fun _ => none) disk).2.find? path = some content) :
    disk.find? path = some content ∨ ∃ file ∈ neededFiles torrent needs,
      localPath topPath file = path ∧ content = List.replicate file.size.toInt.toNat 0 := by
  revert h
  unfold new
  refine (@List.foldlRecOn _ _ (fun s : JobInfo × Disk => s.1.localFileInfo.topPath = topPath ∧
    (s.2.find? path = some content → disk.find? path = some content ∨ ∃ file ∈ neededFiles torrent needs,
      localPath topPath file = path ∧ content = List.replicate file.size.toInt.toNat 0)) _ _ _ ⟨rfl, .inl⟩ ?_).2
  rintro s ⟨htop, ih⟩ file hfile
  unfold addNeeded
  split_ifs with hneeded
  · refine ⟨(LocalFileInfo.topPath_addFile _ _ _ _ _ _ _).trans htop, fun h => ?_⟩
    by_cases hpath : s.1.localFileInfo.topPath ++ file.relativePath ++ file.filename = path
    · subst hpath
      cases hfind : s.2.find? (s.1.localFileInfo.topPath ++ file.relativePath ++ file.filename) with
      | some content' =>
        rw [LocalFileInfo.find?_addFile hfind] at h
        exact ih (hfind.trans h)
      | none =>
        simp only [find?_addFile_self hfind, reduceCtorEq, or_false, if_false] at h
        split_ifs at h
        exact .inr ⟨file, List.mem_filter.mpr ⟨hfile, decide_eq_true hneeded⟩, by rw [localPath, htop], (Option.some.inj h).symm⟩
    · rw [LocalFileInfo.find?_addFile_of_ne hpath] at h
      exact ih h
  · exact ⟨htop, ih⟩

/-- **The sizes of a new job's files.** Where the paths are distinct and nothing fails, the file that a fileid is
downloaded to has the size that the torrent gives it, if one that was there before has. -/
theorem find?_disk_new_needed {fileid path : String}
    (hnodup : ((neededFiles torrent needs).map (localPath topPath)).Nodup)
    (hthere : ∀ file ∈ neededFiles torrent needs, ∀ content, disk.find? (localPath topPath file) = some content →
      (content.length : ℤ) = file.size.toInt) (hpos : ∀ file ∈ neededFiles torrent needs, 0 ≤ file.size.toInt)
    (h : (new torrent topPath needs uploadTotal downloadTotal (fun _ => none) disk).1.localFileInfo.getFile fileid = some path) :
    ∃ file content, (neededFilesOf torrent needs fileid).head? = some file ∧
      (new torrent topPath needs uploadTotal downloadTotal (fun _ => none) disk).2.find? path = some content ∧
        (content.length : ℤ) = file.size.toInt := by
  obtain ⟨file, hhead, rfl⟩ := Job.head?_neededFilesOf h
  have hfile : file ∈ neededFiles torrent needs := List.mem_of_mem_filter (List.mem_of_head? hhead)
  obtain ⟨content, hcontent⟩ := Option.isSome_iff_exists.mp (isSome_find?_disk_new h)
  refine ⟨file, content, hhead, hcontent, ?_⟩
  rcases find?_disk_new_cases hcontent with hbefore | ⟨file', hfile', hpath, rfl⟩
  · exact hthere file hfile content hbefore
  · obtain rfl := List.inj_on_of_nodup_map hnodup hfile' hfile hpath
    rw [List.length_replicate, Int.toNat_of_nonneg (hpos file' hfile')]

end JobInfo

namespace Job

variable {sha1 : Bytes → String} {t : TorrentInfo} {l : LocalFileInfo} {disk : Disk} {j j' : Job} {a : Action}

/-! ### What holds all along -/

/-- The local files have the sizes that the torrent gives them. -/
def Sized (t : TorrentInfo) (l : LocalFileInfo) (disk : Disk) : Prop :=
  ∀ fileid file path, t.getOneFileOfSameFileid fileid = .ok file → l.getFile fileid = some path →
    ∃ content, disk.find? path = some content ∧ (content.length : ℤ) = file.size.toInt

variable (sha1 t l) in
/-- What holds of a job in every state. -/
structure Whole (j : Job) : Prop where
  backing : Backing sha1 j
  torrentInfo : j.jobInfo.torrentInfo = t
  localFileInfo : j.jobInfo.localFileInfo = l
  distinct : ∀ fileid, (l.paths fileid).Nodup
  sized : Sized t l j.disk
  running : j.isRunning = false → j.pc = .notStarted ∨ j.pc = .ended
  idle : j.pc.stage.idle → j.NoTaskInFlight
  /-- The copies of this round of `run`. -/
  copied : j.pc.stage = .after → ∃ disk₁, Copied l disk₁ j

/-- A copy that is not made in a directory is made over no file that chunks are downloaded to. -/
theorem Whole.sparesFiles (hj : Whole sha1 t l j) (hinto : j.intoDirectory a = false) : j.SparesFiles a :=
  sparesFiles_of_not_intoDirectory hj.backing.laid (hj.localFileInfo ▸ hj.distinct) hj.backing.copies hinto

/-- A step leaves the sizes of the files that chunks are downloaded to. -/
theorem Whole.step_sized (hj : Whole sha1 t l j) (hinto : j.intoDirectory a = false) (h : step sha1 j a = some j') :
    Sized t l j'.disk := by
  intro fileid file path hfile hpath
  obtain ⟨content, hcontent, hsize⟩ := hj.sized fileid file path hfile hpath
  by_cases hcopy : ∃ copy todo, j.pc = .copying (copy :: todo)
  · -- a copy is made to another path, and no task is in flight
    obtain ⟨copy, todo, hpc⟩ := hcopy
    refine ⟨content, ?_, hsize⟩
    by_cases hrun : ∃ ev, a = .run ev
    · obtain ⟨ev, rfl⟩ := hrun
      cases runStep_cases h with
      | copied fileid' source target todo' disk hpc' hev hdisk =>
        obtain ⟨content', -, -, rfl⟩ := Disk.copyTo_eq_some.mp hdisk
        have hne := hj.sparesFiles hinto _ (copiesTo_of_copying hpc' hev) fileid
        rw [hj.localFileInfo, hpath] at hne
        rw [SortedMap.find?_insert_of_ne _ fun heq => hne (congrArg some heq.symm), hcontent]
      | move | init | initThrows | take | empty | putBack | launch | drop | noFile | leave | joined | ended | abort =>
        exact hcontent
    · rw [disk_step_of_idle (hj.idle (by rw [hpc]; rfl)) (not_exists.mp hrun) h, hcontent]
  · have hlength := length_step (fun copy todo hpc => hcopy ⟨copy, todo, hpc⟩) h path
    rw [hcontent, Option.map_some] at hlength
    obtain ⟨content', hcontent', hlen⟩ := Option.map_eq_some_iff.mp hlength
    exact ⟨content', hcontent', by rw [hlen, hsize]⟩

/-- The copies begin when `joinAll` returns, and go on. -/
theorem Whole.step_copied (hj : Whole sha1 t l j) (hbacking : Backing sha1 j') (hlocal : j'.jobInfo.localFileInfo = l)
    (hidle : j'.pc.stage.idle → j'.NoTaskInFlight) (hinto : j.intoDirectory a = false) (h : step sha1 j a = some j')
    (hafter : j'.pc.stage = .after) : ∃ disk₁, Copied l disk₁ j' := by
  have hstart : a ≠ .start := by
    rintro rfl
    obtain ⟨-, rfl⟩ := step_start h
    cases hafter
  by_cases hstage : j.pc.stage = .after
  · obtain ⟨disk₁, hcopied⟩ := hj.copied hstage
    have hlaid : Laid t l := hj.torrentInfo ▸ hj.localFileInfo ▸ hj.backing.laid
    exact ⟨disk₁, Job.step_copied hlaid hj.distinct hcopied hstart hinto h⟩
  · obtain ⟨ev, rfl⟩ : ∃ ev, a = .run ev := by
      by_contra hrun
      rw [pc_step hstart (not_exists.mp hrun) h] at hafter
      exact hstage hafter
    cases runStep_cases h with
    | joined hpc hused =>
      refine ⟨j.disk, hlocal, hidle rfl, .inl ⟨_, rfl⟩, hlocal ▸ hbacking.copies, fun _ _ _ _ => rfl, ?_⟩
      intro fileid source target hmem
      exact .inl ⟨_, rfl, hj.localFileInfo ▸ hmem⟩
    | move pc owners m hsame hin => exact absurd (hsame.symm.trans hafter) hstage
    | take i chunk pc hpc hi hheld hloop => rw [hloop] at hafter; cases hafter
    | copied fileid source target todo disk hpc => exact absurd (by rw [hpc]; rfl) hstage
    | ended hpc => exact absurd (by rw [hpc]; rfl) hstage
    | init | initThrows | empty | putBack | launch | drop | noFile | leave | abort => cases hafter

/-- **Every step keeps that**, if it makes no copy in a directory. -/
theorem step_whole (hj : Whole sha1 t l j) (hinto : j.intoDirectory a = false) (h : step sha1 j a = some j') :
    Whole sha1 t l j' where
  backing := step_backing hj.backing (hj.sparesFiles hinto) h
  torrentInfo := (step_advances h).torrentInfo.trans hj.torrentInfo
  localFileInfo := (step_advances h).localFileInfo.trans hj.localFileInfo
  distinct := hj.distinct
  sized := hj.step_sized hinto h
  running := step_running hj.running h
  idle := step_idle hj.idle hj.running h
  copied := hj.step_copied (step_backing hj.backing (hj.sparesFiles hinto) h)
    ((step_advances h).localFileInfo.trans hj.localFileInfo) (step_idle hj.idle hj.running h) hinto h

/-- What holds depends only on this. -/
theorem Whole.congr {k : Job} (hj : Whole sha1 t l j) (hbacking : Backing sha1 k) (ht : k.jobInfo.torrentInfo = t)
    (hl : k.jobInfo.localFileInfo = l) (hdisk : k.disk = j.disk) (htasks : k.tasks = j.tasks)
    (hrunning : k.isRunning = false → k.pc = .notStarted ∨ k.pc = .ended) (hstage : k.pc.stage = j.pc.stage ∨ k.pc = .aborted)
    (hafter : k.pc.stage = .after → k.pc = j.pc) : Whole sha1 t l k where
  backing := hbacking
  torrentInfo := ht
  localFileInfo := hl
  distinct := hj.distinct
  sized := by rw [hdisk]; exact hj.sized
  running := hrunning
  idle := by
    intro hidle task ht
    obtain hstage | hpc := hstage
    · exact hj.idle (hstage ▸ hidle) task (htasks ▸ ht)
    · rw [hpc] at hidle
      cases hidle
  copied := by
    intro hstage
    have hpc := hafter hstage
    obtain ⟨disk₁, hcopied⟩ := hj.copied (hpc ▸ hstage)
    refine ⟨disk₁, hl, fun task ht => hcopied.idle task (htasks ▸ ht), hpc ▸ hcopied.place, hpc ▸ hcopied.copies, ?_, ?_⟩
    · rw [hdisk]
      exact hcopied.heads
    · rw [hdisk, hpc]
      exact hcopied.made

/-! ### The bits that there are -/

/-- Only a bit that is there is set. -/
theorem isSome_bit_of_reportSuccessChunk {info : JobInfo} {chunkNum : ℕ} {fileid : String}
    (h : (reportSuccessChunk info chunkNum fileid).2 = .ok ()) : (info.downloadInfo.bit fileid chunkNum).isSome := by
  unfold reportSuccessChunk at h
  rcases hb : info.downloadInfo.bitmapAt fileid with ⟨bitmap, d⟩
  rw [hb] at h
  rw [DownloadInfo.bit_of_bitmapAt hb]
  cases bitmap with
  | none => cases h
  | some bits =>
    by_cases hlt : chunkNum < bits.length
    · simp [hlt]
    · simp [Bitmap.setBit, hlt] at h

/-- A step makes no bit and takes none away. -/
theorem step_isSome_bit (h : step sha1 j a = some j') (fileid : String) (pos : ℕ) :
    (j'.jobInfo.downloadInfo.bit fileid pos).isSome = (j.jobInfo.downloadInfo.bit fileid pos).isSome := by
  cases a with
  | start =>
    obtain ⟨-, rfl⟩ := step_start h
    rfl
  | run ev =>
    cases runStep_cases h with
    | init info queue hpc hinit =>
      obtain ⟨rfl, -⟩ := initFiles_eq_ok hinit
      rfl
    | initThrows info hpc hinfo => exact congrArg Option.isSome (hinfo.2 fileid pos)
    | move | take | empty | putBack | launch | drop | noFile | leave | joined | copied | ended | abort => rfl
  | task i ev =>
    obtain ⟨t, phase, d, disk, hi, hrun, rfl⟩ := step_task h
    obtain ⟨-, ⟨n, rfl⟩, -⟩ := DownloadTask.runTask_frame hrun
    rfl
  | onFailed i =>
    obtain ⟨t, hi, hphase, rfl⟩ := step_onFailed h
    rcases j.onFailed_cases i t with ⟨_, _, heq⟩ | ⟨_, heq⟩ <;> rw [heq]
  | onFinished i =>
    obtain ⟨t, hi, hphase, rfl⟩ := step_onFinished h
    have hbit := (reportSuccessChunk_spec j.jobInfo t.chunkPos t.fileid).2 fileid pos
    have hsome : ((reportSuccessChunk j.jobInfo t.chunkPos t.fileid).1.downloadInfo.bit fileid pos).isSome =
        (j.jobInfo.downloadInfo.bit fileid pos).isSome := by
      rw [hbit]
      split_ifs with hset
      · obtain ⟨rfl, rfl⟩ := Prod.mk.inj hset.2
        rw [isSome_bit_of_reportSuccessChunk hset.1, Option.isSome_some]
      · rfl
    rcases j.onFinished_cases i t with ⟨-, m, phase, hp, heq⟩ | ⟨-, info, m, phase, hr, hp, heq⟩ | ⟨-, info, e, hr, heq⟩
    · rw [heq]
    · rw [hr] at hsome
      rw [heq]
      exact hsome
    · rw [hr] at hsome
      rw [heq]
      exact hsome
  | env ev =>
    cases h
    simp [DownloadInfo.bit]

/-- Nor does a run. -/
theorem run_isSome_bit {as : List Action} (h : exec (step sha1) j as = some j') (fileid : String) (pos : ℕ) :
    (j'.jobInfo.downloadInfo.bit fileid pos).isSome = (j.jobInfo.downloadInfo.bit fileid pos).isSome :=
  @exec_invariant _ _ _ (fun k : Job => (k.jobInfo.downloadInfo.bit fileid pos).isSome =
    (j.jobInfo.downloadInfo.bit fileid pos).isSome) (fun hk hstep => (step_isSome_bit hstep fileid pos).trans hk) _ _ _ h rfl

/-! ### A job with all its chunks -/

/-- A tiled file has a size. -/
theorem size_pos_of_tiled {file : Torrent.File} (h : file.UniformlyTiled) : 0 < file.size.toInt := by
  have hcount : 0 < file.chunkCount := file.length_sizes ▸ h.1.length_pos
  have hle := Torrent.File.mul_add_chunkSize_le h hcount
  have hpos := Torrent.File.chunkSize_pos h hcount
  rw [Nat.cast_zero, Int.zero_mul, Int.zero_add] at hle
  exact hpos.trans_le hle

/-- Tiled files with the same chunks have the same size. -/
theorem size_eq_of_chunk_eq {file file' : Torrent.File} (h : file.UniformlyTiled) (h' : file'.UniformlyTiled)
    (hchunks : file.chunk = file'.chunk) : file.size.toInt = file'.size.toInt := by
  rw [← h.2, ← h'.2, Torrent.File.sizes, hchunks, Torrent.File.sizes]

/-- **What a job leaves of a file that it has**, at any of its paths. -/
theorem Whole.find?_matches (hsame : ∀ file ∈ t.torrent.file, ∀ file' ∈ t.torrent.file, file.checkSum = file'.checkSum →
      file.chunk = file'.chunk)
    (hj : Whole sha1 t l j) (hended : j.pc = .ended) {file : Torrent.File} (hmem : file ∈ t.torrent.file) {path : String}
    (hpath : path ∈ l.paths file.checkSum)
    (hbits : ∀ c < file.chunkCount, j.jobInfo.downloadInfo.bit file.checkSum c = some true) :
    ∃ content, j.disk.find? path = some content ∧ (content.length : ℤ) = file.size.toInt ∧ Matches sha1 file content := by
  have htiled : ∀ file ∈ t.torrent.file, file.UniformlyTiled := hj.torrentInfo ▸ hj.backing.laid.tiled
  have hchunk : ∀ c < file.chunkCount, BackedAt sha1 t l j.disk file.checkSum c :=
    fun c hc => hj.torrentInfo ▸ hj.localFileInfo ▸ hj.backing.bits _ c (hbits c hc)
  obtain ⟨-, source, -, -, hsource, -⟩ := hchunk 0 (file.length_sizes ▸ (htiled file hmem).1.length_pos)
  -- the path reads as that of the fileid
  obtain ⟨disk₁, hcopied⟩ := hj.copied (by rw [hended]; rfl)
  have hfind := hcopied.find?_of_over (.inr hended) hsource hpath
  obtain ⟨targets, hhead⟩ := LocalFileInfo.files_head _ _ _ hsource
  rw [← hcopied.heads _ _ _ hhead] at hfind
  obtain ⟨first, hfirst⟩ := TorrentInfo.exists_getOneFileOfSameFileid (t := t) hmem
  obtain ⟨hmem', hid'⟩ := TorrentInfo.getOneFileOfSameFileid_mem hfirst
  have hchunks := hsame first hmem' file hmem hid'
  obtain ⟨content, hcontent, hsize⟩ := hj.sized _ first source hfirst hsource
  refine ⟨content, hfind.trans hcontent, hsize.trans (size_eq_of_chunk_eq (htiled first hmem') (htiled file hmem) hchunks),
    fun c hc => ?_⟩
  obtain ⟨first', source', content', hfirst', hsource', hcontent', hsum⟩ := hchunk c hc
  obtain rfl := Except.ok.inj (hfirst.symm.trans hfirst')
  obtain rfl := Option.some.inj (hsource.symm.trans hsource')
  obtain rfl := Option.some.inj (hcontent.symm.trans hcontent')
  obtain ⟨hoffset, hlen, hdigest⟩ := Torrent.File.chunks_congr hchunks c
  rw [← hoffset, ← hlen, ← hdigest]
  exact hsum

/-- What holds is about the files of the job only, and not about the sockets. -/
theorem Whole.of_disk (hj : Whole sha1 t l j) (m : LocalSockManager)
    (hdisk : ∀ fileid, ∀ path ∈ l.paths fileid, disk.find? path = j.disk.find? path) :
    Whole sha1 t l { j with sockManager := m, disk := disk } := by
  have hfile : ∀ {fileid path}, l.getFile fileid = some path → disk.find? path = j.disk.find? path :=
    fun hpath => hdisk _ _ (LocalFileInfo.mem_paths_of_getFile hpath)
  have hbacked : ∀ {fileid pos}, BackedAt sha1 j.jobInfo.torrentInfo j.jobInfo.localFileInfo j.disk fileid pos →
      BackedAt sha1 j.jobInfo.torrentInfo j.jobInfo.localFileInfo disk fileid pos := by
    rintro fileid pos ⟨file, path, content, hget, hpath, hcontent, hsum⟩
    exact ⟨file, path, content, hget, hpath, (hfile (hj.localFileInfo ▸ hpath)).trans hcontent, hsum⟩
  refine ⟨⟨hj.backing.laid, ?_, fun fileid pos hbit => hbacked (hj.backing.bits fileid pos hbit),
    fun task ht => (hj.backing.tasks task ht).of_disk hbacked, hj.backing.copies, hj.backing.fileChecked⟩, hj.torrentInfo,
    hj.localFileInfo, hj.distinct, ?_, hj.running, hj.idle, fun hafter => ?_⟩
  · intro fileid file path hget hpath
    obtain ⟨content, hcontent, hlong⟩ := hj.backing.longEnough fileid file path hget hpath
    exact ⟨content, (hfile (hj.localFileInfo ▸ hpath)).trans hcontent, hlong⟩
  · intro fileid file path hget hpath
    obtain ⟨content, hcontent, hsize⟩ := hj.sized fileid file path hget hpath
    exact ⟨content, (hfile hpath).trans hcontent, hsize⟩
  · obtain ⟨disk₁, hcopied⟩ := hj.copied hafter
    refine ⟨disk₁, hcopied.localFileInfo, hcopied.idle, hcopied.place, hcopied.copies, ?_, ?_⟩
    · intro fileid path paths hhead
      exact (hdisk fileid path (by simp [LocalFileInfo.paths, hhead])).trans (hcopied.heads fileid path paths hhead)
    · intro fileid source target hmem
      refine (hcopied.made fileid source target hmem).imp_right (Or.imp_right fun hmade => ?_)
      exact (hdisk fileid target (isCopy_of_mem_sameFileCopies hmem).target_mem_paths).trans hmade

section ofTorrent

variable {torrent : Torrent} {topPath : String} {needs : List FileIdentityInfo} {uploadTotal downloadTotal : UInt64}
  {m : LocalSockManager} {disk₀ : Disk}

/-- A job that has not been started begins with that, if its files have their sizes and what it has is there. -/
theorem whole_new {info : JobInfo} (hlaid : Laid t l) (hdistinct : ∀ fileid, (l.paths fileid).Nodup)
    (ht : info.torrentInfo = t) (hl : info.localFileInfo = l) (hsized : Sized t l disk)
    (hbits : ∀ fileid c, info.downloadInfo.bit fileid c = some true → BackedAt sha1 t l disk fileid c) :
    Whole sha1 t l (.new info m disk) := by
  subst ht hl
  refine ⟨⟨hlaid, ?_, hbits, by rintro task ⟨⟩, by rintro todo ⟨⟩, trivial⟩, rfl, rfl, hdistinct, hsized, fun _ => .inl rfl,
    by rintro - task ⟨⟩, by rintro ⟨⟩⟩
  intro fileid file path hfile hpath
  obtain ⟨content, hcontent, hsize⟩ := hsized fileid file path hfile hpath
  exact ⟨content, hcontent, hsize.ge⟩

/-- A new job begins with that, if what it has is there. -/
theorem whole_of_bits {d : DownloadInfo} (htiled : ∀ file ∈ torrent.file, file.UniformlyTiled)
    (hsame : ∀ file ∈ torrent.file, ∀ file' ∈ torrent.file, file.checkSum = file'.checkSum → file.chunk = file'.chunk)
    (hnodup : ((JobInfo.neededFiles torrent needs).map (JobInfo.localPath topPath)).Nodup)
    (hthere : ∀ file ∈ JobInfo.neededFiles torrent needs, ∀ content,
      disk₀.find? (JobInfo.localPath topPath file) = some content → (content.length : ℤ) = file.size.toInt)
    (hbacked : ∀ fileid c, d.bit fileid c = some true → BackedAt sha1 ⟨torrent⟩
      (JobInfo.new torrent topPath needs uploadTotal downloadTotal (fun _ => none) disk₀).1.localFileInfo
      (JobInfo.new torrent topPath needs uploadTotal downloadTotal (fun _ => none) disk₀).2 fileid c) :
    Whole sha1 ⟨torrent⟩ (JobInfo.new torrent topPath needs uploadTotal downloadTotal (fun _ => none) disk₀).1.localFileInfo
      (.new { (JobInfo.new torrent topPath needs uploadTotal downloadTotal (fun _ => none) disk₀).1 with downloadInfo := d } m
        (JobInfo.new torrent topPath needs uploadTotal downloadTotal (fun _ => none) disk₀).2) := by
  refine whole_new (laid_new htiled hnodup) (nodup_paths_new hnodup)
    (JobInfo.torrentInfo_new torrent topPath needs uploadTotal downloadTotal _ disk₀) rfl ?_ hbacked
  intro fileid file path hfile hpath
  have hpos : ∀ file ∈ JobInfo.neededFiles torrent needs, 0 ≤ file.size.toInt :=
    fun file hneeded => (size_pos_of_tiled (htiled file (List.mem_of_mem_filter hneeded))).le
  obtain ⟨needed, content, hhead, hcontent, hsize⟩ := JobInfo.find?_disk_new_needed hnodup hthere hpos hpath
  refine ⟨content, hcontent, hsize.trans ?_⟩
  -- files with one fileid have the same chunks, and so the same size
  obtain ⟨hmem, hid⟩ := TorrentInfo.getOneFileOfSameFileid_mem hfile
  obtain ⟨hneeded, hid'⟩ := List.mem_filter.mp (List.mem_of_head? hhead)
  have hmem' : needed ∈ torrent.file := List.mem_of_mem_filter hneeded
  exact size_eq_of_chunk_eq (htiled needed hmem') (htiled file hmem)
    (hsame needed hmem' file hmem ((of_decide_eq_true hid').trans hid.symm))

/-- Where the needed files are there and match the torrent, whatever bits the job has are backed. -/
theorem backedAt_of_there {d : DownloadInfo}
    (hsame : ∀ file ∈ torrent.file, ∀ file' ∈ torrent.file, file.checkSum = file'.checkSum → file.chunk = file'.chunk)
    (hthere : ∀ file ∈ JobInfo.neededFiles torrent needs, ∃ content,
      disk₀.find? (JobInfo.localPath topPath file) = some content ∧ (content.length : ℤ) = file.size.toInt ∧
        Matches sha1 file content)
    (hmade : ∀ fileid c, (d.bit fileid c).isSome =
      ((JobInfo.new torrent topPath needs uploadTotal downloadTotal (fun _ => none) disk₀).1.downloadInfo.bit fileid c).isSome)
    {fileid : String} {c : ℕ} (hset : d.bit fileid c = some true) :
    BackedAt sha1 ⟨torrent⟩ (JobInfo.new torrent topPath needs uploadTotal downloadTotal (fun _ => none) disk₀).1.localFileInfo
      (JobInfo.new torrent topPath needs uploadTotal downloadTotal (fun _ => none) disk₀).2 fileid c := by
  -- the bit is that of a chunk of a needed file
  have hsome := hmade fileid c
  rw [hset, Option.isSome_some] at hsome
  obtain ⟨b, hb⟩ := Option.isSome_iff_exists.mp hsome.symm
  obtain rfl := JobInfo.eq_false_of_bit_new hb
  have hbitmap : ((JobInfo.new torrent topPath needs uploadTotal downloadTotal (fun _ => none) disk₀).1.downloadInfo.bitmapMap.find?
      fileid).isSome := by
    rw [DownloadInfo.bit] at hb
    split at hb
    · rename_i bits hbits
      rw [hbits]
      rfl
    · cases hb
    · cases hb
  obtain ⟨file, hmem, hneeded, rfl⟩ := JobInfo.isSome_bitmapMap_new.mp hbitmap
  have hfile : file ∈ JobInfo.neededFiles torrent needs := List.mem_filter.mpr ⟨hmem, decide_eq_true hneeded⟩
  obtain ⟨first, hfirst⟩ := TorrentInfo.exists_getOneFileOfSameFileid (t := ⟨torrent⟩) hmem
  obtain ⟨hmem', hid⟩ := TorrentInfo.getOneFileOfSameFileid_mem hfirst
  have hc := clearBitsInRange_new
    (fun file hf file' hf' hsum => congrArg List.length (hsame file hf file' hf' hsum)) file.checkSum
    (by rw [JobInfo.fileidlist_new]; exact List.mem_map_of_mem hfile) c hb
  rw [chunkCountOf, JobInfo.torrentInfo_new, hfirst] at hc
  -- its fileid has a path, where there is a file that matches
  obtain ⟨path, hpath⟩ := Option.isSome_iff_exists.mp <|
    (@JobInfo.isSome_getFile_new torrent topPath needs uploadTotal downloadTotal disk₀ file.checkSum).mpr
      (List.ne_nil_of_mem (List.mem_filter.mpr ⟨hfile, decide_eq_true rfl⟩))
  obtain ⟨needed, hhead, rfl⟩ := head?_neededFilesOf hpath
  obtain ⟨hneeded', hid'⟩ := List.mem_filter.mp (List.mem_of_head? hhead)
  obtain ⟨content, hcontent, -, hmatches⟩ := hthere needed hneeded'
  have hchunks := hsame first hmem' needed (List.mem_of_mem_filter hneeded') (hid.trans (of_decide_eq_true hid').symm)
  obtain ⟨hoffset, hlen, hdigest⟩ := Torrent.File.chunks_congr hchunks c
  refine ⟨first, _, content, hfirst, hpath, JobInfo.find?_disk_new hcontent, ?_⟩
  rw [hoffset, hlen, hdigest]
  exact hmatches c (by rwa [Torrent.File.chunkCount, ← hchunks])

/-- A new job has nothing. -/
theorem whole_ofTorrent (htiled : ∀ file ∈ torrent.file, file.UniformlyTiled)
    (hsame : ∀ file ∈ torrent.file, ∀ file' ∈ torrent.file, file.checkSum = file'.checkSum → file.chunk = file'.chunk)
    (hnodup : ((JobInfo.neededFiles torrent needs).map (JobInfo.localPath topPath)).Nodup)
    (hthere : ∀ file ∈ JobInfo.neededFiles torrent needs, ∀ content,
      disk₀.find? (JobInfo.localPath topPath file) = some content → (content.length : ℤ) = file.size.toInt) :
    Whole sha1 ⟨torrent⟩ (JobInfo.new torrent topPath needs uploadTotal downloadTotal (fun _ => none) disk₀).1.localFileInfo
      (ofTorrent torrent topPath needs uploadTotal downloadTotal (fun _ => none) m disk₀) :=
  whole_of_bits htiled hsame hnodup hthere fun fileid pos hbit => by
    cases JobInfo.eq_false_of_bit_new hbit

/-- **What a job leaves of a file that it has.** Let the files of the torrent be uniformly tiled, and let files of the same
checksum have the same chunks. When `run` is at its end, and all bits of a needed file are set, the file is at its path,
with its size, and each of its chunks has the recorded digest. -/
theorem Whole.matches (hsame : ∀ file ∈ torrent.file, ∀ file' ∈ torrent.file, file.checkSum = file'.checkSum →
      file.chunk = file'.chunk)
    (hj : Whole sha1 ⟨torrent⟩
      (JobInfo.new torrent topPath needs uploadTotal downloadTotal (fun _ => none) disk₀).1.localFileInfo j)
    (hended : j.pc = .ended) {file : Torrent.File} (hfile : file ∈ JobInfo.neededFiles torrent needs)
    (hbits : ∀ c < file.chunkCount, j.jobInfo.downloadInfo.bit file.checkSum c = some true) :
    ∃ content, j.disk.find? (JobInfo.localPath topPath file) = some content ∧ (content.length : ℤ) = file.size.toInt ∧
      Matches sha1 file content :=
  hj.find?_matches hsame hended (List.mem_of_mem_filter hfile) (localPath_mem_paths hfile) hbits

/-- A needed file has its bits, and they are set where none is clear. -/
theorem bit_of_advances (hsame : ∀ file ∈ torrent.file, ∀ file' ∈ torrent.file, file.checkSum = file'.checkSum →
      file.chunk = file'.chunk)
    {info : JobInfo}
    (hadv : (JobInfo.new torrent topPath needs uploadTotal downloadTotal (fun _ => none) disk₀).1.Advances info)
    (hall : ∀ fileid ∈ info.fileidlist, ∀ pos, info.downloadInfo.bit fileid pos ≠ some false)
    {file : Torrent.File} (hfile : file ∈ JobInfo.neededFiles torrent needs) {c : ℕ} (hc : c < file.chunkCount) :
    info.downloadInfo.bit file.checkSum c = some true := by
  have hid : file.checkSum ∈ info.fileidlist := by
    rw [hadv.fileidlist, JobInfo.fileidlist_new]
    exact List.mem_map.mpr ⟨file, hfile, rfl⟩
  have hclear := @JobInfo.bit_new torrent topPath needs uploadTotal downloadTotal (fun _ => none) disk₀ hsame file hfile c hc
  obtain ⟨b, hbit⟩ := Option.isSome_iff_exists.mp (hadv.bit_isSome (by rw [hclear]; rfl))
  cases b with
  | true => exact hbit
  | false => exact absurd hbit (hall _ hid c)

end ofTorrent

end Job

end CoolDown
