import CoolDown.Client.CoolClient
import CoolDown.Library.Run

/-!
# Which torrents the client has: `torrent_ids_`

The client adds a job only for a torrent whose id it has not registered, and registers the id
first. It takes no id out again: not when the job is removed, and not when adding the job
throws after all. From then on the torrent cannot be added, and the caller is told that the job
exists.

## The model

The calls come one after another. What the outside decides about a call is part of it: what the
constructor of `JobInfo` meets, whether publishing a fileid throws, whether the job runs and
the pool takes it. The disk is what the calls leave of it.

## What is proved

* `step_change`: a call leaves jobs and registry alone, or adds a job with its id, if it is
  `Clean`; if it is not, an id stays behind without a job.
* `registry_iff`: after a run the registry is just the torrents of the jobs, and an add is
  refused just for these, if and only if all its calls are clean.
* `removed_torrent_exists`: a torrent whose job has been removed.
-/

namespace CoolDown

open Library

/-- `torrentid`. -/
def JobInfo.torrentId (info : JobInfo) : String := info.torrentInfo.torrent.torrentId

namespace TorrentRegistry

open CoolClient JobHistory

/-- A call, and what the outside decides about it. -/
inductive Action where
  | addNewDownloadJob (env : Surroundings) (torrentPath : String) (torrent : Torrent) (needs : List FileIdentityInfo)
      (topPath : String)
  | addNewUploadJob (env : Surroundings) (publish : String → Option Exception) (torrentPath topPath : String)
      (torrent : Torrent)
  | reloadOneJob (env : Surroundings) (torrent : Torrent) (history : JobHistoryInfo)
  | startJob (handle : ℕ) (isRunning : Bool) (pool : Except Exception Unit)
  | stopJob (handle : ℕ)
  | removeJob (handle : ℕ)

/-- The client and the disk after a call. -/
def step (s : CoolClient × Disk) : Action → Option (CoolClient × Disk)
  | .addNewDownloadJob env torrentPath torrent needs topPath =>
    some (CoolClient.addNewDownloadJob env torrentPath torrent needs topPath s.1 s.2).2
  | .addNewUploadJob env publish torrentPath topPath torrent =>
    some (CoolClient.addNewUploadJob env publish torrentPath topPath torrent s.1 s.2).2
  | .reloadOneJob env torrent history => some (CoolClient.reloadOneJob env torrent history s.1 s.2).2
  | .startJob handle isRunning pool => some ((s.1.startJob handle isRunning pool).2, s.2)
  | .stopJob handle => some ((s.1.stopJob handle).2, s.2)
  | .removeJob handle => some ((s.1.removeJob handle).2, s.2)

/-- The torrent of the job with that handle. -/
def idOf (s : CoolClient) (handle : ℕ) : Option String := (s.jobs.find? handle).map JobInfo.torrentId

/-- The client has a job for the torrent. -/
def HasJobFor (s : CoolClient) (torrentId : String) : Prop := ∃ handle, idOf s handle = some torrentId

/-- The registry is the set of the torrents of the jobs, no torrent has two, and an add says that
the job exists just when there is one. -/
structure Exact (s : CoolClient) : Prop where
  registered : ∀ torrentId, s.hasThisTorrent torrentId ↔ HasJobFor s torrentId
  unique : ∀ handle handle' torrentId, idOf s handle = some torrentId → idOf s handle' = some torrentId →
    handle = handle'
  download : ∀ env torrentPath torrent needs topPath disk,
    (CoolClient.addNewDownloadJob env torrentPath torrent needs topPath s disk).1 = .errorJobExists ↔
      HasJobFor s torrent.torrentId
  upload : ∀ env publish torrentPath topPath torrent disk,
    (CoolClient.addNewUploadJob env publish torrentPath topPath torrent s disk).1 = .ok .errorJobExists ↔
      HasJobFor s torrent.torrentId

/-- The call leaves no id behind: it removes no job, and adding a job does not throw once the id
has been registered. -/
def Clean (s : CoolClient × Disk) : Action → Prop
  | .addNewUploadJob _ publish _ _ torrent =>
    s.1.hasThisTorrent torrent.torrentId ∨ ∀ file ∈ torrent.file, publish file.checkSum = none
  | .reloadOneJob _ torrent history =>
    s.1.hasThisTorrent torrent.torrentId ∨ ∀ oneFile ∈ history.file, 0 < oneFile.fileBitCount
  | .removeJob handle => s.1.jobs.find? handle = none
  | .addNewDownloadJob .. | .startJob .. | .stopJob _ => True

/-! ### When adding throws -/

/-- `AddNewUploadJob` gets through its loop if all bitmaps are there and nothing it publishes throws. -/
theorem setAll_isOk_iff {publish : String → Option Exception} {files : List Torrent.File} {sameFileid : List String}
    {d : DownloadInfo} (h : ∀ file ∈ files, ∃ bits, d.bitmapMap.find? file.checkSum = some (some bits)) :
    (∃ d', setAll publish files sameFileid d = .ok d') ↔
      ∀ file ∈ files, file.checkSum ∉ sameFileid → publish file.checkSum = none := by
  induction files generalizing sameFileid d with
  | nil => simp [setAll]
  | cons file files ih =>
    obtain ⟨bits, hbits⟩ := h file List.mem_cons_self
    have htail : ∀ file' ∈ files, ∃ bits, d.bitmapMap.find? file'.checkSum = some (some bits) :=
      fun file' hfile' => h file' (List.mem_cons_of_mem _ hfile')
    by_cases hsame : file.checkSum ∈ sameFileid
    · rw [setAll, if_pos hsame, ih htail]
      simp [hsame]
    · simp only [setAll, if_neg hsame, bitmapAt_of_find? hbits]
      cases hp : publish file.checkSum with
      | some e => simp [hsame, hp]
      | none =>
        rw [ih]
        · simp only [List.mem_cons, not_or, forall_eq_or_imp, hp, implies_true, true_and]
          constructor
          · intro hall file' hfile' hnot
            by_cases he : file'.checkSum = file.checkSum
            · rw [he, hp]
            · exact hall file' hfile' ⟨he, hnot⟩
          · exact fun hall file' hfile' hnot => hall file' hfile' hnot.2
        · intro file' hfile'
          rw [SortedMap.find?_insert]
          split_ifs
          · exact ⟨_, rfl⟩
          · exact htail file' hfile'

/-- The constructor has made a bitmap for every file of an upload. -/
theorem exists_bitmap_new_allFiles (env : Surroundings) (torrent : Torrent) (topPath : String) (disk : Disk) :
    ∀ file ∈ torrent.file, ∃ bits,
      (JobInfo.new torrent topPath (allFiles torrent) env.uploadTotal env.downloadTotal env.fault
        disk).1.downloadInfo.bitmapMap.find? file.checkSum = some (some bits) := by
  intro file hfile
  have hneeded : (⟨file.relativePath, file.filename⟩ : FileIdentityInfo) ∈ allFiles torrent :=
    List.mem_map_of_mem hfile
  obtain ⟨bitmap, hbitmap⟩ := Option.isSome_iff_exists.mp (JobInfo.isSome_bitmapMap_new.mpr ⟨file, hfile, hneeded, rfl⟩)
  obtain ⟨_, -, -, rfl⟩ := JobInfo.exists_file_of_bitmapMap_new hbitmap
  exact ⟨_, hbitmap⟩

/-- A record is reloaded if its count is positive. -/
theorem reloadBitmap_isOk_iff (d : DownloadInfo) (oneFile : FileInfo) :
    (∃ d', reloadBitmap d oneFile = .ok d') ↔ 0 < oneFile.fileBitCount := by
  simp only [reloadBitmap_eq_ok_iff, exists_and_left, exists_eq, and_true]

theorem foldlM_reloadBitmap_isOk_iff (files : List FileInfo) (d : DownloadInfo) :
    (∃ d', files.foldlM reloadBitmap d = .ok d') ↔ ∀ oneFile ∈ files, 0 < oneFile.fileBitCount := by
  induction files generalizing d with
  | nil => simp [pure, Except.pure]
  | cons oneFile files ih =>
    rw [List.foldlM_cons, List.forall_mem_cons, ← reloadBitmap_isOk_iff d]
    cases hone : reloadBitmap d oneFile with
    | error e => simp [bind, Except.bind]
    | ok d₁ => simpa [bind, Except.bind] using ih d₁

/-! ### What a call does to jobs and registry -/

/-- A call leaves jobs and registry alone, or adds a job and registers its torrent. -/
inductive Kept (s s' : CoolClient) : Prop where
  | same (hreg : ∀ id, s'.hasThisTorrent id ↔ s.hasThisTorrent id) (hids : ∀ handle, idOf s' handle = idOf s handle)
      (hnext : s'.jobIndex = s.jobIndex)
  | added (id : String) (hnew : ¬s.hasThisTorrent id)
      (hreg : ∀ id', s'.hasThisTorrent id' ↔ id = id' ∨ s.hasThisTorrent id')
      (hids : ∀ handle, idOf s' handle = if s.jobIndex = handle then some id else idOf s handle)
      (hnext : s'.jobIndex = s.jobIndex + 1)

/-- A call registers a torrent and adds no job, or removes a job and leaves its torrent registered. -/
inductive LeftBehind (s s' : CoolClient) : Prop where
  | thrown (id : String) (hnew : ¬s.hasThisTorrent id)
      (hreg : ∀ id', s'.hasThisTorrent id' ↔ id = id' ∨ s.hasThisTorrent id')
      (hids : ∀ handle, idOf s' handle = idOf s handle) (hnext : s'.jobIndex = s.jobIndex)
  | removed (handle : ℕ) (id : String) (hold : idOf s handle = some id)
      (hreg : ∀ id', s'.hasThisTorrent id' ↔ s.hasThisTorrent id')
      (hids : ∀ handle', idOf s' handle' = if handle = handle' then none else idOf s handle')
      (hnext : s'.jobIndex = s.jobIndex)

theorem Kept.refl (s : CoolClient) : Kept s s := .same (fun _ => Iff.rfl) (fun _ => rfl) rfl

theorem idOf_addNewJob (s : CoolClient) (info : JobInfo) (torrentPath : String) (handle : ℕ) :
    idOf (s.addNewJob info torrentPath) handle = if s.jobIndex = handle then some info.torrentId else idOf s handle := by
  rw [idOf, addNewJob, SortedMap.find?_insert]
  split_ifs <;> rfl

/-- A job added once its torrent has been registered. -/
theorem kept_addNewJob {s : CoolClient} {id : String} (hnew : ¬s.hasThisTorrent id) {info : JobInfo}
    (hinfo : info.torrentId = id) (torrentPath : String) : Kept s ((s.registerTorrent id).addNewJob info torrentPath) :=
  .added id hnew (hasThisTorrent_registerTorrent s id) (fun handle => hinfo ▸ idOf_addNewJob _ info torrentPath handle) rfl

/-- A torrent registered for nothing. -/
theorem leftBehind_registerTorrent {s : CoolClient} {id : String} (hnew : ¬s.hasThisTorrent id) :
    LeftBehind s (s.registerTorrent id) :=
  .thrown id hnew (hasThisTorrent_registerTorrent s id) (fun _ => rfl) rfl

/-- Setting flags of a job changes neither. -/
theorem kept_withJob (s : CoolClient) (handle : ℕ) (f : DownloadInfo → DownloadInfo) :
    Kept s (s.withJob handle f).2 := by
  unfold withJob
  split
  · exact .refl s
  · rename_i info hfind
    refine .same (fun _ => Iff.rfl) (fun handle' => ?_) rfl
    simp only [idOf, SortedMap.find?_insert]
    split_ifs with he
    · rw [← he, hfind]
      rfl
    · rfl

/-- `StartJob` resumes the job, whatever else becomes of it. -/
theorem startJob_snd (s : CoolClient) (handle : ℕ) (isRunning : Bool) (pool : Except Exception Unit) :
    (s.startJob handle isRunning pool).2 = (s.resumeJobWithoutLock handle).2 := by
  unfold startJob
  split
  · rename_i s' hresume
    rw [hresume]
    split_ifs
    · rfl
    · cases pool <;> rfl
  · rename_i hresume
    rw [hresume]

theorem kept_addNewDownloadJob (env : Surroundings) (torrentPath : String) (torrent : Torrent)
    (needs : List FileIdentityInfo) (topPath : String) (s : CoolClient) (disk : Disk) :
    Kept s (addNewDownloadJob env torrentPath torrent needs topPath s disk).2.1 := by
  unfold addNewDownloadJob
  split_ifs with hhas
  · exact .refl s
  · exact kept_addNewJob hhas (by simp [JobInfo.torrentId]) torrentPath

/-- `AddNewUploadJob`, by what it publishes. -/
theorem addNewUploadJob_change (env : Surroundings) (publish : String → Option Exception) (torrentPath topPath : String)
    (torrent : Torrent) (s : CoolClient) (disk : Disk) :
    let s' := (CoolClient.addNewUploadJob env publish torrentPath topPath torrent s disk).2.1
    let fine := s.hasThisTorrent torrent.torrentId ∨ ∀ file ∈ torrent.file, publish file.checkSum = none
    (fine → Kept s s') ∧ (¬fine → LeftBehind s s') := by
  unfold CoolClient.addNewUploadJob
  split_ifs with hhas
  · exact ⟨fun _ => .refl s, fun hnot => absurd (.inl hhas) hnot⟩
  · have hok := @setAll_isOk_iff publish _ [] _ (exists_bitmap_new_allFiles env torrent topPath disk)
    dsimp only
    split
    · rename_i e hset
      refine ⟨fun hfine => ?_, fun _ => leftBehind_registerTorrent hhas⟩
      obtain ⟨d, hd⟩ := hok.mpr fun file hfile _ => (hfine.resolve_left hhas) file hfile
      rw [hset] at hd
      cases hd
    · rename_i d hset
      refine ⟨fun _ => kept_addNewJob hhas ?_ torrentPath, fun hnot => ?_⟩
      · simp [JobInfo.torrentId]
      · exact absurd (.inr fun file hfile => hok.mp ⟨d, hset⟩ file hfile List.not_mem_nil) hnot

/-- `ReloadOneJob`, by the counts it reads. -/
theorem reloadOneJob_change (env : Surroundings) (torrent : Torrent) (history : JobHistoryInfo) (s : CoolClient)
    (disk : Disk) :
    let s' := (CoolClient.reloadOneJob env torrent history s disk).2.1
    let fine := s.hasThisTorrent torrent.torrentId ∨ ∀ oneFile ∈ history.file, 0 < oneFile.fileBitCount
    (fine → Kept s s') ∧ (¬fine → LeftBehind s s') := by
  unfold CoolClient.reloadOneJob
  split_ifs with hhas
  · exact ⟨fun _ => .refl s, fun hnot => absurd (.inl hhas) hnot⟩
  · dsimp only
    split
    · rename_i e hfold
      refine ⟨fun hfine => ?_, fun _ => leftBehind_registerTorrent hhas⟩
      obtain ⟨d, hd⟩ := (foldlM_reloadBitmap_isOk_iff _ _).mpr (hfine.resolve_left hhas)
      rw [hfold] at hd
      cases hd
    · rename_i d hfold
      refine ⟨fun _ => kept_addNewJob hhas ?_ history.torrentPath, fun hnot => ?_⟩
      · simp [JobInfo.torrentId]
      · exact absurd (.inr ((foldlM_reloadBitmap_isOk_iff _ _).mp ⟨d, hfold⟩)) hnot

/-- `RemoveJob`, by whether there is such a job. -/
theorem removeJob_change (s : CoolClient) (handle : ℕ) :
    (s.jobs.find? handle = none → Kept s (s.removeJob handle).2) ∧
      (¬s.jobs.find? handle = none → LeftBehind s (s.removeJob handle).2) := by
  unfold removeJob
  split
  · rename_i hfind
    exact ⟨fun _ => .refl s, fun hnot => absurd hfind hnot⟩
  · rename_i info hfind
    refine ⟨fun hnone => ?_, fun _ => ?_⟩
    · rw [hfind] at hnone
      cases hnone
    · refine .removed handle info.torrentId (by rw [idOf, hfind]; rfl) (fun _ => Iff.rfl) (fun handle' => ?_) rfl
      simp only [idOf, SortedMap.find?_erase]
      split_ifs <;> rfl

/-- A clean call leaves nothing behind, any other does. -/
theorem step_change {s s' : CoolClient × Disk} {a : Action} (h : step s a = some s') :
    (Clean s a → Kept s.1 s'.1) ∧ (¬Clean s a → LeftBehind s.1 s'.1) := by
  cases a with
  | addNewDownloadJob env torrentPath torrent needs topPath =>
    obtain rfl := Option.some.inj h
    exact ⟨fun _ => kept_addNewDownloadJob .., fun hnot => absurd trivial hnot⟩
  | addNewUploadJob env publish torrentPath topPath torrent =>
    obtain rfl := Option.some.inj h
    exact addNewUploadJob_change ..
  | reloadOneJob env torrent history =>
    obtain rfl := Option.some.inj h
    exact reloadOneJob_change ..
  | startJob handle isRunning pool =>
    obtain rfl := Option.some.inj h
    exact ⟨fun _ => startJob_snd s.1 handle isRunning pool ▸ kept_withJob .., fun hnot => absurd trivial hnot⟩
  | stopJob handle =>
    obtain rfl := Option.some.inj h
    exact ⟨fun _ => kept_withJob .., fun hnot => absurd trivial hnot⟩
  | removeJob handle =>
    obtain rfl := Option.some.inj h
    exact removeJob_change s.1 handle

/-! ### What every run keeps -/

/-- Every job has a handle below the next one and a registered torrent, which no other job has. -/
structure Covered (s : CoolClient) : Prop where
  lt : ∀ handle id, idOf s handle = some id → handle < s.jobIndex
  registered : ∀ handle id, idOf s handle = some id → s.hasThisTorrent id
  unique : ∀ handle handle' id, idOf s handle = some id → idOf s handle' = some id → handle = handle'

theorem covered_new : Covered new := ⟨by rintro _ _ ⟨⟩, by rintro _ _ ⟨⟩, by rintro _ _ _ ⟨⟩⟩

/-- Nothing is added, and nothing is taken out of the registry. -/
theorem Covered.of_le {s s' : CoolClient} (h : Covered s) (hreg : ∀ id, s.hasThisTorrent id → s'.hasThisTorrent id)
    (hids : ∀ handle id, idOf s' handle = some id → idOf s handle = some id) (hnext : s'.jobIndex = s.jobIndex) :
    Covered s' where
  lt handle id hid := hnext ▸ h.lt handle id (hids handle id hid)
  registered handle id hid := hreg id (h.registered handle id (hids handle id hid))
  unique handle handle' id hid hid' := h.unique handle handle' id (hids handle id hid) (hids handle' id hid')

theorem Covered.kept {s s' : CoolClient} (h : Covered s) (hkept : Kept s s') : Covered s' := by
  cases hkept with
  | same hreg hids hnext => exact h.of_le (fun id => (hreg id).mpr) (fun handle id hid => hids handle ▸ hid) hnext
  | added id hnew hreg hids hnext =>
    -- the torrent of an old job is not the new one
    have hne : ∀ handle id', idOf s handle = some id' → id ≠ id' := by
      rintro handle id' hid rfl
      exact hnew (h.registered handle id hid)
    constructor
    · intro handle id' hid
      rw [hids] at hid
      split_ifs at hid with he
      · omega
      · have := h.lt handle id' hid
        omega
    · intro handle id' hid
      rw [hids] at hid
      split_ifs at hid
      · exact (hreg id').mpr (.inl (Option.some.inj hid))
      · exact (hreg id').mpr (.inr (h.registered handle id' hid))
    · intro handle handle' id' hid hid'
      rw [hids] at hid hid'
      split_ifs at hid hid' with he he'
      · exact he.symm.trans he'
      · exact absurd (Option.some.inj hid) (hne handle' id' hid')
      · exact absurd (Option.some.inj hid') (hne handle id' hid)
      · exact h.unique handle handle' id' hid hid'

theorem Covered.leftBehind {s s' : CoolClient} (h : Covered s) (hleft : LeftBehind s s') : Covered s' := by
  cases hleft with
  | thrown id hnew hreg hids hnext =>
    exact h.of_le (fun id' hid' => (hreg id').mpr (.inr hid')) (fun handle id' hid => hids handle ▸ hid) hnext
  | removed handle id hold hreg hids hnext =>
    refine h.of_le (fun id' => (hreg id').mpr) (fun handle' id' hid => ?_) hnext
    rw [hids] at hid
    split_ifs at hid
    exact hid

theorem step_covered {s s' : CoolClient × Disk} {a : Action} (h : Covered s.1) (hstep : step s a = some s') :
    Covered s'.1 := by
  by_cases hclean : Clean s a
  · exact h.kept ((step_change hstep).1 hclean)
  · exact h.leftBehind ((step_change hstep).2 hclean)

/-! ### Ids without a job -/

/-- Every registered torrent has a job. -/
def NoneLost (s : CoolClient) : Prop := ∀ id, s.hasThisTorrent id → HasJobFor s id

theorem NoneLost.kept {s s' : CoolClient} (h : NoneLost s) (hkept : Kept s s') (hs : Covered s) : NoneLost s' := by
  intro id' hid'
  cases hkept with
  | same hreg hids hnext =>
    obtain ⟨handle, hid⟩ := h id' ((hreg id').mp hid')
    exact ⟨handle, hids handle ▸ hid⟩
  | added id hnew hreg hids hnext =>
    obtain rfl | hold := (hreg id').mp hid'
    · exact ⟨s.jobIndex, by rw [hids, if_pos rfl]⟩
    · obtain ⟨handle, hid⟩ := h id' hold
      refine ⟨handle, ?_⟩
      rw [hids, if_neg (hs.lt handle id' hid).ne', hid]

/-- What a call leaves behind has no job. -/
theorem not_noneLost_of_leftBehind {s s' : CoolClient} (hs : Covered s) (hleft : LeftBehind s s') : ¬NoneLost s' := by
  intro hnone
  cases hleft with
  | thrown id hnew hreg hids hnext =>
    obtain ⟨handle, hid⟩ := hnone id ((hreg id).mpr (.inl rfl))
    rw [hids] at hid
    exact hnew (hs.registered handle id hid)
  | removed handle id hold hreg hids hnext =>
    obtain ⟨handle', hid⟩ := hnone id ((hreg id).mpr (hs.registered handle id hold))
    rw [hids] at hid
    split_ifs at hid with he
    exact he (hs.unique handle handle' id hold hid)

/-- And never gets one: the torrent is refused. -/
theorem not_noneLost_step {s s' : CoolClient × Disk} {a : Action} (h : ¬NoneLost s.1) (hstep : step s a = some s') :
    ¬NoneLost s'.1 := by
  simp only [NoneLost, not_forall] at h
  obtain ⟨id, hhas, hno⟩ := h
  have hstays : s'.1.hasThisTorrent id ∧ ∀ handle, idOf s'.1 handle ≠ some id := by
    have hno : ∀ handle, idOf s.1 handle ≠ some id := fun handle hid => hno ⟨handle, hid⟩
    by_cases hclean : Clean s a
    · cases (step_change hstep).1 hclean with
      | same hreg hids hnext => exact ⟨(hreg id).mpr hhas, fun handle => hids handle ▸ hno handle⟩
      | added id' hnew hreg hids hnext =>
        refine ⟨(hreg id).mpr (.inr hhas), fun handle => ?_⟩
        rw [hids]
        split_ifs
        · rintro ⟨⟩
          exact hnew hhas
        · exact hno handle
    · cases (step_change hstep).2 hclean with
      | thrown id' hnew hreg hids hnext => exact ⟨(hreg id).mpr (.inr hhas), fun handle => hids handle ▸ hno handle⟩
      | removed handle id' hold hreg hids hnext =>
        refine ⟨(hreg id).mpr hhas, fun handle' => ?_⟩
        rw [hids]
        split_ifs
        · rintro ⟨⟩
        · exact hno handle'
  intro hnone
  obtain ⟨handle, hid⟩ := hnone id hstays.1
  exact hstays.2 handle hid

/-! ### Who is refused -/

theorem addNewDownloadJob_fst (env : Surroundings) (torrentPath : String) (torrent : Torrent)
    (needs : List FileIdentityInfo) (topPath : String) (s : CoolClient) (disk : Disk) :
    (CoolClient.addNewDownloadJob env torrentPath torrent needs topPath s disk).1 = .errorJobExists ↔
      s.hasThisTorrent torrent.torrentId := by
  unfold CoolClient.addNewDownloadJob
  split_ifs with hhas
  · exact iff_of_true rfl hhas
  · exact iff_of_false (by rintro ⟨⟩) hhas

theorem addNewUploadJob_fst (env : Surroundings) (publish : String → Option Exception) (torrentPath topPath : String)
    (torrent : Torrent) (s : CoolClient) (disk : Disk) :
    (CoolClient.addNewUploadJob env publish torrentPath topPath torrent s disk).1 = .ok .errorJobExists ↔
      s.hasThisTorrent torrent.torrentId := by
  unfold CoolClient.addNewUploadJob
  split_ifs with hhas
  · exact iff_of_true rfl hhas
  · refine iff_of_false ?_ hhas
    dsimp only
    split <;> rintro ⟨⟩

/-- The registry is exact when no id has been left behind. -/
theorem exact_iff {s : CoolClient} (hs : Covered s) : Exact s ↔ NoneLost s := by
  constructor
  · exact fun h id => (h.registered id).mp
  · intro h
    have hreg : ∀ id, s.hasThisTorrent id ↔ HasJobFor s id :=
      fun id => ⟨h id, fun ⟨handle, hid⟩ => hs.registered handle id hid⟩
    exact {
      registered := hreg
      unique := hs.unique
      download := fun env torrentPath torrent needs topPath disk =>
        (addNewDownloadJob_fst env torrentPath torrent needs topPath s disk).trans (hreg _)
      upload := fun env publish torrentPath topPath torrent disk =>
        (addNewUploadJob_fst env publish torrentPath topPath torrent s disk).trans (hreg _) }

/-- **The torrent registry.** After a run the registered torrents are those of the jobs, each of which
has one of its own, and an add is refused just for these, if and only if every call was clean. -/
theorem registry_iff {disk : Disk} {actions : List Action} {s : CoolClient × Disk}
    (hrun : exec step (CoolClient.new, disk) actions = some s) :
    Always step Clean (CoolClient.new, disk) actions ↔ Exact s.1 := by
  have hcovered : Covered s.1 := exec_invariant (I := fun s => Covered s.1) step_covered hrun covered_new
  rw [exact_iff hcovered]
  have hstart : Covered (CoolClient.new, disk).1 ∧ NoneLost (CoolClient.new, disk).1 :=
    ⟨covered_new, by rintro id ⟨⟩⟩
  exact always_iff (I := fun s => Covered s.1 ∧ NoneLost s.1) (Q := fun s => NoneLost s.1)
    (fun h hclean hstep => ⟨step_covered h.1 hstep, h.2.kept ((step_change hstep).1 hclean) h.1⟩) (fun h => h.2)
    (fun h hclean hstep => not_noneLost_of_leftBehind h.1 ((step_change hstep).2 hclean)) not_noneLost_step hrun hstart

/-! ### A removed job -/

/-- A torrent without files. -/
def emptyTorrent : Torrent := ⟨"t", 0, 0, "", "", "", []⟩

/-- Nothing fails. -/
def calm : Surroundings := ⟨0, 0, fun _ => none⟩

/-- Its job is added, stopped, started, and added again. -/
def addTwice : List Action :=
  [.addNewDownloadJob calm "t.torrent" emptyTorrent [] "", .stopJob 0, .startJob 0 false (.ok ()),
    .addNewUploadJob calm (fun _ => none) "t.torrent" "" emptyTorrent]

/-- **The job exists.** Once its job has been removed there is no job, and the torrent cannot be added. -/
theorem removed_torrent_exists :
    ∃ s, exec step (CoolClient.new, ∅) [.addNewDownloadJob calm "t.torrent" emptyTorrent [] "", .removeJob 0] = some s ∧
      s.1.jobs.entries = [] ∧
      (CoolClient.addNewDownloadJob calm "t.torrent" emptyTorrent [] "" s.1 s.2).1 = .errorJobExists ∧ ¬Exact s.1 := by
  have hrun : ∃ s, exec step (CoolClient.new, ∅)
        [.addNewDownloadJob calm "t.torrent" emptyTorrent [] "", .removeJob 0] = some s ∧
      s.1.jobs.entries = [] ∧
      (CoolClient.addNewDownloadJob calm "t.torrent" emptyTorrent [] "" s.1 s.2).1 = .errorJobExists :=
    ⟨_, rfl, rfl, rfl⟩
  obtain ⟨s, hrun, hjobs, hret⟩ := hrun
  refine ⟨s, hrun, hjobs, hret, fun hexact => ?_⟩
  obtain ⟨handle, hid⟩ := (hexact.download calm "t.torrent" emptyTorrent [] "" s.2).mp hret
  obtain ⟨info, hinfo, -⟩ := Option.map_eq_some_iff.mp hid
  have hmem := SortedMap.find?_eq_some.mp hinfo
  rw [hjobs] at hmem
  cases hmem

/-- Without that the second add finds the job that is there. -/
theorem registry_iff_addTwice :
    ∃ s, exec step (CoolClient.new, ∅) addTwice = some s ∧
      (Always step Clean (CoolClient.new, ∅) addTwice ↔ Exact s.1) := by
  have hrun : ∃ s, exec step (CoolClient.new, ∅) addTwice = some s := ⟨_, rfl⟩
  obtain ⟨s, hrun⟩ := hrun
  exact ⟨s, hrun, registry_iff hrun⟩

end TorrentRegistry

end CoolDown
