import CoolDown.Client.JobBacked

/-!
# What is left when `run` ends

The main loop ends when the queue is empty, but a task still in flight may fail and put
its chunk back: then `run` waits in `joinAll` and nobody takes the chunk again. It also
ends when the job is removed, and after it, removed or not, the files the torrent has
more than once are copied. So `run` can end with bits clear, and copy files that are
not complete.

## What is proved

* `LeavesBehind` lists the steps that leave a chunk of a file behind.
* `step_accounted`: while every such step is excused (the job is removed, and the file
  has no copy), each clear bit of a needed file has its chunk in some place.
* `run_end`: then no bit is clear when `run` ends without the job being removed, and none
  of a file that is copied.
* `lost_chunk`: otherwise one may be.
-/

namespace CoolDown

open Library ChunkSelector

/-- `report_success_chunk` throws only where there is no bit to set. -/
theorem ChunkSelector.bit_of_reportSuccessChunk_error {info info' : JobInfo} {chunkNum : ℕ} {fileid : String}
    {e : Exception} (h : reportSuccessChunk info chunkNum fileid = (info', .error e)) :
    info.downloadInfo.bit fileid chunkNum = none := by
  unfold reportSuccessChunk at h
  rcases hb : info.downloadInfo.bitmapAt fileid with ⟨bitmap, d⟩
  rw [hb] at h
  cases bitmap with
  | none =>
    have hbit := info.downloadInfo.bit_bitmapAt fileid fileid chunkNum
    rw [← hbit, hb, DownloadInfo.bit]
    have hfind : d.bitmapMap.find? fileid = some none := by
      obtain ⟨hn, rfl⟩ := Prod.mk.inj hb
      simp only at hn ⊢
      cases hf : info.downloadInfo.bitmapMap.find? fileid with
      | none => simp
      | some b =>
        rw [hf] at hn
        simpa [hf] using hn
    rw [hfind]
  | some bits =>
    obtain ⟨rfl, hbits⟩ := DownloadInfo.bitmapAt_eq_some hb
    rw [DownloadInfo.bit, hbits]
    by_cases hlt : chunkNum < bits.length
    · simp [Bitmap.setBit, hlt] at h
    · exact List.getElem?_eq_none (not_lt.mp hlt)

/-- What every step keeps: the files of the job, and the bits and the flag that are set. -/
structure JobInfo.Advances (info info' : JobInfo) : Prop where
  fileidlist : info'.fileidlist = info.fileidlist
  localFileInfo : info'.localFileInfo = info.localFileInfo
  torrentInfo : info'.torrentInfo = info.torrentInfo
  removed : info.downloadInfo.isJobRemoved → info'.downloadInfo.isJobRemoved
  bit : ∀ fileid pos, info'.downloadInfo.bit fileid pos = info.downloadInfo.bit fileid pos ∨
    info'.downloadInfo.bit fileid pos = some true

namespace JobInfo.Advances

theorem refl (info : JobInfo) : info.Advances info := ⟨rfl, rfl, rfl, id, fun _ _ => .inl rfl⟩

theorem trans {info info' info'' : JobInfo} (h : info.Advances info') (h' : info'.Advances info'') :
    info.Advances info'' := by
  refine ⟨h'.fileidlist.trans h.fileidlist, h'.localFileInfo.trans h.localFileInfo, h'.torrentInfo.trans h.torrentInfo,
    fun hr => h'.removed (h.removed hr), ?_⟩
  intro fileid pos
  rcases h'.bit fileid pos with heq | heq
  · rw [heq]
    exact h.bit fileid pos
  · exact .inr heq

/-- A bit that is clear was clear before. -/
theorem bit_clear {info info' : JobInfo} (h : info.Advances info') {fileid : String} {pos : ℕ}
    (hbit : info'.downloadInfo.bit fileid pos = some false) : info.downloadInfo.bit fileid pos = some false := by
  rcases h.bit fileid pos with heq | heq
  · rwa [heq] at hbit
  · rw [heq] at hbit
    cases hbit

/-- Changing the bitmaps only, and only by setting bits. -/
theorem of_onlyBitmaps {info info' : JobInfo} (honly : OnlyBitmaps info info')
    (hbit : ∀ fileid pos, info'.downloadInfo.bit fileid pos = info.downloadInfo.bit fileid pos ∨
      info'.downloadInfo.bit fileid pos = some true) : info.Advances info' := by
  obtain ⟨m, rfl⟩ := honly
  exact ⟨rfl, rfl, rfl, id, hbit⟩

theorem of_bitsKept {info info' : JobInfo} (h : BitsKept info info') : info.Advances info' :=
  of_onlyBitmaps h.1 fun fileid pos => .inl (h.2 fileid pos)

end JobInfo.Advances

namespace Job

variable {sha1 : Bytes → String}

/-- Every step advances. -/
theorem step_advances {j j' : Job} {a : Action} (h : step sha1 j a = some j') :
    j.jobInfo.Advances j'.jobInfo := by
  cases a with
  | start =>
    obtain ⟨-, rfl⟩ := step_start h
    exact .refl j.jobInfo
  | run ev =>
    cases runStep_cases h with
    | init info queue hpc hinit =>
      obtain ⟨rfl, -⟩ := initFiles_eq_ok hinit
      exact .refl j.jobInfo
    | initThrows info hpc hinfo => exact .of_bitsKept hinfo
    | move pc owners m => exact ⟨rfl, rfl, rfl, id, fun _ _ => .inl rfl⟩
    | take | empty | putBack | launch | drop | noFile | leave | joined | copied | ended | abort => exact .refl j.jobInfo
  | task i ev =>
    obtain ⟨t, phase, d, disk, hi, hrun, rfl⟩ := step_task h
    obtain ⟨-, ⟨n, rfl⟩, -⟩ := DownloadTask.runTask_frame hrun
    exact ⟨rfl, rfl, rfl, id, fun _ _ => .inl rfl⟩
  | onFailed i =>
    obtain ⟨t, hi, hphase, rfl⟩ := step_onFailed h
    rcases j.onFailed_cases i t with ⟨_, _, heq⟩ | ⟨_, heq⟩ <;> (rw [heq]; exact .refl j.jobInfo)
  | onFinished i =>
    obtain ⟨t, hi, hphase, rfl⟩ := step_onFinished h
    obtain ⟨honly, hbit⟩ := reportSuccessChunk_spec j.jobInfo t.chunkPos t.fileid
    have hset : ∀ fileid pos, (reportSuccessChunk j.jobInfo t.chunkPos t.fileid).1.downloadInfo.bit fileid pos =
        j.jobInfo.downloadInfo.bit fileid pos ∨
        (reportSuccessChunk j.jobInfo t.chunkPos t.fileid).1.downloadInfo.bit fileid pos = some true := by
      intro fileid pos
      rw [hbit]
      split_ifs
      · exact .inr rfl
      · exact .inl rfl
    rcases j.onFinished_cases i t with ⟨-, m, phase, hp, heq⟩ | ⟨-, info, m, phase, hr, hp, heq⟩ | ⟨-, info, e, hr, heq⟩
    · rw [heq]
      exact .refl j.jobInfo
    · rw [hr] at honly hset
      rw [heq]
      exact .of_onlyBitmaps honly hset
    · rw [hr] at honly hset
      rw [heq]
      exact .of_onlyBitmaps honly hset
  | env ev =>
    cases h
    refine ⟨rfl, rfl, rfl, ?_, fun fileid pos => .inl (by simp [DownloadInfo.bit])⟩
    cases ev with
    | remove => exact fun _ => rfl
    | stop | pause | resume | newSecond | setDownloadSpeedLimit | sockets => exact id

/-! ### Steps that leave a chunk behind -/

/-- The steps that leave a chunk of a file behind. -/
inductive LeavesBehind (j : Job) : Action → String → Prop where
  /-- Starting its task throws, and the chunk is dropped. -/
  | start (chunk : ChunkInfo) (peer : String) (sock : Sock) (fileInfo : Torrent.File)
      (hpc : j.pc = .startTask chunk peer sock fileInfo) : LeavesBehind j (.run .throws) chunk.fileid
  /-- The loop ends because the job is removed, with the chunk queued. -/
  | removed (chunk : ChunkInfo) (hpc : j.pc = .readRemoved) (hremoved : j.jobInfo.downloadInfo.isJobRemoved)
      (hqueue : chunk ∈ j.queue) : LeavesBehind j (.run .go) chunk.fileid
  /-- Its task fails when the main loop is over. -/
  | late (i : ℕ) (t : DownloadTask) (hi : j.tasks[i]? = some t) (hpc : j.pc = .joinAll) :
      LeavesBehind j (.onFailed i) t.fileid
  /-- Its task fails, and `onFailed` throws. -/
  | throws (i : ℕ) (t : DownloadTask) (e : Exception) (hi : j.tasks[i]? = some t)
      (he : reportFailedChunk j.jobInfo j.queue t.chunkPos t.fileid = .error e) : LeavesBehind j (.onFailed i) t.fileid

/-- The job may go without a chunk of the file: it is removed, and makes no copy of the file. -/
def Excused (j : Job) (fileid : String) : Prop :=
  j.jobInfo.downloadInfo.isJobRemoved ∧ (j.jobInfo.localFileInfo.paths fileid).length ≤ 1

theorem Excused.of_advances {j j' : Job} {fileid : String} (h : j.Excused fileid) (ha : j.jobInfo.Advances j'.jobInfo) :
    j'.Excused fileid :=
  ⟨ha.removed h.1, by rw [ha.localFileInfo]; exact h.2⟩

/-- A step that leaves no chunk behind, whatever the tasks and the queue are. -/
def keepsChunks (j : Job) : Action → Bool
  | .run .throws | .onFailed _ => false
  | .run .go => !j.jobInfo.downloadInfo.isJobRemoved
  | .start | .run (.owners _) | .run (.top _) | .run (.conn _) | .run .emptyDirectory | .task _ _ | .onFinished _
  | .env _ => true

theorem LeavesBehind.not_keepsChunks {j : Job} {a : Action} {fileid : String} (h : LeavesBehind j a fileid) :
    ¬ j.keepsChunks a := by
  cases h with
  | removed chunk hpc hremoved => simp [keepsChunks, hremoved]
  | start | late | throws => simp [keepsChunks]

/-- What is dropped is left behind, or has no bit. -/
theorem Drops.leavesBehind {j : Job} {a : Action} {x : String × ℕ} (h : Drops j a x) :
    LeavesBehind j a x.1 ∨ j.jobInfo.downloadInfo.bit x.1 x.2 = none := by
  cases h with
  | start chunk peer sock fileInfo hpc => exact .inl (.start chunk peer sock fileInfo hpc)
  | onFailed i t e hi he => exact .inl (.throws i t e hi he)
  | onFinished i t info e hi he => exact .inr (bit_of_reportSuccessChunk_error he)

/-! ### The invariant -/

/-- Every clear bit of a needed file is that of a chunk the torrent gives the file. -/
def ClearBitsInRange (info : JobInfo) : Prop :=
  ∀ fileid ∈ info.fileidlist, ∀ pos, info.downloadInfo.bit fileid pos = some false → pos < chunkCountOf info fileid

/-- It is so for a new job, if the files of the torrent with one fileid have the same number of chunks. -/
theorem clearBitsInRange_new {torrent : Torrent} {topPath : String} {needs : List FileIdentityInfo}
    {uploadTotal downloadTotal : UInt64} {fault : String → Option LocalFileInfo.Fault} {disk : Disk}
    (hcount : ∀ file ∈ torrent.file, ∀ file' ∈ torrent.file, file.checkSum = file'.checkSum →
      file.chunkCount = file'.chunkCount) :
    ClearBitsInRange (JobInfo.new torrent topPath needs uploadTotal downloadTotal fault disk).1 := by
  intro fileid _ pos hbit
  rw [DownloadInfo.bit] at hbit
  split at hbit
  · rename_i bits hfind
    obtain ⟨file, hfile, rfl, hbits⟩ := JobInfo.exists_file_of_bitmapMap_new hfind
    obtain rfl := Option.some.inj hbits
    obtain ⟨file', hone⟩ := @TorrentInfo.exists_getOneFileOfSameFileid ⟨torrent⟩ file hfile
    obtain ⟨hfile', hsum⟩ := TorrentInfo.getOneFileOfSameFileid_mem hone
    obtain ⟨hlt, -⟩ := List.getElem?_eq_some_iff.mp hbit
    rw [List.length_replicate, hcount file hfile file' hfile' hsum.symm] at hlt
    rwa [chunkCountOf, JobInfo.torrentInfo_new, hone]
  · cases hbit
  · cases hbit

/-- What holds while every step that leaves a chunk behind is excused. -/
structure Accounted (j : Job) : Prop where
  sound : j.Sound
  running : j.isRunning = false → j.pc = .notStarted ∨ j.pc = .ended
  idle : j.pc.stage.idle → j.NoTaskInFlight
  inRange : ClearBitsInRange j.jobInfo
  /-- The chunk of a clear bit is somewhere. -/
  placed : j.pc.stage.queueFilled → j.pc ≠ .aborted → ∀ fileid ∈ j.jobInfo.fileidlist, ∀ pos,
    j.jobInfo.downloadInfo.bit fileid pos = some false → 0 < j.pool.places (fileid, pos) ∨ j.Excused fileid
  /-- What is queued after the main loop is excused. -/
  queued : j.pc.stage = .joining ∨ j.pc.stage = .after → ∀ chunk ∈ j.queue, j.Excused chunk.fileid
  copies : ∀ todo, j.pc = .copying todo → ∀ copy ∈ todo, IsCopy j.jobInfo.localFileInfo copy

theorem noTaskInFlight_of_used {j : Job} (h : j.used = 0) : j.NoTaskInFlight := by
  intro t ht
  have hnil := List.filter_eq_nil_iff.mp (List.length_eq_zero_iff.mp h) t ht
  by_contra hne
  exact hnil (by simpa using not_or.mp hne)

/-- `is_running_` is clear only before and after `run`. -/
theorem step_running {j j' : Job} {a : Action} (hj : j.isRunning = false → j.pc = .notStarted ∨ j.pc = .ended)
    (h : step sha1 j a = some j') : j'.isRunning = false → j'.pc = .notStarted ∨ j'.pc = .ended := by
  cases a with
  | start =>
    obtain ⟨-, rfl⟩ := step_start h
    intro hr
    cases hr
  | run ev =>
    have hr : j.isRunning ≠ false := by
      intro hr
      rcases hj hr with hpc | hpc <;> (rw [step, hpc] at h; cases ev <;> cases h)
    cases runStep_cases h with
    | ended hpc => exact fun _ => .inr rfl
    | move | init | initThrows | take | empty | putBack | launch | drop | noFile | leave | joined | copied | abort =>
      exact fun hr' => absurd hr' hr
  | task | onFailed | onFinished | env =>
    rw [pc_step (by simp) (by simp) h, isRunning_step (by simp) (by simp) h]
    exact hj

/-- No task is in flight outside the main loop and `joinAll`. -/
theorem step_idle {j j' : Job} {a : Action} (hj : j.pc.stage.idle → j.NoTaskInFlight)
    (hrunning : j.isRunning = false → j.pc = .notStarted ∨ j.pc = .ended) (h : step sha1 j a = some j') :
    j'.pc.stage.idle → j'.NoTaskInFlight := by
  have hkeep : j.pc.stage.idle → j'.NoTaskInFlight := by
    intro hidle
    refine step_noTaskInFlight (hj hidle) ?_ h
    intro hloop
    rw [hloop] at hidle
    cases hidle
  by_cases hstart : a = .start
  · subst hstart
    obtain ⟨hr, -⟩ := step_start h
    intro _
    apply hkeep
    rcases hrunning hr with hpc | hpc <;> (rw [hpc]; rfl)
  by_cases hrun : ∃ ev, a = .run ev
  · obtain ⟨ev, rfl⟩ := hrun
    cases runStep_cases h with
    | move pc owners m hsame hin hheld hfile => exact fun hidle => hkeep (hsame ▸ hidle)
    | take i chunk pc hget hi hheld hloop hfile =>
      intro hidle
      rw [hloop] at hidle
      cases hidle
    | joined hpc hused => exact fun _ => noTaskInFlight_of_used hused
    | copied fileid source target todo disk hpc => exact fun _ => hkeep (by rw [hpc]; rfl)
    | ended hpc => exact fun _ => hkeep (by rw [hpc]; rfl)
    | init | initThrows | empty | putBack | launch | drop | noFile | leave | abort => rintro ⟨⟩
  · rw [pc_step hstart (not_exists.mp hrun) h]
    exact hkeep

/-- In every run of a new job `is_running_` is clear only before and after `run`, and no task is in
flight then. -/
theorem run_idle {info : JobInfo} {m : LocalSockManager} {disk : Disk} {as : List Action} {j : Job}
    (h : exec (step sha1) (.new info m disk) as = some j) :
    (j.isRunning = false → j.pc = .notStarted ∨ j.pc = .ended) ∧ (j.pc.stage.idle → j.NoTaskInFlight) := by
  refine @exec_invariant _ _ _ (fun k : Job =>
    (k.isRunning = false → k.pc = .notStarted ∨ k.pc = .ended) ∧ (k.pc.stage.idle → k.NoTaskInFlight)) ?_ _ _ _ h ?_
  · intro k a k' hk hstep
    exact ⟨step_running hk.1 hstep, step_idle hk.2 hk.1 hstep⟩
  · exact ⟨fun _ => .inl rfl, by rintro - task ⟨⟩⟩

/-- The bits that are clear stay in range. -/
theorem ClearBitsInRange.of_advances {info info' : JobInfo} (h : ClearBitsInRange info) (ha : info.Advances info') :
    ClearBitsInRange info' := by
  intro fileid hf pos hbit
  rw [ha.fileidlist] at hf
  rw [chunkCountOf, ha.torrentInfo]
  exact h fileid hf pos (ha.bit_clear hbit)

/-- After `init_queue` the chunk of each clear bit is queued. -/
theorem placed_initQueue {j : Job} {queue : List ChunkInfo} {info : JobInfo} (hj : ClearBitsInRange j.jobInfo)
    (hinit : initQueue j.jobInfo = (info, .ok queue)) {fileid : String} (hf : fileid ∈ j.jobInfo.fileidlist) {pos : ℕ}
    (hbit : j.jobInfo.downloadInfo.bit fileid pos = some false) :
    0 < (queue.map ChunkInfo.item).count (fileid, pos) := by
  rw [count_initQueue hinit, if_pos ⟨hf, hj fileid hf pos hbit, hbit⟩]
  exact Nat.one_pos

theorem places_pos_of_queued {j : Job} {fileid : String} {pos : ℕ}
    (h : 0 < (j.queue.map ChunkInfo.item).count (fileid, pos)) : 0 < j.places fileid pos := by
  rw [places]
  omega

/-- `run` does not go on once it has thrown. -/
theorem pc_step_aborted {j j' : Job} {a : Action} (hpc : j.pc = .aborted) (ha : a ≠ .start)
    (h : step sha1 j a = some j') : j'.pc = .aborted := by
  by_cases hrun : ∃ ev, a = .run ev
  · obtain ⟨ev, rfl⟩ := hrun
    rw [step, hpc] at h
    cases ev <;> cases h
  · rw [pc_step ha (not_exists.mp hrun) h, hpc]

/-- The step that ends the part before the main loop is that of `init_queue`. -/
theorem step_queueFilled_cases {j j' : Job} {a : Action} (hj : ¬ j.pc.stage.queueFilled) (hj' : j'.pc.stage.queueFilled)
    (hpc : j'.pc ≠ .aborted) (h : step sha1 j a = some j') :
    ∃ info queue, initQueue j.jobInfo = (info, .ok queue) ∧
      j' = { j with jobInfo := info, queue := queue, pc := .readRemoved } := by
  have hloop : ∀ {pc : Pc}, j.pc = pc → pc.stage.queueFilled → False := by
    rintro pc rfl hq
    exact hj hq
  by_cases hstart : a = .start
  · subst hstart
    obtain ⟨-, rfl⟩ := step_start h
    cases hj'
  by_cases hrun : ∃ ev, a = .run ev
  · obtain ⟨ev, rfl⟩ := hrun
    cases runStep_cases h with
    | move pc owners m hsame => exact absurd (hsame ▸ hj' : j.pc.stage.queueFilled) hj
    | init info queue hpc hinit => exact ⟨info, queue, hinit, rfl⟩
    | initThrows => exact absurd rfl hpc
    | abort => exact absurd rfl hpc
    | take | empty | putBack | launch | drop | noFile | leave | joined | copied | ended =>
      -- these are after `init_queue`
      have hat : j.pc = _ := ‹_›
      exact (hloop hat rfl).elim
  · rw [pc_step hstart (not_exists.mp hrun) h] at hj'
    exact absurd hj' hj

/-- The chunk of each clear bit stays somewhere. -/
theorem step_placed {j j' : Job} {a : Action} (hj : j.Accounted)
    (hcond : ∀ fileid, LeavesBehind j a fileid → j.Excused fileid)
    (h : step sha1 j a = some j') :
    j'.pc.stage.queueFilled → j'.pc ≠ .aborted → ∀ fileid ∈ j'.jobInfo.fileidlist, ∀ pos,
      j'.jobInfo.downloadInfo.bit fileid pos = some false → 0 < j'.pool.places (fileid, pos) ∨ j'.Excused fileid := by
  intro hfilled' hpc' fileid hf pos hbit'
  have hadv := step_advances h
  have hbit := hadv.bit_clear hbit'
  rw [hadv.fileidlist] at hf
  by_cases hfilled : j.pc.stage.queueFilled
  · have hstart : a ≠ .start := by
      rintro rfl
      obtain ⟨-, rfl⟩ := step_start h
      cases hfilled'
    have hpc : j.pc ≠ .aborted := fun hpc => hpc' (pc_step_aborted hpc hstart h)
    have hinit : j.pc ≠ .initQueue := by
      intro hinit
      rw [hinit] at hfilled
      cases hfilled
    obtain ⟨l, hstep, hdrops⟩ := step_pool hj.sound (.inl hinit) hstart h
    rcases hj.placed hfilled hpc fileid hf pos hbit with hplaces | hexcused
    · by_cases hl : l = some (fileid, pos)
      · -- the chunk is lost, so the step leaves it behind, and is excused
        have hdrop := (hdrops (fileid, pos) hl).resolve_left hpc'
        rcases hdrop.leavesBehind with hleaves | hnone
        · exact .inr ((hcond fileid hleaves).of_advances hadv)
        · rw [hbit] at hnone
          cases hnone
      · exact .inl (hstep.places_pos hl hplaces)
    · exact .inr (hexcused.of_advances hadv)
  · obtain ⟨info, queue, hinit, rfl⟩ := step_queueFilled_cases hfilled hfilled' hpc' h
    rw [places_pool]
    exact .inl (places_pos_of_queued (placed_initQueue hj.inRange hinit hf hbit))

/-- What is queued after the main loop is excused. -/
theorem step_queued {j j' : Job} {a : Action} (hj : j.Accounted)
    (hcond : ∀ fileid, LeavesBehind j a fileid → j.Excused fileid)
    (h : step sha1 j a = some j') :
    j'.pc.stage = .joining ∨ j'.pc.stage = .after → ∀ chunk ∈ j'.queue, j'.Excused chunk.fileid := by
  intro hstage chunk hmem
  have hadv := step_advances h
  refine Excused.of_advances ?_ hadv
  cases a with
  | start =>
    obtain ⟨-, rfl⟩ := step_start h
    rcases hstage with hstage | hstage <;> cases hstage
  | run ev =>
    cases runStep_cases h with
    | move pc owners m hsame hin =>
      rcases hin with hin | hin <;> rcases hstage with hstage | hstage <;> (rw [hin] at hstage; cases hstage)
    | take i chunk pc hget hi hheld hloop =>
      rcases hstage with hstage | hstage <;> (rw [hloop] at hstage; cases hstage)
    | empty hget hqueue =>
      rw [hqueue] at hmem
      cases hmem
    | leave hread hremoved hev =>
      subst hev
      exact hcond _ (.removed chunk hread hremoved hmem)
    | joined hjoin => exact hj.queued (.inl (by rw [hjoin]; rfl)) chunk hmem
    | copied fileid source target todo disk hcopy => exact hj.queued (.inr (by rw [hcopy]; rfl)) chunk hmem
    | ended hcopy => exact hj.queued (.inr (by rw [hcopy]; rfl)) chunk hmem
    | init | initThrows | putBack | launch | drop | noFile | abort => rcases hstage with hstage | hstage <;> cases hstage
  | task i ev =>
    obtain ⟨t, phase, d, disk, hi, hrun, rfl⟩ := step_task h
    exact hj.queued hstage chunk hmem
  | onFailed i =>
    rw [pc_step (by simp) (by simp) h] at hstage
    obtain ⟨t, hi, hphase, rfl⟩ := step_onFailed h
    rcases j.onFailed_cases i t with ⟨chunk', hitem, heq⟩ | ⟨-, heq⟩
    · rw [heq] at hmem
      rcases List.mem_append.mp hmem with hmem | hmem
      · exact hj.queued hstage chunk hmem
      · -- the chunk comes back when the main loop is over
        obtain rfl := List.mem_singleton.mp hmem
        have hid : chunk.fileid = t.fileid := congrArg Prod.fst hitem
        rw [hid]
        refine hcond _ (.late i t hi ?_)
        rcases hstage with hstage | hstage
        · cases hpc : j.pc with
          | joinAll => rfl
          | _ => rw [hpc] at hstage; cases hstage
        · have hidle := hj.idle (by rw [hstage]; rfl) t (List.mem_of_getElem? hi)
          rw [hphase] at hidle
          rcases hidle with hidle | hidle <;> cases hidle
    · rw [heq] at hmem
      exact hj.queued hstage chunk hmem
  | onFinished i =>
    obtain ⟨t, hi, hphase, rfl⟩ := step_onFinished h
    rcases j.onFinished_cases i t with ⟨_, _, _, _, heq⟩ | ⟨_, _, _, _, _, _, heq⟩ | ⟨_, _, _, _, heq⟩ <;>
      (rw [heq] at hstage hmem; exact hj.queued hstage chunk hmem)
  | env ev =>
    cases h
    exact hj.queued hstage chunk hmem

/-- The copies still to make are copies of needed files. -/
theorem step_copies {j j' : Job} {a : Action}
    (hj : ∀ todo, j.pc = .copying todo → ∀ copy ∈ todo, IsCopy j.jobInfo.localFileInfo copy)
    (h : step sha1 j a = some j') :
    ∀ todo, j'.pc = .copying todo → ∀ copy ∈ todo, IsCopy j'.jobInfo.localFileInfo copy := by
  rw [(step_advances h).localFileInfo]
  by_cases hstart : a = .start
  · subst hstart
    obtain ⟨-, rfl⟩ := step_start h
    rintro todo ⟨⟩
  by_cases hrun : ∃ ev, a = .run ev
  · obtain ⟨ev, rfl⟩ := hrun
    cases runStep_cases h with
    | move pc owners m hsame hin =>
      rintro todo rfl
      rcases hin with hin | hin <;> cases hin
    | take i chunk pc hget hi hheld hloop =>
      rintro todo rfl
      cases hloop
    | joined hjoin =>
      rintro todo ⟨⟩ copy hcopy
      exact isCopy_of_mem_sameFileCopies hcopy
    | copied fileid source target todo disk hcopy =>
      rintro todo' ⟨⟩ copy hmem
      exact hj _ hcopy copy (List.mem_cons_of_mem _ hmem)
    | init | initThrows | empty | putBack | launch | drop | noFile | leave | ended | abort => rintro todo ⟨⟩
  · rw [pc_step hstart (not_exists.mp hrun) h]
    exact hj

/-- Every step keeps the invariant, if what it leaves behind is excused. -/
theorem step_accounted {j j' : Job} {a : Action} (hj : j.Accounted)
    (hcond : ∀ fileid, LeavesBehind j a fileid → j.Excused fileid) (h : step sha1 j a = some j') : j'.Accounted where
  sound := step_sound hj.sound h
  running := step_running hj.running h
  idle := step_idle hj.idle hj.running h
  inRange := hj.inRange.of_advances (step_advances h)
  placed := step_placed hj hcond h
  queued := step_queued hj hcond h
  copies := step_copies hj.copies h

/-- After `joinAll` a clear bit is excused: its chunk can only be queued. -/
theorem Accounted.excused {j : Job} (hj : j.Accounted) (hstage : j.pc.stage = .after) {fileid : String}
    (hf : fileid ∈ j.jobInfo.fileidlist) {pos : ℕ} (hbit : j.jobInfo.downloadInfo.bit fileid pos = some false) :
    j.Excused fileid := by
  have hheld : j.pc.held = none := by
    cases hpc : j.pc with
    | copying todo => rfl
    | ended => rfl
    | _ => rw [hpc] at hstage; cases hstage
  have hpc : j.pc ≠ .aborted := by
    intro hpc
    rw [hpc] at hstage
    cases hstage
  have hidle : j.NoTaskInFlight := hj.idle (by rw [hstage]; rfl)
  rcases hj.placed (by rw [hstage]; rfl) hpc fileid hf pos hbit with hplaces | hexcused
  · rw [places_pool, places, hbit, hheld, hidle.liveItems_eq] at hplaces
    have hcount : 0 < (j.queue.map ChunkInfo.item).count (fileid, pos) := by simpa using hplaces
    obtain ⟨chunk, hmem, hitem⟩ := List.mem_map.mp (List.count_pos_iff.mp hcount)
    have hid : chunk.fileid = fileid := congrArg Prod.fst hitem
    exact hid ▸ hj.queued (.inr hstage) chunk hmem
  · exact hexcused

/-- **What is left when `run` ends.** Take any run of a new job in which every step that
leaves a chunk of a file behind is excused: the job is removed by then, and the file
has one path only. If `run` ends and the job is not removed, no bit of a needed file is
clear; and a file is copied only when none of its bits is clear. -/
theorem run_end {j₀ j : Job} {as : List Action} (hpc : j₀.pc = .notStarted) (htasks : j₀.tasks = [])
    (hrange : ClearBitsInRange j₀.jobInfo)
    (hcond : Always (step sha1) (fun k a => ∀ fileid, LeavesBehind k a fileid → k.Excused fileid) j₀ as)
    (hrun : exec (step sha1) j₀ as = some j) :
    (j.pc = .ended → j.jobInfo.downloadInfo.isJobRemoved = false →
      ∀ fileid ∈ j.jobInfo.fileidlist, ∀ pos, j.jobInfo.downloadInfo.bit fileid pos ≠ some false) ∧
    ∀ fileid source target todo, j.pc = .copying ((fileid, source, target) :: todo) →
      ∀ pos, j.jobInfo.downloadInfo.bit fileid pos ≠ some false := by
  have hj₀ : j₀.Accounted := by
    have hidle : j₀.NoTaskInFlight := by
      intro t ht
      rw [htasks] at ht
      cases ht
    refine ⟨⟨hidle.reportedOver, ?_⟩, fun _ => .inl hpc, fun _ => hidle, hrange, ?_, ?_, ?_⟩
    all_goals rw [hpc]
    · trivial
    · rintro ⟨⟩
    · rintro (h | h) <;> cases h
    · rintro todo ⟨⟩
  have hj : j.Accounted := exec_invariant_of_always step_accounted hcond hrun hj₀
  constructor
  · intro hended hremoved fileid hf pos hbit
    have hexcused := hj.excused (by rw [hended]; rfl) hf hbit
    rw [hexcused.1] at hremoved
    cases hremoved
  · intro fileid source target todo hcopy pos hbit
    obtain ⟨targets, hsame, htarget⟩ := hj.copies _ hcopy _ List.mem_cons_self
    have hf : fileid ∈ j.jobInfo.fileidlist := j.jobInfo.needed fileid (by rw [hsame]; simp)
    have hexcused := hj.excused (by rw [hcopy]; rfl) hf hbit
    have hlen : (source :: targets).length ≤ 1 := by
      have := hexcused.2
      rwa [LocalFileInfo.paths, hsame] at this
    cases targets with
    | nil => cases htarget
    | cons target' targets => simp at hlen

/-- The small job loses its chunk: `run` starts the task and finds the queue empty, and only
then does the task fail. -/
def lostChunkRun : List Action :=
  [.start, .run .go, .run .go, .run .go, .run .go, .run .go, .run .go, .run (.top 0), .run .go, .run (.conn (.ok none)),
    .run .go, .run .go, .run .go, .run .go, .run .go, .run (.top 0), .task 0 .fail, .onFailed 0, .onFinished 0,
    .run .go, .run .go]

/-- `run` then ends, though the job is not removed and the bit is clear. -/
theorem lost_chunk : ∃ j : Job, exec (step oneChunkSha1) oneChunkJob lostChunkRun = some j ∧ j.pc = .ended ∧
    j.jobInfo.downloadInfo.isJobRemoved = false ∧ "f" ∈ j.jobInfo.fileidlist ∧
    j.jobInfo.downloadInfo.bit "f" 0 = some false :=
  ⟨_, rfl, rfl, rfl, List.mem_singleton.mpr rfl, rfl⟩

/-- The small job fetches its chunk and ends. -/
def completeRun : List Action :=
  oneChunkRun ++ [.run .go, .run .go, .run .go, .run (.top 0), .run .go, .run .go]

/-- The bit of the small job is set then. -/
theorem run_end_oneChunkJob : ∃ j : Job, exec (step oneChunkSha1) oneChunkJob completeRun = some j ∧ j.pc = .ended ∧
    j.jobInfo.downloadInfo.bit "f" 0 ≠ some false := by
  have hcond : Always (step oneChunkSha1) (fun k a => k.keepsChunks a) oneChunkJob completeRun := by decide
  have hrange : ClearBitsInRange oneChunkJob.jobInfo := by
    refine @clearBitsInRange_new oneChunkTorrent "/d/" [⟨"", "a"⟩] 0 0 (fun _ => none) ∅ ?_
    intro file hfile file' hfile' _
    rw [List.mem_singleton.mp hfile, List.mem_singleton.mp hfile']
  refine ⟨_, rfl, rfl, (run_end rfl rfl hrange (hcond.mono ?_) rfl).1 rfl rfl "f" ?_ 0⟩
  · intro k a ha fileid hleaves
    exact absurd ha hleaves.not_keepsChunks
  · exact List.mem_singleton.mpr rfl

end Job

end CoolDown
