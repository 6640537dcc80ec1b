import CoolDown.Client.Job
import CoolDown.Library.WorkPool

/-!
# Where a chunk is

During one activation of `run` a chunk is done (its bit is set), queued, held by `run`,
or in flight in a task that has not been reported yet. `pool` reads these places off a
job as a `Library.WorkPool`, and `step_pool` shows that after `init_queue` every step of
the job is a step of the pool.

## What is proved

* `step_pool`: the job refines the pool.
* `one_place_per_chunk`: after `init_queue` the queue holds each clear chunk of the
  needed files once; in every later state each chunk is in one place at most, a chunk
  whose bit is set is never queued or fetched again, and the `taskFinished` of a task
  that has failed sets no bit.
-/

namespace CoolDown

open Library ChunkSelector

/-- In flight: `taskFinished` is still to come, and the task has not been reported. -/
def DownloadTask.live (t : DownloadTask) : Bool := !t.reported && decide (t.phase ≠ .finished ∧ t.phase ≠ .died)

namespace Job

/-- The chunks in flight. -/
def liveItems (tasks : List DownloadTask) : List (String × ℕ) :=
  (tasks.filter DownloadTask.live).map DownloadTask.item

/-- The number of places chunk `pos` of `fileid` is in: its bitmap, the queue (as often
as it is queued), the hands of `run`, and the tasks in flight. -/
def places (j : Job) (fileid : String) (pos : ℕ) : ℕ :=
  (if j.jobInfo.downloadInfo.bit fileid pos = some true then 1 else 0) +
    (j.queue.map ChunkInfo.item).count (fileid, pos) +
    (if j.pc.held.map ChunkInfo.item = some (fileid, pos) then 1 else 0) +
    (liveItems j.tasks).count (fileid, pos)

/-- The chunks of a queue, in no order. -/
def queued (queue : List ChunkInfo) : Multiset (String × ℕ) := (queue.map ChunkInfo.item : List (String × ℕ))

/-- The chunks in flight, in no order. -/
def flying (tasks : List DownloadTask) : Multiset (String × ℕ) := (liveItems tasks : List (String × ℕ))

/-- The chunks of a job as items of work. -/
def pool (j : Job) : WorkPool (String × ℕ) where
  done := { x | j.jobInfo.downloadInfo.bit x.1 x.2 = some true }
  queued := queued j.queue
  held := j.pc.held.map ChunkInfo.item
  flying := flying j.tasks

theorem places_pool (j : Job) (fileid : String) (pos : ℕ) : j.pool.places (fileid, pos) = j.places fileid pos := by
  simp only [WorkPool.places, pool, queued, flying, places, Multiset.coe_count, Set.mem_ofPred_eq]
  congr <;> exact lawful_beq_subsingleton _ _

/-! ### Tasks -/

/-- A task that has been reported is past `runTask`. -/
def ReportedOver (j : Job) : Prop :=
  ∀ t ∈ j.tasks, t.reported → t.phase.pending = false

/-- No task is in flight. -/
def NoTaskInFlight (j : Job) : Prop := ∀ t ∈ j.tasks, t.phase = .finished ∨ t.phase = .died

theorem NoTaskInFlight.reportedOver {j : Job} (h : j.NoTaskInFlight) : j.ReportedOver := by
  intro t ht _
  rcases h t ht with hp | hp <;> rw [hp] <;> rfl

theorem NoTaskInFlight.liveItems_eq {j : Job} (h : j.NoTaskInFlight) : liveItems j.tasks = [] := by
  have : j.tasks.filter DownloadTask.live = [] := by
    refine List.filter_eq_nil_iff.mpr fun t ht => ?_
    rcases h t ht with hp | hp <;> simp [DownloadTask.live, hp]
  rw [liveItems, this, List.map_nil]

variable {sha1 : Bytes → String}

/-- Replacing a task by one about the same chunk that is as much in flight. -/
theorem flying_set_of_eq {tasks : List DownloadTask} {i : ℕ} {t t' : DownloadTask} (h : tasks[i]? = some t)
    (hitem : t'.item = t.item) (hlive : t'.live = t.live) : flying (tasks.set i t') = flying tasks := by
  obtain ⟨l₁, l₂, rfl, hset⟩ := exists_set_eq_append h
  rw [hset]
  cases hl : t.live <;> simp [flying, liveItems, hlive, hl, hitem]

/-- Replacing a task in flight by one that is not. -/
theorem flying_eq_cons_set {tasks : List DownloadTask} {i : ℕ} {t t' : DownloadTask} (h : tasks[i]? = some t)
    (hlive : t.live) (hlive' : ¬ t'.live) : flying tasks = t.item ::ₘ flying (tasks.set i t') := by
  obtain ⟨l₁, l₂, rfl, hset⟩ := exists_set_eq_append h
  rw [hset]
  apply Multiset.coe_eq_coe.mpr
  simp only [liveItems, List.filter_append, List.filter_cons_of_pos hlive, List.filter_cons_of_neg hlive',
    List.map_append, List.map_cons]
  exact List.perm_middle

/-- Starting a task. -/
theorem flying_append {tasks : List DownloadTask} {t : DownloadTask} (hlive : t.live) :
    flying (tasks ++ [t]) = t.item ::ₘ flying tasks := by
  apply Multiset.coe_eq_coe.mpr
  rw [liveItems, List.filter_append, List.map_append, List.filter_cons_of_pos hlive]
  exact List.perm_append_singleton _ _

/-- Queuing a chunk. -/
theorem queued_append (queue : List ChunkInfo) (chunk : ChunkInfo) :
    queued (queue ++ [chunk]) = chunk.item ::ₘ queued queue := by
  apply Multiset.coe_eq_coe.mpr
  rw [List.map_append]
  exact List.perm_append_singleton _ _

/-- Taking a chunk from the queue. -/
theorem queued_eq_cons_eraseIdx {queue : List ChunkInfo} {i : ℕ} {chunk : ChunkInfo} (h : queue[i]? = some chunk) :
    queued queue = chunk.item ::ₘ queued (queue.eraseIdx i) := by
  obtain ⟨hlt, rfl⟩ := List.getElem?_eq_some_iff.mp h
  exact Multiset.coe_eq_coe.mpr ((List.getElem_cons_eraseIdx_perm hlt).symm.map _)

/-! ### The job refines the pool -/

/-- What is in the pool but for the chunks done, field by field. -/
theorem pool_eq {j : Job} {q f : Multiset (String × ℕ)} {h : Option (String × ℕ)} (hq : queued j.queue = q)
    (hh : j.pc.held.map ChunkInfo.item = h) (hf : flying j.tasks = f) : j.pool = ⟨j.pool.done, q, h, f⟩ := by
  subst hq hh hf
  rfl

theorem held_eq {j : Job} {pc : Pc} (h : j.pc = pc) : j.pc.held.map ChunkInfo.item = pc.held.map ChunkInfo.item := by
  rw [h]

/-- The chunks a step loses, but for the one `run` holds when it throws. -/
inductive Drops (j : Job) : Action → String × ℕ → Prop where
  /-- Starting the task throws. -/
  | start (chunk : ChunkInfo) (peer : String) (sock : Sock) (fileInfo : Torrent.File)
      (hpc : j.pc = .startTask chunk peer sock fileInfo) : Drops j (.run .throws) chunk.item
  /-- `onFailed` throws. -/
  | onFailed (i : ℕ) (t : DownloadTask) (e : Exception) (hi : j.tasks[i]? = some t)
      (he : reportFailedChunk j.jobInfo j.queue t.chunkPos t.fileid = .error e) : Drops j (.onFailed i) t.item
  /-- `onFinished` throws. -/
  | onFinished (i : ℕ) (t : DownloadTask) (info : JobInfo) (e : Exception) (hi : j.tasks[i]? = some t)
      (he : reportSuccessChunk j.jobInfo t.chunkPos t.fileid = (info, .error e)) : Drops j (.onFinished i) t.item

/-- A step of `run` other than `init_queue` is a step of the pool. -/
theorem runStep_pool {j j' : Job} {ev : RunEvent} (h : RunStep j ev j') (hpc : j.pc ≠ .initQueue)
    (hfile : j.pc.FileChecked j.jobInfo.torrentInfo j.jobInfo.localFileInfo) :
    ∃ l, WorkPool.Step j.pool l j'.pool ∧ ∀ x ∈ l, j'.pc = .aborted ∨ Drops j (.run ev) x := by
  -- nothing is held before or after
  have hidle : j.pc.held = none → ∀ {k : Job}, k.pool = { j.pool with held := none } →
      ∃ l, WorkPool.Step j.pool l k.pool ∧ ∀ x ∈ l, k.pc = .aborted ∨ Drops j (.run ev) x := by
    intro hheld k hk
    refine ⟨none, (WorkPool.Step.idle j.pool).of_eq rfl (hk.trans ?_), by rintro x ⟨⟩⟩
    exact (pool_eq rfl (congrArg _ hheld) rfl).symm
  cases h with
  | move pc owners m hstage hin hheld hfile' =>
    exact ⟨none, (WorkPool.Step.idle j.pool).of_eq rfl (pool_eq rfl (congrArg _ hheld) rfl), by rintro x ⟨⟩⟩
  | init info queue hinit => exact absurd hinit hpc
  | initThrows info hinit => exact absurd hinit hpc
  | take i chunk pc hget hi hheld =>
    refine ⟨none, (WorkPool.Step.take j.pool.done chunk.item _ j.pool.flying).of_eq
      (pool_eq (queued_eq_cons_eraseIdx hi) (held_eq hget) rfl) (pool_eq rfl (congrArg _ hheld) rfl), by rintro x ⟨⟩⟩
  | empty hget hqueue => exact hidle (by rw [hget]; rfl) rfl
  | putBack chunk chunk' hchoose hitem =>
    refine ⟨none, (WorkPool.Step.putBack j.pool.done chunk.item j.pool.queued j.pool.flying).of_eq
      (pool_eq rfl (held_eq hchoose) rfl) (pool_eq (hitem ▸ queued_append _ _) rfl rfl), by rintro x ⟨⟩⟩
  | launch chunk peer sock fileInfo file hstart hget =>
    rw [hstart] at hfile
    have hitem : (DownloadTask.new fileInfo peer sock chunk.chunkNum file).item = chunk.item :=
      Prod.ext (TorrentInfo.getOneFileOfSameFileid_mem hfile.1).2 rfl
    refine ⟨none, (WorkPool.Step.launch j.pool.done chunk.item j.pool.queued j.pool.flying).of_eq
      (pool_eq rfl (held_eq hstart) rfl) (pool_eq rfl rfl (hitem ▸ flying_append rfl)), by rintro x ⟨⟩⟩
  | drop chunk peer sock fileInfo hstart hev =>
    subst hev
    refine ⟨some chunk.item, (WorkPool.Step.drop j.pool.done chunk.item j.pool.queued j.pool.flying).of_eq
      (pool_eq rfl (held_eq hstart) rfl) rfl, ?_⟩
    rintro x ⟨⟩
    exact .inr (.start chunk peer sock fileInfo hstart)
  | noFile chunk peer sock fileInfo hstart hnone =>
    rw [hstart] at hfile
    have hsome := hfile.2
    rw [hnone] at hsome
    cases hsome
  | leave hread => exact hidle (by rw [hread]; rfl) rfl
  | joined hjoin => exact hidle (by rw [hjoin]; rfl) rfl
  | copied fileid source target todo disk hcopy => exact hidle (by rw [hcopy]; rfl) rfl
  | ended hcopy => exact hidle (by rw [hcopy]; rfl) rfl
  | abort m =>
    obtain ⟨l, hstep⟩ := j.pool.exists_step_of_held_none
    exact ⟨l, hstep, fun _ _ => .inl rfl⟩

/-- `onFailed` is a step of the pool. -/
theorem onFailed_pool {j : Job} {i : ℕ} {t : DownloadTask} (hi : j.tasks[i]? = some t) (hphase : t.phase = .threw)
    (hreported : t.reported = false) :
    ∃ l, WorkPool.Step j.pool l (j.onFailed i t).pool ∧ ∀ x ∈ l, Drops j (.onFailed i) x := by
  have hlive : t.live := by simp [DownloadTask.live, hphase, hreported]
  rcases j.onFailed_cases i t with ⟨chunk, hitem, heq⟩ | ⟨⟨e, he⟩, heq⟩
  · rw [heq]
    refine ⟨none, (WorkPool.Step.fail j.pool.done t.item j.pool.queued j.pool.held _).of_eq
      (pool_eq rfl rfl (flying_eq_cons_set hi hlive (by simp [DownloadTask.live])))
      (pool_eq (hitem ▸ queued_append _ _) rfl rfl), by rintro x ⟨⟩⟩
  · rw [heq]
    refine ⟨some t.item, (WorkPool.Step.lose j.pool.done t.item j.pool.queued j.pool.held _).of_eq
      (pool_eq rfl rfl (flying_eq_cons_set hi hlive (by simp [DownloadTask.live]))) (pool_eq rfl rfl rfl), ?_⟩
    rintro x ⟨⟩
    exact .onFailed i t e hi he

/-- `onFinished` is a step of the pool. -/
theorem onFinished_pool {j : Job} {i : ℕ} {t : DownloadTask} (hi : j.tasks[i]? = some t) (hphase : t.phase = .ended) :
    ∃ l, WorkPool.Step j.pool l (j.onFinished i t).pool ∧ ∀ x ∈ l, Drops j (.onFinished i) x := by
  rcases j.onFinished_cases i t with ⟨hr, m, phase, hp, heq⟩ | ⟨hr, info, m, phase, hs, hp, heq⟩ | ⟨hr, info, e, hs, heq⟩
  · -- already reported: nothing changes place
    rw [heq]
    refine ⟨none, (WorkPool.Step.idle j.pool).of_eq rfl (pool_eq rfl rfl (flying_set_of_eq hi rfl ?_)), by rintro x ⟨⟩⟩
    simp [DownloadTask.live, hr]
  · have hlive : t.live := by simp [DownloadTask.live, hphase, hr]
    have hdone : { x : String × ℕ | info.downloadInfo.bit x.1 x.2 = some true } = insert t.item j.pool.done := by
      ext ⟨fileid, pos⟩
      rw [Set.mem_insert_iff, Set.mem_ofPred_eq, bit_reportSuccessChunk hs]
      split_ifs with he
      · simp [he, DownloadTask.item]
      · simp [he, DownloadTask.item, pool]
    rw [heq]
    refine ⟨none, (WorkPool.Step.succeed j.pool.done t.item j.pool.queued j.pool.held _).of_eq
      (pool_eq rfl rfl (flying_eq_cons_set hi hlive ?_)) ((pool_eq rfl rfl rfl).trans (by rw [← hdone]; rfl)),
      by rintro x ⟨⟩⟩
    simp [DownloadTask.live]
  · have hlive : t.live := by simp [DownloadTask.live, hphase, hr]
    have hbit := (reportSuccessChunk_spec j.jobInfo t.chunkPos t.fileid).2
    rw [hs] at hbit
    have hdone : { x : String × ℕ | info.downloadInfo.bit x.1 x.2 = some true } = j.pool.done := by
      ext ⟨fileid, pos⟩
      simp [hbit, pool]
    rw [heq]
    refine ⟨some t.item, (WorkPool.Step.lose j.pool.done t.item j.pool.queued j.pool.held _).of_eq
      (pool_eq rfl rfl (flying_eq_cons_set hi hlive ?_)) ((pool_eq rfl rfl rfl).trans (by rw [← hdone]; rfl)), ?_⟩
    · simp [DownloadTask.live]
    · rintro x ⟨⟩
      exact .onFinished i t info e hi hs

/-! ### Runs -/

/-- What the steps of a job keep: reported tasks are past `runTask`, and the file is
checked when a task is about to be started. -/
structure Sound (j : Job) : Prop where
  reportedOver : j.ReportedOver
  fileChecked : j.pc.FileChecked j.jobInfo.torrentInfo j.jobInfo.localFileInfo

/-- A task that has not been reported stays as much in flight while `runTask` goes on. -/
theorem live_of_runTask {t : DownloadTask} {phase : DownloadTask.Phase} (hph : t.phase.pending)
    (hph' : phase.pending ∨ phase = .ended) : { t with phase := phase }.live = t.live := by
  have hne : ∀ {ph : DownloadTask.Phase}, ph.pending ∨ ph = .ended → ph ≠ .finished ∧ ph ≠ .died := by
    rintro ph hp
    constructor <;> rintro rfl <;> simp [DownloadTask.Phase.pending] at hp
  simp only [DownloadTask.live, decide_eq_true (hne hph'), decide_eq_true (hne (.inl hph))]

/-- `runTask` has not been reported while it goes on. -/
theorem ReportedOver.not_reported {j : Job} (h : j.ReportedOver) {i : ℕ} {t : DownloadTask} (hi : j.tasks[i]? = some t)
    (hph : t.phase.pending) : t.reported = false := by
  cases hr : t.reported with
  | false => rfl
  | true =>
    rw [h t (List.mem_of_getElem? hi) hr] at hph
    cases hph

/-- A step of a task, a notification or somebody else is a step of the pool. -/
theorem step_pool_of_others {j j' : Job} {a : Action} (hs : j.Sound) (hrun : ∀ ev, a ≠ .run ev) (ha : a ≠ .start)
    (h : step sha1 j a = some j') : ∃ l, WorkPool.Step j.pool l j'.pool ∧ ∀ x ∈ l, Drops j a x := by
  cases a with
  | start => exact absurd rfl ha
  | run ev => exact absurd rfl (hrun ev)
  | task i ev =>
    obtain ⟨t, phase, d, disk, hi, hrun, rfl⟩ := step_task h
    obtain ⟨hph, ⟨n, rfl⟩, hrest⟩ := DownloadTask.runTask_frame hrun
    have hph' : phase.pending ∨ phase = .ended := hrest.imp And.left fun ⟨_, _, h, _⟩ => h
    exact ⟨none, (WorkPool.Step.idle j.pool).of_eq rfl
      (pool_eq rfl rfl (flying_set_of_eq hi rfl (live_of_runTask hph hph'))), by rintro x ⟨⟩⟩
  | onFailed i =>
    obtain ⟨t, hi, hphase, rfl⟩ := step_onFailed h
    exact onFailed_pool hi hphase (hs.reportedOver.not_reported hi (by rw [hphase]; rfl))
  | onFinished i =>
    obtain ⟨t, hi, hphase, rfl⟩ := step_onFinished h
    exact onFinished_pool hi hphase
  | env ev =>
    cases h
    have hdone : { x : String × ℕ | (envDownloadInfo j.jobInfo.downloadInfo ev).bit x.1 x.2 = some true } = j.pool.done := by
      simp [DownloadInfo.bit, pool]
    refine ⟨none, (WorkPool.Step.idle j.pool).of_eq rfl ?_, by rintro x ⟨⟩⟩
    show WorkPool.mk { x | (envDownloadInfo j.jobInfo.downloadInfo ev).bit x.1 x.2 = some true } _ _ _ = j.pool
    rw [hdone]
    rfl

/-- **The job refines the pool.** Unless `run` is started again or fills the queue, a step
of the job is a step of the pool, and loses only what `Drops` says, or what `run` holds
when it throws. -/
theorem step_pool {j j' : Job} {a : Action} (hs : j.Sound) (hpc : j.pc ≠ .initQueue ∨ ∀ ev, a ≠ .run ev)
    (ha : a ≠ .start) (h : step sha1 j a = some j') :
    ∃ l, WorkPool.Step j.pool l j'.pool ∧ ∀ x ∈ l, j'.pc = .aborted ∨ Drops j a x := by
  by_cases hrun : ∃ ev, a = .run ev
  · obtain ⟨ev, rfl⟩ := hrun
    have hpc : j.pc ≠ .initQueue := hpc.resolve_right fun hne => hne ev rfl
    exact runStep_pool (runStep_cases h) hpc hs.fileChecked
  · obtain ⟨l, hstep, hdrops⟩ := step_pool_of_others hs (not_exists.mp hrun) ha h
    exact ⟨l, hstep, fun x hx => .inr (hdrops x hx)⟩

/-! ### Soundness -/

theorem reportedOver_set {j : Job} {tasks : List DownloadTask} {i : ℕ} {t' : DownloadTask} (hj : j.ReportedOver)
    (htasks : tasks = j.tasks.set i t') (ht' : t'.reported → t'.phase.pending = false) :
    ∀ t ∈ tasks, t.reported → t.phase.pending = false := by
  intro t ht
  rw [htasks] at ht
  rcases List.mem_or_eq_of_mem_set ht with ht | rfl
  · exact hj t ht
  · exact ht'

/-- Every step keeps a job sound. -/
theorem step_sound {j j' : Job} {a : Action} (hs : j.Sound) (h : step sha1 j a = some j') : j'.Sound := by
  obtain ⟨hover, hfile⟩ := hs
  cases a with
  | start =>
    obtain ⟨-, rfl⟩ := step_start h
    exact ⟨hover, trivial⟩
  | run ev =>
    cases runStep_cases h with
    | move pc owners m hstage hin hheld hfile' => exact ⟨hover, hfile'⟩
    | take i chunk pc hget hi hheld hstage hfile' => exact ⟨hover, hfile'⟩
    | launch chunk peer sock fileInfo file hstart hget =>
      refine ⟨?_, trivial⟩
      intro t ht hr
      rcases List.mem_append.mp ht with ht | ht
      · exact hover t ht hr
      · obtain rfl := List.mem_singleton.mp ht
        cases hr
    | init | initThrows | empty | putBack | drop | noFile | leave | joined | copied | ended | abort => exact ⟨hover, trivial⟩
  | task i ev =>
    obtain ⟨t, phase, d, disk, hi, hrun, rfl⟩ := step_task h
    obtain ⟨hph, ⟨n, rfl⟩, -⟩ := DownloadTask.runTask_frame hrun
    refine ⟨reportedOver_set hover rfl fun hr => ?_, hfile⟩
    rw [hover.not_reported hi hph] at hr
    cases hr
  | onFailed i =>
    obtain ⟨t, hi, hphase, rfl⟩ := step_onFailed h
    rcases j.onFailed_cases i t with ⟨chunk, hitem, heq⟩ | ⟨-, heq⟩
    · rw [heq]
      exact ⟨reportedOver_set hover rfl fun _ => rfl, hfile⟩
    · rw [heq]
      exact ⟨reportedOver_set hover rfl fun _ => rfl, hfile⟩
  | onFinished i =>
    obtain ⟨t, hi, hphase, rfl⟩ := step_onFinished h
    have honly := (reportSuccessChunk_spec j.jobInfo t.chunkPos t.fileid).1
    rcases j.onFinished_cases i t with ⟨-, m, phase, hp, heq⟩ | ⟨-, info, m, phase, hr, hp, heq⟩ | ⟨-, info, e, hr, heq⟩
    · rw [heq]
      exact ⟨reportedOver_set hover rfl fun _ => by rcases hp with rfl | rfl <;> rfl, hfile⟩
    · rw [hr] at honly
      obtain ⟨bitmaps, rfl⟩ := honly
      rw [heq]
      exact ⟨reportedOver_set hover rfl fun _ => by rcases hp with rfl | rfl <;> rfl, hfile⟩
    · rw [hr] at honly
      obtain ⟨bitmaps, rfl⟩ := honly
      rw [heq]
      exact ⟨reportedOver_set hover rfl fun _ => rfl, hfile⟩
  | env ev =>
    cases h
    exact ⟨hover, hfile⟩

/-! ### One activation -/

/-- While no task is in flight, only `run` can start one. -/
theorem step_noTaskInFlight {j j' : Job} {a : Action} (hj : j.NoTaskInFlight) (hstage : j.pc.stage ≠ .loop)
    (h : step sha1 j a = some j') : j'.NoTaskInFlight := by
  cases a with
  | start =>
    obtain ⟨-, rfl⟩ := step_start h
    exact hj
  | run ev =>
    cases runStep_cases h with
    | launch chunk peer sock fileInfo file hstart hget =>
      rw [hstart] at hstage
      exact absurd rfl hstage
    | move | init | initThrows | take | empty | putBack | drop | noFile | leave | joined | copied | ended | abort =>
      exact hj
  | task i ev =>
    obtain ⟨t, phase, d, disk, hi, hrun, rfl⟩ := step_task h
    have hpending := (DownloadTask.runTask_frame hrun).1
    rcases hj t (List.mem_of_getElem? hi) with hp | hp <;> (rw [hp] at hpending; cases hpending)
  | onFailed i =>
    obtain ⟨t, hi, hphase, rfl⟩ := step_onFailed h
    rcases hj t (List.mem_of_getElem? hi) with hp | hp <;> (rw [hp] at hphase; cases hphase)
  | onFinished i =>
    obtain ⟨t, hi, hphase, rfl⟩ := step_onFinished h
    rcases hj t (List.mem_of_getElem? hi) with hp | hp <;> (rw [hp] at hphase; cases hphase)
  | env ev =>
    cases h
    exact hj

/-- Nobody but the thread of `run` moves it, or changes `is_running_`. -/
theorem step_of_others {j j' : Job} {a : Action} (ha : a ≠ .start) (hrun : ∀ ev, a ≠ .run ev)
    (h : step sha1 j a = some j') : j'.pc = j.pc ∧ j'.isRunning = j.isRunning := by
  cases a with
  | start => exact absurd rfl ha
  | run ev => exact absurd rfl (hrun ev)
  | task i ev =>
    obtain ⟨t, phase, d, disk, hi, hrun, rfl⟩ := step_task h
    exact ⟨rfl, rfl⟩
  | onFailed i =>
    obtain ⟨t, hi, hphase, rfl⟩ := step_onFailed h
    rcases j.onFailed_cases i t with ⟨_, _, heq⟩ | ⟨_, heq⟩ <;> (rw [heq]; exact ⟨rfl, rfl⟩)
  | onFinished i =>
    obtain ⟨t, hi, hphase, rfl⟩ := step_onFinished h
    rcases j.onFinished_cases i t with ⟨_, _, _, _, heq⟩ | ⟨_, _, _, _, _, _, heq⟩ | ⟨_, _, _, _, heq⟩ <;>
      (rw [heq]; exact ⟨rfl, rfl⟩)
  | env ev =>
    cases h
    exact ⟨rfl, rfl⟩

theorem pc_step {j j' : Job} {a : Action} (ha : a ≠ .start) (hrun : ∀ ev, a ≠ .run ev) (h : step sha1 j a = some j') :
    j'.pc = j.pc :=
  (step_of_others ha hrun h).1

theorem isRunning_step {j j' : Job} {a : Action} (ha : a ≠ .start) (hrun : ∀ ev, a ≠ .run ev)
    (h : step sha1 j a = some j') : j'.isRunning = j.isRunning :=
  (step_of_others ha hrun h).2

/-- No step of `run` leads back to the part before `init_queue`. -/
theorem stage_of_prologue {j j' : Job} {a : Action} (ha : a ≠ .start) (h : step sha1 j a = some j')
    (hstage : j'.pc.stage = .prologue) : j.pc.stage = .prologue := by
  by_cases hrun : ∃ ev, a = .run ev
  · obtain ⟨ev, rfl⟩ := hrun
    cases runStep_cases h with
    | move pc owners m hsame hin hheld hfile => exact hsame.symm.trans hstage
    | take i chunk pc hget hi hheld hloop hfile => exact absurd (hloop.symm.trans hstage) (by decide)
    | init | initThrows | empty | putBack | launch | drop | noFile | leave | joined | copied | ended | abort =>
      exact absurd hstage (by simp [Pc.stage])
  · rwa [pc_step ha (not_exists.mp hrun) h] at hstage

/-- Until `init_queue` has returned, no task is in flight if none was when `run` was started. -/
theorem step_prologue {j j' : Job} {a : Action} (hj : j.pc.stage = .prologue → j.NoTaskInFlight) (ha : a ≠ .start)
    (h : step sha1 j a = some j') : j'.pc.stage = .prologue → j'.NoTaskInFlight := by
  intro hstage
  have hstage := stage_of_prologue ha h hstage
  exact step_noTaskInFlight (hj hstage) (by rw [hstage]; decide) h

/-- What holds once `init_queue` has returned. -/
structure OnePlace (j : Job) : Prop where
  sound : j.Sound
  queueFilled : j.pc.stage.queueFilled
  places_le : ∀ x, j.pool.places x ≤ 1

/-- `init_queue` returns: what it leaves. -/
theorem step_initQueue {j j' : Job} (hpc : j.pc = .initQueue) (h : step sha1 j (.run .go) = some j')
    (hok : j'.pc = .readRemoved) :
    ∃ queue, initQueue j.jobInfo = (j.jobInfo, .ok queue) ∧ j' = { j with queue := queue, pc := .readRemoved } := by
  rw [step, hpc, runStep] at h
  split at h
  · rename_i info queue hinit
    obtain ⟨rfl, -⟩ := initFiles_eq_ok hinit
    exact ⟨queue, hinit, (Option.some.inj h).symm⟩
  · cases h
    cases hok

/-- After `init_queue` every chunk is in one place at most. -/
theorem onePlace_initQueue {j j' : Job} (hs : j.Sound) (hidle : j.NoTaskInFlight) (hpc : j.pc = .initQueue)
    (h : step sha1 j (.run .go) = some j') (hok : j'.pc = .readRemoved) : j'.OnePlace := by
  obtain ⟨queue, hinit, rfl⟩ := step_initQueue hpc h hok
  refine ⟨⟨hs.reportedOver, trivial⟩, rfl, ?_⟩
  rintro ⟨fileid, pos⟩
  have hflying : (liveItems j.tasks).count (fileid, pos) = 0 := by rw [hidle.liveItems_eq, List.count_nil]
  rw [places_pool, places, count_initQueue hinit, hflying]
  cases hbit : j.jobInfo.downloadInfo.bit fileid pos with
  | none => simp [Pc.held]
  | some b =>
    cases b
    · simp only [Pc.held, Option.map_none, reduceCtorEq, if_false, Option.some.injEq, Bool.false_eq_true]
      split_ifs <;> omega
    · simp [Pc.held]

/-- `init_queue` stays over until `run` is started again. -/
theorem step_queueFilled {j j' : Job} {a : Action} (hj : j.pc.stage.queueFilled) (ha : a ≠ .start)
    (h : step sha1 j a = some j') : j'.pc.stage.queueFilled := by
  by_cases hrun : ∃ ev, a = .run ev
  · obtain ⟨ev, rfl⟩ := hrun
    cases runStep_cases h with
    | move pc owners m hsame hin hheld hfile => exact hsame ▸ hj
    | take i chunk pc hget hi hheld hloop hfile => exact congrArg Stage.queueFilled hloop
    | init | initThrows | empty | putBack | launch | drop | noFile | leave | joined | copied | ended | abort => rfl
  · rwa [pc_step ha (not_exists.mp hrun) h]

/-- Every later step of the activation keeps it so. -/
theorem step_onePlace {j j' : Job} {a : Action} (hj : j.OnePlace) (ha : a ≠ .start) (h : step sha1 j a = some j') :
    j'.OnePlace ∧ j.pool.done ⊆ j'.pool.done := by
  have hpc : j.pc ≠ .initQueue := by
    intro hpc
    have hfilled := hj.queueFilled
    rw [hpc] at hfilled
    cases hfilled
  obtain ⟨l, hstep, -⟩ := step_pool hj.sound (.inl hpc) ha h
  exact ⟨⟨step_sound hj.sound h, step_queueFilled hj.queueFilled ha h, fun x => (hstep.places_le x).trans (hj.places_le x)⟩,
    hstep.done_subset⟩

/-- Every later state of the activation. -/
theorem run_onePlace {j j' : Job} {as : List Action} (hj : j.OnePlace) (has : ∀ a ∈ as, a ≠ .start)
    (h : exec (step sha1) j as = some j') : j'.OnePlace ∧ j.pool.done ⊆ j'.pool.done := by
  refine @exec_invariant_of_always _ _ _ (fun k => k.OnePlace ∧ j.pool.done ⊆ k.pool.done) _ ?_ _ _ _
    (always_of_forall_mem has j) h ⟨hj, subset_rfl⟩
  rintro k a k' ⟨hk, hsub⟩ ha hstep
  obtain ⟨hk', hsub'⟩ := step_onePlace hk ha hstep
  exact ⟨hk', hsub.trans hsub'⟩

/-- The state before `init_queue`. -/
theorem run_prologue {j j' : Job} {as : List Action} (hidle : j.NoTaskInFlight) (has : ∀ a ∈ as, a ≠ .start)
    (h : exec (step sha1) j (.start :: as) = some j') (hpc : j'.pc = .initQueue) : j'.Sound ∧ j'.NoTaskInFlight := by
  obtain ⟨k, hstart, hrun⟩ := exec_cons_eq_some.mp h
  have hk : k.Sound ∧ (k.pc.stage = .prologue → k.NoTaskInFlight) := by
    obtain ⟨-, rfl⟩ := step_start hstart
    exact ⟨⟨hidle.reportedOver, trivial⟩, fun _ => hidle⟩
  obtain ⟨hs, hidle'⟩ := @exec_invariant_of_always _ _ _
    (fun k => k.Sound ∧ (k.pc.stage = .prologue → k.NoTaskInFlight)) _
    (fun hk ha hstep => ⟨step_sound hk.1 hstep, step_prologue hk.2 ha hstep⟩) _ _ _
    (always_of_forall_mem has k) hrun hk
  exact ⟨hs, hidle' (by rw [hpc]; rfl)⟩

/-- A chunk whose bit is set is nowhere else. -/
theorem OnePlace.of_bit {j : Job} (hj : j.OnePlace) {fileid : String} {pos : ℕ}
    (hbit : j.jobInfo.downloadInfo.bit fileid pos = some true) :
    (fileid, pos) ∉ j.queue.map ChunkInfo.item ∧ j.pc.held.map ChunkInfo.item ≠ some (fileid, pos) ∧
      (fileid, pos) ∉ liveItems j.tasks := by
  have hdone : (fileid, pos) ∈ j.pool.done := hbit
  exact WorkPool.not_mem_of_mem_done hdone (hj.places_le _)

/-- **One place per chunk.** In an activation of `run` that was started with no task in
flight, the queue after `init_queue` holds every chunk of the needed files whose bit is
clear once, and no other. In every state of the activation after that, a chunk is in
one place at most; if its bit is set it stays set, and the chunk is not queued, held or
in flight again; and `taskFinished` for a task that has been reported changes no bit. -/
theorem one_place_per_chunk {j₀ j₁ j₂ : Job} {before : List Action} (hidle : j₀.NoTaskInFlight)
    (hbefore : ∀ a ∈ before, a ≠ .start) (h₁ : exec (step sha1) j₀ (.start :: before) = some j₁)
    (hpc : j₁.pc = .initQueue) (h₂ : step sha1 j₁ (.run .go) = some j₂) (hok : j₂.pc = .readRemoved) :
    (∀ fileid pos, (j₂.queue.map ChunkInfo.item).count (fileid, pos) =
      if fileid ∈ j₂.jobInfo.uniqueFileidList ∧ pos < chunkCountOf j₂.jobInfo fileid ∧
        j₂.jobInfo.downloadInfo.bit fileid pos = some false then 1 else 0) ∧
    ∀ after j, (∀ a ∈ after, a ≠ .start) → exec (step sha1) j₂ after = some j →
      (∀ fileid pos, j.places fileid pos ≤ 1) ∧
      (∀ fileid pos, j.jobInfo.downloadInfo.bit fileid pos = some true →
        ∀ later j', (∀ a ∈ later, a ≠ .start) → exec (step sha1) j later = some j' →
          j'.jobInfo.downloadInfo.bit fileid pos = some true ∧ (fileid, pos) ∉ j'.queue.map ChunkInfo.item ∧
          j'.pc.held.map ChunkInfo.item ≠ some (fileid, pos) ∧ (fileid, pos) ∉ liveItems j'.tasks) ∧
      (∀ i t j', j.tasks[i]? = some t → t.reported → step sha1 j (.onFinished i) = some j' →
        ∀ fileid pos, j'.jobInfo.downloadInfo.bit fileid pos = j.jobInfo.downloadInfo.bit fileid pos) := by
  obtain ⟨hsound, hidle₁⟩ := run_prologue hidle hbefore h₁ hpc
  have hone := onePlace_initQueue hsound hidle₁ hpc h₂ hok
  constructor
  · obtain ⟨queue, hinit, rfl⟩ := step_initQueue hpc h₂ hok
    intro fileid pos
    rw [count_initQueue hinit]
    simp only [JobInfo.mem_uniqueFileidList]
  · intro after j hafter hrun
    obtain ⟨hj, -⟩ := run_onePlace hone hafter hrun
    refine ⟨fun fileid pos => places_pool j fileid pos ▸ hj.places_le (fileid, pos), ?_, ?_⟩
    · intro fileid pos hbit later j' hlater hrun'
      obtain ⟨hj', hsub⟩ := run_onePlace hj hlater hrun'
      have hbit' : j'.jobInfo.downloadInfo.bit fileid pos = some true := hsub (show (fileid, pos) ∈ j.pool.done from hbit)
      exact ⟨hbit', hj'.of_bit hbit'⟩
    · intro i t j' hi hr hstep fileid pos
      obtain ⟨t', hi', hphase, rfl⟩ := step_onFinished hstep
      obtain rfl : t = t' := Option.some.inj (hi.symm.trans hi')
      rcases j.onFinished_cases i t with ⟨_, _, _, _, heq⟩ | ⟨hr', -⟩ | ⟨hr', -⟩
      · rw [heq]
      · exact absurd (hr.symm.trans hr') (by decide)
      · exact absurd (hr.symm.trans hr') (by decide)

/-! ### A small job -/

/-- A torrent of one file with one chunk, the byte `7`, whose checksum is `sum`. -/
def oneChunkTorrent : Torrent where
  torrentId := "t"
  type := 0
  totalSize := 1
  createBy := "c"
  createTime := "now"
  trackerAddress := "tracker"
  file := [{ checkSum := "f", relativePath := "", filename := "a", size := 1, chunk := [⟨"sum", 1⟩] }]

/-- A digest that tells the byte `7` from everything else. -/
def oneChunkSha1 (content : Bytes) : String := if content = [7] then "sum" else "other"

/-- A job that has none of it, resumed, with one connected peer that has the chunk. -/
def oneChunkJob : Job :=
  let (info, disk) := JobInfo.new oneChunkTorrent "/d/" [⟨"", "a"⟩] 0 0 (fun _ => none) ∅
  .new
    { info with
      ownerInfoMap := (∅ : SortedMap String (List FileOwnerInfo)).insert "f" [⟨"p", "host", 1, 100, [true]⟩]
      downloadInfo := { info.downloadInfo with isStopped := false, isDownloadPaused := false } }
    (LocalSockManager.new.connectClient "p" (some 0)).2 disk

/-- Its chunk is queued once, and is in one place for ever after. -/
theorem one_place_oneChunkJob : ∃ j₁ j₂ : Job,
    exec (step oneChunkSha1) oneChunkJob [.start, .run .go, .run .go] = some j₁ ∧
    step oneChunkSha1 j₁ (.run .go) = some j₂ ∧ (j₂.queue.map ChunkInfo.item).count ("f", 0) = 1 ∧
    ∀ after j, (∀ a ∈ after, a ≠ .start) → exec (step oneChunkSha1) j₂ after = some j → j.places "f" 0 ≤ 1 := by
  refine ⟨_, _, rfl, rfl, ?_, ?_⟩
  · rfl
  · intro after j hafter hrun
    have hidle : oneChunkJob.NoTaskInFlight := by
      intro t ht
      cases ht
    have hbefore : ∀ a ∈ [Action.run .go, .run .go], a ≠ .start := by simp
    exact ((one_place_per_chunk hidle hbefore rfl rfl rfl rfl).2 after j hafter hrun).1 "f" 0

end Job

end CoolDown
