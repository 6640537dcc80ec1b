import CoolDown.Client.ChunkSelector
import CoolDown.Client.DownloadTask
import CoolDown.Client.FileCopy
import CoolDown.Library.Run

/-!
# A running job: `Job`

`Job::run` takes chunks from the queue and starts a task for each, until the queue is
empty or the job is removed; then it waits for the tasks and copies the files the
torrent has more than once. Meanwhile the tasks run in a pool of threads, report to
the job when they are over, and the user stops, pauses, resumes or removes the job.

## The model

A state is what those threads share, the place `run` is at (`Pc`), and the tasks
started so far. One step is a step of `run`, of one task, the delivery of
`taskFailed` or `taskFinished` for one task, or a step of somebody else; `step` says
which are possible and what they do, so a run of the model is any interleaving of
them. Each access to a shared flag is a step of its own. What the outside decides is
part of the action: which of the entries of highest priority `get_chunk` returns,
whether a connection can be made, whether a call throws.

`reinit_file_owner_info` asks the tracker for the owners of a file and shakes hands
with each; it is one step, and its action says what owners it leaves, if it leaves new
ones. The sockets are shared with other jobs, which may lend and return them at any
time. A copy is one step, and is made where `Disk.copyTo` says; whether its target is a
directory with no file in it is part of the action.

An exception in `run` ends its thread (`aborted`), with `is_running_` still set; nothing
reads the queue after that, and the entries `init_queue` has made before an exception
are left out.

## What is proved

`RunStep` lists what a step of `run` can change, and `runStep_cases` shows that the list
is complete; `onFailed_cases` and `onFinished_cases` do so for the notifications. The
modules over this one use nothing else about the steps.
-/

namespace CoolDown

open Library ChunkSelector

namespace Job

/-- A place in `run`. -/
inductive Pc where
  /-- `run` has not been started. -/
  | notStarted
  /-- In the loop over the fileids that looks for owners. -/
  | findOwners (todo : List String)
  /-- Before `init_queue`. -/
  | initQueue
  /-- At the top of the main loop: about to read `is_job_removed`. -/
  | readRemoved
  /-- About to read `is_stopped`. -/
  | readStopped
  /-- Waiting on `job_stopped_cond`. -/
  | waitStopped
  /-- About to read `is_download_paused`. -/
  | readPaused
  /-- Waiting on `download_pause_cond`, for a second at most. -/
  | waitPaused
  /-- About to call `get_chunk`. -/
  | getChunk
  /-- Has a chunk nobody had; about to look for owners again. -/
  | findOwner (chunk : ChunkInfo)
  /-- Has a chunk; about to choose the owner to fetch it from. -/
  | chooseOwner (chunk : ChunkInfo)
  /-- About to call `get_idle_client_sock`. -/
  | getSock (chunk : ChunkInfo) (peer : String)
  /-- Waiting for a socket of the peer to become idle. -/
  | waitSock (chunk : ChunkInfo) (peer : String)
  /-- Has a socket; about to look up the file. -/
  | checkFile (chunk : ChunkInfo) (peer : String) (sock : Sock)
  /-- About to start the task, once a thread is available. -/
  | startTask (chunk : ChunkInfo) (peer : String) (sock : Sock) (fileInfo : Torrent.File)
  /-- In `joinAll`. -/
  | joinAll
  /-- Copying; each entry is a fileid, the source and the target. -/
  | copying (todo : List (String × String × String))
  /-- `run` has returned. -/
  | ended
  /-- `run` has thrown. -/
  | aborted
  deriving DecidableEq

/-- The chunk `run` holds. -/
def Pc.held : Pc → Option ChunkInfo
  | findOwner chunk | chooseOwner chunk | getSock chunk _ | waitSock chunk _ | checkFile chunk _ _
  | startTask chunk _ _ _ => some chunk
  | notStarted | findOwners _ | initQueue | readRemoved | readStopped | waitStopped | readPaused | waitPaused | getChunk
  | joinAll | copying _ | ended | aborted => none

/-- What the outside decides about a step of `run`. -/
inductive RunEvent where
  /-- Nothing: go on, or be woken. -/
  | go
  /-- The call throws, or the wait times out. -/
  | throws
  /-- `reinit_file_owner_info` leaves these owners; without new ones, those there are. -/
  | owners (found : Option (List FileOwnerInfo))
  /-- `get_chunk` returns this entry of the queue. -/
  | top (i : ℕ)
  /-- A new connection, if one is wanted. -/
  | conn (r : Except Exception (Option Sock))
  /-- The target of the copy is a directory, with no file in it. -/
  | emptyDirectory

/-- Whether the target of a copy is said to be a directory. -/
def RunEvent.emptyDir : RunEvent → Bool
  | emptyDirectory => true
  | go | throws | owners _ | top _ | conn _ => false

/-- A step of somebody else. -/
inductive EnvEvent where
  /-- `StopJob`. -/
  | stop
  /-- `PauseJob`. -/
  | pause
  /-- `ResumeJob`. -/
  | resume
  /-- `RemoveJob`. -/
  | remove
  /-- The collector starts a new second. -/
  | newSecond
  /-- The download speed limit is set. -/
  | setDownloadSpeedLimit (n : UInt64)
  /-- Other users of the pool of sockets. -/
  | sockets (m : LocalSockManager)

/-- A step: whose it is, and what the outside decides about it. -/
inductive Action where
  /-- A thread calls `run`. -/
  | start
  /-- `run` goes on. -/
  | run (ev : RunEvent)
  /-- A task goes on. -/
  | task (i : ℕ) (ev : DownloadTask.Event)
  /-- `taskFailed` is delivered for a task. -/
  | onFailed (i : ℕ)
  /-- `taskFinished` is delivered for a task. -/
  | onFinished (i : ℕ)
  /-- Somebody else. -/
  | env (ev : EnvEvent)

end Job

open Job in
/-- `Job`, the place its `run` is at, its tasks, and the disk. -/
structure Job where
  jobInfo : JobInfo
  /-- `chunk_queue_`. -/
  queue : List ChunkInfo
  sockManager : LocalSockManager
  isRunning : Bool
  /-- The capacity of the thread pool. -/
  capacity : ℕ
  pc : Pc
  /-- The tasks started, in the order of their start. -/
  tasks : List DownloadTask
  disk : Disk

namespace Job

/-- `Job::Job`: a pool of at most four threads. -/
def new (info : JobInfo) (m : LocalSockManager) (disk : Disk) : Job where
  jobInfo := info
  queue := []
  sockManager := m
  isRunning := false
  capacity := 4
  pc := .notStarted
  tasks := []
  disk := disk

/-- A new job, on the disk as its constructor leaves it. -/
def ofTorrent (torrent : Torrent) (topPath : String) (needs : List FileIdentityInfo)
    (uploadTotal downloadTotal : UInt64)
    (fault : String → Option LocalFileInfo.Fault) (m : LocalSockManager) (disk : Disk) : Job :=
  let (info, disk) := JobInfo.new torrent topPath needs uploadTotal downloadTotal fault disk
  .new info m disk

/-- The threads in use. -/
def used (j : Job) : ℕ := (j.tasks.filter fun t => decide (t.phase ≠ .finished ∧ t.phase ≠ .died)).length

/-- The owner with the least payload, the first of them: `min_element`. -/
def leastPayload (payload : String → ℕ) : FileOwnerInfo → List FileOwnerInfo → FileOwnerInfo
  | best, [] => best
  | best, p :: ps => leastPayload payload (if payload p.clientid < payload best.clientid then p else best) ps

/-- `ownerInfoMap` after `reinit_file_owner_info`. -/
def reinitFileOwnerInfo (info : JobInfo) (fileid : String) (found : Option (List FileOwnerInfo)) : JobInfo :=
  { info with ownerInfoMap :=
      match found with
      | some owners => info.ownerInfoMap.insert fileid owners
      | none => (info.ownerInfoMap.getOrInsert fileid []).2 }

/-- The copies to make at the end of `run`. -/
def sameFileCopies (l : LocalFileInfo) : List (String × String × String) :=
  l.sameFiles.entries.flatMap fun (fileid, paths) =>
    match paths with
    | source :: targets => targets.map fun target => (fileid, source, target)
    | [] => []

/-- One of the copies, and then the others. -/
def copyFile (j : Job) (emptyDir : Bool) (source target : String) (todo : List (String × String × String)) : Job :=
  match j.disk.copyTo emptyDir source target with
  | none => { j with pc := .aborted }
  | some disk => { j with disk := disk, pc := .copying todo }

@[simp] theorem jobInfo_copyFile (j : Job) (emptyDir : Bool) (source target : String)
    (todo : List (String × String × String)) : (j.copyFile emptyDir source target todo).jobInfo = j.jobInfo := by
  unfold copyFile
  split <;> rfl

/-- One step of `run`. -/
def runStep (j : Job) : Pc → RunEvent → Option Job
  | .findOwners [], .go => some { j with pc := .initQueue }
  | .findOwners (fileid :: todo), ev =>
    if (j.jobInfo.ownerInfoMap.find? fileid).isSome then
      match ev with
      | .go => some { j with pc := .findOwners todo }
      | _ => none
    else
      match ev with
      | .owners found => some { j with jobInfo := reinitFileOwnerInfo j.jobInfo fileid found, pc := .findOwners todo }
      | .throws => some { j with pc := .aborted }
      | _ => none
  | .initQueue, .go =>
    match initQueue j.jobInfo with
    | (info, .ok queue) => some { j with jobInfo := info, queue := queue, pc := .readRemoved }
    | (info, .error _) => some { j with jobInfo := info, queue := [], pc := .aborted }
  | .readRemoved, .go =>
    some { j with pc := if j.jobInfo.downloadInfo.isJobRemoved then .joinAll else .readStopped }
  | .readStopped, .go =>
    some { j with pc := if j.jobInfo.downloadInfo.isStopped then .waitStopped else .readPaused }
  | .waitStopped, .go => some { j with pc := .readRemoved }
  | .readPaused, .go =>
    some { j with pc := if j.jobInfo.downloadInfo.isDownloadPaused then .waitPaused else .getChunk }
  | .waitPaused, .go => some { j with pc := .readRemoved }
  -- the timeout is a `TimeoutException`, which `run` does not catch here
  | .waitPaused, .throws => some { j with pc := .aborted }
  | .getChunk, .top i =>
    match getChunk j.queue i with
    | none => none
    | some (none, queue) => some { j with queue := queue, pc := .joinAll }
    | some (some chunk, queue) =>
      some { j with queue := queue, pc := if chunk.status = .noowner then .findOwner chunk else .chooseOwner chunk }
  | .findOwner chunk, .owners found =>
    some { j with jobInfo := reinitFileOwnerInfo j.jobInfo chunk.fileid found, pc := .chooseOwner chunk }
  | .findOwner _, .throws => some { j with pc := .aborted }
  | .chooseOwner chunk, .go =>
    match chunk.clientLists with
    | [] =>
      match reportNoOwnerChunk j.jobInfo j.queue chunk.chunkNum chunk.fileid with
      | .error _ => some { j with pc := .aborted }
      | .ok queue => some { j with queue := queue, pc := .readRemoved }
    | p :: ps => some { j with pc := .getSock chunk (leastPayload j.sockManager.getPayloadPercentage p ps).clientid }
  | .getSock chunk peer, .conn r =>
    match j.sockManager.getIdleClientSock peer r with
    | .error _ => some { j with pc := .aborted }
    | .ok (some sock, m) => some { j with sockManager := m, pc := .checkFile chunk peer sock }
    | .ok (none, m) =>
      match m.getSockIdelCondition peer with
      | .error _ => some { j with sockManager := m, pc := .aborted }
      | .ok () => some { j with sockManager := m, pc := .waitSock chunk peer }
  | .waitSock chunk peer, .go => some { j with pc := .getSock chunk peer }
  | .checkFile chunk peer sock, .go =>
    match j.jobInfo.torrentInfo.getOneFileOfSameFileid chunk.fileid with
    | .error _ => some { j with pc := .aborted }
    | .ok fileInfo =>
      some { j with pc :=
        if j.jobInfo.localFileInfo.hasLocalFile chunk.fileid fileInfo.relativePath fileInfo.filename then
          .startTask chunk peer sock fileInfo
        else .aborted }
  | .startTask chunk peer sock fileInfo, .go =>
    match j.jobInfo.localFileInfo.getFile chunk.fileid with
    | none => some { j with pc := .readRemoved }
    | some file =>
      if j.used < j.capacity then
        some { j with tasks := j.tasks ++ [.new fileInfo peer sock chunk.chunkNum file], pc := .readRemoved }
      else none
  -- making the task throws if the peer is gone; the exception is caught, and the chunk dropped
  | .startTask _ _ _ _, .throws => if j.used < j.capacity then some { j with pc := .readRemoved } else none
  | .joinAll, .go => if j.used = 0 then some { j with pc := .copying (sameFileCopies j.jobInfo.localFileInfo) } else none
  | .copying [], .go => some { j with isRunning := false, pc := .ended }
  | .copying ((_, source, target) :: todo), .go => some (j.copyFile false source target todo)
  | .copying ((_, source, target) :: todo), .emptyDirectory => some (j.copyFile true source target todo)
  | .copying (_ :: _), .throws => some { j with pc := .aborted }
  | _, _ => none

/-- `onFailed`. -/
def onFailed (j : Job) (i : ℕ) (t : DownloadTask) : Job :=
  match reportFailedChunk j.jobInfo j.queue t.chunkPos t.fileid with
  | .error _ => { j with tasks := j.tasks.set i { t with phase := .died } }
  | .ok queue => { j with queue := queue, tasks := j.tasks.set i { t with reported := true, phase := .ended } }

/-- The end of `onFinished`, which every task must do: it is reported, and its socket returned. -/
def finish (j : Job) (i : ℕ) (t : DownloadTask) : Job :=
  match j.sockManager.returnSock t.clientid (some t.sock) with
  | (m, .error _) => { j with sockManager := m, tasks := j.tasks.set i { t with reported := true, phase := .died } }
  | (m, .ok ()) => { j with sockManager := m, tasks := j.tasks.set i { t with reported := true, phase := .finished } }

/-- `onFinished`. -/
def onFinished (j : Job) (i : ℕ) (t : DownloadTask) : Job :=
  if t.reported then j.finish i t
  else
    match reportSuccessChunk j.jobInfo t.chunkPos t.fileid with
    | (info, .error _) => { j with jobInfo := info, tasks := j.tasks.set i { t with phase := .died } }
    | (info, .ok ()) => { j with jobInfo := info }.finish i t

/-- What somebody else does to `downloadInfo`. -/
def envDownloadInfo (d : DownloadInfo) : EnvEvent → DownloadInfo
  | .stop => { d with isStopped := true }
  | .pause => { d with isDownloadPaused := true }
  | .resume => { d with isStopped := false, isDownloadPaused := false }
  | .remove => { d with isJobRemoved := true }
  | .newSecond =>
    { d with
      uploadTotal := d.uploadTotal + d.bytesUploadThisSecond
      downloadTotal := d.downloadTotal + d.bytesDownloadThisSecond
      bytesUploadThisSecond := 0
      bytesDownloadThisSecond := 0 }
  | .setDownloadSpeedLimit n => { d with downloadSpeedLimit := n }
  | .sockets _ => d

/-- The sockets after a step of somebody else. -/
def envSockManager (m : LocalSockManager) : EnvEvent → LocalSockManager
  | .sockets m' => m'
  | .stop | .pause | .resume | .remove | .newSecond | .setDownloadSpeedLimit _ => m

variable (sha1 : Bytes → String) in
/-- One step of the job: `none` where the action is not possible. -/
def step (j : Job) : Action → Option Job
  | .start =>
    if j.isRunning then none else some { j with isRunning := true, pc := .findOwners j.jobInfo.fileidlist }
  | .run ev => j.runStep j.pc ev
  | .task i ev =>
    match j.tasks[i]? with
    | none => none
    | some t =>
      match t.runTask sha1 j.jobInfo.downloadInfo j.disk t.phase ev with
      | none => none
      | some (phase, d, disk) =>
        some { j with
          jobInfo := { j.jobInfo with downloadInfo := d }
          disk := disk
          tasks := j.tasks.set i { t with phase := phase } }
  | .onFailed i =>
    match j.tasks[i]? with
    | none => none
    | some t => if t.phase = .threw then some (j.onFailed i t) else none
  | .onFinished i =>
    match j.tasks[i]? with
    | none => none
    | some t => if t.phase = .ended then some (j.onFinished i t) else none
  | .env ev =>
    some { j with
      jobInfo := { j.jobInfo with downloadInfo := envDownloadInfo j.jobInfo.downloadInfo ev }
      sockManager := envSockManager j.sockManager ev }

/-! ### What a step can do -/

variable {sha1 : Bytes → String}

/-- The copy that a step makes: whether its target is said to be a directory, the source and the target. -/
def copyAt (j : Job) : Action → Option (Bool × String × String)
  | .run ev =>
    match j.pc, ev with
    | .copying ((_, source, target) :: _), .go => some (false, source, target)
    | .copying ((_, source, target) :: _), .emptyDirectory => some (true, source, target)
    | _, _ => none
  | .start | .task _ _ | .onFailed _ | .onFinished _ | .env _ => none

/-- Where a step copies to. -/
def copiesTo (j : Job) (a : Action) : Option String :=
  (j.copyAt a).map fun (emptyDir, source, target) => j.disk.copyPath emptyDir source target

/-- The target of the copy that a step makes is a directory. -/
def intoDirectory (j : Job) (a : Action) : Bool :=
  (j.copyAt a).any fun (emptyDir, _, target) => j.disk.takesIn emptyDir target

/-- The part of `run` a place belongs to. -/
inductive Stage where
  /-- `run` has not been started. -/
  | before
  /-- Up to `init_queue`. -/
  | prologue
  /-- The main loop. -/
  | loop
  /-- `joinAll`. -/
  | joining
  /-- After `joinAll`. -/
  | after
  /-- `run` has thrown. -/
  | aborted
  deriving DecidableEq

/-- `init_queue` is over. -/
def Stage.queueFilled : Stage → Bool
  | before | prologue => false
  | loop | joining | after | aborted => true

/-- No task is in flight, unless a former activation has left one. -/
def Stage.idle : Stage → Bool
  | before | prologue | after => true
  | loop | joining | aborted => false

/-- The part of `run` a place belongs to. -/
def Pc.stage : Pc → Stage
  | notStarted => .before
  | findOwners _ | initQueue => .prologue
  | readRemoved | readStopped | waitStopped | readPaused | waitPaused | getChunk | findOwner _ | chooseOwner _
  | getSock _ _ | waitSock _ _ | checkFile _ _ _ | startTask _ _ _ _ => .loop
  | joinAll => .joining
  | copying _ | ended => .after
  | aborted => .aborted

/-- What is known of the file when a task is about to be started. -/
def Pc.FileChecked (t : TorrentInfo) (l : LocalFileInfo) : Pc → Prop
  | startTask chunk _ _ fileInfo => t.getOneFileOfSameFileid chunk.fileid = .ok fileInfo ∧ (l.getFile chunk.fileid).isSome
  | _ => True

/-- The steps of `run`. -/
inductive RunStep (j : Job) (ev : RunEvent) : Job → Prop where
  /-- `run` goes on, in the prologue or in the loop, with the chunk it holds; the owners
  and the sockets may change. -/
  | move (pc : Pc) (owners : SortedMap String (List FileOwnerInfo)) (m : LocalSockManager)
      (hstage : pc.stage = j.pc.stage) (hin : pc.stage = .prologue ∨ pc.stage = .loop) (hheld : pc.held = j.pc.held)
      (hfile : pc.FileChecked j.jobInfo.torrentInfo j.jobInfo.localFileInfo) :
      RunStep j ev { j with jobInfo := { j.jobInfo with ownerInfoMap := owners }, sockManager := m, pc := pc }
  /-- `init_queue` returns. -/
  | init (info : JobInfo) (queue : List ChunkInfo) (hpc : j.pc = .initQueue)
      (hinit : initQueue j.jobInfo = (info, .ok queue)) :
      RunStep j ev { j with jobInfo := info, queue := queue, pc := .readRemoved }
  /-- `init_queue` throws. -/
  | initThrows (info : JobInfo) (hpc : j.pc = .initQueue) (hinfo : BitsKept j.jobInfo info) :
      RunStep j ev { j with jobInfo := info, queue := [], pc := .aborted }
  /-- `get_chunk` returns a chunk. -/
  | take (i : ℕ) (chunk : ChunkInfo) (pc : Pc) (hpc : j.pc = .getChunk) (hi : j.queue[i]? = some chunk)
      (hheld : pc.held = some chunk) (hstage : pc.stage = .loop) (hfile : pc.FileChecked j.jobInfo.torrentInfo j.jobInfo.localFileInfo) :
      RunStep j ev { j with queue := j.queue.eraseIdx i, pc := pc }
  /-- `get_chunk` returns a null pointer. -/
  | empty (hpc : j.pc = .getChunk) (hqueue : j.queue = []) : RunStep j ev { j with pc := .joinAll }
  /-- The chunk held has no owner and is put back. -/
  | putBack (chunk chunk' : ChunkInfo) (hpc : j.pc = .chooseOwner chunk) (hitem : chunk'.item = chunk.item) :
      RunStep j ev { j with queue := j.queue ++ [chunk'], pc := .readRemoved }
  /-- A task is started for the chunk held. -/
  | launch (chunk : ChunkInfo) (peer : String) (sock : Sock) (fileInfo : Torrent.File) (file : String)
      (hpc : j.pc = .startTask chunk peer sock fileInfo) (hfile : j.jobInfo.localFileInfo.getFile chunk.fileid = some file) :
      RunStep j ev { j with tasks := j.tasks ++ [.new fileInfo peer sock chunk.chunkNum file], pc := .readRemoved }
  /-- The task cannot be started: the chunk held is dropped. -/
  | drop (chunk : ChunkInfo) (peer : String) (sock : Sock) (fileInfo : Torrent.File)
      (hpc : j.pc = .startTask chunk peer sock fileInfo) (hev : ev = .throws) : RunStep j ev { j with pc := .readRemoved }
  /-- The chunk held has no file, and is dropped. -/
  | noFile (chunk : ChunkInfo) (peer : String) (sock : Sock) (fileInfo : Torrent.File)
      (hpc : j.pc = .startTask chunk peer sock fileInfo) (hfile : j.jobInfo.localFileInfo.getFile chunk.fileid = none) :
      RunStep j ev { j with pc := .readRemoved }
  /-- The loop ends because the job is removed. -/
  | leave (hpc : j.pc = .readRemoved) (hremoved : j.jobInfo.downloadInfo.isJobRemoved) (hev : ev = .go) :
      RunStep j ev { j with pc := .joinAll }
  /-- `joinAll` returns. -/
  | joined (hpc : j.pc = .joinAll) (hused : j.used = 0) :
      RunStep j ev { j with pc := .copying (sameFileCopies j.jobInfo.localFileInfo) }
  /-- A file is copied. -/
  | copied (fileid source target : String) (todo : List (String × String × String)) (disk : Disk)
      (hpc : j.pc = .copying ((fileid, source, target) :: todo)) (hev : ev = .go ∨ ev = .emptyDirectory)
      (hdisk : j.disk.copyTo ev.emptyDir source target = some disk) :
    RunStep j ev { j with disk := disk, pc := .copying todo }
  /-- `run` returns. -/
  | ended (hpc : j.pc = .copying []) : RunStep j ev { j with isRunning := false, pc := .ended }
  /-- `run` throws. -/
  | abort (m : LocalSockManager) : RunStep j ev { j with sockManager := m, pc := .aborted }

/-- **A step of `run` is one of these.** -/
theorem runStep_cases {j j' : Job} {ev : RunEvent} (h : j.runStep j.pc ev = some j') : RunStep j ev j' := by
  have hmove : ∀ {pc : Pc}, some { j with pc := pc } = some j' → pc.stage = j.pc.stage →
      (pc.stage = .prologue ∨ pc.stage = .loop) → pc.held = j.pc.held →
        pc.FileChecked j.jobInfo.torrentInfo j.jobInfo.localFileInfo → RunStep j ev j' := by
    rintro pc ⟨⟩ h₁ h₂ h₃ h₄
    exact RunStep.move pc j.jobInfo.ownerInfoMap j.sockManager h₁ h₂ h₃ h₄
  have habort : some { j with pc := .aborted } = some j' → RunStep j ev j' := by
    rintro ⟨⟩
    exact .abort j.sockManager
  generalize hpc : j.pc = pc at h
  rw [hpc] at hmove
  cases pc with
  | notStarted => cases ev <;> cases h
  | findOwners todo =>
    cases todo with
    | nil => cases ev <;> first | exact hmove h rfl (by decide) rfl trivial | cases h
    | cons fileid todo =>
      by_cases hfind : (j.jobInfo.ownerInfoMap.find? fileid).isSome
      · cases ev <;> simp only [runStep, if_pos hfind, reduceCtorEq] at h
        exact hmove h rfl (.inl rfl) rfl trivial
      · cases ev <;> simp only [runStep, if_neg hfind, reduceCtorEq] at h
        · exact habort h
        · cases h
          exact RunStep.move _ _ j.sockManager (by rw [hpc]; rfl) (.inl rfl) (by rw [hpc]; rfl) trivial
  | initQueue =>
    cases ev with
    | go =>
      rw [runStep] at h
      split at h
      · rename_i info queue hinit
        cases h
        exact .init info queue hpc hinit
      · rename_i info e hinit
        cases h
        exact .initThrows info hpc (by simpa [hinit] using initQueue_bitsKept j.jobInfo)
    | throws | owners | top | conn | emptyDirectory => cases h
  | readRemoved =>
    cases ev with
    | go =>
      rw [runStep] at h
      split_ifs at h with hremoved
      · cases h
        exact .leave hpc hremoved rfl
      · exact hmove h rfl (.inr rfl) rfl trivial
    | throws | owners | top | conn | emptyDirectory => cases h
  | readStopped =>
    cases ev with
    | go =>
      rw [runStep] at h
      split_ifs at h <;> exact hmove h rfl (.inr rfl) rfl trivial
    | throws | owners | top | conn | emptyDirectory => cases h
  | waitStopped => cases ev <;> first | exact hmove h rfl (.inr rfl) rfl trivial | cases h
  | readPaused =>
    cases ev with
    | go =>
      rw [runStep] at h
      split_ifs at h <;> exact hmove h rfl (.inr rfl) rfl trivial
    | throws | owners | top | conn | emptyDirectory => cases h
  | waitPaused => cases ev <;> first | exact hmove h rfl (.inr rfl) rfl trivial | exact habort h | cases h
  | getChunk =>
    cases ev with
    | top i =>
      rw [runStep] at h
      split at h
      · cases h
      · rename_i queue hq
        obtain ⟨hnil, rfl⟩ := getChunk_eq_none hq
        cases h
        rw [← hnil]
        exact .empty hpc hnil
      · rename_i chunk queue hq
        obtain ⟨hi, rfl⟩ := getChunk_eq_some hq
        cases h
        refine .take i chunk _ hpc hi ?_ ?_ ?_ <;> split_ifs <;> first | rfl | trivial
    | go | throws | owners | conn | emptyDirectory => cases h
  | findOwner chunk =>
    cases ev with
    | owners found =>
      cases h
      exact RunStep.move _ _ j.sockManager (by rw [hpc]; rfl) (.inr rfl) (by rw [hpc]; rfl) trivial
    | throws => exact habort h
    | go | top | conn | emptyDirectory => cases h
  | chooseOwner chunk =>
    cases ev with
    | go =>
      rw [runStep] at h
      split at h
      · split at h
        · exact habort h
        · rename_i queue hq
          obtain ⟨chunk', hpriority, rfl⟩ := putBack_eq_ok hq
          cases h
          exact .putBack chunk chunk' hpc (item_getPriority hpriority :)
      · exact hmove h rfl (.inr rfl) rfl trivial
    | throws | owners | top | conn | emptyDirectory => cases h
  | getSock chunk peer =>
    cases ev with
    | conn r =>
      rw [runStep] at h
      split at h
      · exact habort h
      · rename_i sock m _
        cases h
        exact RunStep.move _ j.jobInfo.ownerInfoMap m (by rw [hpc]; rfl) (.inr rfl) (by rw [hpc]; rfl) trivial
      · rename_i m _
        split at h
        · cases h
          exact .abort m
        · cases h
          exact RunStep.move _ j.jobInfo.ownerInfoMap m (by rw [hpc]; rfl) (.inr rfl) (by rw [hpc]; rfl) trivial
    | go | throws | owners | top | emptyDirectory => cases h
  | waitSock chunk peer => cases ev <;> first | exact hmove h rfl (.inr rfl) rfl trivial | cases h
  | checkFile chunk peer sock =>
    cases ev with
    | go =>
      rw [runStep] at h
      split at h
      · exact habort h
      · rename_i fileInfo hfile
        split_ifs at h with hlocal
        · exact hmove h rfl (.inr rfl) rfl ⟨hfile, LocalFileInfo.isSome_getFile_of_hasLocalFile hlocal⟩
        · exact habort h
    | throws | owners | top | conn | emptyDirectory => cases h
  | startTask chunk peer sock fileInfo =>
    cases ev with
    | go =>
      rw [runStep] at h
      split at h
      · rename_i hfile
        cases h
        exact .noFile chunk peer sock fileInfo hpc hfile
      · rename_i file hfile
        split_ifs at h
        cases h
        exact .launch chunk peer sock fileInfo file hpc hfile
    | throws =>
      rw [runStep] at h
      split_ifs at h
      cases h
      exact .drop chunk peer sock fileInfo hpc rfl
    | owners | top | conn | emptyDirectory => cases h
  | joinAll =>
    cases ev with
    | go =>
      rw [runStep] at h
      split_ifs at h with hused
      cases h
      exact .joined hpc hused
    | throws | owners | top | conn | emptyDirectory => cases h
  | copying todo =>
    cases todo with
    | nil =>
      cases ev with
      | go =>
        cases h
        exact .ended hpc
      | throws | owners | top | conn | emptyDirectory => cases h
    | cons copy todo =>
      obtain ⟨fileid, source, target⟩ := copy
      have hcopy : ev = .go ∨ ev = .emptyDirectory → some (j.copyFile ev.emptyDir source target todo) = some j' →
          RunStep j ev j' := by
        rintro hev ⟨⟩
        unfold copyFile
        split
        · exact .abort j.sockManager
        · rename_i disk hdisk
          exact .copied fileid source target todo disk hpc hev hdisk
      cases ev with
      | go => exact hcopy (.inl rfl) h
      | emptyDirectory => exact hcopy (.inr rfl) h
      | throws => exact habort h
      | owners | top | conn => cases h
  | ended => cases ev <;> cases h
  | aborted => cases ev <;> cases h

/-- `run` is only called while it is not running, and begins at its beginning. -/
theorem step_start {j j' : Job} (h : step sha1 j .start = some j') :
    j.isRunning = false ∧ j' = { j with isRunning := true, pc := .findOwners j.jobInfo.fileidlist } := by
  rw [step] at h
  split_ifs at h with hrunning
  exact ⟨Bool.eq_false_iff.mpr hrunning, (Option.some.inj h).symm⟩

theorem step_task {j j' : Job} {i : ℕ} {ev : DownloadTask.Event} (h : step sha1 j (.task i ev) = some j') :
    ∃ t phase d disk, j.tasks[i]? = some t ∧
      t.runTask sha1 j.jobInfo.downloadInfo j.disk t.phase ev = some (phase, d, disk) ∧
      j' = { j with
        jobInfo := { j.jobInfo with downloadInfo := d }
        disk := disk
        tasks := j.tasks.set i { t with phase := phase } } := by
  rw [step] at h
  split at h
  · cases h
  · rename_i t hi
    split at h
    · cases h
    · rename_i phase d disk hrun
      exact ⟨t, phase, d, disk, hi, hrun, (Option.some.inj h).symm⟩

theorem step_onFailed {j j' : Job} {i : ℕ} (h : step sha1 j (.onFailed i) = some j') :
    ∃ t, j.tasks[i]? = some t ∧ t.phase = .threw ∧ j' = j.onFailed i t := by
  rw [step] at h
  split at h
  · cases h
  · rename_i t hi
    split_ifs at h with hphase
    exact ⟨t, hi, hphase, (Option.some.inj h).symm⟩

theorem step_onFinished {j j' : Job} {i : ℕ} (h : step sha1 j (.onFinished i) = some j') :
    ∃ t, j.tasks[i]? = some t ∧ t.phase = .ended ∧ j' = j.onFinished i t := by
  rw [step] at h
  split at h
  · cases h
  · rename_i t hi
    split_ifs at h with hphase
    exact ⟨t, hi, hphase, (Option.some.inj h).symm⟩

/-- A copy that is made is the first of those to make. -/
theorem copyAt_eq_some {j : Job} {a : Action} {emptyDir : Bool} {source target : String}
    (h : j.copyAt a = some (emptyDir, source, target)) :
    ∃ fileid todo, j.pc = .copying ((fileid, source, target) :: todo) := by
  cases a with
  | run ev =>
    unfold copyAt at h
    dsimp only at h
    split at h
    · next fileid source target todo hpc =>
      obtain ⟨-, rfl, rfl⟩ : false = emptyDir ∧ source = _ ∧ target = _ := by simpa using h
      exact ⟨fileid, todo, hpc⟩
    · next fileid source target todo hpc =>
      obtain ⟨-, rfl, rfl⟩ : true = emptyDir ∧ source = _ ∧ target = _ := by simpa using h
      exact ⟨fileid, todo, hpc⟩
    · cases h
  | start | task | onFailed | onFinished | env => cases h

/-- A step that makes a copy does nothing else. -/
theorem step_of_copyAt {j j' : Job} {a : Action} {emptyDir : Bool} {source target : String}
    (h : j.copyAt a = some (emptyDir, source, target)) (hstep : step sha1 j a = some j') :
    ∃ fileid todo, j.pc = .copying ((fileid, source, target) :: todo) ∧ j' = j.copyFile emptyDir source target todo := by
  obtain ⟨fileid, todo, hpc⟩ := copyAt_eq_some h
  refine ⟨fileid, todo, hpc, ?_⟩
  cases a with
  | run ev =>
    unfold copyAt at h
    rw [hpc] at h
    rw [step, hpc] at hstep
    cases ev with
    | go | emptyDirectory =>
      cases h
      exact (Option.some.inj hstep).symm
    | throws | owners | top | conn => cases h
  | start | task | onFailed | onFinished | env => cases h

theorem copyAt_of_copying {j : Job} {ev : RunEvent} {fileid source target : String} {todo : List (String × String × String)}
    (hpc : j.pc = .copying ((fileid, source, target) :: todo)) (hev : ev = .go ∨ ev = .emptyDirectory) :
    j.copyAt (.run ev) = some (ev.emptyDir, source, target) := by
  rcases hev with rfl | rfl <;> (unfold copyAt; rw [hpc]; rfl)

theorem copiesTo_of_copying {j : Job} {ev : RunEvent} {fileid source target : String} {todo : List (String × String × String)}
    (hpc : j.pc = .copying ((fileid, source, target) :: todo)) (hev : ev = .go ∨ ev = .emptyDirectory) :
    j.copiesTo (.run ev) = some (j.disk.copyPath ev.emptyDir source target) := by
  rw [copiesTo, copyAt_of_copying hpc hev, Option.map_some]

theorem intoDirectory_of_copying {j : Job} {ev : RunEvent} {fileid source target : String}
    {todo : List (String × String × String)} (hpc : j.pc = .copying ((fileid, source, target) :: todo))
    (hev : ev = .go ∨ ev = .emptyDirectory) : j.intoDirectory (.run ev) = j.disk.takesIn ev.emptyDir target := by
  rw [intoDirectory, copyAt_of_copying hpc hev, Option.any_some]

/-- What `onFailed` can do: the chunk is queued again and the task reported, or the task is gone. -/
theorem onFailed_cases (j : Job) (i : ℕ) (t : DownloadTask) :
    (∃ chunk : ChunkInfo, chunk.item = t.item ∧
      j.onFailed i t =
        { j with queue := j.queue ++ [chunk], tasks := j.tasks.set i { t with reported := true, phase := .ended } }) ∨
    (∃ e, reportFailedChunk j.jobInfo j.queue t.chunkPos t.fileid = .error e) ∧
      j.onFailed i t = { j with tasks := j.tasks.set i { t with phase := .died } } := by
  unfold onFailed
  split
  · rename_i e he
    exact .inr ⟨⟨e, he⟩, rfl⟩
  · rename_i queue hq
    obtain ⟨chunk, hpriority, rfl⟩ := putBack_eq_ok hq
    exact .inl ⟨chunk, item_getPriority hpriority, rfl⟩

/-- Nobody else touches a bitmap. -/
@[simp] theorem bitmapMap_envDownloadInfo (d : DownloadInfo) (ev : EnvEvent) :
    (envDownloadInfo d ev).bitmapMap = d.bitmapMap := by
  cases ev <;> rfl

/-- What the end of `onFinished` can do. -/
theorem finish_cases (j : Job) (i : ℕ) (t : DownloadTask) :
    ∃ m phase, (phase = .finished ∨ phase = .died) ∧
      j.finish i t = { j with sockManager := m, tasks := j.tasks.set i { t with reported := true, phase := phase } } := by
  unfold finish
  split
  · exact ⟨_, .died, .inr rfl, rfl⟩
  · exact ⟨_, .finished, .inl rfl, rfl⟩

/-- What `onFinished` can do: a task that has been reported is finished; one that has not
sets its bit first, and if that throws it is gone. -/
theorem onFinished_cases (j : Job) (i : ℕ) (t : DownloadTask) :
    (t.reported ∧ ∃ m phase, (phase = .finished ∨ phase = .died) ∧ j.onFinished i t =
      { j with sockManager := m, tasks := j.tasks.set i { t with reported := true, phase := phase } }) ∨
    (t.reported = false ∧ ∃ info m phase, reportSuccessChunk j.jobInfo t.chunkPos t.fileid = (info, .ok ()) ∧
      (phase = .finished ∨ phase = .died) ∧ j.onFinished i t =
        { j with
          jobInfo := info
          sockManager := m
          tasks := j.tasks.set i { t with reported := true, phase := phase } }) ∨
    (t.reported = false ∧ ∃ info e, reportSuccessChunk j.jobInfo t.chunkPos t.fileid = (info, .error e) ∧
      j.onFinished i t = { j with jobInfo := info, tasks := j.tasks.set i { t with phase := .died } }) := by
  unfold onFinished
  cases hreported : t.reported with
  | true => exact .inl ⟨rfl, j.finish_cases i t⟩
  | false =>
    right
    rcases hr : reportSuccessChunk j.jobInfo t.chunkPos t.fileid with ⟨info, e | ⟨⟩⟩
    · exact .inr ⟨rfl, info, e, rfl, rfl⟩
    · obtain ⟨m, phase, hp, heq⟩ := { j with jobInfo := info }.finish_cases i t
      exact .inl ⟨rfl, info, m, phase, rfl, hp, heq⟩

end Job

end CoolDown
