import CoolDown.Client.Collector
import CoolDown.Library.Footprint
import CoolDown.System.Swarm

/-!
# The jobs of a client

A client may have any number of jobs. Each has its `run` and its tasks, all in threads of their own, and meanwhile
jobs are added and removed, and the collector goes its rounds. The jobs share the disk and the pool of sockets.

## The model

The table of jobs is that of `CoolClient`. A job that has been removed is in `removed_jobs_`, and its threads go on
until they notice. What a job has besides its `JobInfo` is its `Activity`; together with the sockets and the disk, as
they are then, it is a `Job`, and takes a step of it. A round of the collector is one step: it leaves the bitmaps, and
what comes of the counters when tasks go on meanwhile is in `Traffic`. What is sent to peers is only read from the disk.

`Careful` is asked of a job that is added: its torrent is tiled, its files can be made, and they have paths of their
own, apart from those of all the other jobs. What is at the paths of a download has its size; what is at those of an
upload matches the torrent. And of each step of a job it is asked that it makes no copy in a directory.

## What is proved

* `footed`: a job is about its paths only.
* `step_orderly`: every step leaves each job as it should be, and the jobs apart.
* `run_jobs`: so a job that is at its end has left its files, whatever the other jobs do, and what belongs to no
  job has not been touched.
-/

namespace CoolDown

open Library CoolClient

/-- What a job has besides its `JobInfo`, the sockets and the disk. -/
structure Activity where
  queue : List ChunkInfo
  isRunning : Bool
  capacity : ℕ
  pc : Job.Pc
  tasks : List DownloadTask

namespace Activity

/-- That of a job which has just been made. -/
def new : Activity := ⟨[], false, 4, .notStarted, []⟩

/-- That of a job. -/
def of (j : Job) : Activity := ⟨j.queue, j.isRunning, j.capacity, j.pc, j.tasks⟩

end Activity

/-- A job without what it shares. -/
structure Part where
  info : JobInfo
  activity : Activity

namespace Part

/-- The job with the sockets and the disk. -/
def job (p : Part) (m : LocalSockManager × Disk) : Job where
  jobInfo := p.info
  queue := p.activity.queue
  sockManager := m.1
  isRunning := p.activity.isRunning
  capacity := p.activity.capacity
  pc := p.activity.pc
  tasks := p.activity.tasks
  disk := m.2

/-- The paths of its files. -/
def paths (p : Part) : Set String := {path | ∃ fileid, path ∈ p.info.localFileInfo.paths fileid}

variable {sha1 : Bytes → String} {p : Part} {m m' : LocalSockManager × Disk}

variable (sha1) in
/-- What holds of a job. -/
structure Sound (p : Part) (m : LocalSockManager × Disk) : Prop where
  whole : Job.Whole sha1 p.info.torrentInfo p.info.localFileInfo (p.job m)
  same : ∀ file ∈ p.info.torrentInfo.torrent.file, ∀ file' ∈ p.info.torrentInfo.torrent.file,
    file.checkSum = file'.checkSum → file.chunk = file'.chunk
  /-- Each path is that of a file of the torrent, all of whose bits there are. -/
  files : ∀ fileid, ∀ path ∈ p.info.localFileInfo.paths fileid, fileid ∈ p.info.fileidlist ∧
    ∃ file ∈ p.info.torrentInfo.torrent.file, file.checkSum = fileid ∧
      ∀ c < file.chunkCount, (p.info.downloadInfo.bit fileid c).isSome

variable (sha1) in
/-- A step of a job with what is shared, in which it makes no copy in a directory. -/
def Moves (p : Part) (m : LocalSockManager × Disk) (p' : Part) (m' : LocalSockManager × Disk) : Prop :=
  ∃ a, (p.job m).intoDirectory a = false ∧ (p.job m).step sha1 a = some (p'.job m')

theorem Sound.step {p' : Part} (hp : Sound sha1 p m) (h : Moves sha1 p m p' m') : Sound sha1 p' m' := by
  obtain ⟨a, hinto, h⟩ := h
  have hadv := Job.step_advances h
  have ht : p'.info.torrentInfo = p.info.torrentInfo := hadv.torrentInfo
  have hl : p'.info.localFileInfo = p.info.localFileInfo := hadv.localFileInfo
  have hids : p'.info.fileidlist = p.info.fileidlist := hadv.fileidlist
  refine ⟨ht ▸ hl ▸ Job.step_whole hp.whole hinto h, ht ▸ hp.same, fun fileid path hpath => ?_⟩
  rw [hl] at hpath
  rw [hids, ht]
  obtain ⟨hid, file, hfile, hsum, hbits⟩ := hp.files fileid path hpath
  exact ⟨hid, file, hfile, hsum, fun c hc => (Job.step_isSome_bit h fileid c).trans (hbits c hc)⟩

/-- What holds of a job is about its files only. -/
theorem Sound.of_disk (hp : Sound sha1 p m) (hdisk : ∀ path ∈ p.paths, m'.2.find? path = m.2.find? path) :
    Sound sha1 p m' :=
  ⟨hp.whole.of_disk m'.1 fun fileid path hpath => hdisk path ⟨fileid, hpath⟩, hp.same, hp.files⟩

/-- It is not about the counters and the flags. -/
theorem Sound.of_bitmapMap {d : DownloadInfo} (hp : Sound sha1 p m) (hd : d.bitmapMap = p.info.downloadInfo.bitmapMap) :
    Sound sha1 ⟨{ p.info with downloadInfo := d }, p.activity⟩ m := by
  have hbit : ∀ fileid pos, d.bit fileid pos = p.info.downloadInfo.bit fileid pos := by
    intro fileid pos
    rw [DownloadInfo.bit, DownloadInfo.bit, hd]
  refine ⟨?_, hp.same, fun fileid path hpath => ?_⟩
  · exact hp.whole.congr (hp.whole.backing.congr rfl rfl hbit rfl rfl (.inl rfl)) rfl rfl rfl rfl hp.whole.running (.inl rfl)
      fun _ => rfl
  · obtain ⟨hid, file, hfile, hsum, hbits⟩ := hp.files fileid path hpath
    exact ⟨hid, file, hfile, hsum, fun c hc => (congrArg Option.isSome (hbit fileid c)).trans (hbits c hc)⟩

/-- **A job is about its paths only.** -/
theorem footed : Footed (fun m : LocalSockManager × Disk => m.2.find?) paths (Sound sha1) (Moves sha1) where
  kept hp h := hp.step h
  foot_eq hp h := by
    obtain ⟨a, -, h⟩ := h
    have hl : _ = _ := (Job.step_advances h).localFileInfo
    simp only [job] at hl
    simp only [paths, hl]
  outside := by
    intro p p' m m' hp h path hpath
    obtain ⟨a, hinto, h⟩ := h
    have hbacking := hp.whole.backing
    have htidy : Job.Tidy (p.job m).disk (p.job m) :=
      ⟨fun task ht => ⟨task.fileid, LocalFileInfo.mem_paths_of_getFile (hbacking.tasks task ht).file⟩, hbacking.copies,
        fun _ _ => rfl⟩
    refine (Job.step_tidy htidy hinto h).disk path fun fileid hmem => hpath ⟨fileid, ?_⟩
    rwa [(Job.step_advances h).localFileInfo] at hmem
  congr hp hm := hp.of_disk fun path hpath => hm hpath

/-- What a job has left when it is at its end, and no bit is clear. -/
theorem Sound.find?_matches (hp : Sound sha1 p m) (hended : p.activity.pc = .ended)
    (hall : ∀ fileid ∈ p.info.fileidlist, ∀ pos, p.info.downloadInfo.bit fileid pos ≠ some false) {fileid path : String}
    (hpath : path ∈ p.info.localFileInfo.paths fileid) :
    ∃ file ∈ p.info.torrentInfo.torrent.file, file.checkSum = fileid ∧
      ∃ content, m.2.find? path = some content ∧ (content.length : ℤ) = file.size.toInt ∧ Job.Matches sha1 file content := by
  obtain ⟨hid, file, hfile, rfl, hbits⟩ := hp.files fileid path hpath
  refine ⟨file, hfile, rfl, hp.whole.find?_matches hp.same hended hfile hpath fun c hc => ?_⟩
  obtain ⟨b, hb⟩ := Option.isSome_iff_exists.mp (hbits c hc)
  cases b with
  | true => exact hb
  | false => exact absurd hb (hall _ hid c)

section new

variable {torrent : Torrent} {topPath : String} {needs : List FileIdentityInfo} {uploadTotal downloadTotal : UInt64}
  {disk₀ : Disk} {d : DownloadInfo}

/-- The paths of a new job. -/
theorem mem_paths_new {activity : Activity} {path : String} :
    path ∈ (Part.mk { (JobInfo.new torrent topPath needs uploadTotal downloadTotal (fun _ => none) disk₀).1 with
      downloadInfo := d } activity).paths ↔ path ∈ (JobInfo.neededFiles torrent needs).map (JobInfo.localPath topPath) := by
  constructor
  · rintro ⟨fileid, hpath⟩
    dsimp only at hpath
    rw [JobInfo.paths_new] at hpath
    obtain ⟨file, hfile, rfl⟩ := List.mem_map.mp hpath
    exact List.mem_map_of_mem (List.mem_of_mem_filter hfile)
  · intro hpath
    obtain ⟨file, hfile, rfl⟩ := List.mem_map.mp hpath
    exact ⟨file.checkSum, Job.localPath_mem_paths hfile⟩

/-- A new job begins with that. -/
theorem sound_new (htiled : ∀ file ∈ torrent.file, file.UniformlyTiled)
    (hsame : ∀ file ∈ torrent.file, ∀ file' ∈ torrent.file, file.checkSum = file'.checkSum → file.chunk = file'.chunk)
    (hnodup : ((JobInfo.neededFiles torrent needs).map (JobInfo.localPath topPath)).Nodup)
    (hthere : ∀ file ∈ JobInfo.neededFiles torrent needs, ∀ content,
      disk₀.find? (JobInfo.localPath topPath file) = some content → (content.length : ℤ) = file.size.toInt)
    (hmade : ∀ fileid c, (d.bit fileid c).isSome =
      ((JobInfo.new torrent topPath needs uploadTotal downloadTotal (fun _ => none) disk₀).1.downloadInfo.bit fileid c).isSome)
    (hbacked : ∀ fileid c, d.bit fileid c = some true → Job.BackedAt sha1 ⟨torrent⟩
      (JobInfo.new torrent topPath needs uploadTotal downloadTotal (fun _ => none) disk₀).1.localFileInfo
      (JobInfo.new torrent topPath needs uploadTotal downloadTotal (fun _ => none) disk₀).2 fileid c) (m : LocalSockManager) :
    Sound sha1 ⟨{ (JobInfo.new torrent topPath needs uploadTotal downloadTotal (fun _ => none) disk₀).1 with downloadInfo := d },
      .new⟩ (m, (JobInfo.new torrent topPath needs uploadTotal downloadTotal (fun _ => none) disk₀).2) := by
  have ht := JobInfo.torrentInfo_new torrent topPath needs uploadTotal downloadTotal (fun _ => none) disk₀
  refine ⟨?_, ?_, fun fileid path hpath => ?_⟩
  · have hwhole := @Job.whole_of_bits sha1 torrent topPath needs uploadTotal downloadTotal m disk₀ d htiled hsame hnodup hthere
      hbacked
    rw [← ht] at hwhole
    exact hwhole
  · dsimp only
    rwa [ht]
  · dsimp only at hpath ⊢
    rw [JobInfo.paths_new] at hpath
    obtain ⟨file, hfile, rfl⟩ := List.mem_map.mp hpath
    obtain ⟨hneeded, hid⟩ := List.mem_filter.mp hfile
    obtain rfl : file.checkSum = fileid := of_decide_eq_true hid
    rw [JobInfo.fileidlist_new, ht]
    refine ⟨List.mem_map_of_mem hneeded, file, List.mem_of_mem_filter hneeded, rfl, fun c hc => ?_⟩
    rw [hmade, JobInfo.bit_new hsame hneeded hc]
    rfl

end new

end Part

/-- A client whose jobs run. -/
structure RunningClient where
  client : CoolClient
  /-- `removed_jobs_`. -/
  removed : SortedMap ℕ JobInfo
  activity : ℕ → Activity
  sockManager : LocalSockManager
  disk : Disk

namespace RunningClient

/-- What happens next. -/
inductive Action where
  | addNewDownloadJob (env : Surroundings) (torrentPath : String) (torrent : Torrent) (needs : List FileIdentityInfo)
    (topPath : String)
  | addNewUploadJob (env : Surroundings) (publish : String → Option Exception) (torrentPath topPath : String)
    (torrent : Torrent)
  | removeJob (handle : ℕ)
  /-- A thread of a job goes on, or a flag of it is set. -/
  | job (handle : ℕ) (a : Job.Action)
  /-- The collector goes a round. -/
  | collect (percentage : Bitmap → Int32)

/-- A client without jobs. -/
def start (m : LocalSockManager) (disk : Disk) : RunningClient := ⟨.new, ∅, fun _ => .new, m, disk⟩

/-- A job, in the table or removed. -/
def part (s : RunningClient) (handle : ℕ) : Option Part :=
  ((s.client.jobs.find? handle).or (s.removed.find? handle)).map fun info => ⟨info, s.activity handle⟩

/-- What the jobs share. -/
def shared (s : RunningClient) : LocalSockManager × Disk := (s.sockManager, s.disk)

/-- The job with what it shares. -/
def job? (s : RunningClient) (handle : ℕ) : Option Job := (s.part handle).map fun p => p.job s.shared

/-- The job is as it is after a step. -/
def store (s : RunningClient) (handle : ℕ) (j : Job) : RunningClient where
  client :=
    if (s.client.jobs.find? handle).isSome then { s.client with jobs := s.client.jobs.insert handle j.jobInfo } else s.client
  removed := if (s.client.jobs.find? handle).isSome then s.removed else s.removed.insert handle j.jobInfo
  activity := Function.update s.activity handle (.of j)
  sockManager := j.sockManager
  disk := j.disk

/-- The jobs as the collector finds them. -/
def listed (s : RunningClient) : SortedMap ℕ Collector.Listed :=
  s.client.jobs.map fun handle info =>
    ⟨(s.activity handle).isRunning, info.torrentInfo.torrent.trackerAddress, info.downloadInfo⟩

/-- The jobs as the collector leaves them. -/
def collected (s : RunningClient) (jobs : SortedMap ℕ Collector.Listed) : RunningClient :=
  { s with client := { s.client with jobs := s.client.jobs.map fun handle info =>
      { info with downloadInfo := ((jobs.find? handle).map Collector.Listed.downloadInfo).getD info.downloadInfo } } }

variable (sha1 : Bytes → String) in
/-- One step: `none` where it is not possible. -/
def step (s : RunningClient) : Action → Option RunningClient
  | .addNewDownloadJob env torrentPath torrent needs topPath =>
    let r := CoolClient.addNewDownloadJob env torrentPath torrent needs topPath s.client s.disk
    some { s with client := r.2.1, disk := r.2.2 }
  | .addNewUploadJob env publish torrentPath topPath torrent =>
    let r := CoolClient.addNewUploadJob env publish torrentPath topPath torrent s.client s.disk
    some { s with client := r.2.1, disk := r.2.2 }
  | .removeJob handle =>
    match s.client.jobs.find? handle with
    | none => some s
    | some info =>
      some { s with
        client := (s.client.removeJob handle).2
        removed := s.removed.insert handle { info with downloadInfo := { info.downloadInfo with isJobRemoved := true } } }
  | .job handle a => (s.job? handle).bind fun j => (j.step sha1 a).map (s.store handle)
  | .collect percentage => some (s.collected (Collector.collectJobs percentage s.listed.entries s.listed).2)

variable {sha1 : Bytes → String} {s s' : RunningClient} {handle : ℕ}

/-! ### The table -/

theorem part_store_self (j : Job) : (s.store handle j).part handle = some ⟨j.jobInfo, .of j⟩ := by
  unfold part store
  cases hfind : s.client.jobs.find? handle with
  | some info => simp
  | none => simp [hfind]

theorem part_store_of_ne {j : Job} {handle' : ℕ} (hne : handle' ≠ handle) : (s.store handle j).part handle' = s.part handle' := by
  unfold part store
  simp only [Function.update_of_ne hne]
  split_ifs
  · rw [SortedMap.find?_insert_of_ne _ (Ne.symm hne)]
  · rw [SortedMap.find?_insert_of_ne _ (Ne.symm hne)]

/-- A job that is added has the next handle. -/
theorem part_addNewJob {info : JobInfo} {torrentPath : String} {disk : Disk} (torrentId : String)
    (hactivity : s.activity s.client.jobIndex = .new) :
    let added : RunningClient := { s with client := (s.client.registerTorrent torrentId).addNewJob info torrentPath, disk }
    added.part s.client.jobIndex = some ⟨info, .new⟩ ∧ ∀ handle ≠ s.client.jobIndex, added.part handle = s.part handle := by
  refine ⟨?_, fun handle hne => ?_⟩
  · have hfind : ((s.client.registerTorrent torrentId).addNewJob info torrentPath).jobs.find? s.client.jobIndex = some info :=
      SortedMap.find?_insert_self ..
    simp only [part, hfind, Option.some_or, Option.map_some, hactivity]
  · have hfind : ((s.client.registerTorrent torrentId).addNewJob info torrentPath).jobs.find? handle =
        s.client.jobs.find? handle := SortedMap.find?_insert_of_ne _ (Ne.symm hne)
    simp only [part, hfind]

/-- A job takes a step. -/
theorem step_job {a : Job.Action} (h : s.step sha1 (.job handle a) = some s') :
    ∃ p j, s.part handle = some p ∧ (p.job s.shared).step sha1 a = some j ∧ s' = s.store handle j := by
  obtain ⟨j, hj, h⟩ := Option.bind_eq_some_iff.mp h
  obtain ⟨p, hp, rfl⟩ := Option.map_eq_some_iff.mp hj
  obtain ⟨j', hstep, rfl⟩ := Option.map_eq_some_iff.mp h
  exact ⟨p, j', hp, hstep, rfl⟩

/-- The jobs are the same but for counters and flags. -/
def SameBitmaps (s s' : RunningClient) : Prop :=
  (∀ handle q', s'.part handle = some q' → ∃ q d, s.part handle = some q ∧
    d.bitmapMap = q.info.downloadInfo.bitmapMap ∧ q' = ⟨{ q.info with downloadInfo := d }, q.activity⟩) ∧
  ∀ handle q, s.part handle = some q → ∃ q', s'.part handle = some q'

/-- `RemoveJob` sets a flag, and the job is in the other table. -/
theorem sameBitmaps_removeJob {info : JobInfo} (hfind : s.client.jobs.find? handle = some info) :
    s.SameBitmaps { s with
      client := (s.client.removeJob handle).2
      removed := s.removed.insert handle { info with downloadInfo := { info.downloadInfo with isJobRemoved := true } } } := by
  have hjobs : (s.client.removeJob handle).2.jobs = s.client.jobs.erase handle := by rw [CoolClient.removeJob, hfind]
  have hself : s.part handle = some ⟨info, s.activity handle⟩ := by rw [part, hfind]; rfl
  refine ⟨fun handle' q' hq' => ?_, fun handle' q hq => ?_⟩
  · simp only [part, hjobs, SortedMap.find?_erase, SortedMap.find?_insert] at hq'
    by_cases heq : handle = handle'
    · subst heq
      simp only [if_true, Option.none_or, Option.map_some, Option.some.injEq] at hq'
      exact ⟨_, { info.downloadInfo with isJobRemoved := true }, hself, rfl, hq'.symm⟩
    · simp only [if_neg heq] at hq'
      exact ⟨q', _, hq', rfl, rfl⟩
  · simp only [part, hjobs, SortedMap.find?_erase, SortedMap.find?_insert]
    by_cases heq : handle = handle'
    · simp only [if_pos heq, Option.none_or, Option.map_some]
      exact ⟨_, rfl⟩
    · simp only [if_neg heq]
      exact ⟨q, hq⟩

/-- So does a round of the collector. -/
theorem sameBitmaps_collect (percentage : Bitmap → Int32) :
    s.SameBitmaps (s.collected (Collector.collectJobs percentage s.listed.entries s.listed).2) := by
  have hkept := @Collector.bitmapMap_collectJobs percentage s.listed.entries s.listed s.listed
    (fun e he => SortedMap.find?_eq_some.mpr he) (fun handle j h => ⟨j, h, rfl⟩)
  refine ⟨fun handle q' hq' => ?_, fun handle q hq => ?_⟩
  · simp only [part, collected, SortedMap.find?_map] at hq' ⊢
    cases hfind : s.client.jobs.find? handle with
    | none =>
      rw [hfind] at hq'
      exact ⟨q', _, hq', rfl, rfl⟩
    | some info =>
      rw [hfind] at hq'
      simp only [Option.map_some, Option.some_or, Option.some.injEq] at hq' ⊢
      refine ⟨_, _, rfl, ?_, hq'.symm⟩
      cases hleft : (Collector.collectJobs percentage s.listed.entries s.listed).2.find? handle with
      | none => rfl
      | some j =>
        obtain ⟨j₀, hj₀, hsame⟩ := hkept hleft
        rw [listed, SortedMap.find?_map, hfind] at hj₀
        obtain rfl := Option.some.inj hj₀
        exact hsame
  · simp only [part, collected, SortedMap.find?_map] at hq ⊢
    cases hfind : s.client.jobs.find? handle with
    | none =>
      rw [hfind] at hq
      exact ⟨q, hq⟩
    | some info => exact ⟨_, rfl⟩

/-! ### Any number of jobs -/

/-- What is asked when a job is added: nothing fails, the torrent is tiled, files of one digest have the same chunks, and the
paths are distinct, and none is that of another job. -/
structure Addable (s : RunningClient) (env : Surroundings) (torrent : Torrent) (needs : List FileIdentityInfo)
    (topPath : String) : Prop where
  faultless : env.fault = fun _ => none
  tiled : ∀ file ∈ torrent.file, file.UniformlyTiled
  same : ∀ file ∈ torrent.file, ∀ file' ∈ torrent.file, file.checkSum = file'.checkSum → file.chunk = file'.chunk
  nodup : ((JobInfo.neededFiles torrent needs).map (JobInfo.localPath topPath)).Nodup
  apart : ∀ file ∈ JobInfo.neededFiles torrent needs, ∀ handle p, s.part handle = some p →
    JobInfo.localPath topPath file ∉ p.paths

variable (sha1) in
/-- The files of a download that are there have their sizes, and those of an upload match the torrent; and no copy is made in
a directory. -/
def Careful (s : RunningClient) : Action → Prop
  | .addNewDownloadJob env _ torrent needs topPath =>
    s.client.hasThisTorrent torrent.torrentId = false → Addable s env torrent needs topPath ∧
      ∀ file ∈ JobInfo.neededFiles torrent needs, ∀ content,
        s.disk.find? (JobInfo.localPath topPath file) = some content → (content.length : ℤ) = file.size.toInt
  | .addNewUploadJob env _ _ topPath torrent =>
    s.client.hasThisTorrent torrent.torrentId = false → Addable s env torrent (allFiles torrent) topPath ∧
      ∀ file ∈ JobInfo.neededFiles torrent (allFiles torrent), ∃ content,
        s.disk.find? (JobInfo.localPath topPath file) = some content ∧ (content.length : ℤ) = file.size.toInt ∧
          Job.Matches sha1 file content
  | .job handle a => ∀ j, s.job? handle = some j → j.intoDirectory a = false
  | .removeJob _ | .collect _ => True

variable (sha1) in
/-- Each job is as it should be, and alone with its files. A handle that has not been given out has no job. -/
structure Orderly (m₀ : LocalSockManager × Disk) (s : RunningClient) : Prop where
  separate : Separate (fun m : LocalSockManager × Disk => m.2.find?) Part.paths (Part.Sound sha1) m₀ s.part s.shared
  lt : ∀ handle, (s.part handle).isSome → handle < s.client.jobIndex
  new : ∀ handle, s.client.jobIndex ≤ handle → s.activity handle = .new

variable {m₀ : LocalSockManager × Disk}

theorem orderly_start (m : LocalSockManager) (disk : Disk) : Orderly sha1 (m, disk) (start m disk) where
  separate := separate_of_forall_eq_none fun _ => rfl
  lt := by rintro handle ⟨⟩
  new _ _ := rfl

theorem Orderly.part_jobIndex (hs : Orderly sha1 m₀ s) : s.part s.client.jobIndex = none := by
  by_contra h
  exact lt_irrefl _ (hs.lt _ (Option.isSome_iff_ne_none.mpr h))

/-- A change of counters and flags. -/
theorem Orderly.of_sameBitmaps (hs : Orderly sha1 m₀ s) (h : s.SameBitmaps s') (hshared : s'.shared = s.shared)
    (hindex : s'.client.jobIndex = s.client.jobIndex) (hactivity : s'.activity = s.activity) : Orderly sha1 m₀ s' := by
  refine ⟨?_, fun handle hsome => ?_, ?_⟩
  · rw [hshared]
    refine hs.separate.change (fun handle q' hq' => ?_) h.2
    obtain ⟨q, d, hq, hd, rfl⟩ := h.1 handle q' hq'
    exact ⟨q, hq, rfl, fun hsound => hsound.of_bitmapMap hd⟩
  · obtain ⟨q', hq'⟩ := Option.isSome_iff_exists.mp hsome
    obtain ⟨q, -, hq, -, -⟩ := h.1 handle q' hq'
    rw [hindex]
    exact hs.lt handle (by rw [hq]; rfl)
  · rw [hindex, hactivity]
    exact hs.new

/-- A step of a job. -/
theorem Orderly.job (hs : Orderly sha1 m₀ s) {a : Job.Action} (hcareful : Careful sha1 s (.job handle a))
    (h : s.step sha1 (.job handle a) = some s') : Orderly sha1 m₀ s' := by
  obtain ⟨p, j', hp, hstep, rfl⟩ := step_job h
  have hindex : (s.store handle j').client.jobIndex = s.client.jobIndex := by
    unfold store
    dsimp only
    split_ifs <;> rfl
  have hlt : handle < s.client.jobIndex := hs.lt handle (by rw [hp]; rfl)
  refine ⟨?_, fun handle' hsome => ?_, fun handle' hle => ?_⟩
  · have hmoves : Part.Moves sha1 p s.shared ⟨j'.jobInfo, .of j'⟩ (j'.sockManager, j'.disk) :=
      ⟨a, hcareful _ (by rw [job?, hp]; rfl), hstep⟩
    exact hs.separate.step Part.footed hp hmoves (part_store_self j') fun handle' hne => part_store_of_ne hne
  · rw [hindex]
    by_cases heq : handle' = handle
    · rwa [heq]
    · rw [part_store_of_ne heq] at hsome
      exact hs.lt handle' hsome
  · rw [hindex] at hle
    have hne : handle' ≠ handle := by omega
    exact (Function.update_of_ne hne _ _).trans (hs.new handle' hle)

/-- A job is added. -/
theorem Orderly.add (hs : Orderly sha1 m₀ s) {env : Surroundings} {torrent : Torrent} {needs : List FileIdentityInfo}
    {topPath torrentPath : String} {uploadTotal downloadTotal : UInt64} {d : DownloadInfo}
    (hadd : s.Addable env torrent needs topPath)
    (hsound : ∀ m, Part.Sound sha1 ⟨{ (JobInfo.new torrent topPath needs uploadTotal downloadTotal (fun _ => none) s.disk).1 with
      downloadInfo := d }, .new⟩ (m, (JobInfo.new torrent topPath needs uploadTotal downloadTotal (fun _ => none) s.disk).2)) :
    Orderly sha1 m₀ { s with
      client := (s.client.registerTorrent torrent.torrentId).addNewJob
        { (JobInfo.new torrent topPath needs uploadTotal downloadTotal (fun _ => none) s.disk).1 with downloadInfo := d } torrentPath
      disk := (JobInfo.new torrent topPath needs uploadTotal downloadTotal (fun _ => none) s.disk).2 } := by
  obtain ⟨hself, hothers⟩ := @part_addNewJob s
    { (JobInfo.new torrent topPath needs uploadTotal downloadTotal (fun _ => none) s.disk).1 with downloadInfo := d } torrentPath
    (JobInfo.new torrent topPath needs uploadTotal downloadTotal (fun _ => none) s.disk).2 torrent.torrentId (hs.new _ le_rfl)
  refine ⟨?_, fun handle hsome => ?_, fun handle hle => hs.new handle (Nat.le_of_succ_le hle)⟩
  · refine hs.separate.add Part.footed hs.part_jobIndex hself hothers (hsound _) (fun handle q hq => ?_) fun path hpath => ?_
    · intro path hpath hmem
      obtain ⟨file, hfile, rfl⟩ := List.mem_map.mp (Part.mem_paths_new.mp hmem)
      exact hadd.apart file hfile handle q hq hpath
    · exact JobInfo.find?_disk_new_of_not_mem fun hmem => hpath (Part.mem_paths_new.mpr hmem)
  · by_cases heq : handle = s.client.jobIndex
    · rw [heq]
      exact Nat.lt_succ_self _
    · rw [hothers handle heq] at hsome
      exact Nat.lt_succ_of_lt (hs.lt handle hsome)

/-- A download is added. -/
theorem Orderly.addNewDownloadJob (hs : Orderly sha1 m₀ s) {env : Surroundings} {torrent : Torrent}
    {needs : List FileIdentityInfo} {topPath torrentPath : String}
    (hcareful : Careful sha1 s (.addNewDownloadJob env torrentPath torrent needs topPath))
    (h : s.step sha1 (.addNewDownloadJob env torrentPath torrent needs topPath) = some s') : Orderly sha1 m₀ s' := by
  obtain rfl := Option.some.inj h
  unfold CoolClient.addNewDownloadJob
  split_ifs with hhas
  · exact hs
  · obtain ⟨hadd, hthere⟩ := hcareful (Bool.eq_false_iff.mpr hhas)
    rw [hadd.faultless]
    refine hs.add hadd fun m => Part.sound_new hadd.tiled hadd.same hadd.nodup hthere (fun _ _ => rfl) (fun _ _ hbit => ?_) m
    cases JobInfo.eq_false_of_bit_new hbit

/-- Files that are there are left as they are. -/
theorem find?_disk_new_eq {torrent : Torrent} {topPath : String} {needs : List FileIdentityInfo}
    {uploadTotal downloadTotal : UInt64} {disk : Disk}
    (hthere : ∀ file ∈ JobInfo.neededFiles torrent needs, ∃ content, disk.find? (JobInfo.localPath topPath file) = some content) :
    (JobInfo.new torrent topPath needs uploadTotal downloadTotal (fun _ => none) disk).2.find? = disk.find? := by
  funext path
  by_cases hmem : path ∈ (JobInfo.neededFiles torrent needs).map (JobInfo.localPath topPath)
  · obtain ⟨file, hfile, rfl⟩ := List.mem_map.mp hmem
    obtain ⟨content, hcontent⟩ := hthere file hfile
    rw [hcontent]
    exact JobInfo.find?_disk_new hcontent
  · exact JobInfo.find?_disk_new_of_not_mem hmem

/-- An upload is added, or the tracker does not answer. -/
theorem Orderly.addNewUploadJob (hs : Orderly sha1 m₀ s) {env : Surroundings} {publish : String → Option Exception}
    {torrent : Torrent} {topPath torrentPath : String}
    (hcareful : Careful sha1 s (.addNewUploadJob env publish torrentPath topPath torrent))
    (h : s.step sha1 (.addNewUploadJob env publish torrentPath topPath torrent) = some s') : Orderly sha1 m₀ s' := by
  obtain rfl := Option.some.inj h
  unfold CoolClient.addNewUploadJob
  split_ifs with hhas
  · exact hs
  · obtain ⟨hadd, hthere⟩ := hcareful (Bool.eq_false_iff.mpr hhas)
    rw [hadd.faultless]
    cases hset : setAll publish torrent.file [] (JobInfo.new torrent topPath (allFiles torrent) env.uploadTotal
        env.downloadTotal (fun _ => none) s.disk).1.downloadInfo with
    | error e =>
      simp only [hset]
      refine ⟨hs.separate.congr Part.footed (find?_disk_new_eq fun file hfile => ?_), hs.lt, hs.new⟩
      obtain ⟨content, hcontent, -, -⟩ := hthere file hfile
      exact ⟨content, hcontent⟩
    | ok d =>
      simp only [hset]
      have hmade := Swarm.setAll_sameBits hset
      refine hs.add hadd fun m => Part.sound_new hadd.tiled hadd.same hadd.nodup ?_ hmade
        (fun _ _ hbit => Job.backedAt_of_there hadd.same hthere hmade hbit) m
      intro file hfile content hcontent
      obtain ⟨content', hcontent', hsize, -⟩ := hthere file hfile
      obtain rfl := Option.some.inj (hcontent.symm.trans hcontent')
      exact hsize

/-- **Every step leaves the jobs in order.** -/
theorem step_orderly {a : Action} (hs : Orderly sha1 m₀ s) (hcareful : Careful sha1 s a) (h : s.step sha1 a = some s') :
    Orderly sha1 m₀ s' := by
  cases a with
  | addNewDownloadJob => exact hs.addNewDownloadJob hcareful h
  | addNewUploadJob => exact hs.addNewUploadJob hcareful h
  | removeJob handle =>
    rw [step] at h
    split at h
    · obtain rfl := Option.some.inj h
      exact hs
    · next info hfind =>
      obtain rfl := Option.some.inj h
      have hindex : (s.client.removeJob handle).2.jobIndex = s.client.jobIndex := by rw [CoolClient.removeJob, hfind]
      exact hs.of_sameBitmaps (sameBitmaps_removeJob hfind) rfl hindex rfl
  | job handle a => exact hs.job hcareful h
  | collect percentage =>
    obtain rfl := Option.some.inj h
    exact hs.of_sameBitmaps (sameBitmaps_collect percentage) rfl rfl rfl

/-- **Any number of jobs at a time.** A client has been started without jobs. Let downloads and uploads be added as above, and
jobs be removed; let the threads of all jobs go on in any order, with no copy made in a directory, and let the collector go
its rounds. Then every bit that is
set, of any job, stands for a chunk on the disk with the recorded digest. A job that is at its end, and has no clear bit, has
left at each of its paths a file with the size and the digests that the torrent gives, and so it stays, whatever the other
jobs do. What is at the path of no job is as it was at the start. -/
theorem run_jobs {m : LocalSockManager} {disk₀ : Disk} {as : List Action}
    (hrun : exec (step sha1) (start m disk₀) as = some s) (hcareful : Always (step sha1) (Careful sha1) (start m disk₀) as) :
    (∀ handle j, s.job? handle = some j →
      (∀ fileid pos, j.jobInfo.downloadInfo.bit fileid pos = some true →
        Job.BackedAt sha1 j.jobInfo.torrentInfo j.jobInfo.localFileInfo s.disk fileid pos) ∧
      (j.pc = .ended → (∀ fileid ∈ j.jobInfo.fileidlist, ∀ pos, j.jobInfo.downloadInfo.bit fileid pos ≠ some false) →
        ∀ fileid, ∀ path ∈ j.jobInfo.localFileInfo.paths fileid,
          ∃ file ∈ j.jobInfo.torrentInfo.torrent.file, file.checkSum = fileid ∧ ∃ content,
            s.disk.find? path = some content ∧ (content.length : ℤ) = file.size.toInt ∧ Job.Matches sha1 file content)) ∧
    ∀ path, (∀ handle j, s.job? handle = some j → ∀ fileid, path ∉ j.jobInfo.localFileInfo.paths fileid) →
      s.disk.find? path = disk₀.find? path := by
  have hs : Orderly sha1 (m, disk₀) s :=
    exec_invariant_of_always (fun hs hcareful h => step_orderly hs hcareful h) hcareful hrun (orderly_start m disk₀)
  refine ⟨fun handle j hj => ?_, fun path hpath => ?_⟩
  · obtain ⟨p, hp, rfl⟩ := Option.map_eq_some_iff.mp hj
    have hsound := hs.separate.holds hp
    exact ⟨hsound.whole.backing.bits, fun hended hall fileid path hpath => hsound.find?_matches hended hall hpath⟩
  · refine hs.separate.outside fun handle p hp hmem => ?_
    obtain ⟨fileid, hfileid⟩ := hmem
    exact hpath handle _ (by rw [job?, hp]; rfl) fileid hfileid

/-! ### Two jobs -/

/-- The torrent of a file that is shared. -/
def sharedTorrent : Torrent := { Job.oneChunkTorrent with torrentId := "u" }

/-- A client that has a connection to a peer, and the file on its disk. -/
def sharer : RunningClient := start (LocalSockManager.new.connectClient "p" (some 0)).2 ((∅ : Disk).insert "/s/a" [7])

/-- One job shares the file, the other downloads it to two paths. When that is done, the collector goes a round, and the first
job is removed. -/
def fetchBoth : List Action :=
  [.job 0 (.env .resume), .job 0 .start] ++ (Job.duplicateRun ++ [Job.Action.run .go, .run .go]).map (.job 1) ++
    [.collect fun _ => 100, .removeJob 0]

/-- The jobs are added before that. -/
def shareAndFetch : List Action :=
  .addNewUploadJob ⟨0, 0, fun _ => none⟩ (fun _ => none) "/u" "/s/" sharedTorrent ::
    .addNewDownloadJob ⟨0, 0, fun _ => none⟩ "/t" Job.duplicateTorrent [⟨"", "a"⟩, ⟨"", "b"⟩] "/d/" :: fetchBoth

/-- The first job has one path. -/
theorem paths_of_sharer {t : RunningClient} {p : Part} {path : String}
    (ht : sharer.step Job.oneChunkSha1 (.addNewUploadJob ⟨0, 0, fun _ => none⟩ (fun _ => none) "/u" "/s/" sharedTorrent) =
      some t) (hp : t.part handle = some p) (hpath : path ∈ p.paths) : path = "/s/a" := by
  obtain rfl := Option.some.inj ht
  obtain ⟨info, hinfo, rfl⟩ := Option.map_eq_some_iff.mp hp
  obtain ⟨fileid, hmem⟩ := hpath
  have hpaths : ∀ info', (if 0 = handle then some info' else none) = some info →
      (∀ fileid, info'.localFileInfo.paths fileid = (if "f" = fileid then some ["/s/a"] else none).getD []) → path = "/s/a" := by
    intro info' hinfo' hpaths
    split_ifs at hinfo'
    obtain rfl := Option.some.inj hinfo'
    rw [hpaths] at hmem
    split_ifs at hmem
    · exact List.mem_singleton.mp hmem
    · cases hmem
  rw [show RunningClient.removed _ = (∅ : SortedMap ℕ JobInfo) from rfl, SortedMap.find?_empty, Option.or_none] at hinfo
  exact hpaths _ hinfo fun _ => rfl

/-- A job goes on, with no copy in a directory, or is removed, or the collector goes a round. -/
def goesOn (s : RunningClient) : Action → Bool
  | .job handle a => (s.job? handle).all fun j => !j.intoDirectory a
  | .removeJob _ | .collect _ => true
  | .addNewDownloadJob .. | .addNewUploadJob .. => false

theorem careful_of_goesOn {a : Action} (h : s.goesOn a) : Careful sha1 s a := by
  cases a with
  | job handle a =>
    intro j hj
    simpa [goesOn, hj] using h
  | removeJob | collect => trivial
  | addNewDownloadJob | addNewUploadJob => cases h

theorem careful_shareAndFetch : Always (step Job.oneChunkSha1) (Careful Job.oneChunkSha1) sharer shareAndFetch := by
  have htiled := Job.tiled_duplicateTorrent
  have hsame := Job.same_duplicateTorrent
  have hsub : ∀ file ∈ sharedTorrent.file, file ∈ Job.duplicateTorrent.file := fun file h => List.mem_append_left _ h
  refine ⟨fun _ => ⟨⟨rfl, fun file h => htiled file (hsub file h), ?_, by decide, by rintro file - handle p ⟨⟩⟩, ?_⟩, ?_⟩
  · exact fun file h file' h' => hsame file (hsub file h) file' (hsub file' h')
  · intro file h
    obtain rfl := List.mem_singleton.mp (List.mem_of_mem_filter h)
    refine ⟨[7], rfl, rfl, fun c hc => ?_⟩
    obtain rfl : c = 0 := by simpa [Torrent.File.chunkCount] using hc
    rfl
  intro t ht
  refine ⟨fun _ => ⟨⟨rfl, htiled, hsame, by decide, ?_⟩, ?_⟩, fun u hu => ?_⟩
  · intro file hfile handle p hp hmem
    have hne : ∀ file ∈ JobInfo.neededFiles Job.duplicateTorrent [⟨"", "a"⟩, ⟨"", "b"⟩], JobInfo.localPath "/d/" file ≠ "/s/a" := by
      decide
    exact hne file hfile (paths_of_sharer ht hp hmem)
  · obtain rfl := Option.some.inj ht
    intro file hfile content hcontent
    have hnone : ∀ file ∈ JobInfo.neededFiles Job.duplicateTorrent [⟨"", "a"⟩, ⟨"", "b"⟩],
        ((∅ : Disk).insert "/s/a" [7]).find? (JobInfo.localPath "/d/" file) = none := by decide
    cases (hnone file hfile).symm.trans hcontent
  · obtain rfl := Option.some.inj ht
    obtain rfl := Option.some.inj hu
    refine Always.mono (P := fun s a => s.goesOn a) careful_of_goesOn ?_
    decide +kernel

theorem run_jobs_sharer : ∃ s file content, exec (step Job.oneChunkSha1) sharer shareAndFetch = some s ∧
    file ∈ Job.duplicateTorrent.file ∧ s.disk.find? "/d/b" = some content ∧ Job.Matches Job.oneChunkSha1 file content := by
  obtain ⟨s, j, hrun, hj, hended, htorrent, hbits, hpaths⟩ : ∃ s j,
      exec (step Job.oneChunkSha1) sharer shareAndFetch = some s ∧ s.job? 1 = some j ∧ j.pc = .ended ∧
      j.jobInfo.torrentInfo.torrent = Job.duplicateTorrent ∧
      (∀ fileid, j.jobInfo.downloadInfo.bitmapMap.find? fileid = if "f" = fileid then some (some [true]) else none) ∧
      ∀ fileid, j.jobInfo.localFileInfo.paths fileid = (if "f" = fileid then some ["/d/a", "/d/b"] else none).getD [] :=
    ⟨_, _, rfl, rfl, rfl, rfl, fun _ => rfl, fun _ => rfl⟩
  have hall : ∀ fileid ∈ j.jobInfo.fileidlist, ∀ pos, j.jobInfo.downloadInfo.bit fileid pos ≠ some false :=
    fun fileid _ => DownloadInfo.bit_ne_false_of_one hbits fileid
  obtain ⟨-, hmatches⟩ := (run_jobs hrun careful_shareAndFetch).1 1 j hj
  obtain ⟨file, hfile, -, content, hcontent, -, hmatch⟩ := hmatches hended hall "f" "/d/b" (by simp [hpaths])
  exact ⟨s, file, content, hrun, htorrent ▸ hfile, hcontent, hmatch⟩

end RunningClient

end CoolDown
