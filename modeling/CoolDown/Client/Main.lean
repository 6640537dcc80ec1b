import CoolDown.Client.CoolClient
import CoolDown.Client.HistoryWire
import CoolDown.Client.MakeTorrent

/-!
# What the client does with its arguments: `CoolClient::main`

With one argument, the path of a torrent file, `main` adds a download job for all the files of the
torrent under `/tmp/`, unless it has a job for the torrent already, and starts it. With two, the path
of a file or directory and that of a torrent file, it makes the torrent file, parses it again, and
adds an upload job for it, which is resumed.

## The model

Both are given from the place on where the history has been reloaded, up to the place where `main`
waits. What `MakeTorrent` returns is not looked at, so that a torrent file that was there before is
taken when a new one cannot be made.

## What is proved

* `mainDownload_of_hasThisTorrent`, `mainDownload_of_not_hasThisTorrent`: what is done for a torrent.
* `mainDownload_started`: the job that is started is a new one for the torrent in the file.
* `mainPublish_shared`: the job that shares what has been published, and the disk that it finds.
-/

namespace CoolDown

open Library JobHistory

/-- What a job knows when it has been resumed: it is neither stopped nor paused. -/
def JobInfo.resumed (info : JobInfo) : JobInfo :=
  { info with downloadInfo := { info.downloadInfo with isStopped := false, isDownloadPaused := false } }

namespace CoolClient

/-- What becomes of `main`. -/
inductive MainResult where
  /-- It returns `EXIT_TEMPFAIL`. -/
  | tempFail
  /-- It returns what `ParseTorrent` has. -/
  | returned (ret : Retcode)
  /-- It goes on to wait; the handle is that of the job it has started or resumed, if any. -/
  | waits (handle : Option ℕ)
  deriving DecidableEq

/-- `main` with one argument; `pool` is what becomes of `jobThreads_.start`. -/
def mainDownload (c : Codec) (env : Surroundings) (pool : Except Exception Unit) (torrentPath : String) (s : CoolClient)
    (disk : Disk) : Except Exception MainResult × CoolClient × Disk :=
  match parseTorrent c disk torrentPath with
  | .error ret => (.ok (.returned ret), s, disk)
  | .ok torrent =>
    if s.hasThisTorrent torrent.torrentId then (.ok (.waits none), s, disk)
    else
      match addNewDownloadJob env torrentPath torrent (allFiles torrent) "/tmp/" s disk with
      | (.errorOk, s', disk) =>
        match s'.startJob s.jobIndex false pool with
        | (.error e, s') => (.error e, s', disk)
        | (.ok ret, s') => (.ok (.waits (if ret = .errorOk then some s.jobIndex else none)), s', disk)
      | (_, s', disk) => (.ok (.waits none), s', disk)

variable (sha1 : Bytes → String) in
/-- `main` with two arguments; `node` is what is at the path of the resource. -/
def mainPublish (made : MakeTorrentEnv) (env : Surroundings) (publish : String → Option Exception) (resourcePath : Path)
    (node : Option Node) (torrentPath : String) (s : CoolClient) (disk : Disk) (e : Verification.SHA1Engine) :
    Except Exception MainResult × CoolClient × Disk :=
  match makeTorrent sha1 made resourcePath node ((1 : Int32) <<< 20) 1 "127.0.0.1:9977" e with
  | .error e => (.error e, s, disk)
  | .ok ((_, torrent), _) =>
    let disk :=
      match torrent with
      | some torrent => disk.insert torrentPath (Torrent.message.encode torrent)
      | none => disk
    match parseTorrent .wire disk torrentPath with
    | .error _ => (.ok .tempFail, s, disk)
    | .ok torrent =>
      match addNewUploadJob env publish torrentPath resourcePath.parent torrent s disk with
      | (.error e, s', disk) => (.error e, s', disk)
      | (.ok .errorOk, s', disk) => (.ok (.waits (some s.jobIndex)), (s'.resumeJobWithoutLock s.jobIndex).2, disk)
      | (.ok _, s', disk) => (.ok (.waits none), s', disk)

variable {sha1 : Bytes → String} {c : Codec} {made : MakeTorrentEnv} {env : Surroundings} {publish : String → Option Exception}
  {pool : Except Exception Unit} {resourcePath : Path} {node : Option Node} {torrentPath : String} {torrent : Torrent}
  {s s' : CoolClient} {disk disk' : Disk} {handle : ℕ}

/-- The torrent that is in a file is what `ParseTorrent` returns. -/
theorem parseTorrent_encode (h : disk.find? torrentPath = some (Torrent.message.encode torrent)) :
    parseTorrent .wire disk torrentPath = .ok torrent := by
  rw [parseTorrent, h]
  simp only [Codec.parseTorrent_wire]

/-- All files of a torrent are needed. -/
theorem neededFiles_allFiles (torrent : Torrent) : JobInfo.neededFiles torrent (allFiles torrent) = torrent.file :=
  List.filter_eq_self.mpr fun _ hfile => decide_eq_true (List.mem_map_of_mem hfile)

theorem resumeJobWithoutLock_of_find? {info : JobInfo} (h : s.jobs.find? handle = some info) :
    s.resumeJobWithoutLock handle = (.errorOk, { s with jobs := s.jobs.insert handle info.resumed }) := by
  simp only [resumeJobWithoutLock, withJob, h]
  rfl

/-- The job that `AddNewJob` has added is resumed, and nothing else is changed. -/
theorem resumeJobWithoutLock_addNewJob (info : JobInfo) :
    (s.addNewJob info torrentPath).resumeJobWithoutLock s.jobIndex = (.errorOk, s.addNewJob info.resumed torrentPath) := by
  rw [resumeJobWithoutLock_of_find? (SortedMap.find?_insert_self ..), addNewJob, addNewJob, SortedMap.insert_insert]

/-- Nothing is done for a torrent that the client has. -/
theorem mainDownload_of_hasThisTorrent (hparse : parseTorrent c disk torrentPath = .ok torrent)
    (hhas : s.hasThisTorrent torrent.torrentId) :
    mainDownload c env pool torrentPath s disk = (.ok (.waits none), s, disk) := by
  rw [mainDownload, hparse]
  simp only [hhas, if_true]

/-- For another, a job for all its files is added and resumed. -/
theorem mainDownload_of_not_hasThisTorrent (hparse : parseTorrent c disk torrentPath = .ok torrent)
    (hhas : ¬ s.hasThisTorrent torrent.torrentId) :
    let made := JobInfo.new torrent "/tmp/" (allFiles torrent) env.uploadTotal env.downloadTotal env.fault disk
    mainDownload c env pool torrentPath s disk = (pool.map fun _ => .waits (some s.jobIndex),
      (s.registerTorrent torrent.torrentId).addNewJob made.1.resumed torrentPath, made.2) := by
  intro made
  have hindex : (s.registerTorrent torrent.torrentId).jobIndex = s.jobIndex := rfl
  rw [mainDownload, hparse]
  simp only [addNewDownloadJob, hhas, Bool.false_eq_true, if_false, startJob, ← hindex, resumeJobWithoutLock_addNewJob]
  cases pool <;> rfl

/-- **The job that is started.** It is a new job for all files of the torrent, resumed. -/
theorem mainDownload_started (hparse : parseTorrent c disk torrentPath = .ok torrent)
    (h : mainDownload c env pool torrentPath s disk = (.ok (.waits (some handle)), s', disk')) :
    let made := JobInfo.new torrent "/tmp/" (allFiles torrent) env.uploadTotal env.downloadTotal env.fault disk
    disk' = made.2 ∧ s'.jobs.find? handle = some made.1.resumed := by
  intro made
  by_cases hhas : s.hasThisTorrent torrent.torrentId
  · rw [mainDownload_of_hasThisTorrent hparse hhas] at h
    cases h
  · rw [mainDownload_of_not_hasThisTorrent hparse hhas] at h
    cases pool with
    | error e => cases h
    | ok =>
      cases h
      exact ⟨rfl, SortedMap.find?_insert_self ..⟩

/-- **The job that is resumed.** If `MakeTorrent` has made the torrent, it is an upload job for it, from the parent of
the path. -/
theorem mainPublish_shared {e e' : Verification.SHA1Engine}
    (hmake : makeTorrent sha1 made resourcePath node ((1 : Int32) <<< 20) 1 "127.0.0.1:9977" e =
      .ok ((.errorOk, some torrent), e'))
    (h : mainPublish sha1 made env publish resourcePath node torrentPath s disk e = (.ok (.waits (some handle)), s', disk')) :
    let r := JobInfo.new torrent resourcePath.parent (allFiles torrent) env.uploadTotal env.downloadTotal env.fault
      (disk.insert torrentPath (Torrent.message.encode torrent))
    disk' = r.2 ∧ ∃ d, setAll publish torrent.file [] r.1.downloadInfo = .ok d ∧
      s'.jobs.find? handle = some { r.1 with downloadInfo := d }.resumed := by
  intro r
  rw [mainPublish, hmake] at h
  simp only [parseTorrent_encode (SortedMap.find?_insert_self _ _ _), addNewUploadJob] at h
  cases hhas : s.hasThisTorrent torrent.torrentId with
  | true => simp [hhas] at h
  | false =>
    have hindex : (s.registerTorrent torrent.torrentId).jobIndex = s.jobIndex := rfl
    simp only [hhas, Bool.false_eq_true, if_false] at h
    cases hset : setAll publish torrent.file [] r.1.downloadInfo with
    | error e => simp [r, hset] at h
    | ok d =>
      simp only [r, hset, ← hindex, resumeJobWithoutLock_addNewJob] at h
      cases h
      exact ⟨rfl, d, rfl, SortedMap.find?_insert_self ..⟩

end CoolClient

end CoolDown
