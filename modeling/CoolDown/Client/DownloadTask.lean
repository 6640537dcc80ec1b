import CoolDown.Client.JobInfo
import CoolDown.Client.LocalSockManager
import CoolDown.Client.Verification

/-!
# Fetching one chunk: `DownloadTask`

A task asks a peer for a chunk, receives its bytes under the job's pause switch and
speed limit, checks their digest, and copies them into the mapped file.

## The model

`runTask` is a small-step machine, because what it reads is shared: a `Phase` is a
place in `runTask` together with the bytes received so far, and `runTask` takes one
step from it. Each test of a shared flag is a step of its own. What the outside decides
(whether a call fails, what the peer sends) is the `Event` of the step. An exception at any place is the phase `threw`. The digest is
`Verification::get_verification_code` of the buffer, which is `sha1` of it
(`getVerificationCode_eq`). The `memcpy` is one step; past the end of the mapping it
is not possible.

After `runTask` the task manager delivers `taskFailed` if it threw, and then
`taskFinished`. Those two are the job's (`Job`).

## What is proved

* `runTask_step`: what a step of a task can be. The lemmas after it use nothing else about it.
* `runTask_frame`: a step of a task changes no bit, no flag and no other file.
* `Checked`: what a task knows of its buffer at each place, kept by every step.
-/

namespace CoolDown

open Library Verification

namespace DownloadTask

/-- A place in `runTask`, with the bytes received. -/
inductive Phase where
  /-- About to send the request. -/
  | request
  /-- Waiting for the reply. -/
  | reply
  /-- At the top of the receive loop: out of it, or about to read `is_stopped`. -/
  | loop (buf : Bytes)
  /-- About to read `is_job_removed`. -/
  | readRemoved (buf : Bytes)
  /-- About to read `is_download_paused`. -/
  | readPaused (buf : Bytes)
  /-- Waiting on `download_pause_cond`. -/
  | waitPause (buf : Bytes)
  /-- About to compare the bytes of this second with the limit. -/
  | speed (buf : Bytes)
  /-- Waiting on `download_speed_limit_cond`. -/
  | waitSpeed (buf : Bytes)
  /-- About to compute the quota. -/
  | quota (buf : Bytes)
  /-- In `receiveBytes`, for at most `expect` bytes. -/
  | receive (buf : Bytes) (expect : ℕ)
  /-- About to count `n` bytes received. -/
  | count (buf : Bytes) (n : ℕ)
  /-- About to check the digest. -/
  | verify (content : Bytes)
  /-- The digest is right; about to map the file and copy. -/
  | write (content : Bytes)
  /-- `runTask` has thrown; `taskFailed` is due. -/
  | threw
  /-- `runTask` is over, and so is `taskFailed` if it threw; `taskFinished` is due. -/
  | ended
  /-- `taskFinished` has been delivered. -/
  | finished
  /-- A notification has thrown: the task's thread is gone. -/
  | died
  deriving DecidableEq

/-- `runTask` has neither returned nor been reported as failed. -/
def Phase.pending : Phase → Bool
  | ended | finished | died => false
  | request | reply | loop _ | readRemoved _ | readPaused _ | waitPause _ | speed _ | waitSpeed _ | quota _
  | receive _ _ | count _ _ | verify _ | write _ | threw => true

/-- What the outside decides about a step. -/
inductive Event where
  /-- The call succeeds, or a wait is over. -/
  | ok
  /-- The call fails or throws. -/
  | fail
  /-- `receiveBytes` returns these bytes. -/
  | bytes (bs : Bytes)
  deriving DecidableEq

end DownloadTask

open DownloadTask in
/-- `DownloadTask`. -/
structure DownloadTask where
  fileInfo : Torrent.File
  clientid : String
  sock : Sock
  chunkPos : ℕ
  checkSum : String
  file : String
  reported : Bool
  phase : Phase
  deriving DecidableEq

namespace DownloadTask

/-- `DownloadTask::DownloadTask`, when the socket is still connected. -/
def new (info : Torrent.File) (clientid : String) (sock : Sock) (chunkPos : ℕ) (file : String) : DownloadTask where
  fileInfo := info
  clientid := clientid
  sock := sock
  chunkPos := chunkPos
  checkSum := info.chunkChecksum chunkPos
  file := file
  reported := false
  phase := .request

/-- `fileid`. -/
def fileid (t : DownloadTask) : String := t.fileInfo.checkSum

/-- The chunk the task fetches. -/
def item (t : DownloadTask) : String × ℕ := (t.fileid, t.chunkPos)

/-- `chunk_size`. -/
def chunkSize (t : DownloadTask) : ℤ := t.fileInfo.chunkSize t.chunkPos

/-- `chunk_offset`, as an offset into the mapped file. -/
def offset (t : DownloadTask) : ℕ := (t.fileInfo.chunkOffset t.chunkPos).toNat

/-- `download_quota`: the difference of two `uint64_t`, as an `int`. -/
def downloadQuota (d : DownloadInfo) : Int32 := (d.downloadSpeedLimit - d.bytesDownloadThisSecond).toUInt32.toInt32

theorem toInt_downloadQuota_pos {d : DownloadInfo} (h : ¬downloadQuota d ≤ 0) : 0 < (downloadQuota d).toInt := by
  rw [Int32.le_iff_toInt_le, not_le] at h
  exact h

variable (sha1 : Bytes → String)

/-- One step of `runTask`. -/
def runTask (t : DownloadTask) (d : DownloadInfo) (disk : Disk) : Phase → Event → Option (Phase × DownloadInfo × Disk)
  | .request, .ok => some (.reply, d, disk)
  | .request, .fail => some (.threw, d, disk)
  -- a negative chunk size is the `-1` of the assertion, or a buffer that cannot be allocated
  | .reply, .ok => some (if t.chunkSize < 0 then .threw else .loop [], d, disk)
  | .reply, .fail => some (.threw, d, disk)
  | .loop buf, .ok =>
    some (if t.chunkSize ≤ buf.length then .verify buf else if d.isStopped then .threw else .readRemoved buf, d, disk)
  | .readRemoved buf, .ok => some (if d.isJobRemoved then .threw else .readPaused buf, d, disk)
  | .readPaused buf, .ok => some (if d.isDownloadPaused then .waitPause buf else .speed buf, d, disk)
  | .waitPause buf, .ok => some (.loop buf, d, disk)
  | .speed buf, .ok =>
    some (if d.downloadSpeedLimit < d.bytesDownloadThisSecond then .waitSpeed buf else .quota buf, d, disk)
  | .waitSpeed buf, .ok => some (.loop buf, d, disk)
  | .quota buf, .ok =>
    some (if downloadQuota d ≤ 0 then .loop buf
      else .receive buf (min (t.chunkSize - buf.length) (downloadQuota d).toInt).toNat, d, disk)
  | .receive buf expect, .bytes bs =>
    if expect < bs.length then none
    else some (if bs = [] then .threw else .count (buf ++ bs) bs.length, d, disk)
  | .receive _ _, .fail => some (.threw, d, disk)
  | .count buf n, .ok =>
    some (.loop buf, { d with bytesDownloadThisSecond := d.bytesDownloadThisSecond + UInt64.ofNat n }, disk)
  | .verify content, .ok => some (if sha1 content = t.checkSum then .write content else .threw, d, disk)
  | .write content, .ok =>
    match disk.find? t.file with
    | none | some [] => some (.threw, d, disk)
    | some mapped =>
      if t.offset + content.length ≤ mapped.length then
        some (.ended, d, disk.insert t.file (overwrite mapped t.offset content))
      else none
  | .write _, .fail => some (.threw, d, disk)
  | _, _ => none

variable {sha1} {t : DownloadTask} {d d' : DownloadInfo} {disk disk' : Disk} {ph ph' : Phase} {ev : Event}

/-- What `runTask` has written when it returns: `content` over the chunk's range of the mapped file. -/
structure Wrote (t : DownloadTask) (disk : Disk) (content : Bytes) (disk' : Disk) : Prop where
  exists_mapped : ∃ mapped, disk.find? t.file = some mapped ∧ t.offset + content.length ≤ mapped.length ∧
    disk' = disk.insert t.file (overwrite mapped t.offset content)

variable (sha1 t d disk) in
/-- The steps of `runTask`, with what has been found on the way. -/
inductive TaskStep : Phase → Event → Phase → DownloadInfo → Disk → Prop where
  /-- The request is sent. -/
  | request : TaskStep .request .ok .reply d disk
  /-- The reply is there. -/
  | reply (hsize : 0 ≤ t.chunkSize) : TaskStep .reply .ok (.loop []) d disk
  /-- All bytes are there. -/
  | whole {buf : Bytes} (hsize : t.chunkSize ≤ buf.length) : TaskStep (.loop buf) .ok (.verify buf) d disk
  /-- Some are missing. -/
  | more {buf : Bytes} (hsize : buf.length < t.chunkSize) : TaskStep (.loop buf) .ok (.readRemoved buf) d disk
  | notRemoved {buf : Bytes} : TaskStep (.readRemoved buf) .ok (.readPaused buf) d disk
  | paused {buf : Bytes} : TaskStep (.readPaused buf) .ok (.waitPause buf) d disk
  | notPaused {buf : Bytes} : TaskStep (.readPaused buf) .ok (.speed buf) d disk
  | pauseOver {buf : Bytes} : TaskStep (.waitPause buf) .ok (.loop buf) d disk
  | fast {buf : Bytes} : TaskStep (.speed buf) .ok (.waitSpeed buf) d disk
  | notFast {buf : Bytes} : TaskStep (.speed buf) .ok (.quota buf) d disk
  | speedOver {buf : Bytes} : TaskStep (.waitSpeed buf) .ok (.loop buf) d disk
  | noQuota {buf : Bytes} : TaskStep (.quota buf) .ok (.loop buf) d disk
  /-- No more is asked for than is missing. -/
  | ask {buf : Bytes} (hquota : ¬downloadQuota d ≤ 0) :
      TaskStep (.quota buf) .ok (.receive buf (min (t.chunkSize - buf.length) (downloadQuota d).toInt).toNat) d disk
  | receive {buf bs : Bytes} {expect : ℕ} (hlen : bs.length ≤ expect) :
      TaskStep (.receive buf expect) (.bytes bs) (.count (buf ++ bs) bs.length) d disk
  | count {buf : Bytes} {n : ℕ} :
      TaskStep (.count buf n) .ok (.loop buf)
        { d with bytesDownloadThisSecond := d.bytesDownloadThisSecond + UInt64.ofNat n } disk
  /-- The digest is right. -/
  | verified {content : Bytes} (hsum : sha1 content = t.checkSum) :
      TaskStep (.verify content) .ok (.write content) d disk
  | write {content : Bytes} {disk' : Disk} (hwrote : Wrote t disk content disk') :
      TaskStep (.write content) .ok .ended d disk'
  /-- `runTask` throws; nothing has been received, unless it is an empty message. -/
  | throw {ph : Phase} {ev : Event} (hpending : ph.pending) : TaskStep ph ev .threw d disk

/-- There are no others. -/
theorem runTask_step (h : runTask sha1 t d disk ph ev = some (ph', d', disk')) :
    TaskStep sha1 t d disk ph ev ph' d' disk' := by
  have hthrow : some (.threw, d, disk) = some (ph', d', disk') → ph.pending →
      TaskStep sha1 t d disk ph ev ph' d' disk' := by
    rintro ⟨⟩ hpending
    exact .throw hpending
  cases ph with
  | request =>
    cases ev with
    | ok => cases h; exact .request
    | fail => exact hthrow h rfl
    | bytes => cases h
  | reply =>
    cases ev with
    | ok =>
      rw [runTask] at h
      split_ifs at h with hneg
      · exact hthrow h rfl
      · cases h
        exact .reply (not_lt.mp hneg)
    | fail => exact hthrow h rfl
    | bytes => cases h
  | loop buf =>
    cases ev with
    | ok =>
      rw [runTask] at h
      split_ifs at h with hsize
      · cases h
        exact .whole hsize
      · exact hthrow h rfl
      · cases h
        exact .more (not_le.mp hsize)
    | fail | bytes => cases h
  | readRemoved buf =>
    cases ev with
    | ok =>
      rw [runTask] at h
      split_ifs at h
      · exact hthrow h rfl
      · cases h
        exact .notRemoved
    | fail | bytes => cases h
  | readPaused buf =>
    cases ev with
    | ok =>
      rw [runTask] at h
      split_ifs at h
      · cases h
        exact .paused
      · cases h
        exact .notPaused
    | fail | bytes => cases h
  | waitPause buf =>
    cases ev with
    | ok => cases h; exact .pauseOver
    | fail | bytes => cases h
  | speed buf =>
    cases ev with
    | ok =>
      rw [runTask] at h
      split_ifs at h
      · cases h
        exact .fast
      · cases h
        exact .notFast
    | fail | bytes => cases h
  | waitSpeed buf =>
    cases ev with
    | ok => cases h; exact .speedOver
    | fail | bytes => cases h
  | quota buf =>
    cases ev with
    | ok =>
      rw [runTask] at h
      split_ifs at h with hquota
      · cases h
        exact .noQuota
      · cases h
        exact .ask hquota
    | fail | bytes => cases h
  | receive buf expect =>
    cases ev with
    | ok => cases h
    | fail => exact hthrow h rfl
    | bytes bs =>
      rw [runTask] at h
      split_ifs at h with hlen hbs
      · exact hthrow h rfl
      · cases h
        exact .receive (not_lt.mp hlen)
  | count buf n =>
    cases ev with
    | ok => cases h; exact .count
    | fail | bytes => cases h
  | verify content =>
    cases ev with
    | ok =>
      rw [runTask] at h
      split_ifs at h with hsum
      · cases h
        exact .verified hsum
      · exact hthrow h rfl
    | fail | bytes => cases h
  | write content =>
    cases ev with
    | ok =>
      rw [runTask] at h
      split at h
      · exact hthrow h rfl
      · exact hthrow h rfl
      · rename_i mapped hne hmapped
        split_ifs at h with hle
        cases h
        exact .write ⟨mapped, hmapped, hle, rfl⟩
    | fail => exact hthrow h rfl
    | bytes => cases h
  | threw | ended | finished | died => cases ev <;> cases h

/-- **The frame of a task's step.** It counts bytes at most, and leaves the disk alone
unless it is the copy at the end. -/
theorem runTask_frame (h : runTask sha1 t d disk ph ev = some (ph', d', disk')) :
    ph.pending ∧ (∃ n, d' = { d with bytesDownloadThisSecond := n }) ∧
      (ph'.pending ∧ disk' = disk ∨ ∃ content, ph = .write content ∧ ph' = .ended ∧ Wrote t disk content disk') := by
  cases runTask_step h with
  | count => exact ⟨rfl, ⟨_, rfl⟩, .inl ⟨rfl, rfl⟩⟩
  | write hwrote => exact ⟨rfl, ⟨_, rfl⟩, .inr ⟨_, rfl, rfl, hwrote⟩⟩
  | throw hpending => exact ⟨hpending, ⟨_, rfl⟩, .inl ⟨rfl, rfl⟩⟩
  | _ => exact ⟨rfl, ⟨_, rfl⟩, .inl ⟨rfl, rfl⟩⟩

variable (sha1 t) in
/-- What a task knows of its buffer at each place: it never holds more than the chunk,
holds all of it after the loop, and has the recorded digest when it is copied. -/
def Checked : Phase → Prop
  | .loop buf | .readRemoved buf | .readPaused buf | .waitPause buf | .speed buf | .waitSpeed buf | .quota buf
  | .count buf _ => buf.length ≤ t.chunkSize
  | .receive buf expect => buf.length + expect ≤ t.chunkSize
  | .verify content => content.length = t.chunkSize
  | .write content => content.length = t.chunkSize ∧ sha1 content = t.checkSum
  | .request | .reply | .threw | .ended | .finished | .died => True

/-- Every step of a task keeps what it knows of its buffer. -/
theorem runTask_checked (hc : Checked sha1 t ph) (h : runTask sha1 t d disk ph ev = some (ph', d', disk')) :
    Checked sha1 t ph' := by
  cases runTask_step h with
  | request | write | throw => trivial
  | reply hsize => exact hsize
  | whole hsize => exact le_antisymm hc hsize
  | @ask buf hquota =>
    -- the bytes asked for are at most those left
    have hle : (buf.length : ℤ) ≤ t.chunkSize := hc
    show (buf.length : ℤ) + ((min (t.chunkSize - buf.length) (downloadQuota d).toInt).toNat : ℤ) ≤ t.chunkSize
    omega
  | @receive buf bs expect hlen =>
    have hle : (buf.length : ℤ) + expect ≤ t.chunkSize := hc
    show ((buf ++ bs).length : ℤ) ≤ t.chunkSize
    rw [List.length_append]
    omega
  | verified hsum => exact ⟨hc, hsum⟩
  | more | notRemoved | paused | notPaused | pauseOver | fast | notFast | speedOver | noQuota | count => exact hc

end DownloadTask

end CoolDown
