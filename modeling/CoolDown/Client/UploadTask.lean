import CoolDown.Client.JobInfo
import CoolDown.Library.Slice

/-!
# Sending one chunk: `UploadTask`

A task takes a copy of the chunk out of the mapped file and sends it, in as many calls
of `sendBytes` as it takes. It counts what it has sent, and looks at the job's flags
before each call. The pause switch and the limit for uploads are never read.

## The model

As `DownloadTask`, `runTask` is a small-step machine: a `Phase` is a place in it with
its local variables, and a step also gives the bytes that go to the socket. Reading past
the end of the mapping is not possible. An exception at any place is the phase `threw`.
The digest at the end is only written to the log, and is left out.

## What is proved

* `runTask_sends`: a step sends the next bytes of the chunk, counts them later, and changes
  nothing else of the job.
-/

namespace CoolDown

open Library

/-- `UploadTask`: the file it sends a chunk of, and to whom. -/
structure UploadTask where
  peerAddress : String
  file : String
  offset : UInt64
  chunkSize : ℤ
  deriving DecidableEq

namespace UploadTask

/-- A place in `runTask`. -/
inductive Phase where
  /-- About to map the file. -/
  | map
  /-- At the top of the loop: out of it, or about to read `is_stopped`. -/
  | loop (content : Bytes) (nSend : ℕ)
  /-- About to read `is_job_removed`. -/
  | readRemoved (content : Bytes) (nSend : ℕ)
  /-- In `sendBytes`. -/
  | send (content : Bytes) (nSend : ℕ)
  /-- About to count what has been sent. -/
  | count (content : Bytes) (nSend sendThisTime : ℕ)
  /-- `runTask` has returned. -/
  | ended
  /-- `runTask` has thrown. -/
  | threw
  deriving DecidableEq

/-- What the outside decides about a step. -/
inductive Event where
  /-- The call succeeds. -/
  | ok
  /-- The call fails or throws. -/
  | fail
  /-- `sendBytes` takes so many bytes. -/
  | sent (n : ℕ)
  deriving DecidableEq

/-- One step of `runTask`, and the bytes that go to the socket. -/
def runTask (u : UploadTask) (disk : Disk) (d : DownloadInfo) : Phase → Event → Option (Phase × DownloadInfo × Bytes)
  | .map, .ok =>
    match disk.find? u.file with
    | none | some [] => some (.threw, d, [])
    | some mapped =>
      -- a negative size is a huge one for the string
      if u.chunkSize < 0 then some (.threw, d, [])
      else if u.offset.toNat + u.chunkSize.toNat ≤ mapped.length then
        some (.loop (slice mapped u.offset.toNat u.chunkSize.toNat) 0, d, [])
      else none
  | .map, .fail => some (.threw, d, [])
  | .loop content nSend, .ok =>
    if u.chunkSize ≤ nSend then some (if (nSend : ℤ) ≠ u.chunkSize then .threw else .ended, d, [])
    else some (if d.isStopped then .threw else .readRemoved content nSend, d, [])
  | .readRemoved content nSend, .ok => some (if d.isJobRemoved then .threw else .send content nSend, d, [])
  | .send content nSend, .sent n =>
    if (content.drop nSend).length < n then none
    else some (if n = 0 then .threw else .count content nSend n, d, (content.drop nSend).take n)
  | .send _ _, .fail => some (.threw, d, [])
  | .count content nSend sendThisTime, .ok =>
    some (.loop content (nSend + sendThisTime),
      { d with bytesUploadThisSecond := d.bytesUploadThisSecond + UInt64.ofNat sendThisTime }, [])
  | _, _ => none

variable {u : UploadTask} {disk : Disk} {d d' : DownloadInfo} {ph ph' : Phase} {ev : Event} {out : Bytes}

/-- What a task has sent of the chunk, and counted, at each place. -/
def Sends (chunk : Bytes) (sent counted : ℕ) : Phase → Prop
  | .map => sent = 0 ∧ counted = 0
  | .loop content nSend | .readRemoved content nSend | .send content nSend =>
    content = chunk ∧ nSend ≤ chunk.length ∧ sent = nSend ∧ counted = nSend
  | .count content nSend sendThisTime =>
    content = chunk ∧ nSend + sendThisTime ≤ chunk.length ∧ sent = nSend + sendThisTime ∧ counted = nSend
  | .ended => sent = chunk.length ∧ counted = chunk.length
  | .threw => True

/-- The part of the mapped file that the task sends. -/
def chunk (u : UploadTask) (mapped : Bytes) : Bytes := slice mapped u.offset.toNat u.chunkSize.toNat

/-- The chunk lies inside the file. -/
structure Inside (u : UploadTask) (mapped : Bytes) : Prop where
  pos : 0 < u.chunkSize
  le_length : u.offset.toNat + u.chunkSize.toNat ≤ mapped.length

theorem length_chunk {mapped : Bytes} (h : u.Inside mapped) : ((u.chunk mapped).length : ℤ) = u.chunkSize := by
  have hpos := h.pos
  have hle := h.le_length
  rw [chunk, slice, List.length_take, List.length_drop]
  omega

/-- **A step sends the next bytes of the chunk**, if any, and changes nothing of the job but the
count of those it counts. -/
theorem runTask_sends {mapped : Bytes} {sent counted : ℕ} (hfile : disk.find? u.file = some mapped)
    (hin : u.Inside mapped)
    (hsends : Sends (u.chunk mapped) sent counted ph) (h : runTask u disk d ph ev = some (ph', d', out)) :
    (u.chunk mapped).take (sent + out.length) = (u.chunk mapped).take sent ++ out ∧
      ∃ n, d' = { d with bytesUploadThisSecond := d.bytesUploadThisSecond + UInt64.ofNat n } ∧
        Sends (u.chunk mapped) (sent + out.length) (counted + n) ph' := by
  -- a step that neither sends nor counts
  have hsame : ∀ {q : Phase}, some (q, d, ([] : Bytes)) = some (ph', d', out) → Sends (u.chunk mapped) sent counted q →
      (u.chunk mapped).take (sent + out.length) = (u.chunk mapped).take sent ++ out ∧
        ∃ n, d' = { d with bytesUploadThisSecond := d.bytesUploadThisSecond + UInt64.ofNat n } ∧
          Sends (u.chunk mapped) (sent + out.length) (counted + n) ph' := by
    intro q hq hqsends
    cases hq
    refine ⟨by simp, 0, ?_, hqsends⟩
    simp
  have hlen := length_chunk hin
  cases ph with
  | map =>
    obtain ⟨rfl, rfl⟩ := hsends
    cases ev with
    | ok =>
      have hpos := hin.pos
      rw [runTask, hfile] at h
      cases mapped with
      | nil =>
        have hle := hin.le_length
        simp at hle
        omega
      | cons b bs =>
        simp only at h
        rw [if_neg (by omega), if_pos hin.le_length] at h
        exact hsame h ⟨rfl, Nat.zero_le _, rfl, rfl⟩
    | fail => exact hsame h trivial
    | sent n => cases h
  | loop content nSend =>
    obtain ⟨rfl, hle, rfl, rfl⟩ := hsends
    cases ev with
    | ok =>
      rw [runTask] at h
      split_ifs at h with hsize hne hstopped
      · exact hsame h trivial
      · exact hsame h ⟨by omega, by omega⟩
      · exact hsame h trivial
      · exact hsame h ⟨rfl, hle, rfl, rfl⟩
    | fail => cases h
    | sent n => cases h
  | readRemoved content nSend =>
    cases ev with
    | ok =>
      rw [runTask] at h
      split_ifs at h with hremoved
      · exact hsame h trivial
      · exact hsame h hsends
    | fail => cases h
    | sent n => cases h
  | send content nSend =>
    obtain ⟨rfl, hle, rfl, rfl⟩ := hsends
    cases ev with
    | ok => cases h
    | fail => exact hsame h trivial
    | sent n =>
      rw [runTask] at h
      split_ifs at h with hlt hzero
      · subst hzero
        exact hsame h trivial
      · cases h
        have hn : n ≤ ((u.chunk mapped).drop counted).length := not_lt.mp hlt
        have hout : (((u.chunk mapped).drop counted).take n).length = n := List.length_take_of_le hn
        rw [List.length_drop] at hn
        rw [hout]
        refine ⟨List.take_add, 0, ?_, rfl, by omega, rfl, rfl⟩
        simp
  | count content nSend sendThisTime =>
    obtain ⟨rfl, hle, rfl, rfl⟩ := hsends
    cases ev with
    | ok =>
      cases h
      exact ⟨by simp, sendThisTime, rfl, rfl, hle, rfl, rfl⟩
    | fail => cases h
    | sent n => cases h
  | ended => cases ev <;> cases h
  | threw => cases ev <;> cases h

end UploadTask

end CoolDown
