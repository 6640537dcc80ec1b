import CoolDown.Client.ChunkTransfer

/-!
# All or nothing: what a `DownloadTask` does to its file

A task reads its chunk into a buffer of its own, and touches the file once, with the `memcpy`
at the end of `runTask`, when the digest has been found right. Until then it may throw at many
places, and begin the receive loop anew at some.

## The model

A run of one task, from the beginning of `runTask`, among others that change the job's
`downloadInfo` as they like (they set the flags and limits, and count their own bytes), write
other files, and write into this one outside of the task's chunk. `received` is what
`receiveBytes` has returned so far, and `others` the disk as the others alone would have left it.

## What is proved

* `runTask_holds`: what the buffer is at each place of `runTask`, and what it asks the socket for.
* `all_or_nothing`: when the task has returned, the disk is that of the others with the bytes
  received in the chunk's range; until then, and when it has thrown, it is that of the others.
-/

namespace CoolDown

open Library

namespace DownloadTask

variable {sha1 : Bytes → String} {t : DownloadTask} {d d' : DownloadInfo} {disk disk' : Disk} {ph ph' : Phase} {ev : Event}

variable (sha1 t) in
/-- What a task holds at each place of the bytes it has received, and asks for: inside the loop
something is left to receive. -/
def Holds (received : Bytes) : Phase → Prop
  | .request | .reply => received = []
  | .loop buf | .waitPause buf | .waitSpeed buf | .count buf _ => buf = received ∧ buf.length ≤ t.chunkSize
  | .readRemoved buf | .readPaused buf | .speed buf | .quota buf => buf = received ∧ buf.length < t.chunkSize
  | .receive buf expect => buf = received ∧ 1 ≤ expect ∧ buf.length + expect ≤ t.chunkSize
  | .verify content => content = received ∧ content.length = t.chunkSize
  | .write content => content = received ∧ content.length = t.chunkSize ∧ sha1 content = t.checkSum
  | .threw | .ended | .finished | .died => True

/-- Every step of a task keeps that. -/
theorem runTask_holds {received : Bytes} (hold : Holds sha1 t received ph)
    (h : runTask sha1 t d disk ph ev = some (ph', d', disk')) : Holds sha1 t (received ++ ev.received) ph' := by
  have hnil : received ++ Event.ok.received = received := List.append_nil received
  cases runTask_step h with
  | request => exact hnil.trans hold
  | reply hsize =>
    rw [hnil]
    exact ⟨Eq.symm hold, hsize⟩
  | whole hsize =>
    rw [hnil]
    exact ⟨hold.1, le_antisymm hold.2 hsize⟩
  | more hsize =>
    rw [hnil]
    exact ⟨hold.1, hsize⟩
  | notRemoved | notPaused | notFast | pauseOver | speedOver | count =>
    rw [hnil]
    exact hold
  | paused | fast | noQuota =>
    rw [hnil]
    exact ⟨hold.1, le_of_lt hold.2⟩
  | @ask buf hquota =>
    rw [hnil]
    obtain ⟨hbuf, hlt⟩ := hold
    -- a quota that is not used up, and not more than what is left
    have hpos := toInt_downloadQuota_pos hquota
    refine ⟨hbuf, ?_, ?_⟩
    · omega
    · show (buf.length : ℤ) + ((min (t.chunkSize - buf.length) (downloadQuota d).toInt).toNat : ℤ) ≤ t.chunkSize
      omega
  | receive hlen =>
    obtain ⟨rfl, hask, hle⟩ := hold
    refine ⟨rfl, ?_⟩
    rw [List.length_append]
    omega
  | verified hsum =>
    rw [hnil]
    exact ⟨hold.1, hold.2, hsum⟩
  | write | throw => trivial

end DownloadTask

/-- A task on its way among others: `received` is what `receiveBytes` has returned to it, and
`others` what the disk would be without it. -/
structure TaskEffect where
  phase : DownloadTask.Phase
  info : DownloadInfo
  disk : Disk
  received : Bytes
  others : Disk
  deriving DecidableEq

namespace TaskEffect

/-- What may happen next. -/
inductive Action where
  /-- A step of the task. -/
  | task (ev : DownloadTask.Event)
  /-- Others change what the job knows. -/
  | setInfo (d : DownloadInfo)
  /-- Another file is written. -/
  | writeFile (path : String) (content : Bytes)
  /-- Others write into the file of the task. -/
  | writeChunk (off : ℕ) (bs : Bytes)

/-- The beginning of `runTask`. -/
def start (d : DownloadInfo) (disk : Disk) : TaskEffect := ⟨.request, d, disk, [], disk⟩

/-- A range that does not meet the chunk of the task. -/
def Apart (t : DownloadTask) (off len : ℕ) : Prop :=
  (off : ℤ) + len ≤ t.offset ∨ (t.offset : ℤ) + t.chunkSize ≤ off

instance (t : DownloadTask) (off len : ℕ) : Decidable (Apart t off len) := inferInstanceAs (Decidable (_ ∨ _))

variable (sha1 : Bytes → String) (t : DownloadTask)

/-- One step: `none` where it is not possible. -/
def step (s : TaskEffect) : Action → Option TaskEffect
  | .task ev =>
    (t.runTask sha1 s.info s.disk s.phase ev).map fun (ph, d, disk) =>
      { s with phase := ph, info := d, disk := disk, received := s.received ++ ev.received }
  | .setInfo d => some { s with info := d }
  | .writeFile path content =>
    if path = t.file then none
    else some { s with disk := s.disk.insert path content, others := s.others.insert path content }
  | .writeChunk off bs =>
    match s.disk.find? t.file, s.others.find? t.file with
    | some mapped, some alone =>
      if off + bs.length ≤ mapped.length ∧ Apart t off bs.length then
        some
          { s with
            disk := s.disk.insert t.file (overwrite mapped off bs)
            others := s.others.insert t.file (overwrite alone off bs) }
      else none
    | _, _ => none

/-- The disk is that of the others, with the bytes received in the chunk's range. -/
def Copied (s : TaskEffect) : Prop :=
  ∃ alone, s.others.find? t.file = some alone ∧ t.offset + s.received.length ≤ alone.length ∧
    s.disk = s.others.insert t.file (overwrite alone t.offset s.received)

/-- What the task has received, and done to the disk: nothing, until it has returned. -/
structure Inv (s : TaskEffect) : Prop where
  holds : DownloadTask.Holds sha1 t s.received s.phase
  before : s.phase ≠ .ended → s.disk = s.others
  after : s.phase = .ended → (s.received.length : ℤ) = t.chunkSize ∧ sha1 s.received = t.checkSum ∧ Copied t s

variable {sha1 t}

theorem inv_start (d : DownloadInfo) (disk : Disk) : Inv sha1 t (start d disk) :=
  ⟨rfl, fun _ => rfl, by rintro ⟨⟩⟩

/-- A step of the task. -/
theorem Inv.task {s : TaskEffect} (hs : Inv sha1 t s) {ev : DownloadTask.Event} {ph : DownloadTask.Phase}
    {d : DownloadInfo} {disk : Disk} (h : t.runTask sha1 s.info s.disk s.phase ev = some (ph, d, disk)) :
    Inv sha1 t { s with phase := ph, info := d, disk := disk, received := s.received ++ ev.received } := by
  obtain ⟨hpending, -, hdisk⟩ := DownloadTask.runTask_frame h
  have hnot : s.phase ≠ .ended := by
    intro he
    rw [he] at hpending
    cases hpending
  have hbefore := hs.before hnot
  refine ⟨DownloadTask.runTask_holds hs.holds h, fun hne => ?_, fun he => ?_⟩
  · rcases hdisk with ⟨-, rfl⟩ | ⟨_, -, he, -⟩
    · exact hbefore
    · exact absurd he hne
  · -- the copy: what it writes is all that has been received
    obtain ⟨hq, -⟩ | ⟨content, hwrite, -, ⟨mapped, hmapped, hle, rfl⟩⟩ := hdisk
    · rw [show ph = .ended from he] at hq
      cases hq
    · have hholds := hs.holds
      rw [hwrite] at hholds
      obtain ⟨rfl, hlen, hsum⟩ := hholds
      have hnone : ev.received = [] := by
        cases ev with
        | bytes bs =>
          rw [hwrite] at h
          cases h
        | ok | fail => rfl
      simp only [hnone, List.append_nil]
      exact ⟨hlen, hsum, mapped, hbefore ▸ hmapped, hle, by rw [hbefore]⟩

/-- Others write another file. -/
theorem Inv.writeFile {s : TaskEffect} (hs : Inv sha1 t s) {path : String} (content : Bytes) (hne : path ≠ t.file) :
    Inv sha1 t { s with disk := s.disk.insert path content, others := s.others.insert path content } := by
  refine ⟨hs.holds, fun hbefore => congrArg (fun m : Disk => m.insert path content) (hs.before hbefore), fun he => ?_⟩
  obtain ⟨hlen, hsum, alone, halone, hle, hdisk⟩ := hs.after he
  refine ⟨hlen, hsum, alone, ?_, hle, ?_⟩
  · rw [SortedMap.find?_insert_of_ne _ hne]
    exact halone
  · simp only [hdisk]
    exact SortedMap.insert_comm hne.symm _ _

/-- Others write into the file, outside of the chunk. -/
theorem Inv.writeChunk {s : TaskEffect} (hs : Inv sha1 t s) {mapped alone bs : Bytes} {off : ℕ}
    (hmapped : s.disk.find? t.file = some mapped) (halone : s.others.find? t.file = some alone)
    (hle : off + bs.length ≤ mapped.length) (hapart : Apart t off bs.length) :
    Inv sha1 t
      { s with
        disk := s.disk.insert t.file (overwrite mapped off bs)
        others := s.others.insert t.file (overwrite alone off bs) } := by
  refine ⟨hs.holds, fun hbefore => ?_, fun he => ?_⟩
  · have hsame := hs.before hbefore
    obtain rfl : mapped = alone := Option.some.inj (hmapped.symm.trans (hsame ▸ halone))
    exact congrArg (fun m : Disk => m.insert t.file (overwrite mapped off bs)) hsame
  · obtain ⟨hlen, hsum, alone', halone', hin, hdisk⟩ := hs.after he
    obtain rfl : alone = alone' := Option.some.inj (halone.symm.trans halone')
    obtain rfl : mapped = overwrite alone t.offset s.received := by
      rw [hdisk, SortedMap.find?_insert_self] at hmapped
      exact (Option.some.inj hmapped).symm
    rw [length_overwrite hin] at hle
    refine ⟨hlen, hsum, overwrite alone off bs, SortedMap.find?_insert_self _ _ _, ?_, ?_⟩
    · rw [length_overwrite hle]
      exact hin
    · simp only [hdisk, SortedMap.insert_insert]
      rw [overwrite_comm hin hle]
      unfold Apart at hapart
      omega

/-- Every step. -/
theorem inv_step {s s' : TaskEffect} {a : Action} (hs : Inv sha1 t s) (h : step sha1 t s a = some s') :
    Inv sha1 t s' := by
  cases a with
  | task ev =>
    obtain ⟨⟨ph, d, disk⟩, hrun, rfl⟩ := Option.map_eq_some_iff.mp h
    exact hs.task hrun
  | setInfo d =>
    obtain rfl := Option.some.inj h
    exact ⟨hs.holds, hs.before, hs.after⟩
  | writeFile path content =>
    rw [step] at h
    split_ifs at h with hne
    obtain rfl := Option.some.inj h
    exact hs.writeFile content hne
  | writeChunk off bs =>
    rw [step] at h
    split at h
    · rename_i mapped alone hmapped halone
      split_ifs at h with hok
      obtain rfl := Option.some.inj h
      exact hs.writeChunk hmapped halone hok.1 hok.2
    · cases h

/-- If nobody else writes, the disk of the others is the one at the beginning. -/
theorem others_eq {actions : List Action} {s s' : TaskEffect} (hrun : exec (step sha1 t) s actions = some s')
    (halone : ∀ a ∈ actions, (∃ ev, a = .task ev) ∨ ∃ d, a = .setInfo d) : s'.others = s.others := by
  induction actions generalizing s with
  | nil => exact congrArg TaskEffect.others (Option.some.inj hrun).symm
  | cons a as ih =>
    obtain ⟨u, hu, hrest⟩ := exec_cons_eq_some.mp hrun
    obtain ⟨ha, has⟩ := List.forall_mem_cons.mp halone
    rw [ih hrest has]
    obtain ⟨ev, rfl⟩ | ⟨d, rfl⟩ := ha
    · obtain ⟨_, -, rfl⟩ := Option.map_eq_some_iff.mp hu
      rfl
    · obtain rfl := Option.some.inj hu
      rfl

/-- **All or nothing.** A task asks for at least one byte and at most those left of its buffer. When
it has returned, it has received the whole chunk, with the recorded digest, and the disk is that of
the others with these bytes in the chunk's range; until then, and when it has thrown, the disk is
that of the others. If there are none, that is the disk at the beginning. -/
theorem all_or_nothing {info : Torrent.File} {clientid : String} {sock : Sock} {chunkPos : ℕ} {file : String}
    {d : DownloadInfo} {disk : Disk} {actions : List Action} {s : TaskEffect}
    (hrun : exec (step sha1 (.new info clientid sock chunkPos file)) (start d disk) actions = some s) :
    (∀ buf expect, s.phase = .receive buf expect →
      buf = s.received ∧ 1 ≤ expect ∧ (buf.length : ℤ) + expect ≤ info.chunkSize chunkPos) ∧
    (s.phase = .ended →
      (s.received.length : ℤ) = info.chunkSize chunkPos ∧ sha1 s.received = info.chunkChecksum chunkPos ∧
      ∃ alone, s.others.find? file = some alone ∧
        (info.chunkOffset chunkPos).toNat + s.received.length ≤ alone.length ∧
        s.disk = s.others.insert file (overwrite alone (info.chunkOffset chunkPos).toNat s.received)) ∧
    (s.phase ≠ .ended → s.disk = s.others) ∧
    ((∀ a ∈ actions, (∃ ev, a = .task ev) ∨ ∃ d, a = .setInfo d) → s.others = disk) := by
  have hinv := exec_invariant inv_step hrun (inv_start d disk)
  refine ⟨fun buf expect hphase => ?_, hinv.after, hinv.before, others_eq hrun⟩
  have hholds := hinv.holds
  rw [hphase] at hholds
  exact hholds

/-- The second of two chunks, of two bytes each. -/
def twoChunks : Torrent.File := ⟨"f", "", "b", 4, [⟨"x", 2⟩, ⟨"sum", 2⟩]⟩

/-- It arrives in two pieces, while another task writes the first chunk. -/
def inPieces : List Action :=
  [.task .ok, .task .ok, .task .ok, .task .ok, .task .ok, .task .ok, .task .ok, .task (.bytes [7]), .task .ok,
    .writeChunk 0 [9, 9],
    .task .ok, .task .ok, .task .ok, .task .ok, .task .ok, .task (.bytes [8]), .task .ok, .task .ok, .task .ok, .task .ok]

theorem all_or_nothing_inPieces :
    ∃ s, exec (step (fun _ => "sum") (.new twoChunks "p" 0 1 "b"))
        (start Transfer.running ((∅ : Disk).insert "b" [1, 2, 3, 4])) inPieces = some s ∧
      s.disk.find? "b" = some [9, 9, 7, 8] ∧ s.others.find? "b" = some [9, 9, 3, 4] ∧
      (s.received.length : ℤ) = twoChunks.chunkSize 1 := by
  have hrun : ∃ s, exec (step (fun _ => "sum") (.new twoChunks "p" 0 1 "b"))
        (start Transfer.running ((∅ : Disk).insert "b" [1, 2, 3, 4])) inPieces = some s ∧
      s.phase = .ended ∧ s.disk.find? "b" = some [9, 9, 7, 8] ∧ s.others.find? "b" = some [9, 9, 3, 4] :=
    ⟨_, rfl, rfl, rfl, rfl⟩
  obtain ⟨s, hrun, hphase, hdisk, hothers⟩ := hrun
  exact ⟨s, hrun, hdisk, hothers, ((all_or_nothing hrun).2.1 hphase).1⟩

end TaskEffect

end CoolDown
