import CoolDown.Client.DownloadTask
import CoolDown.Client.UploadTask
import CoolDown.Library.Run

/-!
# A chunk on its way: `UploadTask` and `DownloadTask` together

One client sends a chunk while another one receives it. How the bytes are cut into calls of
`sendBytes` is up to one socket, and how into calls of `receiveBytes` to the other one and
to the receiver's quota; the two have nothing to do with each other, and pauses and
waits come in between. What arrives is the chunk all the same.

## The model

Both tasks take their steps in any order, over a stream that keeps the order of its bytes
and loses none. The uploader starts at the beginning of its `runTask`, the downloader at
its receive loop. Each client has its own `DownloadInfo`, which others may change between
any two steps: they set flags and limits, the collector resets the counters, other tasks
add to them. What they do to a counter is summed up, modulo 2^64 as the counter itself.

## What is proved

* `runTask_receives`: a step of the receive loop appends what it receives, and counts it.
* `transfer_exact`: when both are through, the buffer is the chunk, the stream is empty, and
  each counter has grown by the size of the chunk.
-/

namespace CoolDown

open Library

namespace DownloadTask

/-- The bytes that `receiveBytes` returns. -/
def Event.received : Event → Bytes
  | bytes bs => bs
  | ok | fail => []

/-- What a task has received, and counted, at each place from the receive loop on. -/
def Receives (buf : Bytes) (counted : ℕ) : Phase → Prop
  | .loop b | .readRemoved b | .readPaused b | .waitPause b | .speed b | .waitSpeed b | .quota b | .receive b _
  | .verify b => b = buf ∧ counted = buf.length
  | .count b n => b = buf ∧ counted + n = buf.length
  | .write _ | .threw | .ended | .finished | .died => True
  | .request | .reply => False

variable {sha1 : Bytes → String} {t : DownloadTask} {d d' : DownloadInfo} {disk disk' : Disk} {ph ph' : Phase} {ev : Event}

/-- **A step appends what it receives**, if anything, and changes nothing of the job but the
count of what it counts. -/
theorem runTask_receives {buf : Bytes} {counted : ℕ} (hrec : Receives buf counted ph)
    (h : runTask sha1 t d disk ph ev = some (ph', d', disk')) :
    ∃ n, d' = { d with bytesDownloadThisSecond := d.bytesDownloadThisSecond + UInt64.ofNat n } ∧
      Receives (buf ++ ev.received) (counted + n) ph' := by
  have hnil : buf ++ Event.ok.received = buf := List.append_nil buf
  -- a step that neither receives nor counts
  have hidle : ∀ {q : Phase}, Receives buf counted q →
      ∃ n, d = { d with bytesDownloadThisSecond := d.bytesDownloadThisSecond + UInt64.ofNat n } ∧
        Receives (buf ++ Event.ok.received) (counted + n) q := by
    intro q hq
    exact ⟨0, by simp, hnil.symm ▸ hq⟩
  cases runTask_step h with
  | request | reply => exact hrec.elim
  | whole | more | notRemoved | paused | notPaused | pauseOver | fast | notFast | speedOver | noQuota | ask =>
    exact hidle hrec
  | verified => exact hidle trivial
  | write => exact hidle trivial
  | throw => exact ⟨0, by simp, trivial⟩
  | receive =>
    obtain ⟨rfl, hcounted⟩ := hrec
    refine ⟨0, by simp, rfl, ?_⟩
    rw [Event.received, List.length_append, hcounted, Nat.add_zero]
  | @count b n =>
    obtain ⟨rfl, hcounted⟩ := hrec
    exact ⟨n, rfl, (hnil.symm : b = _), by rw [hnil, hcounted]⟩

end DownloadTask

/-- A transfer: where the two tasks are, the bytes on the way, and what each client's job
knows; `upOthers` and `downOthers` are what others have added to the counters. -/
structure Transfer where
  up : UploadTask.Phase
  upInfo : DownloadInfo
  upOthers : UInt64
  stream : Bytes
  down : DownloadTask.Phase
  downInfo : DownloadInfo
  downOthers : UInt64
  disk : Disk
  deriving DecidableEq

namespace Transfer

/-- What may happen next. -/
inductive Action where
  /-- A step of the uploader. -/
  | up (ev : UploadTask.Event)
  /-- A step of the downloader. -/
  | down (ev : DownloadTask.Event)
  /-- Others change what the uploader's job knows. -/
  | upOthers (d : DownloadInfo)
  /-- Others change what the downloader's job knows. -/
  | downOthers (d : DownloadInfo)

/-- The beginning, with what the two jobs know. -/
def start (upInfo downInfo : DownloadInfo) (disk : Disk) : Transfer :=
  ⟨.map, upInfo, 0, [], .loop [], downInfo, 0, disk⟩

variable (sha1 : Bytes → String) (u : UploadTask) (files : Disk) (t : DownloadTask)

/-- One step; `files` is the uploader's disk. The downloader receives what is first on the way. -/
def step (s : Transfer) : Action → Option Transfer
  | .up ev =>
    (u.runTask files s.upInfo s.up ev).map fun (ph, d, out) =>
      { s with up := ph, upInfo := d, stream := s.stream ++ out }
  | .down ev =>
    if ev.received <+: s.stream then
      (t.runTask sha1 s.downInfo s.disk s.down ev).map fun (ph, d, disk) =>
        { s with down := ph, downInfo := d, disk := disk, stream := s.stream.drop ev.received.length }
    else none
  | .upOthers d =>
    some { s with upInfo := d, upOthers := s.upOthers + (d.bytesUploadThisSecond - s.upInfo.bytesUploadThisSecond) }
  | .downOthers d =>
    some
      { s with downInfo := d, downOthers := s.downOthers + (d.bytesDownloadThisSecond - s.downInfo.bytesDownloadThisSecond) }

/-- What holds all the way: the bytes received, and then those on the way, are what has been
sent of the chunk; and each task has counted its bytes. -/
def Inv (chunk : Bytes) (upInfo downInfo : DownloadInfo) (s : Transfer) : Prop :=
  ∃ sent upCounted buf downCounted, UploadTask.Sends chunk sent upCounted s.up ∧
    DownloadTask.Receives buf downCounted s.down ∧ DownloadTask.Checked sha1 t s.down ∧
      buf ++ s.stream = chunk.take sent ∧
    s.upInfo.bytesUploadThisSecond = upInfo.bytesUploadThisSecond + UInt64.ofNat upCounted + s.upOthers ∧
    s.downInfo.bytesDownloadThisSecond = downInfo.bytesDownloadThisSecond + UInt64.ofNat downCounted + s.downOthers

variable {sha1 u files t}

theorem inv_start {chunk : Bytes} (upInfo downInfo : DownloadInfo) (disk : Disk) (hsize : 0 ≤ t.chunkSize) :
    Inv sha1 t chunk upInfo downInfo (start upInfo downInfo disk) := by
  refine ⟨0, 0, [], 0, ⟨rfl, rfl⟩, ⟨rfl, rfl⟩, by simpa [start, DownloadTask.Checked] using hsize, by simp [start], ?_, ?_⟩
  · simp [start]
  · simp [start]

/-- A counter that a task adds to, and others have added to. -/
theorem counted_add {c c₀ others : UInt64} {counted : ℕ} (h : c = c₀ + UInt64.ofNat counted + others) (n : ℕ) :
    c + UInt64.ofNat n = c₀ + UInt64.ofNat (counted + n) + others := by
  rw [h, UInt64.ofNat_add]
  simp only [UInt64.add_assoc, UInt64.add_comm others]

/-- Others change it. -/
theorem counted_others {c c' c₀ others : UInt64} {counted : ℕ} (h : c = c₀ + UInt64.ofNat counted + others) :
    c' = c₀ + UInt64.ofNat counted + (others + (c' - c)) := by
  rw [← UInt64.add_assoc, ← h, UInt64.add_comm, UInt64.sub_add_cancel]

/-- Every step keeps the invariant. -/
theorem inv_step {mapped : Bytes} (hfile : files.find? u.file = some mapped) (hin : u.Inside mapped)
    {upInfo downInfo : DownloadInfo} {s s' : Transfer} {a : Action} (hs : Inv sha1 t (u.chunk mapped) upInfo downInfo s)
    (h : step sha1 u files t s a = some s') : Inv sha1 t (u.chunk mapped) upInfo downInfo s' := by
  obtain ⟨sent, upCounted, buf, downCounted, hsends, hrec, hcheck, hstream, hup, hdown⟩ := hs
  cases a with
  | up ev =>
    obtain ⟨⟨ph, d, out⟩, hrun, rfl⟩ := Option.map_eq_some_iff.mp h
    obtain ⟨hout, n, rfl, hsends'⟩ := UploadTask.runTask_sends hfile hin hsends hrun
    refine ⟨_, _, buf, downCounted, hsends', hrec, hcheck, ?_, counted_add hup n, hdown⟩
    rw [hout, ← hstream, List.append_assoc]
  | down ev =>
    rw [step] at h
    split_ifs at h with hprefix
    obtain ⟨⟨ph, d, disk⟩, hrun, rfl⟩ := Option.map_eq_some_iff.mp h
    obtain ⟨n, rfl, hrec'⟩ := DownloadTask.runTask_receives hrec hrun
    refine ⟨sent, upCounted, _, _, hsends, hrec', DownloadTask.runTask_checked hcheck hrun, ?_, hup, counted_add hdown n⟩
    obtain ⟨rest, hrest⟩ := hprefix
    rw [← hstream, ← hrest]
    simp
  | upOthers d =>
    cases h
    exact ⟨sent, upCounted, buf, downCounted, hsends, hrec, hcheck, hstream, counted_others hup, hdown⟩
  | downOthers d =>
    cases h
    exact ⟨sent, upCounted, buf, downCounted, hsends, hrec, hcheck, hstream, hup, counted_others hdown⟩

/-- **A chunk arrives as it was sent.** When the uploader has returned and the downloader has
left its receive loop, the buffer is the chunk of the file, nothing is left on the way, and
each counter has grown by the size of the chunk, apart from what others have done to it. -/
theorem transfer_exact {mapped : Bytes} (hfile : files.find? u.file = some mapped) (hin : u.Inside mapped)
    (hsize : t.chunkSize = u.chunkSize) {upInfo downInfo : DownloadInfo} {disk : Disk} {actions : List Action}
    {s : Transfer} (hrun : exec (step sha1 u files t) (start upInfo downInfo disk) actions = some s) {content : Bytes}
    (hup : s.up = .ended) (hdown : s.down = .verify content) :
    content = slice mapped u.offset.toNat u.chunkSize.toNat ∧ s.stream = [] ∧
      s.upInfo.bytesUploadThisSecond = upInfo.bytesUploadThisSecond + UInt64.ofNat u.chunkSize.toNat + s.upOthers ∧
      s.downInfo.bytesDownloadThisSecond =
        downInfo.bytesDownloadThisSecond + UInt64.ofNat u.chunkSize.toNat + s.downOthers := by
  have hpos : 0 ≤ t.chunkSize := hsize ▸ hin.pos.le
  obtain ⟨sent, upCounted, buf, downCounted, hsends, hrec, hcheck, hstream, hupCount, hdownCount⟩ :=
    exec_invariant (inv_step hfile hin) hrun (inv_start upInfo downInfo disk hpos)
  rw [hup] at hsends
  rw [hdown] at hrec hcheck
  obtain ⟨rfl, rfl⟩ := hsends
  obtain ⟨rfl, rfl⟩ := hrec
  have hchunk := UploadTask.length_chunk hin
  have hcontent : (content.length : ℤ) = t.chunkSize := hcheck
  rw [List.take_length] at hstream
  -- the buffer is as long as the chunk, so nothing comes after it
  have hlength := congrArg List.length hstream
  rw [List.length_append] at hlength
  have hnil : s.stream = [] := List.length_eq_zero_iff.mp (by omega)
  rw [hnil, List.append_nil] at hstream
  have hn : (u.chunk mapped).length = u.chunkSize.toNat := by omega
  refine ⟨hstream, hnil, ?_, ?_⟩
  · rw [hupCount, hn]
  · rw [hdownCount, hstream, hn]

/-- Two bytes out of four. -/
def twoOfFour : UploadTask := ⟨"p", "a", 1, 2⟩

/-- The task that fetches them. -/
def fetchTwo : DownloadTask := .new ⟨"f", "", "b", 2, [⟨"sum", 2⟩]⟩ "p" 0 0 "b"

/-- The disk of the uploader. -/
def fourBytes : Disk := (∅ : Disk).insert "a" [6, 7, 8, 9]

/-- A job that runs. -/
def running : DownloadInfo := { DownloadInfo.new 0 0 with isStopped := false, isDownloadPaused := false }

/-- The bytes are sent and received one at a time, and in between the collector resets the
downloader's counter. -/
def oneByOne : List Action :=
  [.up .ok, .up .ok, .up .ok, .up (.sent 1), .up .ok,
    .down .ok, .down .ok, .down .ok, .down .ok, .down .ok, .down (.bytes [7]), .down .ok, .downOthers running,
    .up .ok, .up .ok, .up (.sent 1), .up .ok, .up .ok,
    .down .ok, .down .ok, .down .ok, .down .ok, .down .ok, .down (.bytes [8]), .down .ok, .down .ok]

/-- The end of it. -/
def arrived : Transfer :=
  ⟨.ended, { running with bytesUploadThisSecond := 2 }, 0, [], .verify [7, 8], { running with bytesDownloadThisSecond := 1 },
    0 - 1, ∅⟩

theorem transfer_exact_oneByOne :
    exec (step (fun _ => "") twoOfFour fourBytes fetchTwo) (start running running ∅) oneByOne = some arrived ∧
      ([7, 8] : Bytes) = slice [6, 7, 8, 9] 1 2 ∧ arrived.stream = [] ∧
      arrived.upInfo.bytesUploadThisSecond = running.bytesUploadThisSecond + UInt64.ofNat 2 + arrived.upOthers ∧
      arrived.downInfo.bytesDownloadThisSecond = running.bytesDownloadThisSecond + UInt64.ofNat 2 + arrived.downOthers := by
  have hrun : exec (step (fun _ => "") twoOfFour fourBytes fetchTwo) (start running running ∅) oneByOne = some arrived :=
    rfl
  have hfile : fourBytes.find? twoOfFour.file = some [6, 7, 8, 9] := rfl
  have hin : twoOfFour.Inside [6, 7, 8, 9] := ⟨by decide, by decide⟩
  have hsize : fetchTwo.chunkSize = twoOfFour.chunkSize := rfl
  have hup : arrived.up = .ended := rfl
  have hdown : arrived.down = .verify [7, 8] := rfl
  exact ⟨hrun, transfer_exact hfile hin hsize hrun hup hdown⟩

end Transfer

end CoolDown
