import CoolDown.Client.JobInfo
import Mathlib.Data.List.Nodup

/-!
# Which chunk is next: `ChunkSelector`

The chunks still to be fetched are in a priority queue. `init_queue` fills it with the
chunks whose bit is clear, `get_chunk` takes one of the highest priority, and the
three reports put a chunk back or set its bit.

## The model

The queue is the list of its entries, in no order that matters: `std::priority_queue`
promises that `top` is an entry no other is above, so `getChunk` is told which one it
is and checks that. The mutex makes each operation one step. An exception keeps the
changes made before it.

## What is proved

* `count_initQueue`: after `init_queue` the queue holds each chunk of a needed file
  once if its bit is clear, and not at all if it is set.
* `initQueue_bitmapMap`: `init_queue` adds no bitmap and sets no bit.
-/

namespace CoolDown

open Library

/-- `enum ChunkStatus`. -/
inductive ChunkStatus where
  | free
  | downloading
  | finished
  | failed
  | noowner
  deriving DecidableEq

/-- `ChunkInfo`. -/
structure ChunkInfo where
  status : ChunkStatus := .free
  fileid : String
  priority : ℤ := 0
  chunkNum : ℕ
  clientLists : List FileOwnerInfo := []
  deriving DecidableEq

/-- The chunk an entry is about. -/
def ChunkInfo.item (c : ChunkInfo) : String × ℕ := (c.fileid, c.chunkNum)

namespace ChunkSelector

/-- `RARE_COUNT`. -/
def rareCount : ℕ := 5

/-- `HIGHEST`. -/
def highest : ℤ := 20

/-- `NORMAL`. -/
def normal : ℤ := 10

/-- `UNAVAILABLE`. -/
def unavailable : ℤ := 0

/-- The owners whose bitmap has the chunk. -/
def ownersOf (chunkNum : ℕ) : List FileOwnerInfo → Except Exception (List FileOwnerInfo)
  | [] => .ok []
  | p :: ps => do
    let has ← p.bitmap.test chunkNum
    let rest ← ownersOf chunkNum ps
    return if has then p :: rest else rest

/-- `get_priority`. -/
def getPriority (info : JobInfo) (chunk : ChunkInfo) (baseline : ℤ) : Except Exception ChunkInfo :=
  match info.ownerInfoMap.find? chunk.fileid with
  | none => .error .assertion
  | some infoList => do
    let clientLists ← ownersOf chunk.chunkNum infoList
    let priority :=
      if clientLists.length = 0 then unavailable
      else if clientLists.length < rareCount then highest - clientLists.length
      else normal
    return { chunk with clientLists := clientLists, priority := priority + baseline }

/-- The inner loop of `init_queue`, over the positions of a file's chunks. -/
def initFile (fileid : String) : List ℕ → JobInfo → List ChunkInfo → JobInfo × Except Exception (List ChunkInfo)
  | [], info, queue => (info, .ok queue)
  | chunkPos :: rest, info, queue =>
    let (bitmap, downloadInfo) := info.downloadInfo.bitmapAt fileid
    let info := { info with downloadInfo := downloadInfo }
    match bitmap with
    | none => (info, .error .nullPointer)
    | some bits =>
      match bits.test chunkPos with
      | .error e => (info, .error e)
      | .ok true => initFile fileid rest info queue
      | .ok false =>
        match getPriority info { fileid := fileid, chunkNum := chunkPos } 0 with
        | .error e => (info, .error e)
        | .ok chunk => initFile fileid rest info (queue ++ [chunk])

/-- The outer loop of `init_queue`, over the fileids. -/
def initFiles : List String → JobInfo → List ChunkInfo → JobInfo × Except Exception (List ChunkInfo)
  | [], info, queue => (info, .ok queue)
  | fileid :: rest, info, queue =>
    match info.torrentInfo.getOneFileOfSameFileid fileid with
    | .error e => (info, .error e)
    | .ok file =>
      match initFile fileid (List.range file.chunkCount) info queue with
      | (info, .error e) => (info, .error e)
      | (info, .ok queue) => initFiles rest info queue

/-- `init_queue`. -/
def initQueue (info : JobInfo) : JobInfo × Except Exception (List ChunkInfo) :=
  initFiles info.uniqueFileidList info []

/-- `get_chunk`, where entry `top` is the one taken; a null pointer if the queue is empty. -/
def getChunk (queue : List ChunkInfo) (top : ℕ) : Option (Option ChunkInfo × List ChunkInfo) :=
  if queue = [] then some (none, [])
  else
    match queue[top]? with
    | none => none
    | some chunk =>
      if queue.all fun other => decide (other.priority ≤ chunk.priority) then some (some chunk, queue.eraseIdx top)
      else none

/-- `report_success_chunk`. -/
def reportSuccessChunk (info : JobInfo) (chunkNum : ℕ) (fileid : String) : JobInfo × Except Exception Unit :=
  let (bitmap, downloadInfo) := info.downloadInfo.bitmapAt fileid
  match bitmap with
  | none => ({ info with downloadInfo := downloadInfo }, .error .nullPointer)
  | some bits =>
    match bits.setBit chunkNum with
    | .error e => (info, .error e)
    | .ok bits =>
      ({ info with downloadInfo :=
          { downloadInfo with bitmapMap := downloadInfo.bitmapMap.insert fileid (some bits) } }, .ok ())

/-- What `report_failed_chunk` and `report_no_owner_chunk` share: the chunk goes back
with a new status and priority. -/
def putBack (status : ChunkStatus) (baseline : ℤ) (info : JobInfo) (queue : List ChunkInfo) (chunkNum : ℕ)
    (fileid : String) : Except Exception (List ChunkInfo) := do
  let chunk ← getPriority info { status := status, fileid := fileid, chunkNum := chunkNum } baseline
  return queue ++ [chunk]

/-- `report_failed_chunk`. -/
def reportFailedChunk : JobInfo → List ChunkInfo → ℕ → String → Except Exception (List ChunkInfo) :=
  putBack .failed (0 - normal)

/-- `report_no_owner_chunk`. -/
def reportNoOwnerChunk : JobInfo → List ChunkInfo → ℕ → String → Except Exception (List ChunkInfo) :=
  putBack .noowner (0 - highest)

/-! ### What the operations change -/

/-- `info'` differs from `info` in its bitmaps only. -/
def OnlyBitmaps (info info' : JobInfo) : Prop :=
  ∃ m, info' = { info with downloadInfo := { info.downloadInfo with bitmapMap := m } }

/-- `info'` differs from `info` in its bitmaps only, and in no bit. -/
def BitsKept (info info' : JobInfo) : Prop :=
  OnlyBitmaps info info' ∧ ∀ fileid pos, info'.downloadInfo.bit fileid pos = info.downloadInfo.bit fileid pos

theorem BitsKept.refl (info : JobInfo) : BitsKept info info := ⟨⟨_, rfl⟩, fun _ _ => rfl⟩

theorem BitsKept.trans {info info' info'' : JobInfo} (h : BitsKept info info') (h' : BitsKept info' info'') :
    BitsKept info info'' := by
  obtain ⟨⟨m, rfl⟩, hb⟩ := h
  obtain ⟨⟨m', rfl⟩, hb'⟩ := h'
  exact ⟨⟨m', rfl⟩, fun fileid pos => (hb' fileid pos).trans (hb fileid pos)⟩

/-- Looking for a bitmap. -/
theorem bitsKept_of_bitmapAt {info : JobInfo} {fileid : String} {bitmap : Option Bitmap} {d : DownloadInfo}
    (h : info.downloadInfo.bitmapAt fileid = (bitmap, d)) : BitsKept info { info with downloadInfo := d } := by
  obtain rfl : (info.downloadInfo.bitmapAt fileid).2 = d := by rw [h]
  exact ⟨⟨_, rfl⟩, info.downloadInfo.bit_bitmapAt fileid⟩

/-- An entry stays about the same chunk when its priority is found. -/
theorem item_getPriority {info : JobInfo} {chunk chunk' : ChunkInfo} {baseline : ℤ}
    (h : getPriority info chunk baseline = .ok chunk') : chunk'.item = chunk.item := by
  unfold getPriority at h
  split at h
  · cases h
  · rename_i infoList _
    cases ho : ownersOf chunk.chunkNum infoList with
    | error e => simp [ho, bind, Except.bind] at h
    | ok owners =>
      simp only [ho, bind, Except.bind, pure, Except.pure, Except.ok.injEq] at h
      subst h
      rfl

/-- A chunk that is put back is queued once more, with the priority it has then, and nothing else changes in the queue. -/
theorem putBack_eq_ok {status : ChunkStatus} {baseline : ℤ} {info : JobInfo} {queue queue' : List ChunkInfo}
    {chunkNum : ℕ} {fileid : String} (h : putBack status baseline info queue chunkNum fileid = .ok queue') :
    ∃ chunk, getPriority info { status := status, fileid := fileid, chunkNum := chunkNum } baseline = .ok chunk ∧
      queue' = queue ++ [chunk] := by
  unfold putBack at h
  cases hp : getPriority info { status := status, fileid := fileid, chunkNum := chunkNum } baseline with
  | error e => simp [hp, bind, Except.bind] at h
  | ok chunk =>
    simp only [hp, bind, Except.bind, pure, Except.pure, Except.ok.injEq] at h
    exact ⟨chunk, rfl, h.symm⟩

/-- What `get_chunk` returns is in the queue, and no longer is. -/
theorem getChunk_eq_some {queue queue' : List ChunkInfo} {top : ℕ} {chunk : ChunkInfo}
    (h : getChunk queue top = some (some chunk, queue')) :
    queue[top]? = some chunk ∧ queue' = queue.eraseIdx top := by
  unfold getChunk at h
  split_ifs at h with hnil
  · cases h
  · split at h
    · cases h
    · rename_i c hc
      split_ifs at h with hmax
      cases h
      exact ⟨hc, rfl⟩

/-- `get_chunk` returns a null pointer only when the queue is empty. -/
theorem getChunk_eq_none {queue queue' : List ChunkInfo} {top : ℕ} (h : getChunk queue top = some (none, queue')) :
    queue = [] ∧ queue' = [] := by
  unfold getChunk at h
  split_ifs at h with hnil
  · cases h
    exact ⟨hnil, rfl⟩
  · split at h
    · cases h
    · split_ifs at h
      cases h

/-- `report_success_chunk` sets the bit of the chunk if it returns, and no other bit. -/
theorem reportSuccessChunk_spec (info : JobInfo) (chunkNum : ℕ) (fileid : String) :
    OnlyBitmaps info (reportSuccessChunk info chunkNum fileid).1 ∧
      ∀ fileid' pos, (reportSuccessChunk info chunkNum fileid).1.downloadInfo.bit fileid' pos =
        if (reportSuccessChunk info chunkNum fileid).2 = .ok () ∧ (fileid', pos) = (fileid, chunkNum) then some true
        else info.downloadInfo.bit fileid' pos := by
  unfold reportSuccessChunk
  rcases hb : info.downloadInfo.bitmapAt fileid with ⟨bitmap, d⟩
  cases bitmap with
  | none =>
    obtain ⟨honly, hbit⟩ := bitsKept_of_bitmapAt hb
    exact ⟨honly, fun fileid' pos => by simp [hbit]⟩
  | some bits =>
    obtain ⟨rfl, hbits⟩ := DownloadInfo.bitmapAt_eq_some hb
    by_cases hlt : chunkNum < bits.length
    · simp only [Bitmap.setBit, if_pos hlt, true_and]
      refine ⟨⟨_, rfl⟩, fun fileid' pos => ?_⟩
      by_cases hf : fileid = fileid'
      · subst hf
        by_cases hp : chunkNum = pos
        · subst hp
          simp [DownloadInfo.bit, hlt]
        · simp [DownloadInfo.bit, hbits, hp, Ne.symm hp]
      · simp [DownloadInfo.bit, SortedMap.find?_insert_of_ne _ hf, Ne.symm hf]
    · simp only [Bitmap.setBit, if_neg hlt]
      exact ⟨⟨_, rfl⟩, fun fileid' pos => by simp⟩

/-- Once `report_success_chunk` has returned, the bit of the chunk is set. -/
theorem bit_reportSuccessChunk {info info' : JobInfo} {chunkNum : ℕ} {fileid : String}
    (h : reportSuccessChunk info chunkNum fileid = (info', .ok ())) (fileid' : String) (pos : ℕ) :
    info'.downloadInfo.bit fileid' pos =
      if (fileid', pos) = (fileid, chunkNum) then some true else info.downloadInfo.bit fileid' pos := by
  have := (reportSuccessChunk_spec info chunkNum fileid).2 fileid' pos
  rw [h] at this
  simpa using this

/-! ### The queue after `init_queue` -/

/-- How many chunks the torrent gives a fileid. -/
def chunkCountOf (info : JobInfo) (fileid : String) : ℕ :=
  match info.torrentInfo.getOneFileOfSameFileid fileid with
  | .ok file => file.chunkCount
  | .error _ => 0

/-- The positions whose bit is clear. -/
def clearBits (info : JobInfo) (fileid : String) (positions : List ℕ) : List (String × ℕ) :=
  (positions.filter fun pos => info.downloadInfo.bit fileid pos = some false).map (fileid, ·)

/-- The inner loop changes no bit. -/
theorem initFile_bitsKept (fileid : String) (positions : List ℕ) (info : JobInfo) (queue : List ChunkInfo) :
    BitsKept info (initFile fileid positions info queue).1 := by
  induction positions generalizing info queue with
  | nil => exact .refl info
  | cons chunkPos rest ih =>
    rw [initFile]
    rcases hb : info.downloadInfo.bitmapAt fileid with ⟨bitmap, d⟩
    have hstep := bitsKept_of_bitmapAt hb
    cases bitmap with
    | none => exact hstep
    | some bits =>
      cases ht : bits.test chunkPos with
      | error e => simpa only [ht] using hstep
      | ok b =>
        cases b with
        | true => simpa only [ht] using hstep.trans (ih _ queue)
        | false =>
          cases hp : getPriority { info with downloadInfo := d } { fileid := fileid, chunkNum := chunkPos } 0 with
          | error e => simpa only [ht, hp] using hstep
          | ok chunk => simpa only [ht, hp] using hstep.trans (ih _ (queue ++ [chunk]))

/-- The inner loop queues the positions whose bit is clear, as `get_priority` makes their entries. -/
theorem initFile_eq_ok {fileid : String} {positions : List ℕ} {info info' : JobInfo} {queue queue' : List ChunkInfo}
    (h : initFile fileid positions info queue = (info', .ok queue')) :
    info' = info ∧ queue'.map ChunkInfo.item = queue.map ChunkInfo.item ++ clearBits info fileid positions ∧
      ∀ c ∈ queue', c ∈ queue ∨ ∃ pos, getPriority info { fileid := fileid, chunkNum := pos } 0 = .ok c := by
  induction positions generalizing queue with
  | nil =>
    cases h
    exact ⟨rfl, by simp [clearBits], fun c hc => .inl hc⟩
  | cons chunkPos rest ih =>
    rw [initFile] at h
    rcases hb : info.downloadInfo.bitmapAt fileid with ⟨bitmap, d⟩
    rw [hb] at h
    cases bitmap with
    | none => cases h
    | some bits =>
      obtain ⟨rfl, hbits⟩ := DownloadInfo.bitmapAt_eq_some hb
      simp only at h
      cases ht : bits.test chunkPos with
      | error e => simp [ht] at h
      | ok b =>
        have hbit : info.downloadInfo.bit fileid chunkPos = some b := by
          rw [DownloadInfo.bit, hbits]
          exact Bitmap.test_eq_ok.mp ht
        cases b with
        | true =>
          simp only [ht] at h
          obtain ⟨rfl, hq, hmade⟩ := ih h
          exact ⟨rfl, by simp [hq, clearBits, hbit], hmade⟩
        | false =>
          simp only [ht] at h
          cases hp : getPriority info { fileid := fileid, chunkNum := chunkPos } 0 with
          | error e => simp [hp] at h
          | ok chunk =>
            simp only [hp] at h
            obtain ⟨rfl, hq, hmade⟩ := ih h
            have hitem : chunk.item = (fileid, chunkPos) := item_getPriority hp
            refine ⟨rfl, by simp [hq, clearBits, hbit, hitem], fun c hc => ?_⟩
            obtain hold | hnew := hmade c hc
            · obtain hold | hlast := List.mem_append.mp hold
              · exact .inl hold
              · exact .inr ⟨chunkPos, List.mem_singleton.mp hlast ▸ hp⟩
            · exact .inr hnew

/-- The outer loop changes no bit. -/
theorem initFiles_bitsKept (fileids : List String) (info : JobInfo) (queue : List ChunkInfo) :
    BitsKept info (initFiles fileids info queue).1 := by
  induction fileids generalizing info queue with
  | nil => exact .refl info
  | cons fileid rest ih =>
    rw [initFiles]
    cases info.torrentInfo.getOneFileOfSameFileid fileid with
    | error e => exact .refl info
    | ok file =>
      have hfile := initFile_bitsKept fileid (List.range file.chunkCount) info queue
      rcases hi : initFile fileid (List.range file.chunkCount) info queue with ⟨info', e | queue'⟩
      · simpa only [hi] using hfile
      · rw [hi] at hfile
        simpa only [hi] using hfile.trans (ih info' queue')

/-- The outer loop queues the chunks whose bit is clear, file by file. -/
theorem initFiles_eq_ok {fileids : List String} {info info' : JobInfo} {queue queue' : List ChunkInfo}
    (h : initFiles fileids info queue = (info', .ok queue')) :
    info' = info ∧
      queue'.map ChunkInfo.item = queue.map ChunkInfo.item ++
        (fileids.flatMap fun fileid => clearBits info fileid (List.range (chunkCountOf info fileid))) ∧
      ∀ c ∈ queue', c ∈ queue ∨
        ∃ fileid pos, getPriority info { fileid := fileid, chunkNum := pos } 0 = .ok c := by
  induction fileids generalizing queue with
  | nil =>
    cases h
    exact ⟨rfl, by simp, fun c hc => .inl hc⟩
  | cons fileid rest ih =>
    rw [initFiles] at h
    cases hf : info.torrentInfo.getOneFileOfSameFileid fileid with
    | error e => simp [hf] at h
    | ok file =>
      simp only [hf] at h
      rcases hi : initFile fileid (List.range file.chunkCount) info queue with ⟨info₁, e | queue₁⟩
      · simp [hi] at h
      · simp only [hi] at h
        obtain ⟨rfl, hq₁, hmade₁⟩ := initFile_eq_ok hi
        obtain ⟨rfl, hq, hmade⟩ := ih h
        refine ⟨rfl, by simp [hq, hq₁, chunkCountOf, hf], fun c hc => ?_⟩
        obtain hold | hnew := hmade c hc
        · exact (hmade₁ c hold).imp_right fun hnew => ⟨fileid, hnew⟩
        · exact .inr hnew

/-- `init_queue` changes no bit. -/
theorem initQueue_bitsKept (info : JobInfo) : BitsKept info (initQueue info).1 := initFiles_bitsKept _ info []

/-- **The queue after `init_queue`.** A chunk is queued once if it belongs to a needed
file and its bit is clear, and not at all otherwise. -/
theorem count_initQueue {info info' : JobInfo} {queue : List ChunkInfo} (h : initQueue info = (info', .ok queue))
    (fileid : String) (pos : ℕ) :
    (queue.map ChunkInfo.item).count (fileid, pos) =
      if fileid ∈ info.fileidlist ∧ pos < chunkCountOf info fileid ∧ info.downloadInfo.bit fileid pos = some false
        then 1 else 0 := by
  obtain ⟨rfl, hq, -⟩ := initFiles_eq_ok h
  rw [hq, List.map_nil, List.nil_append]
  have hmem : (fileid, pos) ∈ info'.uniqueFileidList.flatMap (fun f => clearBits info' f (List.range (chunkCountOf info' f))) ↔
      fileid ∈ info'.fileidlist ∧ pos < chunkCountOf info' fileid ∧ info'.downloadInfo.bit fileid pos = some false := by
    simp [clearBits, List.mem_flatMap]
  have hnodup : (info'.uniqueFileidList.flatMap fun f => clearBits info' f (List.range (chunkCountOf info' f))).Nodup := by
    refine List.nodup_flatMap.mpr ⟨fun f _ => ?_, ?_⟩
    · exact (List.nodup_range.filter _).map fun a b hab => (Prod.mk.inj hab).2
    · refine info'.nodup_uniqueFileidList.imp fun {f g} hfg => ?_
      simp only [Function.onFun, List.disjoint_left, clearBits, List.mem_map]
      rintro _ ⟨_, _, rfl⟩ ⟨_, _, he⟩
      exact hfg (Prod.mk.inj he).1.symm
  split_ifs with hc
  · exact List.count_eq_one_of_mem hnodup (hmem.mpr hc)
  · exact List.count_eq_zero_of_not_mem (mt hmem.mp hc)

end ChunkSelector

end CoolDown
