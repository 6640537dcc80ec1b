import CoolDown.Client.ChunkSelector
import CoolDown.Library.Run

/-!
# In which order chunks are taken

One number orders the queue: what `get_priority` gives for the owners of a chunk, lowered
for a chunk that has failed and lowered more for one that had no owner. So each status has
a band of its own for the chunks with owners, and the rarer of two is the higher one. A chunk
without owners falls out of its band: a failed one is then no higher than those that were put
back for want of an owner.

## The model

`Op` is a call of the selector with the job as the call finds it, since the owners come
and go between two calls. Where `init_queue` throws, the chunks before that place stay
queued.

## What is proved

* `getPriority_eq_ok`: the number of a chunk, and that its owners are those that have it.
* `exec_priced`: every entry of a reachable queue has the number of its status and owners.
* `selection_order`: which chunks are still queued when one is taken.
-/

namespace CoolDown

open Library

/-- How many owners had the chunk when it was queued. -/
def ChunkInfo.owners (c : ChunkInfo) : ℕ := c.clientLists.length

namespace ChunkSelector

/-- What `init_queue` leaves when it throws at position `chunk` of the file at place `file`. -/
def initQueueUpTo (info : JobInfo) (file chunk : ℕ) : Except Exception (List ChunkInfo) :=
  match initFiles (info.uniqueFileidList.take file) info [] with
  | (_, .error e) => .error e
  | (info, .ok queue) =>
    match info.uniqueFileidList[file]? with
    | none => .ok queue
    | some fileid => (initFile fileid (List.range chunk) info queue).2

/-- A call of the selector. -/
inductive Op where
  | initQueue (info : JobInfo)
  | initQueueThrows (info : JobInfo) (file chunk : ℕ)
  | getChunk (top : ℕ)
  | reportFailedChunk (info : JobInfo) (chunkNum : ℕ) (fileid : String)
  | reportNoOwnerChunk (info : JobInfo) (chunkNum : ℕ) (fileid : String)

/-- The queue after a call; a report that throws leaves it as it is. -/
def step (queue : List ChunkInfo) : Op → Option (List ChunkInfo)
  | .initQueue info => (initQueue info).2.toOption
  | .initQueueThrows info file chunk => (initQueueUpTo info file chunk).toOption
  | .getChunk top => (getChunk queue top).map Prod.snd
  | .reportFailedChunk info chunkNum fileid => some ((reportFailedChunk info queue chunkNum fileid).toOption.getD queue)
  | .reportNoOwnerChunk info chunkNum fileid =>
    some ((reportNoOwnerChunk info queue chunkNum fileid).toOption.getD queue)

/-! ### The number of a chunk -/

/-- What `get_priority` gives for so many owners. -/
def rarity (owners : ℕ) : ℤ :=
  if owners = 0 then unavailable else if owners < rareCount then highest - owners else normal

/-- How much a status lowers the number. -/
def baseline : ChunkStatus → Option ℤ
  | .free => some 0
  | .failed => some (0 - normal)
  | .noowner => some (0 - highest)
  | .downloading | .finished => none

/-- The entry has the number of its status and its owners. -/
def Priced (c : ChunkInfo) : Prop := ∃ b, baseline c.status = some b ∧ c.priority = rarity c.owners + b

/-- The owners of a chunk are those of the list whose bitmap has it. -/
theorem ownersOf_eq_ok {chunkNum : ℕ} {infoList owners : List FileOwnerInfo}
    (h : ownersOf chunkNum infoList = .ok owners) :
    owners = infoList.filter fun p => decide (p.bitmap[chunkNum]? = some true) := by
  induction infoList generalizing owners with
  | nil => exact (Except.ok.inj h).symm
  | cons p ps ih =>
    unfold ownersOf at h
    cases ht : p.bitmap.test chunkNum with
    | error e => simp [ht, bind, Except.bind] at h
    | ok has =>
      have hbit := Bitmap.test_eq_ok.mp ht
      cases hrest : ownersOf chunkNum ps with
      | error e => simp [ht, hrest, bind, Except.bind] at h
      | ok rest =>
        simp only [ht, hrest, bind, Except.bind, pure, Except.pure, Except.ok.injEq] at h
        subst h
        rw [List.filter_cons, hbit, ih hrest]
        cases has <;> simp

/-- `get_priority` finds the owners that have the chunk, and the number for so many. -/
theorem getPriority_eq_ok {info : JobInfo} {chunk chunk' : ChunkInfo} {b : ℤ}
    (h : getPriority info chunk b = .ok chunk') :
    ∃ infoList, info.ownerInfoMap.find? chunk.fileid = some infoList ∧
      chunk'.clientLists = infoList.filter (fun p => decide (p.bitmap[chunk.chunkNum]? = some true)) ∧
      chunk'.status = chunk.status ∧ chunk'.priority = rarity chunk'.owners + b := by
  unfold getPriority at h
  split at h
  · cases h
  · rename_i infoList hlist
    cases ho : ownersOf chunk.chunkNum infoList with
    | error e => simp [ho, bind, Except.bind] at h
    | ok owners =>
      simp only [ho, bind, Except.bind, pure, Except.pure, Except.ok.injEq] at h
      subst h
      exact ⟨infoList, hlist, ownersOf_eq_ok ho, rfl, rfl⟩

theorem priced_of_getPriority {info : JobInfo} {chunk chunk' : ChunkInfo} {b : ℤ} (hb : baseline chunk.status = some b)
    (h : getPriority info chunk b = .ok chunk') : Priced chunk' := by
  obtain ⟨_, -, -, hstatus, hpriority⟩ := getPriority_eq_ok h
  exact ⟨b, hstatus ▸ hb, hpriority⟩

/-! ### Every entry has its number -/

/-- The inner loop queues entries that have their number. -/
theorem priced_initFile {fileid : String} {positions : List ℕ} {info : JobInfo} {queue queue' : List ChunkInfo}
    (h : (initFile fileid positions info queue).2 = .ok queue') (hq : ∀ c ∈ queue, Priced c) :
    ∀ c ∈ queue', Priced c := by
  intro c hc
  obtain ⟨-, -, hmade⟩ := initFile_eq_ok (Prod.ext rfl h)
  obtain hold | ⟨pos, hp⟩ := hmade c hc
  · exact hq c hold
  · exact priced_of_getPriority rfl hp

/-- So does the outer loop. -/
theorem priced_initFiles {fileids : List String} {info : JobInfo} {queue queue' : List ChunkInfo}
    (h : (initFiles fileids info queue).2 = .ok queue') (hq : ∀ c ∈ queue, Priced c) : ∀ c ∈ queue', Priced c := by
  intro c hc
  obtain ⟨-, -, hmade⟩ := initFiles_eq_ok (Prod.ext rfl h)
  obtain hold | ⟨fileid, pos, hp⟩ := hmade c hc
  · exact hq c hold
  · exact priced_of_getPriority rfl hp

theorem priced_initQueueUpTo {info : JobInfo} {file chunk : ℕ} {queue : List ChunkInfo}
    (h : initQueueUpTo info file chunk = .ok queue) : ∀ c ∈ queue, Priced c := by
  unfold initQueueUpTo at h
  rcases hi : initFiles (info.uniqueFileidList.take file) info [] with ⟨info₁, e | queue₁⟩
  · simp [hi] at h
  · have hq₁ : ∀ c ∈ queue₁, Priced c := priced_initFiles (congrArg Prod.snd hi) (by simp)
    simp only [hi] at h
    split at h
    · exact Except.ok.inj h ▸ hq₁
    · exact priced_initFile h hq₁

/-- A report queues an entry that has its number. -/
theorem priced_putBack {status : ChunkStatus} {b : ℤ} {info : JobInfo} {queue : List ChunkInfo} {chunkNum : ℕ}
    {fileid : String} (hb : baseline status = some b) (hq : ∀ c ∈ queue, Priced c) :
    ∀ c ∈ (putBack status b info queue chunkNum fileid).toOption.getD queue, Priced c := by
  unfold putBack
  cases hp : getPriority info { status := status, fileid := fileid, chunkNum := chunkNum } b with
  | error e => exact hq
  | ok chunk =>
    intro c hc
    obtain hc | hc := List.mem_append.mp hc
    · exact hq c hc
    · rw [List.mem_singleton.mp hc]
      exact priced_of_getPriority hb hp

theorem eq_ok_of_toOption {α : Type} {x : Except Exception α} {a : α} (h : x.toOption = some a) : x = .ok a := by
  cases x with
  | error e => cases h
  | ok b => exact congrArg Except.ok (Option.some.inj h)

/-- Every call keeps that. -/
theorem step_priced {queue queue' : List ChunkInfo} {op : Op} (hq : ∀ c ∈ queue, Priced c)
    (h : step queue op = some queue') : ∀ c ∈ queue', Priced c := by
  cases op with
  | initQueue info => exact priced_initFiles (eq_ok_of_toOption h) fun _ hc => absurd hc List.not_mem_nil
  | initQueueThrows info file chunk => exact priced_initQueueUpTo (eq_ok_of_toOption h)
  | getChunk top =>
    obtain ⟨⟨chunk, queue₁⟩, hget, rfl⟩ := Option.map_eq_some_iff.mp h
    cases chunk with
    | none =>
      obtain ⟨-, rfl⟩ := getChunk_eq_none hget
      simp
    | some chunk =>
      obtain ⟨-, rfl⟩ := getChunk_eq_some hget
      exact fun c hc => hq c (List.mem_of_mem_eraseIdx hc)
  | reportFailedChunk info chunkNum fileid => exact Option.some.inj h ▸ priced_putBack rfl hq
  | reportNoOwnerChunk info chunkNum fileid => exact Option.some.inj h ▸ priced_putBack rfl hq

/-- Every entry of a reachable queue has the number of its status and its owners. -/
theorem exec_priced {ops : List Op} {queue : List ChunkInfo} (h : exec step [] ops = some queue) :
    ∀ c ∈ queue, Priced c :=
  exec_invariant (I := fun queue => ∀ c ∈ queue, Priced c) step_priced h (by simp)

/-! ### The bands -/

@[simp] theorem rarity_zero : rarity 0 = 0 := rfl

/-- With owners the number is 10, and more for fewer than five of them. -/
theorem rarity_of_pos {n : ℕ} (h : 1 ≤ n) : rarity n = if n < 5 then 20 - (n : ℤ) else 10 := by
  rw [rarity, if_neg (by omega), rareCount, highest, normal]

theorem rarity_bounds (n : ℕ) : 0 ≤ rarity n ∧ rarity n ≤ 19 ∧ (1 ≤ n → 10 ≤ rarity n) ∧ (n = 0 → rarity n = 0) := by
  obtain rfl | hpos := Nat.eq_zero_or_pos n
  · simp
  · rw [rarity_of_pos hpos]
    split_ifs <;> omega

/-- The rarer chunk has the higher number. -/
theorem min_le_of_rarity_le {n m : ℕ} (hn : 1 ≤ n) (hm : 1 ≤ m) (h : rarity m ≤ rarity n) : min n 5 ≤ min m 5 := by
  rw [rarity_of_pos hn, rarity_of_pos hm] at h
  split_ifs at h <;> omega

/-- What `get_chunk` returns is as high as anything that is left. -/
theorem priority_le_of_getChunk {queue queue' : List ChunkInfo} {top : ℕ} {chunk : ChunkInfo}
    (h : getChunk queue top = some (some chunk, queue')) : ∀ other ∈ queue', other.priority ≤ chunk.priority := by
  intro other hother
  have hmem : other ∈ queue := by
    obtain ⟨-, rfl⟩ := getChunk_eq_some h
    exact List.mem_of_mem_eraseIdx hother
  unfold getChunk at h
  split_ifs at h with hnil
  · cases h
  · split at h
    · cases h
    · split_ifs at h with hmax
      cases h
      exact of_decide_eq_true (List.all_eq_true.mp hmax other hmem)

/-- The number of an entry, by its status. -/
theorem Priced.priority_eq {c : ChunkInfo} (h : Priced c) :
    c.status = .free ∧ c.priority = rarity c.owners ∨
    c.status = .failed ∧ c.priority = rarity c.owners - 10 ∨
    c.status = .noowner ∧ c.priority = rarity c.owners - 20 := by
  obtain ⟨b, hb, hpriority⟩ := h
  cases hstatus : c.status with
  | free =>
    rw [hstatus] at hb
    obtain rfl := Option.some.inj hb
    exact .inl ⟨rfl, by omega⟩
  | failed =>
    rw [hstatus] at hb
    obtain rfl := Option.some.inj hb
    exact .inr (.inl ⟨rfl, hpriority⟩)
  | noowner =>
    rw [hstatus] at hb
    obtain rfl := Option.some.inj hb
    exact .inr (.inr ⟨rfl, hpriority⟩)
  | downloading => simp [hstatus, baseline] at hb
  | finished => simp [hstatus, baseline] at hb

/-- **Selection order.** A chunk that was put back for want of an owner is only taken when no
fresh chunk is left, nor a failed one with owners; anything but a fresh chunk with owners is
only taken when none of these is left; and among the chunks of one status that have owners the
rarest comes first, where five owners or more are all the same. -/
theorem selection_order {ops : List Op} {queue queue' : List ChunkInfo} {top : ℕ} {chunk : ChunkInfo}
    (hrun : exec step [] ops = some queue) (hget : getChunk queue top = some (some chunk, queue')) :
    (chunk.status = .noowner →
      ∀ other ∈ queue', other.status ≠ .free ∧ (other.status = .failed → other.owners = 0)) ∧
    (¬(chunk.status = .free ∧ 1 ≤ chunk.owners) → ∀ other ∈ queue', other.status = .free → other.owners = 0) ∧
    (1 ≤ chunk.owners → ∀ other ∈ queue', other.status = chunk.status → 1 ≤ other.owners →
      min chunk.owners 5 ≤ min other.owners 5) := by
  have hpriced := exec_priced hrun
  obtain ⟨htop, hqueue'⟩ := getChunk_eq_some hget
  have hchunk := (hpriced chunk (List.mem_of_getElem? htop)).priority_eq
  have hbounds := rarity_bounds chunk.owners
  have hother : ∀ other ∈ queue', other.priority ≤ chunk.priority ∧ Priced other := fun other hmem =>
    ⟨priority_le_of_getChunk hget other hmem, hpriced other (List.mem_of_mem_eraseIdx (hqueue' ▸ hmem))⟩
  refine ⟨fun hstatus other hmem => ?_, fun hstatus other hmem hfree => ?_, fun hpos other hmem hstatus hpos' => ?_⟩
  · obtain ⟨hle, hpriced'⟩ := hother other hmem
    have hbounds' := rarity_bounds other.owners
    obtain ⟨hs, hp⟩ | ⟨hs, hp⟩ | ⟨hs, hp⟩ := hchunk
    · simp [hstatus] at hs
    · simp [hstatus] at hs
    · obtain ⟨hs', hp'⟩ | ⟨hs', hp'⟩ | ⟨hs', hp'⟩ := hpriced'.priority_eq
      · omega
      · exact ⟨by simp [hs'], fun _ => by omega⟩
      · simp [hs']
  · obtain ⟨hle, hpriced'⟩ := hother other hmem
    have hbounds' := rarity_bounds other.owners
    obtain ⟨hs', hp'⟩ | ⟨hs', -⟩ | ⟨hs', -⟩ := hpriced'.priority_eq
    · obtain ⟨hs, hp⟩ | ⟨hs, hp⟩ | ⟨hs, hp⟩ := hchunk
      · have hnone : ¬ 1 ≤ chunk.owners := fun h => hstatus ⟨hs, h⟩
        omega
      · omega
      · omega
    · simp [hfree] at hs'
    · simp [hfree] at hs'
  · obtain ⟨hle, hpriced'⟩ := hother other hmem
    refine min_le_of_rarity_le hpos hpos' ?_
    obtain ⟨b, hb, hp⟩ := hpriced chunk (List.mem_of_getElem? htop)
    obtain ⟨b', hb', hp'⟩ := hpriced'
    rw [hstatus, hb] at hb'
    obtain rfl := Option.some.inj hb'
    omega

/-- A job whose one chunk two peers may have, of which one has it. -/
def twoPeers : JobInfo where
  fileidlist := ["f"]
  localFileInfo := .new "/d/"
  ownerInfoMap := (∅ : SortedMap String (List FileOwnerInfo)).insert "f"
    [⟨"p", "host", 1, 100, [true]⟩, ⟨"q", "host", 1, 0, [false]⟩]
  downloadInfo := .new 0 0
  torrentInfo := ⟨⟨"t", 0, 1, "c", "now", "tracker", [⟨"f", "", "a", 1, [⟨"sum", 1⟩]⟩]⟩⟩
  needed := by
    intro fileid h
    exact absurd rfl h

/-- A chunk that has failed comes before one that had no owner. -/
theorem selection_order_twoPeers :
    ∃ queue queue' chunk,
      exec step [] [.reportNoOwnerChunk twoPeers 0 "f", .reportFailedChunk twoPeers 0 "f"] = some queue ∧
      getChunk queue 1 = some (some chunk, queue') ∧ chunk.status = .failed ∧ chunk.owners = 1 ∧
      ∀ other ∈ queue', other.status = .free → other.owners = 0 := by
  have hrun : ∃ queue, exec step []
      [.reportNoOwnerChunk twoPeers 0 "f", .reportFailedChunk twoPeers 0 "f"] = some queue ∧
      ∃ queue' chunk, getChunk queue 1 = some (some chunk, queue') ∧ chunk.status = .failed ∧ chunk.owners = 1 :=
    ⟨_, rfl, _, _, rfl, rfl, rfl⟩
  obtain ⟨queue, hrun, queue', chunk, hget, hstatus, howners⟩ := hrun
  refine ⟨queue, queue', chunk, hrun, hget, hstatus, howners, ?_⟩
  exact (selection_order hrun hget).2.1 (by simp [hstatus])

end ChunkSelector

end CoolDown
