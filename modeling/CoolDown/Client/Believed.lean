import CoolDown.Client.JobEnd
import CoolDown.Client.OwnerSearch
import CoolDown.Client.SelectionOrder

/-!
# What a client believes of its peers

A job keeps bitmaps of its peers, lists with each chunk the peers whose bitmap has it, chooses one
of those, and starts a task for the chunk with it. All this goes back to what the peers
themselves have said to `shake_hand`: the tracker only names them.

## The model

The steps are those of `OwnerSearch`. `Believes has` says of a job that for each bit, each
listed peer, the chosen one and that of each task, `has` says that the peer has the chunk;
what `has` is, is left open.

## What is proved

* `step_sought`: what a step of the search changes, and where the bitmaps come from.
* `step_backing`: a step of the search leaves the backing of the job's own bits.
* `step_believes`: if `has` says what a reply says that is taken in, a step keeps `Believes has`.
-/

namespace CoolDown

open Library ChunkSelector ClientProto

/-- The peer that has been chosen for the chunk `run` holds. -/
def Job.Pc.fetching : Pc → Option (ChunkInfo × String)
  | getSock chunk peer | waitSock chunk peer | checkFile chunk peer _ | startTask chunk peer _ _ => some (chunk, peer)
  | notStarted | findOwners _ | initQueue | readRemoved | readStopped | waitStopped | readPaused | waitPaused | getChunk
  | findOwner _ | chooseOwner _ | joinAll | copying _ | ended | aborted => none

/-- Where `run` goes on after a search, it holds the same chunk, and has chosen no other peer. -/
theorem OwnerSearch.returned_keeps (pc : Job.Pc) :
    (returned pc).held = pc.held ∧ (returned pc).fetching = pc.fetching ∧ (∀ todo, returned pc = .copying todo → pc = .copying todo) ∧
      ∀ t l, pc.FileChecked t l → (returned pc).FileChecked t l := by
  cases pc with
  | findOwners fileids => cases fileids <;> exact ⟨rfl, rfl, by rintro todo ⟨⟩, fun _ _ h => h⟩
  | findOwner => exact ⟨rfl, rfl, by rintro todo ⟨⟩, fun _ _ h => h⟩
  | _ => exact ⟨rfl, rfl, fun _ h => h, fun _ _ h => h⟩

/-- Every bit of a file of the job is that of a chunk. -/
def BitsInRange (info : JobInfo) : Prop :=
  ∀ fileid ∈ info.fileidlist, ∀ c, (info.downloadInfo.bit fileid c).isSome → c < chunkCountOf info fileid

/-- There are the same bits, set or not. -/
def SameBits (info info' : JobInfo) : Prop :=
  ∀ fileid c, (info'.downloadInfo.bit fileid c).isSome = (info.downloadInfo.bit fileid c).isSome

theorem BitsInRange.of_advances {info info' : JobInfo} (h : BitsInRange info) (hadv : info.Advances info')
    (hsame : SameBits info info') : BitsInRange info' := by
  intro fileid hmem c hbit
  rw [hadv.fileidlist] at hmem
  rw [chunkCountOf, hadv.torrentInfo]
  exact h fileid hmem c (hsame fileid c ▸ hbit)

/-- `report_success_chunk` sets a bit that there is. -/
theorem sameBits_reportSuccessChunk (info : JobInfo) (chunkNum : ℕ) (fileid : String) :
    SameBits info (reportSuccessChunk info chunkNum fileid).1 := by
  intro fileid' c
  rw [(reportSuccessChunk_spec info chunkNum fileid).2]
  split_ifs with h
  · obtain ⟨hok, hitem⟩ := h
    obtain ⟨rfl, rfl⟩ := Prod.mk.inj hitem
    rw [Option.isSome_some, eq_comm]
    unfold reportSuccessChunk at hok
    rcases hb : info.downloadInfo.bitmapAt fileid' with ⟨bitmap, d⟩
    rw [hb] at hok
    cases bitmap with
    | none => cases hok
    | some bits =>
      by_cases hlt : c < bits.length
      · rw [DownloadInfo.bit, (DownloadInfo.bitmapAt_eq_some hb).2]
        simpa using hlt
      · simp [Bitmap.setBit, hlt] at hok
  · rfl

namespace Job

variable {sha1 : Bytes → String} {j j' : Job} {ev : RunEvent}

/-! ### Where the peers of a job come from -/

theorem leastPayload_mem (payload : String → ℕ) (p : FileOwnerInfo) (ps : List FileOwnerInfo) :
    leastPayload payload p ps ∈ p :: ps := by
  induction ps generalizing p with
  | nil => exact List.mem_singleton_self p
  | cons q qs ih =>
    rw [leastPayload]
    have := ih (if payload q.clientid < payload p.clientid then q else p)
    split_ifs at this ⊢ <;> simp only [List.mem_cons] at this ⊢ <;> tauto

theorem fetching_copyFile (j : Job) (emptyDir : Bool) (source target : String) (todo : List (String × String × String)) :
    (j.copyFile emptyDir source target todo).pc.fetching = none := by
  unfold copyFile
  split <;> rfl

/-- The peer is chosen among those that are listed with the chunk. -/
theorem runStep_fetching (h : j.runStep j.pc ev = some j') :
    j'.pc.fetching = none ∨ j'.pc.fetching = j.pc.fetching ∨
      ∃ chunk, j.pc = .chooseOwner chunk ∧ ∃ p ∈ chunk.clientLists, j'.pc.fetching = some (chunk, p.clientid) := by
  generalize hpc : j.pc = pc at h ⊢
  unfold runStep at h
  split at h
  all_goals repeat' split at h
  all_goals cases h
  all_goals first
    | exact .inl rfl
    | exact .inr (.inl rfl)
    | exact .inl (fetching_copyFile ..)
    | (rename_i hlists
       exact .inr (.inr ⟨_, rfl, _, hlists ▸ leastPayload_mem _ _ _, rfl⟩))

/-- What is new in the queue has gone through `get_priority`. -/
theorem runStep_queue (h : j.runStep j.pc ev = some j') :
    ∀ c ∈ j'.queue, c ∈ j.queue ∨ ∃ c₀ b, getPriority j.jobInfo c₀ b = .ok c := by
  intro c hc
  cases runStep_cases h with
  | init info queue hpc hinit =>
    obtain ⟨rfl, -, hmade⟩ := initFiles_eq_ok hinit
    obtain hnil | ⟨fileid, pos, hpos⟩ := hmade c hc
    · cases hnil
    · exact .inr ⟨_, _, hpos⟩
  | initThrows => cases hc
  | take => exact .inl (List.mem_of_mem_eraseIdx hc)
  | putBack chunk chunk' hpc =>
    obtain hc | hc := List.mem_append.mp hc
    · exact .inl hc
    obtain rfl := List.mem_singleton.mp hc
    rw [hpc] at h
    cases ev with
    | go =>
      rw [runStep] at h
      split at h
      · split at h
        · exact absurd (congrArg Job.pc (Option.some.inj h)) (by rintro ⟨⟩)
        · rename_i queue hq
          obtain ⟨c', hp, rfl⟩ := putBack_eq_ok hq
          have hqueue := congrArg Job.queue (Option.some.inj h)
          obtain rfl : c' = c := by simpa using hqueue
          exact .inr ⟨_, _, hp⟩
      · exact absurd (congrArg Job.pc (Option.some.inj h)) (by rintro ⟨⟩)
    | throws | owners | top | conn | emptyDirectory => cases h
  | move | empty | launch | drop | noFile | leave | joined | copied | ended | abort => exact .inl hc

/-! ### What a job believes -/

/-- Only clients of which `has` says that they have the chunk are listed with it. -/
def Listed (has : String → String → ℕ → Prop) (chunk : ChunkInfo) : Prop :=
  ∀ p ∈ chunk.clientLists, has p.clientid chunk.fileid chunk.chunkNum

/-- What the job believes of its peers is what `has` says. -/
structure Believes (has : String → String → ℕ → Prop) (j : Job) : Prop where
  owners : ∀ fileid infoList, j.jobInfo.ownerInfoMap.find? fileid = some infoList →
    ∀ p ∈ infoList, ∀ c, p.bitmap[c]? = some true → has p.clientid fileid c
  queue : ∀ chunk ∈ j.queue, Listed has chunk
  held : ∀ chunk, j.pc.held = some chunk → Listed has chunk
  fetching : ∀ chunk peer, j.pc.fetching = some (chunk, peer) → has peer chunk.fileid chunk.chunkNum
  tasks : ∀ t ∈ j.tasks, has t.clientid t.fileid t.chunkPos

variable {has has' : String → String → ℕ → Prop}

theorem Believes.mono (hj : Believes has j) (h : ∀ clientid fileid c, has clientid fileid c → has' clientid fileid c) :
    Believes has' j where
  owners fileid infoList hfind p hp c hc := h _ _ _ (hj.owners fileid infoList hfind p hp c hc)
  queue chunk hmem p hp := h _ _ _ (hj.queue chunk hmem p hp)
  held chunk hheld p hp := h _ _ _ (hj.held chunk hheld p hp)
  fetching chunk peer hpc := h _ _ _ (hj.fetching chunk peer hpc)
  tasks t ht := h _ _ _ (hj.tasks t ht)

/-- Those who are listed with a chunk by `get_priority` are believed to have it. -/
theorem Believes.listed (hj : Believes has j) {chunk c₀ : ChunkInfo} {b : ℤ} (h : getPriority j.jobInfo c₀ b = .ok chunk) :
    Listed has chunk := by
  obtain ⟨infoList, hfind, hlists, -, -⟩ := getPriority_eq_ok h
  obtain ⟨hfileid, hnum⟩ := Prod.mk.inj (item_getPriority h)
  intro p hp
  rw [hlists] at hp
  obtain ⟨hmem, hbit⟩ := List.mem_filter.mp hp
  rw [hfileid, hnum]
  exact hj.owners _ infoList hfind p hmem _ (of_decide_eq_true hbit)

/-- What a step of `run` keeps. -/
theorem runStep_believes (hj : Believes has j) (hfile : j.pc.FileChecked j.jobInfo.torrentInfo j.jobInfo.localFileInfo)
    (hev : ∀ found, ev ≠ .owners found) (h : j.runStep j.pc ev = some j') : Believes has j' where
  owners := by
    rw [OwnerSearch.ownerInfoMap_runStep h hev]
    exact hj.owners
  queue := by
    intro chunk hmem
    obtain hold | ⟨c₀, b, hp⟩ := runStep_queue h chunk hmem
    · exact hj.queue chunk hold
    · exact hj.listed hp
  held := by
    intro chunk hheld
    cases runStep_cases h with
    | move pc owners m hstage hin hsame => exact hj.held chunk (hsame ▸ hheld)
    | take i chunk' pc hpc hi hsame =>
      obtain rfl := Option.some.inj (hsame.symm.trans hheld)
      exact hj.queue _ (List.mem_of_getElem? hi)
    | init | initThrows | empty | putBack | launch | drop | noFile | leave | joined | copied | ended | abort => cases hheld
  fetching := by
    intro chunk peer hpeer
    obtain hnone | hsame | ⟨chunk', hpc, p, hp, hchosen⟩ := runStep_fetching h
    · rw [hnone] at hpeer
      cases hpeer
    · exact hj.fetching chunk peer (hsame ▸ hpeer)
    · rw [hchosen] at hpeer
      cases hpeer
      exact hj.held chunk (by rw [hpc]; rfl) p hp
  tasks := by
    intro t ht
    cases runStep_cases h with
    | launch chunk peer sock fileInfo file hpc hget =>
      obtain ht | ht := List.mem_append.mp ht
      · exact hj.tasks t ht
      · obtain rfl := List.mem_singleton.mp ht
        rw [hpc] at hfile
        have hid : fileInfo.checkSum = chunk.fileid := (TorrentInfo.getOneFileOfSameFileid_mem hfile.1).2
        have hpeer := hj.fetching chunk peer (by rw [hpc]; rfl)
        rwa [← hid] at hpeer
    | move | init | initThrows | take | empty | putBack | drop | noFile | leave | joined | copied | ended | abort =>
      exact hj.tasks t ht

/-- A task that replaces another one of the same chunk and peer. -/
theorem Believes.of_set {i : ℕ} {t t' : DownloadTask} (hj : Believes has j) (hi : j.tasks[i]? = some t)
    (htasks : j'.tasks = j.tasks.set i t') (hsame : t'.clientid = t.clientid ∧ t'.fileid = t.fileid ∧ t'.chunkPos = t.chunkPos)
    (howners : j'.jobInfo.ownerInfoMap = j.jobInfo.ownerInfoMap) (hqueue : ∀ chunk ∈ j'.queue, Listed has chunk)
    (hpc : j'.pc = j.pc) : Believes has j' where
  owners := by rw [howners]; exact hj.owners
  queue := hqueue
  held := by rw [hpc]; exact hj.held
  fetching := by rw [hpc]; exact hj.fetching
  tasks := by
    intro task ht
    rw [htasks] at ht
    obtain ht | rfl := List.mem_or_eq_of_mem_set ht
    · exact hj.tasks task ht
    · rw [hsame.1, hsame.2.1, hsame.2.2]
      exact hj.tasks t (List.mem_of_getElem? hi)

/-- **What a step of the job keeps**, apart from the search for owners. -/
theorem step_believes {a : Action} (hj : Believes has j)
    (hfile : j.pc.FileChecked j.jobInfo.torrentInfo j.jobInfo.localFileInfo) (ha : ∀ found, a ≠ .run (.owners found))
    (h : step sha1 j a = some j') : Believes has j' := by
  have howners := OwnerSearch.ownerInfoMap_jobStep h ha
  cases a with
  | start =>
    obtain ⟨-, rfl⟩ := step_start h
    exact ⟨hj.owners, hj.queue, by rintro chunk ⟨⟩, by rintro chunk peer ⟨⟩, hj.tasks⟩
  | run ev => exact runStep_believes hj hfile (fun found he => ha found (congrArg _ he)) h
  | task i ev =>
    obtain ⟨t, phase, d, disk, hi, -, rfl⟩ := step_task h
    exact hj.of_set hi rfl ⟨rfl, rfl, rfl⟩ howners hj.queue rfl
  | onFailed i =>
    obtain ⟨t, hi, -, rfl⟩ := step_onFailed h
    unfold onFailed at howners ⊢
    split
    · exact hj.of_set hi rfl ⟨rfl, rfl, rfl⟩ rfl hj.queue rfl
    · rename_i queue hq
      refine hj.of_set hi rfl ⟨rfl, rfl, rfl⟩ rfl ?_ rfl
      obtain ⟨chunk, hp, rfl⟩ := putBack_eq_ok hq
      intro chunk' hmem
      obtain hmem | hmem := List.mem_append.mp hmem
      · exact hj.queue chunk' hmem
      · exact List.mem_singleton.mp hmem ▸ hj.listed hp
  | onFinished i =>
    obtain ⟨t, hi, -, rfl⟩ := step_onFinished h
    obtain ⟨-, _, _, -, heq⟩ | ⟨-, info, _, _, -, -, heq⟩ | ⟨-, info, _, -, heq⟩ := j.onFinished_cases i t
    all_goals
      rw [heq] at howners ⊢
      exact hj.of_set hi rfl ⟨rfl, rfl, rfl⟩ howners hj.queue rfl
  | env ev =>
    cases h
    exact ⟨hj.owners, hj.queue, hj.held, hj.fetching, hj.tasks⟩

/-- No step makes or removes a bit. -/
theorem step_sameBits {a : Action} (h : step sha1 j a = some j') : SameBits j.jobInfo j'.jobInfo := by
  intro fileid c
  cases a with
  | start =>
    obtain ⟨-, rfl⟩ := step_start h
    rfl
  | run ev =>
    cases runStep_cases h with
    | init info queue hpc hinit =>
      obtain ⟨rfl, -⟩ := initFiles_eq_ok hinit
      rfl
    | initThrows info hpc hinfo => exact congrArg Option.isSome (hinfo.2 fileid c)
    | move | take | empty | putBack | launch | drop | noFile | leave | joined | copied | ended | abort => rfl
  | task i ev =>
    obtain ⟨t, phase, d, disk, hi, hrun, rfl⟩ := step_task h
    obtain ⟨-, ⟨n, rfl⟩, -⟩ := DownloadTask.runTask_frame hrun
    rfl
  | onFailed i =>
    obtain ⟨t, -, -, rfl⟩ := step_onFailed h
    obtain ⟨_, -, heq⟩ | ⟨-, heq⟩ := j.onFailed_cases i t
    all_goals rw [heq]
  | onFinished i =>
    obtain ⟨t, -, -, rfl⟩ := step_onFinished h
    have hsame := sameBits_reportSuccessChunk j.jobInfo t.chunkPos t.fileid fileid c
    obtain ⟨-, _, _, -, heq⟩ | ⟨-, info, _, _, hr, -, heq⟩ | ⟨-, info, _, hr, heq⟩ := j.onFinished_cases i t
    · rw [heq]
    · rwa [heq, ← show _ = info from congrArg Prod.fst hr]
    · rwa [heq, ← show _ = info from congrArg Prod.fst hr]
  | env ev =>
    cases h
    simp [DownloadInfo.bit]

/-- The backing of the bits depends on nothing that the search changes. -/
theorem Backing.congr {k : Job} (hj : Backing sha1 j) (ht : k.jobInfo.torrentInfo = j.jobInfo.torrentInfo)
    (hl : k.jobInfo.localFileInfo = j.jobInfo.localFileInfo)
    (hbit : ∀ fileid pos, k.jobInfo.downloadInfo.bit fileid pos = j.jobInfo.downloadInfo.bit fileid pos)
    (hdisk : k.disk = j.disk) (htasks : k.tasks = j.tasks)
    (hpc : k.pc = j.pc ∨ k.pc = OwnerSearch.returned j.pc ∨ k.pc = .aborted) : Backing sha1 k where
  laid := by rw [ht, hl]; exact hj.laid
  longEnough := by rw [ht, hl, hdisk]; exact hj.longEnough
  bits fileid pos h := by rw [ht, hl, hdisk]; exact hj.bits fileid pos (hbit fileid pos ▸ h)
  tasks := by rw [ht, hl, hdisk, htasks]; exact hj.tasks
  copies := by
    rw [hl]
    intro todo h
    obtain hpc | hpc | hpc := hpc
    · exact hj.copies todo (hpc ▸ h)
    · exact hj.copies todo ((OwnerSearch.returned_keeps j.pc).2.2.1 todo (hpc ▸ h))
    · rw [h] at hpc
      cases hpc
  fileChecked := by
    rw [ht, hl]
    obtain hpc | hpc | hpc := hpc
    · exact hpc ▸ hj.fileChecked
    · exact hpc ▸ (OwnerSearch.returned_keeps j.pc).2.2.2 _ _ hj.fileChecked
    · rw [hpc]
      trivial

end Job

namespace OwnerSearch

variable {sha1 : Bytes → String} {s s' t : OwnerSearch} {a : Action}

/-! ### What a step of the search changes -/

/-- The file and the owner of a `shake_hand`. -/
def greeted (s : OwnerSearch) : Option (String × String) :=
  match s.place with
  | .greeting fileid i => (s.owners fileid)[i]?.map fun p => (fileid, p.clientid)
  | .outside | .asked _ | .connecting _ _ => none

/-- An owner that is listed after a step: it was listed before, or it has no bits, or the bits that it has told. -/
def Heard (s : OwnerSearch) (a : Action) (fileid : String) (p : FileOwnerInfo) : Prop :=
  p ∈ s.owners fileid ∨ p.bitmap = [] ∨
    ∃ x sh, a = .shakeHand x ∧ x.message = some sh ∧ s.greeted = some (fileid, p.clientid) ∧ p.bitmap = bitmapOf sh.info

/-- What a step of the search leaves of a job. -/
structure Sought (s : OwnerSearch) (a : Action) (s' : OwnerSearch) : Prop where
  queue : s'.job.queue = s.job.queue
  tasks : s'.job.tasks = s.job.tasks
  disk : s'.job.disk = s.job.disk
  isRunning : s'.job.isRunning = s.job.isRunning
  info : BitsKept s.job.jobInfo { s'.job.jobInfo with ownerInfoMap := s.job.jobInfo.ownerInfoMap }
  owners : ∀ fileid, ∀ p ∈ s'.owners fileid, s.Heard a fileid p

theorem Sought.refl (s : OwnerSearch) (a : Action) : Sought s a s :=
  ⟨rfl, rfl, rfl, rfl, .refl _, fun _ _ hp => .inl hp⟩

/-- Only these parts of the job matter. -/
theorem Sought.of_eq (h : Sought s a t) (hqueue : s'.job.queue = t.job.queue) (htasks : s'.job.tasks = t.job.tasks)
    (hdisk : s'.job.disk = t.job.disk) (hrunning : s'.job.isRunning = t.job.isRunning)
    (hinfo : s'.job.jobInfo = t.job.jobInfo) : Sought s a s' where
  queue := hqueue.trans h.queue
  tasks := htasks.trans h.tasks
  disk := hdisk.trans h.disk
  isRunning := hrunning.trans h.isRunning
  info := by rw [hinfo]; exact h.info
  owners fileid p hp := h.owners fileid p (by rwa [OwnerSearch.owners, hinfo] at hp)

theorem Sought.leave (h : Sought s a t) : Sought s a t.leave := h.of_eq rfl rfl rfl rfl rfl

theorem Sought.abort (h : Sought s a t) : Sought s a t.abort := h.of_eq rfl rfl rfl rfl rfl

theorem Sought.next (h : Sought s a t) (fileid : String) (i : ℕ) : Sought s a (t.next fileid i) := by
  unfold OwnerSearch.next
  split_ifs
  · exact h.of_eq rfl rfl rfl rfl rfl
  · exact h.leave

/-- The lists change, and all entries are accounted for. -/
theorem sought_setOwners {owners : SortedMap String (List FileOwnerInfo)}
    (h : ∀ fileid infoList, owners.find? fileid = some infoList → ∀ p ∈ infoList, s.Heard a fileid p) :
    Sought s a (s.setOwners owners) where
  queue := rfl
  tasks := rfl
  disk := rfl
  isRunning := rfl
  info := .refl _
  owners := by
    intro fileid p hp
    rw [OwnerSearch.owners] at hp
    change p ∈ (owners.find? fileid).getD [] at hp
    cases hfind : owners.find? fileid with
    | none => rw [hfind] at hp; cases hp
    | some infoList => rw [hfind] at hp; exact h fileid infoList hfind p hp

/-- An entry of a list was there before. -/
theorem heard_of_find? {fileid : String} {infoList : List FileOwnerInfo} {p : FileOwnerInfo}
    (hfind : s.job.jobInfo.ownerInfoMap.find? fileid = some infoList) (hp : p ∈ infoList) : s.Heard a fileid p :=
  .inl (by rwa [owners, hfind])

theorem sought_request (s : OwnerSearch) (a : Action) (fileid : String) : Sought s a (s.request fileid) := by
  have hset : Sought s a (s.setOwners (s.job.jobInfo.ownerInfoMap.getOrInsert fileid []).2) := by
    refine sought_setOwners fun fileid' infoList hfind p hp => ?_
    rw [SortedMap.getOrInsert] at hfind
    cases hold : s.job.jobInfo.ownerInfoMap.find? fileid with
    | some l =>
      rw [hold] at hfind
      exact heard_of_find? hfind hp
    | none =>
      simp only [hold, SortedMap.find?_insert] at hfind
      split_ifs at hfind
      · obtain rfl := Option.some.inj hfind
        cases hp
      · exact heard_of_find? hfind hp
  unfold OwnerSearch.request
  split
  · exact (Sought.refl s a).abort
  · dsimp only
    split_ifs
    · exact hset.abort
    · split
      · exact hset.leave
      · exact hset.of_eq rfl rfl rfl rfl rfl

theorem sought_reply (s : OwnerSearch) (a : Action) (fileid : String) (r : Except Exception (Retcode × Option QueryPeerReply)) :
    Sought s a (s.reply fileid r) := by
  unfold OwnerSearch.reply
  split
  · exact (Sought.refl s a).abort
  · rename_i ret res hres
    split_ifs
    · exact (Sought.refl s a).leave
    · refine Sought.of_eq (t := s.setOwners (s.job.jobInfo.ownerInfoMap.insert fileid res)) (sought_setOwners ?_) rfl rfl rfl rfl
        rfl
      intro fileid' infoList hfind p hp
      rw [SortedMap.find?_insert] at hfind
      split_ifs at hfind
      · obtain rfl := Option.some.inj hfind
        exact .inr (.inl (bitmap_of_requestClients hres p hp))
      · exact heard_of_find? hfind hp

/-- An entry of the list in which a bitmap has been set. -/
theorem mem_setBitmap {clientid : String} {b : Bitmap} {l l' : List FileOwnerInfo} (h : setBitmap clientid b l = some l')
    {p : FileOwnerInfo} (hp : p ∈ l') : p ∈ l ∨ p.clientid = clientid ∧ p.bitmap = b := by
  induction l generalizing l' with
  | nil => cases h
  | cons q qs ih =>
    rw [setBitmap] at h
    split_ifs at h with he
    · obtain rfl := Option.some.inj h
      obtain rfl | hp := List.mem_cons.mp hp
      · exact .inr ⟨he, rfl⟩
      · exact .inl (List.mem_cons_of_mem _ hp)
    · obtain ⟨qs', hqs, rfl⟩ := Option.map_eq_some_iff.mp h
      obtain rfl | hp := List.mem_cons.mp hp
      · exact .inl List.mem_cons_self
      · exact (ih hqs hp).imp_left (List.mem_cons_of_mem _)

/-- What `shake_hand` returns is the message of the peer. -/
theorem message_of_exchange {m : LocalSockManager} {clientid : String} {x : Exchange} {sh : ShakeHand}
    (h : (exchange m clientid x).2 = .ok (.ok sh)) : x.message = some sh := by
  have houtcome : x.outcome = .ok (.ok sh) := by
    unfold exchange at h
    split_ifs at h
    split at h
    · cases h
    · cases h
    · exact h
  unfold Exchange.outcome at houtcome
  cases hsent : x.sent with
  | error e => rw [hsent] at houtcome; cases houtcome
  | ok ret =>
    cases hreceived : x.received with
    | error e => by_cases hret : ret = .errorOk <;> simp [hsent, hreceived, hret, bind, Except.bind, pure, Except.pure] at houtcome
    | ok ret' =>
      cases hmessage : x.message with
      | none => by_cases hret : ret = .errorOk <;> by_cases hret' : ret' = .errorOk <;>
          simp [hsent, hreceived, hmessage, hret, hret', bind, Except.bind, pure, Except.pure, throw, throwThe, MonadExceptOf.throw] at houtcome
      | some peer => by_cases hret : ret = .errorOk <;> by_cases hret' : ret' = .errorOk <;>
          simp_all [bind, Except.bind, pure, Except.pure]

/-- The exchange of messages changes no bit, and what it returns has been said in the message. -/
theorem peerInfo_spec (info : JobInfo) (m : LocalSockManager) (fileid clientid : String) (x : Exchange) :
    BitsKept info (peerInfo info m fileid clientid x).1.1 ∧
      ∀ peer, (peerInfo info m fileid clientid x).2 = .ok (.ok peer) → ∃ sh, x.message = some sh ∧ sh.info = peer := by
  unfold peerInfo
  split
  · exact ⟨.refl info, by rintro peer ⟨⟩⟩
  rcases hb : info.downloadInfo.bitmapAt fileid with ⟨bitmap, d⟩
  have hkept := bitsKept_of_bitmapAt hb
  dsimp only
  split
  · exact ⟨hkept, by rintro peer ⟨⟩⟩
  split
  · exact ⟨hkept, by rintro peer ⟨⟩⟩
  · exact ⟨hkept, by rintro peer ⟨⟩⟩
  · rename_i sh hx
    refine ⟨hkept, fun peer h => ⟨sh, message_of_exchange (by rw [hx]), ?_⟩⟩
    dsimp only at h
    split_ifs at h
    · cases h
    · exact Except.ok.inj (Except.ok.inj h)

/-- `shake_hand` changes at most the lists, after the exchange. -/
theorem shakeHand_eq_peerInfo (info : JobInfo) (m : LocalSockManager) (fileid clientid : String) (x : Exchange) :
    ∃ owners, (OwnerSearch.shakeHand info m fileid clientid x).1.1 =
      { (peerInfo info m fileid clientid x).1.1 with ownerInfoMap := owners } := by
  unfold OwnerSearch.shakeHand
  split
  · rename_i hr
    exact ⟨_, by rw [hr]⟩
  · rename_i hr
    exact ⟨_, by rw [hr]⟩
  · rename_i peer hr
    rw [hr]
    split
    · exact ⟨_, rfl⟩
    · split <;> exact ⟨_, rfl⟩

/-- `shake_hand` changes no bit. -/
theorem bitsKept_shakeHand (info : JobInfo) (m : LocalSockManager) (fileid clientid : String) (x : Exchange) :
    BitsKept info { (OwnerSearch.shakeHand info m fileid clientid x).1.1 with ownerInfoMap := info.ownerInfoMap } := by
  obtain ⟨owners, howners⟩ := shakeHand_eq_peerInfo info m fileid clientid x
  obtain ⟨⟨⟨bitmaps, heq⟩, hbit⟩, -⟩ := peerInfo_spec info m fileid clientid x
  rw [howners]
  exact ⟨⟨bitmaps, by rw [heq]⟩, hbit⟩

/-- What a reply that is taken in leaves. -/
theorem sought_takeIn {fileid : String} {p : FileOwnerInfo} (hp : p ∈ s.owners fileid)
    (hgreeted : s.greeted = some (fileid, p.clientid)) (x : Exchange) :
    Sought s (.shakeHand x) (s.takeIn fileid p.clientid x) where
  queue := rfl
  tasks := rfl
  disk := rfl
  isRunning := rfl
  info := bitsKept_shakeHand _ _ _ _ _
  owners := by
    intro fileid' q hq
    obtain ⟨l, hfind, hmem⟩ : ∃ l, s.job.jobInfo.ownerInfoMap.find? fileid = some l ∧ p ∈ l := by
      rw [owners] at hp
      cases hfind : s.job.jobInfo.ownerInfoMap.find? fileid with
      | none => rw [hfind] at hp; cases hp
      | some l => rw [hfind] at hp; exact ⟨l, rfl, hp⟩
    have hshake := ownerInfoMap_shakeHand s.job.sockManager x hfind hmem
    have hsaid := (peerInfo_spec s.job.jobInfo s.job.sockManager fileid p.clientid x).2
    rw [owners] at hq
    change q ∈ ((OwnerSearch.shakeHand s.job.jobInfo s.job.sockManager fileid p.clientid x).1.1.ownerInfoMap.find? fileid').getD [] at hq
    rcases hr : (peerInfo s.job.jobInfo s.job.sockManager fileid p.clientid x).2 with e | ret | peer
    · rw [hr] at hshake
      rw [show _ = s.job.jobInfo.ownerInfoMap from hshake] at hq
      exact .inl hq
    · rw [hr] at hshake
      rw [show _ = s.job.jobInfo.ownerInfoMap from hshake] at hq
      exact .inl hq
    · rw [hr] at hshake
      obtain ⟨l', hset, howners⟩ := hshake
      rw [howners, SortedMap.find?_insert] at hq
      split_ifs at hq with he
      · subst he
        obtain hq | ⟨hid, hbitmap⟩ := mem_setBitmap hset hq
        · exact heard_of_find? hfind hq
        · obtain ⟨sh, hmessage, rfl⟩ := hsaid peer hr
          exact .inr (.inr ⟨x, sh, rfl, hmessage, by rw [hgreeted, hid], hbitmap⟩)
      · exact .inl hq

/-- **What a step of the search does.** -/
theorem step_sought (ha : ∀ b, a ≠ .job b) (h : step sha1 s a = some s') : Sought s a s' := by
  cases a with
  | job b => exact absurd rfl (ha b)
  | request =>
    simp only [step] at h
    split at h
    · obtain rfl := Option.some.inj h
      exact sought_request s _ _
    · cases h
  | reply r =>
    simp only [step] at h
    split at h
    · obtain rfl := Option.some.inj h
      exact sought_reply s _ _ r
    · cases h
  | connect conn =>
    simp only [step] at h
    split at h
    · obtain ⟨p, -, rfl⟩ := Option.map_eq_some_iff.mp h
      exact (Sought.refl s _).of_eq rfl rfl rfl rfl rfl
    · cases h
  | shakeHand x =>
    simp only [step] at h
    split at h
    · rename_i fileid i hplace
      obtain ⟨p, hp, rfl⟩ := Option.map_eq_some_iff.mp h
      have hgreeted : s.greeted = some (fileid, p.clientid) := by simp only [greeted, hplace, hp, Option.map_some]
      have htaken := sought_takeIn (List.mem_of_getElem? hp) hgreeted x
      unfold greet
      split
      · exact htaken.abort
      · exact htaken.next _ _
    · cases h

/-- The search leaves `run` where it is, or lets it go on, or ends it. -/
theorem pc_step_search (ha : ∀ b, a ≠ .job b) (h : step sha1 s a = some s') :
    s'.job.pc = s.job.pc ∨ s'.job.pc = returned s.job.pc ∨ s'.job.pc = .aborted := by
  have hnext : ∀ (t : OwnerSearch) (fileid : String) (i : ℕ), t.job.pc = s.job.pc →
      (t.next fileid i).job.pc = s.job.pc ∨ (t.next fileid i).job.pc = returned s.job.pc := by
    intro t fileid i hpc
    unfold OwnerSearch.next
    split_ifs
    · exact .inl hpc
    · exact .inr (congrArg returned hpc)
  cases a with
  | job b => exact absurd rfl (ha b)
  | request =>
    simp only [step] at h
    split at h
    · obtain rfl := Option.some.inj h
      unfold OwnerSearch.request
      split
      · exact .inr (.inr rfl)
      · dsimp only
        split_ifs
        · exact .inr (.inr rfl)
        · split
          · exact .inr (.inl rfl)
          · exact .inl rfl
    · cases h
  | reply r =>
    simp only [step] at h
    split at h
    · obtain rfl := Option.some.inj h
      unfold OwnerSearch.reply
      split
      · exact .inr (.inr rfl)
      · split_ifs
        · exact .inr (.inl rfl)
        · exact .inl rfl
    · cases h
  | connect conn =>
    simp only [step] at h
    split at h
    · obtain ⟨p, -, rfl⟩ := Option.map_eq_some_iff.mp h
      exact .inl rfl
    · cases h
  | shakeHand x =>
    simp only [step] at h
    split at h
    · rename_i fileid i _
      obtain ⟨p, -, rfl⟩ := Option.map_eq_some_iff.mp h
      unfold greet
      split
      · exact .inr (.inr rfl)
      · exact (hnext (s.takeIn fileid p.clientid x) fileid i rfl).imp_right .inl
    · cases h

/-! ### What a step keeps -/

/-- A step of a job or of its search only adds to what the job has. -/
theorem step_advances (h : step sha1 s a = some s') : s.job.jobInfo.Advances s'.job.jobInfo := by
  by_cases ha : ∃ b, a = .job b
  · obtain ⟨b, rfl⟩ := ha
    obtain ⟨j, hj, rfl, -⟩ := step_job h
    exact Job.step_advances hj
  · obtain ⟨⟨bitmaps, hinfo⟩, hbit⟩ := (step_sought (not_exists.mp ha) h).info
    have hadv := JobInfo.Advances.of_bitsKept ⟨⟨bitmaps, hinfo⟩, hbit⟩
    exact ⟨hadv.fileidlist, hadv.localFileInfo, hadv.torrentInfo, hadv.removed, hadv.bit⟩

/-- And it makes or removes no bit. -/
theorem step_sameBits (h : step sha1 s a = some s') : SameBits s.job.jobInfo s'.job.jobInfo := by
  by_cases ha : ∃ b, a = .job b
  · obtain ⟨b, rfl⟩ := ha
    obtain ⟨j, hj, rfl, -⟩ := step_job h
    exact Job.step_sameBits hj
  · exact fun fileid c => congrArg Option.isSome ((step_sought (not_exists.mp ha) h).info.2 fileid c)

/-- **The bits stay backed**, if no copy is made over a file that chunks are downloaded to. -/
theorem step_backing (hs : Job.Backing sha1 s.job) (hspares : ∀ b, a = .job b → s.job.SparesFiles b)
    (h : step sha1 s a = some s') : Job.Backing sha1 s'.job := by
  by_cases ha : ∃ b, a = .job b
  · obtain ⟨b, rfl⟩ := ha
    obtain ⟨j, hj, rfl, -⟩ := step_job h
    exact Job.step_backing hs (hspares b rfl) hj
  · have hsought := step_sought (not_exists.mp ha) h
    have hadv := JobInfo.Advances.of_bitsKept hsought.info
    exact hs.congr hadv.torrentInfo hadv.localFileInfo hsought.info.2 hsought.disk hsought.tasks
      (pc_step_search (not_exists.mp ha) h)

/-- **What is believed is what has been said.** If `has` says what the reply says that a step takes in, then
the step keeps what is believed. -/
theorem step_believes {has : String → String → ℕ → Prop} (hs : Job.Believes has s.job) (hbacking : Job.Backing sha1 s.job)
    (hsaid : ∀ x sh fileid clientid, a = .shakeHand x → x.message = some sh → s.greeted = some (fileid, clientid) →
      ∀ c, (bitmapOf sh.info)[c]? = some true → has clientid fileid c)
    (h : step sha1 s a = some s') : Job.Believes has s'.job := by
  by_cases ha : ∃ b, a = .job b
  · obtain ⟨b, rfl⟩ := ha
    obtain ⟨j, hj, rfl, -⟩ := step_job h
    refine Job.step_believes hs hbacking.fileChecked (fun found he => ?_) hj
    subst he
    have hout : s.place = .outside ∧ wanted s.job = none := by
      simp only [step] at h
      split_ifs at h with hout
      exact hout
    rw [show s.job.step sha1 (.run (.owners found)) = none from runStep_owners_eq_none hout.2 found] at hj
    cases hj
  · have hsought := step_sought (not_exists.mp ha) h
    have hpc : s'.job.pc.held = s.job.pc.held ∧ s'.job.pc.fetching = s.job.pc.fetching ∨
        s'.job.pc.held = none ∧ s'.job.pc.fetching = none := by
      obtain hpc | hpc | hpc := pc_step_search (not_exists.mp ha) h
      · exact .inl (by simp only [hpc, and_self])
      · obtain ⟨hheld, hfetching, -⟩ := returned_keeps s.job.pc
        exact .inl (by simp only [hpc, hheld, hfetching, and_self])
      · exact .inr (by rw [hpc]; exact ⟨rfl, rfl⟩)
    constructor
    · intro fileid infoList hfind p hp c hc
      obtain hold | hnil | ⟨x, sh, hshake, hmessage, hgreeted, hbitmap⟩ :=
        hsought.owners fileid p (by rwa [owners, hfind])
      · rw [owners] at hold
        cases hbefore : s.job.jobInfo.ownerInfoMap.find? fileid with
        | none => rw [hbefore] at hold; cases hold
        | some l => exact hs.owners fileid l hbefore p (by rwa [hbefore] at hold) c hc
      · rw [hnil] at hc
        cases hc
      · exact hsaid x sh fileid p.clientid hshake hmessage hgreeted c (hbitmap ▸ hc)
    · rw [hsought.queue]
      exact hs.queue
    · intro chunk hchunk
      obtain ⟨hsame, -⟩ | ⟨hnone, -⟩ := hpc
      · exact hs.held chunk (hsame ▸ hchunk)
      · rw [hnone] at hchunk
        cases hchunk
    · intro chunk peer hpeer
      obtain ⟨-, hsame⟩ | ⟨-, hnone⟩ := hpc
      · exact hs.fetching chunk peer (hsame ▸ hpeer)
      · rw [hnone] at hpeer
        cases hpeer
    · rw [hsought.tasks]
      exact hs.tasks

end OwnerSearch

end CoolDown
