import CoolDown.Client.JobExit

/-!
# A task that cannot be started

When `run` starts a task it has taken a chunk out of the queue and a socket out of the pool.
A task that has started gives both back, whether it fails or not: `onFailed` queues the chunk
again, `onFinished` returns the socket. For a task that could not be started there is no
notification, and the `catch` of `run` only writes to the log: the chunk is in no place any more,
and its socket stays `USED`.

## The model

`LosesChunk` lists the steps that lose a chunk: a start that throws, a call of `run` that throws
while it holds one, and a report of a failed task that throws.

## What is proved

* `step_startInv`: a step that loses no chunk leaves the chunk of every clear bit in some place.
* `lost_of_losesChunk`: after any other step a chunk whose bit is clear is in none.
* `start_loses_nothing_iff`: a run loses no chunk if and only if none of its steps is listed.
-/

namespace CoolDown

open Library ChunkSelector

namespace Job

/-- The steps that lose a chunk. -/
inductive LosesChunk (j : Job) : Action → String × ℕ → Prop where
  /-- Starting the task throws. -/
  | start (chunk : ChunkInfo) (peer : String) (sock : Sock) (fileInfo : Torrent.File)
      (hpc : j.pc = .startTask chunk peer sock fileInfo) : LosesChunk j (.run .throws) chunk.item
  /-- `run` throws while it holds a chunk. -/
  | throws (ev : RunEvent) (chunk : ChunkInfo) (hheld : j.pc.held = some chunk) (hthrows : j.ThrowsAt j.pc ev) :
      LosesChunk j (.run ev) chunk.item
  /-- `onFailed` throws. -/
  | onFailed (i : ℕ) (t : DownloadTask) (e : Exception) (hi : j.tasks[i]? = some t)
      (he : reportFailedChunk j.jobInfo j.queue t.chunkPos t.fileid = .error e) : LosesChunk j (.onFailed i) t.item

/-- A chunk of a needed file whose bit is clear. -/
def IsClear (info : JobInfo) (x : String × ℕ) : Prop :=
  x.1 ∈ info.fileidlist ∧ x.2 < chunkCountOf info x.1 ∧ info.downloadInfo.bit x.1 x.2 = some false

variable {sha1 : Bytes → String} {j j' : Job} {a : Action} {x : String × ℕ}

/-- A chunk that is clear now was clear before. -/
theorem IsClear.of_advances {info info' : JobInfo} (h : IsClear info' x) (ha : info.Advances info') :
    IsClear info x := by
  obtain ⟨hf, hlt, hbit⟩ := h
  rw [chunkCountOf, ha.torrentInfo] at hlt
  exact ⟨ha.fileidlist ▸ hf, hlt, ha.bit_clear hbit⟩

/-- What holds of an activation of `run` after `init_queue`: whatever is in some place is done, or is clear. -/
structure Active (j : Job) : Prop where
  onePlace : j.OnePlace
  known : ∀ x, 0 < j.pool.places x → j.jobInfo.downloadInfo.bit x.1 x.2 ≠ some true → IsClear j.jobInfo x

/-- No chunk is lost. -/
def NoneLost (j : Job) : Prop := ∀ x, IsClear j.jobInfo x → 0 < j.pool.places x

/-! ### Steps -/

theorem OnePlace.ne_initQueue (hj : j.OnePlace) : j.pc ≠ .initQueue := by
  intro hpc
  have hfilled := hj.queueFilled
  rw [hpc] at hfilled
  cases hfilled

/-- No step puts a chunk in more places. -/
theorem places_step_le (hj : j.OnePlace) (ha : a ≠ .start) (h : step sha1 j a = some j') (x : String × ℕ) :
    j'.pool.places x ≤ j.pool.places x := by
  obtain ⟨l, hstep, -⟩ := step_pool hj.sound (.inl hj.ne_initQueue) ha h
  exact hstep.places_le x

/-- Every step keeps that. -/
theorem step_active (hj : j.Active) (ha : a ≠ .start) (h : step sha1 j a = some j') : j'.Active := by
  refine ⟨(step_onePlace hj.onePlace ha h).1, fun x hx hbit => ?_⟩
  have hadv := step_advances h
  have hkeep := (hadv.bit x.1 x.2).resolve_right hbit
  obtain ⟨hf, hlt, hclear⟩ :=
    hj.known x (hx.trans_le (places_step_le hj.onePlace ha h x)) (fun hset => hbit (hkeep.trans hset))
  refine ⟨hadv.fileidlist.symm ▸ hf, ?_, hkeep.trans hclear⟩
  rwa [chunkCountOf, hadv.torrentInfo]

/-- When `run` has thrown, it holds nothing, and all else is as it was. -/
theorem pool_of_aborted {ev : RunEvent} (hj : j.OnePlace) (hpc : j'.pc = .aborted) (h : RunStep j ev j') :
    j'.pool = { j.pool with held := none } ∧ j'.jobInfo = j.jobInfo := by
  cases h with
  | abort m => exact ⟨rfl, rfl⟩
  | initThrows info hinit => exact absurd hinit hj.ne_initQueue
  | move pc owners m hstage hin =>
    obtain rfl : pc = .aborted := hpc
    rcases hin with hin | hin <;> cases hin
  | take i chunk pc hget hi hheld hstage =>
    obtain rfl : pc = .aborted := hpc
    cases hstage
  | init | empty | putBack | launch | drop | noFile | leave | joined | copied | ended => cases hpc

/-- A step that is not listed does not lose a clear chunk. -/
theorem places_pos_of_step (hj : j.OnePlace) (ha : a ≠ .start) (hkeeps : ∀ x, ¬ LosesChunk j a x)
    (h : step sha1 j a = some j') (hclear : j.jobInfo.downloadInfo.bit x.1 x.2 = some false)
    (hplaces : 0 < j.pool.places x) : 0 < j'.pool.places x := by
  have hdrop : ¬ Drops j a x := by
    rintro (⟨chunk, peer, sock, fileInfo, hpc⟩ | ⟨i, t, e, hi, he⟩ | ⟨i, t, info, e, hi, he⟩)
    · exact hkeeps _ (.start chunk peer sock fileInfo hpc)
    · exact hkeeps _ (.onFailed i t e hi he)
    · -- the chunk of a report that throws has no bit
      cases (bit_of_reportSuccessChunk_error he).symm.trans hclear
  by_cases hrun : ∃ ev, a = .run ev
  · obtain ⟨ev, rfl⟩ := hrun
    have hrunStep := runStep_cases h
    by_cases hpc : j'.pc = .aborted
    · -- it holds nothing, or it would lose that
      have hheld : j.pc.held = none := by
        cases hheld : j.pc.held with
        | none => rfl
        | some chunk => exact absurd (.throws ev chunk hheld ((runStep_throws h).mp hpc)) (hkeeps _)
      have hpool : j.pool = { j.pool with held := none } := pool_eq rfl (congrArg _ hheld) rfl
      rwa [(pool_of_aborted hj hpc hrunStep).1, ← hpool]
    · obtain ⟨l, hstep, hdrops⟩ := runStep_pool hrunStep hj.ne_initQueue hj.sound.fileChecked
      exact hstep.places_pos (fun hl => hdrop ((hdrops x hl).resolve_left hpc)) hplaces
  · obtain ⟨l, hstep, hdrops⟩ := step_pool_of_others hj.sound (not_exists.mp hrun) ha h
    exact hstep.places_pos (fun hl => hdrop (hdrops x hl)) hplaces

/-- A step that is not listed keeps that no chunk is lost. -/
theorem step_noneLost (hj : j.Active) (hnone : j.NoneLost) (ha : a ≠ .start) (hkeeps : ∀ x, ¬ LosesChunk j a x)
    (h : step sha1 j a = some j') : j'.NoneLost := by
  intro x hx
  have hclear := hx.of_advances (step_advances h)
  exact places_pos_of_step hj.onePlace ha hkeeps h hclear.2.2 (hnone x hclear)

/-- A step that is listed loses its chunk: it is a step of the pool, and no bit changes. -/
theorem pool_of_losesChunk (hj : j.OnePlace) (hlost : LosesChunk j a x) (h : step sha1 j a = some j') :
    WorkPool.Step j.pool (some x) j'.pool ∧ j'.jobInfo = j.jobInfo := by
  have hheld : ∀ {chunk : ChunkInfo}, j.pc.held = some chunk → j'.pool = { j.pool with held := none } →
      WorkPool.Step j.pool (some chunk.item) j'.pool := by
    intro chunk hheld hpool
    exact (WorkPool.Step.drop j.pool.done chunk.item j.pool.queued j.pool.flying).of_eq
      (pool_eq rfl (congrArg _ hheld) rfl) hpool
  cases hlost with
  | start chunk peer sock fileInfo hpc =>
    rw [step, hpc, runStep] at h
    split_ifs at h
    cases h
    exact ⟨hheld (by rw [hpc]; rfl) rfl, rfl⟩
  | throws ev chunk hchunk hthrows =>
    obtain ⟨hpool, hinfo⟩ := pool_of_aborted hj ((runStep_throws h).mpr hthrows) (runStep_cases h)
    exact ⟨hheld hchunk hpool, hinfo⟩
  | onFailed i t e hi he =>
    obtain ⟨t', hi', hphase, rfl⟩ := step_onFailed h
    obtain rfl : t = t' := Option.some.inj (hi.symm.trans hi')
    have hlive : t.live := by
      simp [DownloadTask.live, hphase, hj.sound.reportedOver.not_reported hi (by rw [hphase]; rfl)]
    have heq : j.onFailed i t = { j with tasks := j.tasks.set i { t with phase := .died } } := by
      rw [Job.onFailed, he]
    rw [heq]
    exact ⟨(WorkPool.Step.lose j.pool.done t.item j.pool.queued j.pool.held _).of_eq
      (pool_eq rfl rfl (flying_eq_cons_set hi hlive (by simp [DownloadTask.live]))) (pool_eq rfl rfl rfl), rfl⟩

/-- The chunk it loses is clear, and is nowhere. -/
theorem lost_of_losesChunk (hj : j.Active) (hlost : LosesChunk j a x) (h : step sha1 j a = some j') :
    IsClear j'.jobInfo x ∧ j'.pool.places x = 0 := by
  obtain ⟨hstep, hinfo⟩ := pool_of_losesChunk hj.onePlace hlost h
  have hle := hj.onePlace.places_le x
  have heq := hstep.places_of_lost
  refine ⟨hinfo.symm ▸ hj.known x (by omega) fun hset => ?_, by omega⟩
  have hdone : x ∈ j'.pool.done := by
    show j'.jobInfo.downloadInfo.bit x.1 x.2 = some true
    rwa [hinfo]
  have := WorkPool.places_pos_of_mem_done hdone
  omega

/-- A chunk that is clear and nowhere stays so, or what was nowhere is somewhere. -/
theorem not_noneLost_step (hj : j.OnePlace) (hlost : ¬ j.NoneLost) (ha : a ≠ .start) (h : step sha1 j a = some j') :
    ¬ j'.NoneLost := by
  intro hnone
  apply hlost
  intro x hx
  have hadv := step_advances h
  obtain ⟨hf, hlt, hbit⟩ := hx
  refine lt_of_lt_of_le ?_ (places_step_le hj ha h x)
  rcases hadv.bit x.1 x.2 with hkeep | hset
  · refine hnone x ⟨hadv.fileidlist.symm ▸ hf, ?_, hkeep.trans hbit⟩
    rwa [chunkCountOf, hadv.torrentInfo]
  · exact WorkPool.places_pos_of_mem_done (show x ∈ j'.pool.done from hset)

/-! ### Runs -/

/-- The places a chunk can be in. -/
theorem places_pos_iff {fileid : String} {pos : ℕ} : 0 < j.pool.places (fileid, pos) ↔
    j.jobInfo.downloadInfo.bit fileid pos = some true ∨ (fileid, pos) ∈ j.queue.map ChunkInfo.item ∨
      j.pc.held.map ChunkInfo.item = some (fileid, pos) ∨ (fileid, pos) ∈ liveItems j.tasks := by
  rw [places_pool, places, ← List.count_pos_iff, ← List.count_pos_iff]
  split_ifs with hset hheld hheld
  · exact iff_of_true (by omega) (.inl hset)
  · exact iff_of_true (by omega) (.inl hset)
  · exact iff_of_true (by omega) (.inr (.inr (.inl hheld)))
  · simp only [hset, hheld, false_or]
    omega

/-- After `init_queue` what is queued is what is clear. -/
theorem active_initQueue (hs : j.Sound) (hidle : j.NoTaskInFlight) (hpc : j.pc = .initQueue)
    (h : step sha1 j (.run .go) = some j') (hok : j'.pc = .readRemoved) : j'.Active ∧ j'.NoneLost := by
  have hone := onePlace_initQueue hs hidle hpc h hok
  obtain ⟨queue, hinit, rfl⟩ := step_initQueue hpc h hok
  have hqueued : ∀ x : String × ℕ, x ∈ queue.map ChunkInfo.item ↔ IsClear j.jobInfo x := by
    rintro ⟨fileid, pos⟩
    rw [← List.count_pos_iff, count_initQueue hinit]
    split_ifs with hclear
    · exact iff_of_true Nat.one_pos hclear
    · exact iff_of_false (lt_irrefl 0) hclear
  refine ⟨⟨hone, ?_⟩, ?_⟩
  · rintro ⟨fileid, pos⟩ hplaces hbit
    rcases places_pos_iff.mp hplaces with hset | hmem | hheld | hflying
    · exact absurd hset hbit
    · exact (hqueued _).mp hmem
    · cases hheld
    · rw [hidle.liveItems_eq] at hflying
      cases hflying
  · rintro ⟨fileid, pos⟩ hclear
    exact places_pos_iff.mpr (.inr (.inl ((hqueued _).mpr hclear)))

variable (sha1) in
/-- A start that throws gives back what it was for: in the next iteration the chunk is queued
and the socket is idle. -/
def GivesBack (j : Job) (a : Action) : Prop :=
  ∀ chunk peer sock fileInfo j', j.pc = .startTask chunk peer sock fileInfo → a = .run .throws →
    step sha1 j a = some j' → chunk.item ∈ j'.queue.map ChunkInfo.item ∧ j'.sockManager.Holds peer sock .idle

/-- **When starting a task loses nothing.** Take any activation of `run` in a run of a new job, after
`init_queue`. Its steps all lose no chunk (no start of a task throws, nor
any other call while `run` holds a chunk, nor the report of a failed task) if and only if every
start that throws gives back its chunk and its socket, and the chunk of every clear bit is queued,
held by `run` or in flight. The chunk of a start that throws is nowhere for ever after. -/
theorem start_loses_nothing_iff {info : JobInfo} {m : LocalSockManager} {disk : Disk} {j₀ j₁ j₂ j : Job}
    {earlier before after : List Action} (h₀ : exec (step sha1) (.new info m disk) earlier = some j₀)
    (hbefore : ∀ a ∈ before, a ≠ .start) (h₁ : exec (step sha1) j₀ (.start :: before) = some j₁)
    (hpc : j₁.pc = .initQueue) (h₂ : step sha1 j₁ (.run .go) = some j₂) (hok : j₂.pc = .readRemoved)
    (hafter : ∀ a ∈ after, a ≠ .start) (hrun : exec (step sha1) j₂ after = some j) :
    Always (step sha1) (fun k a => ∀ x, ¬ LosesChunk k a x) j₂ after ↔
      Always (step sha1) (GivesBack sha1) j₂ after ∧
      ∀ fileid ∈ j.jobInfo.fileidlist, ∀ pos < chunkCountOf j.jobInfo fileid,
        j.jobInfo.downloadInfo.bit fileid pos = some false → (fileid, pos) ∈ j.queue.map ChunkInfo.item ∨
          j.pc.held.map ChunkInfo.item = some (fileid, pos) ∨ (fileid, pos) ∈ liveItems j.tasks := by
  have hidle : j₀.NoTaskInFlight := by
    obtain ⟨k, hstart, -⟩ := exec_cons_eq_some.mp h₁
    refine (run_idle h₀).2 ?_
    rcases (run_idle h₀).1 (step_start hstart).1 with hover | hover <;> (rw [hover]; rfl)
  obtain ⟨hsound, hidle₁⟩ := run_prologue hidle hbefore h₁ hpc
  obtain ⟨hactive, hnone⟩ := active_initQueue hsound hidle₁ hpc h₂ hok
  have hj : j.OnePlace := (run_onePlace hactive.onePlace hafter hrun).1
  have hiff : Always (step sha1) (fun k a => ∀ x, ¬ LosesChunk k a x) j₂ after ↔ (j.OnePlace → j.NoneLost) := by
    refine @always_iff_of_forall_mem _ _ _ (fun k : Job => k.Active ∧ k.NoneLost) (fun k => k.OnePlace → k.NoneLost)
      _ (fun a => a ≠ .start) ?_ (fun hk _ => hk.2) ?_ ?_ _ _ _ hafter hrun ⟨hactive, hnone⟩
    · rintro k a k' ⟨hk, hnone⟩ ha hkeeps h
      exact ⟨step_active hk ha h, step_noneLost hk hnone ha hkeeps h⟩
    · rintro k a k' ⟨hk, hnone⟩ ha hloses h hkept
      obtain ⟨x, hx⟩ := not_forall_not.mp hloses
      obtain ⟨hclear, hzero⟩ := lost_of_losesChunk hk hx h
      have := hkept (step_active hk ha h).onePlace x hclear
      omega
    · intro k a k' hlost ha h hkept
      obtain ⟨hk, hlost⟩ := Classical.not_imp.mp hlost
      exact not_noneLost_step hk hlost ha h (hkept (step_onePlace hk ha h).1)
  constructor
  · intro hkeeps
    refine ⟨hkeeps.mono ?_, fun fileid hf pos hlt hbit => ?_⟩
    · rintro k a hkeeps chunk peer sock fileInfo k' hpc rfl
      exact absurd (.start chunk peer sock fileInfo hpc) (hkeeps _)
    · refine (places_pos_iff.mp (hiff.mp hkeeps hj (fileid, pos) ⟨hf, hlt, hbit⟩)).resolve_left ?_
      simp [hbit]
  · rintro ⟨-, hplaced⟩
    refine hiff.mpr fun _ => ?_
    rintro ⟨fileid, pos⟩ ⟨hf, hlt, hbit⟩
    exact places_pos_iff.mpr (.inr (hplaced fileid hf pos hlt hbit))

/-- The small job up to the start of its task, after `init_queue`. -/
def beforeStart : List Action :=
  [.run .go, .run .go, .run .go, .run (.top 0), .run .go, .run (.conn (.ok none)), .run .go]

/-- `init_queue` is over after these actions of the small job. -/
def afterInit : List Action := [.start, .run .go, .run .go, .run .go]

/-- A start that throws: the chunk of the small job is not queued again and its socket is not idle;
at the end the bit is clear, the chunk is nowhere, and the socket is used. -/
theorem start_throws_loses_chunk :
    (∃ (j j' : Job) (chunk : ChunkInfo) (fileInfo : Torrent.File),
      exec (step oneChunkSha1) oneChunkJob (afterInit ++ beforeStart) = some j ∧
      j.pc = .startTask chunk "p" 0 fileInfo ∧ chunk.item = ("f", 0) ∧
      step oneChunkSha1 j (.run .throws) = some j' ∧ j'.pc = .readRemoved ∧
      chunk.item ∉ j'.queue.map ChunkInfo.item ∧ ¬ j'.sockManager.Holds "p" 0 .idle) ∧
    ∃ k : Job, exec (step oneChunkSha1) oneChunkJob (afterInit ++ beforeStart ++
        [.run .throws, .run .go, .run .go, .run .go, .run (.top 0), .run .go, .run .go]) = some k ∧
      k.pc = .ended ∧ "f" ∈ k.jobInfo.fileidlist ∧ 0 < chunkCountOf k.jobInfo "f" ∧
      k.jobInfo.downloadInfo.bit "f" 0 = some false ∧ k.queue = [] ∧ k.pc.held = none ∧ liveItems k.tasks = [] ∧
      k.sockManager.Holds "p" 0 .used := by
  constructor
  · obtain ⟨j, j', chunk, fileInfo, hrun, hpc, hitem, hstep, hpc', hqueue, hsocks⟩ :
        ∃ (j j' : Job) (chunk : ChunkInfo) (fileInfo : Torrent.File),
          exec (step oneChunkSha1) oneChunkJob (afterInit ++ beforeStart) = some j ∧
          j.pc = .startTask chunk "p" 0 fileInfo ∧ chunk.item = ("f", 0) ∧
          step oneChunkSha1 j (.run .throws) = some j' ∧ j'.pc = .readRemoved ∧ j'.queue = [] ∧
          j'.sockManager.clientSockMap.find? "p" = some [(some 0, .used)] :=
      ⟨_, _, _, _, rfl, rfl, rfl, rfl, rfl, rfl, rfl⟩
    refine ⟨j, j', chunk, fileInfo, hrun, hpc, hitem, hstep, hpc', ?_, ?_⟩
    · rw [hqueue]
      exact List.not_mem_nil
    · rintro ⟨sockList, hfind, hmem⟩
      obtain rfl := Option.some.inj (hsocks.symm.trans hfind)
      cases List.mem_singleton.mp hmem
  · exact ⟨_, rfl, rfl, List.mem_singleton.mpr rfl, Nat.one_pos, rfl, rfl, rfl, rfl, [(some 0, .used)], rfl,
      List.mem_singleton.mpr rfl⟩

/-- When its task is started, the small job has lost nothing. -/
theorem start_loses_nothing_oneChunkJob : ∃ j₂ : Job, exec (step oneChunkSha1) oneChunkJob afterInit = some j₂ ∧
    Always (step oneChunkSha1) (fun k a => ∀ x, ¬ LosesChunk k a x) j₂ (beforeStart ++ [.run .go]) := by
  obtain ⟨j₁, j₂, j, h₁, hpc, h₂, hok, hrun₂, hrun, hids, hcount, hflying⟩ : ∃ j₁ j₂ j : Job,
      exec (step oneChunkSha1) oneChunkJob [.start, .run .go, .run .go] = some j₁ ∧ j₁.pc = .initQueue ∧
      step oneChunkSha1 j₁ (.run .go) = some j₂ ∧ j₂.pc = .readRemoved ∧
      exec (step oneChunkSha1) oneChunkJob afterInit = some j₂ ∧
      exec (step oneChunkSha1) j₂ (beforeStart ++ [.run .go]) = some j ∧ j.jobInfo.fileidlist = ["f"] ∧
      chunkCountOf j.jobInfo "f" = 1 ∧ liveItems j.tasks = [("f", 0)] :=
    ⟨_, _, _, rfl, rfl, rfl, rfl, rfl, rfl, rfl, rfl, rfl⟩
  have hafter : ∀ a ∈ beforeStart ++ [.run .go], a ≠ .start ∧ a ≠ .run .throws := by simp [beforeStart]
  refine ⟨j₂, hrun₂, (start_loses_nothing_iff (exec_nil oneChunkJob) (by simp) h₁ hpc h₂ hok (fun a ha => (hafter a ha).1) hrun).mpr
    ⟨(always_of_forall_mem (fun a ha => (hafter a ha).2) j₂).mono ?_, ?_⟩⟩
  · intro k a hne chunk peer sock fileInfo k' hpc hthrows
    exact absurd hthrows hne
  · intro fileid hf pos hlt hbit
    rw [hids] at hf
    obtain rfl := List.mem_singleton.mp hf
    rw [hcount] at hlt
    obtain rfl : pos = 0 := Nat.lt_one_iff.mp hlt
    rw [hflying]
    exact .inr (.inr (List.mem_singleton.mpr rfl))

end Job

end CoolDown
