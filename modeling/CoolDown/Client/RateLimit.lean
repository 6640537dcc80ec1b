import CoolDown.Client.Traffic

/-!
# The limit for downloads

Before it receives, a task compares the bytes of this second with the limit, and asks for no more than the difference
and than is missing of its chunk. It counts what has come only afterwards, so that another task may have asked for the
same difference in the meantime. And the difference, of 64 bits, is kept in an `int`.

## The model

`Traffic`, where a task `holds` what it has asked for until it has counted what came of it.

## What is proved

* `downloadQuota_pos_iff`, `toInt_downloadQuota`: the difference as an `int`.
* `runTask_held`: a step of a task gives up what it holds, or asks.
* `step_within`: what is held fits into the limit after a step that `Fits`.
* `requests_iff_asks`: when a task asks at all.
* `rate_limit`: the limit is kept in a run of such steps, and the tasks go on below it.
* `limit_passed`: two tasks that ask at once, and one that does not ask.
-/

namespace CoolDown

open Library

namespace DownloadTask

/-- The bytes between the bytes of this second and the limit. -/
def room (d : DownloadInfo) : ℕ := (d.downloadSpeedLimit - d.bytesDownloadThisSecond).toNat

/-- The room, cut down to an `int`, is positive. -/
def Asks (d : DownloadInfo) : Prop := 0 < room d % 2 ^ 32 ∧ room d % 2 ^ 32 < 2 ^ 31

instance (d : DownloadInfo) : Decidable (Asks d) := inferInstanceAs (Decidable (_ ∧ _))

theorem room_eq {d : DownloadInfo} (h : d.bytesDownloadThisSecond ≤ d.downloadSpeedLimit) :
    room d = d.downloadSpeedLimit.toNat - d.bytesDownloadThisSecond.toNat :=
  UInt64.toNat_sub_of_le _ _ h

/-- The quota is the room as an `int`. -/
theorem toInt_downloadQuota (d : DownloadInfo) :
    (downloadQuota d).toInt =
      if room d % 2 ^ 32 < 2 ^ 31 then ((room d % 2 ^ 32 : ℕ) : ℤ) else ((room d % 2 ^ 32 : ℕ) : ℤ) - 2 ^ 32 := by
  have htoInt : (downloadQuota d).toInt = (d.downloadSpeedLimit - d.bytesDownloadThisSecond).toUInt32.toBitVec.toInt := rfl
  rw [htoInt, BitVec.toInt_eq_toNat_cond, UInt32.toNat_toBitVec, UInt64.toNat_toUInt32, room]
  split_ifs <;> first | rfl | omega

/-- It is positive just when something is asked for. -/
theorem downloadQuota_pos_iff (d : DownloadInfo) : ¬ downloadQuota d ≤ 0 ↔ Asks d := by
  have hlt := Nat.mod_lt (room d) (show 2 ^ 32 > 0 by decide)
  rw [Int32.le_iff_toInt_le, toInt_downloadQuota, Asks, Int32.toInt_zero]
  split_ifs <;> omega

/-- No more is asked for than there is room. -/
theorem toNat_downloadQuota_le {d : DownloadInfo} (h : Asks d) : (downloadQuota d).toInt.toNat ≤ room d := by
  rw [toInt_downloadQuota, if_pos h.2, Int.toNat_natCast]
  exact Nat.mod_le _ _

/-- What a task may still add. -/
def held : Phase → ℕ
  | .receive _ expect => expect
  | .count _ n => n
  | _ => 0

/-- What is missing of the chunk. -/
def missing (t : DownloadTask) (buf : Bytes) : ℕ := (t.chunkSize - buf.length).toNat

/-- **A step of a task** gives up what it holds as far as it adds it, or asks. -/
theorem runTask_held {sha1 : Bytes → String} {t : DownloadTask} {d d' : DownloadInfo} {disk disk' : Disk}
    {ph ph' : Phase} {ev : Event} (h : t.runTask sha1 d disk ph ev = some (ph', d', disk')) :
    held ph' + adds ph ≤ held ph ∨
      ∃ buf, ph = .quota buf ∧ ev = .ok ∧ Asks d ∧ held ph' ≤ room d ∧ held ph' ≤ t.missing buf := by
  have hadds : ∀ ph, 0 + adds ph ≤ held ph := by
    intro ph
    cases ph <;> simp [adds, held]
  cases runTask_step h with
  | @ask buf hquota =>
    have hasks := (downloadQuota_pos_iff d).mp hquota
    refine .inr ⟨buf, rfl, rfl, hasks, ?_, ?_⟩
    · exact (Int.toNat_le_toNat (min_le_right _ _)).trans (toNat_downloadQuota_le hasks)
    · exact Int.toNat_le_toNat (min_le_left _ _)
  | receive hlen => exact .inl hlen
  | _ => exact .inl (hadds _)

end DownloadTask

namespace Traffic

open DownloadTask (Asks held room missing)

variable {sha1 : Bytes → String} {percentage : Bitmap → Int32} {trackerAddress : String}

/-- What all the tasks may still add. -/
def held (s : Traffic) : ℕ := (s.downloads.map fun t => DownloadTask.held t.phase).sum

/-- Adding to a number that does not wrap around. -/
theorem toNat_add_ofNat {x : UInt64} {n : ℕ} (h : x.toNat + n < 2 ^ 64) : (x + UInt64.ofNat n).toNat = x.toNat + n := by
  rw [UInt64.toNat_add, UInt64.toNat_ofNat', Nat.mod_eq_of_lt (show n < 2 ^ 64 by omega), Nat.mod_eq_of_lt h]

/-- The limit is kept, whatever comes of what has been asked for. -/
def Within (s : Traffic) : Prop := s.d.bytesDownloadThisSecond.toNat + s.held ≤ s.d.downloadSpeedLimit.toNat

/-- A task that is about to ask does so while no other holds anything, or there is room for all that is missing of
its chunk. -/
def FitsAt (s : Traffic) (t : DownloadTask) : DownloadTask.Phase → Prop
  | .quota buf => Asks s.d →
      s.held = 0 ∨ s.d.bytesDownloadThisSecond.toNat + s.held + t.missing buf ≤ s.d.downloadSpeedLimit.toNat
  | _ => True

instance (s : Traffic) (t : DownloadTask) (ph : DownloadTask.Phase) : Decidable (s.FitsAt t ph) :=
  match ph with
  | .quota _ => inferInstanceAs (Decidable (_ → _ ∨ _))
  | .request | .reply | .loop _ | .readRemoved _ | .readPaused _ | .waitPause _ | .speed _ | .waitSpeed _
  | .receive _ _ | .count _ _ | .verify _ | .write _ | .threw | .ended | .finished | .died => isTrue trivial

/-- So does the task whose step it is, if it is one. -/
def Fits (s : Traffic) : Action → Prop
  | .download i _ => ∀ t ∈ s.downloads[i]?, s.FitsAt t t.phase
  | _ => True

instance (s : Traffic) (a : Action) : Decidable (s.Fits a) :=
  match a with
  | .download i _ => inferInstanceAs (Decidable (∀ t ∈ s.downloads[i]?, _))
  | .collect _ | .upload _ _ | .beginDownload _ | .beginUpload _ | .rest _ => isTrue trivial

variable {s s' : Traffic} {a : Action}

/-- The collector sets the bytes of this second to zero at most. -/
theorem collect_download (s : Traffic) (isRunning : Bool) :
    (s.collect percentage trackerAddress isRunning).downloads = s.downloads ∧
      (s.collect percentage trackerAddress isRunning).d.downloadSpeedLimit = s.d.downloadSpeedLimit ∧
      ((s.collect percentage trackerAddress isRunning).d.bytesDownloadThisSecond = s.d.bytesDownloadThisSecond ∨
        (s.collect percentage trackerAddress isRunning).d.bytesDownloadThisSecond = 0) := by
  obtain ⟨d, disk, collector, downloads, uploads, upload, download⟩ := s
  cases collector with
  | countdown up down =>
    obtain ⟨needToReport, rest, n, hstep⟩ := @Collector.step_countdown percentage trackerAddress isRunning up down d
    rw [collect, hstep]
    exact ⟨rfl, rfl, .inl rfl⟩
  | files up down needToReport rest =>
    obtain ⟨ph, m, infos, hstep, -⟩ :=
      @Collector.step_files percentage trackerAddress isRunning up down needToReport rest d
    rw [collect, hstep]
    exact ⟨rfl, rfl, .inl rfl⟩
  | zeroDownload => exact ⟨rfl, rfl, .inr rfl⟩
  | _ => exact ⟨rfl, rfl, .inl rfl⟩

/-- **What is held stays within the limit.** -/
theorem step_within (hs : s.Within) (hfits : s.Fits a) (h : step sha1 percentage trackerAddress s a = some s') :
    s'.Within := by
  unfold Within at hs ⊢
  cases a with
  | collect isRunning =>
    cases h
    obtain ⟨hdownloads, hlimit, hbytes⟩ := @collect_download percentage trackerAddress s isRunning
    rw [held, hdownloads, hlimit, ← held]
    rcases hbytes with hsame | hzero
    · rw [hsame]
      exact hs
    · rw [hzero, UInt64.toNat_zero]
      omega
  | download i ev =>
    rw [step] at h
    split at h
    · cases h
    · next t ht =>
      split at h
      · cases h
      · next ph d disk hrun =>
        obtain rfl := DownloadTask.runTask_adds hrun
        cases h
        have hsum := sum_map_set (fun t => DownloadTask.held t.phase) ht { t with phase := ph }
        have hlimit := s.d.downloadSpeedLimit.toNat_lt
        simp only at hsum
        simp only [held] at hs ⊢
        rcases DownloadTask.runTask_held hrun with hgives | ⟨buf, hquota, rfl, hasks, hroom, hmissing⟩
        · rw [toNat_add_ofNat (by omega)]
          omega
        · have hle : s.d.bytesDownloadThisSecond ≤ s.d.downloadSpeedLimit :=
            UInt64.le_iff_toNat_le.mpr ((Nat.le_add_right _ _).trans hs)
          have hfit := hfits t ht
          rw [hquota] at hfit hsum ⊢
          have hfit := hfit hasks
          rw [DownloadTask.room_eq hle] at hroom
          simp only [held] at hfit
          simp only [DownloadTask.held, DownloadTask.adds] at hsum hfit hroom hmissing ⊢
          rw [toNat_add_ofNat (by omega)]
          omega
  | upload i ev =>
    rw [step] at h
    split at h
    · cases h
    · split at h
      · cases h
      · next hrun =>
        obtain rfl := UploadTask.runTask_adds hrun
        cases h
        exact hs
  | beginDownload t =>
    cases h
    rw [held, List.map_append, List.sum_append]
    exact hs
  | beginUpload u => cases h; exact hs
  | rest d => cases h; exact hs

/-- At the start nothing has come and nothing is held. -/
theorem within_start (d : DownloadInfo) (disk : Disk) : (start d disk).Within := by
  rw [Within, held, start, UInt64.toNat_zero, List.map_nil, List.sum_nil]
  exact Nat.zero_le _

/-! ### Asking for bytes -/

/-- A step of a task. -/
theorem step_download {i : ℕ} {t : DownloadTask} {ev : DownloadTask.Event} {ph : DownloadTask.Phase} {d : DownloadInfo}
    {disk : Disk} (ht : s.downloads[i]? = some t) (hrun : t.runTask sha1 s.d s.disk t.phase ev = some (ph, d, disk)) :
    step sha1 percentage trackerAddress s (.download i ev) = some { s with
      d := d
      disk := disk
      downloads := s.downloads.set i { t with phase := ph }
      download := s.download.add (DownloadTask.adds t.phase) } := by
  rw [step, ht]
  simp only [hrun]

/-- From the comparison a task that is left alone comes to the quota, and from there to the call or to the top. -/
theorem exec_quota {i : ℕ} {t : DownloadTask} {buf : Bytes} (ht : s.downloads[i]? = some t) (hph : t.phase = .speed buf)
    (hbelow : s.d.bytesDownloadThisSecond < s.d.downloadSpeedLimit) :
    ∃ u, exec (step sha1 percentage trackerAddress) s [.download i .ok, .download i .ok] = some u ∧
      u.downloads[i]? = some { t with
        phase := if DownloadTask.downloadQuota s.d ≤ 0 then .loop buf
          else .receive buf (min (t.chunkSize - buf.length) (DownloadTask.downloadQuota s.d).toInt).toNat } := by
  have hlt : i < s.downloads.length := (List.getElem?_eq_some_iff.mp ht).1
  have hcompare : t.runTask sha1 s.d s.disk t.phase .ok = some (.quota buf, s.d, s.disk) := by
    rw [hph, DownloadTask.runTask, if_neg (UInt64.lt_asymm hbelow)]
  have htask : (s.downloads.set i { t with phase := .quota buf })[i]? = some { t with phase := .quota buf } :=
    List.getElem?_set_self hlt
  refine ⟨_, exec_cons_eq_some.mpr ⟨_, step_download ht hcompare,
    exec_cons_eq_some.mpr ⟨_, step_download htask rfl, rfl⟩⟩, ?_⟩
  rw [List.set_set]
  exact List.getElem?_set_self hlt

variable (sha1 percentage trackerAddress) in
/-- The task, left alone at the comparison, goes on to ask for at least one byte. -/
def Requests (s : Traffic) (i : ℕ) : Prop :=
  ∃ u t buf expect, exec (step sha1 percentage trackerAddress) s [.download i .ok, .download i .ok] = some u ∧
    u.downloads[i]? = some t ∧ t.phase = .receive buf expect ∧ 1 ≤ expect

/-- **When a task asks.** -/
theorem requests_iff_asks {i : ℕ} {t : DownloadTask} {buf : Bytes} (ht : s.downloads[i]? = some t)
    (hph : t.phase = .speed buf) (hunfinished : (buf.length : ℤ) < t.chunkSize)
    (hbelow : s.d.bytesDownloadThisSecond < s.d.downloadSpeedLimit) :
    s.Requests sha1 percentage trackerAddress i ↔ Asks s.d := by
  obtain ⟨u, hexec, htask⟩ := @exec_quota sha1 percentage trackerAddress s i t buf ht hph hbelow
  rw [← DownloadTask.downloadQuota_pos_iff]
  constructor
  · rintro ⟨u', t', buf', expect, hexec', htask', hph', -⟩ hnone
    obtain rfl := Option.some.inj (hexec.symm.trans hexec')
    rw [htask, if_pos hnone, Option.some.injEq] at htask'
    rw [← htask'] at hph'
    cases hph'
  · intro hquota
    refine ⟨u, _, buf, _, hexec, htask, if_neg hquota, ?_⟩
    have hpos := DownloadTask.toInt_downloadQuota_pos hquota
    omega

/-- **The limit**, in two parts. In a run in which a task only asks while the others hold nothing, or leave room for
all that is missing of its chunk, the bytes of this second never exceed the limit. And a task with something missing
that finds them below the limit asks for more just when the difference is positive as an `int`. -/
theorem rate_limit (d : DownloadInfo) (disk : Disk) :
    (∀ as s, Always (step sha1 percentage trackerAddress) Fits (start d disk) as →
      exec (step sha1 percentage trackerAddress) (start d disk) as = some s →
      s.d.bytesDownloadThisSecond ≤ s.d.downloadSpeedLimit) ∧
    (∀ (s : Traffic) i t buf, s.downloads[i]? = some t → t.phase = .speed buf → (buf.length : ℤ) < t.chunkSize →
      s.d.bytesDownloadThisSecond < s.d.downloadSpeedLimit →
      (s.Requests sha1 percentage trackerAddress i ↔ Asks s.d)) := by
  constructor
  · intro as s hfits hexec
    have hwithin : s.Within :=
      exec_invariant_of_always (fun hs ha h => step_within hs ha h) hfits hexec (within_start d disk)
    exact UInt64.le_iff_toNat_le.mpr ((Nat.le_add_right _ _).trans hwithin)
  · intro s i t buf ht hph hunfinished hbelow
    exact requests_iff_asks ht hph hunfinished hbelow

/-- A job with a limit, and nothing to stop it. -/
def limited (downloadSpeedLimit : UInt64) : DownloadInfo :=
  { DownloadInfo.new 0 0 with isStopped := false, isDownloadPaused := false, downloadSpeedLimit := downloadSpeedLimit }

/-- A task for a chunk of two bytes. -/
def twoBytes : DownloadTask := .new ⟨"f", "", "b", 2, [⟨"sum", 2⟩]⟩ "p" 0 0 "b"

/-- Two tasks come to their quota, ask, receive a byte each, and count it. -/
def twoAtOnce : List Action := List.flatten
  [[.beginDownload twoBytes, .beginDownload twoBytes], List.replicate 7 (.download 0 .ok), List.replicate 7 (.download 1 .ok),
    [.download 0 (.bytes [7]), .download 1 (.bytes [7]), .download 0 .ok, .download 1 .ok]]

/-- One task asks, receives a byte, and counts it. -/
def oneReceives : List Action := List.flatten
  [[.beginDownload twoBytes], List.replicate 7 (.download 0 .ok), [.download 0 (.bytes [7]), .download 0 .ok]]

/-- One task comes to the comparison. -/
def oneCompares : List Action := .beginDownload twoBytes :: List.replicate 5 (.download 0 .ok)

/-- The end of a run under a limit. -/
def endUnder (downloadSpeedLimit : UInt64) (as : List Action) : Traffic :=
  (exec (step (fun _ => "") (fun _ => 0) "") (start (limited downloadSpeedLimit) ∅) as).getD
    (start (limited downloadSpeedLimit) ∅)

/-- One task keeps a limit of one, and asks under it. -/
theorem rate_limit_one :
    (endUnder 1 oneReceives).d.bytesDownloadThisSecond ≤ (endUnder 1 oneReceives).d.downloadSpeedLimit ∧
      ((endUnder 1 oneCompares).Requests (fun _ => "") (fun _ => 0) "" 0 ↔ Asks (endUnder 1 oneCompares).d) :=
  have hlimit := @rate_limit (fun _ => "") (fun _ => 0) "" (limited 1) ∅
  ⟨hlimit.1 oneReceives (endUnder 1 oneReceives) (by decide) (by decide),
    hlimit.2 (endUnder 1 oneCompares) 0 { twoBytes with phase := .speed [] } [] (by decide) rfl (by decide) (by decide)⟩

/-- **A limit that is passed**, by two tasks that ask at once, and **a task that never asks**, under a limit of 2^31. -/
theorem limit_passed :
    (¬ ∀ (d : DownloadInfo) (disk : Disk) (as : List Action) (s : Traffic),
      exec (step (fun _ => "") (fun _ => 0) "") (start d disk) as = some s →
      s.d.bytesDownloadThisSecond ≤ s.d.downloadSpeedLimit) ∧
    ¬ ∀ (s : Traffic) (i : ℕ) (t : DownloadTask) (buf : Bytes), s.downloads[i]? = some t → t.phase = .speed buf →
      (buf.length : ℤ) < t.chunkSize → s.d.bytesDownloadThisSecond < s.d.downloadSpeedLimit →
      s.Requests (fun _ => "") (fun _ => 0) "" i := by
  constructor
  · intro h
    have hrun : exec (step (fun _ => "") (fun _ => 0) "") (start (limited 1) ∅) twoAtOnce =
        some (endUnder 1 twoAtOnce) := by decide
    exact absurd (h _ _ _ _ hrun) (by decide)
  · intro h
    have htask : (endUnder (2 ^ 31) oneCompares).downloads[0]? = some { twoBytes with phase := .speed [] } := by decide
    have hbelow : (endUnder (2 ^ 31) oneCompares).d.bytesDownloadThisSecond <
        (endUnder (2 ^ 31) oneCompares).d.downloadSpeedLimit := by decide
    have hasks := (requests_iff_asks htask rfl (by decide) hbelow).mp (h _ 0 _ _ htask rfl (by decide) hbelow)
    exact absurd hasks (by decide)

end Traffic

end CoolDown
