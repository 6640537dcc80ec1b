import CoolDown.Client.Collector
import CoolDown.Client.HistoryEntries
import Mathlib.Algebra.Order.Floor.Semiring
import Mathlib.Data.Rat.Floor

/-!
# One scale of percentages: `percentage_map`

Two functions write the percentages of a job. The collector stores the integer part of a hundred times the quotient of
the bits that are set and all bits. `ReloadOneJob` stores the quotient of the two integers, which is one if all bits are
set, and zero if not. What is there is sent to the tracker and to peers as it is.

## The model

The client is any, and what happens to it: jobs are added, reloaded, started, stopped and removed, the collector goes
its rounds, and the `downloadInfo` of a job becomes anything else meanwhile. The `double`s of the collector are read as
exact numbers. Nothing is said of a bitmap without bits, nor of a round that meets a null bitmap.

## What is proved

* `exactPercentage_mem`, `exactPercentage_eq_hundred_iff`: the scale of the collector.
* `quotient_eq_exactPercentage_iff`: when the quotient is the same.
* `percentage_collectJob`: what the collector stores for a job.
* `scaled_iff_low`: a job that is reloaded is on the scale, just when its entry is `Low`.
* `scaled_wakeUp`: all jobs are after a round.
* `one_scale_iff`: so it is in every run.
* `whole_file`: a file that has been downloaded is reloaded.
-/

namespace CoolDown

open Library JobHistory

/-! ### The two scales -/

/-- The percentage as the collector takes it. -/
def exactPercentage (bits : Bitmap) : Int32 := Int32.ofInt ⌊(bits.count true : ℚ) / bits.length * 100⌋

theorem exactPercentage_eq (bits : Bitmap) :
    exactPercentage bits = Int32.ofNat (100 * bits.count true / bits.length) := by
  have hscaled : (bits.count true : ℚ) / bits.length * 100 = ((100 * bits.count true : ℕ) : ℚ) / bits.length := by
    push_cast
    ring
  rw [exactPercentage, hscaled, Rat.floor_natCast_div_natCast]
  exact Int32.ofInt_eq_ofNat

/-- It is at most a hundred. -/
theorem hundred_mul_count_div_le (bits : Bitmap) : 100 * bits.count true / bits.length ≤ 100 :=
  Nat.div_le_of_le_mul (by rw [Nat.mul_comm]; exact Nat.mul_le_mul_right _ List.count_le_length)

theorem toInt_exactPercentage (bits : Bitmap) :
    (exactPercentage bits).toInt = (100 * bits.count true / bits.length : ℕ) := by
  have hle := hundred_mul_count_div_le bits
  rw [exactPercentage_eq, Int32.toInt_ofNat_of_lt (by omega)]

/-- **The scale** goes from 0 to 100. -/
theorem exactPercentage_mem (bits : Bitmap) : 0 ≤ exactPercentage bits ∧ exactPercentage bits ≤ 100 := by
  have hle := hundred_mul_count_div_le bits
  have hhundred : (100 : Int32).toInt = 100 := rfl
  rw [Int32.le_iff_toInt_le, Int32.le_iff_toInt_le, toInt_exactPercentage, hhundred]
  exact ⟨Int.natCast_nonneg _, by exact_mod_cast hle⟩

/-- A hundred is for a bitmap with all bits set. -/
theorem exactPercentage_eq_hundred_iff {bits : Bitmap} (hbits : bits ≠ []) :
    exactPercentage bits = 100 ↔ ∀ b ∈ bits, b = true := by
  have hpos : 0 < bits.length := List.length_pos_iff.mpr hbits
  have hle : bits.count true ≤ bits.length := List.count_le_length
  have hcount : bits.count true = bits.length ↔ ∀ b ∈ bits, true = b := List.count_eq_length
  have hhundred : (100 : Int32).toInt = (100 : ℕ) := rfl
  rw [← Int32.toInt_inj, toInt_exactPercentage, hhundred, Int.natCast_inj]
  simp only [eq_comm (b := true), ← hcount]
  rw [Nat.div_eq_iff hpos]
  omega

/-- Zero is for a bitmap with no bit set. -/
theorem exactPercentage_replicate_false (n : ℕ) : exactPercentage (List.replicate n false) = 0 := by
  have hclear : (List.replicate n false).count true = 0 := List.count_eq_zero.mpr (by simp [List.mem_replicate])
  rw [exactPercentage_eq, hclear, Nat.mul_zero, Nat.zero_div]
  rfl

/-- **When the quotient is on the scale**: it is zero, and so is the percentage. -/
theorem quotient_eq_exactPercentage_iff {bits : Bitmap} (hbits : bits ≠ []) :
    Int32.ofNat (bits.count true / bits.length) = exactPercentage bits ↔ 100 * bits.count true < bits.length := by
  have hpos : 0 < bits.length := List.length_pos_iff.mpr hbits
  have hle : bits.count true ≤ bits.length := List.count_le_length
  have hquotient : bits.count true / bits.length ≤ 1 := Nat.div_le_of_le_mul (by omega)
  rw [← Int32.toInt_inj, toInt_exactPercentage, Int32.toInt_ofNat_of_lt (by omega), Int.natCast_inj]
  rcases Nat.lt_or_eq_of_le hle with hlt | hall
  · rw [Nat.div_eq_of_lt hlt, eq_comm, Nat.div_eq_zero_iff]
    omega
  · rw [hall, Nat.div_self hpos, Nat.mul_div_cancel _ hpos]
    omega

/-! ### What the collector stores -/

section

variable {percentage : Bitmap → Int32} {trackerAddress : String} {isRunning needToReport : Bool} {d : DownloadInfo}

/-- The loop over the files stores the percentages of those it goes through. -/
theorem percentage_collectFiles {rest : List String} {infos : List ProgressInfo}
    (h : (Collector.collectFiles percentage trackerAddress needToReport rest d).1 = .ok infos) {fileid : String}
    {bits : Bitmap} (hfind : d.bitmapMap.find? fileid = some (some bits)) :
    (Collector.collectFiles percentage trackerAddress needToReport rest d).2.percentageMap.find? fileid =
      if fileid ∈ rest then some (percentage bits) else d.percentageMap.find? fileid := by
  induction rest generalizing d infos with
  | nil => rfl
  | cons fileid' rest ih =>
    rw [Collector.collectFiles] at h ⊢
    cases hfile : Collector.collectFile percentage trackerAddress needToReport fileid' d with
    | error e =>
      rw [hfile] at h
      cases h
    | ok r =>
      obtain ⟨infos₁, d₁⟩ := r
      rw [hfile] at h
      simp only at h ⊢
      cases hrest : (Collector.collectFiles percentage trackerAddress needToReport rest d₁).1 with
      | error e =>
        rw [hrest] at h
        cases h
      | ok infos₂ =>
        obtain ⟨bits', hfind', rfl, -⟩ := Collector.collectFile_eq_ok hfile
        rw [ih hrest hfind, SortedMap.find?_insert]
        by_cases hmem : fileid ∈ rest
        · rw [if_pos hmem, if_pos (List.mem_cons_of_mem _ hmem)]
        · by_cases he : fileid' = fileid
          · subst he
            rw [hfind'] at hfind
            cases hfind
            rw [if_neg hmem, if_pos rfl, if_pos List.mem_cons_self]
          · rw [if_neg hmem, if_neg he, if_neg (mt List.mem_cons.mp (not_or.mpr ⟨Ne.symm he, hmem⟩))]

/-- **The collector stores the percentage of each bitmap.** -/
theorem percentage_collectJob {infos : List ProgressInfo}
    (h : (Collector.collectJob percentage trackerAddress isRunning d).1 = .ok infos) {fileid : String} {bits : Bitmap}
    (hfind : d.bitmapMap.find? fileid = some (some bits)) :
    (Collector.collectJob percentage trackerAddress isRunning d).2.percentageMap.find? fileid = some (percentage bits) := by
  obtain ⟨n, hn⟩ := Collector.countdown_frame isRunning d
  have hfind' : (Collector.countdown isRunning d).2.bitmapMap.find? fileid = some (some bits) := by rw [hn, hfind]
  rw [Collector.fst_collectJob] at h
  obtain ⟨_, _, _, _, hsnd⟩ := @Collector.snd_collectJob percentage trackerAddress isRunning d
  rw [hsnd, percentage_collectFiles h hfind', if_pos (SortedMap.mem_keys.mpr ⟨_, hfind'⟩)]

end

namespace PercentageScale

open CoolClient

/-! ### On the scale -/

/-- What `request_clients` and `shake_hand` send of a file, after they have asserted that it is there. -/
def sentPercentage (d : DownloadInfo) (fileid : String) : Except Exception Int32 :=
  match d.percentageMap.find? fileid with
  | none => .error .assertion
  | some percentage => .ok percentage

/-- The percentage of the file is that of its bitmap, and is sent; it is between 0 and 100, and 100 just when all bits
are set. -/
structure Shows (d : DownloadInfo) (fileid : String) (bits : Bitmap) : Prop where
  stored : d.percentageMap.find? fileid = some (exactPercentage bits)
  sent : sentPercentage d fileid = .ok (exactPercentage bits)
  mem : 0 ≤ exactPercentage bits ∧ exactPercentage bits ≤ 100
  full : exactPercentage bits = 100 ↔ ∀ b ∈ bits, b = true

theorem Shows.of_stored {d : DownloadInfo} {fileid : String} {bits : Bitmap} (hbits : bits ≠ [])
    (h : d.percentageMap.find? fileid = some (exactPercentage bits)) : Shows d fileid bits where
  stored := h
  sent := by rw [sentPercentage, h]
  mem := exactPercentage_mem bits
  full := exactPercentage_eq_hundred_iff hbits

/-- So it is for each file that has a bitmap with bits. -/
def Scaled (d : DownloadInfo) : Prop :=
  ∀ fileid bits, d.bitmapMap.find? fileid = some (some bits) → bits ≠ [] → Shows d fileid bits

/-- Of each hundred bits less than one is set, in the bitmap that the last record of a fileid has. -/
def Low (oneHistory : JobHistoryInfo) : Prop :=
  ∀ fileid oneFile, lastRecord oneHistory.file fileid = some oneFile →
    100 * (recordBits oneFile).count true < (recordBits oneFile).length

theorem recordBits_ne_nil {oneFile : FileInfo} (h : 0 < oneFile.fileBitCount) : recordBits oneFile ≠ [] := by
  intro hnil
  have hlen := length_recordBits oneFile
  rw [hnil, List.length_nil, ← Int32.toNat_toInt] at hlen
  have hpos : 0 < oneFile.fileBitCount.toInt := Int32.lt_iff_toInt_lt.mp h
  omega

/-- **A job that is reloaded** is on the scale just when its entry is low. -/
theorem scaled_iff_low {info : JobInfo} {torrent : Torrent} {oneHistory : JobHistoryInfo}
    (h : Restored info torrent oneHistory) (hcounts : ∀ oneFile ∈ oneHistory.file, 0 < oneFile.fileBitCount) :
    Scaled info.downloadInfo ↔ Low oneHistory := by
  have hne : ∀ {fileid oneFile}, lastRecord oneHistory.file fileid = some oneFile → recordBits oneFile ≠ [] :=
    fun hlast => recordBits_ne_nil (hcounts _ (mem_of_lastRecord hlast).1)
  constructor
  · intro hscaled fileid oneFile hlast
    have hbitmap := h.bitmaps fileid
    have hpercentage := h.percentages fileid
    rw [hlast, Option.map_some, Option.some_or] at hbitmap hpercentage
    rw [(hscaled fileid _ hbitmap (hne hlast)).stored] at hpercentage
    exact (quotient_eq_exactPercentage_iff (hne hlast)).mp (Option.some.inj hpercentage).symm
  · intro hlow fileid bits hfind hbits
    refine .of_stored hbits ?_
    rw [h.percentages]
    rw [h.bitmaps] at hfind
    cases hlast : lastRecord oneHistory.file fileid with
    | some oneFile =>
      rw [hlast, Option.map_some, Option.some_or] at hfind
      cases hfind
      rw [Option.map_some, Option.some_or, (quotient_eq_exactPercentage_iff (hne hlast)).mpr (hlow _ _ hlast)]
    | none =>
      rw [hlast, Option.map_none, Option.none_or] at hfind
      obtain ⟨file, hfile, hclear⟩ := Option.map_eq_some_iff.mp hfind
      cases hclear
      rw [Option.map_none, Option.none_or, hfile, Option.map_some, exactPercentage_replicate_false]

/-! ### The client -/

/-- The jobs as the collector finds them. -/
def desk (s : CoolClient) (isRunning : ℕ → Bool) : Collector.Desk :=
  ⟨s.jobs.map fun handle info => ⟨isRunning handle, info.torrentInfo.torrent.trackerAddress, info.downloadInfo⟩, []⟩

/-- The jobs after `onJobInfoCollectorWakeUp`. -/
def wakeUp (s : CoolClient) (isRunning : ℕ → Bool) : CoolClient :=
  let after := Collector.onJobInfoCollectorWakeUp exactPercentage (desk s isRunning)
  { s with jobs := s.jobs.map fun handle info =>
      match after.jobs.find? handle with
      | none => info
      | some j => { info with downloadInfo := j.downloadInfo } }

/-- What can happen. -/
inductive Action where
  /-- A call, with what the outside decides about it. -/
  | call (a : TorrentRegistry.Action)
  /-- The collector's round. -/
  | wakeUp (isRunning : ℕ → Bool)
  /-- The `downloadInfo` of a job becomes what it is there. -/
  | rest (handle : ℕ) (d : DownloadInfo)

/-- One step. -/
def step (s : CoolClient × Disk) : Action → Option (CoolClient × Disk)
  | .call a => TorrentRegistry.step s a
  | .wakeUp isRunning => some (PercentageScale.wakeUp s.1 isRunning, s.2)
  | .rest handle d => some ((s.1.withJob handle fun _ => d).2, s.2)

/-- The job after a round that meets no null bitmap. -/
theorem find?_wakeUp {s : CoolClient} {isRunning : ℕ → Bool} (hbitmaps : (desk s isRunning).HasBitmaps) (handle : ℕ) :
    (wakeUp s isRunning).jobs.find? handle = (s.jobs.find? handle).map fun info =>
      { info with
        downloadInfo := (Collector.collectJob exactPercentage info.torrentInfo.torrent.trackerAddress (isRunning handle)
          info.downloadInfo).2 } := by
  have hdesk := (@Collector.wakeUp_of_hasBitmaps exactPercentage _ hbitmaps handle).1
  rw [wakeUp, SortedMap.find?_map, hdesk, desk, SortedMap.find?_map]
  cases s.jobs.find? handle <;> rfl

/-- **After such a round** each bitmap is as it was, and its percentage that of the bitmap. -/
theorem stored_wakeUp {s : CoolClient} {isRunning : ℕ → Bool} (hbitmaps : (desk s isRunning).HasBitmaps) {handle : ℕ}
    {info info' : JobInfo} (hinfo : s.jobs.find? handle = some info)
    (hinfo' : (wakeUp s isRunning).jobs.find? handle = some info') :
    info'.downloadInfo.bitmapMap = info.downloadInfo.bitmapMap ∧
      ∀ fileid bits, info.downloadInfo.bitmapMap.find? fileid = some (some bits) →
        info'.downloadInfo.percentageMap.find? fileid = some (exactPercentage bits) := by
  rw [find?_wakeUp hbitmaps, hinfo] at hinfo'
  cases hinfo'
  have hjob : Collector.HasBitmaps info.downloadInfo := by
    refine hbitmaps (handle, ⟨isRunning handle, info.torrentInfo.torrent.trackerAddress, info.downloadInfo⟩) ?_
    rw [← SortedMap.find?_eq_some, desk, SortedMap.find?_map, hinfo]
    rfl
  obtain ⟨infos, hinfos, -⟩ := @Collector.collectJob_of_hasBitmaps exactPercentage
    info.torrentInfo.torrent.trackerAddress _ hjob (isRunning handle)
  exact ⟨Collector.bitmapMap_collectJob _ _, fun fileid bits hfind => percentage_collectJob hinfos hfind⟩

theorem scaled_wakeUp {s : CoolClient} {isRunning : ℕ → Bool} (hbitmaps : (desk s isRunning).HasBitmaps) {handle : ℕ}
    {info : JobInfo} (h : (wakeUp s isRunning).jobs.find? handle = some info) : Scaled info.downloadInfo := by
  have hfound := h
  rw [find?_wakeUp hbitmaps] at hfound
  obtain ⟨before, hbefore, -⟩ := Option.map_eq_some_iff.mp hfound
  obtain ⟨hsame, hstored⟩ := stored_wakeUp hbitmaps hbefore h
  intro fileid bits hfind hbits
  rw [hsame] at hfind
  exact .of_stored hbits (hstored fileid bits hfind)

/-! ### Runs -/

/-- The next round stores for each bitmap of the job what is there. -/
def KeptByNext (s : CoolClient) (handle : ℕ) (info : JobInfo) : Prop :=
  ∀ isRunning, (desk s isRunning).HasBitmaps → ∀ info', (wakeUp s isRunning).jobs.find? handle = some info' →
    ∀ fileid bits, info.downloadInfo.bitmapMap.find? fileid = some (some bits) → bits ≠ [] →
      info'.downloadInfo.percentageMap.find? fileid = info.downloadInfo.percentageMap.find? fileid

/-- A job that is reloaded is on the scale, and what it stores is what the next round stores; after a round that meets
no null bitmap all jobs are on the scale. -/
def ScaledAfter (s : CoolClient × Disk) : Action → Prop
  | .call (.reloadOneJob env torrent oneHistory) =>
    ∀ s' disk', CoolClient.reloadOneJob env torrent oneHistory s.1 s.2 = (.ok .errorOk, s', disk') →
      ∀ info, s'.jobs.find? s.1.jobIndex = some info → Scaled info.downloadInfo ∧ KeptByNext s' s.1.jobIndex info
  | .wakeUp isRunning => (desk s.1 isRunning).HasBitmaps →
    ∀ handle info, (PercentageScale.wakeUp s.1 isRunning).jobs.find? handle = some info → Scaled info.downloadInfo
  | _ => True

/-- An entry that is reloaded is low. -/
def LowReload (s : CoolClient × Disk) : Action → Prop
  | .call (.reloadOneJob _ torrent oneHistory) => Fine s.1 torrent oneHistory → Low oneHistory
  | _ => True

/-- **One step.** -/
theorem scaledAfter_iff (s : CoolClient × Disk) (a : Action) : ScaledAfter s a ↔ LowReload s a := by
  cases a with
  | wakeUp isRunning => exact iff_of_true (fun hbitmaps handle info h => scaled_wakeUp hbitmaps h) trivial
  | rest => exact Iff.rfl
  | call a =>
    cases a with
    | reloadOneJob env torrent oneHistory =>
      simp only [ScaledAfter, LowReload]
      rcases reloadOneJob_cases env torrent oneHistory s.1 s.2 with ⟨hfine, info, hrestored, hreload⟩ |
        ⟨hfine, e, s', disk', hthrown⟩
      · have hadded : ((s.1.registerTorrent torrent.torrentId).addNewJob info oneHistory.torrentPath).jobs.find?
            s.1.jobIndex = some info := SortedMap.find?_insert_self _ _ _
        rw [← scaled_iff_low hrestored hfine.2]
        constructor
        · intro hafter _
          exact (hafter _ _ hreload info hadded).1
        · intro hlow s' disk' hreload' info' hinfo'
          rw [hreload] at hreload'
          cases hreload'
          obtain rfl := Option.some.inj (hadded.symm.trans hinfo')
          refine ⟨hlow hfine, fun isRunning hbitmaps info' hnext fileid bits hfind hbits => ?_⟩
          rw [(stored_wakeUp hbitmaps hadded hnext).2 fileid bits hfind, (hlow hfine fileid bits hfind hbits).stored]
      · refine iff_of_true (fun s'' disk'' hok => ?_) (fun h => absurd h hfine)
        rw [hthrown] at hok
        cases hok
    | _ => exact Iff.rfl

/-- **When there is one scale.** In any run, the percentages are on the scale after each reload and each round, and what
a reload stores is what the next round stores, if and only if each entry that is reloaded has bitmaps with less than one
bit of a hundred set. -/
theorem one_scale_iff (s : CoolClient × Disk) (as : List Action) :
    Always step ScaledAfter s as ↔ Always step LowReload s as :=
  ⟨.mono (scaledAfter_iff _ _).mp, .mono (scaledAfter_iff _ _).mpr⟩

/-- An entry for a file of one block, which has been downloaded. -/
def wholeEntry : JobHistoryInfo := ⟨"/t", "/d/", [⟨"f", "", "a", [1], 1⟩], 0, 0⟩

/-- **A file that has been downloaded** is reloaded with the percentage one. -/
theorem whole_file : ¬ ∀ (disk : Disk) (as : List Action), Always step ScaledAfter (CoolClient.new, disk) as := by
  intro h
  have hafter := (h ∅ [.call (.reloadOneJob TorrentRegistry.calm TorrentRegistry.emptyTorrent wholeEntry)]).1
  have hlow := (scaledAfter_iff _ _).mp hafter ⟨by decide, by decide⟩ "f" ⟨"f", "", "a", [1], 1⟩ (by decide)
  exact absurd hlow (by decide)

end PercentageScale

end CoolDown
