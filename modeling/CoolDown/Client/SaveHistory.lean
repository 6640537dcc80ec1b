import CoolDown.Client.CoolClient
import CoolDown.Client.HistoryWire
import CoolDown.Library.Run

/-!
# Saving the history

`SaveJobHistory` is to leave the jobs alone, and either to write the history of all of
them or to leave the file as it was (`Atomic`). It opens the file, which empties it, before
it collects the jobs. And it looks up a bitmap for every file of a torrent, while a job
has bitmaps for the files that are needed: the others get a null pointer, which is then
dereferenced.

## What is proved

* `saveJobHistory_atomic_iff`: when it does what it should, for the jobs of any client.
* `saveJobHistory_one_of_two_files`: a job that needs one of the two files of its torrent.
-/

namespace CoolDown

open Library JobHistory

namespace CoolClient

/-! ### The clients there can be -/

/-- What happens to the jobs of a client. -/
inductive Action where
  /-- `AddNewDownloadJob`. -/
  | download (env : Surroundings) (torrentPath : String) (torrent : Torrent) (needs : List FileIdentityInfo)
      (topPath : String)
  /-- `AddNewUploadJob`. -/
  | upload (env : Surroundings) (publish : String → Option Exception) (torrentPath topPath : String)
      (torrent : Torrent)
  /-- `ReloadOneJob`. -/
  | reload (env : Surroundings) (torrent : Torrent) (oneHistory : JobHistoryInfo)
  /-- The `downloadInfo` of a job changes, while the job runs or otherwise. -/
  | change (handle : ℕ) (downloadInfo : DownloadInfo)

/-- What each of them does to the client and the disk. -/
def step : CoolClient × Disk → Action → Option (CoolClient × Disk)
  | (s, disk), .download env torrentPath torrent needs topPath =>
    some (addNewDownloadJob env torrentPath torrent needs topPath s disk).2
  | (s, disk), .upload env publish torrentPath topPath torrent =>
    some (addNewUploadJob env publish torrentPath topPath torrent s disk).2
  | (s, disk), .reload env torrent oneHistory => some (reloadOneJob env torrent oneHistory s disk).2
  | (s, disk), .change handle downloadInfo =>
    (s.jobs.find? handle).map fun info => ({ s with jobs := s.jobs.insert handle { info with downloadInfo } }, disk)

theorem step_wellFormed {s t : CoolClient × Disk} {a : Action} (hs : s.1.WellFormed) (h : step s a = some t) :
    t.1.WellFormed := by
  cases a with
  | download env torrentPath torrent needs topPath =>
    obtain rfl := Option.some.inj h
    exact hs.addNewDownloadJob env torrentPath torrent needs topPath s.2
  | upload env publish torrentPath topPath torrent =>
    obtain rfl := Option.some.inj h
    exact hs.addNewUploadJob env publish torrentPath topPath torrent s.2
  | reload env torrent oneHistory =>
    obtain rfl := Option.some.inj h
    exact hs.reloadOneJob env torrent oneHistory s.2
  | change handle downloadInfo =>
    obtain ⟨info, hinfo, rfl⟩ := Option.map_eq_some_iff.mp h
    have hmem : ∀ handle' ∈ (s.1.jobs.insert handle { info with downloadInfo }).keys, handle' ∈ s.1.jobs.keys := by
      intro handle' h'
      obtain rfl | h' := SortedMap.mem_keys_insert.mp h'
      · exact SortedMap.mem_keys.mpr ⟨info, hinfo⟩
      · exact h'
    constructor
    · intro handle' h'
      exact hs.lt handle' (hmem handle' h')
    · intro handle' h'
      exact hs.path handle' (hmem handle' h')

theorem run_wellFormed {disk₀ disk : Disk} {s : CoolClient} {actions : List Action}
    (h : exec step (new, disk₀) actions = some (s, disk)) : s.WellFormed :=
  @exec_invariant _ _ _ (fun t => t.1.WellFormed) step_wellFormed _ _ _ h wellFormed_new

/-! ### All or nothing -/

/-- What `SaveJobHistory` is to do: the jobs stay as they are, no null pointer is
dereferenced, and the file has the history of the whole table, and the code says so, or
has what it had before. -/
structure Atomic (c : Codec) (filename : String) (s : CoolClient) (disk : Disk)
    (r : Except Exception Retcode × CoolClient × Disk) : Prop where
  jobs_eq : r.2.1.jobs = s.jobs
  not_null : r.1 ≠ .error .nullPointer
  saved_or_same : (r.1 = .ok .errorOk ∧ r.2.2.find? filename = some (c.serialize s.history)) ∨
    r.2.2.find? filename = disk.find? filename

/-- It does so just when the file cannot be opened, or all bitmaps are there and either
all the bytes are written or those that are written are what the file had before. -/
theorem saveJobHistory_atomic_iff (c : Codec) {disk₀ disk : Disk} {s : CoolClient} {actions : List Action}
    (hrun : exec step (new, disk₀) actions = some (s, disk)) (out : Output) (filename : String) :
    Atomic c filename s disk (saveJobHistory c out filename s disk) ↔
      out.opens = false ∨
        s.Saveable ∧
          (out.good = true ∧ (c.serialize s.history).length ≤ out.written ∨
            disk.find? filename = some ((c.serialize s.history).take out.written)) := by
  have hs := run_wellFormed hrun
  cases hopens : out.opens with
  | false =>
    have hclosed : saveJobHistory c out filename s disk = (.ok .errorFileNotExists, s, disk) := by
      rw [saveJobHistory, if_pos hopens]
    rw [hclosed]
    constructor
    · intro _
      exact .inl rfl
    · intro _
      exact ⟨rfl, by rintro ⟨⟩, .inr rfl⟩
  | true =>
    by_cases hsave : s.Saveable
    · rw [saveJobHistory_of_saveable hs hopens hsave]
      constructor
      · intro h
        refine .inr ⟨hsave, ?_⟩
        obtain ⟨hret, hfile⟩ | hsame := h.saved_or_same
        · rw [SortedMap.find?_insert_self, Option.some.injEq, List.take_eq_self_iff] at hfile
          cases hgood : out.good with
          | false => simp [hgood] at hret
          | true => exact .inl ⟨rfl, hfile⟩
        · rw [SortedMap.find?_insert_self] at hsame
          exact .inr hsame.symm
      · intro h
        obtain h | ⟨-, ⟨hgood, hwritten⟩ | hsame⟩ := h
        · cases h
        · refine ⟨rfl, by rintro ⟨⟩, .inl ⟨by rw [if_pos hgood], ?_⟩⟩
          rw [SortedMap.find?_insert_self, List.take_of_length_le hwritten]
        · refine ⟨rfl, by rintro ⟨⟩, .inr ?_⟩
          rw [SortedMap.find?_insert_self, hsame]
    · constructor
      · intro h
        exact absurd (saveJobHistory_of_not_saveable hs hopens hsave) h.not_null
      · intro h
        obtain h | ⟨h, -⟩ := h
        · cases h
        · exact absurd h hsave

/-- A torrent of two files with one chunk each. -/
def twoFiles : Torrent where
  torrentId := "two"
  type := 0
  totalSize := 2
  createBy := ""
  createTime := ""
  trackerAddress := "tracker"
  file := [⟨"idA", "/", "a", 1, [⟨"idA", 1⟩]⟩, ⟨"idB", "/", "b", 1, [⟨"idB", 1⟩]⟩]

/-- A client that downloads these of its files. -/
def downloadTwoFiles (needs : List FileIdentityInfo) : CoolClient × Disk :=
  (addNewDownloadJob ⟨0, 0, fun _ => none⟩ "/two.torrent" twoFiles needs "/tmp" new ∅).2

theorem saveJobHistory_atomic_iff_two_files :
    let r := downloadTwoFiles (allFiles twoFiles)
    Atomic .wire "/history" r.1 r.2 (saveJobHistory .wire ⟨true, 1000, true⟩ "/history" r.1 r.2) ↔
      true = false ∨
        r.1.Saveable ∧
          (true = true ∧ (Codec.wire.serialize r.1.history).length ≤ 1000 ∨
            r.2.find? "/history" = some ((Codec.wire.serialize r.1.history).take 1000)) := by
  intro r
  have hrun : exec step (new, ∅)
      [.download ⟨0, 0, fun _ => none⟩ "/two.torrent" twoFiles (allFiles twoFiles) "/tmp"] = some (r.1, r.2) := rfl
  exact saveJobHistory_atomic_iff .wire hrun ⟨true, 1000, true⟩ "/history"

/-- A job that needs one of the two files has no bitmap for the other one. -/
theorem saveJobHistory_one_of_two_files :
    let r := downloadTwoFiles [⟨"/", "a"⟩]
    ¬Atomic .wire "/history" r.1 r.2 (saveJobHistory .wire ⟨true, 1000, true⟩ "/history" r.1 r.2) := by
  intro r h
  exact h.not_null rfl

end CoolClient

end CoolDown
