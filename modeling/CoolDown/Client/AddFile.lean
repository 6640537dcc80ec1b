import CoolDown.Client.JobInfo
import CoolDown.Library.Run

/-!
# When `LocalFileInfo::add_file` fails

`add_file` puts the path into `same_files_` before it makes the directories, and makes the `File` before it makes the
file and gives it its size. Each of the three may throw, and what has been done till then stays. A second call for the
fileid finds a path, and does nothing more.

## The model

A run is a list of calls with any arguments, each with the disk as it finds it, and the operation that throws.

## What is proved

* `addFile_cases`: what a call does.
* `faultless_iff_unchanged`: a call that returns an error has always changed `same_files_`.
* `step_consistent`: the maps stay consistent where the directories are made.
* `addFile_consistent_iff`: when calls that return an error leave the maps as they were, and when the maps are
  consistent.
* `directory_not_made`: a call whose directory cannot be made.
-/

namespace CoolDown

open Library

namespace LocalFileInfo

/-- A call of `add_file`: its arguments, what throws, and the disk. -/
structure AddCall where
  fileid : String
  relativePath : String
  filename : String
  filesize : Int64
  fault : Option Fault
  disk : Disk

namespace AddCall

/-- What the call returns, and what is left. -/
def run (c : AddCall) (l : LocalFileInfo) : Retcode × LocalFileInfo × Disk :=
  l.addFile c.fileid c.relativePath c.filename c.filesize c.fault c.disk

/-- The path that the call puts together. -/
def filepath (c : AddCall) (l : LocalFileInfo) : String := l.topPath ++ c.relativePath ++ c.filename

end AddCall

/-- One call. -/
def step (l : LocalFileInfo) (c : AddCall) : Option LocalFileInfo := some (c.run l).2.1

/-- If the call returns an error, both maps are as they were. -/
def Unchanged (l : LocalFileInfo) (c : AddCall) : Prop :=
  (c.run l).1 ≠ .errorOk → (c.run l).2.1.sameFiles = l.sameFiles ∧ (c.run l).2.1.files = l.files

/-- The maps have the same keys, no list is empty, and the file of a fileid is the first of its paths. -/
structure Consistent (l : LocalFileInfo) : Prop where
  keys : ∀ fileid, (l.sameFiles.find? fileid).isSome = (l.files.find? fileid).isSome
  nonempty : ∀ fileid paths, l.sameFiles.find? fileid = some paths → paths ≠ []
  head : ∀ fileid path, l.files.find? fileid = some path → ∃ paths, l.sameFiles.find? fileid = some (path :: paths)

/-- The fileid has paths already, or the directories of its path are made. -/
def MakesDirectories (l : LocalFileInfo) (c : AddCall) : Prop :=
  l.paths c.fileid ≠ [] ∨ c.fault ≠ some .createDirectories

/-- The fileid has paths already, or the directories are made, and the file is there or is made with its size. -/
def Faultless (l : LocalFileInfo) (c : AddCall) : Prop :=
  l.paths c.fileid ≠ [] ∨ c.fault = none ∨
    c.fault ≠ some .createDirectories ∧ (c.disk.find? (c.filepath l)).isSome

/-- A fileid has paths, and no file. -/
def Orphaned (l : LocalFileInfo) : Prop :=
  ∃ fileid path paths, l.sameFiles.find? fileid = some (path :: paths) ∧ l.files.find? fileid = none

variable {l l' : LocalFileInfo} {c : AddCall}

theorem paths_ne_nil {fileid path : String} {paths : List String}
    (h : l.sameFiles.find? fileid = some (path :: paths)) : l.paths fileid ≠ [] := by
  rw [LocalFileInfo.paths, h]
  exact List.cons_ne_nil _ _

/-- **What a call does.** It adds a path to those that there are; or it is the first for its fileid, and then the path
is there whatever happens, the file if the directories are made, and it succeeds if nothing it gets to throws. -/
theorem addFile_cases (l : LocalFileInfo) (c : AddCall) :
    (∃ path paths, l.sameFiles.find? c.fileid = some (path :: paths) ∧ (c.run l).1 = .errorOk ∧
      (c.run l).2.1.sameFiles = l.sameFiles.insert c.fileid (path :: (paths ++ [c.filepath l])) ∧
      (c.run l).2.1.files = l.files) ∨
    l.paths c.fileid = [] ∧ (c.run l).2.1.sameFiles = l.sameFiles.insert c.fileid [c.filepath l] ∧
      (c.run l).2.1.files =
        (if c.fault = some .createDirectories then l.files else l.files.insert c.fileid (c.filepath l)) ∧
      ((c.run l).1 = .errorOk ↔ c.fault = none ∨
        c.fault ≠ some .createDirectories ∧ (c.disk.find? (c.filepath l)).isSome) := by
  unfold AddCall.run addFile
  split
  · next path paths hpaths => exact .inl ⟨path, paths, hpaths, rfl, rfl, rfl⟩
  all_goals
    next hpaths =>
    refine .inr ⟨by rw [LocalFileInfo.paths, hpaths]; rfl, ?_⟩
    dsimp only
    split_ifs with hdir hexists hfile hsize
    · exact ⟨rfl, rfl, by simp [hdir]⟩
    · exact ⟨rfl, rfl, by simp [hdir, AddCall.filepath, hexists]⟩
    · exact ⟨rfl, rfl, by simp [hfile, AddCall.filepath, hexists]⟩
    · exact ⟨rfl, rfl, by simp [hsize, AddCall.filepath, hexists]⟩
    · have hnone : c.fault = none := by
        cases hfault : c.fault with
        | none => rfl
        | some fault => cases fault <;> contradiction
      exact ⟨rfl, rfl, by simp [hnone]⟩

theorem consistent_new (topPath : String) : (new topPath).Consistent :=
  ⟨fun _ => rfl, by rintro _ _ ⟨⟩, by rintro _ _ ⟨⟩⟩

/-- **A call that returns an error** has changed `same_files_`. -/
theorem faultless_iff_unchanged (l : LocalFileInfo) (c : AddCall) : Faultless l c ↔ Unchanged l c := by
  rcases addFile_cases l c with ⟨path, paths, hpaths, hok, -, -⟩ | ⟨hnone, hsame, -, hok⟩
  · exact iff_of_true (.inl (paths_ne_nil hpaths)) fun herror => absurd hok herror
  · rw [Faultless, or_iff_right (not_not.mpr hnone), ← hok]
    constructor
    · exact fun h herror => absurd h herror
    · intro hunchanged
      by_contra herror
      have hpaths : (c.run l).2.1.paths c.fileid = [c.filepath l] := by
        rw [LocalFileInfo.paths, hsame, SortedMap.find?_insert_self, Option.getD_some]
      rw [LocalFileInfo.paths, (hunchanged herror).1, ← LocalFileInfo.paths, hnone] at hpaths
      cases hpaths

theorem Faultless.makesDirectories (h : Faultless l c) : MakesDirectories l c := by
  apply h.imp_right
  rintro (hnone | ⟨hdir, -⟩)
  · rw [hnone]
    rintro ⟨⟩
  · exact hdir

/-- **One call** keeps the maps consistent where the directories are made. -/
theorem step_consistent (hl : l.Consistent) (hc : MakesDirectories l c) (h : step l c = some l') : l'.Consistent := by
  obtain rfl := Option.some.inj h
  refine ⟨?_, ?_, (c.run l).2.1.files_head⟩
  · intro fileid
    rcases addFile_cases l c with ⟨path, paths, hpaths, -, hsame, hfiles⟩ | ⟨hnone, hsame, hfiles, -⟩
    · rw [hsame, hfiles, ← hl.keys fileid, SortedMap.find?_insert]
      split_ifs with he
      · rw [← he, hpaths]
        rfl
      · rfl
    · rw [hsame, hfiles, if_neg (hc.resolve_left (not_not.mpr hnone)), SortedMap.find?_insert, SortedMap.find?_insert]
      split_ifs
      · rfl
      · exact hl.keys fileid
  · intro fileid paths' hfind
    rcases addFile_cases l c with ⟨path, paths, -, -, hsame, -⟩ | ⟨-, hsame, -, -⟩ <;>
      (rw [hsame, SortedMap.find?_insert] at hfind
       split_ifs at hfind
       · obtain rfl := Option.some.inj hfind
         exact List.cons_ne_nil _ _
       · exact hl.nonempty fileid paths' hfind)

/-- A fileid whose directories could not be made has a path, and no file. -/
theorem orphaned_of_not_makesDirectories (hc : ¬ MakesDirectories l c) (h : step l c = some l') : l'.Orphaned := by
  obtain rfl := Option.some.inj h
  rw [MakesDirectories, not_or, not_not, not_not] at hc
  obtain ⟨hnone, hfault⟩ := hc
  rcases addFile_cases l c with ⟨path, paths, hpaths, -⟩ | ⟨-, hsame, hfiles, -⟩
  · exact absurd hnone (paths_ne_nil hpaths)
  · refine ⟨c.fileid, c.filepath l, [], by rw [hsame, SortedMap.find?_insert_self], ?_⟩
    rw [hfiles, if_pos hfault]
    exact l.files_eq_none fun path paths hpaths => paths_ne_nil hpaths hnone

/-- It stays so. -/
theorem step_orphaned (hl : l.Orphaned) (h : step l c = some l') : l'.Orphaned := by
  obtain rfl := Option.some.inj h
  obtain ⟨fileid, path, paths, hpaths, hnone⟩ := hl
  rcases addFile_cases l c with ⟨path', paths', hpaths', -, hsame, hfiles⟩ | ⟨hempty, hsame, hfiles, -⟩
  · by_cases he : c.fileid = fileid
    · exact ⟨fileid, path', _, by rw [hsame, he, SortedMap.find?_insert_self], by rw [hfiles, hnone]⟩
    · exact ⟨fileid, path, paths, by rw [hsame, SortedMap.find?_insert_of_ne _ he, hpaths], by rw [hfiles, hnone]⟩
  · have he : c.fileid ≠ fileid := by
      rintro rfl
      exact paths_ne_nil hpaths hempty
    refine ⟨fileid, path, paths, by rw [hsame, SortedMap.find?_insert_of_ne _ he, hpaths], ?_⟩
    rw [hfiles]
    split_ifs
    · exact hnone
    · rw [SortedMap.find?_insert_of_ne _ he, hnone]

theorem Consistent.not_orphaned (hl : l.Consistent) : ¬ l.Orphaned := by
  rintro ⟨fileid, path, paths, hpaths, hnone⟩
  have hkeys := hl.keys fileid
  rw [hpaths, hnone] at hkeys
  cases hkeys

/-- **When `add_file` fails.** In a run all calls that return an error leave both maps as they were, and these are
consistent at the end, if and only if no call for a new fileid meets a throw: its directories are made, and its file is
there or is made with its size. The maps are consistent at the end if and only if all directories are made. -/
theorem addFile_consistent_iff {topPath : String} {calls : List AddCall} (h : exec step (new topPath) calls = some l) :
    (Always step Faultless (new topPath) calls ↔ Always step Unchanged (new topPath) calls ∧ l.Consistent) ∧
      (Always step MakesDirectories (new topPath) calls ↔ l.Consistent) := by
  have hunchanged : Always step Faultless (new topPath) calls ↔ Always step Unchanged (new topPath) calls :=
    always_congr_of_invariant (I := fun _ => True) (fun _ _ => trivial) (fun _ => faultless_iff_unchanged _ _) trivial
  have hconsistent : Always step MakesDirectories (new topPath) calls ↔ l.Consistent := by
    constructor
    · intro hmakes
      exact exec_invariant_of_always (fun hs ha hstep => step_consistent hs ha hstep) hmakes h (consistent_new topPath)
    · intro hl
      refine (always_iff (I := Consistent) (Q := fun l => ¬ l.Orphaned) ?_ ?_ ?_ ?_ h (consistent_new topPath)).mpr
        hl.not_orphaned
      · exact fun hs ha hstep => step_consistent hs ha hstep
      · exact fun hs => hs.not_orphaned
      · exact fun _ ha hstep => not_not.mpr (orphaned_of_not_makesDirectories ha hstep)
      · exact fun hs hstep => not_not.mpr (step_orphaned (not_not.mp hs) hstep)
  refine ⟨⟨fun hall => ⟨hunchanged.mp hall, ?_⟩, fun hall => hunchanged.mpr hall.1⟩, hconsistent⟩
  exact hconsistent.mp (hall.mono fun hc => hc.makesDirectories)

/-- A file that is made, and a second path for it. -/
theorem addFile_consistent_iff_twice :
    ∃ l, exec step (new "/d/") [⟨"f", "", "a", 1, none, ∅⟩, ⟨"f", "", "b", 1, none, ∅⟩] = some l ∧
      ((Always step Faultless (new "/d/") [⟨"f", "", "a", 1, none, ∅⟩, ⟨"f", "", "b", 1, none, ∅⟩] ↔
        Always step Unchanged (new "/d/") [⟨"f", "", "a", 1, none, ∅⟩, ⟨"f", "", "b", 1, none, ∅⟩] ∧ l.Consistent) ∧
      (Always step MakesDirectories (new "/d/") [⟨"f", "", "a", 1, none, ∅⟩, ⟨"f", "", "b", 1, none, ∅⟩] ↔
        l.Consistent)) := by
  have hrun : ∃ l, exec step (new "/d/") [⟨"f", "", "a", 1, none, ∅⟩, ⟨"f", "", "b", 1, none, ∅⟩] = some l := ⟨_, rfl⟩
  obtain ⟨l, hrun⟩ := hrun
  exact ⟨l, hrun, addFile_consistent_iff hrun⟩

/-- The directory cannot be made: there is a path for the fileid, and no file. -/
theorem directory_not_made :
    ¬ ∀ topPath calls l, exec step (new topPath) calls = some l →
      Always step Unchanged (new topPath) calls ∧ l.Consistent := by
  intro h
  obtain ⟨-, hconsistent⟩ := h "/d/" [⟨"f", "sub/", "a", 1, some .createDirectories, ∅⟩] _ rfl
  exact absurd (hconsistent.keys "f") (by decide)

end LocalFileInfo

end CoolDown
