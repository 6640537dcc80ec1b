import CoolDown.Client.JobInfo

/-!
# Where a copy is written: `File::copyTo`

The path that `File::copyTo` is given may be that of a directory. The copy is then made in it, under the
name of the source. A file that is there is emptied before anything is read, also if it is the source.

## The model

The disk has the regular files. A path is that of a directory if something lies below it, or if it ends in
a slash. Of a directory in which there is no file the disk says nothing: that one is at the target is said
to `copyTo`, as `emptyDir`. Where there is a file there is no directory.

What is copied is a regular file, or is not there; then, and where nothing can be written, `copyTo` throws.
`createDirectories`, before the copy, makes the directories that its path has.

## What is proved

* `copyTo_eq_some`: what a copy that does not throw leaves.
* `copyPath_eq_target`: it is made at the target, if this is not a directory.
* `isDirectory_insert_copyPath`: a target that is one is one ever after.
-/

namespace CoolDown

open Library

/-- The path is that of something in the directory, or further down. -/
def isBelow (path dir : String) : Bool := (dir.toList ++ ['/']).isPrefixOf path.toList

/-- The path is written as that of a directory. -/
def endsInSlash (path : String) : Bool := path.toList.getLast? == some '/'

/-- `Path::getFileName`. -/
def fileName (path : String) : String := String.ofList (path.toList.reverse.takeWhile fun c => c ≠ '/').reverse

namespace Disk

variable (disk : Disk)

/-- There is a directory at the path, by its name, or because a file lies below. -/
def isDirectory (path : String) : Bool := endsInSlash path || disk.keys.any fun p => isBelow p path

/-- No file can be written at the path: there is a directory, or a file in the place of one. -/
def blocked (path : String) : Bool := disk.isDirectory path || disk.keys.any fun p => isBelow path p

/-- A copy to this target is made in a directory; `emptyDir` says that there is one with no file in it. -/
def takesIn (emptyDir : Bool) (target : String) : Bool :=
  (disk.find? target).isNone && (emptyDir || disk.isDirectory target)

/-- Where a copy is written. -/
def copyPath (emptyDir : Bool) (source target : String) : String :=
  if disk.takesIn emptyDir target then
    if endsInSlash target then target ++ fileName source else target ++ "/" ++ fileName source
  else target

/-- `File::copyTo`: `none` if it throws. -/
def copyTo (emptyDir : Bool) (source target : String) : Option Disk :=
  let path := disk.copyPath emptyDir source target
  match disk.find? source with
  | none => none
  | some content => if disk.blocked path then none else some (disk.insert path (if path = source then [] else content))

variable {disk} {emptyDir : Bool} {source target path : String} {content : Bytes}

theorem isDirectory_iff : disk.isDirectory path ↔ endsInSlash path ∨ ∃ p ∈ disk.keys, isBelow p path := by
  simp [isDirectory]

/-- **What a copy leaves.** -/
theorem copyTo_eq_some {disk' : Disk} : disk.copyTo emptyDir source target = some disk' ↔
    ∃ content, disk.find? source = some content ∧ disk.blocked (disk.copyPath emptyDir source target) = false ∧
      disk' = disk.insert (disk.copyPath emptyDir source target)
        (if disk.copyPath emptyDir source target = source then [] else content) := by
  unfold copyTo
  generalize disk.copyPath emptyDir source target = path
  cases disk.find? source with
  | none => simp
  | some content =>
    cases hblocked : disk.blocked path with
    | true => simp [hblocked]
    | false => simp [hblocked, @eq_comm _ disk']

theorem copyPath_eq_target (h : disk.takesIn emptyDir target = false) : disk.copyPath emptyDir source target = target := by
  rw [copyPath, if_neg (by simp [h])]

/-- A path with a file below is blocked. -/
theorem blocked_of_isDirectory (h : disk.isDirectory path) : disk.blocked path := by simp [blocked, h]

/-- A file that is written takes no directory away. -/
theorem isDirectory_insert (h : disk.isDirectory path) (p : String) (content : Bytes) :
    Disk.isDirectory (disk.insert p content) path := by
  rw [isDirectory_iff] at h ⊢
  exact h.imp_right fun ⟨q, hq, hbelow⟩ => ⟨q, SortedMap.mem_keys_insert.mpr (.inr hq), hbelow⟩

theorem isBelow_append (dir name : String) : isBelow (dir ++ "/" ++ name) dir := by
  simp [isBelow, String.toList_append]

/-- A directory that a copy is made in has a file then. -/
theorem isDirectory_insert_copyPath (h : disk.takesIn emptyDir target) (content : Bytes) :
    Disk.isDirectory (disk.insert (disk.copyPath emptyDir source target) content) target := by
  rw [isDirectory_iff]
  by_cases hslash : endsInSlash target
  · exact .inl hslash
  · refine .inr ⟨_, SortedMap.mem_keys_insert.mpr (.inl rfl), ?_⟩
    rw [copyPath, if_pos h, if_neg hslash]
    exact isBelow_append ..

/-- No copy is made over it. -/
theorem copyPath_ne_of_isDirectory {disk' : Disk} (h : disk.copyTo emptyDir source target = some disk')
    (hpath : disk.isDirectory path) : disk.copyPath emptyDir source target ≠ path := by
  obtain ⟨content, -, hfree, -⟩ := copyTo_eq_some.mp h
  rintro rfl
  rw [blocked_of_isDirectory hpath] at hfree
  cases hfree

/-- Nor is one made in a directory made in its place. -/
theorem copyPath_ne_target {disk' : Disk} (htakes : disk.takesIn emptyDir target)
    (h : disk.copyTo emptyDir source target = some disk') : disk.copyPath emptyDir source target ≠ target := by
  by_cases hslash : endsInSlash target
  · exact copyPath_ne_of_isDirectory h (isDirectory_iff.mpr (.inl hslash))
  · rw [copyPath, if_pos htakes, if_neg hslash]
    intro heq
    have hlen := congrArg String.length heq
    simp only [String.length_append] at hlen
    have : "/".length = 1 := rfl
    omega

/-- A file `a` is copied to a directory `d`, in which there is another file `a`. -/
example : Disk.copyTo (((∅ : Disk).insert "/t/a" [7]).insert "/t/d/a" [8]) false "/t/a" "/t/d" =
    some (((∅ : Disk).insert "/t/a" [7]).insert "/t/d/a" [7]) := by decide

end Disk

end CoolDown
