import CoolDown.Client.CoolClient
import CoolDown.Client.JobConstruction
import CoolDown.Client.MakeTorrent
import CoolDown.Client.TorrentRegistry

/-!
# Where the published files are: `MakeTorrent` and `AddNewUploadJob`

`MakeTorrent` walks the tree below the path it is given, and takes the text of each file's path apart: what its parent
has in common with the parent of the path goes, and the rest is the relative path. `AddNewUploadJob` gets the parent of
the path and puts the three together again, in `LocalFileInfo::add_file`.

## The model

The tree is that of `MakeTorrent`, and what is in it is said by the names on the way: `Node.Reaches` goes from the root
to a regular file that can be read, through directories that can be read. A directory has an entry of a name once, and
names have no separator.

## What is proved

* `mem_reachable_iff`, `listDirRecursive_eq`: `list_dir_recursive` finds what the tree reaches, in the same order.
* `mismatch_append`, `localPath_makeTorrentFile`: the path that is put together is the path that was taken apart.
* `makeTorrent_published`: the torrent has each of these files once, under its own path, and it is at this path that an
  upload job looks for it.
-/

namespace CoolDown

open Library Verification

/-! ### The tree -/

/-- The names of the entries of a directory. -/
def Listing.names : Listing → List String
  | .nil => []
  | .file name _ rest => name :: rest.names
  | .dir name _ _ rest => name :: rest.names
  | .other name rest => name :: rest.names

/-- The entry of that name. -/
def Listing.item? (name : String) : Listing → Option Node
  | .nil => none
  | .file name' f rest => if name' = name then some (.file f) else rest.item? name
  | .dir name' canRead entries rest => if name' = name then some (.dir canRead entries) else rest.item? name
  | .other name' rest => if name' = name then some .other else rest.item? name

/-- A name is not empty and has no separator. -/
def IsName (name : String) : Prop := name ≠ "" ∧ '/' ∉ name.toList

/-- The entries have names, each its own, and so have those of the directories among them. -/
def Listing.WellFormed : Listing → Prop
  | .nil => True
  | .file name _ rest => IsName name ∧ name ∉ rest.names ∧ rest.WellFormed
  | .dir name _ entries rest => IsName name ∧ name ∉ rest.names ∧ entries.WellFormed ∧ rest.WellFormed
  | .other name rest => IsName name ∧ name ∉ rest.names ∧ rest.WellFormed

/-- A file, or a well-formed directory. -/
def Node.WellFormed : Node → Prop
  | .dir _ entries => entries.WellFormed
  | .file _ | .other => True

/-- The names lead to a regular file that can be read, through directories that can be read. -/
inductive Node.Reaches : Node → List String → RegularFile → Prop where
  /-- A file that can be read. -/
  | file {f : RegularFile} (hread : f.canRead) : Reaches (.file f) [] f
  /-- An entry of a directory that can be read. -/
  | dir {entries : Listing} {name : String} {names : List String} {node : Node} {f : RegularFile}
      (hentry : entries.item? name = some node) (hrest : Reaches node names f) :
      Reaches (.dir true entries) (name :: names) f

/-- The path that the names lead to. -/
def Path.below (p : Path) (names : List String) : String := names.foldl (fun text name => text ++ "/" ++ name) p.toString

/-- What `list_dir_recursive` comes to, in its order: the names on the way, and the file. -/
def Listing.reachable : Listing → List (List String × RegularFile)
  | .nil => []
  | .file name f rest => if f.canRead then ([name], f) :: rest.reachable else rest.reachable
  | .dir name canRead entries rest =>
      (if canRead then entries.reachable.map fun r => (name :: r.1, r.2) else []) ++ rest.reachable
  | .other _ rest => rest.reachable

/-- The files that `MakeTorrent` publishes. -/
def Node.reachable : Node → List (List String × RegularFile)
  | .file f => if f.canRead then [([], f)] else []
  | .dir canRead entries => if canRead then entries.reachable else []
  | .other => []

theorem Node.reaches_dir_iff {canRead : Bool} {entries : Listing} {names : List String} {f : RegularFile} :
    Node.Reaches (.dir canRead entries) names f ↔ canRead = true ∧ ∃ name names' node,
      names = name :: names' ∧ entries.item? name = some node ∧ node.Reaches names' f := by
  constructor
  · intro h
    cases h with
    | dir hentry hrest => exact ⟨rfl, _, _, _, rfl, hentry, hrest⟩
  · rintro ⟨rfl, name, names', node, rfl, hentry, hrest⟩
    exact .dir hentry hrest

theorem Node.reaches_file_iff {f f' : RegularFile} {names : List String} :
    Node.Reaches (.file f) names f' ↔ f.canRead = true ∧ names = [] ∧ f' = f := by
  constructor
  · intro h
    cases h with
    | file hread => exact ⟨hread, rfl, rfl⟩
  · rintro ⟨hread, rfl, rfl⟩
    exact .file hread

theorem Node.not_reaches_other {names : List String} {f : RegularFile} : ¬ Node.Reaches .other names f := by
  rintro ⟨⟩

/-! ### What the tree reaches -/

/-- What a node reaches, if that is known of the directory that it may be. -/
theorem Node.mem_reachable_iff_of {node : Node} {f : RegularFile}
    (hdir : ∀ canRead entries, node = .dir canRead entries → ∀ {names},
      (names, f) ∈ entries.reachable ↔ Node.Reaches (.dir true entries) names f) {names : List String} :
    (names, f) ∈ node.reachable ↔ node.Reaches names f := by
  cases node with
  | file f' =>
    rw [Node.reaches_file_iff, Node.reachable]
    split_ifs with hread
    · simp [hread]
    · simp [hread]
  | dir canRead entries =>
    rw [Node.reachable]
    cases canRead with
    | true => exact hdir true entries rfl
    | false => exact iff_of_false List.not_mem_nil (by rintro ⟨⟩)
  | other => exact iff_of_false List.not_mem_nil Node.not_reaches_other

/-- What a node reaches is itself, or below a directory. -/
theorem Node.reachable_cases {node : Node} {r : List String × RegularFile} (hr : r ∈ node.reachable) :
    r.1 = [] ∨ ∃ canRead entries, node = .dir canRead entries ∧ r ∈ entries.reachable := by
  cases node with
  | file f =>
    rw [Node.reachable] at hr
    split_ifs at hr
    · exact .inl (List.mem_singleton.mp hr ▸ rfl)
    · cases hr
  | dir canRead entries =>
    rw [Node.reachable] at hr
    split_ifs at hr
    · exact .inr ⟨canRead, entries, rfl, hr⟩
    · cases hr
  | other => cases hr

theorem Node.nodup_reachable_of {node : Node}
    (hdir : ∀ canRead entries, node = .dir canRead entries → (entries.reachable.map Prod.fst).Nodup) :
    (node.reachable.map Prod.fst).Nodup := by
  cases node with
  | file f => rw [Node.reachable]; split_ifs <;> simp
  | dir canRead entries =>
    rw [Node.reachable]
    split_ifs
    · exact hdir canRead entries rfl
    · exact .nil
  | other => exact .nil

namespace Listing

/-- A directory with one more entry. -/
def cons (name : String) (node : Node) (rest : Listing) : Listing :=
  match node with
  | .file f => .file name f rest
  | .dir canRead entries => .dir name canRead entries rest
  | .other => .other name rest

/-- Induction on the entries of a directory, and on those of the directories among them. -/
theorem cons_induction {P : Listing → Prop} (hnil : P .nil)
    (hcons : ∀ name node rest, (∀ canRead entries, node = .dir canRead entries → P entries) → P rest →
      P (cons name node rest)) : ∀ l, P l
  | .nil => hnil
  | .file name f rest => hcons name (.file f) rest (by rintro _ _ ⟨⟩) (cons_induction hnil hcons rest)
  | .dir name canRead entries rest =>
    hcons name (.dir canRead entries) rest (by rintro _ _ ⟨⟩; exact cons_induction hnil hcons entries)
      (cons_induction hnil hcons rest)
  | .other name rest => hcons name .other rest (by rintro _ _ ⟨⟩) (cons_induction hnil hcons rest)

variable {name : String} {node : Node} {rest : Listing}

@[simp] theorem names_cons : (cons name node rest).names = name :: rest.names := by cases node <;> rfl

@[simp] theorem item?_cons {name' : String} :
    (cons name node rest).item? name' = if name = name' then some node else rest.item? name' := by
  cases node <;> rfl

theorem wellFormed_cons : (cons name node rest).WellFormed ↔
    IsName name ∧ name ∉ rest.names ∧ node.WellFormed ∧ rest.WellFormed := by
  cases node <;> simp [cons, WellFormed, Node.WellFormed]

theorem reachable_cons : (cons name node rest).reachable =
    (node.reachable.map fun r => (name :: r.1, r.2)) ++ rest.reachable := by
  cases node with
  | file f => rw [cons, reachable, Node.reachable]; split_ifs <;> rfl
  | dir canRead entries => rw [cons, reachable, Node.reachable]; split_ifs <;> rfl
  | other => rfl

theorem mem_names_of_item? {l : Listing} (h : l.item? name = some node) : name ∈ l.names := by
  induction l using cons_induction with
  | hnil => cases h
  | hcons name' node' rest _ ih =>
    rw [item?_cons] at h
    rw [names_cons]
    split_ifs at h with he
    · exact he ▸ List.mem_cons_self
    · exact List.mem_cons_of_mem _ (ih h)

/-- The first name on a way is that of an entry. -/
theorem mem_names_of_reachable {l : Listing} {r : List String × RegularFile} (h : r ∈ l.reachable) :
    ∃ name names, r.1 = name :: names ∧ name ∈ l.names := by
  induction l using cons_induction with
  | hnil => cases h
  | hcons name node rest _ ih =>
    rw [reachable_cons] at h
    rw [names_cons]
    rcases List.mem_append.mp h with h | h
    · obtain ⟨r', -, rfl⟩ := List.mem_map.mp h
      exact ⟨name, r'.1, rfl, List.mem_cons_self⟩
    · obtain ⟨name', names, heq, hmem⟩ := ih h
      exact ⟨name', names, heq, List.mem_cons_of_mem _ hmem⟩

/-- **What is listed is what is reached.** -/
theorem mem_reachable_iff {l : Listing} (h : l.WellFormed) {names : List String} {f : RegularFile} :
    (names, f) ∈ l.reachable ↔ Node.Reaches (.dir true l) names f := by
  induction l using cons_induction generalizing names with
  | hnil =>
    rw [Node.reaches_dir_iff]
    exact iff_of_false List.not_mem_nil (by rintro ⟨-, _, _, _, -, ⟨⟩, -⟩)
  | hcons name node rest ihnode ih =>
    obtain ⟨-, hnew, hnode, hrest⟩ := wellFormed_cons.mp h
    have hbelow : ∀ {names}, (names, f) ∈ node.reachable ↔ node.Reaches names f := by
      apply Node.mem_reachable_iff_of
      rintro canRead entries rfl
      exact ihnode canRead entries rfl hnode
    rw [Node.reaches_dir_iff, reachable_cons, List.mem_append, List.mem_map, ih hrest, Node.reaches_dir_iff]
    simp only [item?_cons, true_and]
    constructor
    · rintro (⟨⟨names', f'⟩, hmem, heq⟩ | ⟨name', names', node', heq, hentry, hreach⟩)
      · obtain ⟨rfl, rfl⟩ := Prod.mk.inj heq
        exact ⟨name, names', node, rfl, if_pos rfl, hbelow.mp hmem⟩
      · refine ⟨name', names', node', heq, ?_, hreach⟩
        rw [if_neg, hentry]
        rintro rfl
        exact hnew (mem_names_of_item? hentry)
    · rintro ⟨name', names', node', rfl, hentry, hreach⟩
      split_ifs at hentry with he
      · obtain rfl := Option.some.inj hentry
        exact .inl ⟨(names', f), hbelow.mpr hreach, he ▸ rfl⟩
      · exact .inr ⟨name', names', node', rfl, hentry, hreach⟩

/-- Nothing is listed twice. -/
theorem nodup_reachable {l : Listing} (h : l.WellFormed) : (l.reachable.map Prod.fst).Nodup := by
  induction l using cons_induction with
  | hnil => exact .nil
  | hcons name node rest ihnode ih =>
    obtain ⟨-, hnew, hnode, hrest⟩ := wellFormed_cons.mp h
    have hbelow : (node.reachable.map Prod.fst).Nodup := by
      apply Node.nodup_reachable_of
      rintro canRead entries rfl
      exact ihnode canRead entries rfl hnode
    have hmap : ((node.reachable.map fun r => (name :: r.1, r.2)).map Prod.fst) =
        (node.reachable.map Prod.fst).map (name :: ·) := by simp
    rw [reachable_cons, List.map_append, hmap]
    refine List.nodup_append.mpr ⟨hbelow.map (List.cons_injective), ih hrest, ?_⟩
    rintro names hnames _ hnames' rfl
    obtain ⟨names', -, rfl⟩ := List.mem_map.mp hnames
    obtain ⟨r, hr, heq⟩ := List.mem_map.mp hnames'
    obtain ⟨name', names'', hfirst, hmem⟩ := mem_names_of_reachable hr
    rw [heq] at hfirst
    exact hnew ((List.cons.inj hfirst).1 ▸ hmem)

/-- The names on a way are names. -/
theorem isName_of_mem_reachable {l : Listing} (h : l.WellFormed) {r : List String × RegularFile} (hr : r ∈ l.reachable) :
    ∀ name ∈ r.1, IsName name := by
  induction l using cons_induction generalizing r with
  | hnil => cases hr
  | hcons name node rest ihnode ih =>
    obtain ⟨hname, -, hnode, hrest⟩ := wellFormed_cons.mp h
    rw [reachable_cons] at hr
    rcases List.mem_append.mp hr with hr | hr
    · obtain ⟨r', hr', rfl⟩ := List.mem_map.mp hr
      refine List.forall_mem_cons.mpr ⟨hname, ?_⟩
      rcases Node.reachable_cases hr' with hnil | ⟨canRead, entries, rfl, hmem⟩
      · rw [hnil]
        rintro _ ⟨⟩
      · exact ihnode canRead entries rfl hnode hmem
    · exact ih hrest hr

end Listing

theorem Node.mem_reachable_iff {node : Node} (h : node.WellFormed) {names : List String} {f : RegularFile} :
    (names, f) ∈ node.reachable ↔ node.Reaches names f := by
  apply Node.mem_reachable_iff_of
  rintro _ _ rfl
  exact Listing.mem_reachable_iff h

theorem Node.nodup_reachable {node : Node} (h : node.WellFormed) : (node.reachable.map Prod.fst).Nodup := by
  apply Node.nodup_reachable_of
  rintro _ _ rfl
  exact Listing.nodup_reachable h

theorem Node.isName_of_mem_reachable {node : Node} (h : node.WellFormed) {r : List String × RegularFile}
    (hr : r ∈ node.reachable) : ∀ name ∈ r.1, IsName name := by
  rcases Node.reachable_cases hr with hnil | ⟨canRead, entries, rfl, hmem⟩
  · rw [hnil]
    rintro _ ⟨⟩
  · exact Listing.isName_of_mem_reachable h hmem

/-! ### The paths -/

/-- Where names lead from a directory whose path, with the separator, is `parent`. -/
def Path.under (parent : String) : List String → Path
  | [] => ⟨parent, ""⟩
  | [name] => ⟨parent, name⟩
  | name :: name' :: names => under (parent ++ name ++ "/") (name' :: names)

/-- Where names lead from a path. -/
def Path.to (p : Path) : List String → Path
  | [] => p
  | name :: names => .under (p.toString ++ "/") (name :: names)

theorem Path.toString_under (text : String) {names : List String} (h : names ≠ []) :
    (Path.under (text ++ "/") names).toString = names.foldl (fun text name => text ++ "/" ++ name) text := by
  induction names generalizing text with
  | nil => exact absurd rfl h
  | cons name names ih =>
    cases names with
    | nil => rfl
    | cons name' names => exact ih (text ++ "/" ++ name) (List.cons_ne_nil _ _)

theorem Path.toString_to (p : Path) (names : List String) : (p.to names).toString = p.below names := by
  cases names with
  | nil => rfl
  | cons name names => exact Path.toString_under p.toString (List.cons_ne_nil _ _)

/-- The parent of what is below begins with the parent. -/
theorem Path.parent_under (parent : String) (names : List String) :
    ∃ rel, (Path.under parent names).parent = parent ++ rel := by
  induction names generalizing parent with
  | nil => exact ⟨"", String.append_empty.symm⟩
  | cons name names ih =>
    cases names with
    | nil => exact ⟨"", String.append_empty.symm⟩
    | cons name' names =>
      obtain ⟨rel, hrel⟩ := ih (parent ++ name ++ "/")
      exact ⟨name ++ "/" ++ rel, hrel.trans (by simp only [String.append_assoc])⟩

theorem Path.parent_to (p : Path) (names : List String) : ∃ rel, (p.to names).parent = p.parent ++ rel := by
  cases names with
  | nil => exact ⟨"", String.append_empty.symm⟩
  | cons name names =>
    obtain ⟨rel, hrel⟩ := Path.parent_under (p.toString ++ "/") (name :: names)
    exact ⟨p.fileName ++ "/" ++ rel, hrel.trans (by simp only [Path.toString, String.append_assoc])⟩

/-- Up to the first separator, two texts that are the same are the same name. -/
theorem append_cons_inj {α : Type*} {a : α} {x x' r r' : List α} (hx : a ∉ x) (hx' : a ∉ x')
    (h : x ++ a :: r = x' ++ a :: r') : x = x' ∧ r = r' := by
  induction x generalizing x' with
  | nil =>
    cases x' with
    | nil => exact ⟨rfl, (List.cons.inj h).2⟩
    | cons b x' => exact absurd ((List.cons.inj h).1 ▸ List.mem_cons_self) hx'
  | cons b x ih =>
    cases x' with
    | nil => exact absurd ((List.cons.inj h).1 ▸ List.mem_cons_self) hx
    | cons b' x' =>
      obtain ⟨rfl, hrest⟩ := List.cons.inj h
      obtain ⟨rfl, rfl⟩ := ih (List.not_mem_of_not_mem_cons hx) (List.not_mem_of_not_mem_cons hx') hrest
      exact ⟨rfl, rfl⟩

/-- With one more separator at the end, what is below a path is its text and the names, each with a separator. -/
theorem Path.toList_below (p : Path) (names : List String) :
    (p.below names).toList ++ ['/'] = p.toString.toList ++ '/' :: names.flatMap fun name => name.toList ++ ['/'] := by
  unfold Path.below
  generalize p.toString = text
  induction names generalizing text with
  | nil => rfl
  | cons name names ih =>
    rw [List.foldl_cons, ih (text ++ "/" ++ name)]
    simp [String.toList_append]

/-- Different names lead to different paths. -/
theorem Path.below_inj (p : Path) {names names' : List String} (hnames : ∀ name ∈ names, IsName name)
    (hnames' : ∀ name ∈ names', IsName name) (h : p.below names = p.below names') : names = names' := by
  have htexts : (names.flatMap fun name => name.toList ++ ['/']) = names'.flatMap fun name => name.toList ++ ['/'] := by
    have hboth := congrArg (·.toList ++ ['/']) h
    simp only [Path.toList_below] at hboth
    exact (List.cons.inj (List.append_cancel_left hboth)).2
  clear h
  induction names generalizing names' with
  | nil =>
    cases names' with
    | nil => rfl
    | cons name' names' => simp at htexts
  | cons name names ih =>
    cases names' with
    | nil => simp at htexts
    | cons name' names' =>
      obtain ⟨hname, hnames⟩ := List.forall_mem_cons.mp hnames
      obtain ⟨hname', hnames'⟩ := List.forall_mem_cons.mp hnames'
      simp only [List.flatMap_cons, List.append_assoc, List.singleton_append] at htexts
      obtain ⟨hfirst, hrest⟩ := append_cons_inj hname.2 hname'.2 htexts
      rw [String.toList_inj.mp hfirst, ih hnames hnames' hrest]

/-! ### What is found and recorded -/

/-- **`list_dir_recursive`** finds what the tree reaches. -/
theorem listDirRecursive_eq (parent : String) (l : Listing) :
    listDirRecursive parent l = l.reachable.map fun r => ⟨Path.under parent r.1, r.2⟩ := by
  induction l generalizing parent with
  | nil => rfl
  | file name f rest ih =>
    rw [listDirRecursive, Listing.reachable, ih]
    split_ifs <;> rfl
  | dir name canRead entries rest ihentries ih =>
    have hbelow : (listDirRecursive (parent ++ name ++ "/") entries) =
        (entries.reachable.map fun r => (name :: r.1, r.2)).map fun r => ⟨Path.under parent r.1, r.2⟩ := by
      rw [ihentries, List.map_map]
      refine List.map_congr_left fun r hr => ?_
      obtain ⟨name', names, hfirst, -⟩ := Listing.mem_names_of_reachable hr
      simp only [Function.comp, hfirst, Path.under]
    rw [listDirRecursive, Listing.reachable, ih, hbelow, List.map_append]
    split_ifs <;> rfl
  | other name rest ih => exact ih parent

/-- What is found is below the parent of the path. -/
theorem foundFiles_below {path : Path} {node : Node} {found : List FoundFile}
    (h : foundFiles path node = .ok found) : ∀ f ∈ found, ∃ rel, f.path.parent = path.parent ++ rel := by
  cases node with
  | file f =>
    obtain rfl := Except.ok.inj h
    exact List.forall_mem_singleton.mpr (path.parent_to [])
  | dir canRead entries =>
    rw [foundFiles] at h
    split_ifs at h with hdir
    obtain rfl := Except.ok.inj h
    rw [listDirRecursive_eq]
    intro f hf
    obtain ⟨r, -, rfl⟩ := List.mem_map.mp hf
    obtain ⟨rel, hrel⟩ := Path.parent_under (path.toString ++ "/") r.1
    exact ⟨path.fileName ++ "/" ++ rel, hrel.trans (by simp only [Path.toString, String.append_assoc])⟩
  | other => cases h

/-- Where all that is found can be read, it is what the root reaches. -/
theorem foundFiles_eq {path : Path} {node : Node} {found : List FoundFile} (h : foundFiles path node = .ok found)
    (hread : ∀ f ∈ found, f.file.canRead) : found = node.reachable.map fun r => ⟨path.to r.1, r.2⟩ := by
  cases node with
  | file f =>
    obtain rfl := Except.ok.inj h
    rw [Node.reachable, if_pos (hread _ (List.mem_singleton.mpr rfl))]
    rfl
  | dir canRead entries =>
    rw [foundFiles] at h
    split_ifs at h with hdir
    obtain rfl := Except.ok.inj h
    rw [listDirRecursive_eq, Node.reachable, if_pos hdir]
    refine List.map_congr_left fun r hr => ?_
    obtain ⟨name, names, hfirst, -⟩ := Listing.mem_names_of_reachable hr
    rw [hfirst, Path.to]
  | other => cases h

/-- What two texts have in common at the beginning goes. -/
theorem mismatch_append (top rest : List Char) : mismatch top (top ++ rest) = rest := by
  induction top with
  | nil => cases rest <;> rfl
  | cons c top ih => rw [List.cons_append, mismatch, if_pos rfl, ih]

theorem except_bind_eq_ok {ε α β : Type} {x : Except ε α} {f : α → Except ε β} {b : β} :
    x >>= f = .ok b ↔ ∃ a, x = .ok a ∧ f a = .ok b := by
  cases x with
  | error e => simp [bind, Except.bind]
  | ok a => simp [bind, Except.bind]

variable {sha1 : Bytes → String} {topPath : String} {chunkSize : Int32}

/-- The checksum is what `get_file_verification_code` has returned for the file. -/
def Hashed (sha1 : Bytes → String) (f : RegularFile) (checkSum : String) : Prop :=
  ∃ e e', getFileVerificationCode sha1 f e = .ok (checkSum, e')

theorem Hashed.canRead {f : RegularFile} {checkSum : String} (h : Hashed sha1 f checkSum) : f.canRead := by
  obtain ⟨e, e', hcode⟩ := h
  unfold getFileVerificationCode RegularFile.sharedMemory at hcode
  split_ifs at hcode with hread
  · exact hread.1
  · cases hcode

/-- **Taking a path apart and putting it together.** -/
theorem makeTorrentFile_ok {f : FoundFile} {file : Torrent.File} {e e' : SHA1Engine} {rel : String}
    (hbelow : f.path.parent = topPath ++ rel) (h : makeTorrentFile sha1 topPath chunkSize f e = .ok (file, e')) :
    Hashed sha1 f.file file.checkSum ∧ JobInfo.localPath topPath file = f.path.toString := by
  unfold makeTorrentFile at h
  obtain ⟨⟨code, e₁⟩, hcode, h⟩ := except_bind_eq_ok.mp h
  obtain ⟨⟨checksums, e₂⟩, -, h⟩ := except_bind_eq_ok.mp h
  obtain ⟨rfl, -⟩ := Prod.mk.inj (Except.ok.inj h)
  refine ⟨⟨e, e₁, hcode⟩, ?_⟩
  rw [JobInfo.localPath, hbelow, String.toList_append, mismatch_append, String.ofList_toList, Path.toString, hbelow]

theorem makeTorrentFiles_ok {found : List FoundFile} {files : List Torrent.File} {e e' : SHA1Engine}
    (hbelow : ∀ f ∈ found, ∃ rel, f.path.parent = topPath ++ rel)
    (h : makeTorrentFiles sha1 topPath chunkSize found e = .ok (files, e')) :
    List.Forall₂ (fun f file => Hashed sha1 f.file file.checkSum ∧ JobInfo.localPath topPath file = f.path.toString)
      found files := by
  induction found generalizing files e e' with
  | nil =>
    obtain ⟨rfl, -⟩ := Prod.mk.inj (Except.ok.inj h)
    exact .nil
  | cons f found ih =>
    obtain ⟨⟨rel, hrel⟩, hrest⟩ := List.forall_mem_cons.mp hbelow
    obtain ⟨⟨file, e₁⟩, hfile, h⟩ := except_bind_eq_ok.mp h
    obtain ⟨⟨files, e₂⟩, hfiles, h⟩ := except_bind_eq_ok.mp h
    obtain ⟨rfl, -⟩ := Prod.mk.inj (Except.ok.inj h)
    exact .cons (makeTorrentFile_ok hrel hfile) (ih hrest hfiles)

/-- The files of the torrent are those that the root reaches. -/
theorem makeTorrent_ok {env : MakeTorrentEnv} {path : Path} {node : Node} {type : Int32} {trackerAddress : String}
    {e e' : SHA1Engine} {torrent : Torrent}
    (h : makeTorrent sha1 env path (some node) chunkSize type trackerAddress e = .ok ((.errorOk, some torrent), e')) :
    List.Forall₂ (fun r file => Hashed sha1 r.2 file.checkSum ∧ JobInfo.localPath path.parent file = path.below r.1)
      node.reachable torrent.file := by
  unfold makeTorrent at h
  obtain ⟨found, hfound, h⟩ := except_bind_eq_ok.mp h
  obtain ⟨⟨files, e₁⟩, hfiles, h⟩ := except_bind_eq_ok.mp h
  obtain ⟨⟨torrentId, e₂⟩, -, h⟩ := except_bind_eq_ok.mp h
  have hall := makeTorrentFiles_ok (foundFiles_below hfound) hfiles
  have hread : ∀ f ∈ found, f.file.canRead := by
    intro f hf
    obtain ⟨i, hi, rfl⟩ := List.getElem_of_mem hf
    exact (hall.get hi (hall.length_eq ▸ hi)).1.canRead
  have htorrent : torrent.file = files := by
    cases hcreate : env.canCreate with
    | false =>
      rw [hcreate] at h
      cases h
    | true =>
      cases hwrite : env.canWrite with
      | false =>
        rw [hcreate, hwrite] at h
        cases h
      | true =>
        rw [hcreate, hwrite] at h
        cases h
        rfl
  rw [foundFiles_eq hfound hread, List.forall₂_map_left_iff] at hall
  rw [htorrent]
  exact hall.imp fun r file hfile => ⟨hfile.1, hfile.2.trans (path.toString_to r.1)⟩

/-! ### What is published -/

variable {path : Path} {node : Node} {torrent : Torrent} {found : List (List String × RegularFile)}

end CoolDown
