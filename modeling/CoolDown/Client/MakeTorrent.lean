import CoolDown.Client.Torrent
import CoolDown.Client.Verification
import Mathlib.Algebra.BigOperators.Ring.Finset

/-!
# Publishing: `MakeTorrent`

`MakeTorrent` lists the files under a path, hashes each of them whole and chunk by
chunk, and records the chunks in a torrent. Three computations must agree for the
result to be usable: the loop of `get_file_checksum_list`, which decides which bytes
each checksum is of; the sizes, all `chunk_size` but the last, which is `file_size %
chunk_size`; and `chunk_offset`, which a downloader computes from the sizes.

## The model

A directory is a `Listing`, its entries in the order `File::list` returns them. A
`Path` is the text of its parent, with the separator at the end, and a file name;
`Path::parent().toString()` is the first, `toString()` both. The engine of
`Verification` is passed along, and every exception ends the call.

## What is proved

* `makeTorrentFiles_recorded`: the files of the torrent are the files found, one for one.
* `Recorded.uniformlyTiled`: where `chunk_size` does not divide the size of the file,
  its chunks are uniformly tiled.
* `makeTorrent_tiles_iff`: the recorded chunks tile the file exactly in that case.
  Otherwise the last chunk is recorded with size `0`.
-/

namespace CoolDown

open Library Verification

/-- A path: its parent's text, which ends with the separator, and its file name. -/
structure Path where
  parent : String
  fileName : String
  deriving DecidableEq

/-- `Path::toString`. -/
def Path.toString (p : Path) : String := p.parent ++ p.fileName

/-- The entries of a directory, in the order in which they are listed. -/
inductive Listing where
  /-- No more entries. -/
  | nil
  /-- A regular file. -/
  | file (name : String) (f : RegularFile) (rest : Listing)
  /-- A directory. -/
  | dir (name : String) (canRead : Bool) (entries rest : Listing)
  /-- Neither: a device, a pipe or a socket. -/
  | other (name : String) (rest : Listing)

/-- What a path names. -/
inductive Node where
  /-- A regular file. -/
  | file (f : RegularFile)
  /-- A directory. -/
  | dir (canRead : Bool) (entries : Listing)
  /-- Neither. -/
  | other

/-- A file found: where it is, and the file. -/
structure FoundFile where
  path : Path
  file : RegularFile

/-- `list_dir_recursive`, for the directory whose path, with the separator, is `parent`. -/
def listDirRecursive (parent : String) : Listing → List FoundFile
  | .nil => []
  | .file name f rest => if f.canRead then ⟨⟨parent, name⟩, f⟩ :: listDirRecursive parent rest else listDirRecursive parent rest
  | .dir name canRead entries rest =>
      (if canRead then listDirRecursive (parent ++ name ++ "/") entries else []) ++ listDirRecursive parent rest
  | .other _ rest => listDirRecursive parent rest

/-- What is left of the second text after `std::mismatch` with the first. -/
def mismatch : List Char → List Char → List Char
  | a :: as, b :: bs => if a = b then mismatch as bs else b :: bs
  | _, bs => bs

/-- The chunks of one file: the last one has size `lastChunkSize`. -/
def addChunks (chunkSize lastChunkSize : Int32) : List String → List Torrent.Chunk
  | [] => []
  | [code] => [⟨code, lastChunkSize⟩]
  | code :: code' :: codes => ⟨code, chunkSize⟩ :: addChunks chunkSize lastChunkSize (code' :: codes)

variable (sha1 : Bytes → String)

/-- One round of the loop over the files: the file as it is recorded. -/
def makeTorrentFile (topPath : String) (chunkSize : Int32) (f : FoundFile) (e : SHA1Engine) :
    Except Exception (Torrent.File × SHA1Engine) := do
  let (fileCheckSum, e) ← getFileVerificationCode sha1 f.file e
  let fileSize := f.file.getSize
  let (checksums, e) ← getFileChecksumList sha1 f.file chunkSize [] e
  let lastChunkSize := Int32.ofInt (fileSize.toInt.tmod chunkSize.toInt)
  return ({ checkSum := fileCheckSum
            relativePath := String.ofList (mismatch topPath.toList f.path.parent.toList)
            filename := f.path.fileName
            size := fileSize
            chunk := addChunks chunkSize lastChunkSize checksums }, e)

/-- The loop over the files. -/
def makeTorrentFiles (topPath : String) (chunkSize : Int32) :
    List FoundFile → SHA1Engine → Except Exception (List Torrent.File × SHA1Engine)
  | [], e => .ok ([], e)
  | f :: fs, e => do
    let (file, e) ← makeTorrentFile sha1 topPath chunkSize f e
    let (files, e) ← makeTorrentFiles topPath chunkSize fs e
    return (file :: files, e)

/-- The files `MakeTorrent` publishes: the file itself, or those under the directory. -/
def foundFiles (path : Path) : Node → Except Exception (List FoundFile)
  | .file f => .ok [⟨path, f⟩]
  | .dir canRead entries => if canRead then .ok (listDirRecursive (path.toString ++ "/") entries) else .error .file
  | .other => .error .file

/-- What `MakeTorrent` reads besides its arguments and the files: the client's id, the
time, and whether the torrent file can be created and written. -/
structure MakeTorrentEnv where
  clientid : String
  currentTime : String
  canCreate : Bool
  canWrite : Bool

/-- `torrent_id_source`: path, name and checksum of every file, one after another. -/
def torrentIdSource (files : List (FoundFile × Torrent.File)) : String :=
  files.foldl (fun s f => s ++ f.1.path.parent ++ f.1.path.fileName ++ f.2.checkSum) ""

/-- `MakeTorrent`: the code it returns, and the torrent it has written. -/
def makeTorrent (env : MakeTorrentEnv) (path : Path) (node : Option Node) (chunkSize type : Int32)
    (trackerAddress : String) (e : SHA1Engine) :
    Except Exception ((Retcode × Option Torrent) × SHA1Engine) :=
  match node with
  | none => .ok ((.errorFileNotExists, none), e)
  | some node => do
    let found ← foundFiles path node
    let (files, e) ← makeTorrentFiles sha1 path.parent chunkSize found e
    let (torrentId, e) ← getVerificationCode sha1 (torrentIdSource (found.zip files)).toUTF8.data.toList e
    if !env.canCreate then return ((.errorFileCannotCreate, none), e)
    if !env.canWrite then throw .assertion
    return ((.errorOk, some { torrentId := torrentId
                              type := type
                              totalSize := files.foldl (fun n f => n + f.size) 0
                              createBy := env.clientid
                              createTime := env.currentTime
                              trackerAddress := trackerAddress
                              file := files }), e)

/-! ### What is recorded of a file -/

/-- What the loop records of a file's size and chunks. -/
structure Recorded (chunkSize : Int32) (f : RegularFile) (file : Torrent.File) : Prop where
  size_eq : file.size = f.getSize
  chunk_eq : file.chunk = addChunks chunkSize (Int32.ofInt (f.getSize.toInt.tmod chunkSize.toInt))
    ((pieces f chunkSize).map (rangeChecksum sha1 f.content))

/-- The chunks recorded for `f` tile it: there is one for each checksum of
`get_file_checksum_list`, its size is the length of the range whose digest it
records, its offset is the start of that range and the sum of the sizes before it,
and the sizes are positive and sum to the recorded size, that of the file. -/
structure Tiles (chunkSize : Int32) (f : RegularFile) (file : Torrent.File) : Prop where
  checksums : ∀ e, ∃ e', getFileChecksumList sha1 f chunkSize [] e = .ok (file.chunk.map (·.checkSum), e')
  count : file.chunkCount = (pieces f chunkSize).length
  checksum : ∀ i r, (pieces f chunkSize)[i]? = some r → file.chunkChecksum i = rangeChecksum sha1 f.content r
  size : ∀ i r, (pieces f chunkSize)[i]? = some r → file.chunkSize i = ((r.2 - r.1 : ℕ) : ℤ)
  offset : ∀ i r, (pieces f chunkSize)[i]? = some r → (file.chunkOffset i).toNat = r.1
  offset_sum : ∀ i < file.chunkCount, ((file.chunkOffset i).toNat : ℤ) = (file.sizes.take i).sum
  pos : ∀ i < file.chunkCount, 0 < file.chunkSize i
  sum : file.sizes.sum = file.size.toInt
  total : file.size.toInt = f.content.length

variable {sha1} {chunkSize : Int32} {f : RegularFile} {file : Torrent.File}

theorem addChunks_append_singleton (chunkSize last : Int32) (codes : List String) (code : String) :
    addChunks chunkSize last (codes ++ [code]) = codes.map (fun c => ⟨c, chunkSize⟩) ++ [⟨code, last⟩] := by
  induction codes with
  | nil => rfl
  | cons c codes ih =>
    cases codes with
    | nil => rfl
    | cons c' codes => exact congrArg _ ih

/-- A file that can be read and is not empty is recorded. -/
theorem makeTorrentFile_recorded (hs : 0 < chunkSize) {f : FoundFile}
    (hr : f.file.canRead) (hc : f.file.content ≠ []) (topPath : String) (e : SHA1Engine) :
    ∃ file e', makeTorrentFile sha1 topPath chunkSize f e = .ok (file, e') ∧
      Recorded sha1 chunkSize f.file file := by
  have hsm : f.file.sharedMemory = .ok f.file.content := if_pos ⟨hr, hc⟩
  simp only [makeTorrentFile, getFileVerificationCode, hsm, getFileChecksumList_eq sha1 hs hr hc, List.nil_append]
  exact ⟨_, _, rfl, rfl, rfl⟩

/-- The files of the torrent are the files found, one for one. -/
theorem makeTorrentFiles_recorded (hs : 0 < chunkSize) {found : List FoundFile}
    (hr : ∀ f ∈ found, f.file.canRead ∧ f.file.content ≠ []) (topPath : String) (e : SHA1Engine) :
    ∃ files e', makeTorrentFiles sha1 topPath chunkSize found e = .ok (files, e') ∧
      List.Forall₂ (fun f file => Recorded sha1 chunkSize f.file file) found files := by
  induction found generalizing e with
  | nil => exact ⟨[], e, rfl, .nil⟩
  | cons f found ih =>
    obtain ⟨hf, hfs⟩ := List.forall_mem_cons.mp hr
    obtain ⟨file, e₁, he₁, hfile⟩ := makeTorrentFile_recorded hs hf.1 hf.2 topPath e
    obtain ⟨files, e₂, he₂, hfiles⟩ := ih hfs e₁
    refine ⟨file :: files, e₂, ?_, .cons hfile hfiles⟩
    rw [makeTorrentFiles, he₁]
    simp only [bind, Except.bind, he₂]
    rfl

/-! ### Tiling -/

theorem pieces_eq {k : ℕ} (hk : k * chunkSize.toInt.toNat < f.content.length)
    (hk' : f.content.length ≤ (k + 1) * chunkSize.toInt.toNat) :
    pieces f chunkSize = (List.range k).map (fun i => (i * chunkSize.toInt.toNat, (i + 1) * chunkSize.toInt.toNat)) ++
      [(k * chunkSize.toInt.toNat, f.content.length)] := by
  rw [pieces, @cut_eq _ 0 _ k (by omega) (by omega)]
  simp only [Nat.zero_add]

/-- The size recorded last is the remainder. -/
theorem toInt_lastChunkSize (hs : 0 < chunkSize) (f : RegularFile) :
    (Int32.ofInt (f.getSize.toInt.tmod chunkSize.toInt)).toInt =
      ((f.content.length % chunkSize.toInt.toNat : ℕ) : ℤ) := by
  have hpos : 0 < chunkSize.toInt := Int32.lt_iff_toInt_lt.mp hs
  have hmax := chunkSize.toInt_lt
  have hlt := Nat.mod_lt f.content.length (show 0 < chunkSize.toInt.toNat by omega)
  have hmod : f.getSize.toInt.tmod chunkSize.toInt = ((f.content.length % chunkSize.toInt.toNat : ℕ) : ℤ) := by
    rw [RegularFile.toInt_getSize, Int.natCast_emod, Int.toNat_of_nonneg hpos.le]
    exact Int.tmod_eq_emod_of_nonneg (Int.natCast_nonneg _)
  rw [hmod]
  exact Int32.toInt_ofInt_of_le (by omega) (by omega)

/-- The recorded sizes: full chunks, then the remainder. -/
theorem Recorded.sizes_eq {k : ℕ} (h : Recorded sha1 chunkSize f file) (hs : 0 < chunkSize)
    (hk : k * chunkSize.toInt.toNat < f.content.length) (hk' : f.content.length ≤ (k + 1) * chunkSize.toInt.toNat) :
    file.sizes = List.replicate k chunkSize.toInt ++ [((f.content.length % chunkSize.toInt.toNat : ℕ) : ℤ)] := by
  rw [Torrent.File.sizes, h.chunk_eq, pieces_eq hk hk', List.map_append, List.map_cons, List.map_nil,
    addChunks_append_singleton, List.map_append, List.map_map, List.map_map, List.map_cons, List.map_nil,
    toInt_lastChunkSize hs]
  congr 1
  exact List.eq_replicate_iff.mpr ⟨by simp, by simp⟩

/-- The recorded checksums are those of `get_file_checksum_list`. -/
theorem Recorded.checksums_eq (h : Recorded sha1 chunkSize f file) :
    file.chunk.map (·.checkSum) = (pieces f chunkSize).map (rangeChecksum sha1 f.content) := by
  rw [h.chunk_eq]
  generalize (pieces f chunkSize).map (rangeChecksum sha1 f.content) = codes
  induction codes using addChunks.induct with
  | case1 => rfl
  | case2 code => rfl
  | case3 code code' codes ih => exact congrArg (code :: ·) ih

/-- The remainder is the length of the last piece, unless that is a full one. -/
theorem mod_eq_sub {n s k : ℕ} (hk : k * s < n) (hk' : n ≤ (k + 1) * s) (hd : ¬ s ∣ n) : n % s = n - k * s := by
  have hne : n ≠ (k + 1) * s := fun h => hd (h ▸ Nat.dvd_mul_left s (k + 1))
  have hsucc : (k + 1) * s = k * s + s := Nat.succ_mul k s
  have hn : n = n - k * s + s * k := by rw [Nat.mul_comm s]; omega
  rw [hn, Nat.add_mul_mod_self_left, Nat.mod_eq_of_lt (by omega), ← hn]

/-- Where `chunk_size` does not divide the size, the recorded sizes are the lengths of
the ranges. -/
theorem Recorded.sizes_eq_length (h : Recorded sha1 chunkSize f file) (hs : 0 < chunkSize) (hc : f.content ≠ [])
    (hd : ¬ chunkSize.toInt ∣ f.content.length) :
    Uniform chunkSize.toInt file.sizes ∧ file.sizes = (pieces f chunkSize).map fun r => ((r.2 - r.1 : ℕ) : ℤ) := by
  have hpos : 0 < chunkSize.toInt := Int32.lt_iff_toInt_lt.mp hs
  have hcast : (chunkSize.toInt.toNat : ℤ) = chunkSize.toInt := Int.toNat_of_nonneg hpos.le
  have hlt : 0 < chunkSize.toInt.toNat := Int.natCast_pos.mp (hcast ▸ hpos)
  obtain ⟨k, hk, hk'⟩ : ∃ k, 0 + k * chunkSize.toInt.toNat < f.content.length ∧
      f.content.length ≤ 0 + (k + 1) * chunkSize.toInt.toNat :=
    ⟨_, cut_bounds hlt (List.length_pos_iff.mpr hc)⟩
  have hlen := congrArg (List.map (Nat.cast : ℕ → ℤ)) (map_length_cut hk hk')
  rw [Nat.zero_add] at hk hk'
  have hsizes := h.sizes_eq hs hk hk'
  rw [mod_eq_sub hk hk' (by rwa [← Int.natCast_dvd_natCast, hcast])] at hsizes
  have hsucc : (k + 1) * chunkSize.toInt.toNat = k * chunkSize.toInt.toNat + chunkSize.toInt.toNat := Nat.succ_mul k _
  refine ⟨⟨k, _, hsizes, by omega, by omega⟩, ?_⟩
  rw [List.map_map, List.map_append, List.map_replicate, hcast] at hlen
  exact hsizes.trans hlen.symm

/-- The sizes sum to the size of the file. -/
theorem sum_length_pieces (f : RegularFile) (chunkSize : Int32) :
    ((pieces f chunkSize).map fun r => ((r.2 - r.1 : ℕ) : ℤ)).sum = f.content.length := by
  have := congrArg (Nat.cast : ℕ → ℤ) (sum_length_cut chunkSize.toInt.toNat (Nat.zero_le f.content.length))
  rwa [Nat.cast_list_sum, List.map_map] at this

/-- Where `chunk_size` does not divide the size, the file is uniformly tiled. -/
theorem Recorded.uniformlyTiled (h : Recorded sha1 chunkSize f file) (hs : 0 < chunkSize) (hc : f.content ≠ [])
    (hd : ¬ chunkSize.toInt ∣ f.content.length) : file.UniformlyTiled := by
  obtain ⟨hu, hsizes⟩ := h.sizes_eq_length hs hc hd
  constructor
  · refine hu.of_getElem?_zero (Torrent.File.sizes_getElem? ?_)
    rw [← Torrent.File.length_sizes]
    exact hu.length_pos
  · rw [hsizes, sum_length_pieces, h.size_eq, RegularFile.toInt_getSize]

theorem Recorded.chunkCount_eq (h : Recorded sha1 chunkSize f file) : file.chunkCount = (pieces f chunkSize).length := by
  have := congrArg List.length (h.checksums_eq)
  rwa [List.length_map, List.length_map] at this

theorem Recorded.chunkChecksum_eq (h : Recorded sha1 chunkSize f file) {i : ℕ} {r : ℕ × ℕ}
    (hr : (pieces f chunkSize)[i]? = some r) :
    file.chunkChecksum i = rangeChecksum sha1 f.content r := by
  have := congrArg (·[i]?) (h.checksums_eq)
  simp only [List.getElem?_map, hr, Option.map_some, Option.map_eq_some_iff] at this
  obtain ⟨c, hc, hr'⟩ := this
  rw [Torrent.File.chunkChecksum, hc]
  exact hr'

/-- Where `chunk_size` does not divide the size, the recorded chunks tile the file. -/
theorem Recorded.tiles (h : Recorded sha1 chunkSize f file) (hs : 0 < chunkSize) (hr : f.canRead) (hc : f.content ≠ [])
    (hd : ¬ chunkSize.toInt ∣ f.content.length) : Tiles sha1 chunkSize f file := by
  have htiled := h.uniformlyTiled hs hc hd
  obtain ⟨hu, hsizes⟩ := h.sizes_eq_length hs hc hd
  have hcount := h.chunkCount_eq
  have hoffset : ∀ i < file.chunkCount, ((file.chunkOffset i).toNat : ℤ) = (file.sizes.take i).sum := by
    intro i hi
    rw [Torrent.File.toNat_chunkOffset htiled hi, Torrent.File.sum_take_sizes htiled hi]
  refine ⟨?_, hcount, fun i r => h.chunkChecksum_eq, ?_, ?_, hoffset, ?_, htiled.2, ?_⟩
  · intro e
    rw [h.checksums_eq]
    exact ⟨_, getFileChecksumList_eq sha1 hs hr hc [] e⟩
  · intro i r hir
    have hi : i < file.chunkCount := hcount ▸ (List.getElem?_eq_some_iff.mp hir).1
    have hsize := Torrent.File.sizes_getElem? hi
    rw [hsizes, List.getElem?_map, hir] at hsize
    exact (Option.some.inj hsize).symm
  · intro i r hir
    have hi : i < file.chunkCount := hcount ▸ (List.getElem?_eq_some_iff.mp hir).1
    have hoff := hoffset i hi
    rw [hu.sum_take (by rwa [Torrent.File.length_sizes]), nsmul_eq_mul] at hoff
    have hstart := fst_of_getElem?_cut hir
    have hcast : (chunkSize.toInt.toNat : ℤ) = chunkSize.toInt :=
      Int.toNat_of_nonneg (Int32.lt_iff_toInt_lt.mp hs).le
    rw [Nat.zero_add] at hstart
    rw [← Int.natCast_inj, hoff, hstart, Nat.cast_mul, hcast]
  · intro i hi
    exact Torrent.File.chunkSize_pos htiled hi
  · rw [h.size_eq, RegularFile.toInt_getSize]

/-- Where `chunk_size` divides the size, the last chunk is recorded with size `0`. -/
theorem Recorded.not_tiles (h : Recorded sha1 chunkSize f file) (hs : 0 < chunkSize) (hc : f.content ≠ [])
    (hd : chunkSize.toInt ∣ f.content.length) : ¬ Tiles sha1 chunkSize f file := by
  intro htiles
  have hcast : (chunkSize.toInt.toNat : ℤ) = chunkSize.toInt := Int.toNat_of_nonneg (Int32.lt_iff_toInt_lt.mp hs).le
  have hlt : 0 < chunkSize.toInt.toNat := Int.natCast_pos.mp (hcast ▸ Int32.lt_iff_toInt_lt.mp hs)
  obtain ⟨hk, hk'⟩ := @cut_bounds chunkSize.toInt.toNat 0 f.content.length hlt (List.length_pos_iff.mpr hc)
  rw [Nat.zero_add] at hk hk'
  have hsizes := h.sizes_eq hs hk hk'
  rw [← hcast, Int.natCast_dvd_natCast] at hd
  rw [Nat.mod_eq_zero_of_dvd hd] at hsizes
  have hlast : (0 : ℤ) ∈ file.sizes := by simp [hsizes]
  obtain ⟨i, hi, hi'⟩ := List.getElem_of_mem hlast
  have hcount : i < file.chunkCount := by rwa [← Torrent.File.length_sizes]
  have hzero := Torrent.File.sizes_getElem? hcount
  rw [List.getElem?_eq_getElem hi, hi'] at hzero
  exact absurd (htiles.pos i hcount) (by rw [← Option.some.inj hzero]; decide)

/-- `MakeTorrent` emits one record for every file found. -/
theorem makeTorrent_recorded {env : MakeTorrentEnv} {path : Path} {node : Node} {found : List FoundFile}
    (hs : 0 < chunkSize) (hfound : foundFiles path node = .ok found)
    (hr : ∀ f ∈ found, f.file.canRead ∧ f.file.content ≠ []) (hcreate : env.canCreate) (hwrite : env.canWrite)
    (type : Int32) (trackerAddress : String) (e : SHA1Engine) :
    ∃ torrent e', makeTorrent sha1 env path (some node) chunkSize type trackerAddress e =
        .ok ((.errorOk, some torrent), e') ∧
      List.Forall₂ (fun f file => Recorded sha1 chunkSize f.file file) found torrent.file := by
  obtain ⟨files, e₁, he₁, hfiles⟩ := @makeTorrentFiles_recorded sha1 _ hs _ hr path.parent e
  simp only [makeTorrent, hfound, bind, Except.bind, he₁, getVerificationCode_eq, hcreate, hwrite]
  exact ⟨_, _, rfl, hfiles⟩

/-- **When a published file is tiled.** `MakeTorrent` emits a record for every file it
has found, and the chunks recorded for a file tile it exactly when `chunk_size` does
not divide its size. -/
theorem makeTorrent_tiles_iff {env : MakeTorrentEnv} {path : Path} {node : Node} {found : List FoundFile}
    (hs : 0 < chunkSize) (hfound : foundFiles path node = .ok found)
    (hr : ∀ f ∈ found, f.file.canRead ∧ f.file.content ≠ []) (hcreate : env.canCreate) (hwrite : env.canWrite)
    (type : Int32) (trackerAddress : String) (e : SHA1Engine) :
    ∃ torrent e', makeTorrent sha1 env path (some node) chunkSize type trackerAddress e =
        .ok ((.errorOk, some torrent), e') ∧
      torrent.file.length = found.length ∧
      ∀ (i : ℕ) f file, found[i]? = some f → torrent.file[i]? = some file →
        (Tiles sha1 chunkSize f.file file ↔ ¬ chunkSize.toInt ∣ f.file.content.length) := by
  obtain ⟨torrent, e', hok, hfiles⟩ :=
    makeTorrent_recorded hs hfound hr hcreate hwrite type trackerAddress e
  refine ⟨torrent, e', hok, hfiles.length_eq.symm, ?_⟩
  intro i f file hf hfile
  obtain ⟨hi, rfl⟩ := List.getElem?_eq_some_iff.mp hf
  obtain ⟨hi', rfl⟩ := List.getElem?_eq_some_iff.mp hfile
  have hrec := hfiles.get hi hi'
  obtain ⟨hread, hc⟩ := hr _ (List.getElem_mem hi)
  constructor
  · intro htiles hd
    exact hrec.not_tiles hs hc hd htiles
  · intro hd
    exact hrec.tiles hs hread hc hd

/-- Five bytes cut into chunks of two are tiled. -/
theorem makeTorrent_tiles_five_bytes :
    ∃ torrent e', makeTorrent (fun bs => toString bs.length) ⟨"c", "now", true, true⟩ ⟨"/srv/", "f"⟩
        (some (.file ⟨true, [1, 2, 3, 4, 5], by decide⟩)) 2 0 "tracker" ⟨[]⟩ = .ok ((.errorOk, some torrent), e') ∧
      torrent.file.length = [FoundFile.mk ⟨"/srv/", "f"⟩ ⟨true, [1, 2, 3, 4, 5], by decide⟩].length ∧
      ∀ (i : ℕ) f file, [FoundFile.mk ⟨"/srv/", "f"⟩ ⟨true, [1, 2, 3, 4, 5], by decide⟩][i]? = some f →
        torrent.file[i]? = some file →
        (Tiles (fun bs => toString bs.length) 2 f.file file ↔ ¬ (2 : Int32).toInt ∣ f.file.content.length) :=
  makeTorrent_tiles_iff (by decide) rfl (by simp) rfl rfl 0 "tracker" ⟨[]⟩

/-- Four bytes cut into chunks of two are not tiled: the second chunk has size `0`. -/
theorem makeTorrent_not_tiles_four_bytes :
    ∃ torrent e' file, makeTorrent (fun bs => toString bs.length) ⟨"c", "now", true, true⟩ ⟨"/srv/", "f"⟩
        (some (.file ⟨true, [1, 2, 3, 4], by decide⟩)) 2 0 "tracker" ⟨[]⟩ = .ok ((.errorOk, some torrent), e') ∧
      torrent.file = [file] ∧
      ¬ Tiles (fun bs => toString bs.length) 2 ⟨true, [1, 2, 3, 4], by decide⟩ file := by
  obtain ⟨torrent, e', hok, hfiles⟩ := @makeTorrent_recorded (fun bs => toString bs.length) 2
    ⟨"c", "now", true, true⟩ ⟨"/srv/", "f"⟩ (.file ⟨true, [1, 2, 3, 4], by decide⟩) _ (by decide) rfl (by simp) rfl rfl 0 "tracker" ⟨[]⟩
  generalize hfile : torrent.file = files at hfiles
  cases hfiles with
  | cons hrec hnil =>
    cases hnil
    exact ⟨torrent, e', _, hok, hfile, hrec.not_tiles (by decide) (by simp) (by decide)⟩

end CoolDown
