import CoolDown.Library.Tiling
import CoolDown.Public.ErrorCode
import Mathlib.Data.Int.Order.Basic
import Mathlib.Algebra.Order.Ring.Int

/-!
# Torrents

The messages of `torrent.proto` and `TorrentFileInfo`, which answers where a chunk
of a file lies and what its checksum is. A chunk's offset is not recorded: it is
computed as the size of chunk `0` times the index, in `uint64_t`.

`UniformlyTiled` is what that computation needs of a file: every chunk but the last
has the size of chunk `0`, the last is positive and no larger, and the sizes sum to
the size of the file. For such a file the product does not wrap
(`toNat_chunkOffset`), each chunk lies inside the file (`chunk_le_size`) and two
chunks do not meet (`chunk_disjoint`).
-/

namespace CoolDown

open Library

/-- `message Chunk`. -/
structure Torrent.Chunk where
  checkSum : String
  size : Int32
  deriving DecidableEq

/-- `message File`. -/
structure Torrent.File where
  checkSum : String
  relativePath : String
  filename : String
  size : Int64
  chunk : List Torrent.Chunk
  deriving DecidableEq

/-- `message Torrent`. -/
structure Torrent where
  torrentId : String
  type : Int32
  totalSize : Int64
  createBy : String
  createTime : String
  trackerAddress : String
  file : List Torrent.File
  deriving DecidableEq

namespace Torrent.File

/-! ### `TorrentFileInfo` -/

/-- `TorrentFileInfo::chunk_count`. -/
def chunkCount (f : Torrent.File) : ℕ := f.chunk.length

/-- `TorrentFileInfo::chunk_checksum`, for an index that is not negative. -/
def chunkChecksum (f : Torrent.File) (chunkPos : ℕ) : String :=
  match f.chunk[chunkPos]? with
  | none => ""
  | some c => c.checkSum

/-- `TorrentFileInfo::chunk_offset`, for an index that is not negative. -/
def chunkOffset (f : Torrent.File) (chunkPos : ℕ) : UInt64 :=
  if f.chunkCount ≤ chunkPos then 0
  else
    match f.chunk[0]? with
    | none => 0
    | some c => c.size.toInt64.toUInt64 * UInt64.ofNat chunkPos

/-- `TorrentFileInfo::chunk_size`, for an index that is not negative. -/
def chunkSize (f : Torrent.File) (chunkPos : ℕ) : ℤ :=
  match f.chunk[chunkPos]? with
  | none => -1
  | some c => c.size.toInt

/-! ### Uniformly tiled files -/

/-- The recorded sizes of the chunks. -/
def sizes (f : Torrent.File) : List ℤ := f.chunk.map fun c => c.size.toInt

/-- Every chunk but the last has the size of chunk `0`, the last is positive and no
larger, and the sizes sum to the size of the file. -/
def UniformlyTiled (f : Torrent.File) : Prop := Uniform (f.chunkSize 0) f.sizes ∧ f.sizes.sum = f.size.toInt

theorem sizes_getElem? {f : Torrent.File} {c : ℕ} (hc : c < f.chunkCount) : f.sizes[c]? = some (f.chunkSize c) := by
  unfold sizes chunkSize
  rw [List.getElem?_map, List.getElem?_eq_getElem hc]
  rfl

theorem length_sizes (f : Torrent.File) : f.sizes.length = f.chunkCount := by simp [sizes, chunkCount]

theorem chunkSize_pos {f : Torrent.File} (h : f.UniformlyTiled) {c : ℕ} (hc : c < f.chunkCount) : 0 < f.chunkSize c :=
  h.1.pos_of_mem (List.mem_of_getElem? (sizes_getElem? hc))

/-- The offset as an integer: chunk `c` starts at `c` times the size of chunk `0`. -/
theorem mul_add_chunkSize_le {f : Torrent.File} (h : f.UniformlyTiled) {c : ℕ} (hc : c < f.chunkCount) :
    c * f.chunkSize 0 + f.chunkSize c ≤ f.size.toInt := by
  have := h.1.nsmul_add_le_sum (sizes_getElem? hc)
  rwa [h.2, nsmul_eq_mul] at this

theorem mul_add_chunkSize_le_mul {f : Torrent.File} (h : f.UniformlyTiled) {c d : ℕ} (hcd : c < d)
    (hd : d < f.chunkCount) : c * f.chunkSize 0 + f.chunkSize c ≤ d * f.chunkSize 0 := by
  have := h.1.nsmul_add_le hcd (sizes_getElem? (hcd.trans hd))
  rwa [nsmul_eq_mul, nsmul_eq_mul] at this

theorem sum_take_sizes {f : Torrent.File} (h : f.UniformlyTiled) {c : ℕ} (hc : c < f.chunkCount) :
    (f.sizes.take c).sum = c * f.chunkSize 0 := by
  rw [h.1.sum_take (by rwa [length_sizes]), nsmul_eq_mul]

/-- `chunk_offset` is the product as long as that fits in 64 bits. -/
theorem toNat_chunkOffset_of_lt {f : Torrent.File} {c : ℕ} (hc : c < f.chunkCount) (h₀ : 0 ≤ f.chunkSize 0)
    (hlt : c * f.chunkSize 0 < 2 ^ 64) (hc' : c < 2 ^ 64) : ((f.chunkOffset c).toNat : ℤ) = c * f.chunkSize 0 := by
  obtain ⟨c₀, h0⟩ : ∃ c₀, f.chunk[0]? = some c₀ := ⟨_, List.getElem?_eq_getElem (Nat.zero_lt_of_lt hc)⟩
  simp only [chunkSize, h0] at h₀ hlt ⊢
  have hcast : (c₀.size.toInt64.toUInt64.toNat : ℤ) = c₀.size.toInt := by
    rw [Int64.toNat_toUInt64_of_le (Int64.le_iff_toInt_le.mpr (by simpa using h₀)), ← Int64.toNat_toInt,
      Int32.toInt_toInt64]
    exact Int.toNat_of_nonneg h₀
  simp only [chunkOffset, if_neg (not_le.mpr hc), h0, UInt64.toNat_mul, UInt64.toNat_ofNat_of_lt' hc',
    Int.natCast_emod, Int.natCast_mul, hcast]
  rw [mul_comm]
  exact Int.emod_eq_of_lt (mul_nonneg (Int.natCast_nonneg c) h₀) hlt

/-- The product of `chunk_offset` does not wrap. -/
theorem toNat_chunkOffset {f : Torrent.File} (h : f.UniformlyTiled) {c : ℕ} (hc : c < f.chunkCount) :
    ((f.chunkOffset c).toNat : ℤ) = c * f.chunkSize 0 := by
  have hle := mul_add_chunkSize_le h hc
  have hpos := chunkSize_pos h hc
  have hpos₀ := chunkSize_pos h (Nat.zero_lt_of_lt hc)
  have hmax := f.size.toInt_lt
  have hc' : (c : ℤ) ≤ c * f.chunkSize 0 := le_mul_of_one_le_right (Int.natCast_nonneg c) hpos₀
  exact toNat_chunkOffset_of_lt hc hpos₀.le (by omega) (by omega)

/-- A chunk lies inside the file. -/
theorem chunk_le_size {f : Torrent.File} (h : f.UniformlyTiled) {c : ℕ} (hc : c < f.chunkCount) :
    (f.chunkOffset c).toNat + (f.chunkSize c).toNat ≤ f.size.toInt.toNat := by
  have hle := mul_add_chunkSize_le h hc
  have hpos := chunkSize_pos h hc
  have hoff := toNat_chunkOffset h hc
  omega

/-- Two chunks do not meet. -/
theorem chunk_disjoint {f : Torrent.File} (h : f.UniformlyTiled) {c d : ℕ} (hcd : c ≠ d)
    (hc : c < f.chunkCount) (hd : d < f.chunkCount) :
    (f.chunkOffset c).toNat + (f.chunkSize c).toNat ≤ (f.chunkOffset d).toNat ∨
      (f.chunkOffset d).toNat + (f.chunkSize d).toNat ≤ (f.chunkOffset c).toNat := by
  have hoc := toNat_chunkOffset h hc
  have hod := toNat_chunkOffset h hd
  have hpc := chunkSize_pos h hc
  have hpd := chunkSize_pos h hd
  rcases lt_or_gt_of_ne hcd with hlt | hlt
  · have := mul_add_chunkSize_le_mul h hlt hd
    exact .inl (by omega)
  · have := mul_add_chunkSize_le_mul h hlt hc
    exact .inr (by omega)

end Torrent.File

end CoolDown
