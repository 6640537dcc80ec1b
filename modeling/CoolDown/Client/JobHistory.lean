import CoolDown.Client.JobInfo
import CoolDown.Library.BitBlocks

/-!
# The history file

The messages of `job_history.proto`, which hold what is kept of the jobs from one run of
the client to the next, and the blocks in which a bitmap is written there.

`resize_ofBlockRange` says that a bitmap comes back from its blocks and its length.
-/

namespace CoolDown

open Library

namespace JobHistory

/-- `message FileInfo`. -/
structure FileInfo where
  fileid : String
  relativePath : String
  filename : String
  fileBit : List UInt64
  fileBitCount : Int32
  deriving DecidableEq

/-- `message JobHistoryInfo`. -/
structure JobHistoryInfo where
  torrentPath : String
  localTopPath : String
  file : List FileInfo
  uploadTotal : Int64
  downloadTotal : Int64
  deriving DecidableEq

/-- `message History`. -/
structure History where
  jobInfo : List JobHistoryInfo
  deriving DecidableEq

/-- What the code uses of the generated classes: `SerializeToOstream`, and
`ParseFromIstream` of a history and of a torrent. -/
structure Codec where
  serialize : History → Bytes
  parse : Bytes → Option History
  parseTorrent : Bytes → Option Torrent

/-- A history that is written is read back. -/
def Codec.Lossless (c : Codec) : Prop := ∀ history, c.parse (c.serialize history) = some history

end JobHistory

namespace Bitmap

/-- `to_block_range`: the blocks of the bitmap. -/
def toBlockRange (b : Bitmap) : List UInt64 := (toBlocks 64 b).map UInt64.ofBitVec

/-- `dynamic_bitset(first, last)`: all the bits of the blocks. -/
def ofBlockRange (blocks : List UInt64) : Bitmap := ofBlocks (blocks.map UInt64.toBitVec)

/-- A bitmap comes back from its blocks and its length. -/
theorem resize_ofBlockRange (b : Bitmap) : resize (ofBlockRange b.toBlockRange) b.length = b := by
  have hblocks : (b.toBlockRange).map UInt64.toBitVec = toBlocks 64 b := by
    rw [toBlockRange, List.map_map]
    exact List.map_id _
  rw [ofBlockRange, hblocks]
  exact resize_ofBlocks_toBlocks (by decide) b

end Bitmap

end CoolDown
