import CoolDown.Client.ClientConnectionHandler

/-!
# A bitmap on its way: the blocks and the count of a message

`Job::convert_bitmap_to_transport_format` writes a bitmap into a `FileInfo` as 64-bit blocks
and a count of bits, and `Job::conver_transport_format_bitmap` makes a bitmap of what a peer
has written there. The blocks and the count need not fit together: the decoder first takes
all the bits of the blocks and then has that many of them.

The history file holds the bitmaps of the jobs in the same way: `saveFile_eq_ok` and
`reloadBitmap_eq_ok` say so.

## The model

A message has no blocks when it is made; the encoder adds its own to those it finds. A
count below zero is a huge one for `resize`, which throws.

## What is proved

* `converTransportFormatBitmap_eq_ok`: what the decoder makes of any message.
* `getLsbD_toBlockRange`: where the bits are in the blocks of the encoder.
* `bitmap_transport`: both, and that the one undoes the other.
-/

namespace CoolDown

open Library ClientProto

/-- Bit `i` of a list of blocks, which is clear where there is no such block. -/
def Bitmap.blockBit (blocks : List UInt64) (i : ℕ) : Bool :=
  match blocks[i / 64]? with
  | some block => block.toBitVec.getLsbD (i % 64)
  | none => false

/-- `Job::conver_transport_format_bitmap`. -/
def Job.converTransportFormatBitmap (info : FileInfo) : Except Exception Bitmap :=
  let count := info.fileBitCount.getD 0
  if count < 0 then .error .badAlloc else .ok (resize (Bitmap.ofBlockRange info.fileBit) count.toNatClampNeg)

namespace BitmapTransport

/-! ### Bits and blocks -/

theorem blockBit_eq (blocks : List UInt64) (i : ℕ) :
    Bitmap.blockBit blocks i = ((blocks.map UInt64.toBitVec).getD (i / 64) 0).getLsbD (i % 64) := by
  unfold Bitmap.blockBit
  rw [List.getD_eq_getElem?_getD, List.getElem?_map]
  cases blocks[i / 64]? with
  | none => simp
  | some block => rfl

theorem map_toBitVec_toBlockRange (b : Bitmap) : b.toBlockRange.map UInt64.toBitVec = toBlocks 64 b := by
  rw [Bitmap.toBlockRange, List.map_map]
  exact List.map_id _

theorem length_toBlockRange (b : Bitmap) : b.toBlockRange.length = (b.length + 63) / 64 := by
  rw [Bitmap.toBlockRange, List.length_map, length_toBlocks]
  omega

/-- The blocks of a bitmap hold its bits, and clear ones after them. -/
theorem blockBit_toBlockRange (b : Bitmap) (i : ℕ) : Bitmap.blockBit b.toBlockRange i = b.getD i false := by
  rw [blockBit_eq, map_toBitVec_toBlockRange]
  exact getLsbD_toBlocks (by decide) b i

/-- The blocks come back from their first `n` bits. -/
theorem toBlockRange_resize {blocks : List UInt64} {n : ℕ} (hlen : blocks.length = (n + 63) / 64)
    (hclear : ∀ i, n ≤ i → Bitmap.blockBit blocks i = false) :
    Bitmap.toBlockRange (resize (Bitmap.ofBlockRange blocks) n) = blocks := by
  have hback : toBlocks 64 (resize (ofBlocks (blocks.map UInt64.toBitVec)) n) = blocks.map UInt64.toBitVec := by
    refine toBlocks_resize_ofBlocks (by decide) ?_ fun i hi => ?_
    · rw [List.length_map, hlen]
      omega
    · rw [← blockBit_eq]
      exact hclear i hi
  rw [Bitmap.toBlockRange, Bitmap.ofBlockRange, hback, List.map_map]
  exact List.map_id _

/-! ### The decoder and the encoder -/

/-- A count that is not negative is the number of bits. -/
theorem toNatClampNeg_cast {count : Int32} (h : 0 ≤ count) : (count.toNatClampNeg : ℤ) = count.toInt := by
  have hnonneg : 0 ≤ count.toInt := Int32.le_iff_toInt_le.mp h
  rw [← Int32.toNat_toInt, Int.toNat_of_nonneg hnonneg]

theorem toNatClampNeg_lt (count : Int32) : count.toNatClampNeg < 2 ^ 31 := by
  have := count.toInt_lt
  rw [← Int32.toNat_toInt]
  omega

/-- A bitmap that is short enough has its length as its count. -/
theorem toInt_ofNat_length {b : Bitmap} (h : b.length < 2 ^ 31) : (Int32.ofNat b.length).toInt = b.length :=
  Int32.toInt_ofNat_of_lt (by omega)

/-- What the decoder makes of a message whose count is not negative. -/
theorem converTransportFormatBitmap_eq_ok {info : FileInfo} {count : Int32} (hcount : info.fileBitCount = some count)
    (h : 0 ≤ count) :
    Job.converTransportFormatBitmap info = .ok (resize (Bitmap.ofBlockRange info.fileBit) count.toNatClampNeg) := by
  rw [Job.converTransportFormatBitmap, hcount, Option.getD_some, if_neg (Int32.not_lt.mpr h)]

/-- What the encoder writes into a message. -/
theorem convertBitmapToTransportFormat_some (b : Bitmap) (info : FileInfo) :
    Job.convertBitmapToTransportFormat (some b) info =
      .ok { info with fileBitCount := some (Int32.ofNat b.length), fileBit := info.fileBit ++ b.toBlockRange } := rfl

/-- The count the encoder writes makes the decoder keep all the bits. -/
theorem toNatClampNeg_ofNat_length {b : Bitmap} (h : b.length < 2 ^ 31) :
    0 ≤ Int32.ofNat b.length ∧ (Int32.ofNat b.length).toNatClampNeg = b.length := by
  have hcount := toInt_ofNat_length h
  constructor
  · rw [Int32.le_iff_toInt_le, hcount]
    exact Int.natCast_nonneg _
  · rw [← Int32.toNat_toInt, hcount, Int.toNat_natCast]

/-- The record of a file in the history has the blocks and the count the encoder writes. -/
theorem saveFile_eq_ok {fileid : String} {b : Bitmap} {file : Torrent.File} {record : JobHistory.FileInfo}
    {info out : FileInfo} (h : CoolClient.saveFile fileid (some b) file = .ok record)
    (hout : Job.convertBitmapToTransportFormat (some b) { info with fileBit := [] } = .ok out) :
    record.fileBit = out.fileBit ∧ some record.fileBitCount = out.fileBitCount := by
  cases h
  cases hout
  exact ⟨rfl, rfl⟩

/-- A bitmap that is reloaded is what the decoder makes of the record. -/
theorem reloadBitmap_eq_ok {d d' : DownloadInfo} {record : JobHistory.FileInfo} {info : FileInfo}
    (h : CoolClient.reloadBitmap d record = .ok d')
    (hinfo : info.fileBit = record.fileBit ∧ info.fileBitCount = some record.fileBitCount) :
    ∃ b, Job.converTransportFormatBitmap info = .ok b ∧ d'.bitmapMap.find? record.fileid = some (some b) := by
  obtain ⟨hpos, rfl⟩ := CoolClient.reloadBitmap_eq_ok_iff.mp h
  refine ⟨_, converTransportFormatBitmap_eq_ok hinfo.2 (Int32.le_of_lt hpos), ?_⟩
  rw [SortedMap.find?_insert_self, hinfo.1]
  rfl

/-! ### There and back -/

/-- The decoder gives just as many bits as the count says, each from its place in the blocks. -/
theorem decoded {info : FileInfo} {count : Int32} (hcount : info.fileBitCount = some count) (hpos : 0 ≤ count) :
    ∃ b, Job.converTransportFormatBitmap info = .ok b ∧ (b.length : ℤ) = count.toInt ∧
      ∀ i, (hi : i < b.length) → b[i] = Bitmap.blockBit info.fileBit i := by
  refine ⟨_, converTransportFormatBitmap_eq_ok hcount hpos, ?_, fun i hi => ?_⟩
  · rw [length_resize]
    exact toNatClampNeg_cast hpos
  · rw [blockBit_eq]
    exact getElem_resize_ofBlocks (by decide) _ hi

/-- The encoder adds as many blocks as are needed, with clear bits at the end; where it adds them
to none, the decoder gives the bitmap back. -/
theorem encoded {b : Bitmap} (info : FileInfo) (hlt : b.length < 2 ^ 31) :
    ∃ blocks out, Job.convertBitmapToTransportFormat (some b) info = .ok out ∧
      out.fileBit = info.fileBit ++ blocks ∧ out.fileBitCount.map Int32.toInt = some (b.length : ℤ) ∧
      blocks.length = (b.length + 63) / 64 ∧ (∀ i, b.length ≤ i → Bitmap.blockBit blocks i = false) ∧
      (info.fileBit = [] → Job.converTransportFormatBitmap out = .ok b) := by
  obtain ⟨hpos, hclamp⟩ := toNatClampNeg_ofNat_length hlt
  refine ⟨b.toBlockRange, _, convertBitmapToTransportFormat_some b info, rfl, ?_, length_toBlockRange b, fun i hi => ?_,
    fun hnil => ?_⟩
  · simp only [Option.map_some, toInt_ofNat_length hlt]
  · rw [blockBit_toBlockRange, List.getD_eq_default _ _ hi]
  · rw [converTransportFormatBitmap_eq_ok rfl hpos, hclamp]
    simp only [hnil, List.nil_append, Bitmap.resize_ofBlockRange]

/-- Where the blocks and the count of a message fit together, the encoder gives them back. -/
theorem encoded_of_decoded {info reply : FileInfo} {count : Int32} {b : Bitmap}
    (hcount : info.fileBitCount = some count) (hpos : 0 ≤ count)
    (hlen : info.fileBit.length = (count.toInt.toNat + 63) / 64)
    (hclear : ∀ i : ℕ, count.toInt ≤ i → Bitmap.blockBit info.fileBit i = false)
    (hb : Job.converTransportFormatBitmap info = .ok b) (hnil : reply.fileBit = []) :
    ∃ out, Job.convertBitmapToTransportFormat (some b) reply = .ok out ∧ out.fileBit = info.fileBit ∧
      out.fileBitCount = some count := by
  rw [converTransportFormatBitmap_eq_ok hcount hpos] at hb
  obtain rfl := Except.ok.inj hb
  have hcast := toNatClampNeg_cast hpos
  refine ⟨_, convertBitmapToTransportFormat_some _ reply, ?_, ?_⟩
  · simp only [hnil, List.nil_append]
    refine toBlockRange_resize ?_ fun i hi => hclear i (by omega)
    rw [hlen, ← hcast, Int.toNat_natCast]
  · have hback : Int32.ofNat count.toNatClampNeg = count :=
      Int32.toInt_inj.mp (by rw [Int32.toInt_ofNat_of_lt (toNatClampNeg_lt count), hcast])
    simp only [length_resize, hback]

/-- **Bitmap transport.** What the decoder makes of any blocks and count, what the encoder
writes, and that each undoes the other. -/
theorem bitmap_transport :
    (∀ (info : FileInfo) (count : Int32), info.fileBitCount = some count → 0 ≤ count →
      ∃ b, Job.converTransportFormatBitmap info = .ok b ∧ (b.length : ℤ) = count.toInt ∧
        ∀ i, (hi : i < b.length) → b[i] = Bitmap.blockBit info.fileBit i) ∧
    (∀ (b : Bitmap) (info : FileInfo), b.length < 2 ^ 31 →
      ∃ blocks out, Job.convertBitmapToTransportFormat (some b) info = .ok out ∧
        out.fileBit = info.fileBit ++ blocks ∧ out.fileBitCount.map Int32.toInt = some (b.length : ℤ) ∧
        blocks.length = (b.length + 63) / 64 ∧ (∀ i, b.length ≤ i → Bitmap.blockBit blocks i = false) ∧
        (info.fileBit = [] → Job.converTransportFormatBitmap out = .ok b)) ∧
    ∀ (info : FileInfo) (count : Int32) (b : Bitmap) (reply : FileInfo),
      info.fileBitCount = some count → 0 ≤ count → info.fileBit.length = (count.toInt.toNat + 63) / 64 →
      (∀ i : ℕ, count.toInt ≤ i → Bitmap.blockBit info.fileBit i = false) →
      Job.converTransportFormatBitmap info = .ok b → reply.fileBit = [] →
      ∃ out, Job.convertBitmapToTransportFormat (some b) reply = .ok out ∧ out.fileBit = info.fileBit ∧
        out.fileBitCount = some count :=
  ⟨fun _ _ => decoded, fun _ info => encoded info, fun _ _ _ _ => encoded_of_decoded⟩

/-- Three bits make one block, and come back from it. -/
theorem bitmap_transport_three :
    ∃ out, Job.convertBitmapToTransportFormat (some [true, false, true]) ⟨none, none, none, [], none⟩ = .ok out ∧
      out.fileBit.length = 1 ∧ Job.converTransportFormatBitmap out = .ok [true, false, true] := by
  obtain ⟨blocks, out, hout, hbit, -, hlen, -, hback⟩ :=
    bitmap_transport.2.1 [true, false, true] ⟨none, none, none, [], none⟩ (by decide)
  refine ⟨out, hout, ?_, hback rfl⟩
  rw [hbit]
  exact hlen

end BitmapTransport

end CoolDown
