import CoolDown.Client.JobHistory
import CoolDown.Library.Wire

/-!
# Torrents and histories in bytes

How the generated classes write the messages of `torrent.proto` and `job_history.proto`.
`JobHistory.Codec.wire` is that encoding. A history that is written is read back
(`wire_lossless`), and so is a torrent (`parseTorrent_wire`).

A required field that is missing is not missed here.
-/

namespace CoolDown

open Library Wire

/-- `message Chunk`. -/
def Torrent.Chunk.message : Message Torrent.Chunk where
  toFields c := [⟨1, .bytes (utf8 c.checkSum)⟩, ⟨2, .varint (int32Value c.size)⟩]
  init := ⟨"", 0⟩
  setField c
    | ⟨1, .bytes s⟩ => (ofUtf8 s).map fun s => { c with checkSum := s }
    | ⟨2, .varint n⟩ => some { c with size := ofInt32Value n }
    | _ => some c
  foldlM_toFields := by
    intro c
    simp

/-- `message File`. -/
def Torrent.File.message : Message Torrent.File where
  toFields f :=
    [⟨1, .bytes (utf8 f.checkSum)⟩, ⟨2, .bytes (utf8 f.relativePath)⟩, ⟨3, .bytes (utf8 f.filename)⟩,
      ⟨4, .varint (int64Value f.size)⟩] ++
      f.chunk.map fun c => ⟨5, .bytes (Torrent.Chunk.message.encode c)⟩
  init := ⟨"", "", "", 0, []⟩
  setField f
    | ⟨1, .bytes s⟩ => (ofUtf8 s).map fun s => { f with checkSum := s }
    | ⟨2, .bytes s⟩ => (ofUtf8 s).map fun s => { f with relativePath := s }
    | ⟨3, .bytes s⟩ => (ofUtf8 s).map fun s => { f with filename := s }
    | ⟨4, .varint n⟩ => some { f with size := ofInt64Value n }
    | ⟨5, .bytes s⟩ => (Torrent.Chunk.message.decode s).map fun c => { f with chunk := f.chunk ++ [c] }
    | _ => some f
  foldlM_toFields := by
    intro f
    simp only [List.foldlM_append, List.foldlM_cons, List.foldlM_nil, ofUtf8_utf8, Option.map_some,
      ofInt64Value_int64Value]
    refine foldlM_repeated (fun chunk => { f with chunk }) ?_ f.chunk
    intro chunk c
    simp

/-- `message Torrent`. -/
def Torrent.message : Message Torrent where
  toFields t :=
    [⟨1, .bytes (utf8 t.torrentId)⟩, ⟨2, .varint (int32Value t.type)⟩, ⟨3, .varint (int64Value t.totalSize)⟩,
      ⟨4, .bytes (utf8 t.createBy)⟩, ⟨5, .bytes (utf8 t.createTime)⟩, ⟨6, .bytes (utf8 t.trackerAddress)⟩] ++
      t.file.map fun f => ⟨7, .bytes (Torrent.File.message.encode f)⟩
  init := ⟨"", 0, 0, "", "", "", []⟩
  setField t
    | ⟨1, .bytes s⟩ => (ofUtf8 s).map fun s => { t with torrentId := s }
    | ⟨2, .varint n⟩ => some { t with type := ofInt32Value n }
    | ⟨3, .varint n⟩ => some { t with totalSize := ofInt64Value n }
    | ⟨4, .bytes s⟩ => (ofUtf8 s).map fun s => { t with createBy := s }
    | ⟨5, .bytes s⟩ => (ofUtf8 s).map fun s => { t with createTime := s }
    | ⟨6, .bytes s⟩ => (ofUtf8 s).map fun s => { t with trackerAddress := s }
    | ⟨7, .bytes s⟩ => (Torrent.File.message.decode s).map fun f => { t with file := t.file ++ [f] }
    | _ => some t
  foldlM_toFields := by
    intro t
    simp only [List.foldlM_append, List.foldlM_cons, List.foldlM_nil, ofUtf8_utf8, Option.map_some,
      ofInt32Value_int32Value, ofInt64Value_int64Value]
    refine foldlM_repeated (fun file => { t with file }) ?_ t.file
    intro file f
    simp

namespace JobHistory

/-- `message FileInfo`. -/
def FileInfo.message : Message FileInfo where
  toFields f :=
    [⟨1, .bytes (utf8 f.fileid)⟩, ⟨2, .bytes (utf8 f.relativePath)⟩, ⟨3, .bytes (utf8 f.filename)⟩] ++
      f.fileBit.map (fun b => ⟨4, .varint b.toNat⟩) ++ [⟨5, .varint (int32Value f.fileBitCount)⟩]
  init := ⟨"", "", "", [], 0⟩
  setField f
    | ⟨1, .bytes s⟩ => (ofUtf8 s).map fun s => { f with fileid := s }
    | ⟨2, .bytes s⟩ => (ofUtf8 s).map fun s => { f with relativePath := s }
    | ⟨3, .bytes s⟩ => (ofUtf8 s).map fun s => { f with filename := s }
    | ⟨4, .varint n⟩ => some { f with fileBit := f.fileBit ++ [UInt64.ofNat n] }
    | ⟨5, .varint n⟩ => some { f with fileBitCount := ofInt32Value n }
    | _ => some f
  foldlM_toFields := by
    intro f
    simp only [List.foldlM_append, List.foldlM_cons, List.foldlM_nil, ofUtf8_utf8, Option.map_some]
    refine (congrArg (fun r => r >>= _) (foldlM_repeated (fun fileBit => { f with fileBit, fileBitCount := 0 }) ?_
      f.fileBit)).trans ?_
    · intro fileBit b
      simp
    · simp

/-- `message JobHistoryInfo`. -/
def JobHistoryInfo.message : Message JobHistoryInfo where
  toFields j :=
    [⟨1, .bytes (utf8 j.torrentPath)⟩, ⟨2, .bytes (utf8 j.localTopPath)⟩] ++
      j.file.map (fun f => ⟨3, .bytes (FileInfo.message.encode f)⟩) ++
      [⟨4, .varint (int64Value j.uploadTotal)⟩, ⟨5, .varint (int64Value j.downloadTotal)⟩]
  init := ⟨"", "", [], 0, 0⟩
  setField j
    | ⟨1, .bytes s⟩ => (ofUtf8 s).map fun s => { j with torrentPath := s }
    | ⟨2, .bytes s⟩ => (ofUtf8 s).map fun s => { j with localTopPath := s }
    | ⟨3, .bytes s⟩ => (FileInfo.message.decode s).map fun f => { j with file := j.file ++ [f] }
    | ⟨4, .varint n⟩ => some { j with uploadTotal := ofInt64Value n }
    | ⟨5, .varint n⟩ => some { j with downloadTotal := ofInt64Value n }
    | _ => some j
  foldlM_toFields := by
    intro j
    simp only [List.foldlM_append, List.foldlM_cons, List.foldlM_nil, ofUtf8_utf8, Option.map_some]
    refine (congrArg (fun r => r >>= _)
      (foldlM_repeated (fun file => { j with file, uploadTotal := 0, downloadTotal := 0 }) ?_ j.file)).trans ?_
    · intro file f
      simp
    · simp

/-- `message History`. -/
def History.message : Message History where
  toFields h := h.jobInfo.map fun j => ⟨1, .bytes (JobHistoryInfo.message.encode j)⟩
  init := ⟨[]⟩
  setField h
    | ⟨1, .bytes s⟩ => (JobHistoryInfo.message.decode s).map fun j => ⟨h.jobInfo ++ [j]⟩
    | _ => some h
  foldlM_toFields := by
    intro h
    refine foldlM_repeated History.mk ?_ h.jobInfo
    intro jobInfo j
    simp

/-- The encoding that the generated classes use. -/
def Codec.wire : Codec where
  serialize := History.message.encode
  parse := History.message.decode
  parseTorrent := Torrent.message.decode

/-- A history that is written is read back. -/
theorem Codec.wire_lossless : Codec.wire.Lossless := by
  intro history
  exact History.message.decode_encode history

/-- A torrent that is written is read back. -/
theorem Codec.parseTorrent_wire (torrent : Torrent) :
    Codec.wire.parseTorrent (Torrent.message.encode torrent) = some torrent :=
  Torrent.message.decode_encode torrent

end JobHistory

end CoolDown
