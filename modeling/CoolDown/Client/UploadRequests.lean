import CoolDown.Client.ClientConnectionHandler

/-!
# Which chunk is sent: `HandleUploadRequest`

The number of a chunk in an `UploadRequest` has 64 bits and a sign. `HandleUploadRequest` makes an
`int` of it, and passes that to `chunk_offset` and to `chunk_size`. Both look whether it is too
large, neither whether it is negative. What `chunk_size` returns for a number that is too large does
not pass the assertion, so that there is no reply.

## The model

The handler is that of `ClientConnectionHandler`. A job from a torrent is one that `JobInfo` has been
constructed for; what has become of its progress since then is left open. `chunkReads` are the chunks
that the two functions read, where `chunkOffsetAt` and `chunkSizeAt` say what they make of them.

## What is proved

* `checked_iff`: for jobs from uniformly tiled torrents, a request is answered as it should be if and
  only if nobody has the file, or it has a chunk with this number and can be sent.
* `unchecked_requests`: numbers that are too large, negative, or more than an `int` holds.
-/

namespace CoolDown

open Library ClientProto

/-- The job has been constructed for a torrent whose files are uniformly tiled, and has as many chunks
as a repeated field may have. -/
def JobInfo.FromTiledTorrent (info : JobInfo) : Prop :=
  ∃ torrent topPath needs uploadTotal downloadTotal fault disk,
    (∀ file ∈ torrent.file, file.UniformlyTiled ∧ file.chunkCount < 2 ^ 31) ∧
      let made := (JobInfo.new torrent topPath needs uploadTotal downloadTotal fault disk).1
      info.fileidlist = made.fileidlist ∧ info.localFileInfo = made.localFileInfo ∧ info.torrentInfo = made.torrentInfo

/-- A job from a tiled torrent has a file for each of its fileids, and it is tiled. -/
theorem JobInfo.FromTiledTorrent.exists_file {info : JobInfo} (hinfo : info.FromTiledTorrent) {fileid : String}
    (hfileid : fileid ∈ info.fileidlist) :
    ∃ file, info.torrentInfo.getOneFileOfSameFileid fileid = .ok file ∧ file.UniformlyTiled ∧ file.chunkCount < 2 ^ 31 := by
  obtain ⟨torrent, topPath, needs, uploadTotal, downloadTotal, fault, disk, htiled, hlist, -, htorrent⟩ := hinfo
  rw [hlist, JobInfo.fileidlist_new] at hfileid
  obtain ⟨file, hfile, rfl⟩ := List.mem_map.mp hfileid
  rw [htorrent, JobInfo.torrentInfo_new]
  obtain ⟨file', hfile'⟩ := TorrentInfo.exists_getOneFileOfSameFileid (t := ⟨torrent⟩) (List.mem_of_mem_filter hfile)
  exact ⟨file', hfile', htiled file' (TorrentInfo.getOneFileOfSameFileid_mem hfile').1⟩

/-- The chunks that `chunk_offset` reads. -/
def Torrent.File.offsetReads (f : Torrent.File) (chunkPos : Int32) : List ℤ :=
  if f.chunkCount ≤ chunkPos.toInt then [] else [0]

/-- The chunks that `chunk_size` reads. -/
def Torrent.File.sizeReads (f : Torrent.File) (chunkPos : Int32) : List ℤ :=
  if f.chunkCount ≤ chunkPos.toInt then [] else [chunkPos.toInt]

namespace ClientConnectionHandler

/-- The chunks that `HandleUploadRequest` reads, each with the file it is one of. -/
def chunkReads (client : CoolClient) (req : UploadRequest) : List (Torrent.File × ℤ) :=
  match client.getJobByFileid req.fileId with
  | none => []
  | some (_, info) =>
    match info.torrentInfo.getOneFileOfSameFileid req.fileId with
    | .error _ => []
    | .ok file =>
      (file.offsetReads req.chunkNumber.toInt32 ++ file.sizeReads req.chunkNumber.toInt32).map fun pos => (file, pos)

/-- A job has the fileid, and its file has a chunk with this number. -/
def HasChunk (client : CoolClient) (req : UploadRequest) (info : JobInfo) (file : Torrent.File) : Prop :=
  (∃ handle, client.getJobByFileid req.fileId = some (handle, info)) ∧
    info.torrentInfo.getOneFileOfSameFileid req.fileId = .ok file ∧
      0 ≤ req.chunkNumber.toInt ∧ req.chunkNumber.toInt < file.chunkCount

/-- The task sends chunk `pos` of the file, and nothing outside of it. -/
structure Covers (task : UploadTask) (file : Torrent.File) (pos : ℕ) : Prop where
  offset_eq : (task.offset.toNat : ℤ) = (file.sizes.take pos).sum
  size_eq : file.sizes[pos]? = some task.chunkSize
  le_size : task.offset.toNat + task.chunkSize ≤ file.size.toInt

variable (c : Codec) (call : Call) (h : ClientConnectionHandler) (created : ℕ) (pack out : NetPack) (req : UploadRequest)

/-- A request is checked: it is answered by an `UploadReply`, without reading a chunk that is not there,
and a task is made for the chunk just when there is one. -/
structure Checked : Prop where
  completes : ∃ r, (handleUploadRequest call (some (.uploadRequest req)) ⟨none⟩).1 = .ok r
  replied : (h.process c call created pack out).1 = .ok (out.setMessage payloadUploadReply
    ⟨Wire.utf8 "ClientProto.UploadReply", c.uploadReply (handleUploadRequest call (some (.uploadRequest req)) ⟨none⟩).2⟩)
  in_range : ∀ read ∈ chunkReads call.client req, 0 ≤ read.2 ∧ read.2 < read.1.chunkCount
  ok_iff : (handleUploadRequest call (some (.uploadRequest req)) ⟨none⟩).2.returnCode = some Retcode.errorOk.value ↔
    ∃ info file, HasChunk call.client req info file
  covers : ∀ info file, HasChunk call.client req info file →
    ∃ task, (handleUploadRequest call (some (.uploadRequest req)) ⟨none⟩).1 = .ok (.errorOk, some task) ∧
      info.localFileInfo.getFile req.fileId = some task.file ∧ Covers task file req.chunkNumber.toInt.toNat

/-- If a job has the file, then its chunk with this number is there, and the file, and the peer. -/
def InRange : Prop :=
  ∀ handle info, call.client.getJobByFileid req.fileId = some (handle, info) →
    (∃ file, HasChunk call.client req info file) ∧ (info.localFileInfo.getFile req.fileId).isSome ∧
      ∃ host, call.peerHost = .ok host

variable {c call h created pack out req}

/-- A number that is not too large for an `int` stays the same. -/
theorem toInt_toInt32_of_lt {n : Int64} (h₀ : 0 ≤ n.toInt) (hlt : n.toInt < 2 ^ 31) : n.toInt32.toInt = n.toInt := by
  rw [Int64.toInt_toInt32]
  exact Int.bmod_eq_of_le (by omega) (by omega)

/-- The job that is found has the fileid. -/
theorem mem_of_getJobByFileid {client : CoolClient} {fileid : String} {handle : ℕ} {info : JobInfo}
    (hjob : client.getJobByFileid fileid = some (handle, info)) :
    (handle, info) ∈ client.jobs.entries ∧ fileid ∈ info.fileidlist :=
  ⟨List.mem_of_find?_eq_some hjob, by simpa using List.find?_some hjob⟩

/-- A file of a job that has the chunk is granted, if it can be sent. -/
theorem handleUploadRequest_hasChunk {info : JobInfo} {file : Torrent.File} {path host : String}
    (hchunk : HasChunk call.client req info file) (htiled : file.UniformlyTiled) (hcount : file.chunkCount < 2 ^ 31)
    (hpath : info.localFileInfo.getFile req.fileId = some path) (hhost : call.peerHost = .ok host) (reply : UploadReply) :
    ∃ task, handleUploadRequest call (some (.uploadRequest req)) reply =
        (.ok (.errorOk, some task), { reply with returnCode := some Retcode.errorOk.value }) ∧
      task.file = path ∧ Covers task file req.chunkNumber.toInt.toNat := by
  obtain ⟨⟨handle, hjob⟩, hfile, h₀, hlt⟩ := hchunk
  have hpos : req.chunkNumber.toInt32.toInt = req.chunkNumber.toInt := toInt_toInt32_of_lt h₀ (by omega)
  have hnonneg : ¬req.chunkNumber.toInt32 < 0 := by
    rw [Int32.lt_iff_toInt_lt, hpos]
    simpa using h₀
  have hclamp : req.chunkNumber.toInt32.toNatClampNeg = req.chunkNumber.toInt.toNat := by
    rw [← Int32.toNat_toInt, hpos]
  have hpos : req.chunkNumber.toInt.toNat < file.chunkCount := by omega
  have hsize := Torrent.File.chunkSize_pos htiled hpos
  refine ⟨⟨host, path, file.chunkOffset req.chunkNumber.toInt.toNat, file.chunkSize req.chunkNumber.toInt.toNat⟩, ?_, rfl, ?_⟩
  · simp only [handleUploadRequest, hjob, hfile, hpath, hhost, Torrent.File.chunkSizeAt, Torrent.File.chunkOffsetAt, hnonneg,
      if_false, hclamp, hsize, not_true_eq_false]
  · have hoffset := Torrent.File.toNat_chunkOffset htiled hpos
    exact ⟨hoffset.trans (Torrent.File.sum_take_sizes htiled hpos).symm, Torrent.File.sizes_getElem? hpos,
      hoffset ▸ Torrent.File.mul_add_chunkSize_le htiled hpos⟩

/-- Where there is a chunk, no other is read. -/
theorem chunkReads_hasChunk {info : JobInfo} {file : Torrent.File} (hchunk : HasChunk call.client req info file)
    (hcount : file.chunkCount < 2 ^ 31) : ∀ read ∈ chunkReads call.client req, 0 ≤ read.2 ∧ read.2 < read.1.chunkCount := by
  obtain ⟨⟨handle, hjob⟩, hfile, h₀, hlt⟩ := hchunk
  have hpos : req.chunkNumber.toInt32.toInt = req.chunkNumber.toInt := toInt_toInt32_of_lt h₀ (by omega)
  have hsmall : ¬file.chunkCount ≤ req.chunkNumber.toInt32.toInt := by omega
  intro read hread
  simp only [chunkReads, hjob, hfile, Torrent.File.offsetReads, Torrent.File.sizeReads, hsmall, if_false,
    List.map_cons, List.map_nil, List.cons_append, List.nil_append, List.mem_cons, List.not_mem_nil, or_false] at hread
  obtain rfl | rfl := hread
  · exact ⟨le_rfl, h₀.trans_lt hlt⟩
  · exact ⟨hpos ▸ h₀, hpos ▸ hlt⟩

/-- **When a request is checked.** It is so if and only if nobody has the file, or the job found for
it has a chunk with this number, and the file, and the peer is still there. -/
theorem checked_iff (htiled : ∀ e ∈ call.client.jobs.entries, e.2.FromTiledTorrent)
    (hmessage : message c pack = some (.uploadRequest req)) (htype : pack.payloadType = payloadUploadRequest) :
    Checked c call h created pack out req ↔ InRange call req := by
  constructor
  · intro hchecked handle info hjob
    obtain ⟨hmem, hfileid⟩ := mem_of_getJobByFileid hjob
    obtain ⟨file, hfile, -⟩ := (htiled _ hmem).exists_file hfileid
    -- it does not throw, so that it is granted
    obtain ⟨r, hr⟩ := hchecked.completes
    have hok := hchecked.ok_iff
    simp only [handleUploadRequest, hjob, hfile] at hr hok
    cases hpath : info.localFileInfo.getFile req.fileId with
    | none => simp [hpath] at hr
    | some path =>
      simp only [hpath] at hr hok
      split_ifs at hr hok with hsize
      cases hhost : call.peerHost with
      | error e => simp [hhost] at hr
      | ok host =>
        simp only [hhost, true_iff] at hok
        obtain ⟨info', file', ⟨handle', hjob'⟩, hchunk⟩ := hok
        obtain ⟨rfl, rfl⟩ := Prod.mk.inj (Option.some.inj (hjob'.symm.trans hjob))
        exact ⟨⟨file', ⟨handle', hjob'⟩, hchunk⟩, rfl, host, rfl⟩
  · intro hrange
    cases hjob : call.client.getJobByFileid req.fileId with
    | none =>
      have hnone : ∀ info file, ¬HasChunk call.client req info file := by
        rintro info file ⟨⟨handle, hjob'⟩, -⟩
        simp [hjob] at hjob'
      have hnot : payloadUploadRequest ≠ payloadShakeHand := by decide
      have hrefused : Retcode.errorFileNotExists ≠ .errorOk := by decide
      have hcode : some Retcode.errorUnknown.value ≠ some Retcode.errorOk.value := by decide
      refine ⟨⟨(.errorFileNotExists, none), by simp only [handleUploadRequest, hjob]⟩, ?_, ?_, ?_, fun info file hchunk => absurd hchunk (hnone info file)⟩
      · simp only [process, htype, hmessage, handleUploadRequest, hjob, hnot, if_false, if_true, ne_eq, hrefused,
          not_false_eq_true]
      · simp [chunkReads, hjob]
      · simp [handleUploadRequest, hjob, hnone, hcode]
    | some job =>
      obtain ⟨handle, info⟩ := job
      obtain ⟨⟨file, hchunk⟩, hpath, host, hhost⟩ := hrange handle info hjob
      obtain ⟨path, hpath⟩ := Option.isSome_iff_exists.mp hpath
      obtain ⟨hmem, hfileid⟩ := mem_of_getJobByFileid hjob
      obtain ⟨file', hfile', htiled', hcount⟩ := (htiled _ hmem).exists_file hfileid
      obtain rfl : file' = file := Except.ok.inj (hfile'.symm.trans hchunk.2.1)
      obtain ⟨task, hhandle, htask, hcovers⟩ := handleUploadRequest_hasChunk hchunk htiled' hcount hpath hhost ⟨none⟩
      have hnot : payloadUploadRequest ≠ payloadShakeHand := by decide
      refine ⟨⟨_, by rw [hhandle]⟩, ?_, chunkReads_hasChunk hchunk hcount, ?_, ?_⟩
      · simp only [process, htype, hmessage, hhandle, hnot, if_false, if_true, ne_eq, not_true_eq_false]
      · simp only [hhandle, true_iff]
        exact ⟨info, file', hchunk⟩
      · rintro info' file ⟨⟨handle', hjob'⟩, hfile, -⟩
        obtain ⟨rfl, rfl⟩ := Prod.mk.inj (Option.some.inj (hjob.symm.trans hjob'))
        obtain rfl : file' = file := Except.ok.inj (hfile'.symm.trans hfile)
        exact ⟨task, by rw [hhandle], htask ▸ hpath, hcovers⟩

theorem fromTiledTorrent_oneJob : ∀ e ∈ oneJob.jobs.entries, e.2.FromTiledTorrent := by
  intro e he
  obtain rfl := List.mem_singleton.mp he
  refine ⟨Job.oneChunkTorrent, "/d/", [⟨"", "a"⟩], 0, 0, fun _ => none, ∅, ?_, rfl, rfl, rfl⟩
  intro file hfile
  obtain rfl := List.mem_singleton.mp hfile
  exact ⟨⟨⟨0, 1, rfl, by decide, by decide⟩, rfl⟩, by decide⟩

/-- The peer asks for the chunk that there is. -/
theorem checked_iff_oneJob :
    Checked (only ⟨"p", "f", 0⟩) callOneJob .new 0 callOneJob.received.2 .new ⟨"p", "f", 0⟩ ↔
      InRange callOneJob ⟨"p", "f", 0⟩ :=
  checked_iff fromTiledTorrent_oneJob rfl rfl

/-- **Numbers that are not checked.** The number of chunks fails an assertion, `-1` has a chunk read
before the first one, and the task for `2 ^ 32` sends the first chunk. -/
theorem unchecked_requests :
    ((handleUploadRequest callOneJob (some (.uploadRequest ⟨"p", "f", 1⟩)) ⟨none⟩).1 = .error .assertion ∧
      (∃ file, (file, -1) ∈ chunkReads oneJob ⟨"p", "f", -1⟩) ∧
        (∃ task, (handleUploadRequest callOneJob (some (.uploadRequest ⟨"p", "f", 2 ^ 32⟩)) ⟨none⟩).1 =
          .ok (.errorOk, some task) ∧ task.offset = 0)) ∧
      ∀ n ∈ [1, -1, 2 ^ 32],
        ¬Checked (only ⟨"p", "f", n⟩) callOneJob .new 0 callOneJob.received.2 .new ⟨"p", "f", n⟩ := by
  refine ⟨⟨rfl, ⟨Job.oneChunkTorrent.file[0], by decide⟩, ⟨_, rfl, rfl⟩⟩, ?_⟩
  intro n hn hchecked
  simp only [List.mem_cons, List.not_mem_nil, or_false] at hn
  obtain rfl | rfl | rfl := hn
  · obtain ⟨r, hr⟩ := hchecked.completes
    cases hr
  · have hread := hchecked.in_range (Job.oneChunkTorrent.file[0], -1) (by decide)
    exact absurd hread.1 (by decide)
  · obtain ⟨info, file, ⟨handle, hjob⟩, hfile, h₀, hlt⟩ := hchecked.ok_iff.mp rfl
    obtain rfl := (Prod.mk.inj (Option.some.inj hjob)).2
    obtain rfl : Job.oneChunkTorrent.file[0] = file := Except.ok.inj hfile
    exact absurd hlt (by decide)

end ClientConnectionHandler

end CoolDown
