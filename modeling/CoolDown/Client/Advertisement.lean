import CoolDown.Client.BitmapTransport
import CoolDown.Client.JobEnd
import CoolDown.Client.TorrentRegistry

/-!
# What is advertised, and who answers for it

A reply to `ShakeHand` tells a peer which chunks of a file there are, from the bitmap of the
first job that has the fileid. A later `UploadRequest` looks the job up anew, and does not look
at its bitmap. Bits are never cleared, and a new job comes after the others, so the two find the
same answer as long as the same job comes first. `RemoveJob` takes it away, and then the next job
with the fileid answers, or one that is added when there is none; it has its own bitmap.

## The model

A state is the client with the replies it has sent. The calls for jobs are those of the registry
of torrents, and a chunk is verified with `report_success_chunk`; a reply says that a chunk is
there if its peer's decoder finds the bit set. `Honoured` says of a state what a request for a
chunk would get: requests change nothing.

## What is proved

* `client_step`: a step lets the jobs advance, adds one, or removes one.
* `step_inv`: steps that hand over what has been advertised keep it honoured.
* `honoured_iff`: advertisements are honoured throughout a run if and only if all its steps do.
* `advertised_chunk_missing`: two jobs with one file.
-/

namespace CoolDown

open Library ClientProto ClientConnectionHandler

namespace Serving

/-- A call, and what the outside decides about it. -/
inductive Action where
  /-- Jobs are added, reloaded, started, stopped and removed. -/
  | jobs (a : TorrentRegistry.Action)
  /-- A chunk of a job is verified. -/
  | reportSuccessChunk (handle chunkNum : ℕ) (fileid : String)
  /-- A peer shakes hands. -/
  | shakeHand (call : Call) (m : Option ParsedMessage)
  /-- A peer asks for a chunk. -/
  | uploadRequest (call : Call) (m : Option ParsedMessage)

end Serving

/-- A client and the replies to `ShakeHand` it has sent. -/
structure Serving where
  client : CoolClient
  disk : Disk
  replies : List ShakeHand

namespace Serving

/-- A client that has just been started. -/
def new (disk : Disk) : Serving := ⟨.new, disk, []⟩

/-- The reply `Process` has made before it handles the request. -/
def emptyReply : ShakeHand := ⟨none, ⟨none, none, none, [], none⟩⟩

/-- One step: `none` where there is no such job. -/
def step (s : Serving) : Action → Option Serving
  | .jobs a => (TorrentRegistry.step (s.client, s.disk) a).map fun r => { s with client := r.1, disk := r.2 }
  | .reportSuccessChunk handle chunkNum fileid =>
    match s.client.jobs.find? handle with
    | none => none
    | some info =>
      let info' := (ChunkSelector.reportSuccessChunk info chunkNum fileid).1
      some { s with client := { s.client with jobs := s.client.jobs.insert handle info' } }
  | .shakeHand call m =>
    match handleShakeHand { call with client := s.client } m emptyReply with
    | (.error _, client, _) => some { s with client := client }
    | (.ok _, client, reply) => some { s with client := client, replies := s.replies ++ [reply] }
  -- a request for a chunk makes a task, and changes nothing of the client
  | .uploadRequest _ _ => some s

/-- The reply says that the chunk is there. -/
def Reports (r : ShakeHand) (fileid : String) (c : ℕ) : Prop :=
  r.info.fileId = some fileid ∧ r.info.hasFile = some 1 ∧
    ∃ b, Job.converTransportFormatBitmap r.info = .ok b ∧ b[c]? = some true

/-- Some reply has said that the chunk is there. -/
def Advertised (s : Serving) (fileid : String) (c : ℕ) : Prop := ∃ r ∈ s.replies, Reports r fileid c

/-- A request for an advertised chunk that is answered with `ERROR_OK` is answered from a job
whose bit for the chunk is set. -/
def Honoured (s : Serving) : Prop :=
  ∀ (call : Call) (req : UploadRequest) (task : UploadTask) (c : ℕ),
    (handleUploadRequest { call with client := s.client } (some (.uploadRequest req)) ⟨none⟩).1 =
      .ok (.errorOk, some task) →
    req.chunkNumber.toInt32.toInt = c → s.Advertised req.fileId c →
    ∃ handle info, s.client.getJobByFileid req.fileId = some (handle, info) ∧
      info.downloadInfo.bit req.fileId c = some true

/-- The job answers requests for the chunk: it has the file, and the chunk has a size. -/
def Answers (info : JobInfo) (fileid : String) (c : ℕ) : Prop :=
  (info.localFileInfo.getFile fileid).isSome ∧
    ∃ file, info.torrentInfo.getOneFileOfSameFileid fileid = .ok file ∧ 0 < file.chunkSize c

/-- The job has what has been advertised of the file, as far as it answers for it. -/
def Keeps (s : Serving) (info : JobInfo) (fileid : String) : Prop :=
  ∀ c, s.Advertised fileid c → Answers info fileid c → info.downloadInfo.bit fileid c = some true

/-- The call does not make a job answer for a file that lacks an advertised chunk of it: neither
the next one when the job that answers is removed, nor a new one for a file nobody has. -/
def HandsOver (s : Serving) : Action → Prop
  | .jobs (.removeJob handle) =>
    ∀ fileid info next, s.client.getJobByFileid fileid = some (handle, info) →
      (s.client.removeJob handle).2.getJobByFileid fileid = some next → s.Keeps next.2 fileid
  | .jobs a =>
    ∀ r info, TorrentRegistry.step (s.client, s.disk) a = some r → r.1.jobs.find? s.client.jobIndex = some info →
      ∀ fileid ∈ info.fileidlist, s.client.getJobByFileid fileid = none → s.Keeps info fileid
  | .reportSuccessChunk .. | .shakeHand .. | .uploadRequest .. => True

/-! ### Which job answers -/

/-- `GetJobByFileid` finds the job with the least handle that has the fileid. -/
theorem getJobByFileid_eq_some {client : CoolClient} {fileid : String} {handle : ℕ} {info : JobInfo} :
    client.getJobByFileid fileid = some (handle, info) ↔
      client.jobs.find? handle = some info ∧ fileid ∈ info.fileidlist ∧
        ∀ handle' info', client.jobs.find? handle' = some info' → fileid ∈ info'.fileidlist → handle ≤ handle' := by
  rw [CoolClient.getJobByFileid, SortedMap.find?_entries_eq_some]
  simp only [decide_eq_true_eq]

theorem getJobByFileid_eq_none {client : CoolClient} {fileid : String} :
    client.getJobByFileid fileid = none ↔
      ∀ handle info, client.jobs.find? handle = some info → fileid ∉ info.fileidlist := by
  simp [CoolClient.getJobByFileid, List.find?_eq_none, SortedMap.find?_eq_some]

/-! ### What a step does to the jobs -/

/-- The same handles, and each of their jobs only advances. -/
structure Grown (s s' : CoolClient) : Prop where
  jobIndex : s'.jobIndex = s.jobIndex
  find? : ∀ handle info, s.jobs.find? handle = some info → ∃ info', s'.jobs.find? handle = some info' ∧
    info.Advances info'
  absent : ∀ handle, s.jobs.find? handle = none → s'.jobs.find? handle = none

theorem Grown.refl (s : CoolClient) : Grown s s := ⟨rfl, fun _ info h => ⟨info, h, .refl info⟩, fun _ h => h⟩

/-- One job advances. -/
theorem Grown.insert {s : CoolClient} {handle : ℕ} {info info' : JobInfo} (hfind : s.jobs.find? handle = some info)
    (hadv : info.Advances info') : Grown s { s with jobs := s.jobs.insert handle info' } where
  jobIndex := rfl
  find? := by
    intro handle' found h
    rw [SortedMap.find?_insert]
    split_ifs with he
    · subst he
      obtain rfl := Option.some.inj (hfind.symm.trans h)
      exact ⟨info', rfl, hadv⟩
    · exact ⟨found, h, .refl found⟩
  absent := by
    intro handle' h
    rwa [SortedMap.find?_insert_of_ne]
    intro he
    rw [← he, hfind] at h
    cases h

theorem Grown.of_find? {s s' : CoolClient} (hgrown : Grown s s') {handle : ℕ} {info' : JobInfo}
    (h : s'.jobs.find? handle = some info') : ∃ info, s.jobs.find? handle = some info ∧ info.Advances info' := by
  cases hfind : s.jobs.find? handle with
  | none => rw [hgrown.absent handle hfind] at h; cases h
  | some info =>
    obtain ⟨found, hfound, hadv⟩ := hgrown.find? handle info hfind
    obtain rfl := Option.some.inj (hfound.symm.trans h)
    exact ⟨info, rfl, hadv⟩

/-- The same job answers. -/
theorem Grown.getJobByFileid {s s' : CoolClient} (hgrown : Grown s s') {fileid : String} {handle : ℕ}
    {info' : JobInfo} (h : s'.getJobByFileid fileid = some (handle, info')) :
    ∃ info, s.getJobByFileid fileid = some (handle, info) ∧ info.Advances info' := by
  obtain ⟨hfind', hmem, hleast⟩ := getJobByFileid_eq_some.mp h
  obtain ⟨info, hfind, hadv⟩ := hgrown.of_find? hfind'
  refine ⟨info, getJobByFileid_eq_some.mpr ⟨hfind, by rwa [← hadv.fileidlist], ?_⟩, hadv⟩
  intro other found hfound hin
  obtain ⟨found', hfound', hadv'⟩ := hgrown.find? other found hfound
  exact hleast other found' hfound' (by rwa [hadv'.fileidlist])

/-- What an action does to the table of jobs. -/
inductive Change (s s' : CoolClient) : Action → Prop where
  | grown {a : Action} (h : Grown s s') : Change s s' a
  | added {a : TorrentRegistry.Action} (ha : ∀ handle, a ≠ .removeJob handle) (info : JobInfo)
      (hjobs : s'.jobs = s.jobs.insert s.jobIndex info) (hnext : s'.jobIndex = s.jobIndex + 1) : Change s s' (.jobs a)
  | removed (handle : ℕ) (hjobs : s'.jobs = s.jobs.erase handle) (hnext : s'.jobIndex = s.jobIndex) :
      Change s s' (.jobs (.removeJob handle))

/-- Setting flags of a job. -/
theorem grown_withJob (s : CoolClient) (handle : ℕ) (f : DownloadInfo → DownloadInfo)
    (hbits : ∀ d, (f d).bitmapMap = d.bitmapMap) (hremoved : ∀ d, (f d).isJobRemoved = d.isJobRemoved) :
    Grown s (s.withJob handle f).2 := by
  unfold CoolClient.withJob
  split
  · exact .refl s
  · rename_i info hfind
    have hadv : info.Advances { info with downloadInfo := f info.downloadInfo } := by
      refine ⟨rfl, rfl, rfl, ?_, fun fileid pos => .inl ?_⟩
      · simp [hremoved]
      · simp [DownloadInfo.bit, hbits]
    exact .insert hfind hadv

/-- An add that is refused or throws leaves the jobs alone. -/
theorem grown_of_jobs {s s' : CoolClient} (hjobs : s'.jobs = s.jobs) (hnext : s'.jobIndex = s.jobIndex) : Grown s s' :=
  ⟨hnext, fun _ info h => ⟨info, by rwa [hjobs], .refl info⟩, fun _ h => by rwa [hjobs]⟩

/-- The calls for jobs. -/
theorem change_registry {s : CoolClient} {disk : Disk} {a : TorrentRegistry.Action} {r : CoolClient × Disk}
    (h : TorrentRegistry.step (s, disk) a = some r) : Change s r.1 (.jobs a) := by
  cases a with
  | addNewDownloadJob env torrentPath torrent needs topPath =>
    obtain rfl := Option.some.inj h
    simp only [CoolClient.addNewDownloadJob]
    split_ifs
    · exact .grown (.refl s)
    · exact .added (by simp) _ rfl rfl
  | addNewUploadJob env publish torrentPath topPath torrent =>
    obtain rfl := Option.some.inj h
    simp only [CoolClient.addNewUploadJob]
    split_ifs
    · exact .grown (.refl s)
    · split
      · exact .grown (grown_of_jobs rfl rfl)
      · exact .added (by simp) _ rfl rfl
  | reloadOneJob env torrent history =>
    obtain rfl := Option.some.inj h
    simp only [CoolClient.reloadOneJob]
    split_ifs
    · exact .grown (.refl s)
    · split
      · exact .grown (grown_of_jobs rfl rfl)
      · exact .added (by simp) _ rfl rfl
  | startJob handle isRunning pool =>
    obtain rfl := Option.some.inj h
    rw [TorrentRegistry.startJob_snd]
    exact .grown (grown_withJob s handle _ (fun _ => rfl) (fun _ => rfl))
  | stopJob handle =>
    obtain rfl := Option.some.inj h
    exact .grown (grown_withJob s handle _ (fun _ => rfl) (fun _ => rfl))
  | removeJob handle =>
    obtain rfl := Option.some.inj h
    simp only [CoolClient.removeJob]
    split
    · exact .grown (.refl s)
    · exact .removed handle rfl rfl

/-- The decoder finds no bit set that the encoder has not found set. -/
theorem bit_of_encoded {b b' : Bitmap} {info info' : FileInfo} (hnil : info.fileBit = [])
    (hout : Job.convertBitmapToTransportFormat (some b) info = .ok info')
    (hb' : Job.converTransportFormatBitmap info' = .ok b') {c : ℕ} (hc : b'[c]? = some true) : b[c]? = some true := by
  obtain rfl := Except.ok.inj hout
  have hneg : 0 ≤ Int32.ofNat b.length := by
    by_contra hneg
    simp [Job.converTransportFormatBitmap, Int32.not_le.mp hneg] at hb'
  obtain ⟨b'', hb'', -, hbits⟩ := @BitmapTransport.decoded
    { info with fileBitCount := some (Int32.ofNat b.length), fileBit := info.fileBit ++ b.toBlockRange } _ rfl hneg
  obtain rfl := Except.ok.inj (hb''.symm.trans hb')
  obtain ⟨hlt, htrue⟩ := List.getElem?_eq_some_iff.mp hc
  rw [hbits c hlt] at htrue
  simp only [hnil, List.nil_append, BitmapTransport.blockBit_toBlockRange] at htrue
  rw [List.getD_eq_getElem?_getD] at htrue
  cases hbit : b[c]? with
  | none => simp [hbit] at htrue
  | some x => simpa [hbit] using htrue

/-- `HandleShakeHand` changes no bit, and its reply tells of the first job with the fileid. -/
theorem handleShakeHand_spec (call : Call) (m : Option ParsedMessage) :
    Grown call.client (handleShakeHand call m emptyReply).2.1 ∧
      ∀ fileid c, Reports (handleShakeHand call m emptyReply).2.2 fileid c →
        ∃ handle info, call.client.getJobByFileid fileid = some (handle, info) ∧
          info.downloadInfo.bit fileid c = some true := by
  have habsent : ∀ {r : ShakeHand} {fileid : String} {c : ℕ}, r.info.hasFile ≠ some 1 → ¬Reports r fileid c :=
    fun hne hr => hne hr.2.1
  unfold handleShakeHand
  split
  · rename_i req
    dsimp only
    split
    · exact ⟨.refl _, fun _ _ hr => absurd hr (habsent (by simp))⟩
    · rename_i handle info hjob
      split_ifs
      · exact ⟨.refl _, fun _ _ hr => absurd hr (habsent (by simp))⟩
      · have hfind := (getJobByFileid_eq_some.mp hjob).1
        rcases hb : info.downloadInfo.bitmapAt (req.info.fileId.getD "") with ⟨bitmap, d⟩
        have hd : d = (info.downloadInfo.bitmapAt (req.info.fileId.getD "")).2 := by rw [hb]
        have hadv : ∀ m, info.Advances { info with downloadInfo := { d with percentageMap := m } } := by
          subst hd
          exact fun m => ⟨rfl, rfl, rfl, id, fun fileid pos => .inl (info.downloadInfo.bit_bitmapAt _ fileid pos)⟩
        cases bitmap with
        | none =>
            exact ⟨.insert hfind (hadv d.percentageMap), fun _ _ hr => absurd hr (habsent (by simp [emptyReply]))⟩
        | some b =>
          refine ⟨.insert hfind (hadv _), ?_⟩
          intro fileid c hr
          obtain ⟨hid, -, b', hb', hc⟩ := hr
          obtain rfl : req.info.fileId.getD "" = fileid := Option.some.inj hid
          obtain ⟨-, hbits⟩ := DownloadInfo.bitmapAt_eq_some hb
          refine ⟨handle, info, hjob, ?_⟩
          rw [DownloadInfo.bit, hbits]
          exact bit_of_encoded rfl rfl hb' hc
  · exact ⟨.refl _, fun _ _ hr => absurd hr (habsent (by simp [emptyReply]))⟩

variable {s s' : Serving} {a : Action} {fileid : String} {c : ℕ}

/-- **What a step does to the jobs.** It lets them advance, adds one, or removes one. -/
theorem client_step (h : step s a = some s') : Change s.client s'.client a := by
  cases a with
  | jobs a =>
    obtain ⟨r, hr, rfl⟩ := Option.map_eq_some_iff.mp h
    exact change_registry hr
  | reportSuccessChunk handle chunkNum fileid =>
    rw [step] at h
    split at h
    · cases h
    · rename_i info hfind
      obtain rfl := Option.some.inj h
      obtain ⟨honly, hbit⟩ := ChunkSelector.reportSuccessChunk_spec info chunkNum fileid
      refine .grown (.insert hfind (.of_onlyBitmaps honly fun fileid' pos => ?_))
      rw [hbit]
      split_ifs
      · exact .inr rfl
      · exact .inl rfl
  | shakeHand call m =>
    have hchange := (handleShakeHand_spec { call with client := s.client } m).1
    rw [step] at h
    split at h
    all_goals
      rename_i heq
      obtain rfl := Option.some.inj h
      rw [heq] at hchange
      exact .grown hchange
  | uploadRequest call m =>
    obtain rfl := Option.some.inj h
    exact .grown (.refl _)

/-- What is advertised after a step was advertised before, or its bit is set in the job that answers. -/
theorem advertised_of_step (h : step s a = some s') (hadv : s'.Advertised fileid c) :
    s.Advertised fileid c ∨ ∃ handle info, s.client.getJobByFileid fileid = some (handle, info) ∧
      info.downloadInfo.bit fileid c = some true := by
  cases a with
  | jobs a =>
    obtain ⟨r, -, rfl⟩ := Option.map_eq_some_iff.mp h
    exact .inl hadv
  | reportSuccessChunk handle chunkNum fileid =>
    rw [step] at h
    split at h
    · cases h
    · obtain rfl := Option.some.inj h
      exact .inl hadv
  | shakeHand call m =>
    have hreports := (handleShakeHand_spec { call with client := s.client } m).2 fileid c
    rw [step] at h
    split at h
    · obtain rfl := Option.some.inj h
      exact .inl hadv
    · rename_i heq
      obtain rfl := Option.some.inj h
      obtain ⟨r, hr, hrep⟩ := hadv
      rcases List.mem_append.mp hr with hr | hr
      · exact .inl ⟨r, hr, hrep⟩
      · obtain rfl := List.mem_singleton.mp hr
        rw [heq] at hreports
        exact .inr (hreports hrep)
  | uploadRequest call m =>
    obtain rfl := Option.some.inj h
    exact .inl hadv

/-! ### What is honoured -/

/-- A request that is answered with `ERROR_OK` is answered from a job that answers for the chunk. -/
theorem answers_of_handleUploadRequest {call : Call} {req : UploadRequest} {task : UploadTask}
    (h : (handleUploadRequest call (some (.uploadRequest req)) ⟨none⟩).1 = .ok (.errorOk, some task))
    (hc : req.chunkNumber.toInt32.toInt = c) :
    ∃ handle info, call.client.getJobByFileid req.fileId = some (handle, info) ∧ Answers info req.fileId c := by
  have hneg : ¬req.chunkNumber.toInt32 < 0 := by
    rw [Int32.lt_iff_toInt_lt, hc]
    exact not_lt.mpr (Int.natCast_nonneg c)
  have hnat : req.chunkNumber.toInt32.toNatClampNeg = c := by
    rw [← Int32.toNat_toInt, hc, Int.toNat_natCast]
  unfold handleUploadRequest at h
  dsimp only at h
  split at h
  · cases h
  · rename_i handle info hjob
    split at h
    · cases h
    · rename_i fileInfo hinfo
      split at h
      · cases h
      · rename_i file hfile
        split_ifs at h with hsize
        rw [Torrent.File.chunkSizeAt, if_neg hneg, hnat] at hsize
        exact ⟨handle, info, hjob, by rw [hfile]; rfl, fileInfo, hinfo, hsize⟩

/-- And a request for such a chunk can be answered so. -/
theorem exists_handleUploadRequest {client : CoolClient} {handle : ℕ} {info : JobInfo}
    (hjob : client.getJobByFileid fileid = some (handle, info)) (hanswers : Answers info fileid c) (hc : c < 2 ^ 31) :
    ∃ (call : Call) (req : UploadRequest) (task : UploadTask), req.fileId = fileid ∧
      req.chunkNumber.toInt32.toInt = c ∧
      (handleUploadRequest { call with client := client } (some (.uploadRequest req)) ⟨none⟩).1 =
        .ok (.errorOk, some task) := by
  obtain ⟨hfile, fileInfo, hinfo, hsize⟩ := hanswers
  obtain ⟨file, hfile⟩ := Option.isSome_iff_exists.mp hfile
  have hchunk : (Int64.ofNat c).toInt32.toInt = c := by
    rw [Int64.toInt_toInt32, Int64.toInt_ofNat_of_lt (by omega), Int.bmod_eq_of_le (by omega) (by omega)]
  have hneg : ¬(Int64.ofNat c).toInt32 < 0 := by
    rw [Int32.lt_iff_toInt_lt, hchunk]
    exact not_lt.mpr (Int.natCast_nonneg c)
  have hnat : (Int64.ofNat c).toInt32.toNatClampNeg = c := by
    rw [← Int32.toNat_toInt, hchunk, Int.toNat_natCast]
  let call : Call := ⟨(.ok .errorOk, .new), "", client, .ok "", 0, .ok .errorOk, .ok ()⟩
  refine ⟨call, ⟨"", fileid, Int64.ofNat c⟩,
    ⟨"", file, fileInfo.chunkOffsetAt (Int64.ofNat c).toInt32 0, fileInfo.chunkSize c⟩, rfl, hchunk, ?_⟩
  simp only [handleUploadRequest, call, hjob, hfile, hinfo, Torrent.File.chunkSizeAt, if_neg hneg, hnat, not_not.mpr hsize,
    if_false]

/-- What is advertised has a number that fits into a request. -/
theorem lt_of_reports {r : ShakeHand} (h : Reports r fileid c) : c < 2 ^ 31 := by
  obtain ⟨-, -, b, hb, hc⟩ := h
  rw [Job.converTransportFormatBitmap] at hb
  split_ifs at hb
  obtain rfl := Except.ok.inj hb
  obtain ⟨hlt, -⟩ := List.getElem?_eq_some_iff.mp hc
  rw [length_resize] at hlt
  exact hlt.trans (BitmapTransport.toNatClampNeg_lt _)

/-- **What honouring means for the jobs.** Each job that answers for a file has what has been
advertised of it. -/
theorem honoured_iff_keeps :
    s.Honoured ↔ ∀ fileid handle info, s.client.getJobByFileid fileid = some (handle, info) → s.Keeps info fileid := by
  constructor
  · intro h fileid handle info hjob c hadv hanswers
    have hlt : c < 2 ^ 31 := by
      obtain ⟨r, -, hr⟩ := hadv
      exact lt_of_reports hr
    obtain ⟨call, req, task, rfl, hc, hok⟩ := exists_handleUploadRequest hjob hanswers hlt
    obtain ⟨handle', info', hjob', hbit⟩ := h call req task c hok hc hadv
    obtain ⟨-, rfl⟩ := Prod.mk.inj (Option.some.inj (hjob.symm.trans hjob'))
    exact hbit
  · intro h call req task c hok hc hadv
    obtain ⟨handle, info, hjob, hanswers⟩ := answers_of_handleUploadRequest hok hc
    exact ⟨handle, info, hjob, h req.fileId handle info hjob c hadv hanswers⟩

/-! ### Handing over -/

/-- A job keeps what it has. -/
theorem Keeps.advances {info info' : JobInfo} (h : s.Keeps info fileid) (hadv : info.Advances info') :
    s.Keeps info' fileid := by
  intro c hc hanswers
  rcases hadv.bit fileid c with heq | heq
  · rw [heq]
    apply h c hc
    rwa [Answers, ← hadv.localFileInfo, ← hadv.torrentInfo]
  · exact heq

/-- New handles come after the others, and each job that answers has what has been advertised. -/
structure Inv (s : Serving) : Prop where
  lt : ∀ handle info, s.client.jobs.find? handle = some info → handle < s.client.jobIndex
  keeps : ∀ fileid handle info, s.client.getJobByFileid fileid = some (handle, info) → s.Keeps info fileid

theorem inv_new (disk : Disk) : (new disk).Inv := by
  refine ⟨fun handle info hfind => ?_, fun fileid handle info hjob => ?_⟩
  · cases hfind
  · cases hjob

/-- The calls for jobs send no reply. -/
theorem keeps_jobs {b : TorrentRegistry.Action} (h : step s (.jobs b) = some s') (info : JobInfo) :
    s'.Keeps info fileid ↔ s.Keeps info fileid := by
  obtain ⟨r, -, rfl⟩ := Option.map_eq_some_iff.mp h
  exact Iff.rfl

theorem Change.lt (hchange : Change s.client s'.client a)
    (hlt : ∀ handle info, s.client.jobs.find? handle = some info → handle < s.client.jobIndex) :
    ∀ handle info, s'.client.jobs.find? handle = some info → handle < s'.client.jobIndex := by
  intro handle info hfind
  cases hchange with
  | grown hgrown =>
    obtain ⟨found, hfound, -⟩ := hgrown.of_find? hfind
    rw [hgrown.jobIndex]
    exact hlt handle found hfound
  | added ha info' hjobs hnext =>
    rw [hjobs, SortedMap.find?_insert] at hfind
    rw [hnext]
    split_ifs at hfind with he
    · omega
    · exact Nat.lt_succ_of_lt (hlt handle info hfind)
  | removed handle' hjobs hnext =>
    rw [hjobs, SortedMap.find?_erase] at hfind
    rw [hnext]
    split_ifs at hfind
    exact hlt handle info hfind

/-- A job that is not new has been there before. -/
theorem Change.of_find? {client client' : CoolClient} (hchange : Change client client' a) {handle : ℕ} {info' : JobInfo}
    (h : client'.jobs.find? handle = some info') :
    client.jobIndex = handle ∨ ∃ info, client.jobs.find? handle = some info ∧ info'.fileidlist = info.fileidlist := by
  cases hchange with
  | grown hgrown =>
    obtain ⟨info, hfind, hadv⟩ := hgrown.of_find? h
    exact .inr ⟨info, hfind, hadv.fileidlist⟩
  | added ha info hjobs hnext =>
    rw [hjobs, SortedMap.find?_insert] at h
    split_ifs at h with he
    · exact .inl he
    · exact .inr ⟨info', h, rfl⟩
  | removed handle' hjobs hnext =>
    rw [hjobs, SortedMap.find?_erase] at h
    split_ifs at h
    exact .inr ⟨info', h, rfl⟩

/-- A job that answers only once there is a new one is the new one. -/
theorem getJobByFileid_added {client client' : CoolClient} {info : JobInfo}
    (hlt : ∀ handle info, client.jobs.find? handle = some info → handle < client.jobIndex)
    (hjobs : client'.jobs = client.jobs.insert client.jobIndex info) {next : ℕ × JobInfo}
    (h : client'.getJobByFileid fileid = some next) :
    client.getJobByFileid fileid = some next ∨
      client.getJobByFileid fileid = none ∧ next = (client.jobIndex, info) ∧ fileid ∈ info.fileidlist := by
  obtain ⟨handle, found⟩ := next
  obtain ⟨hfind, hmem, hleast⟩ := getJobByFileid_eq_some.mp h
  rw [hjobs, SortedMap.find?_insert] at hfind
  split_ifs at hfind with he
  · subst he
    obtain rfl := Option.some.inj hfind
    refine .inr ⟨getJobByFileid_eq_none.mpr fun other found' hfound hin => ?_, rfl, hmem⟩
    have hother : client.jobIndex ≤ other := by
      apply hleast other found' _ hin
      rw [hjobs, SortedMap.find?_insert_of_ne]
      · exact hfound
      · exact (hlt other found' hfound).ne'
    exact absurd hother (not_le.mpr (hlt other found' hfound))
  · refine .inl (getJobByFileid_eq_some.mpr ⟨hfind, hmem, fun other found' hfound hin => ?_⟩)
    apply hleast other found' _ hin
    rw [hjobs, SortedMap.find?_insert_of_ne]
    · exact hfound
    · exact (hlt other found' hfound).ne'

/-- The job that answers once another has been removed has answered before, unless it was that one. -/
theorem getJobByFileid_removed {client client' : CoolClient} {handle : ℕ}
    (hjobs : client'.jobs = client.jobs.erase handle) {next : ℕ × JobInfo}
    (h : client'.getJobByFileid fileid = some next) :
    client.getJobByFileid fileid = some next ∨ ∃ info, client.getJobByFileid fileid = some (handle, info) := by
  obtain ⟨hfind, hmem, hleast⟩ := getJobByFileid_eq_some.mp h
  rw [hjobs, SortedMap.find?_erase] at hfind
  split_ifs at hfind
  cases hjob : client.getJobByFileid fileid with
  | none => exact absurd hmem (getJobByFileid_eq_none.mp hjob _ _ hfind)
  | some first =>
    obtain ⟨hfirst, hin, hfirst_le⟩ := getJobByFileid_eq_some.mp hjob
    by_cases he : handle = first.1
    · exact .inr ⟨first.2, by rw [he]⟩
    · have hle : next.1 ≤ first.1 := hleast first.1 first.2 (by rw [hjobs, SortedMap.find?_erase, if_neg he, hfirst]) hin
      have heq : first.1 = next.1 := le_antisymm (hfirst_le next.1 next.2 hfind hmem) hle
      rw [heq, hfind] at hfirst
      exact .inl (congrArg some (Prod.ext heq (Option.some.inj hfirst).symm))

/-- **What a step keeps.** -/
theorem step_inv (hs : s.Inv) (hover : s.HandsOver a) (h : step s a = some s') : s'.Inv := by
  have hchange := client_step h
  refine ⟨hchange.lt hs.lt, ?_⟩
  intro fileid handle info hjob
  cases hchange with
  | grown hgrown =>
    -- the same job answers, and what is new has been read from its bitmap
    obtain ⟨before, hbefore, hadv⟩ := hgrown.getJobByFileid hjob
    suffices hkeeps : s'.Keeps before fileid from hkeeps.advances hadv
    intro c hc hanswers
    obtain hold | ⟨handle', info', hjob', hbit⟩ := advertised_of_step h hc
    · exact hs.keeps fileid handle before hbefore c hold hanswers
    · obtain ⟨-, rfl⟩ := Prod.mk.inj (Option.some.inj (hbefore.symm.trans hjob'))
      exact hbit
  | @added b hb new hjobs hnext =>
    rw [keeps_jobs h]
    obtain hbefore | ⟨hfree, hnew, hmem⟩ := getJobByFileid_added hs.lt hjobs hjob
    · exact hs.keeps fileid handle info hbefore
    · obtain ⟨rfl, rfl⟩ := Prod.mk.inj hnew
      obtain ⟨r, hr, rfl⟩ := Option.map_eq_some_iff.mp h
      have hfind : r.1.jobs.find? s.client.jobIndex = some info := by rw [hjobs, SortedMap.find?_insert_self]
      cases b with
      | removeJob handle => exact absurd rfl (hb handle)
      | _ => exact hover r info hr hfind fileid hmem hfree
  | removed handle' hjobs hnext =>
    rw [keeps_jobs h]
    obtain hbefore | ⟨left, hleft⟩ := getJobByFileid_removed hjobs hjob
    · exact hs.keeps fileid handle info hbefore
    · obtain rfl := Option.some.inj h
      exact hover fileid left (handle, info) hleft hjob

/-- **A step that does not hand over.** An advertised chunk is no longer honoured. -/
theorem not_honoured_of_not_handsOver (hover : ¬s.HandsOver a) (h : step s a = some s') : ¬s'.Honoured := by
  rw [honoured_iff_keeps]
  intro hkeeps
  have hchange := client_step h
  -- only the calls for jobs hand anything over
  have hjobs : ∃ b, a = .jobs b := by
    cases a with
    | jobs b => exact ⟨b, rfl⟩
    | _ => exact absurd trivial hover
  obtain ⟨b, rfl⟩ := hjobs
  by_cases hremove : ∃ handle, b = .removeJob handle
  · obtain ⟨handle, rfl⟩ := hremove
    apply hover
    intro fileid info next hjob hnext
    rw [← keeps_jobs h]
    obtain rfl := Option.some.inj h
    exact hkeeps fileid next.1 next.2 hnext
  · have hadds : ∀ r info, TorrentRegistry.step (s.client, s.disk) b = some r →
        r.1.jobs.find? s.client.jobIndex = some info →
        ∀ fileid ∈ info.fileidlist, s.client.getJobByFileid fileid = none → s.Keeps info fileid := by
      intro r info hr hfind fileid hmem hfree
      rw [← keeps_jobs h]
      obtain ⟨r', hr', rfl⟩ := Option.map_eq_some_iff.mp h
      obtain rfl := Option.some.inj (hr.symm.trans hr')
      refine hkeeps fileid s.client.jobIndex info (getJobByFileid_eq_some.mpr ⟨hfind, hmem, ?_⟩)
      intro other found hfound hin
      obtain rfl | ⟨before, hbefore, hbefore_in⟩ := hchange.of_find? hfound
      · exact le_rfl
      · rw [hbefore_in] at hin
        exact absurd hin (getJobByFileid_eq_none.mp hfree other before hbefore)
    apply hover
    cases b with
    | removeJob handle => exact absurd ⟨handle, rfl⟩ hremove
    | _ => exact hadds

/-- **Advertisements are honoured throughout a run if and only if each job that comes to answer
for a file has what has been advertised of it.** -/
theorem honoured_iff {disk : Disk} {as : List Action} (h : exec step (new disk) as = some s) :
    Always step HandsOver (new disk) as ↔ Throughout step Honoured (new disk) as :=
  always_iff_throughout (fun hs hover hstep => step_inv hs hover hstep) (fun hs => honoured_iff_keeps.mpr hs.keeps)
    (fun _ hover hstep => not_honoured_of_not_handsOver hover hstep) h
    (inv_new disk)

/-! ### Two jobs with one file -/

/-- A torrent of one file with one chunk. -/
def oneFileTorrent (torrentId : String) : Torrent :=
  ⟨torrentId, 0, 1, "", "", "", [⟨"f", "", "f", 1, [⟨"x", 1⟩]⟩]⟩

/-- A call that nothing goes wrong in. -/
def calmCall : Call := ⟨(.ok .errorOk, .new), "me", .new, .ok "peer", 0, .ok .errorOk, .ok ()⟩

/-- A peer asks what there is of the file. -/
def askForFile : Action := .shakeHand calmCall (some (.shakeHand ⟨some "peer", ⟨some "f", none, none, [], none⟩⟩))

/-- The file is shared, and downloaded with another torrent. -/
def sharedAndDownloaded : List Action :=
  [.jobs (.addNewUploadJob TorrentRegistry.calm (fun _ => none) "a.torrent" "a/" (oneFileTorrent "a")),
    .jobs (.addNewDownloadJob TorrentRegistry.calm "b.torrent" (oneFileTorrent "b") [⟨"", "f"⟩] "b/"), askForFile]

/-- **A chunk that is not there.** When the job that shares the file is removed, the chunk that has
been advertised is served from the job that has yet to download it. -/
theorem advertised_chunk_missing :
    ∃ s info, exec step (new ∅) (sharedAndDownloaded ++ [.jobs (.removeJob 0)]) = some s ∧
      s.Advertised "f" 0 ∧ s.client.getJobByFileid "f" = some (1, info) ∧ info.downloadInfo.bit "f" 0 = some false ∧
      (handleUploadRequest { calmCall with client := s.client } (some (.uploadRequest ⟨"peer", "f", 0⟩)) ⟨none⟩).1 =
        .ok (.errorOk, some ⟨"peer", "b/f", 0, 1⟩) ∧ ¬s.Honoured := by
  have hrun : ∃ s info r, exec step (new ∅) (sharedAndDownloaded ++ [.jobs (.removeJob 0)]) = some s ∧
      s.replies = [r] ∧
      Job.convertBitmapToTransportFormat (some [true]) ⟨some "f", some 1, some 0, [], none⟩ = .ok r.info ∧
      s.client.getJobByFileid "f" = some (1, info) ∧ info.downloadInfo.bit "f" 0 = some false ∧
      (handleUploadRequest { calmCall with client := s.client } (some (.uploadRequest ⟨"peer", "f", 0⟩)) ⟨none⟩).1 =
        .ok (.errorOk, some ⟨"peer", "b/f", 0, 1⟩) :=
    ⟨_, _, _, rfl, rfl, rfl, rfl, rfl, rfl⟩
  obtain ⟨s, info, r, hexec, hreplies, hr, hjob, hbit, hserved⟩ := hrun
  have hadv : s.Advertised "f" 0 := by
    obtain ⟨-, out, hout, -, -, -, -, hback⟩ :=
      @BitmapTransport.encoded [true] ⟨some "f", some 1, some 0, [], none⟩ (by decide)
    obtain rfl := Except.ok.inj (hout.symm.trans hr)
    obtain ⟨hid, hhas⟩ : r.info.fileId = some "f" ∧ r.info.hasFile = some 1 := by
      rw [← Except.ok.inj hr]
      exact ⟨rfl, rfl⟩
    exact ⟨r, by rw [hreplies]; exact List.mem_singleton_self r, hid, hhas, [true], hback rfl, rfl⟩
  refine ⟨s, info, hexec, hadv, hjob, hbit, hserved, fun hhonoured => ?_⟩
  obtain ⟨handle, info', hjob', hbit'⟩ := hhonoured calmCall ⟨"peer", "f", 0⟩ _ 0 hserved rfl hadv
  obtain ⟨-, rfl⟩ := Prod.mk.inj (Option.some.inj (hjob.symm.trans hjob'))
  rw [hbit] at hbit'
  cases hbit'

/-- As long as both jobs are there, the one that shares the file answers. -/
theorem honoured_iff_sharedAndDownloaded :
    ∃ s, exec step (new ∅) sharedAndDownloaded = some s ∧ (s.client.getJobByFileid "f").map Prod.fst = some 0 ∧
      (Always step HandsOver (new ∅) sharedAndDownloaded ↔ Throughout step Honoured (new ∅) sharedAndDownloaded) := by
  have hrun : ∃ s, exec step (new ∅) sharedAndDownloaded = some s ∧
      (s.client.getJobByFileid "f").map Prod.fst = some 0 := ⟨_, rfl, rfl⟩
  obtain ⟨s, hexec, hfirst⟩ := hrun
  exact ⟨s, hexec, hfirst, honoured_iff hexec⟩

end Serving

end CoolDown
