import CoolDown.Client.CoolClient
import CoolDown.Client.JobPlaces
import CoolDown.Client.UploadTask
import CoolDown.Library.Run
import CoolDown.Public.TrackerProto

/-!
# A connection from a peer: `ClientConnectionHandler`

A peer that has connected shakes hands and asks for chunks. `Process` answers a request;
for a chunk it also makes an `UploadTask`, which `onReadable` starts once the reply has
been sent. Between the two, the task is in the member `pTask`, and the member
`last_request_upload` says that there is one. Both are kept from one request to the next,
and `Process` sets the flag for every request for a chunk, granted or not, and leaves it as
it is for a request it does not know. So `start` is also called for requests that have not
made a task: with a null pointer, or with a task of an earlier request.

## The model

The jobs are as the call finds them, since other threads change them. `Call` is what the
outside decides about a call of `onReadable`. A pointer to a task is the task with its
number; `start` of a null pointer throws. A chunk before the first one is read from
whatever the memory holds.

## What is proved

* `process_processed`: what `Process` leaves, by the kind of the request.
* `onReadable_good_iff`: a call starts what it should just when it is `Proper`.
* `disciplined_iff`: so it is for a sequence of calls.
* `starts_null`: a request for a file that nobody has starts a null pointer.
-/

namespace CoolDown

open Library

/-! ### Messages -/

namespace ClientProto

/-- `message FileInfo`, its fields set or not. -/
structure FileInfo where
  fileId : Option String
  hasFile : Option Int32
  percentage : Option Int32
  fileBit : List UInt64
  fileBitCount : Option Int32
  deriving DecidableEq

/-- `message ShakeHand`, its fields set or not. -/
structure ShakeHand where
  clientId : Option String
  info : FileInfo
  deriving DecidableEq

/-- `message UploadRequest`. -/
structure UploadRequest where
  clientId : String
  fileId : String
  chunkNumber : Int64
  deriving DecidableEq

/-- `message UploadReply`, its field set or not. -/
structure UploadReply where
  returnCode : Option Int32
  deriving DecidableEq

/-- A message that has been parsed from a request. -/
inductive ParsedMessage where
  | shakeHand (m : ShakeHand)
  | uploadRequest (m : UploadRequest)
  /-- A message of any other class that is linked in. -/
  | other
  deriving DecidableEq

/-- What the code uses of the generated classes: the message in a payload, by the name of the
class, and the replies as they are written. -/
structure Codec where
  parse : Bytes → Bytes → Option ParsedMessage
  shakeHand : ShakeHand → Option Bytes
  uploadReply : UploadReply → Option Bytes

end ClientProto

open ClientProto

/-! ### What the handler asks the client for -/

/-- `CoolClient::GetJobByFileid`: the first job that has the fileid. -/
def CoolClient.getJobByFileid (s : CoolClient) (fileid : String) : Option (ℕ × JobInfo) :=
  s.jobs.entries.find? fun e => decide (fileid ∈ e.2.fileidlist)

/-- `TorrentFileInfo::chunk_size`, where `wild` is what is read before the first chunk. -/
def Torrent.File.chunkSizeAt (f : Torrent.File) (chunkPos wild : Int32) : ℤ :=
  if chunkPos < 0 then wild.toInt else f.chunkSize chunkPos.toNatClampNeg

/-- `TorrentFileInfo::chunk_offset`; a file without chunks has no first one, so that `wild` is read. -/
def Torrent.File.chunkOffsetAt (f : Torrent.File) (chunkPos wild : Int32) : UInt64 :=
  if chunkPos < 0 then
    let chunkSize := ((f.chunk[0]?).map Torrent.Chunk.size).getD wild
    chunkSize.toInt64.toUInt64 * chunkPos.toInt64.toUInt64
  else f.chunkOffset chunkPos.toNatClampNeg

/-- `Job::convert_bitmap_to_transport_format`. -/
def Job.convertBitmapToTransportFormat (bitmap : Option Bitmap) (info : ClientProto.FileInfo) :
    Except Exception ClientProto.FileInfo :=
  match bitmap with
  | none => .error .assertion
  | some b => .ok { info with fileBitCount := some (Int32.ofNat b.length), fileBit := info.fileBit ++ b.toBlockRange }

/-- A task that has been made, with its number. -/
abbrev UploadTask.Ptr := ℕ × UploadTask

/-- What the outside decides about a call of `onReadable`. -/
structure Call where
  /-- What `receiveFrom` returns, and has in the pack. -/
  received : Except Exception Retcode × NetPack
  /-- The client's id, and its jobs. -/
  clientid : String
  client : CoolClient
  /-- The host of the peer, or the socket has none any more. -/
  peerHost : Except Exception String
  /-- What is read before the first chunk of a file. -/
  wild : Int32
  /-- What `sendBy` returns for the reply. -/
  sent : Except Exception Retcode
  /-- What becomes of starting a task. -/
  starting : Except Exception Unit

/-- `ClientConnectionHandler`: its two members that are kept from request to request. -/
structure ClientConnectionHandler where
  lastRequestUpload : Bool
  pTask : Option UploadTask.Ptr
  deriving DecidableEq

namespace ClientConnectionHandler

/-- `ClientConnectionHandler::ClientConnectionHandler`. -/
def new : ClientConnectionHandler := ⟨false, none⟩

/-- `NetPack::message`, of a request. -/
def message (c : Codec) (p : NetPack) : Option ParsedMessage := c.parse p.messageName p.payload

/-- `HandleShakeHand`, and the client's jobs after it: a fileid that is looked up in the maps is
added to them. -/
def handleShakeHand (call : Call) (m : Option ParsedMessage) (reply : ShakeHand) :
    Except Exception Retcode × CoolClient × ShakeHand :=
  match m with
  | some (.shakeHand req) =>
    let fileid := req.info.fileId.getD ""
    let reply := { reply with clientId := some call.clientid, info := { reply.info with fileId := some fileid } }
    let absent := { reply.info with hasFile := some 0, percentage := some 0, fileBitCount := some 0 }
    match call.client.getJobByFileid fileid with
    | none => (.ok .errorOk, call.client, { reply with info := absent })
    | some (handle, info) =>
      if info.localFileInfo.hasFile fileid = false then (.ok .errorOk, call.client, { reply with info := absent })
      else
        let (bitmap, d) := info.downloadInfo.bitmapAt fileid
        let store (d : DownloadInfo) : CoolClient :=
          { call.client with jobs := call.client.jobs.insert handle { info with downloadInfo := d } }
        match bitmap with
        | none => (.error .nullPointer, store d, reply)
        | some b =>
          let (percentage, percentageMap) := d.percentageMap.getOrInsert fileid 0
          let present := { reply.info with hasFile := some 1, percentage := some percentage }
          match Job.convertBitmapToTransportFormat (some b) present with
          | .error e => (.error e, store { d with percentageMap }, { reply with info := present })
          | .ok present => (.ok .errorOk, store { d with percentageMap }, { reply with info := present })
  | _ => (.ok .errorProtoTypeError, call.client, reply)

/-- `HandleUploadRequest`, and the task it makes. -/
def handleUploadRequest (call : Call) (m : Option ParsedMessage) (reply : UploadReply) :
    Except Exception (Retcode × Option UploadTask) × UploadReply :=
  let reply := { reply with returnCode := some Retcode.errorUnknown.value }
  match m with
  | some (.uploadRequest req) =>
    let chunkPos := req.chunkNumber.toInt32
    match call.client.getJobByFileid req.fileId with
    | none => (.ok (.errorFileNotExists, none), reply)
    | some (_, info) =>
      let file := info.localFileInfo.getFile req.fileId
      match info.torrentInfo.getOneFileOfSameFileid req.fileId with
      | .error e => (.error e, reply)
      | .ok fileInfo =>
        let offset := fileInfo.chunkOffsetAt chunkPos call.wild
        let chunkSize := fileInfo.chunkSizeAt chunkPos call.wild
        match file with
        | none => (.error .assertion, reply)
        | some file =>
          if ¬0 < chunkSize then (.error .assertion, reply)
          else
            match call.peerHost with
            | .error e => (.error e, reply)
            | .ok host =>
              (.ok (.errorOk, some ⟨host, file, offset, chunkSize⟩), { reply with returnCode := some Retcode.errorOk.value })
  | _ => (.ok (.errorProtoTypeError, none), reply)

/-- `Process`; `created` is how many tasks have been made. -/
def process (c : Codec) (call : Call) (h : ClientConnectionHandler) (created : ℕ) (pack : NetPack) (out : NetPack) :
    Except Exception NetPack × ClientConnectionHandler × ℕ :=
  let req := message c pack
  if pack.payloadType = payloadShakeHand then
    match handleShakeHand call req ⟨none, ⟨none, none, none, [], none⟩⟩ with
    | (.error e, _, _) => (.error e, h, created)
    | (.ok _, _, sh) =>
      (.ok (out.setMessage payloadShakeHand ⟨Wire.utf8 "ClientProto.ShakeHand", c.shakeHand sh⟩),
        { h with lastRequestUpload := false }, created)
  else if pack.payloadType = payloadUploadRequest then
    match handleUploadRequest call req ⟨none⟩ with
    | (.error e, _) => (.error e, h, created)
    | (.ok (ret, pTask), ur) =>
      let reply := out.setMessage payloadUploadReply ⟨Wire.utf8 "ClientProto.UploadReply", c.uploadReply ur⟩
      if ret ≠ .errorOk then (.ok reply, { h with lastRequestUpload := true }, created)
      else
        match pTask with
        | none => (.error .assertion, h, created)
        | some task => (.ok reply, ⟨true, some (created, task)⟩, created + 1)
  else (.ok out, h, created)

/-- `upload_manager().start`. -/
def start (call : Call) : Option UploadTask.Ptr → Except Exception Unit
  | none => .error .nullPointer
  | some _ => call.starting

/-- What a call of `onReadable` leaves: the handler, unless it is deleted, how many tasks there are,
whether the reply has been sent, and what has been started. -/
structure Outcome where
  result : Except Exception Unit
  handler : Option ClientConnectionHandler
  created : ℕ
  sent : Bool
  started : List (Option UploadTask.Ptr)

/-- `onReadable`. -/
def onReadable (c : Codec) (call : Call) (h : ClientConnectionHandler) (created : ℕ) : Outcome :=
  match call.received with
  | (.error e, _) => ⟨.error e, some h, created, false, []⟩
  | (.ok ret, pack) =>
    if ret ≠ .errorOk then ⟨.ok (), none, created, false, []⟩
    else
      match h.process c call created pack .new with
      | (.error e, h, created) => ⟨.error e, some h, created, false, []⟩
      | (.ok _, h, created) =>
        match call.sent with
        | .error e => ⟨.error e, some h, created, false, []⟩
        | .ok ret =>
          -- the task is deleted with the handler
          if ret ≠ .errorOk then ⟨.ok (), none, created, false, []⟩
          else if h.lastRequestUpload then
            match start call h.pTask with
            | .error e => ⟨.error e, some h, created, true, [h.pTask]⟩
            | .ok () => ⟨.ok (), some { h with pTask := none }, created, true, [h.pTask]⟩
          else ⟨.ok (), some h, created, true, []⟩

/-- `onShutdown`. -/
def onShutdown (_h : ClientConnectionHandler) : Option ClientConnectionHandler := none

/-! ### What a call starts -/

/-- The task that `HandleUploadRequest` makes for the request, when it returns `ERROR_OK`. -/
def granted (c : Codec) (call : Call) (created : ℕ) : Option UploadTask.Ptr :=
  if call.received.2.payloadType = payloadUploadRequest then
    match (handleUploadRequest call (message c call.received.2) ⟨none⟩).1 with
    | .ok (.errorOk, some task) => some (created, task)
    | _ => none
  else none

/-- The message is no `UploadRequest`, or no job has the file. -/
def NothingToSend (client : CoolClient) : Option ParsedMessage → Prop
  | some (.uploadRequest req) => client.getJobByFileid req.fileId = none
  | _ => True

/-- A request for a chunk that is refused. -/
def Refused (c : Codec) (call : Call) : Prop :=
  call.received.2.payloadType = payloadUploadRequest ∧ NothingToSend call.client (message c call.received.2)

/-- A request of a type that is not known. -/
def Unknown (call : Call) : Prop :=
  call.received.2.payloadType ≠ payloadShakeHand ∧ call.received.2.payloadType ≠ payloadUploadRequest

/-- If the reply is sent, the request is not a refused one, nor one that is not known while the flag
of an earlier request for a chunk is still set. -/
def Proper (c : Codec) (call : Call) (h : ClientConnectionHandler) : Prop :=
  call.received.1 = .ok .errorOk → call.sent = .ok .errorOk →
    ¬Refused c call ∧ (Unknown call → h.lastRequestUpload = false)

/-- `HandleUploadRequest` returns an error just when the request is refused, and a task else, unless it throws. -/
theorem handleUploadRequest_cases (call : Call) (m : Option ParsedMessage) (reply : UploadReply) :
    NothingToSend call.client m ∧ (∃ ret, ret ≠ .errorOk ∧ (handleUploadRequest call m reply).1 = .ok (ret, none)) ∨
      ¬NothingToSend call.client m ∧
        ((∃ e, (handleUploadRequest call m reply).1 = .error e) ∨
          ∃ task, (handleUploadRequest call m reply).1 = .ok (.errorOk, some task)) := by
  unfold handleUploadRequest NothingToSend
  cases m with
  | none => exact .inl ⟨trivial, _, by decide, rfl⟩
  | some m =>
    cases m with
    | shakeHand | other => exact .inl ⟨trivial, _, by decide, rfl⟩
    | uploadRequest req =>
      simp only
      cases hjob : call.client.getJobByFileid req.fileId with
      | none => exact .inl ⟨rfl, _, by decide, rfl⟩
      | some job =>
        obtain ⟨handle, info⟩ := job
        refine .inr ⟨by simp, ?_⟩
        simp only
        cases info.torrentInfo.getOneFileOfSameFileid req.fileId with
        | error e => exact .inl ⟨e, rfl⟩
        | ok fileInfo =>
          cases info.localFileInfo.getFile req.fileId with
          | none => exact .inl ⟨_, rfl⟩
          | some file =>
            simp only
            split_ifs with hsize
            · cases call.peerHost with
              | error e => exact .inl ⟨e, rfl⟩
              | ok host => exact .inr ⟨_, rfl⟩
            · exact .inl ⟨_, rfl⟩

/-- What `Process` does, by the kind of the request. -/
inductive Processed (c : Codec) (call : Call) (h : ClientConnectionHandler) (created : ℕ) :
    Except Exception NetPack × ClientConnectionHandler × ℕ → Prop where
  /-- It throws, and leaves everything as it was. -/
  | threw (e : Exception) (hrefused : ¬Refused c call) (hknown : ¬Unknown call) (hgranted : granted c call created = none) :
    Processed c call h created (.error e, h, created)
  /-- A shake of hands. -/
  | shakeHand (out : NetPack) (hrefused : ¬Refused c call) (hknown : ¬Unknown call) (hgranted : granted c call created = none) :
    Processed c call h created (.ok out, { h with lastRequestUpload := false }, created)
  /-- A request for a chunk that is refused. -/
  | refused (out : NetPack) (hrefused : Refused c call) (hgranted : granted c call created = none) :
    Processed c call h created (.ok out, { h with lastRequestUpload := true }, created)
  /-- One that is granted. -/
  | granted (out : NetPack) (task : UploadTask.Ptr) (hrefused : ¬Refused c call) (hknown : ¬Unknown call)
    (hgranted : granted c call created = some task) (hcreated : task.1 = created) :
    Processed c call h created (.ok out, ⟨true, some task⟩, created + 1)
  /-- A request that is not known. -/
  | unknown (out : NetPack) (hrefused : ¬Refused c call) (hunknown : Unknown call) (hgranted : granted c call created = none) :
    Processed c call h created (.ok out, h, created)

/-- **What `Process` leaves.** -/
theorem process_processed (c : Codec) (call : Call) (h : ClientConnectionHandler) (created : ℕ) (out : NetPack) :
    Processed c call h created (h.process c call created call.received.2 out) := by
  have hkinds : payloadShakeHand ≠ payloadUploadRequest := by decide
  unfold process
  simp only
  split_ifs with hshake hupload
  · -- it grants nothing, and cannot be refused
    have hgranted : granted c call created = none := by simp [granted, hshake, hkinds]
    have hrefused : ¬Refused c call := fun h => hkinds (hshake.symm.trans h.1)
    split
    · exact .threw _ hrefused (fun h => h.1 hshake) hgranted
    · exact .shakeHand _ hrefused (fun h => h.1 hshake) hgranted
  · have hknown : ¬Unknown call := fun h => h.2 hupload
    rcases handleUploadRequest_cases call (message c call.received.2) ⟨none⟩ with
      ⟨hrefused, ret, hret, heq⟩ | ⟨hrefused, ⟨e, heq⟩ | ⟨task, heq⟩⟩
    · have hgranted : granted c call created = none := by
        cases ret <;> simp [granted, hupload, heq] at hret ⊢
      rcases hhandle : handleUploadRequest call (message c call.received.2) ⟨none⟩ with ⟨r, ur⟩
      rw [hhandle] at heq
      subst heq
      simp only [ne_eq, hret, not_false_eq_true, if_true]
      exact .refused _ ⟨hupload, hrefused⟩ hgranted
    · have hgranted : granted c call created = none := by simp [granted, hupload, heq]
      rcases hhandle : handleUploadRequest call (message c call.received.2) ⟨none⟩ with ⟨r, ur⟩
      rw [hhandle] at heq
      subst heq
      exact .threw e (fun h => hrefused h.2) hknown hgranted
    · have hgranted : granted c call created = some (created, task) := by simp [granted, hupload, heq]
      rcases hhandle : handleUploadRequest call (message c call.received.2) ⟨none⟩ with ⟨r, ur⟩
      rw [hhandle] at heq
      subst heq
      exact .granted _ (created, task) (fun h => hrefused h.2) hknown hgranted rfl
  · exact .unknown _ (fun h => hupload h.1) ⟨hshake, hupload⟩ (by simp [granted, hupload])

/-! ### Calls -/

/-- What there is to say of a call: the task that its request has made, if it is granted, whether
the reply has been sent, and what has been started. -/
structure Handled where
  granted : Option UploadTask.Ptr
  sent : Bool
  started : List (Option UploadTask.Ptr)

/-- The task that the request has made is started, once the reply has been sent, and nothing else is. -/
def Handled.Good (e : Handled) : Prop :=
  e.started = if e.sent then (e.granted.map some).toList else []

/-- What a call of `onReadable` comes to. A request that is not received makes no task. -/
def handled (c : Codec) (call : Call) (h : ClientConnectionHandler) (created : ℕ) : Handled where
  granted := if call.received.1 = .ok .errorOk then granted c call created else none
  sent := (h.onReadable c call created).sent
  started := (h.onReadable c call created).started

/-- **A call starts what it should** just when it is proper; and then the task it starts is the
latest one. -/
theorem onReadable_good_iff (c : Codec) (call : Call) (h : ClientConnectionHandler) (created : ℕ) :
    ((handled c call h created).Good ↔ h.Proper c call) ∧ created ≤ (h.onReadable c call created).created ∧
      ∀ task ∈ (handled c call h created).granted, task.1 = created ∧
        created < (h.onReadable c call created).created := by
  rcases hreceived : call.received with ⟨ret | ret, pack⟩
  · simp [handled, onReadable, hreceived, Handled.Good, Proper]
  · by_cases hret : ret = .errorOk
    · subst hret
      have hprocessed := h.process_processed c call created .new
      simp only [handled, hreceived, if_true, onReadable, ne_eq, not_true_eq_false, if_false, Proper, forall_const]
      rw [hreceived] at hprocessed
      generalize h.process c call created pack .new = r at hprocessed
      cases hprocessed with
      | threw e hrefused hknown hgranted => simp [Handled.Good, hgranted, hrefused, hknown]
      | shakeHand out hrefused hknown hgranted =>
        -- the flag is cleared
        simp only [hgranted, hrefused, hknown]
        rcases call.sent with e | ret
        · simp [Handled.Good]
        · by_cases hret : ret = .errorOk
          · simp [hret, Handled.Good]
          · simp [hret, Handled.Good]
      | refused out hrefused hgranted =>
        -- the flag is set, and whatever the pointer is, it is not a task of this request
        simp only [hgranted, hrefused]
        rcases call.sent with e | ret
        · simp [Handled.Good]
        · by_cases hret : ret = .errorOk
          · cases start call h.pTask <;> simp [hret, Handled.Good]
          · simp [hret, Handled.Good]
      | granted out task hrefused hknown hgranted hcreated =>
        simp only [hgranted, hrefused, hknown]
        rcases call.sent with e | ret
        · simp [Handled.Good, hcreated]
        · by_cases hret : ret = .errorOk
          · cases start call (some task) <;> simp [hret, Handled.Good, hcreated]
          · simp [hret, Handled.Good, hcreated]
      | unknown out hrefused hunknown hgranted =>
        -- the flag is as it was
        simp only [hgranted, hrefused, hunknown]
        rcases call.sent with e | ret
        · simp [Handled.Good]
        · by_cases hret : ret = .errorOk
          · cases h.lastRequestUpload
            · simp [hret, Handled.Good]
            · cases start call h.pTask <;> simp [hret, Handled.Good]
          · simp [hret, Handled.Good]
    · simp [handled, onReadable, hreceived, Handled.Good, Proper, hret]

/-- A connection: its handler, unless it is deleted, how many tasks have been made, and what there is
to say of the calls so far. -/
structure State where
  handler : Option ClientConnectionHandler
  created : ℕ
  log : List Handled

/-- What happens on a connection. -/
inductive Event where
  | readable (call : Call)
  | shutdown

/-- A connection that has just been made. -/
def State.start : State := ⟨some .new, 0, []⟩

/-- One event. -/
def step (c : Codec) (s : State) (e : Event) : Option State :=
  match s.handler with
  | none => none
  | some h =>
    match e with
    | .readable call =>
      let out := h.onReadable c call s.created
      some ⟨out.handler, out.created, s.log ++ [handled c call h s.created]⟩
    | .shutdown => some ⟨h.onShutdown, s.created, s.log⟩

/-- After each reply that has been sent, the task of the request is started if there is one, and nothing
else is started; and no task is started twice. -/
structure Disciplined (s : State) : Prop where
  good : ∀ e ∈ s.log, e.Good
  nodup : (s.log.flatMap Handled.started).Nodup

/-- The event is a shutdown, or a proper call. -/
def ProperEvent (c : Codec) (s : State) : Event → Prop
  | .readable call => ∀ h ∈ s.handler, h.Proper c call
  | .shutdown => True

/-- The tasks made so far have the numbers so far. -/
structure Inv (s : State) : Prop extends Disciplined s where
  granted_lt : ∀ e ∈ s.log, ∀ task ∈ e.granted, task.1 < s.created

theorem inv_start : Inv .start where
  good := by simp [State.start]
  nodup := by simp [State.start]
  granted_lt := by simp [State.start]

/-- What is started for a good call is the task it has made. -/
theorem Handled.Good.of_mem {e : Handled} (he : e.Good) {p : Option UploadTask.Ptr} (hp : p ∈ e.started) :
    ∃ task ∈ e.granted, p = some task := by
  rw [he] at hp
  split_ifs at hp
  · cases hgranted : e.granted with
    | none => simp [hgranted] at hp
    | some task => exact ⟨task, rfl, by simpa [hgranted] using hp⟩
  · cases hp

theorem Handled.Good.nodup {e : Handled} (he : e.Good) : e.started.Nodup := by
  rw [he]
  split_ifs
  · cases e.granted with
    | none => exact .nil
    | some task => exact List.nodup_singleton _
  · exact .nil

/-- A proper event keeps the invariant. -/
theorem inv_step {c : Codec} {s t : State} {e : Event} (hs : Inv s) (he : ProperEvent c s e) (h : step c s e = some t) :
    Inv t := by
  unfold step at h
  split at h
  · cases h
  · next handler hhandler =>
    cases e with
    | shutdown =>
      cases h
      exact ⟨⟨hs.good, hs.nodup⟩, hs.granted_lt⟩
    | readable call =>
      cases h
      obtain ⟨hgood, hle, hnew⟩ := onReadable_good_iff c call handler s.created
      have hcall := hgood.mpr (he handler hhandler)
      refine ⟨⟨?_, ?_⟩, ?_⟩
      · intro e hmem
        rcases List.mem_append.mp hmem with hmem | hmem
        · exact hs.good e hmem
        · rw [List.mem_singleton.mp hmem]
          exact hcall
      · rw [List.flatMap_append, List.flatMap_singleton, List.nodup_append]
        refine ⟨hs.nodup, hcall.nodup, fun p hp q hq => ?_⟩
        -- an earlier task has a smaller number
        obtain ⟨e, hmem, hp⟩ := List.mem_flatMap.mp hp
        obtain ⟨task, htask, rfl⟩ := (hs.good e hmem).of_mem hp
        obtain ⟨task', htask', rfl⟩ := hcall.of_mem hq
        have hlt := hs.granted_lt e hmem task htask
        have heq := (hnew task' htask').1
        intro hsame
        rw [Option.some.injEq] at hsame
        rw [hsame] at hlt
        omega
      · intro e hmem task htask
        rcases List.mem_append.mp hmem with hmem | hmem
        · exact (hs.granted_lt e hmem task htask).trans_le hle
        · rw [List.mem_singleton.mp hmem] at htask
          obtain ⟨heq, hlt⟩ := hnew task htask
          exact heq.trans_lt hlt

/-- What is wrong stays in the log. -/
theorem not_disciplined_step {c : Codec} {s t : State} {e : Event} (hs : ¬Disciplined s) (h : step c s e = some t) :
    ¬Disciplined t := by
  intro ht
  apply hs
  unfold step at h
  split at h
  · cases h
  · cases e with
    | shutdown =>
      cases h
      exact ⟨ht.good, ht.nodup⟩
    | readable call =>
      cases h
      refine ⟨fun e he => ht.good e (List.mem_append_left _ he), ?_⟩
      have hnodup := ht.nodup
      rw [List.flatMap_append] at hnodup
      exact (List.nodup_append.mp hnodup).1

/-- An event that is not proper goes wrong. -/
theorem not_disciplined_of_not_proper {c : Codec} {s t : State} {e : Event} (he : ¬ProperEvent c s e)
    (h : step c s e = some t) : ¬Disciplined t := by
  intro ht
  apply he
  cases e with
  | shutdown => trivial
  | readable call =>
    intro handler hhandler
    unfold step at h
    rw [hhandler] at h
    cases h
    exact (onReadable_good_iff c call handler s.created).1.mp (ht.good _ (List.mem_append_right _ (List.mem_singleton_self _)))

/-- **The discipline of starts.** Over the calls on a connection, an upload task is started after the
reply just when the request has made it, it is that task, and it is started once and never null, if and
only if every call is proper. -/
theorem disciplined_iff (c : Codec) {events : List Event} {s : State} (hrun : exec (step c) .start events = some s) :
    Always (step c) (ProperEvent c) .start events ↔ Disciplined s :=
  always_iff inv_step Inv.toDisciplined (fun _ => not_disciplined_of_not_proper) not_disciplined_step hrun inv_start

/-- Generated classes that know this request, and nothing else. -/
def only (req : UploadRequest) : Codec := ⟨fun _ _ => some (.uploadRequest req), fun _ => some [], fun _ => some []⟩

/-- A call with a request of this type, to a client without jobs. -/
def callOf (payloadType : Int32) : Call :=
  ⟨(.ok .errorOk, ⟨payloadType, [], [], .empty⟩), "c", .new, .ok "h", 0, .ok .errorOk, .ok ()⟩

/-- **A null pointer is started.** The peer has asked for a chunk of a file that the client does not have. -/
theorem starts_null :
    ∃ s, exec (step (only ⟨"p", "f", 0⟩)) .start [.readable (callOf payloadUploadRequest)] = some s ∧
      s.log.map Handled.started = [[none]] ∧ ¬Disciplined s := by
  refine ⟨_, rfl, rfl, fun h => ?_⟩
  exact absurd (h.good _ (List.mem_singleton_self _)) (by unfold Handled.Good; decide)

/-- A client with one job, of one file with one chunk. -/
def oneJob : CoolClient :=
  CoolClient.new.addNewJob (JobInfo.new Job.oneChunkTorrent "/d/" [⟨"", "a"⟩] 0 0 (fun _ => none) ∅).1 "t"

/-- A call with a request, to this client. -/
def callOneJob : Call := { callOf payloadUploadRequest with client := oneJob }

/-- The peer asks for the chunk, shakes hands, and asks for it again. -/
def twoUploads : List Event := [.readable callOneJob, .readable (callOf payloadShakeHand), .readable callOneJob, .shutdown]

/-- Two tasks are made, and each is started once. -/
theorem disciplined_iff_twoUploads :
    ∃ s, exec (step (only ⟨"p", "f", 0⟩)) .start twoUploads = some s ∧
      (s.log.map fun e => e.started.map (Option.map Prod.fst)) = [[some 0], [], [some 1]] ∧
      (Always (step (only ⟨"p", "f", 0⟩)) (ProperEvent (only ⟨"p", "f", 0⟩)) .start twoUploads ↔ Disciplined s) :=
  ⟨_, rfl, rfl, disciplined_iff (only ⟨"p", "f", 0⟩) rfl⟩

end ClientConnectionHandler

end CoolDown
