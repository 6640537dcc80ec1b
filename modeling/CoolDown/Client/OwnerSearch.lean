import CoolDown.Client.BitmapTransport
import CoolDown.Client.JobPlaces
import CoolDown.Library.Run
import Mathlib.Logic.Function.Basic

/-!
# Who has the file: `reinit_file_owner_info`

`request_clients` asks the tracker for owners of a file and puts them in the place of those that
are listed, each with a bitmap of no bits. Then each owner in turn is connected to, if it is not
yet, and `shake_hand` takes its bitmap from its reply. An owner that does not answer, or that says
it does not have the file, stays listed as it is. `get_priority` tests the bit of a chunk in the
bitmap of every owner listed.

## The model

The job goes on as in `Job.step`, but for the calls of `reinit_file_owner_info`, whose way through
the list is taken step by step: what the tracker answers, what becomes of a connection, and what
becomes of an exchange of messages, each decided by the outside. In between the tasks of the job go
on, and their failures are reported. `heard` is not in the code: it keeps the last reply of each
client that has been taken in since the list came.

## What is proved

* `getPriority_isOk_iff`: `get_priority` returns if and only if the owners are listed and all its
  tests are in range.
* `initQueue_calls`: when `init_queue` returns, it has called `get_priority` for what it has queued.
* `step_told`: the first entry of a client has the bitmap of the reply that has been taken in, and
  any other has no bits.
* `search_refines`: a search that nobody interrupts is a step of `Job`.
* `tests_in_range_iff`: in a run all tests are in range if and only if `get_priority` is called for
  a chunk only when each client is listed once and has replied with enough bits.
* `unanswered_owner`: an owner that has closed the connection.
-/

namespace CoolDown

open Library ChunkSelector ClientProto

/-- `FileOwnerInfo::FileOwnerInfo`: a bitmap of no bits. -/
def FileOwnerInfo.new (clientid ip : String) (messagePort percentage : Int32) : FileOwnerInfo :=
  ⟨clientid, ip, messagePort, percentage, []⟩

namespace OwnerSearch

/-! ### `request_clients` -/

/-- An owner in the reply of the tracker. -/
structure Peer where
  clientid : String
  ip : String
  messagePort : Int32
  percentage : Int32
  deriving DecidableEq

/-- `message QueryPeerReply`, as far as it is read. -/
structure QueryPeerReply where
  returncode : Int32
  info : List Peer
  deriving DecidableEq

/-- `CoolClient::RequestClients` with what `handle_reply_message` returns and its `out`, which is
dereferenced in any case. -/
def requestClients (r : Except Exception (Retcode × Option QueryPeerReply)) :
    Except Exception (Retcode × List FileOwnerInfo) :=
  match r with
  | .error e => .error e
  | .ok (_, none) => .error .nullPointer
  | .ok (ret, some reply) =>
    if ret ≠ .errorOk ∨ reply.returncode ≠ Retcode.errorOk.value then .ok (.errorUnknown, [])
    else .ok (.errorOk, reply.info.map fun peer => .new peer.clientid peer.ip peer.messagePort peer.percentage)

/-! ### `shake_hand` -/

/-- What becomes of an exchange of messages with a peer. -/
structure Exchange where
  /-- A new connection, if one is wanted. -/
  conn : Except Exception (Option Sock)
  /-- What `sendBy` returns. -/
  sent : Except Exception Retcode
  /-- What `receiveFrom` returns. -/
  received : Except Exception Retcode
  /-- What the message of the pack is cast to. -/
  message : Option ShakeHand

/-- `CoolClient::shake_hand`, once it has a socket: a code other than `ERROR_OK`, or the message of
the peer. -/
def Exchange.outcome (x : Exchange) : Except Exception (Except Retcode ShakeHand) := do
  let ret ← x.sent
  if ret ≠ .errorOk then return .error ret
  let ret ← x.received
  if ret ≠ .errorOk then return .error ret
  match x.message with
  | none => throw .nullPointer
  | some peer => return .ok peer

/-- `CoolClient::shake_hand`. The guard returns the socket on every way out. -/
def exchange (m : LocalSockManager) (clientid : String) (x : Exchange) :
    LocalSockManager × Except Exception (Except Retcode ShakeHand) :=
  if m.isConnected clientid = false then (m, .error .assertion)
  else
    match m.getIdleClientSock clientid x.conn with
    | .error e => (m, .error e)
    | .ok (none, m) => (m, .error .assertion)
    | .ok (some sock, m) => ((m.returnSock clientid (some sock)).1, x.outcome)

/-- `Job::shake_hand` up to the reply: a code other than `ERROR_OK`, or what the peer says of the file. -/
def peerInfo (info : JobInfo) (m : LocalSockManager) (fileid clientid : String) (x : Exchange) :
    (JobInfo × LocalSockManager) × Except Exception (Except Retcode FileInfo) :=
  match info.downloadInfo.percentageMap.find? fileid with
  | none => ((info, m), .error .assertion)
  | some percentage =>
    let (bitmap, d) := info.downloadInfo.bitmapAt fileid
    let info := { info with downloadInfo := d }
    match Job.convertBitmapToTransportFormat bitmap ⟨some fileid, some 1, some percentage, [], none⟩ with
    | .error e => ((info, m), .error e)
    | .ok _ =>
      match exchange m clientid x with
      | (m, .error e) => ((info, m), .error e)
      | (m, .ok (.error ret)) => ((info, m), .ok (.error ret))
      | (m, .ok (.ok peer)) =>
        ((info, m), .ok (if peer.info.hasFile.getD 0 = 0 then .error .errorPeerFileNotFound else .ok peer.info))

/-- The bitmap `conver_transport_format_bitmap` leaves: the blocks are in it before `resize` throws. -/
def bitmapOf (peer : FileInfo) : Bitmap :=
  match Job.converTransportFormatBitmap peer with
  | .ok b => b
  | .error _ => Bitmap.ofBlockRange peer.fileBit

/-- The first entry with the clientid gets the bitmap. -/
def setBitmap (clientid : String) (b : Bitmap) : List FileOwnerInfo → Option (List FileOwnerInfo)
  | [] => none
  | p :: ps =>
    if p.clientid = clientid then some ({ p with bitmap := b } :: ps) else (setBitmap clientid b ps).map (p :: ·)

/-- `Job::shake_hand`. -/
def shakeHand (info : JobInfo) (m : LocalSockManager) (fileid clientid : String) (x : Exchange) :
    (JobInfo × LocalSockManager) × Except Exception Retcode :=
  match peerInfo info m fileid clientid x with
  | (s, .error e) => (s, .error e)
  | (s, .ok (.error ret)) => (s, .ok ret)
  | ((info, m), .ok (.ok peer)) =>
    match info.ownerInfoMap.find? fileid with
    | none => ((info, m), .error .assertion)
    | some infoPtrList =>
      match setBitmap clientid (bitmapOf peer) infoPtrList with
      | none => ((info, m), .error .assertion)
      | some infoPtrList =>
        -- the assertion that the count is the size of the bitmap holds once `resize` has returned
        (({ info with ownerInfoMap := info.ownerInfoMap.insert fileid infoPtrList }, m),
          (Job.converTransportFormatBitmap peer).map fun _ => .errorOk)

/-! ### `reinit_file_owner_info` -/

/-- A place in `reinit_file_owner_info`. -/
inductive Place where
  /-- `run` is somewhere else. -/
  | outside
  /-- The tracker has been asked. -/
  | asked (fileid : String)
  /-- About to see if entry `i` is connected. -/
  | connecting (fileid : String) (i : ℕ)
  /-- About to shake hands with entry `i`. -/
  | greeting (fileid : String) (i : ℕ)
  deriving DecidableEq

/-- A step, and what the outside decides about it. -/
inductive Action where
  /-- The job goes on. -/
  | job (a : Job.Action)
  /-- `request_clients` is called. -/
  | request
  /-- `handle_reply_message` returns to it. -/
  | reply (r : Except Exception (Retcode × Option QueryPeerReply))
  /-- An owner is connected to, if it is not yet; `conn` is what `make_connection` returns. -/
  | connect (conn : Option Sock)
  /-- `shake_hand` is called for it. -/
  | shakeHand (x : Exchange)

/-- The file `run` is about to look for owners of. -/
def wanted (j : Job) : Option String :=
  match j.pc with
  | .findOwners (fileid :: _) => if (j.jobInfo.ownerInfoMap.find? fileid).isSome then none else some fileid
  | .findOwner chunk => some chunk.fileid
  | _ => none

/-- Where `run` goes on when `reinit_file_owner_info` has returned. -/
def returned : Job.Pc → Job.Pc
  | .findOwners (_ :: todo) => .findOwners todo
  | .findOwner chunk => .chooseOwner chunk
  | pc => pc

end OwnerSearch

open OwnerSearch in
/-- A job, the place its search for owners is at, and the last reply to `shake_hand` of each client,
by fileid. -/
structure OwnerSearch where
  job : Job
  place : Place
  heard : String → String → Option FileInfo

namespace OwnerSearch

/-- A job that has not looked for owners yet. -/
def start (info : JobInfo) (m : LocalSockManager) (disk : Disk) : OwnerSearch :=
  ⟨.new { info with ownerInfoMap := ∅ } m disk, .outside, fun _ _ => none⟩

/-- `reinit_file_owner_info` returns. -/
def leave (s : OwnerSearch) : OwnerSearch :=
  { s with job := { s.job with pc := returned s.job.pc }, place := .outside }

/-- An exception leaves `reinit_file_owner_info`, and `run`. -/
def abort (s : OwnerSearch) : OwnerSearch := { s with job := { s.job with pc := .aborted }, place := .outside }

/-- The owners listed for a file. -/
def owners (s : OwnerSearch) (fileid : String) : List FileOwnerInfo := (s.job.jobInfo.ownerInfoMap.find? fileid).getD []

/-- The next round of the loop over the list. -/
def next (s : OwnerSearch) (fileid : String) (i : ℕ) : OwnerSearch :=
  if i + 1 < (s.owners fileid).length then { s with place := .connecting fileid (i + 1) } else s.leave

/-- `ownerInfoMap` changes. -/
def setOwners (s : OwnerSearch) (owners : SortedMap String (List FileOwnerInfo)) : OwnerSearch :=
  { s with job := { s.job with jobInfo := { s.job.jobInfo with ownerInfoMap := owners } } }

/-- `request_clients` up to the answer of the tracker: a file without a list gets an empty one. -/
def request (s : OwnerSearch) (fileid : String) : OwnerSearch :=
  match s.job.jobInfo.downloadInfo.percentageMap.find? fileid with
  | none => s.abort
  | some percentage =>
    let s := s.setOwners (s.job.jobInfo.ownerInfoMap.getOrInsert fileid []).2
    if percentage < 0 then s.abort
    else
      match s.job.sockManager.getTrackerSock s.job.jobInfo.torrentInfo.torrent.trackerAddress with
      | none => s.leave
      | some _ => { s with place := .asked fileid }

/-- `request_clients` from the answer on: only a list that is not empty takes the place of the one there is. -/
def reply (s : OwnerSearch) (fileid : String) (r : Except Exception (Retcode × Option QueryPeerReply)) : OwnerSearch :=
  match requestClients r with
  | .error _ => s.abort
  | .ok (ret, res) =>
    if ret ≠ .errorOk ∨ res = [] then s.leave
    else
      { s.setOwners (s.job.jobInfo.ownerInfoMap.insert fileid res) with
        place := .connecting fileid 0
        heard := Function.update s.heard fileid fun _ => none }

/-- The first half of a round: `connect_client`, for an owner that is not connected. Whether it
succeeds is not asked. -/
def connect (s : OwnerSearch) (fileid : String) (i : ℕ) (clientid : String) (conn : Option Sock) : OwnerSearch :=
  let m := s.job.sockManager
  { s with
    job := { s.job with sockManager := if m.isConnected clientid then m else (m.connectClient clientid conn).2 }
    place := .greeting fileid i }

/-- What `shake_hand` leaves. -/
def takeIn (s : OwnerSearch) (fileid clientid : String) (x : Exchange) : OwnerSearch :=
  let r := OwnerSearch.shakeHand s.job.jobInfo s.job.sockManager fileid clientid x
  { s with
    job := { s.job with jobInfo := r.1.1, sockManager := r.1.2 }
    heard :=
      match (peerInfo s.job.jobInfo s.job.sockManager fileid clientid x).2 with
      | .ok (.ok peer) => Function.update s.heard fileid (Function.update (s.heard fileid) clientid (some peer))
      | .error _ | .ok (.error _) => s.heard }

/-- The second half: `shake_hand`. Its code is not asked for either. -/
def greet (s : OwnerSearch) (fileid : String) (i : ℕ) (clientid : String) (x : Exchange) : OwnerSearch :=
  match (OwnerSearch.shakeHand s.job.jobInfo s.job.sockManager fileid clientid x).2 with
  | .error _ => (s.takeIn fileid clientid x).abort
  | .ok _ => (s.takeIn fileid clientid x).next fileid i

variable (sha1 : Bytes → String) in
/-- One step: `none` where the action is not possible. -/
def step (s : OwnerSearch) : Action → Option OwnerSearch
  | .job (.run ev) =>
    if s.place = .outside ∧ wanted s.job = none then (s.job.step sha1 (.run ev)).map fun j => { s with job := j }
    else none
  | .job a => (s.job.step sha1 a).map fun j => { s with job := j }
  | .request =>
    match s.place, wanted s.job with
    | .outside, some fileid => some (s.request fileid)
    | _, _ => none
  | .reply r =>
    match s.place with
    | .asked fileid => some (s.reply fileid r)
    | _ => none
  | .connect conn =>
    match s.place with
    | .connecting fileid i => (s.owners fileid)[i]?.map fun p => s.connect fileid i p.clientid conn
    | _ => none
  | .shakeHand x =>
    match s.place with
    | .greeting fileid i => (s.owners fileid)[i]?.map fun p => s.greet fileid i p.clientid x
    | _ => none

/-! ### The calls of `get_priority` -/

/-- Those of the inner loop of `init_queue`: for the chunks whose bit is clear, until something
throws; and whether nothing does. -/
def initFileCalls (info : JobInfo) (fileid : String) : List ℕ → List (String × ℕ) × Bool
  | [] => ([], true)
  | chunkPos :: rest =>
    match info.downloadInfo.bit fileid chunkPos with
    | none => ([], false)
    | some true => initFileCalls info fileid rest
    | some false =>
      match getPriority info { fileid := fileid, chunkNum := chunkPos } 0 with
      | .error _ => ([(fileid, chunkPos)], false)
      | .ok _ =>
        let calls := initFileCalls info fileid rest
        ((fileid, chunkPos) :: calls.1, calls.2)

/-- Those of the outer loop. -/
def initFilesCalls (info : JobInfo) : List String → List (String × ℕ) × Bool
  | [] => ([], true)
  | fileid :: rest =>
    match info.torrentInfo.getOneFileOfSameFileid fileid with
    | .error _ => ([], false)
    | .ok file =>
      match initFileCalls info fileid (List.range file.chunkCount) with
      | (calls, false) => (calls, false)
      | (calls, true) =>
        let others := initFilesCalls info rest
        (calls ++ others.1, others.2)

/-- The chunks a step calls `get_priority` for. -/
def calls (s : OwnerSearch) : Action → List (String × ℕ)
  | .job (.run .go) =>
    match s.job.pc with
    | .initQueue => (initFilesCalls s.job.jobInfo s.job.jobInfo.uniqueFileidList).1
    | .chooseOwner chunk => if chunk.clientLists = [] then [chunk.item] else []
    | _ => []
  | .job (.onFailed i) => (s.job.tasks[i]?.filter fun t => t.phase = .threw).toList.map DownloadTask.item
  | .job _ | .request | .reply _ | .connect _ | .shakeHand _ => []

/-- Every bitmap that is tested for the chunk has such a bit. -/
def InRange (info : JobInfo) (fileid : String) (chunkNum : ℕ) : Prop :=
  ∀ infoList, info.ownerInfoMap.find? fileid = some infoList → ∀ p ∈ infoList, chunkNum < p.bitmap.length

/-- And this holds of every call the step makes. -/
def TestsInRange (s : OwnerSearch) (a : Action) : Prop := ∀ call ∈ s.calls a, InRange s.job.jobInfo call.1 call.2

/-- How many bits a reply makes: `FileBitCount`, or all those of the blocks if that is negative. -/
def bitCount (peer : FileInfo) : ℕ :=
  if peer.fileBitCount.getD 0 < 0 then 64 * peer.fileBit.length else (peer.fileBitCount.getD 0).toNatClampNeg

/-- Each client is listed once, and what it has said last since the list came makes enough bits. -/
def AllHeard (s : OwnerSearch) (fileid : String) (chunkNum : ℕ) : Prop :=
  ((s.owners fileid).map FileOwnerInfo.clientid).Nodup ∧
    ∀ p ∈ s.owners fileid, ∃ peer, s.heard fileid p.clientid = some peer ∧ chunkNum < bitCount peer

/-- And this holds for every call of `get_priority` the step makes. -/
def AsksHeard (s : OwnerSearch) (a : Action) : Prop := ∀ call ∈ s.calls a, s.AllHeard call.1 call.2

/-! ### A call of `get_priority` -/

/-- The tests of a call go through if and only if they are in range. -/
theorem ownersOf_isOk_iff {chunkNum : ℕ} {infoList : List FileOwnerInfo} :
    (∃ owners, ownersOf chunkNum infoList = .ok owners) ↔ ∀ p ∈ infoList, chunkNum < p.bitmap.length := by
  induction infoList with
  | nil => simp [ownersOf]
  | cons p ps ih =>
    rw [List.forall_mem_cons, ← ih, ownersOf]
    by_cases hlt : chunkNum < p.bitmap.length
    · have htest : p.bitmap.test chunkNum = .ok p.bitmap[chunkNum] :=
        Bitmap.test_eq_ok.mpr (List.getElem?_eq_getElem hlt)
      rw [htest]
      simp only [hlt, true_and]
      cases ownersOf chunkNum ps with
      | error e => simp [bind, Except.bind]
      | ok rest => simp [bind, Except.bind, pure, Except.pure]
    · have htest : p.bitmap.test chunkNum = .error .assertion := by
        rw [Bitmap.test, List.getElem?_eq_none (not_lt.mp hlt)]
      simp [htest, hlt, bind, Except.bind]

/-- **What `get_priority` needs.** It returns if and only if there is a list and all tests are in range. -/
theorem getPriority_isOk_iff {info : JobInfo} {chunk : ChunkInfo} {b : ℤ} :
    (∃ chunk', getPriority info chunk b = .ok chunk') ↔
      (info.ownerInfoMap.find? chunk.fileid).isSome ∧ InRange info chunk.fileid chunk.chunkNum := by
  rw [getPriority, InRange]
  cases hlist : info.ownerInfoMap.find? chunk.fileid with
  | none => simp
  | some infoList =>
    have hok := @ownersOf_isOk_iff chunk.chunkNum infoList
    simp only [Option.isSome_some, true_and, Option.some.injEq, forall_eq', ← hok]
    cases ownersOf chunk.chunkNum infoList with
    | error e => simp [bind, Except.bind]
    | ok owners => simp [bind, Except.bind, pure, Except.pure]

/-- The inner loop queues the chunks it calls `get_priority` for, unless something throws. -/
theorem initFile_calls (fileid : String) (positions : List ℕ) (info : JobInfo) (queue : List ChunkInfo) :
    match (initFile fileid positions info queue).2 with
    | .ok queue' => ∃ calls, initFileCalls info fileid positions = (calls, true) ∧
        queue'.map ChunkInfo.item = queue.map ChunkInfo.item ++ calls
    | .error _ => (initFileCalls info fileid positions).2 = false := by
  induction positions generalizing queue with
  | nil => exact ⟨[], rfl, (List.append_nil _).symm⟩
  | cons chunkPos rest ih =>
    rw [initFile, initFileCalls]
    rcases hb : info.downloadInfo.bitmapAt fileid with ⟨bitmap, d⟩
    rw [DownloadInfo.bit_of_bitmapAt hb]
    cases bitmap with
    | none => rfl
    | some bits =>
      obtain ⟨rfl, -⟩ := DownloadInfo.bitmapAt_eq_some hb
      simp only [Option.bind_some, Bitmap.test]
      cases bits[chunkPos]? with
      | none => rfl
      | some has =>
        cases has with
        | true => exact ih queue
        | false =>
          cases hp : getPriority info { fileid := fileid, chunkNum := chunkPos } 0 with
          | error e => rfl
          | ok chunk =>
            have hitem : chunk.item = (fileid, chunkPos) := item_getPriority hp
            have hrest := ih (queue ++ [chunk])
            dsimp only
            generalize (initFile fileid rest info (queue ++ [chunk])).2 = r at hrest ⊢
            cases r with
            | error e => exact hrest
            | ok queue' =>
              obtain ⟨calls, hcalls, hqueue⟩ := hrest
              exact ⟨(fileid, chunkPos) :: calls, by rw [hcalls], by simp [hqueue, hitem]⟩

/-- And so does the outer loop. -/
theorem initFiles_calls (fileids : List String) (info : JobInfo) (queue : List ChunkInfo) :
    match (initFiles fileids info queue).2 with
    | .ok queue' => ∃ calls, initFilesCalls info fileids = (calls, true) ∧
        queue'.map ChunkInfo.item = queue.map ChunkInfo.item ++ calls
    | .error _ => (initFilesCalls info fileids).2 = false := by
  induction fileids generalizing queue with
  | nil => exact ⟨[], rfl, (List.append_nil _).symm⟩
  | cons fileid rest ih =>
    rw [initFiles, initFilesCalls]
    cases info.torrentInfo.getOneFileOfSameFileid fileid with
    | error e => rfl
    | ok file =>
      have hfile := initFile_calls fileid (List.range file.chunkCount) info queue
      dsimp only
      rcases hi : initFile fileid (List.range file.chunkCount) info queue with ⟨info', e | queue₁⟩
      · rw [hi] at hfile
        rcases hc : initFileCalls info fileid (List.range file.chunkCount) with ⟨calls, _ | _⟩
        · rfl
        · rw [hc] at hfile
          cases hfile
      · obtain ⟨rfl, -⟩ := initFile_eq_ok hi
        rw [hi] at hfile
        obtain ⟨calls, hcalls, hqueue₁⟩ := hfile
        have hrest := ih queue₁
        rw [hcalls]
        dsimp only
        generalize (initFiles rest info' queue₁).2 = r at hrest ⊢
        cases r with
        | error e => exact hrest
        | ok queue' =>
          obtain ⟨others, hothers, hqueue⟩ := hrest
          exact ⟨calls ++ others, by rw [hothers], by rw [hqueue, hqueue₁, List.append_assoc]⟩

/-- **The calls of `init_queue`.** When it returns, they are for the chunks it has queued. -/
theorem initQueue_calls {info info' : JobInfo} {queue : List ChunkInfo} (h : initQueue info = (info', .ok queue)) :
    (initFilesCalls info info.uniqueFileidList).1 = queue.map ChunkInfo.item := by
  have hcalls := initFiles_calls info.uniqueFileidList info []
  rw [show initFiles info.uniqueFileidList info [] = _ from h] at hcalls
  obtain ⟨calls, hcalls, hqueue⟩ := hcalls
  rw [hcalls, hqueue]
  rfl

/-! ### What the clients have said -/

/-- A list tells what the clients have said: the first entry of each has the bitmap that has come
from it, and the others have no bits. `seen` are the clients listed before. -/
def Told (heard : String → Option FileInfo) : List String → List FileOwnerInfo → Prop
  | _, [] => True
  | seen, p :: ps =>
    p.bitmap = (if p.clientid ∈ seen then [] else ((heard p.clientid).map bitmapOf).getD []) ∧
      Told heard (p.clientid :: seen) ps

variable {heard heard' : String → Option FileInfo} {seen : List String} {l l' : List FileOwnerInfo}

/-- What is said by those who have been seen does not matter. -/
theorem Told.congr (h : Told heard seen l) (hsame : ∀ clientid ∉ seen, heard clientid = heard' clientid) :
    Told heard' seen l := by
  induction l generalizing seen with
  | nil => trivial
  | cons p ps ih =>
    obtain ⟨hp, hps⟩ := h
    refine ⟨?_, ih hps fun clientid hnot => hsame clientid fun hmem => hnot (List.mem_cons_of_mem _ hmem)⟩
    rw [hp]
    split_ifs with hmem
    · rfl
    · rw [hsame _ hmem]

/-- A list that has just come. -/
theorem told_of_forall_nil (h : ∀ p ∈ l, p.bitmap = []) : Told (fun _ => none) seen l := by
  induction l generalizing seen with
  | nil => trivial
  | cons p ps ih =>
    obtain ⟨hp, hps⟩ := List.forall_mem_cons.mp h
    exact ⟨by simp [hp], ih hps⟩

/-- The owners in the answer of the tracker have no bits. -/
theorem bitmap_of_requestClients {r : Except Exception (Retcode × Option QueryPeerReply)} {ret : Retcode}
    (h : requestClients r = .ok (ret, l)) : ∀ p ∈ l, p.bitmap = [] := by
  unfold requestClients at h
  split at h
  · cases h
  · cases h
  · split_ifs at h
    · cases h
      simp
    · cases h
      simp [FileOwnerInfo.new]

/-- A reply is taken in. -/
theorem Told.setBitmap {clientid : String} {peer : FileInfo} (h : Told heard seen l) (hseen : clientid ∉ seen)
    (hset : setBitmap clientid (bitmapOf peer) l = some l') :
    Told (Function.update heard clientid (some peer)) seen l' := by
  induction l generalizing seen l' with
  | nil => cases hset
  | cons p ps ih =>
    obtain ⟨hp, hps⟩ := h
    rw [OwnerSearch.setBitmap] at hset
    split_ifs at hset with he
    · obtain rfl := Option.some.inj hset
      subst he
      refine ⟨by simp [hseen], hps.congr fun other hother => ?_⟩
      rw [Function.update_of_ne (List.ne_of_not_mem_cons hother)]
    · obtain ⟨ps', hset', rfl⟩ := Option.map_eq_some_iff.mp hset
      refine ⟨?_, ih hps (by simp [Ne.symm he, hseen]) hset'⟩
      rw [hp, Function.update_of_ne he]

theorem length_bitmapOf (peer : FileInfo) : (bitmapOf peer).length = bitCount peer := by
  unfold bitmapOf bitCount Job.converTransportFormatBitmap
  dsimp only
  split_ifs with hneg
  · simp [Bitmap.ofBlockRange, length_ofBlocks]
  · rw [length_resize]

/-- **All tests are in range just when all clients have been heard.** -/
theorem Told.inRange_iff {chunkNum : ℕ} (h : Told heard seen l) :
    (∀ p ∈ l, chunkNum < p.bitmap.length) ↔
      ((l.map FileOwnerInfo.clientid).Nodup ∧ ∀ p ∈ l, p.clientid ∉ seen) ∧
        ∀ p ∈ l, ∃ peer, heard p.clientid = some peer ∧ chunkNum < bitCount peer := by
  induction l generalizing seen with
  | nil => simp
  | cons p ps ih =>
    obtain ⟨hp, hps⟩ := h
    have hhead : chunkNum < p.bitmap.length ↔
        p.clientid ∉ seen ∧ ∃ peer, heard p.clientid = some peer ∧ chunkNum < bitCount peer := by
      rw [hp]
      split_ifs with hmem
      · simp [hmem]
      · cases heard p.clientid with
        | none => simp
        | some peer => simp [hmem, length_bitmapOf]
    have hnew : (∀ q ∈ ps, q.clientid ∉ p.clientid :: seen) ↔
        p.clientid ∉ ps.map FileOwnerInfo.clientid ∧ ∀ q ∈ ps, q.clientid ∉ seen := by
      simp only [List.mem_cons, not_or, List.mem_map, not_exists, not_and]
      exact ⟨fun h => ⟨fun q hq => (h q hq).1, fun q hq => (h q hq).2⟩, fun h q hq => ⟨h.1 q hq, h.2 q hq⟩⟩
    rw [List.forall_mem_cons, ih hps, hhead, hnew, List.map_cons, List.nodup_cons, List.forall_mem_cons,
      List.forall_mem_cons]
    constructor
    · intro ⟨⟨hfirst, hsaid⟩, ⟨hnodup, hnot, hothers⟩, hall⟩
      exact ⟨⟨⟨hnot, hnodup⟩, hfirst, hothers⟩, hsaid, hall⟩
    · intro ⟨⟨⟨hnot, hnodup⟩, hfirst, hothers⟩, hsaid, hall⟩
      exact ⟨⟨hfirst, hsaid⟩, ⟨hnodup, hnot, hothers⟩, hall⟩

/-! ### The other steps of the job -/

/-- Only a search for owners changes the lists. -/
theorem ownerInfoMap_runStep {j j' : Job} {pc : Job.Pc} {ev : Job.RunEvent} (h : j.runStep pc ev = some j')
    (hev : ∀ found, ev ≠ .owners found) : j'.jobInfo.ownerInfoMap = j.jobInfo.ownerInfoMap := by
  have hinit : (initQueue j.jobInfo).1.ownerInfoMap = j.jobInfo.ownerInfoMap := by
    obtain ⟨⟨m, hm⟩, -⟩ := initQueue_bitsKept j.jobInfo
    rw [hm]
  unfold Job.runStep at h
  split at h
  all_goals repeat' split at h
  all_goals cases h
  all_goals first
    | rfl
    | exact absurd rfl (hev _)
    | rw [Job.jobInfo_copyFile]
    | (rename_i heq; rw [heq] at hinit; exact hinit)

/-- `run` takes no owners from elsewhere. -/
theorem runStep_owners_eq_none {j : Job} (h : wanted j = none) (found : Option (List FileOwnerInfo)) :
    j.runStep j.pc (.owners found) = none := by
  unfold wanted at h
  generalize j.pc = pc at h
  cases pc with
  | findOwners todo =>
    cases todo with
    | nil => rfl
    | cons fileid todo =>
      dsimp only at h
      split_ifs at h with hfind
      simp only [Job.runStep, if_pos hfind]
  | findOwner chunk => cases h
  | copying todo => cases todo <;> rfl
  | _ => rfl

variable {sha1 : Bytes → String} {s s' : OwnerSearch} {a : Action}

/-- A step of the job outside of a search. -/
theorem ownerInfoMap_jobStep {j j' : Job} {a : Job.Action} (h : j.step sha1 a = some j')
    (ha : ∀ found, a ≠ .run (.owners found)) : j'.jobInfo.ownerInfoMap = j.jobInfo.ownerInfoMap := by
  cases a with
  | start =>
    simp only [Job.step] at h
    split_ifs at h
    cases h
    rfl
  | run ev => exact ownerInfoMap_runStep h fun found he => ha found (congrArg _ he)
  | task i ev =>
    obtain ⟨t, phase, d, disk, -, -, rfl⟩ := Job.step_task h
    rfl
  | onFailed i =>
    obtain ⟨t, -, -, rfl⟩ := Job.step_onFailed h
    obtain ⟨_, -, heq⟩ | ⟨-, heq⟩ := j.onFailed_cases i t
    all_goals rw [heq]
  | onFinished i =>
    obtain ⟨t, -, -, rfl⟩ := Job.step_onFinished h
    obtain ⟨m, hm⟩ := (reportSuccessChunk_spec j.jobInfo t.chunkPos t.fileid).1
    obtain ⟨-, _, _, -, heq⟩ | ⟨-, info, _, _, hr, -, heq⟩ | ⟨-, info, _, hr, heq⟩ := j.onFinished_cases i t
    · rw [heq]
    · rw [hr] at hm
      rw [heq, show info = _ from hm]
    · rw [hr] at hm
      rw [heq, show info = _ from hm]
  | env ev =>
    cases h
    rfl

/-- What a step of the job does in the search. -/
theorem step_job {b : Job.Action} (h : s.step sha1 (.job b) = some s') :
    ∃ j, s.job.step sha1 b = some j ∧ s' = { s with job := j } ∧
      j.jobInfo.ownerInfoMap = s.job.jobInfo.ownerInfoMap := by
  cases b with
  | run ev =>
    simp only [step] at h
    split_ifs at h with hout
    obtain ⟨j, hj, rfl⟩ := Option.map_eq_some_iff.mp h
    refine ⟨j, hj, rfl, ownerInfoMap_jobStep hj fun found he => ?_⟩
    have hnone : s.job.step sha1 (.run (.owners found)) = none := runStep_owners_eq_none hout.2 found
    rw [he, hnone] at hj
    cases hj
  | _ =>
    simp only [step, Option.map_eq_some_iff] at h
    obtain ⟨j, hj, rfl⟩ := h
    exact ⟨j, hj, rfl, ownerInfoMap_jobStep hj (by simp)⟩

/-! ### The lists tell what has been said -/

/-- Each list does. -/
def ListsTold (s : OwnerSearch) : Prop :=
  ∀ fileid l, s.job.jobInfo.ownerInfoMap.find? fileid = some l → Told (s.heard fileid) [] l

theorem ListsTold.of_eq (h : s.ListsTold) (howners : s'.job.jobInfo.ownerInfoMap = s.job.jobInfo.ownerInfoMap)
    (hheard : s'.heard = s.heard) : s'.ListsTold := by
  intro fileid l hl
  rw [hheard]
  exact h fileid l (by rwa [← howners])

theorem ListsTold.leave (h : s.ListsTold) : s.leave.ListsTold := h.of_eq rfl rfl

theorem ListsTold.abort (h : s.ListsTold) : s.abort.ListsTold := h.of_eq rfl rfl

theorem ListsTold.next (h : s.ListsTold) (fileid : String) (i : ℕ) : (s.next fileid i).ListsTold := by
  unfold OwnerSearch.next
  split_ifs
  · exact h.of_eq rfl rfl
  · exact h.leave

theorem ListsTold.request (h : s.ListsTold) (fileid : String) : (s.request fileid).ListsTold := by
  have hset : (s.setOwners (s.job.jobInfo.ownerInfoMap.getOrInsert fileid []).2).ListsTold := by
    intro fileid' l hl
    simp only [setOwners, SortedMap.getOrInsert] at hl
    cases hfind : s.job.jobInfo.ownerInfoMap.find? fileid with
    | some infoList =>
      rw [hfind] at hl
      exact h fileid' l hl
    | none =>
      simp only [hfind, SortedMap.find?_insert] at hl
      split_ifs at hl
      · obtain rfl := Option.some.inj hl
        trivial
      · exact h fileid' l hl
  unfold OwnerSearch.request
  split
  · exact h.abort
  · dsimp only
    split_ifs
    · exact hset.abort
    · split
      · exact hset.leave
      · exact hset.of_eq rfl rfl

theorem ListsTold.reply (h : s.ListsTold) (fileid : String) (r : Except Exception (Retcode × Option QueryPeerReply)) :
    (s.reply fileid r).ListsTold := by
  unfold OwnerSearch.reply
  split
  · exact h.abort
  · rename_i ret res hres
    split_ifs
    · exact h.leave
    · intro fileid' l hl
      simp only [setOwners, SortedMap.find?_insert] at hl
      dsimp only
      split_ifs at hl with he
      · obtain rfl := Option.some.inj hl
        rw [he, Function.update_self]
        exact told_of_forall_nil (bitmap_of_requestClients hres)
      · rw [Function.update_of_ne (Ne.symm he)]
        exact h fileid' l hl

/-- The exchange of messages leaves the lists alone. -/
theorem ownerInfoMap_peerInfo (info : JobInfo) (m : LocalSockManager) (fileid clientid : String) (x : Exchange) :
    (peerInfo info m fileid clientid x).1.1.ownerInfoMap = info.ownerInfoMap := by
  unfold peerInfo
  split
  · rfl
  · dsimp only
    split
    · rfl
    · split <;> rfl

/-- The first entry of a client that is listed is found. -/
theorem setBitmap_isSome {p : FileOwnerInfo} (b : Bitmap) (hp : p ∈ l) :
    ∃ l', OwnerSearch.setBitmap p.clientid b l = some l' := by
  induction l with
  | nil => cases hp
  | cons q qs ih =>
    rw [OwnerSearch.setBitmap]
    split_ifs with he
    · exact ⟨_, rfl⟩
    · have hmem : p ∈ qs := (List.mem_cons.mp hp).resolve_left fun hpq => he (by rw [hpq])
      obtain ⟨qs', hqs⟩ := ih hmem
      exact ⟨q :: qs', by rw [hqs]; rfl⟩

/-- What `shake_hand` does to the list: it takes in the reply, if there is one. -/
theorem ownerInfoMap_shakeHand {info : JobInfo} {p : FileOwnerInfo} (m : LocalSockManager) {fileid : String}
    (x : Exchange) (hfind : info.ownerInfoMap.find? fileid = some l) (hp : p ∈ l) :
    match (peerInfo info m fileid p.clientid x).2 with
    | .ok (.ok peer) => ∃ l', OwnerSearch.setBitmap p.clientid (bitmapOf peer) l = some l' ∧
        (OwnerSearch.shakeHand info m fileid p.clientid x).1.1.ownerInfoMap = info.ownerInfoMap.insert fileid l'
    | .error _ | .ok (.error _) =>
      (OwnerSearch.shakeHand info m fileid p.clientid x).1.1.ownerInfoMap = info.ownerInfoMap := by
  have howners := ownerInfoMap_peerInfo info m fileid p.clientid x
  unfold OwnerSearch.shakeHand
  rcases hr : peerInfo info m fileid p.clientid x with ⟨⟨info', m'⟩, e | ret | peer⟩
  · rwa [hr] at howners
  · rwa [hr] at howners
  · rw [hr] at howners
    obtain ⟨l', hl'⟩ := setBitmap_isSome (bitmapOf peer) hp
    refine ⟨l', hl', ?_⟩
    simp only [show info'.ownerInfoMap = info.ownerInfoMap from howners, hfind, hl']

theorem ListsTold.takeIn (h : s.ListsTold) {fileid : String} {p : FileOwnerInfo} (hp : p ∈ s.owners fileid)
    (x : Exchange) : (s.takeIn fileid p.clientid x).ListsTold := by
  obtain ⟨l, hfind, hmem⟩ : ∃ l, s.job.jobInfo.ownerInfoMap.find? fileid = some l ∧ p ∈ l := by
    rw [owners] at hp
    cases hfind : s.job.jobInfo.ownerInfoMap.find? fileid with
    | none => rw [hfind] at hp; cases hp
    | some l => rw [hfind] at hp; exact ⟨l, rfl, hp⟩
  have hshake := ownerInfoMap_shakeHand s.job.sockManager x hfind hmem
  rcases hr : (peerInfo s.job.jobInfo s.job.sockManager fileid p.clientid x).2 with e | ret | peer
  · rw [hr] at hshake
    exact h.of_eq hshake (by simp only [OwnerSearch.takeIn, hr])
  · rw [hr] at hshake
    exact h.of_eq hshake (by simp only [OwnerSearch.takeIn, hr])
  · rw [hr] at hshake
    obtain ⟨l', hset, howners⟩ := hshake
    intro fileid' found hfound
    simp only [OwnerSearch.takeIn, hr] at hfound ⊢
    rw [howners, SortedMap.find?_insert] at hfound
    split_ifs at hfound with he
    · obtain rfl := Option.some.inj hfound
      rw [← he, Function.update_self]
      exact (h fileid l hfind).setBitmap List.not_mem_nil hset
    · rw [Function.update_of_ne (Ne.symm he)]
      exact h fileid' found hfound

/-- **What a step keeps.** -/
theorem step_told (hs : s.ListsTold) (h : step sha1 s a = some s') : s'.ListsTold := by
  cases a with
  | job b =>
    obtain ⟨j, -, rfl, howners⟩ := step_job h
    exact hs.of_eq howners rfl
  | request =>
    simp only [step] at h
    split at h
    · obtain rfl := Option.some.inj h
      exact hs.request _
    · cases h
  | reply r =>
    simp only [step] at h
    split at h
    · obtain rfl := Option.some.inj h
      exact hs.reply _ r
    · cases h
  | connect conn =>
    simp only [step] at h
    split at h
    · obtain ⟨p, -, rfl⟩ := Option.map_eq_some_iff.mp h
      exact hs.of_eq rfl rfl
    · cases h
  | shakeHand x =>
    simp only [step] at h
    split at h
    · obtain ⟨p, hp, rfl⟩ := Option.map_eq_some_iff.mp h
      have htaken := hs.takeIn (List.mem_of_getElem? hp) x
      unfold greet
      split
      · exact htaken.abort
      · exact htaken.next _ _
    · cases h

/-- In such a state a test for a chunk is in range just when all clients have been heard. -/
theorem ListsTold.inRange_iff (h : s.ListsTold) (fileid : String) (chunkNum : ℕ) :
    s.AllHeard fileid chunkNum ↔ InRange s.job.jobInfo fileid chunkNum := by
  rw [AllHeard, InRange, owners]
  cases hfind : s.job.jobInfo.ownerInfoMap.find? fileid with
  | none => simp
  | some l =>
    have htold := @Told.inRange_iff _ _ _ chunkNum (h fileid l hfind)
    simpa using htold.symm

/-- **Tests in range.** In a run every bitmap that `get_priority` tests has the bit if and only if,
whenever it is called, each client of the file is listed once, and has said since the list came that
it has the file, with enough bits. -/
theorem tests_in_range_iff (info : JobInfo) (m : LocalSockManager) (disk : Disk) (as : List Action) :
    Always (step sha1) AsksHeard (start info m disk) as ↔ Always (step sha1) TestsInRange (start info m disk) as := by
  have hstart : (start info m disk).ListsTold := fun fileid l hl => by cases hl
  refine always_congr_of_invariant step_told (fun {s a} hs => ?_) hstart
  exact forall₂_congr fun call _ => hs.inRange_iff call.1 call.2

/-! ### A search that nobody interrupts -/

/-- The file it is about. -/
def Place.fileid : Place → Option String
  | outside => none
  | asked fileid | connecting fileid _ | greeting fileid _ => some fileid

/-- What a search of the job `j` for owners of `fileid` has come to. -/
inductive Searched (j : Job) (fileid : String) (s : OwnerSearch) : Prop where
  /-- It goes on. -/
  | underWay (found : Option (List FileOwnerInfo)) (m : LocalSockManager) (hplace : s.place.fileid = some fileid)
      (hjob : s.job = { j with jobInfo := Job.reinitFileOwnerInfo j.jobInfo fileid found, sockManager := m })
  /-- It has returned. -/
  | returned (found : Option (List FileOwnerInfo)) (m : LocalSockManager) (hplace : s.place = .outside)
      (hjob : s.job =
        { j with
          jobInfo := Job.reinitFileOwnerInfo j.jobInfo fileid found
          sockManager := m
          pc := OwnerSearch.returned j.pc })
  /-- It has thrown. -/
  | thrown (hplace : s.place = .outside) (hpc : s.job.pc = .aborted)

/-- A new list takes the place of the one the search has left so far. -/
theorem reinitFileOwnerInfo_insert (info : JobInfo) (fileid : String) (found : Option (List FileOwnerInfo))
    (infoList : List FileOwnerInfo) :
    { Job.reinitFileOwnerInfo info fileid found with
      ownerInfoMap := (Job.reinitFileOwnerInfo info fileid found).ownerInfoMap.insert fileid infoList } =
      Job.reinitFileOwnerInfo info fileid (some infoList) := by
  cases found with
  | none => simp [Job.reinitFileOwnerInfo, SortedMap.getOrInsert_insert]
  | some l => simp [Job.reinitFileOwnerInfo, SortedMap.insert_insert]

theorem searched_request (s : OwnerSearch) (fileid : String) : Searched s.job fileid (s.request fileid) := by
  unfold OwnerSearch.request
  split
  · exact .thrown rfl rfl
  · dsimp only
    split_ifs
    · exact .thrown rfl rfl
    · split
      · exact .returned none s.job.sockManager rfl rfl
      · exact .underWay none s.job.sockManager rfl rfl

variable {j : Job} {fileid : String}

theorem searched_leave {found : Option (List FileOwnerInfo)} {m : LocalSockManager}
    (hjob : s.job = { j with jobInfo := Job.reinitFileOwnerInfo j.jobInfo fileid found, sockManager := m }) :
    Searched j fileid s.leave :=
  .returned found m rfl (by rw [leave, hjob])

theorem searched_next {found : Option (List FileOwnerInfo)} {m : LocalSockManager}
    (hjob : s.job = { j with jobInfo := Job.reinitFileOwnerInfo j.jobInfo fileid found, sockManager := m }) (i : ℕ) :
    Searched j fileid (s.next fileid i) := by
  unfold OwnerSearch.next
  split_ifs
  · exact .underWay found m rfl hjob
  · exact searched_leave hjob

/-- A `shake_hand` that returns changes at most the list. -/
theorem jobInfo_shakeHand {info : JobInfo} {m : LocalSockManager} {clientid : String} {x : Exchange} {ret : Retcode}
    (h : (OwnerSearch.shakeHand info m fileid clientid x).2 = .ok ret) :
    (OwnerSearch.shakeHand info m fileid clientid x).1.1 = info ∨
      ∃ infoList, (OwnerSearch.shakeHand info m fileid clientid x).1.1 =
        { info with ownerInfoMap := info.ownerInfoMap.insert fileid infoList } := by
  have hinfo : ∀ r, (peerInfo info m fileid clientid x).2 = .ok r → (peerInfo info m fileid clientid x).1.1 = info := by
    intro r hr
    unfold peerInfo at hr ⊢
    split
    · rfl
    · rename_i percentage hpercentage
      rw [hpercentage] at hr
      rcases hb : info.downloadInfo.bitmapAt fileid with ⟨bitmap, d⟩
      rw [hb] at hr
      cases bitmap with
      | none => cases hr
      | some bits =>
        obtain ⟨rfl, -⟩ := DownloadInfo.bitmapAt_eq_some hb
        dsimp only
        split
        · rfl
        · split <;> rfl
  unfold OwnerSearch.shakeHand at h ⊢
  rcases hr : peerInfo info m fileid clientid x with ⟨⟨info', m'⟩, e | ret | peer⟩
  · rw [hr] at h
    cases h
  · exact .inl (by simpa [hr] using hinfo _ (by rw [hr]))
  · obtain rfl : info' = info := by simpa [hr] using hinfo _ (by rw [hr])
    rw [hr] at h
    dsimp only at h ⊢
    split
    · exact .inl rfl
    · split
      · exact .inl rfl
      · exact .inr ⟨_, rfl⟩

theorem searched_reply {found : Option (List FileOwnerInfo)} {m : LocalSockManager}
    (hjob : s.job = { j with jobInfo := Job.reinitFileOwnerInfo j.jobInfo fileid found, sockManager := m })
    (r : Except Exception (Retcode × Option QueryPeerReply)) : Searched j fileid (s.reply fileid r) := by
  unfold OwnerSearch.reply
  split
  · exact .thrown rfl rfl
  · rename_i res _
    split_ifs
    · exact searched_leave hjob
    · refine .underWay (some res) m rfl ?_
      simp only [setOwners, hjob, ← reinitFileOwnerInfo_insert j.jobInfo fileid found res]

theorem searched_greet {found : Option (List FileOwnerInfo)} {m : LocalSockManager}
    (hjob : s.job = { j with jobInfo := Job.reinitFileOwnerInfo j.jobInfo fileid found, sockManager := m }) (i : ℕ)
    (clientid : String) (x : Exchange) : Searched j fileid (s.greet fileid i clientid x) := by
  unfold greet
  split
  · exact .thrown rfl rfl
  · rename_i ret hret
    obtain ⟨found', hjob'⟩ : ∃ found', (s.takeIn fileid clientid x).job =
        { j with
          jobInfo := Job.reinitFileOwnerInfo j.jobInfo fileid found'
          sockManager := (s.takeIn fileid clientid x).job.sockManager } := by
      obtain hinfo | ⟨infoList, hinfo⟩ := jobInfo_shakeHand hret
      · refine ⟨found, ?_⟩
        simp only [takeIn, hinfo]
        rw [hjob]
      · refine ⟨some infoList, ?_⟩
        simp only [takeIn, hinfo]
        rw [hjob, reinitFileOwnerInfo_insert j.jobInfo fileid found infoList]
    exact searched_next hjob' i

/-- Outside of a search there is nothing to be answered. -/
theorem step_outside (hplace : s.place = .outside) (ha : ∀ b, a ≠ .job b) (hrequest : a ≠ .request) :
    step sha1 s a = none := by
  cases a with
  | job b => exact absurd rfl (ha b)
  | request => exact absurd rfl hrequest
  | _ => simp only [step, hplace]

/-- What a step of the search keeps. -/
theorem step_searched (hs : Searched j fileid s) (ha : ∀ b, a ≠ .job b) (hrequest : a ≠ .request)
    (h : step sha1 s a = some s') : Searched j fileid s' := by
  cases hs with
  | returned found m hplace hjob => rw [step_outside hplace ha hrequest] at h; cases h
  | thrown hplace hpc => rw [step_outside hplace ha hrequest] at h; cases h
  | underWay found m hplace hjob =>
    cases a with
    | job b => exact absurd rfl (ha b)
    | request => exact absurd rfl hrequest
    | reply r =>
      simp only [step] at h
      split at h
      · rename_i fileid' heq
        obtain rfl := Option.some.inj h
        rw [heq] at hplace
        obtain rfl : fileid' = fileid := Option.some.inj hplace
        exact searched_reply hjob r
      · cases h
    | connect conn =>
      simp only [step] at h
      split at h
      · rename_i fileid' i heq
        rw [heq] at hplace
        obtain rfl : fileid' = fileid := Option.some.inj hplace
        obtain ⟨p, -, rfl⟩ := Option.map_eq_some_iff.mp h
        exact .underWay found _ rfl (by rw [OwnerSearch.connect, hjob])
      · cases h
    | shakeHand x =>
      simp only [step] at h
      split at h
      · rename_i fileid' i heq
        rw [heq] at hplace
        obtain rfl : fileid' = fileid := Option.some.inj hplace
        obtain ⟨p, -, rfl⟩ := Option.map_eq_some_iff.mp h
        exact searched_greet hjob i p.clientid x
      · cases h

/-- Where `run` wants owners, it takes those the search has left, and goes on. -/
theorem runStep_owners (h : wanted j = some fileid) (found : Option (List FileOwnerInfo)) :
    j.runStep j.pc (.owners found) =
      some { j with jobInfo := Job.reinitFileOwnerInfo j.jobInfo fileid found, pc := OwnerSearch.returned j.pc } := by
  unfold wanted at h
  generalize j.pc = pc at h ⊢
  cases pc with
  | findOwners todo =>
    cases todo with
    | nil => cases h
    | cons next todo =>
      dsimp only at h
      split_ifs at h with hfind
      obtain rfl := Option.some.inj h
      simp only [Job.runStep, if_neg hfind, OwnerSearch.returned]
  | findOwner chunk =>
    obtain rfl := Option.some.inj h
    rfl
  | _ => cases h

/-- **A search is a step of the job.** If nobody interrupts a search, then it throws, or the job it
returns to is what a step of `Job` makes of the owners it leaves, with other sockets. -/
theorem search_refines {rest : List Action} (hrest : ∀ a ∈ rest, (∀ b, a ≠ .job b) ∧ a ≠ .request)
    (h : exec (step sha1) s (.request :: rest) = some s') (hs' : s'.place = .outside) :
    s'.job.pc = .aborted ∨
      ∃ found, s.job.step sha1 (.run (.owners found)) = some { s'.job with sockManager := s.job.sockManager } := by
  obtain ⟨u, hu, hexec⟩ := exec_cons_eq_some.mp h
  obtain ⟨fileid, hwanted, rfl⟩ : ∃ fileid, wanted s.job = some fileid ∧ u = s.request fileid := by
    simp only [step] at hu
    split at hu
    · rename_i fileid _ hwanted
      exact ⟨fileid, hwanted, (Option.some.inj hu).symm⟩
    · cases hu
  have hsearched : Searched s.job fileid s' :=
    exec_invariant_of_always (fun hI ha hstep => step_searched hI ha.1 ha.2 hstep)
      (always_of_forall_mem hrest _) hexec (searched_request s fileid)
  cases hsearched with
  | underWay found m hplace hjob => rw [hs'] at hplace; cases hplace
  | thrown hplace hpc => exact .inl hpc
  | returned found m hplace hjob =>
    refine .inr ⟨found, ?_⟩
    rw [hjob]
    exact runStep_owners hwanted found

/-! ### An owner that does not answer -/

/-- A file of one chunk, and a connection to its tracker. -/
def oneChunkSearch : OwnerSearch :=
  let (info, disk) := JobInfo.new Job.oneChunkTorrent "/d/" [⟨"", "a"⟩] 0 0 (fun _ => none) ∅
  start info (LocalSockManager.new.connectTracker "tracker" (some 9)).2 disk

/-- The tracker knows one owner, which accepts the connection and closes it. -/
def unanswered : List Action :=
  [.job .start, .request, .reply (.ok (.errorOk, some ⟨0, [⟨"p", "host", 1, 100⟩]⟩)), .connect (some 0),
    .shakeHand ⟨.ok none, .ok .errorOk, .ok .errorNetGracefulShutdown, none⟩, .job (.run .go)]

/-- **An owner without bits.** It stays listed, `init_queue` tests bit `0` of its bitmap, which has none,
and the job ends there. -/
theorem unanswered_owner :
    (∃ s, exec (step Job.oneChunkSha1) oneChunkSearch unanswered = some s ∧
      s.owners "f" = [⟨"p", "host", 1, 100, []⟩] ∧ s.calls (.job (.run .go)) = [("f", 0)] ∧
      (step Job.oneChunkSha1 s (.job (.run .go))).map (fun s => s.job.pc) = some .aborted) ∧
    ¬Always (step Job.oneChunkSha1) TestsInRange oneChunkSearch (unanswered ++ [.job (.run .go)]) := by
  obtain ⟨s, hrun, howners, hcalls, hend⟩ : ∃ s, exec (step Job.oneChunkSha1) oneChunkSearch unanswered = some s ∧
      s.job.jobInfo.ownerInfoMap.find? "f" = some [⟨"p", "host", 1, 100, []⟩] ∧
      s.calls (.job (.run .go)) = [("f", 0)] ∧
      (step Job.oneChunkSha1 s (.job (.run .go))).map (fun s => s.job.pc) = some .aborted := ⟨_, rfl, rfl, rfl, rfl⟩
  refine ⟨⟨s, hrun, by rw [owners, howners]; rfl, hcalls, hend⟩, fun halways => ?_⟩
  have hrange := halways.of_append hrun ("f", 0) (by rw [hcalls]; exact List.mem_singleton_self _)
  exact absurd (hrange _ howners _ (List.mem_singleton_self _)) (Nat.lt_irrefl 0)

end OwnerSearch

end CoolDown
