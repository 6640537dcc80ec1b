import CoolDown.Client.Advertisement
import CoolDown.Client.Believed
import CoolDown.Client.ChunkTransfer
import CoolDown.Client.JobComplete
import CoolDown.Client.Main
import CoolDown.Client.UploadRequests

/-!
# A swarm of clients with one torrent

Each client of a swarm has a job for the torrent. It looks for owners of the files, shakes hands with
them, fetches chunks from those that have them, and answers the others from what it has itself. What a
client knows of another is always late: since the reply to `ShakeHand` was made, the other one
has gone on. Only, a bit that has been set stays so, and the bytes behind it stay as they are.

## The model

The clients are those of `OwnerSearch`, in any number, and they take their steps in any order.
`node` gives the client that one reaches under a clientid, if it is one of the swarm; under other
ids there may be anybody, who may say anything. The replies a client has sent are kept, and a
message from this client that is taken in as what it says of a file is one of them. It may be
an old one. What passes as bytes of chunks is left open, as it is for a job.

A client has this job and no other, until that is removed.

## What is proved

* `answer_spec`: answering changes no bit, and what is said of a file is in its bitmap.
* `step_sound`: every step that makes no copy over a file that chunks are downloaded to keeps that all
  clients believe of others only what is so.
* `run_served`: each task asks a client that has its chunk, and which grants it, and what
  that client sends passes the check.
-/

namespace CoolDown

open Library ChunkSelector ClientProto ClientConnectionHandler

/-- What has arrived when the receive loop is over is the chunk, whether or not the uploader has got to its end. -/
theorem Transfer.content_eq {sha1 : Bytes → String} {u : UploadTask} {files : Disk} {t : DownloadTask} {mapped content : Bytes}
    {upInfo downInfo : DownloadInfo} {disk : Disk} {actions : List Transfer.Action} {s : Transfer}
    (hfile : files.find? u.file = some mapped) (hin : u.Inside mapped) (hsize : t.chunkSize = u.chunkSize)
    (hrun : exec (step sha1 u files t) (start upInfo downInfo disk) actions = some s) (hdown : s.down = .verify content) :
    content = u.chunk mapped := by
  obtain ⟨sent, _, buf, _, -, hrec, hcheck, hstream, -, -⟩ :=
    exec_invariant (inv_step hfile hin) hrun (inv_start upInfo downInfo disk (hsize ▸ hin.pos.le))
  rw [hdown] at hrec hcheck
  obtain ⟨rfl, -⟩ := hrec
  have hcontent : (content.length : ℤ) = t.chunkSize := hcheck
  have hchunk := UploadTask.length_chunk hin
  -- no more has been sent than there is, and all that is as long as the chunk has arrived
  have hprefix : content <+: u.chunk mapped := ⟨s.stream ++ (u.chunk mapped).drop sent, by
    rw [← List.append_assoc, hstream, List.take_append_drop]⟩
  exact hprefix.eq_of_length (by omega)

/-- The request of a task. -/
def DownloadTask.uploadRequest (t : DownloadTask) : UploadRequest := ⟨t.clientid, t.fileid, Int64.ofNat t.chunkPos⟩

/-! ### One client -/

namespace OwnerSearch

/-- The client of the job: it has no other. -/
def coolClient (s : OwnerSearch) : CoolClient :=
  if s.job.jobInfo.downloadInfo.isJobRemoved then .new else CoolClient.new.addNewJob s.job.jobInfo ""

/-- The client answers a `ShakeHand`: what becomes of it, and the reply. -/
def answer (s : OwnerSearch) (call : Call) (m : Option ParsedMessage) : OwnerSearch × Option ShakeHand :=
  let (ret, client, reply) := handleShakeHand { call with client := s.coolClient } m Serving.emptyReply
  ({ s with job := { s.job with jobInfo := (client.jobs.find? 0).getD s.job.jobInfo } },
    match ret with
    | .ok _ => some reply
    | .error _ => none)

variable {s : OwnerSearch} {fileid : String} {c : ℕ}

/-- The job answers for its files, until it is removed. -/
theorem getJobByFileid_coolClient : s.coolClient.getJobByFileid fileid =
    if s.job.jobInfo.downloadInfo.isJobRemoved = false ∧ fileid ∈ s.job.jobInfo.fileidlist then some (0, s.job.jobInfo)
    else none := by
  have hone : ∀ info : JobInfo, (CoolClient.new.addNewJob info "").getJobByFileid fileid =
      if fileid ∈ info.fileidlist then some (0, info) else none := by
    intro info
    change List.find? (fun e : ℕ × JobInfo => decide (fileid ∈ e.2.fileidlist)) [(0, info)] = _
    split_ifs with h <;> simp [h]
  rw [coolClient]
  cases s.job.jobInfo.downloadInfo.isJobRemoved with
  | true => rfl
  | false => simp [hone]

/-- A bit of the bitmap that a reply makes is one of its blocks. -/
theorem blockBit_of_bitmapOf {peer : FileInfo} (h : (bitmapOf peer)[c]? = some true) : Bitmap.blockBit peer.fileBit c = true := by
  have hresize : ∀ n, (resize (Bitmap.ofBlockRange peer.fileBit) n)[c]? = some true → Bitmap.blockBit peer.fileBit c = true := by
    intro n hn
    obtain ⟨hlt, hbit⟩ := List.getElem?_eq_some_iff.mp hn
    rw [BitmapTransport.blockBit_eq, ← hbit]
    exact (getElem_resize_ofBlocks (by decide) _ hlt).symm
  rw [bitmapOf, Job.converTransportFormatBitmap] at h
  split at h
  · rename_i b hb
    split_ifs at hb
    obtain rfl := Except.ok.inj hb
    exact hresize _ h
  · refine hresize (Bitmap.ofBlockRange peer.fileBit).length ?_
    rwa [resize, List.take_length, Nat.sub_self, List.replicate_zero, List.append_nil]

/-- What `HandleShakeHand` does to the job of a client, and what it says. -/
structure Answered (info info' : JobInfo) (reply : ShakeHand) : Prop where
  onlyMaps : ∃ bitmaps percentages, info' =
    { info with downloadInfo := { info.downloadInfo with bitmapMap := bitmaps, percentageMap := percentages } }
  bit : ∀ fileid c, info'.downloadInfo.bit fileid c = info.downloadInfo.bit fileid c
  said : ∀ fileid c, reply.info.fileId = some fileid → (bitmapOf reply.info)[c]? = some true →
    fileid ∈ info.fileidlist ∧ info.downloadInfo.bit fileid c = some true

theorem answered_of_no_bits {info : JobInfo} {reply : ShakeHand} (h : reply.info.fileBit = []) : Answered info info reply where
  onlyMaps := ⟨_, _, rfl⟩
  bit _ _ := rfl
  said fileid c _ hbit := by
    have hblock := blockBit_of_bitmapOf hbit
    rw [h] at hblock
    cases hblock

/-- **What a client answers.** It changes no bit, and a chunk that it says it has is in the bitmap of its job. -/
theorem answer_spec (s : OwnerSearch) (call : Call) (m : Option ParsedMessage) :
    ∃ info' reply, (s.answer call m).1 = { s with job := { s.job with jobInfo := info' } } ∧
      (∀ r, (s.answer call m).2 = some r → r = reply) ∧ Answered s.job.jobInfo info' reply := by
  have hself : (s.coolClient.jobs.find? 0).getD s.job.jobInfo = s.job.jobInfo := by
    rw [coolClient]
    split_ifs <;> rfl
  rcases hr : handleShakeHand { call with client := s.coolClient } m Serving.emptyReply with ⟨ret, client, reply⟩
  refine ⟨(client.jobs.find? 0).getD s.job.jobInfo, reply, by rw [answer, hr], ?_, ?_⟩
  · intro r h
    rw [answer, hr] at h
    cases ret with
    | error e => cases h
    | ok ret => exact (Option.some.inj h).symm
  unfold handleShakeHand at hr
  split at hr
  · rename_i req
    simp only [getJobByFileid_coolClient] at hr
    split_ifs at hr with hfile
    · obtain ⟨hremoved, hmem⟩ := hfile
      dsimp only at hr
      split_ifs at hr
      · cases hr
        rw [hself]
        exact answered_of_no_bits rfl
      · rcases hb : s.job.jobInfo.downloadInfo.bitmapAt (req.info.fileId.getD "") with ⟨bitmap, d⟩
        rw [hb] at hr
        obtain ⟨⟨bitmaps, hd⟩, hbit⟩ := bitsKept_of_bitmapAt hb
        obtain rfl : d = _ := congrArg JobInfo.downloadInfo hd
        cases bitmap with
        | none =>
          cases hr
          rw [SortedMap.find?_insert_self, Option.getD_some]
          refine ⟨⟨bitmaps, _, rfl⟩, hbit, fun fileid c _ hc => ?_⟩
          have hblock := blockBit_of_bitmapOf hc
          cases hblock
        | some b =>
          cases hr
          rw [SortedMap.find?_insert_self, Option.getD_some]
          refine ⟨⟨bitmaps, _, rfl⟩, hbit, fun fileid c hid hc => ?_⟩
          obtain rfl : req.info.fileId.getD "" = fileid := Option.some.inj hid
          have hblock := blockBit_of_bitmapOf hc
          have hbits := (DownloadInfo.bitmapAt_eq_some hb).2
          simp only [Serving.emptyReply, List.nil_append, BitmapTransport.blockBit_toBlockRange] at hblock
          have hget : b[c]? = some true := by
            rw [List.getD_eq_getElem?_getD] at hblock
            cases hget : b[c]? with
            | none => rw [hget] at hblock; cases hblock
            | some x => rw [hget] at hblock; exact congrArg some hblock
          exact ⟨hmem, by rw [DownloadInfo.bit, hbits]; exact hget⟩
    · cases hr
      rw [hself]
      exact answered_of_no_bits rfl
  · cases hr
    rw [hself]
    exact answered_of_no_bits rfl

theorem Answered.advances {info info' : JobInfo} {reply : ShakeHand} (h : Answered info info' reply) : info.Advances info' := by
  have hbit := h.bit
  obtain ⟨bitmaps, percentages, rfl⟩ := h.onlyMaps
  exact ⟨rfl, rfl, rfl, id, fun fileid c => .inl (hbit fileid c)⟩

theorem Answered.backing {sha1 : Bytes → String} {j : Job} {info' : JobInfo} {reply : ShakeHand}
    (h : Answered j.jobInfo info' reply) (hj : Job.Backing sha1 j) : Job.Backing sha1 { j with jobInfo := info' } :=
  hj.congr h.advances.torrentInfo h.advances.localFileInfo h.bit rfl rfl (.inl rfl)

end OwnerSearch

/-! ### The clients together -/

/-- The clients, and the replies to `ShakeHand` that each has sent. -/
structure Swarm (ι : Type) where
  client : ι → OwnerSearch
  replies : ι → List ShakeHand

namespace Swarm

/-- What happens next. -/
inductive Action (ι : Type) where
  /-- A client goes on. -/
  | client (i : ι) (a : OwnerSearch.Action)
  /-- A client answers a `ShakeHand`. -/
  | answer (i : ι) (call : Call) (m : Option ParsedMessage)

variable {ι : Type} (sha1 : Bytes → String) (node : String → Option ι)

/-- What is taken in from a client of the swarm is a reply of this client, about the file. -/
def mayHear (s : Swarm ι) (i : ι) : OwnerSearch.Action → Bool
  | .shakeHand x =>
    match (s.client i).greeted, x.message with
    | some (fileid, clientid), some sh =>
      match node clientid with
      | some q => decide (sh ∈ s.replies q ∧ sh.info.fileId = some fileid)
      | none => true
    | none, _ | _, none => true
  | .job _ | .request | .reply _ | .connect _ => true

/-- One step: `none` where it is not possible. -/
def step [DecidableEq ι] (s : Swarm ι) : Action ι → Option (Swarm ι)
  | .client i a =>
    if s.mayHear node i a then
      ((s.client i).step sha1 a).map fun t => { s with client := Function.update s.client i t }
    else none
  | .answer i call m =>
    let r := (s.client i).answer call m
    some ⟨Function.update s.client i r.1, Function.update s.replies i (s.replies i ++ r.2.toList)⟩

/-- A step of a client's job meets `P`. -/
def JobsMeet (P : Job → Job.Action → Prop) (s : Swarm ι) : Action ι → Prop
  | .client i (.job b) => P (s.client i).job b
  | .client _ .request | .client _ (.reply _) | .client _ (.connect _) | .client _ (.shakeHand _) | .answer _ _ _ => True

instance (P : Job → Job.Action → Prop) [∀ j b, Decidable (P j b)] (s : Swarm ι) (a : Action ι) :
    Decidable (s.JobsMeet P a) := by
  unfold JobsMeet
  split <;> infer_instance

theorem JobsMeet.mono {P Q : Job → Job.Action → Prop} {s : Swarm ι} {a : Action ι} (h : s.JobsMeet P a)
    (hPQ : ∀ i b, P (s.client i).job b → Q (s.client i).job b) : s.JobsMeet Q a := by
  cases a with
  | client i b =>
    cases b with
    | job b => exact hPQ i b h
    | request | reply | connect | shakeHand => trivial
  | answer => trivial

/-! ### What is so, and what is believed -/

/-- The client has the chunk. -/
def Owns (s : Swarm ι) (i : ι) (fileid : String) (c : ℕ) : Prop :=
  fileid ∈ (s.client i).job.jobInfo.fileidlist ∧ (s.client i).job.jobInfo.downloadInfo.bit fileid c = some true

/-- The client with this id has the chunk, if it is one of the swarm. -/
def Has (s : Swarm ι) (clientid fileid : String) (c : ℕ) : Prop := ∀ q, node clientid = some q → s.Owns q fileid c

/-- What holds in every state. -/
structure Sound (t : TorrentInfo) (s : Swarm ι) : Prop where
  backing : ∀ i, Job.Backing sha1 (s.client i).job
  torrentInfo : ∀ i, (s.client i).job.jobInfo.torrentInfo = t
  inRange : ∀ i, BitsInRange (s.client i).job.jobInfo
  said : ∀ i, ∀ reply ∈ s.replies i, ∀ fileid c, reply.info.fileId = some fileid →
    (OwnerSearch.bitmapOf reply.info)[c]? = some true → s.Owns i fileid c
  believes : ∀ i, Job.Believes (s.Has node) (s.client i).job

variable {sha1 node} {t : TorrentInfo} {s s' : Swarm ι} {a : Action ι}

theorem Owns.of_advances {i : ι} {fileid : String} {c : ℕ} (h : s.Owns i fileid c)
    (hadv : (s.client i).job.jobInfo.Advances (s'.client i).job.jobInfo) : s'.Owns i fileid c := by
  refine ⟨hadv.fileidlist ▸ h.1, ?_⟩
  obtain heq | heq := hadv.bit fileid c
  · exact heq.trans h.2
  · exact heq

/-- What is taken in from a client of the swarm is so. -/
theorem Sound.has_of_heard (hs : s.Sound sha1 node t) {i : ι} {x : OwnerSearch.Exchange} {sh : ShakeHand} {fileid clientid : String}
    (hhear : s.mayHear node i (.shakeHand x)) (hmessage : x.message = some sh)
    (hgreeted : (s.client i).greeted = some (fileid, clientid)) {c : ℕ}
    (hc : (OwnerSearch.bitmapOf sh.info)[c]? = some true) : s.Has node clientid fileid c := by
  intro q hq
  simp only [mayHear, hgreeted, hmessage, hq, decide_eq_true_eq] at hhear
  exact hs.said q sh hhear.1 fileid c hhear.2 hc

/-- What a step makes of a client. -/
inductive Moved (sha1 : Bytes → String) (node : String → Option ι) (s : Swarm ι) (a : Action ι) (i : ι) (u : OwnerSearch) :
    Prop where
  /-- Nothing. -/
  | stays (hu : u = s.client i)
  /-- It goes on. -/
  | goesOn (b : OwnerSearch.Action) (ha : a = .client i b) (hhear : s.mayHear node i b)
      (hstep : (s.client i).step sha1 b = some u)
  /-- It answers. -/
  | answers (info' : JobInfo) (reply : ShakeHand) (hanswered : OwnerSearch.Answered (s.client i).job.jobInfo info' reply)
      (hu : u = { s.client i with job := { (s.client i).job with jobInfo := info' } })

variable [DecidableEq ι]

/-- **What a step does to the clients.** -/
theorem step_moved (h : step sha1 node s a = some s') (i : ι) : Moved sha1 node s a i (s'.client i) := by
  cases a with
  | client k b =>
    rw [step] at h
    split_ifs at h with hhear
    obtain ⟨u, hu, rfl⟩ := Option.map_eq_some_iff.mp h
    dsimp only
    by_cases hk : i = k
    · subst hk
      rw [Function.update_self]
      exact .goesOn b rfl hhear hu
    · rw [Function.update_of_ne hk]
      exact .stays rfl
  | answer k call m =>
    rw [step] at h
    obtain rfl := Option.some.inj h
    dsimp only
    by_cases hk : i = k
    · subst hk
      obtain ⟨info', reply, heq, -, hanswered⟩ := (s.client i).answer_spec call m
      rw [Function.update_self, heq]
      exact .answers info' reply hanswered rfl
    · rw [Function.update_of_ne hk]
      exact .stays rfl

/-- A reply that is new tells of the client as it was. -/
theorem mem_replies_of_step (h : step sha1 node s a = some s') {i : ι} {reply : ShakeHand} (hmem : reply ∈ s'.replies i) :
    reply ∈ s.replies i ∨ ∀ fileid c, reply.info.fileId = some fileid →
      (OwnerSearch.bitmapOf reply.info)[c]? = some true → s.Owns i fileid c := by
  cases a with
  | client k b =>
    rw [step] at h
    split_ifs at h
    obtain ⟨u, hu, rfl⟩ := Option.map_eq_some_iff.mp h
    exact .inl hmem
  | answer k call m =>
    rw [step] at h
    obtain rfl := Option.some.inj h
    dsimp only at hmem
    by_cases hk : i = k
    · subst hk
      rw [Function.update_self, List.mem_append, Option.mem_toList] at hmem
      obtain hold | hnew := hmem
      · exact .inl hold
      · obtain ⟨info', reply', -, hreply, hanswered⟩ := (s.client i).answer_spec call m
        obtain rfl := hreply reply hnew
        exact .inr hanswered.said
    · rw [Function.update_of_ne hk] at hmem
      exact .inl hmem

/-- All that a client has, it keeps. -/
theorem step_advances (h : step sha1 node s a = some s') (i : ι) :
    (s.client i).job.jobInfo.Advances (s'.client i).job.jobInfo := by
  cases step_moved h i with
  | stays hu => rw [hu]; exact .refl _
  | goesOn b ha hhear hstep => exact OwnerSearch.step_advances hstep
  | answers info' reply hanswered hu => rw [hu]; exact hanswered.advances

/-- **What every step keeps**, if it makes no copy over a file that chunks are downloaded to. -/
theorem step_sound (hs : s.Sound sha1 node t) (hspares : s.JobsMeet Job.SparesFiles a) (h : step sha1 node s a = some s') :
    s'.Sound sha1 node t := by
  have hadv := step_advances h
  have hmono : ∀ clientid fileid c, s.Has node clientid fileid c → s'.Has node clientid fileid c :=
    fun clientid fileid c hhas q hq => (hhas q hq).of_advances (hadv q)
  refine ⟨fun i => ?_, fun i => ?_, fun i => ?_, fun i reply hmem fileid c hid hc => ?_, fun i => ?_⟩
  · cases step_moved h i with
    | stays hu => rw [hu]; exact hs.backing i
    | goesOn b ha hhear hstep =>
      refine OwnerSearch.step_backing (hs.backing i) ?_ hstep
      rintro b' rfl
      rwa [ha] at hspares
    | answers info' reply hanswered hu => rw [hu]; exact hanswered.backing (hs.backing i)
  · exact (hadv i).torrentInfo.trans (hs.torrentInfo i)
  · refine (hs.inRange i).of_advances (hadv i) ?_
    cases step_moved h i with
    | stays hu => rw [hu]; exact fun _ _ => rfl
    | goesOn b ha hhear hstep => exact OwnerSearch.step_sameBits hstep
    | answers info' reply hanswered hu => rw [hu]; exact fun fileid c => congrArg Option.isSome (hanswered.bit fileid c)
  · obtain hold | hnew := mem_replies_of_step h hmem
    · exact (hs.said i reply hold fileid c hid hc).of_advances (hadv i)
    · exact (hnew fileid c hid hc).of_advances (hadv i)
  · refine Job.Believes.mono ?_ hmono
    cases step_moved h i with
    | stays hu => rw [hu]; exact hs.believes i
    | goesOn b ha hhear hstep =>
      refine OwnerSearch.step_believes (hs.believes i) (hs.backing i) ?_ hstep
      rintro x sh fileid clientid rfl hmessage hgreeted c hc
      exact hs.has_of_heard hhear hmessage hgreeted hc
    | answers info' reply hanswered hu =>
      obtain ⟨bitmaps, percentages, rfl⟩ := hanswered.onlyMaps
      rw [hu]
      have hi := hs.believes i
      exact ⟨hi.owners, hi.queue, hi.held, hi.fetching, hi.tasks⟩

/-! ### What is asked for, and what is sent -/

variable {i q : ι} {fileid : String} {c : ℕ} {file : Torrent.File} {call : Call} {host : String}

omit [DecidableEq ι] in
/-- **What a client grants.** A request for a chunk that it has is granted, and the bytes that are sent have the recorded
size and digest. -/
theorem Sound.granted (hs : s.Sound sha1 node t) (hcount : ∀ file ∈ t.torrent.file, file.chunkCount < 2 ^ 31)
    (hown : s.Owns q fileid c) (hfile : t.getOneFileOfSameFileid fileid = .ok file)
    (hthere : (s.client q).job.jobInfo.downloadInfo.isJobRemoved = false) (hclient : call.client = (s.client q).coolClient)
    (hhost : call.peerHost = .ok host) (clientid : String) :
    ∃ up mapped, handleUploadRequest call (some (.uploadRequest ⟨clientid, fileid, Int64.ofNat c⟩)) ⟨none⟩ =
        (.ok (.errorOk, some up), ⟨some Retcode.errorOk.value⟩) ∧
      (s.client q).job.disk.find? up.file = some mapped ∧ up.Inside mapped ∧ up.chunkSize = file.chunkSize c ∧
        sha1 (up.chunk mapped) = file.chunkChecksum c := by
  obtain ⟨hmem, hbit⟩ := hown
  obtain ⟨file', path, mapped, hfile', hpath, hmapped, hsum⟩ := (hs.backing q).bits fileid c hbit
  have hq := hs.torrentInfo q
  obtain rfl : file' = file := by
    rw [hq, hfile] at hfile'
    exact (Except.ok.inj hfile').symm
  have hin := (TorrentInfo.getOneFileOfSameFileid_mem hfile).1
  have hlt := hcount file' hin
  have hc : c < file'.chunkCount := by
    have := hs.inRange q fileid hmem c (by rw [hbit]; rfl)
    rwa [chunkCountOf, hfile'] at this
  have htiled : file'.UniformlyTiled := (hs.backing q).laid.tiled file' (hq ▸ hin)
  have hnum : (Int64.ofNat c).toInt = c := Int64.toInt_ofNat_of_lt (by omega)
  have hchunk : HasChunk call.client ⟨clientid, fileid, Int64.ofNat c⟩ (s.client q).job.jobInfo file' := by
    refine ⟨⟨0, ?_⟩, hfile', by rw [hnum]; omega, by rw [hnum]; omega⟩
    rw [hclient, OwnerSearch.getJobByFileid_coolClient, if_pos ⟨hthere, hmem⟩]
  obtain ⟨up, hhandle, rfl, hcovers⟩ := handleUploadRequest_hasChunk hchunk htiled hlt hpath hhost ⟨none⟩
  rw [hnum, Int.toNat_natCast] at hcovers
  have hoffset : up.offset.toNat = (file'.chunkOffset c).toNat := by
    have := hcovers.offset_eq.trans (Torrent.File.sum_take_sizes htiled hc)
    have := this.trans (Torrent.File.toNat_chunkOffset htiled hc).symm
    omega
  have hsize : up.chunkSize = file'.chunkSize c :=
    Option.some.inj (hcovers.size_eq.symm.trans (Torrent.File.sizes_getElem? hc))
  have hpos := Torrent.File.chunkSize_pos htiled hc
  refine ⟨up, mapped, hhandle, hmapped, ⟨hsize ▸ hpos, ?_⟩, hsize, ?_⟩
  · obtain ⟨content, hcontent, hlong⟩ := (hs.backing q).longEnough fileid file' up.file hfile' hpath
    obtain rfl := Option.some.inj (hmapped.symm.trans hcontent)
    have hle := hcovers.le_size
    omega
  · rw [UploadTask.chunk, hoffset, hsize]
    exact hsum

/-- A client that has not started its job: it knows of nobody, and what it has is backed. -/
structure Joining (sha1 : Bytes → String) (t : TorrentInfo) (s : OwnerSearch) : Prop where
  owners : s.job.jobInfo.ownerInfoMap = ∅
  queue : s.job.queue = []
  pc : s.job.pc = .notStarted
  tasks : s.job.tasks = []
  torrentInfo : s.job.jobInfo.torrentInfo = t
  backing : Job.Backing sha1 s.job
  inRange : BitsInRange s.job.jobInfo

section ofTorrent

variable {torrent : Torrent} {topPath : String} {needs : List FileIdentityInfo} {uploadTotal downloadTotal : UInt64}
  {m : LocalSockManager} {disk₀ : Disk} {d : DownloadInfo}

/-- A new job joins, with what is backed of the bits that it has. -/
theorem joining_of_bits (htiled : ∀ file ∈ torrent.file, file.UniformlyTiled)
    (hsame : ∀ file ∈ torrent.file, ∀ file' ∈ torrent.file, file.checkSum = file'.checkSum → file.chunk = file'.chunk)
    (hnodup : ((JobInfo.neededFiles torrent needs).map (JobInfo.localPath topPath)).Nodup)
    (hthere : ∀ file ∈ JobInfo.neededFiles torrent needs, ∀ content,
      disk₀.find? (JobInfo.localPath topPath file) = some content → (content.length : ℤ) = file.size.toInt)
    (hbit : ∀ fileid c, (d.bit fileid c).isSome =
      ((JobInfo.new torrent topPath needs uploadTotal downloadTotal (fun _ => none) disk₀).1.downloadInfo.bit fileid c).isSome)
    (hbacked : ∀ fileid c, d.bit fileid c = some true → Job.BackedAt sha1 ⟨torrent⟩
      (JobInfo.new torrent topPath needs uploadTotal downloadTotal (fun _ => none) disk₀).1.localFileInfo
      (JobInfo.new torrent topPath needs uploadTotal downloadTotal (fun _ => none) disk₀).2 fileid c) :
    Joining sha1 ⟨torrent⟩ (.start
      { (JobInfo.new torrent topPath needs uploadTotal downloadTotal (fun _ => none) disk₀).1 with downloadInfo := d } m
      (JobInfo.new torrent topPath needs uploadTotal downloadTotal (fun _ => none) disk₀).2) := by
  have htorrent := JobInfo.torrentInfo_new torrent topPath needs uploadTotal downloadTotal (fun _ => none) disk₀
  refine ⟨rfl, rfl, rfl, rfl, htorrent, ?_, ?_⟩
  · exact (Job.whole_of_bits (m := m) htiled hsame hnodup hthere hbacked).backing.congr rfl rfl (fun _ _ => rfl) rfl rfl (.inl rfl)
  · intro fileid hmem c hsome
    obtain ⟨b, hb⟩ := Option.isSome_iff_exists.mp ((hbit fileid c).symm.trans hsome)
    obtain rfl := JobInfo.eq_false_of_bit_new hb
    exact Job.clearBitsInRange_new (fun file hf file' hf' hsum => congrArg List.length (hsame file hf file' hf' hsum)) fileid
      hmem c hb

/-- `AddNewUploadJob` sets the bits of the files. -/
theorem setAll_bit {publish : String → Option Exception} {files : List Torrent.File} {seen : List String}
    {d d' : DownloadInfo} (h : CoolClient.setAll publish files seen d = .ok d') (fileid : String) (c : ℕ) :
    d'.bit fileid c = (d.bit fileid c).map fun b => b || decide (fileid ∉ seen ∧ fileid ∈ files.map fun file => file.checkSum) := by
  induction files generalizing seen d with
  | nil =>
    obtain rfl := Except.ok.inj h
    simp
  | cons file files ih =>
    rw [CoolClient.setAll] at h
    split_ifs at h with hseen
    · rw [ih h]
      have hiff : (fileid ∉ seen ∧ fileid ∈ files.map fun file => file.checkSum) ↔
          (fileid ∉ seen ∧ fileid ∈ (file :: files).map fun file => file.checkSum) := by
        refine and_congr_right fun hnot => ?_
        have : fileid ≠ file.checkSum := fun heq => hnot (heq ▸ hseen)
        simp [this]
      simp only [hiff]
    · rcases hb : d.bitmapAt file.checkSum with ⟨bitmap, d₁⟩
      rw [hb] at h
      cases bitmap with
      | none => cases h
      | some bits =>
        obtain ⟨rfl, hbits⟩ := DownloadInfo.bitmapAt_eq_some hb
        dsimp only at h
        split at h
        · cases h
        · rw [ih h]
          simp only [DownloadInfo.bit, SortedMap.find?_insert]
          by_cases he : file.checkSum = fileid
          · subst he
            by_cases hc : c < bits.length <;> simp [hbits, hc, hseen]
          · simp [he, Ne.symm he]

/-- It makes or removes none. -/
theorem setAll_sameBits {publish : String → Option Exception} {files : List Torrent.File} {seen : List String}
    {d d' : DownloadInfo} (h : CoolClient.setAll publish files seen d = .ok d') (fileid : String) (c : ℕ) :
    (d'.bit fileid c).isSome = (d.bit fileid c).isSome := by
  rw [setAll_bit h, Option.isSome_map]

/-- **Who downloads joins**, with a job for the torrent that has been resumed. -/
theorem joining_download (htiled : ∀ file ∈ torrent.file, file.UniformlyTiled)
    (hsame : ∀ file ∈ torrent.file, ∀ file' ∈ torrent.file, file.checkSum = file'.checkSum → file.chunk = file'.chunk)
    (hnodup : ((JobInfo.neededFiles torrent needs).map (JobInfo.localPath topPath)).Nodup)
    (hthere : ∀ file ∈ JobInfo.neededFiles torrent needs, ∀ content,
      disk₀.find? (JobInfo.localPath topPath file) = some content → (content.length : ℤ) = file.size.toInt) :
    Joining sha1 ⟨torrent⟩ (.start
      (JobInfo.new torrent topPath needs uploadTotal downloadTotal (fun _ => none) disk₀).1.resumed m
      (JobInfo.new torrent topPath needs uploadTotal downloadTotal (fun _ => none) disk₀).2) :=
  joining_of_bits htiled hsame hnodup hthere (fun _ _ => rfl) fun fileid c hset => by
    cases JobInfo.eq_false_of_bit_new hset

/-- **Who shares joins**, if the files are there and match the torrent. -/
theorem joining_share {publish : String → Option Exception} (htiled : ∀ file ∈ torrent.file, file.UniformlyTiled)
    (hsame : ∀ file ∈ torrent.file, ∀ file' ∈ torrent.file, file.checkSum = file'.checkSum → file.chunk = file'.chunk)
    (hnodup : ((JobInfo.neededFiles torrent needs).map (JobInfo.localPath topPath)).Nodup)
    (hthere : ∀ file ∈ JobInfo.neededFiles torrent needs, ∃ content,
      disk₀.find? (JobInfo.localPath topPath file) = some content ∧ (content.length : ℤ) = file.size.toInt ∧
        Job.Matches sha1 file content)
    (hset : CoolClient.setAll publish torrent.file []
      (JobInfo.new torrent topPath needs uploadTotal downloadTotal (fun _ => none) disk₀).1.downloadInfo = .ok d) :
    Joining sha1 ⟨torrent⟩ (.start
      { (JobInfo.new torrent topPath needs uploadTotal downloadTotal (fun _ => none) disk₀).1 with downloadInfo := d }.resumed m
      (JobInfo.new torrent topPath needs uploadTotal downloadTotal (fun _ => none) disk₀).2) := by
  have hsizes : ∀ file ∈ JobInfo.neededFiles torrent needs, ∀ content,
      disk₀.find? (JobInfo.localPath topPath file) = some content → (content.length : ℤ) = file.size.toInt := by
    intro file hfile content hcontent
    obtain ⟨content', hcontent', hsize, -⟩ := hthere file hfile
    obtain rfl := Option.some.inj (hcontent.symm.trans hcontent')
    exact hsize
  exact joining_of_bits htiled hsame hnodup hsizes (fun fileid c => setAll_sameBits hset fileid c) fun fileid c hbit =>
    Job.backedAt_of_there hsame hthere (setAll_sameBits hset) hbit

end ofTorrent

omit [DecidableEq ι] in
/-- A swarm begins with that. -/
theorem sound_of_joining (hjoining : ∀ i, Joining sha1 t (s.client i)) (hreplies : ∀ i, s.replies i = []) :
    s.Sound sha1 node t where
  backing i := (hjoining i).backing
  torrentInfo i := (hjoining i).torrentInfo
  inRange i := (hjoining i).inRange
  said i reply hmem := by
    rw [hreplies] at hmem
    cases hmem
  believes i := by
    obtain ⟨howners, hqueue, hpc, htasks, -, -, -⟩ := hjoining i
    constructor
    · rw [howners]
      rintro fileid infoList ⟨⟩
    · rw [hqueue]
      rintro chunk ⟨⟩
    · rw [hpc]
      rintro chunk ⟨⟩
    · rw [hpc]
      rintro chunk peer ⟨⟩
    · rw [htasks]
      rintro task ⟨⟩

/-- **Who is asked has the chunk, and what it sends is right.** The clients of a swarm have joined with the torrent, and
have gone on and answered each other in any order, while others have told them anything, and no copy has been made over
a file that chunks are downloaded to. A task that asks a client of the swarm asks one that has the chunk. Unless that has
removed its job, it grants the request, and what it sends, however it is cut on the way, passes the check of the task. -/
theorem run_served (hcount : ∀ file ∈ t.torrent.file, file.chunkCount < 2 ^ 31) {s₀ : Swarm ι} {as : List (Action ι)}
    (hjoining : ∀ i, Joining sha1 t (s₀.client i)) (hreplies : ∀ i, s₀.replies i = [])
    (hspares : Always (step sha1 node) (JobsMeet Job.SparesFiles) s₀ as) (hrun : exec (step sha1 node) s₀ as = some s)
    {task : DownloadTask} (htask : task ∈ (s.client i).job.tasks)
    (hpeer : node task.clientid = some q) :
    s.Owns q task.fileid task.chunkPos ∧
      ((s.client q).job.jobInfo.downloadInfo.isJobRemoved = false → ∀ (call : Call) (host : String),
        call.client = (s.client q).coolClient → call.peerHost = .ok host →
          ∃ up, handleUploadRequest call (some (.uploadRequest task.uploadRequest)) ⟨none⟩ =
              (.ok (.errorOk, some up), ⟨some Retcode.errorOk.value⟩) ∧
            ∀ upInfo downInfo disk bs tr content,
              exec (Transfer.step sha1 up (s.client q).job.disk task) (.start upInfo downInfo disk) bs = some tr →
                tr.down = .verify content →
                  task.runTask sha1 tr.downInfo tr.disk tr.down .ok = some (.write content, tr.downInfo, tr.disk)) := by
  have hs : s.Sound sha1 node t := exec_invariant_of_always step_sound hspares hrun (sound_of_joining hjoining hreplies)
  have hown := (hs.believes i).tasks task htask q hpeer
  refine ⟨hown, fun hthere call host hclient hhost => ?_⟩
  obtain ⟨hfile, -, hsum, -, -⟩ := (hs.backing i).tasks task htask
  rw [hs.torrentInfo i] at hfile
  obtain ⟨up, mapped, hhandle, hmapped, hin, hsize, hdigest⟩ :=
    hs.granted hcount hown hfile hthere hclient hhost task.clientid
  refine ⟨up, hhandle, fun upInfo downInfo disk bs tr content htr hdown => ?_⟩
  obtain rfl := Transfer.content_eq hmapped hin hsize.symm htr hdown
  rw [hdown, DownloadTask.runTask, if_pos (hdigest.trans hsum.symm)]

/-! ### Two clients -/

/-- The job of a client that shares the file, and its disk. -/
def sharing : JobInfo × Disk :=
  let (info, disk) := JobInfo.new Job.oneChunkTorrent "/s/" [⟨"", "a"⟩] 0 0 (fun _ => none) ((∅ : Disk).insert "/s/a" [7])
  ({ info with downloadInfo :=
      { info.downloadInfo with bitmapMap := info.downloadInfo.bitmapMap.insert "f" (some [true]) } }.resumed, disk)

/-- And that of one that downloads it. -/
def downloading : JobInfo × Disk :=
  let (info, disk) := JobInfo.new Job.oneChunkTorrent "/d/" [⟨"", "a"⟩] 0 0 (fun _ => none) ∅
  (info.resumed, disk)

/-- Client `0` shares the file, and the others download it; all have a connection to the tracker. -/
def sharedFile : Swarm ℕ where
  client i :=
    let (info, disk) := if i = 0 then sharing else downloading
    .start info (LocalSockManager.new.connectTracker "tracker" (some 9)).2 disk
  replies _ := []

/-- Client `0` is known as `"s"`. -/
def sharedNode (clientid : String) : Option ℕ := if clientid = "s" then some 0 else none

/-- A `ShakeHand` about a file. -/
def greeting (fileid : String) : ParsedMessage := .shakeHand ⟨some "d", ⟨some fileid, none, none, [], none⟩⟩

/-- Client `1` finds client `0`, shakes hands with it, and starts a task for the chunk. -/
def fetchFromFirst (s : Swarm ℕ) (fileid : String) : List (Action ℕ) :=
  [.client 1 (.job .start), .client 1 .request, .client 1 (.reply (.ok (.errorOk, some ⟨0, [⟨"s", "host", 1, 100⟩]⟩))),
    .client 1 (.connect (some 0)), .answer 0 Serving.calmCall (some (greeting fileid)),
    .client 1 (.shakeHand ⟨.ok none, .ok .errorOk, .ok .errorOk,
      ((s.client 0).answer Serving.calmCall (some (greeting fileid))).2⟩)] ++
  ([.run .go, .run .go, .run .go, .run .go, .run .go, .run (.top 0), .run .go, .run (.conn (.ok none)), .run .go, .run .go] :
    List Job.Action).map fun b => .client 1 (.job b)

/-- The task of client `1`. -/
def fetchTask : DownloadTask := .new Job.oneChunkTorrent.file[0] "s" 0 0 "/d/a"

theorem run_served_sharedFile : ∃ s, exec (step Job.oneChunkSha1 sharedNode) sharedFile (fetchFromFirst sharedFile "f") = some s ∧
    fetchTask ∈ (s.client 1).job.tasks ∧ s.Owns 0 "f" 0 ∧
      ∃ up, handleUploadRequest { Serving.calmCall with client := (s.client 0).coolClient }
        (some (.uploadRequest ⟨"s", "f", 0⟩)) ⟨none⟩ = (.ok (.errorOk, some up), ⟨some Retcode.errorOk.value⟩) := by
  have hfile : ∀ file ∈ Job.oneChunkTorrent.file, file = Job.oneChunkTorrent.file[0] := fun file h => List.mem_singleton.mp h
  have htiled : ∀ file ∈ Job.oneChunkTorrent.file, file.UniformlyTiled := by
    intro file h
    rw [hfile file h]
    exact ⟨⟨0, 1, rfl, by decide, by decide⟩, rfl⟩
  have hsame : ∀ file ∈ Job.oneChunkTorrent.file, ∀ file' ∈ Job.oneChunkTorrent.file,
      file.checkSum = file'.checkSum → file.chunk = file'.chunk := by
    intro file h file' h' _
    rw [hfile file h, hfile file' h']
  have hjoining : ∀ i, Joining Job.oneChunkSha1 ⟨Job.oneChunkTorrent⟩ (sharedFile.client i) := by
    intro i
    by_cases hi : i = 0
    · subst hi
      refine @joining_share Job.oneChunkSha1 Job.oneChunkTorrent "/s/" [⟨"", "a"⟩] 0 0 _ ((∅ : Disk).insert "/s/a" [7]) _
        (fun _ => none) htiled hsame (by decide) ?_ rfl
      intro file h
      obtain rfl := hfile file (List.mem_of_mem_filter h)
      refine ⟨[7], rfl, rfl, fun c hc => ?_⟩
      obtain rfl : c = 0 := by simpa [Job.oneChunkTorrent, Torrent.File.chunkCount] using hc
      rfl
    · have := @joining_download Job.oneChunkSha1 Job.oneChunkTorrent "/d/" [⟨"", "a"⟩] 0 0
        (LocalSockManager.new.connectTracker "tracker" (some 9)).2 ∅ htiled hsame (by decide) (by rintro file h content ⟨⟩)
      simpa [sharedFile, hi, downloading] using this
  have hrun : (exec (step Job.oneChunkSha1 sharedNode) sharedFile (fetchFromFirst sharedFile "f")).map
      (fun s => ((s.client 1).job.tasks, (s.client 0).job.jobInfo.downloadInfo.isJobRemoved)) = some ([fetchTask], false) := by
    decide +kernel
  obtain ⟨s, hexec, hend⟩ := Option.map_eq_some_iff.mp hrun
  obtain ⟨htasks, hthere⟩ := Prod.mk.inj hend
  have htask : fetchTask ∈ (s.client 1).job.tasks := htasks ▸ List.mem_singleton_self _
  have hspares : Always (step Job.oneChunkSha1 sharedNode) (JobsMeet Job.SparesFiles) sharedFile
      (fetchFromFirst sharedFile "f") := by decide +kernel
  have hserved := run_served (by decide) hjoining (fun _ => rfl) hspares hexec htask (q := 0) rfl
  obtain ⟨up, hup, -⟩ := hserved.2 hthere { Serving.calmCall with client := (s.client 0).coolClient } "peer" rfl rfl
  exact ⟨s, hexec, htask, hserved.1, up, hup⟩

end Swarm

end CoolDown
