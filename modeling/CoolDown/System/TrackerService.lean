import CoolDown.Client.TrackerCalls
import CoolDown.Library.SharedObject
import CoolDown.System.Registry
import CoolDown.Tracker.Replies

/-!
# The tracker and its clients

Any number of clients, each on a connection of its own, call the tracker: `LoginTracker`,
`LogoutTracker`, `PublishResourceToTracker`, `ReportProgress` and `RequestClients` send a
request and wait for the reply. The tracker has one thread, which takes the connections in
any order. So a request is sent, some time later it is handled, and again later its reply is
read, and in between anything may happen on the other connections.

## The model

All that passes is bytes: the packs of both ends, as `sendBy` writes them, and the tables. The generated
classes write and read `tracker.proto` in the format of protobuf, on both ends.
`CallTo` is a call of `CoolClient` to its tracker, `Served` what `handle_reply_message` returns for
it. A `TrackerService` is the tables and the connections. A connection may end at any time: the
tracker notices by `onShutdown`, or by a receive that fails. `Calm` is what a run needs to
go well: the server carries statements out, no part of a pack is cut, nothing is too large to be
written, and file ids have no quotes in them.

`Directory` is what all this is for: a registry, and who has logged in on which connection.

## What is proved

* `handle_serves`: what handling a request does is what `Directory.Serve` says, for some answer,
  and that is the answer which the client reads from the reply.
* `calls_linearizable`: in every run each step is an event at the directory, a request being served when
  it is handled. On each connection calls are sent, served and answered in turn, and each call
  returns the answer that it was served with.
* `percentage_of_own_requests`: how much of a file a client is said to have is decided by what it
  has published and reported itself.
-/

namespace CoolDown

open Library Tracker TrackerProto
open Wire (utf8 ofUtf8)

/-! ### Calls -/

/-- A client, as the tracker sees it: its id, its port, and the host it connects from. -/
structure TrackerClient where
  clientid : String
  localPort : Int32
  host : String
  clientid_ne : clientid ≠ ""
  plain : Plain (utf8 clientid)

/-- A call of `CoolClient` to its tracker. -/
inductive CallTo where
  | loginTracker
  | logoutTracker
  | publishResourceToTracker (fileid : String)
  | reportProgress (fileid : String) (percentage : Int32)
  | requestClients (fileid : String) (currentPercentage needCount : Int32) (clientids : List String)
  deriving DecidableEq

/-- What `handle_reply_message` returns for a call, and its `out`. -/
inductive Served where
  | message (r : Except Exception Retcode × Option TrackerCalls.MessageReply)
  | peers (r : Except Exception Retcode × Option OwnerSearch.QueryPeerReply)

/-- The text of a string that has been received. -/
def textOf (bs : Bytes) : String := (ofUtf8 bs).getD ""

@[simp] theorem textOf_utf8 (s : String) : textOf (utf8 s) = s := by simp [textOf]

/-- A peer, as `RequestClients` reads it. -/
def readPeer (info : PeerFileInfo) : OwnerSearch.Peer :=
  let client := info.client.getD Peer.proto.init
  ⟨textOf (client.clientId.getD []), textOf (client.ip.getD []), client.messagePort.getD 0, info.percentage.getD 0⟩

/-- `NetPack::message` of the client, as far as it can be cast to a reply. -/
def replyPool (name payload : Bytes) : Option TrackerCalls.ParsedReply :=
  if name = utf8 "TrackerProto.MessageReply" then
    (MessageReply.proto.parseFromString payload).map fun m => .messageReply ⟨m.returnCode.getD 0⟩
  else if name = utf8 "TrackerProto.QueryPeerReply" then
    (QueryPeerReply.proto.parseFromString payload).map fun m =>
      .queryPeerReply ⟨m.returnCode.getD 0, m.info.map readPeer⟩
  else none

namespace CallTo

/-- The request of a call. -/
def request (c : TrackerClient) : CallTo → ParsedMessage
  | loginTracker => .login ⟨utf8 c.clientid, none, some c.localPort⟩
  | logoutTracker => .logout ⟨utf8 c.clientid⟩
  | publishResourceToTracker fileid => .publishResource ⟨utf8 c.clientid, utf8 fileid⟩
  | reportProgress fileid percentage => .reportProgress ⟨utf8 c.clientid, utf8 fileid, percentage⟩
  | requestClients fileid currentPercentage needCount clientids =>
    .queryPeer ⟨utf8 fileid, currentPercentage, some needCount, clientids.map utf8⟩

/-- The assertions at the start of a call. -/
def asserts : CallTo → Bool
  | requestClients _ currentPercentage needCount _ => decide (0 ≤ currentPercentage ∧ 0 < needCount)
  | _ => true

/-- The file ids that go into a statement with quotes around them, and client ids, have none in them. -/
def IsPlain : CallTo → Prop
  | reportProgress fileid _ => Plain (utf8 fileid)
  | requestClients fileid _ _ clientids => Plain (utf8 fileid) ∧ ∀ id ∈ clientids, Plain (utf8 id)
  | _ => True

/-- What the call finds: the wire formats, and a socket on which `inp` is to be read. -/
def link (c : TrackerClient) (junk : Int32) (inp : InSock) : TrackerCalls.Link where
  clientid := c.clientid
  localPort := c.localPort
  header := .wire
  serialize := ParsedMessage.serializeRequest
  parse := replyPool
  junk := junk
  sock := fun _ => ⟨.blocking, inp, .ok ()⟩
  notice := true
  warning := true

/-- What `handle_reply_message` returns for the call, when it finds `inp` on the socket. -/
def served (c : TrackerClient) (call : CallTo) (junk : Int32) (inp : InSock) : Served :=
  let link := link c junk inp
  let request := call.request c
  match call with
  | requestClients .. =>
    .peers (handleReplyMessage link TrackerCalls.queryPeerReplyType (link.sock 0) request.message request.payloadType)
  | _ => .message (handleReplyMessage link TrackerCalls.messageReplyType (link.sock 0) request.message request.payloadType)

end CallTo

/-- The code that is returned. -/
def Served.code : Served → Except Exception Retcode
  | message r => r.1
  | peers r => r.1

/-- The call that a `TrackerCall` is. -/
def CallTo.ofTrackerCall : TrackerCall → CallTo
  | .login .. => loginTracker
  | .logout .. => logoutTracker
  | .publishResource _ fileid => publishResourceToTracker fileid
  | .reportProgress _ fileid percentage => reportProgress fileid percentage

/-- The four calls that want a confirmation return the code. -/
theorem CallTo.code_served (c : TrackerClient) (junk : Int32) (inp : InSock) (m : LocalSockManager) (call : TrackerCall)
    (hsock : call.sock m ≠ none) :
    call.result (link c junk inp) m = ((ofTrackerCall call).served c junk inp).code := by
  rcases TrackerCall.result_eq (link c junk inp) m call with ⟨hnone, -⟩ | ⟨sock, -, hresult⟩
  · exact absurd hnone hsock
  · rw [hresult]
    cases call with
    | login | logout | publishResource | reportProgress => rfl

/-! ### The system -/

/-- How far a call on a connection has come. -/
inductive ServicePhase where
  | idle
  /-- The request is on its way. -/
  | sent (call : CallTo) (pack : NetPack)
  /-- The reply is on its way. -/
  | replied (call : CallTo) (pack : NetPack)
  | closed

/-- The tables, the connections, and what calls have returned. -/
structure TrackerService where
  db : Database
  handler : ℕ → Tracker.Handler
  phase : ℕ → ServicePhase
  returned : List (ℕ × CallTo × Served)

namespace TrackerService

/-- A step of a client or of the tracker. -/
inductive Action where
  /-- A client makes a call: the request is sent. -/
  | call (i : ℕ) (call : CallTo)
  /-- The tracker reads a request, which arrives as it does, and handles it. -/
  | handle (i : ℕ) (io : Io) (junk : Int32) (arrivals : ℕ → Arrival Exception)
  /-- The client reads the reply, and the call returns. -/
  | answer (i : ℕ) (junk : Int32) (arrivals : ℕ → Arrival Exception)
  /-- The connection ends with `onShutdown`. -/
  | shutdown (i : ℕ)
  /-- The connection ends with a receive that fails. -/
  | giveUp (i : ℕ) (my : MySQL)

variable (who : ℕ → TrackerClient)

/-- The tables as they are, and connections on which nothing has happened. -/
def start (db : Database) : TrackerService :=
  ⟨db, fun i => .new (utf8 (who i).host), fun _ => .idle, []⟩

/-- The step. -/
def step (s : TrackerService) : Action → Option TrackerService
  | .call i call =>
    match s.phase i with
    | .idle =>
      if call.asserts then some { s with phase := Function.update s.phase i (.sent call (call.request (who i)).pack) }
      else none
    | _ => none
  | .handle i io junk arrivals =>
    match s.phase i with
    | .sent call pack =>
      let received := NetPack.new.receiveFrom .wire junk ⟨pack.sent .wire, arrivals⟩
      match (s.handler i).onReadable pool io io.my s.db (received.1, received.2.1) fun _ => .ok .errorOk with
      | (.ok (), some h, db) =>
        let reply := ((s.handler i).process pool io s.db received.2.1 .new).2.2
        some { s with
          db
          handler := Function.update s.handler i h
          phase := Function.update s.phase i (.replied call reply) }
      | (_, _, db) => some { s with db, phase := Function.update s.phase i .closed }
    | _ => none
  | .answer i junk arrivals =>
    match s.phase i with
    | .replied call pack =>
      let served := call.served (who i) junk ⟨pack.sent .wire, arrivals⟩
      some { s with phase := Function.update s.phase i .idle, returned := s.returned ++ [(i, call, served)] }
    | _ => none
  | .shutdown i =>
    match s.phase i with
    | .closed => none
    | _ =>
      let (_, db) := (s.handler i).onShutdown s.db
      some { s with db, phase := Function.update s.phase i .closed }
  | .giveUp i my =>
    match s.phase i with
    | .closed => none
    | _ =>
      let (_, _, db) := (s.handler i).giveUp my s.db
      some { s with db, phase := Function.update s.phase i .closed }

/-! ### What it should do -/

/-- The registry, and on which connections there has been a login. -/
structure Directory where
  registry : Registry
  loggedIn : ℕ → Bool

namespace Directory

/-- The id of a connection: none before a login. -/
def id (d : Directory) (i : ℕ) : String := if d.loggedIn i then (who i).clientid else ""

/-- The request has been carried out. -/
def confirmed : Served := .message (.ok .errorOk, some ⟨Retcode.errorOk.value⟩)

/-- The request has been refused: this is in the reply only. -/
def refused : Served := .message (.ok .errorOk, some ⟨Retcode.errorUnknown.value⟩)

/-- How a call on a connection is served. -/
inductive Serve (d : Directory) (i : ℕ) : CallTo → Served → Directory → Prop where
  | login : Serve d i .loginTracker confirmed
    ⟨d.registry.login (who i).clientid (who i).host (who i).localPort, Function.update d.loggedIn i true⟩
  | logout (h : d.loggedIn i) :
    Serve d i .logoutTracker confirmed { d with registry := d.registry.logout (who i).clientid }
  | logoutRefused (h : ¬d.loggedIn i) : Serve d i .logoutTracker refused d
  | publish (fileid : String) (h : d.registry.owners fileid (who i).clientid = none) :
    Serve d i (.publishResourceToTracker fileid) confirmed
      { d with registry := d.registry.setPercentage fileid (who i).clientid 100 }
  | publishRefused (fileid : String) (h : d.registry.owners fileid (who i).clientid ≠ none) :
    Serve d i (.publishResourceToTracker fileid) refused d
  | report (fileid : String) (percentage : Int32) :
    Serve d i (.reportProgress fileid percentage) confirmed
      { d with registry := d.registry.setPercentage fileid (who i).clientid percentage }
  | peers (fileid : String) (currentPercentage needCount : Int32) (clientids : List String) (peers : List OwnerSearch.Peer)
    (hfile : fileid ≠ "") (hp : currentPercentage ≤ 100)
    (h : d.registry.Finds fileid currentPercentage needCount (clientids ++ [d.id who i]) peers) :
    Serve d i (.requestClients fileid currentPercentage needCount clientids)
      (.peers (.ok .errorOk, some ⟨Retcode.errorOk.value, peers⟩)) d
  | peersRefused (fileid : String) (currentPercentage needCount : Int32) (clientids : List String)
    (h : fileid = "" ∨ currentPercentage > 100) :
    Serve d i (.requestClients fileid currentPercentage needCount clientids)
      (.peers (.ok .errorOk, some ⟨Retcode.errorUnknown.value, []⟩)) d

/-- What the tracker makes of the end of a connection: nothing, or whoever has logged in goes offline. -/
inductive Drop (d : Directory) (i : ℕ) : Directory → Prop where
  | unnoticed : Drop d i d
  | noticed : Drop d i { d with registry := d.registry.logout (d.id who i) }

/-- What the tracker should do. -/
def spec : Spec Directory ℕ CallTo Served := ⟨Serve who, Drop who⟩

end Directory

/-! ### Replies -/

/-- The client reads this from a pack that is sent to it, for a call. -/
def Reads (c : TrackerClient) (call : CallTo) (pack : NetPack) (served : Served) : Prop :=
  ∀ junk (arrivals : ℕ → Arrival Exception), pack.Whole .wire arrivals →
    call.served c junk ⟨pack.sent .wire, arrivals⟩ = served

/-- A pack with a reply of the right class is read, whatever the reply says. -/
theorem handleReplyMessage_of_pack {ρ : Type} {type : TrackerCalls.ReplyMessageType ρ} {c : TrackerClient} {pack : NetPack}
    {reply : ρ} (hpack : NetPack.Sendable .wire pack)
    (hreply : (replyPool pack.messageName pack.payload).bind type.cast = some reply) (junk : Int32)
    {arrivals : ℕ → Arrival Exception} (hwhole : pack.Whole .wire arrivals) (msg : Message) (payloadType : Int32) :
    let link := CallTo.link c junk ⟨pack.sent .wire, arrivals⟩
    handleReplyMessage link type (link.sock 0) msg payloadType = (.ok .errorOk, some reply) := by
  intro link
  obtain ⟨headerContent, hheader, -⟩ := NetPackHeader.Codec.wire_lossless (NetPack.ofMessage payloadType msg).header
  have hsend : ((NetPack.ofMessage payloadType msg).sendBy .wire .blocking).1 = .ok .errorOk :=
    (NetPack.sendBy_blocking hheader).1
  have hreceive : (NetPack.ofMessage payloadType msg).receiveFrom .wire junk ⟨pack.sent .wire, arrivals⟩ =
      (.ok .errorOk, pack, ⟨[], fun i => arrivals (i + 3)⟩) := by
    rw [NetPack.receiveFrom_sent NetPackHeader.Codec.wire_lossless
      (hpack.built.framed hpack.accepted hpack.payload_lt) hpack.accepted (List.append_nil _).symm hwhole,
      hpack.built.arrived_eq]
  rcases hs : (NetPack.ofMessage payloadType msg).sendBy .wire .blocking with ⟨ret, out⟩
  obtain rfl : ret = .ok .errorOk := by rw [← hsend, hs]
  simp only [handleReplyMessage, link, CallTo.link, hs, hreceive, hreply, Except.map, ne_eq, not_true_eq_false, if_false]
  split_ifs
  · rfl
  · rfl

theorem sendable_setMessage {msg : Message} (hname : msg.fullName.length < 128)
    (hlen : (msg.serializeToString.getD []).length < 2 ^ 31) (out : NetPack) (type : Int32) :
    NetPack.Sendable .wire (out.setMessage type msg) where
  built := .set out type msg
  accepted := NetPackHeader.byteSize_wire_bounds _ _ hname
  payload_lt := hlen

/-- A return code is written in a few bytes. -/
theorem length_encode_messageReply (code : Int32) : (MessageReply.proto.encode ⟨some code, none⟩).length < 2 ^ 31 := by
  have htag : (varint (8 * 1)).length ≤ 4 := length_varint_le (by decide) (by decide)
  have hcode : (varint (Wire.int32Value code)).length ≤ 64 := length_varint_le (by decide) (code.toInt64.toUInt64.toNat_lt)
  have hfields : MessageReply.proto.toFields ⟨some code, none⟩ = [⟨1, .varint (Wire.int32Value code)⟩] := rfl
  simp only [Wire.Message.encode, hfields, Wire.encode, Wire.encodeField, List.flatMap_cons, List.flatMap_nil,
    List.append_nil, List.length_append]
  omega

/-- A return code is read as it was sent. -/
theorem reads_messageReply (c : TrackerClient) {call : CallTo} (hcall : ∀ f p n ids, call ≠ .requestClients f p n ids)
    (code : Int32) (out : NetPack) :
    Reads c call (out.setMessage payloadMessageReply (Handler.messageReply ⟨some code, none⟩))
      (.message (.ok .errorOk, some ⟨code⟩)) := by
  have hser : MessageReply.proto.serializeToString ⟨some code, none⟩ = some (MessageReply.proto.encode ⟨some code, none⟩) :=
    Wire.Proto.serializeToString_eq_some.mpr ⟨length_encode_messageReply code, rfl⟩
  have hpack := @sendable_setMessage (Handler.messageReply ⟨some code, none⟩)
    (show (utf8 "TrackerProto.MessageReply").length < 128 by decide)
    (by simpa [Handler.messageReply, hser] using length_encode_messageReply code) out payloadMessageReply
  intro junk arrivals hwhole
  have hinit : MessageReply.proto.isInitialized ⟨some code, none⟩ = true := rfl
  have hreply : (replyPool (out.setMessage payloadMessageReply (Handler.messageReply ⟨some code, none⟩)).messageName
      (out.setMessage payloadMessageReply (Handler.messageReply ⟨some code, none⟩)).payload).bind
        TrackerCalls.messageReplyType.cast = some ⟨code⟩ := by
    simp [replyPool, NetPack.setMessage, Handler.messageReply, hser, Wire.Proto.parseFromString_encode, hinit,
      TrackerCalls.messageReplyType]
  have hhandle := handleReplyMessage_of_pack (c := c) hpack hreply junk hwhole
  cases call with
  | requestClients f p n ids => exact absurd rfl (hcall f p n ids)
  | loginTracker | logoutTracker | publishResourceToTracker | reportProgress =>
    exact congrArg Served.message (hhandle _ _)

/-- The peers in a reply are read as they were sent. -/
theorem readPeer_peerFileInfo (fileid : Bytes) (peer : OwnerSearch.Peer) :
    readPeer (Handler.peerFileInfo ((Represents.rowOf peer).entry fileid)) = peer := by
  simp [readPeer, Handler.peerFileInfo, FoundRow.entry, Represents.rowOf]

/-- An answer to a request for peers is read as it was sent, if it is small enough to be written. -/
theorem reads_filledReply (c : TrackerClient) (fileid : String) (currentPercentage needCount : Int32)
    (clientids : List String) (ret : Retcode) (peers : List OwnerSearch.Peer) (out : NetPack)
    (hlen : (QueryPeerReply.proto.encode
      (Handler.filledReply (utf8 fileid) ret (entries (utf8 fileid) (peers.map Represents.rowOf)))).length < 2 ^ 31) :
    Reads c (.requestClients fileid currentPercentage needCount clientids)
      (out.setMessage payloadRequestPeerReplay
        (Handler.queryPeerReply (Handler.filledReply (utf8 fileid) ret (entries (utf8 fileid) (peers.map Represents.rowOf)))))
      (.peers (.ok .errorOk,
        some (if ret ≠ .errorOk then ⟨Retcode.errorUnknown.value, []⟩ else ⟨Retcode.errorOk.value, peers⟩))) := by
  have hinit := Handler.isInitialized_filledReply (utf8 fileid) ret (entries (utf8 fileid) (peers.map Represents.rowOf))
  have hread : (Handler.filledReply (utf8 fileid) ret (entries (utf8 fileid) (peers.map Represents.rowOf))).info.map readPeer =
      if ret ≠ .errorOk then [] else peers := by
    unfold Handler.filledReply
    split_ifs
    · rfl
    · simp [entries, Function.comp_def, readPeer_peerFileInfo]
  have hcode : (Handler.filledReply (utf8 fileid) ret (entries (utf8 fileid) (peers.map Represents.rowOf))).returnCode =
      some (if ret ≠ .errorOk then Retcode.errorUnknown.value else Retcode.errorOk.value) := by
    unfold Handler.filledReply
    split_ifs
    · rfl
    · rfl
  generalize Handler.filledReply (utf8 fileid) ret (entries (utf8 fileid) (peers.map Represents.rowOf)) = qpr at *
  have hser : QueryPeerReply.proto.serializeToString qpr = some (QueryPeerReply.proto.encode qpr) :=
    Wire.Proto.serializeToString_eq_some.mpr ⟨hlen, rfl⟩
  have hpack := @sendable_setMessage (Handler.queryPeerReply qpr)
    (show (utf8 "TrackerProto.QueryPeerReply").length < 128 by decide)
    (by simpa [Handler.queryPeerReply, hser] using hlen) out payloadRequestPeerReplay
  intro junk arrivals hwhole
  refine congrArg Served.peers (handleReplyMessage_of_pack hpack ?_ junk hwhole _ _)
  have hne : utf8 "TrackerProto.QueryPeerReply" ≠ utf8 "TrackerProto.MessageReply" := messageReplyName_ne
  simp only [replyPool, NetPack.setMessage, Handler.queryPeerReply, hser, hne, if_false, if_true, Option.getD_some,
    Wire.Proto.parseFromString_encode, hinit, Option.map_some, Option.bind_some, TrackerCalls.queryPeerReplyType, hread, hcode]
  split_ifs
  · rfl
  · rfl

/-! ### Handling a request -/

theorem Directory.plain_id (d : Directory) (i : ℕ) : Plain (utf8 (d.id who i)) := by
  unfold Directory.id
  split_ifs
  · exact (who i).plain
  · exact fun c hc => nomatch hc

/-- The handler of a connection. -/
def Directory.handlerOf (d : Directory) (i : ℕ) : Tracker.Handler := ⟨utf8 (d.id who i), utf8 (who i).host⟩

/-- What handling a request comes to. -/
structure HandlesAs (d : Directory) (i : ℕ) (call : CallTo) (r : Tracker.Handler × Database × NetPack) (served : Served)
    (d' : Directory) : Prop where
  serve : Directory.Serve who d i call served d'
  represents : Represents r.2.1 d'.registry
  handler : r.1 = d'.handlerOf who i
  others : ∀ j, j ≠ i → d'.id who j = d.id who j
  reads : Reads (who i) call r.2.2 served

section Handle

variable {who} {d : Directory} {i : ℕ} {db : Database} {io : Io} {pack : NetPack}

theorem handlesAs_login (h : Represents db d.registry) (hmy : io.my.fails = false)
    (htype : pack.payloadType = payloadLogin)
    (hmessage : Tracker.message pool pack = some (CallTo.loginTracker.request (who i))) :
    HandlesAs who d i .loginTracker (Handler.process pool io (d.handlerOf who i) db pack .new) Directory.confirmed
      ⟨d.registry.login (who i).clientid (who i).host (who i).localPort, Function.update d.loggedIn i true⟩ := by
  have hadd := h.login hmy io.now (who i).clientid (who i).host (who i).localPort
  have hok := (addOnlineUser_ok io.my io.now db ⟨utf8 (who i).clientid, utf8 (who i).host, (who i).localPort⟩).mpr hmy
  rcases hadded : addOnlineUser io.my io.now db ⟨utf8 (who i).clientid, utf8 (who i).host, (who i).localPort⟩ with ⟨ret, db'⟩
  rw [hadded] at hadd hok
  have hprocess : Handler.process pool io (d.handlerOf who i) db pack .new =
      (⟨utf8 (who i).clientid, utf8 (who i).host⟩, db',
        NetPack.new.setMessage payloadMessageReply (Handler.messageReply ⟨some Retcode.errorOk.value, none⟩)) := by
    have hpeer : payloadLogin ≠ payloadRequestPeer := by decide
    simp [Handler.process, hmessage, CallTo.request, Handler.dispatch, htype, Handler.handleLogin, Login.messageport,
      Directory.handlerOf, hadded, show ret = .ok .errorOk from hok, hpeer]
  rw [hprocess]
  refine ⟨.login, hadd, ?_, fun j hj => ?_, reads_messageReply _ (by simp) _ _⟩
  · simp [Directory.handlerOf, Directory.id]
  · simp [Directory.id, hj]

theorem handles_logout (h : Represents db d.registry) (hmy : io.my.fails = false)
    (htype : pack.payloadType = payloadLogout)
    (hmessage : Tracker.message pool pack = some (CallTo.logoutTracker.request (who i))) :
    ∃ served d', HandlesAs who d i .logoutTracker (Handler.process pool io (d.handlerOf who i) db pack .new) served d' := by
  have hlogin : payloadLogout ≠ payloadLogin := by decide
  have hpeer : payloadLogout ≠ payloadRequestPeer := by decide
  by_cases hin : d.loggedIn i = true
  · have hid : d.id who i = (who i).clientid := by simp [Directory.id, hin]
    have hrepresents := h.logout hmy (who i).clientid
    have hremove := removeOnlineUser_of_not_fails hmy db (utf8 (who i).clientid)
    have hprocess : Handler.process pool io (d.handlerOf who i) db pack .new =
        (d.handlerOf who i, (removeOnlineUser io.my db (utf8 (who i).clientid)).2,
          NetPack.new.setMessage payloadMessageReply (Handler.messageReply ⟨some Retcode.errorOk.value, none⟩)) := by
      simp only [Handler.process, hmessage, CallTo.request, Handler.dispatch, htype, hlogin, hpeer, if_false, if_true, ne_eq,
        Handler.handleLogOut, Directory.handlerOf, hid, not_true_eq_false, not_false_eq_true]
      rw [hremove]
      rfl
    rw [hprocess]
    exact ⟨_, _, .logout hin, hrepresents, rfl, fun _ _ => rfl, reads_messageReply _ (by simp) _ _⟩
  · have hid : d.id who i = "" := by simp [Directory.id, hin]
    have hne : utf8 (who i).clientid ≠ utf8 "" := fun heq => (who i).clientid_ne (utf8_injective heq)
    have hprocess : Handler.process pool io (d.handlerOf who i) db pack .new =
        (d.handlerOf who i, db,
          NetPack.new.setMessage payloadMessageReply (Handler.messageReply ⟨some Retcode.errorUnknown.value, none⟩)) := by
      simp only [Handler.process, hmessage, CallTo.request, Handler.dispatch, htype, hlogin, hpeer, if_false, if_true, ne_eq,
        Handler.handleLogOut, Directory.handlerOf, hid, hne, not_false_eq_true]
    rw [hprocess]
    exact ⟨_, _, .logoutRefused hin, h, rfl, fun _ _ => rfl, reads_messageReply _ (by simp) _ _⟩

theorem handles_publishResource (h : Represents db d.registry) (hmy : io.my.fails = false) (fileid : String)
    (htype : pack.payloadType = payloadPublishResource)
    (hmessage : Tracker.message pool pack = some ((CallTo.publishResourceToTracker fileid).request (who i))) :
    ∃ served d', HandlesAs who d i (.publishResourceToTracker fileid)
      (Handler.process pool io (d.handlerOf who i) db pack .new) served d' := by
  have htypes : payloadPublishResource ≠ payloadLogin ∧ payloadPublishResource ≠ payloadLogout ∧
      payloadPublishResource ≠ payloadRequestPeer ∧ payloadPublishResource ≠ payloadReportProgress := by decide
  obtain ⟨hlogin, hlogout, hpeer, hreport⟩ := htypes
  have hprocess : Handler.process pool io (d.handlerOf who i) db pack .new =
      (d.handlerOf who i, (Tracker.publishResource io.my db (utf8 (who i).clientid) (utf8 fileid)).2,
        NetPack.new.setMessage payloadMessageReply (Handler.messageReply
          ⟨some (if (Tracker.publishResource io.my db (utf8 (who i).clientid) (utf8 fileid)).1 = .ok .errorOk then
            Retcode.errorOk.value else Retcode.errorUnknown.value), none⟩)) := by
    simp only [Handler.process, hmessage, CallTo.request, Handler.dispatch, htype, hlogin, hlogout, hpeer, hreport, if_false,
      if_true, ne_eq, Handler.handlePublishResource, not_false_eq_true]
    rcases Tracker.publishResource io.my db (utf8 (who i).clientid) (utf8 fileid) with ⟨e | ret, db'⟩
    · simp
    · by_cases hret : ret = .errorOk <;> simp [hret]
  rw [hprocess]
  rcases h.publishResource hmy (who i).clientid fileid with ⟨hnew, hok, hrepresents⟩ | ⟨hthere, hrefused⟩
  · rw [if_pos hok]
    exact ⟨_, _, .publish fileid hnew, hrepresents, rfl, fun _ _ => rfl, reads_messageReply _ (by simp) _ _⟩
  · simp only [hrefused, reduceCtorEq, if_false]
    exact ⟨_, _, .publishRefused fileid hthere, h, rfl, fun _ _ => rfl, reads_messageReply _ (by simp) _ _⟩

theorem handles_reportProgress (h : Represents db d.registry) (hmy : io.my.fails = false) {fileid : String}
    (hplain : Plain (utf8 fileid)) (percentage : Int32) (htype : pack.payloadType = payloadReportProgress)
    (hmessage : Tracker.message pool pack = some ((CallTo.reportProgress fileid percentage).request (who i))) :
    ∃ served d', HandlesAs who d i (.reportProgress fileid percentage)
      (Handler.process pool io (d.handlerOf who i) db pack .new) served d' := by
  have htypes : payloadReportProgress ≠ payloadLogin ∧ payloadReportProgress ≠ payloadLogout ∧
      payloadReportProgress ≠ payloadRequestPeer := by decide
  obtain ⟨hlogin, hlogout, hpeer⟩ := htypes
  obtain ⟨hok, hrepresents⟩ := h.reportProgress hmy (who i).plain hplain percentage
  rcases hreported : Tracker.reportProgress io.my db (utf8 (who i).clientid) (utf8 fileid) percentage with ⟨ret, db'⟩
  rw [hreported] at hok hrepresents
  obtain rfl : ret = .ok .errorOk := hok
  have hprocess : Handler.process pool io (d.handlerOf who i) db pack .new =
      (d.handlerOf who i, db',
        NetPack.new.setMessage payloadMessageReply (Handler.messageReply ⟨some Retcode.errorOk.value, none⟩)) := by
    simp [Handler.process, hmessage, CallTo.request, Handler.dispatch, htype, hlogin, hlogout, hpeer,
      Handler.handleReportProgress, hreported]
  rw [hprocess]
  exact ⟨_, _, .report fileid percentage, hrepresents, rfl, fun _ _ => rfl, reads_messageReply _ (by simp) _ _⟩

/-- The reply to the call can be written. -/
def Fits (io : Io) (h : Tracker.Handler) (db : Database) (request : ParsedMessage) : Prop :=
  (QueryPeerReply.proto.encode (h.handleRequestPeer io db request Handler.emptyReply).2).length < 2 ^ 31

theorem handles_requestClients (h : Represents db d.registry) (hmy : io.my.fails = false) {fileid : String}
    {currentPercentage needCount : Int32} {clientids : List String}
    (hplain : (CallTo.requestClients fileid currentPercentage needCount clientids).IsPlain)
    (hasserts : (CallTo.requestClients fileid currentPercentage needCount clientids).asserts)
    (htype : pack.payloadType = payloadRequestPeer)
    (hmessage : Tracker.message pool pack =
      some ((CallTo.requestClients fileid currentPercentage needCount clientids).request (who i)))
    (hfits : Fits io (d.handlerOf who i) db
      ((CallTo.requestClients fileid currentPercentage needCount clientids).request (who i))) :
    ∃ served d', HandlesAs who d i (.requestClients fileid currentPercentage needCount clientids)
      (Handler.process pool io (d.handlerOf who i) db pack .new) served d' := by
  obtain ⟨hp, hneed⟩ := of_decide_eq_true hasserts
  have htypes : payloadRequestPeer ≠ payloadLogin ∧ payloadRequestPeer ≠ payloadLogout := by decide
  obtain ⟨hlogin, hlogout⟩ := htypes
  have hexcluded : clientids.map utf8 ++ [(d.handlerOf who i).clientid] = (clientids ++ [d.id who i]).map utf8 := by
    simp [Directory.handlerOf]
  have hplain' : Plain (utf8 fileid) ∧ ∀ id ∈ clientids ++ [d.id who i], Plain (utf8 id) := by
    refine ⟨hplain.1, fun id hid => ?_⟩
    rcases List.mem_append.mp hid with hid | hid
    · exact hplain.2 id hid
    · rw [List.mem_singleton.mp hid]
      exact d.plain_id who i
  -- what the search returns, and the reply with it
  obtain ⟨ret, peers, hsearch, hserve⟩ : ∃ ret peers,
      Tracker.requestClients io.my db (utf8 fileid) currentPercentage needCount
        (clientids.map utf8 ++ [(d.handlerOf who i).clientid]) =
          .ok (ret, entries (utf8 fileid) (peers.map Represents.rowOf)) ∧
        Directory.Serve who d i (.requestClients fileid currentPercentage needCount clientids)
          (.peers (.ok .errorOk,
            some (if ret ≠ .errorOk then ⟨Retcode.errorUnknown.value, []⟩ else ⟨Retcode.errorOk.value, peers⟩))) d := by
    rw [hexcluded]
    by_cases hbad : fileid = "" ∨ currentPercentage > 100
    · have hguard : utf8 fileid = [] ∨ currentPercentage < 0 ∨ currentPercentage > 100 ∨ needCount < 0 := by
        rcases hbad with rfl | hbad
        · exact .inl rfl
        · exact .inr (.inr (.inl hbad))
      refine ⟨.errorUnknown, [], by rw [Tracker.requestClients, if_pos hguard]; rfl, ?_⟩
      rw [if_pos (by decide)]
      exact .peersRefused _ _ _ _ hbad
    · rw [not_or] at hbad
      obtain ⟨peers, hsearch, hfinds⟩ :=
        h.finds hmy hbad.1 hp (Int32.not_lt.mp hbad.2) (Int32.le_of_lt hneed) hplain'
      refine ⟨.errorOk, peers, hsearch, ?_⟩
      rw [if_neg (not_not.mpr rfl)]
      exact .peers _ _ _ _ _ hbad.1 (Int32.not_lt.mp hbad.2) hfinds
  have hreply := @Handler.handleRequestPeer_eq io (d.handlerOf who i) db
    ⟨utf8 fileid, currentPercentage, some needCount, clientids.map utf8⟩ ret _ hsearch
  have hprocess : Handler.process pool io (d.handlerOf who i) db pack .new =
      (d.handlerOf who i, db, NetPack.new.setMessage payloadRequestPeerReplay (Handler.queryPeerReply
        (Handler.filledReply (utf8 fileid) ret (entries (utf8 fileid) (peers.map Represents.rowOf))))) := by
    simp only [Handler.process, hmessage, CallTo.request, Handler.dispatch, htype, hlogin, hlogout, if_false, if_true, ne_eq,
      not_true_eq_false]
    rw [← hreply]
    rfl
  rw [hprocess]
  refine ⟨_, _, hserve, h, rfl, fun _ _ => rfl, reads_filledReply _ _ _ _ _ _ _ _ ?_⟩
  rw [← hreply]
  exact hfits

/-- **Handling a request is serving the call.** -/
theorem handle_serves (h : Represents db d.registry) (hmy : io.my.fails = false) {call : CallTo} (hplain : call.IsPlain)
    (hasserts : call.asserts) (htype : pack.payloadType = (call.request (who i)).payloadType)
    (hmessage : Tracker.message pool pack = some (call.request (who i)))
    (hfits : Fits io (d.handlerOf who i) db (call.request (who i))) :
    ∃ served d', HandlesAs who d i call (Handler.process pool io (d.handlerOf who i) db pack .new) served d' := by
  cases call with
  | loginTracker => exact ⟨_, _, handlesAs_login h hmy htype hmessage⟩
  | logoutTracker => exact handles_logout h hmy htype hmessage
  | publishResourceToTracker fileid => exact handles_publishResource h hmy fileid htype hmessage
  | reportProgress fileid percentage => exact handles_reportProgress h hmy hplain percentage htype hmessage
  | requestClients fileid currentPercentage needCount clientids =>
    exact handles_requestClients h hmy hplain hasserts htype hmessage hfits

end Handle

/-! ### Runs -/

/-- What a step needs to go well. -/
def Calm (s : TrackerService) : Action → Prop
  | .call i call => call.IsPlain ∧ (call.request (who i)).serializeRequest ≠ none
  | .handle i io _ arrivals => io.my.fails = false ∧ ∀ call pack, s.phase i = .sent call pack →
      pack.Whole .wire arrivals ∧ Fits io (s.handler i) s.db (call.request (who i))
  | .answer i _ arrivals => ∀ call pack, s.phase i = .replied call pack → pack.Whole .wire arrivals
  | .shutdown _ => True
  | .giveUp _ my => my.fails = false

instance (call : CallTo) : Decidable call.IsPlain :=
  match call with
  | .reportProgress fileid _ => inferInstanceAs (Decidable (Plain (utf8 fileid)))
  | .requestClients fileid _ _ clientids =>
    inferInstanceAs (Decidable (Plain (utf8 fileid) ∧ ∀ id ∈ clientids, Plain (utf8 id)))
  | .loginTracker | .logoutTracker | .publishResourceToTracker _ => isTrue trivial

instance (pack : NetPack) (arrivals : ℕ → Arrival Exception) : Decidable (pack.Whole .wire arrivals) :=
  inferInstanceAs (Decidable (_ ∧ _))

instance (s : TrackerService) (a : Action) : Decidable (Calm who s a) :=
  match a with
  | .call i call => inferInstanceAs (Decidable (call.IsPlain ∧ (call.request (who i)).serializeRequest ≠ none))
  | .handle i io _ arrivals =>
    match hs : s.phase i with
    | .sent call pack =>
      decidable_of_iff (io.my.fails = false ∧ pack.Whole .wire arrivals ∧
        (QueryPeerReply.proto.encode ((s.handler i).handleRequestPeer io s.db (call.request (who i)) Handler.emptyReply).2).length <
          2 ^ 31) (by simp [Calm, hs, Fits])
    | .idle | .replied .. | .closed => decidable_of_iff (io.my.fails = false) (by simp [Calm, hs])
  | .answer i _ arrivals =>
    match hs : s.phase i with
    | .replied call pack => decidable_of_iff (pack.Whole .wire arrivals) (by simp [Calm, hs])
    | .idle | .sent .. | .closed => isTrue (by simp [Calm, hs])
  | .shutdown _ => isTrue trivial
  | .giveUp _ my => inferInstanceAs (Decidable (my.fails = false))

/-- How far a call has come, on the wire and as it should be. -/
inductive PhaseRefines (c : TrackerClient) : ServicePhase → CallPhase CallTo Served → Prop where
  | idle : PhaseRefines c .idle .idle
  | sent (call : CallTo) (hplain : call.IsPlain) (hasserts : call.asserts)
    (hwritten : (call.request c).serializeRequest ≠ none) :
    PhaseRefines c (.sent call (call.request c).pack) (.called call)
  | replied (call : CallTo) (pack : NetPack) (served : Served) (h : Reads c call pack served) :
    PhaseRefines c (.replied call pack) (.served call served)
  | closed : PhaseRefines c .closed .gone

/-- What happens at the shared directory when a step is taken: a request is served when it is handled. -/
inductive Action.Is : Action → Event ℕ CallTo Served → Prop where
  | call (i : ℕ) (call : CallTo) : Is (.call i call) (.call i call)
  | handle (i : ℕ) (io : Io) (junk : Int32) (arrivals : ℕ → Arrival Exception) (call : CallTo) (served : Served) :
    Is (.handle i io junk arrivals) (.serve i call served)
  | answer (i : ℕ) (junk : Int32) (arrivals : ℕ → Arrival Exception) (call : CallTo) (served : Served) :
    Is (.answer i junk arrivals) (.answer i call served)
  | shutdown (i : ℕ) : Is (.shutdown i) (.drop i)
  | giveUp (i : ℕ) (my : MySQL) : Is (.giveUp i my) (.drop i)

/-- The system is in a state of the shared directory. -/
structure Refines (s : TrackerService) (t : SharedObject Directory ℕ CallTo Served) : Prop where
  represents : Represents s.db t.object.registry
  handler : ∀ i, s.phase i ≠ .closed → s.handler i = t.object.handlerOf who i
  phase : ∀ i, PhaseRefines (who i) (s.phase i) (t.phase i)
  returned : s.returned = t.returned

section Runs

variable {who} {s s' : TrackerService} {t : SharedObject Directory ℕ CallTo Served}

theorem refines_start {db : Database} {r : Registry} (h : Represents db r) :
    Refines who (start who db) (.start ⟨r, fun _ => false⟩) where
  represents := h
  handler _ _ := rfl
  phase _ := .idle
  returned := rfl

/-- Only the phase of one connection changes. -/
theorem Refines.update_phase (h : Refines who s t) (i : ℕ) {ph : ServicePhase} {ph' : CallPhase CallTo Served}
    (hph : PhaseRefines (who i) ph ph') (hopen : s.phase i ≠ .closed ∨ ph = .closed) :
    Refines who { s with phase := Function.update s.phase i ph } { t with phase := Function.update t.phase i ph' } where
  represents := h.represents
  handler j hj := by
    by_cases hi : j = i
    · subst hi
      rcases hopen with hopen | rfl
      · exact h.handler j hopen
      · exact absurd (Function.update_self ..) hj
    · exact h.handler j (by simpa [hi] using hj)
  phase j := by
    by_cases hi : j = i
    · subst hi
      simpa using hph
    · simpa [hi] using h.phase j
  returned := h.returned

theorem Refines.call (h : Refines who s t) {i : ℕ} {call : CallTo} (hcalm : Calm who s (.call i call))
    (hstep : step who s (.call i call) = some s') :
    ∃ t', SharedObject.Step (Directory.spec who) t (.call i call) t' ∧ Refines who s' t' := by
  have hphase := h.phase i
  simp only [step] at hstep
  cases hs : s.phase i with
  | idle =>
    rw [hs] at hstep hphase
    simp only at hstep
    split_ifs at hstep with hasserts
    obtain rfl := Option.some.inj hstep
    cases ht : t.phase i with
    | idle =>
      have hnext : (t.phase i).Next (.call i call) (.called call) := ht ▸ .call i call
      have hupdated := h.update_phase i (.sent call hcalm.1 hasserts hcalm.2) (.inl (by simp [hs]))
      refine ⟨_, ⟨.call i call, hnext⟩, hupdated.represents, hupdated.handler, hupdated.phase, ?_⟩
      exact h.returned.trans (List.append_nil _).symm
    | called | served | gone =>
      rw [ht] at hphase
      cases hphase
  | sent | replied | closed => simp [hs] at hstep

theorem Refines.answer (h : Refines who s t) {i : ℕ} {junk : Int32} {arrivals : ℕ → Arrival Exception}
    (hcalm : Calm who s (.answer i junk arrivals)) (hstep : step who s (.answer i junk arrivals) = some s') :
    ∃ call served t', SharedObject.Step (Directory.spec who) t (.answer i call served) t' ∧ Refines who s' t' := by
  have hphase := h.phase i
  simp only [step] at hstep
  cases hs : s.phase i with
  | replied call pack =>
    rw [hs] at hstep hphase
    obtain rfl := Option.some.inj hstep
    generalize ht : t.phase i = ph at hphase
    cases hphase with
    | replied _ _ served hreads =>
      have hread := hreads junk arrivals (hcalm call pack hs)
      have hupdated := h.update_phase i .idle (.inl (by simp [hs]))
      have hnext : (t.phase i).Next (.answer i call served) .idle := ht ▸ .answer i call served
      refine ⟨call, served, _, ⟨.answer i call served, hnext⟩, hupdated.represents, hupdated.handler, hupdated.phase, ?_⟩
      simp [h.returned, hread]
  | idle | sent | closed => simp [hs] at hstep

/-- A connection that is open has a caller that has not been dropped. -/
theorem Refines.next_drop (h : Refines who s t) {i : ℕ} (hopen : s.phase i ≠ .closed) :
    (t.phase i).Next (Event.drop i) .gone := by
  refine .drop i fun hgone => hopen ?_
  have hphase := h.phase i
  rw [hgone] at hphase
  generalize s.phase i = ph at hphase ⊢
  cases hphase
  rfl

theorem Refines.shutdown (h : Refines who s t) {i : ℕ} (hstep : step who s (.shutdown i) = some s') :
    ∃ t', SharedObject.Step (Directory.spec who) t (.drop i) t' ∧ Refines who s' t' := by
  simp only [step, Tracker.Handler.onShutdown] at hstep
  cases hs : s.phase i with
  | idle | sent | replied =>
    rw [hs] at hstep
    obtain rfl := Option.some.inj hstep
    have hopen : s.phase i ≠ .closed := by simp [hs]
    have hupdated := h.update_phase i .closed (.inr rfl)
    refine ⟨_, ⟨.drop .unnoticed, h.next_drop hopen⟩, hupdated.represents, hupdated.handler, hupdated.phase, ?_⟩
    exact h.returned.trans (List.append_nil _).symm
  | closed => simp [hs] at hstep

theorem Refines.giveUp (h : Refines who s t) {i : ℕ} {my : MySQL} (hcalm : Calm who s (.giveUp i my))
    (hstep : step who s (.giveUp i my) = some s') :
    ∃ t', SharedObject.Step (Directory.spec who) t (.drop i) t' ∧ Refines who s' t' := by
  have hgone : ∀ {handler : Tracker.Handler}, handler = t.object.handlerOf who i →
      (handler.giveUp my s.db).2.2 = (removeOnlineUser my s.db (utf8 (t.object.id who i))).2 := by
    rintro handler rfl
    rw [Tracker.Handler.giveUp, show (t.object.handlerOf who i).clientid = utf8 (t.object.id who i) from rfl,
      removeOnlineUser_of_not_fails hcalm]
  simp only [step] at hstep
  cases hs : s.phase i with
  | idle | sent | replied =>
    rw [hs] at hstep
    obtain rfl := Option.some.inj hstep
    have hopen : s.phase i ≠ .closed := by simp [hs]
    have hupdated := h.update_phase i .closed (.inr rfl)
    refine ⟨_, ⟨.drop .noticed, h.next_drop hopen⟩, ?_, hupdated.handler, hupdated.phase,
      h.returned.trans (List.append_nil _).symm⟩
    rw [show (_ : TrackerService).db = _ from hgone (h.handler i hopen)]
    exact h.represents.logout hcalm _
  | closed => simp [hs] at hstep

/-- What becomes of a request that arrives. -/
theorem step_handle {i : ℕ} {io : Io} {junk : Int32} {arrivals : ℕ → Arrival Exception} {call : CallTo}
    (hs : s.phase i = .sent call (call.request (who i)).pack)
    (hwritten : (call.request (who i)).serializeRequest ≠ none)
    (hwhole : (call.request (who i)).pack.Whole .wire arrivals) :
    ∃ pack, pack.payloadType = (call.request (who i)).payloadType ∧
      Tracker.message pool pack = some (call.request (who i)) ∧
      step who s (.handle i io junk arrivals) =
        let r := (s.handler i).process pool io s.db pack .new
        some { s with
          db := r.2.1
          handler := Function.update s.handler i r.1
          phase := Function.update s.phase i (.replied call r.2.2) } := by
  obtain ⟨pack, hreceive, htype, hmessage⟩ := @request_received _ hwritten [] _ hwhole junk NetPack.new
  rw [List.append_nil] at hreceive
  refine ⟨pack, htype, hmessage, ?_⟩
  simp only [step, hs, hreceive, Tracker.Handler.onReadable, ne_eq, not_true_eq_false, if_false]

theorem Refines.handle (h : Refines who s t) {i : ℕ} {io : Io} {junk : Int32} {arrivals : ℕ → Arrival Exception}
    (hcalm : Calm who s (.handle i io junk arrivals)) (hstep : step who s (.handle i io junk arrivals) = some s') :
    ∃ call served t', SharedObject.Step (Directory.spec who) t (.serve i call served) t' ∧ Refines who s' t' := by
  have hphase := h.phase i
  cases hs : s.phase i with
  | sent call pack =>
    rw [hs] at hphase
    generalize ht : t.phase i = ph at hphase
    cases hphase with
    | sent _ hplain hasserts hwritten =>
      obtain ⟨hwhole, hfits⟩ := hcalm.2 _ _ hs
      have hhandler := h.handler i (by simp [hs])
      rw [hhandler] at hfits
      obtain ⟨pack, htype, hmessage, hhandled⟩ := @step_handle who s i io junk arrivals call hs hwritten hwhole
      obtain ⟨served, d', hserves⟩ := handle_serves h.represents hcalm.1 hplain hasserts htype hmessage hfits
      rw [hhandled, hhandler] at hstep
      obtain rfl := Option.some.inj hstep
      have hnext : (t.phase i).Next (.serve i call served) (.served call served) := ht ▸ .serve i call served
      refine ⟨call, served, _, ⟨.serve hserves.serve, hnext⟩, hserves.represents, fun j hj => ?_, fun j => ?_,
        h.returned.trans (List.append_nil _).symm⟩
      · by_cases hi : j = i
        · subst hi
          simpa using hserves.handler
        · have hopen : s.phase j ≠ .closed := by simpa [hi] using hj
          simpa [hi, Directory.handlerOf, hserves.others j hi] using h.handler j hopen
      · by_cases hi : j = i
        · subst hi
          simpa using PhaseRefines.replied call _ served hserves.reads
        · simpa [hi] using h.phase j
  | idle | replied | closed => simp [step, hs] at hstep

/-- **Each step is a step of the shared directory.** -/
theorem Refines.step (h : Refines who s t) {a : Action} (hcalm : Calm who s a) (hstep : TrackerService.step who s a = some s') :
    ∃ e t', a.Is e ∧ SharedObject.Step (Directory.spec who) t e t' ∧ Refines who s' t' := by
  cases a with
  | call i call =>
    obtain ⟨t', ht, hrefines⟩ := h.call hcalm hstep
    exact ⟨_, t', .call i call, ht, hrefines⟩
  | handle i io junk arrivals =>
    obtain ⟨call, served, t', ht, hrefines⟩ := h.handle hcalm hstep
    exact ⟨_, t', .handle i io junk arrivals call served, ht, hrefines⟩
  | answer i junk arrivals =>
    obtain ⟨call, served, t', ht, hrefines⟩ := h.answer hcalm hstep
    exact ⟨_, t', .answer i junk arrivals call served, ht, hrefines⟩
  | shutdown i =>
    obtain ⟨t', ht, hrefines⟩ := h.shutdown hstep
    exact ⟨_, t', .shutdown i, ht, hrefines⟩
  | giveUp i my =>
    obtain ⟨t', ht, hrefines⟩ := h.giveUp hcalm hstep
    exact ⟨_, t', .giveUp i my, ht, hrefines⟩

end Runs

/-- What has happened at the tracker in a run, from a registry: each step is an event, and the effects of the events on
the directory, one after another, have led to what the tables hold. On each connection calls are made, served and answered in
turn, and how far the last one has come is how far the connection has. What has been returned are the answers. -/
structure ServedInOrder (r : Registry) (as : List Action) (s : TrackerService) (history : List (Event ℕ CallTo Served)) :
    Prop where
  events : List.Forall₂ Action.Is as history
  effects : ∃ d, Steps (Directory.spec who).Effect ⟨r, fun _ => false⟩ history d ∧ Represents s.db d.registry
  rounds : ∀ i, ∃ ph, Steps CallPhase.Next .idle (SharedObject.of i history) ph ∧ PhaseRefines (who i) (s.phase i) ph
  returned : s.returned = history.flatMap Event.returned

variable {who}

/-- What has happened in a run. -/
theorem exists_servedInOrder {db : Database} {r : Registry} (hdb : Represents db r) {as : List Action} {s : TrackerService}
    (hs : exec (step who) (start who db) as = some s) (hcalm : Always (step who) (Calm who) (start who db) as) :
    ∃ history, ServedInOrder who r as s history := by
  obtain ⟨history, t, hevents, hsteps, hst⟩ :=
    exec_simulates (fun h hc hstep => h.step hc hstep) hs hcalm (refines_start hdb)
  have hlin := SharedObject.linearized_of_steps hsteps
  exact ⟨history, hevents, ⟨_, hlin.effects, hst.represents⟩, fun i => ⟨_, hlin.rounds i, hst.phase i⟩,
    hst.returned.trans hlin.returned⟩

/-- **Calls to the tracker are linearizable.** Whatever the order in which requests are sent, handled and
answered, and connections end, on any number of connections, the calls have taken effect one after another, in the order
of time: each between the sending of its request and its return. -/
theorem calls_linearizable {db : Database} {r : Registry} (hdb : Represents db r) {as : List Action} {s : TrackerService}
    (hs : exec (step who) (start who db) as = some s) (hcalm : Always (step who) (Calm who) (start who db) as) :
    ∃ history, ServedInOrder who r as s history ∧ SharedObject.InTime history := by
  obtain ⟨history, hordered⟩ := exists_servedInOrder hdb hs hcalm
  choose phase hrounds using hordered.rounds
  exact ⟨history, hordered, SharedObject.inTime_of_rounds fun i => (hrounds i).1⟩

/-! ### What a client is said to have -/

/-- What publishing and reporting a file do to how much of it the client has. -/
def has (fileid : String) (percentage : Option Int32) (op : ℕ × CallTo × Served) : Option Int32 :=
  match op.2.1 with
  | .publishResourceToTracker fileid' => if fileid' = fileid then some (percentage.getD 100) else percentage
  | .reportProgress fileid' percentage' => if fileid' = fileid then some percentage' else percentage
  | _ => percentage

/-- The calls of a client, on any connection, that have been served. -/
def own (who : ℕ → TrackerClient) (id : String) (history : List (Event ℕ CallTo Served)) : List (ℕ × CallTo × Served) :=
  (history.flatMap Event.served).filter fun op => decide ((who op.1).clientid = id)

theorem Directory.Serve.owners {d d' : Directory} {i : ℕ} {call : CallTo} {served : Served}
    (h : Directory.Serve who d i call served d') (fileid id : String) :
    d'.registry.owners fileid id =
      if (who i).clientid = id then has fileid (d.registry.owners fileid id) (i, call, served)
      else d.registry.owners fileid id := by
  have hset : ∀ (r : Registry) (fileid' : String) (percentage : Int32),
      (r.setPercentage fileid' (who i).clientid percentage).owners fileid id =
        if (who i).clientid = id then (if fileid' = fileid then some percentage else r.owners fileid id)
        else r.owners fileid id := by
    intro r fileid' percentage
    simp only [Registry.setPercentage, Function.update_apply]
    by_cases hfile : fileid' = fileid
    · subst hfile
      by_cases hid : (who i).clientid = id
      · simp [hid]
      · simp [hid, Ne.symm hid]
    · simp [hfile, Ne.symm hfile]
  cases h with
  | publish fileid' hfree =>
    rw [hset]
    by_cases hid : (who i).clientid = id
    · by_cases hfile : fileid' = fileid
      · subst hid hfile
        simp [has, hfree]
      · simp [has, hid, hfile]
    · simp [hid]
  | publishRefused fileid' hthere =>
    by_cases hid : (who i).clientid = id
    · by_cases hfile : fileid' = fileid
      · subst hid hfile
        obtain ⟨percentage, howner⟩ := Option.ne_none_iff_exists'.mp hthere
        simp [has, howner]
      · simp [has, hid, hfile]
    · simp [hid]
  | report fileid' percentage =>
    rw [hset]
    rfl
  | login | logout | logoutRefused | peers | peersRefused => simp [has, Registry.login, Registry.logout]

/-- The percentage of a client is what its own calls have made it. -/
theorem owners_of_effects {d d' : Directory} {history : List (Event ℕ CallTo Served)}
    (h : Steps (Directory.spec who).Effect d history d') (fileid id : String) :
    d'.registry.owners fileid id = (own who id history).foldl (has fileid) (d.registry.owners fileid id) := by
  refine h.invariant (I := fun history d' => d'.registry.owners fileid id =
    (own who id history).foldl (has fileid) (d.registry.owners fileid id)) ?_ rfl
  intro history d₁ e d₂ ih heffect
  rw [own, List.flatMap_append, List.filter_append, List.foldl_append, ← own, ← ih]
  cases heffect with
  | call | answer => rfl
  | @serve i call served _ hserve =>
    rw [Directory.Serve.owners hserve]
    by_cases hid : (who i).clientid = id <;> simp [Event.served, hid]
  | drop hdrop =>
    cases hdrop with
    | unnoticed | noticed => rfl

/-- **Nobody else decides how much of a file a client has.** In every run the percentage in `FILEOWNERINFO` is the one that
the client's own calls have made it, in the order in which they have been served, each after it was made: that of its last
report, or 100 if it has only published. -/
theorem percentage_of_own_requests {db : Database} {r : Registry} (hdb : Represents db r) {as : List Action}
    {s : TrackerService} (hs : exec (step who) (start who db) as = some s)
    (hcalm : Always (step who) (Calm who) (start who db) as) :
    ∃ history, ServedInOrder who r as s history ∧ SharedObject.InTime history ∧ ∀ fileid id,
      (s.db.fileOwnerInfo.find? (utf8 fileid, utf8 id)).map FileOwnerInfoRow.percentage =
        (own who id history).foldl (has fileid) (r.owners fileid id) := by
  obtain ⟨history, hordered⟩ := exists_servedInOrder hdb hs hcalm
  choose phase hrounds using hordered.rounds
  refine ⟨history, hordered, SharedObject.inTime_of_rounds fun i => (hrounds i).1, fun fileid id => ?_⟩
  obtain ⟨d, heffects, hrepresents⟩ := hordered.effects
  rw [← hrepresents.owners, owners_of_effects heffects]

/-! ### What a step can do -/

section Steps

variable {s s' : TrackerService} {t t' : SharedObject Directory ℕ CallTo Served}

/-- A request that is on its way was so before, or has just been sent. -/
theorem sent_of_step {a : Action} (h : step who s a = some s') {i : ℕ} {call : CallTo} {pack : NetPack}
    (hs : s'.phase i = .sent call pack) : s.phase i = .sent call pack ∨ a = .call i call := by
  have hupdate : ∀ {j : ℕ} {ph : ServicePhase}, (∀ call pack, ph ≠ .sent call pack) →
      Function.update s.phase j ph i = .sent call pack → s.phase i = .sent call pack := by
    intro j ph hph hi
    by_cases heq : i = j
    · subst heq
      rw [Function.update_self] at hi
      exact absurd hi (hph _ _)
    · rwa [Function.update_of_ne heq] at hi
  cases a with
  | call j call' =>
    rw [step] at h
    split at h
    · split_ifs at h
      obtain rfl := Option.some.inj h
      by_cases heq : i = j
      · subst heq
        have hs : ServicePhase.sent call' _ = .sent call pack := (Function.update_self ..).symm.trans hs
        obtain ⟨rfl, -⟩ := ServicePhase.sent.inj hs
        exact .inr rfl
      · exact .inl ((Function.update_of_ne heq _ _).symm.trans hs)
    · cases h
  | handle j io junk arrivals =>
    rw [step] at h
    split at h
    · dsimp only at h
      split at h
      · obtain rfl := Option.some.inj h
        exact .inl (hupdate (by simp) hs)
      · obtain rfl := Option.some.inj h
        exact .inl (hupdate (by simp) hs)
    · cases h
  | answer j junk arrivals =>
    rw [step] at h
    split at h
    · obtain rfl := Option.some.inj h
      exact .inl (hupdate (by simp) hs)
    · cases h
  | shutdown j =>
    rw [step] at h
    split at h
    · cases h
    · obtain rfl := Option.some.inj h
      exact .inl (hupdate (by simp) hs)
  | giveUp j my =>
    rw [step] at h
    split at h
    · cases h
    · obtain rfl := Option.some.inj h
      exact .inl (hupdate (by simp) hs)

/-- Who has a row in the table, and with which percentage, changes when a request is served, as its sender asks. -/
theorem owners_of_step {e : Event ℕ CallTo Served} (h : SharedObject.Step (Directory.spec who) t e t') (fileid id : String) :
    t'.object.registry.owners fileid id = t.object.registry.owners fileid id ∨
      ∃ i call served, t.phase i = .called call ∧ (who i).clientid = id ∧
        t'.object.registry.owners fileid id = has fileid (t.object.registry.owners fileid id) (i, call, served) := by
  obtain ⟨heffect, hnext⟩ := h
  cases heffect with
  | call | answer => exact .inl rfl
  | @serve i call served _ hserve =>
    have howners := Directory.Serve.owners hserve fileid id
    by_cases hid : (who i).clientid = id
    · rw [if_pos hid] at howners
      have hcalled : t.phase i = .called call := by
        rw [Event.caller] at hnext
        generalize t.phase i = ph at hnext
        cases hnext
        rfl
      exact .inr ⟨i, call, served, hcalled, hid, howners⟩
    · rw [if_neg hid] at howners
      exact .inl howners
  | drop hdrop =>
    cases hdrop with
    | unnoticed | noticed => exact .inl rfl

/-- What has been called is on its way. -/
theorem Refines.sent_of_called (h : Refines who s t) {i : ℕ} {call : CallTo} (ht : t.phase i = .called call) :
    ∃ pack, s.phase i = .sent call pack := by
  have hphase := h.phase i
  rw [ht] at hphase
  generalize s.phase i = ph at hphase ⊢
  cases hphase with
  | sent call hplain hasserts hwritten => exact ⟨_, rfl⟩

end Steps

/-! ### A run -/

/-- Two clients of one host. -/
def twoClients : ℕ → TrackerClient
  | 0 => ⟨"a", 9025, "h", by decide, by decide⟩
  | _ => ⟨"b", 9024, "h", by decide, by decide⟩

/-- Everything arrives at once. -/
def atOnce : ℕ → Arrival Exception := fun _ => .upTo ⟨2 ^ 31, by decide⟩

/-- One client reports its progress while the other one publishes the file. -/
def reportAndPublish : List Action :=
  [.call 0 (.reportProgress "f" 50), .call 1 (.publishResourceToTracker "f"), .handle 1 ⟨.simple, []⟩ 0 atOnce,
    .handle 0 ⟨.simple, []⟩ 0 atOnce]

/-- Both get their answers, and the first one publishes the file, which is refused. -/
def answered : List Action :=
  [.answer 0 0 atOnce, .call 0 (.publishResourceToTracker "f"), .handle 0 ⟨.simple, []⟩ 0 atOnce, .answer 1 0 atOnce]

/-- The state after the first steps of it. -/
def halfway : TrackerService := (exec (step twoClients) (start twoClients ⟨∅, ∅⟩) reportAndPublish).getD (start twoClients ⟨∅, ∅⟩)

/-- The state after all of it. -/
def atEnd : TrackerService := (exec (step twoClients) halfway answered).getD halfway

theorem calls_linearizable_twoClients :
    ∃ history, ServedInOrder twoClients ⟨fun _ => none, fun _ _ => none⟩ (reportAndPublish ++ answered) atEnd history ∧
      SharedObject.InTime history :=
  @calls_linearizable _ _ _ .empty (reportAndPublish ++ answered) _ (by rfl) (by decide)

theorem percentage_of_own_requests_twoClients :
    ∃ history, ServedInOrder twoClients ⟨fun _ => none, fun _ _ => none⟩ reportAndPublish halfway history ∧
      SharedObject.InTime history ∧ ∀ fileid id,
        (halfway.db.fileOwnerInfo.find? (utf8 fileid, utf8 id)).map FileOwnerInfoRow.percentage =
          (own twoClients id history).foldl (has fileid) none :=
  @percentage_of_own_requests _ _ _ .empty reportAndPublish _ (by rfl) (by decide)

end TrackerService

end CoolDown
