import CoolDown.Client.OwnerSearch
import CoolDown.Public.NetPack
import CoolDown.Public.TrackerProto

/-!
# What the calls to a tracker return

`handle_reply_message` sends a request to the tracker, receives a frame, and casts its message to
the class it wants. Four kinds of failure end at one label, where the address of the tracker is
logged and `ret` is returned, which is the code that `sendBy` or `receiveFrom` has last returned.
So a reply that cannot be cast, or that says that the request has failed, is an `ERROR_OK`.
`LoginTracker`, `LogoutTracker`, `PublishResourceToTracker` and `ReportProgress` pass it on.
`RequestClients` looks at the reply as well; but what it logs is taken from the reply before it has
looked whether there is one.

## The model

A socket is its two ends, and what becomes of asking it for the address of its peer. `Link` is what
the calls find: the generated classes, the sockets, the value that a variable of `receiveFrom`
happens to hold, and which messages are logged, since what is in a message is only computed for one
that is. A call is followed up to what it returns. What it leaves on the socket, among others, is
the matter of `TrackerLink`.

## What is proved

* `handleReplyMessage_eq_ok`: when `handle_reply_message` returns `ERROR_OK`.
* `TrackerCall.status_iff`: the four calls return `ERROR_OK` just when the tracker has confirmed
  the request, if and only if no frame is received but one that confirms it.
* `requestClients_right_iff`: when `RequestClients` does what it should.
* `requestClients_eq`: with notices logged it is the `RequestClients` of `OwnerSearch`.
-/

namespace CoolDown

open Library
open OwnerSearch (QueryPeerReply)

/-- A socket to a tracker. -/
structure TrackerSock where
  out : OutSock
  inp : InSock
  /-- What becomes of `peerAddress`. -/
  peerAddress : Except Exception Unit

namespace TrackerCalls

/-- `message MessageReply`, as far as it is read. -/
structure MessageReply where
  returncode : Int32
  deriving DecidableEq

/-- A message that has been parsed from a frame. -/
inductive ParsedReply where
  | messageReply (m : MessageReply)
  | queryPeerReply (m : QueryPeerReply)
  /-- A message of any other class that is linked in. -/
  | other
  deriving DecidableEq

/-- A class that a reply may be cast to: `ReplyMessageType`. -/
structure ReplyMessageType (ρ : Type) where
  cast : ParsedReply → Option ρ
  returncode : ρ → Int32

/-- `MessageReply` as a `ReplyMessageType`. -/
def messageReplyType : ReplyMessageType MessageReply where
  cast
    | .messageReply m => some m
    | .queryPeerReply _ | .other => none
  returncode := MessageReply.returncode

/-- `QueryPeerReply` as a `ReplyMessageType`. -/
def queryPeerReplyType : ReplyMessageType QueryPeerReply where
  cast
    | .queryPeerReply m => some m
    | .messageReply _ | .other => none
  returncode := QueryPeerReply.returncode

/-- What the calls find. -/
structure Link where
  /-- The client's id. -/
  clientid : String
  /-- `LOCAL_PORT`. -/
  localPort : Int32
  header : NetPackHeader.Codec
  /-- `SerializeToString`, of a request. -/
  serialize : TrackerProto.ParsedMessage → Option Bytes
  /-- `NetPack::message`: the message in a payload, by the name of its class. -/
  parse : Bytes → Bytes → Option ParsedReply
  /-- What `headerLength` holds before it is set. -/
  junk : Int32
  sock : Sock → TrackerSock
  /-- Notices are logged. -/
  notice : Bool
  /-- Warnings are logged. -/
  warning : Bool

end TrackerCalls

open TrackerCalls

variable {ρ : Type} (link : Link)

/-! ### `handle_reply_message` -/

/-- The warning at the end of `handle_reply_message`, which has the address of the tracker in it. -/
def TrackerSock.warn (sock : TrackerSock) : Except Exception Unit := if link.warning then sock.peerAddress else .ok ()

/-- `handle_reply_message`: what it returns, and its `out`. -/
def handleReplyMessage (type : ReplyMessageType ρ) (sock : TrackerSock) (msg : Message) (payloadType : Int32) :
    Except Exception Retcode × Option ρ :=
  let req := NetPack.ofMessage payloadType msg
  let err (ret : Retcode) : Except Exception Retcode := (sock.warn link).map fun _ => ret
  match req.sendBy link.header sock.out with
  | (.error e, _) => (.error e, none)
  | (.ok ret, _) =>
    if ret ≠ .errorOk then (err ret, none)
    else
      match req.receiveFrom link.header link.junk sock.inp with
      | (.error e, _, _) => (.error e, none)
      | (.ok ret, req, _) =>
        if ret ≠ .errorOk then (err ret, none)
        else
          match (link.parse req.messageName req.payload).bind type.cast with
          | none => (err ret, none)
          | some reply =>
            -- `ret` is what `receiveFrom` has returned, whatever the reply says
            if type.returncode reply ≠ Retcode.errorOk.value then (err ret, some reply) else (.ok .errorOk, some reply)

/-- The request is sent, and a frame is received for it. -/
def Received (sock : TrackerSock) (msg : Message) (payloadType : Int32) (frame : NetPack) : Prop :=
  ((NetPack.ofMessage payloadType msg).sendBy link.header sock.out).1 = .ok .errorOk ∧
    ∃ inp, (NetPack.ofMessage payloadType msg).receiveFrom link.header link.junk sock.inp = (.ok .errorOk, frame, inp)

/-- The request is not sent, or no frame is received: a code says so. -/
def Failed (sock : TrackerSock) (msg : Message) (payloadType : Int32) : Prop :=
  ∃ ret, ret ≠ .errorOk ∧
    (((NetPack.ofMessage payloadType msg).sendBy link.header sock.out).1 = .ok ret ∨
      ((NetPack.ofMessage payloadType msg).sendBy link.header sock.out).1 = .ok .errorOk ∧
        ((NetPack.ofMessage payloadType msg).receiveFrom link.header link.junk sock.inp).1 = .ok ret)

/-- The frame decodes to a reply of the class. -/
def Decodes (type : ReplyMessageType ρ) (frame : NetPack) (reply : ρ) : Prop :=
  (link.parse frame.messageName frame.payload).bind type.cast = some reply

/-- What `handle_reply_message` comes to. -/
inductive Handled (type : ReplyMessageType ρ) (sock : TrackerSock) (msg : Message) (payloadType : Int32) :
    Except Exception Retcode × Option ρ → Prop where
  /-- Sending or receiving throws. -/
  | threw (e : Exception) (hreceived : ∀ frame, ¬Received link sock msg payloadType frame)
      (hfailed : ¬Failed link sock msg payloadType) : Handled type sock msg payloadType (.error e, none)
  /-- Sending or receiving fails. -/
  | failed (ret : Retcode) (hret : ret ≠ .errorOk) (hreceived : ∀ frame, ¬Received link sock msg payloadType frame)
      (hfailed : Failed link sock msg payloadType) :
      Handled type sock msg payloadType ((sock.warn link).map fun _ => ret, none)
  /-- The frame has no reply of the class. -/
  | wrong (frame : NetPack) (hreceived : Received link sock msg payloadType frame)
      (hdecodes : ∀ reply, ¬Decodes link type frame reply) :
      Handled type sock msg payloadType ((sock.warn link).map fun _ => .errorOk, none)
  /-- The reply says that the request has failed. -/
  | refused (frame : NetPack) (reply : ρ) (hreceived : Received link sock msg payloadType frame)
      (hdecodes : Decodes link type frame reply) (hcode : type.returncode reply ≠ Retcode.errorOk.value) :
      Handled type sock msg payloadType ((sock.warn link).map fun _ => .errorOk, some reply)
  /-- The reply confirms the request. -/
  | confirmed (frame : NetPack) (reply : ρ) (hreceived : Received link sock msg payloadType frame)
      (hdecodes : Decodes link type frame reply) (hcode : type.returncode reply = Retcode.errorOk.value) :
      Handled type sock msg payloadType (.ok .errorOk, some reply)

section HandleReplyMessage

variable {link} {sock : TrackerSock} {msg : Message} {payloadType : Int32} {type : ReplyMessageType ρ}

/-- No two frames are received for one request. -/
theorem Received.unique {frame frame' : NetPack} (h : Received link sock msg payloadType frame)
    (h' : Received link sock msg payloadType frame') : frame = frame' := by
  obtain ⟨-, inp, hframe⟩ := h
  obtain ⟨-, inp', hframe'⟩ := h'
  have heq := hframe.symm.trans hframe'
  simpa using (Prod.mk.inj (Prod.mk.inj heq).2).1

/-- No frame is received when the exchange has failed. -/
theorem Failed.not_received (h : Failed link sock msg payloadType) {frame : NetPack} :
    ¬Received link sock msg payloadType frame := by
  rintro ⟨hsent, inp, hreceived⟩
  obtain ⟨ret, hret, hfailed | ⟨-, hfailed⟩⟩ := h
  · exact hret (by simpa [hsent] using hfailed.symm)
  · exact hret (by simpa [hreceived] using hfailed.symm)

theorem Decodes.unique {frame : NetPack} {reply reply' : ρ} (h : Decodes link type frame reply)
    (h' : Decodes link type frame reply') : reply = reply' :=
  Option.some.inj (h.symm.trans h')

variable (link sock msg payloadType type) in
/-- **A call of `handle_reply_message` is one of these.** -/
theorem handleReplyMessage_handled :
    Handled link type sock msg payloadType (handleReplyMessage link type sock msg payloadType) := by
  rcases hsend : (NetPack.ofMessage payloadType msg).sendBy link.header sock.out with ⟨e | ret, out⟩
  · simp only [handleReplyMessage, hsend]
    refine .threw e ?_ ?_
    · rintro frame ⟨hsent, -⟩
      simp [hsend] at hsent
    · rintro ⟨ret, -, hsent | ⟨hsent, -⟩⟩ <;> simp [hsend] at hsent
  · by_cases hret : ret = .errorOk
    · subst hret
      rcases hreceive : (NetPack.ofMessage payloadType msg).receiveFrom link.header link.junk sock.inp with ⟨e | ret, frame, inp⟩
      · simp only [handleReplyMessage, hsend, hreceive, ne_eq, not_true_eq_false, if_false]
        refine .threw e ?_ ?_
        · rintro frame ⟨-, inp, hframe⟩
          simp [hreceive] at hframe
        · rintro ⟨ret, hne, hsent | ⟨-, hreceived⟩⟩
          · exact hne (by simpa [hsend] using hsent.symm)
          · simp [hreceive] at hreceived
      · by_cases hret : ret = .errorOk
        · subst hret
          have hreceived : Received link sock msg payloadType frame := ⟨by rw [hsend], inp, hreceive⟩
          simp only [handleReplyMessage, hsend, hreceive, ne_eq, not_true_eq_false, if_false]
          cases hreply : (link.parse frame.messageName frame.payload).bind type.cast with
          | none => exact .wrong frame hreceived fun reply (hdecodes : _ = _) => by simp [hreply] at hdecodes
          | some reply =>
            by_cases hcode : type.returncode reply = Retcode.errorOk.value
            · simp only [hcode, not_true_eq_false, if_false]
              exact .confirmed frame reply hreceived hreply hcode
            · simp only [hcode, not_false_eq_true, if_true]
              exact .refused frame reply hreceived hreply hcode
        · simp only [handleReplyMessage, hsend, hreceive, ne_eq, not_true_eq_false, if_false, hret, not_false_eq_true, if_true]
          refine .failed ret hret ?_ ⟨ret, hret, .inr ⟨by rw [hsend], by rw [hreceive]⟩⟩
          rintro frame' ⟨-, inp', hframe⟩
          simp [hreceive, hret] at hframe
    · simp only [handleReplyMessage, hsend, ne_eq, hret, not_false_eq_true, if_true]
      refine .failed ret hret ?_ ⟨ret, hret, .inl (by rw [hsend])⟩
      rintro frame ⟨hsent, -⟩
      simp [hsend, hret] at hsent

/-- `handle_reply_message` returns `ERROR_OK` when a frame is received, unless the warning throws:
whatever the frame is. -/
theorem handleReplyMessage_eq_ok :
    (handleReplyMessage link type sock msg payloadType).1 = .ok .errorOk ↔
      ∃ frame, Received link sock msg payloadType frame ∧
        ((∃ reply, Decodes link type frame reply ∧ type.returncode reply = Retcode.errorOk.value) ∨
          sock.warn link = .ok ()) := by
  have hhandled := handleReplyMessage_handled link sock msg payloadType type
  generalize handleReplyMessage link type sock msg payloadType = r at hhandled
  cases hhandled with
  | threw e hreceived hfailed => simp [hreceived]
  | failed ret hret hreceived hfailed => cases sock.warn link <;> simp [hreceived, hret, Except.map]
  | wrong frame hreceived hdecodes =>
    cases hwarn : sock.warn link with
    | error e =>
      simp only [Except.map, reduceCtorEq, or_false, false_iff]
      rintro ⟨frame', hreceived', reply, hreply, -⟩
      exact hdecodes reply (hreceived.unique hreceived' ▸ hreply)
    | ok u => simpa [Except.map] using ⟨frame, hreceived⟩
  | refused frame reply hreceived hdecodes hcode =>
    cases hwarn : sock.warn link with
    | error e =>
      simp only [Except.map, reduceCtorEq, or_false, false_iff]
      rintro ⟨frame', hreceived', reply', hreply, hcode'⟩
      obtain rfl := hreceived.unique hreceived'
      exact hcode (hdecodes.unique hreply ▸ hcode')
    | ok u => simpa [Except.map] using ⟨frame, hreceived⟩
  | confirmed frame reply hreceived hdecodes hcode =>
    exact iff_of_true rfl ⟨frame, hreceived, .inl ⟨reply, hdecodes, hcode⟩⟩

end HandleReplyMessage

/-! ### The calls that want a confirmation -/

variable (m : LocalSockManager)

/-- `format("%s:%d", tracker_address, port)`. -/
def trackerKey (trackerAddress : String) (port : Int32) : String := trackerAddress ++ ":" ++ toString port

/-- `LoginTracker`, where `conn` is the connection made and `peerAddress` its peer's address. -/
def loginTracker (trackerAddress : String) (port : Int32) (peerAddress : String) (conn : Option Sock) :
    Except Exception Retcode :=
  match m.connectTracker peerAddress conn with
  | (ret, m) =>
    if ret ≠ .errorOk then .ok ret
    else
      match m.getTrackerSock (trackerKey trackerAddress port) with
      | none => .error .assertion
      | some sock =>
        let msg : TrackerProto.Login := ⟨Wire.utf8 link.clientid, none, some link.localPort⟩
        (handleReplyMessage link messageReplyType (link.sock sock)
          ⟨Wire.utf8 "TrackerProto.Login", link.serialize (.login msg)⟩ payloadLogin).1

/-- `LogoutTracker`. -/
def logoutTracker (trackerAddress : String) (port : Int32) : Except Exception Retcode :=
  match m.getTrackerSock (trackerKey trackerAddress port) with
  | none => .ok .errorNetConnect
  | some sock =>
    (handleReplyMessage link messageReplyType (link.sock sock)
      ⟨Wire.utf8 "TrackerProto.Logout", link.serialize (.logout ⟨Wire.utf8 link.clientid⟩)⟩ payloadLogout).1

/-- `PublishResourceToTracker`. -/
def publishResourceToTracker (trackerAddress fileid : String) : Except Exception Retcode :=
  match m.getTrackerSock trackerAddress with
  | none => .ok .errorNetNotConnected
  | some sock =>
    let msg : TrackerProto.PublishResource := ⟨Wire.utf8 link.clientid, Wire.utf8 fileid⟩
    (handleReplyMessage link messageReplyType (link.sock sock)
      ⟨Wire.utf8 "TrackerProto.PublishResource", link.serialize (.publishResource msg)⟩ payloadPublishResource).1

/-- `ReportProgress`. -/
def reportProgress (trackerAddress fileid : String) (percentage : Int32) : Except Exception Retcode :=
  match m.getTrackerSock trackerAddress with
  | none => .ok .errorNetConnect
  | some sock =>
    let msg : TrackerProto.ReportProgress := ⟨Wire.utf8 link.clientid, Wire.utf8 fileid, percentage⟩
    (handleReplyMessage link messageReplyType (link.sock sock)
      ⟨Wire.utf8 "TrackerProto.ReportProgress", link.serialize (.reportProgress msg)⟩ payloadReportProgress).1

/-- A call that wants a confirmation. -/
inductive TrackerCall where
  | login (trackerAddress : String) (port : Int32) (peerAddress : String) (conn : Option Sock)
  | logout (trackerAddress : String) (port : Int32)
  | publishResource (trackerAddress fileid : String)
  | reportProgress (trackerAddress fileid : String) (percentage : Int32)

namespace TrackerCall

/-- What it returns. -/
def result : TrackerCall → Except Exception Retcode
  | login trackerAddress port peerAddress conn => loginTracker link m trackerAddress port peerAddress conn
  | logout trackerAddress port => logoutTracker link m trackerAddress port
  | publishResource trackerAddress fileid => publishResourceToTracker link m trackerAddress fileid
  | reportProgress trackerAddress fileid percentage => CoolDown.reportProgress link m trackerAddress fileid percentage

/-- The socket it uses: a login has connected before. -/
def sock : TrackerCall → Option Sock
  | login trackerAddress port peerAddress conn =>
    if conn.isSome then (m.connectTracker peerAddress conn).2.getTrackerSock (trackerKey trackerAddress port) else none
  | logout trackerAddress port => m.getTrackerSock (trackerKey trackerAddress port)
  | publishResource trackerAddress _ | reportProgress trackerAddress _ _ => m.getTrackerSock trackerAddress

/-- The request it sends. -/
def msg : TrackerCall → Message
  | login _ _ _ _ =>
    ⟨Wire.utf8 "TrackerProto.Login", link.serialize (.login ⟨Wire.utf8 link.clientid, none, some link.localPort⟩)⟩
  | logout _ _ => ⟨Wire.utf8 "TrackerProto.Logout", link.serialize (.logout ⟨Wire.utf8 link.clientid⟩)⟩
  | publishResource _ fileid =>
    ⟨Wire.utf8 "TrackerProto.PublishResource", link.serialize (.publishResource ⟨Wire.utf8 link.clientid, Wire.utf8 fileid⟩)⟩
  | reportProgress _ fileid percentage =>
    ⟨Wire.utf8 "TrackerProto.ReportProgress",
      link.serialize (.reportProgress ⟨Wire.utf8 link.clientid, Wire.utf8 fileid, percentage⟩)⟩

/-- The type of the request. -/
def payloadType : TrackerCall → Int32
  | login _ _ _ _ => payloadLogin
  | logout _ _ => payloadLogout
  | publishResource _ _ => payloadPublishResource
  | reportProgress _ _ _ => payloadReportProgress

/-- The frame has a `MessageReply` with `ERROR_OK`. -/
def Confirms (frame : NetPack) : Prop :=
  ∃ reply, Decodes link messageReplyType frame reply ∧ reply.returncode = Retcode.errorOk.value

/-- The tracker has confirmed the request. -/
def Confirmed (call : TrackerCall) : Prop :=
  ∃ sock, call.sock m = some sock ∧
    ∃ frame, Received link (link.sock sock) (call.msg link) call.payloadType frame ∧ Confirms link frame

/-- No frame is received but one that confirms the request, unless the warning throws. -/
def OnlyConfirmed (call : TrackerCall) : Prop :=
  ∀ sock, call.sock m = some sock →
    ∀ frame, Received link (link.sock sock) (call.msg link) call.payloadType frame →
      Confirms link frame ∨ (link.sock sock).warn link ≠ .ok ()

/-- Without a socket it does not return `ERROR_OK`, and with one it is `handle_reply_message`. -/
theorem result_eq (call : TrackerCall) :
    (call.sock m = none ∧ call.result link m ≠ .ok .errorOk) ∨
      ∃ sock, call.sock m = some sock ∧
        call.result link m =
          (handleReplyMessage link messageReplyType (link.sock sock) (call.msg link) call.payloadType).1 := by
  cases call with
  | login trackerAddress port peerAddress conn =>
    cases conn with
    | none => exact .inl ⟨rfl, by simp [result, loginTracker, LocalSockManager.connectTracker]⟩
    | some s =>
      simp only [sock, result, loginTracker, LocalSockManager.connectTracker, Option.isSome_some, if_true, ne_eq,
        not_true_eq_false, if_false]
      cases LocalSockManager.getTrackerSock _ (trackerKey trackerAddress port) with
      | none => exact .inl ⟨rfl, by simp⟩
      | some s' => exact .inr ⟨s', rfl, rfl⟩
  | logout trackerAddress port =>
    simp only [sock, result, logoutTracker]
    cases m.getTrackerSock (trackerKey trackerAddress port) with
    | none => exact .inl ⟨rfl, by simp⟩
    | some s => exact .inr ⟨s, rfl, rfl⟩
  | publishResource trackerAddress fileid =>
    simp only [sock, result, publishResourceToTracker]
    cases m.getTrackerSock trackerAddress with
    | none => exact .inl ⟨rfl, by simp⟩
    | some s => exact .inr ⟨s, rfl, rfl⟩
  | reportProgress trackerAddress fileid percentage =>
    simp only [sock, result, CoolDown.reportProgress]
    cases m.getTrackerSock trackerAddress with
    | none => exact .inl ⟨rfl, by simp⟩
    | some s => exact .inr ⟨s, rfl, rfl⟩

/-- **What the codes say.** A call returns `ERROR_OK` just when the tracker has confirmed the request,
if and only if nothing else is received for it. -/
theorem status_iff (call : TrackerCall) :
    (call.result link m = .ok .errorOk ↔ call.Confirmed link m) ↔ call.OnlyConfirmed link m := by
  unfold Confirmed OnlyConfirmed
  rcases result_eq link m call with ⟨hnone, hne⟩ | ⟨sock, hsock, heq⟩
  · simp [hnone, hne]
  · simp only [hsock, Option.some.injEq, exists_eq_left', forall_eq', heq, handleReplyMessage_eq_ok]
    constructor
    · intro hiff frame hreceived
      by_contra hcontra
      rw [not_or, not_not] at hcontra
      obtain ⟨frame', hreceived', hconfirms⟩ := hiff.mp ⟨frame, hreceived, .inr hcontra.2⟩
      exact hcontra.1 (hreceived.unique hreceived' ▸ hconfirms)
    · intro honly
      constructor
      · rintro ⟨frame, hreceived, hconfirms | hwarn⟩
        · exact ⟨frame, hreceived, hconfirms⟩
        · exact ⟨frame, hreceived, (honly frame hreceived).resolve_right fun h => h hwarn⟩
      · rintro ⟨frame, hreceived, hconfirms⟩
        exact ⟨frame, hreceived, .inl hconfirms⟩

/-- A frame with a `MessageReply` that has an error code. -/
def refusal : NetPack := .ofMessage payloadMessageReply ⟨Wire.utf8 "TrackerProto.MessageReply", some [8, 1]⟩

/-- A tracker that refuses every request. -/
def refusing : Link where
  clientid := "c"
  localPort := 9025
  header := .wire
  serialize := fun _ => some []
  parse := fun _ payload =>
    (TrackerProto.MessageReply.proto.parseFromString payload).map fun r => .messageReply ⟨r.returnCode.getD 0⟩
  junk := 0
  sock := fun _ => ⟨.blocking, ⟨refusal.sent .wire, fun _ => .upTo 100⟩, .ok ()⟩
  notice := true
  warning := true

/-- The client, connected to it. -/
def connected : LocalSockManager := (LocalSockManager.new.connectTracker "t" (some 0)).2

/-- The refusal is received, for any request that can be sent. -/
theorem received_refusal {sock : Sock} {msg : Message} {payloadType : Int32} :
    Received refusing (refusing.sock sock) msg payloadType refusal := by
  have hacc : NetPack.Accepted .wire refusal := ⟨by decide, by decide⟩
  have hframed : NetPack.Framed .wire refusal := (NetPack.Built.new _ _).framed hacc (by decide)
  obtain ⟨headerContent, hser, -⟩ := NetPackHeader.Codec.wire_lossless (NetPack.ofMessage payloadType msg).header
  refine ⟨(NetPack.sendBy_blocking hser).1, ⟨[], fun _ => .upTo 100⟩, ?_⟩
  exact NetPack.receiveFrom_sent NetPackHeader.Codec.wire_lossless hframed hacc (List.append_nil _).symm
    (by simp only [NetPack.Whole, Arrival.AtLeast, refusing]; decide) 0 _

/-- The tracker refuses to publish a file, and `PublishResourceToTracker` returns `ERROR_OK`. -/
theorem refused_is_ok :
    (publishResource "t" "f").result refusing connected = .ok .errorOk ∧
      ¬(publishResource "t" "f").Confirmed refusing connected := by
  constructor
  · exact handleReplyMessage_eq_ok.mpr ⟨refusal, received_refusal, .inr rfl⟩
  · rintro ⟨sock, -, frame, hreceived, reply, hdecodes, hcode⟩
    obtain rfl := received_refusal.unique hreceived
    obtain rfl : (⟨1⟩ : MessageReply) = reply := Option.some.inj hdecodes
    exact absurd hcode (by decide)

end TrackerCall

/-! ### `RequestClients` -/

/-- The owners in a reply. -/
def QueryPeerReply.owners (reply : QueryPeerReply) : List FileOwnerInfo :=
  reply.info.map fun peer => .new peer.clientid peer.ip peer.messagePort peer.percentage

/-- The request for owners of a file. -/
def queryPeer (fileid : String) (currentPercentage needCount : Int32) (clientids : List String) : Message :=
  ⟨Wire.utf8 "TrackerProto.QueryPeer",
    link.serialize (.queryPeer ⟨Wire.utf8 fileid, currentPercentage, some needCount, clientids.map Wire.utf8⟩)⟩

/-- `RequestClients`: what it returns, and what it leaves in `*pInfoList`. -/
def requestClients (trackerAddress fileid : String) (currentPercentage needCount : Int32) (clientids : List String)
    (pInfoList : List FileOwnerInfo) : Except Exception Retcode × List FileOwnerInfo :=
  if currentPercentage < 0 ∨ needCount ≤ 0 then (.error .assertion, pInfoList)
  else
    match m.getTrackerSock trackerAddress with
    | none => (.ok .errorNetConnect, pInfoList)
    | some sock =>
      match handleReplyMessage link queryPeerReplyType (link.sock sock)
          (queryPeer link fileid currentPercentage needCount clientids) payloadRequestPeer with
      | (.error e, _) => (.error e, pInfoList)
      | (.ok ret, r) =>
        -- the number of owners is in the notice
        if link.notice ∧ r = none then (.error .nullPointer, pInfoList)
        else if ret ≠ .errorOk then
          -- the code of the reply is in the warning
          if link.warning ∧ r = none then (.error .nullPointer, pInfoList) else (.ok .errorUnknown, pInfoList)
        else
          match r with
          | none => (.error .nullPointer, pInfoList)
          | some reply =>
            if reply.returncode ≠ Retcode.errorOk.value then (.ok .errorUnknown, pInfoList)
            else (.ok ret, pInfoList ++ QueryPeerReply.owners reply)

section RequestClients

variable (trackerAddress fileid : String) (currentPercentage needCount : Int32) (clientids : List String)
  (pInfoList : List FileOwnerInfo)

/-- A reply has arrived for the request. -/
def Arrived (sock : TrackerSock) (reply : QueryPeerReply) : Prop :=
  ∃ frame,
    Received link sock (queryPeer link fileid currentPercentage needCount clientids) payloadRequestPeer frame ∧
      Decodes link queryPeerReplyType frame reply

/-- The tracker has answered with a reply that has `ERROR_OK`. -/
def Answered (reply : QueryPeerReply) : Prop :=
  ∃ sock, m.getTrackerSock trackerAddress = some sock ∧
    Arrived link fileid currentPercentage needCount clientids (link.sock sock) reply ∧
      reply.returncode = Retcode.errorOk.value

/-- `RequestClients` does what it should: it returns a code, that of success if the tracker has
answered, and then the list has grown by the owners in the answer. -/
structure Right (r : Except Exception Retcode × List FileOwnerInfo) : Prop where
  returns : ∃ ret, r.1 = .ok ret
  ok_iff : r.1 = .ok .errorOk ↔ ∃ reply, Answered link m trackerAddress fileid currentPercentage needCount clientids reply
  grown : ∀ reply, Answered link m trackerAddress fileid currentPercentage needCount clientids reply →
    r.2 = pInfoList ++ QueryPeerReply.owners reply
  unchanged : (¬∃ reply, Answered link m trackerAddress fileid currentPercentage needCount clientids reply) →
    r.2 = pInfoList

/-- There is no reply to look at only when nobody looks: the exchange has failed, and nothing is
logged. -/
def NoNullReply (sock : TrackerSock) : Prop :=
  (∃ reply, Arrived link fileid currentPercentage needCount clientids sock reply ∧
    (reply.returncode = Retcode.errorOk.value ∨ sock.warn link = .ok ())) ∨
  Failed link sock (queryPeer link fileid currentPercentage needCount clientids) payloadRequestPeer ∧
    link.notice = false ∧ link.warning = false

variable {link m trackerAddress fileid currentPercentage needCount clientids pInfoList}

/-- No two replies arrive for one request. -/
theorem Arrived.unique {sock : TrackerSock} {reply reply' : QueryPeerReply}
    (h : Arrived link fileid currentPercentage needCount clientids sock reply)
    (h' : Arrived link fileid currentPercentage needCount clientids sock reply') : reply = reply' := by
  obtain ⟨frame, hreceived, hdecodes⟩ := h
  obtain ⟨frame', hreceived', hdecodes'⟩ := h'
  obtain rfl := hreceived.unique hreceived'
  exact hdecodes.unique hdecodes'

/-- An exception is never right. -/
theorem not_right_of_error {e : Exception} {infoList : List FileOwnerInfo} :
    ¬Right link m trackerAddress fileid currentPercentage needCount clientids pInfoList (.error e, infoList) := by
  rintro ⟨⟨ret, hret⟩, -⟩
  cases hret

/-- Any other code than `ERROR_OK`, with the list as it was, is right if the tracker has not answered. -/
theorem right_of_not_answered {ret : Retcode} (hret : ret ≠ .errorOk)
    (hanswered : ∀ reply, ¬Answered link m trackerAddress fileid currentPercentage needCount clientids reply) :
    Right link m trackerAddress fileid currentPercentage needCount clientids pInfoList (.ok ret, pInfoList) where
  returns := ⟨ret, rfl⟩
  ok_iff := by simp [hret, hanswered]
  grown reply h := absurd h (hanswered reply)
  unchanged _ := rfl

/-- The owners in the answer are right. -/
theorem right_of_answered {reply : QueryPeerReply}
    (h : Answered link m trackerAddress fileid currentPercentage needCount clientids reply) :
    Right link m trackerAddress fileid currentPercentage needCount clientids pInfoList
      (.ok .errorOk, pInfoList ++ QueryPeerReply.owners reply) where
  returns := ⟨_, rfl⟩
  ok_iff := iff_of_true rfl ⟨reply, h⟩
  grown reply' h' := by
    obtain ⟨sock, hsock, harrived, -⟩ := h
    obtain ⟨sock', hsock', harrived', -⟩ := h'
    obtain rfl : sock = sock' := Option.some.inj (hsock.symm.trans hsock')
    rw [harrived.unique harrived']
  unchanged hno := absurd ⟨reply, h⟩ hno

/-- With a socket, and arguments that pass the assertions. -/
theorem requestClients_of_sock {sock : Sock} (hsock : m.getTrackerSock trackerAddress = some sock)
    (hpercentage : 0 ≤ currentPercentage) (hcount : 0 < needCount) :
    Right link m trackerAddress fileid currentPercentage needCount clientids pInfoList
        (requestClients link m trackerAddress fileid currentPercentage needCount clientids pInfoList) ↔
      NoNullReply link fileid currentPercentage needCount clientids (link.sock sock) := by
  have hguard : ¬(currentPercentage < 0 ∨ needCount ≤ 0) := by
    rw [not_or, Int32.not_lt, Int32.not_le]
    exact ⟨hpercentage, hcount⟩
  have hanswered : ∀ reply,
      Answered link m trackerAddress fileid currentPercentage needCount clientids reply ↔
        Arrived link fileid currentPercentage needCount clientids (link.sock sock) reply ∧
          reply.returncode = Retcode.errorOk.value := by simp [Answered, hsock]
  simp only [requestClients, hguard, if_false, hsock]
  have hhandled := handleReplyMessage_handled link (link.sock sock)
    (queryPeer link fileid currentPercentage needCount clientids) payloadRequestPeer queryPeerReplyType
  generalize handleReplyMessage link queryPeerReplyType (link.sock sock) _ _ = r at hhandled
  cases hhandled with
  | threw e hreceived hfailed =>
    refine iff_of_false not_right_of_error ?_
    rintro (⟨reply, ⟨frame, hframe, -⟩, -⟩ | ⟨hfail, -⟩)
    · exact hreceived frame hframe
    · exact hfailed hfail
  | failed ret hret hreceived hfailed =>
    have harrived : ∀ reply, ¬Arrived link fileid currentPercentage needCount clientids (link.sock sock) reply :=
      fun reply ⟨frame, hframe, _⟩ => hreceived frame hframe
    have hnull : NoNullReply link fileid currentPercentage needCount clientids (link.sock sock) ↔
        link.notice = false ∧ link.warning = false := by simp [NoNullReply, harrived, hfailed]
    rw [hnull]
    cases hwarning : link.warning with
    | false =>
      simp only [TrackerSock.warn, hwarning, Bool.false_eq_true, if_false, Except.map]
      cases hnotice : link.notice with
      | false =>
        simp only [Bool.false_eq_true, false_and, if_false, ne_eq, hret, not_false_eq_true, if_true, and_self, iff_true]
        exact right_of_not_answered (by decide) fun reply h => harrived reply ((hanswered reply).mp h).1
      | true => simpa using not_right_of_error
    | true =>
      cases (link.sock sock).warn link with
      | error e => simpa [Except.map] using not_right_of_error
      | ok u =>
        simp only [Except.map, ne_eq, hret, not_false_eq_true, if_true, and_self]
        cases link.notice <;> simpa using not_right_of_error
  | wrong frame hreceived hdecodes =>
    refine iff_of_false ?_ ?_
    · cases (link.sock sock).warn link with
      | error e => exact not_right_of_error
      | ok u =>
        simp only [Except.map, and_true, ne_eq, not_true_eq_false, if_false]
        split <;> exact not_right_of_error
    · rintro (⟨reply, ⟨frame', hreceived', hreply⟩, -⟩ | ⟨hfail, -⟩)
      · exact hdecodes reply (hreceived.unique hreceived' ▸ hreply)
      · exact hfail.not_received hreceived
  | refused frame reply hreceived hdecodes hcode =>
    have harrived : Arrived link fileid currentPercentage needCount clientids (link.sock sock) reply :=
      ⟨frame, hreceived, hdecodes⟩
    have hnull : NoNullReply link fileid currentPercentage needCount clientids (link.sock sock) ↔
        (link.sock sock).warn link = .ok () := by
      constructor
      · rintro (⟨reply', hreply', hcode' | hwarn⟩ | ⟨hfail, -⟩)
        · exact absurd (harrived.unique hreply' ▸ hcode') hcode
        · exact hwarn
        · exact absurd hreceived hfail.not_received
      · exact fun hwarn => .inl ⟨reply, harrived, .inr hwarn⟩
    rw [hnull]
    cases (link.sock sock).warn link with
    | error e => simpa [Except.map] using not_right_of_error
    | ok u =>
      have hcode' : reply.returncode ≠ Retcode.errorOk.value := hcode
      simp only [Except.map, reduceCtorEq, and_false, if_false, ne_eq, not_true_eq_false, hcode', not_false_eq_true,
        if_true, iff_true]
      refine right_of_not_answered (by decide) fun reply' h => ?_
      obtain ⟨hreply', hok⟩ := (hanswered reply').mp h
      exact hcode (harrived.unique hreply' ▸ hok)
  | confirmed frame reply hreceived hdecodes hcode =>
    have harrived : Arrived link fileid currentPercentage needCount clientids (link.sock sock) reply :=
      ⟨frame, hreceived, hdecodes⟩
    have hcode' : reply.returncode = Retcode.errorOk.value := hcode
    simp only [reduceCtorEq, and_false, if_false, ne_eq, not_true_eq_false, hcode']
    exact iff_of_true (right_of_answered ((hanswered reply).mpr ⟨harrived, hcode⟩)) (.inl ⟨reply, harrived, .inl hcode⟩)

variable (link m trackerAddress fileid currentPercentage needCount clientids pInfoList) in
/-- **When `RequestClients` is right.** It is so if and only if its arguments pass the assertions and,
where it has a socket, it does not look at a reply that is not there. -/
theorem requestClients_right_iff :
    Right link m trackerAddress fileid currentPercentage needCount clientids pInfoList
        (requestClients link m trackerAddress fileid currentPercentage needCount clientids pInfoList) ↔
      0 ≤ currentPercentage ∧ 0 < needCount ∧
        ∀ sock, m.getTrackerSock trackerAddress = some sock →
          NoNullReply link fileid currentPercentage needCount clientids (link.sock sock) := by
  by_cases hguard : currentPercentage < 0 ∨ needCount ≤ 0
  · simp only [requestClients, hguard, if_true]
    refine iff_of_false not_right_of_error ?_
    rintro ⟨hpercentage, hcount, -⟩
    exact hguard.elim (Int32.not_lt.mpr hpercentage) (Int32.not_le.mpr hcount)
  · rw [not_or, Int32.not_lt, Int32.not_le] at hguard
    cases hsock : m.getTrackerSock trackerAddress with
    | none =>
      have hguard' : ¬(currentPercentage < 0 ∨ needCount ≤ 0) := by simpa [Int32.not_lt, Int32.not_le] using hguard
      simp only [requestClients, hguard', if_false, hsock]
      refine iff_of_true (right_of_not_answered (by decide) ?_) ⟨hguard.1, hguard.2, by simp⟩
      simp [Answered, hsock]
    | some sock => simp [requestClients_of_sock hsock hguard.1 hguard.2, hguard]

/-- With notices logged it is the `RequestClients` that `request_clients` calls, with an empty list. -/
theorem requestClients_eq (hnotice : link.notice = true) {sock : Sock}
    (hsock : m.getTrackerSock trackerAddress = some sock) (hpercentage : 0 ≤ currentPercentage) (hcount : 0 < needCount) :
    let r := handleReplyMessage link queryPeerReplyType (link.sock sock)
      (queryPeer link fileid currentPercentage needCount clientids) payloadRequestPeer
    let called := requestClients link m trackerAddress fileid currentPercentage needCount clientids []
    OwnerSearch.requestClients (r.1.map fun ret => (ret, r.2)) = called.1.map fun ret => (ret, called.2) := by
  have hguard : ¬(currentPercentage < 0 ∨ needCount ≤ 0) := by
    rw [not_or, Int32.not_lt, Int32.not_le]
    exact ⟨hpercentage, hcount⟩
  simp only [requestClients, hguard, if_false, hsock, hnotice, true_and]
  rcases handleReplyMessage link queryPeerReplyType _ _ _ with ⟨e | ret, _ | reply⟩
  · rfl
  · rfl
  · rfl
  · by_cases hret : ret = .errorOk
    · subst hret
      by_cases hcode : reply.returncode = Retcode.errorOk.value
      · simp [OwnerSearch.requestClients, Except.map, hcode, QueryPeerReply.owners]
      · simp [OwnerSearch.requestClients, Except.map, hcode]
    · simp [OwnerSearch.requestClients, Except.map, hret]

open TrackerCall in
/-- The tracker answers with a `MessageReply`, as it does after an exception, and `RequestClients`
looks at the owners in it. -/
theorem null_reply :
    (requestClients refusing connected "t" "f" 0 20 [] []).1 = .error .nullPointer ∧
      ¬Right refusing connected "t" "f" 0 20 [] [] (requestClients refusing connected "t" "f" 0 20 [] []) := by
  have hnull : handleReplyMessage refusing queryPeerReplyType (refusing.sock 0) (queryPeer refusing "f" 0 20 [])
      payloadRequestPeer = (.ok .errorOk, none) := by
    have hwrong : ∀ frame reply,
        Received refusing (refusing.sock 0) (queryPeer refusing "f" 0 20 []) payloadRequestPeer frame →
          ¬Decodes refusing queryPeerReplyType frame reply := by
      intro frame reply hreceived (hdecodes : _ = _)
      obtain rfl := hreceived.unique received_refusal
      cases hdecodes
    have hhandled := handleReplyMessage_handled refusing (refusing.sock 0) (queryPeer refusing "f" 0 20 [])
      payloadRequestPeer queryPeerReplyType
    generalize handleReplyMessage refusing queryPeerReplyType _ _ _ = r at hhandled
    cases hhandled with
    | threw e hreceived hfailed => exact absurd received_refusal (hreceived refusal)
    | failed ret hret hreceived hfailed => exact absurd received_refusal (hreceived refusal)
    | wrong frame hreceived hdecodes => rfl
    | refused frame reply hreceived hdecodes hcode => exact absurd hdecodes (hwrong frame reply hreceived)
    | confirmed frame reply hreceived hdecodes hcode => exact absurd hdecodes (hwrong frame reply hreceived)
  have hthrows : requestClients refusing connected "t" "f" 0 20 [] [] = (.error .nullPointer, []) := by
    have hsock : connected.getTrackerSock "t" = some 0 := by decide
    have hguard : ¬((0 : Int32) < 0 ∨ (20 : Int32) ≤ 0) := by decide
    simp only [requestClients, hguard, if_false, hsock, hnull]
    rfl
  rw [hthrows]
  exact ⟨rfl, not_right_of_error⟩

end RequestClients

end CoolDown
