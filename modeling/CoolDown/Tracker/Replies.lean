import CoolDown.Tracker.TrackerConnectionHandler

/-!
# Replies of the tracker

A client waits for the reply to each request it sends. `Process` leaves one that the
client can read only where the request can be parsed; and a request for peers gets one
only where it is a `QueryPeer` and the search does not throw, as the fields of a
`QueryPeerReply` are set on the way and not before.

## The model

`Readable` is what the client wants: whatever the stream brings after the pack, and
however it is cut between the parts of packs, `receiveFrom` accepts the pack, and its
message is a complete reply of the class that answers the request. The generated classes
are no parameter: `tracker.proto` gives the fields, and how these are written is the format
of protobuf (`Wire`).

## What is proved

* `process_readable_iff`: which requests get a readable reply.
* `unreadable_replies`: a message of an unknown class, and a request for peers with a
  `Logout` in it, get none.
-/

namespace CoolDown.Tracker

open Library TrackerProto

/-! ### What the client reads -/

/-- A reply as the client has parsed it. -/
inductive Reply where
  | messageReply (m : MessageReply)
  | queryPeerReply (m : QueryPeerReply)
  deriving DecidableEq

/-- The reply is of the class that answers a request of this type. -/
def Reply.Answers (payloadType : Int32) : Reply → Prop
  | messageReply _ => payloadType ≠ payloadRequestPeer
  | queryPeerReply _ => payloadType = payloadRequestPeer

/-- `NetPack::message`, of a reply. -/
def replyMessage (p : NetPack) : Option Reply :=
  if p.messageName = Wire.utf8 "TrackerProto.MessageReply" then
    (MessageReply.proto.parseFromString p.payload).map .messageReply
  else if p.messageName = Wire.utf8 "TrackerProto.QueryPeerReply" then
    (QueryPeerReply.proto.parseFromString p.payload).map .queryPeerReply
  else none

/-- The client receives the pack, and has a complete reply to a request of this type. -/
def Readable (payloadType : Int32) (out : NetPack) : Prop :=
  ∀ (rest : Bytes) (arrivals : ℕ → Arrival Exception) (junk : Int32) (q : NetPack), out.Whole .wire arrivals →
    ∃ p sock reply, q.receiveFrom .wire junk ⟨out.sent .wire ++ rest, arrivals⟩ = (.ok .errorOk, p, sock) ∧
      replyMessage p = some reply ∧ reply.Answers payloadType

/-- A stream that is not cut. -/
theorem whole_of_le {p : NetPack} {n : ℕ+} (h₀ : 4 ≤ (n : ℕ)) (h₁ : NetPackHeader.Codec.wire.byteSize p.header ≤ n)
    (h₂ : p.payload.length ≤ n) : p.Whole .wire fun _ => .upTo n :=
  ⟨h₀, h₁, h₂⟩

/-- For a pack that `receiveFrom` gives as it is, it is a matter of its message. -/
theorem readable_iff_of_accepted {payloadType : Int32} {out : NetPack} (hbuilt : out.Built) (hacc : out.Accepted .wire)
    (hlen : out.payload.length < 2 ^ 31) :
    Readable payloadType out ↔ ∃ reply, replyMessage out = some reply ∧ reply.Answers payloadType := by
  have hreceive : ∀ {rest arrivals}, out.Whole .wire arrivals → ∀ junk (q : NetPack),
      q.receiveFrom .wire junk ⟨out.sent .wire ++ rest, arrivals⟩ = (.ok .errorOk, out, ⟨rest, fun i => arrivals (i + 3)⟩) := by
    intro rest arrivals hwhole junk q
    rw [NetPack.receiveFrom_sent NetPackHeader.Codec.wire_lossless (hbuilt.framed hacc hlen) hacc rfl hwhole,
      hbuilt.arrived_eq]
  constructor
  · intro h
    have hwhole : out.Whole .wire fun _ => .upTo ⟨2 ^ 31, by decide⟩ :=
      whole_of_le (by decide) (hacc.2.trans (by decide)) hlen.le
    obtain ⟨p, sock, reply, hr, hmessage, hanswers⟩ := h [] _ 0 .new hwhole
    rw [hreceive hwhole] at hr
    obtain ⟨rfl, -⟩ : out = p ∧ _ := by simpa using hr
    exact ⟨reply, hmessage, hanswers⟩
  · intro h rest arrivals junk q hwhole
    obtain ⟨reply, hmessage, hanswers⟩ := h
    exact ⟨out, _, reply, hreceive hwhole junk q, hmessage, hanswers⟩

/-- A pack that has not been given a message has no header, and is refused. -/
theorem not_readable_new (payloadType : Int32) : ¬Readable payloadType .new := by
  intro h
  obtain ⟨p, sock, reply, hr, -⟩ := h [] (fun _ => .upTo 4) 0 .new (whole_of_le (by decide) (by decide) (by decide))
  have hnew : (NetPack.new.receiveFrom .wire 0 ⟨NetPack.new.sent .wire ++ [], fun _ => .upTo 4⟩).1 = .error .assertion := by
    decide
  rw [hr] at hnew
  cases hnew

/-- What a client reads of a pack that has been given a message. -/
theorem readable_setMessage_iff {payloadType type : Int32} {msg : Message} (hname : msg.fullName.length < 128)
    (hlen : (msg.serializeToString.getD []).length < 2 ^ 31) (out : NetPack) :
    Readable payloadType (out.setMessage type msg) ↔
      ∃ reply, replyMessage (out.setMessage type msg) = some reply ∧ reply.Answers payloadType :=
  readable_iff_of_accepted (.set out type msg) (NetPackHeader.byteSize_wire_bounds _ _ hname) hlen

theorem messageReplyName_ne : Wire.utf8 "TrackerProto.QueryPeerReply" ≠ Wire.utf8 "TrackerProto.MessageReply" := by
  intro h
  have hutf8 := congrArg Wire.ofUtf8 h
  simp at hutf8

/-- A `MessageReply` with a return code is readable, as an answer to anything but a request for peers. -/
theorem readable_messageReply_iff (payloadType code : Int32) (out : NetPack) :
    Readable payloadType (out.setMessage payloadMessageReply (Handler.messageReply ⟨some code, none⟩)) ↔
      payloadType ≠ payloadRequestPeer := by
  have hlen : (MessageReply.proto.encode ⟨some code, none⟩).length < 2 ^ 31 := by
    have htag : (varint (8 * 1)).length ≤ 4 := length_varint_le (by decide) (by decide)
    have hcode : (varint (Wire.int32Value code)).length ≤ 64 :=
      length_varint_le (by decide) (code.toInt64.toUInt64.toNat_lt)
    have hfields : MessageReply.proto.toFields ⟨some code, none⟩ = [⟨1, .varint (Wire.int32Value code)⟩] := rfl
    simp only [Wire.Message.encode, hfields, Wire.encode, Wire.encodeField, List.flatMap_cons, List.flatMap_nil,
      List.append_nil, List.length_append]
    omega
  have hser : MessageReply.proto.serializeToString ⟨some code, none⟩ = some (MessageReply.proto.encode ⟨some code, none⟩) :=
    Wire.Proto.serializeToString_eq_some.mpr ⟨hlen, rfl⟩
  have hread : replyMessage (out.setMessage payloadMessageReply (Handler.messageReply ⟨some code, none⟩)) =
      some (.messageReply ⟨some code, none⟩) := by
    have hinit : MessageReply.proto.isInitialized ⟨some code, none⟩ = true := rfl
    simp [replyMessage, NetPack.setMessage, Handler.messageReply, hser, Wire.Proto.parseFromString_encode, hinit]
  have hname : (Wire.utf8 "TrackerProto.MessageReply").length < 128 := by decide
  rw [readable_setMessage_iff hname (by simpa [Handler.messageReply, hser] using hlen), hread]
  simp [Reply.Answers]

/-- A `QueryPeerReply` is readable, as an answer to a request for peers, just when it has its
required fields and is small enough to be written. -/
theorem readable_queryPeerReply_iff (qpr : QueryPeerReply) (out : NetPack) :
    Readable payloadRequestPeer (out.setMessage payloadRequestPeerReplay (Handler.queryPeerReply qpr)) ↔
      QueryPeerReply.proto.isInitialized qpr ∧ (QueryPeerReply.proto.encode qpr).length < 2 ^ 31 := by
  have hname : (Wire.utf8 "TrackerProto.QueryPeerReply").length < 128 := by decide
  by_cases hlen : (QueryPeerReply.proto.encode qpr).length < 2 ^ 31
  · have hser : QueryPeerReply.proto.serializeToString qpr = some (QueryPeerReply.proto.encode qpr) :=
      Wire.Proto.serializeToString_eq_some.mpr ⟨hlen, rfl⟩
    rw [readable_setMessage_iff hname (by simpa [Handler.queryPeerReply, hser] using hlen), and_iff_left hlen]
    cases hinit : QueryPeerReply.proto.isInitialized qpr <;>
      simp [replyMessage, NetPack.setMessage, Handler.queryPeerReply, hser, Wire.Proto.parseFromString_encode,
        messageReplyName_ne, hinit, Reply.Answers]
  · -- nothing is written, and an empty payload lacks the required fields
    have hser : QueryPeerReply.proto.serializeToString qpr = none := by
      rw [Wire.Proto.serializeToString, if_neg hlen]
    have hempty : QueryPeerReply.proto.parseFromString [] = none := by decide
    rw [readable_setMessage_iff hname (by simp [Handler.queryPeerReply, hser])]
    refine iff_of_false ?_ fun h => hlen h.2
    simp [replyMessage, NetPack.setMessage, Handler.queryPeerReply, hser, messageReplyName_ne, hempty]

/-! ### What `Process` leaves -/

namespace Handler

/-- `HandleLogin` sets the return code, and nothing else. -/
theorem handleLogin_out (io : Io) (h : Handler) (db : Database) (m : ParsedMessage) (out : MessageReply) :
    ∃ code, (h.handleLogin io db m out).2.2.2 = { out with returnCode := some code } := by
  unfold handleLogin
  cases m with
  | login m =>
    simp only
    split
    · exact ⟨_, rfl⟩
    · split_ifs
      · exact ⟨_, rfl⟩
      · exact ⟨_, rfl⟩
  | logout | queryPeer | reportProgress | publishResource | other => exact ⟨_, rfl⟩

theorem handleLogOut_out (io : Io) (h : Handler) (db : Database) (m : ParsedMessage) (out : MessageReply) :
    ∃ code, (h.handleLogOut io db m out).2.2 = { out with returnCode := some code } := by
  unfold handleLogOut
  cases m with
  | logout m =>
    simp only
    split_ifs
    · exact ⟨_, rfl⟩
    · split
      · exact ⟨_, rfl⟩
      · split_ifs
        · exact ⟨_, rfl⟩
        · exact ⟨_, rfl⟩
  | login | queryPeer | reportProgress | publishResource | other => exact ⟨_, rfl⟩

theorem handleReportProgress_out (io : Io) (db : Database) (m : ParsedMessage) (out : MessageReply) :
    ∃ code, (handleReportProgress io db m out).2.2 = { out with returnCode := some code } := by
  unfold handleReportProgress
  cases m with
  | reportProgress m =>
    simp only
    split
    · exact ⟨_, rfl⟩
    · split_ifs
      · exact ⟨_, rfl⟩
      · exact ⟨_, rfl⟩
  | login | logout | queryPeer | publishResource | other => exact ⟨_, rfl⟩

theorem handlePublishResource_out (io : Io) (db : Database) (m : ParsedMessage) (out : MessageReply) :
    ∃ code, (handlePublishResource io db m out).2.2 = { out with returnCode := some code } := by
  unfold handlePublishResource
  cases m with
  | publishResource m =>
    simp only
    split
    · exact ⟨_, rfl⟩
    · split_ifs
      · exact ⟨_, rfl⟩
      · exact ⟨_, rfl⟩
  | login | logout | queryPeer | reportProgress | other => exact ⟨_, rfl⟩

/-- Whatever the request is, a `MessageReply` keeps to a return code. -/
theorem dispatch_messageReply (io : Io) (h : Handler) (db : Database) (payloadType : Int32) (m : ParsedMessage)
    (code : Int32) (qpr : QueryPeerReply) :
    ∃ code', (h.dispatch io db payloadType m ⟨some code, none⟩ qpr).2.2.1 = ⟨some code', none⟩ := by
  unfold dispatch
  split_ifs
  · exact handleLogin_out io h db m _
  · exact handleLogOut_out io h db m _
  · exact ⟨code, rfl⟩
  · exact handleReportProgress_out io db m _
  · exact handlePublishResource_out io db m _
  · exact ⟨code, rfl⟩

/-- A `QueryPeerReply` comes from `HandleRequestPeer`. -/
theorem dispatch_queryPeerReply (io : Io) (h : Handler) (db : Database) (m : ParsedMessage) (mr : MessageReply)
    (qpr : QueryPeerReply) :
    (h.dispatch io db payloadRequestPeer m mr qpr).2.2.2 = (h.handleRequestPeer io db m qpr).2 := by
  have hlogin : payloadRequestPeer ≠ payloadLogin := by decide
  have hlogout : payloadRequestPeer ≠ payloadLogout := by decide
  simp [dispatch, hlogin, hlogout]

/-- The reply to a `QueryPeer` when the search has returned. -/
def filledReply (fileId : Bytes) (ret : Retcode) (clients : List Entry) : QueryPeerReply :=
  if ret ≠ .errorOk then ⟨some Retcode.errorUnknown.value, some fileId, some 0, []⟩
  else ⟨some Retcode.errorOk.value, some fileId, some (Int32.ofNat clients.length), clients.map peerFileInfo⟩

theorem isInitialized_filledReply (fileId : Bytes) (ret : Retcode) (clients : List Entry) :
    QueryPeerReply.proto.isInitialized (filledReply fileId ret clients) := by
  have hinfo : (clients.map peerFileInfo).all PeerFileInfo.proto.isInitialized := by
    rw [List.all_eq_true]
    intro info hmem
    obtain ⟨entry, -, rfl⟩ := List.mem_map.mp hmem
    rfl
  unfold filledReply
  split_ifs
  · rfl
  · exact hinfo

/-- What is needed for an answer to a request for peers: it is a `QueryPeer`, the search
returns, and what it has found can be written. -/
def CanAnswer (io : Io) (h : Handler) (db : Database) (m : ParsedMessage) : Prop :=
  ∃ query ret clients, m = .queryPeer query ∧
    requestClients io.my db query.fileId query.percentage query.needcount (query.ownedClients ++ [h.clientid]) =
      .ok (ret, clients) ∧
    (QueryPeerReply.proto.encode (filledReply query.fileId ret clients)).length < 2 ^ 31

/-- The `QueryPeerReply` that `Process` starts with. -/
def emptyReply : QueryPeerReply := ⟨some Retcode.errorUnknown.value, none, none, []⟩

/-- Where the search has returned, the reply is filled in. -/
theorem handleRequestPeer_eq {io : Io} {h : Handler} {db : Database} {query : QueryPeer} {ret : Retcode}
    {clients : List Entry}
    (hr : requestClients io.my db query.fileId query.percentage query.needcount (query.ownedClients ++ [h.clientid]) =
      .ok (ret, clients)) :
    (h.handleRequestPeer io db (.queryPeer query) emptyReply).2 = filledReply query.fileId ret clients := by
  unfold filledReply
  split_ifs with hret
  · simp [handleRequestPeer, hr, hret, emptyReply]
  · rw [not_not] at hret
    simp [handleRequestPeer, hr, hret, emptyReply]

/-- `HandleRequestPeer` leaves a reply that can be read just when it can answer. -/
theorem handleRequestPeer_readable_iff (io : Io) (h : Handler) (db : Database) (m : ParsedMessage) :
    (QueryPeerReply.proto.isInitialized (h.handleRequestPeer io db m emptyReply).2 ∧
        (QueryPeerReply.proto.encode (h.handleRequestPeer io db m emptyReply).2).length < 2 ^ 31) ↔
      h.CanAnswer io db m := by
  constructor
  · intro hreply
    cases m with
    | queryPeer query =>
      cases hr : requestClients io.my db query.fileId query.percentage query.needcount (query.ownedClients ++ [h.clientid]) with
      | error e =>
        -- the count is still missing
        simp [handleRequestPeer, hr, emptyReply, QueryPeerReply.proto] at hreply
      | ok r =>
        rw [handleRequestPeer_eq hr] at hreply
        exact ⟨query, r.1, r.2, rfl, hr, hreply.2⟩
    | login | logout | reportProgress | publishResource | other =>
      simp [handleRequestPeer, emptyReply, QueryPeerReply.proto] at hreply
  · intro hcan
    obtain ⟨query, ret, clients, rfl, hr, hlen⟩ := hcan
    rw [handleRequestPeer_eq hr]
    exact ⟨isInitialized_filledReply _ _ _, hlen⟩

/-- **Which requests get a readable reply**: those that can be parsed, and of the requests for
peers those that can be answered. -/
theorem process_readable_iff (pool : Pool) (io : Io) (h : Handler) (db : Database) (pack : NetPack) :
    Readable pack.payloadType (h.process pool io db pack .new).2.2 ↔
      ∃ m, message pool pack = some m ∧ (pack.payloadType = payloadRequestPeer → h.CanAnswer io db m) := by
  unfold process
  cases hm : message pool pack with
  | none => simpa using not_readable_new pack.payloadType
  | some m =>
    simp only [Option.some.injEq, exists_eq_left']
    by_cases htype : pack.payloadType = payloadRequestPeer
    · rw [if_neg (not_not.mpr htype), htype, readable_queryPeerReply_iff, dispatch_queryPeerReply]
      exact (handleRequestPeer_readable_iff io h db m).trans (by simp)
    · obtain ⟨code, hcode⟩ := dispatch_messageReply io h db pack.payloadType m Retcode.errorUnknown.value
        ⟨some Retcode.errorUnknown.value, none, none, []⟩
      rw [if_pos htype, hcode, readable_messageReply_iff]
      simp [htype]

/-- A pool that knows no class but `Logout`. -/
def onlyLogout : Pool := fun name _ => if name = Wire.utf8 "TrackerProto.Logout" then some (.logout ⟨[97]⟩) else none

/-- A login whose class is not known, and a request for peers with a `Logout` in it. -/
theorem unreadable_replies :
    ¬Readable payloadLogin
        ((Handler.new []).process onlyLogout ⟨.simple, []⟩ ⟨∅, ∅⟩ ⟨payloadLogin, [], [76], .empty⟩ .new).2.2 ∧
      ¬Readable payloadRequestPeer
        ((Handler.new []).process onlyLogout ⟨.simple, []⟩ ⟨∅, ∅⟩
          ⟨payloadRequestPeer, [], Wire.utf8 "TrackerProto.Logout", .empty⟩ .new).2.2 := by
  constructor
  · have hname : ([76] : Bytes) ≠ Wire.utf8 "TrackerProto.Logout" := by decide
    simpa [process, message, onlyLogout, hname] using not_readable_new payloadLogin
  · intro h
    have hreply := (readable_queryPeerReply_iff emptyReply .new).mp h
    exact absurd hreply.1 (by decide)

end Handler

end CoolDown.Tracker
