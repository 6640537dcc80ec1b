import CoolDown.Public.TrackerProto

/-!
# The requests to the tracker on the wire

`TrackerProto` has the requests as the tracker has parsed them. Here they are as the
generated classes write and read them: a class writes the fields that are set, and reads
fields in any order, the last one of each number; a message without its required fields
is not parsed.

## The model

`QueryPeer.Fields` and its like are messages with their fields set or not. `pool` is the
generated pool of the tracker: the classes of `tracker.proto` and the header of a pack.

## What is proved

* `pool_serializeRequest`: the tracker reads each request as it was written.
* `request_received`: sent in a pack, over a stream that does not cut its parts, it is
  what `NetPack::message` gives at the other end, whatever comes after it.
-/

namespace CoolDown.TrackerProto

open Library Wire

/-- `message QueryPeer`, its fields set or not. -/
structure QueryPeer.Fields where
  fileId : Option Bytes
  percentage : Option Int32
  needCount : Option Int32
  ownedClients : List Bytes
  deriving DecidableEq, Repr

/-- What a field of a `QueryPeer` sets. -/
def QueryPeer.setField (m : QueryPeer.Fields) : Wire.Field → Option QueryPeer.Fields
  | ⟨1, .bytes s⟩ => some { m with fileId := some s }
  | ⟨2, .varint n⟩ => some { m with percentage := some (ofInt32Value n) }
  | ⟨3, .varint n⟩ => some { m with needCount := some (ofInt32Value n) }
  | ⟨4, .bytes s⟩ => some { m with ownedClients := m.ownedClients ++ [s] }
  | _ => some m

/-- `message QueryPeer`, as it is written. -/
def QueryPeer.wire : Class QueryPeer QueryPeer.Fields where
  toFields m :=
    (m.fileId.map fun s => ⟨1, .bytes s⟩).toList ++
      (m.percentage.map fun x => ⟨2, .varint (int32Value x)⟩).toList ++
      (m.needCount.map fun x => ⟨3, .varint (int32Value x)⟩).toList ++
      m.ownedClients.map fun s => ⟨4, .bytes s⟩
  init := ⟨none, none, none, []⟩
  setField := setField
  foldlM_toFields := by
    rintro ⟨fileId, percentage, needCount, ownedClients⟩
    have howned : ∀ (s : Option Bytes) (x y : Option Int32),
        (ownedClients.map fun t => (⟨4, .bytes t⟩ : Wire.Field)).foldlM setField ⟨s, x, y, []⟩ =
          some ⟨s, x, y, ownedClients⟩ :=
      fun s x y => foldlM_repeated (QueryPeer.Fields.mk s x y) (fun _ _ => rfl) ownedClients
    simp only [List.foldlM_append]
    cases fileId <;> cases percentage <;> cases needCount <;> simp [setField, howned]
  fields m := ⟨some m.fileId, some m.percentage, m.needCount, m.ownedClients⟩
  ofFields
    | ⟨some fileId, some percentage, needCount, ownedClients⟩ => some ⟨fileId, percentage, needCount, ownedClients⟩
    | _ => none
  ofFields_fields _ := rfl

/-- `message Login`, its fields set or not. -/
structure Login.Fields where
  clientId : Option Bytes
  loginIp : Option Bytes
  messagePort : Option Int32
  deriving DecidableEq, Repr

/-- `message Login`, as it is written. -/
def Login.wire : Class Login Login.Fields where
  toFields m :=
    (m.clientId.map fun s => ⟨1, .bytes s⟩).toList ++ (m.loginIp.map fun s => ⟨2, .bytes s⟩).toList ++
      (m.messagePort.map fun x => ⟨3, .varint (int32Value x)⟩).toList
  init := ⟨none, none, none⟩
  setField m
    | ⟨1, .bytes s⟩ => some { m with clientId := some s }
    | ⟨2, .bytes s⟩ => some { m with loginIp := some s }
    | ⟨3, .varint n⟩ => some { m with messagePort := some (ofInt32Value n) }
    | _ => some m
  foldlM_toFields := by
    rintro ⟨clientId, loginIp, messagePort⟩
    cases clientId <;> cases loginIp <;> cases messagePort <;> simp
  fields m := ⟨some m.clientId, m.loginIp, m.messagePort⟩
  ofFields
    | ⟨some clientId, loginIp, messagePort⟩ => some ⟨clientId, loginIp, messagePort⟩
    | _ => none
  ofFields_fields _ := rfl

/-- `message Logout`, its field set or not. -/
structure Logout.Fields where
  clientId : Option Bytes
  deriving DecidableEq, Repr

/-- `message Logout`, as it is written. -/
def Logout.wire : Class Logout Logout.Fields where
  toFields m := (m.clientId.map fun s => ⟨1, .bytes s⟩).toList
  init := ⟨none⟩
  setField m
    | ⟨1, .bytes s⟩ => some { m with clientId := some s }
    | _ => some m
  foldlM_toFields := by
    rintro ⟨clientId⟩
    cases clientId <;> simp
  fields m := ⟨some m.clientId⟩
  ofFields
    | ⟨some clientId⟩ => some ⟨clientId⟩
    | _ => none
  ofFields_fields _ := rfl

/-- `message ReportProgress`, its fields set or not. -/
structure ReportProgress.Fields where
  clientId : Option Bytes
  fileId : Option Bytes
  percentage : Option Int32
  deriving DecidableEq, Repr

/-- `message ReportProgress`, as it is written. -/
def ReportProgress.wire : Class ReportProgress ReportProgress.Fields where
  toFields m :=
    (m.clientId.map fun s => ⟨1, .bytes s⟩).toList ++ (m.fileId.map fun s => ⟨2, .bytes s⟩).toList ++
      (m.percentage.map fun x => ⟨3, .varint (int32Value x)⟩).toList
  init := ⟨none, none, none⟩
  setField m
    | ⟨1, .bytes s⟩ => some { m with clientId := some s }
    | ⟨2, .bytes s⟩ => some { m with fileId := some s }
    | ⟨3, .varint n⟩ => some { m with percentage := some (ofInt32Value n) }
    | _ => some m
  foldlM_toFields := by
    rintro ⟨clientId, fileId, percentage⟩
    cases clientId <;> cases fileId <;> cases percentage <;> simp
  fields m := ⟨some m.clientId, some m.fileId, some m.percentage⟩
  ofFields
    | ⟨some clientId, some fileId, some percentage⟩ => some ⟨clientId, fileId, percentage⟩
    | _ => none
  ofFields_fields _ := rfl

/-- `message PublishResource`, its fields set or not. -/
structure PublishResource.Fields where
  clientId : Option Bytes
  fileId : Option Bytes
  deriving DecidableEq, Repr

/-- `message PublishResource`, as it is written. -/
def PublishResource.wire : Class PublishResource PublishResource.Fields where
  toFields m :=
    (m.clientId.map fun s => ⟨1, .bytes s⟩).toList ++ (m.fileId.map fun s => ⟨2, .bytes s⟩).toList
  init := ⟨none, none⟩
  setField m
    | ⟨1, .bytes s⟩ => some { m with clientId := some s }
    | ⟨2, .bytes s⟩ => some { m with fileId := some s }
    | _ => some m
  foldlM_toFields := by
    rintro ⟨clientId, fileId⟩
    cases clientId <;> cases fileId <;> simp
  fields m := ⟨some m.clientId, some m.fileId⟩
  ofFields
    | ⟨some clientId, some fileId⟩ => some ⟨clientId, fileId⟩
    | _ => none
  ofFields_fields _ := rfl

/-! ### The classes by name -/

namespace ParsedMessage

/-- The full name of the class of a request; `other` is none. -/
def fullName : ParsedMessage → String
  | login _ => "TrackerProto.Login"
  | logout _ => "TrackerProto.Logout"
  | queryPeer _ => "TrackerProto.QueryPeer"
  | reportProgress _ => "TrackerProto.ReportProgress"
  | publishResource _ => "TrackerProto.PublishResource"
  | other => ""

/-- The type under which a client sends it. -/
def payloadType : ParsedMessage → Int32
  | login _ => payloadLogin
  | logout _ => payloadLogout
  | queryPeer _ => payloadRequestPeer
  | reportProgress _ => payloadReportProgress
  | publishResource _ => payloadPublishResource
  | other => 0

/-- `SerializeToString`, of a request. -/
def serializeRequest : ParsedMessage → Option Bytes
  | login m => Login.wire.serialize m
  | logout m => Logout.wire.serialize m
  | queryPeer m => QueryPeer.wire.serialize m
  | reportProgress m => ReportProgress.wire.serialize m
  | publishResource m => PublishResource.wire.serialize m
  | other => none

/-- A request, as `NetPack` takes it. -/
def message (m : ParsedMessage) : Message := ⟨utf8 m.fullName, m.serializeRequest⟩

/-- The pack in which a client sends it. -/
def pack (m : ParsedMessage) : NetPack := NetPack.ofMessage m.payloadType m.message

end ParsedMessage

/-- The classes that are linked into the tracker. -/
def pool (name payload : Bytes) : Option ParsedMessage :=
  if name = utf8 "TrackerProto.Login" then (Login.wire.parse payload).map .login
  else if name = utf8 "TrackerProto.Logout" then (Logout.wire.parse payload).map .logout
  else if name = utf8 "TrackerProto.QueryPeer" then (QueryPeer.wire.parse payload).map .queryPeer
  else if name = utf8 "TrackerProto.ReportProgress" then (ReportProgress.wire.parse payload).map .reportProgress
  else if name = utf8 "TrackerProto.PublishResource" then (PublishResource.wire.parse payload).map .publishResource
  else if name = utf8 "TrackerProto.Peer" then (Peer.proto.parseFromString payload).map fun _ => .other
  else if name = utf8 "TrackerProto.PeerFileInfo" then (PeerFileInfo.proto.parseFromString payload).map fun _ => .other
  else if name = utf8 "TrackerProto.QueryPeerReply" then
    (QueryPeerReply.proto.parseFromString payload).map fun _ => .other
  else if name = utf8 "TrackerProto.MessageReply" then (MessageReply.proto.parseFromString payload).map fun _ => .other
  else if name = utf8 "NetPackHeader" then (NetPackHeader.message.decode payload).map fun _ => .other
  else none

theorem utf8_injective : Function.Injective utf8 := by
  intro s t h
  have hutf8 := congrArg ofUtf8 h
  simpa using hutf8

/-- **The tracker reads a request as it was written.** -/
theorem pool_serializeRequest {m : ParsedMessage} {bs : Bytes} (h : m.serializeRequest = some bs) :
    pool (utf8 m.fullName) bs = some m := by
  cases m with
  | login m => simp [pool, ParsedMessage.fullName, Class.parse_of_serialize h]
  | logout m => simp [pool, ParsedMessage.fullName, utf8_injective.eq_iff, Class.parse_of_serialize h]
  | queryPeer m => simp [pool, ParsedMessage.fullName, utf8_injective.eq_iff, Class.parse_of_serialize h]
  | reportProgress m => simp [pool, ParsedMessage.fullName, utf8_injective.eq_iff, Class.parse_of_serialize h]
  | publishResource m => simp [pool, ParsedMessage.fullName, utf8_injective.eq_iff, Class.parse_of_serialize h]
  | other => cases h

theorem ParsedMessage.length_fullName_lt (m : ParsedMessage) : (utf8 m.fullName).length < 128 := by
  have hnames : ∀ name ∈ ["TrackerProto.Login", "TrackerProto.Logout", "TrackerProto.QueryPeer",
      "TrackerProto.ReportProgress", "TrackerProto.PublishResource", ""], (utf8 name).length < 128 := by decide
  refine hnames _ ?_
  cases m <;> simp [fullName]

/-- A request that can be written makes up a pack that can be sent. -/
theorem ParsedMessage.sendable_pack {m : ParsedMessage} (h : m.serializeRequest ≠ none) : NetPack.Sendable .wire m.pack where
  built := .new _ _
  accepted := NetPackHeader.byteSize_wire_bounds _ _ m.length_fullName_lt
  payload_lt := by
    obtain ⟨bs, hbs⟩ := Option.ne_none_iff_exists'.mp h
    have hlen : bs.length < 2 ^ 31 := by
      cases m with
      | login | logout | queryPeer | reportProgress | publishResource =>
        obtain ⟨hlen, rfl⟩ := Proto.serializeToString_eq_some.mp hbs
        exact hlen
      | other => cases hbs
    simpa [pack, NetPack.ofMessage, message, hbs] using hlen

/-- **A request is received as it was sent.** -/
theorem request_received {m : ParsedMessage} (h : m.serializeRequest ≠ none) {rest : Bytes}
    {arrivals : ℕ → Arrival Exception} (hwhole : m.pack.Whole .wire arrivals) (junk : Int32) (q : NetPack) :
    ∃ p, q.receiveFrom .wire junk ⟨m.pack.sent .wire ++ rest, arrivals⟩ =
        (.ok .errorOk, p, ⟨rest, fun i => arrivals (i + 3)⟩) ∧
      p.payloadType = m.payloadType ∧ pool p.messageName p.payload = some m := by
  have hsend := m.sendable_pack h
  obtain ⟨bs, hbs⟩ := Option.ne_none_iff_exists'.mp h
  refine ⟨m.pack, ?_, rfl, ?_⟩
  · rw [NetPack.receiveFrom_sent NetPackHeader.Codec.wire_lossless (hsend.built.framed hsend.accepted hsend.payload_lt)
      hsend.accepted rfl hwhole, hsend.built.arrived_eq]
  · simpa [ParsedMessage.pack, NetPack.ofMessage, ParsedMessage.message, hbs] using pool_serializeRequest hbs

end CoolDown.TrackerProto
