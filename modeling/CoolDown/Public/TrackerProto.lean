import CoolDown.Public.NetPack

/-!
# The messages between client and tracker

`tracker.proto`, and the numbers of `payload_type.h`. A request as the tracker has parsed
it has its required fields; a reply that is being filled in may still lack them, and is
written without them. `MessageReply.proto` and `QueryPeerReply.proto` are how the
generated classes write the replies, and read them.

## What is proved

* `Proto.parseFromString_encode`, of the library, for both: a reply is read as it was
  written if it has its required fields, and not at all otherwise.
-/

namespace CoolDown

open Library

/-- `payload_type.h`. -/
def payloadLogin : Int32 := 10000
@[inherit_doc payloadLogin] def payloadLogout : Int32 := 10001
@[inherit_doc payloadLogin] def payloadRequestPeer : Int32 := 10002
@[inherit_doc payloadLogin] def payloadReportProgress : Int32 := 10003
@[inherit_doc payloadLogin] def payloadPublishResource : Int32 := 10004
@[inherit_doc payloadLogin] def payloadMessageReply : Int32 := 20001
@[inherit_doc payloadLogin] def payloadRequestPeerReplay : Int32 := 20002
@[inherit_doc payloadLogin] def payloadShakeHand : Int32 := 30001
@[inherit_doc payloadLogin] def payloadUploadRequest : Int32 := 30002
@[inherit_doc payloadLogin] def payloadUploadReply : Int32 := 40001

namespace TrackerProto

/-! ### Requests -/

/-- `message QueryPeer`. -/
structure QueryPeer where
  fileId : Bytes
  percentage : Int32
  needCount : Option Int32
  ownedClients : List Bytes
  deriving DecidableEq, Repr

/-- The field, 20 when it is not set. -/
def QueryPeer.needcount (m : QueryPeer) : Int32 := m.needCount.getD 20

/-- `message Login`. -/
structure Login where
  clientId : Bytes
  loginIp : Option Bytes
  messagePort : Option Int32
  deriving DecidableEq, Repr

/-- The field, 9025 when it is not set. -/
def Login.messageport (m : Login) : Int32 := m.messagePort.getD 9025

/-- `message Logout`. -/
structure Logout where
  clientId : Bytes
  deriving DecidableEq, Repr

/-- `message ReportProgress`. -/
structure ReportProgress where
  clientId : Bytes
  fileId : Bytes
  percentage : Int32
  deriving DecidableEq, Repr

/-- `message PublishResource`. -/
structure PublishResource where
  clientId : Bytes
  fileId : Bytes
  deriving DecidableEq, Repr

/-- A message that has been parsed from a request. -/
inductive ParsedMessage where
  | login (m : Login)
  | logout (m : Logout)
  | queryPeer (m : QueryPeer)
  | reportProgress (m : ReportProgress)
  | publishResource (m : PublishResource)
  /-- A message of any other class that is linked in. -/
  | other
  deriving DecidableEq, Repr

/-! ### Replies -/

/-- `message Peer`, its fields set or not. -/
structure Peer where
  clientId : Option Bytes
  ip : Option Bytes
  messagePort : Option Int32
  deriving DecidableEq, Repr

/-- `message PeerFileInfo`, its fields set or not. -/
structure PeerFileInfo where
  client : Option Peer
  percentage : Option Int32
  deriving DecidableEq, Repr

/-- `message QueryPeerReply`, its fields set or not. -/
structure QueryPeerReply where
  returnCode : Option Int32
  fileId : Option Bytes
  count : Option Int32
  info : List PeerFileInfo
  deriving DecidableEq, Repr

/-- `message MessageReply`, its fields set or not. -/
structure MessageReply where
  returnCode : Option Int32
  message : Option Bytes
  deriving DecidableEq, Repr

/-- `message Peer`, as it is written. -/
def Peer.proto : Wire.Proto Peer where
  toFields p :=
    (p.clientId.map fun s => ⟨1, .bytes s⟩).toList ++ (p.ip.map fun s => ⟨2, .bytes s⟩).toList ++
      (p.messagePort.map fun x => ⟨3, .varint (Wire.int32Value x)⟩).toList
  init := ⟨none, none, none⟩
  setField p
    | ⟨1, .bytes s⟩ => some { p with clientId := some s }
    | ⟨2, .bytes s⟩ => some { p with ip := some s }
    | ⟨3, .varint n⟩ => some { p with messagePort := some (Wire.ofInt32Value n) }
    | _ => some p
  foldlM_toFields := by
    rintro ⟨clientId, ip, messagePort⟩
    cases clientId <;> cases ip <;> cases messagePort <;> simp
  isInitialized p := p.clientId.isSome && p.ip.isSome && p.messagePort.isSome

/-- `message PeerFileInfo`, as it is written. -/
def PeerFileInfo.proto : Wire.Proto PeerFileInfo where
  toFields f :=
    (f.client.map fun p => ⟨1, .bytes (Peer.proto.encode p)⟩).toList ++
      (f.percentage.map fun x => ⟨2, .varint (Wire.int32Value x)⟩).toList
  init := ⟨none, none⟩
  setField f
    | ⟨1, .bytes s⟩ => (Peer.proto.merge (f.client.getD Peer.proto.init) s).map fun p => { f with client := some p }
    | ⟨2, .varint n⟩ => some { f with percentage := some (Wire.ofInt32Value n) }
    | _ => some f
  foldlM_toFields := by
    rintro ⟨client, percentage⟩
    have hpeer : ∀ p, Peer.proto.merge Peer.proto.init (Peer.proto.encode p) = some p :=
      fun p => Peer.proto.decode_encode p
    cases client <;> cases percentage <;> simp [hpeer]
  isInitialized f := f.client.any Peer.proto.isInitialized && f.percentage.isSome

/-- What a field of a `QueryPeerReply` sets. -/
def QueryPeerReply.setField (r : QueryPeerReply) : Wire.Field → Option QueryPeerReply
  | ⟨1, .varint n⟩ => some { r with returnCode := some (Wire.ofInt32Value n) }
  | ⟨2, .bytes s⟩ => some { r with fileId := some s }
  | ⟨3, .varint n⟩ => some { r with count := some (Wire.ofInt32Value n) }
  | ⟨4, .bytes s⟩ => (PeerFileInfo.proto.decode s).map fun f => { r with info := r.info ++ [f] }
  | _ => some r

/-- `message QueryPeerReply`, as it is written. -/
def QueryPeerReply.proto : Wire.Proto QueryPeerReply where
  toFields r :=
    (r.returnCode.map fun x => ⟨1, .varint (Wire.int32Value x)⟩).toList ++
      (r.fileId.map fun s => ⟨2, .bytes s⟩).toList ++
      (r.count.map fun x => ⟨3, .varint (Wire.int32Value x)⟩).toList ++
      r.info.map fun f => ⟨4, .bytes (PeerFileInfo.proto.encode f)⟩
  init := ⟨none, none, none, []⟩
  setField := setField
  foldlM_toFields := by
    rintro ⟨returnCode, fileId, count, info⟩
    have hinfo : ∀ (x : Option Int32) (s : Option Bytes) (y : Option Int32),
        (info.map fun f => (⟨4, .bytes (PeerFileInfo.proto.encode f)⟩ : Wire.Field)).foldlM setField ⟨x, s, y, []⟩ =
          some ⟨x, s, y, info⟩ := by
      intro x s y
      refine Wire.foldlM_repeated (QueryPeerReply.mk x s y) ?_ info
      intro info f
      simp [setField]
    simp only [List.foldlM_append]
    cases returnCode <;> cases fileId <;> cases count <;> simp [setField, hinfo]
  isInitialized r :=
    r.returnCode.isSome && r.fileId.isSome && r.count.isSome && r.info.all PeerFileInfo.proto.isInitialized

/-- `message MessageReply`, as it is written. -/
def MessageReply.proto : Wire.Proto MessageReply where
  toFields r :=
    (r.returnCode.map fun x => ⟨1, .varint (Wire.int32Value x)⟩).toList ++
      (r.message.map fun s => ⟨2, .bytes s⟩).toList
  init := ⟨none, none⟩
  setField r
    | ⟨1, .varint n⟩ => some { r with returnCode := some (Wire.ofInt32Value n) }
    | ⟨2, .bytes s⟩ => some { r with message := some s }
    | _ => some r
  foldlM_toFields := by
    rintro ⟨returnCode, message⟩
    cases returnCode <;> cases message <;> simp
  isInitialized r := r.returnCode.isSome

end TrackerProto

end CoolDown
