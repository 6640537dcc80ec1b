import CoolDown.Public.TrackerProto
import CoolDown.Tracker.Tracker

/-!
# A connection to the tracker: `TrackerConnectionHandler`

The tracker has one handler for each connection. `onReadable` receives a request, has
`Process` answer it, and sends the answer; where receiving or sending fails it sets the
client offline and deletes the handler. `onShutdown` deletes it at once.

## The model

A `Handler` is its member `clientid` and the host the connection comes from. A function
that may throw returns what it throws next to the state it leaves. All that the handlers
call throws exceptions of Poco, which `Process` catches. `Io` is what the outside decides
while a request is answered, and `Pool` what the generated classes make of a payload, by
the name of its class.

## What is proved

* `handleLogin_login`, `handleLogOut_logout`: what a login and a logout store, and when
  they succeed.
* `process_database`: what each request does to the tables.
-/

namespace CoolDown.Tracker

open Library TrackerProto

/-- The generated classes: the message in a payload, by the name of the class; nothing
for a name that is not known or a payload that cannot be parsed. -/
abbrev Pool := Bytes → Bytes → Option ParsedMessage

/-- `NetPack::message`, of a request. -/
def message (pool : Pool) (p : NetPack) : Option ParsedMessage := pool p.messageName p.payload

/-- What the outside decides while a request is answered. -/
structure Io where
  my : MySQL
  /-- The current time. -/
  now : Bytes

/-- `TrackerConnectionHandler`: its client id, and the host of `sock_.peerAddress()`. -/
structure Handler where
  clientid : Bytes
  host : Bytes
  deriving DecidableEq, Repr

namespace Handler

/-- `TrackerConnectionHandler::TrackerConnectionHandler`. -/
def new (host : Bytes) : Handler := ⟨[], host⟩

/-- `HandleLogin`. The client id is stored before the login has succeeded. -/
def handleLogin (io : Io) (h : Handler) (db : Database) (m : ParsedMessage) (out : MessageReply) :
    Except Exception Retcode × Handler × Database × MessageReply :=
  let out := { out with returnCode := some Retcode.errorUnknown.value }
  match m with
  | .login m =>
    let ip := m.loginIp.getD h.host
    let h := { h with clientid := m.clientId }
    match addOnlineUser io.my io.now db ⟨m.clientId, ip, m.messageport⟩ with
    | (.error e, db) => (.error e, h, db, out)
    | (.ok ret, db) =>
      if ret ≠ .errorOk then (.ok ret, h, db, out)
      else (.ok .errorOk, h, db, { out with returnCode := some Retcode.errorOk.value })
  | _ => (.ok .errorProtoTypeError, h, db, out)

/-- `HandleLogOut`. -/
def handleLogOut (io : Io) (h : Handler) (db : Database) (m : ParsedMessage) (out : MessageReply) :
    Except Exception Retcode × Database × MessageReply :=
  let out := { out with returnCode := some Retcode.errorUnknown.value }
  match m with
  | .logout m =>
    if m.clientId ≠ h.clientid then (.ok .errorUnknown, db, out)
    else
      match removeOnlineUser io.my db m.clientId with
      | (.error e, db) => (.error e, db, out)
      | (.ok ret, db) =>
        if ret ≠ .errorOk then (.ok ret, db, out)
        else (.ok .errorOk, db, { out with returnCode := some Retcode.errorOk.value })
  | _ => (.ok .errorProtoTypeError, db, out)

/-- The `PeerFileInfo` that is made of an entry. -/
def peerFileInfo (entry : Entry) : PeerFileInfo :=
  ⟨some ⟨some entry.1.clientid, some entry.1.ip, some entry.1.messageport⟩, some entry.2.percentage⟩

/-- `HandleRequestPeer`. -/
def handleRequestPeer (io : Io) (h : Handler) (db : Database) (m : ParsedMessage) (out : QueryPeerReply) :
    Except Exception Retcode × QueryPeerReply :=
  match m with
  | .queryPeer m =>
    let out := { out with fileId := some m.fileId }
    let idCollection := m.ownedClients ++ [h.clientid]
    match requestClients io.my db m.fileId m.percentage m.needcount idCollection with
    | .error e => (.error e, out)
    | .ok (ret, fileInfoCollection) =>
      if ret ≠ .errorOk then (.ok ret, { out with count := some 0 })
      else
        let out := { out with count := some (Int32.ofNat fileInfoCollection.length) }
        let out := { out with info := out.info ++ fileInfoCollection.map peerFileInfo }
        (.ok .errorOk, { out with returnCode := some Retcode.errorOk.value })
  | _ => (.ok .errorProtoTypeError, out)

/-- `HandleReportProgress`. -/
def handleReportProgress (io : Io) (db : Database) (m : ParsedMessage) (out : MessageReply) :
    Except Exception Retcode × Database × MessageReply :=
  let out := { out with returnCode := some Retcode.errorUnknown.value }
  match m with
  | .reportProgress m =>
    match reportProgress io.my db m.clientId m.fileId m.percentage with
    | (.error e, db) => (.error e, db, out)
    | (.ok ret, db) =>
      if ret ≠ .errorOk then (.ok ret, db, out)
      else (.ok .errorOk, db, { out with returnCode := some Retcode.errorOk.value })
  | _ => (.ok .errorProtoTypeError, db, out)

/-- `HandlePublishResource`. -/
def handlePublishResource (io : Io) (db : Database) (m : ParsedMessage) (out : MessageReply) :
    Except Exception Retcode × Database × MessageReply :=
  let out := { out with returnCode := some Retcode.errorUnknown.value }
  match m with
  | .publishResource m =>
    match publishResource io.my db m.clientId m.fileId with
    | (.error e, db) => (.error e, db, out)
    | (.ok ret, db) =>
      if ret ≠ .errorOk then (.ok ret, db, out)
      else (.ok .errorOk, db, { out with returnCode := some Retcode.errorOk.value })
  | _ => (.ok .errorProtoTypeError, db, out)

/-- A `MessageReply`, as `set_message` takes it. -/
def messageReply (mr : MessageReply) : Message :=
  ⟨Wire.utf8 "TrackerProto.MessageReply", MessageReply.proto.serializeToString mr⟩

/-- A `QueryPeerReply`, as `set_message` takes it. -/
def queryPeerReply (qpr : QueryPeerReply) : Message :=
  ⟨Wire.utf8 "TrackerProto.QueryPeerReply", QueryPeerReply.proto.serializeToString qpr⟩

/-- The switch of `Process`. What a handler returns or throws is not looked at. -/
def dispatch (io : Io) (h : Handler) (db : Database) (payloadType : Int32) (m : ParsedMessage) (mr : MessageReply)
    (qpr : QueryPeerReply) : Handler × Database × MessageReply × QueryPeerReply :=
  if payloadType = payloadLogin then
    let (_, h, db, mr) := h.handleLogin io db m mr
    (h, db, mr, qpr)
  else if payloadType = payloadLogout then
    let (_, db, mr) := h.handleLogOut io db m mr
    (h, db, mr, qpr)
  else if payloadType = payloadRequestPeer then
    let (_, qpr) := h.handleRequestPeer io db m qpr
    (h, db, mr, qpr)
  else if payloadType = payloadReportProgress then
    let (_, db, mr) := handleReportProgress io db m mr
    (h, db, mr, qpr)
  else if payloadType = payloadPublishResource then
    let (_, db, mr) := handlePublishResource io db m mr
    (h, db, mr, qpr)
  else (h, db, mr, qpr)

/-- `Process`. -/
def process (pool : Pool) (io : Io) (h : Handler) (db : Database) (pack : NetPack) (out : NetPack) :
    Handler × Database × NetPack :=
  match message pool pack with
  | none => (h, db, out)
  | some m =>
    let mr : MessageReply := ⟨some Retcode.errorUnknown.value, none⟩
    let qpr : QueryPeerReply := ⟨some Retcode.errorUnknown.value, none, none, []⟩
    let (h, db, mr, qpr) := h.dispatch io db pack.payloadType m mr qpr
    if pack.payloadType ≠ payloadRequestPeer then (h, db, out.setMessage payloadMessageReply (messageReply mr))
    else (h, db, out.setMessage payloadRequestPeerReplay (queryPeerReply qpr))

/-- The end of `onReadable` where receiving or sending has failed: the handler is deleted, unless setting
its client offline throws. -/
def giveUp (my : MySQL) (h : Handler) (db : Database) : Except Exception Unit × Option Handler × Database :=
  match removeOnlineUser my db h.clientid with
  | (.error e, db) => (.error e, some h, db)
  | (.ok _, db) => (.ok (), none, db)

/-- `onReadable`: `received` is what `receiveFrom` returns and has in the pack, `send` what
`sendBy` returns for an answer, and `my` the server when the connection is given up. A
handler that is deleted is `none`. -/
def onReadable (pool : Pool) (io : Io) (my : MySQL) (h : Handler) (db : Database)
    (received : Except Exception Retcode × NetPack) (send : NetPack → Except Exception Retcode) :
    Except Exception Unit × Option Handler × Database :=
  match received with
  | (.error e, _) => (.error e, some h, db)
  | (.ok ret, pack) =>
    if ret ≠ .errorOk then h.giveUp my db
    else
      let (h, db, retMsg) := h.process pool io db pack .new
      match send retMsg with
      | .error e => (.error e, some h, db)
      | .ok ret => if ret ≠ .errorOk then h.giveUp my db else (.ok (), some h, db)

/-- `onShutdown`. -/
def onShutdown (_h : Handler) (db : Database) : Option Handler × Database := (none, db)

/-! ### What a request stores -/

/-- A login is what `AddOnlineUser` is, and the client id is stored in any case. -/
theorem handleLogin_login (io : Io) (h : Handler) (db : Database) (m : Login) (out : MessageReply) :
    let added := addOnlineUser io.my io.now db ⟨m.clientId, m.loginIp.getD h.host, m.messageport⟩
    (h.handleLogin io db (.login m) out).1 = added.1 ∧
      (h.handleLogin io db (.login m) out).2.1 = { h with clientid := m.clientId } ∧
      (h.handleLogin io db (.login m) out).2.2.1 = added.2 := by
  intro added
  simp only [handleLogin]
  rcases hadded : addOnlineUser io.my io.now db ⟨m.clientId, m.loginIp.getD h.host, m.messageport⟩ with ⟨ret | ret, db'⟩
  · simp [added, hadded]
  · by_cases hret : ret = .errorOk
    · simp [added, hadded, hret]
    · simp [added, hadded, hret]

/-- A logout with the client id of the connection is what `RemoveOnlineUser` is. -/
theorem handleLogOut_logout (io : Io) (h : Handler) (db : Database) (m : Logout) (out : MessageReply)
    (hm : m.clientId = h.clientid) :
    (h.handleLogOut io db (.logout m) out).1 = (removeOnlineUser io.my db m.clientId).1 ∧
      (h.handleLogOut io db (.logout m) out).2.1 = (removeOnlineUser io.my db m.clientId).2 := by
  simp only [handleLogOut, hm, ne_eq, not_true_eq_false, if_false]
  rcases removeOnlineUser io.my db h.clientid with ⟨ret | ret, db'⟩
  · simp
  · by_cases hret : ret = .errorOk
    · simp [hret]
    · simp [hret]

/-- Any other logout is refused. -/
theorem handleLogOut_of_ne (io : Io) (h : Handler) (db : Database) (m : Logout) (out : MessageReply)
    (hm : m.clientId ≠ h.clientid) :
    (h.handleLogOut io db (.logout m) out).1 = .ok .errorUnknown ∧ (h.handleLogOut io db (.logout m) out).2.1 = db := by
  simp [handleLogOut, hm]

theorem handleReportProgress_database (io : Io) (db : Database) (m : ReportProgress) (out : MessageReply) :
    (handleReportProgress io db (.reportProgress m) out).2.1 =
      (reportProgress io.my db m.clientId m.fileId m.percentage).2 := by
  simp only [handleReportProgress]
  rcases reportProgress io.my db m.clientId m.fileId m.percentage with ⟨ret | ret, db'⟩
  · rfl
  · by_cases hret : ret = .errorOk
    · simp [hret]
    · simp [hret]

theorem handlePublishResource_database (io : Io) (db : Database) (m : PublishResource) (out : MessageReply) :
    (handlePublishResource io db (.publishResource m) out).2.1 = (publishResource io.my db m.clientId m.fileId).2 := by
  simp only [handlePublishResource]
  rcases publishResource io.my db m.clientId m.fileId with ⟨ret | ret, db'⟩
  · rfl
  · by_cases hret : ret = .errorOk
    · simp [hret]
    · simp [hret]

/-- The tables after a request other than a login. -/
def stored (io : Io) (h : Handler) (db : Database) (payloadType : Int32) : ParsedMessage → Database
  | .logout m =>
    if payloadType = payloadLogout ∧ m.clientId = h.clientid then (removeOnlineUser io.my db m.clientId).2 else db
  | .reportProgress m =>
    if payloadType = payloadReportProgress then (reportProgress io.my db m.clientId m.fileId m.percentage).2 else db
  | .publishResource m =>
    if payloadType = payloadPublishResource then (publishResource io.my db m.clientId m.fileId).2 else db
  | _ => db

theorem dispatch_stored (io : Io) (h : Handler) (db : Database) {payloadType : Int32}
    (hlogin : payloadType ≠ payloadLogin) (m : ParsedMessage) (mr : MessageReply) (qpr : QueryPeerReply) :
    (h.dispatch io db payloadType m mr qpr).1 = h ∧
      (h.dispatch io db payloadType m mr qpr).2.1 = h.stored io db payloadType m := by
  have hkinds : payloadReportProgress ≠ payloadLogout ∧ payloadPublishResource ≠ payloadLogout ∧
      payloadPublishResource ≠ payloadReportProgress ∧ payloadRequestPeer ≠ payloadLogout ∧
      payloadRequestPeer ≠ payloadReportProgress ∧ payloadRequestPeer ≠ payloadPublishResource := by decide
  rw [dispatch, if_neg hlogin]
  split_ifs with hlogout hpeer hreport hpublish
  · refine ⟨rfl, ?_⟩
    subst hlogout
    cases m with
    | logout m =>
      by_cases hm : m.clientId = h.clientid
      · simp [stored, hm, (handleLogOut_logout io h db m mr hm).2]
      · simp [stored, hm, (handleLogOut_of_ne io h db m mr hm).2]
    | login | queryPeer | reportProgress | publishResource | other =>
      simp [stored, handleLogOut, hkinds.1.symm, hkinds.2.1.symm]
  · refine ⟨rfl, ?_⟩
    subst hpeer
    cases m <;> simp [stored, hkinds]
  · refine ⟨rfl, ?_⟩
    subst hreport
    cases m with
    | reportProgress m => simp [stored, handleReportProgress_database]
    | login | logout | queryPeer | publishResource | other =>
      simp [stored, handleReportProgress, hkinds, hkinds.2.2.1.symm]
  · refine ⟨rfl, ?_⟩
    subst hpublish
    cases m with
    | publishResource m => simp [stored, handlePublishResource_database]
    | login | logout | queryPeer | reportProgress | other => simp [stored, handlePublishResource, hkinds]
  · refine ⟨rfl, ?_⟩
    cases m <;> simp [stored, *]

/-- **What a request other than a login does to the tables.** -/
theorem process_database (pool : Pool) (io : Io) (h : Handler) (db : Database) {pack : NetPack}
    (hlogin : pack.payloadType ≠ payloadLogin) (out : NetPack) :
    (h.process pool io db pack out).1 = h ∧
      (h.process pool io db pack out).2.1 =
        ((message pool pack).map (h.stored io db pack.payloadType)).getD db := by
  unfold process
  cases message pool pack with
  | none => exact ⟨rfl, rfl⟩
  | some m =>
    obtain ⟨hh, hdb⟩ := dispatch_stored io h db hlogin m ⟨some Retcode.errorUnknown.value, none⟩
      ⟨some Retcode.errorUnknown.value, none, none, []⟩
    simp only [Option.map_some, Option.getD_some, ← hdb]
    split_ifs
    · exact ⟨hh, rfl⟩
    · exact ⟨hh, rfl⟩

/-- What a pack of the type of a login does. -/
theorem process_login (pool : Pool) (io : Io) (h : Handler) (db : Database) {pack : NetPack}
    (hlogin : pack.payloadType = payloadLogin) (out : NetPack) :
    ((h.process pool io db pack out).1, (h.process pool io db pack out).2.1) =
      match message pool pack with
      | some (.login m) =>
        ({ h with clientid := m.clientId },
          (addOnlineUser io.my io.now db ⟨m.clientId, m.loginIp.getD h.host, m.messageport⟩).2)
      | _ => (h, db) := by
  have hpeer : payloadLogin ≠ payloadRequestPeer := by decide
  unfold process
  cases message pool pack with
  | none => rfl
  | some m =>
    simp only [dispatch, hlogin, if_true, ne_eq, hpeer, not_false_eq_true]
    cases m with
    | login m =>
      obtain ⟨-, hh, hdb⟩ := handleLogin_login io h db m ⟨some Retcode.errorUnknown.value, none⟩
      exact Prod.ext hh hdb
    | logout | queryPeer | reportProgress | publishResource | other => rfl

end Handler

end CoolDown.Tracker
