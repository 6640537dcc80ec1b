import CoolDown.Library.Run
import CoolDown.Tracker.TrackerConnectionHandler

/-!
# Who is online

`ISONLINE` is set by a login and cleared by a logout, and where a connection is given up.
It should say who has an open connection that it has logged in with. Three things go
against that. The column does not count: whoever is set offline is so for all of his
connections. A connection that logs in again with another client id leaves the first one
online. And a handler may be deleted, or find that its connection is gone, without setting
anybody offline: `onShutdown` deletes it at once, and a `receiveFrom` that throws leaves
`onReadable` before it comes to that.

## The model

A `Connection` is its handler, until it is deleted, whether it is open, and the client id
of its latest successful login, unless it has successfully logged out since. An `Event` is
a connection made, a call of `onReadable` with what it receives and what becomes of the
answer, or a call of `onShutdown`. A `receiveFrom` at the end of the stream is the one of
`NetPack`, with what `headerLength` happens to hold. Reports of progress are left out, as
the server may read anything in their strings.

## What is proved

* `run_online` and `liveFor_readable`: what a call of `onReadable` does to who is
  online, and to who should be.
* `online_iff_live`: over a run, those are online that should be, throughout, if and only if
  every event of it is `Clean`.
* `online_without_connection`: after a login and a shutdown the client stays online.
-/

namespace CoolDown.Tracker

open Library TrackerProto

/-! ### Who is set online and offline -/

theorem addOnlineUser_online {my : MySQL} (now : Bytes) (db : Database) (peer : ClientInfo) (id : Bytes) :
    (addOnlineUser my now db peer).2.Online id ↔ db.Online id ∨ my.fails = false ∧ peer.clientid = id := by
  unfold addOnlineUser insertOrUpdateLoginInfo
  cases hfails : my.fails with
  | true => simp
  | false =>
    simp only [Bool.false_eq_true, if_false, true_and, Database.Online]
    rcases db.clientInfo.insertOrUpdate_cases ⟨peer.clientid, peer.ip, peer.messageport, 0, 0, now, now, 1⟩
      (.login peer.ip peer.messageport now) fun _ => rfl with ⟨-, hrows⟩ | ⟨hthere, hupdate⟩
    · rw [hrows]
      simp only [List.mem_append, List.mem_singleton]
      constructor
      · intro h
        obtain ⟨row, hrow | rfl, hid, honline⟩ := h
        · exact .inl ⟨row, hrow, hid, honline⟩
        · exact .inr hid
      · intro h
        rcases h with ⟨row, hrow, hid, honline⟩ | rfl
        · exact ⟨row, .inl hrow, hid, honline⟩
        · exact ⟨_, .inr rfl, rfl, rfl⟩
    · rw [hupdate]
      constructor
      · intro h
        obtain ⟨row, hrow, hid, honline⟩ := h
        obtain ⟨row', hrow', rfl⟩ := Table.mem_update.mp hrow
        by_cases hkey : row'.clientid = peer.clientid
        · right
          simpa [hkey, ClientInfoRow.login] using hid
        · left
          exact ⟨row', hrow', by simpa [hkey] using hid, by simpa [hkey] using honline⟩
      · intro h
        rcases h with ⟨row, hrow, hid, honline⟩ | rfl
        · refine ⟨_, Table.mem_update.mpr ⟨row, hrow, rfl⟩, ?_, ?_⟩
          · split_ifs
            · exact hid
            · exact hid
          · split_ifs
            · rfl
            · exact honline
        · obtain ⟨row, hrow, hkey⟩ := hthere
          refine ⟨_, Table.mem_update.mpr ⟨row, hrow, rfl⟩, ?_, ?_⟩
          · simp [hkey, ClientInfoRow.login]
          · simp [hkey, ClientInfoRow.login]

theorem addOnlineUser_ok (my : MySQL) (now : Bytes) (db : Database) (peer : ClientInfo) :
    (addOnlineUser my now db peer).1 = .ok .errorOk ↔ my.fails = false := by
  unfold addOnlineUser insertOrUpdateLoginInfo
  cases my.fails <;> simp

theorem removeOnlineUser_online (my : MySQL) (db : Database) (clientid id : Bytes) :
    (removeOnlineUser my db clientid).2.Online id ↔ db.Online id ∧ ¬(my.fails = false ∧ id = clientid) := by
  unfold removeOnlineUser updateLogoutInfo
  cases hfails : my.fails with
  | true => simp
  | false =>
    simp only [Bool.false_eq_true, if_false, true_and, Database.Online]
    constructor
    · intro h
      obtain ⟨_, hmem, hid, honline⟩ := h
      obtain ⟨row, hrow, rfl⟩ := Table.mem_update.mp hmem
      by_cases hkey : row.clientid = clientid
      · simp [hkey, ClientInfoRow.logout] at honline
      · have hid : row.clientid = id := by simpa [hkey] using hid
        have honline : row.isOnline = 1 := by simpa [hkey] using honline
        exact ⟨⟨row, hrow, hid, honline⟩, fun heq => hkey (hid.trans heq)⟩
    · intro h
      obtain ⟨⟨row, hrow, rfl, honline⟩, hne⟩ := h
      exact ⟨row, Table.mem_update.mpr ⟨row, hrow, by simp [hne]⟩, rfl, honline⟩

theorem removeOnlineUser_ok (my : MySQL) (db : Database) (clientid : Bytes) :
    (removeOnlineUser my db clientid).1 = .ok .errorOk ↔ my.fails = false := by
  unfold removeOnlineUser updateLogoutInfo
  cases my.fails <;> simp

theorem removeOnlineUser_of_fails {my : MySQL} (hmy : my.fails = true) (db : Database) (clientid : Bytes) :
    removeOnlineUser my db clientid = (.error .runtime, db) := by
  simp [removeOnlineUser, updateLogoutInfo, hmy]

theorem removeOnlineUser_of_not_fails {my : MySQL} (hmy : my.fails = false) (db : Database) (clientid : Bytes) :
    removeOnlineUser my db clientid = (.ok .errorOk, (removeOnlineUser my db clientid).2) :=
  Prod.ext ((removeOnlineUser_ok my db clientid).mpr hmy) rfl

theorem publishResource_online (my : MySQL) (db : Database) (clientid fileid id : Bytes) :
    (publishResource my db clientid fileid).2.Online id ↔ db.Online id := by
  unfold publishResource insertFileOwnerInfo
  split_ifs
  · rfl
  · split
    · rfl
    · rfl

/-! ### What a pack asks for -/

/-- What a pack that is no report asks for: a login, a logout that is not refused, or
nothing to do with who is online. -/
inductive Asked where
  | login (id : Bytes)
  | logout
  | nothing
  deriving DecidableEq

namespace Handler

/-- What the pack asks for on the connection of the handler. -/
def asked (pool : Pool) (h : Handler) (p : NetPack) : Asked :=
  match message pool p with
  | some (.login m) => if p.payloadType = payloadLogin then .login m.clientId else .nothing
  | some (.logout m) => if p.payloadType = payloadLogout ∧ m.clientId = h.clientid then .logout else .nothing
  | _ => .nothing

/-- The client id of the latest successful login, unless there is a successful logout after
it: what it is after the pack. -/
def liveAfter (pool : Pool) (io : Io) (h : Handler) (db : Database) (p : NetPack) (live : Option Bytes) :
    Option Bytes :=
  match message pool p with
  | some (.login m) =>
    if p.payloadType = payloadLogin ∧ (h.handleLogin io db (.login m) ⟨none, none⟩).1 = .ok .errorOk then some m.clientId
    else live
  | some (.logout m) =>
    if p.payloadType = payloadLogout ∧ (h.handleLogOut io db (.logout m) ⟨none, none⟩).1 = .ok .errorOk then none
    else live
  | _ => live

/-- **What a pack does to who is online**, and to the client id of the handler. -/
theorem process_online (pool : Pool) (io : Io) (h : Handler) (db : Database) {p : NetPack}
    (hreport : p.payloadType ≠ payloadReportProgress) :
    (h.process pool io db p .new).1.clientid = (match h.asked pool p with | .login id => id | _ => h.clientid) ∧
      ∀ id, (h.process pool io db p .new).2.1.Online id ↔
        (db.Online id ∨ io.my.fails = false ∧ h.asked pool p = .login id) ∧
          ¬(io.my.fails = false ∧ h.asked pool p = .logout ∧ id = h.clientid) := by
  unfold asked
  by_cases hlogin : p.payloadType = payloadLogin
  · have hprocess := process_login pool io h db hlogin .new
    have hlogout : payloadLogin ≠ payloadLogout := by decide
    obtain ⟨hh, hdb⟩ := Prod.ext_iff.mp hprocess
    simp only at hh hdb
    rw [hh, hdb, hlogin]
    cases message pool p with
    | none => simp
    | some m =>
      cases m with
      | login m => simp [addOnlineUser_online]
      | logout | queryPeer | reportProgress | publishResource | other => simp [hlogout]
  · obtain ⟨hh, hdb⟩ := process_database pool io h db hlogin .new
    rw [hh, hdb]
    cases message pool p with
    | none => simp
    | some m =>
      cases m with
      | logout m =>
        by_cases hown : p.payloadType = payloadLogout ∧ m.clientId = h.clientid
        · simp [stored, hown, removeOnlineUser_online]
        · simp [stored, hown]
      | publishResource m =>
        by_cases htype : p.payloadType = payloadPublishResource
        · simp [stored, htype, publishResource_online]
        · simp [stored, htype]
      | login | queryPeer | reportProgress | other => simp [stored, hlogin, hreport]

/-- **What a pack does to who should be online.** -/
theorem liveAfter_eq (pool : Pool) (io : Io) (h : Handler) (db : Database) (p : NetPack) (live : Option Bytes) :
    h.liveAfter pool io db p live =
      if io.my.fails then live
      else match h.asked pool p with
        | .login id => some id
        | .logout => none
        | .nothing => live := by
  unfold liveAfter asked
  cases message pool p with
  | none => simp
  | some m =>
    cases m with
    | login m =>
      simp only [(handleLogin_login io h db m ⟨none, none⟩).1, addOnlineUser_ok]
      by_cases htype : p.payloadType = payloadLogin
      · cases io.my.fails <;> simp [htype]
      · simp [htype]
    | logout m =>
      by_cases hm : m.clientId = h.clientid
      · simp only [(handleLogOut_logout io h db m ⟨none, none⟩ hm).1, removeOnlineUser_ok, hm, and_true]
        by_cases htype : p.payloadType = payloadLogout
        · cases io.my.fails <;> simp [htype]
        · simp [htype]
      · simp [(handleLogOut_of_ne io h db m ⟨none, none⟩ hm).1, hm]
    | queryPeer | reportProgress | publishResource | other => simp

end Handler

/-! ### A call of `onReadable` -/

/-- What `receiveFrom` comes to. -/
inductive Received where
  /-- A pack. -/
  | pack (p : NetPack)
  /-- The stream has ended; `junk` is what `headerLength` holds. -/
  | closed (junk : Int32)
  /-- It returns another error. -/
  | failed (ret : Retcode)
  /-- It throws, and the connection is gone or not. -/
  | throws (e : Exception) (gone : Bool)

/-- What `receiveFrom` returns, and has in the pack. -/
def Received.outcome : Received → Except Exception Retcode × NetPack
  | pack p => (.ok .errorOk, p)
  | closed junk =>
    let (ret, p, _) := NetPack.new.receiveFrom .wire junk ⟨[], fun _ => .upTo 1⟩
    (ret, p)
  | failed ret => (.ok ret, .new)
  | throws e _ => (.error e, .new)

/-- At the end of the stream, `receiveFrom` fails on the value that `headerLength` happens to hold. -/
theorem Received.outcome_closed (junk : Int32) :
    (closed junk).outcome.1 =
      if 0 < junk ∧ junk < 1000 then .ok .errorNetGracefulShutdown else .error .assertion := by
  simp only [outcome, NetPack.receiveFrom, NetPack.receiveHeaderLength, Source.read, List.take_nil, List.length_nil]
  by_cases hjunk : 0 < junk ∧ junk < 1000
  · simp [hjunk]
  · simp [hjunk]

/-- A call of `onReadable`: what it receives, what the outside decides while the request is
answered, what becomes of the answer, and the server when the connection is given up. -/
structure Reading where
  received : Received
  io : Io
  sent : Except Exception Retcode
  my : MySQL

namespace Reading

/-- A pack comes over an open connection, and is no report; an error is not `ERROR_OK`. -/
def Possible (r : Reading) (isOpen : Bool) : Prop :=
  match r.received with
  | .pack p => isOpen ∧ p.payloadType ≠ payloadReportProgress
  | .failed ret => ret ≠ .errorOk
  | _ => True

instance (r : Reading) (isOpen : Bool) : Decidable (r.Possible isOpen) :=
  match h : r.received with
  | .pack p => decidable_of_iff (isOpen = true ∧ p.payloadType ≠ payloadReportProgress) (by simp [Possible, h])
  | .closed _ => isTrue (by simp [Possible, h])
  | .failed ret => decidable_of_iff (ret ≠ .errorOk) (by simp [Possible, h])
  | .throws .. => isTrue (by simp [Possible, h])

/-- What is asked for. -/
def asked (pool : Pool) (h : Handler) (r : Reading) : Asked :=
  match r.received with
  | .pack p => h.asked pool p
  | _ => .nothing

/-- The client id that the handler has then. -/
def clientid (pool : Pool) (h : Handler) (r : Reading) : Bytes :=
  match r.asked pool h with
  | .login id => id
  | _ => h.clientid

/-- Receiving or sending returns an error, and setting the client offline does not throw: the
handler is deleted. -/
def givesUp (r : Reading) : Bool :=
  !r.my.fails &&
    match r.received with
    | .pack _ =>
      match r.sent with
      | .ok ret => ret ≠ .errorOk
      | .error _ => false
    | .closed junk => decide (0 < junk ∧ junk < 1000)
    | .failed _ => true
    | .throws .. => false

/-- The connection is found to be gone. -/
def gone (r : Reading) : Bool :=
  match r.received with
  | .closed _ => true
  | .throws _ gone => gone
  | _ => false

/-- A logout succeeds. -/
def LogsOut (pool : Pool) (h : Handler) (r : Reading) : Prop := r.io.my.fails = false ∧ r.asked pool h = .logout

/-- A login with the client id succeeds. -/
def LogsIn (pool : Pool) (h : Handler) (r : Reading) (id : Bytes) : Prop :=
  r.io.my.fails = false ∧ r.asked pool h = .login id

theorem LogsIn.isOpen {pool : Pool} {h : Handler} {r : Reading} {isOpen : Bool} {id : Bytes} (hr : r.Possible isOpen)
    (hin : r.LogsIn pool h id) : isOpen = true ∧ r.gone = false := by
  obtain ⟨received, io, sent, my⟩ := r
  cases received with
  | pack p => exact ⟨hr.1, rfl⟩
  | closed | failed | throws => cases hin.2

/-- A login is for one client id, which the handler then has, and is nothing else. -/
theorem LogsIn.only {pool : Pool} {h : Handler} {r : Reading} {id : Bytes} (hin : r.LogsIn pool h id) :
    id = r.clientid pool h ∧ ¬r.LogsOut pool h ∧ ∀ id', r.LogsIn pool h id' → id' = id := by
  refine ⟨by simp [clientid, hin.2], fun hout => ?_, fun id' hin' => ?_⟩
  · exact Asked.noConfusion (hin.2.symm.trans hout.2)
  · exact Asked.login.inj (hin'.2.symm.trans hin.2)

/-- The latest successful login, then. -/
def live (pool : Pool) (h : Handler) (db : Database) (r : Reading) (live : Option Bytes) : Option Bytes :=
  match r.received with
  | .pack p => h.liveAfter pool r.io db p live
  | _ => live

/-- What the call leaves. -/
def run (pool : Pool) (h : Handler) (db : Database) (r : Reading) : Option Handler × Database :=
  (h.onReadable pool r.io r.my db r.received.outcome fun _ => r.sent).2

/-- Giving up sets the client offline and deletes the handler, or throws and leaves all as it is. -/
theorem giveUp_eq (my : MySQL) (h : Handler) (db : Database) :
    (h.giveUp my db).2 =
      if my.fails then (some h, db) else (none, (removeOnlineUser my db h.clientid).2) := by
  unfold Handler.giveUp
  cases hmy : my.fails with
  | true => rw [removeOnlineUser_of_fails hmy]; rfl
  | false => rw [removeOnlineUser_of_not_fails hmy]; rfl

/-- The handler and the tables when the request has been answered, before the connection is given up. -/
def answered (pool : Pool) (h : Handler) (db : Database) (r : Reading) : Handler × Database :=
  match r.received with
  | .pack p => ((h.process pool r.io db p .new).1, (h.process pool r.io db p .new).2.1)
  | _ => (h, db)

/-- A call of `onReadable` answers the request, and gives the connection up or not. -/
theorem run_eq {pool : Pool} {h : Handler} {db : Database} {r : Reading} {isOpen : Bool} (hr : r.Possible isOpen) :
    r.run pool h db =
      if r.givesUp then (none, (removeOnlineUser r.my (r.answered pool h db).2 (r.answered pool h db).1.clientid).2)
      else (some (r.answered pool h db).1, (r.answered pool h db).2) := by
  obtain ⟨received, io, sent, my⟩ := r
  unfold run Handler.onReadable givesUp answered
  cases received with
  | pack p =>
    simp only [Received.outcome, ne_eq, not_true_eq_false, if_false]
    cases sent with
    | error e => simp
    | ok ret =>
      by_cases hret : ret = .errorOk
      · simp [hret]
      · cases hmy : my.fails <;> simp [hret, giveUp_eq, hmy]
  | closed junk =>
    have houtcome := Received.outcome_closed junk
    rcases hout : (Received.closed junk).outcome with ⟨ret | ret, p⟩
    · by_cases hjunk : 0 < junk ∧ junk < 1000
      · simp [hout, hjunk] at houtcome
      · simp [hjunk]
    · by_cases hjunk : 0 < junk ∧ junk < 1000
      · obtain rfl : ret = .errorNetGracefulShutdown := by simpa [hout, hjunk] using houtcome
        cases hmy : my.fails <;> simp [hjunk, giveUp_eq, hmy]
      · simp [hout, hjunk] at houtcome
  | failed ret =>
    have hret : ret ≠ .errorOk := hr
    cases hmy : my.fails <;> simp [Received.outcome, hret, giveUp_eq, hmy]
  | throws e gone => simp [Received.outcome]

/-- **What a call of `onReadable` does to who is online.** -/
theorem run_online {pool : Pool} {h : Handler} {db : Database} {r : Reading} {isOpen : Bool} (hr : r.Possible isOpen)
    (id : Bytes) :
    (r.run pool h db).2.Online id ↔
      (db.Online id ∨ r.LogsIn pool h id) ∧ ¬((r.givesUp ∨ r.LogsOut pool h) ∧ id = r.clientid pool h) := by
  have hanswered : (r.answered pool h db).1.clientid = r.clientid pool h ∧
      ((r.answered pool h db).2.Online id ↔
        (db.Online id ∨ r.LogsIn pool h id) ∧ ¬(r.LogsOut pool h ∧ id = r.clientid pool h)) := by
    obtain ⟨received, io, sent, my⟩ := r
    cases received with
    | pack p =>
      obtain ⟨hclient, honline⟩ := h.process_online pool io db hr.2
      refine ⟨hclient, (honline id).trans ?_⟩
      simp only [LogsIn, LogsOut, clientid, asked]
      cases h.asked pool p <;> simp
    | closed | failed | throws => simp [answered, LogsIn, LogsOut, clientid, asked]
  rw [run_eq hr]
  cases hup : r.givesUp with
  | true =>
    have hmy : r.my.fails = false := by
      rw [givesUp, Bool.and_eq_true, Bool.not_eq_true'] at hup
      exact hup.1
    simp only [if_true, removeOnlineUser_online, hanswered.1, hanswered.2, hmy, true_and, true_or]
    tauto
  | false => simpa using hanswered.2

/-- **What it does to who should be online.** -/
theorem live_eq_some {pool : Pool} {h : Handler} {db : Database} {r : Reading} {live : Option Bytes} {id : Bytes} :
    r.live pool h db live = some id ↔
      r.LogsIn pool h id ∨ live = some id ∧ (∀ id', ¬r.LogsIn pool h id') ∧ ¬r.LogsOut pool h := by
  obtain ⟨received, io, sent, my⟩ := r
  cases received with
  | pack p =>
    simp only [Reading.live, Handler.liveAfter_eq, LogsIn, LogsOut, asked]
    cases io.my.fails <;> cases h.asked pool p <;> simp
  | closed | failed | throws => simp [Reading.live, LogsIn, LogsOut, asked]

end Reading

/-! ### The tracker and its connections -/

/-- A connection: its handler, until it is deleted; whether it is open; and the client id of
its latest successful login, unless it has successfully logged out since. -/
structure Connection where
  handler : Option Handler
  isOpen : Bool
  live : Option Bytes
  deriving DecidableEq

/-- It is open, and the client is logged in on it. -/
def Connection.LiveFor (c : Connection) (id : Bytes) : Prop := c.isOpen = true ∧ c.live = some id

instance (c : Connection) (id : Bytes) : Decidable (c.LiveFor id) := inferInstanceAs (Decidable (_ ∧ _))

/-- The tables, and the connections there have been. -/
structure Status where
  db : Database
  connections : List Connection
  deriving DecidableEq

/-- What happens, on the connection with an index. -/
inductive Event where
  | connect (host : Bytes)
  | readable (i : ℕ) (r : Reading)
  | shutdown (i : ℕ)

namespace Status

/-- One event. A connection whose handler is deleted is closed. -/
def step (pool : Pool) (s : Status) : Event → Option Status
  | .connect host => some ⟨s.db, s.connections ++ [⟨some (.new host), true, none⟩]⟩
  | .readable i r =>
    match s.connections[i]? with
    | some ⟨some h, isOpen, live⟩ =>
      if r.Possible isOpen then
        let (handler, db) := r.run pool h s.db
        some ⟨db, s.connections.set i ⟨handler, isOpen && handler.isSome && !r.gone, r.live pool h s.db live⟩⟩
      else none
    | _ => none
  | .shutdown i =>
    match s.connections[i]? with
    | some ⟨some h, _, live⟩ =>
      let (handler, db) := h.onShutdown s.db
      some ⟨db, s.connections.set i ⟨handler, false, live⟩⟩
    | _ => none

/-- The client is logged in on an open connection. -/
def Live (s : Status) (id : Bytes) : Prop := ∃ c ∈ s.connections, c.LiveFor id

instance (s : Status) (id : Bytes) : Decidable (s.Live id) := inferInstanceAs (Decidable (∃ c ∈ s.connections, _))

/-- Those are online that are logged in on an open connection. -/
def Exact (s : Status) : Prop := ∀ id, s.db.Online id ↔ s.Live id

/-- The client is logged in on another open connection than this one. -/
def Elsewhere (s : Status) (i : ℕ) (id : Bytes) : Prop :=
  ∃ j c, j ≠ i ∧ s.connections[j]? = some c ∧ c.LiveFor id

/-- The call undoes no more and no less than it should: whom it sets offline is not logged in
elsewhere, and whoever is no longer logged in on this connection is set offline or is logged
in elsewhere. -/
def CleanReading (pool : Pool) (s : Status) (i : ℕ) (r : Reading) (c : Connection) (h : Handler) : Prop :=
  (r.givesUp ∨ r.LogsOut pool h → ¬s.Elsewhere i (r.clientid pool h)) ∧
    ∀ id, c.LiveFor id →
      (r.givesUp ∨ r.gone ∨ r.LogsOut pool h ∨ ∃ id', r.LogsIn pool h id' ∧ id' ≠ id) →
        (r.givesUp ∨ r.LogsOut pool h) ∧ id = r.clientid pool h ∨ s.Elsewhere i id

/-- The event undoes no more and no less than it should. -/
def Clean (pool : Pool) (s : Status) : Event → Prop
  | .connect _ => True
  | .readable i r => ∀ c h, s.connections[i]? = some c → c.handler = some h → s.CleanReading pool i r c h
  | .shutdown i => ∀ c, s.connections[i]? = some c → ∀ id, c.LiveFor id → s.Elsewhere i id

/-- Those logged in when one connection has changed. -/
theorem live_set {s : Status} {i : ℕ} {c : Connection} (hc : s.connections[i]? = some c) (db : Database)
    (c' : Connection) (id : Bytes) : Live ⟨db, s.connections.set i c'⟩ id ↔ c'.LiveFor id ∨ s.Elsewhere i id := by
  have hi : i < s.connections.length := (List.getElem?_eq_some_iff.mp hc).1
  simp only [Live, Elsewhere, List.mem_iff_getElem?]
  constructor
  · intro h
    obtain ⟨d, ⟨j, hj⟩, hlive⟩ := h
    by_cases hji : i = j
    · subst hji
      rw [List.getElem?_set_self hi, Option.some.injEq] at hj
      exact .inl (hj ▸ hlive)
    · rw [List.getElem?_set_ne hji] at hj
      exact .inr ⟨j, d, Ne.symm hji, hj, hlive⟩
  · intro h
    rcases h with hlive | ⟨j, d, hji, hj, hlive⟩
    · exact ⟨c', ⟨i, List.getElem?_set_self hi⟩, hlive⟩
    · exact ⟨d, ⟨j, (List.getElem?_set_ne hji.symm).trans hj⟩, hlive⟩

/-- Those logged in, one connection set apart. -/
theorem live_iff {s : Status} {i : ℕ} {c : Connection} (hc : s.connections[i]? = some c) (id : Bytes) :
    s.Live id ↔ c.LiveFor id ∨ s.Elsewhere i id := by
  have hset : s.connections.set i c = s.connections := by
    obtain ⟨hi, rfl⟩ := List.getElem?_eq_some_iff.mp hc
    exact List.set_getElem_self hi
  simpa [hset] using live_set hc s.db c id

/-- A call of `onReadable`, from the handler of a connection. -/
theorem step_readable {pool : Pool} {s t : Status} {i : ℕ} {r : Reading} (h : step pool s (.readable i r) = some t) :
    ∃ c handler, s.connections[i]? = some c ∧ c.handler = some handler ∧ r.Possible c.isOpen ∧
      t = ⟨(r.run pool handler s.db).2, s.connections.set i
        ⟨(r.run pool handler s.db).1, c.isOpen && (r.run pool handler s.db).1.isSome && !r.gone,
          r.live pool handler s.db c.live⟩⟩ := by
  simp only [step] at h
  split at h
  · next handler isOpen live hc =>
    split_ifs at h with hr
    cases h
    exact ⟨_, handler, hc, rfl, hr, rfl⟩
  · cases h

/-- The connection after a call of `onReadable`. -/
theorem liveFor_readable (pool : Pool) (db : Database) {c : Connection} {h : Handler} {r : Reading}
    (hr : r.Possible c.isOpen) (id : Bytes) :
    Connection.LiveFor ⟨(r.run pool h db).1, c.isOpen && (r.run pool h db).1.isSome && !r.gone, r.live pool h db c.live⟩ id ↔
      ¬r.givesUp ∧ (r.LogsIn pool h id ∨ c.LiveFor id ∧ ¬r.gone ∧ ¬r.LogsOut pool h ∧ ∀ id', ¬r.LogsIn pool h id') := by
  have hsome : (r.run pool h db).1.isSome = !r.givesUp := by
    rw [Reading.run_eq hr]
    cases r.givesUp <;> rfl
  have hopen : r.LogsIn pool h id → c.isOpen = true ∧ r.gone = false := Reading.LogsIn.isOpen hr
  simp only [Connection.LiveFor, hsome, Reading.live_eq_some, Bool.and_eq_true, Bool.not_eq_true', Bool.not_eq_true]
  tauto

/-- **One call keeps those online that should be** just when it is clean. -/
theorem exact_readable_iff {pool : Pool} {s t : Status} {i : ℕ} {r : Reading} (hs : s.Exact)
    (h : step pool s (.readable i r) = some t) : t.Exact ↔ Clean pool s (.readable i r) := by
  obtain ⟨c, handler, hc, hhandler, hr, rfl⟩ := step_readable h
  have hclean : Clean pool s (.readable i r) ↔ s.CleanReading pool i r c handler := by
    constructor
    · exact fun h => h c handler hc hhandler
    · intro h c' handler' hc' hhandler'
      obtain rfl : c = c' := Option.some.inj (hc.symm.trans hc')
      obtain rfl : handler = handler' := Option.some.inj (hhandler.symm.trans hhandler')
      exact h
  have hs' : ∀ id, s.db.Online id ↔ c.LiveFor id ∨ s.Elsewhere i id := fun id => (hs id).trans (live_iff hc id)
  rw [hclean, Exact]
  simp only [live_set hc, liveFor_readable pool s.db hr, @Reading.run_online pool handler s.db r _ hr, hs']
  constructor
  · intro hexact
    constructor
    · intro hoff helse
      exact absurd ((hexact _).mpr (.inr helse)).2 (not_not.mpr ⟨hoff, rfl⟩)
    · intro id hlive hdrop
      by_contra hkept
      rw [not_or] at hkept
      -- the client stays online, though it is logged in nowhere
      obtain ⟨hup, hin | ⟨-, hgone, hout, hnone⟩⟩ := ((hexact id).mp ⟨.inl (.inl hlive), hkept.1⟩).resolve_right hkept.2
      · obtain ⟨-, hout, honly⟩ := hin.only
        rcases hdrop with hdrop | hdrop | hdrop | ⟨id', hin', hne⟩
        · exact hup hdrop
        · exact absurd hdrop (Bool.eq_false_iff.mp (hin.isOpen hr).2)
        · exact hout hdrop
        · exact hne (honly id' hin')
      · rcases hdrop with hdrop | hdrop | hdrop | ⟨id', hin', -⟩
        · exact hup hdrop
        · exact hgone hdrop
        · exact hout hdrop
        · exact hnone id' hin'
  · intro hclean id
    obtain ⟨hoff, hdrop⟩ := hclean
    constructor
    · intro honline
      obtain ⟨(hlive | helse) | hin, hkept⟩ := honline
      · by_cases hdropped : r.givesUp ∨ r.gone ∨ r.LogsOut pool handler ∨ ∃ id', r.LogsIn pool handler id' ∧ id' ≠ id
        · exact .inr ((hdrop id hlive hdropped).resolve_left hkept)
        · -- the connection stays as it is, or the client has logged in again
          simp only [not_or, not_exists, not_and, not_not] at hdropped
          obtain ⟨hup, hgone, hout, hsame⟩ := hdropped
          refine .inl ⟨hup, ?_⟩
          by_cases hin : r.LogsIn pool handler id
          · exact .inl hin
          · exact .inr ⟨hlive, hgone, hout, fun id' hin' => hin (hsame id' hin' ▸ hin')⟩
      · exact .inr helse
      · exact .inl ⟨fun hup => hkept ⟨.inl hup, hin.only.1⟩, .inl hin⟩
    · intro hlive
      rcases hlive with ⟨hup, hin | ⟨hlive, -, hout, -⟩⟩ | helse
      · exact ⟨.inr hin, fun h => h.1.elim hup hin.only.2.1⟩
      · exact ⟨.inl (.inl hlive), fun h => h.1.elim hup hout⟩
      · refine ⟨.inl (.inr helse), fun h => hoff h.1 (h.2 ▸ helse)⟩

theorem step_shutdown {pool : Pool} {s t : Status} {i : ℕ} (h : step pool s (.shutdown i) = some t) :
    ∃ c handler, s.connections[i]? = some c ∧ t = ⟨s.db, s.connections.set i ⟨handler, false, c.live⟩⟩ := by
  simp only [step] at h
  split at h
  · next handler isOpen live hc =>
    cases h
    exact ⟨_, none, hc, rfl⟩
  · cases h

/-- **A shutdown keeps those online that should be** just when it is clean. -/
theorem exact_shutdown_iff {pool : Pool} {s t : Status} {i : ℕ} (hs : s.Exact)
    (h : step pool s (.shutdown i) = some t) :
    t.Exact ↔ Clean pool s (.shutdown i) := by
  obtain ⟨c, handler, hc, rfl⟩ := step_shutdown h
  have hs' : ∀ id, s.db.Online id ↔ c.LiveFor id ∨ s.Elsewhere i id := fun id => (hs id).trans (live_iff hc id)
  have hclosed : ∀ id, ¬Connection.LiveFor ⟨handler, false, c.live⟩ id := fun id hlive => Bool.false_ne_true hlive.1
  simp only [Exact, live_set hc, hs', hclosed, false_or, Clean]
  constructor
  · intro hexact c' hc' id hlive
    obtain rfl : c = c' := Option.some.inj (hc.symm.trans hc')
    exact (hexact id).mp (.inl hlive)
  · intro hclean id
    exact ⟨fun h => h.elim (hclean c hc id) fun helse => helse, .inr⟩

/-- A new connection is nobody's. -/
theorem exact_connect {pool : Pool} {s t : Status} {host : Bytes} (hs : s.Exact)
    (h : step pool s (.connect host) = some t) : t.Exact := by
  cases h
  intro id
  refine (hs id).trans ?_
  simp [Live, Connection.LiveFor]

theorem exact_step_iff {pool : Pool} {s t : Status} {e : Event} (hs : s.Exact) (h : step pool s e = some t) :
    t.Exact ↔ Clean pool s e := by
  cases e with
  | connect host => exact iff_of_true (exact_connect hs h) trivial
  | readable i r => exact exact_readable_iff hs h
  | shutdown i => exact exact_shutdown_iff hs h

/-- **Those online are those logged in on an open connection**, throughout a run, if and only
if every event of it is clean. -/
theorem online_iff_live (pool : Pool) {s t : Status} {events : List Event} (hs : s.Exact)
    (hrun : exec (step pool) s events = some t) :
    Always (step pool) (Clean pool) s events ↔ Throughout (step pool) Exact s events :=
  always_iff_throughout (fun hs hclean h => (exact_step_iff hs h).mpr hclean) id
    (fun hs hclean h hexact => hclean ((exact_step_iff hs h).mp hexact)) hrun hs

/-- A pool that reads a login of the client 97 in everything. -/
def loginOf97 : Pool := fun _ _ => some (.login ⟨[97], none, none⟩)

/-- A login over the first connection. -/
def login : Event :=
  .readable 0 ⟨.pack ⟨payloadLogin, [], [], .empty⟩, ⟨.simple, []⟩, .ok .errorOk, .simple⟩

/-- **A client without a connection stays online.** It has connected and logged in, and the tracker
has been told to shut the connection down. -/
theorem online_without_connection :
    ∃ s, exec (step loginOf97) ⟨⟨∅, ∅⟩, []⟩ [.connect [], login, .shutdown 0] = some s ∧
      s.db.Online [97] ∧ ¬s.Live [97] :=
  ⟨_, rfl, by decide, by decide⟩

theorem online_iff_live_login :
    Exact ⟨⟨∅, ∅⟩, []⟩ ∧
      (Always (step loginOf97) (Clean loginOf97) ⟨⟨∅, ∅⟩, []⟩ [.connect [], login] ↔
        Throughout (step loginOf97) Exact ⟨⟨∅, ∅⟩, []⟩ [.connect [], login]) := by
  have hexact : Exact ⟨⟨∅, ∅⟩, []⟩ := by
    intro id
    constructor
    · intro h
      obtain ⟨row, hrow, -⟩ := h
      cases hrow
    · intro h
      obtain ⟨c, hc, -⟩ := h
      cases hc
  exact ⟨hexact, online_iff_live loginOf97 hexact rfl⟩

end Status

end CoolDown.Tracker
