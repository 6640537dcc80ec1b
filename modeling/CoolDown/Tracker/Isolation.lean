import CoolDown.Library.Run
import CoolDown.Tracker.TrackerConnectionHandler

/-!
# Isolation of the tracker's clients

A connection speaks for the client id it has logged in with. A `Logout` is checked against
that id; a report of progress and the publishing of a resource are not, and store what
they carry under the client id they name. So a connection leaves the rows of the other
clients alone just as long as it names its own id, or says of others what is there already.

## The model

A run is a sequence of requests that one connection has `Process` answer, none of them a
login. `Database.others` is the rows that belong to other client ids.

## What is proved

* `others_unchanged_iff`: the rows of the others are left alone throughout a run if and
  only if every request of it is `Harmless`.
* `giveUp_others`: giving the connection up leaves them alone.
-/

namespace CoolDown.Tracker

open Library TrackerProto

/-- The rows that belong to other clients. -/
def Database.others (clientid : Bytes) (db : Database) : List ClientInfoRow × List FileOwnerInfoRow :=
  (db.clientInfo.rows.filter fun row => decide (row.clientid ≠ clientid),
    db.fileOwnerInfo.rows.filter fun row => decide (row.clientid ≠ clientid))

/-! ### What a request stores of other clients -/

/-- The report names the client, or says of another one what is there already. A statement
that is not plain is what the server reads in it. -/
def HarmlessReport (my : MySQL) (clientid : Bytes) (db : Database) (m : ReportProgress) : Prop :=
  my.fails = true ∨
    if Plain m.fileId ∧ Plain m.clientId then
      m.clientId = clientid ∨ ⟨m.fileId, m.clientId, m.percentage⟩ ∈ db.fileOwnerInfo.rows
    else
      ∀ db', my.readInsert (updateText ⟨m.clientId, m.fileId, m.percentage⟩) db = some db' →
        db'.others clientid = db.others clientid

/-- The resource is published for the client, or for one that has it already. -/
def HarmlessPublish (my : MySQL) (clientid : Bytes) (db : Database) (m : PublishResource) : Prop :=
  my.fails = true ∨ m.clientId = clientid ∨ ∃ row ∈ db.fileOwnerInfo.rows, row.key = (m.fileId, m.clientId)

theorem removeOnlineUser_others (my : MySQL) (db : Database) (clientid : Bytes) :
    (removeOnlineUser my db clientid).2.others clientid = db.others clientid := by
  unfold removeOnlineUser updateLogoutInfo
  split_ifs
  · rfl
  · refine Prod.ext ?_ rfl
    apply Table.filter_update
    · exact fun _ => rfl
    · intro row _ hrow
      have hclient : row.clientid = clientid := by simpa using hrow
      simp [ClientInfoRow.logout, hclient]

/-- The rows of the others, after a row of `FILEOWNERINFO` has been added. -/
theorem others_insert {db : Database} {row : FileOwnerInfoRow} {t : Table FileOwnerInfoRow FileOwnerInfoRow.key}
    (ht : t.rows = db.fileOwnerInfo.rows ++ [row]) (clientid : Bytes) :
    (⟨db.clientInfo, t⟩ : Database).others clientid = db.others clientid ↔ row.clientid = clientid := by
  simp [Database.others, ht, List.filter_append, List.filter_cons]

theorem publishResource_others_iff (my : MySQL) (clientid : Bytes) (db : Database) (m : PublishResource) :
    (publishResource my db m.clientId m.fileId).2.others clientid = db.others clientid ↔
      HarmlessPublish my clientid db m := by
  unfold publishResource insertFileOwnerInfo HarmlessPublish
  by_cases hfails : my.fails
  · simp [hfails]
  · cases hinsert : db.fileOwnerInfo.insert ⟨m.fileId, m.clientId, 100⟩ with
    | none =>
      obtain ⟨row, hmem, hkey⟩ := Table.insert_eq_none.mp hinsert
      simp only [hfails]
      exact iff_of_true rfl (.inr (.inr ⟨row, hmem, hkey⟩))
    | some t =>
      obtain ⟨hnew, hrows⟩ := Table.insert_eq_some.mp hinsert
      simp only [hfails, if_false, others_insert hrows, Bool.false_eq_true, false_or]
      refine ⟨.inl, fun h => h.resolve_right ?_⟩
      rintro ⟨row, hmem, hkey⟩
      exact hnew row hmem hkey

/-- A row whose percentage is set to another one is not among the rows of before. -/
theorem others_setPercentage_iff {db : Database} {fileid client : Bytes} {percentage : Int32} {row : FileOwnerInfoRow}
    (hrow : row ∈ db.fileOwnerInfo.rows) (hkey : row.key = (fileid, client)) (clientid : Bytes) :
    (⟨db.clientInfo, db.fileOwnerInfo.update (fun r => decide (r.key = (fileid, client))) (.setPercentage percentage)
        fun _ => rfl⟩ : Database).others clientid = db.others clientid ↔
      client = clientid ∨ ⟨fileid, client, percentage⟩ ∈ db.fileOwnerInfo.rows := by
  have hset : row.setPercentage percentage = ⟨fileid, client, percentage⟩ := by
    obtain ⟨rfl, rfl⟩ := Prod.mk.inj hkey
    rfl
  constructor
  · intro h
    by_cases hclient : client = clientid
    · exact .inl hclient
    · right
      -- the updated row is one of the others, so it was there before
      have hmem : row.setPercentage percentage ∈
          (db.fileOwnerInfo.update (fun r => decide (r.key = (fileid, client))) (.setPercentage percentage) fun _ => rfl).rows :=
        Table.mem_update.mpr ⟨row, hrow, by simp [hkey]⟩
      have hothers := congrArg Prod.snd h
      have hfilter : row.setPercentage percentage ∈
          db.fileOwnerInfo.rows.filter fun r => decide (r.clientid ≠ clientid) := by
        rw [← show _ = db.fileOwnerInfo.rows.filter _ from hothers]
        exact List.mem_filter.mpr ⟨hmem, by simp [hset, hclient]⟩
      exact hset ▸ (List.mem_filter.mp hfilter).1
  · intro h
    refine Prod.ext rfl ?_
    rcases h with rfl | hsame
    · apply Table.filter_update
      · exact fun _ => rfl
      · intro r _ hr
        have hkey' : r.key = (fileid, client) := by simpa using hr
        have hclient : r.clientid = client := congrArg Prod.snd hkey'
        simp [FileOwnerInfoRow.setPercentage, hclient]
    · -- the row has the percentage already, and is the only one with its key
      have hupdate : (db.fileOwnerInfo.update (fun r => decide (r.key = (fileid, client))) (.setPercentage percentage)
          fun _ => rfl).rows = db.fileOwnerInfo.rows := by
        refine (List.map_congr_left fun r hr => ?_).trans (List.map_id _)
        by_cases hr' : r.key = (fileid, client)
        · obtain rfl := db.fileOwnerInfo.eq_of_key_eq hr hsame hr'
          simp [FileOwnerInfoRow.setPercentage]
        · simp [hr']
      exact congrArg (List.filter _) hupdate

theorem reportProgress_others_iff (my : MySQL) (clientid : Bytes) (db : Database) (m : ReportProgress) :
    (reportProgress my db m.clientId m.fileId m.percentage).2.others clientid = db.others clientid ↔
      HarmlessReport my clientid db m := by
  unfold reportProgress updateFileOwnerInfo HarmlessReport
  by_cases hfails : my.fails
  · simp [hfails]
  · by_cases hplain : Plain m.fileId ∧ Plain m.clientId
    · simp only [hfails, hplain, and_self, if_true, Bool.false_eq_true, if_false, false_or]
      rcases db.fileOwnerInfo.insertOrUpdate_cases ⟨m.fileId, m.clientId, m.percentage⟩ (.setPercentage m.percentage)
        fun _ => rfl with ⟨hnew, hrows⟩ | ⟨hthere, hupdate⟩
      · rw [others_insert hrows]
        refine ⟨.inl, fun h => h.resolve_right fun hmem => hnew _ hmem rfl⟩
      · obtain ⟨row, hrow, hkey⟩ := hthere
        rw [hupdate]
        exact others_setPercentage_iff hrow hkey clientid
    · simp only [hfails, hplain, Bool.false_eq_true, if_false, false_or]
      cases my.readInsert (updateText ⟨m.clientId, m.fileId, m.percentage⟩) db with
      | none => simp
      | some db' => simp

namespace Handler

/-- The request leaves the rows of the clients other than the handler's alone. -/
def Harmless (pool : Pool) (s : Handler × Database) (a : Io × NetPack) : Prop :=
  match message pool a.2 with
  | some (.reportProgress m) => a.2.payloadType = payloadReportProgress → HarmlessReport a.1.my s.1.clientid s.2 m
  | some (.publishResource m) => a.2.payloadType = payloadPublishResource → HarmlessPublish a.1.my s.1.clientid s.2 m
  | _ => True

/-- A request that is answered, and is not a login. -/
def answer (pool : Pool) (s : Handler × Database) (a : Io × NetPack) : Option (Handler × Database) :=
  if a.2.payloadType = payloadLogin then none
  else
    let (h, db, _) := s.1.process pool a.1 s.2 a.2 .new
    some (h, db)

theorem answer_eq_some {pool : Pool} {s t : Handler × Database} {a : Io × NetPack} :
    answer pool s a = some t ↔ a.2.payloadType ≠ payloadLogin ∧ t.1 = s.1 ∧
      t.2 = ((message pool a.2).map (s.1.stored a.1 s.2 a.2.payloadType)).getD s.2 := by
  unfold answer
  split_ifs with hlogin
  · simp [hlogin]
  · obtain ⟨hh, hdb⟩ := process_database pool a.1 s.1 s.2 hlogin .new
    rw [← hdb, Option.some.injEq, Prod.ext_iff, eq_comm, @eq_comm _ _ t.2, hh]
    exact (and_iff_right hlogin).symm

/-- **What one request does to the others**: nothing, just when it is harmless. -/
theorem answer_others_iff {pool : Pool} {s t : Handler × Database} {a : Io × NetPack} (h : answer pool s a = some t) :
    t.2.others s.1.clientid = s.2.others s.1.clientid ↔ Harmless pool s a := by
  obtain ⟨-, -, hdb⟩ := answer_eq_some.mp h
  rw [hdb]
  unfold Harmless
  cases message pool a.2 with
  | none => simp
  | some m =>
    cases m with
    | logout m =>
      simp only [Option.map_some, Option.getD_some, stored, iff_true]
      split_ifs with hown
      · rw [← hown.2]
        exact removeOnlineUser_others a.1.my s.2 m.clientId
      · rfl
    | reportProgress m =>
      simp only [Option.map_some, Option.getD_some, stored]
      split_ifs with htype
      · simpa [htype] using reportProgress_others_iff a.1.my s.1.clientid s.2 m
      · simp [htype]
    | publishResource m =>
      simp only [Option.map_some, Option.getD_some, stored]
      split_ifs with htype
      · simpa [htype] using publishResource_others_iff a.1.my s.1.clientid s.2 m
      · simp [htype]
    | login | queryPeer | other => simp [stored]

/-- **Isolation.** Over the requests of a connection, the rows of the other clients stay as
they were if and only if each request is harmless. -/
theorem others_unchanged_iff (pool : Pool) {h : Handler} {db : Database} {requests : List (Io × NetPack)}
    {t : Handler × Database} (hrun : exec (answer pool) (h, db) requests = some t) :
    Always (answer pool) (Harmless pool) (h, db) requests ↔
      Throughout (answer pool) (fun s => s.2.others h.clientid = db.others h.clientid) (h, db) requests := by
  have hone : ∀ {s a t}, s.1.clientid = h.clientid ∧ s.2.others h.clientid = db.others h.clientid →
      answer pool s a = some t → (t.2.others h.clientid = db.others h.clientid ↔ Harmless pool s a) := by
    intro s a t hs hstep
    rw [← answer_others_iff hstep, hs.1, hs.2]
  refine @always_iff_throughout _ _ (answer pool)
    (fun s => s.1.clientid = h.clientid ∧ s.2.others h.clientid = db.others h.clientid) _ _ ?_ And.right ?_ _ _ _ hrun
    ⟨rfl, rfl⟩
  · intro s a t hs ha hstep
    have hh := (answer_eq_some.mp hstep).2.1
    exact ⟨hh ▸ hs.1, (hone hs hstep).mpr ha⟩
  · intro s a t hs ha hstep hothers
    exact ha ((hone hs hstep).mp hothers)

/-- Giving the connection up leaves the rows of the others alone as well. -/
theorem giveUp_others (my : MySQL) (h : Handler) (db : Database) :
    (h.giveUp my db).2.2.others h.clientid = db.others h.clientid := by
  rw [← removeOnlineUser_others my db h.clientid]
  unfold giveUp
  rcases removeOnlineUser my db h.clientid with ⟨ret | ret, db'⟩
  · rfl
  · rfl

/-- A pool that reads a report of one percent, of the file 1, for the client 98. -/
def reportsOfAnother : Pool := fun _ _ => some (.reportProgress ⟨[98], [1], 1⟩)

/-- The connection of the client 97, and the request. -/
def ofAnother : Handler × Io × NetPack :=
  (⟨[97], []⟩, ⟨.simple, []⟩, ⟨payloadReportProgress, [], [], .empty⟩)

/-- The report goes into the rows of a client that is not the connection's, and was not there. -/
theorem others_changed :
    ((answer reportsOfAnother (ofAnother.1, ⟨∅, ∅⟩) ofAnother.2).map fun t => t.2.others ofAnother.1.clientid) =
        some ([], [⟨[1], [98], 1⟩]) ∧
      (⟨∅, ∅⟩ : Database).others ofAnother.1.clientid = ([], []) :=
  ⟨rfl, rfl⟩

/-- Another client is online, and has half of the file. -/
def withAnother : Database where
  clientInfo := ⟨[⟨[97], [49], 1, 0, 0, [], [], 1⟩], by decide⟩
  fileOwnerInfo := ⟨[⟨[1], [97], 50⟩], by decide⟩

/-- A pool that reads that the client 98 publishes the file 2, or its report of the file 1, by the name of the class. -/
def ownRequests : Pool := fun name _ =>
  some (if name = [] then .publishResource ⟨[98], [2]⟩ else .reportProgress ⟨[98], [1], 1⟩)

/-- The client publishes one file, and reports the other. -/
def publishAndReport : List (Io × NetPack) :=
  [(⟨.simple, []⟩, ⟨payloadPublishResource, [], [], .empty⟩),
    (⟨.simple, []⟩, { NetPack.new with payloadType := payloadReportProgress, messageName := [0] })]

/-- The rows of the other client are left alone. -/
theorem others_unchanged_iff_own :
    Always (answer ownRequests) (Harmless ownRequests) (⟨[98], []⟩, withAnother) publishAndReport ↔
      Throughout (answer ownRequests) (fun s => s.2.others [98] = withAnother.others [98]) (⟨[98], []⟩, withAnother)
        publishAndReport :=
  others_unchanged_iff ownRequests (Option.some_get (show (exec (answer ownRequests) (⟨[98], []⟩, withAnother)
    publishAndReport).isSome from rfl)).symm

end Handler

end CoolDown.Tracker
