import CoolDown.Library.Run
import CoolDown.Tracker.TrackerConnectionHandler

/-!
# Who has how much: `FILEOWNERINFO`

A report of progress inserts the row of a client and a file, or updates it. Publishing a file only
inserts it, so that the server refuses it where there is a row, whatever is in it; what it throws
goes up to `Process`, and the answer is the `ERROR_UNKNOWN` the handler has begun with. Nobody looks
at the percentage of a report.

## The model

A request is answered by the switch of `Process`. An `Exchange` is a request with what the outside
decides about it; a run is any sequence of exchanges.

## What is proved

* `process_answer`: the answer is what `Process` sends.
* `good_iff`: with all percentages in range, an exchange is answered as it should be, and leaves what
  it should, just when it is `Harmless`.
* `always_good_iff`: so it is for a run.
* `published_twice`: the second time a file is published.
-/

namespace CoolDown.Tracker

open Library TrackerProto

/-! ### The table -/

/-- All percentages are in range. -/
def Database.InRange (db : Database) : Prop := ∀ row ∈ db.fileOwnerInfo.rows, 0 ≤ row.percentage ∧ row.percentage ≤ 100

instance (db : Database) : Decidable db.InRange :=
  inferInstanceAs (Decidable (∀ row ∈ db.fileOwnerInfo.rows, _))

/-- The pair has exactly one row, with this percentage. -/
def Database.OnlyRow (db : Database) (fileid clientid : Bytes) (percentage : Int32) : Prop :=
  db.fileOwnerInfo.rows.filter (fun row => decide (row.key = (fileid, clientid))) = [⟨fileid, clientid, percentage⟩]

instance (db : Database) (fileid clientid : Bytes) (percentage : Int32) :
    Decidable (db.OnlyRow fileid clientid percentage) :=
  inferInstanceAs (Decidable (_ = _))

/-- No two rows have one key, so that a row of the pair is the only one. -/
theorem Database.onlyRow_iff {db : Database} {fileid clientid : Bytes} {percentage : Int32} :
    db.OnlyRow fileid clientid percentage ↔ ⟨fileid, clientid, percentage⟩ ∈ db.fileOwnerInfo.rows := by
  have hfilter := db.fileOwnerInfo.filter_key (fileid, clientid) fun _ => true
  have htrue : (db.fileOwnerInfo.find? (fileid, clientid)).filter (fun _ => true) =
      db.fileOwnerInfo.find? (fileid, clientid) := by cases db.fileOwnerInfo.find? (fileid, clientid) <;> rfl
  simp only [Bool.and_true, htrue] at hfilter
  have hfind : (⟨fileid, clientid, percentage⟩ : FileOwnerInfoRow) ∈ db.fileOwnerInfo.rows ↔
      db.fileOwnerInfo.find? (fileid, clientid) = some ⟨fileid, clientid, percentage⟩ := by
    rw [Table.find?_eq_some]
    exact (and_iff_left rfl).symm
  rw [OnlyRow, hfilter, hfind]
  cases db.fileOwnerInfo.find? (fileid, clientid) <;> simp

theorem key_setPercentage (percentage : Int32) (row : FileOwnerInfoRow) : (row.setPercentage percentage).key = row.key := rfl

/-- What an INSERT of a row that may be updated leaves. -/
theorem mem_insertOrUpdate {t : Table FileOwnerInfoRow FileOwnerInfoRow.key} {fileid clientid : Bytes}
    {percentage : Int32} {row : FileOwnerInfoRow} :
    row ∈ (t.insertOrUpdate ⟨fileid, clientid, percentage⟩ (.setPercentage percentage) (key_setPercentage percentage)).rows ↔
      row = ⟨fileid, clientid, percentage⟩ ∨ row ∈ t.rows ∧ row.key ≠ (fileid, clientid) := by
  rcases t.insertOrUpdate_cases ⟨fileid, clientid, percentage⟩ (.setPercentage percentage)
    (key_setPercentage percentage) with ⟨hnew, hrows⟩ | ⟨⟨old, hold, hkey⟩, hupdate⟩
  · rw [hrows, List.mem_append, List.mem_singleton, or_comm]
    exact or_congr_right ⟨fun hmem => ⟨hmem, hnew row hmem⟩, And.left⟩
  · rw [hupdate, Table.mem_update]
    have hset : ∀ r : FileOwnerInfoRow, r.key = (fileid, clientid) →
        r.setPercentage percentage = ⟨fileid, clientid, percentage⟩ := by
      rintro ⟨f, c, p⟩ hr
      cases hr
      rfl
    have hrow : (⟨fileid, clientid, percentage⟩ : FileOwnerInfoRow).key = (fileid, clientid) := rfl
    simp only [hrow, decide_eq_true_eq]
    constructor
    · rintro ⟨r, hr, rfl⟩
      split_ifs with he
      · exact .inl (hset r he)
      · exact .inr ⟨hr, he⟩
    · rintro (rfl | ⟨hmem, hne⟩)
      · exact ⟨old, hold, (if_pos hkey).trans (hset old hkey)⟩
      · exact ⟨row, hmem, if_neg hne⟩

/-! ### Requests -/

/-- A request that writes the table. -/
inductive OwnerRequest where
  | reportProgress (m : ReportProgress)
  | publishResource (m : PublishResource)
  deriving DecidableEq

/-- The type of the request. -/
def OwnerRequest.payloadType : OwnerRequest → Int32
  | reportProgress _ => payloadReportProgress
  | publishResource _ => payloadPublishResource

/-- Its message. -/
def OwnerRequest.message : OwnerRequest → ParsedMessage
  | reportProgress m => .reportProgress m
  | publishResource m => .publishResource m

/-- A request, the handler that answers it, and what the outside decides meanwhile. -/
structure Exchange where
  io : Io
  handler : Handler
  request : OwnerRequest

namespace Exchange

/-- The tables afterwards, and the reply. -/
def answer (e : Exchange) (db : Database) : Database × MessageReply :=
  let r := e.handler.dispatch e.io db e.request.payloadType e.request.message ⟨some Retcode.errorUnknown.value, none⟩
    ⟨some Retcode.errorUnknown.value, none, none, []⟩
  (r.2.1, r.2.2.1)

/-- It is answered `ERROR_OK`. -/
def IsOk (e : Exchange) (db : Database) : Prop := (e.answer db).2.returnCode = some Retcode.errorOk.value

/-- The exchange is as it should be: percentages stay in range, a report that is answered `ERROR_OK` is
stored, and a publication is answered so and stored in any case. -/
def Good (db : Database) (e : Exchange) : Prop :=
  (e.answer db).1.InRange ∧
    match e.request with
    | .reportProgress m => e.IsOk db → (e.answer db).1.OnlyRow m.fileId m.clientId m.percentage
    | .publishResource m => e.IsOk db ∧ (e.answer db).1.OnlyRow m.fileId m.clientId 100

/-- A report, if the server carries it out, has a percentage in range; or strings in it that are not
plain, in which the server happens to read what it says. A publication is the first that is heard of
the pair, and the server carries it out. -/
def Harmless (db : Database) (e : Exchange) : Prop :=
  match e.request with
  | .reportProgress m =>
    e.io.my.fails = false →
      if Plain m.fileId ∧ Plain m.clientId then 0 ≤ m.percentage ∧ m.percentage ≤ 100
      else
        ∀ db', e.io.my.readInsert (updateText ⟨m.clientId, m.fileId, m.percentage⟩) db = some db' →
          db'.InRange ∧ db'.OnlyRow m.fileId m.clientId m.percentage
  | .publishResource m => e.io.my.fails = false ∧ ∀ row ∈ db.fileOwnerInfo.rows, row.key ≠ (m.fileId, m.clientId)

/-- One exchange after the other. -/
def step (db : Database) (e : Exchange) : Option Database := some (e.answer db).1

/-- The answer is what `Process` leaves and sends. -/
theorem process_answer {pool : Pool} {pack : NetPack} (e : Exchange) (db : Database) (out : NetPack)
    (hmessage : Tracker.message pool pack = some e.request.message) (htype : pack.payloadType = e.request.payloadType) :
    (e.handler.process pool e.io db pack out).2 =
      ((e.answer db).1, out.setMessage payloadMessageReply (Handler.messageReply (e.answer db).2)) := by
  have hne : e.request.payloadType ≠ payloadRequestPeer := by cases e.request <;> (simp only [OwnerRequest.payloadType]; decide)
  simp only [Handler.process, hmessage, htype, hne, ne_eq, not_false_eq_true, if_true]
  rfl

/-! ### What is answered -/

/-- The code in the reply, for what a call of the database manager returns. -/
def replyCode (ret : Except Exception Retcode) : Int32 :=
  if ret matches .ok .errorOk then Retcode.errorOk.value else Retcode.errorUnknown.value

theorem answer_reportProgress {io : Io} {h : Handler} {m : ReportProgress} {db : Database} :
    (Exchange.mk io h (.reportProgress m)).answer db =
      ((reportProgress io.my db m.clientId m.fileId m.percentage).2,
        ⟨some (replyCode (reportProgress io.my db m.clientId m.fileId m.percentage).1), none⟩) := by
  have hkinds : payloadReportProgress ≠ payloadLogin ∧ payloadReportProgress ≠ payloadLogout ∧
      payloadReportProgress ≠ payloadRequestPeer := by decide
  simp only [answer, Handler.dispatch, OwnerRequest.payloadType, OwnerRequest.message, hkinds, if_false, if_true,
    Handler.handleReportProgress]
  rcases reportProgress io.my db m.clientId m.fileId m.percentage with ⟨e | ret, db'⟩
  · rfl
  · cases ret <;> rfl

theorem answer_publishResource {io : Io} {h : Handler} {m : PublishResource} {db : Database} :
    (Exchange.mk io h (.publishResource m)).answer db =
      ((publishResource io.my db m.clientId m.fileId).2,
        ⟨some (replyCode (publishResource io.my db m.clientId m.fileId).1), none⟩) := by
  have hkinds : payloadPublishResource ≠ payloadLogin ∧ payloadPublishResource ≠ payloadLogout ∧
      payloadPublishResource ≠ payloadRequestPeer ∧ payloadPublishResource ≠ payloadReportProgress := by decide
  simp only [answer, Handler.dispatch, OwnerRequest.payloadType, OwnerRequest.message, hkinds, if_false, if_true,
    Handler.handlePublishResource]
  rcases publishResource io.my db m.clientId m.fileId with ⟨e | ret, db'⟩
  · rfl
  · cases ret <;> rfl

theorem replyCode_eq_ok {ret : Except Exception Retcode} :
    some (replyCode ret) = some Retcode.errorOk.value ↔ ret = .ok .errorOk := by
  rcases ret with e | ret
  · simp only [replyCode, reduceCtorEq, iff_false]
    decide
  · cases ret <;> simp [replyCode, Retcode.value]

/-- A row that is inserted or updated leaves the percentages in range if its own is. -/
theorem inRange_insertOrUpdate {db : Database} (hdb : db.InRange) {fileid clientid : Bytes} {percentage : Int32} :
    Database.InRange ⟨db.clientInfo, db.fileOwnerInfo.insertOrUpdate ⟨fileid, clientid, percentage⟩
      (.setPercentage percentage) (key_setPercentage percentage)⟩ ↔ 0 ≤ percentage ∧ percentage ≤ 100 := by
  simp only [Database.InRange, mem_insertOrUpdate]
  constructor
  · exact fun h => h _ (.inl rfl)
  · rintro hp row (rfl | ⟨hrow, -⟩)
    · exact hp
    · exact hdb row hrow

/-- It is then the only row of its key. -/
theorem onlyRow_insertOrUpdate {db : Database} {fileid clientid : Bytes} {percentage : Int32} :
    Database.OnlyRow ⟨db.clientInfo, db.fileOwnerInfo.insertOrUpdate ⟨fileid, clientid, percentage⟩
      (.setPercentage percentage) (key_setPercentage percentage)⟩ fileid clientid percentage :=
  Database.onlyRow_iff.mpr (mem_insertOrUpdate.mpr (.inl rfl))

/-- A report, with percentages in range before it. -/
theorem good_reportProgress {io : Io} {h : Handler} {m : ReportProgress} {db : Database} (hdb : db.InRange) :
    Good db ⟨io, h, .reportProgress m⟩ ↔ Harmless db ⟨io, h, .reportProgress m⟩ := by
  simp only [Good, Harmless, IsOk, answer_reportProgress, replyCode_eq_ok, reportProgress, updateFileOwnerInfo]
  cases hfails : io.my.fails with
  | true => simp [hdb]
  | false =>
    simp only [Bool.false_eq_true, if_false, true_imp_iff]
    by_cases hplain : Plain m.fileId ∧ Plain m.clientId
    · simp only [hplain, and_self, if_true, true_imp_iff]
      exact (and_iff_left onlyRow_insertOrUpdate).trans (inRange_insertOrUpdate hdb)
    · simp only [hplain, if_false]
      cases io.my.readInsert (updateText ⟨m.clientId, m.fileId, m.percentage⟩) db with
      | none => simp [hdb]
      | some db' => simp

/-- A publication, with percentages in range before it. -/
theorem good_publishResource {io : Io} {h : Handler} {m : PublishResource} {db : Database} (hdb : db.InRange) :
    Good db ⟨io, h, .publishResource m⟩ ↔ Harmless db ⟨io, h, .publishResource m⟩ := by
  simp only [Good, Harmless, IsOk, answer_publishResource, replyCode_eq_ok, publishResource, insertFileOwnerInfo]
  cases hfails : io.my.fails with
  | true => simp
  | false =>
    simp only [Bool.false_eq_true, if_false, true_and]
    cases hinsert : db.fileOwnerInfo.insert ⟨m.fileId, m.clientId, 100⟩ with
    | none =>
      obtain ⟨row, hrow, hkey⟩ := Table.insert_eq_none.mp hinsert
      exact iff_of_false (by rintro ⟨-, ⟨⟩, -⟩) fun hnew => hnew row hrow hkey
    | some fileOwnerInfo =>
      obtain ⟨hnew, hrows⟩ := Table.insert_eq_some.mp hinsert
      refine iff_of_true ⟨?_, rfl, ?_⟩ hnew
      · intro row hrow
        simp only [hrows, List.mem_append, List.mem_singleton] at hrow
        rcases hrow with hrow | rfl
        · exact hdb row hrow
        · exact ⟨(by decide : (0 : Int32) ≤ 100), (by decide : (100 : Int32) ≤ 100)⟩
      · rw [Database.onlyRow_iff]
        simp [hrows]

/-- **One exchange**, with percentages in range before it. -/
theorem good_iff {e : Exchange} {db : Database} (hdb : db.InRange) : Good db e ↔ Harmless db e := by
  obtain ⟨io, h, request⟩ := e
  cases request with
  | reportProgress m => exact good_reportProgress hdb
  | publishResource m => exact good_publishResource hdb

/-- **The table of owners.** From percentages in range, every exchange of a run is answered as it should be and leaves
what it should if and only if every exchange is harmless. -/
theorem always_good_iff {db : Database} (hdb : db.InRange) (es : List Exchange) :
    Always step Good db es ↔ Always step Harmless db es := by
  refine always_congr (fun {s e t} _ hgood hstep => ?_) good_iff hdb
  obtain rfl := Option.some.inj hstep
  exact hgood.1

/-- A server that carries out everything, and a new handler. -/
def simply (request : OwnerRequest) : Exchange := ⟨⟨.simple, []⟩, .new [], request⟩

/-- Progress is reported, and then the file is published by somebody else. -/
theorem always_good_iff_simply :
    Always step Good ⟨∅, ∅⟩ [simply (.reportProgress ⟨[99], [102], 50⟩), simply (.publishResource ⟨[100], [102]⟩)] ↔
      Always step Harmless ⟨∅, ∅⟩
        [simply (.reportProgress ⟨[99], [102], 50⟩), simply (.publishResource ⟨[100], [102]⟩)] :=
  always_good_iff (by decide) _

/-- **What goes wrong.** A file that is published twice is refused the second time, one that was reported
before keeps the old percentage, and a report may say 101. -/
theorem published_twice :
    ¬Always step Good ⟨∅, ∅⟩ [simply (.publishResource ⟨[99], [102]⟩), simply (.publishResource ⟨[99], [102]⟩)] ∧
      ¬Always step Good ⟨∅, ∅⟩ [simply (.reportProgress ⟨[99], [102], 50⟩), simply (.publishResource ⟨[99], [102]⟩)] ∧
        ¬Always step Good ⟨∅, ∅⟩ [simply (.reportProgress ⟨[99], [102], 101⟩)] := by
  refine ⟨fun h => ?_, fun h => ?_, fun h => ?_⟩
  · exact absurd (h.2 _ rfl).1.2.1 (by unfold IsOk; decide)
  · exact absurd (h.2 _ rfl).1.2.1 (by unfold IsOk; decide)
  · exact absurd h.1.1 (by decide)

end Exchange

end CoolDown.Tracker
