import CoolDown.Library.Table
import CoolDown.Library.Wire
import CoolDown.Public.ErrorCode
import Mathlib.Data.Multiset.AddSub

/-!
# The tracker's database: `TrackerDBManager`

Two tables: `CLIENTINFO`, who has ever logged in and who is online, and `FILEOWNERINFO`,
how much of which file a client has. Logging in and out, reporting and publishing write
them, and one search over both answers a request for peers.

## The model

A `Database` is the two tables, each with its primary key; no column is NULL, as the
code leaves none. `MySQL` is what the server decides: whether a statement is carried out
at all, in which order it gives the rows of a SELECT, and what it reads in a statement
that has been put together from strings with quotes or backslashes in them. A string
without them is `Plain` and stands for itself. Statements with `use` are not put together
so.

The columns of text have any length, and keys are compared byte by byte. The tables are created with
`VARCHAR` columns, and a server may cut what is too long, or refuse it, and by its collation take two keys
for one that differ in case or in blanks at the end; the hex digests and the ids that the clients make do
neither.

`searchPercentageRaw` ends in a loop over a `RecordSet` of Poco, whose `moveNext` on the
last row returns false and stays there.

## What is proved

* `readRows_eq`: what the loop makes of the rows. It advances before it reads, so that
  the first row is left out and the last one is read twice.
* `rowsRead_perm_iff`: it reads each row once only where the first row is the last one.
* `Search.map_rows`: the rows of the search are the owners that are online and not
  excluded, each once.
* `searchPercentageRaw_eq`: what a search adds to the collection.
-/

namespace CoolDown.Tracker

open Library Wire

/-! ### Tables -/

/-- A row of `CLIENTINFO`. -/
structure ClientInfoRow where
  clientid : Bytes
  ip : Bytes
  messagePort : Int32
  uploadTotal : Int64
  downloadTotal : Int64
  createTime : Bytes
  lastLoginTime : Bytes
  isOnline : Int32
  deriving DecidableEq, Repr

/-- A row of `FILEOWNERINFO`. -/
structure FileOwnerInfoRow where
  fileid : Bytes
  clientid : Bytes
  percentage : Int32
  deriving DecidableEq, Repr

/-- The primary key of `FILEOWNERINFO`. -/
def FileOwnerInfoRow.key (r : FileOwnerInfoRow) : Bytes × Bytes := (r.fileid, r.clientid)

/-- The tables. -/
structure Database where
  clientInfo : Table ClientInfoRow ClientInfoRow.clientid
  fileOwnerInfo : Table FileOwnerInfoRow FileOwnerInfoRow.key
  deriving DecidableEq

/-- The client has `ISONLINE` = 1. -/
def Database.Online (db : Database) (clientid : Bytes) : Prop :=
  ∃ row ∈ db.clientInfo.rows, row.clientid = clientid ∧ row.isOnline = 1

instance (db : Database) (clientid : Bytes) : Decidable (db.Online clientid) :=
  inferInstanceAs (Decidable (∃ row ∈ db.clientInfo.rows, _))

/-! ### Statements -/

/-- The string stands for itself between the quotes of a statement. -/
def Plain (s : Bytes) : Prop := ∀ c ∈ s, c ≠ 39 ∧ c ≠ 92

instance (s : Bytes) : Decidable (Plain s) := List.decidableBAll (fun c => c ≠ 39 ∧ c ≠ 92) s

/-- A row of the answer to a search. -/
structure FoundRow where
  clientid : Bytes
  ip : Bytes
  messagePort : Int32
  percentage : Int32
  deriving DecidableEq, Repr

/-- What the MySQL server decides. -/
structure MySQL where
  /-- It throws instead of carrying a statement out. -/
  fails : Bool
  /-- The order of the rows of a SELECT. -/
  order : Bytes → Database → List FoundRow → List FoundRow
  order_perm : ∀ text db rows, (order text db rows).Perm rows
  /-- A SELECT with a string in it that is not plain, or that the model does not read. -/
  readSelect : Bytes → Database → Option (List FoundRow)
  /-- An INSERT with a string in it that is not plain. -/
  readInsert : Bytes → Database → Option Database

/-- A server that carries out every statement, gives the rows as they are stored, and
refuses what is not plain. -/
def MySQL.simple : MySQL where
  fails := false
  order := fun _ _ rows => rows
  order_perm := fun _ _ _ => .rfl
  readSelect := fun _ _ => none
  readInsert := fun _ _ => none

/-- `TrackerDBManager::SearchType`. -/
inductive SearchType where
  | greater
  | lessEqual
  deriving DecidableEq

/-- The operator of a type of search. -/
def SearchType.typeString : SearchType → Bytes
  | greater => utf8 ">"
  | lessEqual => utf8 "<="

/-- What the operator says of a row's percentage. -/
def SearchType.Holds (percentage : Int32) (rowPercentage : Int32) : SearchType → Prop
  | greater => rowPercentage > percentage
  | lessEqual => rowPercentage ≤ percentage

instance (type : SearchType) (p q : Int32) : Decidable (type.Holds p q) :=
  match type with
  | .greater => inferInstanceAs (Decidable (q > p))
  | .lessEqual => inferInstanceAs (Decidable (q ≤ p))

/-- The condition that is added for each client the search leaves out. -/
def excludeText (clientids : List Bytes) : Bytes :=
  (clientids.map fun clientid => utf8 "AND FILEOWNERINFO.CLIENTID != '" ++ clientid ++ utf8 "'").flatten

/-- The SELECT of `search_percentage_raw`. -/
structure Search where
  type : SearchType
  fileid : Bytes
  percentage : Int32
  clientids : List Bytes

namespace Search

/-- The statement. -/
def text (q : Search) : Bytes :=
  utf8 "SELECT CLIENTINFO.CLIENTID,IP,MESSAGEPORT,PERCENTAGE FROM CLIENTINFO INNER JOIN FILEOWNERINFO " ++
    utf8 "WHERE FILEOWNERINFO.FILEID='" ++ q.fileid ++ utf8 "' AND CLIENTINFO.CLIENTID=FILEOWNERINFO.CLIENTID " ++
    utf8 "AND CLIENTINFO.ISONLINE=1 AND FILEOWNERINFO.PERCENTAGE " ++ q.type.typeString ++ utf8 " " ++
    utf8 (toString q.percentage) ++ utf8 " " ++ excludeText q.clientids

/-- All the strings in the statement are plain. -/
def IsPlain (q : Search) : Prop := Plain q.fileid ∧ ∀ clientid ∈ q.clientids, Plain clientid

instance (q : Search) : Decidable q.IsPlain := inferInstanceAs (Decidable (_ ∧ _))

/-- The condition of the statement. -/
def Selects (q : Search) (o : FileOwnerInfoRow) (c : ClientInfoRow) : Prop :=
  o.fileid = q.fileid ∧ c.clientid = o.clientid ∧ c.isOnline = 1 ∧ q.type.Holds q.percentage o.percentage ∧
    ∀ clientid ∈ q.clientids, o.clientid ≠ clientid

instance (q : Search) (o : FileOwnerInfoRow) (c : ClientInfoRow) : Decidable (q.Selects o c) :=
  inferInstanceAs (Decidable (_ ∧ _))

/-- The rows it selects. -/
def rows (q : Search) (db : Database) : List FoundRow :=
  db.fileOwnerInfo.rows.flatMap fun o =>
    (db.clientInfo.rows.filter fun c => q.Selects o c).map fun c => ⟨c.clientid, c.ip, c.messagePort, o.percentage⟩

end Search

/-- `select << sql, Limit(limit)`, and its `execute`: the rows that are fetched. -/
def MySQL.select (my : MySQL) (db : Database) (q : Search) (limit : ℕ) : Except Exception (List FoundRow) :=
  if my.fails then .error .runtime
  else if q.IsPlain then .ok ((my.order q.text db (q.rows db)).take limit)
  else
    match my.readSelect q.text db with
    | none => .error .runtime
    | some rows => .ok (rows.take limit)

/-! ### Record sets -/

/-- `Poco::Data::RecordSet`: the rows fetched, and the current one. -/
structure RecordSet (ρ : Type) where
  rows : List ρ
  currentRow : ℕ

namespace RecordSet

variable {ρ : Type}

/-- `moveFirst`. -/
def moveFirst (rs : RecordSet ρ) : Bool × RecordSet ρ :=
  match rs.rows with
  | [] => (false, rs)
  | _ :: _ => (true, { rs with currentRow := 0 })

/-- `moveNext`. -/
def moveNext (rs : RecordSet ρ) : Bool × RecordSet ρ :=
  if rs.currentRow + 1 < rs.rows.length then (true, { rs with currentRow := rs.currentRow + 1 }) else (false, rs)

/-- The columns of the current row. -/
def value (rs : RecordSet ρ) : Except Exception ρ :=
  match rs.rows[rs.currentRow]? with
  | some row => .ok row
  | none => .error .runtime

end RecordSet

/-- The loop over the rows; `fuel` bounds its rounds. -/
def rowLoop {ρ : Type} : ℕ → Bool → RecordSet ρ → Except Exception (List ρ)
  | _, false, _ => .ok []
  | 0, true, _ => .error .runtime
  | fuel + 1, true, rs =>
    let (more, rs) := rs.moveNext
    match rs.value with
    | .error e => .error e
    | .ok row => (rowLoop fuel more rs).map fun rows => row :: rows

/-- What the code makes of the rows it has fetched: as many rounds as there are rows are enough. -/
def readRows {ρ : Type} (rows : List ρ) : Except Exception (List ρ) :=
  let (more, rs) := (⟨rows, 0⟩ : RecordSet ρ).moveFirst
  rowLoop rows.length more rs

/-! ### The loop over the rows -/

theorem rowLoop_eq {ρ : Type} {rows : List ρ} {fuel pos : ℕ} (hfuel : rows.length ≤ pos + fuel)
    (hpos : pos < rows.length) :
    rowLoop fuel true ⟨rows, pos⟩ = .ok (rows.drop (pos + 1) ++ rows.getLast?.toList) := by
  induction fuel generalizing pos with
  | zero => omega
  | succ fuel ih =>
    unfold rowLoop RecordSet.moveNext RecordSet.value
    by_cases hnext : pos + 1 < rows.length
    · -- the cursor has moved on, and the row after `pos` is read
      rw [List.drop_eq_getElem_cons hnext]
      simp only [hnext, if_true, List.getElem?_eq_getElem, ih (show rows.length ≤ pos + 1 + fuel by omega) hnext, Except.map,
        List.cons_append]
    · -- the cursor stays on the last row, and the loop ends after it
      have hlast : rows.getLast? = some rows[pos] := by
        rw [List.getLast?_eq_getElem?, show rows.length - 1 = pos by omega, List.getElem?_eq_getElem hpos]
      simp only [hnext, if_false, List.getElem?_eq_getElem hpos, rowLoop, Except.map, hlast, Option.toList_some,
        List.drop_eq_nil_of_le (not_lt.mp hnext), List.nil_append]

/-- The rows without the first, and the last once more. -/
def rowsRead {ρ : Type} (rows : List ρ) : List ρ := rows.tail ++ rows.getLast?.toList

/-- **What the loop makes of the rows.** -/
theorem readRows_eq {ρ : Type} (rows : List ρ) : readRows rows = .ok (rowsRead rows) := by
  unfold readRows RecordSet.moveFirst rowsRead
  cases rows with
  | nil => rfl
  | cons row rows =>
    simp only
    rw [rowLoop_eq (by simp) (by simp), List.drop_one]

/-- **Each row is read once** only where the first row is the last one. -/
theorem rowsRead_perm_iff {ρ : Type} (rows : List ρ) : (rowsRead rows).Perm rows ↔ rows.head? = rows.getLast? := by
  unfold rowsRead
  cases rows with
  | nil => simp
  | cons row rows =>
    obtain ⟨last, hlast⟩ : ∃ last, (row :: rows).getLast? = some last :=
      ⟨_, List.getLast?_eq_some_getLast (List.cons_ne_nil row rows)⟩
    rw [hlast, List.head?_cons, Option.some.injEq, Option.toList_some, List.tail_cons]
    have hperm : (rows ++ [last]).Perm (last :: rows) := List.perm_append_singleton last rows
    rw [hperm.congr_left, ← Multiset.coe_eq_coe, ← Multiset.cons_coe, ← Multiset.cons_coe, Multiset.cons_inj_left]
    exact eq_comm

@[simp] theorem length_rowsRead {ρ : Type} (rows : List ρ) : (rowsRead rows).length = rows.length := by
  cases rows with
  | nil => rfl
  | cons row rows => simp [rowsRead, List.getLast?_eq_some_getLast]

/-- No row is made up. -/
theorem mem_of_mem_rowsRead {ρ : Type} {rows : List ρ} {row : ρ} (h : row ∈ rowsRead rows) : row ∈ rows := by
  rcases List.mem_append.mp h with htail | hlast
  · exact List.mem_of_mem_tail htail
  · exact List.mem_of_getLast? (Option.mem_toList.mp hlast)

/-- One row at most is read as it should be. -/
theorem rowsRead_of_length_le_one {ρ : Type} {rows : List ρ} (h : rows.length ≤ 1) : rowsRead rows = rows := by
  match rows, h with
  | [], _ => rfl
  | [_], _ => rfl

/-- Of two rows or more, the last one is read twice. -/
theorem not_nodup_rowsRead {ρ : Type} {rows : List ρ} (h : 2 ≤ rows.length) : ¬ (rowsRead rows).Nodup := by
  match rows, h with
  | row :: row' :: rows, _ =>
    intro hnodup
    have hlast : (row :: row' :: rows).getLast? = some ((row' :: rows).getLast (List.cons_ne_nil _ _)) := by
      rw [List.getLast?_cons_cons, List.getLast?_eq_some_getLast]
    rw [rowsRead, hlast] at hnodup
    exact (List.nodup_append.mp hnodup).2.2 _ (List.getLast_mem (List.cons_ne_nil _ _)) _ (by simp) rfl

/-! ### The owners that a search finds -/

theorem Database.online_iff {db : Database} {clientid : Bytes} :
    db.Online clientid ↔ ∃ row, db.clientInfo.find? clientid = some row ∧ row.isOnline = 1 := by
  simp only [Online, Table.find?_eq_some, and_assoc]

/-- The owners of a file that are online and not excluded. -/
def Database.owners (db : Database) (fileid : Bytes) (clientids : List Bytes) : List FileOwnerInfoRow :=
  db.fileOwnerInfo.rows.filter fun o => decide (o.fileid = fileid ∧ db.Online o.clientid ∧ o.clientid ∉ clientids)

/-- Those whose percentage is as the search wants it. -/
def Search.owners (q : Search) (db : Database) : List FileOwnerInfoRow :=
  (db.owners q.fileid q.clientids).filter fun o => decide (q.type.Holds q.percentage o.percentage)

/-- A client owns a file once. -/
theorem Database.nodup_owners (db : Database) (fileid : Bytes) (clientids : List Bytes) :
    ((db.owners fileid clientids).map FileOwnerInfoRow.clientid).Nodup := by
  have hkeys : ((db.owners fileid clientids).map FileOwnerInfoRow.key).Nodup :=
    db.fileOwnerInfo.nodup.sublist (List.filter_sublist.map _)
  have hnodup : (db.owners fileid clientids).Nodup := List.Nodup.of_map _ hkeys
  refine List.Nodup.map_on ?_ hnodup
  intro o ho o' ho' hclient
  simp only [owners, List.mem_filter, decide_eq_true_eq] at ho ho'
  exact db.fileOwnerInfo.eq_of_key_eq ho.1 ho'.1 (Prod.ext (ho.2.1.trans ho'.2.1.symm) hclient)

/-- What the rows of `CLIENTINFO` make of one row of `FILEOWNERINFO`. -/
theorem Search.filter_selects (q : Search) (db : Database) (o : FileOwnerInfoRow) :
    ((db.clientInfo.rows.filter fun c => decide (q.Selects o c)).map fun c => (c.clientid, o.percentage)) =
      if decide (q.type.Holds q.percentage o.percentage) &&
          decide (o.fileid = q.fileid ∧ db.Online o.clientid ∧ o.clientid ∉ q.clientids) then
        [(o.clientid, o.percentage)]
      else [] := by
  let p : ClientInfoRow → Bool := fun c =>
    decide (c.isOnline = 1 ∧ o.fileid = q.fileid ∧ q.type.Holds q.percentage o.percentage ∧ o.clientid ∉ q.clientids)
  have hselects : (fun c => decide (q.Selects o c)) = fun c => decide (c.clientid = o.clientid) && p c := by
    funext c
    rw [← Bool.decide_and, decide_eq_decide]
    constructor
    · rintro ⟨hfile, hclient, honline, hp, hids⟩
      exact ⟨hclient, honline, hfile, hp, fun hmem => hids _ hmem rfl⟩
    · rintro ⟨hclient, honline, hfile, hp, hids⟩
      exact ⟨hfile, hclient, honline, hp, fun id hid heq => hids (heq ▸ hid)⟩
  rw [hselects, Table.filter_key]
  simp only [Bool.and_eq_true, decide_eq_true_eq, Database.online_iff]
  cases hfind : db.clientInfo.find? o.clientid with
  | none => simp
  | some c =>
    obtain ⟨-, hclient⟩ := Table.find?_eq_some.mp hfind
    by_cases honline : c.isOnline = 1
    · by_cases hrest : o.fileid = q.fileid ∧ q.type.Holds q.percentage o.percentage ∧ o.clientid ∉ q.clientids
      · simp [p, Option.filter, honline, hrest, hclient]
      · rw [if_neg]
        · simp [p, Option.filter, hrest]
        · simp only [Option.some.injEq, exists_eq_left', honline, true_and]
          tauto
    · simp [p, Option.filter, honline]

/-- **The search finds the owners**, each once, with the percentage it has. -/
theorem Search.map_rows (q : Search) (db : Database) :
    (q.rows db).map (fun row => (row.clientid, row.percentage)) =
      (q.owners db).map fun o => (o.clientid, o.percentage) := by
  unfold rows owners Database.owners
  rw [List.map_flatMap, List.filter_filter]
  simp only [List.map_map, Function.comp_def, filter_selects]
  induction db.fileOwnerInfo.rows with
  | nil => rfl
  | cons o os ih =>
    rw [List.flatMap_cons, List.filter_cons, ih]
    split_ifs
    · rfl
    · rfl

/-! ### The functions of `TrackerDBManager` -/

/-- `ClientInfo`. -/
structure ClientInfo where
  clientid : Bytes
  ip : Bytes
  messageport : Int32
  deriving DecidableEq, Repr

/-- `FileOwnerInfo`. -/
structure FileOwnerInfo where
  clientid : Bytes
  fileid : Bytes
  percentage : Int32
  deriving DecidableEq, Repr

/-- An entry of a `FileOwnerInfoCollection`. -/
abbrev Entry := ClientInfo × FileOwnerInfo

/-- The entry that is made of a row. -/
def FoundRow.entry (fileid : Bytes) (row : FoundRow) : Entry :=
  (⟨row.clientid, row.ip, row.messagePort⟩, ⟨row.clientid, fileid, row.percentage⟩)

/-- What a login updates in a row that is there. -/
def ClientInfoRow.login (ip : Bytes) (port : Int32) (loginTime : Bytes) (row : ClientInfoRow) : ClientInfoRow :=
  { row with ip := ip, messagePort := port, lastLoginTime := loginTime, isOnline := 1 }

/-- What a logout updates. The two totals are bound the wrong way round. -/
def ClientInfoRow.logout (downloadTotal uploadTotal : Int64) (row : ClientInfoRow) : ClientInfoRow :=
  { row with
    isOnline := 0
    uploadTotal := row.uploadTotal + downloadTotal
    downloadTotal := row.downloadTotal + uploadTotal }

/-- What a report updates. -/
def FileOwnerInfoRow.setPercentage (percentage : Int32) (row : FileOwnerInfoRow) : FileOwnerInfoRow :=
  { row with percentage := percentage }

/-- `insert_or_update_login_info`. -/
def insertOrUpdateLoginInfo (my : MySQL) (db : Database) (clientid ip : Bytes) (port : Int32) (loginTime : Bytes) :
    Except Exception Retcode × Database :=
  if my.fails then (.error .runtime, db)
  else
    let row : ClientInfoRow := ⟨clientid, ip, port, 0, 0, loginTime, loginTime, 1⟩
    (.ok .errorOk, { db with clientInfo := db.clientInfo.insertOrUpdate row (.login ip port loginTime) fun _ => rfl })

/-- `update_logout_info`. -/
def updateLogoutInfo (my : MySQL) (db : Database) (clientid : Bytes) (downloadTotal uploadTotal : Int64) :
    Except Exception Retcode × Database :=
  if my.fails then (.error .runtime, db)
  else
    let ofClient : ClientInfoRow → Bool := fun row => decide (row.clientid = clientid)
    (.ok .errorOk,
      { db with clientInfo := db.clientInfo.update ofClient (.logout downloadTotal uploadTotal) fun _ => rfl })

/-- `insert_file_owner_info`. A duplicate key is an exception. -/
def insertFileOwnerInfo (my : MySQL) (db : Database) (info : FileOwnerInfo) : Except Exception Retcode × Database :=
  if my.fails then (.error .runtime, db)
  else
    match db.fileOwnerInfo.insert ⟨info.fileid, info.clientid, info.percentage⟩ with
    | none => (.error .runtime, db)
    | some fileOwnerInfo => (.ok .errorOk, { db with fileOwnerInfo })

/-- The statement of `update_file_owner_info`. -/
def updateText (info : FileOwnerInfo) : Bytes :=
  utf8 "INSERT INTO FILEOWNERINFO (FILEID, CLIENTID, PERCENTAGE) VALUES( '" ++ info.fileid ++ utf8 "', '" ++ info.clientid ++
    utf8 "', " ++ utf8 (toString info.percentage) ++ utf8 ") ON DUPLICATE KEY UPDATE PERCENTAGE=VALUES(PERCENTAGE)"

/-- `update_file_owner_info`. -/
def updateFileOwnerInfo (my : MySQL) (db : Database) (info : FileOwnerInfo) : Except Exception Retcode × Database :=
  if my.fails then (.error .runtime, db)
  else if Plain info.fileid ∧ Plain info.clientid then
    let row : FileOwnerInfoRow := ⟨info.fileid, info.clientid, info.percentage⟩
    (.ok .errorOk,
      { db with fileOwnerInfo := db.fileOwnerInfo.insertOrUpdate row (.setPercentage info.percentage) fun _ => rfl })
  else
    match my.readInsert (updateText info) db with
    | none => (.error .runtime, db)
    | some db => (.ok .errorOk, db)

/-- `search_percentage_raw`; the entries are added to `c`. -/
def searchPercentageRaw (my : MySQL) (db : Database) (type : SearchType) (fileid : Bytes) (percentage needCount : Int32)
    (clientids : List Bytes) (c : List Entry) : Except Exception (Retcode × List Entry) :=
  if needCount ≤ 0 then .ok (.errorOk, c)
  else
    match my.select db ⟨type, fileid, percentage, clientids⟩ needCount.toNatClampNeg with
    | .error e => .error e
    | .ok rows => (readRows rows).map fun rows => (.errorOk, c ++ rows.map (FoundRow.entry fileid))

/-- `search_greater_percentage`. -/
def searchGreaterPercentage (my : MySQL) (db : Database) (fileid : Bytes) (percentage needCount : Int32)
    (clientids : List Bytes) (c : List Entry) : Except Exception (Retcode × List Entry) :=
  searchPercentageRaw my db .greater fileid percentage needCount clientids c

/-- `search_less_equal_percentage`. -/
def searchLessEqualPercentage (my : MySQL) (db : Database) (fileid : Bytes) (percentage needCount : Int32)
    (clientids : List Bytes) (c : List Entry) : Except Exception (Retcode × List Entry) :=
  searchPercentageRaw my db .lessEqual fileid percentage needCount clientids c

/-- The statement of `search_near_percentage_client`. -/
def nearText (fileid : Bytes) (percentage needCount : Int32) (clientids : List Bytes) : Bytes :=
  utf8 "SELECT * FROM ((SELECT CLIENTID,IP,MESSAGEPORT,PERCENTAGE FROM CLIENTINFO INNER JOIN FILEOWNERINFO " ++
    utf8 "WHERE FILEOWNERINFO.FILEID='" ++ fileid ++ utf8 "' AND CLIENTINFO.CLIENTID=FILEOWNERINFO.CLIENTID " ++
    utf8 "AND CLIENTINFO.ISONLINE=1 AND FILEOWNERINFO.PERCENTAGE <= " ++ utf8 (toString percentage) ++
    utf8 " ORDER BY PERCENTAGE DESC) AS GREATER_RECORDS UNION ALL " ++
    utf8 "(SELECT CLIENTID,IP,MESSAGEPORT,PERCENTAGE FROM CLIENTINFO INNER JOIN FILEOWNERINFO " ++
    utf8 "WHERE FILEOWNERINFO.FILEID='" ++ fileid ++ utf8 "' AND CLIENTINFO.CLIENTID=FILEOWNERINFO.CLIENTID " ++
    utf8 "AND CLIENTINFO.ISONLINE=1 AND FILEOWNERINFO.PERCENTAGE > " ++ utf8 (toString percentage) ++
    utf8 " ORDER BY PERCENTAGE ASC ) AS LESS_EQUAL_RECORDS) AS RECORDS WHERE PERCENTAGE != 0 " ++
    excludeText clientids ++ utf8 " LIMIT " ++ utf8 (toString needCount)

/-- `search_near_percentage_client`; what the server makes of its statement is left open. -/
def searchNearPercentageClient (my : MySQL) (db : Database) (fileid : Bytes) (percentage needCount : Int32)
    (clientids : List Bytes) (c : List Entry) : Except Exception (Retcode × List Entry) :=
  if needCount ≤ 0 then .ok (.errorOk, c)
  else if my.fails then .error .runtime
  else
    match my.readSelect (nearText fileid percentage needCount clientids) db with
    | none => .error .runtime
    | some rows => (readRows rows).map fun rows => (.errorOk, c ++ rows.map (FoundRow.entry fileid))

/-- The collection that is made of rows. -/
def entries (fileid : Bytes) (rows : List FoundRow) : List Entry := rows.map (FoundRow.entry fileid)

/-- The rows that the server gives for a search, however many are fetched. -/
def MySQL.Gives (my : MySQL) (db : Database) (q : Search) (rows : List FoundRow) : Prop :=
  ∀ limit, my.select db q limit = .ok (rows.take limit)

/-- A server that carries statements out gives the rows that are selected, in some order. -/
theorem MySQL.gives_of_isPlain {my : MySQL} (hmy : my.fails = false) (db : Database) {q : Search} (hplain : q.IsPlain) :
    ∃ rows : List FoundRow, rows.Perm (q.rows db) ∧ my.Gives db q rows := by
  refine ⟨_, my.order_perm q.text db _, fun limit => ?_⟩
  simp [select, hmy, hplain]

/-- What a statement that is not plain gives is left open. -/
theorem MySQL.gives_of_not_isPlain {my : MySQL} (hmy : my.fails = false) {db : Database} {q : Search}
    (hplain : ¬q.IsPlain)
    {rows : List FoundRow} (hrows : my.readSelect q.text db = some rows) : my.Gives db q rows := by
  intro limit
  simp [select, hmy, hplain, hrows]

/-- **What a search adds to the collection.** -/
theorem searchPercentageRaw_eq {my : MySQL} {db : Database} {type : SearchType} {fileid : Bytes} {percentage : Int32}
    {clientids : List Bytes} {rows : List FoundRow} (hrows : my.Gives db ⟨type, fileid, percentage, clientids⟩ rows)
    (needCount : Int32) (c : List Entry) :
    searchPercentageRaw my db type fileid percentage needCount clientids c =
      .ok (.errorOk, c ++ entries fileid (rowsRead (rows.take needCount.toNatClampNeg))) := by
  unfold searchPercentageRaw
  by_cases hneed : needCount ≤ 0
  · have hzero : needCount.toNatClampNeg = 0 := by
      rw [← Int32.toNat_toInt]
      exact Int.toNat_of_nonpos (Int32.le_iff_toInt_le.mp hneed)
    rw [if_pos hneed, hzero, List.take_zero]
    simp [rowsRead, entries]
  · simp only [if_neg hneed, hrows needCount.toNatClampNeg, readRows_eq, Except.map, entries]

/-- A search adds no more entries than are asked for. -/
theorem searchPercentageRaw_eq_ok {my : MySQL} {db : Database} {type : SearchType} {fileid : Bytes}
    {percentage needCount : Int32} {clientids : List Bytes} {c c' : List Entry} {ret : Retcode}
    (h : searchPercentageRaw my db type fileid percentage needCount clientids c = .ok (ret, c')) :
    ret = .errorOk ∧ ∃ found : List Entry, c' = c ++ found ∧ found.length ≤ needCount.toNatClampNeg := by
  unfold searchPercentageRaw at h
  split_ifs at h
  · cases h
    exact ⟨rfl, [], by simp⟩
  · have hlen : ∀ rows, my.select db ⟨type, fileid, percentage, clientids⟩ needCount.toNatClampNeg = .ok rows →
        rows.length ≤ needCount.toNatClampNeg := by
      intro rows hrows
      unfold MySQL.select at hrows
      split_ifs at hrows
      · cases hrows
        exact List.length_take_le _ _
      · split at hrows <;> cases hrows
        exact List.length_take_le _ _
    split at h
    · cases h
    · next rows hrows =>
      rw [readRows_eq] at h
      cases h
      exact ⟨rfl, _, rfl, by simpa using hlen rows hrows⟩

end CoolDown.Tracker
