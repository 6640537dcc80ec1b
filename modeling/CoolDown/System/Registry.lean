import CoolDown.Client.OwnerSearch
import CoolDown.Public.TrackerRequests
import CoolDown.Tracker.OnlineStatus
import CoolDown.Tracker.PeerSearch

/-!
# What a tracker is for

Apart from tables, statements and packs, a tracker keeps two things: which clients are
online, and where they are to be found; and how much of which file each client has. Clients
write their own part of it and ask for each other's.

## The model

A `Registry` is these two, as functions of ids. `Finds` is what an answer to a request for
peers has to be: no more than are asked for, each of them online and with as much of the file
as stated, none that the asker has excluded, those with more of the file first; and an answer
that is shorter than was asked for may leave out two of the others, as each of the two searches
leaves out its first row. `Represents` says that the tables of a database hold a registry.

## What is proved

* `Represents.login` and its like: what each function of `TrackerDBManager` does to the
  tables is what it should do to the registry.
* `Represents.finds`: what `RequestClients` finds in the tables is right of the registry.
-/

namespace CoolDown

open Library Tracker
open Wire (utf8 ofUtf8)
open OwnerSearch (Peer)

/-- Who is online, under which address and port, and who has how much of a file. -/
structure Registry where
  online : String → Option (String × Int32)
  owners : String → String → Option Int32

namespace Registry

/-- A client comes online. -/
def login (r : Registry) (id ip : String) (port : Int32) : Registry :=
  { r with online := Function.update r.online id (some (ip, port)) }

/-- A client goes offline. -/
def logout (r : Registry) (id : String) : Registry := { r with online := Function.update r.online id none }

/-- A client has so much of a file. -/
def setPercentage (r : Registry) (fileid id : String) (percentage : Int32) : Registry :=
  { r with owners := Function.update r.owners fileid (Function.update (r.owners fileid) id (some percentage)) }

/-- The peer is online, and has so much of the file. -/
structure Has (r : Registry) (fileid : String) (peer : Peer) : Prop where
  online : r.online peer.clientid = some (peer.ip, peer.messagePort)
  owner : r.owners fileid peer.clientid = some peer.percentage

/-- What an answer to a request for peers has to be. -/
structure Finds (r : Registry) (fileid : String) (percentage needCount : Int32) (excluded : List String)
    (peers : List Peer) : Prop where
  length_le : (peers.length : ℤ) ≤ needCount.toInt
  has : ∀ peer ∈ peers, r.Has fileid peer ∧ peer.clientid ∉ excluded
  /-- Those with more of the file come first. -/
  ordered : peers.Pairwise fun peer peer' => peer'.percentage > percentage → peer.percentage > percentage
  /-- If there are fewer than asked for, no more than two are left out. -/
  missed : (peers.length : ℤ) < needCount.toInt → ∃ left : List Peer, left.length ≤ 2 ∧
    ∀ peer, r.Has fileid peer → peer.clientid ∉ excluded → 0 < percentage ∨ percentage < peer.percentage →
      peer ∈ peers ∨ peer ∈ left

end Registry

/-! ### The tables -/

/-- The address in a row of `CLIENTINFO`, if the client is online. -/
def Tracker.ClientInfoRow.address (row : ClientInfoRow) : Option (String × Int32) :=
  if row.isOnline = 1 then (ofUtf8 row.ip).map fun ip => (ip, row.messagePort) else none

/-- The tables hold the registry. -/
structure Represents (db : Database) (r : Registry) : Prop where
  clientInfo : ∀ row ∈ db.clientInfo.rows, ∃ id ip, row.clientid = utf8 id ∧ row.ip = utf8 ip
  fileOwnerInfo : ∀ row ∈ db.fileOwnerInfo.rows, ∃ fileid id, row.fileid = utf8 fileid ∧ row.clientid = utf8 id
  online : ∀ id, r.online id = (db.clientInfo.find? (utf8 id)).bind ClientInfoRow.address
  owners : ∀ fileid id, r.owners fileid id = (db.fileOwnerInfo.find? (utf8 fileid, utf8 id)).map FileOwnerInfoRow.percentage

namespace Represents

open TrackerProto (utf8_injective)

variable {my : MySQL} {db : Database} {r : Registry}

/-- Empty tables. -/
theorem empty : Represents ⟨∅, ∅⟩ ⟨fun _ => none, fun _ _ => none⟩ where
  clientInfo := by rintro row ⟨⟩
  fileOwnerInfo := by rintro row ⟨⟩
  online _ := rfl
  owners _ _ := rfl

/-- A login, where the server carries statements out. -/
theorem login (h : Represents db r) (hmy : my.fails = false) (now : Bytes) (id ip : String) (port : Int32) :
    Represents (addOnlineUser my now db ⟨utf8 id, utf8 ip, port⟩).2 (r.login id ip port) := by
  let row : ClientInfoRow := ⟨utf8 id, utf8 ip, port, 0, 0, now, now, 1⟩
  obtain ⟨hf, hdb⟩ : ∃ hf, (addOnlineUser my now db ⟨utf8 id, utf8 ip, port⟩).2 =
      { db with clientInfo := db.clientInfo.insertOrUpdate row (.login (utf8 ip) port now) hf } :=
    ⟨fun _ => rfl, by simp [addOnlineUser, insertOrUpdateLoginInfo, hmy, row]⟩
  rw [hdb]
  refine ⟨?_, h.fileOwnerInfo, fun id' => ?_, h.owners⟩
  · intro row' hrow
    rcases db.clientInfo.insertOrUpdate_cases row (.login (utf8 ip) port now) hf with ⟨-, hrows⟩ | ⟨-, hupdate⟩
    · rw [hrows] at hrow
      rcases List.mem_append.mp hrow with hrow | hrow
      · exact h.clientInfo row' hrow
      · obtain rfl := List.mem_singleton.mp hrow
        exact ⟨id, ip, rfl, rfl⟩
    · simp only [hupdate, Table.mem_update] at hrow
      obtain ⟨row'', hrow', rfl⟩ := hrow
      obtain ⟨id', ip', hid, hip⟩ := h.clientInfo row'' hrow'
      split_ifs
      · exact ⟨id', ip, hid, rfl⟩
      · exact ⟨id', ip', hid, hip⟩
  · simp only [Registry.login, Function.update_apply, Table.find?_insertOrUpdate, row, utf8_injective.eq_iff]
    split_ifs with hid
    · cases db.clientInfo.find? (utf8 id') with
      | none => simp [ClientInfoRow.address]
      | some row' => simp [ClientInfoRow.address, ClientInfoRow.login]
    · exact h.online id'

/-- The tables after a logout. -/
theorem removeOnlineUser_eq (hmy : my.fails = false) (db : Database) (clientid : Bytes) :
    ∃ hf, (removeOnlineUser my db clientid).2 =
      { db with clientInfo := db.clientInfo.update (fun row => decide (row.clientid = clientid)) (.logout 0 0) hf } :=
  ⟨fun _ => rfl, by simp [removeOnlineUser, updateLogoutInfo, hmy]⟩

/-- What a logout leaves of the strings in `CLIENTINFO`. -/
theorem clientInfo_removeOnlineUser (h : Represents db r) (hmy : my.fails = false) (clientid : Bytes) :
    ∀ row ∈ (removeOnlineUser my db clientid).2.clientInfo.rows, ∃ id ip, row.clientid = utf8 id ∧ row.ip = utf8 ip := by
  obtain ⟨hf, hdb⟩ := removeOnlineUser_eq hmy db clientid
  rw [hdb]
  intro row hrow
  simp only [Table.mem_update] at hrow
  obtain ⟨row', hrow', rfl⟩ := hrow
  obtain ⟨id, ip, hid, hip⟩ := h.clientInfo row' hrow'
  split_ifs
  · exact ⟨id, ip, hid, hip⟩
  · exact ⟨id, ip, hid, hip⟩

/-- A logout, where the server carries statements out. -/
theorem logout (h : Represents db r) (hmy : my.fails = false) (id : String) :
    Represents (removeOnlineUser my db (utf8 id)).2 (r.logout id) := by
  have hrows := h.clientInfo_removeOnlineUser hmy (utf8 id)
  obtain ⟨hf, hdb⟩ := removeOnlineUser_eq hmy db (utf8 id)
  rw [hdb] at hrows ⊢
  refine ⟨hrows, h.fileOwnerInfo, fun id' => ?_, h.owners⟩
  simp only [Registry.logout, Function.update_apply, Table.find?_update_key, utf8_injective.eq_iff]
  split_ifs with hid
  · cases db.clientInfo.find? (utf8 id') with
    | none => simp
    | some row => simp [ClientInfoRow.address, ClientInfoRow.logout]
  · exact h.online id'

/-- The rows of `FILEOWNERINFO` once a client's percentage has been set. -/
theorem setPercentage (h : Represents db r) {fileOwnerInfo : Table FileOwnerInfoRow FileOwnerInfoRow.key}
    {fileid id : String} {percentage : Int32}
    (hmem : ∀ row ∈ fileOwnerInfo.rows, row ∈ db.fileOwnerInfo.rows ∨ row.key = (utf8 fileid, utf8 id))
    (hfind : ∀ k, fileOwnerInfo.find? k =
      if k = (utf8 fileid, utf8 id) then some ⟨utf8 fileid, utf8 id, percentage⟩ else db.fileOwnerInfo.find? k) :
    Represents { db with fileOwnerInfo } (r.setPercentage fileid id percentage) := by
  refine ⟨h.clientInfo, fun row hrow => ?_, h.online, fun fileid' id' => ?_⟩
  · rcases hmem row hrow with hrow | hkey
    · exact h.fileOwnerInfo row hrow
    · exact ⟨fileid, id, (Prod.mk.inj hkey).1, (Prod.mk.inj hkey).2⟩
  · simp only [Registry.setPercentage, Function.update_apply, hfind, Prod.mk.injEq, utf8_injective.eq_iff]
    by_cases hfile : fileid' = fileid
    · subst hfile
      by_cases hid : id' = id
      · simp [hid]
      · simp [hid, h.owners]
    · simp [hfile, h.owners]

/-- A resource that is published is new, or it is refused and nothing changes. -/
theorem publishResource (h : Represents db r) (hmy : my.fails = false) (id fileid : String) :
    (r.owners fileid id = none ∧ (Tracker.publishResource my db (utf8 id) (utf8 fileid)).1 = .ok .errorOk ∧
        Represents (Tracker.publishResource my db (utf8 id) (utf8 fileid)).2 (r.setPercentage fileid id 100)) ∨
      (r.owners fileid id ≠ none ∧ Tracker.publishResource my db (utf8 id) (utf8 fileid) = (.error .runtime, db)) := by
  have hnone : r.owners fileid id = none ↔ db.fileOwnerInfo.find? (utf8 fileid, utf8 id) = none := by
    rw [h.owners, Option.map_eq_none_iff]
  cases hinsert : db.fileOwnerInfo.insert ⟨utf8 fileid, utf8 id, 100⟩ with
  | none =>
    have hthere := Table.insert_eq_none_iff_find?.mp hinsert
    exact .inr ⟨fun hfree => hthere (hnone.mp hfree),
      by simp [Tracker.publishResource, insertFileOwnerInfo, hmy, hinsert]⟩
  | some fileOwnerInfo =>
    have hfree : db.fileOwnerInfo.find? (utf8 fileid, utf8 id) = none := by
      by_contra hthere
      have hrefused := Table.insert_eq_none_iff_find?.mpr
        (show db.fileOwnerInfo.find? (FileOwnerInfoRow.key ⟨utf8 fileid, utf8 id, 100⟩) ≠ none from hthere)
      rw [hinsert] at hrefused
      cases hrefused
    refine .inl ⟨hnone.mpr hfree, ?_⟩
    simp only [Tracker.publishResource, insertFileOwnerInfo, hmy, Bool.false_eq_true, if_false, hinsert, true_and]
    refine h.setPercentage (fun row hrow => ?_) fun k => Table.find?_of_insert hinsert k
    rw [(Table.insert_eq_some.mp hinsert).2] at hrow
    rcases List.mem_append.mp hrow with hrow | hrow
    · exact .inl hrow
    · obtain rfl := List.mem_singleton.mp hrow
      exact .inr rfl

/-- A report of progress, of a plain file id and client id. -/
theorem reportProgress (h : Represents db r) (hmy : my.fails = false) {id fileid : String} (hid : Plain (utf8 id))
    (hfileid : Plain (utf8 fileid)) (percentage : Int32) :
    (Tracker.reportProgress my db (utf8 id) (utf8 fileid) percentage).1 = .ok .errorOk ∧
      Represents (Tracker.reportProgress my db (utf8 id) (utf8 fileid) percentage).2 (r.setPercentage fileid id percentage) := by
  let row : FileOwnerInfoRow := ⟨utf8 fileid, utf8 id, percentage⟩
  obtain ⟨hf, hdb⟩ : ∃ hf, Tracker.reportProgress my db (utf8 id) (utf8 fileid) percentage =
      (.ok .errorOk, { db with fileOwnerInfo := db.fileOwnerInfo.insertOrUpdate row (.setPercentage percentage) hf }) :=
    ⟨fun _ => rfl, by simp [Tracker.reportProgress, updateFileOwnerInfo, hmy, hid, hfileid, row]⟩
  rw [hdb]
  refine ⟨rfl, h.setPercentage (fun row' hrow => ?_) fun k => ?_⟩
  · rcases db.fileOwnerInfo.insertOrUpdate_cases row (.setPercentage percentage) hf with ⟨-, hrows⟩ | ⟨-, hupdate⟩
    · rw [hrows] at hrow
      rcases List.mem_append.mp hrow with hrow | hrow
      · exact .inl hrow
      · obtain rfl := List.mem_singleton.mp hrow
        exact .inr rfl
    · simp only [hupdate, Table.mem_update] at hrow
      obtain ⟨row'', hrow', rfl⟩ := hrow
      split_ifs with hkey
      · exact .inr (of_decide_eq_true hkey)
      · exact .inl hrow'
  · rw [Table.find?_insertOrUpdate]
    show (if k = (utf8 fileid, utf8 id) then _ else _) = _
    split_ifs with hk
    · cases hfind : db.fileOwnerInfo.find? k with
      | none => rfl
      | some row' =>
        obtain ⟨-, rfl⟩ := Table.find?_eq_some.mp hfind
        obtain ⟨hfile, hclient⟩ := Prod.mk.inj hk
        simp [FileOwnerInfoRow.setPercentage, row, ← hfile, ← hclient]
    · rfl

/-! ### The search -/

/-- A row of the answer to a search, in which the peer is. -/
def rowOf (peer : Peer) : FoundRow := ⟨utf8 peer.clientid, utf8 peer.ip, peer.messagePort, peer.percentage⟩

theorem rowOf_injective : Function.Injective rowOf := by
  rintro ⟨clientid, ip, messagePort, percentage⟩ ⟨clientid', ip', messagePort', percentage'⟩ h
  simpa [rowOf, utf8_injective.eq_iff] using h

/-- A client that is online is in `CLIENTINFO`. -/
theorem online_eq_some (h : Represents db r) {id ip : String} {port : Int32} :
    r.online id = some (ip, port) ↔
      ∃ row ∈ db.clientInfo.rows, row.clientid = utf8 id ∧ row.ip = utf8 ip ∧ row.messagePort = port ∧ row.isOnline = 1 := by
  rw [h.online]
  simp only [Option.bind_eq_some_iff, Table.find?_eq_some, ClientInfoRow.address]
  constructor
  · rintro ⟨row, ⟨hrow, hid⟩, haddress⟩
    obtain ⟨id', ip', -, hip⟩ := h.clientInfo row hrow
    split_ifs at haddress with honline
    simp only [hip, Wire.ofUtf8_utf8, Option.map_some, Option.some.injEq, Prod.mk.injEq] at haddress
    exact ⟨row, hrow, hid, by rw [hip, haddress.1], haddress.2, honline⟩
  · rintro ⟨row, hrow, hid, hip, hport, honline⟩
    exact ⟨row, ⟨hrow, hid⟩, by simp [honline, hip, hport]⟩

/-- What a client has of a file is in `FILEOWNERINFO`. -/
theorem owners_eq_some (h : Represents db r) {fileid id : String} {percentage : Int32} :
    r.owners fileid id = some percentage ↔ ⟨utf8 fileid, utf8 id, percentage⟩ ∈ db.fileOwnerInfo.rows := by
  rw [h.owners]
  simp only [Option.map_eq_some_iff, Table.find?_eq_some, FileOwnerInfoRow.key, Prod.mk.injEq]
  constructor
  · rintro ⟨⟨fileid', id', percentage'⟩, ⟨hrow, rfl, rfl⟩, rfl⟩
    exact hrow
  · intro hrow
    exact ⟨_, ⟨hrow, rfl, rfl⟩, rfl⟩

/-- **The rows that a search selects** are those of the peers that have the file. -/
theorem mem_rows_iff (h : Represents db r) {type : SearchType} {fileid : String} {percentage : Int32}
    {excluded : List String} {row : FoundRow} :
    row ∈ (searchOf type (utf8 fileid) percentage (excluded.map utf8)).rows db ↔
      ∃ peer, row = rowOf peer ∧ r.Has fileid peer ∧ peer.clientid ∉ excluded ∧ type.Holds percentage peer.percentage := by
  rw [Search.mem_rows]
  constructor
  · rintro ⟨o, ho, c, hc, ⟨hfile, hclient, honline, hp, hids⟩, rfl⟩
    obtain ⟨id, ip, hid, hip⟩ := h.clientInfo c hc
    refine ⟨⟨id, ip, c.messagePort, o.percentage⟩, by simp [rowOf, hid, hip], ⟨?_, ?_⟩, fun hmem => ?_, hp⟩
    · exact h.online_eq_some.mpr ⟨c, hc, hid, hip, rfl, honline⟩
    · rw [h.owners_eq_some, ← hid, hclient, ← show o.fileid = utf8 fileid from hfile]
      exact ho
    · exact hids (utf8 id) (List.mem_map_of_mem hmem) (hclient.symm.trans hid)
  · rintro ⟨peer, rfl, ⟨honline, howner⟩, hexcluded, hp⟩
    obtain ⟨c, hc, hid, hip, hport, hone⟩ := h.online_eq_some.mp honline
    refine ⟨_, h.owners_eq_some.mp howner, c, hc, ⟨rfl, hid, hone, hp, fun clientid hmem heq => ?_⟩, ?_⟩
    · obtain ⟨id, hin, rfl⟩ := List.mem_map.mp hmem
      exact hexcluded (utf8_injective heq ▸ hin)
    · simp [rowOf, hid, hip, hport]

theorem rowOf_mem_rows_iff (h : Represents db r) {type : SearchType} {fileid : String} {percentage : Int32}
    {excluded : List String} {peer : Peer} :
    rowOf peer ∈ (searchOf type (utf8 fileid) percentage (excluded.map utf8)).rows db ↔
      r.Has fileid peer ∧ peer.clientid ∉ excluded ∧ type.Holds percentage peer.percentage := by
  rw [h.mem_rows_iff]
  exact ⟨fun ⟨peer', heq, hpeer⟩ => rowOf_injective heq ▸ hpeer, fun hpeer => ⟨peer, rfl, hpeer⟩⟩

/-- Rows of a search are those of some peers. -/
theorem exists_peers (h : Represents db r) {type : SearchType} {fileid : String} {percentage : Int32}
    {excluded : List String} {rows : List FoundRow}
    (hrows : rows ⊆ (searchOf type (utf8 fileid) percentage (excluded.map utf8)).rows db) :
    ∃ peers : List Peer, peers.map rowOf = rows ∧
      ∀ peer ∈ peers, r.Has fileid peer ∧ peer.clientid ∉ excluded ∧ type.Holds percentage peer.percentage := by
  have hmem : rows ∈ Set.range (List.map rowOf) := by
    rw [Set.range_list_map]
    intro row hrow
    obtain ⟨peer, rfl, -⟩ := h.mem_rows_iff.mp (hrows hrow)
    exact ⟨peer, rfl⟩
  obtain ⟨peers, rfl⟩ := hmem
  exact ⟨peers, rfl, fun peer hpeer => h.rowOf_mem_rows_iff.mp (hrows (List.mem_map_of_mem hpeer))⟩

/-- A row that is not read is the first one. -/
theorem mem_rowsRead_or_head {ρ : Type} {rows : List ρ} {row : ρ} (h : row ∈ rows) :
    row ∈ rowsRead rows ∨ row ∈ rows.head?.toList := by
  cases rows with
  | nil => cases h
  | cons first rows =>
    rcases List.mem_cons.mp h with rfl | h
    · exact .inr (by simp)
    · exact .inl (List.mem_append_left _ h)

theorem rowsRead_subset {ρ : Type} (rows : List ρ) : rowsRead rows ⊆ rows := fun _ => mem_of_mem_rowsRead

/-- A search of which all rows are read leaves out one peer at most. -/
theorem exists_left (h : Represents db r) {type : SearchType} {fileid : String} {percentage : Int32}
    {excluded : List String} {rows : List FoundRow} {peers : List Peer}
    (hperm : rows.Perm ((searchOf type (utf8 fileid) percentage (excluded.map utf8)).rows db))
    (hpeers : peers.map rowOf = rowsRead rows) :
    ∃ left : List Peer, left.length ≤ 1 ∧ ∀ peer, r.Has fileid peer → peer.clientid ∉ excluded →
      type.Holds percentage peer.percentage → peer ∈ peers ∨ peer ∈ left := by
  have hhead : rows.head?.toList ⊆ rows := fun row hrow => List.mem_of_mem_head? (Option.mem_toList.mp hrow)
  obtain ⟨left, hleft, -⟩ := h.exists_peers fun _ hrow => hperm.subset (hhead hrow)
  refine ⟨left, ?_, fun peer hhas hexcluded hholds => ?_⟩
  · have hlen := congrArg List.length hleft
    rw [List.length_map] at hlen
    rw [hlen]
    cases rows <;> simp
  · have hrow : rowOf peer ∈ rows := hperm.mem_iff.mpr (h.rowOf_mem_rows_iff.mpr ⟨hhas, hexcluded, hholds⟩)
    have hin : ∀ {peers : List Peer}, rowOf peer ∈ peers.map rowOf → peer ∈ peers :=
      fun hmem => (List.mem_map_of_injective rowOf_injective).mp hmem
    rcases mem_rowsRead_or_head hrow with hread | hfirst
    · exact .inl (hin (hpeers ▸ hread))
    · exact .inr (hin (hleft ▸ hfirst))

/-- The peers of two searches, with more of the file and with less, are a right answer. -/
theorem finds_append {fileid : String} {percentage needCount : Int32} {excluded : List String} {first second : List Peer}
    (hfirst : ∀ peer ∈ first, r.Has fileid peer ∧ peer.clientid ∉ excluded ∧ peer.percentage > percentage)
    (hsecond : ∀ peer ∈ second, r.Has fileid peer ∧ peer.clientid ∉ excluded ∧ peer.percentage ≤ percentage)
    (hlen : ((first.length + second.length : ℕ) : ℤ) ≤ needCount.toInt)
    (hmissed : ((first.length + second.length : ℕ) : ℤ) < needCount.toInt → ∃ left : List Peer, left.length ≤ 2 ∧
      ∀ peer, r.Has fileid peer → peer.clientid ∉ excluded → 0 < percentage ∨ percentage < peer.percentage →
        peer ∈ first ++ second ∨ peer ∈ left) :
    r.Finds fileid percentage needCount excluded (first ++ second) where
  length_le := by rwa [List.length_append]
  has peer hpeer := by
    rcases List.mem_append.mp hpeer with hpeer | hpeer
    · exact ⟨(hfirst peer hpeer).1, (hfirst peer hpeer).2.1⟩
    · exact ⟨(hsecond peer hpeer).1, (hsecond peer hpeer).2.1⟩
  ordered := by
    refine List.pairwise_append.mpr ⟨?_, ?_, fun peer hpeer _ _ _ => (hfirst peer hpeer).2.2⟩
    · exact List.Pairwise.imp_of_mem (fun hpeer _ _ _ => (hfirst _ hpeer).2.2) (List.pairwise_of_forall fun _ _ => trivial)
    · exact List.Pairwise.imp_of_mem (fun _ hpeer _ hmore => absurd hmore (Int32.not_lt.mpr (hsecond _ hpeer).2.2))
        (List.pairwise_of_forall fun _ _ => trivial)
  missed := by rwa [List.length_append]

/-- **What `RequestClients` finds is right of the registry.** -/
theorem finds (h : Represents db r) (hmy : my.fails = false) {fileid : String} {percentage needCount : Int32}
    {excluded : List String} (hfile : fileid ≠ "") (hp : 0 ≤ percentage) (hp' : percentage ≤ 100) (hneed : 0 ≤ needCount)
    (hplain : Plain (utf8 fileid) ∧ ∀ id ∈ excluded, Plain (utf8 id)) :
    ∃ peers : List Peer, Tracker.requestClients my db (utf8 fileid) percentage needCount (excluded.map utf8) =
        .ok (.errorOk, entries (utf8 fileid) (peers.map rowOf)) ∧ r.Finds fileid percentage needCount excluded peers := by
  have hfile' : utf8 fileid ≠ [] := fun hnil => hfile (utf8_injective hnil)
  have hplain' : Plain (utf8 fileid) ∧ ∀ clientid ∈ excluded.map utf8, Plain clientid := by
    refine ⟨hplain.1, fun clientid hmem => ?_⟩
    obtain ⟨id, hid, rfl⟩ := List.mem_map.mp hmem
    exact hplain.2 id hid
  obtain ⟨more, less, hmore, hless, heq⟩ := Tracker.requestClients_eq hmy db hfile' hp hp' hneed hplain'
  have hn : (needCount.toNatClampNeg : ℤ) = needCount.toInt := Int32.cast_toNatClampNeg needCount hneed
  generalize needCount.toNatClampNeg = n at heq hn
  have hread : ∀ {rows rows' : List FoundRow} {k : ℕ}, rows.Perm rows' → rowsRead (rows.take k) ⊆ rows' :=
    fun hperm row hrow => hperm.subset (List.mem_of_mem_take (rowsRead_subset _ hrow))
  obtain ⟨first, hfirst, hfirstHas⟩ := h.exists_peers (@hread more _ n hmore)
  have hfirstLength : first.length = (more.take n).length := by simpa using congrArg List.length hfirst
  have htake : (more.take n).length ≤ n := List.length_take_le _ _
  by_cases hpos : percentage > 0
  · obtain ⟨second, hsecond, hsecondHas⟩ := h.exists_peers (@hread less _ (n - (more.take n).length) hless)
    have hsecondLength : second.length = (less.take (n - (more.take n).length)).length := by
      simpa using congrArg List.length hsecond
    have hlen : (less.take (n - (more.take n).length)).length ≤ n - (more.take n).length := List.length_take_le _ _
    refine ⟨first ++ second, ?_, finds_append hfirstHas hsecondHas (by omega) fun hfew => ?_⟩
    · rw [heq, if_pos hpos, ← hfirst, ← hsecond, entries, entries, entries, List.map_append, List.map_append]
    · -- all rows of both searches have been fetched
      have hall : more.take n = more ∧ less.take (n - (more.take n).length) = less := by
        simp only [List.length_take] at hfirstLength hsecondLength hfew ⊢
        exact ⟨List.take_of_length_le (by omega), List.take_of_length_le (by omega)⟩
      rw [hall.1] at hfirst
      rw [hall.2] at hsecond
      obtain ⟨left₁, hleft₁, hmissed₁⟩ := h.exists_left hmore hfirst
      obtain ⟨left₂, hleft₂, hmissed₂⟩ := h.exists_left hless hsecond
      refine ⟨left₁ ++ left₂, by rw [List.length_append]; omega, fun peer hhas hexcluded _ => ?_⟩
      simp only [List.mem_append]
      by_cases hgreater : peer.percentage > percentage
      · rcases hmissed₁ peer hhas hexcluded hgreater with hin | hin
        · exact .inl (.inl hin)
        · exact .inr (.inl hin)
      · rcases hmissed₂ peer hhas hexcluded (Int32.not_lt.mp hgreater) with hin | hin
        · exact .inl (.inr hin)
        · exact .inr (.inr hin)
  · refine ⟨first ++ [], ?_, finds_append hfirstHas (by simp) (by simp; omega) fun hfew => ?_⟩
    · rw [heq, if_neg hpos, ← hfirst, List.append_nil, List.append_nil]
    · have hall : more.take n = more := by
        simp only [List.length_take, List.length_nil] at hfirstLength hfew
        exact List.take_of_length_le (by omega)
      rw [hall] at hfirst
      obtain ⟨left, hleft, hmissed⟩ := h.exists_left hmore hfirst
      refine ⟨left, by omega, fun peer hhas hexcluded hwanted => ?_⟩
      rw [List.append_nil]
      exact hmissed peer hhas hexcluded (hwanted.resolve_left hpos)

end Represents

end CoolDown
