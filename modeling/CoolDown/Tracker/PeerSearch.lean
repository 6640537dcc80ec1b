import CoolDown.Tracker.TrackerConnectionHandler

/-!
# Searching for peers

What a client is told when it asks the tracker for peers: clients that are online, have
the file, and are not among those it knows. The tracker makes two searches, and each
leaves out its first row and takes its last one twice.

## What is proved

* `peer_search_sound`: what is returned is right: no more clients than asked for, none of
  them excluded, those with more of the file before the others.
* `searchComplete_iff_fetchesAll`: what is made of the rows fetched is complete where they are one of each
  search at most.
* `peer_search_complete_iff`: so when the whole search is, with no client twice, by the owners there are or, where
  the strings are not plain, by what the server reads.
* `peer_search_incomplete`: with two owners of the whole file the second one is returned
  twice, and the first not at all.
-/

namespace CoolDown.Tracker

open Library TrackerProto

/-! ### Soundness -/

/-- What is right about the clients returned. -/
structure SearchSound (db : Database) (fileid : Bytes) (percentage needCount : Int32) (excluded : List Bytes)
    (clients : List Entry) : Prop where
  length_le : (clients.length : ℤ) ≤ needCount.toInt
  /-- Each is online, under its address, -/
  online : ∀ e ∈ clients, ∃ row ∈ db.clientInfo.rows,
    row.clientid = e.1.clientid ∧ row.ip = e.1.ip ∧ row.messagePort = e.1.messageport ∧ row.isOnline = 1
  /-- owns the file with the percentage stated, -/
  owner : ∀ e ∈ clients, e.2.clientid = e.1.clientid ∧ e.2.fileid = fileid ∧
    ⟨fileid, e.1.clientid, e.2.percentage⟩ ∈ db.fileOwnerInfo.rows
  /-- and is not excluded. -/
  notExcluded : ∀ e ∈ clients, e.1.clientid ∉ excluded
  /-- Those with more of the file come first. -/
  ordered : clients.Pairwise fun e e' => e'.2.percentage > percentage → e.2.percentage > percentage
  /-- The others are there only to fill up. -/
  filled : ∀ e ∈ clients, e.2.percentage ≤ percentage →
    percentage > 0 ∧ (((searchOf .greater fileid percentage excluded).owners db).length : ℤ) < needCount.toInt

theorem Search.mem_rows {q : Search} {db : Database} {row : FoundRow} :
    row ∈ q.rows db ↔ ∃ o ∈ db.fileOwnerInfo.rows, ∃ c ∈ db.clientInfo.rows, q.Selects o c ∧
      row = ⟨c.clientid, c.ip, c.messagePort, o.percentage⟩ := by
  simp only [rows, List.mem_flatMap, List.mem_map, List.mem_filter, decide_eq_true_eq, and_assoc, @eq_comm _ row]

/-- There are as many rows as owners. -/
theorem Search.length_rows (q : Search) (db : Database) : (q.rows db).length = (q.owners db).length := by
  simpa using congrArg List.length (q.map_rows db)

/-- Nothing is returned that is wrong. -/
theorem SearchSound.nil {db : Database} {fileid : Bytes} {percentage needCount : Int32} {excluded : List Bytes}
    (hneed : 0 ≤ needCount) : SearchSound db fileid percentage needCount excluded [] where
  length_le := by simpa using Int32.le_iff_toInt_le.mp hneed
  online := by simp
  owner := by simp
  notExcluded := by simp
  ordered := .nil
  filled := by simp

/-- What is right about the entry of a row that a search has given. -/
theorem entry_of_mem_rows {db : Database} {type : SearchType} {fileid : Bytes} {percentage : Int32}
    {excluded : List Bytes} {row : FoundRow} (h : row ∈ (searchOf type fileid percentage excluded).rows db) :
    (∃ c ∈ db.clientInfo.rows, c.clientid = row.clientid ∧ c.ip = row.ip ∧ c.messagePort = row.messagePort ∧
      c.isOnline = 1) ∧
      ⟨fileid, row.clientid, row.percentage⟩ ∈ db.fileOwnerInfo.rows ∧ row.clientid ∉ excluded ∧
      type.Holds percentage row.percentage := by
  obtain ⟨o, ho, c, hc, ⟨hfile, hclient, honline, hp, hids⟩, rfl⟩ := Search.mem_rows.mp h
  refine ⟨⟨c, hc, rfl, rfl, rfl, honline⟩, ?_, fun hmem => hids _ hmem hclient.symm, hp⟩
  have heq : (⟨fileid, c.clientid, o.percentage⟩ : FileOwnerInfoRow) = o := by
    cases o
    simp_all [searchOf]
  rwa [heq]

/-- Rows of the first search, then rows of the second one, make entries that are right. -/
theorem SearchSound.of_rows {db : Database} {fileid : Bytes} {percentage needCount : Int32} {excluded : List Bytes}
    {more less : List FoundRow} (hmore : more ⊆ (searchOf .greater fileid percentage excluded).rows db)
    (hless : less ⊆ (searchOf .lessEqual fileid percentage excluded).rows db)
    (hlen : ((more.length + less.length : ℕ) : ℤ) ≤ needCount.toInt)
    (hfilled : less ≠ [] → percentage > 0 ∧
      (((searchOf .greater fileid percentage excluded).owners db).length : ℤ) < needCount.toInt) :
    SearchSound db fileid percentage needCount excluded (entries fileid more ++ entries fileid less) := by
  have hrow : ∀ e ∈ entries fileid more ++ entries fileid less, ∃ row type,
      row ∈ (searchOf type fileid percentage excluded).rows db ∧ row.entry fileid = e := by
    intro e he
    rcases List.mem_append.mp he with he | he <;> obtain ⟨row, hrow, rfl⟩ := List.mem_map.mp he
    · exact ⟨row, .greater, hmore hrow, rfl⟩
    · exact ⟨row, .lessEqual, hless hrow, rfl⟩
  constructor
  · simpa [entries] using hlen
  · intro e he
    obtain ⟨row, type, hmem, rfl⟩ := hrow e he
    exact (entry_of_mem_rows hmem).1
  · intro e he
    obtain ⟨row, type, hmem, rfl⟩ := hrow e he
    exact ⟨rfl, rfl, (entry_of_mem_rows hmem).2.1⟩
  · intro e he
    obtain ⟨row, type, hmem, rfl⟩ := hrow e he
    exact (entry_of_mem_rows hmem).2.2.1
  · -- an entry of the first search has more of the file, and one of the second has not
    have hfirst : ∀ e ∈ entries fileid more, e.2.percentage > percentage := by
      intro e he
      obtain ⟨row, hmem, rfl⟩ := List.mem_map.mp he
      exact (entry_of_mem_rows (hmore hmem)).2.2.2
    have hsecond : ∀ e ∈ entries fileid less, ¬e.2.percentage > percentage := by
      intro e he
      obtain ⟨row, hmem, rfl⟩ := List.mem_map.mp he
      exact Int32.not_lt.mpr (entry_of_mem_rows (hless hmem)).2.2.2
    refine List.pairwise_append.mpr ⟨?_, ?_, ?_⟩
    · exact List.Pairwise.imp_of_mem (fun he _ _ _ => hfirst _ he) (List.pairwise_of_forall fun _ _ => trivial)
    · exact List.Pairwise.imp_of_mem (fun _ he _ h => absurd h (hsecond _ he)) (List.pairwise_of_forall fun _ _ => trivial)
    · exact fun e he _ _ _ => hfirst e he
  · intro e he hp
    rcases List.mem_append.mp he with he | he <;> obtain ⟨row, hmem, rfl⟩ := List.mem_map.mp he
    · exact absurd (entry_of_mem_rows (hmore hmem)).2.2.2 (Int32.not_lt.mpr hp)
    · exact hfilled (List.ne_nil_of_mem hmem)

/-- **What `RequestClients` returns is right.** -/
theorem requestClients_sound {my : MySQL} (hmy : my.fails = false) (db : Database) {fileid : Bytes}
    {percentage needCount : Int32} {owned : List Bytes} (hp : 0 ≤ percentage) (hp' : percentage ≤ 100)
    (hneed : 0 ≤ needCount) (hplain : Plain fileid ∧ ∀ clientid ∈ owned, Plain clientid) :
    ∃ ret clients, requestClients my db fileid percentage needCount owned = .ok (ret, clients) ∧
      (ret ≠ .errorOk → clients = []) ∧ SearchSound db fileid percentage needCount owned clients := by
  by_cases hfile : fileid = []
  · exact ⟨.errorUnknown, [], by simp [requestClients, hfile], fun _ => rfl, .nil hneed⟩
  · obtain ⟨more, less, hmore, hless, heq⟩ := requestClients_eq hmy db hfile hp hp' hneed hplain
    have hn : (needCount.toNatClampNeg : ℤ) = needCount.toInt := Int32.cast_toNatClampNeg needCount hneed
    have hlen : more.length = ((searchOf .greater fileid percentage owned).owners db).length :=
      hmore.length_eq.trans (Search.length_rows _ db)
    have hsub : ∀ {rows rows' : List FoundRow} {k : ℕ}, rows.Perm rows' → rowsRead (rows.take k) ⊆ rows' :=
      fun h _ hrow => h.subset (List.mem_of_mem_take (mem_of_mem_rowsRead hrow))
    refine ⟨.errorOk, _, heq, fun h => absurd rfl h, ?_⟩
    split_ifs with hpos
    · refine .of_rows (hsub hmore) (hsub hless) ?_ ?_
      · simp only [length_rowsRead, List.length_take]
        omega
      · intro hne
        have hfew : needCount.toNatClampNeg - (more.take needCount.toNatClampNeg).length ≠ 0 := by
          intro h0
          rw [h0, List.take_zero] at hne
          exact hne rfl
        rw [List.length_take] at hfew
        exact ⟨hpos, by omega⟩
    · refine @SearchSound.of_rows _ _ _ _ _ _ [] (hsub hmore) (List.nil_subset _) ?_ (fun h => absurd rfl h)
      simp only [length_rowsRead, List.length_take, List.length_nil]
      omega

/-- **The search is sound.** What `RequestClients` returns is right, and so is what
`HandleRequestPeer` puts in the reply, where the id of the connection is excluded as well. -/
theorem peer_search_sound {io : Io} (hmy : io.my.fails = false) (db : Database) {m : QueryPeer}
    (hp : 0 ≤ m.percentage) (hp' : m.percentage ≤ 100) (hneed : 0 ≤ m.needcount)
    (hplain : Plain m.fileId ∧ ∀ clientid ∈ m.ownedClients, Plain clientid) :
    (∃ ret clients, requestClients io.my db m.fileId m.percentage m.needcount m.ownedClients = .ok (ret, clients) ∧
        SearchSound db m.fileId m.percentage m.needcount m.ownedClients clients) ∧
      ∀ h : Handler, Plain h.clientid → ∀ out : QueryPeerReply, ∃ clients,
        (h.handleRequestPeer io db (.queryPeer m) out).2.info = out.info ++ clients.map Handler.peerFileInfo ∧
          SearchSound db m.fileId m.percentage m.needcount (m.ownedClients ++ [h.clientid]) clients := by
  constructor
  · obtain ⟨ret, clients, heq, -, hsound⟩ := requestClients_sound hmy db hp hp' hneed hplain
    exact ⟨ret, clients, heq, hsound⟩
  · intro h hclient out
    have hplain' : Plain m.fileId ∧ ∀ clientid ∈ m.ownedClients ++ [h.clientid], Plain clientid := by
      refine ⟨hplain.1, fun clientid hmem => ?_⟩
      rcases List.mem_append.mp hmem with hmem | hmem
      · exact hplain.2 clientid hmem
      · rwa [List.mem_singleton.mp hmem]
    obtain ⟨ret, clients, heq, hret, hsound⟩ := requestClients_sound hmy db hp hp' hneed hplain'
    refine ⟨clients, ?_, hsound⟩
    by_cases hok : ret = .errorOk
    · simp [Handler.handleRequestPeer, heq, hok]
    · simp [Handler.handleRequestPeer, heq, hok, hret hok]

/-- Two clients that own a file, one with half of it and one with all, and are online. -/
def twoOwners : Database where
  clientInfo := ⟨[⟨[97], [49], 1, 0, 0, [], [], 1⟩, ⟨[98], [50], 2, 0, 0, [], [], 1⟩], by decide⟩
  fileOwnerInfo := ⟨[⟨[102], [97], 50⟩, ⟨[102], [98], 100⟩], by decide⟩

theorem peer_search_sound_twoOwners :
    (0 : Int32) ≤ 60 ∧ (∃ ret clients, requestClients .simple twoOwners [102] 60 20 [] = .ok (ret, clients) ∧
        SearchSound twoOwners [102] 60 20 [] clients) ∧
      ∀ h : Handler, Plain h.clientid → ∀ out : QueryPeerReply, ∃ clients,
        (h.handleRequestPeer ⟨.simple, []⟩ twoOwners (.queryPeer ⟨[102], 60, none, []⟩) out).2.info =
            out.info ++ clients.map Handler.peerFileInfo ∧
          SearchSound twoOwners [102] 60 20 ([] ++ [h.clientid]) clients :=
  ⟨by decide, @peer_search_sound ⟨.simple, []⟩ rfl twoOwners ⟨[102], 60, none, []⟩ (by decide) (by decide) (by decide)
    ⟨by decide, List.forall_mem_nil _⟩⟩

/-! ### Completeness -/

/-- The ids of the clients returned. -/
def ids (clients : List Entry) : List Bytes := clients.map fun e => e.1.clientid

/-- Every eligible client is returned, once, if there are no more than asked for; and no
client is returned twice. -/
def SearchComplete (db : Database) (fileid : Bytes) (needCount : Int32) (owned : List Bytes)
    (r : Except Exception (Retcode × List Entry)) : Prop :=
  (((db.owners fileid owned).length : ℤ) ≤ needCount.toInt →
    ∃ ret clients, r = .ok (ret, clients) ∧ ∀ o ∈ db.owners fileid owned, (ids clients).count o.clientid = 1) ∧
  ∀ ret clients, r = .ok (ret, clients) → (ids clients).Nodup

/-- The number of rows a search has. -/
def ownerCount (db : Database) (type : SearchType) (fileid : Bytes) (percentage : Int32) (owned : List Bytes) : ℕ :=
  ((searchOf type fileid percentage owned).owners db).length

/-- Neither search fetches more than one row, where `n` clients are asked for. -/
def OneRowEach (db : Database) (fileid : Bytes) (percentage : Int32) (n : ℕ) (owned : List Bytes) : Prop :=
  min n (ownerCount db .greater fileid percentage owned) ≤ 1 ∧
    min (n - min n (ownerCount db .greater fileid percentage owned)) (ownerCount db .lessEqual fileid percentage owned) ≤ 1

/-- The rows that the server lets `RequestClients` fetch with statements that are not plain, of which `n` are wanted: those
of the first search, and those of the second one, which is made only for the rest. `none` if it refuses a statement. -/
def rowsFetched (my : MySQL) (db : Database) (fileid : Bytes) (percentage : Int32) (n : ℕ) (owned : List Bytes) :
    Option (List FoundRow × List FoundRow) :=
  match my.readSelect (searchOf .greater fileid percentage owned).text db with
  | none => none
  | some more =>
    if n ≤ more.length then some (more.take n, [])
    else
      (my.readSelect (searchOf .lessEqual fileid percentage owned).text db).map fun less =>
        (more, less.take (n - more.length))

/-- The rows are one of each search at most, they are of different clients, and they are of all that are eligible, if
these are no more than asked for. -/
def FetchesAll (db : Database) (fileid : Bytes) (needCount : Int32) (owned : List Bytes) (more less : List FoundRow) : Prop :=
  more.length ≤ 1 ∧ less.length ≤ 1 ∧ ((more ++ less).map FoundRow.clientid).Nodup ∧
    (((db.owners fileid owned).length : ℤ) ≤ needCount.toInt →
      ∀ o ∈ db.owners fileid owned, o.clientid ∈ (more ++ less).map FoundRow.clientid)

/-- When `RequestClients` is complete. Where a string is not plain, that depends on what the server reads. -/
def CompleteWhen (my : MySQL) (db : Database) (fileid : Bytes) (percentage needCount : Int32) (owned : List Bytes) : Prop :=
  if needCount ≤ 0 then True
  else if fileid = [] then db.owners fileid owned = [] ∨ needCount.toInt < (db.owners fileid owned).length
  else if Plain fileid ∧ ∀ clientid ∈ owned, Plain clientid then
    OneRowEach db fileid percentage needCount.toNatClampNeg owned
  else
    match rowsFetched my db fileid percentage needCount.toNatClampNeg owned with
    | none => needCount.toInt < (db.owners fileid owned).length
    | some (more, less) => FetchesAll db fileid needCount owned more less

theorem ids_append (xs ys : List Entry) : ids (xs ++ ys) = ids xs ++ ids ys := List.map_append

theorem ids_entries (fileid : Bytes) (rows : List FoundRow) :
    ids (entries fileid rows) = rows.map FoundRow.clientid := by
  simp [ids, entries, FoundRow.entry]

/-- The ids of the rows are those of the owners. -/
theorem Search.map_clientid_rows (q : Search) (db : Database) :
    (q.rows db).map FoundRow.clientid = (q.owners db).map FileOwnerInfoRow.clientid := by
  simpa [Function.comp_def] using congrArg (List.map Prod.fst) (q.map_rows db)

/-- The two searches share the owners out between them. -/
theorem owners_perm (db : Database) (fileid : Bytes) (percentage : Int32) (owned : List Bytes) :
    ((searchOf .greater fileid percentage owned).owners db ++
      (searchOf .lessEqual fileid percentage owned).owners db).Perm (db.owners fileid owned) := by
  have hsplit : (fun o : FileOwnerInfoRow => decide (SearchType.lessEqual.Holds percentage o.percentage)) =
      fun o => !decide (SearchType.greater.Holds percentage o.percentage) := by
    funext o
    rw [← decide_not, decide_eq_decide]
    exact Int32.not_lt.symm
  have hperm := List.filter_append_perm
    (fun o : FileOwnerInfoRow => decide (SearchType.greater.Holds percentage o.percentage)) (db.owners fileid owned)
  rw [← hsplit] at hperm
  exact hperm

/-- **What is made of the rows that are fetched** is complete just when they are all, one of each search at most. -/
theorem searchComplete_iff_fetchesAll (db : Database) (fileid : Bytes) (needCount : Int32) (owned : List Bytes)
    (more less : List FoundRow) :
    SearchComplete db fileid needCount owned
        (.ok (.errorOk, entries fileid (rowsRead more) ++ entries fileid (rowsRead less))) ↔
      FetchesAll db fileid needCount owned more less := by
  have hids : ids (entries fileid (rowsRead more) ++ entries fileid (rowsRead less)) =
      (rowsRead more).map FoundRow.clientid ++ (rowsRead less).map FoundRow.clientid := by
    rw [ids_append, ids_entries, ids_entries]
  constructor
  · intro h
    have hnodup := h.2 _ _ rfl
    rw [hids] at hnodup
    obtain ⟨hfirst, hsecond, -⟩ := List.nodup_append.mp hnodup
    have hmore : more.length ≤ 1 := by
      by_contra hlt
      exact not_nodup_rowsRead (not_le.mp hlt) (List.Nodup.of_map _ hfirst)
    have hless : less.length ≤ 1 := by
      by_contra hlt
      exact not_nodup_rowsRead (not_le.mp hlt) (List.Nodup.of_map _ hsecond)
    rw [rowsRead_of_length_le_one hmore, rowsRead_of_length_le_one hless, ← List.map_append] at hids hnodup
    refine ⟨hmore, hless, hnodup, fun hE o ho => ?_⟩
    obtain ⟨ret, clients, hok, hcount⟩ := h.1 hE
    obtain ⟨-, rfl⟩ := Prod.mk.inj (Except.ok.inj hok)
    have hone := hcount o ho
    rw [rowsRead_of_length_le_one hmore, rowsRead_of_length_le_one hless, hids] at hone
    exact List.count_pos_iff.mp (hone ▸ Nat.one_pos)
  · rintro ⟨hmore, hless, hnodup, hall⟩
    rw [rowsRead_of_length_le_one hmore, rowsRead_of_length_le_one hless, ← List.map_append] at hids
    rw [rowsRead_of_length_le_one hmore, rowsRead_of_length_le_one hless]
    constructor
    · intro hE
      refine ⟨.errorOk, _, rfl, fun o ho => ?_⟩
      rw [hids]
      exact List.count_eq_one_of_mem hnodup (hall hE o ho)
    · intro ret clients hr
      obtain ⟨-, rfl⟩ := Prod.mk.inj (Except.ok.inj hr)
      rwa [hids]

/-- Where the statements are plain: complete just when neither search has more than one row. -/
theorem searchComplete_iff_oneRowEach {my : MySQL} (hmy : my.fails = false) (db : Database) {fileid : Bytes}
    {percentage needCount : Int32} {owned : List Bytes} (hfile : fileid ≠ []) (hp : 1 ≤ percentage)
    (hp' : percentage ≤ 100) (hneed : 0 ≤ needCount) (hplain : Plain fileid ∧ ∀ clientid ∈ owned, Plain clientid) :
    SearchComplete db fileid needCount owned (requestClients my db fileid percentage needCount owned) ↔
      OneRowEach db fileid percentage needCount.toNatClampNeg owned := by
  have hpos : percentage > 0 := Int32.lt_of_lt_of_le (by decide) hp
  obtain ⟨more, less, hmore, hless, heq⟩ := requestClients_eq hmy db hfile (Int32.le_of_lt hpos) hp' hneed hplain
  have hn : (needCount.toNatClampNeg : ℤ) = needCount.toInt := Int32.cast_toNatClampNeg needCount hneed
  rw [heq, if_pos hpos, searchComplete_iff_fetchesAll]
  generalize needCount.toNatClampNeg = n at hn ⊢
  have hG : more.length = ownerCount db .greater fileid percentage owned :=
    hmore.length_eq.trans (Search.length_rows _ db)
  have hL : less.length = ownerCount db .lessEqual fileid percentage owned :=
    hless.length_eq.trans (Search.length_rows _ db)
  have hone : OneRowEach db fileid percentage n owned ↔
      (more.take n).length ≤ 1 ∧ (less.take (n - (more.take n).length)).length ≤ 1 := by
    rw [OneRowEach, ← hG, ← hL, List.length_take, List.length_take]
  -- all the rows together are the owners, each once
  have hall : ((more ++ less).map FoundRow.clientid).Perm ((db.owners fileid owned).map FileOwnerInfoRow.clientid) := by
    refine ((hmore.append hless).map _).trans ?_
    rw [List.map_append, Search.map_clientid_rows, Search.map_clientid_rows, ← List.map_append]
    exact (owners_perm db fileid percentage owned).map _
  have hnodup : ((more ++ less).map FoundRow.clientid).Nodup := hall.nodup_iff.mpr (db.nodup_owners fileid owned)
  rw [hone]
  constructor
  · exact fun h => ⟨h.1, h.2.1⟩
  · rintro ⟨hfirst, hsecond⟩
    have hsub := ((List.take_sublist n more).append (List.take_sublist (n - (more.take n).length) less)).map FoundRow.clientid
    refine ⟨hfirst, hsecond, hnodup.sublist hsub, fun hE o ho => ?_⟩
    have hlen : (more ++ less).length = (db.owners fileid owned).length := by simpa using hall.length_eq
    rw [List.length_append] at hlen
    rw [List.take_of_length_le (show more.length ≤ n by omega), List.take_of_length_le (by omega)]
    exact hall.mem_iff.mpr (List.mem_map_of_mem ho)

/-- Where they are not: what `RequestClients` makes of what the server reads. -/
theorem requestClients_of_not_plain {my : MySQL} (hmy : my.fails = false) (db : Database) {fileid : Bytes}
    {percentage needCount : Int32} {owned : List Bytes} (hfile : fileid ≠ []) (hp : 1 ≤ percentage)
    (hp' : percentage ≤ 100) (hneed : 0 < needCount) (hplain : ¬(Plain fileid ∧ ∀ clientid ∈ owned, Plain clientid)) :
    requestClients my db fileid percentage needCount owned =
      match rowsFetched my db fileid percentage needCount.toNatClampNeg owned with
      | none => .error .runtime
      | some (more, less) => .ok (.errorOk, entries fileid (rowsRead more) ++ entries fileid (rowsRead less)) := by
  have hpos : percentage > 0 := Int32.lt_of_lt_of_le (by decide) hp
  have hneed' : 0 ≤ needCount := Int32.le_of_lt hneed
  have hplain' : ∀ type, ¬(searchOf type fileid percentage owned).IsPlain := fun _ => hplain
  -- a statement that is refused is an exception
  have hrefused : ∀ {type : SearchType} {wanted : Int32} {c : List Entry}, 0 < wanted.toNatClampNeg →
      my.readSelect (searchOf type fileid percentage owned).text db = none →
      searchPercentageRaw my db type fileid percentage wanted owned c = .error .runtime := by
    intro type wanted c hwanted hnone
    have hnot : ¬wanted ≤ 0 := by
      intro hle
      rw [← Int32.toNat_toInt, Int.toNat_of_nonpos (Int32.le_iff_toInt_le.mp hle)] at hwanted
      exact lt_irrefl 0 hwanted
    have hselect : my.select db (searchOf type fileid percentage owned) wanted.toNatClampNeg = .error .runtime := by
      rw [MySQL.select, hmy, if_neg Bool.false_ne_true, if_neg (hplain' type), hnone]
    rw [searchPercentageRaw, if_neg hnot, show my.select db ⟨type, fileid, percentage, owned⟩ _ = _ from hselect]
  have hn : 0 < needCount.toNatClampNeg := by
    have := Int32.lt_iff_toInt_lt.mp hneed
    have := Int32.cast_toNatClampNeg needCount hneed'
    have : (0 : Int32).toInt = 0 := rfl
    omega
  unfold rowsFetched
  cases hmore : my.readSelect (searchOf .greater fileid percentage owned).text db with
  | none =>
    have hguard : ¬(fileid = [] ∨ percentage < 0 ∨ percentage > 100 ∨ needCount < 0) := by
      rintro (h | h | h | h)
      · exact hfile h
      · exact Int32.not_lt.mpr (Int32.le_of_lt hpos) h
      · exact Int32.not_lt.mpr hp' h
      · exact Int32.not_lt.mpr hneed' h
    simp only [requestClients, if_neg hguard, searchGreaterPercentage, hrefused hn hmore]
  | some more =>
    have hgives := @MySQL.gives_of_not_isPlain my hmy db _ (hplain' .greater) more hmore
    by_cases hmany : needCount.toNatClampNeg ≤ more.length
    · have hlen : (more.take needCount.toNatClampNeg).length = needCount.toNatClampNeg := by
        rw [List.length_take, min_eq_left hmany]
      rw [requestClients_of_more hfile (Int32.le_of_lt hpos) hp' hneed' hgives, if_neg fun h => absurd h.1 (by omega)]
      simp [hmany, entries, rowsRead]
    · have htake : more.take needCount.toNatClampNeg = more := List.take_of_length_le (not_le.mp hmany).le
      cases hless : my.readSelect (searchOf .lessEqual fileid percentage owned).text db with
      | none =>
        rw [requestClients_of_more hfile (Int32.le_of_lt hpos) hp' hneed' hgives, htake, if_pos ⟨not_le.mp hmany, hpos⟩,
          searchLessEqualPercentage, hrefused _ hless]
        · simp [hmany]
        · rw [toNatClampNeg_ofSizeT_sub hneed' (not_le.mp hmany).le]
          omega
      | some less =>
        have hgives' := @MySQL.gives_of_not_isPlain my hmy db _ (hplain' .lessEqual) less hless
        rw [requestClients_of_gives hfile (Int32.le_of_lt hpos) hp' hneed' hgives hgives', if_pos hpos, htake]
        simp [hmany]

/-- Nobody is asked for, or fewer than nobody. -/
theorem searchComplete_of_nonpos {my : MySQL} {db : Database} {fileid : Bytes} {percentage needCount : Int32}
    {owned : List Bytes} (hpos : percentage > 0) (hneed : needCount ≤ 0) :
    SearchComplete db fileid needCount owned (requestClients my db fileid percentage needCount owned) := by
  have hneed' : needCount.toInt ≤ 0 := Int32.le_iff_toInt_le.mp hneed
  have hsome : needCount = 0 → ∃ ret, requestClients my db fileid percentage needCount owned = .ok (ret, []) := by
    rintro rfl
    by_cases hguard : fileid = [] ∨ percentage > 100
    · exact ⟨.errorUnknown, by rcases hguard with h | h <;> simp [requestClients, h]⟩
    · rw [not_or] at hguard
      have hle : ¬percentage < 0 := Int32.not_lt.mpr (Int32.le_of_lt hpos)
      have hsize : ¬(0 : UInt64) < Int64.toUInt64 0 := by decide
      refine ⟨.errorOk, ?_⟩
      simp [requestClients, hguard, hle, searchGreaterPercentage, searchPercentageRaw, toSizeT, hsize]
  constructor
  · intro hE
    have hzero : needCount.toInt = 0 := by omega
    obtain ⟨ret, hr⟩ := hsome (Int32.toInt_inj.mp hzero)
    have hnil : db.owners fileid owned = [] := List.length_eq_zero_iff.mp (by omega)
    exact ⟨ret, [], hr, by simp [hnil]⟩
  · intro ret clients hr
    have hlen := length_requestClients_le hr
    rw [← Int32.toNat_toInt, Int.toNat_of_nonpos hneed'] at hlen
    rw [List.length_eq_zero_iff.mp (Nat.le_zero.mp hlen)]
    exact .nil

/-- The search over both tables is complete just under `CompleteWhen`. -/
theorem searchComplete_iff_completeWhen {my : MySQL} (hmy : my.fails = false) (db : Database) {fileid : Bytes}
    {percentage needCount : Int32} {owned : List Bytes} (hp : 1 ≤ percentage) (hp' : percentage ≤ 100) :
    SearchComplete db fileid needCount owned (requestClients my db fileid percentage needCount owned) ↔
      CompleteWhen my db fileid percentage needCount owned := by
  have hpos : percentage > 0 := Int32.lt_of_lt_of_le (by decide) hp
  unfold CompleteWhen
  split_ifs with hneed hfile hplain
  · exact iff_of_true (searchComplete_of_nonpos hpos hneed) trivial
  · -- the empty fileid is refused
    have hr : requestClients my db fileid percentage needCount owned = .ok (.errorUnknown, []) := by
      simp [requestClients, hfile]
    rw [hr, SearchComplete]
    constructor
    · intro h
      by_contra hnot
      rw [not_or, not_lt] at hnot
      obtain ⟨o, ho⟩ := List.exists_mem_of_ne_nil _ hnot.1
      obtain ⟨ret, clients, hclients, hcount⟩ := h.1 hnot.2
      obtain ⟨-, rfl⟩ := Prod.mk.inj (Except.ok.inj hclients)
      exact absurd (hcount o ho) (by simp [ids])
    · intro h
      constructor
      · intro hE
        rcases h with hnil | hlt
        · exact ⟨.errorUnknown, [], rfl, by simp [hnil]⟩
        · exact absurd hE (not_le.mpr hlt)
      · intro ret clients hclients
        obtain ⟨-, rfl⟩ := Prod.mk.inj (Except.ok.inj hclients)
        exact .nil
  · exact searchComplete_iff_oneRowEach hmy db hfile hp hp' (Int32.le_of_lt (Int32.not_le.mp hneed)) hplain
  · rw [requestClients_of_not_plain hmy db hfile hp hp' (Int32.not_le.mp hneed) hplain]
    cases rowsFetched my db fileid percentage needCount.toNatClampNeg owned with
    | none =>
      constructor
      · intro h
        by_contra hle
        obtain ⟨ret, clients, hok, -⟩ := h.1 (not_lt.mp hle)
        cases hok
      · exact fun hlt => ⟨fun hE => absurd hE (not_le.mpr hlt), by rintro ret clients ⟨⟩⟩
    | some rows => exact searchComplete_iff_fetchesAll db fileid needCount owned rows.1 rows.2

/-- What `search_near_percentage_client` adds to the collection, from the rows it is given. -/
theorem searchNearPercentageClient_eq {my : MySQL} (hmy : my.fails = false) {db : Database} {fileid : Bytes}
    {percentage needCount : Int32} (hneed : 0 < needCount) {clientids : List Bytes} {rows : List FoundRow}
    (hrows : my.readSelect (nearText fileid percentage needCount clientids) db = some rows) (c : List Entry) :
    searchNearPercentageClient my db fileid percentage needCount clientids c =
      .ok (.errorOk, c ++ entries fileid (rowsRead rows)) := by
  have hpos : ¬needCount ≤ 0 := Int32.not_le.mpr hneed
  simp [searchNearPercentageClient, hpos, hmy, hrows, readRows_eq, Except.map, entries]

theorem entry_injective (fileid : Bytes) : Function.Injective (FoundRow.entry fileid) := by
  rintro ⟨_, _, _, _⟩ ⟨_, _, _, _⟩ h
  simp_all [FoundRow.entry]

/-- **When the search is complete.** The loop over the rows, which both functions have, makes
one entry of each row just when the first row is the last one. So `RequestClients` returns
every eligible client, and none twice, just when each of its searches has one row at most; where
a string is not plain, these rows must be the right ones besides, or the server refuses a statement. -/
theorem peer_search_complete_iff (db : Database) {fileid : Bytes} {percentage needCount : Int32} {owned : List Bytes}
    (hp : 1 ≤ percentage) (hp' : percentage ≤ 100) :
    (∀ rows : List FoundRow, (∃ read, readRows rows = .ok read ∧ read.Perm rows) ↔ rows.head? = rows.getLast?) ∧
    (∀ (my : MySQL) (c : List Entry) (rows : List FoundRow), my.fails = false → 0 < needCount →
      my.readSelect (nearText fileid percentage needCount owned) db = some rows →
      ((∃ found, searchNearPercentageClient my db fileid percentage needCount owned c = .ok (.errorOk, c ++ found) ∧
          found.Perm (entries fileid rows)) ↔ rows.head? = rows.getLast?)) ∧
    ∀ my : MySQL, my.fails = false →
      (SearchComplete db fileid needCount owned (requestClients my db fileid percentage needCount owned) ↔
        CompleteWhen my db fileid percentage needCount owned) := by
  refine ⟨?_, ?_, fun my hmy => searchComplete_iff_completeWhen hmy db hp hp'⟩
  · intro rows
    simp [readRows_eq, rowsRead_perm_iff]
  · intro my c rows hmy hneed hrows
    rw [searchNearPercentageClient_eq hmy hneed hrows, ← rowsRead_perm_iff, ← List.map_perm_map_iff (entry_injective fileid)]
    simp [entries]

theorem peer_search_complete_iff_twoOwners :
    (∀ rows : List FoundRow, (∃ read, readRows rows = .ok read ∧ read.Perm rows) ↔ rows.head? = rows.getLast?) ∧
    (∀ (my : MySQL) (c : List Entry) (rows : List FoundRow), my.fails = false → (0 : Int32) < 20 →
      my.readSelect (nearText [102] 60 20 []) twoOwners = some rows →
      ((∃ found, searchNearPercentageClient my twoOwners [102] 60 20 [] c = .ok (.errorOk, c ++ found) ∧
          found.Perm (entries [102] rows)) ↔ rows.head? = rows.getLast?)) ∧
    ∀ my : MySQL, my.fails = false →
      (SearchComplete twoOwners [102] 20 [] (requestClients my twoOwners [102] 60 20 []) ↔
        CompleteWhen my twoOwners [102] 60 20 []) :=
  peer_search_complete_iff twoOwners (by decide) (by decide)

/-- Both clients have more than a tenth of the file. One is returned twice, the other not at all. -/
theorem peer_search_incomplete :
    ¬SearchComplete twoOwners [102] 20 [] (requestClients .simple twoOwners [102] 10 20 []) := by
  intro h
  have hr : requestClients .simple twoOwners [102] 10 20 [] =
      .ok (.errorOk, [(⟨[98], [50], 2⟩, ⟨[98], [102], 100⟩), (⟨[98], [50], 2⟩, ⟨[98], [102], 100⟩)]) := rfl
  exact absurd (h.2 _ _ hr) (by decide)

end CoolDown.Tracker
