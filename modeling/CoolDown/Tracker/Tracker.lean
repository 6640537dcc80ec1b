import CoolDown.Tracker.TrackerDBManager

/-!
# The tracker: `Tracker`

What a handler may ask of the application. All but `requestClients` is one call of the
database manager. `requestClients` looks for owners that have more of the file first, and
fills up with others; it compares and subtracts an `int` and a `size_t`.

## What is proved

* `requestClients_eq`: what it returns, when its arguments are in range.
-/

namespace CoolDown.Tracker

open Library

/-- An `int` as a `size_t`. -/
def toSizeT (n : Int32) : UInt64 := n.toInt64.toUInt64

/-- A `size_t` as an `int`. -/
def ofSizeT (n : UInt64) : Int32 := n.toUInt32.toInt32

/-- `Tracker::AddOnlineUser`; `now` is the current time. -/
def addOnlineUser (my : MySQL) (now : Bytes) (db : Database) (peer : ClientInfo) :
    Except Exception Retcode × Database :=
  insertOrUpdateLoginInfo my db peer.clientid peer.ip peer.messageport now

/-- `Tracker::RemoveOnlineUser`. -/
def removeOnlineUser (my : MySQL) (db : Database) (clientid : Bytes) : Except Exception Retcode × Database :=
  updateLogoutInfo my db clientid 0 0

/-- `Tracker::RequestClients`. -/
def requestClients (my : MySQL) (db : Database) (fileid : Bytes) (percentage needCount : Int32)
    (ownedClientIdList : List Bytes) : Except Exception (Retcode × List Entry) :=
  if fileid = [] ∨ percentage < 0 ∨ percentage > 100 ∨ needCount < 0 then .ok (.errorUnknown, [])
  else
    match searchGreaterPercentage my db fileid percentage needCount ownedClientIdList [] with
    | .error e => .error e
    | .ok (ret, clients) =>
      if ret ≠ .errorOk then .ok (ret, clients)
      else
        let size := UInt64.ofNat clients.length
        if size < toSizeT needCount ∧ percentage > 0 then
          searchLessEqualPercentage my db fileid percentage (ofSizeT (toSizeT needCount - size)) ownedClientIdList clients
        else .ok (.errorOk, clients)

/-- `Tracker::ReportProgress`. -/
def reportProgress (my : MySQL) (db : Database) (clientid fileid : Bytes) (percentage : Int32) :
    Except Exception Retcode × Database :=
  updateFileOwnerInfo my db ⟨clientid, fileid, percentage⟩

/-- `Tracker::PublishResource`. -/
def publishResource (my : MySQL) (db : Database) (clientid fileid : Bytes) : Except Exception Retcode × Database :=
  insertFileOwnerInfo my db ⟨clientid, fileid, 100⟩

/-! ### Sizes -/

theorem toSizeT_eq {n : Int32} (h : 0 ≤ n) : toSizeT n = UInt64.ofNat n.toNatClampNeg := by
  have h64 : (0 : Int64) ≤ n.toInt64 := by
    rw [Int64.le_iff_toInt_le, Int32.toInt_toInt64]
    exact Int32.le_iff_toInt_le.mp h
  rw [toSizeT, ← UInt64.toNat_inj, Int64.toNat_toUInt64_of_le h64, Int32.toNatClampNeg_toInt64, UInt64.toNat_ofNat_of_lt']
  exact n.toNatClampNeg_lt.trans (by decide)

/-- The comparison is that of the numbers. -/
theorem ofNat_lt_toSizeT_iff {n : Int32} (h : 0 ≤ n) {k : ℕ} (hk : k ≤ n.toNatClampNeg) :
    UInt64.ofNat k < toSizeT n ↔ k < n.toNatClampNeg := by
  have hn := n.toNatClampNeg_lt
  rw [toSizeT_eq h, UInt64.lt_iff_toNat_lt, UInt64.toNat_ofNat_of_lt', UInt64.toNat_ofNat_of_lt'] <;>
    simp only [UInt64.size] <;> omega

/-- The difference is that of the numbers. -/
theorem toNatClampNeg_ofSizeT_sub {n : Int32} (h : 0 ≤ n) {k : ℕ} (hk : k ≤ n.toNatClampNeg) :
    (ofSizeT (toSizeT n - UInt64.ofNat k)).toNatClampNeg = n.toNatClampNeg - k := by
  have hn := n.toNatClampNeg_lt
  have hsub : UInt64.ofNat n.toNatClampNeg - UInt64.ofNat k = UInt64.ofNat (n.toNatClampNeg - k) := by
    rw [UInt64.ofNat_sub hk]
  rw [toSizeT_eq h, hsub, ofSizeT]
  have hofNat : (UInt64.ofNat (n.toNatClampNeg - k)).toUInt32.toInt32 = Int32.ofNat (n.toNatClampNeg - k) := by
    rw [UInt64.toUInt32_ofNat']
    rfl
  rw [hofNat]
  exact Int32.toNatClampNeg_ofNat_of_lt (by omega)

/-! ### What `RequestClients` returns -/

/-- The two searches of `RequestClients`. -/
def searchOf (type : SearchType) (fileid : Bytes) (percentage : Int32) (ownedClientIdList : List Bytes) : Search :=
  ⟨type, fileid, percentage, ownedClientIdList⟩

/-- What `RequestClients` does once the first search has given as many as are wanted: the second one is made for the
rest, unless there is none, or none at all is asked for. -/
theorem requestClients_of_more {my : MySQL} {db : Database} {fileid : Bytes} {percentage needCount : Int32}
    {owned : List Bytes} (hfile : fileid ≠ []) (hp : 0 ≤ percentage) (hp' : percentage ≤ 100) (hneed : 0 ≤ needCount)
    {more : List FoundRow} (hmore : my.Gives db (searchOf .greater fileid percentage owned) more) :
    requestClients my db fileid percentage needCount owned =
      if (more.take needCount.toNatClampNeg).length < needCount.toNatClampNeg ∧ percentage > 0 then
        searchLessEqualPercentage my db fileid percentage
          (ofSizeT (toSizeT needCount - UInt64.ofNat (more.take needCount.toNatClampNeg).length)) owned
          (entries fileid (rowsRead (more.take needCount.toNatClampNeg)))
      else .ok (.errorOk, entries fileid (rowsRead (more.take needCount.toNatClampNeg))) := by
  have hgreater := searchPercentageRaw_eq hmore needCount []
  have hlen : (more.take needCount.toNatClampNeg).length ≤ needCount.toNatClampNeg := List.length_take_le _ _
  have hguard : ¬(fileid = [] ∨ percentage < 0 ∨ percentage > 100 ∨ needCount < 0) := by
    rintro (h | h | h | h)
    · exact hfile h
    · exact Int32.not_lt.mpr hp h
    · exact Int32.not_lt.mpr hp' h
    · exact Int32.not_lt.mpr hneed h
  rw [List.nil_append] at hgreater
  have hsize : (entries fileid (rowsRead (more.take needCount.toNatClampNeg))).length =
      (more.take needCount.toNatClampNeg).length := by
    rw [entries, List.length_map, length_rowsRead]
  simp only [requestClients, if_neg hguard, searchGreaterPercentage, hgreater, ne_eq, not_true_eq_false, if_false, hsize,
    ofNat_lt_toSizeT_iff hneed hlen]

/-- **What `RequestClients` returns**, from the rows that the server gives. First as many as
are wanted of those with more of the file; then, unless none at all is asked for, others
for the rest. -/
theorem requestClients_of_gives {my : MySQL} {db : Database} {fileid : Bytes} {percentage needCount : Int32}
    {owned : List Bytes} (hfile : fileid ≠ []) (hp : 0 ≤ percentage) (hp' : percentage ≤ 100) (hneed : 0 ≤ needCount)
    {more less : List FoundRow} (hmore : my.Gives db (searchOf .greater fileid percentage owned) more)
    (hless : my.Gives db (searchOf .lessEqual fileid percentage owned) less) :
    requestClients my db fileid percentage needCount owned =
      .ok (.errorOk, entries fileid (rowsRead (more.take needCount.toNatClampNeg)) ++
        if percentage > 0 then
          entries fileid (rowsRead (less.take (needCount.toNatClampNeg - (more.take needCount.toNatClampNeg).length)))
        else []) := by
  have hlessEqual := searchPercentageRaw_eq hless
    (ofSizeT (toSizeT needCount - UInt64.ofNat (more.take needCount.toNatClampNeg).length))
    (entries fileid (rowsRead (more.take needCount.toNatClampNeg)))
  rw [toNatClampNeg_ofSizeT_sub hneed (List.length_take_le _ _)] at hlessEqual
  rw [requestClients_of_more hfile hp hp' hneed hmore, searchLessEqualPercentage, hlessEqual]
  by_cases hpos : percentage > 0
  · by_cases hfew : (more.take needCount.toNatClampNeg).length < needCount.toNatClampNeg
    · rw [if_pos ⟨hfew, hpos⟩, if_pos hpos]
    · -- nobody else is wanted, and the second search would have found nobody
      rw [if_neg fun h => hfew h.1, if_pos hpos, Nat.sub_eq_zero_of_le (not_lt.mp hfew), List.take_zero]
      simp [entries, rowsRead]
  · rw [if_neg fun h => hpos h.2, if_neg hpos, List.append_nil]

/-- The same where the statements are plain: then the server gives the rows that are selected. -/
theorem requestClients_eq {my : MySQL} (hmy : my.fails = false) (db : Database) {fileid : Bytes}
    {percentage needCount : Int32} {owned : List Bytes} (hfile : fileid ≠ []) (hp : 0 ≤ percentage)
    (hp' : percentage ≤ 100) (hneed : 0 ≤ needCount) (hplain : Plain fileid ∧ ∀ clientid ∈ owned, Plain clientid) :
    ∃ more less : List FoundRow, more.Perm ((searchOf .greater fileid percentage owned).rows db) ∧
      less.Perm ((searchOf .lessEqual fileid percentage owned).rows db) ∧
      requestClients my db fileid percentage needCount owned =
        .ok (.errorOk, entries fileid (rowsRead (more.take needCount.toNatClampNeg)) ++
          if percentage > 0 then
            entries fileid (rowsRead (less.take (needCount.toNatClampNeg - (more.take needCount.toNatClampNeg).length)))
          else []) := by
  obtain ⟨more, hmore, hgivesMore⟩ := @MySQL.gives_of_isPlain my hmy db (searchOf .greater fileid percentage owned) hplain
  obtain ⟨less, hless, hgivesLess⟩ := @MySQL.gives_of_isPlain my hmy db (searchOf .lessEqual fileid percentage owned) hplain
  exact ⟨more, less, hmore, hless, requestClients_of_gives hfile hp hp' hneed hgivesMore hgivesLess⟩

/-- `RequestClients` returns no more clients than are asked for. -/
theorem length_requestClients_le {my : MySQL} {db : Database} {fileid : Bytes} {percentage needCount : Int32}
    {owned : List Bytes} {ret : Retcode} {clients : List Entry}
    (h : requestClients my db fileid percentage needCount owned = .ok (ret, clients)) :
    clients.length ≤ needCount.toNatClampNeg := by
  unfold requestClients at h
  split_ifs at h with hguard
  · cases h
    exact Nat.zero_le _
  · have hneed : 0 ≤ needCount := Int32.not_lt.mp fun hneg => hguard (.inr (.inr (.inr hneg)))
    split at h
    · cases h
    · next ret₁ clients₁ hgreater =>
      obtain ⟨rfl, found, hfound, hlen⟩ := searchPercentageRaw_eq_ok hgreater
      obtain rfl : clients₁ = found := by simpa using hfound
      simp only [ne_eq, not_true_eq_false, if_false] at h
      split_ifs at h
      · obtain ⟨-, found', rfl, hlen'⟩ := searchPercentageRaw_eq_ok h
        rw [toNatClampNeg_ofSizeT_sub hneed hlen] at hlen'
        rw [List.length_append]
        omega
      · cases h
        exact hlen

end CoolDown.Tracker
