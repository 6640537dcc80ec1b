import CoolDown.Library.SortedMap
import CoolDown.Public.ErrorCode
import Mathlib.Data.String.Basic

/-!
# The pool of sockets: `LocalSockManager`

For each peer the list of its connections, each idle or used, and for each tracker
its one connection. `get_idle_client_sock` lends an idle connection or opens a new one,
and `return_sock` makes it idle again; `get_tracker_sock` hands out the connection to
the tracker itself.

## The model

A socket is its identity, a `SockPtr` may be null. What `make_connection` returns is an
argument: a new socket, or a null pointer. The mutexes make each operation one step.

## What is proved

A pool is `Exclusive` if each socket is in it once. Then

* `holds_getIdleClientSock`: a socket that is lent was idle or is new, and is now used;
  every other socket is as it was.
* `holds_returnSock`: the socket returned is idle, every other socket is as it was.
-/

namespace CoolDown

open Library

/-- A `StreamSocket`, by identity. -/
abbrev Sock := ℕ

/-- `SockStatus`. -/
inductive SockStatus where
  | idle
  | used
  deriving DecidableEq

/-- `LocalSockManager`. -/
structure LocalSockManager where
  serverSockMap : SortedMap String Sock
  clientSockMap : SortedMap String (List (Option Sock × SockStatus))
  /-- The peers with a condition to wait on. -/
  conditionMap : SortedMap String Unit
  deriving DecidableEq

namespace LocalSockManager

/-- `LocalSockManager::LocalSockManager`. -/
def new : LocalSockManager := ⟨∅, ∅, ∅⟩

/-- `MAX_CONNECTION_PER_CLIENT`. -/
def maxConnectionPerClient : ℕ := 10

/-! ### Trackers -/

/-- `connect_tracker`, where `conn` is the connection made and `peerAddress` its peer's address. -/
def connectTracker (m : LocalSockManager) (peerAddress : String) (conn : Option Sock) : Retcode × LocalSockManager :=
  match conn with
  | none => (.errorNetConnect, m)
  | some sock => (.errorOk, { m with serverSockMap := m.serverSockMap.insert peerAddress sock })

/-- `get_tracker_sock`. -/
def getTrackerSock (m : LocalSockManager) (trackerAddress : String) : Option Sock :=
  m.serverSockMap.find? trackerAddress

/-! ### Peers -/

/-- `is_connected`. -/
def isConnected (m : LocalSockManager) (clientid : String) : Bool := (m.clientSockMap.find? clientid).isSome

/-- `connect_client`, where `conn` is what `make_connection` returns. -/
def connectClient (m : LocalSockManager) (clientid : String) (conn : Option Sock) : Retcode × LocalSockManager :=
  if maxConnectionPerClient < ((m.clientSockMap.find? clientid).getD []).length then (.errorNetConnectionLimit, m)
  else
    match conn with
    | none => (.errorNetConnect, m)
    | some sock =>
      (.errorOk, { m with
        clientSockMap :=
          m.clientSockMap.insert clientid ((m.clientSockMap.find? clientid).getD [] ++ [(some sock, .idle)])
        conditionMap := m.conditionMap.insert clientid () })

/-- `reach_connection_limit`. -/
def reachConnectionLimit (m : LocalSockManager) (clientid : String) : Bool :=
  match m.clientSockMap.find? clientid with
  | none => false
  | some sockList => decide (maxConnectionPerClient ≤ sockList.length)

/-- Lend the first idle socket of the list. -/
def lendIdle : List (Option Sock × SockStatus) → Option (Option Sock × List (Option Sock × SockStatus))
  | [] => none
  | (sock, .idle) :: rest => some (sock, (sock, .used) :: rest)
  | (sock, .used) :: rest => (lendIdle rest).map fun r => (r.1, (sock, .used) :: r.2)

/-- `get_idle_client_sock`. With no socket idle and the list not too long, `conn` is the
connection it opens; asking the first socket for its peer's address throws if that is
null or no longer connected. -/
def getIdleClientSock (m : LocalSockManager) (clientid : String) (conn : Except Exception (Option Sock)) :
    Except Exception (Option Sock × LocalSockManager) :=
  match m.clientSockMap.find? clientid with
  | none => .ok (none, m)
  | some sockList =>
    match lendIdle sockList with
    | some (sock, sockList) => .ok (sock, { m with clientSockMap := m.clientSockMap.insert clientid sockList })
    | none =>
      if maxConnectionPerClient < sockList.length then .ok (none, m)
      else
        match sockList with
        | [] => .ok (none, m)
        | (none, _) :: _ => .error .nullPointer
        | (some _, _) :: _ => do
          let sock ← conn
          return (sock, { m with clientSockMap := m.clientSockMap.insert clientid (sockList ++ [(sock, .used)]) })

/-- Mark the first entry of the list that has the socket. -/
def markIdle (sock : Option Sock) : List (Option Sock × SockStatus) → Option (List (Option Sock × SockStatus))
  | [] => none
  | e :: rest => if e.1 = sock then some ((e.1, .idle) :: rest) else (markIdle sock rest).map (e :: ·)

/-- `return_sock`. The socket is idle before the condition is looked up. -/
def returnSock (m : LocalSockManager) (clientid : String) (sock : Option Sock) :
    LocalSockManager × Except Exception Unit :=
  match m.clientSockMap.find? clientid with
  | none => (m, .ok ())
  | some sockList =>
    match markIdle sock sockList with
    | none => (m, .ok ())
    | some sockList =>
      ({ m with clientSockMap := m.clientSockMap.insert clientid sockList },
        if (m.conditionMap.find? clientid).isSome then .ok () else .error .assertion)

/-- `get_sock_idel_condition`: throws unless there is a condition to wait on. -/
def getSockIdelCondition (m : LocalSockManager) (clientid : String) : Except Exception Unit :=
  if (m.conditionMap.find? clientid).isSome then .ok () else .error .assertion

/-- `get_payload_percentage`, in tenths: the number of connections over ten, or a hundred. -/
def getPayloadPercentage (m : LocalSockManager) (clientid : String) : ℕ :=
  match m.clientSockMap.find? clientid with
  | none => 1000
  | some sockList => sockList.length

/-! ### Who holds what -/

/-- The pool has the socket among the connections to the peer, with that status. -/
def Holds (m : LocalSockManager) (clientid : String) (sock : Sock) (status : SockStatus) : Prop :=
  ∃ sockList, m.clientSockMap.find? clientid = some sockList ∧ (some sock, status) ∈ sockList

/-- The sockets of a list, without the null ones. -/
def socksOf (sockList : List (Option Sock × SockStatus)) : List Sock := sockList.filterMap Prod.fst

/-- The pool has the socket. -/
def hasSock (m : LocalSockManager) (sock : Sock) : Bool :=
  m.clientSockMap.entries.any fun e => decide (sock ∈ socksOf e.2)

/-- Each socket is in the pool once. -/
structure Exclusive (m : LocalSockManager) : Prop where
  nodup : ∀ clientid sockList, m.clientSockMap.find? clientid = some sockList → (socksOf sockList).Nodup
  owner : ∀ clientid clientid' sockList sockList' sock, m.clientSockMap.find? clientid = some sockList →
    m.clientSockMap.find? clientid' = some sockList' → sock ∈ socksOf sockList → sock ∈ socksOf sockList' →
    clientid = clientid'

theorem mem_socksOf {sockList : List (Option Sock × SockStatus)} {sock : Sock} :
    sock ∈ socksOf sockList ↔ ∃ status, (some sock, status) ∈ sockList := by
  simp [socksOf, List.mem_filterMap]

theorem hasSock_iff {m : LocalSockManager} {sock : Sock} :
    m.hasSock sock ↔ ∃ clientid status, m.Holds clientid sock status := by
  simp only [hasSock, List.any_eq_true, decide_eq_true_eq, mem_socksOf, Holds, SortedMap.find?_eq_some, Prod.exists]
  constructor
  · rintro ⟨clientid, sockList, he, status, hs⟩
    exact ⟨clientid, status, sockList, he, hs⟩
  · rintro ⟨clientid, status, sockList, he, hs⟩
    exact ⟨clientid, sockList, he, status, hs⟩

theorem exclusive_new : new.Exclusive := ⟨by rintro _ _ ⟨⟩, by rintro _ _ _ _ _ ⟨⟩⟩

/-- In a list that has each socket once, a socket has one status. -/
theorem eq_of_mem_of_nodup {sockList : List (Option Sock × SockStatus)} (h : (socksOf sockList).Nodup) {sock : Sock}
    {status status' : SockStatus} (hs : (some sock, status) ∈ sockList) (hs' : (some sock, status') ∈ sockList) :
    status = status' := by
  induction sockList with
  | nil => cases hs
  | cons e rest ih =>
    obtain ⟨o, st⟩ := e
    cases o with
    | none =>
      have hs : (some sock, status) ∈ rest := by simpa using hs
      have hs' : (some sock, status') ∈ rest := by simpa using hs'
      exact ih h hs hs'
    | some x =>
      obtain ⟨hx, hnodup⟩ := List.nodup_cons.mp (show (x :: socksOf rest).Nodup from h)
      have hrest : ∀ {st'}, (some sock, st') ∈ rest → sock ≠ x := by
        rintro st' hmem rfl
        exact hx (mem_socksOf.mpr ⟨st', hmem⟩)
      rcases List.mem_cons.mp hs with he | hr <;> rcases List.mem_cons.mp hs' with he' | hr'
      · rw [(Prod.mk.inj he).2, (Prod.mk.inj he').2]
      · exact absurd (Option.some.inj (Prod.mk.inj he).1) (hrest hr')
      · exact absurd (Option.some.inj (Prod.mk.inj he').1) (hrest hr)
      · exact ih hnodup hr hr'

/-- A socket is held for one peer, with one status. -/
theorem Exclusive.holds_inj {m : LocalSockManager} (h : m.Exclusive) {clientid clientid' : String} {sock : Sock}
    {status status' : SockStatus} (hs : m.Holds clientid sock status) (hs' : m.Holds clientid' sock status') :
    clientid = clientid' ∧ status = status' := by
  obtain ⟨sockList, hfind, hmem⟩ := hs
  obtain ⟨sockList', hfind', hmem'⟩ := hs'
  obtain rfl := h.owner clientid clientid' sockList sockList' sock hfind hfind' (mem_socksOf.mpr ⟨_, hmem⟩)
    (mem_socksOf.mpr ⟨_, hmem'⟩)
  obtain rfl := Option.some.inj (hfind.symm.trans hfind')
  exact ⟨rfl, eq_of_mem_of_nodup (h.nodup _ _ hfind) hmem hmem'⟩

/-- Replacing the list of a peer. -/
theorem holds_insert {m : LocalSockManager} {clientid : String} {sockList : List (Option Sock × SockStatus)}
    {clientid' : String} {sock : Sock} {status : SockStatus} :
    { m with clientSockMap := m.clientSockMap.insert clientid sockList }.Holds clientid' sock status ↔
      if clientid = clientid' then (some sock, status) ∈ sockList else m.Holds clientid' sock status := by
  unfold Holds
  rw [SortedMap.find?_insert]
  split_ifs <;> simp

/-- Replacing a peer's list by one with the same sockets. -/
theorem Exclusive.insert {m : LocalSockManager} (h : m.Exclusive) {clientid : String}
    {sockList : List (Option Sock × SockStatus)} (hnodup : (socksOf sockList).Nodup)
    (howner : ∀ sock ∈ socksOf sockList, ∀ clientid' status, m.Holds clientid' sock status → clientid' = clientid) :
    { m with clientSockMap := m.clientSockMap.insert clientid sockList }.Exclusive := by
  have hother : ∀ {clientid' sockList' sock}, m.clientSockMap.find? clientid' = some sockList' →
      sock ∈ socksOf sockList' →
      sock ∈ socksOf sockList → clientid' = clientid := by
    intro clientid' sockList' sock hfind hsock hmem
    obtain ⟨status, hs⟩ := mem_socksOf.mp hsock
    exact howner sock hmem clientid' status ⟨sockList', hfind, hs⟩
  constructor
  · intro clientid' sockList' hfind
    rw [SortedMap.find?_insert] at hfind
    split_ifs at hfind with he
    · exact Option.some.inj hfind ▸ hnodup
    · exact h.nodup clientid' sockList' hfind
  · intro c c' l l' sock hfind hfind' hs hs'
    rw [SortedMap.find?_insert] at hfind hfind'
    split_ifs at hfind hfind' with he he' he'
    · exact he.symm.trans he'
    · obtain rfl := Option.some.inj hfind
      exact absurd (hother hfind' hs' hs).symm he'
    · obtain rfl := Option.some.inj hfind'
      exact absurd (hother hfind hs hs').symm he
    · exact h.owner c c' l l' sock hfind hfind' hs hs'

/-- A change of status of one entry of a peer's list. -/
inductive SetStatus (m : LocalSockManager) (clientid : String) (sock : Option Sock) (status : SockStatus) :
    LocalSockManager → Prop where
  | mk (l₁ l₂ : List (Option Sock × SockStatus)) (old : SockStatus)
      (hfind : m.clientSockMap.find? clientid = some (l₁ ++ (sock, old) :: l₂)) :
      SetStatus m clientid sock status
        { m with clientSockMap := m.clientSockMap.insert clientid (l₁ ++ (sock, status) :: l₂) }

theorem lendIdle_eq_some {sockList sockList' : List (Option Sock × SockStatus)} {sock : Option Sock}
    (h : lendIdle sockList = some (sock, sockList')) :
    ∃ l₁ l₂, sockList = l₁ ++ (sock, .idle) :: l₂ ∧ sockList' = l₁ ++ (sock, .used) :: l₂ := by
  induction sockList generalizing sockList' with
  | nil => cases h
  | cons e rest ih =>
    obtain ⟨o, _ | _⟩ := e
    · cases h
      exact ⟨[], rest, rfl, rfl⟩
    · obtain ⟨r, hrest, he⟩ := Option.map_eq_some_iff.mp h
      obtain ⟨rfl, rfl⟩ := Prod.mk.inj he
      obtain ⟨l₁, l₂, hl, hl'⟩ := ih hrest
      exact ⟨(o, .used) :: l₁, l₂, by rw [hl]; rfl, by rw [hl']; rfl⟩

theorem markIdle_eq_some {sockList sockList' : List (Option Sock × SockStatus)} {sock : Option Sock}
    (h : markIdle sock sockList = some sockList') :
    ∃ l₁ l₂ old, sockList = l₁ ++ (sock, old) :: l₂ ∧ sockList' = l₁ ++ (sock, .idle) :: l₂ := by
  induction sockList generalizing sockList' with
  | nil => cases h
  | cons e rest ih =>
    rw [markIdle] at h
    split_ifs at h with he
    · cases h
      exact ⟨[], rest, e.2, by rw [← he]; rfl, by rw [← he]; rfl⟩
    · obtain ⟨rest', hrest, rfl⟩ := Option.map_eq_some_iff.mp h
      obtain ⟨l₁, l₂, old, rfl, rfl⟩ := ih hrest
      exact ⟨e :: l₁, l₂, old, rfl, rfl⟩

theorem socksOf_set {l₁ l₂ : List (Option Sock × SockStatus)} {sock : Option Sock} {old status : SockStatus} :
    socksOf (l₁ ++ (sock, status) :: l₂) = socksOf (l₁ ++ (sock, old) :: l₂) := by
  simp [socksOf, List.filterMap_append]
  cases sock <;> rfl

/-- It leaves each socket in the pool once. -/
theorem SetStatus.exclusive {m m' : LocalSockManager} {clientid : String} {sock : Option Sock} {status : SockStatus}
    (h : SetStatus m clientid sock status m') (hm : m.Exclusive) : m'.Exclusive := by
  obtain ⟨l₁, l₂, old, hfind⟩ := h
  refine hm.insert ?_ ?_
  · rw [@socksOf_set l₁ l₂ sock old]
    exact hm.nodup _ _ hfind
  · intro x hx clientid' st hholds
    rw [@socksOf_set l₁ l₂ sock old] at hx
    obtain ⟨st', hx⟩ := mem_socksOf.mp hx
    exact (hm.holds_inj hholds ⟨_, hfind, hx⟩).1

/-- It changes the status of that socket, and of no other. -/
theorem SetStatus.holds_iff {m m' : LocalSockManager} {clientid : String} {sock : Option Sock} {status : SockStatus}
    (h : SetStatus m clientid sock status m') (hm : m.Exclusive) {clientid' : String} {x : Sock} {st : SockStatus} :
    m'.Holds clientid' x st ↔ if sock = some x then clientid = clientid' ∧ st = status else m.Holds clientid' x st := by
  obtain ⟨l₁, l₂, old, hfind⟩ := h
  have hnodup := hm.nodup _ _ hfind
  rw [@socksOf_set l₁ l₂ sock status old] at hnodup
  rw [holds_insert]
  by_cases hx : sock = some x
  · subst hx
    have hold : m.Holds clientid x old := ⟨_, hfind, by simp⟩
    rw [if_pos rfl]
    split_ifs with hc
    · simp only [hc, true_and]
      constructor
      · intro hmem
        exact eq_of_mem_of_nodup hnodup hmem (by simp)
      · rintro rfl
        simp
    · constructor
      · intro hholds
        exact absurd (hm.holds_inj hold hholds).1 hc
      · rintro ⟨he, -⟩
        exact absurd he hc
  · rw [if_neg hx]
    split_ifs with hc
    · subst hc
      have hne : (some x, st) ≠ (sock, status) ∧ (some x, st) ≠ (sock, old) := by
        constructor <;> (intro he; exact hx (Prod.mk.inj he).1.symm)
      simp only [Holds, hfind, List.mem_append, List.mem_cons, hne.1, false_or, Option.some.injEq, exists_eq_left', hne.2]
    · rfl

/-- A new entry at the end of a peer's list. -/
theorem exclusive_push {m : LocalSockManager} (hm : m.Exclusive) {clientid : String}
    {sockList : List (Option Sock × SockStatus)} (hfind : (m.clientSockMap.find? clientid).getD [] = sockList)
    {sock : Option Sock} {status : SockStatus} (hnew : ∀ x, sock = some x → ¬ m.hasSock x) :
    { m with clientSockMap := m.clientSockMap.insert clientid (sockList ++ [(sock, status)]) }.Exclusive := by
  have hold : ∀ x ∈ socksOf sockList, ∃ st, m.Holds clientid x st := by
    intro x hx
    obtain ⟨st, hmem⟩ := mem_socksOf.mp hx
    cases hf : m.clientSockMap.find? clientid with
    | none =>
      rw [← hfind, hf] at hmem
      cases hmem
    | some l =>
      rw [← hfind, hf] at hmem
      exact ⟨st, l, hf, hmem⟩
  have hlist : (socksOf sockList).Nodup := by
    cases hf : m.clientSockMap.find? clientid with
    | none =>
      rw [← hfind, hf]
      exact .nil
    | some l =>
      rw [← hfind, hf]
      exact hm.nodup _ _ hf
  have hsocks : socksOf (sockList ++ [(sock, status)]) = socksOf sockList ++ sock.toList := by
    cases sock <;> simp [socksOf]
  refine hm.insert ?_ ?_
  · rw [hsocks]
    refine List.nodup_append.mpr ⟨hlist, by cases sock <;> simp, ?_⟩
    rintro x hx y hy rfl
    obtain ⟨st, hholds⟩ := hold x hx
    exact hnew x (by simpa using hy) (hasSock_iff.mpr ⟨clientid, st, hholds⟩)
  · intro x hx clientid' st hholds
    rw [hsocks] at hx
    rcases List.mem_append.mp hx with hx | hx
    · obtain ⟨st', hholds'⟩ := hold x hx
      exact (hm.holds_inj hholds hholds').1
    · exact absurd (hasSock_iff.mpr ⟨clientid', st, hholds⟩) (hnew x (by simpa using hx))

theorem holds_push {m : LocalSockManager} {clientid : String} {sockList : List (Option Sock × SockStatus)}
    (hfind : (m.clientSockMap.find? clientid).getD [] = sockList) {sock : Option Sock} {status : SockStatus}
    {clientid' : String} {x : Sock} {st : SockStatus} :
    { m with clientSockMap := m.clientSockMap.insert clientid (sockList ++ [(sock, status)]) }.Holds clientid' x st ↔
      m.Holds clientid' x st ∨ clientid = clientid' ∧ sock = some x ∧ st = status := by
  rw [holds_insert]
  split_ifs with hc
  · subst hc
    subst hfind
    cases hf : m.clientSockMap.find? clientid with
    | none => simp [Holds, hf, eq_comm]
    | some l => simp [Holds, hf, eq_comm]
  · simp [hc]

/-! ### What the operations do -/

/-- What `connect_client` can do. -/
theorem connectClient_cases (m : LocalSockManager) (clientid : String) (conn : Option Sock) :
    (m.connectClient clientid conn).2 = m ∨ ∃ sock, conn = some sock ∧ (m.connectClient clientid conn).2 =
      { m with
        clientSockMap :=
          m.clientSockMap.insert clientid ((m.clientSockMap.find? clientid).getD [] ++ [(some sock, .idle)])
        conditionMap := m.conditionMap.insert clientid () } := by
  unfold connectClient
  split_ifs
  · exact .inl rfl
  · cases conn with
    | none => exact .inl rfl
    | some sock => exact .inr ⟨sock, rfl, rfl⟩

/-- A new connection to a peer is idle; every other socket is as it was. -/
theorem connectClient_spec {m : LocalSockManager} (hm : m.Exclusive) {clientid : String} {conn : Option Sock}
    (hnew : ∀ x, conn = some x → ¬ m.hasSock x) :
    (m.connectClient clientid conn).2.Exclusive ∧ ∀ clientid' x st,
      (m.connectClient clientid conn).2.Holds clientid' x st →
        m.Holds clientid' x st ∨ conn = some x ∧ st = .idle := by
  rcases m.connectClient_cases clientid conn with heq | ⟨sock, rfl, heq⟩
  · rw [heq]
    exact ⟨hm, fun _ _ _ h => .inl h⟩
  · rw [heq]
    constructor
    · have hex := @exclusive_push m hm clientid _ rfl (some sock) .idle hnew
      exact ⟨hex.nodup, hex.owner⟩
    · intro clientid' x st hholds
      refine ((@holds_push m clientid _ rfl (some sock) .idle clientid' x st).mp hholds).imp_right ?_
      exact fun h => h.2

/-- What is held after a connection stays held. -/
theorem holds_connectClient {m : LocalSockManager} {clientid clientid' : String} {conn : Option Sock} {x : Sock}
    {st : SockStatus} (h : m.Holds clientid' x st) : (m.connectClient clientid conn).2.Holds clientid' x st := by
  rcases m.connectClient_cases clientid conn with heq | ⟨sock, rfl, heq⟩
  · rwa [heq]
  · rw [heq]
    exact (@holds_push m clientid _ rfl (some sock) .idle clientid' x st).mpr (.inl h)

/-- What `get_idle_client_sock` can do when it returns. -/
theorem getIdleClientSock_cases {m m' : LocalSockManager} {clientid : String} {conn : Except Exception (Option Sock)}
    {sock : Option Sock} (h : m.getIdleClientSock clientid conn = .ok (sock, m')) :
    (sock = none ∧ m' = m) ∨
    (SetStatus m clientid sock .used m' ∧ ∀ x, sock = some x → m.Holds clientid x .idle) ∨
    (conn = .ok sock ∧ ∃ sockList, m.clientSockMap.find? clientid = some sockList ∧
      m' = { m with clientSockMap := m.clientSockMap.insert clientid (sockList ++ [(sock, .used)]) }) := by
  unfold getIdleClientSock at h
  split at h
  · cases h
    exact .inl ⟨rfl, rfl⟩
  · rename_i sockList hfind
    split at h
    · rename_i sock' sockList' hlend
      obtain ⟨rfl, rfl⟩ := Prod.mk.inj (Except.ok.inj h)
      obtain ⟨l₁, l₂, rfl, rfl⟩ := lendIdle_eq_some hlend
      refine .inr (.inl ⟨.mk l₁ l₂ .idle hfind, ?_⟩)
      rintro x rfl
      exact ⟨_, hfind, by simp⟩
    · split_ifs at h
      · cases h
        exact .inl ⟨rfl, rfl⟩
      · split at h
        · cases h
          exact .inl ⟨rfl, rfl⟩
        · cases h
        · cases conn with
          | error e => cases h
          | ok conn =>
            cases h
            exact .inr (.inr ⟨rfl, _, hfind, rfl⟩)

/-- A socket that is lent was idle or is new, and is now used; every other socket is as it was. -/
theorem holds_getIdleClientSock {m m' : LocalSockManager} (hm : m.Exclusive) {clientid : String}
    {conn : Except Exception (Option Sock)} {sock : Option Sock} (hnew : ∀ x, conn = .ok (some x) → ¬ m.hasSock x)
    (h : m.getIdleClientSock clientid conn = .ok (sock, m')) :
    m'.Exclusive ∧ (∀ x, sock = some x → m.Holds clientid x .idle ∨ ¬ m.hasSock x) ∧ ∀ clientid' x st,
      m'.Holds clientid' x st ↔ if sock = some x then clientid = clientid' ∧ st = .used else m.Holds clientid' x st := by
  rcases getIdleClientSock_cases h with ⟨rfl, rfl⟩ | ⟨hset, hidle⟩ | ⟨rfl, sockList, hfind, rfl⟩
  · refine ⟨hm, by rintro x ⟨⟩, fun clientid' x st => ?_⟩
    rw [if_neg (by rintro ⟨⟩)]
  · exact ⟨hset.exclusive hm, fun x hx => .inl (hidle x hx), fun _ _ _ => hset.holds_iff hm⟩
  · have hfind' : (m.clientSockMap.find? clientid).getD [] = sockList := by rw [hfind, Option.getD_some]
    have hnew' : ∀ x, sock = some x → ¬ m.hasSock x := by
      rintro x rfl
      exact hnew x rfl
    refine ⟨exclusive_push hm hfind' hnew', fun x hx => .inr (hnew' x hx), fun clientid' x st => ?_⟩
    rw [holds_push hfind']
    split_ifs with hx
    · have hno : ¬ m.Holds clientid' x st := fun hholds => hnew' x hx (hasSock_iff.mpr ⟨_, _, hholds⟩)
      simp [hno, hx]
    · simp [hx]

/-- What `return_sock` can do. -/
theorem returnSock_cases (m : LocalSockManager) (clientid : String) (sock : Option Sock) :
    (m.returnSock clientid sock).1 = m ∨ SetStatus m clientid sock .idle (m.returnSock clientid sock).1 := by
  unfold returnSock
  split
  · exact .inl rfl
  · rename_i sockList hfind
    split
    · exact .inl rfl
    · rename_i sockList' hmark
      obtain ⟨l₁, l₂, old, rfl, rfl⟩ := markIdle_eq_some hmark
      exact .inr (.mk l₁ l₂ old hfind)

/-- The socket returned may be idle; every other socket is as it was. -/
theorem holds_returnSock {m : LocalSockManager} (hm : m.Exclusive) (clientid : String) (sock : Sock) :
    (m.returnSock clientid (some sock)).1.Exclusive ∧ ∀ clientid' x st, x ≠ sock →
      ((m.returnSock clientid (some sock)).1.Holds clientid' x st ↔ m.Holds clientid' x st) := by
  rcases m.returnSock_cases clientid (some sock) with heq | hset
  · rw [heq]
    exact ⟨hm, fun _ _ _ _ => Iff.rfl⟩
  · refine ⟨hset.exclusive hm, fun clientid' x st hx => ?_⟩
    rw [hset.holds_iff hm, if_neg]
    rintro ⟨⟩
    exact hx rfl

end LocalSockManager

end CoolDown
