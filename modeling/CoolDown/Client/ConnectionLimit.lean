import CoolDown.Client.SockLending

/-!
# How many connections a peer may have: `MAX_CONNECTION_PER_CLIENT`

Three functions look at the limit. For `reach_connection_limit` a peer with ten connections has as many as it may have.
`connect_client` and `get_idle_client_sock` ask whether it has more than that, and make the eleventh.

## The model

The calls come in any order, with any arguments and any outcome of the connection they may make: `return_sock` may be
given any socket, or a null pointer. An address that is none makes `connect_client` throw where it makes the connection,
before it has changed anything.

## What is proved

* `getIdleClientSock_list`, `connectClient_list`: what becomes of the lists.
* `step_withinLimit`: a call that stays `Below` the limit keeps every list within it.
* `withinLimit_iff`: in a run all lists are within the limit, and it is respected, just when all calls stay below it.
* `eleventh_connection`: `connect_client` eleven times.
-/

namespace CoolDown

open Library

namespace LocalSockManager

/-- The list of a peer's connections. -/
def listOf (m : LocalSockManager) (clientid : String) : List (Option Sock × SockStatus) :=
  (m.clientSockMap.find? clientid).getD []

theorem listOf_eq {m : LocalSockManager} {clientid : String} {sockList : List (Option Sock × SockStatus)}
    (h : m.clientSockMap.find? clientid = some sockList) : m.listOf clientid = sockList := by
  rw [listOf, h, Option.getD_some]

/-- `get_idle_client_sock` opens a connection: it puts every connection that it makes at the end of the list, whether
the attempt succeeds or not. -/
def Opens (m : LocalSockManager) (clientid : String) (conn : Except Exception (Option Sock)) : Prop :=
  ∃ sock m', m.getIdleClientSock clientid conn = .ok (sock, m') ∧
    (m'.listOf clientid).length = (m.listOf clientid).length + 1

theorem reachConnectionLimit_iff {m : LocalSockManager} {clientid : String} :
    m.reachConnectionLimit clientid ↔ maxConnectionPerClient ≤ (m.listOf clientid).length := by
  unfold reachConnectionLimit listOf
  cases m.clientSockMap.find? clientid with
  | none => exact iff_of_false (by rintro ⟨⟩) (by decide)
  | some sockList => exact decide_eq_true_iff

theorem connectClient_fst_iff {m : LocalSockManager} {clientid : String} {conn : Option Sock} :
    (m.connectClient clientid conn).1 = .errorNetConnectionLimit ↔
      maxConnectionPerClient < (m.listOf clientid).length := by
  unfold connectClient
  split_ifs with hlimit
  · exact iff_of_true rfl hlimit
  · refine iff_of_false ?_ hlimit
    cases conn <;> rintro ⟨⟩

/-- Replacing the list of a peer. -/
theorem listOf_insert {m : LocalSockManager} {clientid clientid' : String} {sockList : List (Option Sock × SockStatus)}
    {conditions : SortedMap String Unit} :
    (⟨m.serverSockMap, m.clientSockMap.insert clientid sockList, conditions⟩ : LocalSockManager).listOf clientid' =
      if clientid = clientid' then sockList else m.listOf clientid' := by
  unfold listOf
  rw [SortedMap.find?_insert]
  split_ifs <;> rfl

/-- A change of status leaves every list as long as it is. -/
theorem SetStatus.length_listOf {m m' : LocalSockManager} {clientid : String} {sock : Option Sock} {status : SockStatus}
    (h : SetStatus m clientid sock status m') (clientid' : String) :
    (m'.listOf clientid').length = (m.listOf clientid').length := by
  obtain ⟨l₁, l₂, old, hfind⟩ := h
  rw [listOf_insert]
  split_ifs with he
  · rw [← he, listOf_eq hfind, List.length_append, List.length_append, List.length_cons, List.length_cons]
  · rfl

/-- `connect_client` adds an entry for a peer that has no more connections than it may have, or does nothing. -/
theorem connectClient_list (m : LocalSockManager) (clientid : String) (conn : Option Sock) :
    (m.connectClient clientid conn).2 = m ∨ (m.listOf clientid).length ≤ maxConnectionPerClient ∧
      ∀ clientid', ((m.connectClient clientid conn).2.listOf clientid').length =
        (m.listOf clientid').length + if clientid = clientid' then 1 else 0 := by
  by_cases hlimit : maxConnectionPerClient < (m.listOf clientid).length
  · exact .inl (congrArg Prod.snd (if_pos hlimit))
  · rcases m.connectClient_cases clientid conn with heq | ⟨sock, -, heq⟩
    · exact .inl heq
    · refine .inr ⟨Nat.le_of_not_lt hlimit, fun clientid' => ?_⟩
      rw [heq, listOf_insert]
      split_ifs with he
      · rw [← he, List.length_append, List.length_singleton, listOf]
      · rfl

theorem lendIdle_eq_none {sockList : List (Option Sock × SockStatus)} :
    lendIdle sockList = none ↔ ∀ e ∈ sockList, e.2 = .used := by
  induction sockList with
  | nil => simp [lendIdle]
  | cons e rest ih =>
    obtain ⟨o, _ | _⟩ := e
    · simp [lendIdle]
    · rw [lendIdle, Option.map_eq_none_iff, ih, List.forall_mem_cons]
      exact (and_iff_right rfl).symm

/-- `get_idle_client_sock` adds an entry for a peer that has no connection idle, and no more than it may have; or every
list stays as long as it is. -/
theorem getIdleClientSock_list {m m' : LocalSockManager} {clientid : String} {conn : Except Exception (Option Sock)}
    {sock : Option Sock} (h : m.getIdleClientSock clientid conn = .ok (sock, m')) :
    (∀ clientid', (m'.listOf clientid').length = (m.listOf clientid').length) ∨
      ((m.listOf clientid).length ≤ maxConnectionPerClient ∧ (∀ e ∈ m.listOf clientid, e.2 = .used) ∧
        conn = .ok sock) ∧
      ∀ clientid', (m'.listOf clientid').length = (m.listOf clientid').length + if clientid = clientid' then 1 else 0 := by
  unfold getIdleClientSock at h
  split at h
  · cases h
    exact .inl fun _ => rfl
  · next sockList hfind =>
    have hlist := listOf_eq hfind
    split at h
    · next sock' sockList' hlend =>
      obtain ⟨rfl, rfl⟩ := Prod.mk.inj (Except.ok.inj h)
      obtain ⟨l₁, l₂, rfl, rfl⟩ := lendIdle_eq_some hlend
      exact .inl (SetStatus.mk l₁ l₂ .idle hfind).length_listOf
    · next hnone =>
      split_ifs at h with hlimit
      · cases h
        exact .inl fun _ => rfl
      · split at h
        · cases h
          exact .inl fun _ => rfl
        · cases h
        · cases conn with
          | error e => cases h
          | ok conn =>
            obtain ⟨rfl, rfl⟩ := Prod.mk.inj (Except.ok.inj h)
            refine .inr ⟨⟨?_, ?_, rfl⟩, fun clientid' => ?_⟩
            · rw [hlist]
              exact Nat.le_of_not_lt hlimit
            · rw [hlist]
              exact lendIdle_eq_none.mp hnone
            · rw [listOf_insert]
              split_ifs with he
              · rw [← he, hlist, List.length_append, List.length_singleton]
              · rfl

/-- **When it opens a connection.** The list begins with a connection that was made, whose address can be had. -/
theorem opens_iff {m : LocalSockManager} (hm : SockLending.Listed m) {clientid : String}
    {conn : Except Exception (Option Sock)} :
    m.Opens clientid conn ↔ m.isConnected clientid ∧ (m.listOf clientid).length ≤ maxConnectionPerClient ∧
      (∀ e ∈ m.listOf clientid, e.2 = .used) ∧ ∃ sock, conn = .ok sock := by
  constructor
  · rintro ⟨sock, m', hget, hlen⟩
    rcases getIdleClientSock_list hget with hsame | ⟨⟨hle, hused, hconn⟩, -⟩
    · rw [hsame] at hlen
      omega
    · refine ⟨?_, hle, hused, sock, hconn⟩
      unfold isConnected
      cases hfind : m.clientSockMap.find? clientid with
      | none =>
        rw [getIdleClientSock, hfind] at hget
        obtain ⟨-, rfl⟩ := Prod.mk.inj (Except.ok.inj hget)
        omega
      | some sockList => rfl
  · rintro ⟨hconnected, hle, hused, sock, rfl⟩
    obtain ⟨sockList, hfind⟩ := Option.isSome_iff_exists.mp hconnected
    have hlist := listOf_eq hfind
    rw [hlist] at hle hused
    obtain ⟨first, hfirst⟩ := hm.first clientid sockList hfind
    cases sockList with
    | nil => cases hfirst
    | cons e rest =>
      obtain ⟨o, status⟩ := e
      obtain rfl : o = some first := Option.some.inj hfirst
      refine ⟨sock, ⟨m.serverSockMap, m.clientSockMap.insert clientid ((some first, status) :: rest ++ [(sock, .used)]),
        m.conditionMap⟩, ?_, ?_⟩
      · unfold getIdleClientSock
        rw [hfind]
        simp only [lendIdle_eq_none.mpr hused, if_neg (Nat.not_lt.mpr hle)]
        rfl
      · rw [listOf_insert, if_pos rfl, hlist, List.length_append, List.length_singleton]

theorem returnSock_list (m : LocalSockManager) (clientid : String) (sock : Option Sock) (clientid' : String) :
    ((m.returnSock clientid sock).1.listOf clientid').length = (m.listOf clientid').length := by
  rcases m.returnSock_cases clientid sock with heq | hset
  · rw [heq]
  · exact hset.length_listOf clientid'

end LocalSockManager

namespace ConnectionLimit

open LocalSockManager SockLending

/-- A call, and what becomes of the connection it may make. -/
inductive Action where
  /-- `connect_client`. -/
  | connect (clientid : String) (conn : Option Sock)
  /-- `get_idle_client_sock`. -/
  | lend (clientid : String) (conn : Except Exception (Option Sock))
  /-- `return_sock`. -/
  | giveBack (clientid : String) (sock : Option Sock)

/-- The pool after a call. -/
def step (m : LocalSockManager) : Action → Option LocalSockManager
  | .connect clientid conn => some (m.connectClient clientid conn).2
  | .lend clientid conn =>
    match m.getIdleClientSock clientid conn with
    | .error _ => some m
    | .ok r => some r.2
  | .giveBack clientid sock => some (m.returnSock clientid sock).1

/-- No peer has more connections than it may have, and the load of a connected peer, in tenths, is ten at most. -/
structure WithinLimit (m : LocalSockManager) : Prop where
  length_le : ∀ clientid sockList, m.clientSockMap.find? clientid = some sockList →
    sockList.length ≤ maxConnectionPerClient
  payload_le : ∀ clientid, m.isConnected clientid → m.getPayloadPercentage clientid ≤ 10

/-- `connect_client` refuses just when the limit is reached, and `get_idle_client_sock` opens a connection only when it
is not. -/
def Respects (m : LocalSockManager) : Action → Prop
  | .connect clientid conn =>
    (m.connectClient clientid conn).1 = .errorNetConnectionLimit ↔ m.reachConnectionLimit clientid
  | .lend clientid conn => m.Opens clientid conn → ¬ m.reachConnectionLimit clientid
  | .giveBack _ _ => True

/-- The peer does not have just as many connections as it may have, or an idle one is asked for and there is one, or
the address to connect to cannot be had. -/
def Below (m : LocalSockManager) : Action → Prop
  | .connect clientid _ => (m.listOf clientid).length ≠ maxConnectionPerClient
  | .lend clientid conn => (m.listOf clientid).length = maxConnectionPerClient →
      (∃ e ∈ m.listOf clientid, e.2 = .idle) ∨ ∃ e, conn = .error e
  | .giveBack _ _ => True

variable {m m' : LocalSockManager} {a : Action}

theorem withinLimit_iff_listOf : WithinLimit m ↔ ∀ clientid, (m.listOf clientid).length ≤ maxConnectionPerClient := by
  constructor
  · intro h clientid
    unfold listOf
    cases hfind : m.clientSockMap.find? clientid with
    | none => exact Nat.zero_le _
    | some sockList => exact h.length_le clientid sockList hfind
  · intro h
    have hlist : ∀ {clientid sockList}, m.clientSockMap.find? clientid = some sockList →
        sockList.length ≤ maxConnectionPerClient := by
      intro clientid sockList hfind
      have := h clientid
      rwa [listOf_eq hfind] at this
    refine ⟨fun _ _ => hlist, fun clientid hconnected => ?_⟩
    obtain ⟨sockList, hfind⟩ := Option.isSome_iff_exists.mp hconnected
    rw [getPayloadPercentage, hfind]
    exact hlist hfind

theorem step_listed (hm : Listed m) (h : step m a = some m') : Listed m' := by
  cases a with
  | connect clientid conn => exact Option.some.inj h ▸ hm.connectClient clientid conn
  | lend clientid conn =>
    rw [step] at h
    split at h
    · exact Option.some.inj h ▸ hm
    · next r hget => exact Option.some.inj h ▸ hm.getIdleClientSock hget
  | giveBack clientid sock => exact Option.some.inj h ▸ hm.returnSock clientid sock

/-- A call is below the limit just when it respects it. -/
theorem below_iff_respects (hm : Listed m) (hwithin : WithinLimit m) : Below m a ↔ Respects m a := by
  have hlen := withinLimit_iff_listOf.mp hwithin
  cases a with
  | connect clientid conn =>
    rw [Respects, connectClient_fst_iff, reachConnectionLimit_iff, Below]
    have := hlen clientid
    omega
  | lend clientid conn =>
    rw [Respects, opens_iff hm, reachConnectionLimit_iff, Below]
    constructor
    · rintro hbelow ⟨-, hle, hused, sock, rfl⟩ hreached
      rcases hbelow (Nat.le_antisymm hle hreached) with ⟨e, he, hidle⟩ | ⟨e, he⟩
      · rw [hused e he] at hidle
        cases hidle
      · cases he
    · intro hrespects hfull
      by_contra hno
      rw [not_or] at hno
      obtain ⟨hnoidle, hnothrow⟩ := hno
      refine hrespects ⟨?_, hfull.le, ?_, ?_⟩ hfull.ge
      · unfold isConnected
        cases hfind : m.clientSockMap.find? clientid with
        | none =>
          rw [listOf, hfind] at hfull
          cases hfull
        | some sockList => rfl
      · intro e he
        cases hstatus : e.2 with
        | idle => exact absurd ⟨e, he, hstatus⟩ hnoidle
        | used => rfl
      · cases conn with
        | error e => exact absurd ⟨e, rfl⟩ hnothrow
        | ok sock => exact ⟨sock, rfl⟩
  | giveBack clientid sock => exact Iff.rfl

/-- **A call below the limit** keeps every list within it. -/
theorem step_withinLimit (hwithin : WithinLimit m) (ha : Below m a) (h : step m a = some m') : WithinLimit m' := by
  rw [withinLimit_iff_listOf] at hwithin ⊢
  intro clientid'
  have hlen := hwithin clientid'
  cases a with
  | connect clientid conn =>
    obtain rfl := Option.some.inj h
    rcases m.connectClient_list clientid conn with heq | ⟨-, hlist⟩
    · rwa [heq]
    · rw [hlist]
      split_ifs with he
      · have hne : (m.listOf clientid').length ≠ maxConnectionPerClient := he ▸ ha
        omega
      · exact hlen
  | lend clientid conn =>
    rw [step] at h
    split at h
    · obtain rfl := Option.some.inj h
      exact hlen
    · next r hget =>
      obtain rfl := Option.some.inj h
      rcases getIdleClientSock_list hget with hsame | ⟨⟨-, hused, hconn⟩, hlist⟩
      · rwa [hsame]
      · rw [hlist]
        split_ifs with he
        · subst he
          have hne : (m.listOf clientid).length ≠ maxConnectionPerClient := by
            intro hfull
            rcases ha hfull with ⟨e, he, hidle⟩ | ⟨e, he⟩
            · rw [hused e he] at hidle
              cases hidle
            · rw [hconn] at he
              cases he
          omega
        · exact hlen
  | giveBack clientid sock =>
    obtain rfl := Option.some.inj h
    rw [returnSock_list]
    exact hlen

/-- **The connection limit.** After a run no peer has more connections than it may have, and every call of the run has
respected the limit, if and only if every call was below it. -/
theorem withinLimit_iff {as : List Action} (h : exec step .new as = some m) :
    Always step Below .new as ↔ WithinLimit m ∧ Always step Respects .new as := by
  have hstart : Listed .new ∧ WithinLimit .new :=
    ⟨listed_new, withinLimit_iff_listOf.mpr fun _ => Nat.zero_le _⟩
  have hsame : Always step Below .new as ↔ Always step Respects .new as :=
    always_congr (I := fun m => Listed m ∧ WithinLimit m)
      (fun hm ha hstep => ⟨step_listed hm.1 hstep, step_withinLimit hm.2 ha hstep⟩)
      (fun hm => below_iff_respects hm.1 hm.2) hstart
  constructor
  · intro hbelow
    exact ⟨exec_invariant_of_always step_withinLimit hbelow h hstart.2, hsame.mp hbelow⟩
  · exact fun hrespects => hsame.mpr hrespects.2

/-- One connection after another to the same peer. -/
def connects (n : ℕ) : List Action := (List.range n).map fun i => .connect "p" (some i)

/-- **The eleventh connection.** -/
theorem eleventh_connection :
    ¬ ∀ (as : List Action) (m : LocalSockManager), exec step .new as = some m → WithinLimit m := by
  intro h
  have hrun : exec step .new (connects 11) = some ((exec step .new (connects 11)).getD .new) := by decide
  have hlen := (h _ _ hrun).payload_le "p" (by decide)
  exact absurd hlen (by decide)

/-- Two calls on one connection. -/
theorem withinLimit_iff_lendTwice :
    ∃ m, exec step .new [.connect "p" (some 0), .lend "p" (.ok none), .giveBack "p" (some 0), .lend "p" (.ok none)] =
        some m ∧
      (Always step Below .new [.connect "p" (some 0), .lend "p" (.ok none), .giveBack "p" (some 0),
        .lend "p" (.ok none)] ↔ WithinLimit m ∧ Always step Respects .new
          [.connect "p" (some 0), .lend "p" (.ok none), .giveBack "p" (some 0), .lend "p" (.ok none)]) := by
  have hrun : ∃ m, exec step .new
      [.connect "p" (some 0), .lend "p" (.ok none), .giveBack "p" (some 0), .lend "p" (.ok none)] = some m := ⟨_, rfl⟩
  obtain ⟨m, hrun⟩ := hrun
  exact ⟨m, hrun, withinLimit_iff hrun⟩

end ConnectionLimit

end CoolDown
