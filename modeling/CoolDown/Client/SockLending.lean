import CoolDown.Client.LocalSockManager
import CoolDown.Library.Run
import CoolDown.Library.Slice

/-!
# Lending the sockets of the pool

`get_idle_client_sock` lends a socket to whoever asks, and the borrower gives it back with
`return_sock`, once: the guard of `shake_hand` and `Job::onFinished` do. In between, the entry
of the socket says `USED`. A list also has entries for connections that could not be made. They
have a null pointer, say `USED` for ever, and count towards the limit.

## The model

A state is the pool and the borrowers; a step is a call of `connect_client` or
`get_idle_client_sock`, with what becomes of the connection they may make, or a borrower that
gives back. A new connection is a socket that is not in the pool. No socket is ever taken out
of it.

## What is proved

* `step_lent`: the state stays `Lent`: what is borrowed is used, by one borrower.
* `exclusive_lending`: so no socket is lent twice, and none of the assertions fails.
-/

namespace CoolDown

open Library

namespace SockLending

/-- Who has borrowed a socket. -/
structure Borrower where
  clientid : String
  sock : Sock
  deriving DecidableEq

/-- A call, and what becomes of the connection it may make. -/
inductive Action where
  /-- `connect_client`. -/
  | connect (clientid : String) (conn : Option Sock)
  /-- `get_idle_client_sock`. -/
  | lend (clientid : String) (conn : Except Exception (Option Sock))
  /-- Borrower `i` calls `return_sock`, and does not have the socket any more. -/
  | giveBack (i : ℕ)

end SockLending

open SockLending in
/-- The pool, and who has borrowed from it. -/
structure SockLending where
  sockManager : LocalSockManager
  borrowers : List Borrower

namespace SockLending

open LocalSockManager (socksOf)

/-- A pool without connections. -/
def new : SockLending := ⟨.new, []⟩

/-- The connection made is a new socket. -/
def Fresh (m : LocalSockManager) (conn : Except Exception (Option Sock)) : Prop :=
  ∀ sock, conn = .ok (some sock) → ¬ m.hasSock sock

instance (m : LocalSockManager) (conn : Except Exception (Option Sock)) : Decidable (Fresh m conn) :=
  match conn with
  | .error _ => isTrue fun _ h => nomatch h
  | .ok none => isTrue fun _ h => nomatch h
  | .ok (some sock) =>
    decidable_of_iff (¬ m.hasSock sock) ⟨fun h _ he => by cases he; exact h, fun h => h sock rfl⟩

/-- One step: `none` where the action is not possible. -/
def step (s : SockLending) : Action → Option SockLending
  | .connect clientid conn =>
    if Fresh s.sockManager (.ok conn) then
      some { s with sockManager := (s.sockManager.connectClient clientid conn).2 }
    else none
  | .lend clientid conn =>
    if Fresh s.sockManager conn then
      match s.sockManager.getIdleClientSock clientid conn with
      | .error _ => some s
      | .ok (none, m) => some { s with sockManager := m }
      | .ok (some sock, m) => some ⟨m, s.borrowers ++ [⟨clientid, sock⟩]⟩
    else none
  | .giveBack i =>
    match s.borrowers[i]? with
    | none => none
    | some b => some ⟨(s.sockManager.returnSock b.clientid (some b.sock)).1, s.borrowers.eraseIdx i⟩

/-- Every non-null socket of the pool, once for each entry it is in. -/
def allSocks (m : LocalSockManager) : List Sock := m.clientSockMap.entries.flatMap fun e => socksOf e.2

/-! ### What the operations keep in every list -/

/-- Each list has a first entry with a socket, and a condition to wait on; no other peer has one. -/
structure Listed (m : LocalSockManager) : Prop where
  first : ∀ clientid sockList, m.clientSockMap.find? clientid = some sockList →
    ∃ sock, (sockList.map Prod.fst).head? = some (some sock)
  conditions : ∀ clientid, (m.clientSockMap.find? clientid).isSome = (m.conditionMap.find? clientid).isSome

theorem listed_new : Listed .new := ⟨by rintro _ _ ⟨⟩, fun _ => rfl⟩

/-- Replacing the list of a peer by one that begins with the same socket. -/
theorem Listed.insert {m : LocalSockManager} (h : Listed m) {clientid : String}
    {old sockList : List (Option Sock × SockStatus)} (hfind : m.clientSockMap.find? clientid = some old)
    (hfirst : (sockList.map Prod.fst).head? = (old.map Prod.fst).head?) :
    Listed { m with clientSockMap := m.clientSockMap.insert clientid sockList } := by
  constructor
  · intro clientid' sockList' hfind'
    rw [SortedMap.find?_insert] at hfind'
    split_ifs at hfind'
    · obtain rfl := Option.some.inj hfind'
      rw [hfirst]
      exact h.first clientid old hfind
    · exact h.first clientid' sockList' hfind'
  · intro clientid'
    rw [← h.conditions clientid', SortedMap.find?_insert]
    split_ifs with he
    · rw [← he, hfind]
      rfl
    · rfl

theorem Listed.setStatus {m m' : LocalSockManager} (h : Listed m) {clientid : String} {sock : Option Sock}
    {status : SockStatus} (hset : m.SetStatus clientid sock status m') : Listed m' := by
  obtain ⟨l₁, l₂, old, hfind⟩ := hset
  refine h.insert hfind ?_
  cases l₁ <;> rfl

/-- `connect_client` begins a list with the connection it has made, and adds the condition. -/
theorem Listed.connectClient {m : LocalSockManager} (h : Listed m) (clientid : String) (conn : Option Sock) :
    Listed (m.connectClient clientid conn).2 := by
  rcases m.connectClient_cases clientid conn with heq | ⟨sock, -, heq⟩
  · rwa [heq]
  · rw [heq]
    constructor
    · intro clientid' sockList hfind
      rw [SortedMap.find?_insert] at hfind
      split_ifs at hfind with he
      · obtain rfl := Option.some.inj hfind
        cases hold : m.clientSockMap.find? clientid with
        | none => exact ⟨sock, rfl⟩
        | some old =>
          obtain ⟨sock', hfirst⟩ := h.first clientid old hold
          refine ⟨sock', ?_⟩
          cases old with
          | nil => cases hfirst
          | cons e rest => exact hfirst
      · exact h.first clientid' sockList hfind
    · intro clientid'
      rw [SortedMap.find?_insert, SortedMap.find?_insert]
      split_ifs
      · rfl
      · exact h.conditions clientid'

theorem Listed.getIdleClientSock {m m' : LocalSockManager} (h : Listed m) {clientid : String}
    {conn : Except Exception (Option Sock)} {sock : Option Sock}
    (hget : m.getIdleClientSock clientid conn = .ok (sock, m')) : Listed m' := by
  rcases LocalSockManager.getIdleClientSock_cases hget with ⟨-, rfl⟩ | ⟨hset, -⟩ | ⟨-, sockList, hfind, rfl⟩
  · exact h
  · exact h.setStatus hset
  · obtain ⟨first, hfirst⟩ := h.first clientid sockList hfind
    refine h.insert hfind ?_
    cases sockList with
    | nil => cases hfirst
    | cons e rest => rfl

theorem Listed.returnSock {m : LocalSockManager} (h : Listed m) (clientid : String) (sock : Option Sock) :
    Listed (m.returnSock clientid sock).1 := by
  rcases m.returnSock_cases clientid sock with heq | hset
  · rwa [heq]
  · exact h.setStatus hset

/-! ### What is borrowed is used -/

/-- What every step keeps: a borrowed socket is one of those to its peer, is used, and has one
borrower. -/
structure Lent (s : SockLending) : Prop where
  exclusive : s.sockManager.Exclusive
  listed : Listed s.sockManager
  used : ∀ b ∈ s.borrowers, s.sockManager.Holds b.clientid b.sock .used
  once : (s.borrowers.map Borrower.sock).Nodup

theorem lent_new : new.Lent := ⟨LocalSockManager.exclusive_new, listed_new, by rintro _ ⟨⟩, .nil⟩

/-- A socket that is lent is nobody's: it was idle, or it is new. -/
theorem Lent.not_borrowed {s : SockLending} (h : s.Lent) {clientid : String} {conn : Except Exception (Option Sock)}
    {sock : Sock} {m : LocalSockManager} (hnew : Fresh s.sockManager conn)
    (hget : s.sockManager.getIdleClientSock clientid conn = .ok (some sock, m)) :
    ∀ b ∈ s.borrowers, b.sock ≠ sock := by
  rintro b hb rfl
  have hused := h.used b hb
  obtain ⟨-, hfrom, -⟩ := LocalSockManager.holds_getIdleClientSock h.exclusive hnew hget
  rcases hfrom b.sock rfl with hidle | hnone
  · exact absurd (h.exclusive.holds_inj hused hidle).2 (by decide)
  · exact hnone (LocalSockManager.hasSock_iff.mpr ⟨_, _, hused⟩)

theorem Lent.connect {s : SockLending} (h : s.Lent) (clientid : String) {conn : Option Sock}
    (hnew : Fresh s.sockManager (.ok conn)) :
    Lent { s with sockManager := (s.sockManager.connectClient clientid conn).2 } where
  exclusive := (LocalSockManager.connectClient_spec h.exclusive fun x hx => hnew x (congrArg _ hx)).1
  listed := h.listed.connectClient clientid conn
  used b hb := LocalSockManager.holds_connectClient (h.used b hb)
  once := h.once

theorem Lent.lend {s : SockLending} (h : s.Lent) {clientid : String} {conn : Except Exception (Option Sock)}
    {sock : Option Sock} {m : LocalSockManager} (hnew : Fresh s.sockManager conn)
    (hget : s.sockManager.getIdleClientSock clientid conn = .ok (sock, m)) :
    Lent ⟨m, s.borrowers ++ (sock.map (Borrower.mk clientid)).toList⟩ := by
  obtain ⟨hexclusive, -, hholds⟩ := LocalSockManager.holds_getIdleClientSock h.exclusive hnew hget
  have hkept : ∀ b ∈ s.borrowers, sock ≠ some b.sock := by
    rintro b hb rfl
    exact h.not_borrowed hnew hget b hb rfl
  refine ⟨hexclusive, h.listed.getIdleClientSock hget, fun b hb => ?_, ?_⟩
  · rcases List.mem_append.mp hb with hb | hb
    · rw [hholds, if_neg (hkept b hb)]
      exact h.used b hb
    · obtain ⟨x, rfl, rfl⟩ : ∃ x, sock = some x ∧ ⟨clientid, x⟩ = b := by simpa using hb
      rw [hholds, if_pos rfl]
      exact ⟨rfl, rfl⟩
  · cases sock with
    | none => simpa using h.once
    | some x =>
      have hx : ∀ b ∈ s.borrowers, b.sock ≠ x := fun b hb he => hkept b hb (congrArg some he.symm)
      simp only [Option.map_some, Option.toList_some, List.map_append, List.map_cons, List.map_nil]
      refine List.nodup_append.mpr ⟨h.once, by simp, ?_⟩
      simpa using hx

theorem Lent.giveBack {s : SockLending} (h : s.Lent) {i : ℕ} {b : Borrower} (hi : s.borrowers[i]? = some b) :
    Lent ⟨(s.sockManager.returnSock b.clientid (some b.sock)).1, s.borrowers.eraseIdx i⟩ := by
  obtain ⟨l₁, l₂, hl, herase⟩ := exists_eraseIdx_eq_append hi
  have hother : ∀ b' ∈ s.borrowers.eraseIdx i, b'.sock ≠ b.sock := by
    intro b' hb' he
    have hnodup := h.once
    rw [hl, List.map_append, List.map_cons, List.nodup_middle, List.nodup_cons] at hnodup
    rw [herase] at hb'
    exact hnodup.1 (he ▸ by simpa using List.mem_map_of_mem (f := Borrower.sock) hb')
  obtain ⟨hexclusive, hholds⟩ := LocalSockManager.holds_returnSock h.exclusive b.clientid b.sock
  refine ⟨hexclusive, h.listed.returnSock _ _, fun b' hb' => ?_, ?_⟩
  · rw [hholds _ _ _ (hother b' hb')]
    exact h.used b' (List.mem_of_mem_eraseIdx hb')
  · exact h.once.sublist ((List.eraseIdx_sublist s.borrowers i).map Borrower.sock)

/-- One step. -/
theorem step_lent {s s' : SockLending} {a : Action} (h : s.Lent) (hstep : step s a = some s') : s'.Lent := by
  cases a with
  | connect clientid conn =>
    rw [step] at hstep
    split_ifs at hstep with hnew
    exact Option.some.inj hstep ▸ h.connect clientid hnew
  | lend clientid conn =>
    rw [step] at hstep
    split_ifs at hstep with hnew
    split at hstep
    · exact Option.some.inj hstep ▸ h
    · rename_i m hget
      have hlent := h.lend hnew hget
      rw [Option.map_none, Option.toList_none, List.append_nil] at hlent
      exact Option.some.inj hstep ▸ hlent
    · rename_i sock m hget
      exact Option.some.inj hstep ▸ h.lend hnew hget
  | giveBack i =>
    rw [step] at hstep
    split at hstep
    · cases hstep
    · rename_i b hi
      exact Option.some.inj hstep ▸ h.giveBack hi

/-- Every run. -/
theorem exec_lent {actions : List Action} {s : SockLending} (h : exec step new actions = some s) : s.Lent :=
  exec_invariant step_lent h lent_new

/-! ### What it is good for -/

/-- In an exclusive pool each socket is in one entry of one list. -/
theorem count_allSocks {m : LocalSockManager} (h : m.Exclusive) {clientid : String} {sock : Sock} {status : SockStatus}
    (hholds : m.Holds clientid sock status) : (allSocks m).count sock = 1 := by
  have hfind : ∀ e ∈ m.clientSockMap.entries, m.clientSockMap.find? e.1 = some e.2 :=
    fun e he => SortedMap.find?_eq_some.mpr he
  have hnodup : (allSocks m).Nodup := by
    refine List.nodup_flatMap.mpr ⟨fun e he => h.nodup _ _ (hfind e he), ?_⟩
    refine (List.pairwise_iff_forall_sublist.mpr fun {e e'} hsub => ?_)
    have hlt : e.1 < e'.1 := (List.pairwise_iff_forall_sublist.mp m.clientSockMap.sorted) hsub
    have he : e ∈ m.clientSockMap.entries := hsub.subset (by simp)
    have he' : e' ∈ m.clientSockMap.entries := hsub.subset (by simp)
    intro x hx hx'
    exact absurd (h.owner _ _ _ _ x (hfind e he) (hfind e' he') hx hx') hlt.ne
  obtain ⟨sockList, hlist, hmem⟩ := hholds
  refine List.count_eq_one_of_mem hnodup (List.mem_flatMap.mpr ⟨(clientid, sockList), ?_, ?_⟩)
  · exact SortedMap.find?_eq_some.mp hlist
  · exact LocalSockManager.mem_socksOf.mpr ⟨status, hmem⟩

/-- Where every list begins with a socket, its address can be asked for. -/
theorem Listed.getIdleClientSock_eq_ok {m : LocalSockManager} (h : Listed m) (clientid : String) (conn : Option Sock) :
    ∃ r, m.getIdleClientSock clientid (.ok conn) = .ok r := by
  unfold LocalSockManager.getIdleClientSock
  split
  · exact ⟨_, rfl⟩
  · rename_i sockList hfind
    split
    · exact ⟨_, rfl⟩
    · split_ifs
      · exact ⟨_, rfl⟩
      · obtain ⟨first, hfirst⟩ := h.first clientid sockList hfind
        split
        · exact ⟨_, rfl⟩
        · cases hfirst
        · exact ⟨_, rfl⟩

/-- Where every list has a condition, the assertions about it hold. -/
theorem Listed.conditions_found {m : LocalSockManager} (h : Listed m) {clientid : String}
    (hconnected : m.isConnected clientid) :
    m.getSockIdelCondition clientid = .ok () ∧ ∀ sock, (m.returnSock clientid sock).2 = .ok () := by
  have hcond : (m.conditionMap.find? clientid).isSome := by
    rw [← h.conditions clientid]
    exact hconnected
  refine ⟨if_pos hcond, fun sock => ?_⟩
  unfold LocalSockManager.returnSock
  split
  · rfl
  · split
    · rfl
    · exact if_pos hcond

/-- **Exclusive lending.** After any run, a socket that `get_idle_client_sock` returns is held by
nobody; what is borrowed is used and has one borrower; each socket is in one entry of one list;
every list begins with a socket, so that asking for its address is safe; and every peer that
has a list has a condition, so that no assertion fails. -/
theorem exclusive_lending {actions : List Action} {s : SockLending} (hrun : exec step new actions = some s) :
    (∀ clientid conn sock m, Fresh s.sockManager conn →
      s.sockManager.getIdleClientSock clientid conn = .ok (some sock, m) → ∀ b ∈ s.borrowers, b.sock ≠ sock) ∧
    ((s.borrowers.map Borrower.sock).Nodup ∧ ∀ b ∈ s.borrowers, s.sockManager.Holds b.clientid b.sock .used) ∧
    (∀ clientid sock status, s.sockManager.Holds clientid sock status → (allSocks s.sockManager).count sock = 1) ∧
    (∀ clientid sockList, s.sockManager.clientSockMap.find? clientid = some sockList →
      ∃ sock status rest, sockList = (some sock, status) :: rest) ∧
    (∀ clientid conn, ∃ r, s.sockManager.getIdleClientSock clientid (.ok conn) = .ok r) ∧
    (∀ clientid, (s.sockManager.clientSockMap.find? clientid).isSome =
      (s.sockManager.conditionMap.find? clientid).isSome) ∧
    ∀ clientid, s.sockManager.isConnected clientid →
      s.sockManager.getSockIdelCondition clientid = .ok () ∧
        ∀ sock, (s.sockManager.returnSock clientid sock).2 = .ok () := by
  have h := exec_lent hrun
  refine ⟨fun _ _ _ _ hnew hget => h.not_borrowed hnew hget, ⟨h.once, h.used⟩,
    fun _ _ _ hholds => count_allSocks h.exclusive hholds, fun clientid sockList hfind => ?_,
    h.listed.getIdleClientSock_eq_ok, h.listed.conditions, fun _ => h.listed.conditions_found⟩
  obtain ⟨sock, hfirst⟩ := h.listed.first clientid sockList hfind
  cases sockList with
  | nil => cases hfirst
  | cons e rest => exact ⟨sock, e.2, rest, by rw [← Option.some.inj hfirst]⟩

/-- Two borrowers, a connection that cannot be made, and one that gives back: the next socket is
the idle one. -/
theorem exclusive_lending_two :
    ∃ s, exec step new
        [.connect "p" (some 0), .lend "p" (.ok none), .lend "p" (.ok (some 1)), .lend "p" (.ok none), .giveBack 0] = some s ∧
      (∃ m, s.sockManager.getIdleClientSock "p" (.ok none) = .ok (some 0, m)) ∧ ∀ b ∈ s.borrowers, b.sock ≠ 0 := by
  have hrun : ∃ s, exec step new
        [.connect "p" (some 0), .lend "p" (.ok none), .lend "p" (.ok (some 1)), .lend "p" (.ok none), .giveBack 0] = some s ∧
      ∃ m, s.sockManager.getIdleClientSock "p" (.ok none) = .ok (some 0, m) := ⟨_, rfl, _, rfl⟩
  obtain ⟨s, hrun, m, hget⟩ := hrun
  exact ⟨s, hrun, ⟨m, hget⟩, (exclusive_lending hrun).1 "p" (.ok none) 0 m (by rintro _ ⟨⟩) hget⟩

end SockLending

end CoolDown
