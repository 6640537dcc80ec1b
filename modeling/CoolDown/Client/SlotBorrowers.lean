import CoolDown.Client.ConnectionLimit

/-!
# Who has the used sockets

`get_idle_client_sock` puts the connection it makes into the list as a used one before anybody looks whether it could
be made. An attempt that fails leaves a null pointer there. The caller gets the null pointer and asks again, nobody can
give it back, and after ten failures a peer whose sockets are all idle again is one whose list is full of it.

## The model

The pool and its borrowers are those of `SockLending`.

## What is proved

* `step_allBorrowed`, `step_filled`: a step in which no attempt fails leaves a borrower for every used socket, and no
  null pointer.
* `leaks_step`, `leaks_of_not_connects`: an attempt that fails leaves its entry there, and it stays.
* `slots_accounted_iff`: after a run each used entry is the socket of a borrower, and once all have been given back every
  entry is idle and can be lent, just when no attempt has failed.
* `failed_attempt`: an attempt that fails.
-/

namespace CoolDown

open Library LocalSockManager

namespace SockLending

/-- Each used entry has a socket that somebody has borrowed. -/
def AllBorrowed (s : SockLending) : Prop :=
  ∀ clientid sockList, s.sockManager.clientSockMap.find? clientid = some sockList →
    ∀ e ∈ sockList, e.2 = .used → ∃ sock, e.1 = some sock ∧ ⟨clientid, sock⟩ ∈ s.borrowers

/-- No entry is a null pointer. -/
def Filled (m : LocalSockManager) : Prop := ∀ clientid, ∀ e ∈ m.listOf clientid, e.1 ≠ none

/-- Each used entry has a borrower; and once all borrowers have given back what they had, every entry is idle, and a
connected peer's socket is lent to who asks for one. -/
structure Accounted (s : SockLending) : Prop where
  borrowed : AllBorrowed s
  idle : s.borrowers = [] → ∀ clientid sockList, s.sockManager.clientSockMap.find? clientid = some sockList →
    ∀ e ∈ sockList, e.2 = .idle
  lends : s.borrowers = [] → ∀ clientid, s.sockManager.isConnected clientid → ∀ conn, ∃ sock m,
    s.sockManager.getIdleClientSock clientid conn = .ok (some sock, m)

/-- If the step is one to open a connection for a borrower, it is not one that fails. -/
def Connects (s : SockLending) : Action → Prop
  | .lend clientid conn => s.sockManager.isConnected clientid →
      (s.sockManager.listOf clientid).length ≤ maxConnectionPerClient →
      (∀ e ∈ s.sockManager.listOf clientid, e.2 = .used) → conn ≠ .ok none
  | .connect .. | .giveBack _ => True

/-- An attempt has failed, and its entry is still there. -/
def Leaks (m : LocalSockManager) : Prop :=
  ∃ clientid sockList, m.clientSockMap.find? clientid = some sockList ∧ (none, .used) ∈ sockList

variable {s s' : SockLending} {a : Action}

theorem AllBorrowed.not_leaks (h : s.AllBorrowed) : ¬ Leaks s.sockManager := by
  rintro ⟨clientid, sockList, hfind, hmem⟩
  obtain ⟨sock, hsock, -⟩ := h clientid sockList hfind _ hmem rfl
  cases hsock

/-! ### Entries come and go -/

/-- An entry behind a list. -/
theorem mem_listOf_append {m : LocalSockManager} {clientid clientid' : String} {new e : Option Sock × SockStatus}
    (he : e ∈ listOf { m with clientSockMap := m.clientSockMap.insert clientid (m.listOf clientid ++ [new]) } clientid') :
    e ∈ m.listOf clientid' ∨ clientid = clientid' ∧ e = new := by
  rw [listOf_insert] at he
  split_ifs at he with hc
  · rcases List.mem_append.mp he with he | he
    · exact .inl (hc ▸ he)
    · exact .inr ⟨hc, List.mem_singleton.mp he⟩
  · exact .inl he

/-- What is there after `connect_client` was there before, or is a socket that is idle. -/
theorem mem_connectClient {m : LocalSockManager} {clientid clientid' : String} {conn : Option Sock}
    {e : Option Sock × SockStatus} (he : e ∈ (m.connectClient clientid conn).2.listOf clientid') :
    e ∈ m.listOf clientid' ∨ ∃ sock, e = (some sock, .idle) := by
  rcases m.connectClient_cases clientid conn with heq | ⟨sock, -, heq⟩
  · exact .inl (heq ▸ he)
  · rw [heq] at he
    exact (mem_listOf_append he).imp_right fun hnew => ⟨sock, hnew.2⟩

/-- What is there after a change of status was there before, unless it is the entry that was changed; and this entry
was there with another status. -/
theorem mem_setStatus {m m' : LocalSockManager} {clientid : String} {sock : Option Sock} {status : SockStatus}
    (h : m.SetStatus clientid sock status m') :
    (∃ old, (sock, old) ∈ m.listOf clientid) ∧ ∀ {clientid' e}, e ∈ m'.listOf clientid' →
      e ∈ m.listOf clientid' ∨ clientid = clientid' ∧ e = (sock, status) := by
  obtain ⟨l₁, l₂, old, hold⟩ := h
  have hlist := listOf_eq hold
  refine ⟨⟨old, hlist ▸ List.mem_append_right _ List.mem_cons_self⟩, fun {clientid' e} he => ?_⟩
  rw [listOf_insert] at he
  split_ifs at he with hc
  · rw [← hc, hlist]
    rcases List.mem_append.mp he with he | he
    · exact .inl (List.mem_append_left _ he)
    · rcases List.mem_cons.mp he with he | he
      · exact .inr ⟨rfl, he⟩
      · exact .inl (List.mem_append_right _ (List.mem_cons_of_mem _ he))
  · exact .inl he

theorem mem_listOf {m : LocalSockManager} {clientid : String} {e : Option Sock × SockStatus} :
    e ∈ m.listOf clientid ↔ ∃ sockList, m.clientSockMap.find? clientid = some sockList ∧ e ∈ sockList := by
  unfold listOf
  cases m.clientSockMap.find? clientid with
  | none => simp
  | some sockList => simp

theorem allBorrowed_iff_listOf : s.AllBorrowed ↔ ∀ clientid, ∀ e ∈ s.sockManager.listOf clientid, e.2 = .used →
    ∃ sock, e.1 = some sock ∧ ⟨clientid, sock⟩ ∈ s.borrowers := by
  constructor
  · intro h clientid e he hused
    obtain ⟨sockList, hfind, he⟩ := mem_listOf.mp he
    exact h clientid sockList hfind e he hused
  · intro h clientid sockList hfind e he hused
    exact h clientid e (mem_listOf.mpr ⟨sockList, hfind, he⟩) hused

/-- What is there after a change of status has a socket, if what was there had one. -/
theorem Filled.setStatus {m m' : LocalSockManager} (hm : Filled m) {clientid : String} {sock : Option Sock}
    {status : SockStatus} (h : m.SetStatus clientid sock status m') : Filled m' := by
  obtain ⟨⟨old, hold⟩, hmem⟩ := mem_setStatus h
  have hsock : sock ≠ none := hm clientid (sock, old) hold
  intro clientid' e he
  rcases hmem he with he | ⟨-, rfl⟩
  · exact hm clientid' e he
  · exact hsock

/-- A connection that was made has a socket. -/
theorem Filled.connectClient {m : LocalSockManager} (hm : Filled m) (clientid : String) (conn : Option Sock) :
    Filled (m.connectClient clientid conn).2 := by
  intro clientid' e he
  rcases mem_connectClient he with he | ⟨sock, rfl⟩
  · exact hm clientid' e he
  · rintro ⟨⟩

/-- The entry of a failed attempt is still there after a change of status, unless that makes null pointers idle. -/
theorem Leaks.setStatus {m m' : LocalSockManager} (hm : Leaks m) {clientid : String} {sock : Option Sock}
    {status : SockStatus} (h : m.SetStatus clientid sock status m') (hnull : sock = none → status = .used) :
    Leaks m' := by
  obtain ⟨clientid', sockList, hfind, hmem⟩ := hm
  obtain ⟨l₁, l₂, old, hold⟩ := h
  by_cases hc : clientid = clientid'
  · subst hc
    obtain rfl := Option.some.inj (hold.symm.trans hfind)
    refine ⟨clientid, _, SortedMap.find?_insert_self .., ?_⟩
    rcases List.mem_append.mp hmem with he | he
    · exact List.mem_append_left _ he
    · rcases List.mem_cons.mp he with he | he
      · obtain ⟨rfl, -⟩ := Prod.mk.inj he
        rw [hnull rfl]
        exact List.mem_append_right _ List.mem_cons_self
      · exact List.mem_append_right _ (List.mem_cons_of_mem _ he)
  · refine ⟨clientid', sockList, ?_, hmem⟩
    rw [SortedMap.find?_insert, if_neg hc, hfind]

/-- An entry stays there when another is put behind it. -/
theorem Leaks.insert {m : LocalSockManager} (h : Leaks m) {clientid : String} {e : Option Sock × SockStatus} :
    Leaks { m with clientSockMap := m.clientSockMap.insert clientid (m.listOf clientid ++ [e]) } := by
  obtain ⟨clientid', sockList, hfind, hmem⟩ := h
  by_cases hc : clientid = clientid'
  · subst hc
    exact ⟨clientid, _, SortedMap.find?_insert_self .., List.mem_append_left _ (listOf_eq hfind ▸ hmem)⟩
  · refine ⟨clientid', sockList, ?_, hmem⟩
    rw [SortedMap.find?_insert, if_neg hc, hfind]

theorem markIdle_eq_none {sock : Option Sock} {sockList : List (Option Sock × SockStatus)} :
    markIdle sock sockList = none ↔ ∀ e ∈ sockList, e.1 ≠ sock := by
  induction sockList with
  | nil => exact iff_of_true rfl (by rintro _ ⟨⟩)
  | cons e rest ih =>
    rw [markIdle, List.forall_mem_cons]
    split_ifs with he
    · exact iff_of_false (by rintro ⟨⟩) fun h => h.1 he
    · rw [Option.map_eq_none_iff, ih]
      exact (and_iff_right he).symm

/-- A socket that the pool has can be given back. -/
theorem setStatus_returnSock {m : LocalSockManager} {clientid : String} {sock : Sock} {status : SockStatus}
    (h : m.Holds clientid sock status) :
    m.SetStatus clientid (some sock) .idle (m.returnSock clientid (some sock)).1 := by
  obtain ⟨sockList, hfind, hmem⟩ := h
  cases hmark : markIdle (some sock) sockList with
  | none => exact absurd rfl (markIdle_eq_none.mp hmark _ hmem)
  | some sockList' =>
    have hreturn : (m.returnSock clientid (some sock)).1 =
        { m with clientSockMap := m.clientSockMap.insert clientid sockList' } := by
      simp only [returnSock, hfind, hmark]
    obtain ⟨l₁, l₂, old, rfl, rfl⟩ := markIdle_eq_some hmark
    rw [hreturn]
    exact .mk l₁ l₂ old hfind

/-! ### The steps -/

/-- `get_idle_client_sock` has a list grow by the connection it opens. -/
theorem getIdleClientSock_pushes {m m' : LocalSockManager} {clientid : String}
    {conn : Except Exception (Option Sock)} {sock : Option Sock}
    (h : m.getIdleClientSock clientid conn = .ok (sock, m')) :
    (sock = none ∧ m' = m) ∨ (m.SetStatus clientid sock .used m' ∧ ∀ x, sock = some x → m.Holds clientid x .idle) ∨
      m.Opens clientid conn ∧ conn = .ok sock ∧ ∃ sockList, m.clientSockMap.find? clientid = some sockList ∧
        m' = { m with clientSockMap := m.clientSockMap.insert clientid (sockList ++ [(sock, .used)]) } := by
  refine (LocalSockManager.getIdleClientSock_cases h).imp_right (.imp_right ?_)
  rintro ⟨hconn, sockList, hfind, hm'⟩
  refine ⟨⟨sock, m', h, ?_⟩, hconn, sockList, hfind, hm'⟩
  rw [hm', listOf_insert, if_pos rfl, List.length_append, List.length_singleton, listOf_eq hfind]

/-- **Lending.** Where the attempt to open a connection does not fail, the used entries are the old ones and that of
the socket lent. -/
theorem AllBorrowed.lend (h : s.AllBorrowed) (hfilled : Filled s.sockManager) (hlisted : Listed s.sockManager)
    {clientid : String} {conn : Except Exception (Option Sock)} {sock : Option Sock} {m : LocalSockManager}
    (hconnects : s.Connects (.lend clientid conn)) (hget : s.sockManager.getIdleClientSock clientid conn = .ok (sock, m)) :
    AllBorrowed ⟨m, s.borrowers ++ (sock.map (Borrower.mk clientid)).toList⟩ ∧ Filled m := by
  rw [allBorrowed_iff_listOf] at h ⊢
  have hold : ∀ {clientid'}, ∀ e ∈ s.sockManager.listOf clientid', e.2 = .used → ∃ x, e.1 = some x ∧
      ⟨clientid', x⟩ ∈ s.borrowers ++ (sock.map (Borrower.mk clientid)).toList := by
    intro clientid' e he hused
    obtain ⟨x, hx, hb⟩ := h clientid' e he hused
    exact ⟨x, hx, List.mem_append_left _ hb⟩
  have hnew : sock ≠ none → ∃ x, sock = some x ∧
      ⟨clientid, x⟩ ∈ s.borrowers ++ (sock.map (Borrower.mk clientid)).toList := by
    intro hsock
    obtain ⟨x, rfl⟩ := Option.ne_none_iff_exists'.mp hsock
    exact ⟨x, rfl, by simp⟩
  rcases getIdleClientSock_pushes hget with ⟨-, rfl⟩ | ⟨hset, -⟩ | ⟨hopens, rfl, sockList, hfind, rfl⟩
  · exact ⟨fun _ => hold, hfilled⟩
  · refine ⟨fun clientid' e he hused => ?_, hfilled.setStatus hset⟩
    rcases (mem_setStatus hset).2 he with he | ⟨rfl, rfl⟩
    · exact hold e he hused
    · exact hnew (hfilled.setStatus hset clientid _ he)
  · -- the attempt has succeeded
    have hsock : sock ≠ none := by
      rintro rfl
      obtain ⟨hconnected, hle, hused, -⟩ := (opens_iff hlisted).mp hopens
      exact hconnects hconnected hle hused rfl
    obtain rfl := listOf_eq hfind
    constructor
    · intro clientid' e he hused
      rcases mem_listOf_append he with he | ⟨rfl, rfl⟩
      · exact hold e he hused
      · exact hnew hsock
    · intro clientid' e he
      rcases mem_listOf_append he with he | ⟨-, rfl⟩
      · exact hfilled clientid' e he
      · exact hsock

/-- **Giving back.** A socket that somebody has is in the pool, and is idle afterwards. -/
theorem AllBorrowed.giveBack (h : s.AllBorrowed) (hlent : s.Lent) {i : ℕ} {b : Borrower}
    (hi : s.borrowers[i]? = some b) :
    AllBorrowed ⟨(s.sockManager.returnSock b.clientid (some b.sock)).1, s.borrowers.eraseIdx i⟩ := by
  have hholds := hlent.used b (List.mem_of_getElem? hi)
  have hset := setStatus_returnSock hholds
  rw [allBorrowed_iff_listOf] at h
  intro clientid sockList hfind e he hused
  rcases (mem_setStatus hset).2 (mem_listOf.mpr ⟨sockList, hfind, he⟩) with hold | ⟨-, rfl⟩
  · obtain ⟨x, hx, hb⟩ := h clientid e hold hused
    refine ⟨x, hx, ?_⟩
    have hne : (⟨clientid, x⟩ : Borrower) ≠ b := by
      rintro rfl
      have hstill : (s.sockManager.returnSock clientid (some x)).1.Holds clientid x .used :=
        ⟨sockList, hfind, by rwa [← hx, ← hused]⟩
      rw [hset.holds_iff hlent.exclusive, if_pos rfl] at hstill
      cases hstill.2
    obtain ⟨l₁, l₂, hl, herase⟩ := exists_eraseIdx_eq_append hi
    rw [hl] at hb
    rw [herase]
    rcases List.mem_append.mp hb with hb | hb
    · exact List.mem_append_left _ hb
    · exact List.mem_append_right _ ((List.mem_cons.mp hb).resolve_left hne)
  · cases hused

/-- **A step in which no attempt fails** leaves a borrower for every used entry. -/
theorem step_allBorrowed (hlent : s.Lent) (h : s.AllBorrowed) (hfilled : Filled s.sockManager) (ha : s.Connects a)
    (hstep : step s a = some s') : s'.AllBorrowed ∧ Filled s'.sockManager := by
  cases a with
  | connect clientid conn =>
    rw [step] at hstep
    split_ifs at hstep
    obtain rfl := Option.some.inj hstep
    refine ⟨allBorrowed_iff_listOf.mpr fun clientid' e he hused => ?_, hfilled.connectClient clientid conn⟩
    rcases mem_connectClient he with he | ⟨sock, rfl⟩
    · exact allBorrowed_iff_listOf.mp h clientid' e he hused
    · cases hused
  | lend clientid conn =>
    rw [step] at hstep
    split_ifs at hstep
    split at hstep
    · exact Option.some.inj hstep ▸ ⟨h, hfilled⟩
    · next m hget =>
      have hlend := h.lend hfilled hlent.listed ha hget
      rw [Option.map_none, Option.toList_none, List.append_nil] at hlend
      exact Option.some.inj hstep ▸ hlend
    · next sock m hget => exact Option.some.inj hstep ▸ h.lend hfilled hlent.listed ha hget
  | giveBack i =>
    rw [step] at hstep
    split at hstep
    · cases hstep
    · next b hi =>
      obtain rfl := Option.some.inj hstep
      exact ⟨h.giveBack hlent hi, hfilled.setStatus (setStatus_returnSock (hlent.used b (List.mem_of_getElem? hi)))⟩

/-- **The entry of a failed attempt** stays. -/
theorem leaks_step (h : Leaks s.sockManager) (hstep : step s a = some s') : Leaks s'.sockManager := by
  have hlend : ∀ {clientid conn sock m}, s.sockManager.getIdleClientSock clientid conn = .ok (sock, m) → Leaks m := by
    intro clientid conn sock m hget
    rcases LocalSockManager.getIdleClientSock_cases hget with ⟨-, rfl⟩ | ⟨hset, -⟩ | ⟨-, sockList, hfind, rfl⟩
    · exact h
    · exact h.setStatus hset fun _ => rfl
    · exact listOf_eq hfind ▸ h.insert
  cases a with
  | connect clientid conn =>
    rw [step] at hstep
    split_ifs at hstep
    obtain rfl := Option.some.inj hstep
    rcases s.sockManager.connectClient_cases clientid conn with heq | ⟨sock, -, heq⟩
    · rwa [heq]
    · rw [heq]
      exact h.insert
  | lend clientid conn =>
    rw [step] at hstep
    split_ifs at hstep
    split at hstep
    · exact Option.some.inj hstep ▸ h
    · next m hget => exact Option.some.inj hstep ▸ hlend hget
    · next sock m hget => exact Option.some.inj hstep ▸ hlend hget
  | giveBack i =>
    rw [step] at hstep
    split at hstep
    · cases hstep
    · next b hi =>
      obtain rfl := Option.some.inj hstep
      rcases s.sockManager.returnSock_cases b.clientid (some b.sock) with heq | hset
      · rwa [heq]
      · exact h.setStatus hset (by rintro ⟨⟩)

/-- **A failed attempt** leaves its entry. -/
theorem leaks_of_not_connects (hlent : s.Lent) (ha : ¬ s.Connects a) (hstep : step s a = some s') :
    Leaks s'.sockManager := by
  cases a with
  | connect clientid conn => exact absurd trivial ha
  | giveBack i => exact absurd trivial ha
  | lend clientid conn =>
    simp only [Connects, Classical.not_imp, not_not] at ha
    obtain ⟨hconnected, hle, hused, rfl⟩ := ha
    obtain ⟨sock, m, hget, hlen⟩ := (opens_iff hlent.listed).mpr ⟨hconnected, hle, hused, none, rfl⟩
    have hm : sock = none ∧ Leaks m := by
      rcases LocalSockManager.getIdleClientSock_cases hget with ⟨-, rfl⟩ | ⟨hset, -⟩ | ⟨hconn, sockList, hfind, rfl⟩
      · omega
      · rw [hset.length_listOf] at hlen
        omega
      · obtain rfl := Except.ok.inj hconn
        exact ⟨rfl, clientid, _, SortedMap.find?_insert_self .., List.mem_append_right _ (List.mem_singleton.mpr rfl)⟩
    obtain ⟨rfl, hleaks⟩ := hm
    rw [step, if_pos (by rintro _ ⟨⟩), hget] at hstep
    exact Option.some.inj hstep ▸ hleaks

/-! ### Runs -/

/-- Where every used entry has a borrower, whoever asks gets a socket once nobody has one. -/
theorem AllBorrowed.accounted (h : s.AllBorrowed) (hlisted : Listed s.sockManager) : s.Accounted := by
  have hidle : s.borrowers = [] → ∀ clientid sockList, s.sockManager.clientSockMap.find? clientid = some sockList →
      ∀ e ∈ sockList, e.2 = .idle := by
    intro hnone clientid sockList hfind e he
    cases hstatus : e.2 with
    | idle => rfl
    | used =>
      obtain ⟨sock, -, hb⟩ := h clientid sockList hfind e he hstatus
      rw [hnone] at hb
      cases hb
  refine ⟨h, hidle, fun hnone clientid hconnected conn => ?_⟩
  obtain ⟨sockList, hfind⟩ := Option.isSome_iff_exists.mp hconnected
  obtain ⟨first, hfirst⟩ := hlisted.first clientid sockList hfind
  cases sockList with
  | nil => cases hfirst
  | cons e rest =>
    obtain ⟨o, status⟩ := e
    obtain rfl : o = some first := Option.some.inj hfirst
    obtain rfl : status = .idle := hidle hnone clientid _ hfind _ List.mem_cons_self
    exact ⟨first, _, by simp only [LocalSockManager.getIdleClientSock, hfind, lendIdle]; rfl⟩

/-- **Every used slot has a borrower.** After a run each used entry is a socket that somebody has borrowed, and once
all have been given back every entry is idle and is lent to who asks for it, if and only if no attempt of
`get_idle_client_sock` to open a connection has failed. -/
theorem slots_accounted_iff {as : List Action} (h : exec step new as = some s) :
    Always step Connects new as ↔ s.Accounted := by
  have hstart : new.Lent ∧ new.AllBorrowed ∧ Filled new.sockManager :=
    ⟨lent_new, by rintro _ _ ⟨⟩, by rintro _ _ ⟨⟩⟩
  have hstep : ∀ {s a s'}, Lent s ∧ AllBorrowed s ∧ Filled s.sockManager → Connects s a → step s a = some s' →
      Lent s' ∧ AllBorrowed s' ∧ Filled s'.sockManager :=
    fun ⟨hlent, hall, hfilled⟩ ha hs => ⟨step_lent hlent hs, step_allBorrowed hlent hall hfilled ha hs⟩
  constructor
  · intro hconnects
    obtain ⟨hlent, hall, -⟩ := exec_invariant_of_always hstep hconnects h hstart
    exact hall.accounted hlent.listed
  · intro hacc
    refine (always_iff (Q := fun s => ¬ Leaks s.sockManager) hstep (fun hs => hs.2.1.not_leaks) ?_ ?_ h hstart).mpr
      hacc.borrowed.not_leaks
    · exact fun hs ha hstep => not_not.mpr (leaks_of_not_connects hs.1 ha hstep)
    · exact fun hleaks hstep => not_not.mpr (leaks_step (not_not.mp hleaks) hstep)

/-- A socket that is lent and given back. -/
theorem slots_accounted_iff_lendOnce :
    ∃ s, exec step new [.connect "p" (some 0), .lend "p" (.ok none), .giveBack 0] = some s ∧
      (Always step Connects new [.connect "p" (some 0), .lend "p" (.ok none), .giveBack 0] ↔ s.Accounted) := by
  have hrun : ∃ s, exec step new [.connect "p" (some 0), .lend "p" (.ok none), .giveBack 0] = some s := ⟨_, rfl⟩
  obtain ⟨s, hrun⟩ := hrun
  exact ⟨s, hrun, slots_accounted_iff hrun⟩

/-- The only socket is lent, and the attempt to open a second connection fails: its entry is used, for nobody, also
when the socket has been given back. -/
theorem failed_attempt : ¬ ∀ as s, exec step new as = some s → s.Accounted := by
  intro h
  have hrun : ∃ s, exec step new [.connect "p" (some 0), .lend "p" (.ok none), .lend "p" (.ok none), .giveBack 0] =
      some s ∧ s.borrowers = [] ∧ ∃ sockList, s.sockManager.clientSockMap.find? "p" = some sockList ∧
        (none, .used) ∈ sockList := ⟨_, rfl, rfl, _, rfl, by decide⟩
  obtain ⟨s, hrun, hnone, sockList, hfind, hmem⟩ := hrun
  cases (h _ s hrun).idle hnone "p" sockList hfind _ hmem

end SockLending

end CoolDown
