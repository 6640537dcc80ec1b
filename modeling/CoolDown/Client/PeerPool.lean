import CoolDown.Client.Job
import CoolDown.Client.PeerConnection
import CoolDown.Library.Slice
import Mathlib.Logic.Function.Basic

/-!
# Requests and replies on pooled connections

The connections to the peers are lent to whoever has something to ask a peer:
`CoolClient::shake_hand`, and the download tasks of the jobs. A borrower sends one
request, reads the reply, a task then reads the chunk, and the connection goes back to
the pool, as idle. A task that throws in the middle goes back the same way
(`Job::onFinished`: "stuff all task must do"), with its chunk half read.

## The model

A state is the pool of sockets, the connection behind each socket, the `downloadInfo` of
each job, and the borrowers; a step is a step of one borrower, of a peer, of the pool or
of somebody else. A download task takes the steps of `DownloadTask.runTask`, and
`taskConn` says what each of them does to its connection. What a notification does
besides returning the socket is the job's business (`Job`): here it succeeds or throws.

## What is proved

* `step_aligned`: while no exchange is given up, the state stays `Aligned`: an idle
  connection is quiet, and a borrower's connection is as far as the borrower.
* `run_aligned`: so the first frame a borrower reads is the reply to its own request.
* `stopped_task_misaligns`: otherwise it may be a piece of somebody else's chunk.
-/

namespace CoolDown

open Library

namespace PeerPool

/-- A place in `shake_hand`. -/
inductive HandPhase where
  /-- About to send the request. -/
  | send
  /-- Waiting for the reply. -/
  | receive
  /-- The guard is about to return the socket. -/
  | ended
  deriving DecidableEq

/-- What a connection is lent for. -/
inductive Work where
  /-- `shake_hand`. -/
  | hand (phase : HandPhase)
  /-- A task of a job. -/
  | task (job : ℕ) (t : DownloadTask)
  deriving DecidableEq

/-- Who has a connection; `id` is the number of its request, once that is sent. -/
structure Borrower where
  clientid : String
  sock : Sock
  id : ℕ
  work : Work
  deriving DecidableEq

/-- What a connection is borrowed for. -/
inductive Use where
  /-- `shake_hand`. -/
  | shakeHand
  /-- A download task. -/
  | download (job : ℕ) (info : Torrent.File) (chunkPos : ℕ) (file : String)
  /-- `run` throws, or cannot start the task, and keeps the socket. -/
  | dropped

/-- The borrower of a connection that is lent. -/
def Use.borrower (clientid : String) (sock : Sock) : Use → Option Borrower
  | shakeHand => some ⟨clientid, sock, 0, .hand .send⟩
  | download job info chunkPos file => some ⟨clientid, sock, 0, .task job (.new info clientid sock chunkPos file)⟩
  | dropped => none

/-- What becomes of a call on a connection. -/
inductive NetEvent where
  /-- It does what it should. -/
  | done
  /-- The request is sent in part. -/
  | part
  /-- It fails, and neither sends nor reads anything. -/
  | error
  /-- What it reads is not what it wants; it reads `n` items. -/
  | garbage (n : ℕ)
  deriving DecidableEq

/-- A step: whose it is, and what the outside decides about it. -/
inductive Action where
  /-- `connect_client`. -/
  | connect (clientid : String) (conn : Option Sock)
  /-- `get_idle_client_sock`. -/
  | lend (clientid : String) (conn : Except Exception (Option Sock)) (use : Use)
  /-- A `shake_hand` goes on. -/
  | hand (i : ℕ) (net : NetEvent)
  /-- A task goes on. -/
  | task (i : ℕ) (ev : DownloadTask.Event) (net : NetEvent)
  /-- `taskFailed` is delivered for a task; `onFailed` returns or throws. -/
  | onFailed (i : ℕ) (returns : Bool)
  /-- The guard of a `shake_hand`, or `taskFinished` for a task: the socket is returned,
  unless `onFinished` throws before it comes to that. -/
  | giveBack (i : ℕ) (returns : Bool)
  /-- Somebody changes the `downloadInfo` of a job. -/
  | env (job : ℕ) (ev : Job.EnvEvent)
  /-- The peer at the other end of a connection. -/
  | peer (sock : Sock) (ev : PeerConnection.PeerEvent)

end PeerPool

open PeerPool in
/-- The pool of sockets, the connections behind them, and who has borrowed one. -/
structure PeerPool where
  sockManager : LocalSockManager
  conns : Sock → PeerConnection
  /-- The number of the next request. -/
  nextId : ℕ
  /-- The `downloadInfo` of each job. -/
  jobs : List DownloadInfo
  borrowers : List Borrower
  disk : Disk

namespace PeerPool

/-- A client with these jobs that has no connection yet. -/
def new (jobs : List DownloadInfo) (disk : Disk) : PeerPool := ⟨.new, fun _ => {}, 0, jobs, [], disk⟩

/-- One step of `shake_hand`. -/
def handStep (c : PeerConnection) (nextId : ℕ) : HandPhase → NetEvent → Option (HandPhase × PeerConnection)
  | .send, .done => some (.receive, c.send nextId .shakeHand)
  | .send, .part => some (.ended, c.send nextId .part)
  | .send, .error => some (.ended, c)
  | .receive, .done => c.readFrame.map fun r => (.ended, r.2.2)
  | .receive, .error => some (.ended, c)
  | .receive, .garbage n => (c.garbage true n).map fun c => (.ended, c)
  | _, _ => none

/-- The places where a task sends or reads. -/
def usesSock : DownloadTask.Phase → Bool
  | .request | .reply | .receive _ _ => true
  | .loop _ | .readRemoved _ | .readPaused _ | .waitPause _ | .speed _ | .waitSpeed _ | .quota _ | .count _ _
  | .verify _ | .write _ | .threw | .ended | .finished | .died => false

/-- What a step of a task does to its connection. -/
def taskConn (c : PeerConnection) (nextId : ℕ) (t : DownloadTask) :
    DownloadTask.Phase → DownloadTask.Event → NetEvent → Option PeerConnection
  | .request, .ok, .done => some (c.send nextId (.upload t.fileid t.chunkPos))
  | .request, .fail, .part => some (c.send nextId .part)
  | .request, .fail, .error => some c
  -- `ok` when the frame read is an `UploadReply` with `ERROR_OK`
  | .reply, ev, .done =>
    match c.readFrame with
    | none => none
    | some (_, reply, c) => if (ev = .ok ∧ reply = .upload .errorOk) ∨ (ev = .fail ∧ reply ≠ .upload .errorOk) then some c else none
  | .reply, .fail, .error => some c
  | .reply, _, .garbage n => c.garbage true n
  | .receive _ _, .bytes [], .error => some c
  | .receive _ _, .bytes (b :: bs), .done => c.readBytes (b :: bs)
  | .receive _ _, .bytes (_ :: _), .garbage n => c.garbage false n
  | .receive _ _, .fail, .error => some c
  | .request, _, _ | .reply, _, _ | .receive _ _, _, _ => none
  | _, _, .done => some c
  | _, _, _ => none

/-- The socket of a new connection, if one is made. -/
def newSock : Except Exception (Option Sock) → Option Sock
  | .ok conn => conn
  | .error _ => none

/-- The connections, with a new one. -/
def opened (s : PeerPool) : Option Sock → Sock → PeerConnection
  | none => s.conns
  | some sock => Function.update s.conns sock {}

/-- Returning the socket of borrower `i`. -/
def returnSock (s : PeerPool) (i : ℕ) (b : Borrower) : PeerPool :=
  { s with
    sockManager := (s.sockManager.returnSock b.clientid (some b.sock)).1
    borrowers := s.borrowers.eraseIdx i }

variable (sha1 : Bytes → String) in
/-- One step: `none` where the action is not possible. -/
def step (s : PeerPool) : Action → Option PeerPool
  | .connect clientid conn =>
    if conn.any s.sockManager.hasSock then none
    else
      some
        { s with
          sockManager := (s.sockManager.connectClient clientid conn).2
          conns := s.opened conn }
  | .lend clientid conn use =>
    if (newSock conn).any s.sockManager.hasSock then none
    else
      match s.sockManager.getIdleClientSock clientid conn with
      | .error _ => some s
      | .ok (none, m) => some { s with sockManager := m }
      | .ok (some sock, m) =>
        some
          { s with
            sockManager := m
            conns := if s.sockManager.hasSock sock then s.conns else s.opened (some sock)
            borrowers := s.borrowers ++ (use.borrower clientid sock).toList }
  | .hand i net =>
    match s.borrowers[i]? with
    | some ⟨clientid, sock, id, .hand phase⟩ =>
      match handStep (s.conns sock) s.nextId phase net with
      | none => none
      | some (phase', c) =>
        some
          { s with
            conns := Function.update s.conns sock c
            nextId := s.nextId + 1
            borrowers := s.borrowers.set i
              ⟨clientid, sock, if phase = .send then s.nextId else id, .hand phase'⟩ }
    | _ => none
  | .task i ev net =>
    match s.borrowers[i]? with
    | some ⟨clientid, sock, id, .task job t⟩ =>
      match s.jobs[job]? with
      | none => none
      | some d =>
        match t.runTask sha1 d s.disk t.phase ev, taskConn (s.conns sock) s.nextId t t.phase ev net with
        | some (phase, d, disk), some c =>
          some
            { s with
              conns := Function.update s.conns sock c
              nextId := s.nextId + 1
              jobs := s.jobs.set job d
              borrowers := s.borrowers.set i
                ⟨clientid, sock, if t.phase = .request then s.nextId else id, .task job { t with phase := phase }⟩
              disk := disk }
        | _, _ => none
    | _ => none
  | .onFailed i returns =>
    match s.borrowers[i]? with
    | some ⟨clientid, sock, id, .task job t⟩ =>
      if t.phase = .threw then
        some
          { s with
            borrowers := s.borrowers.set i
              ⟨clientid, sock, id, .task job { t with phase := if returns then .ended else .died }⟩ }
      else none
    | _ => none
  | .giveBack i returns =>
    match s.borrowers[i]? with
    | some ⟨clientid, sock, id, .hand phase⟩ =>
      if phase = .ended then some (s.returnSock i ⟨clientid, sock, id, .hand phase⟩) else none
    | some ⟨clientid, sock, id, .task job t⟩ =>
      if t.phase = .ended then
        if returns then some (s.returnSock i ⟨clientid, sock, id, .task job t⟩)
        else some { s with borrowers := s.borrowers.set i ⟨clientid, sock, id, .task job { t with phase := .died }⟩ }
      else none
    | none => none
  | .env job ev =>
    match s.jobs[job]? with
    | none => none
    | some d => some { s with jobs := s.jobs.set job (Job.envDownloadInfo d ev) }
  | .peer sock ev =>
    match (s.conns sock).peerStep ev with
    | none => none
    | some c => some { s with conns := Function.update s.conns sock c }

/-! ### What a step can do -/

variable {sha1 : Bytes → String}

theorem step_hand {s s' : PeerPool} {i : ℕ} {net : NetEvent} (h : step sha1 s (.hand i net) = some s') :
    ∃ clientid sock id phase phase' c, s.borrowers[i]? = some ⟨clientid, sock, id, .hand phase⟩ ∧
      handStep (s.conns sock) s.nextId phase net = some (phase', c) ∧
      s' = { s with
        conns := Function.update s.conns sock c
        nextId := s.nextId + 1
        borrowers := s.borrowers.set i ⟨clientid, sock, if phase = .send then s.nextId else id, .hand phase'⟩ } := by
  rw [step] at h
  split at h
  · rename_i clientid sock id phase hi
    split at h
    · cases h
    · rename_i phase' c hstep
      exact ⟨clientid, sock, id, phase, phase', c, hi, hstep, (Option.some.inj h).symm⟩
  · cases h

theorem step_task {s s' : PeerPool} {i : ℕ} {ev : DownloadTask.Event} {net : NetEvent}
    (h : step sha1 s (.task i ev net) = some s') :
    ∃ clientid sock id job t d phase d' disk c, s.borrowers[i]? = some ⟨clientid, sock, id, .task job t⟩ ∧
      s.jobs[job]? = some d ∧ t.runTask sha1 d s.disk t.phase ev = some (phase, d', disk) ∧
      taskConn (s.conns sock) s.nextId t t.phase ev net = some c ∧
      s' = { s with
        conns := Function.update s.conns sock c
        nextId := s.nextId + 1
        jobs := s.jobs.set job d'
        borrowers := s.borrowers.set i
          ⟨clientid, sock, if t.phase = .request then s.nextId else id, .task job { t with phase := phase }⟩
        disk := disk } := by
  rw [step] at h
  split at h
  · rename_i clientid sock id job t hi
    split at h
    · cases h
    · rename_i d hd
      split at h
      · rename_i phase d' disk c hrun hconn
        exact ⟨clientid, sock, id, job, t, d, phase, d', disk, c, hi, hd, hrun, hconn, (Option.some.inj h).symm⟩
      · cases h
  · cases h

/-- A connection that is lent. -/
theorem step_lend {s s' : PeerPool} {clientid : String} {conn : Except Exception (Option Sock)} {use : Use}
    (h : step sha1 s (.lend clientid conn use) = some s') :
    (∀ x, conn = .ok (some x) → ¬ s.sockManager.hasSock x) ∧
      (s' = s ∨
        (∃ m, s.sockManager.getIdleClientSock clientid conn = .ok (none, m) ∧ s' = { s with sockManager := m }) ∨
        ∃ sock m, s.sockManager.getIdleClientSock clientid conn = .ok (some sock, m) ∧
          s' = { s with
            sockManager := m
            conns := if s.sockManager.hasSock sock then s.conns else s.opened (some sock)
            borrowers := s.borrowers ++ (use.borrower clientid sock).toList }) := by
  rw [step] at h
  split at h
  · cases h
  · rename_i hnew
    refine ⟨?_, ?_⟩
    · rintro x rfl hhas
      exact hnew (by simpa [newSock] using hhas)
    · split at h
      · exact .inl (Option.some.inj h).symm
      · rename_i m hget
        exact .inr (.inl ⟨m, hget, (Option.some.inj h).symm⟩)
      · rename_i sock m hget
        exact .inr (.inr ⟨sock, m, hget, (Option.some.inj h).symm⟩)

theorem step_onFailed {s s' : PeerPool} {i : ℕ} {returns : Bool} (h : step sha1 s (.onFailed i returns) = some s') :
    ∃ clientid sock id job t, s.borrowers[i]? = some ⟨clientid, sock, id, .task job t⟩ ∧ t.phase = .threw ∧
      s' = { s with
        borrowers := s.borrowers.set i
          ⟨clientid, sock, id, .task job { t with phase := if returns then .ended else .died }⟩ } := by
  rw [step] at h
  split at h
  · rename_i clientid sock id job t hi
    by_cases hphase : t.phase = .threw
    · rw [if_pos hphase] at h
      exact ⟨clientid, sock, id, job, t, hi, hphase, (Option.some.inj h).symm⟩
    · rw [if_neg hphase] at h
      cases h
  · cases h

/-- A socket is returned, or the task that has it dies. -/
theorem step_giveBack {s s' : PeerPool} {i : ℕ} {returns : Bool} (h : step sha1 s (.giveBack i returns) = some s') :
    ∃ b, s.borrowers[i]? = some b ∧
      (((b.work = .hand .ended ∨ ∃ job t, b.work = .task job t ∧ t.phase = .ended) ∧ s' = s.returnSock i b) ∨
        ∃ job t, b.work = .task job t ∧ t.phase = .ended ∧
          s' = { s with borrowers := s.borrowers.set i { b with work := .task job { t with phase := .died } } }) := by
  rw [step] at h
  split at h
  · rename_i clientid sock id phase hi
    split_ifs at h with hphase
    subst hphase
    exact ⟨_, hi, .inl ⟨.inl rfl, (Option.some.inj h).symm⟩⟩
  · rename_i clientid sock id job t hi
    split_ifs at h with hphase hret
    · exact ⟨_, hi, .inl ⟨.inr ⟨job, t, rfl, hphase⟩, (Option.some.inj h).symm⟩⟩
    · exact ⟨_, hi, .inr ⟨job, t, rfl, hphase, (Option.some.inj h).symm⟩⟩
  · cases h

/-! ### Alignment -/

/-- A task's connection is as far as the task. -/
def TaskAligned (c : PeerConnection) (id : ℕ) (t : DownloadTask) : DownloadTask.Phase → Prop
  | .reply => c.Waits id (.upload t.fileid t.chunkPos) t.chunkSize.toNat
  | .loop buf | .readRemoved buf | .readPaused buf | .waitPause buf | .speed buf | .waitSpeed buf | .quota buf
  | .receive buf _ | .count buf _ => c.Owes id (t.chunkSize - buf.length)
  | .request | .verify _ | .write _ | .threw | .ended | .finished | .died => c.Quiet

/-- A borrower's connection is as far as the borrower. -/
def Borrower.Aligned (c : PeerConnection) (b : Borrower) : Prop :=
  match b.work with
  | .hand .receive => c.Waits b.id .shakeHand 0
  | .hand .send | .hand .ended => c.Quiet
  | .task _ t => TaskAligned c b.id t t.phase

/-- What holds while no exchange is given up. -/
structure Aligned (s : PeerPool) : Prop where
  exclusive : s.sockManager.Exclusive
  /-- An idle connection is quiet. -/
  idle : ∀ clientid sock, s.sockManager.Holds clientid sock .idle → (s.conns sock).Quiet
  used : ∀ b ∈ s.borrowers, s.sockManager.Holds b.clientid b.sock .used
  distinct : (s.borrowers.map Borrower.sock).Nodup
  aligned : ∀ b ∈ s.borrowers, b.Aligned (s.conns b.sock)

theorem aligned_new (jobs : List DownloadInfo) (disk : Disk) : (new jobs disk).Aligned := by
  refine ⟨LocalSockManager.exclusive_new, ?_, ?_, List.nodup_nil, ?_⟩
  · rintro clientid sock ⟨sockList, hfind, -⟩
    cases hfind
  · rintro b ⟨⟩
  · rintro b ⟨⟩

/-- The step does not give up an exchange: no borrower leaves between sending a part of its
request and having read the reply, no task leaves between an accepting reply and the end of
the chunk, and no peer sends more than the chunk asked for. -/
def keepsExchange (s : PeerPool) : Action → Bool
  | .hand i net =>
    match s.borrowers[i]? with
    | some ⟨_, _, _, .hand .send⟩ => decide (net ≠ .part)
    | some ⟨_, _, _, .hand .receive⟩ => decide (net ≠ .error)
    | _ => true
  | .task i _ net =>
    match s.borrowers[i]? with
    | some ⟨_, _, _, .task job t⟩ =>
      match t.phase with
      | .request => decide (net ≠ .part)
      | .reply | .receive _ _ => decide (net ≠ .error)
      | .loop buf => decide (t.chunkSize ≤ buf.length) || !(s.jobs[job]?).any DownloadInfo.isStopped
      | .readRemoved _ => !(s.jobs[job]?).any DownloadInfo.isJobRemoved
      | _ => true
    | _ => true
  | .peer sock (.answer (some content)) =>
    s.borrowers.all fun b =>
      match b.work with
      | .task _ t => decide (b.sock ≠ sock) || decide (content.length ≤ t.chunkSize.toNat)
      | .hand _ => true
  | _ => true

/-! ### The steps keep it -/

/-- The other borrowers have other sockets. -/
theorem sock_ne_of_nodup {l₁ l₂ : List Borrower} {b : Borrower} (h : ((l₁ ++ b :: l₂).map Borrower.sock).Nodup) :
    ∀ b' ∈ l₁ ++ l₂, b'.sock ≠ b.sock := by
  have hperm : (l₁ ++ b :: l₂).Perm (b :: (l₁ ++ l₂)) := List.perm_middle
  have hnodup := (hperm.map Borrower.sock).nodup_iff.mp h
  intro b' hb' he
  exact (List.nodup_cons.mp hnodup).1 (List.mem_map.mpr ⟨b', hb', he⟩)

/-- A step of one borrower keeps it, if it keeps it for that borrower. -/
theorem Aligned.setBorrower {s : PeerPool} (hs : s.Aligned) {i : ℕ} {b b' : Borrower} {c : PeerConnection}
    (hi : s.borrowers[i]? = some b) (hclientid : b'.clientid = b.clientid) (hsock : b'.sock = b.sock)
    (hb' : b'.Aligned c) (nextId : ℕ) (jobs : List DownloadInfo) (disk : Disk) :
    Aligned { s with
      conns := Function.update s.conns b.sock c
      nextId := nextId
      jobs := jobs
      borrowers := s.borrowers.set i b'
      disk := disk } := by
  obtain ⟨hexclusive, hidle, hused, hdistinct, haligned⟩ := hs
  have hmem : b ∈ s.borrowers := List.mem_of_getElem? hi
  obtain ⟨l₁, l₂, hl, hset⟩ := exists_set_eq_append hi
  have hne : ∀ b'' ∈ l₁ ++ l₂, b''.sock ≠ b.sock := sock_ne_of_nodup (hl ▸ hdistinct)
  have hcases : ∀ b'' ∈ s.borrowers.set i b', b'' = b' ∨ b'' ∈ l₁ ++ l₂ := by
    intro b'' hb''
    rw [hset] at hb''
    simp only [List.mem_append, List.mem_cons] at hb'' ⊢
    tauto
  have hothers : ∀ b'' ∈ l₁ ++ l₂, b'' ∈ s.borrowers := by
    intro b'' hb''
    rw [hl]
    simp only [List.mem_append, List.mem_cons] at hb'' ⊢
    tauto
  refine ⟨hexclusive, ?_, ?_, ?_, ?_⟩
  · intro clientid sock hholds
    have hsock : sock ≠ b.sock := by
      rintro rfl
      have := (hexclusive.holds_inj hholds (hused b hmem)).2
      cases this
    show (Function.update s.conns b.sock c sock).Quiet
    rw [Function.update_of_ne hsock]
    exact hidle clientid sock hholds
  · intro b'' hb''
    rcases hcases b'' hb'' with rfl | hb''
    · rw [hclientid, hsock]
      exact hused b hmem
    · exact hused b'' (hothers b'' hb'')
  · have hmap : (s.borrowers.set i b').map Borrower.sock = s.borrowers.map Borrower.sock := by
      rw [hset, hl]
      simp [hsock]
    exact hmap ▸ hdistinct
  · intro b'' hb''
    show b''.Aligned (Function.update s.conns b.sock c b''.sock)
    rcases hcases b'' hb'' with rfl | hb''
    · rw [hsock, Function.update_self]
      exact hb'
    · rw [Function.update_of_ne (hne b'' hb'')]
      exact haligned b'' (hothers b'' hb'')

/-- A step of `shake_hand`. -/
theorem handStep_aligned {c c' : PeerConnection} {nextId id : ℕ} {phase phase' : HandPhase} {net : NetEvent}
    {clientid : String} {sock : Sock} (hb : Borrower.Aligned c ⟨clientid, sock, id, .hand phase⟩)
    (hsend : phase = .send → net ≠ .part) (hreceive : phase = .receive → net ≠ .error)
    (h : handStep c nextId phase net = some (phase', c')) :
    Borrower.Aligned c' ⟨clientid, sock, if phase = .send then nextId else id, .hand phase'⟩ := by
  cases phase with
  | send =>
    have hquiet : c.Quiet := hb
    cases net with
    | done =>
      cases h
      exact hquiet.send nextId .shakeHand 0
    | part => exact absurd rfl (hsend rfl)
    | error =>
      cases h
      exact hquiet
    | garbage n => cases h
  | receive =>
    have hwaits : c.Waits id .shakeHand 0 := hb
    cases net with
    | done =>
      obtain ⟨⟨id', reply, c''⟩, hread, he⟩ := Option.map_eq_some_iff.mp h
      cases he
      obtain ⟨-, howes⟩ := PeerConnection.owes_of_readFrame hwaits hread
      exact howes.quiet (by split_ifs <;> rfl)
    | part => cases h
    | error => exact absurd rfl (hreceive rfl)
    | garbage n =>
      rw [handStep, hwaits.garbage_eq_none] at h
      cases h
  | ended => cases net <;> cases h

/-- Elsewhere a task leaves its connection alone. -/
theorem taskConn_of_not_usesSock {c c' : PeerConnection} {nextId : ℕ} {t : DownloadTask} {ph : DownloadTask.Phase}
    {ev : DownloadTask.Event} {net : NetEvent} (hph : usesSock ph = false)
    (h : taskConn c nextId t ph ev net = some c') : c' = c := by
  cases ph with
  | request | reply | receive => cases hph
  | loop | readRemoved | readPaused | waitPause | speed | waitSpeed | quota | count | verify | write | threw | ended
  | finished | died =>
    cases net with
    | done => exact (Option.some.inj h).symm
    | part | error | garbage => cases h

/-- A step of a task. -/
theorem taskStep_aligned {c c' : PeerConnection} {nextId id : ℕ} {t : DownloadTask} {d d' : DownloadInfo}
    {disk disk' : Disk} {ph phase' : DownloadTask.Phase} {ev : DownloadTask.Event} {net : NetEvent}
    (hb : TaskAligned c id t ph) (hrequest : ph = .request → net ≠ .part)
    (hreply : ph = .reply → net ≠ .error) (hreceive : ∀ buf expect, ph = .receive buf expect → net ≠ .error)
    (hstopped : ∀ buf : Bytes, ph = .loop buf → t.chunkSize ≤ buf.length ∨ d.isStopped = false)
    (hremoved : ∀ buf : Bytes, ph = .readRemoved buf → d.isJobRemoved = false)
    (hrun : t.runTask sha1 d disk ph ev = some (phase', d', disk'))
    (hconn : taskConn c nextId t ph ev net = some c') :
    TaskAligned c' (if ph = .request then nextId else id) t phase' := by
  -- the steps that neither send nor read
  have hsame : ∀ {q : DownloadTask.Phase} {e : DownloadInfo} {k : Disk}, some (q, e, k) = some (phase', d', disk') →
      usesSock ph = false → TaskAligned c id t q → TaskAligned c' (if ph = .request then nextId else id) t phase' := by
    rintro q e k ⟨⟩ hph hq
    rw [taskConn_of_not_usesSock hph hconn, if_neg (by rintro rfl; cases hph)]
    exact hq
  cases ph with
  | request =>
    have hquiet : c.Quiet := hb
    rw [if_pos rfl]
    cases ev with
    | ok =>
      cases hrun
      cases net with
      | done =>
        cases hconn
        exact hquiet.send nextId _ _
      | part | error | garbage => cases hconn
    | fail =>
      cases hrun
      cases net with
      | error =>
        cases hconn
        exact hquiet
      | part => exact absurd rfl (hrequest rfl)
      | done | garbage => cases hconn
    | bytes bs => cases hrun
  | reply =>
    have hwaits : c.Waits id (.upload t.fileid t.chunkPos) t.chunkSize.toNat := hb
    rw [if_neg (by simp)]
    cases net with
    | done =>
      rw [taskConn] at hconn
      split at hconn
      · cases hconn
      · rename_i id' reply c'' hread
        obtain ⟨-, howes⟩ := PeerConnection.owes_of_readFrame hwaits hread
        split_ifs at hconn with hreply
        cases hconn
        rcases hreply with ⟨rfl, rfl⟩ | ⟨rfl, hne⟩
        · rw [if_pos rfl] at howes
          cases hrun
          split_ifs with hneg
          · exact howes.quiet (by omega)
          · rw [Int.toNat_of_nonneg (not_lt.mp hneg)] at howes
            simpa [TaskAligned] using howes
        · rw [if_neg hne] at howes
          cases hrun
          exact howes.quiet le_rfl
    | error => exact absurd rfl (hreply rfl)
    | part => cases ev <;> cases hconn
    | garbage n =>
      have hnone : c.garbage true n = some c' := by cases ev <;> exact hconn
      rw [hwaits.garbage_eq_none] at hnone
      cases hnone
  | loop buf =>
    cases ev with
    | ok =>
      have howes : c.Owes id (t.chunkSize - buf.length) := hb
      refine hsame hrun rfl ?_
      split_ifs with hsize hset
      · exact howes.quiet (by omega)
      · rcases hstopped buf rfl with hle | hclear
        · exact absurd hle hsize
        · rw [hclear] at hset
          cases hset
      · exact howes
    | fail | bytes => cases hrun
  | readRemoved buf =>
    cases ev with
    | ok =>
      refine hsame hrun rfl ?_
      split_ifs with hset
      · rw [hremoved buf rfl] at hset
        cases hset
      · exact hb
    | fail | bytes => cases hrun
  | readPaused buf => cases ev <;> first | exact hsame hrun rfl (by split_ifs <;> exact hb) | cases hrun
  | waitPause buf => cases ev <;> first | exact hsame hrun rfl hb | cases hrun
  | speed buf => cases ev <;> first | exact hsame hrun rfl (by split_ifs <;> exact hb) | cases hrun
  | waitSpeed buf => cases ev <;> first | exact hsame hrun rfl hb | cases hrun
  | quota buf => cases ev <;> first | exact hsame hrun rfl (by split_ifs <;> exact hb) | cases hrun
  | receive buf expect =>
    have howes : c.Owes id (t.chunkSize - buf.length) := hb
    rw [if_neg (by simp)]
    cases ev with
    | ok => cases hrun
    | fail =>
      cases net with
      | error => exact absurd rfl (hreceive buf expect rfl)
      | done | part | garbage => cases hconn
    | bytes bs =>
      cases bs with
      | nil =>
        cases net with
        | error => exact absurd rfl (hreceive buf expect rfl)
        | done | part | garbage => cases hconn
      | cons b bs =>
        cases net with
        | done =>
          have howes' := PeerConnection.owes_of_readBytes howes hconn
          rw [DownloadTask.runTask] at hrun
          split_ifs at hrun with hlen hnil
          · cases hnil
          · cases hrun
            show c'.Owes id (t.chunkSize - (buf ++ b :: bs).length)
            rw [List.length_append, Nat.cast_add, ← sub_sub]
            exact howes'
        | garbage n =>
          rw [taskConn, howes.garbage_eq_none] at hconn
          cases hconn
        | part | error => cases hconn
  | count buf n => cases ev <;> first | exact hsame hrun rfl hb | cases hrun
  | verify content => cases ev <;> first | exact hsame hrun rfl (by split_ifs <;> exact hb) | cases hrun
  | write content =>
    cases ev with
    | ok =>
      rw [DownloadTask.runTask] at hrun
      split at hrun
      · exact hsame hrun rfl hb
      · exact hsame hrun rfl hb
      · split_ifs at hrun
        exact hsame hrun rfl hb
    | fail => exact hsame hrun rfl hb
    | bytes bs => cases hrun
  | threw | ended | finished | died => cases ev <;> cases hrun

/-- A step of the peer. -/
theorem Borrower.Aligned.peerStep {c c' : PeerConnection} {b : Borrower} {ev : PeerConnection.PeerEvent}
    (hb : b.Aligned c) (hsize : ∀ content, ev = .answer (some content) → ∀ job t, b.work = .task job t →
      content.length ≤ t.chunkSize.toNat)
    (h : c.peerStep ev = some c') : b.Aligned c' := by
  have hquiet : c.Quiet → b.Aligned c' := by
    intro hq
    rw [hq.peerStep] at h
    cases h
  obtain ⟨clientid, sock, id, work⟩ := b
  cases work with
  | hand phase =>
    cases phase with
    | send => exact hquiet hb
    | ended => exact hquiet hb
    | receive => exact PeerConnection.peerStep_waits hb (fun _ _ hne => absurd rfl hne) h
  | task job t =>
    have hb : TaskAligned c id t t.phase := hb
    show TaskAligned c' id t t.phase
    cases hph : t.phase with
    | reply =>
      rw [hph] at hb
      exact PeerConnection.peerStep_waits hb (fun content hev _ => Int.ofNat_le.mpr (hsize content hev job t rfl)) h
    | loop | readRemoved | readPaused | waitPause | speed | waitSpeed | quota | receive | count =>
      rw [hph] at hb
      exact PeerConnection.peerStep_owes hb h
    | request | verify | write | threw | ended | finished | died =>
      rw [hph] at hb
      have hq : c.Quiet := hb
      rw [hq.peerStep] at h
      cases h

/-- A borrower that is over has left its connection quiet. -/
theorem Borrower.Aligned.quiet {c : PeerConnection} {b : Borrower} (hb : b.Aligned c)
    (hover : b.work = .hand .ended ∨ ∃ job t, b.work = .task job t ∧ t.phase = .ended) : c.Quiet := by
  obtain ⟨clientid, sock, id, work⟩ := b
  rcases hover with rfl | ⟨job, t, rfl, hphase⟩
  · exact hb
  · have hb : TaskAligned c id t t.phase := hb
    rwa [hphase] at hb

/-- A socket is returned. -/
theorem Aligned.returnSock {s : PeerPool} (hs : s.Aligned) {i : ℕ} {b : Borrower} (hi : s.borrowers[i]? = some b)
    (hquiet : (s.conns b.sock).Quiet) : (s.returnSock i b).Aligned := by
  obtain ⟨hexclusive, hidle, hused, hdistinct, haligned⟩ := hs
  obtain ⟨hexclusive', hholds⟩ := LocalSockManager.holds_returnSock hexclusive b.clientid b.sock
  obtain ⟨l₁, l₂, hl, herase⟩ := exists_eraseIdx_eq_append hi
  have hne : ∀ b' ∈ l₁ ++ l₂, b'.sock ≠ b.sock := sock_ne_of_nodup (hl ▸ hdistinct)
  have hmem : ∀ b' ∈ s.borrowers.eraseIdx i, b' ∈ s.borrowers := fun b' hb' => List.mem_of_mem_eraseIdx hb'
  refine ⟨hexclusive', ?_, ?_, ?_, ?_⟩
  · intro clientid sock hidle'
    by_cases hsock : sock = b.sock
    · rw [hsock]
      exact hquiet
    · exact hidle clientid sock ((hholds clientid sock .idle hsock).mp hidle')
  · intro b' hb'
    refine (hholds b'.clientid b'.sock .used ?_).mpr (hused b' (hmem b' hb'))
    rw [PeerPool.returnSock, herase] at hb'
    exact hne b' hb'
  · exact hdistinct.sublist ((List.eraseIdx_sublist s.borrowers i).map Borrower.sock)
  · exact fun b' hb' => haligned b' (hmem b' hb')

/-- A borrower starts with a quiet connection. -/
theorem Use.borrower_eq_some {use : Use} {clientid : String} {sock : Sock} {b : Borrower}
    (h : use.borrower clientid sock = some b) :
    b.clientid = clientid ∧ b.sock = sock ∧ ∀ c : PeerConnection, c.Quiet → b.Aligned c := by
  cases use with
  | shakeHand =>
    cases h
    exact ⟨rfl, rfl, fun _ hc => hc⟩
  | download job info chunkPos file =>
    cases h
    exact ⟨rfl, rfl, fun _ hc => hc⟩
  | dropped => cases h

/-- A connection is lent. -/
theorem Aligned.lend {s : PeerPool} (hs : s.Aligned) {clientid : String} {conn : Except Exception (Option Sock)}
    {sock : Sock} {m : LocalSockManager} (use : Use) (hnew : ∀ x, conn = .ok (some x) → ¬ s.sockManager.hasSock x)
    (hget : s.sockManager.getIdleClientSock clientid conn = .ok (some sock, m)) :
    Aligned { s with
      sockManager := m
      conns := if s.sockManager.hasSock sock then s.conns else s.opened (some sock)
      borrowers := s.borrowers ++ (use.borrower clientid sock).toList } := by
  obtain ⟨hexclusive, hidle, hused, hdistinct, haligned⟩ := hs
  obtain ⟨hexclusive', hwas, hholds⟩ := LocalSockManager.holds_getIdleClientSock hexclusive hnew hget
  have hlent : ∀ b ∈ s.borrowers, b.sock ≠ sock := by
    rintro b hb rfl
    rcases hwas b.sock rfl with hidle' | hno
    · have := (hexclusive.holds_inj hidle' (hused b hb)).2
      cases this
    · exact hno (LocalSockManager.hasSock_iff.mpr ⟨_, _, hused b hb⟩)
  have hquiet : ((if s.sockManager.hasSock sock then s.conns else s.opened (some sock)) sock).Quiet := by
    split_ifs with hhas
    · exact hidle clientid sock ((hwas sock rfl).resolve_right (not_not_intro hhas))
    · rw [opened, Function.update_self]
      exact ⟨rfl, rfl, rfl⟩
  have hother : ∀ x, x ≠ sock → (if s.sockManager.hasSock sock then s.conns else s.opened (some sock)) x = s.conns x := by
    intro x hx
    split_ifs
    · rfl
    · rw [opened, Function.update_of_ne hx]
  have hcases : ∀ b ∈ s.borrowers ++ (use.borrower clientid sock).toList, b ∈ s.borrowers ∨
      use.borrower clientid sock = some b := by
    intro b hb
    exact (List.mem_append.mp hb).imp_right Option.mem_toList.mp
  refine ⟨hexclusive', ?_, ?_, ?_, ?_⟩
  · intro clientid' x hidle'
    rw [hholds] at hidle'
    split_ifs at hidle' with hx
    · cases hidle'.2
    · refine Eq.subst (motive := PeerConnection.Quiet) (hother x fun he => hx (he ▸ rfl)).symm ?_
      exact hidle clientid' x hidle'
  · intro b hb
    rw [hholds]
    rcases hcases b hb with hb | hb
    · rw [if_neg fun he => hlent b hb (Option.some.inj he).symm]
      exact hused b hb
    · obtain ⟨hclientid, hsock, -⟩ := use.borrower_eq_some hb
      rw [if_pos (by rw [hsock])]
      exact ⟨hclientid.symm, rfl⟩
  · rw [List.map_append]
    refine List.nodup_append.mpr ⟨hdistinct, ?_, ?_⟩
    · cases use.borrower clientid sock <;> simp
    · rintro x hx y hy rfl
      obtain ⟨b, hb, rfl⟩ := List.mem_map.mp hx
      obtain ⟨b', hb', he⟩ := List.mem_map.mp hy
      obtain ⟨-, hsock, -⟩ := use.borrower_eq_some (Option.mem_toList.mp hb')
      exact hlent b hb (he.symm.trans hsock)
  · intro b hb
    rcases hcases b hb with hb | hb
    · show b.Aligned ((if s.sockManager.hasSock sock then s.conns else s.opened (some sock)) b.sock)
      rw [hother b.sock (hlent b hb)]
      exact haligned b hb
    · obtain ⟨-, hsock, hstart⟩ := use.borrower_eq_some hb
      refine hstart _ ?_
      rw [hsock]
      exact hquiet

/-- A new connection. -/
theorem Aligned.connect {s : PeerPool} (hs : s.Aligned) (clientid : String) {conn : Option Sock}
    (hnew : ∀ x, conn = some x → ¬ s.sockManager.hasSock x) :
    Aligned { s with
      sockManager := (s.sockManager.connectClient clientid conn).2
      conns := s.opened conn } := by
  obtain ⟨hexclusive, hidle, hused, hdistinct, haligned⟩ := hs
  obtain ⟨hexclusive', hholds⟩ := @LocalSockManager.connectClient_spec _ hexclusive clientid conn hnew
  have hother : ∀ x, conn ≠ some x → s.opened conn x = s.conns x := by
    intro x hx
    cases conn with
    | none => rfl
    | some sock =>
      rw [opened, Function.update_of_ne]
      rintro rfl
      exact hx rfl
  have hold : ∀ clientid' x st, s.sockManager.Holds clientid' x st → s.opened conn x = s.conns x := by
    intro clientid' x st h
    refine hother x fun hx => hnew x hx ?_
    exact LocalSockManager.hasSock_iff.mpr ⟨_, _, h⟩
  refine ⟨hexclusive', ?_, ?_, hdistinct, ?_⟩
  · intro clientid' x hidle'
    show (s.opened conn x).Quiet
    rcases hholds clientid' x .idle hidle' with h | ⟨rfl, -⟩
    · rw [hold clientid' x .idle h]
      exact hidle clientid' x h
    · rw [opened, Function.update_self]
      exact ⟨rfl, rfl, rfl⟩
  · exact fun b hb => LocalSockManager.holds_connectClient (hused b hb)
  · intro b hb
    show b.Aligned (s.opened conn b.sock)
    rw [hold b.clientid b.sock .used (hused b hb)]
    exact haligned b hb

/-- **Every step keeps it**, unless it gives up an exchange. -/
theorem step_aligned {s s' : PeerPool} {a : Action} (hs : s.Aligned) (ha : s.keepsExchange a)
    (h : step sha1 s a = some s') : s'.Aligned := by
  cases a with
  | connect clientid conn =>
    rw [step] at h
    split_ifs at h with hnew
    cases h
    refine hs.connect clientid ?_
    rintro x rfl hhas
    exact hnew (by simpa using hhas)
  | lend clientid conn use =>
    obtain ⟨hnew, rfl | ⟨m, hget, rfl⟩ | ⟨sock, m, hget, rfl⟩⟩ := step_lend h
    · exact hs
    · obtain ⟨hexclusive', -, hholds⟩ := LocalSockManager.holds_getIdleClientSock hs.exclusive hnew hget
      have hsame : ∀ clientid' x st, m.Holds clientid' x st ↔ s.sockManager.Holds clientid' x st := by
        intro clientid' x st
        rw [hholds, if_neg (by rintro ⟨⟩)]
      exact ⟨hexclusive', fun c x hidle => hs.idle c x ((hsame c x .idle).mp hidle),
        fun b hb => (hsame _ _ _).mpr (hs.used b hb), hs.distinct, hs.aligned⟩
    · exact hs.lend use hnew hget
  | hand i net =>
    obtain ⟨clientid, sock, id, phase, phase', c, hi, hstep, rfl⟩ := step_hand h
    have hb := hs.aligned _ (List.mem_of_getElem? hi)
    have hsend : phase = .send → net ≠ .part := by
      rintro rfl rfl
      simp [keepsExchange, hi] at ha
    have hreceive : phase = .receive → net ≠ .error := by
      rintro rfl rfl
      simp [keepsExchange, hi] at ha
    have hb' := handStep_aligned hb hsend hreceive hstep
    exact hs.setBorrower hi (by rfl) (by rfl) hb' _ _ _
  | task i ev net =>
    obtain ⟨clientid, sock, id, job, t, d, phase, d', disk, c, hi, hd, hrun, hconn, rfl⟩ := step_task h
    have hb := hs.aligned _ (List.mem_of_getElem? hi)
    simp only [keepsExchange, hi, hd] at ha
    have hrequest : t.phase = .request → net ≠ .part := by
      rintro hph rfl
      simp [hph] at ha
    have hreply : t.phase = .reply → net ≠ .error := by
      rintro hph rfl
      simp [hph] at ha
    have hreceive : ∀ buf expect, t.phase = .receive buf expect → net ≠ .error := by
      rintro buf expect hph rfl
      simp [hph] at ha
    have hstopped : ∀ buf : Bytes, t.phase = .loop buf → t.chunkSize ≤ buf.length ∨ d.isStopped = false := by
      intro buf hph
      simpa [hph] using ha
    have hremoved : ∀ buf : Bytes, t.phase = .readRemoved buf → d.isJobRemoved = false := by
      intro buf hph
      simpa [hph] using ha
    have hb' : Borrower.Aligned c ⟨clientid, sock, if t.phase = .request then s.nextId else id,
        .task job { t with phase := phase }⟩ := taskStep_aligned hb hrequest hreply hreceive hstopped hremoved hrun hconn
    exact hs.setBorrower hi (by rfl) (by rfl) hb' _ _ _
  | onFailed i returns =>
    obtain ⟨clientid, sock, id, job, t, hi, hphase, rfl⟩ := step_onFailed h
    have hb : TaskAligned (s.conns sock) id t t.phase := hs.aligned _ (List.mem_of_getElem? hi)
    rw [hphase] at hb
    have hset := @Aligned.setBorrower s hs i _ ⟨clientid, sock, id, .task job { t with phase := if returns then .ended else .died }⟩
      (s.conns sock) hi rfl rfl (by cases returns <;> exact hb) s.nextId s.jobs s.disk
    simpa using hset
  | giveBack i returns =>
    obtain ⟨b, hi, ⟨hover, rfl⟩ | ⟨job, t, hwork, hphase, rfl⟩⟩ := step_giveBack h
    · exact hs.returnSock hi ((hs.aligned b (List.mem_of_getElem? hi)).quiet hover)
    · have hquiet := (hs.aligned b (List.mem_of_getElem? hi)).quiet (.inr ⟨job, t, hwork, hphase⟩)
      have hset := @Aligned.setBorrower s hs i _ { b with work := .task job { t with phase := .died } }
        (s.conns b.sock) hi rfl rfl hquiet s.nextId s.jobs s.disk
      simpa using hset
  | env job ev =>
    rw [step] at h
    split at h
    · cases h
    · cases h
      exact ⟨hs.exclusive, hs.idle, hs.used, hs.distinct, hs.aligned⟩
  | peer sock ev =>
    rw [step] at h
    split at h
    · cases h
    · rename_i c hstep
      cases h
      refine ⟨hs.exclusive, ?_, hs.used, hs.distinct, ?_⟩
      · intro clientid x hidle
        show (Function.update s.conns sock c x).Quiet
        rw [Function.update_apply]
        split_ifs with hx
        · rw [← hx, (hs.idle clientid x hidle).peerStep] at hstep
          cases hstep
        · exact hs.idle clientid x hidle
      · intro b hb
        show b.Aligned (Function.update s.conns sock c b.sock)
        rw [Function.update_apply]
        split_ifs with hx
        · rw [← hx] at hstep
          refine (hs.aligned b hb).peerStep ?_ hstep
          rintro content rfl job t hwork
          have hall := List.all_eq_true.mp ha b hb
          simpa [hwork, hx] using hall
        · exact hs.aligned b hb

/-! ### Runs -/

/-- Waiting for the reply to a request. -/
def Borrower.Waiting (b : Borrower) : Prop :=
  b.work = .hand .receive ∨ ∃ job t, b.work = .task job t ∧ t.phase = .reply

/-- The first frame a borrower reads is the reply to its own request. -/
theorem Aligned.head_of_waiting {s : PeerPool} (hs : s.Aligned) {b : Borrower} (hb : b ∈ s.borrowers)
    (hwaiting : b.Waiting) {item : Item} {rest : List Item} (hclient : (s.conns b.sock).toClient = item :: rest) :
    ∃ reply, item = .frame b.id reply := by
  have haligned := hs.aligned b hb
  obtain ⟨clientid, sock, id, work⟩ := b
  rcases hwaiting with rfl | ⟨job, t, rfl, hphase⟩
  · exact PeerConnection.Waits.toClient_head haligned hclient
  · have haligned : TaskAligned (s.conns sock) id t t.phase := haligned
    rw [hphase] at haligned
    exact PeerConnection.Waits.toClient_head haligned hclient

/-- **Requests and replies stay aligned.** Take any run of a client and its peers in which
no step gives up an exchange. Then a connection that is idle is quiet: no request is
outstanding on it, and neither a reply nor a byte of a chunk is under way or unread. And
what comes first on the connection of a borrower that has sent its request is the reply
to that request. -/
theorem run_aligned {jobs : List DownloadInfo} {disk : Disk} {s : PeerPool} {as : List Action}
    (hcond : Always (step sha1) (fun s a => s.keepsExchange a) (new jobs disk) as)
    (hrun : exec (step sha1) (new jobs disk) as = some s) :
    (∀ clientid sock, s.sockManager.Holds clientid sock .idle → (s.conns sock).Quiet) ∧
    ∀ b ∈ s.borrowers, b.Waiting → ∀ item rest, (s.conns b.sock).toClient = item :: rest →
      ∃ reply, item = .frame b.id reply := by
  have hs : s.Aligned := exec_invariant_of_always step_aligned hcond hrun (aligned_new jobs disk)
  constructor
  · exact hs.idle
  · intro b hb hwaiting item rest hclient
    exact hs.head_of_waiting hb hwaiting hclient

/-! ### A task that is stopped -/

/-- A file of one chunk of two bytes. -/
def twoByteFile : Torrent.File :=
    { checkSum := "f", relativePath := "", filename := "a", size := 2, chunk := [⟨"sum", 2⟩] }

/-- A job that runs. -/
def runningJob : DownloadInfo := { DownloadInfo.new 0 0 with isStopped := false, isDownloadPaused := false }

/-- A task asks for the chunk, and the peer answers and sends it. -/
def askForChunk : List Action :=
  [.connect "p" (some 0), .lend "p" (.ok none) (.download 0 twoByteFile 0 "/d/a"), .task 0 .ok .done,
    .peer 0 (.answer (some [7, 8])), .task 0 .ok .done, .peer 0 (.upload 0 2)]

/-- The job is stopped before the chunk is read, and the connection is lent for a `shake_hand`. -/
def stoppedRun : List Action :=
  askForChunk ++ [.env 0 .stop, .task 0 .ok .done, .onFailed 0 true, .giveBack 0 true,
    .lend "p" (.ok none) .shakeHand, .hand 0 .done]

/-- Before that the idle connection has two bytes unread, and what the `shake_hand` then
reads first is a byte of the chunk. -/
theorem stopped_task_misaligns :
    (∃ s, exec (step fun _ => "other") (new [runningJob] ∅) (stoppedRun.take 10) = some s ∧
      s.sockManager.Holds "p" 0 .idle ∧ ¬ (s.conns 0).Quiet) ∧
    ∃ s b rest, exec (step fun _ => "other") (new [runningJob] ∅) stoppedRun = some s ∧ b ∈ s.borrowers ∧ b.Waiting ∧
      (s.conns b.sock).toClient = .byte 0 7 :: rest := by
  refine ⟨⟨_, rfl, ⟨_, rfl, List.mem_singleton.mpr rfl⟩, ?_⟩, ?_⟩
  · intro hquiet
    cases hquiet.toClient
  · exact ⟨_, _, _, rfl, List.mem_singleton.mpr rfl, .inl rfl, rfl⟩

/-- The task reads the chunk. -/
def completeRun : List Action :=
  askForChunk ++ [.task 0 .ok .done, .task 0 .ok .done, .task 0 .ok .done, .task 0 .ok .done, .task 0 .ok .done,
    .task 0 (.bytes [7, 8]) .done, .task 0 .ok .done, .task 0 .ok .done, .task 0 .ok .done, .onFailed 0 true, .giveBack 0 true]

/-- The connection is quiet when it is idle again. -/
theorem complete_task_aligned : ∃ s, exec (step fun _ => "other") (new [runningJob] ∅) completeRun = some s ∧
    s.sockManager.Holds "p" 0 .idle ∧ (s.conns 0).Quiet := by
  have hcond : Always (step fun _ => "other") (fun s a => s.keepsExchange a) (new [runningJob] ∅) completeRun := by decide
  have hidle : ∃ s, exec (step fun _ => "other") (new [runningJob] ∅) completeRun = some s ∧
      s.sockManager.Holds "p" 0 .idle := ⟨_, rfl, ⟨_, rfl, List.mem_singleton.mpr rfl⟩⟩
  obtain ⟨s, hrun, hidle⟩ := hidle
  exact ⟨s, hrun, hidle, (run_aligned hcond hrun).1 "p" 0 hidle⟩

end PeerPool

end CoolDown
