import CoolDown.Client.LocalSockManager
import CoolDown.Library.Run
import CoolDown.Library.Slice
import Mathlib.Logic.Function.Basic

/-!
# Talking to a tracker: `handle_reply_message`

Everything a client asks a tracker goes through `CoolClient::handle_reply_message`: it
sends a request on the tracker's socket, receives a frame from it, and takes that for the
reply. `get_tracker_sock` gives the one socket to whoever asks, and nothing keeps a second
call from sending and receiving on it meanwhile.

## The model

A state is the pool of sockets, the connection behind each, and the calls, of any number
of threads. Sending a frame and receiving one is a step each. The stream is reliable and
first in, first out, and the tracker (`TrackerConnectionHandler::onReadable`) answers the
requests of a connection one by one. Requests are numbered as they are sent, and a reply
carries the number of its request; the numbers are not on the wire.

## What is proved

* `receive_own_iff`: a call that receives gets the reply to its own request if and only if
  every call that has sent before it on that socket has received.
* `run_own_iff`: in a run every call that receives gets its own reply if and only if the
  calls receive in the order in which they have sent.
* `crossed_replies`: otherwise a call may get a reply of another kind, and returns `ERROR_OK`.
-/

namespace CoolDown

open Library

/-- The requests to a tracker, by payload type. -/
inductive TrackerRequest where
  | login
  | logout
  | requestPeer
  | reportProgress
  | publishResource
  deriving DecidableEq

/-- The messages a tracker answers with. -/
inductive ReplyKind where
  | messageReply
  | queryPeerReply
  deriving DecidableEq

/-- The kind of the reply to a request: `TrackerConnectionHandler::Process`. -/
def TrackerRequest.replyKind : TrackerRequest → ReplyKind
  | requestPeer => .queryPeerReply
  | login | logout | reportProgress | publishResource => .messageReply

/-- A reply, and the number of the request it answers. -/
structure TrackerReply where
  id : ℕ
  kind : ReplyKind
  returncode : Retcode
  deriving DecidableEq

/-- A connection to a tracker. -/
structure TrackerConnection where
  /-- The requests the tracker has not handled yet. -/
  toTracker : List (ℕ × TrackerRequest) := []
  /-- The replies that have not been received yet. -/
  toClient : List TrackerReply := []
  deriving DecidableEq

/-- The requests whose reply has not been received, in the order of their sending. -/
def TrackerConnection.pending (c : TrackerConnection) : List ℕ :=
  c.toClient.map TrackerReply.id ++ c.toTracker.map Prod.fst

namespace TrackerLink

/-- A place in `handle_reply_message`. -/
inductive Phase where
  /-- About to send. -/
  | sending
  /-- Has sent request `id`; about to receive. -/
  | waiting (id : ℕ)
  /-- Has sent request `id` and received a reply. -/
  | received (id : ℕ) (reply : TrackerReply)
  /-- `sendBy` or `receiveFrom` has failed; `id` is the request, if it was sent. -/
  | failed (id : Option ℕ) (ret : Retcode)
  deriving DecidableEq

/-- The request sent whose reply has not been received. -/
def Phase.unread : Phase → Option ℕ
  | waiting id => some id
  | failed id _ => id
  | sending | received _ _ => none

/-- A call of `handle_reply_message`. -/
structure Call where
  sock : Sock
  request : TrackerRequest
  phase : Phase
  deriving DecidableEq

/-- The request the call has sent and not received the reply to. -/
def Call.unread (c : Call) : Option ℕ := c.phase.unread

/-- What the call returns, and its `out`: a null pointer if the frame is not of the kind that
is cast to. `ret` is what `receiveFrom` has returned, whatever the reply. -/
def Call.result (c : Call) : Option (Retcode × Option TrackerReply) :=
  match c.phase with
  | .received _ reply => some (.errorOk, if reply.kind = c.request.replyKind then some reply else none)
  | .failed _ ret => some (ret, none)
  | .sending | .waiting _ => none

/-- A step. -/
inductive Action where
  /-- `connect_tracker`. -/
  | connect (address : String) (conn : Option Sock)
  /-- Somebody calls `handle_reply_message` with what `get_tracker_sock` returns. -/
  | call (address : String) (request : TrackerRequest)
  /-- `sendBy` returns. -/
  | send (i : ℕ) (ret : Retcode)
  /-- `receiveFrom` returns. -/
  | receive (i : ℕ) (ret : Retcode)
  /-- The tracker answers the next request on a connection. -/
  | answer (sock : Sock) (returncode : Retcode)
  deriving DecidableEq

end TrackerLink

open TrackerLink in
/-- The pool of sockets, the connections to the trackers, and the calls. -/
structure TrackerLink where
  sockManager : LocalSockManager
  conns : Sock → TrackerConnection
  /-- The number of the next request. -/
  nextId : ℕ
  calls : List Call

namespace TrackerLink

/-- A client that has connected to no tracker. -/
def new : TrackerLink := ⟨.new, fun _ => {}, 0, []⟩

/-- Call `i` comes to another place; its connection and the number of the next request change. -/
def setCall (s : TrackerLink) (i : ℕ) (call : Call) (phase : Phase) (conn : TrackerConnection) (nextId : ℕ) :
    TrackerLink where
  sockManager := s.sockManager
  conns := Function.update s.conns call.sock conn
  nextId := nextId
  calls := s.calls.set i { call with phase := phase }

/-- One step: `none` where the action is not possible. -/
def step (s : TrackerLink) : Action → Option TrackerLink
  | .connect address conn =>
    match conn with
    | none => some s
    | some sock =>
      -- the socket is new
      if s.calls.any fun call => decide (call.sock = sock) then none
      else
        some
          { s with
            sockManager := (s.sockManager.connectTracker address (some sock)).2
            conns := Function.update s.conns sock {} }
  | .call address request =>
    match s.sockManager.getTrackerSock address with
    | none => some s
    | some sock => some { s with calls := s.calls ++ [⟨sock, request, .sending⟩] }
  | .send i ret =>
    match s.calls[i]? with
    | some ⟨sock, request, .sending⟩ =>
      if ret = .errorOk then
        some (s.setCall i ⟨sock, request, .sending⟩ (.waiting s.nextId)
          { s.conns sock with toTracker := (s.conns sock).toTracker ++ [(s.nextId, request)] } (s.nextId + 1))
      else some (s.setCall i ⟨sock, request, .sending⟩ (.failed none ret) (s.conns sock) s.nextId)
    | _ => none
  | .receive i ret =>
    match s.calls[i]? with
    | some ⟨sock, request, .waiting id⟩ =>
      if ret = .errorOk then
        match (s.conns sock).toClient with
        | [] => none
        | reply :: rest =>
          some (s.setCall i ⟨sock, request, .waiting id⟩ (.received id reply)
            { s.conns sock with toClient := rest } s.nextId)
      else some (s.setCall i ⟨sock, request, .waiting id⟩ (.failed (some id) ret) (s.conns sock) s.nextId)
    | _ => none
  | .answer sock returncode =>
    match (s.conns sock).toTracker with
    | [] => none
    | (id, request) :: rest =>
      some
        { s with
          conns := Function.update s.conns sock
            { toTracker := rest
              toClient := (s.conns sock).toClient ++ [⟨id, request.replyKind, returncode⟩] } }

/-! ### What a step can do -/

theorem step_send {s s' : TrackerLink} {i : ℕ} {ret : Retcode} (h : s.step (.send i ret) = some s') :
    ∃ sock request, s.calls[i]? = some ⟨sock, request, .sending⟩ ∧
      (s' = s.setCall i ⟨sock, request, .sending⟩ (.waiting s.nextId)
          { s.conns sock with toTracker := (s.conns sock).toTracker ++ [(s.nextId, request)] } (s.nextId + 1) ∨
        s' = s.setCall i ⟨sock, request, .sending⟩ (.failed none ret) (s.conns sock) s.nextId) := by
  rw [step] at h
  split at h
  · rename_i sock request hi
    refine ⟨sock, request, hi, ?_⟩
    split_ifs at h
    · exact .inl (Option.some.inj h).symm
    · exact .inr (Option.some.inj h).symm
  · cases h

theorem step_receive {s s' : TrackerLink} {i : ℕ} {ret : Retcode} (h : s.step (.receive i ret) = some s') :
    ∃ sock request id, s.calls[i]? = some ⟨sock, request, .waiting id⟩ ∧
      ((ret = .errorOk ∧ ∃ reply rest, (s.conns sock).toClient = reply :: rest ∧
          s' = s.setCall i ⟨sock, request, .waiting id⟩ (.received id reply) { s.conns sock with toClient := rest }
            s.nextId) ∨
        (ret ≠ .errorOk ∧ s' = s.setCall i ⟨sock, request, .waiting id⟩ (.failed (some id) ret) (s.conns sock) s.nextId)) := by
  rw [step] at h
  split at h
  · rename_i sock request id hi
    refine ⟨sock, request, id, hi, ?_⟩
    split_ifs at h with hret
    · split at h
      · cases h
      · rename_i reply rest hclient
        exact .inl ⟨hret, reply, rest, hclient, (Option.some.inj h).symm⟩
    · exact .inr ⟨hret, (Option.some.inj h).symm⟩
  · cases h

/-! ### Replies in order -/

/-- Every call that has received has the reply to its own request. -/
def AllOwn (s : TrackerLink) : Prop :=
  ∀ call ∈ s.calls, ∀ id reply, call.phase = .received id reply → reply.id = id

/-- A call receives only when every call that has sent before it on its socket has received. -/
def ReadsInOrder (s : TrackerLink) : Action → Prop
  | .receive i .errorOk =>
    ∀ call id, s.calls[i]? = some call → call.phase = .waiting id →
      ∀ other ∈ s.calls, other.sock = call.sock → ∀ id', other.unread = some id' → id ≤ id'
  | _ => True

/-- What holds while the calls receive in the order in which they have sent. -/
structure InOrder (s : TrackerLink) : Prop where
  lt : ∀ sock, ∀ id ∈ (s.conns sock).pending, id < s.nextId
  sorted : ∀ sock, (s.conns sock).pending.Pairwise (· < ·)
  /-- The requests pending on a socket are those of the calls that have sent and not received. -/
  unread : ∀ sock id, id ∈ (s.conns sock).pending ↔ ∃ call ∈ s.calls, call.sock = sock ∧ call.unread = some id
  distinct : (s.calls.filterMap Call.unread).Nodup
  own : s.AllOwn

theorem inOrder_new : new.InOrder := by
  refine ⟨?_, ?_, ?_, List.nodup_nil, ?_⟩
  · rintro sock id ⟨⟩
  · exact fun sock => .nil
  · intro sock id
    constructor
    · rintro ⟨⟩
    · rintro ⟨call, ⟨⟩, -⟩
  · rintro call ⟨⟩

/-- Two calls have not sent the same request. -/
theorem unread_ne_of_nodup {l₁ l₂ : List Call} {call : Call}
    (h : ((l₁ ++ call :: l₂).filterMap Call.unread).Nodup) {other : Call} (hother : other ∈ l₁ ++ l₂) {id : ℕ}
    (hid : call.unread = some id) : other.unread ≠ some id := by
  have hperm : (l₁ ++ call :: l₂).Perm (call :: (l₁ ++ l₂)) := List.perm_middle
  have hnodup := (hperm.filterMap Call.unread).nodup_iff.mp h
  rw [List.filterMap_cons_some hid] at hnodup
  intro hid'
  exact (List.nodup_cons.mp hnodup).1 (List.mem_filterMap.mpr ⟨other, hother, hid'⟩)

/-- A call goes on: what that takes to keep the order. -/
theorem InOrder.setCall {s : TrackerLink} (hs : s.InOrder) {i : ℕ} {call : Call} {phase : Phase}
    {conn : TrackerConnection} {nextId : ℕ} (hi : s.calls[i]? = some call) (hle : s.nextId ≤ nextId)
    (hlt : ∀ id ∈ conn.pending, id < nextId) (hsorted : conn.pending.Pairwise (· < ·))
    (hunread : ∀ id, id ∈ conn.pending ↔
      id ∈ (s.conns call.sock).pending ∧ call.unread ≠ some id ∨ phase.unread = some id)
    (hfresh : ∀ id, phase.unread = some id → call.unread = some id ∨ ∀ other ∈ s.calls, other.unread ≠ some id)
    (hown : ∀ id reply, phase = .received id reply → reply.id = id) :
    (s.setCall i call phase conn nextId).InOrder := by
  obtain ⟨l₁, l₂, hl, hset⟩ := exists_set_eq_append hi
  have hdistinct := hs.distinct
  rw [hl] at hdistinct
  have hothers : ∀ other ∈ l₁ ++ l₂, other ∈ s.calls := by
    intro other hother
    rw [hl]
    simp only [List.mem_append, List.mem_cons] at hother ⊢
    tauto
  have hcalls : (s.setCall i call phase conn nextId).calls.Perm ({ call with phase := phase } :: (l₁ ++ l₂)) := by
    show (s.calls.set i { call with phase := phase }).Perm _
    rw [hset]
    exact List.perm_middle
  have hconns : ∀ sock, (s.setCall i call phase conn nextId).conns sock =
      if sock = call.sock then conn else s.conns sock := fun sock => Function.update_apply _ _ _ _
  refine ⟨?_, ?_, ?_, ?_, ?_⟩
  · intro sock id hid
    rw [hconns] at hid
    split_ifs at hid with hsock
    · exact hlt id hid
    · exact (hs.lt sock id hid).trans_le hle
  · intro sock
    rw [hconns]
    split_ifs with hsock
    · exact hsorted
    · exact hs.sorted sock
  · intro sock id
    simp only [hcalls.mem_iff, List.exists_mem_cons_iff]
    have hold : (∃ c ∈ l₁ ++ l₂, c.sock = sock ∧ c.unread = some id) ↔
        id ∈ (s.conns sock).pending ∧ (call.unread ≠ some id ∨ sock ≠ call.sock) := by
      constructor
      · rintro ⟨c, hc, hsock, hid⟩
        exact ⟨(hs.unread sock id).mpr ⟨c, hothers c hc, hsock, hid⟩,
          .inl fun hid' => unread_ne_of_nodup hdistinct hc hid' hid⟩
      · rintro ⟨hmem, hne⟩
        obtain ⟨c, hc, hsock, hid⟩ := (hs.unread sock id).mp hmem
        have hperm : (l₁ ++ call :: l₂).Perm (call :: (l₁ ++ l₂)) := List.perm_middle
        rw [hl, hperm.mem_iff] at hc
        rcases List.mem_cons.mp hc with rfl | hc
        · exact absurd hid (hne.resolve_right fun h => h hsock.symm)
        · exact ⟨c, hc, hsock, hid⟩
    rw [hold, hconns]
    split_ifs with hsock
    · subst hsock
      rw [hunread]
      simp [Call.unread, or_comm]
    · simp [Ne.symm hsock]
      tauto
  · rw [((hcalls.filterMap Call.unread).nodup_iff)]
    have hrest : ((l₁ ++ l₂).filterMap Call.unread).Nodup := by
      refine hdistinct.sublist (List.Sublist.filterMap Call.unread ?_)
      exact (List.sublist_cons_self call l₂).append_left l₁
    cases hid : phase.unread with
    | none => rwa [List.filterMap_cons_none (show ({ call with phase := phase } : Call).unread = none from hid)]
    | some id =>
      rw [List.filterMap_cons_some (show ({ call with phase := phase } : Call).unread = some id from hid)]
      refine List.nodup_cons.mpr ⟨fun hmem => ?_, hrest⟩
      obtain ⟨other, hother, hid'⟩ := List.mem_filterMap.mp hmem
      rcases hfresh id hid with hold | hnew
      · exact unread_ne_of_nodup hdistinct hother hold hid'
      · exact hnew other (hothers other hother) hid'
  · intro c hc id reply hphase
    rcases List.mem_cons.mp (hcalls.mem_iff.mp hc) with rfl | hc
    · exact hown id reply hphase
    · exact hs.own c (hothers c hc) id reply hphase

/-- A connection changes, and nothing that is pending on it. -/
theorem InOrder.updateConn {s : TrackerLink} (hs : s.InOrder) (m : LocalSockManager) {sock : Sock}
    {conn : TrackerConnection} (hpending : conn.pending = (s.conns sock).pending) :
    InOrder { s with sockManager := m, conns := Function.update s.conns sock conn } := by
  have hconns : ∀ x, (Function.update s.conns sock conn x).pending = (s.conns x).pending := by
    intro x
    rw [Function.update_apply]
    split_ifs with hx
    · rw [hpending, hx]
    · rfl
  refine ⟨?_, ?_, ?_, hs.distinct, hs.own⟩
  · intro x id hid
    exact hs.lt x id ((hconns x) ▸ hid)
  · intro x
    show (Function.update s.conns sock conn x).pending.Pairwise (· < ·)
    rw [hconns]
    exact hs.sorted x
  · intro x id
    show id ∈ (Function.update s.conns sock conn x).pending ↔ ∃ call ∈ s.calls, call.sock = x ∧ call.unread = some id
    rw [hconns]
    exact hs.unread x id

/-- **A call that receives gets its own reply if and only if it is its turn**: every call that
has sent before it on that socket has received. -/
theorem receive_own_iff {s : TrackerLink} (hs : s.InOrder) {i : ℕ} {call : Call} {id : ℕ} (hi : s.calls[i]? = some call)
    (hphase : call.phase = .waiting id) {reply : TrackerReply} {rest : List TrackerReply}
    (hclient : (s.conns call.sock).toClient = reply :: rest) :
    reply.id = id ↔ ∀ other ∈ s.calls, other.sock = call.sock → ∀ id', other.unread = some id' → id ≤ id' := by
  have hpending : (s.conns call.sock).pending = reply.id :: (rest.map TrackerReply.id ++ (s.conns call.sock).toTracker.map Prod.fst) := by
    rw [TrackerConnection.pending, hclient]
    rfl
  have hsorted := hs.sorted call.sock
  rw [hpending] at hsorted
  have hfirst : ∀ id' ∈ (s.conns call.sock).pending, reply.id ≤ id' := by
    intro id' hid'
    rw [hpending] at hid'
    rcases List.mem_cons.mp hid' with rfl | hid'
    · exact le_rfl
    · exact (List.rel_of_pairwise_cons hsorted hid').le
  have hid : call.unread = some id := by rw [Call.unread, hphase, Phase.unread]
  constructor
  · rintro rfl other hother hsock id' hid'
    exact hfirst id' ((hs.unread call.sock id').mpr ⟨other, hother, hsock, hid'⟩)
  · intro hturn
    have hmem : id ∈ (s.conns call.sock).pending := (hs.unread call.sock id).mpr ⟨call, List.mem_of_getElem? hi, rfl, hid⟩
    have hhead : reply.id ∈ (s.conns call.sock).pending := by
      rw [hpending]
      exact List.mem_cons_self
    obtain ⟨other, hother, hsock, hid'⟩ := (hs.unread call.sock reply.id).mp hhead
    exact le_antisymm (hfirst id hmem) (hturn other hother hsock reply.id hid')

/-- Every step keeps the order, if a call that receives does so in its turn. -/
theorem step_inOrder {s s' : TrackerLink} {a : Action} (hs : s.InOrder) (ha : s.ReadsInOrder a)
    (h : s.step a = some s') :
    s'.InOrder := by
  cases a with
  | connect address conn =>
    cases conn with
    | none =>
      cases h
      exact hs
    | some sock =>
      rw [step] at h
      split_ifs at h with hnew
      cases h
      have hno : ∀ call ∈ s.calls, call.sock ≠ sock := by
        intro call hcall he
        exact hnew (List.any_eq_true.mpr ⟨call, hcall, decide_eq_true he⟩)
      have hnil : (s.conns sock).pending = [] := by
        refine List.eq_nil_iff_forall_not_mem.mpr fun id hid => ?_
        obtain ⟨call, hcall, hsock, -⟩ := (hs.unread sock id).mp hid
        exact hno call hcall hsock
      exact hs.updateConn _ hnil.symm
  | call address request =>
    rw [step] at h
    split at h
    · cases h
      exact hs
    · rename_i sock _
      cases h
      have hnone : (⟨sock, request, .sending⟩ : Call).unread = none := rfl
      refine ⟨hs.lt, hs.sorted, ?_, ?_, ?_⟩
      · intro x id
        rw [hs.unread]
        simp [List.mem_append, or_and_right, exists_or, hnone]
      · rw [List.filterMap_append, List.filterMap_cons_none hnone]
        simpa using hs.distinct
      · intro call hcall id reply hphase
        rcases List.mem_append.mp hcall with hcall | hcall
        · exact hs.own call hcall id reply hphase
        · rw [List.mem_singleton.mp hcall] at hphase
          cases hphase
  | send i ret =>
    obtain ⟨sock, request, hi, rfl | rfl⟩ := step_send h
    · -- the request is numbered last
      have hpending : ∀ id, id ∈ TrackerConnection.pending { s.conns sock with
          toTracker := (s.conns sock).toTracker ++ [(s.nextId, request)] } ↔ id ∈ (s.conns sock).pending ∨ id = s.nextId := by
        intro id
        simp [TrackerConnection.pending, or_assoc]
      refine hs.setCall hi (Nat.le_succ _) ?_ ?_ ?_ ?_ ?_
      · intro id hid
        rcases (hpending id).mp hid with hid | rfl
        · exact (hs.lt sock id hid).trans (Nat.lt_succ_self _)
        · exact Nat.lt_succ_self _
      · have happend : TrackerConnection.pending { s.conns sock with
            toTracker := (s.conns sock).toTracker ++ [(s.nextId, request)] } = (s.conns sock).pending ++ [s.nextId] := by
          simp [TrackerConnection.pending]
        rw [happend]
        refine List.pairwise_append.mpr ⟨hs.sorted sock, List.pairwise_singleton _ _, ?_⟩
        intro id hid id' hid'
        rw [List.mem_singleton.mp hid']
        exact hs.lt sock id hid
      · intro id
        rw [hpending]
        simp [Call.unread, Phase.unread, eq_comm]
      · intro id hid
        right
        intro other hother hid'
        obtain rfl := Option.some.inj hid
        exact absurd (hs.lt other.sock _ ((hs.unread _ _).mpr ⟨other, hother, rfl, hid'⟩)) (lt_irrefl _)
      · rintro id reply ⟨⟩
    · refine hs.setCall hi le_rfl (hs.lt sock) (hs.sorted sock) ?_ ?_ ?_
      · simp [Call.unread, Phase.unread]
      · rintro id ⟨⟩
      · rintro id reply ⟨⟩
  | receive i ret =>
    obtain ⟨sock, request, id, hi, ⟨rfl, reply, rest, hclient, rfl⟩ | ⟨hret, rfl⟩⟩ := step_receive h
    · have hown : reply.id = id := (receive_own_iff hs hi rfl hclient).mpr (ha _ id hi rfl)
      have hpending : (s.conns sock).pending =
          reply.id :: TrackerConnection.pending { s.conns sock with toClient := rest } := by
        rw [TrackerConnection.pending, hclient]
        rfl
      have hsorted := hs.sorted sock
      have hlt := hs.lt sock
      rw [hpending] at hsorted hlt
      refine hs.setCall hi le_rfl (fun id' hid' => hlt id' (List.mem_cons_of_mem _ hid')) (List.Pairwise.of_cons hsorted) ?_ ?_ ?_
      · intro id'
        show _ ↔ id' ∈ (s.conns sock).pending ∧ some id ≠ some id' ∨ none = some id'
        rw [hpending, hown]
        have hne : ∀ id'' ∈ TrackerConnection.pending { s.conns sock with toClient := rest }, id ≠ id'' := by
          intro id'' hmem
          exact hown ▸ (List.rel_of_pairwise_cons hsorted hmem).ne
        constructor
        · intro hmem
          exact .inl ⟨List.mem_cons_of_mem _ hmem, fun he => hne id' hmem (Option.some.inj he)⟩
        · rintro (⟨hmem, hid'⟩ | hnone)
          · rcases List.mem_cons.mp hmem with rfl | hmem
            · exact absurd rfl hid'
            · exact hmem
          · cases hnone
      · rintro id' ⟨⟩
      · rintro id' reply' ⟨⟩
        exact hown
    · refine hs.setCall hi le_rfl (hs.lt sock) (hs.sorted sock) ?_ ?_ ?_
      · intro id'
        show _ ↔ id' ∈ (s.conns sock).pending ∧ some id ≠ some id' ∨ some id = some id'
        constructor
        · intro hmem
          by_cases he : some id = some id'
          · exact .inr he
          · exact .inl ⟨hmem, he⟩
        · rintro (⟨hmem, -⟩ | he)
          · exact hmem
          · exact (hs.unread sock id').mpr ⟨_, List.mem_of_getElem? hi, rfl, he⟩
      · exact fun id' hid' => .inl hid'
      · rintro id' reply' ⟨⟩
  | answer sock returncode =>
    rw [step] at h
    split at h
    · cases h
    · rename_i id request rest htracker
      cases h
      refine hs.updateConn s.sockManager ?_
      rw [TrackerConnection.pending, TrackerConnection.pending, htracker]
      simp

/-! ### Runs -/

/-- A call that has received keeps its reply. -/
theorem step_received {s s' : TrackerLink} {a : Action} (h : s.step a = some s') {call : Call} (hcall : call ∈ s.calls)
    {id : ℕ} {reply : TrackerReply} (hphase : call.phase = .received id reply) : call ∈ s'.calls := by
  have hset : ∀ {i : ℕ} {c c' : Call}, s.calls[i]? = some c → c.phase ≠ .received id reply →
      call ∈ s.calls.set i c' := by
    intro i c c' hi hc
    obtain ⟨l₁, l₂, hl, hset⟩ := exists_set_eq_append hi
    rw [hl] at hcall
    rw [hset]
    simp only [List.mem_append, List.mem_cons] at hcall ⊢
    rcases hcall with hcall | rfl | hcall
    · exact .inl hcall
    · exact absurd hphase hc
    · exact .inr (.inr hcall)
  cases a with
  | connect address conn =>
    cases conn with
    | none =>
      cases h
      exact hcall
    | some sock =>
      rw [step] at h
      split_ifs at h
      cases h
      exact hcall
  | call address request =>
    rw [step] at h
    split at h
    · cases h
      exact hcall
    · cases h
      exact List.mem_append_left _ hcall
  | send i ret =>
    obtain ⟨sock, request, hi, rfl | rfl⟩ := step_send h <;> exact hset hi (by simp)
  | receive i ret =>
    obtain ⟨sock, request, id', hi, ⟨-, reply', rest, -, rfl⟩ | ⟨-, rfl⟩⟩ := step_receive h <;> exact hset hi (by simp)
  | answer sock returncode =>
    rw [step] at h
    split at h
    · cases h
    · cases h
      exact hcall

/-- A call that receives out of turn does not get its own reply. -/
theorem not_allOwn_of_step {s s' : TrackerLink} {a : Action} (hs : s.InOrder) (ha : ¬ s.ReadsInOrder a)
    (h : s.step a = some s') : ¬ s'.AllOwn := by
  intro hown
  apply ha
  cases a with
  | receive i ret =>
    cases ret with
    | errorOk =>
      intro call id hi hphase
      obtain ⟨sock, request, id', hi', ⟨-, reply, rest, hclient, rfl⟩ | ⟨hret, -⟩⟩ := step_receive h
      · obtain rfl : call = _ := Option.some.inj (hi.symm.trans hi')
        obtain rfl : id' = id := by simpa using hphase
        refine (receive_own_iff hs hi hphase hclient).mp (hown ⟨sock, request, .received id' reply⟩ ?_ id' reply rfl)
        obtain ⟨l₁, l₂, -, hset⟩ := exists_set_eq_append hi
        rw [TrackerLink.setCall, hset]
        simp
      · exact absurd rfl hret
    | _ => trivial
  | connect | call | send | answer => trivial

/-- **Replies and calls.** In a run of a client, with any number of calls on any number of
tracker sockets, every call that receives a reply receives the reply to its own request,
if and only if each call that receives does so when every call that has sent before it
on its socket has received. -/
theorem run_own_iff {s : TrackerLink} {as : List Action} (h : exec step new as = some s) :
    Always step ReadsInOrder new as ↔ s.AllOwn := by
  refine @always_iff _ _ _ InOrder AllOwn ReadsInOrder step_inOrder InOrder.own not_allOwn_of_step ?_ _ _ _ h inOrder_new
  intro s a t hs hstep hown
  apply hs
  intro call hcall id reply hphase
  exact hown call (step_received hstep hcall hphase) id reply hphase

/-! ### Two threads -/

/-- A job asks for peers and the reporter reports progress; both send, the tracker answers
both, and the reporter receives first. -/
def crossedRun : List Action :=
  [.connect "t" (some 0), .call "t" .requestPeer, .call "t" .reportProgress, .send 0 .errorOk, .send 1 .errorOk,
    .answer 0 .errorOk, .answer 0 .errorOk, .receive 1 .errorOk]

/-- The reporter has the reply of the job, and its call returns `ERROR_OK` with a null pointer. -/
theorem crossed_replies : ∃ s, exec step new crossedRun = some s ∧ ¬ s.AllOwn ∧
    ∃ call ∈ s.calls, call.request = .reportProgress ∧ call.result = some (.errorOk, none) := by
  refine ⟨_, rfl, ?_, ⟨0, .reportProgress, .received 1 ⟨0, .queryPeerReply, .errorOk⟩⟩, ?_, rfl, rfl⟩
  · intro hown
    have := hown ⟨0, .reportProgress, .received 1 ⟨0, .queryPeerReply, .errorOk⟩⟩ (by decide) 1 _ rfl
    cases this
  · decide

/-- The job receives first. -/
def orderedRun : List Action :=
  [.connect "t" (some 0), .call "t" .requestPeer, .call "t" .reportProgress, .send 0 .errorOk, .send 1 .errorOk,
    .answer 0 .errorOk, .receive 0 .errorOk, .answer 0 .errorOk, .receive 1 .errorOk]

/-- Both have their own replies. -/
theorem ordered_replies : ∃ s, exec step new orderedRun = some s ∧ Always step ReadsInOrder new orderedRun := by
  refine ⟨_, rfl, (run_own_iff rfl).mpr ?_⟩
  have hcalls : ∀ call ∈ [(⟨0, .requestPeer, .received 0 ⟨0, .queryPeerReply, .errorOk⟩⟩ : Call),
      ⟨0, .reportProgress, .received 1 ⟨1, .messageReply, .errorOk⟩⟩], ∀ id reply, call.phase = .received id reply → reply.id = id := by
    simp
  exact hcalls

end TrackerLink

end CoolDown
