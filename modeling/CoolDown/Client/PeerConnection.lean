import CoolDown.Client.Torrent
import CoolDown.Public.ErrorCode
import Mathlib.Algebra.BigOperators.Group.List.Basic

/-!
# A connection to a peer

One connection: the requests the peer has not received yet, the upload tasks of the peer
that send on it, and what it has sent and we have not read. The peer handles the requests
in order (`ClientConnectionHandler::onReadable`); an upload that it accepts goes on in a
task of its own (`UploadTask::runTask`), which may be given up at any time.

## The model

The stream is reliable and first in, first out. What comes from the peer is a list of
items: a whole frame, or a byte of a chunk. Each item carries the number of the request
it belongs to; the numbers are not on the wire, they are how one speaks about it. A
frame is read in one step. A reader of a frame that finds bytes of a chunk instead, or the
other way round, takes some items for it, and what it makes of them is anything (`garbage`).

## What is proved

`Quiet`, `Owes` and `Waits` say how far an exchange has got; `peerStep_owes` and
`peerStep_waits` show that the peer keeps them, and `owes_of_readBytes` and
`owes_of_readFrame` that reading leads from one to the next.
-/

namespace CoolDown

/-- What is sent to a peer. -/
inductive Request where
  | shakeHand
  | upload (fileid : String) (chunkNumber : ℕ)
  /-- A frame that was not sent whole. -/
  | part
  deriving DecidableEq

/-- The frames a peer answers with. -/
inductive Reply where
  | shakeHand
  | upload (returncode : Retcode)
  deriving DecidableEq

/-- What comes from a peer: a whole frame or a byte of a chunk, and the request it belongs to. -/
inductive Item where
  | frame (id : ℕ) (reply : Reply)
  | byte (id : ℕ) (b : UInt8)
  deriving DecidableEq

/-- A connection to a peer. -/
structure PeerConnection where
  /-- The requests the peer has not received yet. -/
  toPeer : List (ℕ × Request) := []
  /-- The upload tasks of the peer, with what they have still to send. -/
  uploads : List (ℕ × Bytes) := []
  /-- What we have not read yet. -/
  toClient : List Item := []
  deriving DecidableEq

namespace PeerConnection

/-! ### The peer -/

/-- What the peer does. -/
inductive PeerEvent where
  /-- It handles the next request; `content` is the chunk, if it is asked for one that it has. -/
  | answer (content : Option Bytes)
  /-- An upload task sends `n` bytes more. -/
  | upload (k n : ℕ)
  /-- An upload task throws. -/
  | abort (k : ℕ)
  deriving DecidableEq

/-- `onReadable` and `Process`. A request for a chunk the peer does not have is answered
with the code `HandleUploadRequest` starts with. -/
def answer (c : PeerConnection) (content : Option Bytes) : Option PeerConnection :=
  match c.toPeer with
  | (id, .shakeHand) :: rest => some { c with toPeer := rest, toClient := c.toClient ++ [.frame id .shakeHand] }
  | (id, .upload _ _) :: rest =>
    match content with
    | none => some { c with toPeer := rest, toClient := c.toClient ++ [.frame id (.upload .errorUnknown)] }
    -- a chunk to be uploaded is not empty: `poco_assert( chunk_size > 0 )`
    | some [] => none
    | some (b :: bs) =>
      some
        { toPeer := rest
          uploads := c.uploads ++ [(id, b :: bs)]
          toClient := c.toClient ++ [.frame id (.upload .errorOk)] }
  -- the rest of the frame does not come
  | (_, .part) :: _ => none
  | [] => none

/-- One round of the loop of `UploadTask::runTask`; a task that has sent everything is over. -/
def uploadRound (c : PeerConnection) (k n : ℕ) : Option PeerConnection :=
  match c.uploads[k]? with
  | none => none
  | some (id, bs) =>
    if n = 0 ∨ bs.length < n then none
    else some
      { c with
        uploads := if n = bs.length then c.uploads.eraseIdx k else c.uploads.set k (id, bs.drop n)
        toClient := c.toClient ++ (bs.take n).map (.byte id) }

/-- A step of the peer. -/
def peerStep (c : PeerConnection) : PeerEvent → Option PeerConnection
  | .answer content => c.answer content
  | .upload k n => c.uploadRound k n
  | .abort k => if k < c.uploads.length then some { c with uploads := c.uploads.eraseIdx k } else none

/-! ### The client -/

/-- `sendBy`. -/
def send (c : PeerConnection) (id : ℕ) (r : Request) : PeerConnection := { c with toPeer := c.toPeer ++ [(id, r)] }

/-- `receiveFrom`, where the next item is a frame. -/
def readFrame (c : PeerConnection) : Option (ℕ × Reply × PeerConnection) :=
  match c.toClient with
  | .frame id reply :: rest => some (id, reply, { c with toClient := rest })
  | .byte _ _ :: _ | [] => none

/-- `receiveBytes` returns `bs`, where bytes of a chunk come next. -/
def readBytes (c : PeerConnection) (bs : Bytes) : Option PeerConnection :=
  match c.toClient with
  | .byte id _ :: _ =>
    if bs ≠ [] ∧ c.toClient.take bs.length = bs.map (.byte id) then some { c with toClient := c.toClient.drop bs.length }
    else none
  | .frame _ _ :: _ | [] => none

/-- What comes next is not what the reader wants, a frame or bytes of a chunk: it takes `n` items for it. -/
def garbage (c : PeerConnection) (wantsFrame : Bool) (n : ℕ) : Option PeerConnection :=
  match c.toClient, wantsFrame with
  | .byte _ _ :: _, true | .frame _ _ :: _, false => some { c with toClient := c.toClient.drop n }
  | _, _ => none

/-! ### How far an exchange has got -/

/-- Nothing is outstanding, under way or unread. -/
structure Quiet (c : PeerConnection) : Prop where
  toPeer : c.toPeer = []
  uploads : c.uploads = []
  toClient : c.toClient = []

/-- At most `left` bytes of the chunk of request `id` are under way or unread, and nothing else. -/
structure Owes (c : PeerConnection) (id : ℕ) (left : ℤ) : Prop where
  toPeer : c.toPeer = []
  uploads : ∀ u ∈ c.uploads, u.1 = id ∧ u.2 ≠ []
  toClient : ∀ item ∈ c.toClient, ∃ b, item = .byte id b
  left : ((c.toClient.length + (c.uploads.map fun u => u.2.length).sum : ℕ) : ℤ) ≤ left

/-- The reply to request `id` is still to be read: the request `r` is outstanding, or its
reply is what comes next; and after a reply that promises a chunk, `size` bytes at most. -/
inductive Waits (c : PeerConnection) (id : ℕ) (r : Request) (size : ℤ) : Prop where
  | outstanding (hpeer : c.toPeer = [(id, r)]) (huploads : c.uploads = []) (hclient : c.toClient = [])
  | replied (reply : Reply) (rest : List Item) (hclient : c.toClient = .frame id reply :: rest)
      (howes : { c with toClient := rest }.Owes id (if reply = Reply.upload .errorOk then size else 0))

variable {c c' : PeerConnection} {id : ℕ} {r : Request} {size left : ℤ}

/-- When no bytes are left, the connection is quiet. -/
theorem Owes.quiet (h : c.Owes id left) (hleft : left ≤ 0) : c.Quiet := by
  have hsum := h.left
  have hclient : c.toClient.length = 0 := by omega
  have huploads : (c.uploads.map fun u => u.2.length).sum = 0 := by omega
  refine ⟨h.toPeer, ?_, List.length_eq_zero_iff.mp hclient⟩
  cases hu : c.uploads with
  | nil => rfl
  | cons u us =>
    have hne := (h.uploads u (by rw [hu]; exact List.mem_cons_self)).2
    have hpos : 0 < u.2.length := List.length_pos_iff.mpr hne
    rw [hu, List.map_cons, List.sum_cons] at huploads
    omega

theorem Quiet.owes (h : c.Quiet) (id : ℕ) (hleft : 0 ≤ left) : c.Owes id left := by
  obtain ⟨h₁, h₂, h₃⟩ := h
  refine ⟨h₁, ?_, ?_, ?_⟩
  · rw [h₂]
    rintro u ⟨⟩
  · rw [h₃]
    rintro item ⟨⟩
  · rw [h₂, h₃]
    simpa using hleft

/-- Sending a request on a quiet connection. -/
theorem Quiet.send (h : c.Quiet) (id : ℕ) (r : Request) (size : ℤ) : (c.send id r).Waits id r size :=
  .outstanding (by rw [PeerConnection.send, h.toPeer]; rfl) h.uploads h.toClient

/-- A peer does nothing on a quiet connection. -/
theorem Quiet.peerStep (h : c.Quiet) (ev : PeerEvent) : c.peerStep ev = none := by
  obtain ⟨h₁, h₂, h₃⟩ := h
  cases ev with
  | answer content => simp [PeerConnection.peerStep, answer, h₁]
  | upload k n => simp [PeerConnection.peerStep, uploadRound, h₂]
  | abort k => simp [PeerConnection.peerStep, h₂]

/-- A round of an upload task sends `n` bytes of what it has left. -/
theorem sum_uploadRound {uploads : List (ℕ × Bytes)} {k n : ℕ} {bs : Bytes} (hk : uploads[k]? = some (id, bs))
    (hn : n ≤ bs.length) :
    n + ((if n = bs.length then uploads.eraseIdx k else uploads.set k (id, bs.drop n)).map fun u => u.2.length).sum =
      (uploads.map fun u => u.2.length).sum := by
  induction uploads generalizing k with
  | nil => cases hk
  | cons u us ih =>
    cases k with
    | zero =>
      obtain rfl := Option.some.inj hk
      split_ifs
      · simp only [List.eraseIdx_cons_zero, List.map_cons, List.sum_cons]
        omega
      · simp only [List.set_cons_zero, List.map_cons, List.sum_cons, List.length_drop]
        omega
    | succ k =>
      have := ih (show us[k]? = some (id, bs) from hk)
      split_ifs at this ⊢
      · simp only [List.eraseIdx_cons_succ, List.map_cons, List.sum_cons]
        omega
      · simp only [List.set_cons_succ, List.map_cons, List.sum_cons]
        omega

/-- The peer sends the bytes it owes, or does not. -/
theorem peerStep_owes {ev : PeerEvent} (h : c.Owes id left) (hstep : c.peerStep ev = some c') : c'.Owes id left := by
  obtain ⟨hpeer, huploads, hclient, hleft⟩ := h
  cases ev with
  | answer content =>
    rw [peerStep, answer, hpeer] at hstep
    cases hstep
  | upload k n =>
    rw [peerStep, uploadRound] at hstep
    split at hstep
    · cases hstep
    · rename_i id' bs hk
      split_ifs at hstep with hn hall
      all_goals
        cases hstep
        obtain ⟨rfl, hne⟩ := huploads _ (List.mem_of_getElem? hk)
        have hle : n ≤ bs.length := by omega
        have hsum := sum_uploadRound hk hle
        refine ⟨hpeer, ?_, ?_, ?_⟩
      · exact fun u hu => huploads u (List.mem_of_mem_eraseIdx hu)
      · intro item hitem
        rcases List.mem_append.mp hitem with hitem | hitem
        · exact hclient item hitem
        · obtain ⟨b, -, rfl⟩ := List.mem_map.mp hitem
          exact ⟨b, rfl⟩
      · rw [if_pos hall] at hsum
        simp only [List.length_append, List.length_map, List.length_take, Nat.min_eq_left hle]
        omega
      · intro u hu
        rcases List.mem_or_eq_of_mem_set hu with hu | rfl
        · exact huploads u hu
        · refine ⟨rfl, fun hnil => ?_⟩
          have := List.drop_eq_nil_iff.mp hnil
          omega
      · intro item hitem
        rcases List.mem_append.mp hitem with hitem | hitem
        · exact hclient item hitem
        · obtain ⟨b, -, rfl⟩ := List.mem_map.mp hitem
          exact ⟨b, rfl⟩
      · rw [if_neg hall] at hsum
        simp only [List.length_append, List.length_map, List.length_take, Nat.min_eq_left hle]
        omega
  | abort k =>
    rw [peerStep] at hstep
    split_ifs at hstep with hk
    cases hstep
    have hsum := sum_uploadRound (List.getElem?_eq_getElem hk) le_rfl
    rw [if_pos rfl] at hsum
    refine ⟨hpeer, fun u hu => huploads u (List.mem_of_mem_eraseIdx hu), hclient, ?_⟩
    show ((c.toClient.length + ((c.uploads.eraseIdx k).map fun u => u.2.length).sum : ℕ) : ℤ) ≤ left
    omega

/-- What the peer does does not depend on what we have not read. -/
theorem peerStep_cons {item : Item} {rest : List Item} {ev : PeerEvent} (hclient : c.toClient = item :: rest)
    (hstep : c.peerStep ev = some c') :
    ∃ rest', c'.toClient = item :: rest' ∧ { c with toClient := rest }.peerStep ev = some { c' with toClient := rest' } := by
  cases ev with
  | answer content =>
    rw [peerStep, answer] at hstep
    rw [peerStep, answer]
    split at hstep
    · rename_i id rest' hpeer
      cases hstep
      exact ⟨_, by rw [hclient]; rfl, by simp [hpeer]⟩
    · rename_i id fileid chunkNumber rest' hpeer
      cases content with
      | none =>
        cases hstep
        exact ⟨_, by rw [hclient]; rfl, by simp [hpeer]⟩
      | some bs =>
        cases bs with
        | nil => cases hstep
        | cons b bs =>
          cases hstep
          exact ⟨_, by rw [hclient]; rfl, by simp [hpeer]⟩
    · cases hstep
    · cases hstep
  | upload k n =>
    rw [peerStep, uploadRound] at hstep
    rw [peerStep, uploadRound]
    split at hstep
    · cases hstep
    · rename_i id bs hk
      by_cases hn : n = 0 ∨ bs.length < n
      · rw [if_pos hn] at hstep
        cases hstep
      · rw [if_neg hn] at hstep
        cases hstep
        exact ⟨_, by rw [hclient]; rfl, by simp [hk, hn]⟩
  | abort k =>
    rw [peerStep] at hstep
    rw [peerStep]
    split_ifs at hstep with hk
    cases hstep
    exact ⟨rest, hclient, by simp [hk]⟩

/-- The peer answers the request that is outstanding, with no more than `size` bytes. -/
theorem peerStep_waits {ev : PeerEvent} (h : c.Waits id r size)
    (hsize : ∀ content, ev = .answer (some content) → r ≠ .shakeHand → (content.length : ℤ) ≤ size)
    (hstep : c.peerStep ev = some c') : c'.Waits id r size := by
  cases h with
  | outstanding hpeer huploads hclient =>
    have hquiet : Quiet { c with toPeer := [], toClient := [] } := ⟨rfl, huploads, rfl⟩
    cases ev with
    | answer content =>
      rw [peerStep, answer, hpeer] at hstep
      cases r with
      | shakeHand =>
        cases hstep
        refine .replied .shakeHand [] (by rw [hclient]; rfl) ?_
        rw [if_neg (by simp)]
        exact hquiet.owes id le_rfl
      | upload fileid chunkNumber =>
        cases content with
        | none =>
          cases hstep
          refine .replied (.upload .errorUnknown) [] (by rw [hclient]; rfl) ?_
          rw [if_neg (by simp)]
          exact hquiet.owes id le_rfl
        | some bs =>
          cases bs with
          | nil => cases hstep
          | cons b bs =>
            cases hstep
            refine .replied (.upload .errorOk) [] (by rw [hclient]; rfl) ⟨rfl, ?_, by rintro item ⟨⟩, ?_⟩
            · intro u hu
              rw [huploads] at hu
              obtain rfl := List.mem_singleton.mp hu
              exact ⟨rfl, List.cons_ne_nil _ _⟩
            · rw [if_pos rfl, huploads]
              simpa using hsize _ rfl (by simp)
      | part => cases hstep
    | upload k n => simp [peerStep, uploadRound, huploads] at hstep
    | abort k => simp [peerStep, huploads] at hstep
  | replied reply rest hclient howes =>
    obtain ⟨rest', hclient', hstep'⟩ := peerStep_cons hclient hstep
    exact .replied reply rest' hclient' (peerStep_owes howes hstep')

/-- What comes first while a reply is awaited is that reply. -/
theorem Waits.toClient_head (h : c.Waits id r size) {item : Item} {rest : List Item}
    (hclient : c.toClient = item :: rest) :
    ∃ reply, item = .frame id reply := by
  cases h with
  | outstanding hpeer huploads hnil =>
    rw [hnil] at hclient
    cases hclient
  | replied reply rest' hcons howes =>
    rw [hcons] at hclient
    exact ⟨reply, (List.cons.inj hclient).1.symm⟩

/-- The frame that is read is the reply awaited. -/
theorem owes_of_readFrame (h : c.Waits id r size) {id' : ℕ} {reply : Reply}
    (hread : c.readFrame = some (id', reply, c')) :
    id' = id ∧ c'.Owes id (if reply = Reply.upload .errorOk then size else 0) := by
  rw [readFrame] at hread
  split at hread
  · rename_i id'' reply' rest hclient
    cases hread
    cases h with
    | outstanding hpeer huploads hnil =>
      rw [hnil] at hclient
      cases hclient
    | replied reply' rest' hcons howes =>
      rw [hcons] at hclient
      cases hclient
      exact ⟨rfl, howes⟩
  · cases hread
  · cases hread

/-- No byte of a chunk is taken for a frame. -/
theorem Waits.garbage_eq_none (h : c.Waits id r size) (n : ℕ) : c.garbage true n = none := by
  cases hclient : c.toClient with
  | nil => simp [garbage, hclient]
  | cons item rest =>
    obtain ⟨reply, rfl⟩ := h.toClient_head hclient
    simp [garbage, hclient]

/-- No frame is taken for bytes of a chunk. -/
theorem Owes.garbage_eq_none (h : c.Owes id left) (n : ℕ) : c.garbage false n = none := by
  cases hclient : c.toClient with
  | nil => simp [garbage, hclient]
  | cons item rest =>
    obtain ⟨b, rfl⟩ := h.toClient item (by rw [hclient]; exact List.mem_cons_self)
    simp [garbage, hclient]

/-- The bytes that are read are no longer owed. -/
theorem owes_of_readBytes (h : c.Owes id left) {bs : Bytes} (hread : c.readBytes bs = some c') :
    c'.Owes id (left - bs.length) := by
  rw [readBytes] at hread
  split at hread
  · split_ifs at hread with hbs
    cases hread
    have hlen := congrArg List.length hbs.2
    have hleft := h.left
    rw [List.length_take, List.length_map] at hlen
    refine ⟨h.toPeer, h.uploads, fun item hitem => h.toClient item (List.mem_of_mem_drop hitem), ?_⟩
    simp only [List.length_drop]
    omega
  · cases hread
  · cases hread

end PeerConnection

end CoolDown
