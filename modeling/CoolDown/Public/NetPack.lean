import CoolDown.Library.Source
import CoolDown.Public.NetPackHeader

/-!
# Packs

A `NetPack` is how client and tracker send each other a message: four bytes that say how
long the header is, the header, and the payload, whose length the header has.

## The model

`OutSock` and `InSock` are the two ends of a `StreamSocket`, as `sendBytes` and
`receiveBytes` show them: how much of the data a call takes, or that it throws, is given
with the socket. `receiveFrom` also takes the value its variable `headerLength` happens
to hold, which it checks before it looks at the code of `receiveHeaderLength`. The buffer
`headerLengthBuf_` is read only when all of it has just been written, and is left out.

## What is proved

* `receiveFrom_sent`: a pack that was sent is received as it was, when each call returns
  what it asks for.
* `receiveEach_sent`: so is a sequence of them, each call taking one pack's bytes.
* `receiveFrom_eq_ok`: what `receiveFrom` has read when it returns `ERROR_OK`.
* `receiveFrom_agree_iff`: its outcome is the same however the stream is cut only as long
  as the three parts of a pack are not; `receiveFrom_cut_payload` is a payload in two parts.
-/

namespace CoolDown

open Library

/-! ### Sockets -/

/-- What becomes of a `sendBytes`. -/
inductive Sending where
  /-- Everything is sent, as a blocking socket does. -/
  | all
  /-- So many bytes are sent at most. -/
  | upTo (n : ℕ)
  /-- It throws. -/
  | fail (e : Exception)

/-- A socket to write to: what has been written, and what becomes of the calls to come. -/
structure OutSock where
  written : Bytes
  sendings : ℕ → Sending

namespace OutSock

/-- A blocking socket that nothing has been written to. -/
def blocking : OutSock := ⟨[], fun _ => .all⟩

/-- The socket after `bs` has been written. -/
def next (s : OutSock) (bs : Bytes) : OutSock := ⟨s.written ++ bs, fun i => s.sendings (i + 1)⟩

/-- `StreamSocket::sendBytes`. -/
def sendBytes (s : OutSock) (bs : Bytes) : Except Exception ℕ × OutSock :=
  match s.sendings 0 with
  | .all => (.ok bs.length, s.next bs)
  | .upTo n => (.ok (bs.take n).length, s.next (bs.take n))
  | .fail e => (.error e, s.next [])

end OutSock

/-- A socket to read from. -/
abbrev InSock := Source UInt8 Exception

/-! ### Packs -/

/-- What the code uses of a protobuf message: the name of its type, and what
`SerializeToString` makes of it. -/
structure Message where
  fullName : Bytes
  serializeToString : Option Bytes

/-- `NetPack`. -/
structure NetPack where
  payloadType : Int32
  payload : Bytes
  messageName : Bytes
  header : NetPackHeader
  deriving DecidableEq, Repr

/-- `ByteOrder::toNetwork`, as the bytes that are sent. -/
def toNetwork (x : Int32) : Bytes := bigEndian 4 x.toUInt32.toNat

/-- `ByteOrder::fromNetwork`, of the bytes that were received. -/
def fromNetwork (bs : Bytes) : Int32 := (UInt32.ofNat (ofBigEndian bs)).toInt32

@[simp] theorem length_toNetwork (x : Int32) : (toNetwork x).length = 4 := length_bigEndian 4 _

@[simp] theorem fromNetwork_toNetwork (x : Int32) : fromNetwork (toNetwork x) = x := by
  have hx : x.toUInt32.toNat < 256 ^ 4 := x.toUInt32.toNat_lt
  rw [fromNetwork, toNetwork, ofBigEndian_bigEndian hx, UInt32.ofNat_toNat, Int32.toInt32_toUInt32]

namespace NetPack

/-- `NetPack::NetPack()`. -/
def new : NetPack := ⟨0, [], [], .empty⟩

/-- `NetPack::NetPack(int, const Message&)`. -/
def ofMessage (payloadType : Int32) (msg : Message) : NetPack :=
  let payload := msg.serializeToString.getD []
  ⟨payloadType, payload, msg.fullName, ⟨some payloadType, some (Int32.ofNat payload.length), some msg.fullName⟩⟩

/-- `NetPack::clear`. -/
def clear (_p : NetPack) : NetPack := ⟨0, [], [], .empty⟩

/-- `NetPack::set_message`. -/
def setMessage (p : NetPack) (payloadType : Int32) (msg : Message) : NetPack :=
  let p := p.clear
  let p := { p with payloadType, messageName := msg.fullName, payload := msg.serializeToString.getD [] }
  { p with
    header :=
      { p.header with
        payloadType := some payloadType
        payloadLength := some (Int32.ofNat p.payload.length)
        messageName := some p.messageName } }

/-- The packs that are sent: built from a message, or given one. -/
inductive Built : NetPack → Prop where
  /-- `NetPack(payloadType, msg)`. -/
  | new (payloadType : Int32) (msg : Message) : Built (ofMessage payloadType msg)
  /-- `set_message` on any pack. -/
  | set (p : NetPack) (payloadType : Int32) (msg : Message) : Built (p.setMessage payloadType msg)

variable (c : NetPackHeader.Codec)

/-- `NetPack::sendHeaderLength`. -/
def sendHeaderLength (p : NetPack) (sock : OutSock) : Except Exception Retcode × OutSock :=
  match sock.sendBytes (toNetwork (Int32.ofNat (c.byteSize p.header))) with
  | (.ok n, sock) => (.ok (if n = 4 then .errorOk else .errorPackSendHeaderLength), sock)
  | (.error e, sock) => (.error e, sock)

/-- `NetPack::sendBy`. What `sendBytes` returns for the header is not looked at. -/
def sendBy (p : NetPack) (sock : OutSock) : Except Exception Retcode × OutSock :=
  match p.sendHeaderLength c sock with
  | (.error e, sock) => (.error e, sock)
  | (.ok ret, sock) =>
    if ret ≠ .errorOk then (.ok .errorPackSendHeaderLength, sock)
    else
      match c.serializeToString p.header with
      | none => (.ok .errorPackProtoSerialize, sock)
      | some headerContent =>
        match sock.sendBytes headerContent with
        | (.error e, sock) => (.error e, sock)
        | (.ok _, sock) =>
          match sock.sendBytes p.payload with
          | (.error e, sock) => (.error e, sock)
          | (.ok bytesSend, sock) =>
            (.ok (if bytesSend ≠ p.payload.length then .errorPackSendPayload else .errorOk), sock)

/-- `NetPack::receiveHeaderLength`; `headerLength` stays as it is unless it succeeds. -/
def receiveHeaderLength (sock : InSock) (headerLength : Int32) : Except Exception (Retcode × Int32) × InSock :=
  match sock.read 4 with
  | (.error e, sock) => (.error e, sock)
  | (.ok buf, sock) =>
    if buf.length ≠ 4 then
      if buf.length = 0 then (.ok (.errorNetGracefulShutdown, headerLength), sock)
      else (.ok (.errorPackRecvHeaderLength, headerLength), sock)
    else (.ok (.errorOk, fromNetwork buf), sock)

/-- `NetPack::receiveFrom`, from where the header has been parsed. A negative length is a
huge one for the buffer. -/
def receivePayload (p : NetPack) (sock : InSock) : Except Exception Retcode × NetPack × InSock :=
  if p.header.payloadlength < 0 then (.error .badAlloc, p, sock)
  else
    match sock.read p.header.payloadlength.toNatClampNeg with
    | (.error e, sock) => (.error e, p, sock)
    | (.ok buf, sock) =>
      if buf.length ≠ p.header.payloadlength.toNatClampNeg then (.ok .errorPackRecvPayload, p, sock)
      else
        (.ok .errorOk,
          { p with payload := buf, messageName := p.header.messagename, payloadType := p.header.payloadtype }, sock)

/-- `NetPack::receiveFrom`; `junk` is what `headerLength` holds before it is set. -/
def receiveFrom (junk : Int32) (p : NetPack) (sock : InSock) : Except Exception Retcode × NetPack × InSock :=
  let p := p.clear
  match receiveHeaderLength sock junk with
  | (.error e, sock) => (.error e, p, sock)
  | (.ok (ret, headerLength), sock) =>
    if ¬(headerLength > 0 ∧ headerLength < 1000) then (.error .assertion, p, sock)
    else if ret ≠ .errorOk then (.ok ret, p, sock)
    else
      match sock.read headerLength.toNatClampNeg with
      | (.error e, sock) => (.error e, p, sock)
      | (.ok headerBuf, sock) =>
        match c.parseFromString headerBuf with
        | (false, header) => (.ok .errorPackProtoParse, { p with header }, sock)
        | (true, header) => { p with header }.receivePayload sock

/-! ### One pack -/

/-- The calls of `receiveBytes` for this pack return all that is asked for. -/
def Whole (p : NetPack) (arrivals : ℕ → Arrival Exception) : Prop :=
  (arrivals 0).AtLeast 4 ∧ (arrivals 1).AtLeast (c.byteSize p.header) ∧ (arrivals 2).AtLeast p.payload.length

/-- A pack whose parts make up a frame: the header has the length of the payload, and
neither has 2 GB. -/
structure Framed (p : NetPack) : Prop where
  length_eq : p.header.payloadlength = Int32.ofNat p.payload.length
  header_lt : c.byteSize p.header < 2 ^ 31
  payload_lt : p.payload.length < 2 ^ 31

/-- The header has a length that `receiveFrom` does not refuse. -/
def Accepted (p : NetPack) : Prop := 1 ≤ c.byteSize p.header ∧ c.byteSize p.header ≤ 999

/-- What `sendBy` writes. -/
def sent (p : NetPack) : Bytes := (p.sendBy c .blocking).2.written

/-- A pack built from a message, or given one, makes up a frame. -/
theorem Built.framed {c : NetPackHeader.Codec} {p : NetPack} (h : p.Built) (hc : Accepted c p)
    (hp : p.payload.length < 2 ^ 31) : Framed c p where
  length_eq := by cases h <;> rfl
  header_lt := Nat.lt_of_le_of_lt hc.2 (by decide)
  payload_lt := hp

/-- A blocking socket is sent the length, the header and the payload. -/
theorem sendBy_blocking {c : NetPackHeader.Codec} {p : NetPack} {headerContent : Bytes}
    (h : c.serializeToString p.header = some headerContent) :
    (p.sendBy c .blocking).1 = .ok .errorOk ∧
      sent c p = toNetwork (Int32.ofNat (c.byteSize p.header)) ++ (headerContent ++ p.payload) := by
  constructor
  · simp [sendBy, sendHeaderLength, OutSock.sendBytes, OutSock.blocking, OutSock.next, h]
  · simp [sent, sendBy, sendHeaderLength, OutSock.sendBytes, OutSock.blocking, OutSock.next, h]

/-- What a sent pack is made of, and how long the parts are. -/
theorem sent_eq {c : NetPackHeader.Codec} (hc : c.Lossless) (p : NetPack) :
    ∃ headerContent, c.parseFromString headerContent = (true, p.header) ∧
      headerContent.length = c.byteSize p.header ∧
      sent c p = toNetwork (Int32.ofNat (c.byteSize p.header)) ++ (headerContent ++ p.payload) := by
  obtain ⟨headerContent, hser, hlen, hparse⟩ := hc p.header
  exact ⟨headerContent, hparse, hlen, (sendBy_blocking hser).2⟩

/-- The check of `receiveFrom`. -/
theorem Framed.assert_iff {c : NetPackHeader.Codec} {p : NetPack} (h : Framed c p) :
    (Int32.ofNat (c.byteSize p.header) > 0 ∧ Int32.ofNat (c.byteSize p.header) < 1000) ↔ Accepted c p := by
  have hint : (Int32.ofNat (c.byteSize p.header)).toInt = c.byteSize p.header :=
    Int32.toInt_ofNat_of_lt h.header_lt
  have hpos : Int32.ofNat (c.byteSize p.header) > 0 ↔ 1 ≤ c.byteSize p.header := by
    rw [gt_iff_lt, Int32.lt_iff_toInt_lt, hint]
    exact Int.natCast_pos
  have hlt : Int32.ofNat (c.byteSize p.header) < 1000 ↔ c.byteSize p.header ≤ 999 := by
    rw [Int32.lt_iff_toInt_lt, hint, ← Nat.lt_succ_iff]
    exact Int.ofNat_lt
  rw [hpos, hlt, Accepted]

theorem receiveHeaderLength_eq_ok {sock sock' : InSock} {junk headerLength : Int32} :
    receiveHeaderLength sock junk = (.ok (.errorOk, headerLength), sock') ↔
      ∃ buf, sock.read 4 = (.ok buf, sock') ∧ buf.length = 4 ∧ headerLength = fromNetwork buf := by
  unfold receiveHeaderLength
  split
  · next e s hread => simp [hread]
  · next buf s hread =>
    by_cases hlen : buf.length = 4
    · simp [hread, hlen, and_comm, eq_comm]
    · have hne : (.errorPackRecvHeaderLength : Retcode) ≠ .errorOk := by decide
      have hne' : (.errorNetGracefulShutdown : Retcode) ≠ .errorOk := by decide
      split_ifs <;> simp [hread, hlen]

theorem receivePayload_eq_ok {p p' : NetPack} {sock sock' : InSock} :
    p.receivePayload sock = (.ok .errorOk, p', sock') ↔
      ∃ payload, (sock.read p.header.payloadlength.toNatClampNeg = (.ok payload, sock') ∧
          payload.length = p.header.payloadlength.toNatClampNeg ∧ ¬p.header.payloadlength < 0) ∧
        p' = ⟨p.header.payloadtype, payload, p.header.messagename, p.header⟩ := by
  unfold receivePayload
  by_cases hneg : p.header.payloadlength < 0
  · simp [hneg]
  · rw [if_neg hneg]
    split
    · next e s hread => simp [hread]
    · next buf s hread =>
      by_cases hlen : buf.length = p.header.payloadlength.toNatClampNeg
      · simp [hread, hlen, hneg, and_comm, eq_comm]
      · simp [hread, hlen]

/-- What `receiveFrom` reads when it returns `ERROR_OK`: the length, the header and the
payload, each in one call. -/
theorem receiveFrom_eq_ok {c : NetPackHeader.Codec} {junk : Int32} {q p : NetPack} {sock sock' : InSock} :
    q.receiveFrom c junk sock = (.ok .errorOk, p, sock') ↔
      ∃ lengthBuf s₁ headerBuf s₂ header payload,
        (sock.read 4 = (.ok lengthBuf, s₁) ∧ lengthBuf.length = 4 ∧
          fromNetwork lengthBuf > 0 ∧ fromNetwork lengthBuf < 1000) ∧
        (s₁.read (fromNetwork lengthBuf).toNatClampNeg = (.ok headerBuf, s₂) ∧
          c.parseFromString headerBuf = (true, header)) ∧
        (s₂.read header.payloadlength.toNatClampNeg = (.ok payload, sock') ∧
          payload.length = header.payloadlength.toNatClampNeg ∧ ¬header.payloadlength < 0) ∧
        p = ⟨header.payloadtype, payload, header.messagename, header⟩ := by
  constructor
  · intro h
    unfold receiveFrom at h
    split at h
    · simp at h
    · next ret headerLength s₁ hlength =>
      by_cases hassert : headerLength > 0 ∧ headerLength < 1000
      · by_cases hret : ret = .errorOk
        · rw [if_neg (not_not.mpr hassert), if_neg (not_not.mpr hret)] at h
          subst hret
          obtain ⟨lengthBuf, hread₀, hlen, rfl⟩ := receiveHeaderLength_eq_ok.mp hlength
          split at h
          · simp at h
          · next headerBuf s₂ hread₁ =>
            split at h
            · simp at h
            · next header hparse =>
              obtain ⟨payload, hread₂, rfl⟩ := receivePayload_eq_ok.mp h
              exact ⟨lengthBuf, s₁, headerBuf, s₂, header, payload, ⟨hread₀, hlen, hassert⟩, ⟨hread₁, hparse⟩, hread₂,
                rfl⟩
        · rw [if_neg (not_not.mpr hassert), if_pos hret] at h
          simp [hret] at h
      · rw [if_pos hassert] at h
        simp at h
  · rintro ⟨lengthBuf, s₁, headerBuf, s₂, header, payload, ⟨hread₀, hlen, hassert⟩, ⟨hread₁, hparse⟩, hread₂, rfl⟩
    have hlength : receiveHeaderLength sock junk = (.ok (.errorOk, fromNetwork lengthBuf), s₁) :=
      receiveHeaderLength_eq_ok.mpr ⟨lengthBuf, hread₀, hlen, rfl⟩
    simp only [receiveFrom, hlength, if_neg (not_not.mpr hassert), hread₁, hparse, ne_eq, not_true_eq_false, if_false]
    exact receivePayload_eq_ok.mpr ⟨payload, hread₂, rfl⟩

/-- The pack as it is received: type and name are those of its header. -/
def arrived (p : NetPack) : NetPack := ⟨p.header.payloadtype, p.payload, p.header.messagename, p.header⟩

/-- A pack built from a message, or given one, is received as it is. -/
theorem Built.arrived_eq {p : NetPack} (h : p.Built) : p.arrived = p := by
  cases h <;> rfl

/-- A pack that was sent is received. -/
theorem receiveFrom_sent {c : NetPackHeader.Codec} (hc : c.Lossless) {p : NetPack} (h : Framed c p)
    (hacc : Accepted c p) {sock : InSock} {rest : Bytes} (hitems : sock.items = sent c p ++ rest)
    (hwhole : Whole c p sock.arrivals) (junk : Int32) (q : NetPack) :
    q.receiveFrom c junk sock = (.ok .errorOk, p.arrived, ⟨rest, fun i => sock.arrivals (i + 3)⟩) := by
  obtain ⟨headerContent, hparse, hlen, hsent⟩ := sent_eq hc p
  obtain ⟨h₀, h₁, h₂⟩ := hwhole
  have hclamp : p.header.payloadlength.toNatClampNeg = p.payload.length := by
    rw [h.length_eq]
    exact toNatClampNeg_ofNat h.payload_lt
  have hnonneg : ¬p.header.payloadlength < 0 := by
    rw [h.length_eq]
    exact not_ofNat_lt_zero h.payload_lt
  have hheader := toNatClampNeg_ofNat h.header_lt
  rw [hsent, List.append_assoc, List.append_assoc] at hitems
  obtain ⟨s₁, hs₁⟩ : ∃ s, s = sock.next (headerContent ++ (p.payload ++ rest)) := ⟨_, rfl⟩
  obtain ⟨s₂, hs₂⟩ : ∃ s, s = s₁.next (p.payload ++ rest) := ⟨_, rfl⟩
  have hread₀ : sock.read 4 = (.ok (toNetwork (Int32.ofNat (c.byteSize p.header))), s₁) := by
    rw [hs₁]
    exact Source.read_of_atLeast h₀ hitems (length_toNetwork _)
  have hread₁ : s₁.read (c.byteSize p.header) = (.ok headerContent, s₂) := by
    rw [hs₂]
    subst hs₁
    exact Source.read_of_atLeast h₁ rfl hlen
  have hread₂ : s₂.read p.payload.length = (.ok p.payload, ⟨rest, fun i => sock.arrivals (i + 3)⟩) := by
    subst hs₂ hs₁
    exact Source.read_of_atLeast h₂ rfl rfl
  apply receiveFrom_eq_ok.mpr
  refine ⟨_, s₁, headerContent, s₂, p.header, p.payload, ⟨hread₀, length_toNetwork _, ?_⟩, ⟨?_, hparse⟩,
    ⟨?_, hclamp.symm, hnonneg⟩, rfl⟩
  · rw [fromNetwork_toNetwork]
    exact h.assert_iff.mpr hacc
  · rw [fromNetwork_toNetwork, hheader]
    exact hread₁
  · rw [hclamp]
    exact hread₂

/-- The sent pack comes out only where no part of it is cut: as many bytes are taken as
were sent, and the payload has the length it had. -/
theorem whole_of_receiveFrom {c : NetPackHeader.Codec} (hc : c.Lossless) {p : NetPack} (h : Framed c p)
    {sock sock' : InSock} {rest : Bytes} {junk : Int32} {q p' : NetPack} (hitems : sock.items = sent c p ++ rest)
    (hok : q.receiveFrom c junk sock = (.ok .errorOk, p', sock')) (hpayload : p'.payload.length = p.payload.length)
    (hrest : sock'.items.length = rest.length) : Whole c p sock.arrivals := by
  obtain ⟨headerContent, hparse, hlen, hsent⟩ := sent_eq hc p
  obtain ⟨lengthBuf, s₁, headerBuf, s₂, header, payload, ⟨hread₀, hlen₀, -⟩, ⟨hread₁, -⟩, ⟨hread₂, hlen₂, -⟩, rfl⟩ :=
    receiveFrom_eq_ok.mp hok
  have happ₀ := (Source.read_append hread₀).1
  have happ₁ := Source.read_append hread₁
  have happ₂ := (Source.read_append hread₂).1
  have hbuf : lengthBuf = toNetwork (Int32.ofNat (c.byteSize p.header)) := by
    rw [happ₀, hsent, List.append_assoc] at hitems
    exact (List.append_inj hitems (by rw [hlen₀, length_toNetwork])).1
  have hheader : (fromNetwork lengthBuf).toNatClampNeg = c.byteSize p.header := by
    rw [hbuf, fromNetwork_toNetwork]
    exact toNatClampNeg_ofNat h.header_lt
  -- as many bytes as were sent are read, and all but those of the header are accounted for
  have htotal : headerBuf.length = c.byteSize p.header := by
    have hcount := congrArg List.length hitems
    rw [happ₀, happ₁.1, happ₂, hsent] at hcount
    simp only [List.length_append, length_toNetwork] at hcount
    have hpay : payload.length = p.payload.length := hpayload
    omega
  constructor
  · exact Source.atLeast_of_length_eq hread₀ hlen₀
  · constructor
    · rw [hheader] at hread₁
      rw [← Source.arrivals_of_read hread₀ 0]
      exact Source.atLeast_of_length_eq hread₁ htotal
    · rw [← hpayload]
      rw [← Source.arrivals_of_read hread₀ 1, ← Source.arrivals_of_read hread₁ 0]
      rw [← hlen₂] at hread₂
      exact Source.atLeast_of_length_eq hread₂ rfl

/-- A length that is cut is not looked at: no more is read. -/
theorem receiveFrom_cut_length {c : NetPackHeader.Codec} {sock s : InSock} {buf : Bytes} {junk : Int32} {q : NetPack}
    (hread : sock.read 4 = (.ok buf, s)) (hlen : buf.length ≠ 4) : (q.receiveFrom c junk sock).2.2 = s := by
  have hcut : ∃ ret, receiveHeaderLength sock junk = (.ok (ret, junk), s) ∧ ret ≠ .errorOk := by
    by_cases h0 : buf.length = 0
    · exact ⟨.errorNetGracefulShutdown, by simp [receiveHeaderLength, hread, h0], by decide⟩
    · exact ⟨.errorPackRecvHeaderLength, by simp [receiveHeaderLength, hread, hlen, h0], by decide⟩
  obtain ⟨ret, hret, hne⟩ := hcut
  simp only [receiveFrom, hret, if_pos hne]
  split_ifs <;> rfl

/-- A header that is too long, or empty, is refused when its length has been read. -/
theorem receiveFrom_refused {c : NetPackHeader.Codec} (hc : c.Lossless) {p : NetPack} (h : Framed c p)
    (hacc : ¬Accepted c p) {sock : InSock} {rest : Bytes} (hitems : sock.items = sent c p ++ rest)
    (h₀ : (sock.arrivals 0).AtLeast 4) (junk : Int32) (q : NetPack) :
    ∃ rest', q.receiveFrom c junk sock = (.error .assertion, q.clear, sock.next rest') ∧
      sock.items.length = 4 + rest'.length := by
  obtain ⟨headerContent, -, -, hsent⟩ := sent_eq hc p
  rw [hsent, List.append_assoc] at hitems
  have hread := Source.read_of_atLeast h₀ hitems (length_toNetwork _)
  have hlength : receiveHeaderLength sock junk =
      (.ok (.errorOk, Int32.ofNat (c.byteSize p.header)), sock.next (headerContent ++ p.payload ++ rest)) := by
    apply receiveHeaderLength_eq_ok.mpr
    exact ⟨_, hread, length_toNetwork _, (fromNetwork_toNetwork _).symm⟩
  refine ⟨headerContent ++ p.payload ++ rest, ?_, by rw [hitems, List.length_append, length_toNetwork]⟩
  simp only [receiveFrom, hlength, if_pos (h.assert_iff.not.mpr hacc)]

/-! ### A sequence of packs -/

/-- What a call of `receiveFrom` is given: a pack to read into, or none for the one the
last call has read into, and what its variable `headerLength` happens to hold. -/
structure Call where
  into : Option NetPack
  junk : Int32

/-- What comes of a call: the code, the pack, and the bytes it has taken off the stream. -/
structure Received where
  ret : Except Exception Retcode
  pack : NetPack
  taken : Bytes

/-- One call of `receiveFrom`; the last one has read into `last`. -/
def receive (call : Call) (last : NetPack) (sock : InSock) : Received × InSock :=
  let r := (call.into.getD last).receiveFrom c call.junk sock
  (⟨r.1, r.2.1, sock.items.take (sock.items.length - r.2.2.items.length)⟩, r.2.2)

/-- One call after the other. -/
def receiveEach : List Call → NetPack → InSock → List Received × InSock
  | [], _, sock => ([], sock)
  | call :: calls, last, sock =>
    let r := receive c call last sock
    let rs := receiveEach calls r.1.pack r.2
    (r.1 :: rs.1, rs.2)

/-- Each call of `receiveBytes` for these packs returns all that is asked for. -/
def WholeEach : List NetPack → (ℕ → Arrival Exception) → Prop
  | [], _ => True
  | p :: ps, arrivals => Whole c p arrivals ∧ WholeEach ps fun i => arrivals (i + 3)

/-- A pack that was sent is received, and its bytes are taken. -/
theorem receive_sent {c : NetPackHeader.Codec} (hc : c.Lossless) {p : NetPack} (h : Framed c p) (hacc : Accepted c p)
    {sock : InSock} {rest : Bytes} (hitems : sock.items = sent c p ++ rest) (hwhole : Whole c p sock.arrivals)
    (call : Call) (last : NetPack) :
    receive c call last sock = (⟨.ok .errorOk, p.arrived, sent c p⟩, ⟨rest, fun i => sock.arrivals (i + 3)⟩) := by
  have htaken : sock.items.take (sock.items.length - rest.length) = sent c p := by simp [hitems]
  rw [receive, receiveFrom_sent hc h hacc hitems hwhole]
  simp only [htaken]

/-- A pack that can be sent: built from a message or given one, with a header that
`receiveFrom` does not refuse and a payload of less than 2 GB. -/
structure Sendable (p : NetPack) : Prop where
  built : p.Built
  accepted : Accepted c p
  payload_lt : p.payload.length < 2 ^ 31

/-- Packs that were sent one after the other are received one after the other. -/
theorem receiveEach_sent {c : NetPackHeader.Codec} (hc : c.Lossless) {ps : List NetPack} (hps : ∀ p ∈ ps, Sendable c p)
    {calls : List Call} (hcalls : calls.length = ps.length) (last : NetPack) (rest : Bytes)
    {arrivals : ℕ → Arrival Exception} (hwhole : WholeEach c ps arrivals) :
    receiveEach c calls last ⟨(ps.map (sent c)).flatten ++ rest, arrivals⟩ =
      (ps.map fun p => ⟨.ok .errorOk, p, sent c p⟩, ⟨rest, fun i => arrivals (i + 3 * ps.length)⟩) := by
  induction ps generalizing calls last arrivals with
  | nil =>
    rw [List.length_nil, List.length_eq_zero_iff] at hcalls
    subst hcalls
    rfl
  | cons p ps ih =>
    obtain ⟨call, calls, rfl⟩ := List.exists_cons_of_length_eq_add_one hcalls
    have hcalls' : calls.length = ps.length := by simpa using hcalls
    have hitems : ((p :: ps).map (sent c)).flatten ++ rest = sent c p ++ ((ps.map (sent c)).flatten ++ rest) := by
      simp
    have hp := hps p List.mem_cons_self
    have hhead := @receive_sent c hc p (hp.built.framed hp.accepted hp.payload_lt) hp.accepted ⟨_, arrivals⟩ _ hitems
      hwhole.1 call last
    rw [hp.built.arrived_eq] at hhead
    have htail := ih (fun q hq => hps q (List.mem_cons_of_mem p hq)) hcalls' p hwhole.2
    rw [receiveEach, hhead]
    simp only [htail, List.map_cons]
    rfl

/-- A "Login" of three bytes. -/
def login : NetPack := ofMessage 1 ⟨[76, 111, 103, 105, 110], some [10, 1, 65]⟩

/-- That, and an empty "Logout" that the same pack is given afterwards. -/
def loginThenLogout : List NetPack := [login, login.setMessage (-2) ⟨[76, 111, 103, 111, 117, 116], some []⟩]

theorem sendable_loginThenLogout : ∀ p ∈ loginThenLogout, Sendable .wire p := by
  intro p hp
  simp only [loginThenLogout, List.mem_cons, List.not_mem_nil, or_false] at hp
  obtain rfl | rfl := hp
  · exact ⟨.new _ _, ⟨by decide, by decide⟩, by decide⟩
  · exact ⟨.set _ _ _, ⟨by decide, by decide⟩, by decide⟩

theorem receiveEach_sent_loginThenLogout :
    receiveEach .wire [⟨none, 0⟩, ⟨none, -1⟩] .new
        ⟨(loginThenLogout.map (sent .wire)).flatten ++ [0, 0], fun _ => .upTo 100⟩ =
      (loginThenLogout.map fun p => ⟨.ok .errorOk, p, sent .wire p⟩, ⟨[0, 0], fun _ => .upTo 100⟩) :=
  receiveEach_sent NetPackHeader.Codec.wire_lossless sendable_loginThenLogout rfl .new [0, 0]
    (by simp only [loginThenLogout, WholeEach, Whole, Arrival.AtLeast]; decide)

/-! ### How the stream is cut -/

/-- How many bytes are there at each of the calls of `receiveBytes`. -/
abbrev Segmentation := ℕ → ℕ+

/-- The calls of `receiveBytes` with this segmentation; none of them throws. -/
def arrivals (σ : Segmentation) (i : ℕ) : Arrival Exception := .upTo (σ i)

/-- What the caller has of a pack. -/
def contents (p : NetPack) : Int32 × Bytes × Bytes := (p.payloadType, p.messageName, p.payload)

/-- Two outcomes agree: the code, what is in the pack, and the number of bytes taken. -/
def Agree (r₁ r₂ : Received) : Prop :=
  r₁.ret = r₂.ret ∧ r₁.pack.contents = r₂.pack.contents ∧ r₁.taken.length = r₂.taken.length

/-- A pack is received from a stream that is cut in this way. -/
def receiveCut (p : NetPack) (rest : Bytes) (call : Call) (last : NetPack) (σ : Segmentation) : Received :=
  (receive c call last ⟨sent c p ++ rest, arrivals σ⟩).1

/-- No part of the pack that is read is cut. -/
def Uncut (p : NetPack) (σ : Segmentation) : Prop :=
  4 ≤ (σ 0 : ℕ) ∧ (Accepted c p → c.byteSize p.header ≤ σ 1 ∧ p.payload.length ≤ σ 2)

theorem uncut_iff_whole {c : NetPackHeader.Codec} {p : NetPack} (hacc : Accepted c p) (σ : Segmentation) :
    Uncut c p σ ↔ Whole c p (arrivals σ) := by
  constructor
  · intro h
    exact ⟨h.1, h.2 hacc⟩
  · intro h
    exact ⟨h.1, fun _ => h.2⟩

/-- A length that is cut is all that is taken. -/
theorem length_taken_cut {c : NetPackHeader.Codec} (p : NetPack) (rest : Bytes) (call : Call) (last : NetPack)
    {σ : Segmentation} (hσ : (σ 0 : ℕ) < 4) : (receiveCut c p rest call last σ).taken.length < 4 := by
  obtain ⟨buf, s, hread⟩ :
      ∃ buf s, Source.read (⟨sent c p ++ rest, arrivals σ⟩ : InSock) 4 = (.ok buf, s) := ⟨_, _, rfl⟩
  have hlen : buf.length ≠ 4 := by
    intro h4
    have hle : 4 ≤ (σ 0 : ℕ) := Source.atLeast_of_length_eq hread h4
    omega
  obtain ⟨happ, hle⟩ := Source.read_append hread
  simp only [receiveCut, receive, receiveFrom_cut_length hread hlen, List.length_take]
  rw [show sent c p ++ rest = buf ++ s.items from happ, List.length_append]
  omega

/-- A pack with a header that is refused, where its length is not cut. -/
theorem receiveCut_refused {c : NetPackHeader.Codec} (hc : c.Lossless) {p : NetPack} (h : Framed c p)
    (hacc : ¬Accepted c p) (rest : Bytes) (call : Call) (last : NetPack) {σ : Segmentation} (hσ : 4 ≤ (σ 0 : ℕ)) :
    receiveCut c p rest call last σ = ⟨.error .assertion, .new, (sent c p ++ rest).take 4⟩ := by
  obtain ⟨rest', hreceive, hlen⟩ :=
    @receiveFrom_refused c hc p h hacc ⟨sent c p ++ rest, arrivals σ⟩ rest rfl hσ call.junk (call.into.getD last)
  simp only [receiveCut, receive, hreceive, Source.items_next] at hlen ⊢
  rw [hlen, Nat.add_sub_cancel]
  rfl

/-- A pack that is not cut. -/
theorem receiveCut_whole {c : NetPackHeader.Codec} (hc : c.Lossless) {p : NetPack} (h : Framed c p)
    (hacc : Accepted c p) (rest : Bytes) (call : Call) (last : NetPack) {σ : Segmentation}
    (hσ : Whole c p (arrivals σ)) : receiveCut c p rest call last σ = ⟨.ok .errorOk, p.arrived, sent c p⟩ := by
  rw [receiveCut, receive_sent hc h hacc rfl hσ]

theorem four_le_length_sent {c : NetPackHeader.Codec} (hc : c.Lossless) (p : NetPack) : 4 ≤ (sent c p).length := by
  obtain ⟨headerContent, -, -, hsent⟩ := sent_eq hc p
  rw [hsent, List.length_append, length_toNetwork]
  omega

/-- The sent pack, and no more than its bytes, comes out only where it is not cut. -/
theorem whole_of_agree {c : NetPackHeader.Codec} (hc : c.Lossless) {p : NetPack} (h : Framed c p) {rest : Bytes}
    {call : Call} {last : NetPack} {σ : Segmentation}
    (hagree : Agree ⟨.ok .errorOk, p.arrived, sent c p⟩ (receiveCut c p rest call last σ)) :
    Whole c p (arrivals σ) := by
  obtain ⟨hret, hcontents, htaken⟩ := hagree
  obtain ⟨ret, p', sock', hreceive⟩ :
      ∃ ret p' sock', (call.into.getD last).receiveFrom c call.junk ⟨sent c p ++ rest, arrivals σ⟩ = (ret, p', sock') :=
    ⟨_, _, _, rfl⟩
  simp only [receiveCut, receive, hreceive] at hret hcontents htaken
  subst hret
  have hpayload : p'.payload.length = p.payload.length := by
    simp only [contents, Prod.mk.injEq] at hcontents
    rw [← hcontents.2.2, arrived]
  have hrest : sock'.items.length = rest.length := by
    have hpos := four_le_length_sent hc p
    simp only [List.length_take, List.length_append] at htaken
    omega
  exact whole_of_receiveFrom hc h rfl hreceive hpayload hrest

/-- A segmentation has the outcome of one that does not cut the pack only when it does
not cut it either. -/
theorem agree_iff_uncut {c : NetPackHeader.Codec} (hc : c.Lossless) {p : NetPack} (h : Framed c p) (rest : Bytes)
    {call call' : Call} {last last' : NetPack} {σ σ' : Segmentation} (hσ : Uncut c p σ) :
    Agree (receiveCut c p rest call last σ) (receiveCut c p rest call' last' σ') ↔ Uncut c p σ' := by
  by_cases hacc : Accepted c p
  · rw [uncut_iff_whole hacc] at hσ ⊢
    constructor
    · intro hagree
      rw [receiveCut_whole hc h hacc rest call last hσ] at hagree
      exact whole_of_agree hc h hagree
    · intro hσ'
      rw [receiveCut_whole hc h hacc rest call last hσ, receiveCut_whole hc h hacc rest call' last' hσ']
      exact ⟨rfl, rfl, rfl⟩
  · rw [receiveCut_refused hc h hacc rest call last hσ.1]
    constructor
    · intro hagree
      refine ⟨?_, fun hacc' => absurd hacc' hacc⟩
      by_contra hlt
      have hcut := @length_taken_cut c p rest call' last' σ' (Nat.lt_of_not_le hlt)
      have hpos := four_le_length_sent hc p
      have htaken := hagree.2.2
      rw [List.length_take, List.length_append] at htaken
      omega
    · intro hσ'
      rw [receiveCut_refused hc h hacc rest call' last' hσ'.1]
      exact ⟨rfl, rfl, rfl⟩

/-- A transport may deliver the pack uncut, and may do other things. What comes of
`receiveFrom` is the same whatever it does just when it never cuts the pack. -/
theorem receiveFrom_agree_iff {c : NetPackHeader.Codec} (hc : c.Lossless) {p : NetPack} (h : Framed c p) (rest : Bytes)
    (call : Segmentation → Call) (last : Segmentation → NetPack) {segmentations : Set Segmentation}
    (hsome : ∃ σ ∈ segmentations, Uncut c p σ) :
    (∀ σ ∈ segmentations, ∀ σ' ∈ segmentations,
        Agree (receiveCut c p rest (call σ) (last σ) σ) (receiveCut c p rest (call σ') (last σ') σ')) ↔
      ∀ σ ∈ segmentations, Uncut c p σ := by
  constructor
  · intro hagree σ' hσ'
    obtain ⟨σ, hσ, huncut⟩ := hsome
    exact (agree_iff_uncut hc h rest huncut).mp (hagree σ hσ σ' hσ')
  · intro huncut σ hσ σ' hσ'
    exact (agree_iff_uncut hc h rest (huncut σ hσ)).mpr (huncut σ' hσ')

theorem receiveFrom_agree_iff_login :
    (∀ σ ∈ Set.univ, ∀ σ' ∈ Set.univ,
        Agree (receiveCut .wire login [] ⟨none, 0⟩ .new σ) (receiveCut .wire login [] ⟨none, 0⟩ .new σ')) ↔
      ∀ σ ∈ Set.univ, Uncut .wire login σ :=
  receiveFrom_agree_iff NetPackHeader.Codec.wire_lossless ⟨by decide, by decide, by decide⟩ [] (fun _ => ⟨none, 0⟩)
    (fun _ => .new) ⟨fun _ => 100, trivial, by decide, fun _ => ⟨by decide, by decide⟩⟩

/-- The payload comes in two parts: it is given up after the first one. -/
theorem receiveFrom_cut_payload :
    ¬Agree (receiveCut .wire login [] ⟨none, 0⟩ .new fun _ => 100)
      (receiveCut .wire login [] ⟨none, 0⟩ .new fun i => if i = 2 then 1 else 100) := by
  intro h
  have hcontents := h.2.1
  revert hcontents
  decide

end NetPack

end CoolDown
