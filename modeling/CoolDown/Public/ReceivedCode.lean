import CoolDown.Public.NetPack

/-!
# What a peer can do to `receiveFrom`

A peer may send any bytes and close the connection at any point. `receiveFrom` has a code for most of this. But it
checks the length of the header before it looks whether a length has come: if none has, what it checks is what the
variable happens to hold. And the length of the payload, which the peer states, goes to a buffer unchecked.

## What is proved

* `receiveFrom_short`, `receiveFrom_long`: `receiveFrom` by what the first call of `receiveBytes` returns.
* `received_iff_acceptable`: it returns a code, the right one, and a pack that is as its header says, just when what it
  checks and what it allocates are in range.
* `closed_at_once`: a connection that is closed before the first byte, and two packs that are not in range.
-/

namespace CoolDown

open Library

namespace NetPack

variable (stream : Bytes) (σ : Segmentation)

/-- What the first call of `receiveBytes` returns. -/
def lengthPart : Bytes := stream.take (min 4 (σ 0))

/-- The length of the header, if all four bytes of it are there. -/
def statedLength : Int32 := fromNetwork (lengthPart stream σ)

/-- What the second call returns. -/
def headerPart : Bytes :=
  (stream.drop (min 4 (σ 0))).take (min (statedLength stream σ).toNatClampNeg (σ 1))

/-- A length that passes the assertion. -/
def InRange (headerLength : Int32) : Prop := headerLength > 0 ∧ headerLength < 1000

instance (headerLength : Int32) : Decidable (InRange headerLength) := inferInstanceAs (Decidable (_ ∧ _))

/-- What `receiveFrom` checks is in range, and so is what it allocates. -/
def Acceptable (c : NetPackHeader.Codec) (junk : Int32) : Prop :=
  ((lengthPart stream σ).length ≠ 4 → InRange junk) ∧
    ((lengthPart stream σ).length = 4 → InRange (statedLength stream σ) ∧
      ∀ header, c.parseFromString (headerPart stream σ) = (true, header) → 0 ≤ header.payloadlength)

/-- The pack is what the header that was received states. -/
def AsStated (c : NetPackHeader.Codec) (p : NetPack) : Prop :=
  ∃ header, c.parseFromString (headerPart stream σ) = (true, header) ∧
    (p.payload.length : ℤ) = header.payloadlength.toInt ∧ p.payloadType = header.payloadtype ∧
    p.messageName = header.messagename

/-- A code comes back; it is the one for a connection that was closed if nothing came, and with `ERROR_OK` the pack is
what its header states. -/
def Received.Right (c : NetPackHeader.Codec) (r : Except Exception Retcode × NetPack × InSock) : Prop :=
  ∃ ret, r.1 = .ok ret ∧ (stream = [] → ret = .errorNetGracefulShutdown) ∧ (ret = .errorOk → AsStated stream σ c r.2.1)

variable {stream σ} {c : NetPackHeader.Codec} {junk : Int32}

/-! ### The calls of `receiveBytes` -/

theorem read_arrivals (stream : Bytes) (σ : Segmentation) (n : ℕ) :
    (⟨stream, arrivals σ⟩ : InSock).read n =
      (.ok (stream.take (min n (σ 0))), ⟨stream.drop (min n (σ 0)), arrivals fun i => σ (i + 1)⟩) := rfl

/-- Fewer than four bytes come first: there is no length, and `headerLength` is as it was. -/
theorem receiveHeaderLength_short (hlen : (lengthPart stream σ).length ≠ 4) :
    ∃ ret sock, receiveHeaderLength ⟨stream, arrivals σ⟩ junk = (.ok (ret, junk), sock) ∧ ret ≠ .errorOk ∧
      (stream = [] → ret = .errorNetGracefulShutdown) := by
  unfold lengthPart at hlen
  unfold receiveHeaderLength
  rw [read_arrivals]
  simp only
  rw [if_pos hlen]
  split_ifs with hnone
  · exact ⟨_, _, rfl, by decide, fun _ => rfl⟩
  · refine ⟨_, _, rfl, by decide, ?_⟩
    rintro rfl
    exact absurd (congrArg List.length List.take_nil) hnone

/-- Four bytes come first: they are the length. -/
theorem receiveHeaderLength_long (hlen : (lengthPart stream σ).length = 4) :
    receiveHeaderLength ⟨stream, arrivals σ⟩ junk = (.ok (.errorOk, statedLength stream σ),
      ⟨stream.drop (min 4 (σ 0)), arrivals fun i => σ (i + 1)⟩) :=
  receiveHeaderLength_eq_ok.mpr ⟨_, read_arrivals stream σ 4, hlen, rfl⟩

/-! ### `receiveFrom` -/

/-- A length out of range does not pass the assertion, whether it has come or not. -/
theorem receiveFrom_of_not_inRange {sock sock' : InSock} {ret : Retcode} {n : Int32} (q : NetPack)
    (hlength : receiveHeaderLength sock junk = (.ok (ret, n), sock')) (hn : ¬ InRange n) :
    (q.receiveFrom c junk sock).1 = .error .assertion := by
  unfold InRange at hn
  unfold receiveFrom
  rw [hlength]
  simp only
  rw [if_pos hn]

/-- After the assertion the code is looked at. -/
theorem receiveFrom_of_ne_ok {sock sock' : InSock} {ret : Retcode} {n : Int32} (q : NetPack)
    (hlength : receiveHeaderLength sock junk = (.ok (ret, n), sock')) (hn : InRange n) (hret : ret ≠ .errorOk) :
    (q.receiveFrom c junk sock).1 = .ok ret := by
  unfold InRange at hn
  unfold receiveFrom
  rw [hlength]
  simp only
  rw [if_neg (not_not.mpr hn), if_pos hret]

/-- A header that has been parsed. -/
theorem receiveFrom_of_parsed {sock s₁ s₂ : InSock} {n : Int32} {buf : Bytes} {header : NetPackHeader} (q : NetPack)
    (hlength : receiveHeaderLength sock junk = (.ok (.errorOk, n), s₁)) (hn : InRange n)
    (hread : s₁.read n.toNatClampNeg = (.ok buf, s₂)) (hparse : c.parseFromString buf = (true, header)) :
    q.receiveFrom c junk sock = { q.clear with header }.receivePayload s₂ := by
  unfold InRange at hn
  unfold receiveFrom
  rw [hlength]
  simp only
  rw [if_neg (not_not.mpr hn), if_neg (not_not.mpr rfl), hread]
  simp only [hparse]

/-- A header that cannot be parsed. -/
theorem receiveFrom_of_not_parsed {sock s₁ s₂ : InSock} {n : Int32} {buf : Bytes} {header : NetPackHeader} (q : NetPack)
    (hlength : receiveHeaderLength sock junk = (.ok (.errorOk, n), s₁)) (hn : InRange n)
    (hread : s₁.read n.toNatClampNeg = (.ok buf, s₂)) (hparse : c.parseFromString buf = (false, header)) :
    (q.receiveFrom c junk sock).1 = .ok .errorPackProtoParse := by
  unfold InRange at hn
  unfold receiveFrom
  rw [hlength]
  simp only
  rw [if_neg (not_not.mpr hn), if_neg (not_not.mpr rfl), hread]
  simp only [hparse]

/-- A payload whose length is negative is too long for the buffer. -/
theorem receivePayload_of_neg {p : NetPack} (hneg : p.header.payloadlength < 0) (sock : InSock) :
    (p.receivePayload sock).1 = .error .badAlloc := by
  unfold receivePayload
  rw [if_pos hneg]

/-- Any other one comes, or there is a code for what is missing. -/
theorem receivePayload_of_nonneg {p : NetPack} (hnonneg : 0 ≤ p.header.payloadlength) {sock sock' : InSock} {buf : Bytes}
    (hread : sock.read p.header.payloadlength.toNatClampNeg = (.ok buf, sock')) :
    ∃ ret, (p.receivePayload sock).1 = .ok ret ∧
      (ret = .errorOk → ((p.receivePayload sock).2.1.payload.length : ℤ) = p.header.payloadlength.toInt ∧
        (p.receivePayload sock).2.1.payloadType = p.header.payloadtype ∧
        (p.receivePayload sock).2.1.messageName = p.header.messagename) := by
  unfold receivePayload
  rw [if_neg (Int32.not_lt.mpr hnonneg), hread]
  simp only
  split_ifs with hlen
  · exact ⟨_, rfl, by rintro ⟨⟩⟩
  · refine ⟨_, rfl, fun _ => ⟨?_, rfl, rfl⟩⟩
    rw [not_not.mp hlen, ← Int32.toNat_toInt]
    exact Int.toNat_of_nonneg (Int32.le_iff_toInt_le.mp hnonneg)

/-- What `receiveFrom` makes of a header that it can parse. -/
theorem right_of_parsed {sock s₁ s₂ : InSock} {n : Int32} {header : NetPackHeader} (q : NetPack) (hstream : stream ≠ [])
    (hlength : receiveHeaderLength sock junk = (.ok (.errorOk, n), s₁)) (hn : InRange n)
    (hread : s₁.read n.toNatClampNeg = (.ok (headerPart stream σ), s₂))
    (hparse : c.parseFromString (headerPart stream σ) = (true, header))
    (hpayload : ∀ m, ∃ buf s₃, s₂.read m = (.ok buf, s₃)) :
    Received.Right stream σ c (q.receiveFrom c junk sock) ↔ 0 ≤ header.payloadlength := by
  unfold Received.Right
  rw [receiveFrom_of_parsed q hlength hn hread hparse]
  by_cases hneg : header.payloadlength < 0
  · refine iff_of_false ?_ (Int32.not_le.mpr hneg)
    rintro ⟨ret, hret, -⟩
    rw [@receivePayload_of_neg { q.clear with header } hneg s₂] at hret
    cases hret
  · have hnonneg : 0 ≤ header.payloadlength := Int32.not_lt.mp hneg
    obtain ⟨buf, s₃, hread₂⟩ := hpayload header.payloadlength.toNatClampNeg
    obtain ⟨ret, hret, hok⟩ := @receivePayload_of_nonneg { q.clear with header } hnonneg s₂ s₃ buf hread₂
    exact iff_of_true ⟨ret, hret, fun h => absurd h hstream, fun h => ⟨header, hparse, hok h⟩⟩ hnonneg

/-- **What a peer can do.** Whatever is sent, `receiveFrom` returns the right code with the right pack just when what it
checks and what it allocates are in range. -/
theorem received_iff_acceptable (c : NetPackHeader.Codec) (junk : Int32) (q : NetPack) (stream : Bytes)
    (σ : Segmentation) :
    Received.Right stream σ c (q.receiveFrom c junk ⟨stream, arrivals σ⟩) ↔ Acceptable stream σ c junk := by
  by_cases hlen : (lengthPart stream σ).length = 4
  · have hstream : stream ≠ [] := by
      rintro rfl
      exact absurd hlen (by rw [lengthPart, List.take_nil]; decide)
    have hlength := @receiveHeaderLength_long stream σ junk hlen
    by_cases hrange : InRange (statedLength stream σ)
    · obtain ⟨s₂, hread, hpayload⟩ : ∃ s₂ : InSock,
          (⟨stream.drop (min 4 (σ 0)), arrivals fun i => σ (i + 1)⟩ : InSock).read
            (statedLength stream σ).toNatClampNeg = (.ok (headerPart stream σ), s₂) ∧
          ∀ m, ∃ buf s₃, s₂.read m = (.ok buf, s₃) := ⟨_, rfl, fun m => ⟨_, _, read_arrivals _ _ m⟩⟩
      obtain ⟨⟨parsed, header⟩, hparse⟩ : ∃ r, c.parseFromString (headerPart stream σ) = r := ⟨_, rfl⟩
      cases parsed with
      | false =>
        refine iff_of_true ⟨_, receiveFrom_of_not_parsed q hlength hrange hread hparse, ?_, by rintro ⟨⟩⟩ ?_
        · exact fun h => absurd h hstream
        · refine ⟨fun h => absurd hlen h, fun _ => ⟨hrange, fun header' hparse' => ?_⟩⟩
          rw [hparse] at hparse'
          cases hparse'
      | true =>
        rw [right_of_parsed q hstream hlength hrange hread hparse hpayload]
        constructor
        · intro hnonneg
          refine ⟨fun h => absurd hlen h, fun _ => ⟨hrange, fun header' hparse' => ?_⟩⟩
          rw [hparse] at hparse'
          obtain rfl := (Prod.mk.inj hparse').2
          exact hnonneg
        · exact fun hacceptable => (hacceptable.2 hlen).2 header hparse
    · refine iff_of_false ?_ fun hacceptable => hrange (hacceptable.2 hlen).1
      rintro ⟨ret, hret, -⟩
      rw [receiveFrom_of_not_inRange q hlength hrange] at hret
      cases hret
  · obtain ⟨ret, sock, hlength, hne, hclosed⟩ := @receiveHeaderLength_short stream σ junk hlen
    by_cases hjunk : InRange junk
    · refine iff_of_true ⟨ret, receiveFrom_of_ne_ok q hlength hjunk hne, hclosed, fun h => absurd h hne⟩ ?_
      exact ⟨fun _ => hjunk, fun h => absurd h hlen⟩
    · refine iff_of_false ?_ fun hacceptable => hjunk (hacceptable.1 hlen)
      rintro ⟨ret, hret, -⟩
      rw [receiveFrom_of_not_inRange q hlength hjunk] at hret
      cases hret

/-- **A connection that is closed at once** while `headerLength` happens to be zero, a header that is said to have a
thousand bytes, and a payload that is said to have minus one. -/
theorem closed_at_once :
    (new.receiveFrom .wire 0 ⟨[], arrivals fun _ => 4⟩).1 = .error .assertion ∧
      (new.receiveFrom .wire 1 ⟨[0, 0, 3, 232], arrivals fun _ => 4⟩).1 = .error .assertion ∧
      (new.receiveFrom .wire 1 ⟨[0, 0, 0, 11, 16, 255, 255, 255, 255, 255, 255, 255, 255, 255, 1],
        arrivals fun _ => 100⟩).1 = .error .badAlloc ∧
      ¬ ∀ (junk : Int32) (q : NetPack) (stream : Bytes) (σ : Segmentation),
        Received.Right stream σ .wire (q.receiveFrom .wire junk ⟨stream, arrivals σ⟩) := by
  have hthrows : (new.receiveFrom .wire 0 ⟨[], arrivals fun _ => 4⟩).1 = .error .assertion := by decide
  refine ⟨hthrows, by decide, by decide, fun h => ?_⟩
  obtain ⟨ret, hret, -⟩ := h 0 new [] fun _ => 4
  rw [hthrows] at hret
  cases hret

end NetPack

end CoolDown
