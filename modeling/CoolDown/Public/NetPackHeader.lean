import CoolDown.Library.Wire
import CoolDown.Public.ErrorCode

/-!
# The header of a pack

`NetPackHeader` of `netpack_header.proto`: three optional fields. The class that reads
and writes it is generated, and all the code needs of it is a `NetPackHeader.Codec` that
is `Lossless`: what is written is read back.

`Codec.wire` is the encoding that the generated class uses. It is lossless
(`Codec.wire_lossless`).
-/

namespace CoolDown

open Library

/-- `NetPackHeader`, its fields set or not. -/
structure NetPackHeader where
  payloadType : Option Int32
  payloadLength : Option Int32
  messageName : Option Bytes
  deriving DecidableEq, Repr

namespace NetPackHeader

/-- A header with no field set. -/
def empty : NetPackHeader := ⟨none, none, none⟩

/-- The field, 0 when it is not set. -/
def payloadtype (h : NetPackHeader) : Int32 := h.payloadType.getD 0

/-- The field, 0 when it is not set. -/
def payloadlength (h : NetPackHeader) : Int32 := h.payloadLength.getD 0

/-- The field, empty when it is not set. -/
def messagename (h : NetPackHeader) : Bytes := h.messageName.getD []

/-- What the code uses of the generated class. A parse that fails leaves a header with
the fields it has come to. -/
structure Codec where
  byteSize : NetPackHeader → ℕ
  serializeToString : NetPackHeader → Option Bytes
  parseFromString : Bytes → Bool × NetPackHeader

/-- What is written is as long as `ByteSize` says, and is read back. -/
def Codec.Lossless (c : Codec) : Prop :=
  ∀ h, ∃ bs, c.serializeToString h = some bs ∧ bs.length = c.byteSize h ∧ c.parseFromString bs = (true, h)

/-! ### The encoding -/

/-- A field is set, unless the message does not have it. -/
def setField (h : NetPackHeader) : Wire.Field → Option NetPackHeader
  | ⟨1, .varint n⟩ => some { h with payloadType := some (Wire.ofInt32Value n) }
  | ⟨2, .varint n⟩ => some { h with payloadLength := some (Wire.ofInt32Value n) }
  | ⟨3, .bytes s⟩ => some { h with messageName := some s }
  | _ => some h

/-- The message: the fields that are set, by their numbers. -/
def message : Wire.Message NetPackHeader where
  toFields h :=
    (h.payloadType.map fun x => ⟨1, .varint (Wire.int32Value x)⟩).toList ++
      (h.payloadLength.map fun x => ⟨2, .varint (Wire.int32Value x)⟩).toList ++
      (h.messageName.map fun s => ⟨3, .bytes s⟩).toList
  init := empty
  setField := setField
  foldlM_toFields := by
    intro h
    obtain ⟨type, length, name⟩ := h
    cases type <;> cases length <;> cases name <;> simp [setField, empty]

/-- The encoding on the wire. -/
def Codec.wire : Codec where
  byteSize h := (message.encode h).length
  serializeToString h := some (message.encode h)
  parseFromString bs :=
    match message.decode bs with
    | none => (false, empty)
    | some h => (true, h)

/-- A header that is written is read back. -/
theorem Codec.wire_lossless : Codec.wire.Lossless := by
  intro h
  refine ⟨message.encode h, rfl, rfl, ?_⟩
  simp only [Codec.wire, Wire.Message.decode_encode]

/-- A header with its fields set has a length that is accepted, if the name is not too long. -/
theorem byteSize_wire_bounds (type length : Int32) {name : Bytes} (h : name.length < 128) :
    1 ≤ Codec.wire.byteSize ⟨some type, some length, some name⟩ ∧
      Codec.wire.byteSize ⟨some type, some length, some name⟩ ≤ 999 := by
  have hvalue : ∀ x : Int32, (varint (Wire.int32Value x)).length ≤ 64 :=
    fun x => length_varint_le (by decide) (x.toInt64.toUInt64.toNat_lt)
  have htag : ∀ n < 32, (varint n).length ≤ 5 := fun n hn => length_varint_le (by decide) hn
  have hpos : 0 < (varint 8).length := List.length_pos_iff.mpr (varint_ne_nil 8)
  have hname : (varint name.length).length ≤ 7 := length_varint_le (by decide) h
  have htype := hvalue type
  have hlength := hvalue length
  have h8 := htag 8 (by decide)
  have h16 := htag 16 (by decide)
  have h26 := htag 26 (by decide)
  have hfields : message.toFields ⟨some type, some length, some name⟩ =
      [⟨1, .varint (Wire.int32Value type)⟩, ⟨2, .varint (Wire.int32Value length)⟩, ⟨3, .bytes name⟩] := rfl
  have hsize : Codec.wire.byteSize ⟨some type, some length, some name⟩ =
      (varint 8).length + (varint (Wire.int32Value type)).length +
        ((varint 16).length + (varint (Wire.int32Value length)).length +
          ((varint 26).length + ((varint name.length).length + name.length))) := by
    simp [Codec.wire, Wire.Message.encode, hfields, Wire.encode, Wire.encodeField]
  omega

end NetPackHeader

end CoolDown
