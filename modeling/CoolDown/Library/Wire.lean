import CoolDown.Library.IntCodec

/-!
# Messages as fields

A message of numbered fields as protobuf writes it: for each field its number and the
kind of its value in one `varint`, and then the value, which is a number, or bytes with
their length before them. The bytes may be a text or another message. What is written is
read back (`decode_encode`). A `Message` says how values of a type are written as fields,
and that they are read back from them.

Values of fixed length are not used, and a message that has one is refused.
-/

namespace Library

namespace Wire

/-- The value of a field. -/
inductive Value where
  | varint (n : ℕ)
  | bytes (bs : List UInt8)
  deriving DecidableEq

/-- A field of a message. -/
structure Field where
  number : ℕ
  value : Value
  deriving DecidableEq

/-- A field as it is written. -/
def encodeField (f : Field) : List UInt8 :=
  match f.value with
  | .varint n => Library.varint (8 * f.number) ++ Library.varint n
  | .bytes bs => Library.varint (8 * f.number + 2) ++ (Library.varint bs.length ++ bs)

/-- A message as it is written. -/
def encode (fs : List Field) : List UInt8 := fs.flatMap encodeField

/-- Reads a value of the kind that `tag` says. -/
def readValue (tag : ℕ) (bs : List UInt8) : Option (Value × List UInt8) :=
  match readVarint bs with
  | none => none
  | some (n, bs) =>
    if tag % 8 = 0 then some (.varint n, bs)
    else if tag % 8 = 2 ∧ n ≤ bs.length then some (.bytes (bs.take n), bs.drop n)
    else none

/-- Reads a field. -/
def readField (bs : List UInt8) : Option (Field × List UInt8) :=
  match readVarint bs with
  | none => none
  | some (tag, bs) => (readValue tag bs).map fun r => (⟨tag / 8, r.1⟩, r.2)

/-- Reads fields up to the end; there are no more of them than bytes. -/
def readFields : ℕ → List UInt8 → Option (List Field)
  | _, [] => some []
  | 0, _ => none
  | k + 1, bs =>
    match readField bs with
    | none => none
    | some (f, bs) => (readFields k bs).map fun fs => f :: fs

/-- The fields of a message. -/
def decode (bs : List UInt8) : Option (List Field) := readFields bs.length bs

theorem encodeField_ne_nil (f : Field) : encodeField f ≠ [] := by
  obtain ⟨number, value⟩ := f
  cases value with
  | varint n =>
    intro h
    exact varint_ne_nil _ (List.append_eq_nil_iff.mp h).1
  | bytes bs =>
    intro h
    exact varint_ne_nil _ (List.append_eq_nil_iff.mp h).1

/-- A field is read back from the front of a message. -/
theorem readField_encodeField (f : Field) (rest : List UInt8) :
    readField (encodeField f ++ rest) = some (f, rest) := by
  obtain ⟨number, value⟩ := f
  cases value with
  | varint n =>
    have hkind : 8 * number % 8 = 0 := by omega
    have hnumber : 8 * number / 8 = number := by omega
    simp only [encodeField, List.append_assoc, readField, readValue, readVarint_varint, if_pos hkind, Option.map_some,
      hnumber]
  | bytes bs =>
    have hkind : (8 * number + 2) % 8 = 2 := by omega
    have hkind' : ¬(8 * number + 2) % 8 = 0 := by omega
    have hnumber : (8 * number + 2) / 8 = number := by omega
    have hlen : bs.length ≤ (bs ++ rest).length := by
      rw [List.length_append]
      omega
    simp only [encodeField, List.append_assoc, readField, readValue, readVarint_varint, if_neg hkind',
      if_pos (And.intro hkind hlen), Option.map_some, hnumber, List.take_left, List.drop_left]

theorem readFields_encode {fs : List Field} {k : ℕ} (hk : (encode fs).length ≤ k) :
    readFields k (encode fs) = some fs := by
  induction fs generalizing k with
  | nil => simp [encode, readFields]
  | cons f fs ih =>
    have hcons : encode (f :: fs) = encodeField f ++ encode fs := List.flatMap_cons
    have hpos : 0 < (encodeField f).length := List.length_pos_iff.mpr (encodeField_ne_nil f)
    rw [hcons, List.length_append] at hk
    obtain ⟨k, rfl⟩ : ∃ j, k = j + 1 := ⟨k - 1, by omega⟩
    have hne : encodeField f ++ encode fs ≠ [] := List.append_ne_nil_of_left_ne_nil (encodeField_ne_nil f) _
    obtain ⟨b, bs, hbs⟩ := List.exists_cons_of_ne_nil hne
    rw [hcons, hbs, readFields, ← hbs, readField_encodeField]
    · simp only [ih (show (encode fs).length ≤ k by omega), Option.map_some]
    · exact List.cons_ne_nil _ _

/-- A message is read back. -/
theorem decode_encode (fs : List Field) : decode (encode fs) = some fs := readFields_encode (Nat.le_refl _)

/-! ### Scalars -/

/-- The number that an `int32` is written as: that of the 64-bit number it extends to. -/
def int32Value (x : Int32) : ℕ := x.toInt64.toUInt64.toNat

/-- The `int32` that is written as such a number. -/
def ofInt32Value (n : ℕ) : Int32 := (UInt64.ofNat n).toInt64.toInt32

@[simp] theorem ofInt32Value_int32Value (x : Int32) : ofInt32Value (int32Value x) = x := by
  rw [ofInt32Value, int32Value, UInt64.ofNat_toNat, Int64.toInt64_toUInt64, Int32.toInt32_toInt64]

/-- The number that an `int64` is written as. -/
def int64Value (x : Int64) : ℕ := x.toUInt64.toNat

/-- The `int64` that is written as such a number. -/
def ofInt64Value (n : ℕ) : Int64 := (UInt64.ofNat n).toInt64

@[simp] theorem ofInt64Value_int64Value (x : Int64) : ofInt64Value (int64Value x) = x := by
  rw [ofInt64Value, int64Value, UInt64.ofNat_toNat, Int64.toInt64_toUInt64]

/-- The bytes of a `string`. -/
def utf8 (s : String) : List UInt8 := s.toUTF8.data.toList

/-- The `string` with these bytes. -/
def ofUtf8 (bs : List UInt8) : Option String := String.fromUTF8? ⟨⟨bs⟩⟩

@[simp] theorem ofUtf8_utf8 (s : String) : ofUtf8 (utf8 s) = some s := by
  unfold ofUtf8 String.fromUTF8?
  split
  · rfl
  · next h => exact absurd s.isValidUTF8 h

/-- An ASCII byte is the code of one character alone. -/
theorem toNat_of_mem_utf8EncodeChar {c : UInt8} {ch : Char} (h : c ∈ String.utf8EncodeChar ch) (hc : c.toNat < 128) :
    ch.toNat = c.toNat := by
  have hlarge : ∀ n k : ℕ, c = UInt8.ofNat (n + k) → 128 ≤ k → n + k < 256 → False := by
    rintro n k rfl hk hlt
    rw [UInt8.toNat_ofNat_of_lt' hlt] at hc
    omega
  unfold String.utf8EncodeChar at h
  simp only at h
  split_ifs at h with h1 h2 h3
  · obtain rfl := List.mem_singleton.mp h
    exact (UInt8.toNat_ofNat_of_lt' (Nat.lt_of_le_of_lt h1 (by decide))).symm
  all_goals
    simp only [List.mem_cons, List.not_mem_nil, or_false] at h
    exfalso
  · rcases h with h | h <;> exact hlarge _ _ h (by decide) (by omega)
  · rcases h with h | h | h <;> exact hlarge _ _ h (by decide) (by omega)
  · rcases h with h | h | h | h <;> exact hlarge _ _ h (by decide) (by omega)

/-- An ASCII byte of a string comes from the character that it is. -/
theorem mem_toList_of_mem_utf8 {c : UInt8} {s : String} (h : c ∈ utf8 s) (hc : c.toNat < 128) :
    Char.ofNat c.toNat ∈ s.toList := by
  have hencode : utf8 s = s.toList.flatMap String.utf8EncodeChar := by
    rw [utf8, String.toUTF8, ← String.utf8Encode_toList, List.utf8Encode, List.data_toByteArray]
  rw [hencode, List.mem_flatMap] at h
  obtain ⟨ch, hch, hmem⟩ := h
  rw [← toNat_of_mem_utf8EncodeChar hmem hc, Char.ofNat_toNat]
  exact hch

/-! ### Messages -/

/-- How a message is written: its fields, and what a field that is read does to the
message so far, which starts as `init`. Reading what was written gives the message. -/
structure Message (α : Type) where
  toFields : α → List Field
  init : α
  setField : α → Field → Option α
  foldlM_toFields : ∀ a, (toFields a).foldlM setField init = some a

namespace Message

variable {α : Type}

/-- The message in bytes. -/
def encode (m : Message α) (a : α) : List UInt8 := Wire.encode (m.toFields a)

/-- The message after the fields in the bytes have been added to it. -/
def merge (m : Message α) (a : α) (bs : List UInt8) : Option α := (Wire.decode bs).bind fun fs => fs.foldlM m.setField a

/-- The message that is in the bytes. -/
def decode (m : Message α) (bs : List UInt8) : Option α := m.merge m.init bs

/-- A message is read back. -/
@[simp] theorem decode_encode (m : Message α) (a : α) : m.decode (m.encode a) = some a := by
  rw [decode, merge, encode, Wire.decode_encode, Option.bind_some, m.foldlM_toFields]

end Message

/-- A generated class: the messages, and which of them have their required fields. -/
structure Proto (α : Type) extends Message α where
  isInitialized : α → Bool

namespace Proto

variable {α : Type}

/-- `ParseFromString`: the message in the bytes, if it has its required fields. -/
def parseFromString (p : Proto α) (bs : List UInt8) : Option α := (p.decode bs).filter p.isInitialized

/-- `SerializeToString`, which writes no message of 2 GB or more, and does not look
whether the required fields are there. -/
def serializeToString (p : Proto α) (a : α) : Option (List UInt8) :=
  if (p.encode a).length < 2 ^ 31 then some (p.encode a) else none

theorem serializeToString_eq_some {p : Proto α} {a : α} {bs : List UInt8} :
    p.serializeToString a = some bs ↔ (p.encode a).length < 2 ^ 31 ∧ p.encode a = bs := by
  unfold serializeToString
  split_ifs with h
  · exact ⟨fun heq => ⟨h, Option.some.inj heq⟩, fun hwritten => congrArg some hwritten.2⟩
  · constructor
    · rintro ⟨⟩
    · rintro ⟨hlt, -⟩
      exact absurd hlt h

/-- A message that is written is read back just when it has its required fields. -/
theorem parseFromString_encode (p : Proto α) (a : α) :
    p.parseFromString (p.encode a) = if p.isInitialized a then some a else none := by
  rw [parseFromString, Message.decode_encode, Option.filter_some]

end Proto

/-- A generated class some of whose fields are required: `β` is a message with its fields set or
not, and `α` one that has those that are required. -/
structure Class (α β : Type) extends Message β where
  fields : α → β
  ofFields : β → Option α
  ofFields_fields : ∀ a, ofFields (fields a) = some a

namespace Class

variable {α β : Type}

/-- The class, as its messages are written and read. -/
def proto (c : Class α β) : Proto β := { c.toMessage with isInitialized := fun b => (c.ofFields b).isSome }

/-- `SerializeToString`, of a message that has its required fields. -/
def serialize (c : Class α β) (a : α) : Option (List UInt8) := c.proto.serializeToString (c.fields a)

/-- `ParseFromString`, and the message. -/
def parse (c : Class α β) (bs : List UInt8) : Option α := (c.proto.parseFromString bs).bind c.ofFields

/-- A message is read as it was written. -/
theorem parse_of_serialize {c : Class α β} {a : α} {bs : List UInt8} (h : c.serialize a = some bs) : c.parse bs = some a := by
  obtain ⟨-, rfl⟩ := Proto.serializeToString_eq_some.mp h
  have hinit : c.proto.isInitialized (c.fields a) = true := by simp [proto, c.ofFields_fields]
  rw [parse, Proto.parseFromString_encode, hinit, if_pos rfl, Option.bind_some, c.ofFields_fields]

end Class

/-- A repeated field: each value is added to those that are there. -/
theorem foldlM_repeated {α β : Type} {setField : α → Field → Option α} {toField : β → Field} (put : List β → α)
    (h : ∀ xs x, setField (put xs) (toField x) = some (put (xs ++ [x]))) (ys : List β) :
    (ys.map toField).foldlM setField (put []) = some (put ys) := by
  have hfold : ∀ xs, (ys.map toField).foldlM setField (put xs) = some (put (xs ++ ys)) := by
    induction ys with
    | nil => simp
    | cons y ys ih =>
      intro xs
      rw [List.map_cons, List.foldlM_cons, h]
      show (ys.map toField).foldlM setField (put (xs ++ [y])) = some (put (xs ++ y :: ys))
      rw [ih, List.append_assoc, List.singleton_append]
  exact hfold []

end Wire

end Library
