import MiniP2P.Identity.Key
import MiniP2P.Noise.Frames

/-! The handshake payload of libp2p: an identity key and its signature, in protobuf. -/
namespace Noise
open Framing Identity List

structure NoiseHandshakePayload where
  identityKey : List UInt8
  identitySig : List UInt8
  extensions : Option (List UInt8)
  deriving DecidableEq

namespace NoiseHandshakePayload

def new (identityKey : PublicKey) (identitySig : Bytes 64) : NoiseHandshakePayload :=
  ⟨identityKey.encodeProtobuf, identitySig.toList, none⟩

def writeBytesField (field : Nat) (value : List UInt8) : List UInt8 :=
  writeUvarint (field * 8 + 2) ++ (writeUvarint value.length ++ value)

def encode (payload : NoiseHandshakePayload) : List UInt8 :=
  writeBytesField 1 payload.identityKey ++ (writeBytesField 2 payload.identitySig ++
    match payload.extensions with
    | none => []
    | some extensions => writeBytesField 4 extensions)

def readBytes (total : Nat) (input : List UInt8) : Except NoiseError (List UInt8 × List UInt8) :=
  match readUvarintWithRemainder input with
  | .error _ => .error (.invalidPayload "invalid field length")
  | .ok (len, rest) =>
    if 2 ^ 64 ≤ total - rest.length + len then .error (.invalidPayload "field length overflow")
    else if rest.length < len then .error (.invalidPayload "truncated field")
    else .ok (rest.take len, rest.drop len)

def skipBytes (count : Nat) (input : List UInt8) : Except NoiseError (List UInt8) :=
  if input.length < count then .error (.invalidPayload "truncated unknown field")
  else .ok (input.drop count)

def skipUnknown (total : Nat) (input : List UInt8) (wire : Nat) : Except NoiseError (List UInt8) :=
  match wire with
  | 0 =>
    match readUvarintWithRemainder input with
    | .error _ => .error (.invalidPayload "invalid unknown varint")
    | .ok (_, rest) => .ok rest
  | 1 => skipBytes 8 input
  | 2 =>
    match readBytes total input with
    | .error e => .error e
    | .ok (_, rest) => .ok rest
  | 5 => skipBytes 4 input
  | _ => .error (.invalidPayload "unsupported protobuf wire type")

structure Fields where
  identityKey : Option (List UInt8)
  identitySig : Option (List UInt8)
  extensions : Option (List UInt8)

def Fields.put (fields : Fields) (field : Nat) (value : List UInt8) : Except NoiseError Fields :=
  match field with
  | 1 =>
    if fields.identityKey.isSome then .error (.invalidPayload "duplicate identity key")
    else .ok { fields with identityKey := some value }
  | 2 =>
    if fields.identitySig.isSome then .error (.invalidPayload "duplicate identity signature")
    else .ok { fields with identitySig := some value }
  | 4 =>
    if fields.extensions.isSome then .error (.invalidPayload "duplicate extensions")
    else .ok { fields with extensions := some value }
  | _ => .error (.invalidPayload "invalid known field")

def decodeField (total : Nat) (fields : Fields) (input : List UInt8) :
    Except NoiseError (Fields × List UInt8) :=
  match readUvarintWithRemainder input with
  | .error _ => .error (.invalidPayload "invalid field tag")
  | .ok (tag, rest) =>
    let field := tag / 8
    let wire := tag % 8
    if field = 0 then .error (.invalidPayload "invalid field number zero")
    else if field = 1 ∨ field = 2 ∨ field = 4 then
      if wire ≠ 2 then .error (.invalidPayload "known field has non-length-delimited wire type")
      else
        match readBytes total rest with
        | .error e => .error e
        | .ok (value, rest) =>
          match fields.put field value with
          | .error e => .error e
          | .ok fields => .ok (fields, rest)
    else
      match skipUnknown total rest wire with
      | .error e => .error e
      | .ok rest => .ok (fields, rest)

def decodeLoop (total : Nat) : Nat → Fields → List UInt8 → Except NoiseError Fields
  | _, fields, [] => .ok fields
  | 0, _, _ :: _ => .error (.invalidPayload "truncated field tag")
  | fuel + 1, fields, byte :: bytes =>
    match decodeField total fields (byte :: bytes) with
    | .error e => .error e
    | .ok (fields, rest) => decodeLoop total fuel fields rest

def decode (input : List UInt8) : Except NoiseError NoiseHandshakePayload :=
  match decodeLoop input.length input.length ⟨none, none, none⟩ input with
  | .error e => .error e
  | .ok fields =>
    match fields.identityKey, fields.identitySig with
    | none, _ => .error (.invalidPayload "missing identity key")
    | some _, none => .error (.invalidPayload "missing identity signature")
    | some identityKey, some identitySig => .ok ⟨identityKey, identitySig, fields.extensions⟩

/-! ### A payload is found again -/

variable {total : Nat}

theorem readBytes_write {value rest : List UInt8}
    (within : value.length + rest.length ≤ total) (fits : total < 2 ^ 64) :
    readBytes total (writeUvarint value.length ++ (value ++ rest)) = .ok (value, rest) := by
  rw [readBytes, readUvarintWithRemainder_write (by omega)]
  dsimp only
  rw [if_neg (by rw [length_append]; omega), if_neg (by rw [length_append]; omega),
    take_left, drop_left]

theorem decodeField_write {field : Nat} {fields fields' : Fields} {value rest : List UInt8}
    (known : field = 1 ∨ field = 2 ∨ field = 4) (within : value.length + rest.length ≤ total)
    (fits : total < 2 ^ 64) (put : fields.put field value = .ok fields') :
    decodeField total fields (writeBytesField field value ++ rest) = .ok (fields', rest) := by
  have number : (field * 8 + 2) / 8 = field := by omega
  have wire : (field * 8 + 2) % 8 = 2 := by omega
  rw [decodeField, writeBytesField, append_assoc, append_assoc,
    readUvarintWithRemainder_write (by omega)]
  dsimp only
  rw [number, wire, if_neg (by omega), if_pos known, if_neg (by decide),
    readBytes_write within fits]
  dsimp only
  rw [put]

theorem length_writeBytesField (field : Nat) (value : List UInt8) :
    value.length + 2 ≤ (writeBytesField field value).length := by
  have tag := length_writeUvarint_pos (field * 8 + 2)
  have size := length_writeUvarint_pos value.length
  simp only [writeBytesField, length_append]
  omega

theorem decodeLoop_field {fuel field : Nat} {fields fields' : Fields} {value rest : List UInt8}
    (known : field = 1 ∨ field = 2 ∨ field = 4) (within : value.length + rest.length ≤ total)
    (fits : total < 2 ^ 64) (put : fields.put field value = .ok fields') :
    decodeLoop total (fuel + 1) fields (writeBytesField field value ++ rest) =
      decodeLoop total fuel fields' rest := by
  have long := length_writeBytesField field value
  have filled : 0 < (writeBytesField field value).length := by omega
  obtain ⟨byte, bytes, split⟩ := exists_cons_of_length_pos filled
  have found := decodeField_write known within fits put
  rw [split, cons_append] at found ⊢
  rw [decodeLoop, found]

theorem decodeLoop_encode {fuel : Nat} {payload : NoiseHandshakePayload}
    (within : payload.encode.length ≤ total) (fits : total < 2 ^ 64) :
    decodeLoop total (fuel + 1 + 1 + 1) ⟨none, none, none⟩ payload.encode =
      .ok ⟨some payload.identityKey, some payload.identitySig, payload.extensions⟩ := by
  have key := length_writeBytesField 1 payload.identityKey
  have sig := length_writeBytesField 2 payload.identitySig
  unfold encode at within ⊢
  simp only [length_append] at within
  rw [decodeLoop_field (.inl rfl) (by rw [length_append]; omega) fits rfl,
    decodeLoop_field (.inr (.inl rfl)) (by omega) fits rfl]
  cases extra : payload.extensions with
  | none => rfl
  | some extensions =>
    have more := length_writeBytesField 4 extensions
    rw [extra] at within
    dsimp only at within ⊢
    rw [← append_nil (writeBytesField 4 extensions),
      decodeLoop_field (.inr (.inr rfl)) (by rw [length_nil]; omega) fits rfl]
    cases fuel <;> rfl

theorem decode_encode {payload : NoiseHandshakePayload} (fits : payload.encode.length < 2 ^ 64) :
    decode payload.encode = .ok payload := by
  have key := length_writeBytesField 1 payload.identityKey
  have sig := length_writeBytesField 2 payload.identitySig
  obtain ⟨fuel, size⟩ : ∃ fuel, payload.encode.length = fuel + 1 + 1 + 1 := by
    refine ⟨payload.encode.length - 3, ?_⟩
    simp only [encode, length_append]
    omega
  have fields := @decodeLoop_encode payload.encode.length fuel payload (Nat.le_refl _) fits
  rw [← size] at fields
  rw [decode, fields]

end NoiseHandshakePayload

end Noise
