import MiniP2P.Core.Bytes
import MiniP2P.Identity.PeerId

/-! Public keys in their protobuf wrapper, the peer ids made of them, and Ed25519 key pairs.
Hashing and the signature scheme are parameters. -/
namespace Identity
open Framing

structure Crypto where
  sha256 : List UInt8 → Bytes 32
  verifyingKey : Bytes 32 → Bytes 32
  sign : Bytes 32 → List UInt8 → Bytes 64
  isVerifyingKey : Bytes 32 → Bool
  verifyStrict : Bytes 32 → List UInt8 → Bytes 64 → Bool

inductive KeyType where
  | rsa | ed25519 | secp256k1 | ecdsa
  deriving DecidableEq

def KeyType.toNat : KeyType → Nat
  | .rsa => 0
  | .ed25519 => 1
  | .secp256k1 => 2
  | .ecdsa => 3

def KeyType.tryFrom : Nat → Option KeyType
  | 0 => some .rsa
  | 1 => some .ed25519
  | 2 => some .secp256k1
  | 3 => some .ecdsa
  | _ => none

inductive PublicKeyError where
  | emptyInput
  | invalidFieldTag (expected : UInt8) (found : Option UInt8)
  | varint (e : VarintError)
  | unknownKeyType (value : Nat)
  | lengthOverflow
  | invalidLength (expectedTotal actualTotal : Nat)
  deriving DecidableEq

inductive VerifyError where
  | unsupportedKeyType (keyType : KeyType)
  | invalidEd25519PublicKeyLength (actual : Nat)
  | invalidEd25519PublicKey
  | invalidSignature
  deriving DecidableEq

structure PublicKey where
  keyType : KeyType
  data : List UInt8
  deriving DecidableEq

namespace PublicKey

def encodeProtobuf (key : PublicKey) : List UInt8 :=
  0x08 :: (writeUvarint key.keyType.toNat ++ 0x12 :: (writeUvarint key.data.length ++ key.data))

/-- The `Data` field, at the end of an input of this length. -/
def decodeData (total : Nat) (keyType : KeyType) : List UInt8 → Except PublicKeyError PublicKey
  | [] => .error (.invalidFieldTag 0x12 none)
  | tag :: rest =>
    if tag ≠ 0x12 then .error (.invalidFieldTag 0x12 (some tag))
    else
      match readUvarintWithRemainder rest with
      | .error e => .error (.varint e)
      | .ok (dataLen, data) =>
        let expectedTotal := total - data.length + dataLen
        if 2 ^ 64 ≤ expectedTotal then .error .lengthOverflow
        else if expectedTotal ≠ total then .error (.invalidLength expectedTotal total)
        else .ok ⟨keyType, data⟩

def decodeProtobuf (input : List UInt8) : Except PublicKeyError PublicKey :=
  match input with
  | [] => .error .emptyInput
  | tag :: rest =>
    if tag ≠ 0x08 then .error (.invalidFieldTag 0x08 (some tag))
    else
      match readUvarintWithRemainder rest with
      | .error e => .error (.varint e)
      | .ok (value, rest) =>
        match KeyType.tryFrom value with
        | none => .error (.unknownKeyType value)
        | some keyType => decodeData input.length keyType rest

def verify (C : Crypto) (key : PublicKey) (message : List UInt8) (signature : Bytes 64) :
    Except VerifyError Unit :=
  match key.keyType with
  | .ed25519 =>
    match Bytes.ofList 32 key.data with
    | none => .error (.invalidEd25519PublicKeyLength key.data.length)
    | some bytes =>
      if C.isVerifyingKey bytes then
        if C.verifyStrict bytes message signature then .ok () else .error .invalidSignature
      else .error .invalidEd25519PublicKey
  | keyType => .error (.unsupportedKeyType keyType)

end PublicKey

def identityMultihashCode : UInt64 := 0x00

def maxInlineKeyLength : Nat := 42

namespace PeerId

def fromPublicKeyProtobuf (C : Crypto) (encoded : List UInt8) : PeerId :=
  if inline : encoded.length ≤ maxInlineKeyLength then
    ⟨⟨identityMultihashCode, encoded, Nat.le_trans inline (by decide)⟩, nofun⟩
  else
    ⟨⟨sha256MultihashCode, (C.sha256 encoded).toList, by rw [(C.sha256 encoded).size]; decide⟩,
      fun _ => (C.sha256 encoded).size⟩

def fromPublicKey (C : Crypto) (key : PublicKey) : PeerId :=
  fromPublicKeyProtobuf C key.encodeProtobuf

end PeerId

structure Ed25519Keypair (C : Crypto) where
  secretKey : Bytes 32
  publicKeyBytes : Bytes 32
  derived : publicKeyBytes = C.verifyingKey secretKey

namespace Ed25519Keypair

variable {C : Crypto}

def fromSecretKeyBytes (C : Crypto) (secretKey : Bytes 32) : Ed25519Keypair C :=
  ⟨secretKey, C.verifyingKey secretKey, rfl⟩

variable (keypair : Ed25519Keypair C)

def publicKey : PublicKey := ⟨.ed25519, keypair.publicKeyBytes.toList⟩

def peerId : PeerId := PeerId.fromPublicKey C keypair.publicKey

def sign (message : List UInt8) : Bytes 64 :=
  C.sign keypair.secretKey message

end Ed25519Keypair

/-! ### Keys and their bytes -/

theorem KeyType.tryFrom_toNat (keyType : KeyType) :
    KeyType.tryFrom keyType.toNat = some keyType := by
  cases keyType <;> rfl

theorem KeyType.toNat_lt (keyType : KeyType) : keyType.toNat < 2 ^ 64 := by
  cases keyType <;> decide

theorem PublicKey.decode_encode (key : PublicKey) (fits : key.encodeProtobuf.length < 2 ^ 64) :
    decodeProtobuf key.encodeProtobuf = .ok key := by
  have small : key.data.length < 2 ^ 64 := by
    simp only [encodeProtobuf, List.length_cons, List.length_append] at fits
    omega
  have total : key.encodeProtobuf.length - key.data.length + key.data.length =
      key.encodeProtobuf.length := by
    simp only [encodeProtobuf, List.length_cons, List.length_append]
    omega
  rw [decodeProtobuf.eq_def, encodeProtobuf]
  dsimp only
  rw [if_neg (by simp), readUvarintWithRemainder_write key.keyType.toNat_lt]
  dsimp only
  rw [KeyType.tryFrom_toNat]
  dsimp only
  rw [decodeData, if_neg (by simp), readUvarintWithRemainder_write small]
  dsimp only
  rw [← encodeProtobuf, total, if_neg (by omega), if_neg (by simp)]

theorem KeyType.toNat_of_tryFrom {value : Nat} {keyType : KeyType}
    (known : KeyType.tryFrom value = some keyType) : keyType.toNat = value := by
  unfold KeyType.tryFrom at known
  split at known <;> cases known <;> rfl

theorem PublicKey.encode_of_decode {input : List UInt8} {key : PublicKey}
    (decoded : decodeProtobuf input = .ok key) : key.encodeProtobuf = input := by
  unfold decodeProtobuf at decoded
  split at decoded
  · cases decoded
  · split at decoded
    · cases decoded
    · rename_i field
      split at decoded
      · cases decoded
      · rename_i value fields type
        split at decoded
        · cases decoded
        · rename_i keyType known
          unfold decodeData at decoded
          split at decoded
          · cases decoded
          · split at decoded
            · cases decoded
            · rename_i field'
              split at decoded
              · cases decoded
              · rename_i size bytes found
                dsimp only at decoded
                split at decoded
                · cases decoded
                · split at decoded
                  · cases decoded
                  · rename_i total
                    cases decoded
                    have parts := (write_of_readUvarintWithRemainder type).2
                    have whole := (write_of_readUvarintWithRemainder found).2
                    have length : size = bytes.length := by
                      rw [parts, whole] at total
                      simp only [List.length_cons, List.length_append] at total
                      omega
                    rw [encodeProtobuf, KeyType.toNat_of_tryFrom known, ← length, ← whole,
                      Classical.not_not.mp field, parts, Classical.not_not.mp field']

end Identity
