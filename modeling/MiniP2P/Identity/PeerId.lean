import Mathlib.Data.List.Lex
import MiniP2P.Core.Framing

/-! Peer ids: multihashes whose digest holds at most 64 bytes, and exactly 32 when the code is
SHA-256. Their bytes are the business of the multihash crate, which is a parameter: results assume
what it documents. -/
namespace Identity
open Framing

def sha256MultihashCode : UInt64 := 0x12

def peerIdMultihashSize : Nat := 64

structure Multihash where
  code : UInt64
  digest : List UInt8
  fits : digest.length ≤ peerIdMultihashSize
  deriving DecidableEq

/-- A multihash that `validate_multihash` accepts. -/
structure PeerId extends Multihash where
  valid : code = sha256MultihashCode → digest.length = 32
  deriving DecidableEq

class MultihashCrate where
  toBytes : Multihash → List UInt8
  fromBytes : List UInt8 → Option Multihash

/-- The documented format: a varint code, a varint digest length and the digest. A multihash is
read from the bytes it is written as, and from no shorter ones. -/
class MultihashCrate.Documented [MultihashCrate] : Prop where
  toBytes_eq (m : Multihash) :
    toBytes m = writeUvarint m.code.toNat ++ (writeUvarint m.digest.length ++ m.digest)
  fromBytes_toBytes (m : Multihash) : fromBytes (toBytes m) = some m
  shortest {m : Multihash} {bytes : List UInt8} :
    fromBytes bytes = some m → (toBytes m).length ≤ bytes.length

inductive PeerIdError where
  | emptyInput
  | unsupportedMultibase (c : Char)
  | unsupportedCidVersion (version : Nat)
  | unsupportedMulticodec (codec : Nat)
  | invalidSha256DigestLength (actual : Nat)
  | invalidBase58Character (character : Char) (index : Nat)
  | invalidBase32Character (character : Char) (index : Nat)
  | invalidCidVersionVarint (e : VarintError)
  | invalidCidMulticodecVarint (e : VarintError)
  | invalidMultihash
  deriving DecidableEq

namespace PeerId

def fromMultihash (m : Multihash) : Except PeerIdError PeerId :=
  if wrong : m.code = sha256MultihashCode ∧ m.digest.length ≠ 32 then
    .error (.invalidSha256DigestLength m.digest.length)
  else .ok ⟨m, fun sha => by simpa [sha] using wrong⟩

variable {p q : PeerId}

theorem eq_of_parts (code : p.code = q.code) (digest : p.digest = q.digest) : p = q := by
  obtain ⟨⟨_, _, _⟩, _⟩ := p
  simp_all

section

variable [MultihashCrate]

def toBytes (p : PeerId) : List UInt8 := MultihashCrate.toBytes p.toMultihash

def fromBytes (multihash : List UInt8) : Except PeerIdError PeerId :=
  match MultihashCrate.fromBytes multihash with
  | none => .error .invalidMultihash
  | some m => fromMultihash m

variable [MultihashCrate.Documented]

theorem fromBytes_toBytes (p : PeerId) : fromBytes p.toBytes = .ok p := by
  rw [fromBytes, toBytes, MultihashCrate.Documented.fromBytes_toBytes]
  dsimp only
  rw [fromMultihash, dif_neg]
  rintro ⟨sha, wrong⟩
  exact wrong (p.valid sha)

theorem length_toBytes_le {bytes : List UInt8} (read : fromBytes bytes = .ok p) :
    p.toBytes.length ≤ bytes.length := by
  unfold fromBytes at read
  split at read
  · cases read
  · rename_i m found
    unfold fromMultihash at read
    split at read
    · cases read
    · cases read
      exact MultihashCrate.Documented.shortest found

/-- The bytes of a peer id say where they end. -/
theorem toBytes_append_inj {rest rest' : List UInt8}
    (same : p.toBytes ++ rest = q.toBytes ++ rest') : p = q ∧ rest = rest' := by
  have size (p : PeerId) : p.digest.length < 2 ^ 64 := Nat.lt_of_le_of_lt p.fits (by decide)
  simp only [toBytes, MultihashCrate.Documented.toBytes_eq, List.append_assoc] at same
  have header := congrArg readUvarintWithRemainder same
  rw [readUvarintWithRemainder_write p.code.toNat_lt,
    readUvarintWithRemainder_write q.code.toNat_lt] at header
  obtain ⟨code, body⟩ := Prod.mk.inj (Except.ok.inj header)
  have sizes := congrArg readUvarintWithRemainder body
  rw [readUvarintWithRemainder_write (size p), readUvarintWithRemainder_write (size q)] at sizes
  obtain ⟨long, body⟩ := Prod.mk.inj (Except.ok.inj sizes)
  obtain ⟨digest, rest⟩ := List.append_inj body long
  exact ⟨eq_of_parts (UInt64.toNat_inj.mp code) digest, rest⟩

end

/-- The derived order compares code, size and digest. -/
def rank (p : PeerId) : List Nat := p.code.toNat :: p.digest.length :: p.digest.map UInt8.toNat

theorem rank_injective : Function.Injective rank := by
  intro p q same
  obtain ⟨code, rest⟩ := List.cons.inj same
  have digest : p.digest = q.digest :=
    List.map_injective_iff.mpr (fun _ _ => UInt8.toNat_inj.mp) (List.cons.inj rest).2
  exact eq_of_parts (UInt64.toNat_inj.mp code) digest

instance : LinearOrder PeerId := LinearOrder.lift' rank rank_injective

end PeerId

/-! ### The crate

Its reader takes ten bytes for a number, drops the bits past the 64th, and refuses of the longer
forms only those that end in a zero byte. -/

def readU64Loop (idx value : Nat) : List UInt8 → Option (Nat × List UInt8)
  | [] => none
  | byte :: bytes =>
    let value := value ||| (byte &&& 0x7f).toNat <<< (7 * idx)
    if byte &&& 0x80 = 0 then
      if byte = 0 ∧ 0 < idx then none else some (value, bytes)
    else if idx = 9 then none
    else readU64Loop (idx + 1) value bytes

def readU64 (input : List UInt8) : Option (UInt64 × List UInt8) :=
  (readU64Loop 0 0 input).map fun read => (UInt64.ofNat read.1, read.2)

variable {input rest : List UInt8} {idx value n : Nat}

theorem readU64Loop_of_readUvarintLoop (below : value < 2 ^ (7 * idx))
    (read : readUvarintLoop idx value input = .ok (n, rest)) :
    readU64Loop idx value input = some (n, rest) := by
  induction input generalizing idx value with
  | nil => cases read
  | cons byte bytes ih =>
    rw [readUvarintLoop] at read
    rw [readU64Loop]
    split at read
    · cases read
    · split at read
      · cases read
      · rename_i short bits
        have wide := (addBits_lt below bits (by omega)).2
        dsimp only at read ⊢
        split at read
        · rename_i last
          split at read
          · cases read
          · rename_i canonical
            rw [if_pos last, if_neg]
            · cases read
              rfl
            · rintro ⟨rfl, later⟩
              have shorter := @uvarintLenLoop_le 10 idx value below later
              simp [uvarintLen] at canonical
              omega
        · rename_i more
          rw [if_neg more, if_neg fun nine => bits ⟨nine, .inl more⟩]
          exact ih wide read

theorem length_of_readU64Loop (below : value < 2 ^ (7 * idx))
    (read : readU64Loop idx value input = some (n, rest)) :
    ∃ used, 0 < used ∧ input.length = used + rest.length ∧ n < 2 ^ (7 * (idx + used)) := by
  induction input generalizing idx value with
  | nil => cases read
  | cons byte bytes ih =>
    have wide := digit_lt below (Nat.mod_lt byte.toNat (by decide : 0 < 0x80))
    rw [readU64Loop, and_low_toNat, or_shift below] at read
    split at read
    · split at read
      · cases read
      · cases read
        exact ⟨1, Nat.one_pos, Nat.add_comm .., wide⟩
    · split at read
      · cases read
      · obtain ⟨used, -, length, small⟩ := ih wide read
        refine ⟨used + 1, Nat.succ_pos _, ?_, ?_⟩
        · rw [List.length_cons, length]
          omega
        · rwa [Nat.add_assoc, Nat.add_comm 1] at small

theorem readU64_write (code : UInt64) (rest : List UInt8) :
    readU64 (writeUvarint code.toNat ++ rest) = some (code, rest) := by
  have read := readU64Loop_of_readUvarintLoop (by simp)
    (readUvarintWithRemainder_write code.toNat_lt rest)
  rw [readU64, read, Option.map_some, UInt64.ofNat_toNat]

theorem length_of_readU64 {code : UInt64} (read : readU64 input = some (code, rest)) :
    (writeUvarint code.toNat).length + rest.length ≤ input.length := by
  obtain ⟨⟨value, rest⟩, loop, same⟩ := Option.map_eq_some_iff.mp read
  cases same
  obtain ⟨used, positive, length, small⟩ := length_of_readU64Loop (by simp) loop
  have cut : (UInt64.ofNat value).toNat ≤ value := by
    rw [UInt64.toNat_ofNat']
    exact Nat.mod_le ..
  have short := length_writeUvarint_le (Nat.lt_of_le_of_lt cut small) (by omega)
  dsimp only
  omega

instance multihashCrate : MultihashCrate where
  toBytes m := writeUvarint m.code.toNat ++ (writeUvarint m.digest.length ++ m.digest)
  fromBytes bytes :=
    match readU64 bytes with
    | none => none
    | some (code, body) =>
      match readU64 body with
      | none => none
      | some (size, digest) =>
        if whole : size.toNat ≤ peerIdMultihashSize ∧ digest.length = size.toNat then
          some ⟨code, digest, by omega⟩
        else none

instance : multihashCrate.Documented where
  toBytes_eq _ := rfl
  fromBytes_toBytes m := by
    have size : (UInt64.ofNat m.digest.length).toNat = m.digest.length :=
      UInt64.toNat_ofNat_of_lt' (Nat.lt_of_le_of_lt m.fits (by decide))
    have body := readU64_write (UInt64.ofNat m.digest.length) m.digest
    rw [size] at body
    simp only [MultihashCrate.toBytes, MultihashCrate.fromBytes, readU64_write, body]
    rw [dif_pos ⟨by rw [size]; exact m.fits, size.symm⟩]
  shortest {m bytes} read := by
    simp only [MultihashCrate.fromBytes] at read
    split at read
    · cases read
    · rename_i code body header
      split at read
      · cases read
      · rename_i size digest found
        split at read
        · rename_i whole
          cases read
          have code := length_of_readU64 header
          have digest := length_of_readU64 found
          simp only [MultihashCrate.toBytes, List.length_append, whole.2]
          omega
        · cases read

end Identity
