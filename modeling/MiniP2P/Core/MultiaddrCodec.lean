import Mathlib.Data.Vector.Defs
import MiniP2P.Core.Multiaddr
import MiniP2P.Core.Utf8
import MiniP2P.Identity.Key

/-! Reading multiaddrs from their binary form. A component is a multicodec and a value whose layout
the multicodec decides; every varint is minimal, so there is one way to write an address, but for
the peer ids in it, whose bytes the multihash crate reads. -/
namespace Core
open Framing Identity Protocol BigEndian
open List hiding Vector

inductive InvalidValue where
  | utf8
  | dnsName
  | peerId (e : PeerIdError)
  deriving DecidableEq

inductive MultiaddrError where
  | emptyInput
  | missingLeadingSlash
  | emptyProtocol
  | missingValue (protocol : String)
  | unknownProtocol (protocol : String)
  | invalidIp4 (value : String)
  | invalidIp6 (value : String)
  | invalidPort (value : String)
  | invalidDnsName (value : String)
  | invalidPeerId (value : String) (source : PeerIdError)
  | unknownProtocolCode (code : Nat)
  | truncatedBinaryValue (protocol : String)
  | invalidBinaryValue (protocol : String) (reason : InvalidValue)
  | varint (e : VarintError)
  deriving DecidableEq

/-- The property `White_Space` of Unicode. -/
def isWhitespace (c : Char) : Bool :=
  let n := c.toNat
  (0x9 ≤ n && n ≤ 0xd) || n == 0x20 || n == 0x85 || n == 0xa0 || n == 0x1680 ||
    (0x2000 ≤ n && n ≤ 0x200a) || n == 0x2028 || n == 0x2029 || n == 0x202f || n == 0x205f ||
    n == 0x3000

/-- The general category `Cc` of Unicode. -/
def isControl (c : Char) : Bool :=
  let n := c.toNat
  n ≤ 0x1f || (0x7f ≤ n && n ≤ 0x9f)

def isValidDns (value : String) : Bool :=
  value != "" && !value.toList.contains '/' &&
    !value.toList.any fun ch => isWhitespace ch || isControl ch

/-- A value of `n` bytes. -/
def fixed (n : Nat) (protocol : String) (bytes : List UInt8) :
    Except MultiaddrError (Vector UInt8 n × List UInt8) :=
  if enough : n ≤ bytes.length then
    .ok (⟨(bytes.take n).toArray, by simp [Nat.min_eq_left enough]⟩, bytes.drop n)
  else .error (.truncatedBinaryValue protocol)

def readLengthPrefixed (protocol : String) (bytes : List UInt8) :
    Except MultiaddrError (List UInt8 × List UInt8) :=
  match readUvarintWithRemainder bytes with
  | .error e => .error (.varint e)
  | .ok (len, rest) =>
    if rest.length < len then .error (.truncatedBinaryValue protocol)
    else .ok (rest.take len, rest.drop len)

namespace Protocol

def readIp (n : Nat) (label : String) (protocol : Vector UInt8 n → Protocol) (rest : List UInt8) :
    Except MultiaddrError (Protocol × List UInt8) :=
  match fixed n label rest with
  | .error e => .error e
  | .ok (value, rest) => .ok (protocol value, rest)

def readPort (label : String) (protocol : UInt16 → Protocol) (rest : List UInt8) :
    Except MultiaddrError (Protocol × List UInt8) :=
  match fixed 2 label rest with
  | .error e => .error e
  | .ok (value, rest) => .ok (protocol (UInt16.ofNat (ofBytes value.toList)), rest)

def readDns (label : String) (protocol : String → Protocol) (rest : List UInt8) :
    Except MultiaddrError (Protocol × List UInt8) :=
  match readLengthPrefixed label rest with
  | .error e => .error e
  | .ok (body, rest) =>
    match Utf8.decode body with
    | none => .error (.invalidBinaryValue label .utf8)
    | some name =>
      if isValidDns name then .ok (protocol name, rest)
      else .error (.invalidBinaryValue label .dnsName)

section

variable [MultihashCrate]

def readP2p (rest : List UInt8) : Except MultiaddrError (Protocol × List UInt8) :=
  match readLengthPrefixed "p2p" rest with
  | .error e => .error e
  | .ok (body, rest) =>
    match PeerId.fromBytes body with
    | .error e => .error (.invalidBinaryValue "p2p" (.peerId e))
    | .ok peerId => .ok (.p2p peerId, rest)

def readValue (code : Nat) (rest : List UInt8) : Except MultiaddrError (Protocol × List UInt8) :=
  match code with
  | 0x04 => readIp 4 "ip4" .ip4 rest
  | 0x29 => readIp 16 "ip6" .ip6 rest
  | 0x06 => readPort "tcp" .tcp rest
  | 0x0111 => readPort "udp" .udp rest
  | 0x01cd => .ok (.quicV1, rest)
  | 0x0122 => .ok (.p2pCircuit, rest)
  | 0x35 => readDns "dns" .dns rest
  | 0x36 => readDns "dns4" .dns4 rest
  | 0x37 => readDns "dns6" .dns6 rest
  | 0x01a5 => readP2p rest
  | code => .error (.unknownProtocolCode code)

def readBinary (bytes : List UInt8) : Except MultiaddrError (Protocol × List UInt8) :=
  match readUvarintWithRemainder bytes with
  | .error e => .error (.varint e)
  | .ok (code, rest) => readValue code rest

/-- The bytes of a component, with other ones for its peer id. -/
def writeAs (body : List UInt8) : Protocol → List UInt8
  | .p2p _ => writeUvarint 0x01a5 ++ lengthPrefixed body
  | p => p.writeBinary

/-- The bytes that a component has for its peer id. -/
def body : Protocol → List UInt8
  | .p2p peerId => peerId.toBytes
  | _ => []

/-- Bytes from which the multihash crate reads the peer id of a component. -/
def ReadFrom (body : List UInt8) : Protocol → Prop
  | .p2p peerId => PeerId.fromBytes body = .ok peerId ∧ body.length < 2 ^ 64
  | _ => body = []

end

def HasValidDns : Protocol → Prop
  | .dns name | .dns4 name | .dns6 name => isValidDns name = true
  | _ => True

end Protocol

section

variable [MultihashCrate]

def fromBytesLoop : Nat → List UInt8 → Except MultiaddrError (List Protocol)
  | 0, _ => .ok []
  | fuel + 1, remaining =>
    if remaining = [] then .ok []
    else
      match readBinary remaining with
      | .error e => .error e
      | .ok (protocol, rest) => (fromBytesLoop fuel rest).map (protocol :: ·)

def Multiaddr.fromBytes (bytes : List UInt8) : Except MultiaddrError Multiaddr :=
  (fromBytesLoop bytes.length bytes).map Multiaddr.mk

end

/-! ### Values -/

theorem of_map_ok {ε α β : Type} {f : α → β} {x : Except ε α} {b : β} (read : x.map f = .ok b) :
    ∃ a, x = .ok a ∧ f a = b := by
  cases x with
  | error e => cases read
  | ok a =>
    cases read
    exact ⟨a, rfl, rfl⟩

theorem fixed_append {n : Nat} (protocol : String) (value : Vector UInt8 n) (rest : List UInt8) :
    fixed n protocol (value.toList ++ rest) = .ok (value, rest) := by
  rw [fixed, dif_pos (by simp)]
  congr 2
  · simp [Vector.toList]
  · simp

variable {bytes rest : List UInt8}

theorem append_of_fixed {n : Nat} {protocol : String} {value : Vector UInt8 n}
    (read : fixed n protocol bytes = .ok (value, rest)) : bytes = value.toList ++ rest := by
  unfold fixed at read
  split at read
  · cases read
    simp [Vector.toList]
  · cases read

theorem readLengthPrefixed_append (protocol : String) {body : List UInt8} (rest : List UInt8)
    (fits : body.length < 2 ^ 64) :
    readLengthPrefixed protocol (lengthPrefixed body ++ rest) = .ok (body, rest) := by
  rw [readLengthPrefixed, lengthPrefixed, append_assoc,
    readUvarintWithRemainder_write fits]
  simp

theorem append_of_readLengthPrefixed {protocol : String} {body : List UInt8}
    (read : readLengthPrefixed protocol bytes = .ok (body, rest)) :
    bytes = lengthPrefixed body ++ rest ∧ body.length < 2 ^ 64 := by
  unfold readLengthPrefixed at read
  split at read
  · cases read
  · rename_i len after found
    split at read
    · cases read
    · cases read
      obtain ⟨small, rfl⟩ := write_of_readUvarintWithRemainder found
      rw [lengthPrefixed, length_take_of_le (by omega), append_assoc, take_append_drop]
      exact ⟨rfl, small⟩

theorem port_toBytes (bytes : List UInt8) (two : bytes.length = 2) :
    toBytes 2 (UInt16.ofNat (ofBytes bytes)).toNat = bytes := by
  have small := ofBytes_lt bytes
  rw [two] at small
  rw [UInt16.toNat_ofNat_of_lt' small, ← two, toBytes_ofBytes]

theorem port_ofBytes (port : UInt16) : UInt16.ofNat (ofBytes (toBytes 2 port.toNat)) = port := by
  rw [ofBytes_toBytes port.toNat_lt, UInt16.ofNat_toNat]

namespace Protocol

theorem code_lt (p : Protocol) : p.code < 2 ^ 64 := by
  cases p <;> simp [code]

section

variable {p : Protocol} {label : String} {bytes rest : List UInt8}

theorem append_of_readIp {n : Nat} {protocol : Vector UInt8 n → Protocol}
    (read : readIp n label protocol bytes = .ok (p, rest)) :
    ∃ value, p = protocol value ∧ bytes = value.toList ++ rest := by
  unfold readIp at read
  split at read
  · cases read
  · rename_i value rest found
    cases read
    exact ⟨value, rfl, append_of_fixed found⟩

theorem append_of_readPort {protocol : UInt16 → Protocol}
    (read : readPort label protocol bytes = .ok (p, rest)) :
    ∃ port : UInt16, p = protocol port ∧ bytes = toBytes 2 port.toNat ++ rest := by
  unfold readPort at read
  split at read
  · cases read
  · rename_i value rest found
    cases read
    refine ⟨_, rfl, ?_⟩
    rw [port_toBytes _ (by simp)]
    exact append_of_fixed found

theorem append_of_readDns {protocol : String → Protocol}
    (read : readDns label protocol bytes = .ok (p, rest)) :
    ∃ name, p = protocol name ∧ bytes = lengthPrefixed (Utf8.encode name) ++ rest ∧
      isValidDns name = true := by
  unfold readDns at read
  split at read
  · cases read
  · rename_i body rest found
    split at read
    · cases read
    · rename_i name text
      split at read
      · rename_i valid
        cases read
        refine ⟨name, rfl, ?_, valid⟩
        rw [Utf8.encode_of_decode text]
        exact (append_of_readLengthPrefixed found).1
      · cases read

end

variable [MultihashCrate] {p : Protocol}

theorem writeBinary_pos (p : Protocol) : 0 < p.writeBinary.length := by
  rw [writeBinary.eq_def, length_append]
  have := length_writeUvarint_pos p.code
  omega

theorem writeAs_pos (body : List UInt8) (p : Protocol) : 0 < (p.writeAs body).length := by
  cases p with
  | p2p peerId =>
    rw [writeAs, length_append]
    exact Nat.add_pos_left (length_writeUvarint_pos _) _
  | _ => exact writeBinary_pos _

theorem append_of_readP2p (read : readP2p bytes = .ok (p, rest)) :
    ∃ peerId body, p = .p2p peerId ∧ bytes = lengthPrefixed body ++ rest ∧ p.ReadFrom body := by
  unfold readP2p at read
  split at read
  · cases read
  · rename_i body rest found
    split at read
    · cases read
    · rename_i peerId known
      cases read
      obtain ⟨rfl, small⟩ := append_of_readLengthPrefixed found
      exact ⟨peerId, body, rfl, rfl, known, small⟩

theorem write_of_readValue {code : Nat} (read : readValue code bytes = .ok (p, rest)) :
    p.HasValidDns ∧ ∃ body, writeUvarint code ++ bytes = p.writeAs body ++ rest ∧
      p.ReadFrom body := by
  unfold readValue at read
  split at read
  · obtain ⟨value, rfl, rfl⟩ := append_of_readIp read
    exact ⟨trivial, [], by simp [writeAs, writeBinary, code], rfl⟩
  · obtain ⟨value, rfl, rfl⟩ := append_of_readIp read
    exact ⟨trivial, [], by simp [writeAs, writeBinary, code], rfl⟩
  · obtain ⟨value, rfl, rfl⟩ := append_of_readPort read
    exact ⟨trivial, [], by simp [writeAs, writeBinary, code], rfl⟩
  · obtain ⟨value, rfl, rfl⟩ := append_of_readPort read
    exact ⟨trivial, [], by simp [writeAs, writeBinary, code], rfl⟩
  · cases read
    exact ⟨trivial, [], by simp [writeAs, writeBinary, code], rfl⟩
  · cases read
    exact ⟨trivial, [], by simp [writeAs, writeBinary, code], rfl⟩
  · obtain ⟨name, rfl, rfl, valid⟩ := append_of_readDns read
    exact ⟨valid, [], by simp [writeAs, writeBinary, code], rfl⟩
  · obtain ⟨name, rfl, rfl, valid⟩ := append_of_readDns read
    exact ⟨valid, [], by simp [writeAs, writeBinary, code], rfl⟩
  · obtain ⟨name, rfl, rfl, valid⟩ := append_of_readDns read
    exact ⟨valid, [], by simp [writeAs, writeBinary, code], rfl⟩
  · obtain ⟨peerId, body, rfl, rfl, known⟩ := append_of_readP2p read
    exact ⟨trivial, body, by simp [writeAs], known⟩
  · cases read

theorem write_of_readBinary (read : readBinary bytes = .ok (p, rest)) :
    p.HasValidDns ∧ ∃ body, bytes = p.writeAs body ++ rest ∧ p.ReadFrom body := by
  unfold readBinary at read
  split at read
  · cases read
  · rename_i code body found
    rw [(write_of_readUvarintWithRemainder found).2]
    exact write_of_readValue read

variable [MultihashCrate.Documented]

/-- A component and what follows it are written back when its peer id is. -/
theorem writeBinary_append_inj {body rest' : List UInt8} (known : p.ReadFrom body) :
    p.writeBinary ++ rest = p.writeAs body ++ rest' ↔ body = p.body ∧ rest = rest' := by
  cases p with
  | p2p peerId =>
    have small : peerId.toBytes.length < 2 ^ 64 :=
      Nat.lt_of_le_of_lt (PeerId.length_toBytes_le known.1) known.2
    rw [writeAs, writeBinary, code, append_assoc, append_assoc, append_cancel_left_eq]
    constructor
    · intro same
      have read := congrArg (readLengthPrefixed "p2p") same
      rw [readLengthPrefixed_append _ _ small, readLengthPrefixed_append _ _ known.2] at read
      cases read
      exact ⟨rfl, rfl⟩
    · rintro ⟨rfl, rfl⟩
      rfl
  | _ =>
    have nothing : body = [] := known
    simp [writeAs, Protocol.body, nothing]

theorem readBinary_write (valid : p.HasValidDns) (fits : p.writeBinary.length < 2 ^ 64)
    (rest : List UInt8) : readBinary (p.writeBinary ++ rest) = .ok (p, rest) := by
  have body (bytes : List UInt8)
      (whole : p.writeBinary = writeUvarint p.code ++ lengthPrefixed bytes) :
      bytes.length < 2 ^ 64 := by
    rw [whole, lengthPrefixed, length_append, length_append] at fits
    omega
  have ports (label : String) (protocol : UInt16 → Protocol) (port : UInt16) :
      readPort label protocol (toBytes 2 port.toNat ++ rest) = .ok (protocol port, rest) := by
    have value := fixed_append label (⟨(toBytes 2 port.toNat).toArray, by simp⟩ : Vector _ 2) rest
    rw [Vector.toList_mk] at value
    rw [readPort, value]
    simp [port_ofBytes]
  have dns (label : String) (protocol : String → Protocol) (name : String)
      (whole : p.writeBinary = writeUvarint p.code ++ lengthPrefixed (Utf8.encode name))
      (known : isValidDns name = true) :
      readDns label protocol (lengthPrefixed (Utf8.encode name) ++ rest) =
        .ok (protocol name, rest) := by
    rw [readDns, readLengthPrefixed_append label rest (body _ whole)]
    dsimp only
    rw [Utf8.decode_encode]
    dsimp only
    rw [if_pos known]
  rw [readBinary, writeBinary.eq_def, append_assoc, readUvarintWithRemainder_write p.code_lt]
  cases p with
  | ip4 bytes | ip6 bytes => simp [readValue, code, readIp, fixed_append]
  | dns name =>
    simpa [readValue, code] using dns "dns" .dns name (by simp [writeBinary]) valid
  | dns4 name =>
    simpa [readValue, code] using dns "dns4" .dns4 name (by simp [writeBinary]) valid
  | dns6 name =>
    simpa [readValue, code] using dns "dns6" .dns6 name (by simp [writeBinary]) valid
  | tcp port => simpa [readValue, code] using ports "tcp" .tcp port
  | udp port => simpa [readValue, code] using ports "udp" .udp port
  | quicV1 | p2pCircuit => simp [readValue, code]
  | p2p peerId =>
    simp [readValue, code, readP2p, readLengthPrefixed_append "p2p" rest (body peerId.toBytes rfl),
      PeerId.fromBytes_toBytes]

end Protocol

/-! ### Addresses -/

section

variable [MultihashCrate] {protocols : List Protocol}

/-- Accepted bytes, component by component, with the bytes of the peer ids. -/
structure Parts (protocols : List Protocol) (bytes : List UInt8)
    (parts : List (Protocol × List UInt8)) : Prop where
  components : parts.map Prod.fst = protocols
  whole : parts.flatMap (fun part => part.1.writeAs part.2) = bytes
  known : ∀ part ∈ parts, part.1.ReadFrom part.2

namespace Parts

variable {parts : List (Protocol × List UInt8)}

theorem nil : Parts [] [] [] := ⟨rfl, rfl, nofun⟩

theorem cons {p : Protocol} {body : List UInt8} (later : Parts protocols bytes parts)
    (known : p.ReadFrom body) :
    Parts (p :: protocols) (p.writeAs body ++ bytes) ((p, body) :: parts) := by
  constructor
  · rw [map_cons, later.components]
  · rw [flatMap_cons, later.whole]
  · exact forall_mem_cons.mpr ⟨known, later.known⟩

theorem exact [MultihashCrate.Documented] (h : Parts protocols bytes parts) :
    protocols.flatMap writeBinary = bytes ↔ ∀ part ∈ parts, part.2 = part.1.body := by
  obtain ⟨rfl, rfl, known⟩ := h
  induction parts with
  | nil => simp
  | cons part parts ih =>
    obtain ⟨here, later⟩ := forall_mem_cons.mp known
    rw [map_cons, flatMap_cons, flatMap_cons, writeBinary_append_inj here, ih later,
      forall_mem_cons]

end Parts

theorem parts_of_fromBytesLoop {fuel : Nat}
    (enough : bytes.length ≤ fuel) (read : fromBytesLoop fuel bytes = .ok protocols) :
    (∀ p ∈ protocols, p.HasValidDns) ∧ ∃ parts, Parts protocols bytes parts := by
  induction fuel generalizing bytes protocols with
  | zero =>
    obtain rfl : bytes = [] := eq_nil_of_length_eq_zero (by omega)
    cases read
    exact ⟨nofun, [], .nil⟩
  | succ fuel ih =>
    rw [fromBytesLoop] at read
    split at read
    · rename_i empty
      cases read
      exact ⟨nofun, [], empty ▸ .nil⟩
    · split at read
      · cases read
      · rename_i protocol rest found
        obtain ⟨valid, body, rfl, known⟩ := write_of_readBinary found
        have positive := protocol.writeAs_pos body
        rw [length_append] at enough
        obtain ⟨more, others, rfl⟩ := of_map_ok read
        obtain ⟨valids, parts, later⟩ := ih (by omega) others
        exact ⟨forall_mem_cons.mpr ⟨valid, valids⟩, _, later.cons known⟩

theorem Multiaddr.parts_of_fromBytes {a : Multiaddr} (read : fromBytes bytes = .ok a) :
    (∀ p ∈ a.protocols, p.HasValidDns) ∧ ∃ parts, Parts a.protocols bytes parts := by
  obtain ⟨protocols, loop, rfl⟩ := of_map_ok read
  exact parts_of_fromBytesLoop (Nat.le_refl _) loop

variable [MultihashCrate.Documented]

theorem fromBytesLoop_write {fuel : Nat} (valid : ∀ p ∈ protocols, p.HasValidDns)
    (fits : (protocols.flatMap writeBinary).length < 2 ^ 64)
    (enough : (protocols.flatMap writeBinary).length ≤ fuel) :
    fromBytesLoop fuel (protocols.flatMap writeBinary) = .ok protocols := by
  induction protocols generalizing fuel with
  | nil => cases fuel <;> rfl
  | cons p protocols ih =>
    have positive := p.writeBinary_pos
    rw [flatMap_cons, length_append] at fits enough
    obtain ⟨fuel, rfl⟩ : ∃ f, fuel = f + 1 := ⟨fuel - 1, by omega⟩
    rw [flatMap_cons, fromBytesLoop, if_neg, readBinary_write
      (valid p mem_cons_self) (by omega)]
    · dsimp only
      rw [ih (fun q mem => valid q (mem_cons_of_mem _ mem)) (by omega) (by omega)]
      rfl
    · intro nothing
      rw [append_eq_nil_iff] at nothing
      rw [nothing.1] at positive
      cases positive

namespace Multiaddr

theorem fromBytes_toBytes {a : Multiaddr} (valid : ∀ p ∈ a.protocols, p.HasValidDns)
    (fits : a.toBytes.length < 2 ^ 64) : fromBytes a.toBytes = .ok a := by
  have loop : fromBytesLoop a.toBytes.length a.toBytes = .ok a.protocols :=
    fromBytesLoop_write valid fits (Nat.le_refl _)
  rw [fromBytes, loop]
  rfl

end Multiaddr

end

namespace Multiaddr

end Multiaddr

end Core
