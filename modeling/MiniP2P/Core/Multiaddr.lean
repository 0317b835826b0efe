import MiniP2P.Identity.PeerId
import MiniP2P.Lib.BigEndian

/-! Multiaddrs and their binary form. -/
namespace Core
open Framing Identity

inductive Protocol where
  | ip4 (bytes : Vector UInt8 4)
  | ip6 (bytes : Vector UInt8 16)
  | dns (name : String)
  | dns4 (name : String)
  | dns6 (name : String)
  | tcp (port : UInt16)
  | udp (port : UInt16)
  | quicV1
  | p2p (peerId : PeerId)
  | p2pCircuit
  deriving DecidableEq

namespace Protocol

def isHost : Protocol → Bool
  | .ip4 _ | .ip6 _ | .dns _ | .dns4 _ | .dns6 _ => true
  | _ => false

def code : Protocol → Nat
  | .ip4 _ => 0x04
  | .ip6 _ => 0x29
  | .dns _ => 0x35
  | .dns4 _ => 0x36
  | .dns6 _ => 0x37
  | .tcp _ => 0x06
  | .udp _ => 0x0111
  | .quicV1 => 0x01cd
  | .p2p _ => 0x01a5
  | .p2pCircuit => 0x0122

def lengthPrefixed (body : List UInt8) : List UInt8 := writeUvarint body.length ++ body

variable [MultihashCrate]

def writeBinary (p : Protocol) : List UInt8 :=
  writeUvarint p.code ++
    match p with
    | .ip4 bytes => bytes.toList
    | .ip6 bytes => bytes.toList
    | .dns name | .dns4 name | .dns6 name => lengthPrefixed name.toUTF8.toList
    | .tcp port | .udp port => BigEndian.toBytes 2 port.toNat
    | .quicV1 | .p2pCircuit => []
    | .p2p peerId => lengthPrefixed peerId.toBytes

end Protocol

structure Multiaddr where
  protocols : List Protocol := []
  deriving DecidableEq

namespace Multiaddr

def push (a : Multiaddr) (p : Protocol) : Multiaddr := ⟨a.protocols ++ [p]⟩

def toBytes [MultihashCrate] (a : Multiaddr) : List UInt8 :=
  a.protocols.flatMap Protocol.writeBinary

end Multiaddr

end Core
