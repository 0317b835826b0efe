import MiniP2P.Core.Multiaddr

/-! Which transport dials an address, and the order in which maps file addresses. -/
namespace Core

inductive TransportKind where
  | tcp
  | quic
  deriving DecidableEq

def isQuicTransportSlice : List Protocol → Bool
  | [host, .udp _, .quicV1] => host.isHost
  | _ => false

def isTcpTransportSlice : List Protocol → Bool
  | [host, .tcp _] => host.isHost
  | _ => false

def transportKindOf (protocols : List Protocol) : Option TransportKind :=
  if isTcpTransportSlice protocols then some .tcp
  else if isQuicTransportSlice protocols then some .quic
  else none

namespace Multiaddr

def transportKind (a : Multiaddr) : Option TransportKind := transportKindOf a.protocols

def isWildcardHost (a : Multiaddr) : Bool :=
  match a.protocols with
  | .ip4 bytes :: _ => bytes = .replicate 4 0
  | .ip6 bytes :: _ => bytes = .replicate 16 0
  | _ => false

def isRelayCircuitTransport (a : Multiaddr) : Bool :=
  match a.protocols.reverse with
  | .p2pCircuit :: .p2p _ :: leg => (transportKindOf leg.reverse).isSome
  | _ => false

end Multiaddr

def Protocol.rank : Protocol → List Nat
  | .ip4 bytes => 0 :: bytes.toList.map UInt8.toNat
  | .ip6 bytes => 1 :: bytes.toList.map UInt8.toNat
  | .dns name => 2 :: name.toList.map Char.toNat
  | .dns4 name => 3 :: name.toList.map Char.toNat
  | .dns6 name => 4 :: name.toList.map Char.toNat
  | .tcp port => [5, port.toNat]
  | .udp port => [6, port.toNat]
  | .quicV1 => [7]
  | .p2p peerId => 8 :: peerId.rank
  | .p2pCircuit => [9]

theorem Protocol.rank_injective : Function.Injective rank := by
  have bytes {n : Nat} {a b : Vector UInt8 n}
      (same : a.toList.map UInt8.toNat = b.toList.map UInt8.toNat) :
      a = b :=
    Vector.toList_inj.mp (List.map_injective_iff.mpr (fun _ _ => UInt8.toNat_inj.mp) same)
  have names {a b : String} (same : a.toList.map Char.toNat = b.toList.map Char.toNat) : a = b :=
    String.toList_inj.mp (List.map_injective_iff.mpr (fun _ _ => Char.toNat_inj.mp) same)
  intro p q same
  cases p <;> cases q <;> simp only [rank, List.cons.injEq, reduceCtorEq,
    Nat.reduceEqDiff, false_and, true_and, and_true] at same
  case ip4.ip4 | ip6.ip6 => rw [bytes same]
  case dns.dns | dns4.dns4 | dns6.dns6 => rw [names same]
  case tcp.tcp | udp.udp => rw [UInt16.toNat_inj.mp same]
  case p2p.p2p => rw [Identity.PeerId.rank_injective same]
  all_goals rfl

def Multiaddr.rank (a : Multiaddr) : List (List Nat) := a.protocols.map Protocol.rank

theorem Multiaddr.rank_injective : Function.Injective rank := by
  rintro ⟨p⟩ ⟨q⟩ same
  exact congrArg _ (List.map_injective_iff.mpr Protocol.rank_injective same)

instance : LinearOrder Multiaddr := LinearOrder.lift' Multiaddr.rank Multiaddr.rank_injective

end Core
