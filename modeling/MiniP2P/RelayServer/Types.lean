import Mathlib.Data.Prod.Lex
import MiniP2P.Core.Multiaddr
import MiniP2P.Relay.Responder

/-! The vocabulary between the relay server and its host, and the addresses it accepts. -/
namespace RelayServer
open Core Identity Relay

abbrev ConnectionId := Nat
abbrev StreamId := Nat

structure StreamKey where
  connId : ConnectionId
  streamId : StreamId
  deriving DecidableEq

theorem StreamKey.lex_injective :
    Function.Injective (fun k : StreamKey => (toLex (k.connId, k.streamId) : ℕ ×ₗ ℕ)) := by
  intro a b same
  cases a
  simp_all

instance : LinearOrder StreamKey := LinearOrder.lift' _ StreamKey.lex_injective

structure Now where
  monotonicMs : Nat
  unixSeconds : Option Nat
  deriving DecidableEq

def Now.fromMillis (monotonicMs : Nat) : Now := ⟨monotonicMs, none⟩

abbrev RelayServerToken := Nat

inductive RelayServerAction where
  | openStream (token : RelayServerToken) (peerId : PeerId) (expectedConnId : ConnectionId)
      (protocolId : String)
  | sendStream (token : RelayServerToken) (peerId : PeerId) (stream : StreamKey)
      (data : List UInt8)
  | closeStreamWrite (token : RelayServerToken) (peerId : PeerId) (stream : StreamKey)
  | resetStream (token : RelayServerToken) (peerId : PeerId) (stream : StreamKey)
  deriving DecidableEq

def RelayServerAction.token : RelayServerAction → RelayServerToken
  | .openStream token .. | .sendStream token .. | .closeStreamWrite token ..
  | .resetStream token .. => token

inductive ConnectionCloseCause where
  | transport | superseded
  deriving DecidableEq

inductive ReservationCloseReason where
  | expired | connectionClosed | superseded | internalFailure
  deriving DecidableEq

inductive CircuitDirection where
  | sourceToDestination | destinationToSource
  deriving DecidableEq

inductive CircuitLeg where
  | source | destination
  deriving DecidableEq

structure CircuitByteCounts where
  sourceToDestination : Nat := 0
  destinationToSource : Nat := 0
  deriving DecidableEq

inductive CircuitCloseReason where
  | eof
  | byteLimit (direction : CircuitDirection)
  | durationLimit
  | streamReset (leg : CircuitLeg)
  | forwardFailed (direction : CircuitDirection)
  | connectionClosed (leg : CircuitLeg) (cause : ConnectionCloseCause)
  | internalFailure
  deriving DecidableEq

inductive RelayServerRuntimeErrorKind where
  | openStream | sendStream | closeStream | resetStream | internalInvariant
  deriving DecidableEq

structure RelayServerRuntimeError where
  kind : RelayServerRuntimeErrorKind
  peerId : Option PeerId
  detail : String
  deriving DecidableEq

inductive RelayServerEvent where
  | reservationAccepted (peerId : PeerId) (renewed : Bool) (expiresUnixSecs : Option Nat)
  | reservationDenied (peerId : PeerId) (status : Status)
  | reservationClosed (peerId : PeerId) (reason : ReservationCloseReason)
  | circuitDenied (sourcePeerId destinationPeerId : PeerId) (status : Status)
  | circuitOpened (sourcePeerId destinationPeerId : PeerId)
  | circuitClosed (sourcePeerId destinationPeerId : PeerId) (bytes : CircuitByteCounts)
      (reason : CircuitCloseReason)
  | error (e : RelayServerRuntimeError)
  deriving DecidableEq

/-- The events of the swarm that reach the agent. Every event it does not match on is
`other`. -/
inductive SwarmEvent where
  | connectionEstablished (peerId : PeerId) (connId : ConnectionId)
  | connectionClosed (peerId : PeerId) (connId : ConnectionId) (cause : ConnectionCloseCause)
  | streamReady (peerId : PeerId) (key : StreamKey) (protocolId : String)
      (initiatedLocally : Bool)
  | streamData (peerId : PeerId) (key : StreamKey) (data : List UInt8)
  | streamRemoteWriteClosed (peerId : PeerId) (key : StreamKey)
  | streamClosed (peerId : PeerId) (key : StreamKey)
  | other
  deriving DecidableEq

def hopProtocolId : String := "/libp2p/circuit/relay/0.2.0/hop"
def stopProtocolId : String := "/libp2p/circuit/relay/0.2.0/stop"

inductive RelayServerAddressErrorKind where
  | wildcard
  | circuit
  | conflictingPeerId (expected found : PeerId)
  | unsupportedShape
  deriving DecidableEq

structure RelayServerAddressError where
  index : Nat
  address : Multiaddr
  reason : RelayServerAddressErrorKind
  deriving DecidableEq

def isWildcard : Protocol → Bool
  | .ip4 bytes => bytes.toList = List.replicate 4 0
  | .ip6 bytes => bytes.toList = List.replicate 16 0
  | _ => false

def isDirect : List Protocol → Bool
  | [_, .tcp port] => port != 0
  | [_, .udp port, .quicV1] => port != 0
  | _ => false

/-- The protocols without a trailing peer id, which must be the relay's own. -/
def stripPeerId (localPeerId : PeerId) (protocols : List Protocol) :
    Except RelayServerAddressErrorKind (List Protocol) :=
  match protocols.getLast? with
  | some (.p2p found) =>
    if found ≠ localPeerId then .error (.conflictingPeerId localPeerId found)
    else .ok protocols.dropLast
  | _ => .ok protocols

def normalizeAddr (localPeerId : PeerId) (address : Multiaddr) :
    Except RelayServerAddressErrorKind Multiaddr :=
  if .p2pCircuit ∈ address.protocols then .error .circuit
  else do
    let protocols ← stripPeerId localPeerId address.protocols
    match protocols.head? with
    | none => .error .unsupportedShape
    | some host =>
      if isWildcard host then .error .wildcard
      else if !host.isHost then .error .unsupportedShape
      else if !isDirect protocols then .error .unsupportedShape
      else return ⟨protocols⟩

/-- The loop over the input, at `index` with the addresses kept so far. -/
def normalizeAddrsFrom (localPeerId : PeerId) (index : Nat) (normalized : List Multiaddr) :
    List Multiaddr → Except RelayServerAddressError (List Multiaddr)
  | [] => .ok normalized
  | address :: addrs =>
    match normalizeAddr localPeerId address with
    | .error reason => .error ⟨index, address, reason⟩
    | .ok value =>
      normalizeAddrsFrom localPeerId (index + 1)
        (if value ∈ normalized then normalized else normalized ++ [value]) addrs

def normalizeAddrs (localPeerId : PeerId) (addrs : List Multiaddr) :
    Except RelayServerAddressError (List Multiaddr) :=
  normalizeAddrsFrom localPeerId 0 [] addrs

inductive IpKey where
  | v4 (bytes : Vector UInt8 4)
  | v6 (bytes : Vector UInt8 16)
  deriving DecidableEq

namespace IpKey

def rank : IpKey → ℕ ×ₗ List ℕ
  | .v4 bytes => toLex (4, bytes.toList.map UInt8.toNat)
  | .v6 bytes => toLex (6, bytes.toList.map UInt8.toNat)

theorem bytes_injective {n : Nat} {a b : Vector UInt8 n}
    (same : a.toList.map UInt8.toNat = b.toList.map UInt8.toNat) : a = b :=
  Vector.toList_inj.mp (List.map_injective_iff.mpr (fun _ _ => UInt8.toNat_inj.mp) same)

theorem rank_injective : Function.Injective rank := by
  intro a b same
  cases a with
  | v4 a =>
    cases b with
    | v4 b => exact congrArg _ (bytes_injective (Prod.mk.inj (congrArg ofLex same)).2)
    | v6 b => exact absurd (Prod.mk.inj (congrArg ofLex same)).1 (by decide)
  | v6 a =>
    cases b with
    | v4 b => exact absurd (Prod.mk.inj (congrArg ofLex same)).1 (by decide)
    | v6 b => exact congrArg _ (bytes_injective (Prod.mk.inj (congrArg ofLex same)).2)

instance : LinearOrder IpKey := LinearOrder.lift' rank rank_injective

end IpKey

def mappedIp (ip : Vector UInt8 16) : IpKey :=
  if ip.toList.take 12 = [0, 0, 0, 0, 0, 0, 0, 0, 0, 0, 0xff, 0xff] then
    .v4 #v[ip.get 12, ip.get 13, ip.get 14, ip.get 15]
  else .v6 ip

def firstIp (address : Multiaddr) : Option IpKey :=
  address.protocols.findSome? fun
    | .ip4 ip => some (.v4 ip)
    | .ip6 ip => some (mappedIp ip)
    | _ => none

end RelayServer
