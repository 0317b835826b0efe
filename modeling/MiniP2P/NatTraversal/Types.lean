import MiniP2P.Core.Multiaddr

/-! The vocabulary between the NAT agent and its application. -/
namespace NatTraversal
open Core Identity

abbrev ConnectId := Nat

inductive Path where
  | directDialed
  | directPunched
  | relayed (relay : PeerId)
  deriving DecidableEq

inductive ReachabilityState where
  | unknown | isPublic | isPrivate
  deriving DecidableEq

inductive NatError where
  | noPathAvailable
  | timeout
  | dialFailed (detail : String)
  | protocol (detail : String)
  | relayRefused (detail : String)
  deriving DecidableEq

inductive NatEvent where
  | reachabilityChanged (old new : ReachabilityState) (confirmedAddrs : List Multiaddr)
  | publicAddressesChanged (addrs : List Multiaddr)
  | relayReserved (relay : PeerId) (expiresUnixSecs : Option Nat) (renewAtMonoMs : Nat)
  | relayReservationLost (relay : PeerId)
  | pathEstablished (connectId : ConnectId) (peer : PeerId) (path : Path)
  | inboundPathEstablished (peer : PeerId) (path : Path)
  | pathUpgraded (connectId : ConnectId) (peer : PeerId) (source target : Path)
  | holePunchFailed (connectId : ConnectId) (attempt : Nat) (reason : String)
  | fellBackToRelay (connectId : ConnectId) (peer : PeerId)
  | connectFailed (connectId : ConnectId) (peer : PeerId) (error : NatError)
  | inboundDirectUpgrade (peer : PeerId)
  deriving DecidableEq

end NatTraversal
