import MiniP2P.Core.Multiaddr

/-! The vocabulary of the transport contract. -/
namespace Transport
open Core Identity

abbrev ConnectionId := Nat
abbrev StreamId := Nat

inductive ConnectionState where
  | connecting | connected | closing | closed
  deriving DecidableEq

structure ConnectionEndpoint where
  transport : Multiaddr
  peerId : Option PeerId := none
  deriving DecidableEq

inductive TransportEvent where
  | connected (id : ConnectionId) (endpoint : ConnectionEndpoint)
  | streamOpened (id : ConnectionId) (streamId : StreamId)
  | incomingStream (id : ConnectionId) (streamId : StreamId)
  | streamData (id : ConnectionId) (streamId : StreamId) (data : List UInt8)
  | streamRemoteWriteClosed (id : ConnectionId) (streamId : StreamId)
  | streamClosed (id : ConnectionId) (streamId : StreamId)
  | closed (id : ConnectionId)
  | error (id : ConnectionId) (message : String)
  | incomingConnection (id : ConnectionId) (endpoint : ConnectionEndpoint)
  | peerIdentityVerified (id : ConnectionId) (endpoint : ConnectionEndpoint)
      (previousPeerId : Option PeerId)
  | listening (addr : Multiaddr)
  deriving DecidableEq

inductive TransportError where
  | invalidAddress (context reason : String)
  | invalidConfig (reason : String)
  | resourceExhausted (resource : String)
  | unsupported (operation : String)
  | connectionNotFound (id : ConnectionId)
  | invalidState (id : ConnectionId) (state expected : ConnectionState)
  | listenFailed (reason : String)
  | dialFailed (id : ConnectionId) (reason : String)
  | streamNotFound (id : ConnectionId) (streamId : StreamId)
  | streamExists (id : ConnectionId) (streamId : StreamId)
  | streamSendFailed (id : ConnectionId) (streamId : StreamId) (reason : String)
  | streamCloseWriteFailed (id : ConnectionId) (streamId : StreamId) (reason : String)
  | streamResetFailed (id : ConnectionId) (streamId : StreamId) (reason : String)
  | closeFailed (id : ConnectionId) (reason : String)
  | pollError (reason : String)
  deriving DecidableEq

end Transport
