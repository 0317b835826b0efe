import MiniP2P.RelayServer.Limiter
import MiniP2P.RelayServer.Types

/-! The relay server agent: its state, its queues and the circuits it forwards. The
counter of `next_token` is kept as the number of values drawn, so that the machine word
is its residue. -/
namespace RelayServer
open Collections Core Identity Relay

structure AdmissionLimiters where
  peer : Option (TokenBuckets PeerId)
  ip : Option (TokenBuckets IpKey)

namespace AdmissionLimiters

def newBuckets {κ : Type} [LinearOrder κ] (limit : Option RateLimit)
    (valid : ∀ r, limit = some r → r.Valid) : Option (TokenBuckets κ) :=
  match limit, valid with
  | none, _ => none
  | some r, valid => some (.new r (valid r rfl))

def new (peer ip : Option RateLimit) (peerValid : ∀ r, peer = some r → r.Valid)
    (ipValid : ∀ r, ip = some r → r.Valid) : AdmissionLimiters :=
  ⟨newBuckets peer peerValid, newBuckets ip ipValid⟩

/-- A missing limiter, or an attempt without a key, is always allowed. -/
def consumeBucket {κ : Type} [LinearOrder κ] (limiter : Option (TokenBuckets κ))
    (key : Option κ) (nowMs : Nat) : Option (Bool × Option (TokenBuckets κ)) :=
  match limiter, key with
  | some limiter, some key => (limiter.consume key nowMs).map (fun r => (r.1, some r.2))
  | limiter, _ => some (true, limiter)

variable (l : AdmissionLimiters)

def consume (peerId : PeerId) (ip : Option IpKey) (nowMs : Nat) :
    Option (Bool × AdmissionLimiters) := do
  let (allowed, peer) ← consumeBucket l.peer (some peerId) nowMs
  if !allowed then return (false, { l with peer })
  let (allowed, bucket) ← consumeBucket l.ip ip nowMs
  return (allowed, ⟨peer, bucket⟩)

def sweepBuckets {κ : Type} [LinearOrder κ] (limiter : Option (TokenBuckets κ)) (nowMs : Nat) :
    Option (Option (TokenBuckets κ)) :=
  match limiter with
  | none => some none
  | some limiter => (limiter.sweep nowMs).map some

def sweep (nowMs : Nat) : Option AdmissionLimiters := do
  let peer ← sweepBuckets l.peer nowMs
  let ip ← sweepBuckets l.ip nowMs
  return ⟨peer, ip⟩

theorem consumeBucket_returns {κ : Type} [LinearOrder κ] (limiter : Option (TokenBuckets κ))
    (key : Option κ) (nowMs : Nat) :
    ∃ allowed b, consumeBucket limiter key nowMs = some (allowed, b) := by
  unfold consumeBucket
  split
  · rename_i limiter key
    obtain ⟨allowed, b, consumed⟩ := limiter.consume_returns key nowMs
    exact ⟨allowed, some b, by simp [consumed]⟩
  · exact ⟨true, _, rfl⟩

theorem consume_returns (peerId : PeerId) (ip : Option IpKey)
    (nowMs : Nat) : ∃ allowed l', l.consume peerId ip nowMs = some (allowed, l') := by
  obtain ⟨allowed, peer, first⟩ := consumeBucket_returns l.peer (some peerId) nowMs
  obtain ⟨allowed', bucket, second⟩ := consumeBucket_returns l.ip ip nowMs
  cases allowed with
  | false => exact ⟨false, { l with peer }, by simp [consume, first]⟩
  | true => exact ⟨allowed', ⟨peer, bucket⟩, by simp [consume, first, second]⟩

theorem sweepBuckets_returns {κ : Type} [LinearOrder κ] (limiter : Option (TokenBuckets κ))
    (nowMs : Nat) : ∃ b, sweepBuckets limiter nowMs = some b := by
  cases limiter with
  | none => exact ⟨none, rfl⟩
  | some limiter =>
    obtain ⟨b, swept⟩ := limiter.sweep_returns nowMs
    exact ⟨some b, by simp [sweepBuckets, swept]⟩

theorem sweep_returns (nowMs : Nat) : ∃ l', l.sweep nowMs = some l' := by
  obtain ⟨peer, first⟩ := sweepBuckets_returns l.peer nowMs
  obtain ⟨ip, second⟩ := sweepBuckets_returns l.ip nowMs
  exact ⟨⟨peer, ip⟩, by simp [sweep, first, second]⟩

end AdmissionLimiters

structure Connection where
  peerId : PeerId
  address : Option Multiaddr
  isCircuit : Bool

structure ReservationRecord where
  connId : ConnectionId
  deadlineMs : Nat
  expiresUnixSecs : Option Nat

structure PendingReservation where
  stream : StreamKey
  peerId : PeerId
  connId : ConnectionId
  renewed : Bool
  deadlineMs : Nat
  expiresUnixSecs : Option Nat
  deriving DecidableEq

inductive SendEffect where
  | completeHop (stream : StreamKey)
  | commitReservation (pending : PendingReservation)
  | commitCircuit (sourceStream : StreamKey)
  | stopRequest (sourceStream : StreamKey)
  | forward (sourceStream : StreamKey) (direction : CircuitDirection) (bytes : Nat)
  deriving DecidableEq

inductive PendingOperation where
  | openStop (sourceStream : StreamKey) (peerId : PeerId) (expectedConnId : ConnectionId)
  | send (peerId : PeerId) (effect : SendEffect)
  | close (peerId : PeerId) (stream : StreamKey) (circuit : Option (StreamKey × CircuitLeg))
  | reset (peerId : PeerId)
  deriving DecidableEq

structure HopWorker where
  peerId : PeerId
  responder : HopResponder
  deadlineMs : Option Nat
  requestKnown : Bool
  isCircuit : Bool

structure PendingCircuit where
  sourcePeerId : PeerId
  destinationPeerId : PeerId
  destinationConnId : ConnectionId
  stopStream : Option StreamKey
  stop : Option StopInitiator
  stopDeadlineMs : Option Nat
  sourcePipelined : List UInt8
  destinationPipelined : List UInt8
  sourceEof : Bool
  destinationEof : Bool

structure Circuit where
  sourcePeerId : PeerId
  destinationPeerId : PeerId
  sourceStream : StreamKey
  destinationStream : StreamKey
  deadlineMs : Option Nat
  bytes : CircuitByteCounts
  sourceEof : Bool
  destinationEof : Bool
  sourceWriteClosed : Bool
  destinationWriteClosed : Bool
  sourceToDestinationInFlight : Bool
  destinationToSourceInFlight : Bool

def PendingCircuit.names (c : PendingCircuit) (peerId : PeerId) : Bool :=
  c.sourcePeerId == peerId || c.destinationPeerId == peerId

def Circuit.names (c : Circuit) (peerId : PeerId) : Bool :=
  c.sourcePeerId == peerId || c.destinationPeerId == peerId

structure Agent where
  localPeerId : PeerId
  config : ValidConfig
  accepting : Bool
  explicitAddrs : Option (List Multiaddr)
  confirmedAddrs : List Multiaddr
  listenerAddrs : List Multiaddr
  connections : BTreeMap ConnectionId Connection
  reservations : BTreeMap PeerId ReservationRecord
  hopWorkers : BTreeMap StreamKey HopWorker
  rejectedHopStreams : BTreeMap StreamKey PeerId
  pendingCircuits : BTreeMap StreamKey PendingCircuit
  stopToSource : BTreeMap StreamKey StreamKey
  circuits : BTreeMap StreamKey Circuit
  actions : List RelayServerAction
  events : List RelayServerEvent
  pendingOperations : BTreeMap RelayServerToken PendingOperation
  nextToken : Nat
  lastEventTickMs : Option Nat
  reservationLimiters : AdmissionLimiters
  circuitLimiters : AdmissionLimiters

namespace Agent

def new (localPeerId : PeerId) (config : RelayServerConfig) :
    Except RelayServerConfigError Agent := do
  let config ← config.checked
  return {
    localPeerId
    config
    accepting := true
    explicitAddrs := none
    confirmedAddrs := []
    listenerAddrs := []
    connections := .empty
    reservations := .empty
    hopWorkers := .empty
    rejectedHopStreams := .empty
    pendingCircuits := .empty
    stopToSource := .empty
    circuits := .empty
    actions := []
    events := []
    pendingOperations := .empty
    nextToken := 1
    lastEventTickMs := none
    reservationLimiters := .new _ _ config.valid.reservation_peer config.valid.reservation_ip
    circuitLimiters := .new _ _ config.valid.circuit_peer config.valid.circuit_ip }

/-! ### Queues -/

variable (s : Agent)

/-- The next token, and the counter after it. The word zero is skipped. -/
def token : RelayServerToken × Nat :=
  if s.nextToken % 2 ^ 64 = 0 then ((s.nextToken + 1) % 2 ^ 64, s.nextToken + 2)
  else (s.nextToken % 2 ^ 64, s.nextToken + 1)

def enqueue (op : PendingOperation) (action : RelayServerToken → RelayServerAction) : Agent :=
  { s with
    pendingOperations := s.pendingOperations.insert s.token.1 op
    actions := s.actions ++ [action s.token.1]
    nextToken := s.token.2 }

variable (peerId : PeerId)

def queueSend (stream : StreamKey) (data : List UInt8) (effect : SendEffect) : Agent :=
  s.enqueue (.send peerId effect) (.sendStream · peerId stream data)

def queueCloseFor (stream : StreamKey) (circuit : Option (StreamKey × CircuitLeg)) : Agent :=
  s.enqueue (.close peerId stream circuit) (.closeStreamWrite · peerId stream)

def queueClose (stream : StreamKey) : Agent :=
  s.queueCloseFor peerId stream none

def queueCircuitClose (stream sourceStream : StreamKey) (leg : CircuitLeg) : Agent :=
  s.queueCloseFor peerId stream (some (sourceStream, leg))

def queueReset (stream : StreamKey) : Agent :=
  s.enqueue (.reset peerId) (.resetStream · peerId stream)

def emit (event : RelayServerEvent) : Agent :=
  { s with events := s.events ++ [event] }

def runtimeError (kind : RelayServerRuntimeErrorKind) (peerId : Option PeerId)
    (detail : String) : Agent :=
  s.emit (.error ⟨kind, peerId, detail⟩)

def cancelOperations (tokens : List RelayServerToken) : Agent :=
  { s with
    pendingOperations := s.pendingOperations.retain (fun token _ => token ∉ tokens)
    actions := s.actions.filter (fun action => action.token ∉ tokens) }

def cancelWhere (p : PendingOperation → Bool) : Agent :=
  s.cancelOperations (s.pendingOperations.keysWhere (fun _ op => p op))

def isControlOp (sourceStream : StreamKey) : PendingOperation → Bool
  | .openStop stream .. => stream == sourceStream
  | .send _ (.stopRequest stream) | .send _ (.commitCircuit stream) => stream == sourceStream
  | _ => false

def isHopOp (stream : StreamKey) : PendingOperation → Bool
  | .send _ (.commitReservation pending) => pending.stream == stream
  | .send _ (.completeHop opStream) => opStream == stream
  | .close _ opStream _ => opStream == stream
  | _ => false

def isForwardOp (sourceStream : StreamKey) : PendingOperation → Bool
  | .send _ (.forward stream ..) => stream == sourceStream
  | _ => false

def cancelPendingControlOps (sourceStream : StreamKey) : Agent :=
  s.cancelWhere (isControlOp sourceStream)

def cancelPendingHopOps (stream : StreamKey) : Agent :=
  s.cancelWhere (isHopOp stream)

def cancelForwardOps (sourceStream : StreamKey) : Agent :=
  s.cancelWhere (isForwardOp sourceStream)

/-! ### Reading the state -/

def selectedAddrs : List Multiaddr :=
  match s.explicitAddrs with
  | some addrs => addrs
  | none => if s.confirmedAddrs ≠ [] then s.confirmedAddrs else s.listenerAddrs

def hasReservation : Bool := s.reservations.containsKey peerId

def circuitCount : Nat := s.pendingCircuits.len + s.circuits.len

def peerCircuitCount : Nat :=
  s.pendingCircuits.count (fun _ c => c.names peerId) +
    s.circuits.count (fun _ c => c.names peerId)

def circuitLimit : Limit :=
  { duration := some (s.config.maxCircuitDurationSecs % 2 ^ 32)
    data := some s.config.maxCircuitBytes }

end Agent

end RelayServer
