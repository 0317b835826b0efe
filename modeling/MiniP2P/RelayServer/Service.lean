import MiniP2P.Lib.Machine
import MiniP2P.RelayServer.Hop

/-! The calls of the relay server: swarm events, ticks, the results its host echoes, and
the two queues the host polls. -/
namespace RelayServer
open Collections Core Identity Relay

def Circuit.legOn (c : Circuit) (connId : ConnectionId) : Option CircuitLeg :=
  if c.sourceStream.connId = connId then some .source
  else if c.destinationStream.connId = connId then some .destination
  else none

namespace Agent

def forKeys {κ : Type} (f : Agent → κ → Option Agent) : List κ → Agent → Option Agent
  | [], s => some s
  | key :: keys, s => (f s key).bind (forKeys f keys)

/-! ### Connections -/

variable (s : Agent)

def closeReservation (peerId : PeerId) (reason : ReservationCloseReason) : Agent :=
  ({ s with reservations := s.reservations.remove peerId }).emit (.reservationClosed peerId reason)

def affectedCircuits (connId : ConnectionId) : List (StreamKey × CircuitLeg) :=
  s.circuits.entries.filterMap fun (key, circuit) =>
    (circuit.legOn connId).map (fun leg => (key, leg))

/-- The pending circuits of a connection, and whether it carries their source. -/
def affectedPending (connId : ConnectionId) : List (StreamKey × Bool) :=
  s.pendingCircuits.entries.filterMap fun (key, circuit) =>
    if key.connId = connId ∨ circuit.destinationConnId = connId then
      some (key, decide (key.connId = connId))
    else none

def forgetStop (sourceStream : StreamKey) : Agent :=
  match s.pendingCircuits.get sourceStream with
  | none => s
  | some circuit =>
    match circuit.stopStream with
    | none => s
    | some stopStream =>
      { s with
        pendingCircuits := s.pendingCircuits.insert sourceStream { circuit with stopStream := none }
        stopToSource := s.stopToSource.remove stopStream }

def closePendingOn (entry : StreamKey × Bool) : Option Agent :=
  if entry.2 then some (s.abortPendingConnect entry.1)
  else (s.forgetStop entry.1).failPendingConnect entry.1 .connectionFailed

def closedReason : ConnectionCloseCause → ReservationCloseReason
  | .transport => .connectionClosed
  | .superseded => .superseded

def dismissWorker (stream : StreamKey) : Agent :=
  let s := s.cancelPendingHopOps stream
  { s with hopWorkers := s.hopWorkers.remove stream }

def onConnectionClosed (peerId : PeerId) (connId : ConnectionId)
    (cause : ConnectionCloseCause) : Option Agent := do
  let s := (s.affectedCircuits connId).foldl
    (fun s entry => s.closeCircuit entry.1 (.connectionClosed entry.2 cause)) s
  let s ← forKeys closePendingOn (s.affectedPending connId) s
  let s := { s with connections := s.connections.remove connId }
  let s :=
    if (s.reservations.get peerId).any (fun reservation => reservation.connId == connId) then
      s.closeReservation peerId (closedReason cause)
    else s
  let s := (s.hopWorkers.keysWhere (fun key _ => key.connId == connId)).foldl dismissWorker s
  return { s with
    rejectedHopStreams := s.rejectedHopStreams.retain (fun key _ => key.connId != connId) }

def onConnectionEstablished (peerId : PeerId) (connId : ConnectionId)
    (isCircuit : Bool) : Option Agent := do
  let replaced := s.connections.keysWhere
    (fun id connection => connection.peerId == peerId && id != connId)
  let s ← forKeys (fun s old => s.onConnectionClosed peerId old .superseded) replaced s
  let s :=
    if (s.reservations.get peerId).any (fun old => old.connId != connId) then
      s.closeReservation peerId .superseded
    else s
  return { s with connections := s.connections.insert connId ⟨peerId, none, isCircuit⟩ }

def rejectHop (peerId : PeerId) (key : StreamKey) : Agent :=
  ({ s with rejectedHopStreams := s.rejectedHopStreams.insert key peerId }).queueReset peerId key

def hopRequests (connId : ConnectionId) : Nat :=
  s.hopWorkers.count (fun stream worker => stream.connId == connId && worker.deadlineMs.isSome)

def onHopReady (peerId : PeerId) (key : StreamKey) (isCircuit : Bool) (now : Now) : Agent :=
  match s.connections.get key.connId with
  | none => s.rejectHop peerId key
  | some connection =>
    if connection.peerId ≠ peerId then s.rejectHop peerId key
    else if s.config.maxPendingHopRequestsPerConnection ≤ s.hopRequests key.connId then
      s.rejectHop peerId key
    else s.setWorker key {
      peerId
      responder := .new
      deadlineMs := some (saturatingAdd now.monotonicMs s.config.controlStreamTimeoutMs)
      requestKnown := false
      isCircuit := isCircuit || connection.isCircuit }

/-! ### Time -/

def due (now : Now) (deadline : Option Nat) : Bool :=
  deadline.any (fun deadline => deadline ≤ now.monotonicMs)

variable (key : StreamKey)

def expireHop : Option Agent :=
  if s.pendingCircuits.containsKey key then
    (s.completeHop key).failPendingConnect key .connectionFailed
  else
    match s.hopWorkers.get key with
    | none => some s
    | some worker =>
      let s := { s with hopWorkers := s.hopWorkers.remove key }
      let s := s.cancelPendingHopOps key
      let s := s.abortPendingConnect key
      let s := s.queueReset worker.peerId key
      some (if worker.requestKnown then
        s.runtimeError .resetStream (some worker.peerId) "inbound HOP control stream timed out"
      else s)

def handleTick (now : Now) : Option Agent := do
  let s := { s with lastEventTickMs := some now.monotonicMs }
  let s := (s.reservations.keysWhere (fun _ r => r.deadlineMs ≤ now.monotonicMs)).foldl
    (fun s peerId => s.closeReservation peerId .expired) s
  let s := (s.circuits.keysWhere (fun _ c => due now c.deadlineMs)).foldl
    (fun s key => s.closeCircuit key .durationLimit) s
  let s ← forKeys expireHop (s.hopWorkers.keysWhere (fun _ w => due now w.deadlineMs)) s
  let s ← forKeys (fun s key => s.failPendingConnect key .connectionFailed)
    (s.pendingCircuits.keysWhere (fun _ c => due now c.stopDeadlineMs)) s
  let reservationLimiters ← s.reservationLimiters.sweep now.monotonicMs
  let circuitLimiters ← s.circuitLimiters.sweep now.monotonicMs
  return { s with reservationLimiters, circuitLimiters }

def tickBeforeEvent (now : Now) : Option Agent :=
  if now.monotonicMs = u64Max ∨ s.lastEventTickMs ≠ some now.monotonicMs then s.handleTick now
  else some s

/-! ### Swarm events -/

def onStreamData (data : List UInt8) (now : Now) : Option (Bool × Agent) :=
  if s.pendingCircuits.containsKey key then
    some (true, s.appendPendingPayload key .sourceToDestination data)
  else if s.hopWorkers.containsKey key then
    let (taken, s) := s.feedHop key (.data data)
    if taken then (s.drainHop key now).map (fun s => (true, s)) else some (true, s)
  else if s.rejectedHopStreams.containsKey key then some (true, s)
  else if s.circuits.containsKey key then
    some (true, s.queueForward key .sourceToDestination data)
  else
    match s.stopToSource.get key with
    | none => some (false, s)
    | some sourceStream =>
      let (taken, s) := s.feedStop sourceStream (.data data)
      if taken then (s.drainStop sourceStream now).map (fun s => (true, s))
      else if s.circuits.containsKey sourceStream then
        some (true, s.queueForward sourceStream .destinationToSource data)
      else some (true, s)

def committedSource : Option StreamKey :=
  (s.stopToSource.get key).filter (fun sourceStream => s.circuits.containsKey sourceStream)

def markSourceEof : Agent :=
  match s.pendingCircuits.get key with
  | none => s
  | some circuit => s.setPending key { circuit with sourceEof := true }

def markDestinationEof : Agent :=
  match s.pendingCircuits.get key with
  | none => s
  | some circuit => s.setPending key { circuit with destinationEof := true }

/-- A stream that belongs to no worker and no circuit any more: what is pending on it ends. -/
def abandonSource : Agent :=
  let s := s.abortPendingConnect key
  { s with hopWorkers := s.hopWorkers.remove key }

def feedStopOf (input : StopInitiatorInput) : Option (StreamKey × Agent) :=
  match s.stopToSource.get key with
  | none => none
  | some sourceStream =>
    let (taken, s) := s.feedStop sourceStream input
    if taken then some (sourceStream, s) else none

def onStreamRemoteWriteClosed (now : Now) : Option (Bool × Agent) :=
  if s.circuits.containsKey key then some (true, s.circuitEof key .source)
  else
    match s.committedSource key with
    | some sourceStream => some (true, s.circuitEof sourceStream .destination)
    | none =>
      if s.hopWorkers.containsKey key then
        let (taken, s) := (s.markSourceEof key).feedHop key .remoteWriteClosed
        if taken then (s.drainHop key now).map (fun s => (true, s)) else some (true, s)
      else
        match s.feedStopOf key .remoteWriteClosed with
        | some (sourceStream, s) =>
          ((s.markDestinationEof sourceStream).drainStop sourceStream now).map (fun s => (true, s))
        | none =>
          if s.pendingCircuits.containsKey key then some (true, s.abandonSource key)
          else some (s.rejectedHopStreams.containsKey key, s)

def onStreamClosed (now : Now) : Option (Bool × Agent) :=
  if s.circuits.containsKey key then some (true, s.closeCircuit key (.streamReset .source))
  else
    match s.committedSource key with
    | some sourceStream => some (true, s.closeCircuit sourceStream (.streamReset .destination))
    | none =>
      match s.feedStopOf key .remoteReset with
      | some (sourceStream, s) => (s.drainStop sourceStream now).map (fun s => (true, s))
      | none =>
        if s.pendingCircuits.containsKey key then some (true, s.abandonSource key)
        else if s.hopWorkers.containsKey key then some (true, s.dismissWorker key)
        else some (s.rejectedHopStreams.containsKey key,
          { s with rejectedHopStreams := s.rejectedHopStreams.remove key })

def dispatch (event : SwarmEvent) (isCircuit : Bool) (now : Now) : Option (Bool × Agent) :=
  match event with
  | .connectionEstablished peerId connId =>
    (s.onConnectionEstablished peerId connId isCircuit).map (fun s => (false, s))
  | .connectionClosed peerId connId cause =>
    (s.onConnectionClosed peerId connId cause).map (fun s => (false, s))
  | .streamReady peerId key protocolId initiatedLocally =>
    if protocolId = hopProtocolId ∧ initiatedLocally = false then
      some (true, s.onHopReady peerId key isCircuit now)
    else some (false, s)
  | .streamData _ key data => s.onStreamData key data now
  | .streamRemoteWriteClosed _ key => s.onStreamRemoteWriteClosed key now
  | .streamClosed _ key => s.onStreamClosed key now
  | .other => some (false, s)

def handleEvent (event : SwarmEvent) (isCircuit : Bool) (now : Now) : Option (Bool × Agent) :=
  (s.tickBeforeEvent now).bind (fun s => s.dispatch event isCircuit now)

/-! ### Results -/

def takeOperation (token : RelayServerToken) : Agent :=
  { s with pendingOperations := s.pendingOperations.remove token }

def startStop (sourceStream : StreamKey) (peerId : PeerId) (stream : StreamKey) : Agent :=
  match s.pendingCircuits.get sourceStream with
  | none => s.queueReset peerId stream
  | some circuit =>
    let stop := StopInitiator.new circuit.sourcePeerId (some s.circuitLimit)
    let polled := stop.pollOutput
    let s := s.setPending sourceStream
      { circuit with
        stopStream := some stream
        stop := some (polled.elim stop (fun polled => polled.2)) }
    let s := { s with stopToSource := s.stopToSource.insert stream sourceStream }
    match polled with
    | some (.outbound data, _) => s.queueSend peerId stream data (.stopRequest sourceStream)
    | _ => s

def resetStray (result : Except String StreamKey) : Agent :=
  match result with
  | .error _ => s
  | .ok stream =>
    match s.connections.get stream.connId with
    | none => s
    | some connection => s.queueReset connection.peerId stream

def streamOpenResult (token : RelayServerToken) (result : Except String StreamKey) : Option Agent :=
  match s.pendingOperations.get token, s.takeOperation token with
  | some (.openStop sourceStream peerId expectedConnId), s =>
    match result with
    | .ok stream =>
      if stream.connId = expectedConnId then some (s.startStop sourceStream peerId stream)
      else
        let resetPeer := (s.connections.get stream.connId).elim peerId (fun c => c.peerId)
        (s.queueReset resetPeer stream).failPendingConnect sourceStream .noReservation
    | .error detail =>
      (s.runtimeError .openStream (some peerId) detail).failPendingConnect sourceStream
        .connectionFailed
  | _, s => some (s.resetStray result)

def grantReservation (pending : PendingReservation) : Agent :=
  ({ s with
    reservations := s.reservations.insert pending.peerId
      ⟨pending.connId, pending.deadlineMs, pending.expiresUnixSecs⟩ }).emit
    (.reservationAccepted pending.peerId pending.renewed pending.expiresUnixSecs)

def commitReservation (pending : PendingReservation) : Agent :=
  if (s.connections.get pending.connId).any (fun c => c.peerId == pending.peerId) then
    s.grantReservation pending
  else s

def sendAccepted (now : Now) : SendEffect → Agent
  | .commitReservation pending => (s.commitReservation pending).completeHop pending.stream
  | .commitCircuit sourceStream => (s.completeHop sourceStream).commitCircuit sourceStream now
  | .stopRequest _ => s
  | .forward sourceStream direction bytes => s.forwardAccepted sourceStream direction bytes
  | .completeHop stream => s.completeHop stream

def sendFailed : SendEffect → Option (Bool × Agent)
  | .forward sourceStream direction _ =>
    if s.circuits.containsKey sourceStream then
      some (true, s.closeCircuit sourceStream (.forwardFailed direction))
    else some (false, s)
  | .commitCircuit sourceStream =>
    if s.pendingCircuits.containsKey sourceStream then
      some (true, s.abortPendingConnectBoth sourceStream)
    else some (false, s)
  | .stopRequest sourceStream =>
    if s.pendingCircuits.containsKey sourceStream then
      (s.failPendingConnect sourceStream .connectionFailed).map (fun s => (true, s))
    else some (false, s)
  | .commitReservation pending => some (true, s.completeHop pending.stream)
  | .completeHop stream => some (true, s.completeHop stream)

def sendStreamResult (token : RelayServerToken) (result : Except String Unit)
    (now : Now) : Option Agent :=
  match s.pendingOperations.get token, s.takeOperation token with
  | some (.send peerId effect), s =>
    match result with
    | .ok () => some (s.sendAccepted now effect)
    | .error detail =>
      (s.sendFailed effect).map fun (relevant, s) =>
        if relevant then s.runtimeError .sendStream (some peerId) detail else s
  | _, s => some s

def closeStreamWriteResult (token : RelayServerToken) (result : Except String Unit) : Agent :=
  match s.pendingOperations.get token, s.takeOperation token with
  | some (.close peerId _ circuit), s =>
    match result, circuit with
    | .ok (), some (sourceStream, leg) => s.circuitCloseAccepted sourceStream leg
    | .ok (), none => s
    | .error detail, some (sourceStream, _) =>
      if s.circuits.containsKey sourceStream then
        (s.closeCircuit sourceStream .internalFailure).runtimeError .closeStream
          (some peerId) detail
      else s
    | .error detail, none => s.runtimeError .closeStream (some peerId) detail
  | _, s => s

def resetStreamResult (token : RelayServerToken) (result : Except String Unit) : Agent :=
  match s.pendingOperations.get token, s.takeOperation token with
  | some (.reset peerId), s =>
    match result with
    | .ok () => s
    | .error detail => s.runtimeError .resetStream (some peerId) detail
  | _, s => s

def setConnectionAddr (connId : ConnectionId) (address : Multiaddr) : Agent :=
  match s.connections.get connId with
  | none => s
  | some connection =>
    { s with
      connections := s.connections.insert connId { connection with address := some address } }

/-! ### Calls -/

inductive Call where
  | setAccepting (accepting : Bool)
  | replaceAnnounceAddrs (addrs : List Multiaddr)
  | setConfirmedAddrs (addrs : List Multiaddr)
  | setListenerAddrs (addrs : List Multiaddr)
  | setConnectionAddr (connId : ConnectionId) (address : Multiaddr)
  | event (event : SwarmEvent) (isCircuit : Bool) (now : Now)
  | tick (now : Now)
  | openResult (token : RelayServerToken) (result : Except String StreamKey)
  | sendResult (token : RelayServerToken) (result : Except String Unit) (now : Now)
  | closeResult (token : RelayServerToken) (result : Except String Unit)
  | resetResult (token : RelayServerToken) (result : Except String Unit)
  | pollAction
  | pollEvent

inductive Answer where
  | done
  | claimed (claimed : Bool)
  | addresses (result : Except RelayServerAddressError Unit)
  | action (action : Option RelayServerAction)
  | event (event : Option RelayServerEvent)
  deriving DecidableEq

/-- The three address setters replace their source or report the rejected address. -/
def withAddrs (addrs : List Multiaddr) (set : List Multiaddr → Agent) : Answer × Agent :=
  match normalizeAddrs s.localPeerId addrs with
  | .ok normalized => (.addresses (.ok ()), set normalized)
  | .error e => (.addresses (.error e), s)

def pollAction : Answer × Agent :=
  match s.actions with
  | [] => (.action none, s)
  | action :: actions => (.action (some action), { s with actions })

def pollEvent : Answer × Agent :=
  match s.events with
  | [] => (.event none, s)
  | event :: events => (.event (some event), { s with events })

def call : Call → Option (Answer × Agent)
  | .setAccepting accepting => some (.done, { s with accepting })
  | .replaceAnnounceAddrs addrs =>
    some (s.withAddrs addrs fun normalized =>
      { s with explicitAddrs := if normalized = [] then none else some normalized })
  | .setConfirmedAddrs addrs =>
    some (s.withAddrs addrs fun confirmedAddrs => { s with confirmedAddrs })
  | .setListenerAddrs addrs =>
    some (s.withAddrs addrs fun listenerAddrs => { s with listenerAddrs })
  | .setConnectionAddr connId address => some (.done, s.setConnectionAddr connId address)
  | .event event isCircuit now =>
    (s.handleEvent event isCircuit now).map (fun (claimed, s) => (.claimed claimed, s))
  | .tick now => (s.handleTick now).map (fun s => (.done, s))
  | .openResult token result => (s.streamOpenResult token result).map (fun s => (.done, s))
  | .sendResult token result now => (s.sendStreamResult token result now).map (fun s => (.done, s))
  | .closeResult token result => some (.done, s.closeStreamWriteResult token result)
  | .resetResult token result => some (.done, s.resetStreamResult token result)
  | .pollAction => some s.pollAction
  | .pollEvent => some s.pollEvent

end Agent

end RelayServer
