import MiniP2P.RelayServer.Forwarding

/-! The decisions on HOP requests, and the loops that drain the HOP and STOP machines
into actions. -/
namespace RelayServer
open Collections Identity Relay

namespace Agent

variable (s : Agent) (key : StreamKey)

/-- Whether the responder took the input. A refused input is an internal failure. -/
def feedHop (input : HopResponderInput) : Bool × Agent :=
  match s.hopWorkers.get key with
  | none => (false, s)
  | some worker =>
    match worker.responder.handleInput input with
    | .ok responder =>
      (true, { s with hopWorkers := s.hopWorkers.insert key { worker with responder } })
    | .error e =>
      (false, s.runtimeError .internalInvariant (some worker.peerId)
        ("HOP responder rejected routed input: " ++ e.display))

variable (sourceStream : StreamKey)

/-- Stale streams are ignored; the initiator refuses no input. -/
def feedStop (input : StopInitiatorInput) : Bool × Agent :=
  match s.pendingCircuits.get sourceStream with
  | none => (false, s)
  | some circuit =>
    match circuit.stop with
    | none => (false, s)
    | some stop =>
      (true, { s with
        pendingCircuits := s.pendingCircuits.insert sourceStream
          { circuit with stop := some (stop.handleInput input) } })

def pollHop : Option (HopResponderOutput × HopWorker) :=
  match s.hopWorkers.get key with
  | none => none
  | some worker =>
    match worker.responder.pollOutput with
    | none => none
    | some (output, responder) => some (output, { worker with responder })

def setWorker (worker : HopWorker) : Agent :=
  { s with hopWorkers := s.hopWorkers.insert key worker }

def completeHop (stream : StreamKey) : Agent :=
  { s with
    hopWorkers :=
      match s.hopWorkers.get stream with
      | none => s.hopWorkers
      | some worker => s.hopWorkers.insert stream { worker with deadlineMs := none } }

/-! ### Reservations -/

def largestWire (expires : Option Nat) (limit : Limit) (addrs : List (List UInt8)) :
    Nat → Option (Reservation × Limit)
  | 0 => none
  | n + 1 =>
    let reservation : Reservation := ⟨expires, addrs.take (n + 1), none⟩
    match encodeHopStatus .ok (some reservation) (some limit) with
    | .ok _ => some (reservation, limit)
    | .error _ => largestWire expires limit addrs n

def reservationWire (expires : Option Nat) : Option (Reservation × Limit) :=
  let addrs := s.selectedAddrs.map (fun address => (address.push (.p2p s.localPeerId)).toBytes)
  largestWire expires s.circuitLimit addrs addrs.length

def connectionIp (connId : ConnectionId) : Option IpKey :=
  ((s.connections.get connId).bind (fun connection => connection.address)).bind firstIp

def consumeReservationLimits (peerId : PeerId) (connId : ConnectionId) (nowMs : Nat) :
    Option (Bool × Agent) := do
  let (allowed, limiters) ← s.reservationLimiters.consume peerId (s.connectionIp connId) nowMs
  return (allowed, { s with reservationLimiters := limiters })

def isCommitFor (peerId : PeerId) : PendingOperation → Bool
  | .send _ (.commitReservation pending) => pending.peerId == peerId
  | _ => false

def isInitialCommit : PendingOperation → Bool
  | .send _ (.commitReservation pending) => !pending.renewed
  | _ => false

def pendingForPeer (peerId : PeerId) : Bool :=
  s.pendingOperations.values.any (isCommitFor peerId)

def pendingInitial : Nat := s.pendingOperations.count (fun _ op => isInitialCommit op)

def renews (peerId : PeerId) (connId : ConnectionId) : Bool :=
  (s.reservations.get peerId).any (fun reservation => reservation.connId == connId)

def denyReservation (peerId : PeerId) (status : Status) : Agent :=
  ((s.emit (.reservationDenied peerId status)).feedHop key (.reject status)).2

def acceptReservation (peerId : PeerId) (renewed : Bool)
    (deadlineMs : Nat) (expires : Option Nat) (reservation : Reservation) (limit : Limit) : Agent :=
  let (taken, s) := s.feedHop key (.acceptReservation reservation (some limit))
  if !taken then s
  else
    match s.hopWorkers.get key with
    | none => s
    | some worker =>
      match worker.responder.pollOutput with
      | some (.outbound data, responder) =>
        (s.setWorker key { worker with responder }).queueSend peerId key data
          (.commitReservation ⟨key, peerId, key.connId, renewed, deadlineMs, expires⟩)
      | some (_, responder) =>
        (s.setWorker key { worker with responder }).runtimeError .internalInvariant (some peerId)
          "accepted reservation produced no response"
      | none =>
        s.runtimeError .internalInvariant (some peerId) "accepted reservation produced no response"

def decideReservation (now : Now) : Option Agent :=
  match s.hopWorkers.get key with
  | none => some s
  | some worker =>
    let peerId := worker.peerId
    let renewed := s.renews peerId key.connId
    let duration := s.config.reservationDurationSecs
    let deadlineMs := saturatingAdd now.monotonicMs (saturatingMul duration 1000)
    let expires := now.unixSeconds.map (fun unix => saturatingAdd unix duration)
    match if s.accepting then s.reservationWire expires else none with
    | none => some (s.denyReservation key peerId .reservationRefused)
    | some (reservation, limit) => do
      let (allowed, s) ← s.consumeReservationLimits peerId key.connId now.monotonicMs
      if !allowed then return s.denyReservation key peerId .resourceLimitExceeded
      else if s.pendingForPeer peerId ||
          (!renewed && s.config.maxReservations ≤ s.reservations.len + s.pendingInitial) then
        return s.denyReservation key peerId .resourceLimitExceeded
      else return s.acceptReservation key peerId renewed deadlineMs expires reservation limit

/-! ### Circuits -/

def denyConnect (destinationPeerId : PeerId) (status : Status) : Agent :=
  match s.hopWorkers.get key with
  | none => s
  | some worker =>
    ((s.emit (.circuitDenied worker.peerId destinationPeerId status)).feedHop key
      (.reject status)).2

def consumeCircuitLimits (peerId : PeerId) (connId : ConnectionId) (nowMs : Nat) :
    Option (Bool × Agent) := do
  let (allowed, limiters) ← s.circuitLimiters.consume peerId (s.connectionIp connId) nowMs
  return (allowed, { s with circuitLimiters := limiters })

def pendingStops (connId : ConnectionId) : Nat :=
  s.pendingCircuits.count (fun _ c => c.destinationConnId == connId && c.stopDeadlineMs.isSome)

def requestCircuit (sourcePeerId destinationPeerId : PeerId)
    (destinationConnId : ConnectionId) (now : Now) : Agent :=
  let pending : PendingCircuit := {
    sourcePeerId
    destinationPeerId
    destinationConnId
    stopStream := none
    stop := none
    stopDeadlineMs := some (saturatingAdd now.monotonicMs s.config.controlStreamTimeoutMs)
    sourcePipelined := []
    destinationPipelined := []
    sourceEof := false
    destinationEof := false }
  let s := { s with pendingCircuits := s.pendingCircuits.insert key pending }
  s.enqueue (.openStop key destinationPeerId destinationConnId)
    (.openStream · destinationPeerId destinationConnId stopProtocolId)

def crowded (sourcePeerId destinationPeerId : PeerId) : Bool :=
  s.config.maxCircuitsPerPeer ≤ s.peerCircuitCount sourcePeerId ||
    (sourcePeerId != destinationPeerId &&
      decide (s.config.maxCircuitsPerPeer ≤ s.peerCircuitCount destinationPeerId)) ||
    decide (s.config.maxCircuits ≤ s.pendingCircuits.len + s.circuits.len)

def decideConnect (destinationPeerId : PeerId) (now : Now) : Option Agent :=
  match s.hopWorkers.get key with
  | none => some s
  | some worker =>
    let sourcePeerId := worker.peerId
    let destinationConn := (s.reservations.get destinationPeerId).map (fun r => r.connId)
    if !s.accepting || (s.connections.get key.connId).any (fun c => c.isCircuit) then
      some (s.denyConnect key destinationPeerId .permissionDenied)
    else do
      let (allowed, s) ← s.consumeCircuitLimits sourcePeerId key.connId now.monotonicMs
      if !allowed || s.crowded sourcePeerId destinationPeerId then
        return s.denyConnect key destinationPeerId .resourceLimitExceeded
      else
        match destinationConn with
        | none => return s.denyConnect key destinationPeerId .noReservation
        | some destinationConnId =>
          if !(s.connections.get destinationConnId).any
              (fun c => c.peerId == destinationPeerId) then
            return s.denyConnect key destinationPeerId .noReservation
          else if s.config.maxPendingStopRequestsPerConnection ≤
              s.pendingStops destinationConnId then
            return s.denyConnect key destinationPeerId .resourceLimitExceeded
          else
            return s.requestCircuit key sourcePeerId destinationPeerId destinationConnId now

/-! ### Draining -/

def onHopOutput (worker : HopWorker) (now : Now) : HopResponderOutput → Option Agent
  | .request .reserve =>
    let s := s.setWorker key { worker with requestKnown := true }
    if worker.isCircuit then some (s.denyReservation key worker.peerId .permissionDenied)
    else s.decideReservation key now
  | .request (.connect destinationPeerId) =>
    let s := s.setWorker key { worker with requestKnown := true }
    if worker.isCircuit then some (s.denyConnect key destinationPeerId .permissionDenied)
    else s.decideConnect key destinationPeerId now
  | .outbound data =>
    some ((s.setWorker key worker).queueSend worker.peerId key data (.completeHop key))
  | .closeWrite => some ((s.setWorker key worker).queueClose worker.peerId key)
  | .reset => some ((s.setWorker key worker).queueReset worker.peerId key)
  | .bridgeData data =>
    let s := s.setWorker key worker
    if s.pendingCircuits.containsKey key then
      some (s.appendPendingPayload key .sourceToDestination data)
    else if s.circuits.containsKey key then
      some (s.queueForward key .sourceToDestination data)
    else some s

def drainHopLoop (key : StreamKey) (now : Now) : Nat → Agent → Option Agent
  | 0, _ => none
  | fuel + 1, s =>
    match s.pollHop key with
    | none => some s
    | some (output, worker) =>
      (s.onHopOutput key worker now output).bind (drainHopLoop key now fuel)

def hopOutputWeight : HopResponderOutput → Nat
  | .request _ => 3
  | _ => 1

def hopWeight : Nat :=
  match s.hopWorkers.get key with
  | none => 0
  | some worker => (worker.responder.outputs.map hopOutputWeight).sum

def drainHop (now : Now) : Option Agent :=
  drainHopLoop key now (s.hopWeight key + 1) s

def failPendingConnect (status : Status) : Option Agent :=
  match s.pendingCircuits.get sourceStream with
  | none => some s
  | some circuit =>
    let s := s.abortPendingConnect sourceStream
    let s := s.denyConnect sourceStream circuit.destinationPeerId status
    s.drainHop sourceStream (.fromMillis 0)

def pollStop : Option (StopInitiatorOutput × PendingCircuit) :=
  match s.pendingCircuits.get sourceStream with
  | none => none
  | some circuit =>
    match circuit.stop with
    | none => none
    | some stop =>
      match stop.pollOutput with
      | none => none
      | some (output, stop) => some (output, { circuit with stop := some stop })

def setPending (circuit : PendingCircuit) : Agent :=
  { s with pendingCircuits := s.pendingCircuits.insert sourceStream circuit }

/-- The destination has accepted: accept on the HOP stream too, and commit the circuit
once that status has been sent. The flag tells whether the drain goes on. -/
def onStopAccepted (now : Now) : Option (Bool × Agent) :=
  let (taken, s) := s.feedHop sourceStream (.acceptConnect (some s.circuitLimit))
  if !taken then
    (s.failPendingConnect sourceStream .connectionFailed).map (fun s => (false, s))
  else
    match s.hopWorkers.get sourceStream with
    | none => (s.failPendingConnect sourceStream .connectionFailed).map (fun s => (false, s))
    | some worker =>
      match worker.responder.pollOutput with
      | some (.outbound data, responder) =>
        let s := s.setWorker sourceStream { worker with responder }
        let s := s.queueSend worker.peerId sourceStream data (.commitCircuit sourceStream)
        (s.drainHop sourceStream now).map (fun s => (true, s))
      | some (_, responder) =>
        let s := s.setWorker sourceStream { worker with responder }
        (s.failPendingConnect sourceStream .connectionFailed).map (fun s => (false, s))
      | none => (s.failPendingConnect sourceStream .connectionFailed).map (fun s => (false, s))

/-- An action on the STOP stream; the source expects that stream to be known. -/
def onStopStream (circuit : PendingCircuit) (act : PeerId → StreamKey → Agent) :
    Option (Bool × Agent) :=
  match circuit.stopStream with
  | none => none
  | some stream => some (true, act circuit.destinationPeerId stream)

def onStopOutput (circuit : PendingCircuit) (now : Now) :
    StopInitiatorOutput → Option (Bool × Agent)
  | .outcome .accepted =>
    (s.setPending sourceStream { circuit with stopDeadlineMs := none }).onStopAccepted
      sourceStream now
  | .outcome outcome =>
    ((s.setPending sourceStream circuit).failPendingConnect sourceStream outcome.hopStatus).map
      (fun s => (false, s))
  | .bridgeData data =>
    some (true, (s.setPending sourceStream circuit).appendPendingPayload sourceStream
      .destinationToSource data)
  | .outbound data =>
    onStopStream circuit fun peerId stream =>
      (s.setPending sourceStream circuit).queueSend peerId stream data (.stopRequest sourceStream)
  | .closeWrite =>
    onStopStream circuit fun peerId stream =>
      (s.setPending sourceStream circuit).queueClose peerId stream
  | .reset =>
    onStopStream circuit fun peerId stream =>
      (s.setPending sourceStream circuit).queueReset peerId stream

def drainStopLoop (sourceStream : StreamKey) (now : Now) : Nat → Agent → Option Agent
  | 0, _ => none
  | fuel + 1, s =>
    match s.pollStop sourceStream with
    | none => some s
    | some (output, circuit) =>
      match s.onStopOutput sourceStream circuit now output with
      | none => none
      | some (false, s) => some s
      | some (true, s) => drainStopLoop sourceStream now fuel s

def stopWeight : Nat :=
  match (s.pendingCircuits.get sourceStream).bind (fun circuit => circuit.stop) with
  | none => 0
  | some stop => stop.outputs.length

def drainStop (now : Now) : Option Agent :=
  drainStopLoop sourceStream now (s.stopWeight sourceStream + 1) s

end Agent

end RelayServer
