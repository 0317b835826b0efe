import MiniP2P.Lib.Trace
import MiniP2P.RelayServer.Service

/-! What the agent can do, once and for all. Every call is a sequence of these steps, and
a step changes together what an invariant relates: a payload leaves one buffer as it
enters the next, and an operation goes with the state it stands for. The marks of a step
say what the application and the host can see of it. -/
namespace RelayServer
open Collections Core Identity Relay

inductive Mark where
  | accepted (peerId : PeerId) (renewed : Bool) (expires : Option Nat)
  | ended (peerId : PeerId) (reason : ReservationCloseReason)
  | opened (key : StreamKey) (source destination : PeerId)
  | closed (key : StreamKey) (source destination : PeerId) (bytes : CircuitByteCounts)
      (reason : CircuitCloseReason)
  | noted (event : RelayServerEvent)
  | rewired
  | stirred (key : StreamKey)
  | stranded (key : StreamKey)
  | began (key : StreamKey)
  | joined (key : StreamKey)
  | arrived (key : StreamKey) (data : List UInt8)
  | hungUp (key : StreamKey)
  | echoed (token : RelayServerToken)
  | paid (key : StreamKey) (direction : CircuitDirection) (bytes : Nat)
  | taken (action : RelayServerAction)
      (forward : Option (StreamKey × CircuitDirection × List UInt8))
  | read (event : RelayServerEvent)

namespace Mark

def outer : Mark → Bool
  | .began _ | .joined _ | .arrived .. | .hungUp _ | .echoed _ | .paid .. | .taken .. | .read _
  | .accepted .. | .opened .. => true
  | .ended .. | .closed .. | .noted _ | .rewired | .stirred _ | .stranded _ => false

def event : Mark → Option RelayServerEvent
  | .accepted peerId renewed expires => some (.reservationAccepted peerId renewed expires)
  | .ended peerId reason => some (.reservationClosed peerId reason)
  | .opened _ source destination => some (.circuitOpened source destination)
  | .closed _ source destination bytes reason =>
    some (.circuitClosed source destination bytes reason)
  | .noted event => some event
  | _ => none

end Mark

def RelayServerEvent.isReport : RelayServerEvent → Bool
  | .reservationDenied .. | .circuitDenied .. | .error _ => true
  | _ => false

def SendEffect.completes : SendEffect → Option StreamKey
  | .completeHop stream => some stream
  | .commitReservation pending => some pending.stream
  | _ => none

def SendEffect.suits (stream : StreamKey) (data : List UInt8) : SendEffect → Prop
  | .completeHop key | .commitCircuit key => stream = key
  | .commitReservation pending => stream = pending.stream
  | .stopRequest _ => True
  | .forward _ _ bytes => bytes = min data.length u64Max

def PendingOperation.suits : PendingOperation → RelayServerAction → Prop
  | .openStop .., .openStream .. => True
  | .send _ effect, .sendStream _ _ stream data => effect.suits stream data
  | .close _ stream _, .closeStreamWrite _ _ stream' => stream' = stream
  | .reset _, .resetStream .. => True
  | _, _ => False

namespace Agent

/-- What a decision makes of the responder whose request it answers. -/
inductive Decision (m : HopResponder) : HopResponder → Prop where
  | none : Decision m m
  | rejected {m' : HopResponder} {status : Status} : m.reject status = .ok m' → Decision m m'
  | reserved {m' : HopResponder} {reservation : Reservation} {limit : Option Limit} :
      m.acceptReservation reservation limit = .ok m' → Decision m m'

inductive Turn (s : Agent) (key : StreamKey) (worker : HopWorker) : HopWorker → Prop where
  | hungUp :
      Turn s key worker { worker with responder := worker.responder.onRemoteWriteClosed }
  | answered {request : HopRequest} {outputs : List HopResponderOutput} {responder : HopResponder} :
      s.pendingCircuits.get key = none →
      worker.responder.outputs = .request request :: outputs →
      Decision { worker.responder with outputs } responder →
      Turn s key worker { worker with responder, requestKnown := true }
  | refused {responder : HopResponder} {status : Status} {deadlineMs : Option Nat} :
      s.pendingCircuits.get key = none → worker.responder.outputs = [] →
      worker.responder.reject status = .ok responder →
      deadlineMs = worker.deadlineMs ∨ deadlineMs = none →
      Turn s key worker { worker with responder, deadlineMs }
  | muted {request : HopRequest} {outputs : List HopResponderOutput} {reservation : Reservation}
      {limit : Option Limit} {responder responder' : HopResponder} :
      s.pendingCircuits.get key = none →
      worker.responder.outputs = .request request :: outputs →
      { worker.responder with outputs }.acceptReservation reservation limit = .ok responder →
      responder.pollOutput = some (.reset, responder') →
      Turn s key worker { worker with responder := responder', requestKnown := true }
  | lost {data : List UInt8} {responder : HopResponder} :
      worker.responder.pollOutput = some (.bridgeData data, responder) →
      data = [] ∨ (s.pendingCircuits.get key = none ∧ s.circuits.get key = none) →
      Turn s key worker { worker with responder }

inductive Reply (s : Agent) (key : StreamKey) (worker : HopWorker) :
    HopResponderOutput → Agent → Prop where
  | status (data : List UInt8) :
      Reply s key worker (.outbound data) (s.queueSend worker.peerId key data (.completeHop key))
  | closeWrite : Reply s key worker .closeWrite (s.queueClose worker.peerId key)
  | reset : Reply s key worker .reset (s.queueReset worker.peerId key)

inductive Shift (circuit : PendingCircuit) : PendingCircuit → Prop where
  | signalled {stop stop' : StopInitiator} :
      circuit.stop = some stop → stop' = stop.remoteWriteClosed ∨ stop' = stop.remoteReset →
      Shift circuit { circuit with stop := some stop' }
  | popped {stop stop' : StopInitiator} {output : StopInitiatorOutput} {deadline : Option Nat} :
      circuit.stop = some stop → stop.pollOutput = some (output, stop') →
      (∀ data, output ≠ .bridgeData data) →
      Shift circuit { circuit with stop := some stop', stopDeadlineMs := deadline }
  | parked {stop stop' : StopInitiator} {data : List UInt8} :
      circuit.stop = some stop → stop.pollOutput = some (.bridgeData data, stop') →
      Shift circuit { circuit with
        stop := some stop', destinationPipelined := circuit.destinationPipelined ++ data }

variable (s : Agent) (key : StreamKey)

def dropPending (circuit : PendingCircuit) : Agent :=
  ({ s with
    pendingCircuits := s.pendingCircuits.remove key
    stopToSource := circuit.stopStream.elim s.stopToSource s.stopToSource.remove }).cancelWhere
    (isControlOp key)

def dropCircuit (circuit : Circuit) (reason : CircuitCloseReason) : Agent :=
  (({ s with
    circuits := s.circuits.remove key
    hopWorkers := s.hopWorkers.remove key
    stopToSource := s.stopToSource.remove circuit.destinationStream }).cancelWhere
    (isForwardOp key)).emit
      (.circuitClosed circuit.sourcePeerId circuit.destinationPeerId circuit.bytes reason)

def setCircuit (circuit : Circuit) : Agent :=
  { s with circuits := s.circuits.insert key circuit }

def credit (direction : CircuitDirection) (bytes : Nat) : Agent :=
  { s with
    circuits :=
      match s.circuits.get key with
      | none => s.circuits
      | some circuit => s.circuits.insert key (circuit.accept bytes direction).2 }

def sendForward (circuit : Circuit) (direction : CircuitDirection) (data : List UInt8) : Agent :=
  (s.setCircuit key (circuit.setInFlight true direction)).queueSend
    (circuit.receiver direction).1 (circuit.receiver direction).2 data
    (.forward key direction (min data.length u64Max))

def sendEof (circuit : Circuit) (leg : CircuitLeg) : Agent :=
  (s.setCircuit key (circuit.setEof leg)).queueCircuitClose
    (circuit.receiver leg.outward).1
    (circuit.receiver leg.outward).2 key leg.opposite

/-- The forward a queued action stands for. -/
def forwardOf : RelayServerAction → Option (StreamKey × CircuitDirection × List UInt8)
  | .sendStream token _ _ data =>
    match s.pendingOperations.get token with
    | some (.send _ (.forward key direction _)) => some (key, direction, data)
    | _ => none
  | _ => none

structure Deaf (s : Agent) (key : StreamKey) (data : List UInt8) : Prop where
  notPending : s.pendingCircuits.get key = none
  worker : ∀ worker, s.hopWorkers.get key = some worker →
    worker.responder.outputs = [] ∧ ∃ e, worker.responder.onData data = .error e
  unheard : s.hopWorkers.get key = none → s.rejectedHopStreams.get key = none →
    s.circuits.get key = none ∧ ∀ source, s.stopToSource.get key = some source →
      s.circuits.get source = none ∧
        ∀ circuit, s.pendingCircuits.get source = some circuit → circuit.stop = none

inductive Arrival (s : Agent) : StreamKey → List UInt8 → List Mark → Agent → Prop where
  | deaf {key : StreamKey} {data : List UInt8} : Deaf s key data → Arrival s key data [] s
  | pending {key : StreamKey} {data : List UInt8} {circuit : PendingCircuit} :
      s.pendingCircuits.get key = some circuit →
      Arrival s key data []
        (s.setPending key { circuit with sourcePipelined := circuit.sourcePipelined ++ data })
  | hop {key : StreamKey} {data : List UInt8} {worker : HopWorker} {responder : HopResponder} :
      s.pendingCircuits.get key = none →
      s.hopWorkers.get key = some worker → worker.responder.onData data = .ok responder →
      Arrival s key data [.stirred key] (s.setWorker key { worker with responder })
  | source {key : StreamKey} {data : List UInt8} {circuit : Circuit} :
      s.pendingCircuits.get key = none → s.hopWorkers.get key = none →
      s.circuits.get key = some circuit →
      circuit.inFlight .sourceToDestination = false → data ≠ [] →
      Arrival s key data [] (s.sendForward key circuit .sourceToDestination data)
  | stop {key source : StreamKey} {data : List UInt8} {circuit : PendingCircuit}
      {stop : StopInitiator} :
      s.pendingCircuits.get key = none → s.hopWorkers.get key = none →
      s.stopToSource.get key = some source → s.pendingCircuits.get source = some circuit →
      circuit.stop = some stop →
      Arrival s key data [.stirred source]
        (s.setPending source { circuit with stop := some (stop.onData data) })
  | destination {key source : StreamKey} {data : List UInt8} {circuit : Circuit} :
      s.pendingCircuits.get key = none → s.hopWorkers.get key = none →
      s.circuits.get key = none → s.stopToSource.get key = some source →
      s.circuits.get source = some circuit →
      circuit.inFlight .destinationToSource = false → data ≠ [] →
      Arrival s key data [] (s.sendForward source circuit .destinationToSource data)
  | jammed {key source : StreamKey} {data : List UInt8} {circuit : Circuit}
      {direction : CircuitDirection} :
      (direction = .sourceToDestination ∧ source = key) ∨
        (direction = .destinationToSource ∧ s.stopToSource.get key = some source) →
      s.circuits.get source = some circuit → circuit.inFlight direction = true → data ≠ [] →
      Arrival s key data [] s
  | nothing {key : StreamKey} : Arrival s key [] [] s

def isInert : PendingOperation → Bool
  | .send _ (.stopRequest _) | .close _ _ none | .reset _ => true
  | _ => false

inductive Step : Agent → List Mark → Agent → Prop where
  | policy {s : Agent} (accepting : Bool) (explicitAddrs : Option (List Multiaddr))
      (confirmedAddrs listenerAddrs : List Multiaddr) (lastEventTickMs : Option Nat)
      (reservationLimiters circuitLimiters : AdmissionLimiters) :
      Step s [] { s with
        accepting, explicitAddrs, confirmedAddrs, listenerAddrs, lastEventTickMs,
        reservationLimiters, circuitLimiters }
  | addressed {s : Agent} {connId : ConnectionId} {connection : Connection}
      (address : Option Multiaddr) :
      s.connections.get connId = some connection →
      Step s [.rewired] { s with
        connections := s.connections.insert connId { connection with address } }
  | established {s : Agent} {connId : ConnectionId} {connection : Connection} :
      (∀ id other, s.connections.get id = some other → other.peerId = connection.peerId →
        id = connId) →
      (∀ r, s.reservations.get connection.peerId = some r → r.connId = connId) →
      Step s [.rewired] { s with connections := s.connections.insert connId connection }
  | departed {s : Agent} (connId : ConnectionId) :
      Step s [.rewired] { s with connections := s.connections.remove connId }
  | unreserved {s : Agent} {peerId : PeerId} (reason : ReservationCloseReason) :
      (s.reservations.get peerId).isSome →
      Step s [.ended peerId reason] (s.closeReservation peerId reason)
  | reserved {s : Agent} {token : RelayServerToken} {peerId : PeerId}
      {pending : PendingReservation} :
      s.pendingOperations.get token = some (.send peerId (.commitReservation pending)) →
      (s.connections.get pending.connId).any (fun c => c.peerId == pending.peerId) = true →
      (∀ worker, s.hopWorkers.get pending.stream = some worker → worker.responder.outputs = []) →
      Step s [.echoed token, .accepted pending.peerId pending.renewed pending.expiresUnixSecs]
        (((s.takeOperation token).grantReservation pending).completeHop pending.stream)
  | completed {s : Agent} {token : RelayServerToken} {peerId : PeerId} {effect : SendEffect}
      {stream : StreamKey} :
      s.pendingOperations.get token = some (.send peerId effect) →
      effect.completes = some stream →
      (∀ worker, s.hopWorkers.get stream = some worker → worker.responder.outputs = []) →
      Step s [.echoed token] ((s.takeOperation token).completeHop stream)
  | resolved {s : Agent} (token : RelayServerToken) : Step s [.echoed token] (s.takeOperation token)
  | paid {s : Agent} {token : RelayServerToken} {peerId : PeerId} {key : StreamKey}
      {direction : CircuitDirection} {bytes : Nat} :
      s.pendingOperations.get token = some (.send peerId (.forward key direction bytes)) →
      Step s [.echoed token, .paid key direction bytes]
        ((s.takeOperation token).credit key direction bytes)
  | barred {s : Agent} (key : StreamKey) (peerId : PeerId) :
      Step s [] { s with rejectedHopStreams := s.rejectedHopStreams.insert key peerId }
  | unbarred {s : Agent} (keep : StreamKey → PeerId → Bool) :
      Step s [] { s with rejectedHopStreams := s.rejectedHopStreams.retain keep }
  | noted {s : Agent} {event : RelayServerEvent} :
      event.isReport = true → Step s [.noted event] (s.emit event)
  | posted {s : Agent} {op : PendingOperation} {action : RelayServerToken → RelayServerAction} :
      isInert op = true → (∀ token, (action token).token = token ∧ op.suits (action token)) →
      Step s [] (s.enqueue op action)
  | hired {s : Agent} {key : StreamKey} {worker : HopWorker} :
      worker.responder = .new → worker.deadlineMs.isSome →
      Step s [.began key, .stirred key] (s.setWorker key worker)
  | dismissed {s : Agent} {key : StreamKey} :
      s.pendingCircuits.get key = none →
      Step s [] (({ s with hopWorkers := s.hopWorkers.remove key }).cancelPendingHopOps key)
  | deserted {s : Agent} {key : StreamKey} {circuit : PendingCircuit} :
      s.pendingCircuits.get key = some circuit →
      Step s [] ({ s with hopWorkers := s.hopWorkers.remove key }.dropPending key circuit)
  | turned {s : Agent} {key : StreamKey} {worker worker' : HopWorker} :
      s.hopWorkers.get key = some worker → Turn s key worker worker' →
      Step s [.stirred key] (s.setWorker key worker')
  | stranded {s : Agent} {key : StreamKey} {worker : HopWorker} :
      s.hopWorkers.get key = some worker → s.pendingCircuits.get key = none →
      Step s [.stranded key] (s.setWorker key { worker with deadlineMs := none })
  | replied {s t : Agent} {key : StreamKey} {worker : HopWorker} {output : HopResponderOutput}
      {responder : HopResponder} :
      s.hopWorkers.get key = some worker →
      worker.responder.pollOutput = some (output, responder) →
      Reply (s.setWorker key { worker with responder }) key worker output t →
      Step s [] t
  | promised {s : Agent} {key : StreamKey} {worker : HopWorker} {data : List UInt8}
      {responder : HopResponder} (renewed : Bool) (deadlineMs : Nat) (expires : Option Nat) :
      s.hopWorkers.get key = some worker →
      worker.responder.pollOutput = some (.outbound data, responder) →
      s.pendingForPeer worker.peerId = false →
      renewed = s.renews worker.peerId key.connId →
      renewed = true ∨ s.reservations.len + s.pendingInitial < s.config.maxReservations →
      Step s [] ((s.setWorker key { worker with responder }).queueSend worker.peerId key data
        (.commitReservation ⟨key, worker.peerId, key.connId, renewed, deadlineMs, expires⟩))
  | asked {s : Agent} {key : StreamKey} {worker : HopWorker} {outputs : List HopResponderOutput}
      {destinationPeerId : PeerId} (destinationConnId : ConnectionId) (now : Now) :
      s.hopWorkers.get key = some worker →
      worker.responder.outputs = .request (.connect destinationPeerId) :: outputs →
      s.pendingCircuits.get key = none →
      s.crowded worker.peerId destinationPeerId = false →
      Step s [] ((s.setWorker key { worker with
        responder := { worker.responder with outputs }, requestKnown := true }).requestCircuit key
          worker.peerId destinationPeerId destinationConnId now)
  | parked {s : Agent} {key : StreamKey} {worker : HopWorker} {data : List UInt8}
      {responder : HopResponder} {circuit : PendingCircuit} :
      s.hopWorkers.get key = some worker →
      worker.responder.pollOutput = some (.bridgeData data, responder) →
      s.pendingCircuits.get key = some circuit →
      Step s [] ((s.setWorker key { worker with responder }).setPending key
        { circuit with sourcePipelined := circuit.sourcePipelined ++ data })
  | bridged {s : Agent} {key : StreamKey} {worker : HopWorker} {data : List UInt8}
      {responder : HopResponder} {circuit : Circuit} :
      s.hopWorkers.get key = some worker →
      worker.responder.pollOutput = some (.bridgeData data, responder) →
      s.pendingCircuits.get key = none → s.circuits.get key = some circuit →
      circuit.inFlight .sourceToDestination = false → data ≠ [] →
      Step s [] ((s.setWorker key { worker with responder }).sendForward key circuit
        .sourceToDestination data)
  | shifted {s : Agent} {key : StreamKey} {circuit circuit' : PendingCircuit} :
      s.pendingCircuits.get key = some circuit → Shift circuit circuit' →
      Step s [.stirred key] (s.setPending key circuit')
  | misheard {s : Agent} {key : StreamKey} {worker : HopWorker} {circuit : PendingCircuit}
      {stop stop' : StopInitiator} {responder responder' : HopResponder} {limit : Option Limit} :
      s.pendingCircuits.get key = some circuit → circuit.stop = some stop →
      stop.pollOutput = some (.outcome .accepted, stop') →
      s.hopWorkers.get key = some worker → worker.responder.outputs = [] →
      worker.responder.acceptConnect limit = .ok responder →
      responder.pollOutput = some (.reset, responder') →
      Step s [.stirred key] ((s.setPending key
        { circuit with stop := some stop', stopDeadlineMs := none }).setWorker key
          { worker with responder := responder' })
  | stopAccepted {s : Agent} {key : StreamKey} {worker : HopWorker} {circuit : PendingCircuit}
      {stop stop' : StopInitiator} {responder responder' : HopResponder} {limit : Option Limit}
      {data : List UInt8} :
      s.pendingCircuits.get key = some circuit → circuit.stop = some stop →
      circuit.stopStream.isSome →
      stop.pollOutput = some (.outcome .accepted, stop') →
      s.hopWorkers.get key = some worker → worker.responder.outputs = [] →
      worker.responder.acceptConnect limit = .ok responder →
      responder.pollOutput = some (.outbound data, responder') →
      Step s [.stirred key] (((s.setPending key
        { circuit with stop := some stop', stopDeadlineMs := none }).setWorker key
          { worker with responder := responder' }).queueSend worker.peerId key data
            (.commitCircuit key))
  | linked {s : Agent} {token : RelayServerToken} {peerId : PeerId} {connId : ConnectionId}
      {key stream : StreamKey} {circuit : PendingCircuit} {stop : StopInitiator} :
      s.pendingOperations.get token = some (.openStop key peerId connId) →
      s.pendingCircuits.get key = some circuit → circuit.stop = none →
      stop.outputs = [] → stop.recvBuf = [] → stop.done = false → stop.bridged = false →
      Step s [.echoed token, .joined stream] { s.takeOperation token with
        pendingCircuits := s.pendingCircuits.insert key
          { circuit with stopStream := some stream, stop := some stop }
        stopToSource := s.stopToSource.insert stream key }
  | sourceEnded {s : Agent} {key : StreamKey} {circuit : PendingCircuit} :
      s.pendingCircuits.get key = some circuit →
      Step s [.hungUp key] (s.setPending key { circuit with sourceEof := true })
  | destinationEnded {s : Agent} {key stream : StreamKey} {circuit : PendingCircuit} :
      s.pendingCircuits.get key = some circuit → s.stopToSource.get stream = some key →
      Step s [.hungUp stream] (s.setPending key { circuit with destinationEof := true })
  | dropped {s : Agent} {key : StreamKey} {circuit : PendingCircuit} :
      s.pendingCircuits.get key = some circuit → Step s [] (s.dropPending key circuit)
  | committed {s : Agent} {token : RelayServerToken} {peerId : PeerId} {key stream : StreamKey}
      {circuit : PendingCircuit} (now : Now) :
      s.pendingOperations.get token = some (.send peerId (.commitCircuit key)) →
      s.pendingCircuits.get key = some circuit → circuit.stopStream = some stream →
      Step s [.echoed token, .opened key circuit.sourcePeerId circuit.destinationPeerId]
        (((s.takeOperation token).completeHop key).commitCircuit key now)
  | closed {s : Agent} {key : StreamKey} {circuit : Circuit} (reason : CircuitCloseReason) :
      s.circuits.get key = some circuit →
      Step s [.closed key circuit.sourcePeerId circuit.destinationPeerId circuit.bytes reason]
        (s.dropCircuit key circuit reason)
  | eof {s : Agent} {key stream : StreamKey} {circuit : Circuit} {leg : CircuitLeg} :
      s.circuits.get key = some circuit → circuit.hasEof leg = false →
      (leg = .source ∧ stream = key) ∨
        (leg = .destination ∧ s.stopToSource.get stream = some key) →
      Step s [.hungUp stream] (s.sendEof key circuit leg)
  | writeClosed {s : Agent} {key : StreamKey} {circuit : Circuit} (leg : CircuitLeg) :
      s.circuits.get key = some circuit →
      Step s [] (s.setCircuit key (circuit.setWriteClosed leg))
  | arrived {s t : Agent} {key : StreamKey} {data : List UInt8} {marks : List Mark} :
      Arrival s key data marks t → Step s (.arrived key data :: marks) t
  | began {s : Agent} (key : StreamKey) : Step s [.began key] s
  | joined {s : Agent} (key : StreamKey) : Step s [.joined key] s
  | hungUp {s : Agent} (key : StreamKey) : Step s [.hungUp key] s
  | taken {s : Agent} {action : RelayServerAction} {actions : List RelayServerAction} :
      s.actions = action :: actions →
      Step s [.taken action (s.forwardOf action)] { s with actions }
  | read {s : Agent} {event : RelayServerEvent} {events : List RelayServerEvent} :
      s.events = event :: events → Step s [.read event] { s with events }

end Agent

end RelayServer
