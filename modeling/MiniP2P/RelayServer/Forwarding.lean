import MiniP2P.RelayServer.Agent

/-! Committed circuits and the HOP and STOP workers that lead to them. `none` is a call
that does not return: a loop that outlasts its fuel or a failed expectation. -/
namespace RelayServer
open Collections Identity Relay

variable (c : Circuit)

def Circuit.inFlight : CircuitDirection → Bool
  | .sourceToDestination => c.sourceToDestinationInFlight
  | .destinationToSource => c.destinationToSourceInFlight

def Circuit.setInFlight (flag : Bool) : CircuitDirection → Circuit
  | .sourceToDestination => { c with sourceToDestinationInFlight := flag }
  | .destinationToSource => { c with destinationToSourceInFlight := flag }

def Circuit.receiver : CircuitDirection → PeerId × StreamKey
  | .sourceToDestination => (c.destinationPeerId, c.destinationStream)
  | .destinationToSource => (c.sourcePeerId, c.sourceStream)

def Circuit.drained : Bool :=
  c.sourceEof && c.destinationEof && c.sourceWriteClosed && c.destinationWriteClosed &&
    !c.sourceToDestinationInFlight && !c.destinationToSourceInFlight

def Circuit.accept (bytes : Nat) : CircuitDirection → Nat × Circuit
  | .sourceToDestination =>
    let total := saturatingAdd c.bytes.sourceToDestination bytes
    (total, { c with
      sourceToDestinationInFlight := false
      bytes := { c.bytes with sourceToDestination := total } })
  | .destinationToSource =>
    let total := saturatingAdd c.bytes.destinationToSource bytes
    (total, { c with
      destinationToSourceInFlight := false
      bytes := { c.bytes with destinationToSource := total } })

def Circuit.hasEof : CircuitLeg → Bool
  | .source => c.sourceEof
  | .destination => c.destinationEof

def Circuit.setEof : CircuitLeg → Circuit
  | .source => { c with sourceEof := true }
  | .destination => { c with destinationEof := true }

def CircuitLeg.opposite : CircuitLeg → CircuitLeg
  | .source => .destination
  | .destination => .source

def CircuitLeg.outward : CircuitLeg → CircuitDirection
  | .source => .sourceToDestination
  | .destination => .destinationToSource

def Circuit.setWriteClosed : CircuitLeg → Circuit
  | .source => { c with sourceWriteClosed := true }
  | .destination => { c with destinationWriteClosed := true }

def PendingCircuit.pipelined (c : PendingCircuit) : CircuitDirection → List UInt8
  | .sourceToDestination => c.sourcePipelined
  | .destinationToSource => c.destinationPipelined

def PendingCircuit.pipeline (c : PendingCircuit) (data : List UInt8) :
    CircuitDirection → PendingCircuit
  | .sourceToDestination => { c with sourcePipelined := c.sourcePipelined ++ data }
  | .destinationToSource => { c with destinationPipelined := c.destinationPipelined ++ data }

def PendingCircuit.sender (c : PendingCircuit) : CircuitDirection → PeerId
  | .sourceToDestination => c.sourcePeerId
  | .destinationToSource => c.destinationPeerId

namespace Agent

/-! ### Committed circuits -/

def resetLegs : CircuitCloseReason → Bool × Bool
  | .eof => (false, false)
  | .streamReset .source | .connectionClosed .source _ => (false, true)
  | .streamReset .destination | .connectionClosed .destination _ => (true, false)
  | _ => (true, true)

variable (s : Agent)

def closeCircuit (sourceStream : StreamKey) (reason : CircuitCloseReason) : Agent :=
  match s.circuits.get sourceStream with
  | none => s
  | some circuit =>
    let s := { s with
      circuits := s.circuits.remove sourceStream
      hopWorkers := s.hopWorkers.remove sourceStream
      stopToSource := s.stopToSource.remove circuit.destinationStream }
    let s := s.cancelForwardOps sourceStream
    let (resetSource, resetDestination) := resetLegs reason
    let s := if resetSource then s.queueReset circuit.sourcePeerId circuit.sourceStream else s
    let s :=
      if resetDestination then s.queueReset circuit.destinationPeerId circuit.destinationStream
      else s
    s.emit (.circuitClosed circuit.sourcePeerId circuit.destinationPeerId circuit.bytes reason)

def queueForward (sourceStream : StreamKey) (direction : CircuitDirection)
    (data : List UInt8) : Agent :=
  if data = [] then s
  else
    match s.circuits.get sourceStream with
    | none => s
    | some circuit =>
      if circuit.inFlight direction then
        (s.closeCircuit sourceStream .internalFailure).runtimeError .internalInvariant none
          "same-direction forwarding send was not echoed before new input"
      else
        let s := { s with
          circuits := s.circuits.insert sourceStream (circuit.setInFlight true direction) }
        let (peerId, stream) := circuit.receiver direction
        let bytes := min data.length u64Max
        s.queueSend peerId stream data (.forward sourceStream direction bytes)

def finishEofIfDrained (sourceStream : StreamKey) : Agent :=
  if (s.circuits.get sourceStream).any Circuit.drained then s.closeCircuit sourceStream .eof
  else s

def forwardAccepted (sourceStream : StreamKey) (direction : CircuitDirection)
    (bytes : Nat) : Agent :=
  match s.circuits.get sourceStream with
  | none => s
  | some circuit =>
    let (total, circuit) := circuit.accept bytes direction
    let s := { s with circuits := s.circuits.insert sourceStream circuit }
    if s.config.maxCircuitBytes ≠ 0 ∧ s.config.maxCircuitBytes < total then
      s.closeCircuit sourceStream (.byteLimit direction)
    else s.finishEofIfDrained sourceStream

def circuitEof (sourceStream : StreamKey) (leg : CircuitLeg) : Agent :=
  match s.circuits.get sourceStream with
  | none => s
  | some circuit =>
    if circuit.hasEof leg then s
    else
      let s := { s with circuits := s.circuits.insert sourceStream (circuit.setEof leg) }
      let (peerId, stream) := circuit.receiver leg.outward
      let s := s.queueCircuitClose peerId stream sourceStream leg.opposite
      s.finishEofIfDrained sourceStream

def circuitCloseAccepted (sourceStream : StreamKey) (leg : CircuitLeg) : Agent :=
  match s.circuits.get sourceStream with
  | none => s
  | some circuit =>
    let s := { s with
      circuits := s.circuits.insert sourceStream (circuit.setWriteClosed leg) }
    s.finishEofIfDrained sourceStream

/-! ### Pending circuits -/

def abortPendingConnect (sourceStream : StreamKey) : Agent :=
  match s.pendingCircuits.get sourceStream with
  | none => s
  | some circuit =>
    let s := { s with pendingCircuits := s.pendingCircuits.remove sourceStream }
    let s := s.cancelPendingControlOps sourceStream
    match circuit.stopStream with
    | none => s
    | some stopStream =>
      let s := { s with stopToSource := s.stopToSource.remove stopStream }
      s.queueReset circuit.destinationPeerId stopStream

def abortPendingConnectBoth (sourceStream : StreamKey) : Agent :=
  let s := s.abortPendingConnect sourceStream
  match s.hopWorkers.get sourceStream with
  | none => s
  | some worker =>
    let s := { s with hopWorkers := s.hopWorkers.remove sourceStream }
    s.queueReset worker.peerId sourceStream

def appendPendingPayload (sourceStream : StreamKey) (direction : CircuitDirection)
    (data : List UInt8) : Agent :=
  match s.pendingCircuits.get sourceStream with
  | none => s
  | some circuit =>
    if (circuit.pipelined direction).length + data.length ≤
        maxPendingBridgeSize then
      { s with
        pendingCircuits := s.pendingCircuits.insert sourceStream
          (circuit.pipeline data direction) }
    else
      (s.abortPendingConnectBoth sourceStream).runtimeError .internalInvariant
        (some (circuit.sender direction))
        "pending circuit payload exceeded the 64 KiB directional bound"

def commitCircuit (sourceStream : StreamKey) (now : Now) : Agent :=
  match s.pendingCircuits.get sourceStream with
  | none => s
  | some pending =>
    let s := { s with pendingCircuits := s.pendingCircuits.remove sourceStream }
    match pending.stopStream with
    | none => s
    | some destinationStream =>
      let duration := s.config.maxCircuitDurationSecs
      let circuit : Circuit := {
        sourcePeerId := pending.sourcePeerId
        destinationPeerId := pending.destinationPeerId
        sourceStream
        destinationStream
        deadlineMs :=
          if duration ≠ 0 then
            some (saturatingAdd now.monotonicMs (saturatingMul duration 1000))
          else none
        bytes := {}
        sourceEof := false
        destinationEof := false
        sourceWriteClosed := false
        destinationWriteClosed := false
        sourceToDestinationInFlight := false
        destinationToSourceInFlight := false }
      let s := { s with circuits := s.circuits.insert sourceStream circuit }
      let s := s.emit (.circuitOpened pending.sourcePeerId pending.destinationPeerId)
      let s := s.queueForward sourceStream .sourceToDestination pending.sourcePipelined
      let s := s.queueForward sourceStream .destinationToSource pending.destinationPipelined
      let s := if pending.sourceEof then s.circuitEof sourceStream .source else s
      if pending.destinationEof then s.circuitEof sourceStream .destination else s

end Agent

end RelayServer
