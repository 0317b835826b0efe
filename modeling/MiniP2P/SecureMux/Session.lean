import MiniP2P.Multistream.Select
import MiniP2P.Noise.Session
import MiniP2P.Transport.Types
import MiniP2P.Yamux.Session

/-! One byte stream upgraded to a secured and multiplexed session. A negotiation in the clear
settles on Noise, the Noise handshake follows, a second negotiation under its cover settles on
Yamux, and from then on the session is a Yamux session over Noise.

Every call is a function of the session value, and `none` is a call that does not return, as in
Yamux. A call takes the phase out of the session, and an error leaves it out. -/
namespace SecureMux
open Fallible Identity
open Multistream (MultistreamSelect MultistreamOutput)
open Noise (Primitives NoiseConfig NoiseInput NoiseOutput NoiseRole NoiseSession noiseProtocolId)
open Transport (StreamId)
open Yamux (YamuxConfig YamuxError YamuxOutput YamuxRole YamuxSession yamuxProtocolId)

variable {P : Primitives}

inductive SessionRole where
  | initiator | responder
  deriving DecidableEq

structure SessionConfig (P : Primitives) where
  role : SessionRole
  identity : Ed25519Keypair P.toCrypto
  staticSecret : Bytes 32
  ephemeralSecret : Bytes 32
  expectedPeer : Option PeerId
  yamux : YamuxConfig

inductive SessionOutput where
  | write (bytes : List UInt8)
  | established (peer : PeerId)
  | incomingStream (stream : StreamId)
  | streamData (stream : StreamId) (data : List UInt8)
  | streamRemoteWriteClosed (stream : StreamId)
  | streamClosed (stream : StreamId)
  deriving DecidableEq

inductive SessionError where
  | protocol (reason : String)
  | notEstablished
  | unknownStream (stream : StreamId)
  | goAway (code : UInt32)
  | yamux (e : YamuxError)
  deriving DecidableEq

inductive Phase (P : Primitives) where
  | selectNoise (select : MultistreamSelect) (noise : Option (NoiseSession P))
  | noise (noise : NoiseSession P)
  | selectYamux (noise : NoiseSession P) (select : MultistreamSelect) (peer : PeerId)
  | ready (noise : NoiseSession P) (yamux : YamuxSession) (peer : PeerId)

/-! ### The work of a call -/

/-- Why the work of a call ends early: in an error, or without a return. -/
inductive Halt where
  | error (e : SessionError)
  | panic
  deriving DecidableEq

abbrev M := EStateM Halt (List SessionOutput)

def fail {α : Type} (reason : String) : M α := throw (.error (.protocol reason))

def orFail {ε α : Type} (context : String) (text : ε → String) : Except ε α → M α
  | .ok a => pure a
  | .error e => fail (context ++ text e)

def push (output : SessionOutput) : M Unit := modify fun outputs => outputs ++ [output]

def write (bytes : List UInt8) : M Unit := push (.write bytes)

structure Drained (P : Primitives) where
  peer : Option PeerId
  decrypted : List (List UInt8)
  noise : NoiseSession P

/-- The loop of `drain_noise`, over the queue it empties. -/
def drainNoiseLoop : List NoiseOutput → Drained P → M (Drained P)
  | [], drained => return drained
  | .outbound bytes :: rest, drained => do
    write bytes
    drainNoiseLoop rest drained
  | .handshakeComplete authenticated _ :: rest, drained =>
    drainNoiseLoop rest { drained with peer := some authenticated }
  | .decrypted bytes :: rest, drained =>
    drainNoiseLoop rest { drained with decrypted := drained.decrypted ++ [bytes] }

def drainNoise (noise : NoiseSession P) : M (Drained P) :=
  drainNoiseLoop noise.pending ⟨none, [], { noise with pending := [] }⟩

def handleNoise (context : String) (noise : NoiseSession P) (input : NoiseInput) :
    M (Drained P) := do
  let handled := noise.handleInput input
  orFail context Noise.NoiseError.toString handled.1
  drainNoise handled.2

def encrypt (noise : NoiseSession P) (plaintext : List UInt8) : M (NoiseSession P) := do
  let drained ← handleNoise "Noise encryption failed: " noise (.encrypt plaintext)
  if drained.peer.isSome || !drained.decrypted.isEmpty then
    fail "unexpected Noise output while encrypting"
  else return drained.noise

/-- Every poll takes an output that was queued, or a stream's announcement, so one more than there
can be of both is fuel enough. -/
def drainYamuxLoop : Nat → NoiseSession P → YamuxSession → Option UInt32 →
    M (NoiseSession P × YamuxSession × Option UInt32)
  | 0, _, _, _ => throw .panic
  | fuel + 1, noise, yamux, goAway =>
    match yamux.core.pollOutput with
    | none => throw .panic
    | some (none, core) => return (noise, ⟨core, yamux.decoder⟩, goAway)
    | some (some output, core) => do
      let yamux : YamuxSession := ⟨core, yamux.decoder⟩
      match output with
      | .outbound bytes => drainYamuxLoop fuel (← encrypt noise bytes) yamux goAway
      | .incomingStream stream =>
        push (.incomingStream stream.toNat)
        drainYamuxLoop fuel noise yamux goAway
      | .data stream data =>
        push (.streamData stream.toNat data)
        drainYamuxLoop fuel noise yamux goAway
      | .remoteWriteClosed stream =>
        push (.streamRemoteWriteClosed stream.toNat)
        drainYamuxLoop fuel noise yamux goAway
      | .streamClosed stream =>
        push (.streamClosed stream.toNat)
        drainYamuxLoop fuel noise yamux goAway
      | .goAwayReceived code => drainYamuxLoop fuel noise yamux (some (goAway.getD code))

def drainYamux (noise : NoiseSession P) (yamux : YamuxSession) :
    M (NoiseSession P × YamuxSession) := do
  let fuel := yamux.core.pending.length + yamux.core.streams.len + 1
  match ← drainYamuxLoop fuel noise yamux none with
  | (_, _, some code) => throw (.error (.goAway code))
  | (noise, yamux, none) => return (noise, yamux)

def feedYamux (noise : NoiseSession P) (yamux : YamuxSession) (plaintext : List UInt8) :
    M (NoiseSession P × YamuxSession) := do
  match yamux.handleData plaintext with
  | none => throw .panic
  | some (result, yamux) =>
    let drained ← drainYamux noise yamux
    orFail "Yamux protocol failed: " YamuxError.toString result
    return drained

/-! ### Negotiating -/

def selector (role : SessionRole) (protocol : String) : MultistreamSelect :=
  match role with
  | .initiator => .dialer protocol
  | .responder => .listener [protocol]

section Select

variable {S : Type} (send : S → List UInt8 → M S)

/-- `drain_raw_select` and `drain_encrypted_select`, by how they send: only outbound data counts. -/
def drainSelect : List MultistreamOutput → S → M S
  | [], state => return state
  | .outboundData bytes :: rest, state => do
    drainSelect rest (← send state bytes)
  | _ :: rest, state => drainSelect rest state

/-- The loop over the outputs of a negotiator that has been fed, by how it sends, what it
negotiates and what that is called. -/
def followSelect (role : SessionRole) (name protocol : String) :
    List MultistreamOutput → S → Bool → M (S × Bool)
  | [], state, negotiated => return (state, negotiated)
  | .outboundData bytes :: rest, state, negotiated => do
    followSelect role name protocol rest (← send state bytes) negotiated
  | .negotiated chosen :: rest, state, _ =>
    if chosen = protocol then followSelect role name protocol rest state true
    else fail ("remote did not negotiate " ++ name)
  | .notAvailable :: rest, state, negotiated =>
    if role = .responder then followSelect role name protocol rest state negotiated
    else fail ("remote did not negotiate " ++ name)
  | .protocolError reason :: _, _, _ => fail (name ++ " multistream protocol error: " ++ reason)

end Select

def sendRaw (_ : Unit) (bytes : List UInt8) : M Unit := write bytes

def takeOutputs (select : MultistreamSelect) : MultistreamSelect :=
  { select with pendingOutputs := [] }

def yamuxRole : SessionRole → YamuxRole
  | .initiator => .client
  | .responder => .server

def unpublished {α : Type} (m : M α) : M α := fun outputs =>
  match m outputs with
  | .ok a outputs' => .ok a outputs'
  | .error halt outputs' => .error halt (outputs'.take outputs.length)

/-- The peer is announced ahead of whatever the bytes behind the negotiation have led to, and only
once they have been handled. -/
def feedDecryptedYamuxSelect (role : SessionRole) (config : YamuxConfig) (noise : NoiseSession P)
    (select : MultistreamSelect) (peer : PeerId) (plaintext : List UInt8) : M (Phase P) := do
  let select := select.handleInput (.data plaintext)
  let (noise, negotiated) ←
    followSelect encrypt role "Yamux" yamuxProtocolId select.pendingOutputs noise false
  if !negotiated then return .selectYamux noise (takeOutputs select) peer
  else
    let remaining := select.takeRemainingBuffer.1
    let yamux ← orFail "invalid Yamux configuration: " YamuxError.toString
      (YamuxSession.withConfig (yamuxRole role) config)
    let establishedAt := (← get).length
    let (noise, yamux) ←
      if remaining.isEmpty then pure (noise, yamux)
      else unpublished (feedYamux noise yamux remaining)
    modify fun outputs => outputs.insertIdx establishedAt (.established peer)
    return .ready noise yamux peer

def feedDecryptedTransport (role : SessionRole) (config : YamuxConfig) :
    Phase P → List UInt8 → M (Phase P)
  | .selectYamux noise select peer, plaintext =>
    feedDecryptedYamuxSelect role config noise select peer plaintext
  | .ready noise yamux peer, plaintext => do
    let (noise, yamux) ← feedYamux noise yamux plaintext
    return .ready noise yamux peer
  | _, _ => fail "decrypted transport data arrived before Yamux selection"

def feedDecrypted (role : SessionRole) (config : YamuxConfig) :
    List (List UInt8) → Phase P → M (Phase P)
  | [], phase => return phase
  | plaintext :: rest, phase => do
    feedDecrypted role config rest (← feedDecryptedTransport role config phase plaintext)

/-! ### Phases -/

/-- A read of the Noise session that is not to authenticate anyone. -/
def readTransport (noise : NoiseSession P) (data : List UInt8) : M (Drained P) := do
  let drained ← handleNoise "Noise transport failed: " noise (.data data)
  if drained.peer.isSome then fail "Noise authenticated twice" else return drained

def feedNoise (role : SessionRole) (config : YamuxConfig) (noise : NoiseSession P)
    (data : List UInt8) : M (Phase P) := do
  let drained ← handleNoise "Noise handshake failed: " noise (.data data)
  match drained.peer with
  | none =>
    if !drained.decrypted.isEmpty then fail "Noise decrypted data before authentication"
    else return .noise drained.noise
  | some peer =>
    let select := (selector role yamuxProtocolId).handleInput .start
    let noise ← drainSelect encrypt select.pendingOutputs drained.noise
    feedDecrypted role config drained.decrypted (.selectYamux noise (takeOutputs select) peer)

def startNoise (role : SessionRole) (config : YamuxConfig) (noise : NoiseSession P)
    (remaining : List UInt8) : M (Phase P) := do
  let drained ← handleNoise "Noise start failed: " noise .start
  if drained.peer.isSome || !drained.decrypted.isEmpty then
    fail "Noise produced transport data before input"
  else if remaining.isEmpty then return .noise drained.noise
  else feedNoise role config drained.noise remaining

def feedPhase (role : SessionRole) (config : YamuxConfig) : Phase P → List UInt8 → M (Phase P)
  | .selectNoise select noise, data => do
    let select := select.handleInput (.data data)
    let (_, negotiated) ←
      followSelect sendRaw role "Noise" noiseProtocolId select.pendingOutputs () false
    if !negotiated then return .selectNoise (takeOutputs select) noise
    else
      match noise with
      | none => fail "Noise session unavailable"
      | some noise => startNoise role config noise select.takeRemainingBuffer.1
  | .noise noise, data => feedNoise role config noise data
  | .selectYamux noise select peer, data => do
    let drained ← readTransport noise data
    feedDecrypted role config drained.decrypted (.selectYamux drained.noise select peer)
  | .ready noise yamux peer, data => do
    let drained ← readTransport noise data
    feedDecrypted role config drained.decrypted (.ready drained.noise yamux peer)

/-! ### The session -/

structure SecureMuxSession (P : Primitives) where
  role : SessionRole
  yamuxConfig : YamuxConfig
  phase : Option (Phase P)
  outputs : List SessionOutput

def SessionConfig.noise (config : SessionConfig P) : NoiseConfig P where
  role := match config.role with
    | .initiator => NoiseRole.initiator
    | .responder => NoiseRole.responder
  identity := config.identity
  staticSecret := config.staticSecret
  ephemeralSecret := config.ephemeralSecret
  expectedPeer := config.expectedPeer

/-- Reject an id that does not fit, rather than cut it. -/
def yamuxStream (stream : StreamId) : Except SessionError UInt32 :=
  if stream < 2 ^ 32 then .ok (UInt32.ofNat stream) else .error (.unknownStream stream)

abbrev Returned (P : Primitives) (α : Type) := Option (Except SessionError α × SecureMuxSession P)

namespace SecureMuxSession

def new (config : SessionConfig P) : SecureMuxSession P where
  role := config.role
  yamuxConfig := config.yamux
  phase := some (.selectNoise (selector config.role noiseProtocolId) (some (.new config.noise)))
  outputs := []

variable (session : SecureMuxSession P)

/-- Put the next phase in, unless the work that was to lead to it ended early. -/
def proceed {α : Type} (result : Except SessionError α) (work : M (Phase P)) : Returned P α :=
  match work session.outputs with
  | .ok phase outputs => some (result, { session with phase := some phase, outputs })
  | .error (.error e) outputs => some (.error e, { session with phase := none, outputs })
  | .error .panic _ => none

/-- Work on the phase, if it has not been lost. -/
def withPhase (work : Phase P → M (Phase P)) : Returned P Unit :=
  match session.phase with
  | none => some (.error (.protocol "session already failed"), session)
  | some phase => session.proceed (.ok ()) (work phase)

def startPhase : Phase P → M (Phase P)
  | .selectNoise select noise => do
    let select := select.handleInput .start
    drainSelect sendRaw select.pendingOutputs ()
    return .selectNoise (takeOutputs select) noise
  | other => return other

def start : Returned P Unit := session.withPhase startPhase

def handleInput (data : List UInt8) : Returned P Unit :=
  if data.isEmpty then some (.ok (), session)
  else session.withPhase fun phase => feedPhase session.role session.yamuxConfig phase data

def pollOutput : Option SessionOutput × SecureMuxSession P :=
  match session.outputs with
  | [] => (none, session)
  | output :: outputs => (some output, { session with outputs })

/-- The queue is drained even when the operation has failed. -/
def withYamux {α : Type}
    (operation : YamuxSession → Option (Except YamuxError α × YamuxSession)) : Returned P α :=
  match session.phase with
  | some (.ready noise yamux peer) =>
    match operation yamux with
    | none => none
    | some (result, yamux) =>
      session.proceed (result.mapError .yamux) do
        let (noise, yamux) ← drainYamux noise yamux
        return .ready noise yamux peer
  | _ => some (.error .notEstablished, session)

def onCore {α : Type} (operation : Yamux.SessionCore → Option (Yamux.Returned α))
    (yamux : YamuxSession) : Option (Except YamuxError α × YamuxSession) :=
  match operation yamux.core with
  | none => none
  | some (result, core) => some (result, ⟨core, yamux.decoder⟩)

def nameStream (stream : StreamId) : SessionError → SessionError
  | .yamux (.unknownStream _) => .unknownStream stream
  | other => other

def withYamuxStream (stream : StreamId)
    (operation : UInt32 → Yamux.SessionCore → Option (Yamux.Returned Unit)) : Returned P Unit :=
  match yamuxStream stream with
  | .error e => some (.error e, session)
  | .ok id =>
    match session.withYamux (onCore (operation id)) with
    | none => none
    | some (result, session) => some (result.mapError (nameStream stream), session)

def openStream : Returned P StreamId :=
  match session.withYamux (onCore Yamux.SessionCore.openStream) with
  | none => none
  | some (result, session) => some (result.map UInt32.toNat, session)

def send (stream : StreamId) (data : List UInt8) : Returned P Unit :=
  session.withYamuxStream stream fun id core => core.send id data

def closeStreamWrite (stream : StreamId) : Returned P Unit :=
  session.withYamuxStream stream fun id core => core.closeWrite id

def resetStream (stream : StreamId) : Returned P Unit :=
  session.withYamuxStream stream fun id core => core.reset id

def goAway (code : UInt32) : Returned P Unit :=
  session.withYamux fun yamux => some (.ok (), yamux.goAway code)

def poll (now : Nat) : Returned P Unit :=
  match session.withYamux (onCore fun core => core.poll now) with
  | some (.error .notEstablished, session) => some (.ok (), session)
  | returned => returned

end SecureMuxSession

inductive Call where
  | start
  | handleInput (data : List UInt8)
  | pollOutput
  | poll (now : Nat)
  | openStream
  | send (stream : StreamId) (data : List UInt8)
  | closeStreamWrite (stream : StreamId)
  | resetStream (stream : StreamId)
  | goAway (code : UInt32)

inductive Answer where
  | done (result : Except SessionError Unit)
  | opened (result : Except SessionError StreamId)
  | output (output : Option SessionOutput)

namespace SecureMuxSession

def answered {α : Type} (answer : Except SessionError α → Answer) :
    Returned P α → Option (Answer × SecureMuxSession P)
  | none => none
  | some (result, session) => some (answer result, session)

def call (session : SecureMuxSession P) : Call → Option (Answer × SecureMuxSession P)
  | .start => answered .done session.start
  | .handleInput data => answered .done (session.handleInput data)
  | .pollOutput => some (.output session.pollOutput.1, session.pollOutput.2)
  | .poll now => answered .done (session.poll now)
  | .openStream => answered .opened session.openStream
  | .send stream data => answered .done (session.send stream data)
  | .closeStreamWrite stream => answered .done (session.closeStreamWrite stream)
  | .resetStream stream => answered .done (session.resetStream stream)
  | .goAway code => answered .done (session.goAway code)

end SecureMuxSession

end SecureMux
