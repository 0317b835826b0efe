import MiniP2P.Core.Utf8
import MiniP2P.Noise.Cipher
import MiniP2P.Noise.Payload

/-! The handshake of Noise XX. -/
namespace Noise
open Fallible Identity

variable (P : Primitives)

/-- `Noise_XX_25519_ChaChaPoly_SHA256`, which fills the first hash exactly. -/
def protocolName : Bytes 32 := ⟨Utf8.encode "Noise_XX_25519_ChaChaPoly_SHA256", by decide⟩

def signaturePrefix : List UInt8 := Utf8.encode "noise-libp2p-static-key:"

inductive NoiseRole where
  | initiator | responder
  deriving DecidableEq

/-! ### Symmetric state -/

structure SymmetricState where
  chainingKey : Bytes 32
  hash : Bytes 32
  cipher : CipherState

namespace SymmetricState

def mixHash (data : List UInt8) (state : SymmetricState) : SymmetricState :=
  { state with hash := P.sha256 (state.hash.toList ++ data) }

def withPrologue (prologue : List UInt8) : SymmetricState :=
  mixHash P prologue ⟨protocolName, protocolName, .new⟩

def mixKey (input : Bytes 32) (state : SymmetricState) : SymmetricState :=
  let (chainingKey, tempKey) := derive2 P state.chainingKey input.toList
  { state with chainingKey, cipher := state.cipher.initializeKey tempKey }

def onCipher {α : Type} (m : EStateM NoiseError CipherState α) :
    EStateM NoiseError SymmetricState α :=
  part cipher (fun state cipher => { state with cipher }) m

def encryptAndHash (plaintext : List UInt8) : EStateM NoiseError SymmetricState (List UInt8) := do
  let ciphertext ← onCipher (CipherState.encryptWithAd P (← get).hash.toList plaintext)
  modify (mixHash P ciphertext)
  return ciphertext

def decryptAndHash (ciphertext : List UInt8) : EStateM NoiseError SymmetricState (List UInt8) := do
  let plaintext ← onCipher (CipherState.decryptWithAd P (← get).hash.toList ciphertext)
  modify (mixHash P ciphertext)
  return plaintext

def split (state : SymmetricState) : CipherState × CipherState :=
  let (first, second) := derive2 P state.chainingKey []
  ({ CipherState.new with keys := state.cipher.keys, encrypted := state.cipher.encrypted }
      |>.initializeKey first,
   { CipherState.new with keys := state.cipher.keys, encrypted := state.cipher.encrypted }
      |>.initializeKey second)

end SymmetricState

/-! ### Handshake state -/

inductive Step where
  | initiatorWriteMessage1
  | initiatorReadMessage2
  | initiatorWriteMessage3
  | responderReadMessage1
  | responderWriteMessage2
  | responderReadMessage3
  | complete
  deriving DecidableEq

structure HandshakeResult where
  send : CipherState
  receive : CipherState
  peer : PeerId
  identityKey : PublicKey

structure HandshakeState where
  role : NoiseRole
  step : Step
  identity : Ed25519Keypair P.toCrypto
  localStatic : Bytes 32
  localEphemeral : Bytes 32
  remoteEphemeral : Option (Bytes 32)
  expectedPeer : Option PeerId
  symmetric : SymmetricState

structure NoiseConfig where
  role : NoiseRole
  identity : Ed25519Keypair P.toCrypto
  staticSecret : Bytes 32
  ephemeralSecret : Bytes 32
  expectedPeer : Option PeerId

def dh (secret remote : Bytes 32) : Except NoiseError (Bytes 32) :=
  let bytes := P.diffieHellman secret remote
  if bytes.toList.all (· == 0) then .error .nonContributory else .ok bytes

def exactArray (n : Nat) (input : List UInt8) (reason : String) : Except NoiseError (Bytes n) :=
  match Bytes.ofList n input with
  | some bytes => .ok bytes
  | none => .error (.invalidHandshakeMessage reason)

def required {α : Type} : Option α → Except NoiseError α
  | some value => .ok value
  | none => .error (.invalidState "missing handshake key")

namespace HandshakeState

variable {P}

def new (config : NoiseConfig P) : HandshakeState P where
  role := config.role
  step := match config.role with
    | .initiator => .initiatorWriteMessage1
    | .responder => .responderReadMessage1
  identity := config.identity
  localStatic := config.staticSecret
  localEphemeral := config.ephemeralSecret
  remoteEphemeral := none
  expectedPeer := config.expectedPeer
  symmetric := .withPrologue P []

abbrev M (P : Primitives) := EStateM NoiseError (HandshakeState P)

def onSymmetric {α : Type} (m : EStateM NoiseError SymmetricState α) : M P α :=
  part symmetric (fun state symmetric => { state with symmetric }) m

def mixHash (data : List UInt8) : M P Unit := onSymmetric (modify (.mixHash P data))

def mixKey (input : Bytes 32) : M P Unit := onSymmetric (modify (.mixKey P input))

def encryptAndHash (plaintext : List UInt8) : M P (List UInt8) :=
  onSymmetric (SymmetricState.encryptAndHash P plaintext)

def decryptAndHash (ciphertext : List UInt8) : M P (List UInt8) :=
  onSymmetric (SymmetricState.decryptAndHash P ciphertext)

def setStep (step : Step) : M P Unit := modify fun state => { state with step }

def setRemoteEphemeral (remote : Bytes 32) : M P Unit :=
  modify fun state => { state with remoteEphemeral := some remote }

def start : M P (Option (List UInt8)) := do
  let state ← get
  match state.step with
  | .initiatorWriteMessage1 =>
    let localPublic := P.publicKey state.localEphemeral
    mixHash localPublic.toList
    let _ ← encryptAndHash []
    setStep .initiatorReadMessage2
    return some localPublic.toList
  | .responderReadMessage1 => return none
  | _ => throw .alreadyStarted

def localPayload (state : HandshakeState P) (staticPublic : Bytes 32) : List UInt8 :=
  (NoiseHandshakePayload.new state.identity.publicKey
    (state.identity.sign (signaturePrefix ++ staticPublic.toList))).encode

def writeStatic (remoteE : Bytes 32) : M P (List UInt8) := do
  let state ← get
  let localSPublic := P.publicKey state.localStatic
  let sealedStatic ← encryptAndHash localSPublic.toList
  mixKey (← ofExcept (dh P state.localStatic remoteE))
  let sealedPayload ← encryptAndHash (state.localPayload localSPublic)
  return sealedStatic ++ sealedPayload

def writeMessage2 : M P (List UInt8) := do
  let state ← get
  let remoteE ← ofExcept (required state.remoteEphemeral)
  let localEPublic := P.publicKey state.localEphemeral
  mixHash localEPublic.toList
  mixKey (← ofExcept (dh P state.localEphemeral remoteE))
  let out ← writeStatic remoteE
  setStep .responderReadMessage3
  return localEPublic.toList ++ out

def writeMessage3 : M P (List UInt8) := do
  let state ← get
  let remoteE ← ofExcept (required state.remoteEphemeral)
  let out ← writeStatic remoteE
  setStep .complete
  return out

def verifyPayload (state : HandshakeState P) (payload : List UInt8) (remoteStatic : Bytes 32) :
    Except NoiseError (PeerId × PublicKey) :=
  match NoiseHandshakePayload.decode payload with
  | .error e => .error e
  | .ok payload =>
    match PublicKey.decodeProtobuf payload.identityKey with
    | .error _ => .error .invalidIdentityKey
    | .ok identityKey =>
      match Bytes.ofList 64 payload.identitySig with
      | none => .error .invalidIdentitySignature
      | some signature =>
        match identityKey.verify P.toCrypto (signaturePrefix ++ remoteStatic.toList) signature with
        | .error _ => .error .invalidIdentitySignature
        | .ok () =>
          let peer := PeerId.fromPublicKey P.toCrypto identityKey
          if state.expectedPeer.any (· ≠ peer) then .error .identityMismatch
          else .ok (peer, identityKey)

def readStatic (sealedStatic sealedPayload : List UInt8) : M P (PeerId × PublicKey) := do
  let remoteSBytes ← decryptAndHash sealedStatic
  let remoteS ← ofExcept (exactArray 32 remoteSBytes "invalid remote static key")
  mixKey (← ofExcept (dh P (← get).localEphemeral remoteS))
  let payload ← decryptAndHash sealedPayload
  ofExcept ((← get).verifyPayload payload remoteS)

def readMessage2 (message : List UInt8) : M P (PeerId × PublicKey) := do
  if message.length < 32 + 48 + 16 then
    throw (.invalidHandshakeMessage "Noise message 2 is too short")
  let remoteE ← ofExcept (exactArray 32 (message.take 32) "invalid remote ephemeral key")
  setRemoteEphemeral remoteE
  mixHash remoteE.toList
  mixKey (← ofExcept (dh P (← get).localEphemeral remoteE))
  readStatic ((message.drop 32).take 48) (message.drop 80)

def readMessage3 (message : List UInt8) : M P (PeerId × PublicKey) := do
  if message.length < 48 + 16 then
    throw (.invalidHandshakeMessage "Noise message 3 is too short")
  let verified ← readStatic (message.take 48) (message.drop 48)
  setStep .complete
  return verified

def finishWithPeer (peer : PeerId) (identityKey : PublicKey) : M P HandshakeResult := do
  let state ← get
  let (first, second) := state.symmetric.split P
  match state.role with
  | .initiator => return ⟨first, second, peer, identityKey⟩
  | .responder => return ⟨second, first, peer, identityKey⟩

def readMessage (message : List UInt8) : M P (Option (List UInt8) × Option HandshakeResult) := do
  match (← get).step with
  | .responderReadMessage1 =>
    let remote ← ofExcept (exactArray 32 message "invalid Noise message 1 length")
    setRemoteEphemeral remote
    mixHash remote.toList
    let _ ← decryptAndHash []
    setStep .responderWriteMessage2
    let response ← writeMessage2
    return (some response, none)
  | .initiatorReadMessage2 =>
    let (peer, identityKey) ← readMessage2 message
    setStep .initiatorWriteMessage3
    let response ← writeMessage3
    let result ← finishWithPeer peer identityKey
    return (some response, some result)
  | .responderReadMessage3 =>
    let (peer, identityKey) ← readMessage3 message
    let result ← finishWithPeer peer identityKey
    return (none, some result)
  | _ => throw .unexpectedHandshakeMessage

end HandshakeState

end Noise
