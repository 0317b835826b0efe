import MiniP2P.Noise.Handshake

/-! A Noise session: the handshake, then the two ciphers it ends in. -/
namespace Noise
open Fallible Identity List

variable {P : Primitives}

def noiseProtocolId : String := "/noise"

def maxTransportPlaintext : Nat := maxFrameLen - 16

inductive NoiseInput where
  | start
  | data (bytes : List UInt8)
  | encrypt (plaintext : List UInt8)
  deriving DecidableEq

inductive NoiseOutput where
  | outbound (bytes : List UInt8)
  | handshakeComplete (peer : PeerId) (identityKey : PublicKey)
  | decrypted (plaintext : List UInt8)
  deriving DecidableEq

structure NoiseSession (P : Primitives) where
  handshake : Option (HandshakeState P)
  sendCipher : Option CipherState
  receiveCipher : Option CipherState
  decoder : FrameDecoder
  pending : List NoiseOutput
  started : Bool
  failed : Bool

namespace NoiseSession

abbrev M (P : Primitives) := EStateM NoiseError (NoiseSession P)

def new (config : NoiseConfig P) : NoiseSession P where
  handshake := some (.new config)
  sendCipher := none
  receiveCipher := none
  decoder := .new
  pending := []
  started := false
  failed := false

variable (session : NoiseSession P)

def isHandshakeComplete : Bool :=
  session.sendCipher.isSome && session.receiveCipher.isSome

def push (output : NoiseOutput) : M P Unit :=
  modify fun session => { session with pending := session.pending ++ [output] }

def sendFrame (message : List UInt8) : M P Unit := do
  push (.outbound (← ofExcept (encodeFrame message)))

def onHandshake {α : Type} (m : HandshakeState.M P α) : M P α :=
  partOf handshake (fun session handshake => { session with handshake := some handshake })
    (.invalidState "handshake is unavailable") m

def onReceiveCipher {α : Type} (m : EStateM NoiseError CipherState α) : M P α :=
  partOf receiveCipher (fun session cipher => { session with receiveCipher := some cipher })
    (.invalidState "receive cipher is unavailable") m

def onSendCipher {α : Type} (m : EStateM NoiseError CipherState α) : M P α :=
  partOf sendCipher (fun session cipher => { session with sendCipher := some cipher })
    (.invalidInput "handshake is not complete") m

def start : M P Unit := do
  if (← get).started then throw .alreadyStarted
  modify fun session => { session with started := true }
  match ← onHandshake HandshakeState.start with
  | none => return
  | some message => sendFrame message

def completeHandshake (result : HandshakeResult) : M P Unit := do
  modify fun session => { session with
    sendCipher := some result.send
    receiveCipher := some result.receive
    handshake := none }
  push (.handshakeComplete result.peer result.identityKey)

def receiveFrame (message : List UInt8) : M P Unit := do
  if (← get).isHandshakeComplete then
    let plaintext ← onReceiveCipher (CipherState.decryptWithAd P [] message)
    push (.decrypted plaintext)
  else
    let (outbound, complete) ← onHandshake (HandshakeState.readMessage message)
    if let some outbound := outbound then sendFrame outbound
    if let some result := complete then completeHandshake result

def receiveLoop : Nat → M P Unit
  | 0 => return
  | fuel + 1 => do
    match (← get).decoder.nextFrame with
    | none => return
    | some (message, decoder) =>
      modify fun session => { session with decoder }
      receiveFrame message
      receiveLoop fuel

def receive (bytes : List UInt8) : M P Unit := do
  if !(← get).started then throw (.invalidInput "session has not been started")
  modify fun session => { session with decoder := session.decoder.push bytes }
  receiveLoop (← get).decoder.unread.length

def encryptSegment (segment : List UInt8) : M P Unit := do
  let ciphertext ← onSendCipher (CipherState.encryptWithAd P [] segment)
  sendFrame ciphertext

def encryptLoop : List (List UInt8) → M P Unit
  | [] => return
  | segment :: segments => do
    encryptSegment segment
    encryptLoop segments

def chunks (size : Nat) : Nat → List UInt8 → List (List UInt8)
  | 0, _ | _ + 1, [] => []
  | fuel + 1, bytes => bytes.take size :: chunks size fuel (bytes.drop size)

def segments (plaintext : List UInt8) : List (List UInt8) :=
  if plaintext = [] then [[]] else chunks maxTransportPlaintext plaintext.length plaintext

theorem segments_ne_nil (plaintext : List UInt8) : segments plaintext ≠ [] := by
  unfold segments
  split
  · nofun
  · cases plaintext with
    | nil => contradiction
    | cons byte bytes => nofun

theorem chunks_spec {size fuel : Nat} {bytes : List UInt8} (pos : 0 < size)
    (enough : bytes.length ≤ fuel) :
    (chunks size fuel bytes).flatten = bytes ∧ ∀ chunk ∈ chunks size fuel bytes,
      chunk.length ≤ size := by
  induction fuel generalizing bytes with
  | zero =>
    cases length_eq_zero_iff.mp (Nat.le_zero.mp enough)
    exact ⟨rfl, nofun⟩
  | succ fuel ih =>
    cases bytes with
    | nil => exact ⟨rfl, nofun⟩
    | cons byte bytes =>
      have fewer : ((byte :: bytes).drop size).length ≤ fuel := by
        rw [length_drop, length_cons]
        rw [length_cons] at enough
        omega
      obtain ⟨whole, small⟩ := ih fewer
      refine ⟨?_, ?_⟩
      · rw [chunks, flatten_cons, whole, take_append_drop]
        nofun
      · intro chunk among
        rw [chunks] at among
        · rcases mem_cons.mp among with rfl | later
          · exact length_take_le ..
          · exact small chunk later
        · nofun

theorem segments_spec (plaintext : List UInt8) : (segments plaintext).flatten = plaintext ∧
    ∀ segment ∈ segments plaintext, segment.length ≤ maxTransportPlaintext := by
  unfold segments
  split
  · rename_i empty
    rw [empty]
    exact ⟨rfl, by simp⟩
  · exact chunks_spec (by decide) (Nat.le_refl _)

def encrypt (plaintext : List UInt8) : M P Unit := encryptLoop (segments plaintext)

def handle : NoiseInput → M P Unit
  | .start => start
  | .data bytes => receive bytes
  | .encrypt plaintext => encrypt plaintext

def handleInput (input : NoiseInput) : Except NoiseError Unit × NoiseSession P :=
  if session.failed then (.error .failed, session)
  else
    match handle input session with
    | .ok () session => (.ok (), session)
    | .error e session =>
      (.error e, if e.isTerminal then { session with failed := true, pending := [] } else session)

def pollOutput : Option NoiseOutput × NoiseSession P :=
  match session.pending with
  | [] => (none, session)
  | output :: pending => (some output, { session with pending })

end NoiseSession

end Noise
