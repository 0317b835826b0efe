import MiniP2P.Noise.Counters

/-! Two honest ends of the handshake, over primitives that keep their laws: both symmetric states
go through the same transcript, and both ends finish with each other's peer id and with ciphers
that match in each direction. -/
namespace Noise
open Fallible Identity Framing List HandshakeState Ed25519Keypair

variable {P : Primitives}

/-- What the libraries promise: X25519 commutes and gives no zero secret between honest keys,
decryption inverts encryption, which adds a tag of 16 bytes, and signatures verify. -/
structure Primitives.Lawful (P : Primitives) : Prop where
  dh_comm : ∀ a b, P.diffieHellman a (P.publicKey b) = P.diffieHellman b (P.publicKey a)
  dh_nonzero : ∀ a b, (P.diffieHellman a (P.publicKey b)).toList.all (· == 0) = false
  encrypts : ∀ key nonce ad text, text.length ≤ maxTransportPlaintext →
    ∃ out, P.encrypt key nonce ad text = some out ∧ out.length = text.length + 16
  decrypts : ∀ key nonce ad text out, P.encrypt key nonce ad text = some out →
    P.decrypt key nonce ad out = some text
  verifies : ∀ secret message, P.isVerifyingKey (P.verifyingKey secret) = true ∧
    P.verifyStrict (P.verifyingKey secret) message (P.sign secret message) = true

theorem dh_honest (lawful : P.Lawful) (a b : Bytes 32) :
    dh P a (P.publicKey b) = .ok (P.diffieHellman a (P.publicKey b)) := by
  rw [dh, lawful.dh_nonzero, if_neg (by decide)]

theorem dh_honest_comm (lawful : P.Lawful) (a b : Bytes 32) :
    dh P a (P.publicKey b) = dh P b (P.publicKey a) := by
  rw [dh_honest lawful, dh_honest lawful, lawful.dh_comm]

/-! ### Ciphers -/

namespace CipherState

def At (cipher : CipherState) (key : Bytes 32) (nonce : Nat) : Prop :=
  cipher.key = some key ∧ cipher.nonce = nonce

theorem At.message {a b : CipherState} {key : Bytes 32} {nonce : Nat} (lawful : P.Lawful)
    (left : a.At key nonce) (right : b.At key nonce) (more : nonce ≠ maxNonce) (ad : List UInt8)
    {text : List UInt8} (fits : text.length ≤ maxTransportPlaintext) :
    ∃ out a' b', encryptWithAd P ad text a = .ok out a' ∧ decryptWithAd P ad out b = .ok text b' ∧
      out.length = text.length + 16 ∧ a'.At key (nonce + 1) ∧ b'.At key (nonce + 1) := by
  obtain ⟨out, encrypted, size⟩ := lawful.encrypts key (nonceBytes nonce) ad text fits
  have decrypted := lawful.decrypts key (nonceBytes nonce) ad text out encrypted
  obtain ⟨keyed, rfl⟩ := left
  obtain ⟨keyed', same⟩ := right
  refine ⟨out, _, _, encrypt_ran keyed more encrypted, decrypt_ran keyed' ?_ ?_, size,
    ⟨keyed, rfl⟩, keyed', ?_⟩
  · rw [same]
    exact more
  · rw [same]
    exact decrypted
  · rw [same]

end CipherState

/-! ### Transcripts -/

namespace SymmetricState

structure Agree (a b : SymmetricState) : Prop where
  chainingKey : a.chainingKey = b.chainingKey
  hash : a.hash = b.hash

variable {a b : SymmetricState} {key : Bytes 32} {nonce : Nat}

theorem Agree.mixHash (agree : Agree a b) (data : List UInt8) :
    Agree (a.mixHash P data) (b.mixHash P data) :=
  ⟨agree.chainingKey, by rw [SymmetricState.mixHash, SymmetricState.mixHash, agree.hash]⟩

theorem Agree.mixKey (agree : Agree a b) (input : Bytes 32) :
    Agree (a.mixKey P input) (b.mixKey P input) ∧
      ∃ key, (a.mixKey P input).cipher.At key 0 ∧ (b.mixKey P input).cipher.At key 0 := by
  simp only [SymmetricState.mixKey, agree.chainingKey]
  exact ⟨⟨rfl, agree.hash⟩, _, ⟨rfl, rfl⟩, rfl, rfl⟩

variable {cipher : CipherState}

theorem encryptAndHash_ran {text out : List UInt8}
    (encrypted : CipherState.encryptWithAd P a.hash.toList text a.cipher = .ok out cipher) :
    encryptAndHash P text a = .ok out (SymmetricState.mixHash P out { a with cipher }) := by
  refine ran_of_wp ?_
  simp only [encryptAndHash, onCipher, wp_bind, wp_get, wp_part, wp_ran encrypted,
    wp_modify, wp_pure, and_self]

theorem decryptAndHash_ran {text out : List UInt8}
    (decrypted : CipherState.decryptWithAd P a.hash.toList text a.cipher = .ok out cipher) :
    decryptAndHash P text a = .ok out (SymmetricState.mixHash P text { a with cipher }) := by
  refine ran_of_wp ?_
  simp only [decryptAndHash, onCipher, wp_bind, wp_get, wp_part, wp_ran decrypted,
    wp_modify, wp_pure, and_self]

theorem Agree.message (lawful : P.Lawful) (agree : Agree a b) (left : a.cipher.At key nonce)
    (right : b.cipher.At key nonce) (more : nonce ≠ maxNonce) {text : List UInt8}
    (fits : text.length ≤ maxTransportPlaintext) :
    ∃ out a' b', encryptAndHash P text a = .ok out a' ∧ decryptAndHash P out b = .ok text b' ∧
      out.length = text.length + 16 ∧ Agree a' b' ∧ a'.cipher.At key (nonce + 1) ∧
      b'.cipher.At key (nonce + 1) := by
  obtain ⟨out, cipher, cipher', encrypted, decrypted, size, left', right'⟩ :=
    left.message lawful right more a.hash.toList fits
  rw [agree.hash] at decrypted
  refine ⟨out, _, _, encryptAndHash_ran encrypted, decryptAndHash_ran decrypted, size, ?_,
    left', right'⟩
  have kept : Agree { a with cipher } { b with cipher := cipher' } :=
    ⟨agree.chainingKey, agree.hash⟩
  exact kept.mixHash out

theorem Agree.split (agree : Agree a b) :
    ∃ first second, (a.split P).1.At first 0 ∧ (b.split P).1.At first 0 ∧
      (a.split P).2.At second 0 ∧ (b.split P).2.At second 0 := by
  simp only [SymmetricState.split, agree.chainingKey]
  exact ⟨_, _, ⟨rfl, rfl⟩, ⟨rfl, rfl⟩, ⟨rfl, rfl⟩, rfl, rfl⟩

end SymmetricState

/-! ### Payloads -/

namespace HandshakeState

theorem length_encodeProtobuf (identity : Ed25519Keypair P.toCrypto) :
    identity.publicKey.encodeProtobuf.length = 36 := by
  have one : (writeUvarint 1).length = 1 := by decide
  have size : (writeUvarint 32).length = 1 := by decide
  simp only [PublicKey.encodeProtobuf, publicKey, KeyType.toNat, length_cons,
    length_append, one, identity.publicKeyBytes.size, size]

theorem length_localPayload (state : HandshakeState P) (staticPublic : Bytes 32) :
    (state.localPayload staticPublic).length = 104 := by
  have sizes : (writeUvarint 36).length = 1 ∧ (writeUvarint 64).length = 1 ∧
      (writeUvarint (1 * 8 + 2)).length = 1 ∧ (writeUvarint (2 * 8 + 2)).length = 1 := by decide
  simp only [localPayload, NoiseHandshakePayload.encode, NoiseHandshakePayload.new,
    NoiseHandshakePayload.writeBytesField, length_append, length_encodeProtobuf, Bytes.size,
    sizes, length_nil]

theorem verifyPayload_honest (lawful : P.Lawful) (state peer : HandshakeState P)
    (staticPublic : Bytes 32) (expected : ∀ other, state.expectedPeer = some other →
      other = peer.identity.peerId) :
    state.verifyPayload (peer.localPayload staticPublic) staticPublic =
      .ok (peer.identity.peerId, peer.identity.publicKey) := by
  have small : (peer.localPayload staticPublic).length < 2 ^ 64 := by
    rw [length_localPayload]
    decide
  have checked : peer.identity.publicKey.verify P.toCrypto (signaturePrefix ++ staticPublic.toList)
      (peer.identity.sign (signaturePrefix ++ staticPublic.toList)) = .ok () := by
    obtain ⟨valid, signed⟩ := lawful.verifies peer.identity.secretKey
      (signaturePrefix ++ staticPublic.toList)
    rw [← peer.identity.derived] at valid signed
    simp only [PublicKey.verify, publicKey, Bytes.ofList_toList, valid, if_true,
      sign, signed]
  have known : state.expectedPeer.any (· ≠ peer.identity.peerId) = false := by
    cases found : state.expectedPeer with
    | none => rfl
    | some other => simp [expected other found]
  rw [verifyPayload, localPayload, NoiseHandshakePayload.decode_encode small]
  dsimp only [NoiseHandshakePayload.new]
  rw [PublicKey.decode_encode _ (by rw [length_encodeProtobuf]; decide)]
  rw [Bytes.ofList_toList]
  dsimp only
  rw [checked]
  rw [← peerId, known, if_neg (by decide)]

/-! ### Messages -/

variable {state : HandshakeState P}

theorem writeStatic_ran {remoteE shared : Bytes 32}
    {sealedStatic sealedPayload : List UInt8} {middle after : SymmetricState}
    (first : SymmetricState.encryptAndHash P (P.publicKey state.localStatic).toList
      state.symmetric =
      .ok sealedStatic middle)
    (agreed : dh P state.localStatic remoteE = .ok shared)
    (second : SymmetricState.encryptAndHash P
      (state.localPayload (P.publicKey state.localStatic)) (middle.mixKey P shared) =
      .ok sealedPayload after) :
    writeStatic remoteE state =
      .ok (sealedStatic ++ sealedPayload) { state with symmetric := after } := by
  refine ran_of_wp ?_
  simp only [writeStatic, encryptAndHash, mixKey, onSymmetric, wp_bind, wp_get,
    wp_part, wp_ran first, agreed, wp_ofExcept_ok, wp_modify, wp_ran second, wp_pure, and_self]

theorem readStatic_ran {remoteS shared : Bytes 32}
    {sealedStatic sealedPayload payload : List UInt8} {middle after : SymmetricState}
    {verified : PeerId × PublicKey}
    (first : SymmetricState.decryptAndHash P sealedStatic state.symmetric =
      .ok remoteS.toList middle)
    (agreed : dh P state.localEphemeral remoteS = .ok shared)
    (second : SymmetricState.decryptAndHash P sealedPayload (middle.mixKey P shared) =
      .ok payload after)
    (checked : ({ state with symmetric := after } : HandshakeState P).verifyPayload
      payload remoteS =
      .ok verified) :
    readStatic sealedStatic sealedPayload state = .ok verified
      { state with symmetric := after } := by
  have exact : exactArray 32 remoteS.toList "invalid remote static key" = .ok remoteS := by
    rw [exactArray, Bytes.ofList_toList]
  refine ran_of_wp ?_
  simp only [readStatic, decryptAndHash, mixKey, onSymmetric, wp_bind, wp_get,
    wp_part, wp_ran first, exact, wp_ofExcept_ok, agreed, wp_modify, wp_ran second,
    checked, and_self]

theorem static_exchange (lawful : P.Lawful) {sender receiver : HandshakeState P} {key : Bytes 32}
    {nonce : Nat} (agree : sender.symmetric.Agree receiver.symmetric)
    (left : sender.symmetric.cipher.At key nonce) (right : receiver.symmetric.cipher.At key nonce)
    (more : nonce ≠ maxNonce)
    (expected : ∀ other, receiver.expectedPeer = some other → other = sender.identity.peerId) :
    ∃ sealedStatic sealedPayload a b key',
      writeStatic (P.publicKey receiver.localEphemeral) sender =
        .ok (sealedStatic ++ sealedPayload) { sender with symmetric := a } ∧
      readStatic sealedStatic sealedPayload receiver =
        .ok (sender.identity.peerId, sender.identity.publicKey) { receiver with symmetric := b } ∧
      sealedStatic.length = 48 ∧ sealedPayload.length = 120 ∧ a.Agree b ∧ a.cipher.At key' 1 ∧
      b.cipher.At key' 1 := by
  have small : (P.publicKey sender.localStatic).toList.length ≤ maxTransportPlaintext := by
    rw [Bytes.size]
    decide
  have fits : (sender.localPayload (P.publicKey sender.localStatic)).length ≤
      maxTransportPlaintext := by
    rw [length_localPayload]
    decide
  obtain ⟨sealedStatic, a₁, b₁, sent, read, size, agree₁, -, -⟩ :=
    agree.message lawful left right more small
  obtain ⟨agree₂, key', left₂, right₂⟩ :=
    agree₁.mixKey (P := P) (P.diffieHellman sender.localStatic
      (P.publicKey receiver.localEphemeral))
  obtain ⟨sealedPayload, a, b, sent', read', size', agree', left', right'⟩ :=
    agree₂.message lawful left₂ right₂ (by decide) fits
  have shared := dh_honest lawful sender.localStatic receiver.localEphemeral
  have shared' := shared
  rw [dh_honest_comm lawful] at shared'
  refine ⟨sealedStatic, sealedPayload, a, b, key', writeStatic_ran sent shared sent',
    readStatic_ran read shared' read' (verifyPayload_honest lawful _ sender _ expected), ?_, ?_,
    agree', left', right'⟩
  · rw [size, Bytes.size]
  · rw [size', length_localPayload]

theorem encryptAndHash_plain {state : SymmetricState} (plain : state.cipher.key = none) :
    SymmetricState.encryptAndHash P [] state = .ok [] (state.mixHash P []) := by
  refine SymmetricState.encryptAndHash_ran (ran_of_wp ?_)
  simp only [CipherState.encryptWithAd, wp_bind, wp_get, plain, wp_pure, and_self]

theorem decryptAndHash_plain {state : SymmetricState} (plain : state.cipher.key = none) :
    SymmetricState.decryptAndHash P [] state = .ok [] (state.mixHash P []) := by
  refine SymmetricState.decryptAndHash_ran (ran_of_wp ?_)
  simp only [CipherState.decryptWithAd, wp_bind, wp_get, plain, wp_pure, and_self]

theorem start_ran (step : state.step = .initiatorWriteMessage1)
    (plain : state.symmetric.cipher.key = none) :
    start state = .ok (some (P.publicKey state.localEphemeral).toList)
      { state with
        symmetric :=
          (state.symmetric.mixHash P (P.publicKey state.localEphemeral).toList).mixHash P []
        step := .initiatorReadMessage2 } := by
  have hashed := @encryptAndHash_plain P
    (state.symmetric.mixHash P (P.publicKey state.localEphemeral).toList) plain
  refine ran_of_wp ?_
  simp only [start, wp_bind, wp_get, step, mixHash, encryptAndHash, onSymmetric, setStep, wp_part,
    wp_modify, wp_ran hashed, wp_pure, and_self]

section Runs

variable {state state' : HandshakeState P} {remoteE shared : Bytes 32} {out : List UInt8}

theorem writeMessage2_ran (remote : state.remoteEphemeral = some remoteE)
    (agreed : dh P state.localEphemeral remoteE = .ok shared)
    (wrote : writeStatic remoteE { state with symmetric := (state.symmetric.mixHash P
      (P.publicKey state.localEphemeral).toList).mixKey P shared } = .ok out state') :
    writeMessage2 state = .ok ((P.publicKey state.localEphemeral).toList ++ out)
      { state' with step := .responderReadMessage3 } := by
  have found : required state.remoteEphemeral = .ok remoteE := by
    rw [remote]
    rfl
  refine ran_of_wp ?_
  simp only [writeMessage2, mixHash, mixKey, onSymmetric, setStep, wp_bind, wp_get, wp_part, found,
    wp_ofExcept_ok, agreed, wp_modify, wp_ran wrote, wp_pure, and_self]

theorem writeMessage3_ran (remote : state.remoteEphemeral = some remoteE)
    (wrote : writeStatic remoteE state = .ok out state') :
    writeMessage3 state = .ok out { state' with step := .complete } := by
  refine ran_of_wp ?_
  simp only [writeMessage3, setStep, wp_bind, wp_get, required, remote, wp_ofExcept_ok, wp_modify,
    wp_ran wrote, wp_pure, and_self]

theorem readMessage1_ran (step : state.step = .responderReadMessage1)
    (plain : state.symmetric.cipher.key = none)
    (wrote : writeMessage2 { state with
      remoteEphemeral := some remoteE
      symmetric := (state.symmetric.mixHash P remoteE.toList).mixHash P []
      step := .responderWriteMessage2 } = .ok out state') :
    readMessage remoteE.toList state = .ok (some out, none) state' := by
  have exact : exactArray 32 remoteE.toList "invalid Noise message 1 length" = .ok remoteE := by
    rw [exactArray, Bytes.ofList_toList]
  have hashed := @decryptAndHash_plain P (state.symmetric.mixHash P remoteE.toList) plain
  refine ran_of_wp ?_
  simp only [readMessage, mixHash, decryptAndHash, onSymmetric, setStep,
    setRemoteEphemeral, wp_bind, wp_get, step, exact, wp_ofExcept_ok, wp_part, wp_modify,
    wp_ran hashed, wp_ran wrote, wp_pure,
    and_self]

variable {sealedStatic sealedPayload : List UInt8} {verified : PeerId × PublicKey}

theorem readMessage2_ran (whole : sealedStatic.length = 48) (long : 16 ≤ sealedPayload.length)
    (agreed : dh P state.localEphemeral remoteE = .ok shared)
    (read : readStatic sealedStatic sealedPayload { state with
      remoteEphemeral := some remoteE
      symmetric := (state.symmetric.mixHash P remoteE.toList).mixKey P shared } =
      .ok verified state') :
    readMessage2 (remoteE.toList ++ (sealedStatic ++ sealedPayload)) state =
      .ok verified state' := by
  have head : (remoteE.toList ++ (sealedStatic ++ sealedPayload)).take 32 = remoteE.toList :=
    take_left' remoteE.size
  have middle : ((remoteE.toList ++ (sealedStatic ++ sealedPayload)).drop 32).take 48 =
      sealedStatic := by
    rw [drop_left' remoteE.size, take_left' whole]
  have tail : (remoteE.toList ++ (sealedStatic ++ sealedPayload)).drop 80 = sealedPayload := by
    rw [← append_assoc]
    exact drop_left' (by rw [length_append, remoteE.size, whole])
  have enough : ¬ (remoteE.toList ++ (sealedStatic ++ sealedPayload)).length < 32 + 48 + 16 := by
    rw [length_append, length_append, remoteE.size]
    omega
  have exact : exactArray 32 remoteE.toList "invalid remote ephemeral key" = .ok remoteE := by
    rw [exactArray, Bytes.ofList_toList]
  refine ran_of_wp ?_
  simp only [readMessage2, if_neg enough, head, middle, tail, mixHash, mixKey, onSymmetric,
    setRemoteEphemeral, wp_bind, wp_get, exact, wp_ofExcept_ok, wp_part, wp_modify, agreed,
    wp_ran read, and_self]

theorem readMessage3_ran (whole : sealedStatic.length = 48) (long : 16 ≤ sealedPayload.length)
    (read : readStatic sealedStatic sealedPayload state = .ok verified state') :
    readMessage3 (sealedStatic ++ sealedPayload) state =
      .ok verified { state' with step := .complete } := by
  have enough : ¬ (sealedStatic ++ sealedPayload).length < 48 + 16 := by
    rw [length_append]
    omega
  refine ran_of_wp ?_
  simp only [readMessage3, if_neg enough, take_left' whole, drop_left' whole, setStep, wp_bind,
    wp_modify, wp_ran read, wp_pure, and_self]

variable {message : List UInt8}

theorem readMessage_concludes {read wrote : HandshakeState P}
    (step : state.step = .initiatorReadMessage2)
    (reads : readMessage2 message state = .ok verified read)
    (writes : writeMessage3 { read with step := .initiatorWriteMessage3 } = .ok out wrote)
    (role : wrote.role = .initiator) :
    readMessage message state = .ok (some out, some
      ⟨(wrote.symmetric.split P).1, (wrote.symmetric.split P).2, verified.1,
        verified.2⟩) wrote := by
  refine ran_of_wp ?_
  simp only [readMessage, setStep, finishWithPeer, wp_bind, wp_get, step, wp_ran reads, wp_modify,
    wp_ran writes, role, wp_pure, and_self]

theorem readMessage_accepts {read : HandshakeState P} (step : state.step = .responderReadMessage3)
    (reads : readMessage3 message state = .ok verified read) (role : read.role = .responder) :
    readMessage message state = .ok (none, some
      ⟨(read.symmetric.split P).2, (read.symmetric.split P).1, verified.1, verified.2⟩) read := by
  refine ran_of_wp ?_
  simp only [readMessage, finishWithPeer, wp_bind, wp_get, step, wp_ran reads, role,
    wp_pure, and_self]

end Runs

theorem message2_exchange (lawful : P.Lawful) {initiator responder : HandshakeState P}
    (opened : responder.symmetric.Agree initiator.symmetric)
    (remote : responder.remoteEphemeral = some (P.publicKey initiator.localEphemeral))
    (expects : ∀ other, initiator.expectedPeer = some other → other = responder.identity.peerId) :
    ∃ message initiator' responder' key, writeMessage2 responder = .ok message responder' ∧
      readMessage2 message initiator =
        .ok (responder.identity.peerId, responder.identity.publicKey) initiator' ∧
      message.length ≤ maxFrameLen ∧ responder'.step = .responderReadMessage3 ∧
      responder'.config = responder.config ∧ initiator'.config = initiator.config ∧
      initiator'.remoteEphemeral = some (P.publicKey responder.localEphemeral) ∧
      initiator'.symmetric.Agree responder'.symmetric ∧ initiator'.symmetric.cipher.At key 1 ∧
      responder'.symmetric.cipher.At key 1 := by
  have shared := dh_honest lawful responder.localEphemeral initiator.localEphemeral
  have shared' := shared
  rw [dh_honest_comm lawful] at shared'
  generalize P.diffieHellman responder.localEphemeral (P.publicKey initiator.localEphemeral) =
    secret at shared shared'
  obtain ⟨mixed, first, keyed, keyed'⟩ :=
    (opened.mixHash (P := P) (P.publicKey responder.localEphemeral).toList).mixKey (P := P) secret
  obtain ⟨sealedStatic, sealedPayload, a, b, key, wrote, read, whole, size, agree, left, right⟩ :=
    @static_exchange P lawful { responder with symmetric := _ }
      { initiator with
        remoteEphemeral := some (P.publicKey responder.localEphemeral)
        symmetric := _ }
      first 0 mixed keyed keyed' (by decide) expects
  refine ⟨_, _, _, key, writeMessage2_ran remote shared wrote,
    readMessage2_ran whole (by omega) shared' read, ?_, rfl, rfl, rfl, rfl,
    ⟨agree.chainingKey.symm, agree.hash.symm⟩, right, left⟩
  rw [length_append, length_append, Bytes.size, whole, size]
  decide

theorem message3_exchange (lawful : P.Lawful) {initiator responder : HandshakeState P}
    {key : Bytes 32} (agree : initiator.symmetric.Agree responder.symmetric)
    (left : initiator.symmetric.cipher.At key 1) (right : responder.symmetric.cipher.At key 1)
    (remote : initiator.remoteEphemeral = some (P.publicKey responder.localEphemeral))
    (expected : ∀ other, responder.expectedPeer = some other → other = initiator.identity.peerId) :
    ∃ message initiator' responder', writeMessage3 initiator = .ok message initiator' ∧
      readMessage3 message responder =
        .ok (initiator.identity.peerId, initiator.identity.publicKey) responder' ∧
      message.length ≤ maxFrameLen ∧ initiator'.role = initiator.role ∧
      responder'.role = responder.role ∧ initiator'.symmetric.Agree responder'.symmetric := by
  obtain ⟨sealedStatic, sealedPayload, a, b, -, wrote, read, whole, size, agree', -, -⟩ :=
    static_exchange lawful agree left right (by decide) expected
  refine ⟨_, _, _, writeMessage3_ran remote wrote, readMessage3_ran whole (by omega) read, ?_, rfl,
    rfl, agree'⟩
  rw [length_append, whole, size]
  decide

end HandshakeState

/-! ### The whole handshake -/

structure Honest (initiator responder : NoiseConfig P) : Prop where
  initiates : initiator.role = .initiator
  responds : responder.role = .responder
  expects : ∀ other, initiator.expectedPeer = some other → other = responder.identity.peerId
  expected : ∀ other, responder.expectedPeer = some other → other = initiator.identity.peerId

/-- How the handshake of two honest ends goes: its messages, what each end makes of them, and
the two keys the ends share. -/
structure Script (initiator responder : NoiseConfig P) where
  opened : HandshakeState P
  answered : HandshakeState P
  concluded : HandshakeState P
  accepted : HandshakeState P
  message1 : List UInt8
  message2 : List UInt8
  message3 : List UInt8
  initiated : HandshakeResult
  responded : HandshakeResult
  forward : Bytes 32
  backward : Bytes 32
  opens : start (.new initiator) = .ok (some message1) opened
  waits : start (.new responder) = .ok none (.new responder)
  answers : readMessage message1 (.new responder) = .ok (some message2, none) answered
  concludes : readMessage message2 opened =
    .ok (some message3, some initiated) concluded
  accepts : readMessage message3 answered = .ok (none, some responded) accepted
  short : message1.length ≤ maxFrameLen ∧ message2.length ≤ maxFrameLen ∧
    message3.length ≤ maxFrameLen
  found : initiated.peer = responder.identity.peerId ∧
    initiated.identityKey = responder.identity.publicKey
  known : responded.peer = initiator.identity.peerId ∧
    responded.identityKey = initiator.identity.publicKey
  forwards : initiated.send.At forward 0 ∧ responded.receive.At forward 0
  backwards : responded.send.At backward 0 ∧ initiated.receive.At backward 0

theorem handshake_agrees (lawful : P.Lawful) {initiator responder : NoiseConfig P}
    (honest : Honest initiator responder) : Nonempty (Script initiator responder) := by
  obtain ⟨initiates, responds, expects, expected⟩ := honest
  have first : (new initiator).step = .initiatorWriteMessage1 := by
    rw [new, initiates]
  have waiting : (new responder).step = .responderReadMessage1 := by
    rw [new, responds]
  have opens := start_ran first rfl
  have waits : start (.new responder) = .ok none (.new responder) := by
    refine ran_of_wp ?_
    simp only [start, wp_bind, wp_get, waiting, wp_pure, and_self]
  generalize opened : ({ new initiator with
      symmetric := ((new initiator).symmetric.mixHash P
        (P.publicKey (new initiator).localEphemeral).toList).mixHash P []
      step := .initiatorReadMessage2 } : HandshakeState P) = initiator₁ at opens
  obtain ⟨message2, read, answered, key, wrote2, read2, short2, step, same, same',
      remote, agree, left, right⟩ := @message2_exchange P lawful initiator₁
    { new responder with
      remoteEphemeral := some (P.publicKey initiator.ephemeralSecret)
      symmetric := ((new responder).symmetric.mixHash P
        (P.publicKey initiator.ephemeralSecret).toList).mixHash P []
      step := .responderWriteMessage2 } (by subst opened; exact ⟨rfl, rfl⟩)
    (by subst opened; rfl) (by subst opened; exact expects)
  have configured : read.config = initiator := by
    rw [same']
    subst opened
    rfl
  obtain ⟨rfl, rfl⟩ : responder = answered.config ∧ initiator = read.config :=
    ⟨same.symm, configured.symm⟩
  obtain ⟨message3, wrote, accepted, wrote3, read3, short3, role, role', agree'⟩ :=
    @message3_exchange P lawful { read with step := .initiatorWriteMessage3 } answered
      key agree left right remote expected
  obtain ⟨forward, backward, first₁, first₂, second₁, second₂⟩ := agree'.split (P := P)
  exact ⟨{
    opened := initiator₁
    answered := answered
    concluded := wrote
    accepted := accepted
    message1 := _
    message2 := message2
    message3 := message3
    initiated := _
    responded := _
    forward := forward
    backward := backward
    opens := opens
    waits := waits
    answers := readMessage1_ran waiting rfl wrote2
    concludes := readMessage_concludes (by subst opened; rfl) read2 wrote3
      (role.trans initiates)
    accepts := readMessage_accepts step read3 (role'.trans responds)
    short := ⟨by rw [Bytes.size]; decide, short2, short3⟩
    found := ⟨rfl, rfl⟩
    known := ⟨rfl, rfl⟩
    forwards := ⟨first₁, first₂⟩
    backwards := ⟨second₂, second₁⟩ }⟩

end Noise
