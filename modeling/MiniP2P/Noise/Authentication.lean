import MiniP2P.Noise.Counters

/-! What a peer has shown when a session reports the handshake complete, for every stream of
bytes it may have sent. -/
namespace Noise
open Fallible Identity

variable {P : Primitives}

/-- From the symmetric state `before` the two parts decrypt to a static key, whose shared secret
is mixed in between, and to a payload with an identity key and its signature over that very
static key. -/
def Authenticates (expected : Option PeerId) (localEphemeral : Bytes 32)
    (before after : SymmetricState) (sealedStatic sealedPayload : List UInt8) (peer : PeerId)
    (identityKey : PublicKey) : Prop :=
  ∃ (remoteStatic shared : Bytes 32) (middle : SymmetricState) (payload : List UInt8)
    (content : NoiseHandshakePayload) (signature : Bytes 64),
    SymmetricState.decryptAndHash P sealedStatic before = .ok remoteStatic.toList middle ∧
    dh P localEphemeral remoteStatic = .ok shared ∧
    SymmetricState.decryptAndHash P sealedPayload (middle.mixKey P shared) = .ok payload after ∧
    NoiseHandshakePayload.decode payload = .ok content ∧
    PublicKey.decodeProtobuf content.identityKey = .ok identityKey ∧
    content.identitySig = signature.toList ∧
    identityKey.verify P.toCrypto (signaturePrefix ++ remoteStatic.toList) signature = .ok () ∧
    PeerId.fromPublicKey P.toCrypto identityKey = peer ∧
    ∀ other, expected = some other → other = peer

theorem exactArray_eq {n : Nat} {input : List UInt8} {reason : String} {bytes : Bytes n}
    (exact : exactArray n input reason = .ok bytes) : bytes.toList = input := by
  unfold exactArray at exact
  split at exact
  · cases exact
    exact Bytes.toList_of_ofList ‹_›
  · cases exact

namespace HandshakeState

variable {state : HandshakeState P}

theorem verifyPayload_spec {payload : List UInt8} {remoteStatic : Bytes 32} {peer : PeerId}
    {identityKey : PublicKey}
    (verified : state.verifyPayload payload remoteStatic = .ok (peer, identityKey)) :
    ∃ content signature, NoiseHandshakePayload.decode payload = .ok content ∧
      PublicKey.decodeProtobuf content.identityKey = .ok identityKey ∧
      content.identitySig = signature.toList ∧
      identityKey.verify P.toCrypto (signaturePrefix ++ remoteStatic.toList) signature = .ok () ∧
      PeerId.fromPublicKey P.toCrypto identityKey = peer ∧
      ∀ other, state.expectedPeer = some other → other = peer := by
  unfold verifyPayload at verified
  split at verified
  · cases verified
  · rename_i content decoded
    split at verified
    · cases verified
    · rename_i key wrapped
      split at verified
      · cases verified
      · rename_i signature sized
        split at verified
        · cases verified
        · rename_i checked
          dsimp only at verified
          split at verified
          · cases verified
          · rename_i wanted
            cases verified
            refine ⟨content, signature, decoded, wrapped, (Bytes.toList_of_ofList sized).symm,
              checked, rfl, ?_⟩
            intro other expected
            rw [expected] at wanted
            simpa using wanted

theorem readStatic_spec (sealedStatic sealedPayload : List UInt8) :
    wp (readStatic sealedStatic sealedPayload)
      (fun found state' =>
        Authenticates (P := P) state.expectedPeer state.localEphemeral state.symmetric
          state'.symmetric sealedStatic sealedPayload found.1 found.2 ∧
        state' = { state with symmetric := state'.symmetric })
      (fun _ _ => True) state := by
  unfold readStatic decryptAndHash mixKey onSymmetric
  simp only [wp_bind, wp_part, wp_ofExcept, wp_get, wp_modify, implies_true, and_true]
  refine wp_of ?_ fun _ _ _ => trivial
  intro bytes middle openedStatic remoteStatic exact shared agreed
  refine wp_of ?_ fun _ _ _ => trivial
  rintro payload after openedPayload ⟨peer, identityKey⟩ verified
  obtain rfl := exactArray_eq exact
  obtain ⟨content, signature, proof⟩ := verifyPayload_spec verified
  exact ⟨remoteStatic, shared, middle, payload, content, signature, openedStatic, agreed,
    openedPayload, proof⟩

theorem readMessage2_spec (message : List UInt8) : wp (readMessage2 message)
      (fun found state' => ∃ remoteE shared, message.take 32 = remoteE.toList ∧
        dh P state.localEphemeral remoteE = .ok shared ∧
        Authenticates (P := P) state.expectedPeer state.localEphemeral
          ((state.symmetric.mixHash P remoteE.toList).mixKey P shared) state'.symmetric
          ((message.drop 32).take 48) (message.drop 80) found.1 found.2)
      (fun _ _ => True) state := by
  unfold readMessage2 setRemoteEphemeral mixHash mixKey onSymmetric
  simp only [wp_bind, wp_part, wp_ofExcept, wp_get, wp_modify, wp_ite, wp_throw, implies_true,
    and_true, true_and]
  intro _ remoteE exact shared agreed
  refine wp_mono (readStatic_spec _ _) ?_ fun _ _ _ => trivial
  rintro found state' ⟨authentic, -⟩
  exact ⟨remoteE, shared, (exactArray_eq exact).symm, agreed, authentic⟩

theorem writeMessage2_step :
    wp writeMessage2 (fun _ state' => state'.step = .responderReadMessage3)
      (fun _ _ => True) state :=
  wp_skip fun _ _ => wp_skip fun _ _ => wp_skip fun _ _ => wp_skip fun _ _ => wp_skip fun _ _ =>
    wp_skip fun _ _ => wp_bind.mpr rfl

variable {message : List UInt8}

theorem readMessage_first (step : state.step = .responderReadMessage1) : wp (readMessage message)
      (fun answer state' => ∃ response, answer = (some response, none) ∧
        state'.step = .responderReadMessage3)
      (fun _ _ => True) state := by
  rw [readMessage, wp_bind, wp_get, step]
  refine wp_skip fun _ _ => wp_skip fun _ _ => wp_skip fun _ _ => wp_skip fun _ _ =>
    wp_skip fun _ _ => wp_bind.mpr (wp_mono writeMessage2_step ?_ fun _ _ _ => trivial)
  intro response state' ends
  exact ⟨response, rfl, ends⟩

/-- The result names the peer, and its ciphers go on from the handshake's. -/
def Finishes (state : HandshakeState P) (peer : PeerId) (identityKey : PublicKey)
    (result : HandshakeResult) : Prop :=
  result.peer = peer ∧ result.identityKey = identityKey ∧
    ∃ send, result.send = state.symmetric.cipher.initializeKey send ∧
      (send = (derive2 P state.symmetric.chainingKey []).1 ∨
        send = (derive2 P state.symmetric.chainingKey []).2)

theorem finishWithPeer_spec (peer : PeerId) (identityKey : PublicKey) :
    wp (finishWithPeer peer identityKey)
      (fun result state' => state'.Finishes peer identityKey result) (fun _ _ => True) state := by
  unfold finishWithPeer
  rw [wp_bind, wp_get]
  cases state.role with
  | initiator => exact ⟨rfl, rfl, _, rfl, .inl rfl⟩
  | responder => exact ⟨rfl, rfl, _, rfl, .inr rfl⟩

theorem readMessage_second (step : state.step = .initiatorReadMessage2) : wp (readMessage message)
      (fun answer state' => ∃ response result, answer = (some response, some result) ∧
        state'.Finishes result.peer result.identityKey result ∧
        ∃ remoteE shared after, message.take 32 = remoteE.toList ∧
          dh P state.localEphemeral remoteE = .ok shared ∧
          Authenticates (P := P) state.expectedPeer state.localEphemeral
            ((state.symmetric.mixHash P remoteE.toList).mixKey P shared) after
            ((message.drop 32).take 48) (message.drop 80) result.peer result.identityKey)
      (fun _ _ => True) state := by
  rw [readMessage, wp_bind, wp_get, step]
  refine wp_bind.mpr (wp_mono (readMessage2_spec message) ?_ fun _ _ _ => trivial)
  rintro ⟨peer, identityKey⟩ state₁ ⟨remoteE, shared, first, agreed, authentic⟩
  refine wp_skip fun _ _ => wp_skip fun response _ => wp_bind.mpr ?_
  refine wp_mono (finishWithPeer_spec peer identityKey) ?_ fun _ _ _ => trivial
  rintro result state' ⟨rfl, rfl, ciphers⟩
  exact ⟨response, result, rfl, ⟨rfl, rfl, ciphers⟩, remoteE, shared, _, first, agreed, authentic⟩

theorem readMessage_third (step : state.step = .responderReadMessage3) : wp (readMessage message)
      (fun answer state' => ∃ result, answer = (none, some result) ∧
        state'.Finishes result.peer result.identityKey result ∧
        ∃ after, Authenticates (P := P) state.expectedPeer state.localEphemeral
          state.symmetric after
          (message.take 48) (message.drop 48) result.peer result.identityKey)
      (fun _ _ => True) state := by
  rw [readMessage, wp_bind, wp_get, step]
  refine wp_bind.mpr ?_
  unfold readMessage3
  rw [wp_ite]
  refine ⟨fun _ => trivial, fun _ => ?_⟩
  refine wp_bind.mpr (wp_mono (readStatic_spec _ _) ?_ fun _ _ _ => trivial)
  rintro ⟨peer, identityKey⟩ state₁ ⟨authentic, -⟩
  refine wp_skip fun _ _ => wp_bind.mpr ?_
  refine wp_mono (finishWithPeer_spec peer identityKey) ?_ fun _ _ _ => trivial
  rintro result state' ⟨rfl, rfl, ciphers⟩
  exact ⟨result, rfl, ⟨rfl, rfl, ciphers⟩, _, authentic⟩

theorem start_initiator (step : state.step = .initiatorWriteMessage1) : wp start
      (fun answer state' => (∃ message, answer = some message) ∧
        state'.step = .initiatorReadMessage2)
      (fun _ _ => True) state := by
  rw [start, wp_bind, wp_get, step]
  exact wp_skip fun _ _ => wp_skip fun _ _ => wp_bind.mpr ⟨⟨_, rfl⟩, rfl⟩

end HandshakeState

end Noise
