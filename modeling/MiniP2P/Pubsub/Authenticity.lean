import MiniP2P.Pubsub.RoundTrip

/-! What a verified signature says about a message: which key made it, and over which fields; and
what an id says about it. -/
namespace Pubsub
open Framing Identity List

namespace RawMessage

theorem lenFields_inj {number : Nat} {values values' : List (List UInt8)}
    (same : lenFields number values = lenFields number values') : values = values' := by
  refine map_injective_iff.mpr ?_ same
  intro bytes bytes' field
  cases field
  rfl

theorem filter_lenFields (number other : Nat) (values : List (List UInt8)) :
    (lenFields number values).filter (fun f => f.number == other) =
      if number = other then lenFields number values else [] := by
  split
  · rename_i same
    subst same
    exact filter_eq_self.mpr fun f mem => by
      obtain ⟨bytes, -, rfl⟩ := mem_map.mp mem
      simp
  · rename_i differs
    refine filter_eq_nil_iff.mpr fun f mem => ?_
    obtain ⟨bytes, -, rfl⟩ := mem_map.mp mem
    simpa using differs

variable {m : RawMessage}

theorem signedFields_inj {m' : RawMessage} (same : m.signedFields = m'.signedFields) :
    m.source = m'.source ∧ m.data = m'.data ∧ m.seqno = m'.seqno ∧ m.topicIds = m'.topicIds := by
  have part (number : Nat) := congrArg (List.filter fun f => f.number == number) same
  have optional {value value' : Option (List UInt8)} (same : value.toList = value'.toList) :
      value = value' := by
    cases value <;> cases value' <;> simp_all
  refine ⟨optional (@lenFields_inj 1 _ _ ?_), optional (@lenFields_inj 2 _ _ ?_),
    optional (@lenFields_inj 3 _ _ ?_), ?_⟩
  · simpa [signedFields, filter_lenFields] using part 1
  · simpa [signedFields, filter_lenFields] using part 2
  · simpa [signedFields, filter_lenFields] using part 3
  · have topics : m.topicIds.map Utf8.encode = m'.topicIds.map Utf8.encode :=
      @lenFields_inj 4 _ _ (by simpa [signedFields, filter_lenFields] using part 4)
    exact map_injective_iff.mpr (fun _ _ => Utf8.encode_inj) topics

theorem signBytes_inj {m' : RawMessage} (fits : m.signBytes.length < 2 ^ 64)
    (same : m.signBytes = m'.signBytes) :
    m.source = m'.source ∧ m.data = m'.data ∧ m.seqno = m'.seqno ∧ m.topicIds = m'.topicIds := by
  have plain (m : RawMessage) : ∀ f ∈ m.signedFields, f.Plain := fun f mem =>
    m.plain_fields f (by simp [fields, mem])
  have body : m.signedFields.flatMap Field.encode = m'.signedFields.flatMap Field.encode := by
    simp only [signBytes, encodeFields_false] at same
    exact append_cancel_left same
  have short : (m.signedFields.flatMap Field.encode).length < 2 ^ 64 := by
    simp only [signBytes, encodeFields_false, length_append] at fits
    omega
  exact signedFields_inj (fields_inj (fits_of_plain (plain m) short)
    (fits_of_plain (plain m') (body ▸ short)) body)

theorem verified_key {C : Crypto} {allowUnsigned : Bool} {source : PeerId}
    {seqno : List UInt8} (verified : m.verify C allowUnsigned = .ok (source, seqno, true)) :
    ∃ key : PublicKey, ∃ signature : Bytes 64, m.signature = some signature.toList ∧
      PeerId.fromPublicKey C key = source ∧ key.verify C m.signBytes signature = .ok () := by
  unfold verify at verified
  cases named : m.sourceAndSeqno with
  | error e => simp only [named, reduceCtorEq] at verified
  | ok name =>
    simp only [named] at verified
    cases given : m.signature with
    | none =>
      simp only [given] at verified
      split at verified
      · cases verified
      · split at verified <;> cases verified
    | some bytes =>
      simp only [given] at verified
      split at verified
      · cases verified
      · rename_i signature sized
        split at verified
        · cases verified
        · rename_i key signing
          split at verified
          · cases verified
          · rename_i owner
            split at verified
            · cases verified
            · rename_i valid
              cases verified
              exact ⟨key, signature, by rw [Bytes.toList_of_ofList sized],
                Classical.not_not.mp owner, valid⟩

/-- A signature that verifies was made with a key of the message's source, and no message with
another source, data, sequence number or topics has the bytes that were signed. -/
theorem message_authentic (C : Crypto) :
    (∀ (m : RawMessage) (allowUnsigned : Bool) (source : PeerId) (seqno : List UInt8),
      m.verify C allowUnsigned = .ok (source, seqno, true) →
        (∃ bytes, m.source = some bytes ∧ PeerId.fromBytes bytes = .ok source) ∧
        ∃ key : PublicKey, ∃ signature : Bytes 64, m.signature = some signature.toList ∧
          PeerId.fromPublicKey C key = source ∧ key.verify C m.signBytes signature = .ok ()) ∧
      ∀ m m' : RawMessage, m.signBytes.length < 2 ^ 64 → m.signBytes = m'.signBytes →
        m.source = m'.source ∧ m.data = m'.data ∧ m.seqno = m'.seqno ∧
          m.topicIds = m'.topicIds := by
  refine ⟨?_, fun _ _ => signBytes_inj⟩
  intro m allowUnsigned source seqno verified
  refine ⟨?_, verified_key verified⟩
  have named := (verify_ok verified).1
  unfold sourceAndSeqno at named
  split at named
  · cases named
  · rename_i bytes given
    split at named
    · cases named
    · rename_i known read
      split at named
      · cases named
      · split at named
        · cases named
          exact ⟨bytes, given, read⟩
        · cases named

end RawMessage

/-! ### Ids -/

def messageId (source seqno : List UInt8) : List UInt8 := source ++ seqno

def seenMessageIdFromWire (id : List UInt8) (signed : Bool) : List UInt8 :=
  (if signed then 1 else 0) :: id

def seenMessageId (source seqno : List UInt8) (signed : Bool) : List UInt8 :=
  seenMessageIdFromWire (messageId source seqno) signed

/-- An id says whose message it is and its sequence number, and the ids of signed messages are kept
apart from the others. -/
theorem message_ids_distinct [MultihashCrate] [MultihashCrate.Documented] (p q : PeerId)
    (seqno seqno' : List UInt8) :
    (messageId p.toBytes seqno = messageId q.toBytes seqno' ↔ p = q ∧ seqno = seqno') ∧
    ∀ source source' seqno seqno', seenMessageId source seqno true ≠
      seenMessageId source' seqno' false := by
  refine ⟨⟨PeerId.toBytes_append_inj, ?_⟩, ?_⟩
  · rintro ⟨rfl, rfl⟩
    rfl
  · intro source source' seqno seqno' same
    cases (cons.inj same).1

theorem message_ids_distinct_digest :
    messageId (PeerId.toBytes ⟨⟨0, [1], by decide⟩, nofun⟩) [2] ≠
      messageId (PeerId.toBytes ⟨⟨0, [], by decide⟩, nofun⟩) [1, 2] := by
  intro same
  exact absurd ((message_ids_distinct _ _ _ _).1.mp same).2 (by decide)

def trusting : Crypto where
  sha256 _ := .replicate 32 0
  verifyingKey secret := secret
  sign _ _ := .replicate 64 0
  isVerifyingKey _ := true
  verifyStrict _ _ _ := true

/-- A message whose key is inside its source. -/
def greeting : RawMessage :=
  RawMessage.buildSigned (Ed25519Keypair.fromSecretKeyBytes trusting (.replicate 32 7)) "t" [1] 1

theorem authentic_greeting : ∃ key signature, greeting.signature = some (Bytes.toList signature) ∧
      PublicKey.verify trusting key greeting.signBytes signature = .ok () := by
  have verified : greeting.verify trusting false =
      .ok ((Ed25519Keypair.fromSecretKeyBytes trusting (.replicate 32 7)).peerId,
        [0, 0, 0, 0, 0, 0, 0, 1], true) := by decide +kernel
  obtain ⟨-, key, signature, given, -, valid⟩ :=
    (RawMessage.message_authentic trusting).1 greeting false _ _ verified
  exact ⟨key, signature, given, valid⟩

end Pubsub
