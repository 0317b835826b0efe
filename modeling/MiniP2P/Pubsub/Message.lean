import MiniP2P.Core.Utf8
import MiniP2P.Identity.Key
import MiniP2P.Lib.BigEndian

/-! The wire codec of the pubsub RPC: protobuf messages, their frames, and messages signed by
their publisher. A reader stands at an index of its input. -/
namespace Pubsub
open Framing Identity

def maxSeqnoLen : Nat := 64
def signatureLen : Nat := 64

def signDomain : List UInt8 := Utf8.encode "libp2p-pubsub:"

structure PeerInfo where
  peerId : Option (List UInt8) := none
  signedPeerRecord : Option (List UInt8) := none
  deriving DecidableEq

structure ControlIHave where
  topicId : Option String := none
  messageIds : List (List UInt8) := []
  deriving DecidableEq

structure ControlIWant where
  messageIds : List (List UInt8) := []
  deriving DecidableEq

structure ControlGraft where
  topicId : Option String := none
  deriving DecidableEq

structure ControlPrune where
  topicId : Option String := none
  peers : List PeerInfo := []
  backoff : Option Nat := none
  deriving DecidableEq

structure ControlMessage where
  ihave : List ControlIHave := []
  iwant : List ControlIWant := []
  graft : List ControlGraft := []
  prune : List ControlPrune := []
  deriving DecidableEq

structure SubOpts where
  subscribe : Option Bool := none
  topicId : Option String := none
  deriving DecidableEq

/-- A publish entry. Its encoding is kept as it was received; `source` is the field `from`. -/
structure RawMessage where
  raw : List UInt8 := []
  source : Option (List UInt8) := none
  data : Option (List UInt8) := none
  seqno : Option (List UInt8) := none
  topicIds : List String := []
  signature : Option (List UInt8) := none
  key : Option (List UInt8) := none
  deriving DecidableEq

structure Rpc where
  subscriptions : List SubOpts := []
  publish : List RawMessage := []
  control : Option ControlMessage := none
  deriving DecidableEq

inductive PubsubWireError where
  | varint (e : VarintError)
  | fieldOverflow (offset length remaining : Nat)
  | unsupportedWireType (wireType offset : Nat)
  | invalidUtf8 (offset : Nat)
  | invalidFieldNumber (offset : Nat)
  deriving DecidableEq

inductive MessageVerifyError where
  | missingFrom | invalidFrom | invalidSeqno | missingSignature | keyWithoutSignature
  | invalidSignatureLength | invalidKey | keyPeerIdMismatch | signatureInvalid
  deriving DecidableEq

/-! ### Fields -/

def wireVarint : Nat := 0
def wireI64 : Nat := 1
def wireLen : Nat := 2
def wireI32 : Nat := 5

def tagByte (field wireType : Nat) : UInt8 := UInt8.ofNat (field * 8 + wireType)

def encodeVarintField (tag : UInt8) (value : Nat) : List UInt8 := tag :: writeUvarint value

def encodeBytesField (tag : UInt8) (data : List UInt8) : List UInt8 :=
  tag :: (writeUvarint data.length ++ data)

def encodeNestedField (tag : UInt8) (nested : List UInt8) : List UInt8 :=
  encodeBytesField tag nested

def encodeOptional (tag : UInt8) : Option (List UInt8) → List UInt8
  | none => []
  | some data => encodeBytesField tag data

variable (input : List UInt8)

def varintTail (idx : Nat) : Except PubsubWireError (List UInt8) :=
  if idx ≤ input.length then .ok (input.drop idx) else .error (.varint .bufferTooShort)

def readVarintValue (idx : Nat) : Except PubsubWireError (Nat × Nat) :=
  match varintTail input idx with
  | .error e => .error e
  | .ok tail =>
    match readUvarint tail with
    | .error e => .error (.varint e)
    | .ok (value, used) => .ok (value, idx + used)

def readTag (idx : Nat) : Except PubsubWireError (Option (Nat × Nat × Nat)) :=
  if input.length ≤ idx then .ok none
  else
    match readVarintValue input idx with
    | .error e => .error e
    | .ok (tag, next) =>
      if tag / 8 = 0 then .error (.invalidFieldNumber idx) else .ok (some (tag / 8, tag % 8, next))

def readLenDelimited (idx : Nat) : Except PubsubWireError (List UInt8 × Nat) :=
  match readVarintValue input idx with
  | .error e => .error e
  | .ok (length, idx) =>
    let remaining := input.length - idx
    if remaining < length then .error (.fieldOverflow idx length remaining)
    else .ok ((input.drop idx).take length, idx + length)

def readString (idx : Nat) : Except PubsubWireError (String × Nat) :=
  match readLenDelimited input idx with
  | .error e => .error e
  | .ok (bytes, next) =>
    match Utf8.decode bytes with
    | none => .error (.invalidUtf8 idx)
    | some text => .ok (text, next)

def skipFixed (idx size : Nat) : Except PubsubWireError Nat :=
  if input.length < idx + size then .error (.fieldOverflow idx size (input.length - idx))
  else .ok (idx + size)

def skipUnknownField (idx wireType : Nat) : Except PubsubWireError Nat :=
  if wireType = wireVarint then (readVarintValue input idx).map Prod.snd
  else if wireType = wireLen then (readLenDelimited input idx).map Prod.snd
  else if wireType = wireI32 then skipFixed input idx 4
  else if wireType = wireI64 then skipFixed input idx 8
  else .error (.unsupportedWireType wireType idx)

/-- What a message does with its fields: a field number and a wire type that it knows, at an
index. -/
abbrev FieldReader (σ : Type) := σ → Nat → Nat → Nat → Option (Except PubsubWireError (σ × Nat))

/-- The loop of every decoder. A tag takes at least one byte. -/
def decodeLoop {σ : Type} (read : FieldReader σ) (input : List UInt8) :
    Nat → Nat → σ → Except PubsubWireError σ
  | 0, _, message => .ok message
  | fuel + 1, idx, message =>
    match readTag input idx with
    | .error e => .error e
    | .ok none => .ok message
    | .ok (some (field, wireType, idx)) =>
      match read message field wireType idx with
      | some (.error e) => .error e
      | some (.ok (message, idx)) => decodeLoop read input fuel idx message
      | none =>
        match skipUnknownField input idx wireType with
        | .error e => .error e
        | .ok idx => decodeLoop read input fuel idx message

def decodeFields {σ : Type} (read : FieldReader σ) (input : List UInt8) (message : σ) :
    Except PubsubWireError σ := decodeLoop read input (input.length + 1) 0 message

def lenField {σ : Type} (idx : Nat) (set : List UInt8 → σ) :
    Option (Except PubsubWireError (σ × Nat)) :=
  some ((readLenDelimited input idx).map fun (bytes, idx) => (set bytes, idx))

def stringField {σ : Type} (idx : Nat) (set : String → σ) :
    Option (Except PubsubWireError (σ × Nat)) :=
  some ((readString input idx).map fun (text, idx) => (set text, idx))

def varintField {σ : Type} (idx : Nat) (set : Nat → σ) :
    Option (Except PubsubWireError (σ × Nat)) :=
  some ((readVarintValue input idx).map fun (value, idx) => (set value, idx))

def nestedField {σ τ : Type} (idx : Nat)
    (decode : List UInt8 → Except PubsubWireError τ) (set : τ → σ) :
    Option (Except PubsubWireError (σ × Nat)) :=
  some (match readLenDelimited input idx with
    | .error e => .error e
    | .ok (nested, idx) => (decode nested).map fun value => (set value, idx))

/-! ### Messages -/

namespace SubOpts

def encode (opts : SubOpts) : List UInt8 :=
  (match opts.subscribe with
    | none => []
    | some subscribe => encodeVarintField (tagByte 1 wireVarint) (if subscribe then 1 else 0)) ++
    encodeOptional (tagByte 2 wireLen) (opts.topicId.map Utf8.encode)

def read (input : List UInt8) : FieldReader SubOpts
  | opts, 1, 0, idx => varintField input idx fun value =>
    { opts with subscribe := some (value != 0) }
  | opts, 2, 2, idx => stringField input idx fun topic => { opts with topicId := some topic }
  | _, _, _, _ => none

def decode (input : List UInt8) : Except PubsubWireError SubOpts :=
  decodeFields (read input) input {}

end SubOpts

namespace PeerInfo

def encode (peer : PeerInfo) : List UInt8 :=
  encodeOptional (tagByte 1 wireLen) peer.peerId ++
    encodeOptional (tagByte 2 wireLen) peer.signedPeerRecord

def read (input : List UInt8) : FieldReader PeerInfo
  | peer, 1, 2, idx => lenField input idx fun bytes => { peer with peerId := some bytes }
  | peer, 2, 2, idx => lenField input idx fun bytes => { peer with signedPeerRecord := some bytes }
  | _, _, _, _ => none

def decode (input : List UInt8) : Except PubsubWireError PeerInfo :=
  decodeFields (read input) input {}

end PeerInfo

namespace ControlIHave

def encode (message : ControlIHave) : List UInt8 :=
  encodeOptional (tagByte 1 wireLen) (message.topicId.map Utf8.encode) ++
    message.messageIds.flatMap (encodeBytesField (tagByte 2 wireLen))

def read (input : List UInt8) : FieldReader ControlIHave
  | message, 1, 2, idx => stringField input idx fun topic => { message with topicId := some topic }
  | message, 2, 2, idx =>
    lenField input idx fun id => { message with messageIds := message.messageIds ++ [id] }
  | _, _, _, _ => none

def decode (input : List UInt8) : Except PubsubWireError ControlIHave :=
  decodeFields (read input) input {}

end ControlIHave

namespace ControlIWant

def encode (message : ControlIWant) : List UInt8 :=
  message.messageIds.flatMap (encodeBytesField (tagByte 1 wireLen))

def read (input : List UInt8) : FieldReader ControlIWant
  | message, 1, 2, idx =>
    lenField input idx fun id => { message with messageIds := message.messageIds ++ [id] }
  | _, _, _, _ => none

def decode (input : List UInt8) : Except PubsubWireError ControlIWant :=
  decodeFields (read input) input {}

end ControlIWant

namespace ControlGraft

def encode (message : ControlGraft) : List UInt8 :=
  encodeOptional (tagByte 1 wireLen) (message.topicId.map Utf8.encode)

def read (input : List UInt8) : FieldReader ControlGraft
  | message, 1, 2, idx => stringField input idx fun topic => { message with topicId := some topic }
  | _, _, _, _ => none

def decode (input : List UInt8) : Except PubsubWireError ControlGraft :=
  decodeFields (read input) input {}

end ControlGraft

namespace ControlPrune

def encode (message : ControlPrune) : List UInt8 :=
  encodeOptional (tagByte 1 wireLen) (message.topicId.map Utf8.encode) ++
    message.peers.flatMap (fun peer => encodeNestedField (tagByte 2 wireLen) peer.encode) ++
    (match message.backoff with
      | none => []
      | some backoff => encodeVarintField (tagByte 3 wireVarint) backoff)

def read (input : List UInt8) : FieldReader ControlPrune
  | message, 1, 2, idx => stringField input idx fun topic => { message with topicId := some topic }
  | message, 2, 2, idx =>
    nestedField input idx PeerInfo.decode fun peer =>
      { message with peers := message.peers ++ [peer] }
  | message, 3, 0, idx => varintField input idx fun value => { message with backoff := some value }
  | _, _, _, _ => none

def decode (input : List UInt8) : Except PubsubWireError ControlPrune :=
  decodeFields (read input) input {}

end ControlPrune

namespace ControlMessage

def encode (control : ControlMessage) : List UInt8 :=
  control.ihave.flatMap (fun m => encodeNestedField (tagByte 1 wireLen) m.encode) ++
    control.iwant.flatMap (fun m => encodeNestedField (tagByte 2 wireLen) m.encode) ++
    control.graft.flatMap (fun m => encodeNestedField (tagByte 3 wireLen) m.encode) ++
    control.prune.flatMap (fun m => encodeNestedField (tagByte 4 wireLen) m.encode)

def read (input : List UInt8) : FieldReader ControlMessage
  | control, 1, 2, idx =>
    nestedField input idx ControlIHave.decode fun m =>
      { control with ihave := control.ihave ++ [m] }
  | control, 2, 2, idx =>
    nestedField input idx ControlIWant.decode fun m =>
      { control with iwant := control.iwant ++ [m] }
  | control, 3, 2, idx =>
    nestedField input idx ControlGraft.decode fun m =>
      { control with graft := control.graft ++ [m] }
  | control, 4, 2, idx =>
    nestedField input idx ControlPrune.decode fun m =>
      { control with prune := control.prune ++ [m] }
  | _, _, _, _ => none

def mergeFrom (control : ControlMessage) (input : List UInt8) :
    Except PubsubWireError ControlMessage := decodeFields (read input) input control

end ControlMessage

namespace RawMessage

variable (message : RawMessage)

def encodeFields (includeSignature : Bool) : List UInt8 :=
  encodeOptional (tagByte 1 wireLen) message.source ++
    encodeOptional (tagByte 2 wireLen) message.data ++
    encodeOptional (tagByte 3 wireLen) message.seqno ++
    message.topicIds.flatMap (fun topic => encodeBytesField (tagByte 4 wireLen)
      (Utf8.encode topic)) ++
    if includeSignature then
      encodeOptional (tagByte 5 wireLen) message.signature ++
        encodeOptional (tagByte 6 wireLen) message.key
    else []

def signBytes : List UInt8 := signDomain ++ message.encodeFields false

def toWire : List UInt8 :=
  if message.raw.isEmpty then message.encodeFields true else message.raw

def read (input : List UInt8) : FieldReader RawMessage
  | message, 1, 2, idx => lenField input idx fun bytes => { message with source := some bytes }
  | message, 2, 2, idx => lenField input idx fun bytes => { message with data := some bytes }
  | message, 3, 2, idx => lenField input idx fun bytes => { message with seqno := some bytes }
  | message, 4, 2, idx =>
    stringField input idx fun topic => { message with topicIds := message.topicIds ++ [topic] }
  | message, 5, 2, idx => lenField input idx fun bytes => { message with signature := some bytes }
  | message, 6, 2, idx => lenField input idx fun bytes => { message with key := some bytes }
  | _, _, _, _ => none

def decode (input : List UInt8) : Except PubsubWireError RawMessage :=
  decodeFields (read input) input { raw := input }

def buildSigned {C : Crypto} (keypair : Ed25519Keypair C) (topic : String) (data : List UInt8)
    (seqno : UInt64) : RawMessage :=
  let message : RawMessage :=
    { source := some keypair.peerId.toBytes
      data := some data
      seqno := some (BigEndian.toBytes 8 seqno.toNat)
      topicIds := [topic] }
  let message := { message with signature := some (keypair.sign message.signBytes).toList }
  { message with raw := message.encodeFields true }

def sourceAndSeqno : Except MessageVerifyError (PeerId × List UInt8) :=
  match message.source with
  | none => .error .missingFrom
  | some bytes =>
    match PeerId.fromBytes bytes with
    | .error _ => .error .invalidFrom
    | .ok source =>
      match message.seqno with
      | none => .error .invalidSeqno
      | some seqno =>
        if seqno ≠ [] ∧ seqno.length ≤ maxSeqnoLen then .ok (source, seqno)
        else .error .invalidSeqno

/-- The key a signature is checked with: the one that comes along, or the one inside the peer id. -/
def signingKey (source : PeerId) : Except MessageVerifyError PublicKey :=
  match message.key with
  | some key => (PublicKey.decodeProtobuf key).mapError fun _ => .invalidKey
  | none => (PublicKey.decodeProtobuf source.digest).mapError fun _ => .keyPeerIdMismatch

def verify (C : Crypto) (message : RawMessage) (allowUnsigned : Bool) :
    Except MessageVerifyError (PeerId × List UInt8 × Bool) :=
  match message.sourceAndSeqno with
  | .error e => .error e
  | .ok (source, seqno) =>
    match message.signature with
    | none =>
      if message.key.isSome then .error .keyWithoutSignature
      else if allowUnsigned then .ok (source, seqno, false)
      else .error .missingSignature
    | some signature =>
      match Bytes.ofList signatureLen signature with
      | none => .error .invalidSignatureLength
      | some signature =>
        match message.signingKey source with
        | .error e => .error e
        | .ok key =>
          if PeerId.fromPublicKey C key ≠ source then .error .keyPeerIdMismatch
          else
            match key.verify C message.signBytes signature with
            | .error _ => .error .signatureInvalid
            | .ok () => .ok (source, seqno, true)

theorem verify_ok {C : Crypto} {message : RawMessage} {allowUnsigned signed : Bool}
    {source : PeerId}
    {seqno : List UInt8} (verified : message.verify C allowUnsigned = .ok (source, seqno, signed)) :
    message.sourceAndSeqno = .ok (source, seqno) ∧ signed = message.signature.isSome := by
  unfold verify at verified
  cases named : message.sourceAndSeqno with
  | error e => simp only [named, reduceCtorEq] at verified
  | ok name =>
    simp only [named] at verified
    cases given : message.signature with
    | none =>
      simp only [given] at verified
      split at verified
      · cases verified
      · split at verified
        · cases verified
          exact ⟨rfl, rfl⟩
        · cases verified
    | some signature =>
      simp only [given] at verified
      split at verified
      · cases verified
      · split at verified
        · cases verified
        · split at verified
          · cases verified
          · split at verified
            · cases verified
            · cases verified
              exact ⟨rfl, rfl⟩

end RawMessage

namespace Rpc

def encode (rpc : Rpc) : List UInt8 :=
  rpc.subscriptions.flatMap (fun sub => encodeNestedField (tagByte 1 wireLen) sub.encode) ++
    rpc.publish.flatMap (fun message => encodeNestedField (tagByte 2 wireLen) message.toWire) ++
    (match rpc.control with
      | none => []
      | some control => encodeNestedField (tagByte 3 wireLen) control.encode)

def read (decodeControl : Bool) (input : List UInt8) : FieldReader Rpc
  | rpc, 1, 2, idx =>
    nestedField input idx SubOpts.decode fun sub =>
      { rpc with subscriptions := rpc.subscriptions ++ [sub] }
  | rpc, 2, 2, idx =>
    nestedField input idx RawMessage.decode fun message =>
      { rpc with publish := rpc.publish ++ [message] }
  | rpc, 3, 2, idx =>
    if decodeControl then
      nestedField input idx (rpc.control.getD {}).mergeFrom fun control =>
        { rpc with control := some control }
    else lenField input idx fun _ => rpc
  | _, _, _, _ => none

def decodeInner (input : List UInt8) (decodeControl : Bool) : Except PubsubWireError Rpc :=
  decodeFields (read decodeControl input) input {}

def decode (input : List UInt8) : Except PubsubWireError Rpc := decodeInner input true

def decodeFloodsub (input : List UInt8) : Except PubsubWireError Rpc := decodeInner input false

end Rpc

end Pubsub
