import MiniP2P.Core.Framing

/-! The protobuf messages of Circuit Relay v2. A decoder walks its input with an index;
it is total because every field it reads moves the index forward. -/
namespace Relay
open Framing

def maxMessageSize : Nat := 8192

inductive HopMessageType where
  | reserve | connect | status
  deriving DecidableEq

namespace HopMessageType

def toU64 : HopMessageType → Nat
  | .reserve => 0
  | .connect => 1
  | .status => 2

def fromU64 : Nat → Option HopMessageType
  | 0 => some .reserve
  | 1 => some .connect
  | 2 => some .status
  | _ => none

end HopMessageType

inductive StopMessageType where
  | connect | status
  deriving DecidableEq

namespace StopMessageType

def toU64 : StopMessageType → Nat
  | .connect => 0
  | .status => 1

def fromU64 : Nat → Option StopMessageType
  | 0 => some .connect
  | 1 => some .status
  | _ => none

end StopMessageType

inductive Status where
  | unused
  | ok
  | reservationRefused
  | resourceLimitExceeded
  | permissionDenied
  | connectionFailed
  | noReservation
  | malformedMessage
  | unexpectedMessage
  | unknown (value : Nat)
  deriving DecidableEq

namespace Status

def fromU64 : Nat → Status
  | 100 => .ok
  | 200 => .reservationRefused
  | 201 => .resourceLimitExceeded
  | 202 => .permissionDenied
  | 203 => .connectionFailed
  | 204 => .noReservation
  | 400 => .malformedMessage
  | 401 => .unexpectedMessage
  | 0 => .unused
  | other => .unknown other

def toU64 : Status → Nat
  | .unused => 0
  | .ok => 100
  | .reservationRefused => 200
  | .resourceLimitExceeded => 201
  | .permissionDenied => 202
  | .connectionFailed => 203
  | .noReservation => 204
  | .malformedMessage => 400
  | .unexpectedMessage => 401
  | .unknown value => value

end Status

structure Peer where
  id : List UInt8 := []
  addrs : List (List UInt8) := []
  deriving DecidableEq

structure Reservation where
  expire : Option Nat := none
  addrs : List (List UInt8) := []
  voucher : Option (List UInt8) := none
  deriving DecidableEq

structure Limit where
  duration : Option Nat := none
  data : Option Nat := none
  deriving DecidableEq

structure HopMessage where
  kind : HopMessageType
  peer : Option Peer
  reservation : Option Reservation
  limit : Option Limit
  status : Option Status
  deriving DecidableEq

structure StopMessage where
  kind : StopMessageType
  peer : Option Peer
  limit : Option Limit
  status : Option Status
  deriving DecidableEq

inductive RelayMessageError where
  | varint (e : VarintError)
  | fieldOverflow (offset length remaining : Nat)
  | unsupportedWireType (wireType offset : Nat)
  | missingType
  | invalidMessageType (value : Nat)
  deriving DecidableEq

def wireVarint : Nat := 0
def wireI64 : Nat := 1
def wireLen : Nat := 2
def wireI32 : Nat := 5

def tagByte (field wireType : Nat) : UInt8 := UInt8.ofNat (field * 8 + wireType)

def encodeVarintField (tag : UInt8) (value : Nat) : List UInt8 := tag :: writeUvarint value

def encodeBytesField (tag : UInt8) (data : List UInt8) : List UInt8 :=
  tag :: (writeUvarint data.length ++ data)

def encodeNestedField (tag : UInt8) (nested : List UInt8) : List UInt8 :=
  encodeBytesField tag nested

def encodeOption {α : Type} (encode : α → List UInt8) : Option α → List UInt8
  | none => []
  | some value => encode value

variable (input : List UInt8)

def advance (idx length : Nat) : Except RelayMessageError Nat :=
  if idx + length ≤ input.length then .ok (idx + length)
  else .error (.fieldOverflow idx length (input.length - idx))

def readVarintValue (idx : Nat) : Except RelayMessageError (Nat × Nat) :=
  match readUvarint (input.drop idx) with
  | .error e => .error (.varint e)
  | .ok (value, used) => do
    let idx ← advance input idx used
    return (value, idx)

def readTag (idx : Nat) : Except RelayMessageError (Option (Nat × Nat × Nat)) :=
  if input.length ≤ idx then .ok none
  else do
    let (tag, idx) ← readVarintValue input idx
    return some (tag / 2 ^ 3, tag % 8, idx)

def readLenDelimited (idx : Nat) : Except RelayMessageError (List UInt8 × Nat) := do
  let (length, idx) ← readVarintValue input idx
  let remaining := input.length - idx
  if remaining < length then .error (.fieldOverflow idx length remaining)
  else return ((input.drop idx).take length, idx + length)

def skipUnknownField (idx wireType : Nat) : Except RelayMessageError Nat :=
  if wireType = wireVarint then do
    let (_, idx) ← readVarintValue input idx
    return idx
  else if wireType = wireLen then do
    let (length, idx) ← readVarintValue input idx
    let remaining := input.length - idx
    if remaining < length then .error (.fieldOverflow idx length remaining)
    else advance input idx length
  else if wireType = wireI32 then advance input idx 4
  else if wireType = wireI64 then advance input idx 8
  else .error (.unsupportedWireType wireType idx)

abbrev FieldReader (μ : Type) := μ → Nat → Nat → Nat → Except RelayMessageError (μ × Nat)

/-- The loop of every decoder. With nothing left to read it has ended; each turn reads
at least the byte of a tag. -/
def decodeFields {μ : Type} (read : FieldReader μ) (input : List UInt8) :
    Nat → Nat → μ → Except RelayMessageError μ
  | 0, _, msg => .ok msg
  | left + 1, idx, msg => do
    match ← readTag input idx with
    | none => return msg
    | some (field, wireType, idx) =>
      let (msg, idx) ← read msg field wireType idx
      decodeFields read input left idx msg

def skipField {μ : Type} (msg : μ) (wireType idx : Nat) : Except RelayMessageError (μ × Nat) := do
  let idx ← skipUnknownField input idx wireType
  return (msg, idx)

namespace Peer

def encode (p : Peer) : List UInt8 :=
  (if p.id = [] then [] else encodeBytesField (tagByte 1 wireLen) p.id) ++
    p.addrs.flatMap (encodeBytesField (tagByte 2 wireLen))

def readField (input : List UInt8) : FieldReader Peer := fun msg field wireType idx =>
  if (field, wireType) = (1, wireLen) then do
    let (id, idx) ← readLenDelimited input idx
    return ({ msg with id }, idx)
  else if (field, wireType) = (2, wireLen) then do
    let (addr, idx) ← readLenDelimited input idx
    return ({ msg with addrs := msg.addrs ++ [addr] }, idx)
  else skipField input msg wireType idx

def decode (input : List UInt8) : Except RelayMessageError Peer :=
  decodeFields (readField input) input input.length 0 {}

end Peer

namespace Reservation

def encode (r : Reservation) : List UInt8 :=
  encodeOption (encodeVarintField (tagByte 1 wireVarint)) r.expire ++
    (r.addrs.flatMap (encodeBytesField (tagByte 2 wireLen)) ++
      encodeOption (encodeBytesField (tagByte 3 wireLen)) r.voucher)

def readField (input : List UInt8) : FieldReader Reservation := fun msg field wireType idx =>
  if (field, wireType) = (1, wireVarint) then do
    let (expire, idx) ← readVarintValue input idx
    return ({ msg with expire := some expire }, idx)
  else if (field, wireType) = (2, wireLen) then do
    let (addr, idx) ← readLenDelimited input idx
    return ({ msg with addrs := msg.addrs ++ [addr] }, idx)
  else if (field, wireType) = (3, wireLen) then do
    let (voucher, idx) ← readLenDelimited input idx
    return ({ msg with voucher := some voucher }, idx)
  else skipField input msg wireType idx

def decode (input : List UInt8) : Except RelayMessageError Reservation :=
  decodeFields (readField input) input input.length 0 {}

end Reservation

namespace Limit

def encode (l : Limit) : List UInt8 :=
  encodeOption (encodeVarintField (tagByte 1 wireVarint)) l.duration ++
    encodeOption (encodeVarintField (tagByte 2 wireVarint)) l.data

/-- The duration is cut to 32 bits, as the cast of the source does. -/
def readField (input : List UInt8) : FieldReader Limit := fun msg field wireType idx =>
  if (field, wireType) = (1, wireVarint) then do
    let (duration, idx) ← readVarintValue input idx
    return ({ msg with duration := some (duration % 2 ^ 32) }, idx)
  else if (field, wireType) = (2, wireVarint) then do
    let (data, idx) ← readVarintValue input idx
    return ({ msg with data := some data }, idx)
  else skipField input msg wireType idx

def decode (input : List UInt8) : Except RelayMessageError Limit :=
  decodeFields (readField input) input input.length 0 {}

end Limit

namespace HopMessage

def encode (m : HopMessage) : List UInt8 :=
  encodeVarintField (tagByte 1 wireVarint) m.kind.toU64 ++
    (encodeOption (fun peer => encodeNestedField (tagByte 2 wireLen) (Peer.encode peer)) m.peer ++
    (encodeOption (fun r => encodeNestedField (tagByte 3 wireLen) (Reservation.encode r))
      m.reservation ++
    (encodeOption (fun l => encodeNestedField (tagByte 4 wireLen) (Limit.encode l)) m.limit ++
    encodeOption (fun s => encodeVarintField (tagByte 5 wireVarint) (Status.toU64 s)) m.status)))

structure Draft where
  kind : Option HopMessageType := none
  peer : Option Peer := none
  reservation : Option Reservation := none
  limit : Option Limit := none
  status : Option Status := none

def readField (input : List UInt8) : FieldReader Draft := fun msg field wireType idx =>
  if (field, wireType) = (1, wireVarint) then do
    let (value, idx) ← readVarintValue input idx
    match HopMessageType.fromU64 value with
    | none => .error (.invalidMessageType value)
    | some kind => return ({ msg with kind := some kind }, idx)
  else if (field, wireType) = (2, wireLen) then do
    let (body, idx) ← readLenDelimited input idx
    let peer ← Peer.decode body
    return ({ msg with peer := some peer }, idx)
  else if (field, wireType) = (3, wireLen) then do
    let (body, idx) ← readLenDelimited input idx
    let reservation ← Reservation.decode body
    return ({ msg with reservation := some reservation }, idx)
  else if (field, wireType) = (4, wireLen) then do
    let (body, idx) ← readLenDelimited input idx
    let limit ← Limit.decode body
    return ({ msg with limit := some limit }, idx)
  else if (field, wireType) = (5, wireVarint) then do
    let (value, idx) ← readVarintValue input idx
    return ({ msg with status := some (Status.fromU64 value) }, idx)
  else skipField input msg wireType idx

def decode (input : List UInt8) : Except RelayMessageError HopMessage := do
  let msg ← decodeFields (readField input) input input.length 0 {}
  match msg.kind with
  | none => .error .missingType
  | some kind => return ⟨kind, msg.peer, msg.reservation, msg.limit, msg.status⟩

end HopMessage

namespace StopMessage

def encode (m : StopMessage) : List UInt8 :=
  encodeVarintField (tagByte 1 wireVarint) m.kind.toU64 ++
    (encodeOption (fun peer => encodeNestedField (tagByte 2 wireLen) (Peer.encode peer)) m.peer ++
    (encodeOption (fun l => encodeNestedField (tagByte 3 wireLen) (Limit.encode l)) m.limit ++
    encodeOption (fun s => encodeVarintField (tagByte 4 wireVarint) (Status.toU64 s)) m.status))

structure Draft where
  kind : Option StopMessageType := none
  peer : Option Peer := none
  limit : Option Limit := none
  status : Option Status := none

def readField (input : List UInt8) : FieldReader Draft := fun msg field wireType idx =>
  if (field, wireType) = (1, wireVarint) then do
    let (value, idx) ← readVarintValue input idx
    match StopMessageType.fromU64 value with
    | none => .error (.invalidMessageType value)
    | some kind => return ({ msg with kind := some kind }, idx)
  else if (field, wireType) = (2, wireLen) then do
    let (body, idx) ← readLenDelimited input idx
    let peer ← Peer.decode body
    return ({ msg with peer := some peer }, idx)
  else if (field, wireType) = (3, wireLen) then do
    let (body, idx) ← readLenDelimited input idx
    let limit ← Limit.decode body
    return ({ msg with limit := some limit }, idx)
  else if (field, wireType) = (4, wireVarint) then do
    let (value, idx) ← readVarintValue input idx
    return ({ msg with status := some (Status.fromU64 value) }, idx)
  else skipField input msg wireType idx

def decode (input : List UInt8) : Except RelayMessageError StopMessage := do
  let msg ← decodeFields (readField input) input input.length 0 {}
  match msg.kind with
  | none => .error .missingType
  | some kind => return ⟨kind, msg.peer, msg.limit, msg.status⟩

end StopMessage

end Relay
