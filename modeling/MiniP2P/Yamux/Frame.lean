import MiniP2P.Lib.BigEndian

/-! The Yamux wire frame: a twelve byte header and, for data frames, a payload.
Lengths of byte vectors are natural numbers; a header field keeps its machine
width, so what cannot be put on the wire cannot be put in a frame. -/
namespace Yamux

def headerLen : Nat := 12

def flagSyn : UInt16 := 1
def flagAck : UInt16 := 2
def flagFin : UInt16 := 4
def flagRst : UInt16 := 8

def streamFlags : UInt16 := flagSyn ||| flagAck ||| flagFin ||| flagRst
def pingFlags : UInt16 := flagSyn ||| flagAck

inductive FrameType where
  | data | windowUpdate | ping | goAway
  deriving DecidableEq

inductive YamuxError where
  | invalidConfig (reason : String)
  | unsupportedVersion (version : UInt8)
  | unknownFrameType (tag : UInt8)
  | invalidFlags (frameType : FrameType) (flags : UInt16)
  | invalidStreamId (frameType : FrameType) (stream : UInt32)
  | frameTooLarge (length max : UInt32)
  | frameLengthOverflow
  | protocol (reason : String)
  | receiveWindowExceeded (stream : UInt32)
  | windowOverflow (stream : UInt32)
  | tooManyStreams
  | streamsExhausted
  | unknownStream (stream : UInt32)
  | streamWriteClosed (stream : UInt32)
  | sendBufferFull (stream : UInt32) (attempted perStreamLimit totalLimit : Nat)
  | sessionClosed
  | failed
  deriving DecidableEq

namespace FrameType

def tag : FrameType → UInt8
  | .data => 0
  | .windowUpdate => 1
  | .ping => 2
  | .goAway => 3

def decode (value : UInt8) : Except YamuxError FrameType :=
  if value = 0 then .ok .data
  else if value = 1 then .ok .windowUpdate
  else if value = 2 then .ok .ping
  else if value = 3 then .ok .goAway
  else .error (.unknownFrameType value)

def name : FrameType → String
  | .data => "Data"
  | .windowUpdate => "WindowUpdate"
  | .ping => "Ping"
  | .goAway => "GoAway"

def allowed : FrameType → UInt16
  | .data | .windowUpdate => streamFlags
  | .ping => pingFlags
  | .goAway => 0

@[simp] theorem decode_tag (t : FrameType) : decode t.tag = .ok t := by
  cases t <;> rfl

theorem tag_of_decode {value : UInt8} {t : FrameType} (h : decode value = .ok t) :
    t.tag = value := by
  unfold decode at h
  split at h
  · cases h; simp_all [tag]
  · split at h
    · cases h; simp_all [tag]
    · split at h
      · cases h; simp_all [tag]
      · split at h
        · cases h; simp_all [tag]
        · cases h

end FrameType

/-- Four hexadecimal digits behind `0x`. -/
def hexFlags (flags : UInt16) : String :=
  let digits := Nat.toDigits 16 flags.toNat
  "0x" ++ String.ofList (List.replicate (4 - digits.length) '0' ++ digits)

def YamuxError.toString : YamuxError → String
  | invalidConfig reason => "invalid Yamux configuration: " ++ reason
  | unsupportedVersion version => "unsupported Yamux version " ++ Nat.repr version.toNat
  | unknownFrameType tag => "unknown Yamux frame type " ++ Nat.repr tag.toNat
  | invalidFlags frameType flags =>
    "invalid Yamux flags " ++ hexFlags flags ++ " for " ++ frameType.name
  | invalidStreamId frameType stream =>
    "invalid Yamux stream id " ++ Nat.repr stream.toNat ++ " for " ++ frameType.name
  | frameTooLarge length max =>
    "Yamux data frame length " ++ Nat.repr length.toNat ++ " exceeds limit " ++ Nat.repr max.toNat
  | frameLengthOverflow => "Yamux payload length cannot be represented"
  | protocol reason => "Yamux protocol error: " ++ reason
  | receiveWindowExceeded stream =>
    "Yamux stream " ++ Nat.repr stream.toNat ++ " exceeded its receive window"
  | windowOverflow stream => "Yamux stream " ++ Nat.repr stream.toNat ++ " send window overflowed"
  | tooManyStreams => "maximum Yamux stream count reached"
  | streamsExhausted => "Yamux stream IDs exhausted"
  | unknownStream stream => "unknown Yamux stream " ++ Nat.repr stream.toNat
  | streamWriteClosed stream => "Yamux stream " ++ Nat.repr stream.toNat ++ " write side is closed"
  | sendBufferFull stream _ _ _ => "Yamux send buffer is full for stream " ++ Nat.repr stream.toNat
  | sessionClosed => "Yamux session is closed"
  | failed => "Yamux session has failed"

structure Frame where
  frameType : FrameType
  flags : UInt16
  streamId : UInt32
  value : UInt32
  payload : List UInt8
  deriving DecidableEq

variable {streamId : UInt32} {flags : UInt16}

namespace Frame

def validStream (f : Frame) : Bool :=
  match f.frameType with
  | .data | .windowUpdate => f.streamId != 0
  | .ping | .goAway => f.streamId == 0

def validate (f : Frame) : Except YamuxError Unit :=
  if f.flags &&& ~~~f.frameType.allowed ≠ 0 ∨
      (f.frameType = .ping ∧ ¬ (f.flags = flagSyn ∨ f.flags = flagAck)) then
    .error (.invalidFlags f.frameType f.flags)
  else if !f.validStream then .error (.invalidStreamId f.frameType f.streamId)
  else .ok ()

def data (streamId : UInt32) (flags : UInt16) (payload : List UInt8) : Except YamuxError Frame :=
  if payload.length < 2 ^ 32 then
    let frame : Frame := ⟨.data, flags, streamId, UInt32.ofNat payload.length, payload⟩
    match frame.validate with
    | .error e => .error e
    | .ok () => .ok frame
  else .error .frameLengthOverflow

def windowUpdate (streamId : UInt32) (flags : UInt16) (credit : UInt32) : Except YamuxError Frame :=
  let frame : Frame := ⟨.windowUpdate, flags, streamId, credit, []⟩
  match frame.validate with
  | .error e => .error e
  | .ok () => .ok frame

def ping (flags : UInt16) (nonce : UInt32) : Except YamuxError Frame :=
  let frame : Frame := ⟨.ping, flags, 0, nonce, []⟩
  match frame.validate with
  | .error e => .error e
  | .ok () => .ok frame

def goAway (code : UInt32) : Frame := ⟨.goAway, 0, 0, code, []⟩

def encode (f : Frame) : List UInt8 :=
  0 :: f.frameType.tag :: (BigEndian.toBytes 2 f.flags.toNat ++
    (BigEndian.toBytes 4 f.streamId.toNat ++ (BigEndian.toBytes 4 f.value.toNat ++ f.payload)))

/-- What every constructor and the decoder establish: only a data frame has a
payload, and its header value is the payload's length. -/
structure Valid (f : Frame) : Prop where
  checked : f.validate = .ok ()
  data_value : f.frameType = .data → f.value.toNat = f.payload.length
  no_payload : f.frameType ≠ .data → f.payload = []

@[simp] theorem length_encode (f : Frame) : f.encode.length = headerLen + f.payload.length := by
  simp only [encode, headerLen, List.length_cons, List.length_append, BigEndian.length_toBytes]
  omega

theorem goAway_valid (code : UInt32) : (goAway code).Valid :=
  ⟨by simp [goAway, validate, validStream], by simp [goAway], by simp [goAway]⟩

variable {f : Frame} {payload : List UInt8}

theorem data_valid (built : data streamId flags payload = .ok f) :
    f.Valid ∧ f.frameType = .data ∧ f.streamId = streamId ∧ f.flags = flags ∧
      f.payload = payload := by
  unfold data at built
  split at built
  · rename_i fits
    dsimp only at built
    split at built
    · cases built
    · rename_i ok
      cases built
      refine ⟨⟨ok, fun _ => ?_, fun h => absurd rfl h⟩, rfl, rfl, rfl, rfl⟩
      exact UInt32.toNat_ofNat_of_lt' fits
  · cases built

theorem windowUpdate_valid {credit : UInt32} (built : windowUpdate streamId flags credit = .ok f) :
    f.Valid ∧ f = ⟨.windowUpdate, flags, streamId, credit, []⟩ := by
  unfold windowUpdate at built
  dsimp only at built
  split at built
  · cases built
  · rename_i ok
    cases built
    exact ⟨⟨ok, nofun, fun _ => rfl⟩, rfl⟩

theorem ping_valid {nonce : UInt32} (built : ping flags nonce = .ok f) :
    f.Valid ∧ f = ⟨.ping, flags, 0, nonce, []⟩ := by
  unfold ping at built
  dsimp only at built
  split at built
  · cases built
  · rename_i ok
    cases built
    exact ⟨⟨ok, nofun, fun _ => rfl⟩, rfl⟩

theorem data_ok (nonzero : streamId ≠ 0)
    (legal : flags &&& ~~~streamFlags = 0) (fits : payload.length < 2 ^ 32) :
    data streamId flags payload =
      .ok ⟨.data, flags, streamId, UInt32.ofNat payload.length, payload⟩ := by
  rw [data, if_pos fits]
  simp [validate, FrameType.allowed, validStream, legal, nonzero]

theorem windowUpdate_ok (credit : UInt32) (nonzero : streamId ≠ 0)
    (legal : flags &&& ~~~streamFlags = 0) :
    windowUpdate streamId flags credit = .ok ⟨.windowUpdate, flags, streamId, credit, []⟩ := by
  simp [windowUpdate, validate, FrameType.allowed, validStream, legal, nonzero]

@[simp] theorem ping_syn_ok (nonce : UInt32) :
    ping flagSyn nonce = .ok ⟨.ping, flagSyn, 0, nonce, []⟩ := by
  have legal : flagSyn &&& ~~~pingFlags = 0 := by decide
  simp [ping, validate, FrameType.allowed, validStream, legal]

@[simp] theorem ping_ack_ok (nonce : UInt32) :
    ping flagAck nonce = .ok ⟨.ping, flagAck, 0, nonce, []⟩ := by
  have legal : flagAck &&& ~~~pingFlags = 0 := by decide
  simp [ping, validate, FrameType.allowed, validStream, legal]

theorem Valid.stream_zero (h : f.Valid) :
    f.streamId = 0 ↔ f.frameType = .ping ∨ f.frameType = .goAway := by
  have checked := h.checked
  unfold validate at checked
  split at checked
  · cases checked
  · split at checked
    · cases checked
    · cases ht : f.frameType <;> simp_all [validStream]

end Frame

end Yamux
