import MiniP2P.Lib.BigEndian
import MiniP2P.Lib.Incremental

/-! The frames of Noise: messages behind a length of two bytes. -/
namespace Noise
open Incremental List BigEndian

inductive NoiseError where
  | frameTooLarge (len : Nat)
  | alreadyStarted
  | invalidInput (reason : String)
  | invalidState (reason : String)
  | unexpectedHandshakeMessage
  | invalidHandshakeMessage (reason : String)
  | invalidPayload (reason : String)
  | invalidIdentityKey
  | invalidIdentitySignature
  | identityMismatch
  | nonContributory
  | encryption
  | decryption
  | nonceExhausted
  | failed
  deriving DecidableEq

namespace NoiseError

def isTerminal : NoiseError → Bool
  | alreadyStarted | invalidInput _ => false
  | _ => true

def toString : NoiseError → String
  | frameTooLarge len => "Noise frame is too large: " ++ Nat.repr len ++ " bytes"
  | alreadyStarted => "Noise session has already been started"
  | invalidInput reason => "invalid Noise input: " ++ reason
  | invalidState reason => "invalid Noise state: " ++ reason
  | unexpectedHandshakeMessage => "unexpected Noise handshake message"
  | invalidHandshakeMessage reason => "invalid Noise handshake message: " ++ reason
  | invalidPayload reason => "invalid libp2p Noise payload: " ++ reason
  | invalidIdentityKey => "invalid identity key in Noise payload"
  | invalidIdentitySignature => "invalid identity signature in Noise payload"
  | identityMismatch => "Noise peer identity does not match the expected peer"
  | nonContributory => "non-contributory X25519 shared secret"
  | encryption => "Noise encryption failed"
  | decryption => "Noise decryption failed"
  | nonceExhausted => "Noise cipher nonce exhausted"
  | failed => "Noise session has failed"

end NoiseError

def maxFrameLen : Nat := 2 ^ 16 - 1

structure FrameDecoder where
  buffer : List UInt8
  offset : Nat
  deriving DecidableEq

namespace FrameDecoder

def new : FrameDecoder := ⟨[], 0⟩

variable (decoder : FrameDecoder)

def push (bytes : List UInt8) : FrameDecoder :=
  { decoder with buffer := decoder.buffer ++ bytes }

def compactIfNeeded : FrameDecoder :=
  if decoder.offset = decoder.buffer.length then ⟨[], 0⟩
  else if decoder.buffer.length / 2 ≤ decoder.offset then ⟨decoder.buffer.drop decoder.offset, 0⟩
  else decoder

/-- Offsets are below the length of the buffer, so their sums do not overflow. -/
def nextFrame : Option (List UInt8 × FrameDecoder) :=
  let remaining := decoder.buffer.drop decoder.offset
  if remaining.length < 2 then none
  else
    let len := ofBytes (remaining.take 2)
    if (remaining.drop 2).length < len then none
    else some ((remaining.drop 2).take len,
      { decoder with offset := decoder.offset + 2 + len }.compactIfNeeded)

/-- What has not been read. -/
def unread : List UInt8 := decoder.buffer.drop decoder.offset

/-- A decoder that has read no more than it holds. -/
def Valid : Prop := decoder.offset ≤ decoder.buffer.length

end FrameDecoder

def encodeFrame (payload : List UInt8) : Except NoiseError (List UInt8) :=
  if payload.length ≤ maxFrameLen then .ok (toBytes 2 payload.length ++ payload)
  else .error (.frameTooLarge payload.length)

/-! ### Frames as a codec -/

def parseFrame (unread : List UInt8) : Except Empty (Option (List UInt8 × List UInt8)) :=
  if unread.length < 2 then .ok none
  else if (unread.drop 2).length < ofBytes (unread.take 2) then .ok none
  else .ok (some ((unread.drop 2).take (ofBytes (unread.take 2)),
    (unread.drop 2).drop (ofBytes (unread.take 2))))

def frame (payload : List UInt8) : List UInt8 := toBytes 2 payload.length ++ payload

variable {payload : List UInt8}

theorem encodeFrame_eq (fits : payload.length ≤ maxFrameLen) :
    encodeFrame payload = .ok (frame payload) := if_pos fits

theorem parseFrame_frame (rest : List UInt8) (fits : payload.length ≤ maxFrameLen) :
    parseFrame (frame payload ++ rest) = .ok (some (payload, rest)) := by
  have header : (toBytes 2 payload.length).length = 2 := length_toBytes ..
  have len : ofBytes (toBytes 2 payload.length) = payload.length :=
    ofBytes_toBytes (Nat.lt_of_le_of_lt fits (by decide))
  have taken : (frame payload ++ rest).take 2 = toBytes 2 payload.length := by
    exact take_left' header
  have dropped : (frame payload ++ rest).drop 2 = payload ++ rest := by
    exact drop_left' header
  have long : ¬ (frame payload ++ rest).length < 2 := by
    rw [frame, append_assoc, length_append]
    omega
  rw [parseFrame, if_neg long, taken, dropped, len, if_neg (by rw [length_append]; omega),
    take_left, drop_left]

theorem frame_of_parseFrame {unread rest : List UInt8}
    (parsed : parseFrame unread = .ok (some (payload, rest))) :
    payload.length ≤ maxFrameLen ∧ unread = frame payload ++ rest := by
  unfold parseFrame at parsed
  split at parsed
  · cases parsed
  · split at parsed
    · cases parsed
    · cases parsed
      have header : (unread.take 2).length = 2 := by
        rw [length_take]
        omega
      have bound := ofBytes_lt (unread.take 2)
      rw [header] at bound
      have size : ((unread.drop 2).take (ofBytes (unread.take 2))).length =
          ofBytes (unread.take 2) := by
        rw [length_take]
        omega
      have back := toBytes_ofBytes (unread.take 2)
      rw [header] at back
      constructor
      · rw [maxFrameLen]
        omega
      · rw [frame, size, back, append_assoc, take_append_drop, take_append_drop]

/-- Every message that fits a frame is found again, and there is no other. -/
def frames : Codec UInt8 Empty (List UInt8) where
  parse := parseFrame
  parse_nil := rfl
  shrinks parsed := by
    obtain ⟨-, rfl⟩ := frame_of_parseFrame parsed
    rw [length_append, frame, length_append, length_toBytes]
    omega
  extend_item more parsed := by
    obtain ⟨fits, rfl⟩ := frame_of_parseFrame parsed
    rw [append_assoc]
    exact parseFrame_frame _ fits
  extend_error {_ e} _ _ := e.elim
  encode := frame
  Legal payload := payload.length ≤ maxFrameLen
  parse_encode rest fits := parseFrame_frame rest fits
  encode_of_parse parsed := frame_of_parseFrame parsed

namespace FrameDecoder

variable {decoder : FrameDecoder}

theorem unread_push (valid : decoder.Valid) (bytes : List UInt8) :
    (decoder.push bytes).unread = decoder.unread ++ bytes ∧ (decoder.push bytes).Valid := by
  refine ⟨drop_append_of_le_length valid, ?_⟩
  change decoder.offset ≤ (decoder.buffer ++ bytes).length
  rw [length_append]
  exact Nat.le_trans valid (Nat.le_add_right ..)

theorem compact_unread (valid : decoder.Valid) :
    decoder.compactIfNeeded.unread = decoder.unread ∧ decoder.compactIfNeeded.Valid := by
  unfold compactIfNeeded
  split
  · rename_i all
    refine ⟨?_, Nat.le_refl _⟩
    rw [unread, unread, all, drop_length]
    rfl
  · split
    · exact ⟨rfl, Nat.zero_le _⟩
    · exact ⟨rfl, valid⟩

theorem parse_of_none (waits : decoder.nextFrame = none) :
    parseFrame decoder.unread = .ok none := by
  simp only [nextFrame] at waits
  rw [parseFrame, unread]
  by_cases short : (decoder.buffer.drop decoder.offset).length < 2
  · rw [if_pos short]
  · rw [if_neg short] at waits ⊢
    split at waits
    · rw [if_pos ‹_›]
    · cases waits

theorem parse_of_some {payload : List UInt8} {decoder' : FrameDecoder}
    (found : decoder.nextFrame = some (payload, decoder')) :
    parseFrame decoder.unread = .ok (some (payload, decoder'.unread)) ∧ decoder'.Valid := by
  simp only [nextFrame] at found
  rw [parseFrame, unread]
  split at found
  · cases found
  · rename_i long
    rw [if_neg long]
    split at found
    · cases found
    · rename_i whole
      rw [if_neg whole]
      generalize size : ofBytes ((decoder.buffer.drop decoder.offset).take 2) = len at *
      have valid : ({ decoder with offset := decoder.offset + 2 + len } : FrameDecoder).Valid := by
        change decoder.offset + 2 + len ≤ decoder.buffer.length
        simp only [length_drop] at long whole
        omega
      obtain ⟨same, valid'⟩ := compact_unread valid
      cases found
      refine ⟨?_, valid'⟩
      rw [same, unread, drop_drop, drop_drop]

end FrameDecoder

end Noise
