import MiniP2P.Core.Framing
import MiniP2P.Core.Utf8
import MiniP2P.Lib.Incremental

/-! The messages of multistream-select: lines of text, each behind its length. -/
namespace Multistream
open Framing Incremental List Utf8

def multistreamProtocolId : String := "/multistream/1.0.0"
def notAvailable : String := "na"
def maxMessageLen : Nat := 1024

inductive MultistreamError where
  | messageTooLong (len : Nat)
  | invalidVarint (e : VarintError)
  | nonUtf8
  | missingNewline
  | emptyProtocol
  | unexpectedHeader (actual : String)
  | unexpectedProtocolResponse (actual : String)
  deriving DecidableEq

def MultistreamError.toString : MultistreamError → String
  | .messageTooLong len =>
    "message exceeds maximum length (" ++ Nat.repr len ++ " > " ++ Nat.repr maxMessageLen ++ ")"
  | .invalidVarint e => "invalid varint in message frame: " ++ e.toString
  | .nonUtf8 => "non-utf8 message payload"
  | .missingNewline => "message missing trailing newline"
  | .emptyProtocol => "empty protocol line"
  | .unexpectedHeader actual => "unexpected multistream header: " ++ actual
  | .unexpectedProtocolResponse actual => "unexpected protocol response: " ++ actual

def newline : UInt8 := 0x0a

def encodeMessage (protocol : String) : List UInt8 :=
  writeUvarint ((encode protocol).length + 1) ++ encode protocol ++ [newline]

inductive DecodeResult where
  | complete (payload : String) (consumed : Nat)
  | incomplete
  | error (e : MultistreamError)
  deriving DecidableEq

/-- What is between the length and the next message: a line that is text and not empty. -/
def decodeLine (msgBytes : List UInt8) : Except MultistreamError String :=
  if msgBytes.getLast? ≠ some newline then .error .missingNewline
  else
    match decode msgBytes.dropLast with
    | none => .error .nonUtf8
    | some payload => if payload = "" then .error .emptyProtocol else .ok payload

/-- A length of 64 bits fits a `usize`. -/
def decodeMessage (buf : List UInt8) : DecodeResult :=
  if buf = [] then .incomplete
  else
    match readUvarint buf with
    | .error .bufferTooShort => .incomplete
    | .error e => .error (.invalidVarint e)
    | .ok (msgLen, varintBytes) =>
      if maxMessageLen < msgLen then .error (.messageTooLong msgLen)
      else if buf.length < varintBytes + msgLen then .incomplete
      else
        match decodeLine ((buf.drop varintBytes).take msgLen) with
        | .error e => .error e
        | .ok payload => .complete payload (varintBytes + msgLen)

/-! ### Lines -/

def Legal (protocol : String) : Prop :=
  protocol ≠ "" ∧ (encode protocol).length < maxMessageLen

instance (protocol : String) : Decidable (Legal protocol) :=
  inferInstanceAs (Decidable (_ ∧ _))

theorem decodeLine_line {protocol : String} (nonempty : protocol ≠ "") :
    decodeLine (encode protocol ++ [newline]) = .ok protocol := by
  simp [decodeLine, nonempty]

variable {buf : List UInt8} {payload : String}

theorem line_of_decodeLine {msgBytes : List UInt8} (decoded : decodeLine msgBytes = .ok payload) :
    payload ≠ "" ∧ msgBytes = encode payload ++ [newline] := by
  unfold decodeLine at decoded
  split at decoded
  · cases decoded
  · rename_i ends
    split at decoded
    · cases decoded
    · rename_i text utf8
      split at decoded
      · cases decoded
      · rename_i present
        cases decoded
        have last : msgBytes.getLast? = .some newline := by simpa using ends
        obtain ⟨line, rfl⟩ := List.getLast?_eq_some_iff.mp last
        rw [dropLast_concat] at utf8
        exact ⟨present, by rw [encode_of_decode utf8]⟩

/-! ### Messages -/

def parse (buf : List UInt8) : Except MultistreamError (Option (String × List UInt8)) :=
  match decodeMessage buf with
  | .complete payload consumed => .ok (some (payload, buf.drop consumed))
  | .incomplete => .ok none
  | .error e => .error e

theorem parse_encodeMessage {protocol : String} (rest : List UInt8) (legal : Legal protocol) :
    parse (encodeMessage protocol ++ rest) = .ok (some (protocol, rest)) := by
  obtain ⟨present, short⟩ := legal
  have size : (encode protocol).length + 1 < 2 ^ 64 := by
    unfold maxMessageLen at short
    omega
  have read := readUvarint_write size (encode protocol ++ [newline] ++ rest)
  have whole : encodeMessage protocol ++ rest =
      writeUvarint ((encode protocol).length + 1) ++
        (encode protocol ++ [newline] ++ rest) := by
    simp [encodeMessage]
  have line : (encode protocol ++ [newline] ++ rest).take ((encode protocol).length + 1) =
      encode protocol ++ [newline] := take_left' (by simp)
  have nonempty : writeUvarint ((encode protocol).length + 1) ++
      (encode protocol ++ [newline] ++ rest) ≠ [] := by simp
  rw [parse, whole, decodeMessage, if_neg nonempty, read]
  dsimp only
  rw [if_neg (by omega), if_neg (by simp), drop_left, line, decodeLine_line present]
  dsimp only
  rw [← drop_drop, drop_left, drop_left' (by simp)]

theorem encodeMessage_of_parse {rest : List UInt8}
    (parsed : parse buf = .ok (some (payload, rest))) :
    Legal payload ∧ buf = encodeMessage payload ++ rest := by
  unfold parse decodeMessage at parsed
  split at parsed
  · rename_i payload' consumed found
    cases parsed
    split at found
    · cases found
    · split at found
      · cases found
      · cases found
      · rename_i msgLen varintBytes read
        split at found
        · cases found
        · split at found
          · cases found
          · rename_i long
            split at found
            · cases found
            · rename_i line decoded
              cases found
              obtain ⟨-, used, tail, rfl⟩ := write_of_readUvarint read
              obtain ⟨present, msg⟩ := line_of_decodeLine decoded
              subst used
              rw [drop_left] at msg
              have size := congrArg List.length msg
              simp only [length_append, length_take, length_singleton] at size long
              have len : msgLen = (encode payload).length + 1 := by omega
              subst len
              refine ⟨⟨present, by omega⟩, ?_⟩
              rw [← drop_drop, drop_left, encodeMessage, append_assoc, append_assoc,
                ← append_assoc (encode payload), ← msg, take_append_drop]
  · cases parsed
  · cases parsed

theorem decodeMessage_append (more : List UInt8) (final : decodeMessage buf ≠ .incomplete) :
    decodeMessage (buf ++ more) = decodeMessage buf := by
  unfold decodeMessage at final ⊢
  split at final
  · exact absurd rfl final
  · rename_i present
    rw [if_neg (by simp [present]), if_neg present]
    split at final
    · exact absurd rfl final
    · rename_i e last read
      rw [readUvarint_error more read last]
      cases e with
      | bufferTooShort => exact absurd rfl last
      | overflow => rfl
      | nonCanonical => rfl
    · rename_i msgLen varintBytes read
      rw [readUvarint_append more read]
      dsimp only
      split at final
      · rename_i large
        rw [if_pos large, if_pos large]
      · rename_i small
        rw [if_neg small, if_neg small]
        split at final
        · exact absurd rfl final
        · rename_i long
          rw [if_neg (by rw [length_append]; omega), if_neg long,
            drop_append_of_le_length (by omega),
            take_append_of_le_length (by rw [length_drop]; omega)]

theorem parse_append_item {rest : List UInt8} (more : List UInt8)
    (parsed : parse buf = .ok (some (payload, rest))) :
    parse (buf ++ more) = .ok (some (payload, rest ++ more)) := by
  obtain ⟨legal, rfl⟩ := encodeMessage_of_parse parsed
  rw [append_assoc]
  exact parse_encodeMessage (rest ++ more) legal

theorem parse_append_error {e : MultistreamError} (more : List UInt8)
    (parsed : parse buf = .error e) : parse (buf ++ more) = .error e := by
  unfold parse at parsed ⊢
  split at parsed
  · cases parsed
  · cases parsed
  · rename_i e' found
    cases parsed
    rw [decodeMessage_append more (by simp [found]), found]

/-- The messages as a codec: only legal lines are found, in the form they are sent. -/
def codec : Codec UInt8 MultistreamError String where
  parse := parse
  parse_nil := rfl
  shrinks parsed := by
    obtain ⟨-, rfl⟩ := encodeMessage_of_parse parsed
    rw [length_append, encodeMessage, length_append]
    simp
  extend_item more parsed := parse_append_item more parsed
  extend_error more parsed := parse_append_error more parsed
  encode := encodeMessage
  Legal := Legal
  parse_encode rest legal := parse_encodeMessage rest legal
  encode_of_parse parsed := encodeMessage_of_parse parsed

end Multistream
