import MiniP2P.Lib.Incremental
import MiniP2P.Yamux.Frame

/-! The incremental frame decoder. The program keeps one buffer, the offset of the
first unread byte and compacts in place; `parse` is what that amounts to on the
unread bytes alone. Buffer lengths and offsets fit a `usize` because they index a
vector in memory, so the checked additions on them are plain additions here. -/
namespace Yamux
open Incremental List BigEndian FrameType

def FrameType.payloadLen (frameType : FrameType) (value : UInt32) : Nat :=
  if frameType = .data then value.toNat else 0

/-- One frame off the front of the unread bytes, or nothing yet, or an error. -/
def parse (maxFrameLen : UInt32) : List UInt8 → Except YamuxError (Option (Frame × List UInt8))
  | version :: tag :: f1 :: f0 :: s3 :: s2 :: s1 :: s0 :: v3 :: v2 :: v1 :: v0 :: body =>
    if version ≠ 0 then .error (.unsupportedVersion version)
    else
      match decode tag with
      | .error e => .error e
      | .ok frameType =>
        let flags := UInt16.ofNat (ofBytes [f1, f0])
        let streamId := UInt32.ofNat (ofBytes [s3, s2, s1, s0])
        let value := UInt32.ofNat (ofBytes [v3, v2, v1, v0])
        if frameType = .data ∧ maxFrameLen < value then .error (.frameTooLarge value maxFrameLen)
        else
          let payloadLen := frameType.payloadLen value
          if body.length < payloadLen then .ok none
          else
            let frame : Frame := ⟨frameType, flags, streamId, value, body.take payloadLen⟩
            match frame.validate with
            | .error e => .error e
            | .ok () => .ok (some (frame, body.drop payloadLen))
  | _ => .ok none

variable {m : UInt32} {u rest : List UInt8}

theorem parse_short (short : u.length < headerLen) : parse m u = .ok none := by
  unfold parse
  split
  · simp only [headerLen, length_cons] at short
    omega
  · rfl

theorem header_cases (long : headerLen ≤ u.length) :
    ∃ version tag f1 f0 s3 s2 s1 s0 v3 v2 v1 v0 body,
      u = version :: tag :: f1 :: f0 :: s3 :: s2 :: s1 :: s0 :: v3 :: v2 :: v1 :: v0 :: body := by
  match u, long with
  | version :: tag :: f1 :: f0 :: s3 :: s2 :: s1 :: s0 :: v3 :: v2 :: v1 :: v0 :: body, _ =>
    exact ⟨version, tag, f1, f0, s3, s2, s1, s0, v3, v2, v1, v0, body, rfl⟩

theorem u16_bytes (b1 b0 : UInt8) :
    toBytes 2 (UInt16.ofNat (ofBytes [b1, b0])).toNat = [b1, b0] := by
  have fits : ofBytes [b1, b0] < UInt16.size := by
    simpa [UInt16.size] using ofBytes_lt [b1, b0]
  rw [UInt16.toNat_ofNat_of_lt' fits]
  exact toBytes_ofBytes [b1, b0]

theorem u32_bytes (b3 b2 b1 b0 : UInt8) :
    toBytes 4 (UInt32.ofNat (ofBytes [b3, b2, b1, b0])).toNat =
      [b3, b2, b1, b0] := by
  have fits : ofBytes [b3, b2, b1, b0] < UInt32.size := by
    simpa [UInt32.size] using ofBytes_lt [b3, b2, b1, b0]
  rw [UInt32.toNat_ofNat_of_lt' fits]
  exact toBytes_ofBytes [b3, b2, b1, b0]

variable {f : Frame}

theorem parse_item (found : parse m u = .ok (some (f, rest))) :
    f.Valid ∧ (f.frameType = .data → f.value ≤ m) ∧ u = f.encode ++ rest := by
  unfold parse at found
  split at found
  · rename_i version tag f1 f0 s3 s2 s1 s0 v3 v2 v1 v0 body
    split at found
    · cases found
    · rename_i version_zero
      split at found
      · cases found
      · rename_i frameType decoded
        dsimp only at found
        split at found
        · cases found
        · rename_i small
          split at found
          · cases found
          · rename_i complete
            split at found
            · cases found
            · rename_i checked
              cases found
              have tagged := tag_of_decode decoded
              have flags := u16_bytes f1 f0
              have stream := u32_bytes s3 s2 s1 s0
              have value := u32_bytes v3 v2 v1 v0
              refine ⟨⟨checked, ?_, ?_⟩, ?_, ?_⟩
              · intro isData
                simp only [payloadLen, if_pos isData] at complete ⊢
                rw [length_take]
                omega
              · intro notData
                simp [payloadLen, notData]
              · intro isData
                exact UInt32.not_lt.mp (fun less => small ⟨isData, less⟩)
              · have zero : version = 0 := by simpa using version_zero
                simp only [Frame.encode, flags, stream, value, tagged, zero, cons_append,
                  nil_append, take_append_drop]
  · cases found

theorem parse_encode (m : UInt32) (valid : f.Valid)
    (small : f.frameType = .data → f.value ≤ m) (rest : List UInt8) :
    parse m (f.encode ++ rest) = .ok (some (f, rest)) := by
  obtain ⟨f1, f0, flags⟩ : ∃ a b, toBytes 2 f.flags.toNat = [a, b] := ⟨_, _, rfl⟩
  obtain ⟨s3, s2, s1, s0, stream⟩ :
      ∃ a b c d, toBytes 4 f.streamId.toNat = [a, b, c, d] := ⟨_, _, _, _, rfl⟩
  obtain ⟨v3, v2, v1, v0, value⟩ :
      ∃ a b c d, toBytes 4 f.value.toNat = [a, b, c, d] := ⟨_, _, _, _, rfl⟩
  have flagsBack : UInt16.ofNat (ofBytes [f1, f0]) = f.flags := by
    rw [← flags, ofBytes_toBytes f.flags.toNat_lt, UInt16.ofNat_toNat]
  have streamBack : UInt32.ofNat (ofBytes [s3, s2, s1, s0]) = f.streamId := by
    rw [← stream, ofBytes_toBytes f.streamId.toNat_lt, UInt32.ofNat_toNat]
  have valueBack : UInt32.ofNat (ofBytes [v3, v2, v1, v0]) = f.value := by
    rw [← value, ofBytes_toBytes f.value.toNat_lt, UInt32.ofNat_toNat]
  have payload : f.frameType.payloadLen f.value = f.payload.length := by
    unfold payloadLen
    split
    · rename_i isData
      exact valid.data_value isData
    · rename_i notData
      rw [valid.no_payload notData]
      rfl
  have notLarge : ¬ (f.frameType = .data ∧ m < f.value) :=
    fun h => UInt32.not_lt.mpr (small h.1) h.2
  have enough : ¬ (f.payload ++ rest).length < f.payload.length := by simp
  simp only [Frame.encode, flags, stream, value, cons_append, nil_append, parse,
    ne_eq, not_true_eq_false, if_false, decode_tag, flagsBack, streamBack, valueBack,
    if_neg notLarge, payload, if_neg enough, take_left, drop_left, valid.checked]

theorem parse_shrinks (found : parse m u = .ok (some (f, rest))) : rest.length < u.length := by
  have consumed := congrArg List.length (parse_item found).2.2
  simp only [length_append, Frame.length_encode, headerLen] at consumed
  omega

theorem parse_extend_item (more : List UInt8) (found : parse m u = .ok (some (f, rest))) :
    parse m (u ++ more) = .ok (some (f, rest ++ more)) := by
  obtain ⟨valid, small, rfl⟩ := parse_item found
  rw [append_assoc]
  exact parse_encode m valid small (rest ++ more)

theorem parse_extend_error {e : YamuxError} (more : List UInt8) (failed : parse m u = .error e) :
    parse m (u ++ more) = .error e := by
  unfold parse at failed
  split at failed
  · rename_i version tag f1 f0 s3 s2 s1 s0 v3 v2 v1 v0 body
    simp only [cons_append, parse]
    split at failed
    · rename_i bad
      rw [if_pos bad]
      exact failed
    · rename_i good
      rw [if_neg good]
      split at failed
      · exact failed
      · rename_i frameType decoded
        dsimp only at failed ⊢
        split at failed
        · rename_i large
          rw [if_pos large]
          exact failed
        · rename_i small
          rw [if_neg small]
          split at failed
          · cases failed
          · have longer : ¬ (body ++ more).length <
                frameType.payloadLen (UInt32.ofNat (ofBytes [v3, v2, v1, v0])) := by
              rw [length_append]
              omega
            rw [if_neg longer, take_append_of_le_length (by omega)]
            split at failed
            · exact failed
            · cases failed
  · cases failed

def codec (m : UInt32) : Codec UInt8 YamuxError Frame where
  parse := parse m
  parse_nil := rfl
  shrinks := parse_shrinks
  extend_item := parse_extend_item
  extend_error := parse_extend_error
  encode := Frame.encode
  Legal := fun f => f.Valid ∧ (f.frameType = .data → f.value ≤ m)
  parse_encode := fun rest legal => parse_encode m legal.1 legal.2 rest
  encode_of_parse := fun found => ⟨⟨(parse_item found).1, (parse_item found).2.1⟩,
    (parse_item found).2.2⟩

structure FrameDecoder where
  buffer : List UInt8
  offset : Nat
  maxFrameLen : UInt32
  deriving DecidableEq

namespace FrameDecoder

def new (maxFrameLen : UInt32) : FrameDecoder := ⟨[], 0, maxFrameLen⟩

variable (d : FrameDecoder)

def push (bytes : List UInt8) : FrameDecoder :=
  { d with buffer := d.buffer ++ bytes }

def clear : FrameDecoder := { d with buffer := [], offset := 0 }

def compactIfNeeded : FrameDecoder :=
  if d.offset = d.buffer.length then d.clear
  else if d.buffer.length / 2 ≤ d.offset then
    { d with buffer := d.buffer.drop d.offset, offset := 0 }
  else d

/-- The slices are taken from the whole buffer at the current offset, in the
order of the program's checks. -/
def nextFrame : Except YamuxError (Option Frame) × FrameDecoder :=
  if d.buffer.length < d.offset then (.error .frameLengthOverflow, d)
  else
    let available := d.buffer.length - d.offset
    if available < headerLen then (.ok none, d)
    else
      let headerEnd := d.offset + headerLen
      match (d.buffer.drop d.offset).take headerLen with
      | [version, tag, f1, f0, s3, s2, s1, s0, v3, v2, v1, v0] =>
        if version ≠ 0 then (.error (.unsupportedVersion version), d)
        else
          match decode tag with
          | .error e => (.error e, d)
          | .ok frameType =>
            let flags := UInt16.ofNat (ofBytes [f1, f0])
            let streamId := UInt32.ofNat (ofBytes [s3, s2, s1, s0])
            let value := UInt32.ofNat (ofBytes [v3, v2, v1, v0])
            if frameType = .data ∧ d.maxFrameLen < value then
              (.error (.frameTooLarge value d.maxFrameLen), d)
            else
              let payloadLen := frameType.payloadLen value
              let frameLen := headerLen + payloadLen
              if available < frameLen then (.ok none, d)
              else
                let payload := (d.buffer.drop headerEnd).take payloadLen
                let frame : Frame := ⟨frameType, flags, streamId, value, payload⟩
                match frame.validate with
                | .error e => (.error e, d)
                | .ok () =>
                  (.ok (some frame), { d with offset := d.offset + frameLen }.compactIfNeeded)
      | _ => (.error .frameLengthOverflow, d)

/-- The bytes the decoder has not consumed. -/
def unread : List UInt8 := d.buffer.drop d.offset

/-- The offset stays inside the buffer, so the subtraction of lengths is exact. -/
def InBounds : Prop := d.offset ≤ d.buffer.length

@[simp] theorem unread_new (m : UInt32) : (new m).unread = [] := rfl
@[simp] theorem maxFrameLen_push (bytes : List UInt8) :
    (d.push bytes).maxFrameLen = d.maxFrameLen := rfl
theorem inBounds_new (m : UInt32) : (new m).InBounds := Nat.le_refl 0
theorem inBounds_clear : d.clear.InBounds := Nat.le_refl 0

theorem inBounds_push {d : FrameDecoder} (h : d.InBounds) (bytes : List UInt8) :
    (d.push bytes).InBounds := by
  simp only [InBounds, push, length_append] at h ⊢
  omega

theorem unread_push {d : FrameDecoder} (h : d.InBounds) (bytes : List UInt8) :
    (d.push bytes).unread = d.unread ++ bytes := by
  simp [unread, push, drop_append_of_le_length h]

theorem compactIfNeeded_view (h : d.InBounds) :
    d.compactIfNeeded.unread = d.unread ∧ d.compactIfNeeded.InBounds ∧
      d.compactIfNeeded.maxFrameLen = d.maxFrameLen := by
  unfold compactIfNeeded
  split
  · rename_i full
    refine ⟨?_, inBounds_clear d, rfl⟩
    simp [unread, clear, full]
  · split
    · exact ⟨by simp [unread], Nat.zero_le _, rfl⟩
    · exact ⟨rfl, h, rfl⟩

/-- The program's buffer arithmetic computes `parse` on the unread bytes. -/
theorem nextFrame_view (h : d.InBounds) : match parse d.maxFrameLen d.unread with
    | .error e => d.nextFrame = (.error e, d)
    | .ok none => d.nextFrame = (.ok none, d)
    | .ok (some (f, rest)) => ∃ d', d.nextFrame = (.ok (some f), d') ∧ d'.unread = rest ∧
        d'.InBounds ∧ d'.maxFrameLen = d.maxFrameLen := by
  have available : d.buffer.length - d.offset = d.unread.length := by simp [unread]
  have exact' : ¬ d.buffer.length < d.offset := Nat.not_lt.mpr h
  by_cases short : d.unread.length < headerLen
  · rw [parse_short short]
    simp only [nextFrame, if_neg exact', available, if_pos short]
  · obtain ⟨version, tag, f1, f0, s3, s2, s1, s0, v3, v2, v1, v0, body, hu⟩ :=
      header_cases (Nat.le_of_not_lt short)
    have header : (d.buffer.drop d.offset).take headerLen =
        [version, tag, f1, f0, s3, s2, s1, s0, v3, v2, v1, v0] := by
      have hu' : d.buffer.drop d.offset = _ := hu
      rw [hu']
      rfl
    have bodyEq : d.buffer.drop (d.offset + headerLen) = body := by
      rw [← drop_drop]
      have hu' : d.buffer.drop d.offset = _ := hu
      rw [hu']
      rfl
    have len : d.unread.length = headerLen + body.length := by
      rw [hu]
      simp only [length_cons, headerLen]
      omega
    have ready : ¬ headerLen + body.length < headerLen := by omega
    simp only [nextFrame, if_neg exact', available.trans len, if_neg ready, header, bodyEq]
    simp only [hu, parse]
    by_cases version_zero : version ≠ 0
    · simp only [if_pos version_zero]
    simp only [if_neg version_zero]
    cases decoded : decode tag with
    | error e => rfl
    | ok frameType =>
      generalize UInt32.ofNat (ofBytes [v3, v2, v1, v0]) = value
      by_cases large : frameType = .data ∧ d.maxFrameLen < value
      · simp only [if_pos large]
      simp only [if_neg large]
      by_cases incomplete : body.length < frameType.payloadLen value
      · have wait : headerLen + body.length < headerLen + frameType.payloadLen value := by omega
        simp only [if_pos incomplete, if_pos wait]
      · have go : ¬ headerLen + body.length < headerLen + frameType.payloadLen value := by omega
        simp only [if_neg incomplete, if_neg go]
        generalize hf : (⟨frameType, _, _, value, _⟩ : Frame) = frame
        cases checked : frame.validate with
        | error e => rfl
        | ok _ =>
          have inside : FrameDecoder.InBounds
              { d with offset := d.offset + (headerLen + frameType.payloadLen value) } := by
            simp only [InBounds] at h ⊢
            omega
          obtain ⟨view, bounds, limit⟩ := compactIfNeeded_view _ inside
          refine ⟨_, rfl, ?_, bounds, limit⟩
          rw [view]
          simp only [unread, ← Nat.add_assoc]
          rw [← drop_drop, bodyEq]

def answers : FrameDecoder → List (Call UInt8) →
    List (Except YamuxError (Option Frame)) × FrameDecoder
  | d, [] => ([], d)
  | d, .push bytes :: calls => (d.push bytes).answers calls
  | d, .next :: calls =>
    let r := d.nextFrame
    let t := r.2.answers calls
    (r.1 :: t.1, t.2)

theorem answers_view (calls : List (Call UInt8)) (d : FrameDecoder) (h : d.InBounds) :
    (d.answers calls).1 = ((codec d.maxFrameLen).answers d.unread calls).1 ∧
      (d.answers calls).2.unread = ((codec d.maxFrameLen).answers d.unread calls).2 := by
  induction calls generalizing d with
  | nil => exact ⟨rfl, rfl⟩
  | cons call calls ih =>
    cases call with
    | push bytes =>
      have tail := ih (d.push bytes) (inBounds_push h bytes)
      rw [unread_push h] at tail
      exact tail
    | next =>
      have view := nextFrame_view d h
      have parsed : (codec d.maxFrameLen).parse d.unread = parse d.maxFrameLen d.unread := rfl
      simp only [answers, Parser.answers, parsed]
      split at view
      · rename_i e failed
        have tail := ih d h
        simp [view, failed, tail]
      · rename_i waits
        have tail := ih d h
        simp [view, waits, tail]
      · rename_i f rest found
        obtain ⟨d', next, unread, bounds, limit⟩ := view
        have tail := ih d' bounds
        rw [limit, unread] at tail
        simp [next, found, tail]

end FrameDecoder

end Yamux
