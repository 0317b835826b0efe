import MiniP2P.Core.Framing

/-! What `decode_frame` decides about the bytes read so far. A frame is complete exactly where an
encoded one stands, no verdict but `Incomplete` is ever revised, and no result of the reader's
arithmetic leaves its machine type. -/
namespace Framing
open List

variable {input : List UInt8} {maxLen : Nat}

theorem readUvarintLoop_finish {idx value : Nat} (below : value < 2 ^ (7 * idx)) (short : idx < 10)
    (read : readUvarintLoop idx value input = .error .bufferTooShort) :
    ∃ n, readUvarintLoop idx value (input ++ [1]) = .ok (n, []) := by
  induction input generalizing idx value with
  | nil =>
    have wide : 2 ^ (7 * idx) ≤ 2 ^ 63 := Nat.pow_le_pow_right (by decide) (by omega)
    obtain ⟨fuel, turns⟩ : ∃ fuel, idx + (fuel + 1) = 10 := ⟨9 - idx, by omega⟩
    exact ⟨_, readUvarintLoop_write [] below (n := 1) (by omega) turns (.inr (by decide))⟩
  | cons byte bytes ih =>
    simp only [readUvarintLoop, cons_append] at read ⊢
    rw [if_neg (by omega)] at read ⊢
    split at read
    · cases read
    · rename_i bits
      rw [if_neg bits]
      split at read
      · split at read <;> cases read
      · rename_i more
        rw [if_neg more]
        have early : idx < 9 := by
          have : idx ≠ 9 := fun last => bits ⟨last, .inl more⟩
          omega
        exact ih (addBits_lt below bits short).2 (by omega) read

theorem unfinished (read : readUvarint input = .error .bufferTooShort) :
    ∃ n < 2 ^ 64, input ++ [1] = writeUvarint n := by
  unfold readUvarint at read
  split at read
  · rename_i e found
    cases read
    obtain ⟨n, finished⟩ := readUvarintLoop_finish (by simp) (by decide) found
    obtain ⟨fits, wrote⟩ := write_of_readUvarintWithRemainder finished
    exact ⟨n, fits, by simpa using wrote⟩
  · cases read

theorem decodeFrame_write {n : Nat} (fits : n < 2 ^ 64) (rest : List UInt8) (maxLen : Nat) :
    decodeFrame (writeUvarint n ++ rest) maxLen =
      if maxLen < n then .tooLarge n
      else if n ≤ rest.length then .complete (rest.take n) ((writeUvarint n).length + n)
      else .incomplete := by
  have nonempty : writeUvarint n ++ rest ≠ [] := by
    intro nothing
    have read := readUvarint_write fits rest
    rw [nothing] at read
    cases read
  rw [decodeFrame, if_neg nonempty, readUvarint_write fits]
  simp

theorem header_cases (input : List UInt8) : (∃ n < 2 ^ 64, ∃ rest, input = writeUvarint n ++ rest) ∨
      ((∃ n < 2 ^ 64, input ++ [1] = writeUvarint n) ∧
        ∀ maxLen, decodeFrame input maxLen = .incomplete) ∨
      ∃ e, (∀ maxLen, decodeFrame input maxLen = .error e) ∧
        ∀ more maxLen, decodeFrame (input ++ more) maxLen = .error e := by
  cases read : readUvarint input with
  | ok found =>
    obtain ⟨fits, -, rest, whole⟩ := write_of_readUvarint read
    exact .inl ⟨_, fits, rest, whole⟩
  | error e =>
    by_cases short : e = .bufferTooShort
    · subst short
      refine .inr (.inl ⟨unfinished read, fun maxLen => ?_⟩)
      rw [decodeFrame, read]
      split <;> rfl
    · have wrong more maxLen : decodeFrame (input ++ more) maxLen = .error e := by
        have nonempty : input ++ more ≠ [] := by
          rintro nothing
          rw [(append_eq_nil_iff.mp nothing).1] at read
          cases read
          exact short rfl
        rw [decodeFrame, if_neg nonempty, readUvarint_error more read short]
        cases e with
        | bufferTooShort => exact absurd rfl short
        | overflow | nonCanonical => rfl
      exact .inr (.inr ⟨e, fun maxLen => by simpa using wrong [] maxLen, wrong⟩)

variable {payload : List UInt8}

theorem decodeFrame_complete_iff {consumed : Nat} (limit : maxLen < 2 ^ 64) :
    decodeFrame input maxLen = .complete payload consumed ↔
      encodeFrame payload <+: input ∧ payload.length ≤ maxLen ∧
        consumed = (encodeFrame payload).length := by
  constructor
  · intro found
    obtain ⟨n, fits, rest, rfl⟩ | ⟨-, waiting⟩ | ⟨e, wrong, -⟩ := header_cases input
    · rw [decodeFrame_write fits] at found
      split at found
      · cases found
      · split at found
        · rename_i within whole
          cases found
          have size : (rest.take n).length = n := length_take_of_le whole
          refine ⟨?_, by omega, by rw [encodeFrame, length_append, size]⟩
          rw [encodeFrame, size, prefix_append_right_inj]
          exact take_prefix n rest
        · cases found
    · rw [waiting] at found
      cases found
    · rw [wrong] at found
      cases found
  · rintro ⟨⟨more, rfl⟩, within, rfl⟩
    rw [encodeFrame, append_assoc, decodeFrame_write (by omega), if_neg (by omega)]
    simp

theorem decodeFrame_append (more : List UInt8) (decided : decodeFrame input maxLen ≠ .incomplete) :
    decodeFrame (input ++ more) maxLen = decodeFrame input maxLen := by
  obtain ⟨n, fits, rest, rfl⟩ | ⟨-, waiting⟩ | ⟨e, wrong, later⟩ := header_cases input
  · rw [decodeFrame_write fits] at decided ⊢
    rw [append_assoc, decodeFrame_write fits]
    split
    · rfl
    · rename_i within
      rw [if_neg within] at decided
      split at decided
      · rename_i whole
        rw [if_pos (by rw [length_append]; omega), if_pos whole,
          take_append_of_le_length whole]
      · exact absurd rfl decided
  · exact absurd (waiting maxLen) decided
  · rw [later, wrong]

theorem decodeFrame_tooLarge_iff {len : Nat} : decodeFrame input maxLen = .tooLarge len ↔
      len < 2 ^ 64 ∧ writeUvarint len <+: input ∧ maxLen < len := by
  constructor
  · intro found
    obtain ⟨n, fits, rest, rfl⟩ | ⟨-, waiting⟩ | ⟨e, wrong, -⟩ := header_cases input
    · rw [decodeFrame_write fits] at found
      split at found
      · rename_i large
        cases found
        exact ⟨fits, prefix_append .., large⟩
      · split at found <;> cases found
    · rw [waiting] at found
      cases found
    · rw [wrong] at found
      cases found
  · rintro ⟨fits, ⟨rest, rfl⟩, large⟩
    rw [decodeFrame_write fits, if_pos large]

theorem decodeFrame_error_iff : (∃ e, decodeFrame input maxLen = .error e) ↔
      ∀ n < 2 ^ 64, ∀ more, ¬ writeUvarint n <+: input ++ more := by
  constructor
  · rintro ⟨e, found⟩ n fits more ⟨rest, whole⟩
    have again := decodeFrame_append more (by rw [found]; nofun)
    rw [← whole, decodeFrame_write fits, found] at again
    split at again
    · cases again
    · split at again <;> cases again
  · intro never
    obtain ⟨n, fits, rest, rfl⟩ | ⟨⟨n, fits, ends⟩, -⟩ | ⟨e, wrong, -⟩ := header_cases input
    · exact absurd ⟨rest, by simp⟩ (never n fits [])
    · exact absurd ⟨[], by rw [append_nil, ends]⟩ (never n fits [1])
    · exact ⟨e, wrong maxLen⟩

theorem decodeFrame_incomplete (waiting : decodeFrame input maxLen = .incomplete) :
    (∃ n < 2 ^ 64, input <+: writeUvarint n ∧ input ≠ writeUvarint n) ∨
      ∃ payload, payload.length ≤ maxLen ∧ input <+: encodeFrame payload := by
  obtain ⟨n, fits, rest, rfl⟩ | ⟨⟨n, fits, ends⟩, -⟩ | ⟨e, wrong, -⟩ := header_cases input
  · rw [decodeFrame_write fits] at waiting
    split at waiting
    · cases waiting
    · split at waiting
      · cases waiting
      · refine .inr ⟨rest ++ List.replicate (n - rest.length) 0, ?_, ?_⟩
        · rw [length_append, length_replicate]
          omega
        · have size : (rest ++ List.replicate (n - rest.length) (0 : UInt8)).length = n := by
            rw [length_append, length_replicate]
            omega
          rw [encodeFrame, size, prefix_append_right_inj]
          exact prefix_append ..
  · refine .inl ⟨n, fits, ⟨[1], ends⟩, ?_⟩
    intro same
    rw [same] at ends
    simp at ends
  · rw [wrong] at waiting
    cases waiting

theorem existsUnique_readUvarint {n : Nat} (fits : n < 2 ^ 64) :
    ∃ bytes, readUvarint bytes = .ok (n, bytes.length) ∧
      ∀ bytes', readUvarint bytes' = .ok (n, bytes'.length) → bytes' = bytes := by
  refine ⟨writeUvarint n, by simpa using readUvarint_write fits [], ?_⟩
  intro bytes' read
  obtain ⟨-, whole, rest, rfl⟩ := write_of_readUvarint read
  rw [length_append] at whole
  rw [eq_nil_of_length_eq_zero (l := rest) (by omega), append_nil]

/-! ### Arithmetic

The same functions with every sum, difference and shift held against its machine type. Nothing
is returned where one of them leaves it. -/

def readUvarintLoopChecked (idx shift value : Nat) :
    List UInt8 → Option (Except VarintError (Nat × List UInt8))
  | [] => some (.error .bufferTooShort)
  | byte :: bytes =>
    if 10 ≤ idx then some (.error .overflow)
    else if idx = 9 ∧ (byte &&& 0x80 ≠ 0 ∨ 1 < byte) then some (.error .overflow)
    else
      let low := (byte &&& 0x7f).toNat
      if 64 ≤ shift ∨ 2 ^ 64 ≤ low <<< shift then none
      else
        let value := value ||| low <<< shift
        if 2 ^ 64 ≤ idx + 1 then none
        else if byte &&& 0x80 = 0 then
          if idx + 1 ≠ uvarintLen value then some (.error .nonCanonical)
          else some (.ok (value, bytes))
        else if 2 ^ 32 ≤ shift + 7 then none
        else readUvarintLoopChecked (idx + 1) (shift + 7) value bytes

/-- The sum of a header and its payload is the one the source itself checks. -/
def decodeFrameChecked (input : List UInt8) (maxLen : Nat) : Option FrameDecode :=
  if input = [] then some .incomplete
  else
    match readUvarintLoopChecked 0 0 0 input with
    | none => none
    | some (.error .bufferTooShort) => some .incomplete
    | some (.error e) => some (.error e)
    | some (.ok (length, remaining)) =>
      if input.length < remaining.length then none
      else
        let used := input.length - remaining.length
        if maxLen < length then some (.tooLarge length)
        else if 2 ^ 64 ≤ used + length then some .incomplete
        else if used + length ≤ input.length then
          some (.complete ((input.drop used).take length) (used + length))
        else some .incomplete

def encodeFrameChecked (payload : List UInt8) : Option (List UInt8) :=
  if 2 ^ 64 ≤ uvarintLen payload.length + payload.length then none else some (encodeFrame payload)

theorem readUvarintLoopChecked_eq {idx value : Nat} (input : List UInt8) (short : idx ≤ 10) :
    readUvarintLoopChecked idx (7 * idx) value input = some (readUvarintLoop idx value input) := by
  induction input generalizing idx value with
  | nil => rfl
  | cons byte bytes ih =>
    simp only [readUvarintLoopChecked, readUvarintLoop]
    split
    · rfl
    · split
      · rfl
      · rename_i bits
        have small := (@addBits_lt idx 0 byte (Nat.two_pow_pos _) bits (by omega)).1
        rw [Nat.zero_or] at small
        rw [if_neg (by omega), if_neg (by omega)]
        split
        · split <;> rfl
        · rw [if_neg (by omega)]
          exact ih (by omega)

theorem decodeFrameChecked_eq (maxLen : Nat) (slice : input.length < 2 ^ 64) :
    decodeFrameChecked input maxLen = some (decodeFrame input maxLen) := by
  have read : readUvarintLoopChecked 0 0 0 input = some (readUvarintWithRemainder input) :=
    readUvarintLoopChecked_eq input (by decide)
  rw [decodeFrameChecked, decodeFrame, read, readUvarint]
  split
  · rfl
  · cases found : readUvarintWithRemainder input with
    | error e => cases e <;> rfl
    | ok value =>
      obtain ⟨-, whole⟩ := write_of_readUvarintWithRemainder found
      have shorter := congrArg List.length whole
      rw [length_append] at shorter
      dsimp only
      rw [if_neg (by omega)]
      split
      · rfl
      · split
        · rw [if_neg (by omega)]
        · split <;> rfl

theorem encodeFrameChecked_eq (slice : payload.length < 2 ^ 63) :
    encodeFrameChecked payload = some (encodeFrame payload) := by
  have short : uvarintLen payload.length ≤ 10 :=
    uvarintLenLoop_le (Nat.lt_trans slice (by decide)) (by decide)
  rw [encodeFrameChecked, if_neg (by omega)]

/-- What holds of the frames in any slice, for every limit. -/
theorem framing_exact (maxLen : UInt64) (input : List UInt8) (slice : input.length < 2 ^ 63) :
    (∀ payload consumed, decodeFrame input maxLen.toNat = .complete payload consumed ↔
      encodeFrame payload <+: input ∧ payload.length ≤ maxLen.toNat ∧
        consumed = (encodeFrame payload).length) ∧
    (∀ more, decodeFrame input maxLen.toNat ≠ .incomplete →
      decodeFrame (input ++ more) maxLen.toNat = decodeFrame input maxLen.toNat) ∧
    (∀ len, decodeFrame input maxLen.toNat = .tooLarge len ↔
      len < 2 ^ 64 ∧ writeUvarint len <+: input ∧ maxLen.toNat < len) ∧
    ((∃ e, decodeFrame input maxLen.toNat = .error e) ↔
      ∀ n < 2 ^ 64, ∀ more, ¬ writeUvarint n <+: input ++ more) ∧
    (decodeFrame input maxLen.toNat = .incomplete →
      (∃ n < 2 ^ 64, input <+: writeUvarint n ∧ input ≠ writeUvarint n) ∨
        ∃ payload, payload.length ≤ maxLen.toNat ∧ input <+: encodeFrame payload) ∧
    (∀ n : UInt64, ∃ bytes, readUvarint bytes = .ok (n.toNat, bytes.length) ∧
      ∀ bytes', readUvarint bytes' = .ok (n.toNat, bytes'.length) → bytes' = bytes) ∧
    decodeFrameChecked input maxLen.toNat = some (decodeFrame input maxLen.toNat) ∧
    encodeFrameChecked input = some (encodeFrame input) :=
  ⟨fun _ _ => decodeFrame_complete_iff maxLen.toNat_lt, fun more => decodeFrame_append more,
    fun _ => decodeFrame_tooLarge_iff, decodeFrame_error_iff, decodeFrame_incomplete,
    fun n => existsUnique_readUvarint n.toNat_lt,
    decodeFrameChecked_eq maxLen.toNat (by omega), encodeFrameChecked_eq slice⟩

theorem framing_exact_frame :
    decodeFrame [2, 7, 8, 9] 2 = .complete [7, 8] 3 ∧ encodeFrame [7, 8] <+: [2, 7, 8, 9] :=
  ⟨rfl, (((framing_exact 2 [2, 7, 8, 9] (by decide)).1 [7, 8] 3).mp rfl).1⟩

/-- Any end of this header declares 128 bytes or more, and none is allowed. -/
theorem doomed_header_incomplete : decodeFrame [0x80] 0 = .incomplete ∧
      ∀ more payload consumed, decodeFrame ([0x80] ++ more) 0 ≠ .complete payload consumed := by
  refine ⟨rfl, ?_⟩
  intro more payload consumed found
  obtain ⟨starts, nothing, -⟩ := (decodeFrame_complete_iff (by decide)).mp found
  have nil : payload = [] := eq_nil_of_length_eq_zero (by omega)
  subst nil
  exact absurd (cons_prefix_cons.mp starts).1 (by decide)

end Framing
