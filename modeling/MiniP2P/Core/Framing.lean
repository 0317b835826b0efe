import Mathlib.Algebra.Group.Nat.Defs

/-! Unsigned varints and the frames `<uvarint payload length><payload>` of the protocol
crates. A value is a natural number below `2 ^ 64`, which takes at most ten bytes. -/
namespace Framing

inductive VarintError where
  | bufferTooShort
  | overflow
  | nonCanonical
  deriving DecidableEq

def VarintError.toString : VarintError → String
  | .bufferTooShort => "buffer ended before varint terminated"
  | .overflow => "varint overflows u64"
  | .nonCanonical => "varint is not minimally encoded"

def uvarintLenLoop : Nat → Nat → Nat
  | 0, _ => 1
  | fuel + 1, value => if 0x80 ≤ value then uvarintLenLoop fuel (value / 2 ^ 7) + 1 else 1

def uvarintLen (value : Nat) : Nat := uvarintLenLoop 10 value

def writeUvarintLoop : Nat → Nat → List UInt8
  | 0, _ => []
  | fuel + 1, value =>
    if value / 2 ^ 7 ≠ 0 then
      UInt8.ofNat (value % 0x80 + 0x80) :: writeUvarintLoop fuel (value / 2 ^ 7)
    else [UInt8.ofNat (value % 0x80)]

def writeUvarint (value : Nat) : List UInt8 := writeUvarintLoop 10 value

/-- The loop of the reader at byte `idx`, with the bits read so far. -/
def readUvarintLoop (idx value : Nat) : List UInt8 → Except VarintError (Nat × List UInt8)
  | [] => .error .bufferTooShort
  | byte :: bytes =>
    if 10 ≤ idx then .error .overflow
    else if idx = 9 ∧ (byte &&& 0x80 ≠ 0 ∨ 1 < byte) then .error .overflow
    else
      let value := value ||| (byte &&& 0x7f).toNat <<< (7 * idx)
      if byte &&& 0x80 = 0 then
        if idx + 1 ≠ uvarintLen value then .error .nonCanonical else .ok (value, bytes)
      else readUvarintLoop (idx + 1) value bytes

def readUvarintWithRemainder (input : List UInt8) : Except VarintError (Nat × List UInt8) :=
  readUvarintLoop 0 0 input

def readUvarint (input : List UInt8) : Except VarintError (Nat × Nat) :=
  match readUvarintWithRemainder input with
  | .error e => .error e
  | .ok (value, remaining) => .ok (value, input.length - remaining.length)

inductive FrameDecode where
  | complete (payload : List UInt8) (consumed : Nat)
  | incomplete
  | tooLarge (len : Nat)
  | error (e : VarintError)
  deriving DecidableEq

/-- A sum that does not fit a `usize` is longer than any slice, so it is incomplete
as well. -/
def decodeFrame (input : List UInt8) (maxLen : Nat) : FrameDecode :=
  if input = [] then .incomplete
  else
    match readUvarint input with
    | .error .bufferTooShort => .incomplete
    | .error e => .error e
    | .ok (length, used) =>
      if maxLen < length then .tooLarge length
      else if used + length ≤ input.length then
        .complete ((input.drop used).take length) (used + length)
      else .incomplete

def encodeFrame (payload : List UInt8) : List UInt8 := writeUvarint payload.length ++ payload

variable {value n : Nat} {input rest : List UInt8}

/-! ### Values and their bytes -/

theorem and_high_eq_zero (byte : UInt8) : byte &&& 0x80 = 0 ↔ byte.toNat < 0x80 := by
  have small : ∀ n < 256, n &&& 128 = 0 ↔ n < 128 := by decide +kernel
  rw [← UInt8.toNat_inj]
  exact small _ byte.toNat_lt

theorem and_low_toNat (byte : UInt8) : (byte &&& 0x7f).toNat = byte.toNat % 0x80 := by
  exact Nat.and_two_pow_sub_one_eq_mod byte.toNat 7

theorem or_shift {idx value bits : Nat} (below : value < 2 ^ (7 * idx)) :
    value ||| bits <<< (7 * idx) = value + bits * 2 ^ (7 * idx) := by
  rw [Nat.or_comm, ← Nat.shiftLeft_add_eq_or_of_lt below, Nat.shiftLeft_eq, Nat.add_comm]

theorem two_pow_seven (idx : Nat) : 2 ^ (7 * (idx + 1)) = 128 * 2 ^ (7 * idx) := by
  rw [Nat.mul_succ, Nat.add_comm, Nat.pow_add]

theorem digit_lt {idx value digit : Nat} (below : value < 2 ^ (7 * idx)) (small : digit < 128) :
    value + digit * 2 ^ (7 * idx) < 2 ^ (7 * (idx + 1)) := by
  have scaled := Nat.mul_le_mul_right (2 ^ (7 * idx)) small
  rw [Nat.succ_mul] at scaled
  rw [two_pow_seven]
  omega

/-- Seven more bits; a tenth byte adds one bit only. -/
theorem addBits_lt {idx value : Nat} {byte : UInt8} (below : value < 2 ^ (7 * idx))
    (bits : ¬ (idx = 9 ∧ (byte &&& 0x80 ≠ 0 ∨ 1 < byte))) (short : idx < 10) :
    (value ||| (byte &&& 0x7f).toNat <<< (7 * idx)) < 2 ^ 64 ∧
      (value ||| (byte &&& 0x7f).toNat <<< (7 * idx)) < 2 ^ (7 * (idx + 1)) := by
  rw [and_low_toNat, or_shift below]
  have next := digit_lt below (Nat.mod_lt byte.toNat (by decide : 0 < 0x80))
  refine ⟨?_, next⟩
  by_cases last : idx = 9
  · subst last
    have one : ¬ 1 < byte := fun big => bits ⟨rfl, .inr big⟩
    rw [UInt8.lt_iff_toNat_lt, Nat.not_lt] at one
    have small : byte.toNat % 0x80 ≤ 1 := Nat.le_trans (Nat.mod_le ..) one
    omega
  · exact Nat.lt_of_lt_of_le next (Nat.pow_le_pow_right (by omega) (by omega))

variable {fuel : Nat}

theorem uvarintLenLoop_above {idx : Nat} (below : value < 2 ^ (7 * idx)) (positive : 0 < n)
    (enough : idx ≤ fuel) :
    uvarintLenLoop fuel (value + n * 2 ^ (7 * idx)) = idx + uvarintLenLoop (fuel - idx) n := by
  induction idx generalizing fuel value with
  | zero =>
    have nothing : value = 0 := by simpa using below
    simp [nothing]
  | succ idx ih =>
    obtain ⟨fuel, rfl⟩ : ∃ f, fuel = f + 1 := ⟨fuel - 1, by omega⟩
    have unit : 0 < 2 ^ (7 * idx) := Nat.two_pow_pos _
    have large : 0x80 ≤ value + n * (128 * 2 ^ (7 * idx)) := by
      have := Nat.mul_le_mul positive (Nat.mul_le_mul_left 128 unit)
      omega
    have shifted : (value + n * (128 * 2 ^ (7 * idx))) / 2 ^ 7 =
        value / 128 + n * 2 ^ (7 * idx) := by
      rw [Nat.mul_left_comm]
      exact Nat.add_mul_div_left value (n * 2 ^ (7 * idx)) (by omega)
    rw [two_pow_seven] at below ⊢
    rw [uvarintLenLoop, if_pos large, shifted, ih (by omega) (by omega), Nat.succ_sub_succ]
    omega

theorem uvarintLenLoop_digit (small : n < 0x80) : uvarintLenLoop fuel n = 1 := by
  cases fuel with
  | zero => rfl
  | succ fuel => rw [uvarintLenLoop, if_neg (by omega)]

theorem uvarintLenLoop_le {idx value : Nat} (below : value < 2 ^ (7 * idx)) (positive : 0 < idx) :
    uvarintLenLoop fuel value ≤ idx := by
  induction idx generalizing fuel value with
  | zero => omega
  | succ idx ih =>
    cases fuel with
    | zero => exact Nat.le_add_left ..
    | succ fuel =>
      rw [uvarintLenLoop]
      split
      · have more : 0 < idx := by
          apply Nat.pos_of_ne_zero
          rintro rfl
          omega
        rw [two_pow_seven] at below
        have := @ih fuel (value / 2 ^ 7) (by omega) more
        omega
      · omega

theorem length_writeUvarintLoop_le (fuel n : Nat) :
    (writeUvarintLoop fuel n).length ≤ uvarintLenLoop fuel n := by
  induction fuel generalizing n with
  | zero => exact Nat.zero_le _
  | succ fuel ih =>
    have rest := ih (n / 2 ^ 7)
    rw [writeUvarintLoop, uvarintLenLoop]
    split
    · rw [if_pos (by omega)]
      exact Nat.succ_le_succ rest
    · rw [if_neg (by omega)]
      exact Nat.le_refl 1

theorem length_writeUvarint_le {idx : Nat} (below : n < 2 ^ (7 * idx)) (positive : 0 < idx) :
    (writeUvarint n).length ≤ idx :=
  Nat.le_trans (length_writeUvarintLoop_le 10 n) (uvarintLenLoop_le below positive)

theorem readUvarintLoop_write {idx value n : Nat} (rest : List UInt8)
    (below : value < 2 ^ (7 * idx)) (fits : value + n * 2 ^ (7 * idx) < 2 ^ 64)
    (turns : idx + fuel = 10) (canonical : idx = 0 ∨ 0 < n) :
    readUvarintLoop idx value (writeUvarintLoop fuel n ++ rest) =
      .ok (value + n * 2 ^ (7 * idx), rest) := by
  induction fuel generalizing idx value n with
  | zero =>
    have last : idx = 10 := by omega
    subst last
    omega
  | succ fuel ih =>
    have short : ¬ 10 ≤ idx := by omega
    have last (nine : idx = 9) : n ≤ 1 := by
      subst nine
      omega
    rw [writeUvarintLoop]
    split
    · have low : (UInt8.ofNat (n % 0x80 + 0x80)).toNat = n % 0x80 + 0x80 := by
        rw [UInt8.toNat_ofNat']
        omega
      have high : ¬ (UInt8.ofNat (n % 0x80 + 0x80) &&& 0x80 = 0) := by
        rw [and_high_eq_zero]
        omega
      have below' := @digit_lt idx value (n % 0x80) below (by omega)
      have whole : value + n % 0x80 * 2 ^ (7 * idx) + n / 2 ^ 7 * 2 ^ (7 * (idx + 1)) =
          value + n * 2 ^ (7 * idx) := by
        rw [two_pow_seven, Nat.add_assoc, ← Nat.mul_assoc, ← Nat.add_mul]
        congr 2
        omega
      rw [List.cons_append, readUvarintLoop, if_neg short, if_neg (by omega), and_low_toNat, low,
        if_neg high, show (n % 0x80 + 0x80) % 0x80 = n % 0x80 by omega, or_shift below]
      rw [ih below' (by rw [whole]; exact fits) (by omega) (.inr (by omega)), whole]
    · have small : n < 0x80 := by omega
      have low : (UInt8.ofNat (n % 0x80)).toNat = n := by
        rw [UInt8.toNat_ofNat']
        omega
      have high : UInt8.ofNat (n % 0x80) &&& 0x80 = 0 := by
        rw [and_high_eq_zero]
        omega
      have length : uvarintLen (value + n * 2 ^ (7 * idx)) = idx + 1 := by
        rcases canonical with first | positive
        · subst first
          have nothing : value = 0 := by simpa using below
          rw [nothing, uvarintLen, uvarintLenLoop_digit (by simpa using small)]
        · rw [uvarintLen, uvarintLenLoop_above below positive (by omega),
            uvarintLenLoop_digit small]
      have tenth : ¬ (idx = 9 ∧ (UInt8.ofNat (n % 0x80) &&& 0x80 ≠ 0 ∨
          1 < UInt8.ofNat (n % 0x80))) := by
        rintro ⟨nine, set | big⟩
        · exact set high
        · rw [UInt8.lt_iff_toNat_lt, low] at big
          simp at big
          omega
      rw [List.cons_append, readUvarintLoop, if_neg short, if_neg tenth, and_low_toNat, low,
        if_pos high, Nat.mod_eq_of_lt small, or_shift below, if_neg (by rw [length]; simp)]
      rfl

theorem write_of_readUvarintLoop {idx value n : Nat} {input rest : List UInt8}
    (below : value < 2 ^ (7 * idx)) (read : readUvarintLoop idx value input = .ok (n, rest)) :
    n < 2 ^ 64 ∧ ∃ m, n = value + m * 2 ^ (7 * idx) ∧
      input = writeUvarintLoop (10 - idx) m ++ rest ∧ (idx = 0 ∨ 0 < m) := by
  induction input generalizing idx value with
  | nil => cases read
  | cons byte bytes ih =>
    rw [readUvarintLoop] at read
    split at read
    · cases read
    · obtain ⟨fuel, turns⟩ : ∃ fuel, 10 - idx = fuel + 1 := ⟨9 - idx, by omega⟩
      split at read
      · cases read
      · rename_i bits
        have fits := (addBits_lt below bits (by omega)).1
        have added := @or_shift idx value (byte &&& 0x7f).toNat below
        rw [and_low_toNat] at added fits read
        dsimp only at read
        rw [added] at fits read
        split at read
        · rename_i last
          have small : byte.toNat < 0x80 := (and_high_eq_zero byte).mp last
          split at read
          · cases read
          · rename_i canonical
            cases read
            rw [Nat.mod_eq_of_lt small] at canonical fits ⊢
            refine ⟨fits, byte.toNat, rfl, ?_, ?_⟩
            · rw [turns, writeUvarintLoop, if_neg (by omega), Nat.mod_eq_of_lt small,
                UInt8.ofNat_toNat]
              rfl
            · apply Classical.byContradiction
              intro trailing
              have zero : byte.toNat = 0 := by omega
              have shorter := @uvarintLenLoop_le 10 idx value below (by omega)
              simp only [zero, Nat.zero_mul, Nat.add_zero, uvarintLen] at canonical
              omega
        · rename_i more
          have large : 0x80 ≤ byte.toNat := by
            rw [and_high_eq_zero] at more
            omega
          have size := byte.toNat_lt
          have below' := @digit_lt idx value (byte.toNat % 0x80) below (by omega)
          obtain ⟨fits, m, whole, wrote, canonical⟩ := ih below' read
          refine ⟨fits, byte.toNat % 0x80 + m * 128, ?_, ?_, .inr (by omega)⟩
          · rw [whole, two_pow_seven, Nat.add_assoc, ← Nat.mul_assoc, ← Nat.add_mul]
          · have rest' : 10 - (idx + 1) = fuel := by omega
            rw [turns, writeUvarintLoop, if_pos (by omega),
              show (byte.toNat % 0x80 + m * 128) / 2 ^ 7 = m by omega,
              show (byte.toNat % 0x80 + m * 128) % 0x80 + 0x80 = byte.toNat by omega,
              UInt8.ofNat_toNat, wrote, rest']
            rfl

variable (more : List UInt8)

theorem readUvarintLoop_error {idx : Nat} {e : VarintError}
    (read : readUvarintLoop idx value input = .error e) (final : e ≠ .bufferTooShort) :
    readUvarintLoop idx value (input ++ more) = .error e := by
  induction input generalizing idx value with
  | nil =>
    cases read
    exact absurd rfl final
  | cons byte bytes ih =>
    simp only [readUvarintLoop, List.cons_append] at read ⊢
    split at read
    · rename_i long
      rw [if_pos long]
      exact read
    · rename_i short
      rw [if_neg short]
      split at read
      · rename_i overflow
        rw [if_pos overflow]
        exact read
      · rename_i fits
        rw [if_neg fits]
        split at read
        · rename_i last
          rw [if_pos last]
          split at read
          · rename_i long
            rw [if_pos long]
            exact read
          · cases read
        · rename_i notLast
          rw [if_neg notLast]
          exact ih read

theorem length_writeUvarint_pos (n : Nat) : 0 < (writeUvarint n).length := by
  rw [writeUvarint, writeUvarintLoop]
  split <;> simp

theorem readUvarintWithRemainder_write {n : Nat} (fits : n < 2 ^ 64) (rest : List UInt8) :
    readUvarintWithRemainder (writeUvarint n ++ rest) = .ok (n, rest) := by
  have read := @readUvarintLoop_write 10 0 0 n rest (by simp) (by simpa using fits) rfl (.inl rfl)
  simpa [readUvarintWithRemainder, writeUvarint] using read

theorem write_of_readUvarintWithRemainder (read : readUvarintWithRemainder input = .ok (n, rest)) :
    n < 2 ^ 64 ∧ input = writeUvarint n ++ rest := by
  obtain ⟨fits, m, same, wrote, -⟩ := write_of_readUvarintLoop (by simp) read
  have value_eq : m = n := by simpa using same.symm
  subst value_eq
  exact ⟨fits, wrote⟩

theorem readUvarint_write {n : Nat} (fits : n < 2 ^ 64) (rest : List UInt8) :
    readUvarint (writeUvarint n ++ rest) = .ok (n, (writeUvarint n).length) := by
  rw [readUvarint, readUvarintWithRemainder_write fits]
  simp

theorem write_of_readUvarint {used : Nat} (read : readUvarint input = .ok (n, used)) :
    n < 2 ^ 64 ∧ used = (writeUvarint n).length ∧ ∃ rest, input = writeUvarint n ++ rest := by
  unfold readUvarint at read
  split at read
  · cases read
  · rename_i value remaining found
    cases read
    obtain ⟨fits, whole⟩ := write_of_readUvarintWithRemainder found
    refine ⟨fits, ?_, remaining, whole⟩
    rw [whole, List.length_append]
    omega

theorem readUvarint_append {used : Nat} (read : readUvarint input = .ok (n, used)) :
    readUvarint (input ++ more) = .ok (n, used) := by
  obtain ⟨fits, rfl, rest, rfl⟩ := write_of_readUvarint read
  rw [List.append_assoc, readUvarint_write fits]

theorem readUvarint_error {e : VarintError}
    (read : readUvarint input = .error e) (final : e ≠ .bufferTooShort) :
    readUvarint (input ++ more) = .error e := by
  unfold readUvarint at read
  split at read
  · rename_i e' found
    cases read
    have again : readUvarintWithRemainder (input ++ more) = .error e :=
      readUvarintLoop_error more found final
    rw [readUvarint, again]
  · cases read

end Framing
