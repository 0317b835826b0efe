import MiniP2P.Identity.PeerId
import MiniP2P.Lib.Radix

/-! Base58btc text. Both directions carry one digit at a time through a number written low digit
first, and keep the zeros in front apart from it. -/
namespace Identity
open Radix List

def base58Alphabet : List UInt8 :=
  ['1', '2', '3', '4', '5', '6', '7', '8', '9', 'A', 'B', 'C', 'D', 'E', 'F', 'G', 'H', 'J', 'K',
    'L', 'M', 'N', 'P', 'Q', 'R', 'S', 'T', 'U', 'V', 'W', 'X', 'Y', 'Z', 'a', 'b', 'c', 'd', 'e',
    'f', 'g', 'h', 'i', 'j', 'k', 'm', 'n', 'o', 'p', 'q', 'r', 's', 't', 'u', 'v', 'w', 'x', 'y',
    'z'].map fun c => UInt8.ofNat c.toNat

def base58Char (digit : Nat) : Char := Char.ofNat (base58Alphabet.getD digit 0).toNat

/-- The source compares with the low byte of the character. -/
def base58Value (c : Char) : Option Nat := base58Alphabet.idxOf? (UInt8.ofNat c.toNat)

def encodeStep (digits : List Nat) (byte : Nat) : List Nat :=
  let digits := mulAdd 58 256 byte digits
  if digits = [] then [0] else digits

def encodeBase58 (input : List UInt8) : String :=
  if input = [] then ""
  else
    let leadingZeros := (input.takeWhile (· = 0)).length
    let digits := ((input.drop leadingZeros).map UInt8.toNat).foldl encodeStep []
    String.ofList (List.replicate leadingZeros '1' ++ digits.reverse.map base58Char)

def decodeStep (bytes : List Nat) (value : Nat) : List Nat :=
  mulAdd 256 58 value (if bytes = [] then [0] else bytes)

def decodeBase58Loop (index : Nat) (bytes : List Nat) : List Char → Except PeerIdError (List Nat)
  | [] => .ok bytes
  | ch :: chars =>
    match base58Value ch with
    | none => .error (.invalidBase58Character ch index)
    | some value => decodeBase58Loop (index + 1) (decodeStep bytes value) chars

def decodeBase58 (input : String) : Except PeerIdError (List UInt8) :=
  if input = "" then .error .emptyInput
  else
    let leadingZeros := (input.toList.takeWhile (· = '1')).length
    (decodeBase58Loop leadingZeros [] (input.toList.drop leadingZeros)).map fun bytes =>
      List.replicate leadingZeros 0 ++ bytes.reverse.map UInt8.ofNat

/-! ### Digits and letters -/

/-- The characters of the alphabet. -/
def base58Letters : List Char := base58Alphabet.map fun letter => Char.ofNat letter.toNat

variable {digit : Nat} {bytes : List UInt8} {input : String}

/-- The alphabet letter by letter. -/
theorem base58_table : base58Alphabet.length = 58 ∧ ∀ digit < 58,
    base58Value (base58Char digit) = some digit ∧ (base58Char digit = '1' ↔ digit = 0) ∧
      base58Char digit ≠ '/' := by
  decide +kernel

theorem base58Alphabet_length : base58Alphabet.length = 58 := base58_table.1

theorem base58Value_char (small : digit < 58) : base58Value (base58Char digit) = some digit :=
  (base58_table.2 digit small).1

theorem base58Char_past (past : 58 ≤ digit) : base58Char digit = Char.ofNat 0 := by
  rw [base58Char, getD_eq_getElem?_getD,
    List.getElem?_eq_none (Nat.le_trans (Nat.le_of_eq base58Alphabet_length) past)]
  rfl

theorem base58Char_eq_one (digit : Nat) : base58Char digit = '1' ↔ digit = 0 := by
  by_cases small : digit < 58
  · exact (base58_table.2 digit small).2.1
  · rw [base58Char_past (Nat.le_of_not_lt small)]
    exact ⟨fun same => absurd same (by decide), fun zero => absurd zero (by omega)⟩

theorem base58Char_one : base58Char 0 = '1' := (base58Char_eq_one 0).mpr rfl

theorem mem_base58Letters {c : Char} :
    c ∈ base58Letters ↔ ∃ digit : Fin 58, base58Char digit = c := by
  constructor
  · intro letter
    obtain ⟨byte, known, rfl⟩ := mem_map.mp letter
    obtain ⟨digit, inside, rfl⟩ := getElem_of_mem known
    refine ⟨⟨digit, base58Alphabet_length ▸ inside⟩, ?_⟩
    rw [base58Char, getD_eq_getElem?_getD, List.getElem?_eq_getElem inside]
    rfl
  · rintro ⟨digit, rfl⟩
    refine mem_map.mpr ⟨base58Alphabet.getD digit 0, ?_, rfl⟩
    have inside : digit.val < base58Alphabet.length :=
      digit.isLt.trans_eq base58Alphabet_length.symm
    rw [getD_eq_getElem?_getD, List.getElem?_eq_getElem inside]
    exact getElem_mem _

/-- Letters are the letters of digits. -/
theorem letters_eq_map {chars : List Char} (letters : ∀ c ∈ chars, c ∈ base58Letters) :
    ∃ values : List Nat, (∀ v ∈ values, v < 58) ∧ chars = values.map base58Char := by
  obtain ⟨digits, rfl⟩ : chars ∈ Set.range (List.map fun digit : Fin 58 => base58Char digit) := by
    rw [Set.range_list_map]
    exact fun c mem => mem_base58Letters.mp (letters c mem)
  exact ⟨digits.map Fin.val, by simp, by simp⟩

/-! ### The loops -/

theorem encodeStep_digits (n byte : Nat) (positive : 0 < n) :
    encodeStep (Nat.digits 58 n) byte = Nat.digits 58 (n * 256 + byte) := by
  rw [encodeStep, mulAdd_digits (by decide) (by decide), if_neg]
  rw [Nat.digits_eq_nil_iff_eq_zero]
  omega

theorem decodeStep_digits (n value : Nat) (positive : 0 < n) :
    decodeStep (Nat.digits 256 n) value = Nat.digits 256 (n * 58 + value) := by
  rw [decodeStep, if_neg, mulAdd_digits (by decide) (by decide)]
  rw [Nat.digits_eq_nil_iff_eq_zero]
  omega

theorem drop_takeWhile {α : Type} (p : α → Bool) (l : List α) :
    l.drop (l.takeWhile p).length = l.dropWhile p := by
  calc l.drop (l.takeWhile p).length
    _ = (l.takeWhile p ++ l.dropWhile p).drop (l.takeWhile p).length := by
      rw [takeWhile_append_dropWhile]
    _ = l.dropWhile p := drop_left

theorem encodeBase58_eq (input : List UInt8) : encodeBase58 input =
      String.ofList ((recode 58 256 (input.map UInt8.toNat)).map base58Char) := by
  have zero : (fun d : Nat => decide (d = 0)) ∘ UInt8.toNat = fun byte => decide (byte = 0) := by
    funext byte
    simp [← UInt8.toNat_inj]
  have start (c : Nat) (positive : 0 < c) : encodeStep [] c = Nat.digits 58 c := by
    rw [encodeStep, mulAdd, if_neg]
    rw [Nat.digits_eq_nil_iff_eq_zero]
    omega
  have digits := foldl_rebase (by decide) start encodeStep_digits
    (head_dropWhile (input.map UInt8.toNat))
  have zeros := takeWhile_zeros (input.map UInt8.toNat)
  rw [dropWhile_map, zero] at digits
  rw [takeWhile_map, zero, length_map] at zeros
  rw [encodeBase58, recode, takeWhile_map, dropWhile_map, zero, zeros, ← digits]
  dsimp only
  rw [drop_takeWhile]
  split
  · rename_i nothing
    subst nothing
    rfl
  · simp only [map_append, map_replicate, base58Char_one]

theorem decodeBase58Loop_map (index : Nat) (bytes : List Nat) {values : List Nat}
    (small : ∀ v ∈ values, v < 58) :
    decodeBase58Loop index bytes (values.map base58Char) = .ok (values.foldl decodeStep bytes) := by
  induction values generalizing index bytes with
  | nil => rfl
  | cons v values ih =>
    rw [map_cons, decodeBase58Loop, base58Value_char (small v mem_cons_self)]
    exact ih _ _ fun w mem => small w (mem_cons_of_mem _ mem)

theorem decodeBase58_map {values : List Nat} (nonzero : values ≠ [])
    (small : ∀ v ∈ values, v < 58) :
    decodeBase58 (String.ofList (values.map base58Char)) =
      .ok ((recode 256 58 values).map UInt8.ofNat) := by
  have one : (fun c : Char => decide (c = '1')) ∘ base58Char = fun d => decide (d = 0) := by
    funext digit
    simp [base58Char_eq_one]
  have start (c : Nat) (positive : 0 < c) : decodeStep [] c = Nat.digits 256 c := by
    rw [decodeStep, if_pos rfl, mulAdd, Nat.zero_add]
    exact (Nat.digits_eq_cons_digits_div (by decide) (by omega)).symm
  have nonempty : String.ofList (values.map base58Char) ≠ "" := by
    intro nothing
    have := congrArg String.toList nothing
    simp [nonzero] at this
  have digits := foldl_rebase (by decide) start decodeStep_digits (head_dropWhile values)
  rw [decodeBase58, if_neg nonempty, String.toList_ofList]
  dsimp only
  rw [drop_takeWhile, takeWhile_map, dropWhile_map, one, length_map,
    decodeBase58Loop_map _ _ fun v mem => small v (dropWhile_subset _ mem), Except.map, digits,
    recode, map_append, takeWhile_zeros, length_replicate, map_replicate]
  rfl

theorem base58Value_isSome {c : Char} :
    (base58Value c).isSome ↔ UInt8.ofNat c.toNat ∈ base58Alphabet := by
  rw [Option.isSome_iff_ne_none, base58Value, Ne, List.idxOf?_eq_none_iff, not_not]

/-- Only the low bytes of the characters decide whether they are read. -/
theorem decodeBase58Loop_isOk (index : Nat) (bytes : List Nat) (chars : List Char) :
    (∃ out, decodeBase58Loop index bytes chars = .ok out) ↔
      ∀ c ∈ chars, UInt8.ofNat c.toNat ∈ base58Alphabet := by
  induction chars generalizing index bytes with
  | nil => simp [decodeBase58Loop]
  | cons ch chars ih =>
    rw [decodeBase58Loop, forall_mem_cons, ← base58Value_isSome]
    cases base58Value ch with
    | none => simp
    | some value => simp [ih]

theorem decodeBase58_isOk : (∃ out, decodeBase58 input = .ok out) ↔
    input ≠ "" ∧ ∀ c ∈ input.toList, UInt8.ofNat c.toNat ∈ base58Alphabet := by
  rw [decodeBase58]
  split
  · simp_all
  · rename_i nonempty
    have ones : ∀ c ∈ input.toList.takeWhile (· = '1'), UInt8.ofNat c.toNat ∈ base58Alphabet := by
      intro c mem
      have one : c = '1' := by simpa using mem_takeWhile_imp mem
      have first : base58Value (base58Char 0) = some 0 := base58Value_char (by decide)
      rw [base58Char_one, ← one] at first
      exact base58Value_isSome.mp (Option.isSome_of_eq_some first)
    have loop := decodeBase58Loop_isOk (input.toList.takeWhile (· = '1')).length []
      (input.toList.dropWhile (· = '1'))
    dsimp only
    rw [drop_takeWhile, ← takeWhile_append_dropWhile (p := (· = '1')) (l := input.toList),
      forall_mem_append, and_iff_right ones, ← loop, takeWhile_append_dropWhile]
    cases decodeBase58Loop _ _ _ <;> simp [nonempty, Except.map]

/-! ### Both directions -/

theorem toNat_lt (bytes : List UInt8) : ∀ d ∈ bytes.map UInt8.toNat, d < 256 := by
  simpa using fun byte _ => UInt8.toNat_lt byte

theorem decode_encodeBase58 (filled : bytes ≠ []) :
    decodeBase58 (encodeBase58 bytes) = .ok bytes := by
  have back := @recode_recode 58 256 _ (by decide) (toNat_lt bytes)
  have nonempty : recode 58 256 (bytes.map UInt8.toNat) ≠ [] := by
    intro nothing
    rw [nothing] at back
    exact filled (map_eq_nil_iff.mp back.symm)
  rw [encodeBase58_eq, decodeBase58_map nonempty fun v => recode_lt (by decide), back]
  simp [Function.comp_def]

theorem encode_letters (bytes : List UInt8) :
    ∀ c ∈ (encodeBase58 bytes).toList, c ∈ base58Letters := by
  rw [encodeBase58_eq, String.toList_ofList]
  intro c mem
  obtain ⟨digit, known, rfl⟩ := mem_map.mp mem
  exact mem_base58Letters.mpr ⟨⟨digit, recode_lt (by decide) known⟩, rfl⟩

theorem encode_decodeBase58 (letters : ∀ c ∈ input.toList, c ∈ base58Letters)
    (read : decodeBase58 input = .ok bytes) : encodeBase58 bytes = input := by
  obtain ⟨values, small, list⟩ := letters_eq_map letters
  obtain rfl : input = String.ofList (values.map base58Char) := by rw [← list, String.ofList_toList]
  have nonempty : values ≠ [] := by
    rintro rfl
    cases read
  rw [decodeBase58_map nonempty small] at read
  cases read
  have bytes : ((recode 256 58 values).map UInt8.ofNat).map UInt8.toNat = recode 256 58 values := by
    rw [map_map]
    refine (map_congr_left fun v mem => ?_).trans (map_id _)
    exact UInt8.toNat_ofNat_of_lt (recode_lt (by decide) mem)
  rw [encodeBase58_eq, bytes, recode_recode (by decide) small]

/-- Bytes are read back unless there are none. A text is read when every character has the low byte
of a letter, and written back when every character is a letter. -/
theorem base58_bijection (bytes : List UInt8) (input : String) :
    (decodeBase58 (encodeBase58 bytes) = .ok bytes ↔ bytes ≠ []) ∧
      ((∃ out, decodeBase58 input = .ok out) ↔
        input ≠ "" ∧ ∀ c ∈ input.toList, UInt8.ofNat c.toNat ∈ base58Alphabet) ∧
      ∀ out, decodeBase58 input = .ok out →
        (encodeBase58 out = input ↔ ∀ c ∈ input.toList, c ∈ base58Letters) := by
  refine ⟨⟨?_, decode_encodeBase58⟩, decodeBase58_isOk, fun out read => ⟨?_, ?_⟩⟩
  · rintro read rfl
    cases read
  · rintro rfl
    exact encode_letters out
  · intro letters
    exact encode_decodeBase58 letters read

theorem base58_bijection_two : decodeBase58 "12" = .ok [0, 1] ∧ encodeBase58 [0, 1] = "12" := by
  have ⟨second, read⟩ : base58Char 1 = '2' ∧ decodeBase58 "12" = .ok [0, 1] := by decide +kernel
  have letters : ∀ c ∈ "12".toList, c ∈ base58Letters := by
    simp only [String.reduceToList, forall_mem_cons]
    exact ⟨mem_base58Letters.mpr ⟨0, base58Char_one⟩, mem_base58Letters.mpr ⟨1, second⟩, nofun⟩
  exact ⟨read, ((base58_bijection [] "12").2.2 _ read).mpr letters⟩

/-- The dotless i has the low byte of the letter one. -/
theorem base58_alias : decodeBase58 (String.ofList [Char.ofNat 0x131]) = .ok [0] ∧
    encodeBase58 [0] ≠ String.ofList [Char.ofNat 0x131] ∧
    decodeBase58 (encodeBase58 []) = .error .emptyInput := by
  decide +kernel

end Identity
