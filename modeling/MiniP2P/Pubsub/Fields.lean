import MiniP2P.Pubsub.Message

/-! What the decoders of the pubsub RPC do with their bytes. A message is accepted exactly where it
is a row of fields, each inside it, that the message takes one after another. -/
namespace Pubsub
open Framing List

inductive Value where
  | varint (n : Nat)
  | i64 (bytes : List UInt8)
  | len (bytes : List UInt8)
  | i32 (bytes : List UInt8)
  deriving DecidableEq

namespace Value

def wireType : Value → Nat
  | .varint _ => wireVarint
  | .i64 _ => wireI64
  | .len _ => wireLen
  | .i32 _ => wireI32

def encode : Value → List UInt8
  | .varint n => writeUvarint n
  | .len bytes => writeUvarint bytes.length ++ bytes
  | .i64 bytes | .i32 bytes => bytes

def Fits : Value → Prop
  | .varint n => n < 2 ^ 64
  | .len bytes => bytes.length < 2 ^ 64
  | .i64 bytes => bytes.length = 8
  | .i32 bytes => bytes.length = 4

end Value

structure Field where
  number : Nat
  value : Value
  deriving DecidableEq

namespace Field

def tag (f : Field) : Nat := f.number * 8 + f.value.wireType

def encode (f : Field) : List UInt8 := writeUvarint f.tag ++ f.value.encode

structure Fits (f : Field) : Prop where
  positive : 0 < f.number
  tag : f.tag < 2 ^ 64
  value : f.value.Fits

end Field

open Pubsub.Field

structure Reads (input bytes : List UInt8) (idx next : Nat) : Prop where
  inside : idx ≤ input.length
  here : input.drop idx = bytes ++ input.drop next
  ends : next = idx + bytes.length

namespace Reads

variable {input bytes bytes' : List UInt8} {idx mid next : Nat}

theorem le (reads : Reads input bytes idx next) : next ≤ input.length := by
  have lengths := congrArg List.length reads.here
  rw [length_append, length_drop] at lengths
  have := reads.inside
  have := reads.ends
  omega

theorem of_drop {rest : List UInt8} (inside : idx ≤ input.length)
    (here : input.drop idx = bytes ++ rest) : Reads input bytes idx (idx + bytes.length) := by
  refine ⟨inside, ?_, rfl⟩
  rw [← drop_drop, here, drop_left]

theorem append (first : Reads input bytes idx mid) (second : Reads input bytes' mid next) :
    Reads input (bytes ++ bytes') idx next := by
  refine ⟨first.inside, ?_, ?_⟩
  · rw [first.here, second.here, append_assoc]
  · rw [second.ends, first.ends, length_append, Nat.add_assoc]

theorem split (reads : Reads input (bytes ++ bytes') idx next) :
    Reads input bytes idx (idx + bytes.length) ∧ Reads input bytes' (idx + bytes.length) next := by
  have here := reads.here
  rw [append_assoc] at here
  have first := of_drop reads.inside here
  refine ⟨first, first.le, ?_, ?_⟩
  · rw [first.here] at here
    exact append_cancel_left here
  · rw [reads.ends, length_append, Nat.add_assoc]

end Reads

/-! ### Readers -/

variable {input : List UInt8} {idx next : Nat}

theorem readVarintValue_iff {n : Nat} : readVarintValue input idx = .ok (n, next) ↔
      n < 2 ^ 64 ∧ Reads input (writeUvarint n) idx next := by
  constructor
  · intro read
    unfold readVarintValue varintTail at read
    split at read
    · cases read
    · rename_i tail inside
      split at inside
      · rename_i within
        cases inside
        split at read
        · cases read
        · rename_i value used found
          cases read
          obtain ⟨fits, rfl, rest, here⟩ := write_of_readUvarint found
          exact ⟨fits, .of_drop within here⟩
      · cases inside
  · rintro ⟨fits, reads⟩
    rw [readVarintValue, varintTail, if_pos reads.inside]
    dsimp only
    rw [reads.here, readUvarint_write fits, reads.ends]

theorem readLenDelimited_iff {bytes : List UInt8} : readLenDelimited input idx = .ok (bytes, next) ↔
      bytes.length < 2 ^ 64 ∧ Reads input (writeUvarint bytes.length ++ bytes) idx next := by
  constructor
  · intro read
    unfold readLenDelimited at read
    split at read
    · cases read
    · rename_i length mid found
      obtain ⟨fits, reads⟩ := readVarintValue_iff.mp found
      dsimp only at read
      split at read
      · cases read
      · cases read
        have size : ((input.drop mid).take length).length = length := by
          rw [length_take, length_drop]
          omega
        have body := Reads.of_drop reads.le (take_append_drop length (input.drop mid)).symm
        rw [size] at body ⊢
        exact ⟨fits, reads.append body⟩
  · rintro ⟨fits, reads⟩
    obtain ⟨header, body⟩ := reads.split
    have found := readVarintValue_iff.mpr ⟨fits, header⟩
    have inside := body.le
    have ends := body.ends
    rw [readLenDelimited, found]
    dsimp only
    rw [if_neg (by omega), body.here, take_left, ends]

theorem skipFixed_iff {size : Nat} (positive : 0 < size) : skipFixed input idx size = .ok next ↔
      ∃ bytes, bytes.length = size ∧ Reads input bytes idx next := by
  constructor
  · intro skipped
    unfold skipFixed at skipped
    split at skipped
    · cases skipped
    · cases skipped
      have length : ((input.drop idx).take size).length = size := by
        rw [length_take, length_drop]
        omega
      have reads := @Reads.of_drop input _ idx _ (by omega)
        (take_append_drop size (input.drop idx)).symm
      rw [length] at reads
      exact ⟨_, length, reads⟩
  · rintro ⟨bytes, rfl, reads⟩
    have inside := reads.le
    have ends := reads.ends
    rw [skipFixed, if_neg (by omega), ends]

theorem map_snd_iff {α : Type} {result : Except PubsubWireError (α × Nat)} :
    result.map Prod.snd = .ok next ↔ ∃ a, result = .ok (a, next) := by
  cases result with
  | error e => simp [Except.map]
  | ok pair => simp [Except.map, Prod.ext_iff]

theorem skipUnknownField_iff {wireType : Nat} : skipUnknownField input idx wireType = .ok next ↔
      ∃ v : Value, v.wireType = wireType ∧ v.Fits ∧ Reads input v.encode idx next := by
  unfold skipUnknownField
  by_cases varint : wireType = wireVarint
  · subst varint
    rw [if_pos rfl, map_snd_iff]
    constructor
    · rintro ⟨n, read⟩
      exact ⟨.varint n, rfl, readVarintValue_iff.mp read⟩
    · rintro ⟨v | v | v | v, kind, reads⟩ <;> cases kind
      exact ⟨v, readVarintValue_iff.mpr reads⟩
  rw [if_neg varint]
  by_cases len : wireType = wireLen
  · subst len
    rw [if_pos rfl, map_snd_iff]
    constructor
    · rintro ⟨bytes, read⟩
      exact ⟨.len bytes, rfl, readLenDelimited_iff.mp read⟩
    · rintro ⟨v | v | v | v, kind, reads⟩ <;> cases kind
      exact ⟨v, readLenDelimited_iff.mpr reads⟩
  rw [if_neg len]
  by_cases i32 : wireType = wireI32
  · subst i32
    rw [if_pos rfl, skipFixed_iff (by decide)]
    constructor
    · rintro ⟨bytes, reads⟩
      exact ⟨.i32 bytes, rfl, reads⟩
    · rintro ⟨v | v | v | v, kind, reads⟩ <;> cases kind
      exact ⟨v, reads⟩
  rw [if_neg i32]
  by_cases i64 : wireType = wireI64
  · subst i64
    rw [if_pos rfl, skipFixed_iff (by decide)]
    constructor
    · rintro ⟨bytes, reads⟩
      exact ⟨.i64 bytes, rfl, reads⟩
    · rintro ⟨v | v | v | v, kind, reads⟩ <;> cases kind
      exact ⟨v, reads⟩
  rw [if_neg i64]
  constructor
  · nofun
  · rintro ⟨v | v | v | v, kind, -⟩
    · exact absurd kind.symm varint
    · exact absurd kind.symm i64
    · exact absurd kind.symm len
    · exact absurd kind.symm i32

theorem readTag_iff {number wireType : Nat} :
    readTag input idx = .ok (some (number, wireType, next)) ↔
      0 < number ∧ wireType < 8 ∧ number * 8 + wireType < 2 ^ 64 ∧
        Reads input (writeUvarint (number * 8 + wireType)) idx next := by
  constructor
  · intro read
    unfold readTag at read
    split at read
    · cases read
    · split at read
      · cases read
      · rename_i tag mid found
        split at read
        · cases read
        · cases read
          obtain ⟨fits, reads⟩ := readVarintValue_iff.mp found
          have parts : tag / 8 * 8 + tag % 8 = tag := by omega
          rw [parts]
          exact ⟨by omega, by omega, fits, reads⟩
  · rintro ⟨positive, small, fits, reads⟩
    have inside := reads.le
    have ends := reads.ends
    have nonzero := length_writeUvarint_pos (number * 8 + wireType)
    have found := readVarintValue_iff.mpr ⟨fits, reads⟩
    rw [readTag, if_neg (by omega), found]
    dsimp only
    rw [if_neg (by omega), show (number * 8 + wireType) / 8 = number by omega,
      show (number * 8 + wireType) % 8 = wireType by omega]

/-! ### Messages -/

variable {σ : Type}

def fieldStep (read : FieldReader σ) (input : List UInt8) (message : σ)
    (number wireType idx : Nat) :
    Except PubsubWireError (σ × Nat) :=
  (read message number wireType idx).getD
    ((skipUnknownField input idx wireType).map (message, ·))

theorem decodeLoop_succ (read : FieldReader σ) (fuel : Nat) (message : σ) :
    decodeLoop read input (fuel + 1) idx message =
      match readTag input idx with
      | .error e => .error e
      | .ok none => .ok message
      | .ok (some (number, wireType, idx)) =>
        match fieldStep read input message number wireType idx with
        | .error e => .error e
        | .ok (message, idx) => decodeLoop read input fuel idx message := by
  rw [decodeLoop]
  cases readTag input idx with
  | error e => rfl
  | ok tag =>
    cases tag with
    | none => rfl
    | some tag =>
      obtain ⟨number, wireType, mid⟩ := tag
      dsimp only [fieldStep]
      cases read message number wireType mid with
      | some result => cases result <;> rfl
      | none => cases skipUnknownField input mid wireType <;> rfl

/-- The decoder's reader does to a message what `apply` says its fields do. -/
structure Follows (read : FieldReader σ) (input : List UInt8) (apply : σ → Nat → Value → Option σ) :
    Prop where
  step : ∀ message number wireType idx message' next,
    fieldStep read input message number wireType idx = .ok (message', next) ↔
      ∃ v : Value, v.wireType = wireType ∧ v.Fits ∧ Reads input v.encode idx next ∧
        apply message number v = some message'

def applyAll (apply : σ → Nat → Value → Option σ) (message : σ) (fields : List Field) : Option σ :=
  fields.foldlM (fun message f => apply message f.number f.value) message

theorem wireType_lt (v : Value) : v.wireType < 8 := by
  cases v <;> simp [Value.wireType, wireVarint, wireI64, wireLen, wireI32]

namespace Follows

variable {read : FieldReader σ} {apply : σ → Nat → Value → Option σ}

theorem loop (follows : Follows read input apply) {fuel : Nat} {message result : σ}
    (inside : idx ≤ input.length) (enough : input.length - idx < fuel) :
    decodeLoop read input fuel idx message = .ok result ↔
      ∃ fields, (∀ f ∈ fields, f.Fits) ∧ input.drop idx = fields.flatMap encode ∧
        applyAll apply message fields = some result := by
  induction fuel generalizing idx message with
  | zero => omega
  | succ fuel ih =>
    rw [decodeLoop_succ]
    constructor
    · intro decoded
      split at decoded
      · cases decoded
      · rename_i tagless
        cases decoded
        refine ⟨[], nofun, ?_, rfl⟩
        unfold readTag at tagless
        split at tagless
        · exact drop_eq_nil_of_le ‹_›
        · split at tagless
          · cases tagless
          · split at tagless <;> cases tagless
      · rename_i number wireType mid tagged
        obtain ⟨positive, -, fits, header⟩ := readTag_iff.mp tagged
        split at decoded
        · cases decoded
        · rename_i message' next stepped
          obtain ⟨v, rfl, small, reads, applied⟩ := (follows.step ..).mp stepped
          have high := length_writeUvarint_pos (number * 8 + v.wireType)
          have forward := header.ends
          have within := reads.le
          have onward := reads.ends
          obtain ⟨fields, fit, here, all⟩ := (ih reads.le (by omega)).mp decoded
          refine ⟨⟨number, v⟩ :: fields, ?_, ?_, ?_⟩
          · rintro f (_ | ⟨_, mem⟩)
            · exact ⟨positive, fits, small⟩
            · exact fit f mem
          · rw [(header.append reads).here, here]
            rfl
          · rw [applyAll, foldlM_cons, applied]
            exact all
    · rintro ⟨fields, fit, here, all⟩
      cases fields with
      | nil =>
        have ended : input.length ≤ idx := by simpa using here
        cases all
        rw [readTag, if_pos ended]
      | cons f fields =>
        obtain ⟨positive, fits, small⟩ := fit f mem_cons_self
        obtain ⟨header, reads⟩ := (Reads.of_drop inside here).split
        obtain ⟨message', applied, all⟩ := Option.bind_eq_some_iff.mp all
        have nonzero := length_writeUvarint_pos f.tag
        have within := reads.le
        have onward := reads.ends
        have tagged := readTag_iff.mpr ⟨positive, wireType_lt f.value, fits, header⟩
        have stepped := (follows.step ..).mpr ⟨f.value, rfl, small, reads, applied⟩
        rw [tagged]
        dsimp only
        rw [stepped]
        refine (ih reads.le (by omega)).mpr
          ⟨fields, fun g mem => fit g (mem_cons_of_mem _ mem), ?_, all⟩
        have whole := (header.append reads).here
        rw [here] at whole
        exact (append_cancel_left whole).symm

theorem decode (follows : Follows read input apply) {message result : σ} :
    decodeFields read input message = .ok result ↔
      ∃ fields, (∀ f ∈ fields, f.Fits) ∧ input = fields.flatMap encode ∧
        applyAll apply message fields = some result := by
  simpa [decodeFields] using @loop input 0 σ read apply follows (input.length + 1) message result
    (Nat.zero_le _)
    (Nat.lt_succ_self _)

end Follows

/-! ### Rows of fields -/

variable {rest rest' : List UInt8} {fields' : List Field}

theorem writeUvarint_inj {m n : Nat} (left : m < 2 ^ 64)
    (right : n < 2 ^ 64) (same : writeUvarint m ++ rest = writeUvarint n ++ rest') :
    m = n ∧ rest = rest' := by
  have read := readUvarintWithRemainder_write left rest
  rw [same, readUvarintWithRemainder_write right] at read
  cases read
  exact ⟨rfl, rfl⟩

theorem Value.encode_inj {v w : Value} (left : v.Fits) (right : w.Fits)
    (kind : v.wireType = w.wireType) (same : v.encode ++ rest = w.encode ++ rest') :
    v = w ∧ rest = rest' := by
  have fixed {a b : List UInt8} (length : a.length = b.length) (same : a ++ rest = b ++ rest') :
      a = b ∧ rest = rest' := append_inj same length
  cases v <;> cases w <;> try cases kind
  · obtain ⟨rfl, rfl⟩ := writeUvarint_inj left right same
    exact ⟨rfl, rfl⟩
  · obtain ⟨rfl, rfl⟩ := fixed (left.trans right.symm) same
    exact ⟨rfl, rfl⟩
  · simp only [encode, append_assoc] at same
    obtain ⟨length, body⟩ := writeUvarint_inj left right same
    obtain ⟨rfl, rfl⟩ := fixed length body
    exact ⟨rfl, rfl⟩
  · obtain ⟨rfl, rfl⟩ := fixed (left.trans right.symm) same
    exact ⟨rfl, rfl⟩

theorem Field.encode_inj {f g : Field} (left : f.Fits) (right : g.Fits)
    (same : f.encode ++ rest = g.encode ++ rest') : f = g ∧ rest = rest' := by
  rw [encode, encode, append_assoc, append_assoc] at same
  obtain ⟨tags, values⟩ := writeUvarint_inj left.tag right.tag same
  have := wireType_lt f.value
  have := wireType_lt g.value
  unfold Field.tag at tags
  obtain ⟨value, rest⟩ := Value.encode_inj left.value right.value (by omega) values
  refine ⟨?_, rest⟩
  obtain ⟨number, _⟩ := f
  obtain ⟨number', _⟩ := g
  dsimp only at tags value
  subst value
  rw [show number = number' by omega]

theorem Field.encode_ne_nil (f : Field) : f.encode ≠ [] := by
  intro nothing
  have positive := length_writeUvarint_pos f.tag
  rw [(append_eq_nil_iff.mp nothing).1] at positive
  cases positive

/-- A row of fields that starts with another one goes on with a row. -/
theorem row_tail {fields : List Field} (left : ∀ f ∈ fields, f.Fits) (right : ∀ f ∈ fields', f.Fits)
    (same : fields.flatMap encode ++ rest = fields'.flatMap encode) :
    ∃ more, fields' = fields ++ more ∧ rest = more.flatMap encode := by
  induction fields generalizing fields' with
  | nil => exact ⟨fields', rfl, same⟩
  | cons f fields ih =>
    rw [flatMap_cons, append_assoc] at same
    cases fields' with
    | nil => exact absurd (append_eq_nil_iff.mp same).1 f.encode_ne_nil
    | cons g fields' =>
      obtain ⟨rfl, rest⟩ := encode_inj (left f mem_cons_self) (right g mem_cons_self) same
      obtain ⟨more, rfl, ends⟩ := ih (fun h mem => left h (mem_cons_of_mem _ mem))
        (fun h mem => right h (mem_cons_of_mem _ mem)) rest
      exact ⟨more, rfl, ends⟩

theorem fields_inj {fields : List Field} (left : ∀ f ∈ fields, f.Fits)
    (right : ∀ f ∈ fields', f.Fits)
    (same : fields.flatMap encode = fields'.flatMap encode) : fields = fields' := by
  obtain ⟨more, rfl, nothing⟩ := row_tail left right ((append_nil _).trans same)
  cases more with
  | nil => exact (append_nil _).symm
  | cons g more => exact absurd (append_eq_nil_iff.mp nothing.symm).1 g.encode_ne_nil

theorem overrun_no_row {fields : List Field} {number len : Nat}
    (left : ∀ f ∈ fields, f.Fits) (right : ∀ f ∈ fields', f.Fits)
    (tag : number * 8 + wireLen < 2 ^ 64) (fits : len < 2 ^ 64) (short : rest.length < len) :
    fields.flatMap encode ++
      (writeUvarint (number * 8 + wireLen) ++ (writeUvarint len ++ rest)) ≠
        fields'.flatMap encode := by
  intro same
  obtain ⟨more, rfl, tail⟩ := row_tail left right same
  cases more with
  | nil =>
    have positive := length_writeUvarint_pos (number * 8 + wireLen)
    rw [(append_eq_nil_iff.mp tail).1] at positive
    cases positive
  | cons g more =>
    obtain ⟨-, gtag, gfits⟩ := right g (by simp)
    rw [flatMap_cons, encode, append_assoc] at tail
    obtain ⟨tags, values⟩ := writeUvarint_inj tag gtag tail
    have := wireType_lt g.value
    unfold Field.tag wireLen at tags
    have kind : g.value.wireType = 2 := by omega
    obtain ⟨_, v | v | v | v⟩ := g <;> cases kind
    rw [Value.encode, append_assoc] at values
    obtain ⟨length, body⟩ := writeUvarint_inj fits gfits values
    have := congrArg List.length body
    rw [length_append] at this
    omega

end Pubsub
