import MiniP2P.Identity.Base58
import MiniP2P.Identity.Key
import MiniP2P.Lib.Regroup

/-! Peer ids as text: base58btc multihashes, and version 1 CIDs in base32 or base58btc. Which of
the two a text is, its first characters decide. -/
namespace Identity
open Framing Radix Regroup List

def libp2pKeyMulticodec : Nat := 0x72

def base32AlphabetLower : List UInt8 :=
  "abcdefghijklmnopqrstuvwxyz234567".toList.map fun c => UInt8.ofNat c.toNat

def base32Char (value : Nat) : Char := Char.ofNat (base32AlphabetLower.getD value 0).toNat

def base32Value (c : Char) : Option Nat :=
  let lower := c.toLower
  if 'a' ≤ lower ∧ lower ≤ 'z' then some (lower.toNat - 'a'.toNat)
  else if '2' ≤ lower ∧ lower ≤ '7' then some (26 + (lower.toNat - '2'.toNat))
  else none

/-- The buffer is a `u16`. -/
def encodeBase32NopadLower (input : List UInt8) : String :=
  String.ofList ((pack 8 5 16 (input.map UInt8.toNat)).map base32Char)

/-- The buffer is a `u32`. -/
def decodeBase32Loop (index bits buffer : Nat) : List Char → Except PeerIdError (List UInt8)
  | [] => .ok []
  | ch :: chars =>
    match base32Value ch with
    | none => .error (.invalidBase32Character ch index)
    | some value =>
      let buffer := push 5 32 buffer value
      let (bytes, left) := emit 8 (bits + 5) (bits + 5) buffer
      (decodeBase32Loop (index + 1) left buffer chars).map (bytes.map UInt8.ofNat ++ ·)

def decodeBase32Nopad (input : String) : Except PeerIdError (List UInt8) :=
  decodeBase32Loop 0 0 0 input.toList

namespace PeerId

variable [MultihashCrate]

def toBase58 (p : PeerId) : String := encodeBase58 p.toBytes

def toCidBase32 (p : PeerId) : String :=
  String.ofList ('b' :: (encodeBase32NopadLower
    (writeUvarint 1 ++ (writeUvarint libp2pKeyMulticodec ++ p.toBytes))).toList)

def fromBase58 (input : String) : Except PeerIdError PeerId :=
  match decodeBase58 input with
  | .error e => .error e
  | .ok multihash => fromBytes multihash

/-- A varint never ends behind its input, so what follows it is always there. -/
def fromCidBytes (cidBytes : List UInt8) : Except PeerIdError PeerId :=
  match readUvarint cidBytes with
  | .error e => .error (.invalidCidVersionVarint e)
  | .ok (version, versionLen) =>
    if version ≠ 1 then .error (.unsupportedCidVersion version)
    else
      match readUvarint (cidBytes.drop versionLen) with
      | .error e => .error (.invalidCidMulticodecVarint e)
      | .ok (codec, codecLen) =>
        if codec ≠ libp2pKeyMulticodec then .error (.unsupportedMulticodec codec)
        else fromBytes (cidBytes.drop (versionLen + codecLen))

def fromCid (input : String) : Except PeerIdError PeerId :=
  match input.toList with
  | [] => .error .emptyInput
  | multibase :: payload =>
    let decoded :=
      if multibase = 'b' ∨ multibase = 'B' then decodeBase32Nopad (String.ofList payload)
      else if multibase = 'z' then decodeBase58 (String.ofList payload)
      else .error (.unsupportedMultibase multibase)
    match decoded with
    | .error e => .error e
    | .ok cidBytes => fromCidBytes cidBytes

def looksLegacy (s : String) : Bool :=
  ['1'].isPrefixOf s.toList || ['Q', 'm'].isPrefixOf s.toList

def fromStr (s : String) : Except PeerIdError PeerId :=
  if looksLegacy s then fromBase58 s else fromCid s

end PeerId

/-! ### Base32 -/

theorem base32Value_char {value : Nat} (small : value < 32) :
    base32Value (base32Char value) = some value := by
  have all : ∀ value < 32, base32Value (base32Char value) = some value := by decide +kernel
  exact all value small

theorem decodeBase32Loop_map (index bits buffer : Nat) {values : List Nat}
    (small : ∀ v ∈ values, v < 32) :
    decodeBase32Loop index bits buffer (values.map base32Char) =
      .ok ((regroup 5 8 32 bits buffer values).1.map UInt8.ofNat) := by
  induction values generalizing index bits buffer with
  | nil => rfl
  | cons v values ih =>
    rw [map_cons, decodeBase32Loop, base32Value_char (small v mem_cons_self)]
    dsimp only
    rw [ih _ _ _ fun w mem => small w (mem_cons_of_mem _ mem), Except.map, regroup,
      map_append]

theorem decode_encodeBase32 (bytes : List UInt8) :
    decodeBase32Nopad (encodeBase32NopadLower bytes) = .ok bytes := by
  have small : ∀ d ∈ bytes.map UInt8.toNat, d < 2 ^ 8 := toNat_lt bytes
  have packed := (@pack_spec 8 5 16 (by decide) (by decide) _ small).1
  rw [decodeBase32Nopad, encodeBase32NopadLower, String.toList_ofList,
    decodeBase32Loop_map 0 0 0 packed, regroup_pack (by decide) (by decide) (by decide)
    (by decide) small]
  simp [Function.comp_def]

theorem length_decodeBase32Loop {index bits buffer : Nat} {chars : List Char} {bytes : List UInt8}
    (read : decodeBase32Loop index bits buffer chars = .ok bytes) :
    8 * bytes.length ≤ bits + 5 * chars.length := by
  induction chars generalizing index bits buffer bytes with
  | nil =>
    cases read
    exact Nat.zero_le _
  | cons ch chars ih =>
    rw [decodeBase32Loop] at read
    split at read
    · cases read
    · rename_i value found
      have moved := congrArg length (@emit_spec 8 (by decide) (bits + 5) (bits + 5)
        (push 5 32 buffer value) (Nat.le_refl _)).2.2
      simp only [length_append, length_flatMap, length_bitsOf, map_const',
        sum_replicate_nat] at moved
      dsimp only at read
      cases rest : decodeBase32Loop (index + 1) (emit 8 (bits + 5) (bits + 5)
        (push 5 32 buffer value)).2
          (push 5 32 buffer value) chars with
      | error e =>
        rw [rest] at read
        cases read
      | ok more =>
        rw [rest] at read
        cases read
        have later := ih rest
        rw [length_append, length_map, length_cons]
        omega

/-! ### Peer ids -/

namespace PeerId

variable [MultihashCrate] [MultihashCrate.Documented] (p : PeerId)

theorem toBytes_ne_nil : p.toBytes ≠ [] := by
  intro empty
  have header := length_writeUvarint_pos p.code.toNat
  rw [toBytes, MultihashCrate.Documented.toBytes_eq, append_eq_nil_iff] at empty
  simp [empty.1] at header

theorem fromBase58_toBase58 : fromBase58 p.toBase58 = .ok p := by
  rw [fromBase58, toBase58, decode_encodeBase58 p.toBytes_ne_nil]
  exact p.fromBytes_toBytes

theorem fromCid_toCidBase32 : fromCid p.toCidBase32 = .ok p := by
  have version := @readUvarint_write 1 (by decide) (writeUvarint libp2pKeyMulticodec ++ p.toBytes)
  have codec := @readUvarint_write libp2pKeyMulticodec (by decide) p.toBytes
  rw [fromCid, toCidBase32, String.toList_ofList]
  dsimp only
  rw [if_pos (.inl rfl), String.ofList_toList, decode_encodeBase32]
  dsimp only
  rw [fromCidBytes, version]
  dsimp only
  rw [if_neg (by decide), drop_left, codec]
  dsimp only
  exact p.fromBytes_toBytes

theorem fromStr_toCidBase32 : fromStr p.toCidBase32 = .ok p := by
  have cid : looksLegacy p.toCidBase32 = false := by
    rw [looksLegacy, toCidBase32, String.toList_ofList]
    rfl
  rw [fromStr, cid, if_neg (by decide)]
  exact p.fromCid_toCidBase32

theorem looksLegacy_identity {p : PeerId} (identity : p.code = identityMultihashCode) :
    looksLegacy p.toBase58 = true := by
  rw [toBase58, encodeBase58_eq, toBytes, MultihashCrate.Documented.toBytes_eq, identity,
    looksLegacy, String.toList_ofList]
  rfl

theorem looksLegacy_sha256 {p : PeerId} (sha : p.code = sha256MultihashCode) :
    looksLegacy p.toBase58 = true := by
  have size := p.valid sha
  have small := value_lt (by decide) (toNat_lt p.digest)
  rw [length_map, size] at small
  have bytes : p.toBytes.map UInt8.toNat = 0x12 :: 0x20 :: p.digest.map UInt8.toNat := by
    rw [toBytes, MultihashCrate.Documented.toBytes_eq, sha, size]
    rfl
  have total : value 256 (p.toBytes.map UInt8.toNat) =
      0x1220 * 256 ^ 32 + value 256 (p.digest.map UInt8.toNat) := by
    rw [bytes, value_cons, value_cons, length_cons, length_map, size]
    omega
  obtain ⟨low, below, parts⟩ : ∃ low < 58 ^ 44, value 256 (p.toBytes.map UInt8.toNat) =
      low + 58 ^ 44 * (23 * 58 + 44) :=
    ⟨value 256 (p.toBytes.map UInt8.toNat) - 58 ^ 44 * (23 * 58 + 44), by omega, by omega⟩
  obtain ⟨rest, letters⟩ := rebase_high (by decide) below (by decide) parts
  have digits : recode 58 256 (p.toBytes.map UInt8.toNat) = [23, 44] ++ rest := by
    rw [recode, bytes, takeWhile_cons_of_neg (by decide), dropWhile_cons_of_neg (by decide),
      ← bytes, letters]
    rfl
  rw [toBase58, encodeBase58_eq, digits, looksLegacy, String.toList_ofList]
  rfl

/-- A CID holds a multihash and two bytes before it. -/
theorem length_of_fromCidBytes {cidBytes : List UInt8} (read : fromCidBytes cidBytes = .ok p) :
    cidBytes.head? = some 1 ∧ p.toBytes.length + 2 ≤ cidBytes.length := by
  unfold fromCidBytes at read
  split at read
  · cases read
  · rename_i version versionLen found
    split at read
    · cases read
    · rename_i first
      split at read
      · cases read
      · rename_i codec codecLen found'
        split at read
        · cases read
        · rename_i key
          obtain rfl := not_not.mp first
          obtain rfl := not_not.mp key
          obtain ⟨-, rfl, rest, rfl⟩ := write_of_readUvarint found
          rw [drop_left] at found'
          obtain ⟨-, rfl, rest', rfl⟩ := write_of_readUvarint found'
          have length := length_toBytes_le read
          refine ⟨rfl, ?_⟩
          change p.toBytes.length + 2 ≤ rest'.length + 2
          exact Nat.add_le_add_right (by simpa using length) 2

/-- Text that does not look like base58btc is too short for a CID of the same peer id. -/
theorem fromCid_toBase58 (other : ¬ looksLegacy p.toBase58 = true) :
    fromCid p.toBase58 ≠ .ok p := by
  intro read
  have below := value_lt (by decide) (toNat_lt p.toBytes)
  rw [length_map] at below
  rw [toBase58, encodeBase58_eq] at read other
  cases letters : recode 58 256 (p.toBytes.map UInt8.toNat) with
  | nil =>
    rw [letters] at read
    cases read
  | cons d values =>
    rw [letters, map_cons] at read other
    have high : d ≠ 0 := by
      rintro rfl
      apply other
      rw [looksLegacy, String.toList_ofList, base58Char_one]
      rfl
    have long := Nat.lt_of_le_of_lt (pow_le_of_recode (by decide) letters high) below
    have small (v : Nat) (mem : v ∈ values) : v < 58 :=
      recode_lt (by decide) (letters ▸ mem_cons_of_mem d mem)
    rw [fromCid, String.toList_ofList] at read
    dsimp only at read
    split at read
    · cases read
    · rename_i cidBytes decoded
      obtain ⟨version, length⟩ := p.length_of_fromCidBytes read
      split at decoded
      · have bits := length_decodeBase32Loop decoded
        rw [String.toList_ofList, length_map] at bits
        have narrow : 2 ^ (5 * values.length) < 2 ^ (8 * p.toBytes.length) :=
          calc 2 ^ (5 * values.length) = 32 ^ values.length := Nat.pow_mul 2 5 _
            _ ≤ 58 ^ values.length := Nat.pow_le_pow_left (by decide) _
            _ < 256 ^ p.toBytes.length := long
            _ = 2 ^ (8 * p.toBytes.length) := (Nat.pow_mul 2 8 _).symm
        have := (Nat.pow_lt_pow_iff_right (by decide)).mp narrow
        omega
      · split at decoded
        · have nonempty : values ≠ [] := by
            rintro rfl
            cases decoded
          rw [decodeBase58_map nonempty small] at decoded
          cases decoded
          cases bytes : recode 256 58 values with
          | nil => simp [bytes] at version
          | cons byte more =>
            rw [bytes] at version length
            have front : byte ≠ 0 := by
              rintro rfl
              cases version
            have short := pow_le_of_recode (by decide) bytes front
            have narrow := Nat.lt_of_le_of_lt short (Nat.lt_trans (value_lt (by decide) small) long)
            have := (Nat.pow_lt_pow_iff_right (by decide)).mp narrow
            simp only [length_map, length_cons] at length
            omega
        · cases decoded

theorem fromStr_toBase58 : fromStr p.toBase58 = .ok p ↔ looksLegacy p.toBase58 = true := by
  rw [fromStr]
  split
  · rename_i legacy
    exact ⟨fun _ => legacy, fun _ => p.fromBase58_toBase58⟩
  · rename_i other
    exact ⟨fun read => absurd read (p.fromCid_toBase58 other), fun legacy => absurd legacy other⟩

/-- Text is read back as the peer id it was written for. Base58btc is recognised by its first
characters, and then for the two multihash codes of public keys. -/
theorem text_roundTrip (p q : PeerId) : fromBytes p.toBytes = .ok p ∧
      (fromStr p.toBase58 = .ok p ↔ looksLegacy p.toBase58 = true) ∧
      (p.code = identityMultihashCode ∨ p.code = sha256MultihashCode →
        looksLegacy p.toBase58 = true) ∧
      fromStr p.toCidBase32 = .ok p ∧
      (p.toBase58 = q.toBase58 → p = q) ∧ (p.toCidBase32 = q.toCidBase32 → p = q) := by
  refine ⟨p.fromBytes_toBytes, p.fromStr_toBase58, fun known => ?_, p.fromStr_toCidBase32, ?_, ?_⟩
  · exact known.elim looksLegacy_identity looksLegacy_sha256
  · intro same
    have read := p.fromBase58_toBase58
    rw [same, q.fromBase58_toBase58] at read
    exact (Except.ok.inj read).symm
  · intro same
    have read := p.fromCid_toCidBase32
    rw [same, q.fromCid_toCidBase32] at read
    exact (Except.ok.inj read).symm

end PeerId

/-- The peer id of no key: an empty identity multihash. -/
def nobody : PeerId := ⟨⟨identityMultihashCode, [], by decide⟩, nofun⟩

theorem text_roundTrip_nobody : nobody.toBase58 = "11" ∧ PeerId.fromStr "11" = .ok nobody := by
  have text : nobody.toBase58 = "11" := by decide +kernel
  obtain ⟨-, -, legacy, -⟩ := nobody.text_roundTrip nobody
  have read := (nobody.text_roundTrip nobody).2.1.mpr (legacy (.inl rfl))
  exact ⟨text, text ▸ read⟩

/-- The peer id whose multihash code is of no key. -/
def foreign : PeerId := ⟨⟨1, [], nobody.fits⟩, nofun⟩

/-- A multihash with another code, whose text is taken for a CID. -/
theorem foreign_text_rejected : ∃ p, PeerId.fromBytes [1, 0] = .ok p ∧ p.toBase58 = "5R" ∧
    PeerId.fromStr p.toBase58 = .error (.unsupportedMultibase '5') :=
  ⟨foreign, by decide +kernel⟩

end Identity
