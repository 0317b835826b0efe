import MiniP2P.Identity.Key
import MiniP2P.Lib.Fallible
import MiniP2P.Noise.Frames

/-! The cipher of Noise and its key derivation, over primitives given as parameters. -/
namespace Noise
open Fallible List

/-- What the noise crate takes from its libraries: SHA-256 and the signatures of identities,
HMAC, X25519 and ChaCha20-Poly1305 (key, nonce, associated data, text). -/
structure Primitives extends Identity.Crypto where
  hmac : List UInt8 → List UInt8 → Bytes 32
  publicKey : Bytes 32 → Bytes 32
  diffieHellman : Bytes 32 → Bytes 32 → Bytes 32
  encrypt : Bytes 32 → List UInt8 → List UInt8 → List UInt8 → Option (List UInt8)
  decrypt : Bytes 32 → List UInt8 → List UInt8 → List UInt8 → Option (List UInt8)

variable (P : Primitives)

def derive2 (chainingKey : Bytes 32) (input : List UInt8) : Bytes 32 × Bytes 32 :=
  let tempKey := P.hmac chainingKey.toList input
  let output1 := P.hmac tempKey.toList [1]
  let output2 := P.hmac tempKey.toList (output1.toList ++ [2])
  (output1, output2)

def maxNonce : Nat := 2 ^ 64 - 1

/-- Next to its key and counter, a cipher records the keys it was given and the key and counter
of every message it encrypted. -/
structure CipherState where
  key : Option (Bytes 32)
  nonce : Nat
  keys : List (Bytes 32)
  encrypted : List (Bytes 32 × Nat)

namespace CipherState

def new : CipherState := ⟨none, 0, [], []⟩

def initializeKey (key : Bytes 32) (cipher : CipherState) : CipherState :=
  { cipher with key := some key, nonce := 0, keys := cipher.keys ++ [key] }

def nonceBytes (nonce : Nat) : List UInt8 :=
  List.replicate 4 0 ++ (BigEndian.toBytes 8 nonce).reverse

def nextNonce (cipher : CipherState) : Except NoiseError (List UInt8) :=
  if cipher.nonce = maxNonce then .error .nonceExhausted else .ok (nonceBytes cipher.nonce)

def encryptWithAd (ad plaintext : List UInt8) : EStateM NoiseError CipherState (List UInt8) := do
  let cipher ← get
  match cipher.key with
  | none => return plaintext
  | some key =>
    let nonce ← ofExcept cipher.nextNonce
    match P.encrypt key nonce ad plaintext with
    | none => throw .encryption
    | some ciphertext =>
      set { cipher with
        nonce := cipher.nonce + 1
        encrypted := cipher.encrypted ++ [(key, cipher.nonce)] }
      return ciphertext

def decryptWithAd (ad ciphertext : List UInt8) : EStateM NoiseError CipherState (List UInt8) := do
  let cipher ← get
  match cipher.key with
  | none => return ciphertext
  | some key =>
    let nonce ← ofExcept cipher.nextNonce
    match P.decrypt key nonce ad ciphertext with
    | none => throw .decryption
    | some plaintext =>
      set { cipher with nonce := cipher.nonce + 1 }
      return plaintext

/-! ### What the two do -/

variable {P} {ad text : List UInt8} {cipher : CipherState}

theorem encrypt_spec : wp (encryptWithAd P ad text)
      (fun out cipher' =>
        (cipher.key = none ∧ out = text ∧ cipher' = cipher) ∨
        ∃ key, cipher.key = some key ∧ cipher.nonce ≠ maxNonce ∧
          P.encrypt key (nonceBytes cipher.nonce) ad text = some out ∧
          cipher' = { cipher with
            nonce := cipher.nonce + 1
            encrypted := cipher.encrypted ++ [(key, cipher.nonce)] })
      (fun e cipher' => e.isTerminal = true ∧ cipher' = cipher ∧
        (e = .nonceExhausted ∨ cipher.nonce ≠ maxNonce)) cipher := by
  simp only [encryptWithAd, wp_bind, wp_get]
  cases key : cipher.key with
  | none => exact .inl ⟨rfl, rfl, rfl⟩
  | some k =>
    simp only [wp_bind, wp_ofExcept, nextNonce]
    by_cases last : cipher.nonce = maxNonce
    · simp [last, NoiseError.isTerminal]
    · simp only [if_neg last]
      refine ⟨?_, by simp⟩
      rintro _ ⟨⟩
      cases sealed : P.encrypt k (nonceBytes cipher.nonce) ad text with
      | none => exact ⟨rfl, rfl, .inr last⟩
      | some out => exact .inr ⟨k, rfl, last, sealed, rfl⟩

theorem decrypt_spec : wp (decryptWithAd P ad text)
      (fun out cipher' =>
        (cipher.key = none ∧ out = text ∧ cipher' = cipher) ∨
        ∃ key, cipher.key = some key ∧ cipher.nonce ≠ maxNonce ∧
          P.decrypt key (nonceBytes cipher.nonce) ad text = some out ∧
          cipher' = { cipher with nonce := cipher.nonce + 1 })
      (fun e cipher' => e.isTerminal = true ∧ cipher' = cipher) cipher := by
  simp only [decryptWithAd, wp_bind, wp_get]
  cases key : cipher.key with
  | none => exact .inl ⟨rfl, rfl, rfl⟩
  | some k =>
    simp only [wp_bind, wp_ofExcept, nextNonce]
    by_cases last : cipher.nonce = maxNonce
    · simp [last, NoiseError.isTerminal]
    · simp only [if_neg last]
      refine ⟨?_, by simp⟩
      rintro _ ⟨⟩
      cases opened : P.decrypt k (nonceBytes cipher.nonce) ad text with
      | none => exact ⟨rfl, rfl⟩
      | some out => exact .inr ⟨k, rfl, last, opened, rfl⟩

section Runs

variable {key : Bytes 32} {out : List UInt8} (keyed : cipher.key = some key)
include keyed

theorem encrypt_ran (more : cipher.nonce ≠ maxNonce)
    (encrypted : P.encrypt key (nonceBytes cipher.nonce) ad text = some out) :
    encryptWithAd P ad text cipher = .ok out { cipher with
      nonce := cipher.nonce + 1
      encrypted := cipher.encrypted ++ [(key, cipher.nonce)] } := by
  refine ran_of_wp ?_
  simp only [encryptWithAd, wp_bind, wp_get, keyed, wp_ofExcept, nextNonce, if_neg more]
  refine ⟨?_, by simp⟩
  rintro _ ⟨⟩
  rw [encrypted]
  exact ⟨rfl, rfl⟩

theorem encrypt_exhausted (last : cipher.nonce = maxNonce) :
    encryptWithAd P ad text cipher = .error .nonceExhausted cipher := by
  refine failed_of_wp ?_
  rw [encryptWithAd, wp_bind, wp_get, keyed, nextNonce, if_pos last]
  exact ⟨rfl, rfl⟩

theorem decrypt_ran (more : cipher.nonce ≠ maxNonce)
    (decrypted : P.decrypt key (nonceBytes cipher.nonce) ad text = some out) :
    decryptWithAd P ad text cipher = .ok out { cipher with nonce := cipher.nonce + 1 } := by
  refine ran_of_wp ?_
  simp only [decryptWithAd, wp_bind, wp_get, keyed, wp_ofExcept, nextNonce, if_neg more]
  refine ⟨?_, by simp⟩
  rintro _ ⟨⟩
  rw [decrypted]
  exact ⟨rfl, rfl⟩

end Runs

/-! ### Counters do not repeat -/

/-- Counters below the current one, under the current key, are the ones in use; a key that is
new to the cipher has been used with none. -/
structure Sound (cipher : CipherState) : Prop where
  last : cipher.key = cipher.keys.getLast?
  room : cipher.nonce ≤ maxNonce
  known : ∀ use ∈ cipher.encrypted, use.1 ∈ cipher.keys ∧ use.2 < maxNonce
  below : cipher.keys.Nodup → ∀ use ∈ cipher.encrypted, some use.1 = cipher.key →
    use.2 < cipher.nonce
  fresh : cipher.keys.Nodup → cipher.encrypted.Nodup

theorem new_sound : new.Sound :=
  ⟨rfl, Nat.zero_le _, nofun, fun _ => nofun, fun _ => .nil⟩

section

variable (sound : cipher.Sound)
include sound

theorem Sound.initializeKey (key : Bytes 32) : (cipher.initializeKey key).Sound where
  last := List.getLast?_concat.symm
  room := Nat.zero_le _
  known use used := by
    obtain ⟨known, below⟩ := sound.known use used
    exact ⟨mem_append_left _ known, below⟩
  below distinct use used same := by
    cases same
    have stranger := (nodup_append.mp distinct).2.2 _ (sound.known use used).1
    exact (stranger _ (mem_singleton_self _) rfl).elim
  fresh distinct := sound.fresh (nodup_append.mp distinct).1

theorem Sound.counts {key : Bytes 32} (current : cipher.key = some key)
    (more : cipher.nonce ≠ maxNonce) :
    ({ cipher with
        nonce := cipher.nonce + 1
        encrypted := cipher.encrypted ++ [(key, cipher.nonce)] } : CipherState).Sound := by
  have less : cipher.nonce < maxNonce := Nat.lt_of_le_of_ne sound.room more
  have held : key ∈ cipher.keys := mem_of_getLast? (sound.last.symm.trans current)
  refine ⟨sound.last, less, ?_, ?_, ?_⟩
  · intro use used
    rcases mem_append.mp used with old | new
    · exact sound.known use old
    · rw [mem_singleton.mp new]
      exact ⟨held, less⟩
  · intro distinct use used same
    rcases mem_append.mp used with old | new
    · exact Nat.lt_succ_of_lt (sound.below distinct use old same)
    · rw [mem_singleton.mp new]
      exact Nat.lt_succ_self _
  · intro distinct
    refine nodup_append.mpr ⟨sound.fresh distinct, by simp, ?_⟩
    rintro use used _ new rfl
    rw [mem_singleton.mp new] at used
    exact Nat.lt_irrefl _ (sound.below distinct _ used current.symm)

theorem Sound.reads (more : cipher.nonce ≠ maxNonce) :
    ({ cipher with nonce := cipher.nonce + 1 } : CipherState).Sound :=
  { sound with
    room := Nat.lt_of_le_of_ne sound.room more
    below := fun distinct use used same => Nat.lt_succ_of_lt (sound.below distinct use used same) }

theorem Sound.encrypt :
    wp (encryptWithAd P ad text) (fun _ cipher' => cipher'.Sound ∧ cipher'.keys = cipher.keys)
      (fun e cipher' => e.isTerminal = true ∧ cipher'.Sound ∧
        cipher'.keys = cipher.keys) cipher := by
  refine wp_mono encrypt_spec ?_ ?_
  · rintro out cipher' (⟨-, -, rfl⟩ | ⟨key, current, more, -, rfl⟩)
    · exact ⟨sound, rfl⟩
    · exact ⟨sound.counts current more, rfl⟩
  · rintro e cipher' ⟨terminal, rfl, -⟩
    exact ⟨terminal, sound, rfl⟩

theorem Sound.decrypt :
    wp (decryptWithAd P ad text) (fun _ cipher' => cipher'.Sound ∧ cipher'.keys = cipher.keys)
      (fun e cipher' => e.isTerminal = true ∧ cipher'.Sound ∧
        cipher'.keys = cipher.keys) cipher := by
  refine wp_mono decrypt_spec ?_ ?_
  · rintro out cipher' (⟨-, -, rfl⟩ | ⟨key, -, more, -, rfl⟩)
    · exact ⟨sound, rfl⟩
    · exact ⟨sound.reads more, rfl⟩
  · rintro e cipher' ⟨terminal, rfl⟩
    exact ⟨terminal, sound, rfl⟩

end

end CipherState

end Noise
