import MiniP2P.Noise.Session

/-! Counters over the whole life of a session: no key is used twice with one counter, whatever
the session is fed and however it fails. -/
namespace Noise
open Fallible Identity List

variable {P : Primitives} {α β : Type}

/-! ### Errors of the parts -/

variable {input : List UInt8} {total : Nat} {fields : Fields}

section Terminal

variable {e : NoiseError}

theorem dh_terminal {secret remote : Bytes 32} (failed : dh P secret remote = .error e) :
    e.isTerminal = true := by
  unfold dh at failed
  dsimp only at failed
  split at failed <;> cases failed
  rfl

theorem exactArray_terminal {n : Nat} {reason : String}
    (failed : exactArray n input reason = .error e) : e.isTerminal = true := by
  unfold exactArray at failed
  split at failed <;> cases failed
  rfl

theorem required_terminal {value : Option α} (failed : required value = .error e) :
    e.isTerminal = true := by
  cases value <;> cases failed
  rfl

variable {payload : List UInt8}

theorem encodeFrame_terminal (failed : encodeFrame payload = .error e) : e.isTerminal = true := by
  unfold encodeFrame at failed
  split at failed <;> cases failed
  rfl

namespace NoiseHandshakePayload

theorem readBytes_terminal (failed : readBytes total input = .error e) : e.isTerminal = true := by
  unfold readBytes at failed
  repeat' split at failed
  all_goals cases failed
  all_goals rfl

theorem skipBytes_terminal {count : Nat} (failed : skipBytes count input = .error e) :
    e.isTerminal = true := by
  unfold skipBytes at failed
  split at failed <;> cases failed
  rfl

theorem skipUnknown_terminal {wire : Nat} (failed : skipUnknown total input wire = .error e) :
    e.isTerminal = true := by
  unfold skipUnknown at failed
  split at failed
  · split at failed <;> cases failed
    rfl
  · exact skipBytes_terminal failed
  · split at failed <;> cases failed
    exact readBytes_terminal ‹_›
  · exact skipBytes_terminal failed
  · cases failed
    rfl

theorem put_terminal {field : Nat} {value : List UInt8}
    (failed : fields.put field value = .error e) :
    e.isTerminal = true := by
  unfold Fields.put at failed
  repeat' split at failed
  all_goals cases failed
  all_goals rfl

theorem decodeField_terminal (failed : decodeField total fields input = .error e) :
    e.isTerminal = true := by
  simp only [decodeField] at failed
  split at failed
  · cases failed
    rfl
  · split at failed
    · cases failed
      rfl
    · split at failed
      · split at failed
        · cases failed
          rfl
        · split at failed
          · cases failed
            exact readBytes_terminal ‹_›
          · split at failed <;> cases failed
            exact put_terminal ‹_›
      · split at failed <;> cases failed
        exact skipUnknown_terminal ‹_›

theorem decodeLoop_terminal {fuel : Nat} (failed : decodeLoop total fuel fields input = .error e) :
    e.isTerminal = true := by
  induction fuel generalizing fields input with
  | zero => cases input <;> cases failed; rfl
  | succ fuel ih =>
    cases input with
    | nil => cases failed
    | cons byte bytes =>
      rw [decodeLoop] at failed
      split at failed
      · cases failed
        exact decodeField_terminal ‹_›
      · exact ih failed

theorem decode_terminal (failed : decode input = .error e) : e.isTerminal = true := by
  unfold decode at failed
  split at failed
  · cases failed
    exact decodeLoop_terminal ‹_›
  · split at failed <;> cases failed <;> rfl

end NoiseHandshakePayload

theorem verifyPayload_terminal {state : HandshakeState P}
    {remoteStatic : Bytes 32} (failed : state.verifyPayload payload remoteStatic = .error e) :
    e.isTerminal = true := by
  unfold HandshakeState.verifyPayload at failed
  split at failed
  · cases failed
    exact NoiseHandshakePayload.decode_terminal ‹_›
  · split at failed
    · cases failed
      rfl
    · split at failed
      · cases failed
        rfl
      · split at failed
        · cases failed
          rfl
        · dsimp only at failed
          split at failed <;> cases failed
          rfl

end Terminal

/-! ### The key schedule -/

section Schedule

variable (P)

/-- The keys that inputs give, each mixed into the chaining key that the last one has left. -/
def chainKeys : Bytes 32 → List (List UInt8) → List (Bytes 32)
  | _, [] => []
  | ck, input :: inputs => (derive2 P ck input).2 :: chainKeys (derive2 P ck input).1 inputs

def chainEnd (ck : Bytes 32) (inputs : List (List UInt8)) : Bytes 32 :=
  inputs.foldl (fun ck input => (derive2 P ck input).1) ck

/-- The calls of HMAC, by key and data, behind the keys. -/
def hmacCalls : Bytes 32 → List (List UInt8) → List (List UInt8 × List UInt8)
  | _, [] => []
  | ck, input :: inputs =>
    let temp := P.hmac ck.toList input
    let next := P.hmac temp.toList [1]
    (ck.toList, input) :: (temp.toList, [1]) :: (temp.toList, next.toList ++ [2]) ::
      hmacCalls next inputs

/-- HMAC does not collide on these calls, nor with the chaining key they begin with. -/
structure Primitives.Apart (ck : Bytes 32) (calls : List (List UInt8 × List UInt8)) : Prop where
  distinct : ∀ c ∈ calls, ∀ d ∈ calls, P.hmac c.1 c.2 = P.hmac d.1 d.2 → c = d
  new : ∀ c ∈ calls, P.hmac c.1 c.2 ≠ ck

/-- The keys of a session that has mixed in these results of Diffie-Hellman, and then perhaps split
off the key that it sends with. -/
def Scheduled (inputs : List (Bytes 32)) (keys : List (Bytes 32)) : Prop :=
  let inputs := inputs.map Bytes.toList
  let sends := derive2 P (chainEnd P protocolName inputs) []
  keys = chainKeys P protocolName inputs ∨
    keys = chainKeys P protocolName inputs ++ [sends.1] ∨
    keys = chainKeys P protocolName inputs ++ [sends.2]

variable {P} {ck : Bytes 32} {inputs : List (List UInt8)}

theorem chainKeys_concat (input : List UInt8) : chainKeys P ck (inputs ++ [input]) =
    chainKeys P ck inputs ++ [(derive2 P (chainEnd P ck inputs) input).2] := by
  induction inputs generalizing ck with
  | nil => rfl
  | cons first inputs ih => exact congrArg (_ :: ·) ih

theorem chainEnd_concat (input : List UInt8) :
    chainEnd P ck (inputs ++ [input]) = (derive2 P (chainEnd P ck inputs) input).1 :=
  foldl_concat ..

theorem mem_hmacCalls_last (input : List UInt8) :
    ((P.hmac (chainEnd P ck inputs).toList input).toList, [1]) ∈ hmacCalls P ck
      (inputs ++ [input]) := by
  induction inputs generalizing ck with
  | nil => exact mem_cons_of_mem _ mem_cons_self
  | cons first inputs ih => exact mem_cons_of_mem _ (mem_cons_of_mem _ (mem_cons_of_mem _ ih))

/-- HMAC is keyed with the first chaining key, or with what it has returned. -/
theorem keyed_hmacCalls {c : List UInt8 × List UInt8} (mem : c ∈ hmacCalls P ck inputs) :
    c.1 = ck.toList ∨ ∃ d ∈ hmacCalls P ck inputs, c.1 = (P.hmac d.1 d.2).toList := by
  induction inputs generalizing ck with
  | nil => cases mem
  | cons input inputs ih =>
    simp only [hmacCalls, mem_cons] at mem ⊢
    rcases mem with rfl | rfl | rfl | mem
    · exact .inl rfl
    · exact .inr ⟨_, .inl rfl, rfl⟩
    · exact .inr ⟨_, .inl rfl, rfl⟩
    · rcases ih mem with same | ⟨d, among, same⟩
      · exact .inr ⟨_, .inr (.inl rfl), same⟩
      · exact .inr ⟨d, .inr (.inr (.inr among)), same⟩

theorem call_of_chainKey {key : Bytes 32} (mem : key ∈ chainKeys P ck inputs) :
    ∃ c ∈ hmacCalls P ck inputs, key = P.hmac c.1 c.2 ∧ c.2 ≠ [1] := by
  induction inputs generalizing ck with
  | nil => cases mem
  | cons input inputs ih =>
    simp only [hmacCalls, mem_cons]
    rcases mem_cons.mp mem with rfl | mem
    · refine ⟨_, .inr (.inr (.inl rfl)), rfl, fun short => ?_⟩
      have length := congrArg List.length short
      simp [Bytes.size] at length
    · obtain ⟨c, among, same, long⟩ := ih mem
      exact ⟨c, .inr (.inr (.inr among)), same, long⟩

theorem Primitives.Apart.nodup (plain : ∀ input ∈ inputs, input ≠ [1])
    (apart : P.Apart ck (hmacCalls P ck inputs)) : (chainKeys P ck inputs).Nodup := by
  induction inputs generalizing ck with
  | nil => exact .nil
  | cons input inputs ih =>
    obtain ⟨unlike, plain⟩ := forall_mem_cons.mp plain
    have first : (ck.toList, input) ∈ hmacCalls P ck (input :: inputs) := mem_cons_self
    have second : ((P.hmac ck.toList input).toList, [1]) ∈ hmacCalls P ck (input :: inputs) :=
      mem_cons_of_mem _ mem_cons_self
    have rest {c : List UInt8 × List UInt8}
        (later : c ∈ hmacCalls P (derive2 P ck input).1 inputs) :
        c ∈ hmacCalls P ck (input :: inputs) :=
      mem_cons_of_mem _ (mem_cons_of_mem _ (mem_cons_of_mem _ later))
    -- what a later call is keyed with is not what the first call has returned
    have own {c : List UInt8 × List UInt8} (later : c ∈ hmacCalls P (derive2 P ck input).1 inputs) :
        c.1 ≠ (P.hmac ck.toList input).toList := by
      intro same
      rcases keyed_hmacCalls later with next | ⟨d, among, made⟩
      · have again := apart.distinct _ second _ first (Bytes.ext (next.symm.trans same))
        exact unlike (congrArg Prod.snd again).symm
      · obtain rfl := apart.distinct d (rest among) _ first (Bytes.ext (made.symm.trans same))
        rcases keyed_hmacCalls among with next | ⟨d, among, made⟩
        · exact apart.new _ second (Bytes.ext next.symm)
        · exact apart.new d (rest among) (Bytes.ext made.symm)
    refine nodup_cons.mpr ⟨?_, ih plain ⟨?_, ?_⟩⟩
    · intro again
      obtain ⟨c, later, same, -⟩ := call_of_chainKey again
      have third : _ ∈ hmacCalls P ck (input :: inputs) :=
        mem_cons_of_mem _ (mem_cons_of_mem _ mem_cons_self)
      exact own later (congrArg Prod.fst (apart.distinct _ third c (rest later) same)).symm
    · exact fun c here d there => apart.distinct c (rest here) d (rest there)
    · intro c later same
      exact own later (congrArg Prod.fst (apart.distinct c (rest later) _ second same))

theorem Scheduled.nodup {inputs keys : List (Bytes 32)} (scheduled : Scheduled P inputs keys)
    (apart : P.Apart protocolName (hmacCalls P protocolName (inputs.map Bytes.toList ++ [[]]))) :
    keys.Nodup := by
  have plain : ∀ input ∈ inputs.map Bytes.toList ++ [[]], input ≠ [1] := by
    rintro _ mem rfl
    obtain ⟨bytes, -, short⟩ : ∃ bytes ∈ inputs, bytes.toList = [1] := by simpa using mem
    have size := bytes.size
    rw [short] at size
    cases size
  have whole := apart.nodup plain
  rw [chainKeys_concat] at whole
  obtain ⟨handshake, -, -⟩ := nodup_append.mp whole
  rcases scheduled with rfl | rfl | rfl
  · exact handshake
  · refine nodup_append.mpr ⟨handshake, by simp, ?_⟩
    intro key among _ here same
    obtain rfl := mem_singleton.mp here
    have listed : key ∈ chainKeys P protocolName (inputs.map Bytes.toList ++ [[]]) := by
      rw [chainKeys_concat]
      exact mem_append_left _ among
    obtain ⟨c, called, made, long⟩ := call_of_chainKey listed
    have last := apart.distinct c called _ (mem_hmacCalls_last []) (made.symm.trans same)
    exact long (congrArg Prod.snd last)
  · exact whole

end Schedule

/-! ### The handshake -/

/-- The cipher counts soundly, and its keys are those of the schedule. -/
structure SymmetricState.Sound (P : Primitives) (state : SymmetricState) : Prop where
  cipher : state.cipher.Sound
  derived : ∃ inputs : List (Bytes 32),
    state.cipher.keys = chainKeys P protocolName (inputs.map Bytes.toList) ∧
      state.chainingKey = chainEnd P protocolName (inputs.map Bytes.toList)

namespace SymmetricState.Sound

variable {state : SymmetricState} (sound : state.Sound P)
include sound

theorem ciphered {cipher : CipherState} (counts : cipher.Sound)
    (same : cipher.keys = state.cipher.keys) (hash : Bytes 32) :
    (⟨state.chainingKey, hash, cipher⟩ : SymmetricState).Sound P := by
  obtain ⟨inputs, keys, ends⟩ := sound.derived
  exact ⟨counts, inputs, same.trans keys, ends⟩

theorem mixKey (input : Bytes 32) : (state.mixKey P input).Sound P := by
  obtain ⟨inputs, keys, ends⟩ := sound.derived
  refine ⟨sound.cipher.initializeKey _, inputs ++ [input], ?_, ?_⟩
  · rw [map_append, map_singleton, chainKeys_concat, ← keys, ← ends]
    rfl
  · rw [map_append, map_singleton, chainEnd_concat, ← ends]
    rfl

end SymmetricState.Sound

namespace HandshakeState

def config (state : HandshakeState P) : NoiseConfig P :=
  ⟨state.role, state.identity, state.localStatic, state.localEphemeral, state.expectedPeer⟩

def Follows (state state' : HandshakeState P) : Prop :=
  state'.config = state.config ∧ (state.symmetric.Sound P → state'.symmetric.Sound P)

/-- Whatever the code does, the handshake goes on, and a failure is terminal. -/
def Secure (m : M P α) : Prop :=
  ∀ state, wp m (fun _ state' => Follows state state')
    (fun e state' => e.isTerminal = true ∧ Follows state state') state

theorem Follows.refl (state : HandshakeState P) : Follows state state := ⟨rfl, id⟩

theorem Follows.trans {a b c : HandshakeState P} (ab : Follows a b) (bc : Follows b c) :
    Follows a c :=
  ⟨bc.1.trans ab.1, bc.2 ∘ ab.2⟩

theorem Secure.pure (a : α) : Secure (P := P) (Pure.pure a) := fun state => .refl state

theorem Secure.get : Secure (P := P) MonadState.get := fun state => .refl state

theorem Secure.throw {e : NoiseError} (terminal : e.isTerminal = true) :
    Secure (P := P) (α := α) (MonadExcept.throw e) :=
  fun state => ⟨terminal, .refl state⟩

theorem Secure.bind {m : M P α} {f : α → M P β} (first : Secure m) (next : ∀ a, Secure (f a)) :
    Secure (m >>= f) := by
  intro state
  rw [wp_bind]
  refine wp_imp (first state) ?_
  intro a middle follows
  refine wp_mono (next a middle) (fun _ _ => follows.trans) ?_
  rintro e state' ⟨terminal, more⟩
  exact ⟨terminal, follows.trans more⟩

theorem Secure.ofExcept {x : Except NoiseError α}
    (terminal : ∀ e, x = .error e → e.isTerminal = true) :
    Secure (P := P) (MonadExcept.ofExcept x) := by
  intro state
  rw [wp_ofExcept]
  exact ⟨fun _ _ => .refl state, fun e failed => ⟨terminal e failed, .refl state⟩⟩

theorem mixHash_secure (data : List UInt8) : Secure (P := P) (mixHash data) :=
  fun _ => ⟨rfl, fun sound => sound.ciphered sound.cipher rfl _⟩

theorem mixKey_secure (input : Bytes 32) : Secure (P := P) (mixKey input) :=
  fun _ => ⟨rfl, fun sound => sound.mixKey input⟩

theorem setStep_secure (step : Step) : Secure (P := P) (setStep step) := fun _ => ⟨rfl, id⟩

theorem setRemoteEphemeral_secure (remote : Bytes 32) :
    Secure (P := P) (setRemoteEphemeral remote) :=
  fun _ => ⟨rfl, id⟩

theorem encryptAndHash_secure (text : List UInt8) : Secure (P := P) (encryptAndHash text) := by
  intro state
  simp only [encryptAndHash, onSymmetric, SymmetricState.encryptAndHash, SymmetricState.onCipher,
    wp_part, wp_bind, wp_get, wp_modify, wp_pure]
  refine wp_of ?_ ?_
  · intro out cipher' ran
    refine ⟨rfl, fun sound => ?_⟩
    obtain ⟨counts, same⟩ := wp_ok sound.cipher.encrypt ran
    exact sound.ciphered counts same _
  · intro e cipher' ran
    refine ⟨(wp_error CipherState.encrypt_spec ran).1, rfl, fun sound => ?_⟩
    obtain ⟨-, counts, same⟩ := wp_error sound.cipher.encrypt ran
    exact sound.ciphered counts same _

theorem decryptAndHash_secure (text : List UInt8) : Secure (P := P) (decryptAndHash text) := by
  intro state
  simp only [decryptAndHash, onSymmetric, SymmetricState.decryptAndHash, SymmetricState.onCipher,
    wp_part, wp_bind, wp_get, wp_modify, wp_pure]
  refine wp_of ?_ ?_
  · intro out cipher' ran
    refine ⟨rfl, fun sound => ?_⟩
    obtain ⟨counts, same⟩ := wp_ok sound.cipher.decrypt ran
    exact sound.ciphered counts same _
  · intro e cipher' ran
    refine ⟨(wp_error CipherState.decrypt_spec ran).1, rfl, fun sound => ?_⟩
    obtain ⟨-, counts, same⟩ := wp_error sound.cipher.decrypt ran
    exact sound.ciphered counts same _

theorem dh_secure (secret remote : Bytes 32) :
    Secure (P := P) (MonadExcept.ofExcept (dh P secret remote)) :=
  .ofExcept fun _ => dh_terminal

theorem writeStatic_secure (remoteE : Bytes 32) : Secure (P := P) (writeStatic remoteE) :=
  .bind .get fun _ => .bind (encryptAndHash_secure _) fun _ => .bind (dh_secure _ _) fun _ =>
    .bind (mixKey_secure _) fun _ => .bind (encryptAndHash_secure _) fun _ => .pure _

theorem writeMessage2_secure : Secure (P := P) writeMessage2 :=
  .bind .get fun _ => .bind (.ofExcept fun _ => required_terminal) fun _ =>
    .bind (mixHash_secure _) fun _ => .bind (dh_secure _ _) fun _ =>
      .bind (mixKey_secure _) fun _ =>
    .bind (writeStatic_secure _) fun _ => .bind (setStep_secure _) fun _ => .pure _

theorem writeMessage3_secure : Secure (P := P) writeMessage3 :=
  .bind .get fun _ => .bind (.ofExcept fun _ => required_terminal) fun _ =>
    .bind (writeStatic_secure _) fun _ => .bind (setStep_secure _) fun _ => .pure _

theorem readStatic_secure (sealedStatic sealedPayload : List UInt8) :
    Secure (P := P) (readStatic sealedStatic sealedPayload) :=
  .bind (decryptAndHash_secure _) fun _ => .bind (.ofExcept fun _ => exactArray_terminal) fun _ =>
    .bind .get fun _ => .bind (dh_secure _ _) fun _ => .bind (mixKey_secure _) fun _ =>
    .bind (decryptAndHash_secure _) fun _ => .bind .get fun _ =>
    .ofExcept fun _ => verifyPayload_terminal

theorem readMessage2_secure (message : List UInt8) : Secure (P := P) (readMessage2 message) := by
  unfold readMessage2
  split
  · exact .throw rfl
  · exact .bind (.ofExcept fun _ => exactArray_terminal) fun _ =>
      .bind (setRemoteEphemeral_secure _) fun _ => .bind (mixHash_secure _) fun _ =>
      .bind .get fun _ => .bind (dh_secure _ _) fun _ => .bind (mixKey_secure _) fun _ =>
      readStatic_secure _ _

theorem readMessage3_secure (message : List UInt8) : Secure (P := P) (readMessage3 message) := by
  unfold readMessage3
  split
  · exact .throw rfl
  · exact .bind (readStatic_secure _ _) fun _ =>
      .bind (setStep_secure _) fun _ => .pure _

theorem finishWithPeer_secure (peer : PeerId) (identityKey : PublicKey) :
    Secure (P := P) (finishWithPeer peer identityKey) := by
  refine .bind .get fun state => ?_
  cases state.role <;> exact .pure _

theorem readMessage_secure (message : List UInt8) : Secure (P := P) (readMessage message) := by
  refine .bind .get fun state => ?_
  split
  · exact .bind (.ofExcept fun _ => exactArray_terminal) fun _ =>
      .bind (setRemoteEphemeral_secure _) fun _ => .bind (mixHash_secure _) fun _ =>
      .bind (decryptAndHash_secure _) fun _ => .bind (setStep_secure _) fun _ =>
      .bind writeMessage2_secure fun _ => .pure _
  · exact .bind (readMessage2_secure _) fun _ => .bind (setStep_secure _) fun _ =>
      .bind writeMessage3_secure fun _ => .bind (finishWithPeer_secure _ _) fun _ => .pure _
  · exact .bind (readMessage3_secure _) fun _ => .bind (finishWithPeer_secure _ _) fun _ => .pure _
  · exact .throw rfl

theorem start_secure {state : HandshakeState P}
    (ready : state.step = .initiatorWriteMessage1 ∨ state.step = .responderReadMessage1) :
    wp start (fun _ state' => Follows state state')
      (fun e state' => e.isTerminal = true ∧ Follows state state') state := by
  rw [start, wp_bind, wp_get]
  rcases ready with first | waits
  · rw [first]
    exact Secure.bind (mixHash_secure _) (fun _ => .bind (encryptAndHash_secure _) fun _ =>
      .bind (setStep_secure _) fun _ => .pure _) state
  · rw [waits]
    exact .refl state

end HandshakeState

end Noise
