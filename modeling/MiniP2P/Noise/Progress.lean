import MiniP2P.Noise.Pair

/-! How long an honest pair can be busy, and what it has come to: the channel between two honest
sessions, and the counters of any session. -/
namespace Noise
open Fallible Identity Incremental List Pair

variable {P : Primitives}

namespace Station

theorem deliver_moves (own : Station P) (count : Nat) : (own.deliver count).outputs = own.outputs ∧
      (own.deliver count).incoming.length ≤ own.incoming.length ∧
      (if own.session.started && count ≠ 0 && !own.incoming.isEmpty then 1 else 0) ≤
        own.incoming.length - (own.deliver count).incoming.length := by
  by_cases started : own.session.started = true
  · rw [deliver, if_pos started, length_drop]
    refine ⟨rfl, Nat.sub_le .., ?_⟩
    split
    · rename_i moves
      simp only [Bool.and_eq_true, decide_eq_true_eq, Bool.not_eq_true', isEmpty_eq_false_iff]
        at moves
      have nonempty := length_pos_iff.mpr moves.2
      omega
    · exact Nat.zero_le _
  · rw [deliver, Bool.eq_false_iff.mpr started]
    exact ⟨rfl, Nat.le_refl _, Nat.zero_le _⟩

theorem poll_moves (own : Station P) :
    (if !own.session.pending.isEmpty then 1 else 0) ≤ own.poll.1.toList.length := by
  cases pending : own.session.pending with
  | nil => exact Nat.zero_le _
  | cons output rest =>
    rw [poll, NoiseSession.pollOutput, pending]
    exact Nat.le_refl 1

theorem encrypt_moves (own : Station P) (plaintext : List UInt8) :
    (own.encrypt plaintext).outputs = own.outputs ∧
      (own.encrypt plaintext).incoming = own.incoming := by
  unfold encrypt
  split <;> exact ⟨rfl, rfl⟩

end Station

namespace Pair

variable {p : Pair P}

def moves (p : Pair P) : Action → Bool
  | .deliver role count =>
    (p role).session.started && count ≠ 0 && !(p role).incoming.isEmpty
  | .poll role => !(p role).session.pending.isEmpty
  | _ => false

def busy (p : Pair P) : List Action → Nat
  | [] => 0
  | action :: actions => (if p.moves action then 1 else 0) + busy (p.step action) actions

def flow (p : Pair P) (role : NoiseRole) : Nat :=
  (p role).outputs.length + ((wireOf (p role.other).outputs).length - (p role).incoming.length) +
    ((p role.other).outputs.length +
      ((wireOf (p role).outputs).length - (p role.other).incoming.length))

def Held (p : Pair P) (role : NoiseRole) : Prop :=
  (p role).incoming.length ≤ (wireOf (p role.other).outputs).length ∧
    (p role.other).incoming.length ≤ (wireOf (p role).outputs).length

theorem flow_seen (p : Pair P) (role side : NoiseRole) : p.flow role = p.flow side := by
  cases role <;> cases side <;> simp only [flow, NoiseRole.other] <;> omega

theorem Held.seen {role : NoiseRole} (held : p.Held role) (side : NoiseRole) : p.Held side := by
  cases role <;> cases side
  · exact held
  · exact held.symm
  · exact held.symm
  · exact held

section Put

variable {role : NoiseRole} {own' : Station P}

theorem flow_put (held : p.Held role) (outputs : own'.outputs = (p role).outputs)
    (incoming : own'.incoming.length ≤ (p role).incoming.length) :
    (p.put role own').Held role ∧
      p.flow role + ((p role).incoming.length - own'.incoming.length) ≤
        (p.put role own').flow role := by
  obtain ⟨here, there⟩ := held
  unfold Held flow
  rw [put_same, put_other, outputs]
  refine ⟨⟨?_, there⟩, ?_⟩ <;> omega

theorem flow_deliver (held : p.Held role) (count : Nat) : (p.step (.deliver role count)).Held role ∧
      p.flow role + (if p.moves (.deliver role count) then 1 else 0) ≤
        (p.step (.deliver role count)).flow role := by
  obtain ⟨outputs, incoming, less⟩ := (p role).deliver_moves count
  obtain ⟨held', more⟩ := flow_put held outputs incoming
  exact ⟨held', Nat.le_trans (Nat.add_le_add_left less _) more⟩

theorem flow_poll (held : p.Held role) : (p.step (.poll role)).Held role ∧
      p.flow role + (if p.moves (.poll role) then 1 else 0) ≤ (p.step (.poll role)).flow role := by
  obtain ⟨here, there⟩ := held
  have own : (p.step (.poll role) role).incoming = (p role).incoming ∧
      (p.step (.poll role) role).outputs = (p role).outputs ++ (p role).poll.1.toList := by
    rw [step, send, put_of_other, put_same]
    exact ⟨rfl, rfl⟩
  have other : (p.step (.poll role) role.other).incoming =
        (p role.other).incoming ++ wireOf (p role).poll.1.toList ∧
      (p.step (.poll role) role.other).outputs = (p role.other).outputs := by
    rw [step, send, put_same, put_other]
    exact ⟨rfl, rfl⟩
  have taken : (if p.moves (.poll role) then 1 else 0) ≤ (p role).poll.1.toList.length := by
    exact (p role).poll_moves
  unfold Held flow
  rw [own.1, own.2, other.1, other.2, wireOf_append]
  simp only [length_append]
  refine ⟨⟨here, ?_⟩, ?_⟩ <;> omega

end Put

theorem flow_step (held : p.Held .initiator) (action : Action) : (p.step action).Held .initiator ∧
      p.flow .initiator + (if p.moves action then 1 else 0) ≤ (p.step action).flow .initiator := by
  have moved (role : NoiseRole)
      (acts : (p.step action).Held role ∧
        p.flow role + (if p.moves action then 1 else 0) ≤ (p.step action).flow role) :
      (p.step action).Held .initiator ∧
        p.flow .initiator + (if p.moves action then 1 else 0) ≤
          (p.step action).flow .initiator := by
    rw [flow_seen p .initiator role, flow_seen (p.step action) .initiator role]
    exact ⟨acts.1.seen .initiator, acts.2⟩
  cases action with
  | start role =>
    obtain ⟨held', more⟩ := @flow_put _ p role (p role).start (held.seen role) rfl (Nat.le_refl _)
    exact moved role ⟨held', Nat.le_trans (Nat.le_add_right ..) more⟩
  | deliver role count => exact moved role (flow_deliver (held.seen role) count)
  | encrypt role plaintext =>
    obtain ⟨outputs, incoming⟩ := (p role).encrypt_moves plaintext
    obtain ⟨held', more⟩ := flow_put (held.seen role) outputs (Nat.le_of_eq (congrArg _ incoming))
    exact moved role ⟨held', Nat.le_trans (Nat.le_add_right ..) more⟩
  | poll role => exact moved role (flow_poll (held.seen role))

theorem busy_le (held : p.Held .initiator) (actions : List Action) :
    p.busy actions + p.flow .initiator ≤ (p.run actions).flow .initiator := by
  induction actions generalizing p with
  | nil => exact Nat.le_of_eq (Nat.zero_add _)
  | cons action actions ih =>
    obtain ⟨held', more⟩ := flow_step held action
    have rest := ih held'
    rw [busy, run, foldl_cons]
    rw [run] at rest
    omega

end Pair

/-! ### What there is to move -/

def Station.parcels (own : Station P) : Nat := (own.accepted.flatMap NoiseSession.segments).length

def Pair.traffic (p : Pair P) : Nat :=
  ((p .initiator).parcels + (p .responder).parcels + 3) * (maxFrameLen + 5)

variable {initiator responder : NoiseConfig P} {S : Script initiator responder} {role : NoiseRole}

theorem length_encodeAll {messages : List (List UInt8)}
    (legal : ∀ message ∈ messages, message.length ≤ maxFrameLen) :
    (frames.encodeAll messages).length ≤ messages.length * (maxFrameLen + 2) := by
  induction messages with
  | nil => exact Nat.zero_le _
  | cons message messages ih =>
    have first := legal message (mem_cons_self ..)
    have rest := ih fun other among => legal other (mem_cons_of_mem _ among)
    have size : (frames.encode message).length = 2 + message.length := by
      change (frame message).length = _
      rw [frame, length_append, BigEndian.length_toBytes]
    rw [Codec.encodeAll_cons, length_append, length_cons, Nat.add_mul]
    omega

theorem Speaks.length {sent segments : List (List UInt8)} (speaks : Speaks S role sent segments) :
    sent.length ≤ (S.speech role).length + segments.length := by
  obtain ⟨messages, encrypted, head⟩ := speaks
  have short := head.length_le
  rwa [length_append, encrypted.length] at short

theorem End.length (lawful : P.Lawful) {own other : Station P} {mine theirs : Record}
    {lost lostThere : List NoiseOutput} (here : End S role own other mine theirs lost lostThere) :
    own.outputs.length ≤ (S.speech role).length + mine.segments.length +
      theirs.segments.length + 1 ∧
      (wireOf own.outputs).length ≤
        ((S.speech role).length + mine.segments.length) * (maxFrameLen + 2) := by
  have sent := here.speaks.length
  have opened := here.opens.length_le
  have report := here.reports.length_le
  have legal := length_encodeAll (here.speaks.legal lawful)
  have kinds := length_outputs (own.outputs ++ (own.session.pending ++ lost))
  have wire := congrArg List.length here.told.wire
  rw [here.told.sent, here.told.opened, here.told.report, length_append, length_map] at kinds
  rw [wireOf_append, length_append] at wire
  rw [length_singleton] at report
  have scaled := Nat.mul_le_mul_right (maxFrameLen + 2) sent
  omega

variable {p : Pair P}

theorem Linked.flow_le (lawful : P.Lawful) (linked : Linked S .initiator p) :
    p.flow .initiator ≤ p.traffic := by
  obtain ⟨mine, theirs, lost, lostThere, here, there⟩ := linked
  obtain ⟨outputs, wire⟩ := here.length lawful
  obtain ⟨outputs', wire'⟩ := there.length lawful
  have parcels : mine.segments.length = (p .initiator).parcels := congrArg List.length here.accepted
  have parcels' : theirs.segments.length = (p .responder).parcels :=
    congrArg List.length there.accepted
  have two : (S.speech .initiator).length = 2 := rfl
  have one : (S.speech .responder).length = 1 := rfl
  simp only [NoiseRole.other, parcels, parcels', two, one] at outputs outputs' wire wire'
  simp only [flow, traffic, NoiseRole.other]
  have size : maxFrameLen = 65535 := rfl
  rw [size] at wire wire' ⊢
  omega

/-! ### The channel -/

structure Channel (initiator responder : NoiseConfig P) (p : Pair P) : Prop where
  carried : ∀ role, (decryptedOf (p role).outputs).flatten <+: (p role.other).accepted.flatten
  reported : ∀ role, reportsOf (p role).outputs <+: [(role.other.pick initiator responder).report]
  /-- A session fails only at the end of its counter. -/
  lasted : ∀ role, (p role).session.failed = true → Plays.Exhausted (p role).session
  lively : p.quiet = false → (∀ role, (p role).session.started = true) →
    ∃ action, p.moves action = true
  /-- When there is nothing more to do, both ends are complete, with ciphers that match in each
  direction, and have decrypted all that was encrypted. -/
  settled : p.quiet = true →
    (∀ role, (p role).session.started = true ∧ (p role).session.failed = false) →
    ∀ role, reportsOf (p role).outputs = [(role.other.pick initiator responder).report] ∧
      (decryptedOf (p role).outputs).flatten = (p role.other).accepted.flatten ∧
      ∃ send receive key nonce, (p role).session.sendCipher = some send ∧
        (p role.other).session.receiveCipher = some receive ∧ send.At key nonce ∧
          receive.At key nonce

theorem Pair.lively (unquiet : p.quiet = false)
    (started : ∀ role, (p role).session.started = true) : ∃ action, p.moves action = true := by
  have busy (role : NoiseRole)
      (own : (p role).quiet = false) : ∃ action, p.moves action = true := by
    simp only [Station.quiet, Bool.and_eq_false_iff] at own
    rcases own with pending | incoming
    · exact ⟨.poll role, by simp [moves, pending]⟩
    · exact ⟨.deliver role 1, by simp [moves, incoming, started role]⟩
  rw [quiet, Bool.and_eq_false_iff] at unquiet
  rcases unquiet with first | second
  · exact busy .initiator first
  · exact busy .responder second

theorem Linked.channel (lawful : P.Lawful) (linked : Linked S role p) :
    Channel initiator responder p where
  carried side := (linked.seen side).carried
  reported side := (linked.seen side).reported
  lasted side failed := (linked.seen side).lasted failed
  lively := lively
  settled quiet going side := (linked.seen side).settled lawful quiet going

/-! ### The counters -/

namespace NoiseSession

def record (session : NoiseSession P) : CipherState :=
  match session.sendCipher, session.handshake with
  | some cipher, _ => cipher
  | none, some state => state.symmetric.cipher
  | none, none => .new

variable {session : NoiseSession P}

theorem Sound.record (sound : session.Sound) :
    session.record.Sound ∧ ∃ inputs, Scheduled P inputs session.record.keys := by
  unfold NoiseSession.record
  split
  · obtain ⟨counts, -, scheduled⟩ := sound.send _ ‹_›
    exact ⟨counts, scheduled⟩
  · obtain ⟨counts, inputs, keys, -⟩ := sound.handshake _ ‹_›
    exact ⟨counts, inputs, .inl keys⟩
  · exact ⟨CipherState.new_sound, [], .inl rfl⟩

theorem encrypt_exhausted {cipher : CipherState} {key : Bytes 32}
    (running : session.failed = false) (sends : session.sendCipher = some cipher)
    (keyed : cipher.key = some key) (last : cipher.nonce = maxNonce) (plaintext : List UInt8) :
    session.handleInput (.encrypt plaintext) =
      (.error .nonceExhausted, { session with failed := true, pending := [] }) := by
  obtain ⟨segment, segments, cut⟩ := exists_cons_of_ne_nil (segments_ne_nil plaintext)
  have ends : encryptLoop (segment :: segments) session = .error .nonceExhausted session := by
    refine failed_of_wp ?_
    rw [encryptLoop, wp_bind, encryptSegment, wp_bind, onSendCipher, wp_partOf sends,
      wp_failed (CipherState.encrypt_exhausted keyed last)]
    exact ⟨rfl, by rw [← sends]⟩
  rw [handleInput, running, handle, encrypt, cut, ends]
  rfl

end NoiseSession

def plainPrimitives : Primitives where
  sha256 bytes := .replicate 32 (UInt8.ofNat bytes.length)
  verifyingKey secret := secret
  sign _ _ := .replicate 64 0
  isVerifyingKey _ := true
  verifyStrict _ _ _ := true
  hmac key data := .replicate 32 (key.headD 0 * 3 + UInt8.ofNat data.length)
  publicKey secret := secret
  diffieHellman _ _ := .replicate 32 1
  encrypt _ _ _ text := some (text ++ List.replicate 16 0)
  decrypt _ _ _ text := some (text.take (text.length - 16))

theorem plainPrimitives_lawful : plainPrimitives.Lawful where
  dh_comm _ _ := rfl
  dh_nonzero _ _ := rfl
  encrypts _ _ _ text _ := ⟨_, rfl, by rw [length_append, length_replicate]⟩
  decrypts _ _ _ text out encrypted := by
    cases encrypted
    simp [plainPrimitives]
  verifies _ _ := ⟨rfl, rfl⟩

def plainConfig (role : NoiseRole) (secret : UInt8) : NoiseConfig plainPrimitives where
  role := role
  identity := .fromSecretKeyBytes _ (.replicate 32 secret)
  staticSecret := .replicate 32 (secret + 1)
  ephemeralSecret := .replicate 32 (secret + 2)
  expectedPeer := none

def greeting : List Action :=
  [.start .initiator, .start .responder, .poll .initiator, .deliver .responder 34, .poll .responder,
    .deliver .initiator 7, .deliver .initiator 1000, .encrypt .initiator [1, 2, 3],
    .poll .initiator,
    .poll .initiator, .poll .initiator, .deliver .responder 1000, .poll .responder,
    .poll .responder]

def sharedSecrets : List (Bytes 32) := List.replicate 3 (.replicate 32 1)

end Noise
