import MiniP2P.Noise.Agreement

/-! A session opposite an honest one: what it has read, opened, sent and reported at each point
of the handshake and after it. -/
namespace Noise
open Fallible Identity Incremental List CipherState NoiseRole NoiseSession

variable {P : Primitives}

/-! ### Messages under one key -/

/-- From this counter on, the segments are encrypted to the messages. -/
inductive Sealed (P : Primitives) (key : Bytes 32) :
    Nat → List (List UInt8) → List (List UInt8) → Prop
  | nil {nonce : Nat} : Sealed P key nonce [] []
  | cons {nonce : Nat} {segment message : List UInt8} {segments messages : List (List UInt8)}
      (more : nonce ≠ maxNonce) (fits : segment.length ≤ maxTransportPlaintext)
      (encrypted : P.encrypt key (nonceBytes nonce) [] segment = some message)
      (rest : Sealed P key (nonce + 1) segments messages) :
      Sealed P key nonce (segment :: segments) (message :: messages)

variable {message : List UInt8} {sent segments : List (List UInt8)} {new : List NoiseOutput}

namespace Sealed

variable {key : Bytes 32} {nonce : Nat} {segments messages opened read : List (List UInt8)}

theorem length (run : Sealed P key nonce segments messages) :
    messages.length = segments.length := by
  induction run with
  | nil => rfl
  | cons _ _ _ _ ih => rw [length_cons, length_cons, ih]

theorem append (run : Sealed P key nonce segments messages) {segment : List UInt8}
    (more : nonce + segments.length ≠ maxNonce) (fits : segment.length ≤ maxTransportPlaintext)
    (encrypted : P.encrypt key (nonceBytes (nonce + segments.length)) [] segment =
      some message) : Sealed P key nonce (segments ++ [segment]) (messages ++ [message]) := by
  induction run with
  | nil => exact .cons more fits encrypted .nil
  | cons room small first _ ih =>
    rw [length_cons, Nat.add_comm _ 1, ← Nat.add_assoc] at more encrypted
    exact .cons room small first (ih more encrypted)

theorem legal (lawful : P.Lawful) (run : Sealed P key nonce segments messages) :
    ∀ message ∈ messages, message.length ≤ maxFrameLen := by
  induction run with
  | nil => nofun
  | cons _ small encrypted _ ih =>
    obtain ⟨out, same, size⟩ := lawful.encrypts key _ [] _ small
    rw [encrypted] at same
    cases same
    intro other among
    rcases mem_cons.mp among with rfl | later
    · rw [size]
      exact Nat.le_trans (Nat.add_le_add_right small 16) (by decide)
    · exact ih other later

theorem next (run : Sealed P key nonce segments messages) (reads : Sealed P key nonce opened read)
    (head : read ++ [message] <+: messages) :
    ∃ segment, segment.length ≤ maxTransportPlaintext ∧ nonce + opened.length ≠ maxNonce ∧
      P.encrypt key (nonceBytes (nonce + opened.length)) [] segment = some message := by
  induction reads generalizing segments messages with
  | nil =>
    cases run with
    | nil => exact absurd head (by simp)
    | cons more small encrypted _ =>
      obtain rfl : message = _ := by simpa using head
      exact ⟨_, small, more, encrypted⟩
  | cons _ _ encrypted _ ih =>
    cases run with
    | nil => exact absurd head (by simp)
    | cons more small encrypted' rest =>
      rw [cons_append, cons_prefix_cons] at head
      rw [length_cons, Nat.add_comm _ 1, ← Nat.add_assoc]
      exact ih rest head.2

theorem opens (lawful : P.Lawful) (run : Sealed P key nonce segments messages)
    (reads : Sealed P key nonce opened read) (head : read <+: messages) : opened <+: segments := by
  induction reads generalizing segments messages with
  | nil => exact nil_prefix
  | cons _ _ encrypted _ ih =>
    cases run with
    | nil => exact absurd head (by simp)
    | cons _ _ encrypted' rest =>
      obtain ⟨rfl, tail⟩ := cons_prefix_cons.mp head
      have first := lawful.decrypts _ _ _ _ _ encrypted
      rw [lawful.decrypts _ _ _ _ _ encrypted'] at first
      cases first
      exact cons_prefix_cons.mpr ⟨rfl, ih rest tail⟩

end Sealed

/-! ### What an end has done -/

structure Record where
  read : List (List UInt8)
  opened : List (List UInt8)
  sent : List (List UInt8)
  segments : List (List UInt8)
  report : Option (PeerId × PublicKey)

namespace NoiseRole

def other : NoiseRole → NoiseRole
  | initiator => responder
  | responder => initiator

def pick {α : Type} (a b : α) : NoiseRole → α
  | initiator => a
  | responder => b

end NoiseRole

def NoiseConfig.report (config : NoiseConfig P) : PeerId × PublicKey :=
  (config.identity.peerId, config.identity.publicKey)

variable {initiator responder : NoiseConfig P}

namespace Script

variable (S : Script initiator responder)

def speech (role : NoiseRole) : List (List UInt8) :=
  role.pick [S.message1, S.message3] [S.message2]

def key (role : NoiseRole) : Bytes 32 := role.pick S.forward S.backward

end Script

variable {S : Script initiator responder} {session : NoiseSession P} {role : NoiseRole}
  {record : Record}

inductive Plays (S : Script initiator responder) (session : NoiseSession P) :
    NoiseRole → Record → Prop
  | idle {role : NoiseRole} (started : session.started = false)
      (handshake : session.handshake = some (.new (role.pick initiator responder)))
      (send : session.sendCipher = none) (receive : session.receiveCipher = none) :
      Plays S session role ⟨[], [], [], [], none⟩
  | opened (started : session.started = true) (handshake : session.handshake = some S.opened)
      (send : session.sendCipher = none) (receive : session.receiveCipher = none) :
      Plays S session .initiator ⟨[], [], [S.message1], [], none⟩
  | waiting (started : session.started = true)
      (handshake : session.handshake = some (.new responder))
      (send : session.sendCipher = none) (receive : session.receiveCipher = none) :
      Plays S session .responder ⟨[], [], [], [], none⟩
  | answered (started : session.started = true) (handshake : session.handshake = some S.answered)
      (send : session.sendCipher = none) (receive : session.receiveCipher = none) :
      Plays S session .responder ⟨[S.message1], [], [S.message2], [], none⟩
  | complete {role : NoiseRole} {send receive : CipherState}
      {opened segments read sent : List (List UInt8)} (started : session.started = true)
      (handshake : session.handshake = none) (sends : session.sendCipher = some send)
      (receives : session.receiveCipher = some receive)
      (sendAt : send.At (S.key role) segments.length)
      (receiveAt : receive.At (S.key role.other) opened.length)
      (encrypted : Sealed P (S.key role) 0 segments sent)
      (decrypted : Sealed P (S.key role.other) 0 opened read) :
      Plays S session role ⟨S.speech role.other ++ read, opened, S.speech role ++ sent, segments,
        some (role.other.pick initiator responder).report⟩

def Speaks (S : Script initiator responder) (role : NoiseRole) (sent segments : List (List UInt8)) :
    Prop :=
  ∃ messages, Sealed P (S.key role) 0 segments messages ∧ sent <+: S.speech role ++ messages

theorem Plays.speaks (plays : Plays S session role record) :
    Speaks S role record.sent record.segments := by
  cases plays with
  | idle | waiting => exact ⟨[], .nil, nil_prefix⟩
  | opened => exact ⟨[], .nil, [S.message3], rfl⟩
  | answered => exact ⟨[], .nil, prefix_refl _⟩
  | complete _ _ _ _ _ _ encrypted _ => exact ⟨_, encrypted, prefix_refl _⟩

theorem Speaks.legal (lawful : P.Lawful) (speaks : Speaks S role sent segments) :
    ∀ message ∈ sent, message.length ≤ maxFrameLen := by
  obtain ⟨messages, encrypted, head⟩ := speaks
  obtain ⟨short1, short2, short3⟩ := S.short
  intro message among
  rcases mem_append.mp (head.subset among) with early | late
  · cases role <;> simp [Script.speech, pick] at early
    · rcases early with rfl | rfl
      · exact short1
      · exact short3
    · subst early
      exact short2
  · exact encrypted.legal lawful message late

/-! ### What its outputs say -/

variable (outputs : List NoiseOutput)

def outboundOf : List (List UInt8) := outputs.filterMap fun
  | .outbound bytes => some bytes
  | _ => none

def wireOf : List UInt8 := (outboundOf outputs).flatten

def decryptedOf : List (List UInt8) := outputs.filterMap fun
  | .decrypted plaintext => some plaintext
  | _ => none

def reportsOf : List (PeerId × PublicKey) := outputs.filterMap fun
  | .handshakeComplete peer identityKey => some (peer, identityKey)
  | _ => none

@[simp] theorem outboundOf_append (a b : List NoiseOutput) :
    outboundOf (a ++ b) = outboundOf a ++ outboundOf b := filterMap_append

@[simp] theorem wireOf_append (a b : List NoiseOutput) :
    wireOf (a ++ b) = wireOf a ++ wireOf b := by
  rw [wireOf, outboundOf_append, flatten_append]
  rfl

@[simp] theorem decryptedOf_append (a b : List NoiseOutput) :
    decryptedOf (a ++ b) = decryptedOf a ++ decryptedOf b := filterMap_append

@[simp] theorem reportsOf_append (a b : List NoiseOutput) :
    reportsOf (a ++ b) = reportsOf a ++ reportsOf b := filterMap_append

theorem length_outputs : outputs.length =
    (outboundOf outputs).length + (decryptedOf outputs).length + (reportsOf outputs).length := by
  induction outputs with
  | nil => rfl
  | cons output outputs ih =>
    rw [← singleton_append, length_append, ih, outboundOf_append, decryptedOf_append,
      reportsOf_append, length_append]
    cases output <;> simp [outboundOf, decryptedOf, reportsOf] <;> omega

structure Told (record : Record) (outputs : List NoiseOutput) : Prop where
  sent : outboundOf outputs = record.sent.map frame
  opened : decryptedOf outputs = record.opened
  report : reportsOf outputs = record.report.toList

structure Adds (record record' : Record) (new : List NoiseOutput) : Prop where
  sent : ∃ extra, record'.sent = record.sent ++ extra ∧ outboundOf new = extra.map frame
  opened : record'.opened = record.opened ++ decryptedOf new
  report : record'.report.toList = record.report.toList ++ reportsOf new

variable {outputs : List NoiseOutput}

theorem Told.wire (told : Told record outputs) : wireOf outputs = frames.encodeAll record.sent := by
  rw [wireOf, told.sent]
  rfl

theorem Adds.wire {record' : Record} (adds : Adds record record' new) :
    ∃ extra, record'.sent = record.sent ++ extra ∧ wireOf new = frames.encodeAll extra := by
  obtain ⟨extra, sent, outbound⟩ := adds.sent
  refine ⟨extra, sent, ?_⟩
  rw [wireOf, outbound]
  rfl

theorem Adds.refl (record : Record) : Adds record record [] :=
  ⟨⟨[], (append_nil _).symm, rfl⟩, (append_nil _).symm, (append_nil _).symm⟩

theorem Adds.trans {a b c : Record} {new' : List NoiseOutput} (first : Adds a b new)
    (second : Adds b c new') : Adds a c (new ++ new') := by
  obtain ⟨extra, sent, wire⟩ := first.sent
  obtain ⟨extra', sent', wire'⟩ := second.sent
  refine ⟨⟨extra ++ extra', ?_, ?_⟩, ?_, ?_⟩
  · rw [sent', sent, append_assoc]
  · rw [outboundOf_append, wire, wire', map_append]
  · rw [second.opened, first.opened, decryptedOf_append, append_assoc]
  · rw [second.report, first.report, reportsOf_append, append_assoc]

theorem Told.adds {record' : Record} (told : Told record outputs)
    (adds : Adds record record' new) : Told record' (outputs ++ new) := by
  obtain ⟨extra, sent, wire⟩ := adds.sent
  refine ⟨?_, ?_, ?_⟩
  · rw [outboundOf_append, told.sent, sent, wire, map_append]
  · rw [decryptedOf_append, told.opened, adds.opened]
  · rw [reportsOf_append, told.report, adds.report]

/-! ### Steps -/

namespace Plays

structure Reads (S : Script initiator responder)
    (role : NoiseRole) (session session' : NoiseSession P)
    (record record' : Record) (message : List UInt8) (new : List NoiseOutput) : Prop where
  plays : Plays S session' role record'
  read : record'.read = record.read ++ [message]
  segments : record'.segments = record.segments
  adds : Adds record record' new
  pending : session'.pending = session.pending ++ new
  decoder : session'.decoder = session.decoder
  failed : session'.failed = session.failed

/-- What a message sent and a handshake concluded put out. -/
def tellings (out : Option (List UInt8)) (result : Option HandshakeResult) : List NoiseOutput :=
  (out.map fun message => .outbound (Noise.frame message)).toList ++
    (result.map fun result => .handshakeComplete result.peer result.identityKey).toList

theorem receiveFrame_reads {state state' : HandshakeState P} {message : List UInt8}
    {out : Option (List UInt8)} {result : Option HandshakeResult}
    (handshake : session.handshake = some state) (send : session.sendCipher = none)
    (receive : session.receiveCipher = none) (fits : ∀ m, out = some m → m.length ≤ maxFrameLen)
    (read : HandshakeState.readMessage message state = .ok (out, result) state') :
    receiveFrame message session = .ok () { session with
      handshake := if result.isSome then none else some state'
      sendCipher := result.map (·.send)
      receiveCipher := result.map (·.receive)
      pending := session.pending ++ tellings out result } := by
  refine ran_of_wp ?_
  cases out with
  | none | some out =>
    cases result <;>
      simp [receiveFrame, isHandshakeComplete, onHandshake, sendFrame, completeHandshake,
        push, wp_bind, wp_get, send, receive, wp_partOf handshake, wp_ran read, encodeFrame_eq,
        fits, wp_ofExcept_ok,
        wp_modify, wp_pure, tellings]

theorem receiveFrame_decrypts {send receive receive' : CipherState} {plaintext : List UInt8}
    (sends : session.sendCipher = some send) (receives : session.receiveCipher = some receive)
    (decrypted : decryptWithAd P [] message receive = .ok plaintext receive') :
    receiveFrame message session = .ok () { session with
      receiveCipher := some receive'
      pending := session.pending ++ [.decrypted plaintext] } := by
  have complete : session.isHandshakeComplete = true := by
    rw [isHandshakeComplete, sends, receives]
    rfl
  refine ran_of_wp ?_
  simp only [receiveFrame, complete, if_true, onReceiveCipher,
    push, wp_bind, wp_get, wp_partOf receives, wp_ran decrypted, wp_modify, and_self]

variable {session' : NoiseSession P}

theorem handleInput_ok {input : NoiseInput}
    (running : session.failed = false) (ran : handle input session = .ok () session') :
    session.handleInput input = (.ok (), session') := by
  rw [handleInput, running, if_neg (by decide), ran]

theorem start_begins {config : NoiseConfig P} {state : HandshakeState P} {out : Option (List UInt8)}
    (unstarted : session.started = false) (handshake : session.handshake = some (.new config))
    (fits : ∀ m, out = some m → m.length ≤ maxFrameLen)
    (begins : HandshakeState.start (.new config) = .ok out state) :
    NoiseSession.start session = .ok () { session with
      started := true
      handshake := some state
      pending := session.pending ++ tellings out none } := by
  have kept : ({ session with started := true } : NoiseSession P).handshake = some (.new config) :=
    handshake
  refine ran_of_wp ?_
  rw [NoiseSession.start, wp_bind, wp_get, unstarted, if_neg (by decide), wp_bind,
    wp_modify, wp_bind, onHandshake, wp_partOf kept, wp_ran begins]
  cases out <;> simp [sendFrame, push, encodeFrame_eq, fits, wp_bind, wp_ofExcept_ok, wp_modify,
    wp_pure, tellings]

theorem frame (lawful : P.Lawful) (plays : Plays S session role record)
    (started : session.started = true) (speaks : Speaks S role.other sent segments)
    (head : record.read ++ [message] <+: sent) :
    ∃ session' record' new, receiveFrame message session = .ok () session' ∧
      Reads S role session session' record record' message new := by
  obtain ⟨messages, encrypted', whole⟩ := speaks
  have next := head.trans whole
  obtain ⟨short1, short2, short3⟩ := S.short
  cases plays with
  | idle unstarted => rw [started] at unstarted; cases unstarted
  | opened _ handshake send receive =>
    obtain rfl : message = S.message2 := by
      simpa [Script.speech, pick, other] using next
    refine ⟨_, _, _, receiveFrame_reads handshake send receive
      (by rintro _ ⟨⟩; exact short3) S.concludes, @complete _ _ _ S _ .initiator S.initiated.send
        S.initiated.receive [] [] [] [] started rfl rfl rfl
        S.forwards.1 S.backwards.2 .nil .nil, rfl, rfl, ⟨⟨[S.message3], rfl, rfl⟩, rfl, ?_⟩,
          rfl, rfl, rfl⟩
    rw [tellings, Option.map_some, Option.map_some, S.found.1, S.found.2]
    rfl
  | waiting _ handshake send receive =>
    obtain rfl : message = S.message1 := by
      simpa [Script.speech, pick, other] using next
    exact ⟨_, _, _, receiveFrame_reads handshake send receive
      (by rintro _ ⟨⟩; exact short2) S.answers, .answered started rfl rfl rfl, rfl, rfl,
        ⟨⟨[S.message2], rfl, rfl⟩, rfl, rfl⟩, rfl, rfl, rfl⟩
  | answered _ handshake send receive =>
    obtain rfl : message = S.message3 := by
      simpa [Script.speech, pick, other] using next
    refine ⟨_, _, _, receiveFrame_reads handshake send receive (by nofun) S.accepts,
      @complete _ _ _ S _ .responder S.responded.send S.responded.receive [] [] []
      [] started rfl rfl rfl
        S.backwards.1 S.forwards.2 .nil .nil, rfl, rfl, ⟨⟨[], rfl, rfl⟩, rfl, ?_⟩, rfl, rfl, rfl⟩
    rw [tellings, Option.map_some, S.known.1, S.known.2]
    rfl
  | @complete role send receive opened segments' read sent' _ handshake sends receives
    sendAt receiveAt
      encrypted decrypted =>
    rw [append_assoc, prefix_append_right_inj] at next
    obtain ⟨segment, small, more, made⟩ := encrypted'.next decrypted next
    obtain ⟨keyed, counted⟩ := receiveAt
    have opens := lawful.decrypts _ _ _ _ _ made
    have room := more
    rw [Nat.zero_add, ← counted] at room opens
    have ran := decrypt_ran keyed room opens
    refine ⟨_, ⟨S.speech role.other ++ (read ++ [message]), opened ++ [segment],
      S.speech role ++ sent', segments', _⟩, [.decrypted segment],
      receiveFrame_decrypts sends receives ran,
      .complete started handshake sends rfl sendAt ⟨keyed, ?_⟩ encrypted
        (decrypted.append more small made),
      (append_assoc ..).symm, rfl,
      ⟨⟨[], (append_nil _).symm, rfl⟩, rfl, (append_nil _).symm⟩, rfl, rfl, rfl⟩
    rw [length_append, ← counted]
    rfl

theorem congr (plays : Plays S session role record)
    (started : session'.started = session.started)
    (handshake : session'.handshake = session.handshake)
    (send : session'.sendCipher = session.sendCipher)
    (receive : session'.receiveCipher = session.receiveCipher) : Plays S session' role record := by
  cases plays with
  | idle a b c d =>
    exact .idle (started.trans a) (handshake.trans b) (send.trans c) (receive.trans d)
  | opened a b c d =>
    exact .opened (started.trans a) (handshake.trans b) (send.trans c) (receive.trans d)
  | waiting a b c d =>
    exact .waiting (started.trans a) (handshake.trans b) (send.trans c) (receive.trans d)
  | answered a b c d =>
    exact .answered (started.trans a) (handshake.trans b) (send.trans c) (receive.trans d)
  | complete a b c d sendAt receiveAt encrypted decrypted =>
    exact .complete (started.trans a) (handshake.trans b) (send.trans c) (receive.trans d) sendAt
      receiveAt encrypted decrypted

theorem started (plays : Plays S session role record) (nonempty : record.read ≠ []) :
    session.started = true := by
  cases plays with
  | idle => contradiction
  | opened started | waiting started | answered started | complete started => exact started

end Plays

/-- A session between calls, opposite an end that has sent these messages, of whose bytes it has
yet to be fed the last. -/
structure Stands (S : Script initiator responder) (role : NoiseRole) (session : NoiseSession P)
    (record : Record) (sent : List (List UInt8)) (more : List UInt8) : Prop where
  plays : Plays S session role record
  running : session.failed = false
  valid : session.decoder.Valid
  rests : parseFrame session.decoder.unread = .ok none
  stream : ∃ rest, sent = record.read ++ rest ∧
    session.decoder.unread ++ more = frames.encodeAll rest

namespace Stands

theorem loop (lawful : P.Lawful) {sent segments rest : List (List UInt8)} {more : List UInt8}
    (speaks : Speaks S role.other sent segments) {fuel : Nat}
    (plays : Plays S session role record) (started : session.started = true)
    (running : session.failed = false) (valid : session.decoder.Valid)
    (enough : session.decoder.unread.length ≤ fuel) (split : sent = record.read ++ rest)
    (stream : session.decoder.unread ++ more = frames.encodeAll rest) :
    ∃ session' record' new, receiveLoop fuel session = .ok () session' ∧
      Stands S role session' record' sent more ∧ session'.started = true ∧
      record'.segments = record.segments ∧ Adds record record' new ∧
      session'.pending = session.pending ++ new := by
  induction fuel generalizing session record rest with
  | zero =>
    have empty : session.decoder.unread = [] := length_eq_zero_iff.mp (by omega)
    exact ⟨session, record, [], rfl, ⟨plays, running, valid, by rw [empty]; rfl, rest,
      split, stream⟩, started, rfl, .refl record, (append_nil _).symm⟩
  | succ fuel ih =>
    cases found : session.decoder.nextFrame with
    | none =>
      refine ⟨session, record, [], ran_of_wp ?_,
        ⟨plays, running, valid, FrameDecoder.parse_of_none found, rest, split,
        stream⟩, started, rfl,
        .refl record, (append_nil _).symm⟩
      simp only [receiveLoop, wp_bind, wp_get, found, wp_pure, and_self]
    | some next =>
      obtain ⟨message, decoder⟩ := next
      obtain ⟨parsed, valid'⟩ := FrameDecoder.parse_of_some found
      have legal : ∀ message ∈ rest, frames.Legal message := fun message among =>
        speaks.legal lawful message (by rw [split]; exact mem_append_right _ among)
      rcases frames.parse_stream legal stream with ⟨waits, -⟩
          | ⟨first, rest, left, rfl, parses, stream'⟩
      · exact absurd (waits.symm.trans parsed) (by simp)
      · cases parses.symm.trans parsed
        have shorter : decoder.unread.length < session.decoder.unread.length :=
          frames.shrinks parsed
        have kept : Plays S { session with decoder } role record := plays.congr rfl rfl rfl rfl
        obtain ⟨session₁, record₁, new, ran, reads⟩ := kept.frame lawful started speaks
          ⟨rest, by rw [split, append_assoc]; rfl⟩
        have started₁ : session₁.started = true := reads.plays.started (by simp [reads.read])
        have split₁ : sent = record₁.read ++ rest := by
          rw [split, reads.read, append_assoc]
          rfl
        have stream₁ : session₁.decoder.unread ++ more = frames.encodeAll rest := by
          rw [reads.decoder]
          exact stream'
        have valid₁ : session₁.decoder.Valid := by
          rw [reads.decoder]
          exact valid'
        obtain ⟨session', record', new', ran', stands, started', segments', adds, pending⟩ :=
          ih reads.plays started₁ (reads.failed.trans running) valid₁
            (by rw [reads.decoder]; dsimp only; omega) split₁ stream₁
        refine ⟨session', record', new ++ new', ran_of_wp ?_, stands, started',
          segments'.trans reads.segments, reads.adds.trans adds, ?_⟩
        · simp only [receiveLoop, wp_bind, wp_get, found, wp_modify, wp_ran ran,
            wp_ran ran', and_self]
        · rw [pending, reads.pending, append_assoc]

variable {sent segments : List (List UInt8)} {bytes more : List UInt8}

theorem receive (lawful : P.Lawful) (stands : Stands S role session record sent (bytes ++ more))
    (started : session.started = true) (speaks : Speaks S role.other sent segments) :
    ∃ session' record' new, session.handleInput (.data bytes) = (.ok (), session') ∧
      Stands S role session' record' sent more ∧ session'.started = true ∧
      record'.segments = record.segments ∧ Adds record record' new ∧
      session'.pending = session.pending ++ new := by
  obtain ⟨plays, running, valid, -, rest, split, stream⟩ := stands
  obtain ⟨unread, valid'⟩ := FrameDecoder.unread_push valid bytes
  have kept : Plays S { session with decoder := session.decoder.push bytes } role record :=
    plays.congr rfl rfl rfl rfl
  obtain ⟨session', record', new, ran, stands', facts⟩ :=
    loop lawful speaks kept started running valid' (Nat.le_refl _) split
      (by rw [unread, append_assoc]; exact stream)
  have received : NoiseSession.receive bytes session = .ok () session' := by
    refine ran_of_wp ?_
    rw [NoiseSession.receive, wp_bind, wp_get, wp_ite]
    refine ⟨fun unstarted => ?_, fun _ => ?_⟩
    · rw [started] at unstarted
      cases unstarted
    · rw [wp_bind, wp_modify, wp_bind, wp_get, wp_ran ran]
      exact ⟨rfl, rfl⟩
  exact ⟨session', record', new, Plays.handleInput_ok running received, stands', facts⟩

theorem start (stands : Stands S role session record sent more) :
    ∃ answer session' record' new, session.handleInput .start = (answer, session') ∧
      Stands S role session' record' sent more ∧ session'.started = true ∧
      record'.read = record.read ∧ record'.segments = record.segments ∧ Adds record record' new ∧
      session'.pending = session.pending ++ new ∧ (session.started = false → answer = .ok ()) := by
  obtain ⟨plays, running, valid, rests, rest, split, stream⟩ := stands
  cases started : session.started with
  | true =>
    have misuse : NoiseSession.start session = .error .alreadyStarted session := by
      refine failed_of_wp ?_
      simp only [NoiseSession.start, wp_bind, wp_get, started, if_true, wp_throw, and_self]
    refine ⟨.error .alreadyStarted, session, record, [], ?_,
      ⟨plays, running, valid, rests, rest, split, stream⟩, started, rfl, rfl, .refl record,
      (append_nil _).symm, by simp⟩
    rw [handleInput, running, handle, misuse]
    rfl
  | false =>
    cases plays with
    | opened begun | waiting begun | answered begun | complete begun =>
      rw [started] at begun; cases begun
    | idle _ handshake send receive =>
      cases role with
      | initiator =>
        exact ⟨.ok (), _, ⟨[], [], [S.message1], [], none⟩, _,
          Plays.handleInput_ok running
            (Plays.start_begins started handshake (by rintro _ ⟨⟩; exact S.short.1) S.opens),
          ⟨.opened rfl rfl send receive, running, valid, rests, rest, split, stream⟩, rfl, rfl, rfl,
          ⟨⟨[S.message1], rfl, rfl⟩, rfl, rfl⟩, rfl, fun _ => rfl⟩
      | responder =>
        exact ⟨.ok (), _, ⟨[], [], [], [], none⟩, _,
          Plays.handleInput_ok running (Plays.start_begins started handshake (by simp) S.waits),
          ⟨.waiting rfl rfl send receive, running, valid, rests, rest, split, stream⟩,
          rfl, rfl, rfl,
          .refl _, rfl, fun _ => rfl⟩

end Stands

namespace Plays

structure Sends (S : Script initiator responder)
    (role : NoiseRole) (session session' : NoiseSession P)
    (record record' : Record) (segments : List (List UInt8)) (new : List NoiseOutput) : Prop where
  plays : Plays S session' role record'
  read : record'.read = record.read
  segments : record'.segments = record.segments ++ segments
  adds : Adds record record' new
  pending : session'.pending = session.pending ++ new
  decoder : session'.decoder = session.decoder
  failed : session'.failed = session.failed
  started : session'.started = session.started

def Exhausted (session : NoiseSession P) : Prop :=
  ∃ cipher, session.sendCipher = some cipher ∧ cipher.nonce = maxNonce

theorem encryptSegment (lawful : P.Lawful) (plays : Plays S session role record)
    {cipher : CipherState} (sends : session.sendCipher = some cipher) {segment : List UInt8}
    (fits : segment.length ≤ maxTransportPlaintext) :
    wp (encryptSegment segment)
      (fun _ session' => session'.sendCipher.isSome ∧
        ∃ record' new, Sends S role session session' record record' [segment] new)
      (fun e session' => e = .nonceExhausted ∧ Exhausted session') session := by
  cases plays with
  | idle _ _ nothing | opened _ _ nothing | waiting _ _ nothing | answered _ _ nothing =>
    rw [sends] at nothing; cases nothing
  | @complete role cipher' receive opened segments read sent started handshake sends'
    receives sendAt
      receiveAt encrypted decrypted =>
    cases sends.symm.trans sends'
    obtain ⟨keyed, counted⟩ := sendAt
    rw [encryptSegment, wp_bind, onSendCipher, wp_partOf sends]
    by_cases last : segments.length = maxNonce
    · rw [wp_failed (encrypt_exhausted keyed (counted.trans last))]
      exact ⟨rfl, _, rfl, counted.trans last⟩
    · obtain ⟨message, made, size⟩ := lawful.encrypts (S.key role)
        (nonceBytes segments.length) [] segment fits
      have short : message.length ≤ maxFrameLen := by
        rw [size]
        exact Nat.le_trans (Nat.add_le_add_right fits 16) (by decide)
      have ran := @encrypt_ran P [] segment cipher _ message keyed
        (by rw [counted]; exact last) (by rw [counted]; exact made)
      rw [wp_ran ran, sendFrame, encodeFrame_eq short, wp_bind]
      refine ⟨rfl, ⟨S.speech role.other ++ read, opened, S.speech role ++ (sent ++ [message]),
        segments ++ [segment], _⟩, [.outbound (Noise.frame message)],
        .complete started handshake rfl receives ⟨keyed, ?_⟩ receiveAt
          (encrypted.append (by rw [Nat.zero_add]; exact last) fits
            (by rw [Nat.zero_add]; exact made))
          decrypted, rfl, rfl,
        ⟨⟨[message], (append_assoc ..).symm, rfl⟩, (append_nil _).symm,
          (append_nil _).symm⟩, rfl, rfl, rfl, rfl⟩
      rw [length_append, ← counted]
      rfl

theorem encryptLoop (lawful : P.Lawful)
    (fits : ∀ segment ∈ segments, segment.length ≤ maxTransportPlaintext)
    (plays : Plays S session role record) (complete : session.sendCipher.isSome) :
    wp (encryptLoop segments)
      (fun _ session' => ∃ record' new, Sends S role session session' record record' segments new)
      (fun e session' => e = .nonceExhausted ∧ Exhausted session') session := by
  induction segments generalizing session record with
  | nil =>
    exact ⟨record, [], plays, rfl, (append_nil _).symm, .refl record, (append_nil _).symm,
      rfl, rfl, rfl⟩
  | cons segment segments ih =>
    obtain ⟨cipher, sends⟩ := Option.isSome_iff_exists.mp complete
    rw [encryptLoop, wp_bind]
    refine wp_imp (plays.encryptSegment lawful sends (fits segment (mem_cons_self ..))) ?_
    rintro - session₁ ⟨complete₁, record₁, new, first⟩
    refine wp_imp (ih (fun other among => fits other (mem_cons_of_mem _ among)) first.plays
      complete₁) ?_
    rintro - session' ⟨record', new', second⟩
    refine ⟨record', new ++ new', second.plays, second.read.trans first.read, ?_,
      first.adds.trans second.adds, ?_,
      second.decoder.trans first.decoder, second.failed.trans first.failed,
      second.started.trans first.started⟩
    · rw [second.segments, first.segments, append_assoc]
      rfl
    · rw [second.pending, first.pending, append_assoc]

end Plays

namespace Stands

theorem encrypt_complete (lawful : P.Lawful) {more : List UInt8}
    (stands : Stands S role session record sent more) (complete : session.sendCipher.isSome)
    (plaintext : List UInt8) :
    (∃ session' record' new, session.handleInput (.encrypt plaintext) = (.ok (), session') ∧
      Stands S role session' record' sent more ∧
      Plays.Sends S role session session' record record' (NoiseSession.segments plaintext) new) ∨
    ∃ session', session.handleInput (.encrypt plaintext) = (.error .nonceExhausted, session') ∧
      session'.failed = true ∧ session'.pending = [] ∧ Plays.Exhausted session' := by
  obtain ⟨plays, running, valid, rests, rest, split, stream⟩ := stands
  rw [handleInput, running, handle, NoiseSession.encrypt]
  have looped := plays.encryptLoop lawful (segments_spec plaintext).2 complete
  unfold wp at looped
  split at looped
  · rename_i session' ran
    obtain ⟨record', new, sent'⟩ := looped
    rw [ran]
    refine .inl ⟨session', record', new, rfl, ⟨sent'.plays,
      sent'.failed.trans running, ?_, ?_, rest, ?_, ?_⟩, sent'⟩
    · rw [sent'.decoder]
      exact valid
    · rw [sent'.decoder]
      exact rests
    · rw [sent'.read]
      exact split
    · rw [sent'.decoder]
      exact stream
  · rename_i session' ran
    obtain ⟨rfl, exhausted⟩ := looped
    rw [ran]
    exact .inr ⟨_, rfl, rfl, rfl, exhausted⟩

theorem encrypt (lawful : P.Lawful) {more : List UInt8}
    (stands : Stands S role session record sent more) (plaintext : List UInt8) :
    (∃ session' record' new, session.handleInput (.encrypt plaintext) = (.ok (), session') ∧
      Stands S role session' record' sent more ∧
      Plays.Sends S role session session' record record' (NoiseSession.segments plaintext) new) ∨
    session.handleInput (.encrypt plaintext) =
      (.error (.invalidInput "handshake is not complete"), session) ∨
    ∃ session', session.handleInput (.encrypt plaintext) = (.error .nonceExhausted, session') ∧
      session'.failed = true ∧ session'.pending = [] ∧ Plays.Exhausted session' := by
  cases sends : session.sendCipher with
  | none =>
    obtain ⟨segment, segments, cut⟩ :=
      exists_cons_of_ne_nil (segments_ne_nil plaintext)
    have misuse : encryptLoop (segment :: segments) session =
        .error (.invalidInput "handshake is not complete") session := by
      have missing : onSendCipher (encryptWithAd P [] segment) session =
          .error (.invalidInput "handshake is not complete") session := by
        rw [onSendCipher, partOf, sends]
      refine failed_of_wp ?_
      rw [encryptLoop, wp_bind, encryptSegment, wp_bind, wp_failed missing]
      exact ⟨rfl, rfl⟩
    rw [handleInput, stands.running, handle,
      NoiseSession.encrypt, cut, misuse]
    exact .inr (.inl rfl)
  | some cipher =>
    exact (stands.encrypt_complete lawful (Option.isSome_iff_exists.mpr ⟨cipher, sends⟩)
      plaintext).imp_right
      .inr

end Stands

end Noise
