import MiniP2P.Noise.Authentication

/-! The whole life of a session, under any inputs: what it stands for after each call, what it
reports, and how it ends. -/
namespace Noise
open Fallible Identity List HandshakeState

variable {P : Primitives}

inductive Call where
  | input (input : NoiseInput)
  | poll

structure Life (P : Primitives) where
  session : NoiseSession P
  received : List UInt8
  outputs : List NoiseOutput

variable {session session' : NoiseSession P} {received passed : List UInt8}
    {identityKey : PublicKey} {outputs : List NoiseOutput}

namespace Life

def new (config : NoiseConfig P) : Life P := ⟨.new config, [], []⟩

def taken : NoiseInput → Except NoiseError Unit → List UInt8
  | .data bytes, .ok () => bytes
  | _, _ => []

def step (life : Life P) : Call → Life P
  | .input input =>
    let (answer, session) := life.session.handleInput input
    { life with session, received := life.received ++ taken input answer }
  | .poll =>
    let (output, session) := life.session.pollOutput
    { life with session, outputs := life.outputs ++ output.toList }

def run (life : Life P) (calls : List Call) : Life P := calls.foldl step life

theorem run_append (life : Life P) (calls more : List Call) :
    life.run (calls ++ more) = (life.run calls).run more := foldl_append ..

theorem run_polls (life : Life P) : life.run (List.replicate life.session.pending.length .poll) =
    { life with
      session := { life.session with pending := [] }
      outputs := life.outputs ++ life.session.pending } := by
  obtain ⟨session, received, outputs⟩ := life
  obtain ⟨handshake, sendCipher, receiveCipher, decoder, pending, started, failed⟩ := session
  induction pending generalizing outputs with
  | nil => simp [run]
  | cons output pending ih =>
    refine (ih (outputs ++ [output])).trans ?_
    simp

theorem run_handled {life : Life P} {input : NoiseInput}
    (handled : life.session.handleInput input = (.ok (), session)) :
    life.run (.input input :: List.replicate session.pending.length .poll) =
      ⟨{ session with pending := [] }, life.received ++ taken input (.ok ()),
        life.outputs ++ session.pending⟩ := by
  have fed : life.step (.input input) =
      { life with session, received := life.received ++ taken input (.ok ()) } := by
    rw [step, handled]
  have polls := run_polls (life.step (.input input))
  rw [fed] at polls
  rw [run, foldl_cons, fed]
  exact polls

end Life

/-! ### Sessions -/

/-- What a session has been shown before it reports this peer. The initiator has read it in the
first frame of its stream, and the responder in the second. -/
def Evidence (config : NoiseConfig P) (received : List UInt8) (peer : PeerId)
    (identityKey : PublicKey) : Prop :=
  match config.role with
  | .initiator => ∃ out state message rest remoteE shared after,
      HandshakeState.start (.new config) = .ok out state ∧ received = frame message ++ rest ∧
      message.take 32 = remoteE.toList ∧ dh P config.ephemeralSecret remoteE = .ok shared ∧
      Authenticates (P := P) config.expectedPeer config.ephemeralSecret
        ((state.symmetric.mixHash P remoteE.toList).mixKey P shared) after
        ((message.drop 32).take 48) (message.drop 80) peer identityKey
  | .responder => ∃ out state first message rest after,
      readMessage first (.new config) = .ok out state ∧
      received = frame first ++ frame message ++ rest ∧
      Authenticates (P := P) config.expectedPeer config.ephemeralSecret state.symmetric after
        (message.take 48) (message.drop 48) peer identityKey

variable {config : NoiseConfig P}

theorem Evidence.expected {peer : PeerId}
    (evidence : Evidence config received peer identityKey) (expected : PeerId)
    (asked : config.expectedPeer = some expected) : expected = peer := by
  unfold Evidence at evidence
  split at evidence
  · obtain ⟨_, _, _, _, _, _, _, -, -, -, -, _, _, _, _, _, _, -, -, -, -, -, -, -, -,
        same⟩ := evidence
    exact same expected asked
  · obtain ⟨_, _, _, _, _, _, -, -, _, _, _, _, _, _, -, -, -, -, -, -, -, -, same⟩ := evidence
    exact same expected asked

theorem Evidence.append {peer : PeerId}
    (evidence : Evidence config received peer identityKey) (more : List UInt8) :
    Evidence config (received ++ more) peer identityKey := by
  unfold Evidence at *
  split at evidence
  · obtain ⟨out, state, message, rest, remoteE, shared, after, started, rfl, shown⟩ := evidence
    exact ⟨out, state, message, rest ++ more, remoteE, shared, after, started,
      append_assoc .., shown⟩
  · obtain ⟨out, state, first, message, rest, after, read, rfl, shown⟩ := evidence
    exact ⟨out, state, first, message, rest ++ more, after, read, append_assoc .., shown⟩

namespace NoiseSession

inductive Opened (config : NoiseConfig P) : HandshakeState P → List UInt8 → Prop
  | initiator {out : Option (List UInt8)} {state : HandshakeState P}
    (role : config.role = .initiator)
      (step : state.step = .initiatorReadMessage2)
      (started : HandshakeState.start (.new config) = .ok out state) : Opened config state []
  | responder (role : config.role = .responder) : Opened config (.new config) []
  | answered {out : Option (List UInt8) × Option HandshakeResult} {state : HandshakeState P}
      {first : List UInt8} (role : config.role = .responder)
      (step : state.step = .responderReadMessage3)
      (read : readMessage first (.new config) = .ok out state) :
      Opened config state (frame first)

/-- How far a session is that has read these bytes, and whom it has reported. -/
inductive Stage (config : NoiseConfig P) (session : NoiseSession P) :
    List UInt8 → Option (PeerId × PublicKey) → Prop
  | idle (started : session.started = false) (handshake : session.handshake = some (.new config))
      (send : session.sendCipher = none) (receive : session.receiveCipher = none) :
      Stage config session [] none
  | waiting {state : HandshakeState P} {passed : List UInt8} (started : session.started = true)
      (handshake : session.handshake = some state) (send : session.sendCipher = none)
      (receive : session.receiveCipher = none) (opened : Opened config state passed)
      (same : state.config = config) : Stage config session passed none
  | complete {passed : List UInt8} {peer : PeerId} {identityKey : PublicKey}
    {send receive : CipherState}
      (started : session.started = true) (handshake : session.handshake = none)
      (sends : session.sendCipher = some send) (receives : session.receiveCipher = some receive)
      (evidence : Evidence config passed peer identityKey) :
      Stage config session passed (some (peer, identityKey))

def IsOutbound : NoiseOutput → Prop
  | .outbound _ => True
  | _ => False

def IsReport : NoiseOutput → Prop
  | .handshakeComplete .. => True
  | _ => False

def Tells (outputs : List NoiseOutput) : Option (PeerId × PublicKey) → Prop
  | none => ∀ output ∈ outputs, IsOutbound output
  | some (peer, identityKey) => ∃ before after,
      outputs = before ++ .handshakeComplete peer identityKey :: after ∧
      (∀ output ∈ before, IsOutbound output) ∧ ∀ output ∈ after, ¬ IsReport output

/-- The ciphers a session encrypts with count soundly, and it sends nothing in the clear. -/
structure Sound (session : NoiseSession P) : Prop where
  handshake : ∀ state, session.handshake = some state → state.symmetric.Sound P
  send : ∀ cipher, session.sendCipher = some cipher →
    cipher.Sound ∧ cipher.key.isSome ∧ ∃ inputs, Scheduled P inputs cipher.keys

namespace Tells

variable {outputs pending : List NoiseOutput} {done : Option (PeerId × PublicKey)}

theorem more {peer : PeerId × PublicKey} {output : NoiseOutput}
    (tells : Tells (outputs ++ pending) (some peer)) (plain : ¬ IsReport output) :
    Tells (outputs ++ (pending ++ [output])) (some peer) := by
  obtain ⟨before, after, split, outbound, once⟩ := tells
  refine ⟨before, after ++ [output], ?_, outbound, ?_⟩
  · rw [← append_assoc, split, append_assoc, cons_append]
  · intro other told
    rcases mem_append.mp told with old | new
    · exact once other old
    · cases mem_singleton.mp new
      exact plain

theorem outbound (tells : Tells (outputs ++ pending) done) (bytes : List UInt8) :
    Tells (outputs ++ (pending ++ [.outbound bytes])) done := by
  match done, tells with
  | none, outbound =>
    intro output told
    rw [← append_assoc] at told
    rcases mem_append.mp told with old | new
    · exact outbound output old
    · cases mem_singleton.mp new
      trivial
  | some _, tells => exact tells.more id

theorem complete (tells : Tells (outputs ++ pending) none) (peer : PeerId)
    (identityKey : PublicKey) :
    Tells (outputs ++ (pending ++ [.handshakeComplete peer identityKey]))
      (some (peer, identityKey)) :=
  ⟨outputs ++ pending, [], (append_assoc ..).symm, tells, nofun⟩

theorem taken (tells : Tells (outputs ++ pending) done) :
    Tells outputs none ∨ Tells outputs done := by
  match done, tells with
  | none, outbound => exact .inl fun output told => outbound output (mem_append_left _ told)
  | some _, ⟨before, after, split, outbound, once⟩ =>
    rcases append_eq_append_iff.mp split with ⟨kept, rfl, -⟩ | ⟨kept, rfl, rest⟩
    · exact .inl fun output told => outbound output (mem_append_left _ told)
    · cases kept with
      | nil =>
        rw [append_nil]
        exact .inl outbound
      | cons report kept =>
        obtain ⟨rfl, rfl⟩ := List.cons.inj rest
        exact .inr ⟨before, kept, rfl, outbound, fun output told =>
          once output (mem_append_left _ told)⟩

end Tells

variable {config : NoiseConfig P} {session : NoiseSession P} {α : Type} {state : HandshakeState P}
  {message : List UInt8}

theorem wp_sendFrame {Q : Unit → NoiseSession P → Prop} {R : NoiseError → NoiseSession P → Prop}
    (sent : ∀ bytes, Q () { session with pending := session.pending ++ [.outbound bytes] })
    (failed : ∀ e, e.isTerminal = true → R e session) : wp (sendFrame message) Q R session := by
  unfold sendFrame push
  rw [wp_bind, wp_ofExcept]
  exact ⟨fun bytes _ => sent bytes, fun e error => failed e (encodeFrame_terminal error)⟩

structure Reads (config : NoiseConfig P) (outputs : List NoiseOutput) (session : NoiseSession P)
    (passed : List UInt8) : Prop where
  sound : session.Sound
  running : session.failed = false
  started : session.started = true
  stage : ∃ done, Stage config session passed done ∧ Tells (outputs ++ session.pending) done

theorem Sound.handshakes (sound : session.Sound) {state' : HandshakeState P}
    (handshake : session.handshake = some state) (follows : state.Follows state') :
    ({ session with handshake := some state' } : NoiseSession P).Sound where
  handshake _ found := by
    cases found
    exact follows.2 (sound.handshake state handshake)
  send := sound.send

theorem completeHandshake_spec {result : HandshakeResult}
    (sound : session.Sound) (running : session.failed = false) (started : session.started = true)
    (handshake : session.handshake = some state)
    (finishes : state.Finishes result.peer result.identityKey result)
    (evidence : Evidence config passed result.peer result.identityKey)
    (tells : Tells (outputs ++ session.pending) none) :
    wp (completeHandshake result)
      (fun _ session' => session'.decoder = session.decoder ∧ Reads config outputs session' passed)
      (fun e session' => e.isTerminal = true ∧ session'.Sound) session := by
  obtain ⟨-, -, send, sends, split⟩ := finishes
  refine ⟨rfl, ⟨nofun, ?_⟩, running, started, _, .complete started rfl rfl rfl evidence,
    tells.complete _ _⟩
  rintro _ ⟨⟩
  rw [sends]
  obtain ⟨counts, inputs, keys, ends⟩ := sound.handshake state handshake
  refine ⟨counts.initializeKey send, rfl, inputs, .inr ?_⟩
  rw [CipherState.initializeKey, keys, ← ends]
  exact split.imp (congrArg (_ ++ [·])) (congrArg (_ ++ [·]))

theorem receiveFrame_spec (reads : Reads config outputs session passed) : wp (receiveFrame message)
      (fun _ session' => session'.decoder = session.decoder ∧
        Reads config outputs session' (passed ++ frame message))
      (fun e session' => e.isTerminal = true ∧ session'.Sound) session := by
  obtain ⟨sound, running, started, done, stage, tells⟩ := reads
  rw [receiveFrame, wp_bind, wp_get]
  cases stage with
  | idle unstarted => rw [started] at unstarted; cases unstarted
  | complete _ handshake sends receives evidence =>
    have complete : session.isHandshakeComplete = true := by
      rw [isHandshakeComplete, sends, receives]
      rfl
    rw [complete, if_pos rfl, wp_bind, onReceiveCipher, wp_partOf receives]
    refine wp_mono CipherState.decrypt_spec ?_ ?_
    · intro plaintext cipher' _
      exact ⟨rfl, ⟨sound.handshake, sound.send⟩, running, started, _,
        .complete started handshake sends rfl (evidence.append _), tells.more id⟩
    · rintro e cipher' ⟨terminal, -⟩
      exact ⟨terminal, sound.handshake, sound.send⟩
  | @waiting state passed _ handshake send receive opened same =>
    have incomplete : session.isHandshakeComplete = false := by
      rw [isHandshakeComplete, send]
      rfl
    rw [incomplete, if_neg (by decide), wp_bind, onHandshake, wp_partOf handshake]
    have secure := readMessage_secure message state
    cases opened with
    | initiator role step begun =>
      refine wp_mono (wp_and secure (readMessage_second step)) ?_ fun e state' failed =>
        ⟨failed.1.1, sound.handshakes handshake failed.1.2⟩
      rintro _ state' ⟨follows, response, result, rfl, finishes, remoteE, shared, after, shown⟩
      have sound' := sound.handshakes handshake follows
      rw [wp_bind]
      refine wp_sendFrame (fun bytes => ?_) fun e terminal => ⟨terminal, sound'⟩
      refine completeHandshake_spec ⟨sound'.handshake, sound'.send⟩ running started rfl finishes ?_
        (tells.outbound bytes)
      subst same
      rw [Evidence, role]
      exact ⟨_, state, message, [], remoteE, shared, after, begun, (append_nil _).symm, shown⟩
    | responder role =>
      refine wp_mono (wp_and (wp_of_ran secure) (readMessage_first (by
        rw [HandshakeState.new, role]))) ?_ fun e state' failed =>
        ⟨failed.1.1, sound.handshakes handshake failed.1.2⟩
      rintro _ state' ⟨⟨follows, read⟩, response, rfl, step⟩
      have sound' := sound.handshakes handshake follows
      rw [wp_bind]
      refine wp_sendFrame (fun bytes => ?_) fun e terminal => ⟨terminal, sound'⟩
      exact ⟨rfl, ⟨sound'.handshake, sound'.send⟩, running, started, none,
        .waiting started rfl send receive (.answered role step read) (follows.1.trans same),
        tells.outbound bytes⟩
    | answered role step read =>
      refine wp_mono (wp_and secure (readMessage_third step)) ?_ fun e state' failed =>
        ⟨failed.1.1, sound.handshakes handshake failed.1.2⟩
      rintro _ state' ⟨follows, result, rfl, finishes, after, shown⟩
      have sound' := sound.handshakes handshake follows
      refine completeHandshake_spec sound' running started rfl finishes ?_ tells
      subst same
      rw [Evidence, role]
      exact ⟨_, state, _, message, [], after, read, (append_nil _).symm, shown⟩

/-- A session that has not failed stands where the bytes it has taken in put it. -/
structure Standing (config : NoiseConfig P) (received : List UInt8) (outputs : List NoiseOutput)
    (session : NoiseSession P) : Prop where
  valid : session.decoder.Valid
  sound : session.Sound
  running : session.failed = false
  stage : ∃ passed done, Stage config session passed done ∧
    received = passed ++ session.decoder.unread ∧ Tells (outputs ++ session.pending) done

variable {received : List UInt8} {outputs : List NoiseOutput}

theorem Stage.congr {done : Option (PeerId × PublicKey)} (stage : Stage config session passed done)
    (started : session'.started = session.started)
    (handshake : session'.handshake = session.handshake)
    (send : session'.sendCipher = session.sendCipher)
    (receive : session'.receiveCipher = session.receiveCipher) :
    Stage config session' passed done := by
  cases stage with
  | idle unstarted begins sends receives =>
    exact .idle (started.trans unstarted) (handshake.trans begins) (send.trans sends)
      (receive.trans receives)
  | waiting begun goes sends receives opened same =>
    exact .waiting (started.trans begun) (handshake.trans goes) (send.trans sends)
      (receive.trans receives) opened same
  | complete begun gone sends receives evidence =>
    exact .complete (started.trans begun) (handshake.trans gone) (send.trans sends)
      (receive.trans receives) evidence

theorem receiveLoop_spec {fuel : Nat} (valid : session.decoder.Valid)
    (reads : Reads config outputs session passed)
    (read : received = passed ++ session.decoder.unread) :
    wp (receiveLoop fuel) (fun _ session' => Standing config received outputs session')
      (fun e session' => e.isTerminal = true ∧ session'.Sound) session := by
  induction fuel generalizing session passed with
  | zero =>
    obtain ⟨done, stage, tells⟩ := reads.stage
    exact ⟨valid, reads.sound, reads.running, passed, done, stage, read, tells⟩
  | succ fuel ih =>
    rw [receiveLoop, wp_bind, wp_get]
    cases found : session.decoder.nextFrame with
    | none =>
      obtain ⟨done, stage, tells⟩ := reads.stage
      exact ⟨valid, reads.sound, reads.running, passed, done, stage, read, tells⟩
    | some next =>
      obtain ⟨message, decoder⟩ := next
      obtain ⟨parsed, valid'⟩ := FrameDecoder.parse_of_some found
      obtain ⟨-, unread⟩ := frame_of_parseFrame parsed
      obtain ⟨⟨handshakes, sends⟩, running, started, done, stage, tells⟩ := reads
      rw [wp_bind, wp_modify, wp_bind]
      have reads' : Reads config outputs { session with decoder } passed :=
        ⟨⟨handshakes, sends⟩, running, started, done, stage.congr rfl rfl rfl rfl, tells⟩
      refine wp_imp (receiveFrame_spec reads') ?_
      rintro - session' ⟨same, reads''⟩
      refine ih (by rw [same]; exact valid') reads'' ?_
      rw [read, unread, same, append_assoc]

theorem Standing.receive (standing : Standing config received outputs session)
    (bytes : List UInt8) :
    wp (receive bytes) (fun _ session' => Standing config (received ++ bytes) outputs session')
      (fun e session' => e.isTerminal = true ∧ session'.Sound ∨ session' = session) session := by
  obtain ⟨valid, sound, running, passed, done, stage, read, tells⟩ := standing
  rw [NoiseSession.receive, wp_bind, wp_get, wp_ite]
  refine ⟨fun _ => .inr rfl, fun begun => ?_⟩
  have started : session.started = true := by simpa using begun
  obtain ⟨unread, valid'⟩ := FrameDecoder.unread_push valid bytes
  have reads : Reads config outputs { session with decoder := session.decoder.push bytes } passed :=
    ⟨⟨sound.handshake, sound.send⟩, running, started, done, stage.congr rfl rfl rfl rfl, tells⟩
  refine wp_mono (receiveLoop_spec valid' reads ?_) (fun _ _ stands => stands)
    fun _ _ failed => .inl failed
  rw [unread, read, append_assoc]

theorem Standing.start (standing : Standing config received outputs session) :
    wp start (fun _ session' => Standing config received outputs session')
      (fun e session' => e.isTerminal = true ∧ session'.Sound ∨ session' = session) session := by
  obtain ⟨valid, sound, running, passed, done, stage, read, tells⟩ := standing
  rw [NoiseSession.start, wp_bind, wp_get, wp_ite]
  refine ⟨fun _ => .inr rfl, fun fresh => ?_⟩
  have unstarted : session.started = false := by simpa using fresh
  cases stage with
  | waiting started | complete started => rw [unstarted] at started; cases started
  | idle _ handshake send receive =>
    have kept : ({ session with started := true } : NoiseSession P).handshake =
        some (.new config) := handshake
    have begun : ({ session with started := true } : NoiseSession P).Sound :=
      ⟨sound.handshake, sound.send⟩
    rw [wp_bind, wp_modify, wp_bind, onHandshake, wp_partOf kept]
    cases role : config.role with
    | initiator =>
      have step : (HandshakeState.new config).step = .initiatorWriteMessage1 := by
        rw [HandshakeState.new, role]
      refine wp_mono (wp_and (wp_of_ran (start_secure (.inl step)))
        (start_initiator step)) ?_ fun e state' failed =>
        .inl ⟨failed.1.1, begun.handshakes kept failed.1.2⟩
      rintro _ state' ⟨⟨follows, ran⟩, ⟨message, rfl⟩, next⟩
      have sound' := begun.handshakes kept follows
      refine wp_sendFrame (fun bytes => ?_) fun e terminal =>
        .inl ⟨terminal, sound'.handshake, sound'.send⟩
      exact ⟨valid, ⟨sound'.handshake, sound'.send⟩, running, [], none,
        .waiting rfl rfl send receive (.initiator role next ran) follows.1, read,
        tells.outbound bytes⟩
    | responder =>
      have step : (HandshakeState.new config).step = .responderReadMessage1 := by
        rw [HandshakeState.new, role]
      rw [HandshakeState.start, wp_bind, wp_get, step]
      exact ⟨valid, begun.handshakes kept (.refl _), running, [], none,
        .waiting rfl rfl send receive (.responder role) rfl, read, tells⟩

theorem encryptLoop_spec {segments : List (List UInt8)} {cipher : CipherState}
    (sends : session.sendCipher = some cipher)
    (standing : Standing config received outputs session) :
    wp (encryptLoop segments) (fun _ session' => Standing config received outputs session')
      (fun e session' => e.isTerminal = true ∧ session'.Sound) session := by
  induction segments generalizing session cipher with
  | nil => exact standing
  | cons segment segments ih =>
    obtain ⟨valid, sound, running, passed, done, stage, read, tells⟩ := standing
    rw [encryptLoop, wp_bind, encryptSegment, wp_bind, onSendCipher, wp_partOf sends]
    obtain ⟨counts, keyed, scheduled⟩ := sound.send cipher sends
    have sounds {cipher' : CipherState} (sound' : cipher'.Sound ∧ cipher'.keys = cipher.keys) :
        ({ session with sendCipher := some cipher' } : NoiseSession P).Sound := by
      refine ⟨sound.handshake, ?_⟩
      rintro _ ⟨⟩
      obtain ⟨counts', same⟩ := sound'
      rw [counts.last, ← same, ← counts'.last] at keyed
      exact ⟨counts', keyed, same ▸ scheduled⟩
    refine wp_mono counts.encrypt ?_ fun e cipher' failed => ⟨failed.1, sounds failed.2⟩
    · intro ciphertext cipher' sound'
      refine wp_sendFrame (fun bytes => ih rfl ?_) fun e terminal => ⟨terminal, sounds sound'⟩
      refine ⟨valid, ⟨sound.handshake, (sounds sound').send⟩, running, passed, done, ?_, read,
        tells.outbound bytes⟩
      cases stage with
      | idle _ _ send | waiting _ _ send => rw [sends] at send; cases send
      | complete started handshake _ receives evidence =>
        exact .complete started handshake rfl receives evidence

theorem Standing.encrypt (standing : Standing config received outputs session)
    (plaintext : List UInt8) :
    wp (encrypt plaintext) (fun _ session' => Standing config received outputs session')
      (fun e session' => e.isTerminal = true ∧ session'.Sound ∨ session' = session) session := by
  rw [NoiseSession.encrypt]
  cases sends : session.sendCipher with
  | some cipher =>
    exact wp_mono (encryptLoop_spec sends standing) (fun _ _ stands => stands)
      fun _ _ failed => .inl failed
  | none =>
    obtain ⟨segment, rest, split⟩ := exists_cons_of_ne_nil (segments_ne_nil plaintext)
    have misuse : (onSendCipher (CipherState.encryptWithAd P [] segment)) session =
        .error (.invalidInput "handshake is not complete") session := by
      rw [onSendCipher, partOf, sends]
    rw [split, encryptLoop, wp_bind, encryptSegment, wp_bind, wp, misuse]
    exact .inr rfl

theorem Standing.handle (standing : Standing config received outputs session) (input : NoiseInput) :
    wp (handle input)
      (fun _ session' => Standing config (received ++ Life.taken input (.ok ())) outputs session')
      (fun e session' => e.isTerminal = true ∧ session'.Sound ∨ session' = session) session := by
  cases input with
  | start =>
    rw [Life.taken, append_nil]
    exact standing.start
    nofun
  | data bytes => exact standing.receive bytes
  | encrypt plaintext =>
    rw [Life.taken, append_nil]
    exact standing.encrypt plaintext
    nofun

end NoiseSession

open NoiseSession

/-! ### Lives -/

namespace Life

/-- Sound, and silent after a failure; and what it has told it has been shown. -/
structure Honest (config : NoiseConfig P) (life : Life P) : Prop where
  sound : life.session.Sound
  silent : life.session.failed = true → life.session.pending = []
  stands : life.session.failed = false →
    NoiseSession.Standing config life.received life.outputs life.session
  shown : ∃ done, NoiseSession.Tells life.outputs done ∧
    ∀ peer identityKey, done = some (peer, identityKey) →
      Evidence config life.received peer identityKey

variable {config : NoiseConfig P} {life : Life P}

theorem new_honest (config : NoiseConfig P) : Honest config (new config) where
  sound := by
    refine ⟨?_, nofun⟩
    rintro _ ⟨⟩
    exact ⟨CipherState.new_sound, [], rfl, rfl⟩
  silent := nofun
  stands _ := by
    refine ⟨Nat.le_refl _, ⟨?_, nofun⟩, rfl, [], none, .idle rfl rfl rfl rfl, rfl, nofun⟩
    rintro _ ⟨⟩
    exact ⟨CipherState.new_sound, [], rfl, rfl⟩
  shown := ⟨none, nofun, nofun⟩

theorem shown_of_standing (stands : NoiseSession.Standing config received outputs session) :
    ∃ done, NoiseSession.Tells outputs done ∧
      ∀ peer identityKey, done = some (peer, identityKey) →
        Evidence config received peer identityKey := by
  obtain ⟨-, -, -, passed, done, stage, rfl, tells⟩ := stands
  rcases tells.taken with quiet | told
  · exact ⟨none, quiet, nofun⟩
  · refine ⟨done, told, ?_⟩
    rintro peer identityKey rfl
    cases stage with
    | complete _ _ _ _ evidence => exact evidence.append _

theorem Honest.input (honest : Honest config life) (input : NoiseInput) :
    Honest config (life.step (.input input)) := by
  unfold step handleInput
  cases failed : life.session.failed with
  | true =>
    have nothing : taken input (.error .failed) = [] := by cases input <;> rfl
    simp only [if_true, nothing, append_nil]
    exact honest
  | false =>
    have handled := (honest.stands failed).handle input
    unfold wp at handled
    simp only [Bool.false_eq_true, if_false]
    split at handled
    · rename_i session ran
      rw [ran]
      refine ⟨handled.sound, fun broken => ?_, fun _ => handled, shown_of_standing handled⟩
      rw [handled.running] at broken
      cases broken
    · rename_i e session ran
      have nothing : taken input (.error e) = [] := by cases input <;> rfl
      rw [ran]
      simp only [nothing, append_nil]
      cases terminal : e.isTerminal with
      | true =>
        have sound : session.Sound := by
          rcases handled with ⟨-, sound⟩ | rfl
          · exact sound
          · exact honest.sound
        exact ⟨⟨sound.handshake, sound.send⟩, fun _ => rfl, nofun, honest.shown⟩
      | false =>
        rcases handled with ⟨terminal', -⟩ | rfl
        · rw [terminal] at terminal'
          cases terminal'
        · exact honest

theorem Honest.poll (honest : Honest config life) : Honest config (life.step .poll) := by
  unfold step pollOutput
  cases pending : life.session.pending with
  | nil =>
    simp only [Option.toList_none, append_nil]
    exact honest
  | cons output pending' =>
    have stands (running : life.session.failed = false) : NoiseSession.Standing config life.received
        (life.outputs ++ [output]) { life.session with pending := pending' } := by
      obtain ⟨valid, sound, _, passed, done, stage, read, tells⟩ := honest.stands running
      refine ⟨valid, ⟨sound.handshake, sound.send⟩, running, passed, done,
        stage.congr rfl rfl rfl rfl, read, ?_⟩
      rw [pending] at tells
      rw [append_assoc]
      exact tells
    have running : life.session.failed = false := by
      cases failed : life.session.failed with
      | false => rfl
      | true => rw [honest.silent failed] at pending; cases pending
    refine ⟨⟨honest.sound.handshake, honest.sound.send⟩, fun failed => ?_, stands,
      shown_of_standing (stands running)⟩
    rw [running] at failed
    cases failed

theorem run_honest (config : NoiseConfig P) (calls : List Call) :
    Honest config ((new config).run calls) := by
  suffices general : ∀ life, Honest config life → Honest config (life.run calls) from
    general _ (new_honest config)
  induction calls with
  | nil => exact fun _ honest => honest
  | cons call calls ih =>
    intro life honest
    refine ih _ ?_
    cases call with
    | input input => exact honest.input input
    | poll => exact honest.poll

theorem run_failed (calls : List Call) (failed : life.session.failed = true)
    (silent : life.session.pending = []) : life.run calls = life := by
  induction calls with
  | nil => rfl
  | cons call calls ih =>
    have still : life.step call = life := by
      cases call with
      | input input =>
        have nothing : taken input (.error .failed) = [] := by cases input <;> rfl
        simp only [step, handleInput, failed, if_true, nothing, append_nil]
      | poll => simp only [step, pollOutput, silent, Option.toList_none, append_nil]
    rw [run, foldl_cons, still]
    exact ih

theorem handleInput_failed {input : NoiseInput} {e : NoiseError}
    (silent : session.failed = true → session.pending = [])
    (answered : session.handleInput input = (.error e, session')) (terminal : e.isTerminal = true) :
    session'.failed = true ∧ session'.pending = [] := by
  unfold handleInput at answered
  split at answered
  · rename_i failed
    cases answered
    exact ⟨failed, silent failed⟩
  · split at answered
    · cases answered
    · cases answered
      rw [if_pos terminal]
      exact ⟨rfl, rfl⟩

theorem Honest.misuse (honest : Honest config life) {input : NoiseInput} {e : NoiseError}
    (answered : life.session.handleInput input = (.error e, session'))
    (misuse : e.isTerminal = false) : session' = life.session := by
  unfold handleInput at answered
  split at answered
  · cases answered
    rfl
  · rename_i running
    split at answered
    · cases answered
    · rename_i ran
      cases answered
      have handled := (honest.stands (by simpa using running)).handle input
      rw [misuse]
      rcases wp_error handled ran with ⟨terminal, -⟩ | same
      · rw [misuse] at terminal
        cases terminal
      · exact same

theorem Honest.evidence (honest : Honest config life) {peer : PeerId}
    (told : .handshakeComplete peer identityKey ∈ life.outputs) :
    Evidence config life.received peer identityKey := by
  obtain ⟨done, tells, shown⟩ := honest.shown
  match done, tells with
  | none, outbound => exact (outbound _ told).elim
  | some (peer', identityKey'), ⟨before, after, split, outbound, once⟩ =>
    rw [split] at told
    rcases mem_append.mp told with early | late
    · exact (outbound _ early).elim
    · rcases mem_cons.mp late with same | later
      · cases same
        exact shown peer identityKey rfl
      · exact (once _ later trivial).elim

/-- Whatever bytes a session is fed and whatever is called in between: it reports a peer only on
a signature over the static key it has agreed with, by the key of that peer; nothing decrypted
comes before; a terminal error is the last word; and a misuse changes nothing. -/
theorem noise_authenticates (config : NoiseConfig P) (calls : List Call) :
    let life := (new config).run calls
    (∀ peer identityKey, .handshakeComplete peer identityKey ∈ life.outputs →
      Evidence config life.received peer identityKey) ∧
    (∀ before plaintext after, life.outputs = before ++ .decrypted plaintext :: after →
      ∃ peer identityKey, .handshakeComplete peer identityKey ∈ before) ∧
    (∀ input e session, life.session.handleInput input = (.error e, session) →
      e.isTerminal = true → ∀ more, (run { life with session } more).outputs = life.outputs) ∧
    ∀ input e session, life.session.handleInput input = (.error e, session) →
      e.isTerminal = false → session = life.session := by
  intro life
  have honest : Honest config life := run_honest config calls
  refine ⟨fun peer identityKey told => honest.evidence told, ?_, ?_, ?_⟩
  · intro before plaintext after split
    obtain ⟨done, tells, -⟩ := honest.shown
    match done, tells with
    | none, outbound =>
      exact (outbound (.decrypted plaintext) (by rw [split]; simp)).elim
    | some (peer, identityKey), ⟨reported, rest, split', outbound, _⟩ =>
      refine ⟨peer, identityKey, ?_⟩
      rw [split] at split'
      rcases append_eq_append_iff.mp split' with ⟨kept, rfl, tail⟩ | ⟨kept, rfl, tail⟩
      · cases kept with
        | nil => cases tail
        | cons first kept =>
          cases tail
          exact (outbound (.decrypted plaintext) (by simp)).elim
      · cases kept with
        | nil => cases tail
        | cons first kept =>
          cases tail
          simp
  · intro input e session answered terminal more
    obtain ⟨failed, silent⟩ := handleInput_failed honest.silent answered terminal
    rw [@run_failed P ⟨session, life.received, life.outputs⟩ more failed silent]
  · intro input e session answered misuse
    exact honest.misuse answered misuse

end Life

end Noise
