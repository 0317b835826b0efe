import MiniP2P.SecureMux.Stages

/-! An initiator and a responder joined by two byte channels that may cut and join bytes anywhere,
and every interleaving of calls on both ends. -/
namespace SecureMux
open Fallible Identity List SecureMuxSession
open Multistream (MultistreamSelect)
open Noise (Primitives NoiseSession Script frames noiseProtocolId)
open Transport (StreamId)
open Yamux (YamuxError YamuxSession yamuxProtocolId)

variable {P : Primitives}

inductive Request where
  | start
  | pollOutput
  | poll (now : Nat)
  | openStream
  | send (stream : StreamId) (data : List UInt8)
  | closeStreamWrite (stream : StreamId)
  | resetStream (stream : StreamId)

def Request.call : Request → Call
  | .start => .start
  | .pollOutput => .pollOutput
  | .poll now => .poll now
  | .openStream => .openStream
  | .send stream data => .send stream data
  | .closeStreamWrite stream => .closeStreamWrite stream
  | .resetStream stream => .resetStream stream

structure Station (P : Primitives) where
  session : SecureMuxSession P
  incoming : List UInt8

inductive Move where
  | request (role : SessionRole) (r : Request)
  | deliver (role : SessionRole) (count : Nat)

def Move.role : Move → SessionRole
  | .request role _ => role
  | .deliver role _ => role

def Pair (P : Primitives) : Type := SessionRole → Station P

namespace Pair

def begun (config : SessionConfig P) : SecureMuxSession P :=
  match (new config).start with
  | some (_, session) => session
  | none => .new config

def connect (initiator responder : SessionConfig P) : Pair P := fun role =>
  ⟨begun (role.pick initiator responder), []⟩

def facing (role : SessionRole) (own other : Station P) : Pair P := fun side =>
  if side = role then own else other

def step (p : Pair P) : Move → Option (Answer × Pair P)
  | .request role r =>
    match (p role).session.call r.call with
    | none => none
    | some (a, session) => some (a, facing role { p role with session }
        { p role.other with incoming := (p role.other).incoming ++ wireOf a.handed })
  | .deliver role count =>
    match (p role).session.call (.handleInput ((p role).incoming.take count)) with
    | none => none
    | some (a, session) =>
      some (a, facing role ⟨session, (p role).incoming.drop count⟩ (p role.other))

def quiet (p : Pair P) : Prop := ∀ role, (p role).incoming = [] ∧ (p role).session.outputs = []

@[simp] theorem facing_same (role : SessionRole) (own other : Station P) :
    facing role own other role = own := if_pos rfl

@[simp] theorem facing_other (role : SessionRole) (own other : Station P) :
    facing role own other role.other = other := by cases role <;> rfl

end Pair

/-! ### What the hosts have seen -/

def outputsOf (role : SessionRole) (log : List (Move × Answer)) : List SessionOutput :=
  log.flatMap fun entry => if entry.1.role = role then entry.2.handed else []

/-- The bytes that an accepted call of `send` takes for a stream. -/
def Request.taken (stream : StreamId) : Request → Answer → List UInt8
  | .send i data, .done (.ok ()) => if i = stream then data else []
  | _, _ => []

def Move.taken (role : SessionRole) (stream : StreamId) : Move → Answer → List UInt8
  | .request side r, a => if side = role then r.taken stream a else []
  | .deliver _ _, _ => []

def sentOf (role : SessionRole) (stream : StreamId) (log : List (Move × Answer)) : List UInt8 :=
  log.flatMap fun entry => entry.1.taken role stream entry.2

def dataOf (stream : StreamId) (outputs : List SessionOutput) : List UInt8 := outputs.flatMap fun
  | .streamData i data => if i = stream then data else []
  | _ => []

/-! ### Calls -/

variable {initiator responder : SessionConfig P} {S : Script initiator.noise responder.noise}
  {role : SessionRole} {x y : Bearing} {way fed : List UInt8} {fresh : YamuxSession}
  {base : List SessionOutput} {session : SecureMuxSession P}

structure Sits (S : Script initiator.noise responder.noise) (role : SessionRole) (y : Bearing)
    (way : List UInt8) (fresh : YamuxSession) (fed : List UInt8) (base : List SessionOutput)
    (x : Bearing) (session : SecureMuxSession P) : Prop where
  acts : session.role = role
  limits : session.yamuxConfig = (role.pick initiator responder).yamux
  stage : ∃ phase, session.phase = some phase ∧
    Stage S role y way fresh fed phase (base ++ session.outputs) x

/-- How a call may end: worn out, or with a session that has taken these bytes for streams and
reports no error that would be its last. -/
def Serves (S : Script initiator.noise responder.noise) (role : SessionRole) (y : Bearing)
    (way : List UInt8) (fresh : YamuxSession) (fed : List UInt8) (base : List SessionOutput)
    (x : Bearing) (error : Option SessionError) (more : UInt32 → List UInt8)
    (session : SecureMuxSession P) : Prop :=
  error = some exhausted ∨
    (∀ e, error = some e → e.isFatal = false) ∧
    ∃ x', Sits S role y way fresh fed base x' session ∧ x.record.sent <+: x'.record.sent ∧
      ∀ id, x'.tale.acc id = x.tale.acc id ++ more id

def errorOf {α : Type} : Except SessionError α → Option SessionError
  | .ok _ => none
  | .error e => some e

variable {error : Option SessionError}

theorem Sits.refuses (sits : Sits S role y way fresh fed base x session)
    (mild : ∀ e, error = some e → e.isFatal = false) :
    Serves S role y way fresh fed base x error (fun _ => []) session :=
  .inr ⟨mild, x, sits, prefix_refl _, fun _ => (append_nil _).symm⟩

theorem Sits.proceed {fed' way' : List UInt8} (sits : Sits S role y way fresh fed base x session)
    {α : Type} {result : Except SessionError α} (mild : ∀ e, result = .error e → e.isFatal = false)
    {work : M (Phase P)} {x₁ : Bearing} (sent : x.record.sent <+: x₁.record.sent)
    {more : UInt32 → List UInt8} (acc : ∀ id, x₁.tale.acc id = x.tale.acc id ++ more id)
    (works : wp work
      (fun phase outputs' => Moves S role y way' fresh x₁ fed' phase (base ++ outputs'))
      WornOut session.outputs) :
    ∃ answer session', session.proceed result work = some (answer, session') ∧
      Serves S role y way' fresh fed' base x (errorOf answer) more session' ∧
      (answer = result ∨ answer = .error exhausted) := by
  unfold wp at works
  unfold SecureMuxSession.proceed
  split at works
  · rename_i phase outputs' ran
    obtain ⟨x', stage, later⟩ := works
    rw [ran]
    refine ⟨result, { session with phase := some phase, outputs := outputs' }, rfl, .inr ⟨?_, x',
      ⟨sits.acts, sits.limits, phase, rfl, stage⟩, sent.trans later.sent, fun id => ?_⟩, .inl rfl⟩
    · intro e failed
      cases result with
      | ok a => cases failed
      | error e' => cases failed; exact mild e rfl
    · rw [later.acc, acc]
  · rename_i halt outputs' ran
    have worn : halt = .error exhausted := works
    subst worn
    rw [ran]
    exact ⟨.error exhausted, _, rfl, .inl rfl, .inr rfl⟩

theorem Sits.feeds (lawful : P.Lawful) (fair : Fair S role y)
    (created : YamuxSession.withConfig (yamuxRole role)
      (role.pick initiator responder).yamux = .ok fresh)
    (unsaid : fresh.core.pending = []) {data : List UInt8}
    (spoken : Continues noiseProtocolId (fed ++ (data ++ way)) (frames.encodeAll y.record.sent))
    (sits : Sits S role y (data ++ way) fresh fed base x session) :
    ∃ answer session', session.handleInput data = some (answer, session') ∧
      Serves S role y way fresh (fed ++ data) base x (errorOf answer) (fun _ => []) session' := by
  unfold handleInput
  split
  · rename_i nothing
    rw [List.isEmpty_iff.mp nothing] at sits ⊢
    rw [append_nil]
    exact ⟨_, session, rfl, sits.refuses (by simp [errorOf])⟩
  · obtain ⟨phase, found, stage⟩ := sits.stage
    rw [withPhase, found, sits.acts, sits.limits]
    obtain ⟨answer, session', returned, serves, -⟩ :=
      @Sits.proceed _ _ _ _ _ _ _ _ _ _ _ _ _ way sits
      Unit (.ok ()) (by simp) (feedPhase role (role.pick initiator responder).yamux phase data) x
      (prefix_refl _) (fun _ => []) (fun _ => (append_nil _).symm)
      (stage.feed lawful fair created unsaid spoken)
    exact ⟨answer, session', returned, serves⟩

theorem Stage.starts {phase : Phase P} {outputs : List SessionOutput}
    (stage : Stage S role y way fresh fed phase (base ++ outputs) x) :
    wp (startPhase phase)
      (fun phase' outputs' => Moves S role y way fresh x fed phase' (base ++ outputs'))
        WornOut outputs := by
  cases stage with
  | @selectNoise select _ talks wrote events meets =>
    have silent : select.start = ([], select) := if_pos talks.begun
    have same : select.handleInput .start = select := by
      rw [MultistreamSelect.handleInput, silent]
      dsimp only
      rw [append_nil]
    have taken : takeOutputs select = select := by
      rw [takeOutputs, ← talks.quiet]
    rw [startPhase, same, talks.quiet, taken]
    exact ⟨_, .selectNoise talks wrote events meets, .refl _⟩
  | noise selected noisy unreported events meets =>
    exact ⟨_, .noise selected noisy unreported events meets, .refl _⟩
  | upper selected upper =>
    cases upper with
    | selectYamux noisy complete talks told events meets =>
      exact ⟨_, .upper selected (.selectYamux noisy complete talks told events meets), .refl _⟩
    | ready muxes same listened rests =>
      exact ⟨_, .upper selected (.ready muxes same listened rests), .refl _⟩

/-- An operation of the multiplexer, as a request of it that takes these bytes for streams. -/
def Asks {α : Type} (operation : YamuxSession → Option (Except YamuxError α × YamuxSession))
    (more : Except YamuxError α → UInt32 → List UInt8) : Prop :=
  ∀ mux, mux.Good → ∃ r ans result mux', Yamux.Request.leaves r = false ∧
    mux.request r = some (ans, mux') ∧ operation mux = some (result, mux') ∧ ans.handed = [] ∧
    ∀ id, r.taken id ans = more result id

theorem Sits.operates (lawful : P.Lawful) (sits : Sits S role y way fresh fed base x session)
    {α : Type} {operation : YamuxSession → Option (Except YamuxError α × YamuxSession)}
    {more : Except YamuxError α → UInt32 → List UInt8} (asks : Asks operation more) :
    session.withYamux operation = some (.error .notEstablished, session) ∨
    ∃ result answer session', session.withYamux operation = some (answer, session') ∧
      Serves S role y way fresh fed base x (errorOf answer) (more result) session' ∧
      (answer = result.mapError .yamux ∨ answer = .error exhausted) := by
  obtain ⟨phase, found, stage⟩ := sits.stage
  unfold withYamux
  rw [found]
  cases stage with
  | selectNoise | noise => exact .inl rfl
  | upper selected upper =>
    cases upper with
    | selectYamux => exact .inl rfl
    | @ready noise mux _ x muxes same listened rests =>
      subst same
      obtain ⟨coming, going, takes, gives, joined⟩ := muxes.meets
      obtain ⟨r, ans, result, mux', stays, called, operated, handed, taken⟩ :=
        asks x.mux joined.goodA
      obtain ⟨staying, joined'⟩ := joined.asks muxes.staying stays called
      rw [handed, Yamux.wireBytes_nil, append_nil] at joined'
      dsimp only
      rw [operated]
      have muxes' : Muxes S role y way [.established (peerOf initiator responder role)] noise
          (base ++ session.outputs) { x with mux := mux', tale := x.tale.after r ans } := by
        refine ⟨muxes.noisy, muxes.complete, muxes.told, ?_, staying, coming, going, takes,
          gives, joined'⟩
        rw [Yamux.Tale.after, handed, append_nil]
        exact muxes.events
      obtain ⟨answer, session', returned, serves, ended⟩ :=
        @Sits.proceed _ _ _ _ _ x y way fed fresh
        base session fed way sits α (result.mapError .yamux)
        (fun e failed => by cases result <;> cases failed; rfl)
        (do
          let drained ← drainYamux noise mux'
          return .ready drained.1 drained.2 (peerOf initiator responder role))
        { x with mux := mux', tale := x.tale.after r ans } (prefix_refl _) (more result)
        (fun id => congrArg (x.tale.acc id ++ ·) (taken id))
        (by
          rw [wp_bind]
          refine wp_imp (muxes'.drain lawful) ?_
          rintro ⟨noise', mux''⟩ outputs' ⟨x', muxes'', same, empty, took, opened, later⟩
          refine ⟨x', .upper selected (.ready muxes'' same ?_ empty), later⟩
          rw [opened, took]
          exact listened)
      exact .inr ⟨result, answer, session', returned, serves, ended⟩

theorem onCore_asks {α : Type} {operation : Yamux.SessionCore → Option (Yamux.Returned α)}
    (r : Yamux.Request) (wrap : Except YamuxError α → Yamux.Answer)
    {more : Except YamuxError α → UInt32 → List UInt8} (stays : r.leaves = false)
    (same : ∀ mux : YamuxSession, mux.request r = mux.withCore wrap (operation mux.core))
    (handed : ∀ result, (wrap result).handed = [])
    (taken : ∀ result id, r.taken id (wrap result) = more result id) :
    Asks (onCore operation) more := by
  intro mux good
  obtain ⟨answer, mux', -, called, -⟩ := Yamux.YamuxSession.behaves good (.request r)
  have returned : mux.request r = some (answer, mux') := called
  rw [same] at returned
  obtain ⟨result, core, operated, rfl, rfl⟩ := Yamux.YamuxSession.withCore_some returned
  exact ⟨r, _, result, _, stays, called, by rw [onCore, operated], handed result,
    taken result⟩

theorem Serves.congr {more more' : UInt32 → List UInt8}
    (serves : Serves S role y way fresh fed base x error more session)
    (same : error ≠ some exhausted → ∀ id, more id = more' id) :
    Serves S role y way fresh fed base x error more' session := by
  by_cases worn : error = some exhausted
  · exact .inl worn
  · rcases serves with gone | ⟨mild, x', sits, sent, acc⟩
    · exact absurd gone worn
    · exact .inr ⟨mild, x', sits, sent, fun id => by rw [acc, same worn]⟩

theorem Serves.named (stream : StreamId) (answer : Except SessionError Unit)
    {more : UInt32 → List UInt8}
    (serves : Serves S role y way fresh fed base x (errorOf answer) more session) :
    Serves S role y way fresh fed base x
      (errorOf (answer.mapError (nameStream stream))) more session := by
  cases answer with
  | ok a => exact serves
  | error e =>
    rcases serves with gone | ⟨mild, kept⟩
    · cases gone
      exact .inl rfl
    · refine .inr ⟨fun e' failed => ?_, kept⟩
      cases failed
      have before := mild e rfl
      unfold nameStream
      split
      · rfl
      · exact before

theorem Sits.streams (lawful : P.Lawful) (sits : Sits S role y way fresh fed base x session)
    (stream : StreamId) (operation : UInt32 → Yamux.SessionCore → Option (Yamux.Returned Unit))
    (more : UInt32 → List UInt8)
    (asks : ∀ id, stream = id.toNat → Asks (onCore (operation id))
      fun result => match result with | .ok () => more | .error _ => fun _ => []) :
    ∃ answer session', session.withYamuxStream stream operation = some (answer, session') ∧
      Serves S role y way fresh fed base x (errorOf answer)
        (match answer with | .ok () => more | .error _ => fun _ => []) session' := by
  unfold withYamuxStream yamuxStream
  split
  · rename_i e narrowed
    split at narrowed
    · cases narrowed
    · cases narrowed
      exact ⟨_, session, rfl, sits.refuses (fun e failed => by cases failed; rfl)⟩
  · rename_i id narrowed
    split at narrowed
    · rename_i fits
      cases narrowed
      have named : stream = (UInt32.ofNat stream).toNat := by
        exact (UInt32.toNat_ofNat_of_lt' fits).symm
      rcases sits.operates lawful (asks _ named) with refused
          | ⟨result, answer, session', returned, serves, ended⟩
      · rw [refused]
        exact ⟨_, session, rfl, sits.refuses (fun e failed => by cases failed; rfl)⟩
      · rw [returned]
        refine ⟨_, session', rfl, (Serves.named stream answer serves).congr fun lasting id => ?_⟩
        rcases ended with rfl | rfl
        · cases result with
          | ok a => rfl
          | error e => rfl
        · exact absurd rfl lasting
    · cases narrowed

theorem Sits.streamed (lawful : P.Lawful) (sits : Sits S role y way fresh fed base x session)
    (r : Request) (stream : StreamId)
    (operation : UInt32 → Yamux.SessionCore → Option (Yamux.Returned Unit))
    (more : UInt32 → List UInt8) (asks : ∀ id, stream = id.toNat → Asks (onCore (operation id))
      fun result => match result with | .ok () => more | .error _ => fun _ => [])
    (same : session.call r.call =
      answered .done (session.withYamuxStream stream operation))
    (accepts : ∀ id, r.taken id.toNat (.done (.ok ())) = more id)
    (refuses : ∀ e id, r.taken id (.done (.error e)) = []) :
    ∃ a session', session.call r.call = some (a, session') ∧ a.handed = [] ∧
      Serves S role y way fresh fed base x a.error? (fun id => r.taken id.toNat a) session' := by
  obtain ⟨answer, session', returned, serves⟩ := sits.streams lawful stream operation more asks
  refine ⟨.done answer, session', ?_, rfl, ?_⟩
  · rw [same, returned]
    rfl
  · cases answer with
    | ok a => exact serves.congr fun _ id => (accepts id).symm
    | error e => exact serves.congr fun _ id => (refuses e id.toNat).symm

theorem Sits.request (lawful : P.Lawful) (sits : Sits S role y way fresh fed base x session)
    (r : Request) (asks : r ≠ .pollOutput) :
    ∃ a session', session.call r.call = some (a, session') ∧ a.handed = [] ∧
      Serves S role y way fresh fed base x a.error? (fun id => r.taken id.toNat a) session' := by
  cases r with
  | pollOutput => exact absurd rfl asks
  | start =>
    obtain ⟨phase, found, stage⟩ := sits.stage
    obtain ⟨answer, session', returned, serves, -⟩ := @Sits.proceed _ _ _ _ _ x y way fed fresh
      base session fed way sits Unit (.ok ()) (by simp) (startPhase phase) x
      (prefix_refl _) (fun _ => []) (fun _ => (append_nil _).symm) stage.starts
    have started : session.start = some (answer, session') := by
      rw [start, withPhase, found]
      exact returned
    refine ⟨.done answer, session', ?_, rfl, ?_⟩
    · rw [Request.call, call, started]
      rfl
    · cases answer <;> exact serves
  | poll now =>
    have asked : Asks (onCore fun core => core.poll now) fun _ _ => [] :=
      onCore_asks (.poll now) .done rfl (fun _ => rfl) (fun _ => rfl) (fun _ _ => rfl)
    rcases sits.operates lawful asked with refused
        | ⟨result, answer, session', returned, serves, ended⟩
    · refine ⟨.done (.ok ()), session, ?_, rfl, sits.refuses (by simp [Answer.error?])⟩
      simp [Request.call, call, poll, refused, answered]
    · refine ⟨.done answer, session', ?_, rfl, ?_⟩
      · have polled : session.poll now = some (answer, session') := by
          rw [poll, returned]
          rcases ended with rfl | rfl
          · cases result <;> rfl
          · rfl
        rw [Request.call, call, polled]
        rfl
      · cases answer <;> exact serves
  | openStream =>
    have asked : Asks (onCore Yamux.SessionCore.openStream) fun _ _ => [] :=
      onCore_asks .openStream .opened rfl (fun _ => rfl) (fun _ => rfl) (fun _ _ => rfl)
    rcases sits.operates lawful asked with refused
        | ⟨result, answer, session', returned, serves, ended⟩
    · refine ⟨.opened (.error .notEstablished), session, ?_, rfl,
        sits.refuses (fun e failed => by cases failed; rfl)⟩
      simp [Request.call, call, openStream, refused,
        answered, Except.map]
    · refine ⟨.opened (answer.map UInt32.toNat), session', ?_, rfl, ?_⟩
      · simp [Request.call, call, openStream, returned,
          answered]
      · cases answer <;> exact serves
  | send stream data =>
    refine sits.streamed lawful _ stream (fun id core => core.send id data)
      (fun id => if stream = id.toNat then data else []) (fun id named => ?_) rfl (fun _ => rfl)
      (fun _ _ => rfl)
    refine onCore_asks (.send id data) .done rfl (fun _ => rfl) (fun _ => rfl) fun result id' => ?_
    cases result with
    | ok a => simp [Yamux.Request.taken, named, UInt32.toNat_inj]
    | error e => rfl
  | closeStreamWrite stream =>
    refine sits.streamed lawful _ stream (fun id core => core.closeWrite id) (fun _ => [])
      (fun id _ => ?_) rfl (fun _ => rfl) (fun _ _ => rfl)
    refine onCore_asks (.closeWrite id) .done rfl (fun _ => rfl) (fun _ => rfl) fun result id' => ?_
    cases result <;> rfl
  | resetStream stream =>
    refine sits.streamed lawful _ stream (fun id core => core.reset id) (fun _ => [])
      (fun id _ => ?_) rfl (fun _ => rfl) (fun _ _ => rfl)
    refine onCore_asks (.reset id) .done rfl (fun _ => rfl) (fun _ => rfl) fun result id' => ?_
    cases result <;> rfl

end SecureMux
