import MiniP2P.Yamux.Link

/-! A client and a server joined by two byte channels that may cut and join bytes
anywhere, and every interleaving of calls on both ends. -/
namespace Yamux
open Collections Incremental Transition List YamuxSession Answer Label

def YamuxOutput.wire : YamuxOutput → List UInt8
  | .outbound bytes => bytes
  | _ => []

def wireBytes (os : List YamuxOutput) : List UInt8 := os.flatMap YamuxOutput.wire

def Answer.handed : Answer → List YamuxOutput
  | .output (some o) => [o]
  | _ => []

structure Station where
  session : YamuxSession
  incoming : List UInt8

namespace Station

/-- Ask something of a session. Outbound bytes enter the channel to the other end. -/
def request (own other : Station) (r : Request) : Option (Answer × Station × Station) :=
  match own.session.request r with
  | none => none
  | some (a, session) => some (a, { own with session := session },
      { other with incoming := other.incoming ++ wireBytes a.handed })

def deliver (own : Station) (count : Nat) : Option (Answer × Station) :=
  match own.session.call (.handleData (own.incoming.take count)) with
  | none => none
  | some (a, session) => some (a, ⟨session, own.incoming.drop count⟩)

end Station

open Station

inductive Side where
  | client | server
  deriving DecidableEq

def Side.other : Side → Side
  | .client => .server
  | .server => .client

structure Net where
  client : Station
  server : Station

inductive Move where
  | request (side : Side) (r : Request)
  | deliver (side : Side) (count : Nat)

namespace Net

def station (net : Net) : Side → Station
  | .client => net.client
  | .server => net.server

def step (net : Net) : Move → Option (Answer × Net)
  | .request .client r =>
    match net.client.request net.server r with
    | none => none
    | some (a, client, server) => some (a, ⟨client, server⟩)
  | .request .server r =>
    match net.server.request net.client r with
    | none => none
    | some (a, server, client) => some (a, ⟨client, server⟩)
  | .deliver .client count =>
    match net.client.deliver count with
    | none => none
    | some (a, client) => some (a, { net with client := client })
  | .deliver .server count =>
    match net.server.deliver count with
    | none => none
    | some (a, server) => some (a, { net with server := server })

def start (client server : YamuxSession) : Net := ⟨⟨client, []⟩, ⟨server, []⟩⟩

end Net

def Move.side : Move → Side
  | .request side _ => side
  | .deliver side _ => side

/-- The bytes that an accepted `send` takes from the caller of a stream. -/
def Request.taken (stream : UInt32) : Request → Answer → List UInt8
  | .send i data, .done (.ok ()) => if i = stream then data else []
  | _, _ => []

def Answer.openedId : Answer → List UInt32
  | .opened (.ok n) => [n]
  | _ => []

/-- All bytes that accepted calls of `send` have taken for a stream on one side. -/
def accepted (side : Side) (stream : UInt32) (log : List (Move × Answer)) : List UInt8 :=
  log.flatMap (fun
    | (.request s r, a) => if s = side then r.taken stream a else []
    | (.deliver _ _, _) => [])

def delivered (side : Side) (log : List (Move × Answer)) : List YamuxOutput :=
  log.flatMap (fun entry => if entry.1.side = side then entry.2.handed else [])

/-- All ids that `open_stream` has returned on one side. -/
def openedIds (side : Side) (log : List (Move × Answer)) : List UInt32 :=
  log.flatMap (fun entry => if entry.1.side = side then entry.2.openedId else [])

def leaving (log : List (Move × Answer)) : Bool :=
  log.any (fun
    | (.request _ r, _) => r.leaves
    | (.deliver _ _, _) => false)

structure Tale where
  acc : UInt32 → List UInt8
  seen : List YamuxOutput
  opened : List UInt32

def Tale.after (t : Tale) (r : Request) (a : Answer) : Tale where
  acc := fun id => t.acc id ++ r.taken id a
  seen := t.seen ++ a.handed
  opened := t.opened ++ a.openedId

def tale (side : Side) (log : List (Move × Answer)) : Tale :=
  ⟨fun id => accepted side id log, delivered side log, openedIds side log⟩

def Station.peer (st : Station) (t : Tale) (frames : List Frame) (met : UInt32 → Bool) : Peer :=
  ⟨st.session.core, frames, t.acc, t.seen ++ st.session.core.pending, met, t.opened⟩

/-- While a session takes bytes, those on their way encode whole frames. -/
def Carries (own other : Station) (frames : List Frame) : Prop :=
  own.session.core.ensureActive = .ok () →
    own.session.decoder.unread ++ (own.incoming ++ wireBytes other.session.core.pending) =
      (codec own.session.core.config.maxFrameLen).encodeAll frames

/-- Two stations, what is on its way between them, and what their callers saw. -/
structure Joined (gone : Bool) (a b : Station) (ta tb : Tale) : Prop where
  goodA : a.session.Good
  goodB : b.session.Good
  linked : ∃ fa fb ma mb, Linked gone (a.peer ta fa ma) (b.peer tb fb mb) ∧ Carries a b fa ∧
    Carries b a fb

variable {a b : Station} {ta tb : Tale} {config : ValidConfig} {stream : UInt32} {ls : List Label}
    {core : SessionCore}

theorem Joined.symm {gone : Bool} (h : Joined gone a b ta tb) : Joined gone b a tb ta := by
  obtain ⟨goodA, goodB, fa, fb, ma, mb, linked, here, there⟩ := h
  exact ⟨goodB, goodA, fb, fa, mb, ma, linked.symm, there, here⟩

@[simp] theorem wireBytes_append (os ps : List YamuxOutput) :
    wireBytes (os ++ ps) = wireBytes os ++ wireBytes ps := flatMap_append

@[simp] theorem wireBytes_nil : wireBytes [] = [] := rfl

@[simp] theorem wireBytes_cons (o : YamuxOutput) (os : List YamuxOutput) :
    wireBytes (o :: os) = o.wire ++ wireBytes os := rfl

theorem wireBytes_frames (m : UInt32) (fs : List Frame) :
    wireBytes (fs.map (fun f => .outbound f.encode)) = (codec m).encodeAll fs := by
  induction fs with
  | nil => rfl
  | cons f fs ih => exact congrArg (f.encode ++ ·) ih

theorem wireBytes_closing (keys : List UInt32) : wireBytes (keys.map .streamClosed) = [] := by
  induction keys with
  | nil => rfl
  | cons k keys ih => exact ih

theorem Act.wire {late : Prop} {a b : Option StreamState} (act : Act config stream late a ls b)
    (m : UInt32) : wireBytes (outputs ls) = (codec m).encodeAll (frames ls) := by
  cases act <;> rfl

theorem trace_wire {late : Prop} {a b : Option StreamState}
    (trace : Trace (Act config stream late) a ls b) (m : UInt32) :
    wireBytes (outputs ls) = (codec m).encodeAll (frames ls) := by
  induction trace with
  | nil => rfl
  | cons act _ ih =>
    rw [outputs_append, wireBytes_append, frames_append, Codec.encodeAll_append,
      act.wire m, ih]

theorem Absorb.wire {f : Frame} {st st' : StreamState} (absorb : Absorb config f st ls st') :
    wireBytes (outputs ls) = [] := by
  cases absorb with
  | data kind order fits =>
    simp only [dataLabels, finLabels]
    split <;> split <;> rfl
  | credit kind fits => rfl

theorem Consume.wire {remote room : Prop} {f : Frame} {a b : Option StreamState}
    (consume : Consume config remote room f a ls b) (m : UInt32) :
    wireBytes (outputs ls) = (codec m).encodeAll (frames ls) := by
  cases consume with
  | resetKnown rst => rfl
  | resetUnknown rst => rfl
  | refuse rst full => rfl
  | accept rst syn parity free absorb =>
    simp only [frames, absorb.quiet.2]
    exact absorb.wire
  | known rst syn absorb =>
    rw [absorb.quiet.2]
    exact absorb.wire

theorem Carries.more {own other other' : Station} {frames more : List Frame}
    (carries : Carries own other frames) {os : List YamuxOutput}
    (pending : other'.session.core.pending = other.session.core.pending ++ os)
    (wire : ∀ m, wireBytes os = (codec m).encodeAll more) :
    Carries own other' (frames ++ more) := by
  intro active
  rw [pending, wireBytes_append, Codec.encodeAll_append, ← carries active, ← wire]
  simp only [append_assoc]

theorem Carries.same {own other : Station} {frames : List Frame}
    (carries : Carries own other frames)
    (active : core.ensureActive = own.session.core.ensureActive)
    (config : core.config = own.session.core.config) :
    Carries { own with session := ⟨core, own.session.decoder⟩ } other frames := by
  intro open'
  rw [active] at open'
  rw [config]
  exact carries open'

theorem Joined.progress {gone : Bool} (h : Joined gone a b ta tb)
    (progress : Progress a.session.core core stream ls) :
    Joined gone { a with session := ⟨core, a.session.decoder⟩ } b
      { ta with acc := fun id =>
          if id = stream then ta.acc id ++ Label.accepted ls else ta.acc id } tb := by
  obtain ⟨fa, fb, ma, mb, linked, here, there⟩ := h.linked
  have touched := progress.works.toTouched
  have moved := linked.works progress
  refine ⟨h.goodA.progress progress, h.goodB, fa, fb ++ frames ls, ma, mb, ?_, ?_, ?_⟩
  · have same : peer { a with session := ⟨core, a.session.decoder⟩ }
        { ta with acc := fun id =>
          if id = stream then ta.acc id ++ Label.accepted ls else ta.acc id } fa ma =
        (a.peer ta fa ma).after core stream ls := by
      simp [peer, Peer.after, touched.pending]
    rw [same]
    exact moved
  · exact here.same (SessionCore.ensureActive_congr touched) touched.config
  · exact there.more touched.pending (trace_wire progress.works.trace)

theorem Joined.quiet {gone : Bool} (h : Joined gone a b ta tb) {fs : List Frame}
    (quiet : Quiet a.session.core core fs) :
    Joined gone { a with session := ⟨core, a.session.decoder⟩ } b ta tb := by
  obtain ⟨fa, fb, ma, mb, linked, here, there⟩ := h.linked
  have sound := quiet.sound h.goodA.sound
  refine ⟨h.goodA.same sound quiet.config quiet.ensureActive, h.goodB, fa, fb ++ fs, ma, mb, ?_,
    here.same quiet.ensureActive quiet.config,
    there.more quiet.pending (fun m => wireBytes_frames m fs)⟩
  have same : peer { a with session := ⟨core, a.session.decoder⟩ } ta fa ma =
      (a.peer ta fa ma).control core fs := by
    simp [peer, Peer.control, quiet.pending]
  rw [same]
  exact linked.quiet quiet

theorem Joined.opens {gone : Bool} (h : Joined gone a b ta tb) {n : UInt32}
    (active : a.session.core.ensureActive = .ok ()) (next : a.session.core.nextStreamId = some n)
    (absent : a.session.core.streams.get n = none) :
    Joined gone { a with session := ⟨{ a.session.core with
        nextStreamId := if n.toNat + 2 ≤ u32Max then some (n + 2) else none
        streams := a.session.core.streams.insert n (.outbound a.session.core.config) },
          a.session.decoder⟩ } b { ta with opened := ta.opened ++ [n] } tb := by
  obtain ⟨fa, fb, ma, mb, linked, here, there⟩ := h.linked
  exact ⟨h.goodA.same (h.goodA.sound.openStream active next absent) rfl rfl, h.goodB,
    fa, fb, ma, mb, linked.opens active next absent, here.same rfl rfl, there⟩

theorem goAway_pending (s : SessionCore) (code : UInt32) :
    ({ s with localGoAway := true }.queueFrame (Frame.goAway code)).closeAllStreams.pending =
      s.pending ++ .outbound (Frame.goAway code).encode :: s.streams.keys.map .streamClosed := by
  simp [SessionCore.closeAllStreams, SessionCore.queueFrame]

theorem Untold.closing (id : UInt32) (keys : List UInt32) : Untold id (keys.map .streamClosed) := by
  refine Untold.of_forall (fun o member => ?_)
  obtain ⟨k, -, rfl⟩ := mem_map.mp member
  exact Untold.streamClosed id k

theorem Joined.leaves {gone : Bool} {a b : Station} {ta tb : Tale} (h : Joined gone a b ta tb)
    (code : UInt32) (first : (a.session.core.localGoAway || a.session.core.failed) = false) :
    Joined true { a with session := a.session.goAway code } b ta tb := by
  obtain ⟨fa, fb, ma, mb, linked, here, there⟩ := h.linked
  have good : (a.session.goAway code).Good := by
    obtain ⟨_, s', _, answer, -, -, good, -⟩ := behaves h.goodA (.request (.goAway code))
    cases answer
    exact good
  have left : a.session.goAway code = ⟨({ a.session.core with localGoAway := true }.queueFrame
      (Frame.goAway code)).closeAllStreams, a.session.decoder.clear⟩ := by
    simp [goAway, SessionCore.goAway, first]
  have pending := goAway_pending a.session.core code
  refine ⟨good, h.goodB, fa, fb ++ [Frame.goAway code], ma, mb, ?_, ?_, ?_⟩
  · have leaves : Leaves (a.peer ta fa ma)
        (peer { a with session := a.session.goAway code } ta fa ma)
        (.outbound (Frame.goAway code).encode ::
          a.session.core.streams.keys.map .streamClosed) := by
      rw [left]
      refine ⟨rfl, rfl, rfl, rfl, rfl, fun _ _ => rfl, fun _ => id, rfl, rfl, ?_, rfl, fun id => ?_⟩
      · simp [peer, pending]
      · exact (Untold.outbound id _).cons (Untold.closing id _)
    refine linked.leaves leaves good.sound (fun f member => ?_)
    cases mem_singleton.mp member
    exact ⟨Frame.goAway_valid code, rfl, rfl⟩
  · intro active
    rw [left] at active
    cases (SessionCore.ensureActive_ok.mp active).2.1
  · have queued : (a.session.goAway code).core.pending = a.session.core.pending ++
        .outbound (Frame.goAway code).encode ::
          a.session.core.streams.keys.map .streamClosed := by
      rw [left]
      exact pending
    refine there.more queued (fun m => ?_)
    rw [wireBytes_cons, wireBytes_closing]
    rfl

theorem Joined.pops {gone : Bool} (h : Joined gone a b ta tb) {o : YamuxOutput}
    {rest : List YamuxOutput} (pending : a.session.core.pending = o :: rest) :
    Joined gone
      { a with session := ⟨{ a.session.core with pending := rest }, a.session.decoder⟩ }
      { b with incoming := b.incoming ++ o.wire } { ta with seen := ta.seen ++ [o] } tb := by
  obtain ⟨fa, fb, ma, mb, linked, here, there⟩ := h.linked
  have sound : ({ a.session.core with pending := rest } : SessionCore).Sound :=
    h.goodA.sound.of_same rfl rfl rfl rfl rfl rfl rfl rfl
  refine ⟨h.goodA.same sound rfl rfl, h.goodB, fa, fb, ma, mb, ?_, here, ?_⟩
  · have reacts : Reacts (a.peer ta fa ma) (peer { a with session :=
        ⟨{ a.session.core with pending := rest }, a.session.decoder⟩ }
        { ta with seen := ta.seen ++ [o] } fa ma) 0 [] :=
      { Reacts.refl (a.peer ta fa ma) 0 with outs := by simp [peer, pending] }
    have popped := @Linked.session gone _ _ (b.peer tb fb mb) [] [] linked reacts sound (by simp)
    rw [Peer.hear_nil] at popped
    exact popped
  · intro active
    have bytes := there active
    rw [pending, wireBytes_cons] at bytes
    rw [← bytes]
    simp only [append_assoc]

theorem Half.gone {gone : Bool} {x y : Peer} (h : Half gone x y) : Half true x y :=
  { h with together := nofun }

theorem Joined.gone {gone : Bool} (h : Joined gone a b ta tb) : Joined true a b ta tb := by
  obtain ⟨fa, fb, ma, mb, linked, here, there⟩ := h.linked
  exact ⟨h.goodA, h.goodB, fa, fb, ma, mb,
    ⟨linked.parity, linked.limit, linked.here.gone, linked.there.gone⟩, here, there⟩

variable {r : Request}

theorem Joined.answered {gone : Bool} {ans : Answer} {s : YamuxSession}
    (answer : a.session.request r = some (ans, s)) (handed : ans.handed = [])
    (h : Joined gone { a with session := s } b (ta.after r ans) tb) :
    ∃ ans a' b', a.request b r = some (ans, a', b') ∧ Joined gone a' b' (ta.after r ans) tb :=
  ⟨ans, { a with session := s }, b, by simp [Station.request, answer, handed], h⟩

theorem Joined.refused {gone : Bool} (h : Joined gone a b ta tb) {ans : Answer}
    (answer : a.session.request r = some (ans, a.session)) (handed : ans.handed = [])
    (opened : ans.openedId = []) (taken : ∀ id, r.taken id ans = []) :
    ∃ ans a' b', a.request b r = some (ans, a', b') ∧ Joined gone a' b' (ta.after r ans) tb :=
  Joined.answered answer handed (by simpa [Tale.after, handed, opened, taken] using h)

theorem Joined.worked {gone : Bool} (h : Joined gone a b ta tb)
    (progress : Progress a.session.core core stream ls)
    (answer : a.session.request r = some (.done (.ok ()), ⟨core, a.session.decoder⟩))
    (taken : ∀ id, r.taken id (.done (.ok ())) = if id = stream then Label.accepted ls else []) :
    ∃ ans a' b', a.request b r = some (ans, a', b') ∧ Joined gone a' b' (ta.after r ans) tb := by
  have told : ta.after r (.done (.ok ())) = { ta with
      acc := fun id => if id = stream then ta.acc id ++ Label.accepted ls else ta.acc id } := by
    simp only [Tale.after, taken, handed, openedId, append_nil]
    congr 1
    funext id
    split <;> simp
  refine Joined.answered answer rfl ?_
  rw [told]
  exact h.progress progress

theorem Joined.popFront {gone : Bool} {a b : Station} {ta tb : Tale} {core : SessionCore}
    (h : Joined gone { a with session := ⟨core, a.session.decoder⟩ } b ta tb)
    (answer : a.session.request .pollOutput =
      some (.output core.popFront.1, ⟨core.popFront.2, a.session.decoder⟩)) :
    ∃ ans a' b', a.request b .pollOutput = some (ans, a', b') ∧
      Joined gone a' b' (ta.after .pollOutput ans) tb := by
  cases queue : core.pending with
  | nil =>
    have empty : core.popFront = (none, core) := by simp [SessionCore.popFront, queue]
    rw [empty] at answer
    refine Joined.answered answer rfl ?_
    simpa [Tale.after, handed, openedId, Request.taken] using h
  | cons o rest =>
    have front : core.popFront = (some o, { core with pending := rest }) := by
      simp [SessionCore.popFront, queue]
    have popped := h.pops queue
    refine ⟨.output (some o), { a with session := ⟨{ core with pending := rest },
      a.session.decoder⟩ }, { b with incoming := b.incoming ++ o.wire }, ?_, ?_⟩
    · simp [Station.request, answer, front, handed]
    · simpa [Tale.after, handed, openedId, Request.taken] using popped

theorem Joined.stays {gone : Bool} (h : Joined gone a b ta tb) (r : Request)
    (stays : r.leaves = false) :
    ∃ ans a' b', a.request b r = some (ans, a', b') ∧ Joined gone a' b' (ta.after r ans) tb := by
  obtain ⟨ans, core, answer, does⟩ := request_does h.goodA.sound r stays
  cases does with
  | unopened => exact h.refused answer rfl rfl fun _ => rfl
  | refused => exact h.refused answer rfl rfl fun _ => by cases r <;> rfl
  | opened active next absent =>
    refine Joined.answered answer rfl ?_
    simpa [Tale.after, handed, openedId, Request.taken] using h.opens active next absent
  | sent progress bytes =>
    exact h.worked progress answer fun id => by simp only [Request.taken, bytes, eq_comm]
  | closed progress bytes | reset progress bytes =>
    exact h.worked progress answer fun id => by simp [Request.taken, bytes]
  | polled quiet =>
    refine Joined.answered answer rfl ?_
    simpa [Tale.after, handed, openedId, Request.taken] using h.quiet quiet
  | popped => exact @Joined.popFront gone a b ta tb a.session.core h answer
  | materialized progress bytes =>
    have moved := h.progress progress
    simp only [bytes, append_nil, ite_self] at moved
    exact moved.popFront answer

theorem Joined.request {gone : Bool} (h : Joined gone a b ta tb) (r : Request) :
    ∃ ans a' b', a.request b r = some (ans, a', b') ∧
      Joined (gone || r.leaves) a' b' (ta.after r ans) tb := by
  cases leaves : r.leaves with
  | false =>
    rw [Bool.or_false]
    exact h.stays r leaves
  | true =>
    rw [Bool.or_true]
    cases r with
    | goAway code =>
      by_cases finished : (a.session.core.localGoAway || a.session.core.failed) = true
      · have same : a.session.goAway code = a.session := by simp [goAway, finished]
        exact h.gone.refused (r := .goAway code) (by rw [YamuxSession.request, same]) rfl
          rfl (fun _ => rfl)
      · refine Joined.answered (r := .goAway code) rfl rfl ?_
        simpa [Tale.after, handed, openedId, Request.taken] using
          h.leaves code (Bool.eq_false_iff.mpr finished)
    | openStream => cases leaves
    | send stream data => cases leaves
    | closeWrite stream => cases leaves
    | reset stream => cases leaves
    | poll now => cases leaves
    | pollOutput => cases leaves

/-- Inside a call of `handle_data`: the session so far, and the frames it has not read. -/
def Between (gone : Bool) (a b : Station) (ta tb : Tale) (core : SessionCore)
    (frames : List Frame) : Prop :=
  ∃ fb ma mb, Linked gone
    (peer { a with session := ⟨core, a.session.decoder⟩ } ta frames ma) (b.peer tb fb mb) ∧
    Carries b { a with session := ⟨core, a.session.decoder⟩ } fb

section Deliver

variable {gone : Bool} {a b : Station} {ta tb : Tale} {core core' : SessionCore}
  {f : Frame} {frames rest : List Frame}

theorem Between.takes (h : Between gone a b ta tb core (f :: rest))
    (active : core.ensureActive = .ok ()) (nonzero : f.streamId ≠ 0)
    (taken : Handled core core' f ls) : Between gone a b ta tb core' rest := by
  obtain ⟨fb, ma, mb, linked, carries⟩ := h
  have moved := @Linked.handled gone _ _ linked core' f rest ls rfl nonzero active taken
  have touched := taken.touched
  refine ⟨fb ++ frames ls,
    fun id => ma id || (decide (id = f.streamId) && (f.syn && !f.rst)), mb, ?_,
    carries.more touched.pending (fun m => ?_)⟩
  · have same : ∀ id, (if id = f.streamId then ta.acc id ++ Label.accepted ls else ta.acc id) =
        ta.acc id := fun id => by simp [taken.accepted]
    simp only [peer, Peer.after, Peer.read, same] at moved
    simp only [peer, touched.pending, ← append_assoc]
    exact moved
  · obtain ⟨first, later, mid, rfl, consume, trace⟩ := taken.split
    rw [outputs_append, wireBytes_append, frames_append, Codec.encodeAll_append,
      consume.wire m, trace_wire trace m]

theorem Between.quiet (h : Between gone a b ta tb core frames) {fs : List Frame}
    (quiet : Quiet core core' fs) : Between gone a b ta tb core' frames := by
  obtain ⟨fb, ma, mb, linked, carries⟩ := h
  refine ⟨fb ++ fs, ma, mb, ?_, carries.more quiet.pending (fun m => wireBytes_frames m fs)⟩
  have moved := linked.quiet quiet
  simp only [peer, quiet.pending, ← append_assoc]
  exact moved

theorem Between.skips (h : Between gone a b ta tb core (f :: rest)) (zero : f.streamId = 0) :
    Between gone a b ta tb core rest := by
  obtain ⟨fb, ma, mb, linked, carries⟩ := h
  exact ⟨fb, _, mb, linked.skip rfl zero, carries⟩

theorem Between.ends (h : Between gone a b ta tb core frames) (code : UInt32) :
    Between true a b ta tb (core.onGoAway code) frames := by
  obtain ⟨fb, ma, mb, linked, carries⟩ := h
  have pending := onGoAway_pending core code
  refine ⟨fb, ma, mb, ?_, ?_⟩
  · have leaves : Leaves
        (peer { a with session := ⟨core, a.session.decoder⟩ } ta frames ma)
        (peer { a with session := ⟨core.onGoAway code, a.session.decoder⟩ } ta frames ma)
        (.goAwayReceived code :: core.streams.keys.map .streamClosed) := by
      refine ⟨rfl, rfl, rfl, rfl, rfl, fun _ _ => rfl, fun _ => id, rfl, rfl, ?_, rfl, fun id => ?_⟩
      · simp only [peer, pending, append_assoc]
      · exact (Untold.goAwayReceived id code).cons (Untold.closing id _)
    have sound : (core.onGoAway code).Sound := linked.here.sound.cleared rfl rfl rfl rfl
    have left := @Linked.leaves gone _ _ _ _ [] linked leaves sound (by simp)
    rwa [Peer.hear_nil] at left
  · rw [← append_nil fb]
    refine carries.more pending (fun m => ?_)
    rw [wireBytes_cons, wireBytes_closing]
    rfl

theorem Between.handle (h : Between gone a b ta tb core (f :: rest))
    (active : core.ensureActive = .ok ()) :
    (∃ core', core.handle f = some (.inl core') ∧ core'.ensureActive = .ok () ∧
      core'.config = core.config ∧ Between gone a b ta tb core' rest) ∨
    ∃ core', core.handle f = some (.inr (.ok (), core')) ∧ gone = true ∧
      core'.ensureActive ≠ .ok () ∧ core'.config = core.config ∧
      Between gone a b ta tb core' rest := by
  obtain ⟨fb, ma, mb, linked, carries⟩ := h
  have h : Between gone a b ta tb core (f :: rest) := ⟨fb, ma, mb, linked, carries⟩
  have valid : f.Valid := (linked.here.legal f (by simp [peer])).1
  rcases SessionCore.handle_shape linked.here.sound active valid with
    ⟨nonzero, core', ls, answer, handled⟩ | ⟨nonzero, e, core', ls, answer, rejects, -⟩ |
    ⟨kind, core', fs, answer, quiet⟩ | ⟨kind, answer⟩
  · exact .inl ⟨_, answer, (SessionCore.ensureActive_congr handled.touched).trans active,
      handled.touched.config, (h.takes active nonzero handled).quiet (quiet_dirty core')⟩
  · exact absurd rejects (linked.not_rejected rfl nonzero)
  · exact .inl ⟨_, answer, quiet.ensureActive.trans active, quiet.config,
      (h.skips (valid.stream_zero.mpr (.inl kind))).quiet quiet⟩
  · have left : gone = true := by
      cases gone with
      | true => rfl
      | false => exact absurd kind ((linked.here.together rfl).1 f (by simp [peer]))
    subst left
    refine .inr ⟨_, answer, rfl, fun active' => ?_, rfl,
      ((h.skips (valid.stream_zero.mpr (.inr kind))).ends f.value).quiet (quiet_dirty _)⟩
    cases (SessionCore.ensureActive_ok.mp active').2.2

/-- What holds before each frame of a call of `handle_data`: the bytes not yet read, with
those to come, encode the frames not yet read. -/
structure Reading (gone : Bool) (a b : Station) (ta tb : Tale) (coming : List UInt8)
    (core : SessionCore) (u : List UInt8) : Prop where
  active : core.ensureActive = .ok ()
  limit : core.config.maxFrameLen = a.session.decoder.maxFrameLen
  reads : ∃ frames, Between gone a b ta tb core frames ∧
    u ++ coming = (codec a.session.decoder.maxFrameLen).encodeAll frames

/-- A call of `handle_data` that met the end of the session. -/
def Ends (gone : Bool) (a b : Station) (ta tb : Tale) (r : Returned Unit) : Prop :=
  r.1 = .ok () ∧ r.2.ensureActive ≠ .ok () ∧ ∃ frames, Between gone a b ta tb r.2 frames

variable {coming u left : List UInt8}

section

variable (h : Reading gone a b ta tb coming core u)
include h

theorem Reading.first : (codec a.session.decoder.maxFrameLen).parse u = .ok none ∨
    ∃ f rest left, (codec a.session.decoder.maxFrameLen).parse u = .ok (some (f, left)) ∧
      Between gone a b ta tb core (f :: rest) ∧
      left ++ coming = (codec a.session.decoder.maxFrameLen).encodeAll rest := by
  obtain ⟨frames, between, bytes⟩ := h.reads
  obtain ⟨fb, ma, mb, linked, carries⟩ := between
  have legal := linked.here.legal
  rw [show (peer { a with session := ⟨core, a.session.decoder⟩ } ta frames ma).core.config =
    core.config from rfl, h.limit] at legal
  rcases Codec.parse_stream _ legal bytes with ⟨waits, -⟩ | ⟨f, rest, left, rfl, parsed, more⟩
  · exact .inl waits
  · exact .inr ⟨f, rest, left, parsed, ⟨fb, ma, mb, linked, carries⟩, more⟩

theorem Reading.step (parsed : (codec a.session.decoder.maxFrameLen).parse u =
    .ok (some (f, left))) :
    (∃ core', core.handle f = some (.inl core') ∧ Reading gone a b ta tb coming core' left) ∨
      ∃ r, core.handle f = some (.inr r) ∧ Ends gone a b ta tb r := by
  rcases h.first with waits | ⟨g, rest, left', found, between, more⟩
  · rw [waits] at parsed
    cases parsed
  · rw [found] at parsed
    cases parsed
    rcases between.handle h.active with
      ⟨core', answer, active, config, between'⟩ | ⟨core', answer, -, finished, config, between'⟩
    · exact .inl ⟨core', answer, active, by rw [config]; exact h.limit, rest, between', more⟩
    · exact .inr ⟨_, answer, rfl, finished, rest, between'⟩

theorem Reading.not_error {e : YamuxError} :
    (codec a.session.decoder.maxFrameLen).parse u ≠ .error e := by
  intro failed
  rcases h.first with waits | ⟨_, _, _, found, -⟩
  · rw [waits] at failed
    cases failed
  · rw [found] at failed
    cases failed

end

theorem Joined.reading (h : Joined gone a b ta tb) (active : a.session.core.ensureActive = .ok ())
    (count : Nat) :
    Reading gone a b ta tb (a.incoming.drop count ++ wireBytes b.session.core.pending)
      a.session.core (a.session.decoder.unread ++ a.incoming.take count) := by
  obtain ⟨fa, fb, ma, mb, linked, here, there⟩ := h.linked
  refine ⟨active, h.goodA.limit.symm, fa, ⟨fb, ma, mb, linked, there⟩, ?_⟩
  rw [h.goodA.limit, ← here active, append_assoc, ← append_assoc (a.incoming.take count),
    take_append_drop]

theorem Joined.feeds (h : Joined gone a b ta tb) (active : a.session.core.ensureActive = .ok ())
    (count : Nat) :
    ∃ core d frames, a.session.handleFrames (a.incoming.take count) = some (.ok (), ⟨core, d⟩) ∧
      Between gone a b ta tb core frames ∧ (core.ensureActive = .ok () →
        d.unread ++ (a.incoming.drop count ++ wireBytes b.session.core.pending) =
          (codec core.config.maxFrameLen).encodeAll frames) := by
  rcases @handleFrames_rule a.session h.goodA.toFramed
      (Reading gone a b ta tb (a.incoming.drop count ++ wireBytes b.session.core.pending))
      (Ends gone a b ta tb) (fun inv parsed => inv.step parsed)
      (fun inv failed => absurd failed inv.not_error) _ (h.reading active count) with
    ⟨core, d, runs, inv, -⟩ | ⟨r, core, d, runs, ⟨rfl, finished, frames, between⟩, -⟩
  · obtain ⟨frames, between, bytes⟩ := inv.reads
    exact ⟨core, d, frames, runs, between, fun _ => by rw [inv.limit]; exact bytes⟩
  · exact ⟨core, d, frames, runs, between, fun active' => absurd active' finished⟩

theorem SessionCore.ensureActive_closed {s : SessionCore} {e : YamuxError}
    (unfailed : s.failed = false) (inactive : s.ensureActive = .error e) :
    e = .sessionClosed ∧ (s.localGoAway = true ∨ s.remoteGoAway = true) := by
  unfold SessionCore.ensureActive at inactive
  rw [unfailed] at inactive
  split at inactive
  · contradiction
  · split at inactive
    · rename_i closed
      cases inactive
      exact ⟨rfl, by simpa using closed⟩
    · cases inactive

theorem Joined.deliver (h : Joined gone a b ta tb) (count : Nat) :
    ∃ ans a', a.deliver count = some (ans, a') ∧ Joined gone a' b ta tb ∧
      (ans = .fed (.ok ()) [] ∨ (gone = true ∧ ans = .fed (.error .sessionClosed) [])) := by
  cases active : a.session.core.ensureActive with
  | ok _ =>
    obtain ⟨core, d, frames, runs, ⟨fb, ma, mb, linked, there⟩, bytes⟩ := h.feeds active count
    have fed : a.session.call (.handleData (a.incoming.take count)) =
        some (.fed (.ok ()) [], ⟨core, d⟩) := by
      simp [call, handleData, discarded, active, runs]
    obtain ⟨_, _, _, returns, -, -, good, -⟩ :=
      behaves h.goodA (.handleData (a.incoming.take count))
    rw [fed] at returns
    cases returns
    exact ⟨_, ⟨⟨core, d⟩, a.incoming.drop count⟩, by simp [Station.deliver, fed],
      ⟨good, h.goodB, frames, fb, ma, mb, linked, bytes, there⟩, .inl rfl⟩
  | error e =>
    obtain ⟨fa, fb, ma, mb, linked, here, there⟩ := h.linked
    obtain ⟨refused, closed⟩ := SessionCore.ensureActive_closed linked.here.unfailed active
    have left : gone = true := by
      cases gone with
      | true => rfl
      | false =>
        obtain ⟨-, own, other⟩ := linked.here.together rfl
        rcases closed with closed | closed
        · cases own.symm.trans closed
        · cases other.symm.trans closed
    subst refused
    refine ⟨.fed (.error .sessionClosed) [], ⟨a.session, a.incoming.drop count⟩, ?_,
      ⟨h.goodA, h.goodB, fa, fb, ma, mb, linked, fun active' => ?_, there⟩, .inr ⟨left, rfl⟩⟩
    · simp [Station.deliver, call, handleData, discarded,
        active]
    · rw [active] at active'
      cases active'

end Deliver

end Yamux
