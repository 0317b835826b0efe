import MiniP2P.Yamux.Network

/-! Two honest sessions over byte channels, through every run: bytes arrive in order and
none is lost before the end, neither end fails the other, and nothing stays parked. -/
namespace Yamux
open Collections Incremental Transition List YamuxSession YamuxConfig Machine SessionCore Net

theorem Half.fresh_start {x y : SessionCore} (sound : x.Sound) (unfailed : x.failed = false)
    (unstarted : x.streams = .empty ∧ y.streams = .empty)
    (active : x.localGoAway = false ∧ x.remoteGoAway = false)
    (parity : ∀ id, id ≠ 0 → y.validRemoteStreamId id = !x.validRemoteStreamId id) :
    Half false ⟨x, [], fun _ => [], [], fun _ => false, []⟩
      ⟨y, [], fun _ => [], [], fun _ => false, []⟩ := by
  have untouched : ∀ id, y.validRemoteStreamId id = true →
      Untouched id (Peer.side ⟨x, [], fun _ => [], [], fun _ => false, []⟩ id)
        (Peer.side ⟨y, [], fun _ => [], [], fun _ => false, []⟩ id) := by
    intro id remote
    have own : x.validRemoteStreamId id = false := by
      rw [parity id (remote_nonzero remote)] at remote
      simpa using remote
    have silent := Untold.nil id
    exact ⟨by simp [Peer.side, own], by simp [Peer.side, remote], by simp [Peer.side, unstarted.1],
      by simp [Peer.side, unstarted.2], rfl, rfl, rfl, rfl, silent, silent⟩
  refine ⟨sound, unfailed, fun id remote => ?_, fun n _ id remote _ => untouched id remote, by simp,
    by simp, by simp, fun _ => ⟨by simp, active⟩, rfl, .nil 0⟩
  have pair := @Untouched.paired _ _ _ (untouched id remote) none (.inl rfl)
  have nothing : (Peer.side ⟨x, [], fun _ => [], [], fun _ => false, []⟩ id).st = none :=
    (untouched id remote).noneO
  rw [← nothing] at pair
  exact pair

theorem Joined.start {client server : ValidConfig}
    (same : client.maxFrameLen = server.maxFrameLen) :
    Joined false ⟨.fromValidatedConfig .client client, []⟩ ⟨.fromValidatedConfig .server server, []⟩
      (tale .client []) (tale .server []) := by
  have goodC := new_good .client client
  have goodS := new_good .server server
  have parity : ∀ id, id ≠ 0 →
      (fromValidatedConfig .server server).core.validRemoteStreamId id =
        !(fromValidatedConfig .client client).core.validRemoteStreamId id := by
    intro id nonzero
    rcases Nat.mod_two_eq_zero_or_one id.toNat with even | odd
    · simp [validRemoteStreamId, fromValidatedConfig, nonzero, even]
    · simp [validRemoteStreamId, fromValidatedConfig, nonzero, odd]
  refine ⟨goodC, goodS, [], [], fun _ => false, fun _ => false, ⟨parity, same, ?_, ?_⟩, ?_, ?_⟩
  · exact Half.fresh_start goodC.sound rfl ⟨rfl, rfl⟩ ⟨rfl, rfl⟩ parity
  · refine Half.fresh_start goodS.sound rfl ⟨rfl, rfl⟩ ⟨rfl, rfl⟩ (fun id nonzero => ?_)
    rw [parity id nonzero, Bool.not_not]
  · exact fun _ => rfl
  · exact fun _ => rfl

variable (log : List (Move × Answer))

/-- What a transcript and the two ends have in common after every move. -/
def Bound (net : Net) : Prop :=
  Joined (leaving log) net.client net.server (tale .client log) (tale .server log)

def Heard (past : List (Move × Answer)) : Move → Answer → Prop
  | .deliver _ _, a => a = .fed (.ok ()) [] ∨
      (leaving past = true ∧ a = .fed (.error .sessionClosed) [])
  | .request _ _, _ => True

theorem tale_request (side : Side) (log : List (Move × Answer)) (r : Request) (a : Answer) :
    tale side (log ++ [(.request side r, a)]) = (tale side log).after r a := by
  simp [tale, Tale.after, accepted, delivered, openedIds, Move.side]

theorem tale_request_other {side s : Side} (ne : s ≠ side) (log : List (Move × Answer))
    (r : Request) (a : Answer) : tale side (log ++ [(.request s r, a)]) = tale side log := by
  simp [tale, accepted, delivered, openedIds, Move.side, ne]

theorem tale_deliver (side s : Side) (log : List (Move × Answer)) (count : Nat)
    (result : Except YamuxError Unit) (discarded : List YamuxOutput) :
    tale side (log ++ [(.deliver s count, .fed result discarded)]) = tale side log := by
  simp [tale, accepted, delivered, openedIds, Answer.handed, Answer.openedId]

theorem leaving_request (side : Side) (r : Request) (a : Answer) :
    leaving (log ++ [(.request side r, a)]) = (leaving log || r.leaves) := by
  simp [leaving]

theorem leaving_deliver (side : Side) (count : Nat) (a : Answer) :
    leaving (log ++ [(.deliver side count, a)]) = leaving log := by
  simp [leaving]

variable {past : List (Move × Answer)} {gone : Bool}

theorem tale_heard {s : Side} {count : Nat} {a : Answer}
    (heard : Heard past (.deliver s count) a) (side : Side) :
    tale side (past ++ [(.deliver s count, a)]) = tale side past := by
  rcases heard with rfl | ⟨-, rfl⟩ <;> exact tale_deliver ..

theorem Bound.step {net : Net} (move : Move) (h : Bound past net) :
    ∃ a net', net.step move = some (a, net') ∧ Bound (past ++ [(move, a)]) net' ∧
      Heard past move a := by
  cases move with
  | request side r =>
    cases side with
    | client =>
      obtain ⟨a, client, server, answer, joined⟩ := Joined.request h r
      refine ⟨a, ⟨client, server⟩, by simp [Net.step, answer], ?_, trivial⟩
      rw [Bound, leaving_request, tale_request, tale_request_other (by decide)]
      exact joined
    | server =>
      obtain ⟨a, server, client, answer, joined⟩ := (Joined.symm h).request r
      refine ⟨a, ⟨client, server⟩, by simp [Net.step, answer], ?_, trivial⟩
      rw [Bound, leaving_request, tale_request, tale_request_other (by decide)]
      exact joined.symm
  | deliver side count =>
    cases side with
    | client =>
      obtain ⟨a, client, answer, joined, heard⟩ := Joined.deliver h count
      refine ⟨a, ⟨client, net.server⟩, by simp [Net.step, answer], ?_, heard⟩
      rw [Bound, leaving_deliver, tale_heard heard, tale_heard heard]
      exact joined
    | server =>
      obtain ⟨a, server, answer, joined, heard⟩ := (Joined.symm h).deliver count
      refine ⟨a, ⟨net.client, server⟩, by simp [Net.step, answer], ?_, heard⟩
      rw [Bound, leaving_deliver, tale_heard heard, tale_heard heard]
      exact joined.symm

theorem net_run {client server : YamuxConfig} {c s : YamuxSession}
    (fromClient : withConfig .client client = .ok c)
    (fromServer : withConfig .server server = .ok s)
    (same : client.maxFrameLen = server.maxFrameLen) (moves : List Move) :
    ∃ log net, run Net.step (start c s) moves = some (log, net) ∧ Bound log net ∧
      ∀ before move a after, log = before ++ (move, a) :: after → Heard before move a := by
  obtain ⟨vc, rfl, rfl⟩ := withConfig_ok fromClient
  obtain ⟨vs, rfl, rfl⟩ := withConfig_ok fromServer
  have start : Bound [] (start (.fromValidatedConfig .client vc)
      (.fromValidatedConfig .server vs)) := Joined.start same
  exact run_each (P := Bound) (Q := Heard) (fun move h => h.step move) start moves

/-- What one end has passed on of a stream, against what the other was given. -/
structure Integral (stream : UInt32) (given : List UInt8) (outs : List YamuxOutput) : Prop where
  received : dataOf stream outs <+: given
  ended : closedOf stream outs = true → dataOf stream outs = given
  sealed : lateOf stream outs = []
  once : incomings stream outs ≤ 1

variable {stream : UInt32} {st rt : StreamState}

theorem Paired.integral {o a : End} (h : Paired stream o a) :
    Integral stream o.acc a.outs ∧ Integral stream a.acc o.outs := by
  refine ⟨⟨h.there.received, fun closed => (h.there.ended closed).1, h.sealedA, ?_⟩,
    ⟨h.back.received, fun closed => (h.back.ended closed).1, h.sealedO, ?_⟩⟩
  · exact Nat.le_trans h.announcedA (Bool.toNat_le a.met)
  · rw [h.announcedO]
    exact Nat.zero_le 1

theorem Linked.integral {x y : Peer} (h : Linked gone x y) (stream : UInt32) :
    Integral stream (x.acc stream) y.outs := by
  by_cases nonzero : stream = 0
  · subst nonzero
    have silent := h.there.zero.2
    exact ⟨by simp [silent.data], by simp [silent.closed], silent.late, by simp [silent.incoming]⟩
  · rcases h.owner nonzero with remote | own
    · exact (h.here.paired stream remote).integral.1
    · exact (h.there.paired stream own).integral.2

theorem Integral.seen {given : List UInt8} {outs seen : List YamuxOutput}
    (h : Integral stream given outs) (part : seen <+: outs) :
    dataOf stream seen <+: given ∧
      (.remoteWriteClosed stream ∈ seen → dataOf stream seen = given) := by
  obtain ⟨rest, rfl⟩ := part
  have received := h.received
  rw [dataOf_append] at received
  refine ⟨(prefix_append _ _).trans received, fun closed => ?_⟩
  have here : closedOf stream seen = true := decide_eq_true closed
  have whole := h.ended (by simp [here])
  have sealed := h.sealed
  rw [lateOf_append, here, if_pos rfl, append_eq_nil_iff] at sealed
  rwa [dataOf_append, sealed.2, append_nil] at whole

theorem Linked.opened_once {x y : Peer} (h : Linked gone x y) : (x.opened ++ y.opened).Nodup := by
  refine nodup_append.mpr ⟨h.here.distinct, h.there.distinct, ?_⟩
  rintro id here _ there rfl
  have remote := (h.here.below id here).1
  have own := (h.there.below id there).1
  rw [h.parity id (remote_nonzero own), own] at remote
  cases remote

def emitted (side : Side) (log : List (Move × Answer)) (net : Net) : List YamuxOutput :=
  delivered side log ++ (net.station side).session.core.pending

/-- Bytes arrive in order, and all of them before the end of the stream. A stream id
stands for one stream: it is opened once and announced once. -/
theorem byte_stream_integrity {client server : YamuxConfig} {c s : YamuxSession}
    (fromClient : withConfig .client client = .ok c)
    (fromServer : withConfig .server server = .ok s)
    (same : client.maxFrameLen = server.maxFrameLen) (moves : List Move) :
    ∃ log net, run Net.step (start c s) moves = some (log, net) ∧
      (openedIds .client log ++ openedIds .server log).Nodup ∧
      ∀ side stream, incomings stream (emitted side log net) ≤ 1 ∧
        ∀ seen, seen <+: emitted side.other log net →
          dataOf stream seen <+: accepted side stream log ∧
          (.remoteWriteClosed stream ∈ seen → dataOf stream seen = accepted side stream log) := by
  obtain ⟨log, net, runs, bound, -⟩ := net_run fromClient fromServer same moves
  obtain ⟨fa, fb, ma, mb, linked, -, -⟩ := bound.linked
  refine ⟨log, net, runs, linked.opened_once, fun side stream => ?_⟩
  have toServer := linked.integral stream
  have toClient := linked.symm.integral stream
  cases side with
  | client => exact ⟨toClient.once, fun seen part => toServer.seen part⟩
  | server => exact ⟨toServer.once, fun seen part => toClient.seen part⟩

/-- The client sends three bytes and closes; the channel cuts them after five. -/
def sendMoves : List Move :=
  [.request .client .openStream, .request .client (.send 1 [7, 8, 9]),
    .request .client (.closeWrite 1), .request .client .pollOutput, .request .client .pollOutput,
    .deliver .server 5, .deliver .server 100, .request .server .pollOutput,
    .request .server .pollOutput, .request .server .pollOutput]

theorem byte_stream_integrity_three_bytes :
    withConfig .client default.toYamuxConfig = .ok (.new .client) ∧
      withConfig .server default.toYamuxConfig = .ok (.new .server) ∧
      ∃ log net, run Net.step (start (.new .client) (.new .server)) sendMoves =
          some (log, net) ∧ .remoteWriteClosed 1 ∈ delivered .server log ∧
        dataOf 1 (delivered .server log) = accepted .client 1 log := by
  refine ⟨rfl, rfl, ?_⟩
  obtain ⟨log, net, runs, -, holds⟩ := @byte_stream_integrity default.toYamuxConfig
    default.toYamuxConfig (.new .client) (.new .server) rfl rfl rfl sendMoves
  have closed : (run Net.step (start (.new .client) (.new .server)) sendMoves).elim
      false (fun r => decide (.remoteWriteClosed 1 ∈ delivered .server r.1)) = true := by
    decide +kernel
  rw [runs] at closed
  have ended := of_decide_eq_true closed
  exact ⟨log, net, runs, ended,
    ((holds .client 1).2 (delivered .server log) (prefix_append _ _)).2 ended⟩

/-- No delivery is answered by an error, unless one end was asked to go away before, and
no session fails. -/
theorem honest_peers_never_fail {client server : YamuxConfig} {c s : YamuxSession}
    (fromClient : withConfig .client client = .ok c)
    (fromServer : withConfig .server server = .ok s)
    (serverReads : client.maxFrameLen ≤ server.maxFrameLen)
    (clientReads : server.maxFrameLen ≤ client.maxFrameLen) (moves : List Move) :
    ∃ log net, run Net.step (start c s) moves = some (log, net) ∧
      (∀ side, (net.station side).session.core.failed = false) ∧
      ∀ before side count a after, log = before ++ (.deliver side count, a) :: after →
        ∃ result, a = .fed result [] ∧
          (result = .ok () ∨ (leaving before = true ∧ result = .error .sessionClosed)) := by
  obtain ⟨log, net, runs, bound, heard⟩ :=
    net_run fromClient fromServer (UInt32.le_antisymm serverReads clientReads) moves
  obtain ⟨fa, fb, ma, mb, linked, -, -⟩ := bound.linked
  refine ⟨log, net, runs, fun side => ?_, fun before side count a after split => ?_⟩
  · cases side with
    | client => exact linked.here.unfailed
    | server => exact linked.there.unfailed
  · rcases heard before _ a after split with rfl | ⟨left, rfl⟩
    · exact ⟨_, rfl, .inl rfl⟩
    · exact ⟨_, rfl, .inr ⟨left, rfl⟩⟩

theorem honest_peers_never_fail_three_bytes :
    withConfig .client default.toYamuxConfig = .ok (.new .client) ∧
      withConfig .server default.toYamuxConfig = .ok (.new .server) ∧
      ∃ log net, run Net.step (start (.new .client) (.new .server)) sendMoves =
          some (log, net) ∧ net.client.session.core.failed = false ∧
        net.server.session.core.failed = false := by
  obtain ⟨log, net, runs, unfailed, -⟩ := @honest_peers_never_fail default.toYamuxConfig
    default.toYamuxConfig (.new .client) (.new .server) rfl rfl (UInt32.le_refl _)
    (UInt32.le_refl _) sendMoves
  exact ⟨rfl, rfl, log, net, runs, unfailed .client, unfailed .server⟩

theorem SessionCore.idle {s : SessionCore} (idle : s.isIdle = true) :
    s.pending = [] ∧ ∀ stream st, s.streams.get stream = some st →
      st.hasDeferredControl = false := by
  simp only [isIdle, Bool.and_eq_true, List.isEmpty_iff, all_eq_true] at idle
  refine ⟨idle.1, fun stream st tracked => ?_⟩
  have nothing := idle.2 st (mem_map.mpr
    ⟨(stream, st), (s.streams.mem_entries stream st).mpr tracked, rfl⟩)
  simpa using nothing

theorem Carries.nothing {a b : Station} {frames : List Frame} (carries : Carries a b frames)
    (good : a.session.Good) (active : a.session.core.ensureActive = .ok ())
    (legal : ∀ f ∈ frames, (codec a.session.core.config.maxFrameLen).Legal f)
    (empty : a.incoming = []) (drained : b.session.core.pending = []) : frames = [] := by
  have bytes := carries active
  have waits := good.drained active
  rw [good.limit] at waits
  rw [empty, drained, wireBytes_nil] at bytes
  rcases Codec.parse_stream _ legal bytes with ⟨-, nothing⟩ | ⟨f, rest, left, -, parsed, -⟩
  · exact nothing rfl
  · cases waits.symm.trans parsed

theorem StreamState.Sound.window_left {config : ValidConfig} (h : st.Sound config)
    (idle : st.hasDeferredControl = false) : 0 < st.receiveWindow := by
  have credit := h.credit
  have threshold := h.threshold
  have big := config.window_ok
  simp only [StreamState.hasDeferredControl, Bool.or_eq_false_iff, bne_eq_false_iff_eq] at idle
  simp only [defaultReceiveWindow] at big
  omega

theorem Flow.unparked {acc del : List UInt8} {closed : Bool}
    (h : Flow (some st) (some rt) [] 0 acc del closed) {own other : ValidConfig}
    (sound : st.Sound own) (settled : st.Settled) (there : rt.Sound other)
    (idle : rt.hasDeferredControl = false) : st.bufferedSend = 0 ∧ st.closePending = false := by
  have credit := h.credit st rt rfl rfl
  have left := there.window_left idle
  rw [payloads_nil, length_nil] at credit
  have empty : st.sendBuffer = [] := by
    by_contra parked
    have exhausted := settled.exhausted parked
    omega
  refine ⟨sound.buffered_zero.mpr empty, ?_⟩
  cases pending : st.closePending with
  | false => rfl
  | true => exact absurd empty (settled.deferred pending)

theorem Paired.both {o a : End} (h : Paired stream o a) (here : o.st = some st)
    (there : a.st = some rt) : o.view = some st ∧ a.view = some rt := by
  refine ⟨(End.view_met h.opener).trans here, (End.view_met ?_).trans there⟩
  by_contra unmet
  rw [(h.unmet (Bool.eq_false_iff.mpr unmet)).1] at there
  cases there

theorem Linked.unparked {x y : Peer} (h : Linked gone x y) (noneX : x.frames = [])
    (noneY : y.frames = [])
    (idle : ∀ stream st, y.core.streams.get stream = some st → st.hasDeferredControl = false)
    (here : x.core.streams.get stream = some st) (there : y.core.streams.get stream = some rt) :
    st.bufferedSend = 0 ∧ st.closePending = false := by
  obtain ⟨sound, settled, nonzero⟩ := h.here.sound.streams stream st here
  have other := (h.there.sound.streams stream rt there).1
  have emptyX : (x.side stream).inbox = [] := by simp [Peer.side, noneX]
  have emptyY : (y.side stream).inbox = [] := by simp [Peer.side, noneY]
  have heading : Heading stream (x.side stream) (y.side stream) ∧
      (x.side stream).view = some st ∧ (y.side stream).view = some rt := by
    rcases h.owner nonzero with remote | own
    · have pair := h.here.paired stream remote
      exact ⟨pair.there, pair.both here there⟩
    · have pair := h.there.paired stream own
      exact ⟨pair.back, (pair.both there here).symm⟩
  obtain ⟨flow, viewX, viewY⟩ := heading
  rw [Heading, viewX, viewY, emptyX, emptyY] at flow
  exact flow.unparked sound settled other (idle stream rt there)

/-- An end that takes calls, has nothing to say and nothing to read. -/
structure Quiescent (st : Station) : Prop where
  empty : st.incoming = []
  idle : st.session.core.isIdle = true
  unfailed : st.session.core.failed = false
  stays : st.session.core.localGoAway = false ∧ st.session.core.remoteGoAway = false

instance (st : Station) : Decidable (Quiescent st) :=
  decidable_of_iff (st.incoming = [] ∧ st.session.core.isIdle = true ∧
    st.session.core.failed = false ∧
    (st.session.core.localGoAway = false ∧ st.session.core.remoteGoAway = false))
    ⟨fun ⟨empty, idle, unfailed, stays⟩ => ⟨empty, idle, unfailed, stays⟩,
      fun h => ⟨h.empty, h.idle, h.unfailed, h.stays⟩⟩

/-- When both ends are quiescent, no stream that both track has parked bytes or a
deferred close. -/
theorem flow_control_never_deadlocks {client server : YamuxConfig} {c s : YamuxSession}
    (fromClient : withConfig .client client = .ok c)
    (fromServer : withConfig .server server = .ok s)
    (same : client.maxFrameLen = server.maxFrameLen) (moves : List Move) :
    ∃ log net, run Net.step (start c s) moves = some (log, net) ∧
      (Quiescent net.client → Quiescent net.server →
        ∀ stream st rt, net.client.session.core.streams.get stream = some st →
          net.server.session.core.streams.get stream = some rt →
          (st.bufferedSend = 0 ∧ st.closePending = false) ∧
            rt.bufferedSend = 0 ∧ rt.closePending = false) := by
  obtain ⟨log, net, runs, bound, -⟩ := net_run fromClient fromServer same moves
  obtain ⟨fa, fb, ma, mb, linked, here, there⟩ := bound.linked
  refine ⟨log, net, runs, fun quietC quietS stream st rt tracked tracked' => ?_⟩
  obtain ⟨drainedC, idleC⟩ := idle quietC.idle
  obtain ⟨drainedS, idleS⟩ := idle quietS.idle
  have noneC : fa = [] := here.nothing bound.goodA
    (ensureActive_ok.mpr ⟨quietC.unfailed, quietC.stays⟩) linked.here.legal quietC.empty
    drainedS
  have noneS : fb = [] := there.nothing bound.goodB
    (ensureActive_ok.mpr ⟨quietS.unfailed, quietS.stays⟩) linked.there.legal quietS.empty
    drainedC
  exact ⟨linked.unparked noneC noneS idleS tracked tracked',
    linked.symm.unparked noneS noneC idleC tracked' tracked⟩

def settleMoves : List Move :=
  [.request .client .openStream, .request .client (.send 1 [7, 8, 9]),
    .request .client .pollOutput, .deliver .server 100, .request .server .pollOutput,
    .request .server .pollOutput, .request .server .pollOutput, .deliver .client 100]

theorem flow_control_never_deadlocks_settled :
    withConfig .client default.toYamuxConfig = .ok (.new .client) ∧
      withConfig .server default.toYamuxConfig = .ok (.new .server) ∧
      ∃ log net st rt, run Net.step (start (.new .client) (.new .server)) settleMoves =
          some (log, net) ∧ Quiescent net.client ∧ Quiescent net.server ∧
        net.client.session.core.streams.get 1 = some st ∧
        net.server.session.core.streams.get 1 = some rt ∧ st.bufferedSend = 0 ∧
        rt.bufferedSend = 0 := by
  refine ⟨rfl, rfl, ?_⟩
  obtain ⟨log, net, runs, settled⟩ := @flow_control_never_deadlocks
    default.toYamuxConfig default.toYamuxConfig (.new .client) (.new .server)
    rfl rfl rfl settleMoves
  have quiet : (run Net.step (start (.new .client) (.new .server)) settleMoves).elim
      false (fun r => decide (Quiescent r.2.client ∧ Quiescent r.2.server ∧
        (r.2.client.session.core.streams.get 1).isSome = true ∧
        (r.2.server.session.core.streams.get 1).isSome = true)) = true := by
    decide +kernel
  rw [runs] at quiet
  obtain ⟨quietC, quietS, here, there⟩ := of_decide_eq_true quiet
  obtain ⟨st, tracked⟩ := Option.isSome_iff_exists.mp here
  obtain ⟨rt, tracked'⟩ := Option.isSome_iff_exists.mp there
  have nothing := settled quietC quietS 1 st rt tracked tracked'
  exact ⟨log, net, st, rt, runs, quietC, quietS, tracked, tracked', nothing.1.1, nothing.2.1⟩

end Yamux
