import MiniP2P.RelayServer.Tick

/-! Swarm events return, and each is one visible step and the work it causes. -/
namespace RelayServer
open Collections Core Identity Relay BTreeMap Mark

variable {s t : Agent} {marks : List Mark} {key : StreamKey}

namespace Agent

theorem Ready.step (ready : s.Ready) (step : Step s marks t) (calm : ∀ key, .stirred key ∉ marks) :
    t.Ready :=
  ⟨ready.sane.step step, fun key => step.hopDrained (ready.hop key) (calm key),
    fun key => step.stopDrained (ready.stop key) (calm key)⟩

/-! ### Connections -/

theorem Step.connections (step : Step s marks t) (wired : .rewired ∉ marks) :
    t.connections = s.connections := by
  cases step with
  | addressed | established | departed => exact absurd List.mem_cons_self wired
  | replied _ _ reply =>
    cases reply with
    | _ => rfl
  | committed now _ before known => exact (committed_opens _ now before known).connections
  | arrived arrival =>
    cases arrival with
    | _ => rfl
  | _ => rfl

theorem Does.connections (does : Does steady s t) : t.connections = s.connections :=
  does.keeps (I := fun u => u.connections = s.connections) rfl fun held step only =>
    (step.connections fun wired => only _ wired).trans held

theorem forgetStop_abort {circuit : PendingCircuit}
    (found : s.pendingCircuits.get key = some circuit) :
    (s.forgetStop key).abortPendingConnect key = s.dropPending key circuit := by
  unfold forgetStop
  rw [found]
  cases known : circuit.stopStream with
  | none =>
    simp only [known]
    rw [abortPendingConnect_eq found]
    simp only [known, Option.elim]
  | some stream =>
    simp only [known]
    rw [abortPendingConnect_eq (get_insert_self ..)]
    simp only [Option.elim, dropPending, known, remove_insert]

theorem closePendingOn_does (ready : s.Ready) (entry : StreamKey × Bool) :
    ∃ t, s.closePendingOn entry = some t ∧ Does steady s t ∧ t.Ready ∧
      t.pendingCircuits.get entry.1 = none := by
  obtain ⟨key, onSource⟩ := entry
  unfold closePendingOn
  cases onSource with
  | true =>
    have aborted := abortPendingConnect_does s key
    exact ⟨_, rfl, aborted.mono fun _ idle => idle.steady, aborted.ready ready,
      pendingCircuits_abort s key⟩
  | false =>
    unfold failPendingConnect
    cases found : s.pendingCircuits.get key with
    | none =>
      have same : s.forgetStop key = s := by simp only [forgetStop, found]
      rw [same, found]
      exact ⟨s, rfl, .refl _ s, ready, found⟩
    | some circuit =>
      have kept : ∃ circuit', (s.forgetStop key).pendingCircuits.get key = some circuit' ∧
          circuit'.destinationPeerId = circuit.destinationPeerId := by
        unfold forgetStop
        rw [found]
        cases known : circuit.stopStream with
        | none =>
          simp only [known]
          exact ⟨circuit, found, rfl⟩
        | some stream =>
          simp only [known]
          exact ⟨_, get_insert_self .., rfl⟩
      obtain ⟨circuit', found', peer⟩ := kept
      rw [found']
      dsimp only
      rw [forgetStop_abort found, peer]
      have dropped : Does idle s (s.dropPending key circuit) := .quiet (.dropped found)
      have ready' := dropped.ready ready
      have gone : (s.dropPending key circuit).pendingCircuits.get key = none :=
        get_remove_self ..
      obtain ⟨t, drained, does, ready''⟩ := refuse_ready (ready'.busy key) (ready'.hop key)
        gone circuit.destinationPeerId .connectionFailed (.fromMillis 0)
      exact ⟨t, drained, (dropped.mono fun _ idle => idle.steady).trans
        (does.mono fun _ within => within.steady), ready'',
        does.unasked ready' (fun _ within => within.steady.unseen) gone⟩

theorem closePendings_does (ready : s.Ready) (entries : List (StreamKey × Bool)) :
    ∃ t, forKeys closePendingOn entries s = some t ∧ Does steady s t ∧ t.Ready ∧
      ∀ entry ∈ entries, t.pendingCircuits.get entry.1 = none := by
  induction entries generalizing s with
  | nil => exact ⟨s, rfl, .refl _ s, ready, by simp⟩
  | cons entry entries ih =>
    obtain ⟨t, closed, does, ready', gone⟩ := closePendingOn_does ready entry
    obtain ⟨u, rest, does', ready'', later⟩ := ih ready'
    refine ⟨u, by simp [forKeys, closed, rest], does.trans does', ready'', fun other member => ?_⟩
    rcases List.mem_cons.mp member with rfl | member
    · exact does'.unasked ready' (fun _ steady => steady.unseen) gone
    · exact later other member

theorem dismissWorker_does (free : s.pendingCircuits.get key = none) :
    Does idle s (s.dismissWorker key) := .quiet (.dismissed free)

theorem dismissWorkers_does {keys : List StreamKey}
    (free : ∀ key ∈ keys, s.pendingCircuits.get key = none) :
    Does idle s (keys.foldl dismissWorker s) := by
  induction keys generalizing s with
  | nil => exact .refl _ s
  | cons key keys ih =>
    exact (dismissWorker_does (free key List.mem_cons_self)).trans
      (ih fun key' member => free key' (List.mem_cons_of_mem _ member))

theorem onConnectionClosed_does (ready : s.Ready) (peerId : PeerId) (connId : ConnectionId)
    (cause : ConnectionCloseCause) (P : StreamKey → Prop) :
    ∃ t, s.onConnectionClosed peerId connId cause = some t ∧ Does (inner P) s t ∧ t.Ready ∧
      t.connections = s.connections.remove connId := by
  obtain ⟨s₁, at₁⟩ : ∃ s₁, s₁ = (s.affectedCircuits connId).foldl
    (fun s entry => s.closeCircuit entry.1 (.connectionClosed entry.2 cause)) s := ⟨_, rfl⟩
  have does₁ : Does idle s s₁ := by
    rw [at₁]
    exact foldl_does (fun s (entry : StreamKey × CircuitLeg) => closeCircuit_does s entry.1 _) _ s
  obtain ⟨s₂, at₂, does₂, ready₂, closed⟩ :=
    closePendings_does (does₁.ready ready) (s₁.affectedPending connId)
  have free₂ (key : StreamKey) (on : key.connId = connId) : s₂.pendingCircuits.get key = none := by
    cases found : s₁.pendingCircuits.get key with
    | none => exact does₂.unasked (does₁.ready ready) (fun _ steady => steady.unseen) found
    | some circuit =>
      exact closed (key, true) (List.mem_filterMap.mpr
        ⟨(key, circuit), (s₁.pendingCircuits.mem_entries key circuit).mpr found, by simp [on]⟩)
  obtain ⟨s₃, at₃⟩ : ∃ s₃, s₃ = { s₂ with connections := s₂.connections.remove connId } := ⟨_, rfl⟩
  have ready₃ : s₃.Ready := by
    rw [at₃]
    exact ready₂.step (.departed connId) (by simp)
  have does₃ : Does (inner P) s₂ s₃ := by
    rw [at₃]
    exact .one (.departed connId) rfl
  obtain ⟨s₄, at₄⟩ : ∃ s₄, s₄ =
      if (s₂.reservations.get peerId).any (fun reservation => reservation.connId == connId) then
        s₃.closeReservation peerId (closedReason cause)
      else s₃ := ⟨_, rfl⟩
  have does₄ : Does idle s₃ s₄ := by
    rw [at₄]
    split
    · rename_i held
      obtain ⟨record, found, _⟩ := Option.any_eq_true _ _ |>.mp held
      exact closeReservation_does (by simp [at₃, found]) _
    · exact .refl _ s₃
  obtain ⟨s₅, at₅⟩ : ∃ s₅, s₅ =
    (s₄.hopWorkers.keysWhere (fun key _ => key.connId == connId)).foldl dismissWorker s₄ := ⟨_, rfl⟩
  have same₄ : s₄.pendingCircuits = s₂.pendingCircuits := by
    rw [at₄, at₃]
    split <;> rfl
  have does₅ : Does idle s₄ s₅ := by
    rw [at₅]
    refine dismissWorkers_does fun key member => ?_
    obtain ⟨_, _, on⟩ := mem_keysWhere.mp member
    rw [same₄]
    exact free₂ key (by simpa using on)
  have does₆ : Does idle s₅ { s₅ with
      rejectedHopStreams := s₅.rejectedHopStreams.retain (fun key _ => key.connId != connId) } :=
    .quiet (.unbarred _)
  have last := does₄.trans (does₅.trans does₆)
  have first := (does₁.mono fun _ idle => idle.steady).trans does₂
  refine ⟨_, ?_, ?_, last.ready ready₃, ?_⟩
  · rw [onConnectionClosed, ← at₁]
    simp only [at₂, Option.bind_eq_bind, Option.bind_some, pure, ← at₃, ← at₄, ← at₅]
  · exact (first.mono fun _ steady => steady.inner P).trans
      (does₃.trans (last.mono fun _ idle => idle.steady.inner P))
  · rw [(last.mono fun _ idle => idle.steady).connections, at₃, first.connections]

theorem supersede_does {P : StreamKey → Prop} (peerId : PeerId) (replaced : List ConnectionId)
    (ready : s.Ready) :
    ∃ t, forKeys (fun s old => s.onConnectionClosed peerId old .superseded) replaced s = some t ∧
      Does (inner P) s t ∧ t.Ready ∧ ∀ id connection,
        t.connections.get id = some connection →
          id ∉ replaced ∧ s.connections.get id = some connection := by
  induction replaced generalizing s with
  | nil => exact ⟨s, rfl, .refl _ s, ready, fun _ _ found => ⟨by simp, found⟩⟩
  | cons old replaced ih =>
    obtain ⟨t, closed, does, ready', gone⟩ := onConnectionClosed_does ready peerId old .superseded P
    obtain ⟨u, rest, does', ready'', kept⟩ := ih ready'
    refine ⟨u, by simp [forKeys, closed, rest], does.trans does', ready'',
      fun id connection found => ?_⟩
    obtain ⟨fresh, found⟩ := kept id connection found
    rw [gone, get_remove] at found
    split at found
    · cases found
    · rename_i other
      exact ⟨by simp [other, fresh], found⟩

theorem onConnectionEstablished_does (ready : s.Ready) (peerId : PeerId) (connId : ConnectionId)
    (isCircuit : Bool) (P : StreamKey → Prop) :
    ∃ t, s.onConnectionEstablished peerId connId isCircuit = some t ∧ Does (inner P) s t ∧
      t.Ready := by
  obtain ⟨s₁, at₁, does₁, ready₁, kept⟩ := supersede_does (P := P) peerId (s.connections.keysWhere
    (fun id connection => connection.peerId == peerId && id != connId)) ready
  obtain ⟨s₂, at₂⟩ : ∃ s₂, s₂ =
      if (s₁.reservations.get peerId).any (fun old => old.connId != connId) then
        s₁.closeReservation peerId .superseded
      else s₁ := ⟨_, rfl⟩
  have does₂ : Does idle s₁ s₂ := by
    rw [at₂]
    split
    · rename_i held
      obtain ⟨record, found, _⟩ := Option.any_eq_true _ _ |>.mp held
      exact closeReservation_does (by simp [found]) _
    · exact .refl _ s₁
  have bound : ∀ r, s₂.reservations.get peerId = some r → r.connId = connId := by
    intro r found
    rw [at₂] at found
    split at found
    · simp [closeReservation, emit] at found
    · rename_i fits
      simpa [found] using fits
  have alone : ∀ id other, s₂.connections.get id = some other → other.peerId = peerId →
      id = connId := by
    intro id other found same
    rw [(does₂.mono fun _ idle => idle.steady).connections] at found
    obtain ⟨fresh, found⟩ := kept id other found
    by_contra apart
    exact fresh (mem_keysWhere.mpr ⟨other, found, by simp [same, apart]⟩)
  have step := @Step.established s₂ connId ⟨peerId, none, isCircuit⟩ alone bound
  refine ⟨_, ?_, does₁.trans ((does₂.mono fun _ idle => idle.steady.inner P).trans (.one step rfl)),
    (does₂.ready ready₁).step step (by simp)⟩
  rw [onConnectionEstablished, at₁]
  simp only [Option.bind_eq_bind, Option.bind_some, pure, ← at₂]

/-! ### What arrives on a stream -/

def Shows (marks : List Mark) (s t : Agent) : Prop :=
  ∃ rest s₁, Step s (marks ++ rest) s₁ ∧ (∀ mark ∈ rest, mark.steady) ∧ Does steady s₁ t

theorem Shows.alone {u : Agent} (step : Step s marks t) (does : Does steady t u) :
    Shows marks s u :=
  ⟨[], t, by simpa using step, by simp, does⟩

theorem Shows.trans {u : Agent} (shows : Shows marks s t) (does : Does steady t u) :
    Shows marks s u := by
  obtain ⟨rest, s₁, step, only, does'⟩ := shows
  exact ⟨rest, s₁, step, only, does'.trans does⟩

theorem onHopReady_shows (ready : s.Ready) (peerId : PeerId) (key : StreamKey) (isCircuit : Bool)
    (now : Now) :
    Shows [.began key] s (s.onHopReady peerId key isCircuit now) ∧
      (s.onHopReady peerId key isCircuit now).Ready := by
  have refused : Does idle s (s.rejectHop peerId key) :=
    (Does.quiet (.barred key peerId)).trans (.reset ..)
  have refused : Shows [.began key] s (s.rejectHop peerId key) ∧ (s.rejectHop peerId key).Ready :=
    ⟨.alone (.began key) (refused.mono fun _ idle => idle.steady), refused.ready ready⟩
  have hired {worker : HopWorker} (fresh : worker.responder = .new)
      (timed : worker.deadlineMs.isSome) :
      Shows [.began key] s (s.setWorker key worker) ∧ (s.setWorker key worker).Ready := by
    have step : Step s ([.began key] ++ [.stirred key]) (s.setWorker key worker) :=
      .hired fresh timed
    refine ⟨⟨_, _, step, by simp [steady, outer], .refl _ _⟩,
      ((ready.busy key).step step (by simp)).ready (fun worker' found => ?_) (ready.stop key)⟩
    cases (get_setWorker ..).symm.trans found
    rw [fresh]
    rfl
  unfold onHopReady
  split
  · exact refused
  · split
    · exact refused
    · split
      · exact refused
      · exact hired rfl rfl

theorem queueForward_shows (ready : s.Ready) {source : StreamKey} {data : List UInt8}
    {direction : CircuitDirection} (leg : (direction = .sourceToDestination ∧ source = key) ∨
      (direction = .destinationToSource ∧ s.stopToSource.get key = some source))
    (there : (s.circuits.get source).isSome)
    (sends : ∀ circuit, s.circuits.get source = some circuit → circuit.inFlight direction = false →
      data ≠ [] → Arrival s key data [] (s.sendForward source circuit direction data)) :
    Shows [.arrived key data] s (s.queueForward source direction data) ∧
      (s.queueForward source direction data).Ready := by
  obtain ⟨circuit, found⟩ := Option.isSome_iff_exists.mp there
  by_cases empty : data = []
  · have same : s.queueForward source direction data = s := if_pos empty
    rw [empty]
    exact ⟨.alone (.arrived .nothing) (.refl _ s), ready⟩
  · unfold queueForward
    rw [if_neg empty, found]
    dsimp only
    cases busy : circuit.inFlight direction with
    | true =>
      have closed : Does idle s ((s.closeCircuit source .internalFailure).runtimeError
          .internalInvariant none
            "same-direction forwarding send was not echoed before new input") :=
        (closeCircuit_does ..).trans (.note rfl rfl)
      exact ⟨.alone (.arrived (.jammed leg found busy empty))
        (closed.mono fun _ idle => idle.steady), closed.ready ready⟩
    | false =>
      have arrival := sends circuit found busy empty
      exact ⟨.alone (.arrived arrival) (.refl _ _), ready.step (.arrived arrival) (by simp)⟩

theorem onStreamData_shows (ready : s.Ready) (key : StreamKey) (data : List UInt8) (now : Now) :
    ∃ claimed t, s.onStreamData key data now = some (claimed, t) ∧
      Shows [.arrived key data] s t ∧ t.Ready := by
  have noted {u : Agent} (sender : PeerId) : Does idle u (u.runtimeError .internalInvariant
      (some sender) "pending circuit payload exceeded the 64 KiB directional bound") :=
        .note rfl rfl
  unfold onStreamData
  cases pending : s.pendingCircuits.get key with
  | some circuit =>
    rw [if_pos (by simp [containsKey, pending])]
    refine ⟨true, _, rfl, ?_⟩
    have step : Step s [.arrived key data] _ := .arrived (.pending pending)
    simp only [appendPendingPayload, pending]
    split
    · exact ⟨.alone step (.refl _ _), ready.step step (by simp)⟩
    · have same := abortPendingConnectBoth_setPending { circuit with
        sourcePipelined := circuit.sourcePipelined ++ data } pending rfl rfl
      have there : ((s.setPending key { circuit with
          sourcePipelined :=
            circuit.sourcePipelined ++ data }).pendingCircuits.get key).isSome := by
        simp [setPending]
      have ended := (abortPendingConnectBoth_does there).1
      rw [same] at ended
      have ended := ended.trans (noted (circuit.sender .sourceToDestination))
      exact ⟨.alone step (ended.mono fun _ idle => idle.steady),
        ended.ready (ready.step step (by simp))⟩
  | none =>
    rw [if_neg (by simp [containsKey, pending])]
    cases found : s.hopWorkers.get key with
    | some worker =>
      rw [if_pos (by simp [containsKey, found])]
      cases taken : worker.responder.onData data with
      | ok responder =>
        have fed := feedHop_ok (.data data) found taken
        have step : Step s (.arrived key data :: [.stirred key])
            (s.setWorker key { worker with responder }) := .arrived (.hop pending found taken)
        obtain ⟨t, drained, does, ready'⟩ := drainHop_freed
          ((ready.busy key).step step (by simp)) pending now
        refine ⟨true, t, by simp [fed, drained], ⟨[.stirred key], _, step, by simp [steady, outer],
          does.mono fun _ within => within.steady⟩, ready'⟩
      | error e =>
        have deaf : Deaf s key data :=
          ⟨pending, fun worker' found' => by
            cases found.symm.trans found'
            exact ⟨ready.hop key worker found, e, taken⟩,
          fun missing => by cases missing.symm.trans found⟩
        have step : Step s [.arrived key data] s := .arrived (.deaf deaf)
        have noted : Does idle s (s.runtimeError .internalInvariant (some worker.peerId)
          ("HOP responder rejected routed input: " ++ e.display)) := .note rfl rfl
        exact ⟨true, _, by simp [feedHop, found, HopResponder.handleInput, taken],
          .alone step (noted.mono fun _ idle => idle.steady), noted.ready ready⟩
    | none =>
      rw [if_neg (by simp [containsKey, found])]
      have unheard (why : s.rejectedHopStreams.get key = none → s.circuits.get key = none ∧
          ∀ source, s.stopToSource.get key = some source → s.circuits.get source = none ∧
            ∀ circuit, s.pendingCircuits.get source = some circuit → circuit.stop = none) :
          Shows [.arrived key data] s s := by
        have deaf : Deaf s key data :=
          ⟨pending, fun worker found' => by (cases found.symm.trans found'), fun _ => why⟩
        exact .alone (.arrived (.deaf deaf)) (.refl _ s)
      cases rejected : s.rejectedHopStreams.get key with
      | some peerId =>
        rw [if_pos (by simp [containsKey, rejected])]
        exact ⟨true, s, rfl, unheard (by simp [rejected]), ready⟩
      | none =>
        rw [if_neg (by simp [containsKey, rejected])]
        cases circuit : s.circuits.get key with
        | some circuit' =>
          rw [if_pos (by simp [containsKey, circuit])]
          exact ⟨true, _, rfl, queueForward_shows ready (.inl ⟨rfl, rfl⟩) (by simp [circuit])
            fun _ there idle nonempty => .source pending found there idle nonempty⟩
        | none =>
          rw [if_neg (by simp [containsKey, circuit])]
          cases stream : s.stopToSource.get key with
          | none => exact ⟨false, s, rfl, unheard fun _ => ⟨circuit, by simp [stream]⟩, ready⟩
          | some source =>
            dsimp only
            cases stops : (s.pendingCircuits.get source).bind (fun c => c.stop) with
            | some stop =>
              obtain ⟨pending', found', stops⟩ := Option.bind_eq_some_iff.mp stops
              have step : Step s (.arrived key data :: [.stirred source])
                  (s.setPending source { pending' with stop := some (stop.onData data) }) :=
                .arrived (.stop pending found stream found' stops)
              obtain ⟨t, drained, does, ready'⟩ := drainStop_does
                ((ready.busy source).step step (by simp)) (ready.hop source) now
              rw [setPending] at drained
              refine ⟨true, t, by simp [feedStop, found', stops,
                StopInitiator.handleInput, drained], ⟨[.stirred source], _,
                step, by simp [steady, outer],
                  does.mono fun _ within => within.steady⟩, ready'⟩
            | none =>
              have idle (circuit) (found' : s.pendingCircuits.get source = some circuit) :
                  circuit.stop = none := by simpa [found'] using stops
              have unfed : s.feedStop source (.data data) = (false, s) := by
                unfold feedStop
                split
                · rfl
                · rename_i found'
                  rw [idle _ found']
              rw [unfed]
              cases there : s.circuits.get source with
              | some circuit' =>
                simp only [Bool.false_eq_true, if_false, containsKey, there, Option.isSome_some,
                  if_true]
                exact ⟨true, _, rfl, queueForward_shows ready (.inr ⟨rfl, stream⟩) (by simp [there])
                  fun _ there idle present => .destination pending found circuit stream
                    there idle present⟩
              | none =>
                simp only [Bool.false_eq_true, if_false, containsKey, there, Option.isSome_none]
                refine ⟨true, s, rfl, unheard fun _ => ⟨circuit, fun source' same => ?_⟩, ready⟩
                cases stream.symm.trans same
                exact ⟨there, idle⟩

/-! ### Ends of streams -/

theorem finishEofIfDrained_does (s : Agent) (key : StreamKey) :
    Does idle s (s.finishEofIfDrained key) := by
  unfold finishEofIfDrained
  split
  · exact closeCircuit_does ..
  · exact .refl _ s

theorem circuitEof_shows (ready : s.Ready) {stream : StreamKey} {leg : CircuitLeg}
    (via : (leg = .source ∧ stream = key) ∨
      (leg = .destination ∧ s.stopToSource.get stream = some key)) :
    Shows [.hungUp stream] s (s.circuitEof key leg) ∧ (s.circuitEof key leg).Ready := by
  unfold circuitEof
  split
  · exact ⟨.alone (.hungUp stream) (.refl _ s), ready⟩
  · rename_i circuit found
    split
    · exact ⟨.alone (.hungUp stream) (.refl _ s), ready⟩
    · rename_i unended
      have step : Step s [.hungUp stream] (s.sendEof key circuit leg) :=
        .eof found (by simpa using unended) via
      have finished := finishEofIfDrained_does (s.sendEof key circuit leg) key
      exact ⟨.alone step (finished.mono fun _ idle => idle.steady),
        finished.ready (ready.step step (by simp))⟩

theorem abandonSource_does (pending : (s.pendingCircuits.get key).isSome) :
    Does idle s (s.abandonSource key) := by
  have abandoned := abandon_does pending
  rwa [← hopWorkers_abort s key] at abandoned

theorem feedStopOf_some {s' : Agent} {source : StreamKey} {input : StopInitiatorInput}
    (fed : s.feedStopOf key input = some (source, s')) :
    s.stopToSource.get key = some source ∧ ∃ circuit stop,
      s.pendingCircuits.get source = some circuit ∧ circuit.stop = some stop ∧
        s' = s.setPending source { circuit with stop := some (stop.handleInput input) } := by
  cases stream : s.stopToSource.get key with
  | none => simp [feedStopOf, stream] at fed
  | some source' =>
    cases found : s.pendingCircuits.get source' with
    | none => simp [feedStopOf, stream, feedStop, found] at fed
    | some circuit =>
      cases stops : circuit.stop with
      | none => simp [feedStopOf, stream, feedStop, found, stops] at fed
      | some stop =>
        simp only [feedStopOf, stream, feedStop, found, stops, if_true, Option.some.injEq,
          Prod.mk.injEq] at fed
        obtain ⟨rfl, rfl⟩ := fed
        exact ⟨rfl, circuit, stop, found, stops, rfl⟩

theorem onStreamRemoteWriteClosed_shows (ready : s.Ready) (key : StreamKey) (now : Now) :
    ∃ claimed t, s.onStreamRemoteWriteClosed key now = some (claimed, t) ∧
      Shows [.hungUp key] s t ∧ t.Ready := by
  unfold onStreamRemoteWriteClosed
  split
  · exact ⟨true, _, rfl, circuitEof_shows ready (.inl ⟨rfl, rfl⟩)⟩
  · split
    · rename_i source committed
      have stream := (Option.filter_eq_some_iff.mp committed).1
      exact ⟨true, _, rfl, circuitEof_shows ready (.inr ⟨rfl, stream⟩)⟩
    · split
      · rename_i hop
        obtain ⟨worker, found⟩ := Option.isSome_iff_exists.mp hop
        have marked : Step s [.hungUp key] (s.markSourceEof key) ∧
            (s.markSourceEof key).hopWorkers = s.hopWorkers := by
          unfold markSourceEof
          split
          · exact ⟨.hungUp key, rfl⟩
          · rename_i pending
            exact ⟨.sourceEnded pending, rfl⟩
        obtain ⟨step, same⟩ := marked
        have ready₁ := ready.step step (by simp)
        generalize s.markSourceEof key = s₁ at step same ready₁
        have found' : s₁.hopWorkers.get key = some worker := same ▸ found
        have turned : Step s₁ [.stirred key] (s₁.setWorker key
            { worker with responder := worker.responder.onRemoteWriteClosed }) :=
          .turned found' .hungUp
        have fed := feedHop_ok .remoteWriteClosed found' rfl
        obtain ⟨t, drained, does, ready'⟩ := drainHop_ready
          ((ready₁.busy key).step turned (by simp)) (fun worker' request found₁ asked => by
            cases (get_setWorker ..).symm.trans found₁
            rw [show worker.responder.onRemoteWriteClosed.outputs = [] from
              ready₁.hop key worker found'] at asked
            cases asked) (ready₁.stop key) now
        exact ⟨true, t, by simp [fed, drained], .alone step
          ((Does.one (P := steady) turned rfl).trans (does.mono fun _ within => within.steady)),
            ready'⟩
      · split
        · rename_i source s' fed
          obtain ⟨stream, circuit, stop, found, stops, rfl⟩ := feedStopOf_some fed
          have ended : Step s [.hungUp key]
              (s.setPending source { circuit with destinationEof := true }) :=
            .destinationEnded found stream
          have ready₁ := ready.step ended (by simp)
          have shifted : Step (s.setPending source { circuit with destinationEof := true })
              [.stirred source] _ :=
            .shifted (get_insert_self ..) (.signalled stops (.inl rfl))
          obtain ⟨t, drained, does, ready'⟩ := drainStop_does
            ((ready₁.busy source).step shifted (by simp)) (ready₁.hop source) now
          refine ⟨true, t, ?_, .alone ended
            ((Does.one (P := steady) shifted rfl).trans (does.mono fun _ within => within.steady)),
              ready'⟩
          simp only [setPending, insert_insert] at drained
          simp only [markDestinationEof, setPending, get_insert_self, insert_insert,
            StopInitiator.handleInput, drained]
          rfl
        · split
          · rename_i pending
            have ended := abandonSource_does pending
            exact ⟨true, _, rfl, .alone (.hungUp key) (ended.mono fun _ idle => idle.steady),
              ended.ready ready⟩
          · exact ⟨_, s, rfl, .alone (.hungUp key) (.refl _ s), ready⟩

theorem onStreamClosed_shows (ready : s.Ready) (key : StreamKey) (now : Now) :
    ∃ claimed t, s.onStreamClosed key now = some (claimed, t) ∧
      Shows [.hungUp key] s t ∧ t.Ready := by
  have ends {t : Agent} (does : Does idle s t) : Shows [.hungUp key] s t ∧ t.Ready :=
    ⟨.alone (.hungUp key) (does.mono fun _ idle => idle.steady), does.ready ready⟩
  unfold onStreamClosed
  split
  · exact ⟨true, _, rfl, ends (closeCircuit_does ..)⟩
  · split
    · exact ⟨true, _, rfl, ends (closeCircuit_does ..)⟩
    · split
      · rename_i source s' fed
        obtain ⟨stream, circuit, stop, found, stops, rfl⟩ := feedStopOf_some fed
        have step : Step s [.stirred source] _ := .shifted found (.signalled stops (.inr rfl))
        obtain ⟨t, drained, does, ready'⟩ := drainStop_does
          ((ready.busy source).step step (by simp)) (ready.hop source) now
        simp only [StopInitiator.handleInput, drained]
        exact ⟨true, t, rfl, .alone (.hungUp key)
          ((Does.one (P := steady) step rfl).trans (does.mono fun _ within => within.steady)),
            ready'⟩
      · split
        · rename_i pending
          exact ⟨true, _, rfl, ends (abandonSource_does pending)⟩
        · rename_i free
          split
          · exact ⟨true, _, rfl, ends (dismissWorker_does (by simpa [containsKey] using free))⟩
          · exact ⟨_, _, rfl, ends (.quiet (@Step.unbarred s _))⟩

end Agent

end RelayServer
