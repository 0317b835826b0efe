import MiniP2P.RelayServer.Quiet

/-! The loops that drain a HOP worker and a STOP machine return, and they do their work in
steps. -/
namespace RelayServer
open Collections Core Identity Relay List BTreeMap HopResponder Mark

/-- The worker without its request. -/
def HopWorker.heard (worker : HopWorker) : HopWorker :=
  { worker with responder := { worker.responder with outputs := [] }, requestKnown := true }

variable {s t : Agent} {key : StreamKey} {worker : HopWorker} {responder : HopResponder}
    {request : HopRequest}

namespace Agent

/-! ### Decisions -/

theorem feedHop_ok (input : HopResponderInput) (found : s.hopWorkers.get key = some worker)
    (taken : worker.responder.handleInput input = .ok responder) :
    s.feedHop key input = (true, s.setWorker key { worker with responder }) := by
  simp [feedHop, found, taken, setWorker]

theorem setWorker_setWorker (s : Agent) (key : StreamKey) (worker worker' : HopWorker) :
    (s.setWorker key worker).setWorker key worker' = s.setWorker key worker' := by
  simp [setWorker, insert_insert]

theorem get_setWorker (s : Agent) (key : StreamKey) (worker : HopWorker) :
    (s.setWorker key worker).hopWorkers.get key = some worker := get_insert_self ..

def Unasked (s : Agent) (key : StreamKey) : Prop :=
  ∀ worker request, s.hopWorkers.get key = some worker →
    .request request ∈ worker.responder.outputs → s.pendingCircuits.get key = none

def StopKept (s t : Agent) (key : StreamKey) : Prop :=
  ∀ circuit stop, t.pendingCircuits.get key = some circuit → circuit.stop = some stop →
    ∃ circuit', s.pendingCircuits.get key = some circuit' ∧ circuit'.stop = some stop

theorem StopKept.refl (s : Agent) (key : StreamKey) : StopKept s s key :=
  fun circuit _ found stops => ⟨circuit, found, stops⟩

variable {output : HopResponderOutput} {u : Agent}

theorem StopKept.trans (first : StopKept s t key) (second : StopKept t u key) :
    StopKept s u key := by
  intro circuit stop found stops
  obtain ⟨circuit', found', stops'⟩ := second circuit stop found stops
  exact first circuit' stop found' stops'

theorem StopKept.none (gone : t.pendingCircuits.get key = none) : StopKept s t key := by
  intro circuit stop found
  rw [gone] at found
  cases found

structure Drains (s t : Agent) (key : StreamKey) : Prop where
  does : Does (within key) s t
  unasked : t.Unasked key
  lighter : t.hopWeight key < s.hopWeight key
  kept : StopKept s t key

theorem hopWeight_found (found : s.hopWorkers.get key = some worker) :
    s.hopWeight key = (worker.responder.outputs.map hopOutputWeight).sum := by
  rw [hopWeight, found]

structure Requests (s : Agent) (key : StreamKey) (worker : HopWorker) (request : HopRequest) :
    Prop where
  found : s.hopWorkers.get key = some worker
  front : worker.responder.outputs = [.request request]
  free : s.pendingCircuits.get key = none
  waits : ∃ pending, worker.responder.pendingRequest = some pending ∧
    (pending = .connect ↔ ∃ peerId, request = .connect peerId)

theorem Requests.decided (requests : Requests s key worker request)
    (decision : Decision { worker.responder with outputs := [] } responder)
    (answers : HopResponder.Answers responder.outputs) :
    Drains s (s.setWorker key { worker with responder, requestKnown := true }) key := by
  refine ⟨.stir (.turned requests.found (.answered requests.free requests.front decision)),
    fun _ _ _ _ => requests.free, ?_, .none requests.free⟩
  rw [hopWeight_found requests.found, hopWeight_found (get_setWorker ..), requests.front]
  rcases answers with alone | ⟨frame, both⟩
  · simp [alone, hopOutputWeight]
  · simp [both, hopOutputWeight]

theorem Drains.then (first : Drains s t key) (second : Does (within key) t u)
    (workers : u.hopWorkers = t.hopWorkers) (pending : u.pendingCircuits = t.pendingCircuits) :
    Drains s u key := by
  refine ⟨first.does.trans second, fun worker request found asked => ?_, ?_, ?_⟩
  · rw [pending]
    exact first.unasked worker request (workers ▸ found) asked
  · have lighter := first.lighter
    unfold hopWeight at lighter ⊢
    rwa [workers]
  · intro circuit stop found
    exact first.kept circuit stop (pending ▸ found)

section

variable (requests : Requests s key worker request)
include requests

theorem Requests.deny {event : RelayServerEvent} (report : event.isReport = true)
    (status : Status) :
    Drains s (((s.setWorker key worker.heard).emit event).feedHop key (.reject status)).2 key := by
  obtain ⟨pending, waits, -⟩ := requests.waits
  obtain ⟨responder, taken, answers⟩ := reject_answers
    (m := { worker.responder with outputs := [] }) rfl waits status
  have same : (((s.setWorker key worker.heard).emit event).feedHop key (.reject status)).2 =
      (s.setWorker key { worker with responder, requestKnown := true }).emit event := by
    rw [feedHop_ok (s := (s.setWorker key worker.heard).emit event) (.reject status)
      (get_setWorker ..) taken]
    simp [setWorker, emit, HopWorker.heard, insert_insert]
  rw [same]
  exact (requests.decided (.rejected taken) answers).then (.note report rfl) rfl rfl

theorem Requests.denyReservation (peerId : PeerId) (status : Status) :
    Drains s ((s.setWorker key worker.heard).denyReservation key peerId status) key :=
  requests.deny rfl status

theorem Requests.denyConnect (peerId : PeerId) (status : Status) :
    Drains s ((s.setWorker key worker.heard).denyConnect key peerId status) key := by
  rw [Agent.denyConnect, get_setWorker]
  exact requests.deny rfl status

theorem Requests.policy (workers : t.hopWorkers = s.hopWorkers)
    (pending : t.pendingCircuits = s.pendingCircuits) :
    Requests t key worker request :=
  ⟨workers ▸ requests.found, requests.front, pending ▸ requests.free, requests.waits⟩

end

theorem Drains.after (first : Does (within key) s t)
    (workers : t.hopWorkers = s.hopWorkers) (pending : t.pendingCircuits = s.pendingCircuits)
    (second : Drains t u key) : Drains s u key := by
  refine ⟨first.trans second.does, second.unasked, ?_, ?_⟩
  · have lighter := second.lighter
    unfold hopWeight at lighter ⊢
    rwa [← workers]
  · intro circuit stop found stops
    rw [← pending]
    exact second.kept circuit stop found stops

theorem Requests.acceptReservation (requests : Requests s key worker .reserve) {renewed : Bool}
    (free : s.pendingForPeer worker.peerId = false)
    (same : renewed = s.renews worker.peerId key.connId)
    (room : renewed = true ∨ s.reservations.len + s.pendingInitial < s.config.maxReservations)
    (deadlineMs : Nat) (expires : Option Nat) (reservation : Reservation) (limit : Limit) :
    Drains s ((s.setWorker key worker.heard).acceptReservation key worker.peerId renewed deadlineMs
      expires reservation limit) key := by
  obtain ⟨pending, waits, kind⟩ := requests.waits
  have reserve : pending = .reserve := by
    cases pending with
    | reserve => rfl
    | connect =>
      obtain ⟨_, wrong⟩ := kind.mp rfl
      cases wrong
  rw [reserve] at waits
  obtain ⟨responder, taken, answers⟩ := acceptReservation_answers
    (m := { worker.responder with outputs := [] }) rfl waits reservation (some limit)
  have fed : (s.setWorker key worker.heard).feedHop key (.acceptReservation reservation
      (some limit)) =
      (true, s.setWorker key { worker with responder, requestKnown := true }) := by
    have fed := feedHop_ok (.acceptReservation reservation (some limit))
      (get_setWorker s key worker.heard) taken
    rw [fed, setWorker_setWorker]
    rfl
  have decided := requests.decided (.reserved taken) answers
  unfold Agent.acceptReservation
  rw [fed]
  simp only [Bool.not_true, Bool.false_eq_true, if_false, get_setWorker]
  generalize here : s.setWorker key { worker with responder, requestKnown := true } = s' at decided
  have found : s'.hopWorkers.get key = some { worker with responder, requestKnown := true } := by
    rw [← here, get_setWorker]
  have weight := decided.lighter
  rw [hopWeight_found found] at weight
  have unasked : s'.pendingCircuits.get key = none := by
    rw [← here]
    exact requests.free
  rcases answers with alone | ⟨frame, both⟩
  · -- the response did not fit and the stream is reset instead
    have popped := pollOutput_cons alone
    rw [popped]
    have muted := Does.stir (.turned requests.found
      (.muted requests.free requests.front taken popped))
    rw [← setWorker_setWorker s key { worker with responder, requestKnown := true }, here] at muted
    refine ⟨muted.trans (.note rfl rfl), fun _ _ _ _ => unasked, ?_, .none unasked⟩
    rw [hopWeight_found (s := (s'.setWorker key _).runtimeError ..) (get_setWorker ..)]
    simp only [alone, map_cons, map_nil, sum_cons, sum_nil] at weight ⊢
    omega
  · have popped := pollOutput_cons both
    rw [popped]
    have promised := Does.quiet (P := within key) (.promised renewed deadlineMs expires found popped
      (by rw [← here]; exact free) (by rw [← here]; exact same) (by rw [← here]; exact room))
    refine ⟨decided.does.trans promised, fun _ _ _ _ => unasked, ?_, .none unasked⟩
    rw [hopWeight_found (s := (s'.setWorker key _).queueSend ..) (get_setWorker ..)]
    simp only [both, map_cons, map_nil, sum_cons, sum_nil] at weight ⊢
    omega

theorem consumeReservationLimits_eq (s : Agent) (peerId : PeerId) (connId : ConnectionId)
    (nowMs : Nat) : ∃ allowed limiters, s.consumeReservationLimits peerId connId nowMs =
      some (allowed, { s with reservationLimiters := limiters }) := by
  obtain ⟨allowed, limiters, consumed⟩ :=
    s.reservationLimiters.consume_returns peerId (s.connectionIp connId) nowMs
  exact ⟨allowed, limiters, by simp [consumeReservationLimits, consumed]⟩

theorem consumeCircuitLimits_eq (s : Agent) (peerId : PeerId) (connId : ConnectionId)
    (nowMs : Nat) : ∃ allowed limiters, s.consumeCircuitLimits peerId connId nowMs =
      some (allowed, { s with circuitLimiters := limiters }) := by
  obtain ⟨allowed, limiters, consumed⟩ :=
    s.circuitLimiters.consume_returns peerId (s.connectionIp connId) nowMs
  exact ⟨allowed, limiters, by simp [consumeCircuitLimits, consumed]⟩

theorem Requests.decideReservation (requests : Requests s key worker .reserve) (now : Now) :
    ∃ t, (s.setWorker key worker.heard).decideReservation key now = some t ∧ Drains s t key := by
  unfold Agent.decideReservation
  rw [get_setWorker]
  dsimp only
  split
  · exact ⟨_, rfl, requests.denyReservation _ _⟩
  · obtain ⟨allowed, limiters, consumed⟩ := consumeReservationLimits_eq
      (s.setWorker key worker.heard) worker.heard.peerId key.connId now.monotonicMs
    rw [consumed]
    dsimp only [bind, Option.bind, pure]
    have spent : Does (within key) s { s with reservationLimiters := limiters } :=
      .quiet (.policy s.accepting s.explicitAddrs s.confirmedAddrs s.listenerAddrs
        s.lastEventTickMs limiters s.circuitLimiters)
    have requests' := requests.policy (t := { s with reservationLimiters := limiters }) rfl rfl
    have denied status :=
      Drains.after spent rfl rfl (requests'.denyReservation worker.peerId status)
    split
    · exact ⟨_, rfl, denied _⟩
    · split
      · exact ⟨_, rfl, denied _⟩
      · rename_i admitted
        simp only [Bool.or_eq_true, Bool.and_eq_true, Bool.not_eq_true', decide_eq_true_eq, not_or,
          not_and, Bool.not_eq_true, Nat.not_le] at admitted
        refine ⟨_, rfl, .after spent rfl rfl (requests'.acceptReservation admitted.1 rfl ?_ ..)⟩
        cases renewed : s.renews worker.peerId key.connId with
        | true => exact .inl renewed
        | false => exact .inr (admitted.2 renewed)

theorem Requests.requestCircuit {peerId : PeerId}
    (requests : Requests s key worker (.connect peerId))
    (roomy : s.crowded worker.peerId peerId = false) (connId : ConnectionId) (now : Now) :
    Drains s ((s.setWorker key worker.heard).requestCircuit key worker.peerId peerId connId now)
      key := by
  refine ⟨.quiet (.asked connId now requests.found requests.front requests.free roomy),
    fun worker' request found asked => ?_, ?_, fun circuit stop found stops => ?_⟩
  · cases (get_setWorker s key worker.heard).symm.trans found
    cases asked
  · rw [hopWeight_found requests.found, requests.front, hopWeight_found
      (s := (s.setWorker key worker.heard).requestCircuit ..) (get_setWorker ..)]
    simp [HopWorker.heard, hopOutputWeight]
  · cases (get_insert_self ..).symm.trans found
    cases stops

theorem Requests.decideConnect {peerId : PeerId}
    (requests : Requests s key worker (.connect peerId)) (now : Now) :
    ∃ t, (s.setWorker key worker.heard).decideConnect key peerId now = some t ∧
      Drains s t key := by
  unfold Agent.decideConnect
  rw [get_setWorker]
  dsimp only
  split
  · exact ⟨_, rfl, requests.denyConnect _ _⟩
  · obtain ⟨allowed, limiters, consumed⟩ := consumeCircuitLimits_eq
      (s.setWorker key worker.heard) worker.heard.peerId key.connId now.monotonicMs
    rw [consumed]
    dsimp only [bind, Option.bind, pure]
    have spent : Does (within key) s { s with circuitLimiters := limiters } :=
      .quiet (.policy s.accepting s.explicitAddrs s.confirmedAddrs s.listenerAddrs
        s.lastEventTickMs s.reservationLimiters limiters)
    have requests' := requests.policy (t := { s with circuitLimiters := limiters }) rfl rfl
    have denied status := Drains.after spent rfl rfl (requests'.denyConnect peerId status)
    split
    · exact ⟨_, rfl, denied _⟩
    · rename_i admitted
      simp only [Bool.or_eq_true, not_or, Bool.not_eq_true] at admitted
      split
      · exact ⟨_, rfl, denied _⟩
      · split
        · exact ⟨_, rfl, denied _⟩
        · split
          · exact ⟨_, rfl, denied _⟩
          · exact ⟨_, rfl, .after spent rfl rfl (requests'.requestCircuit admitted.2 ..)⟩

/-! ### Draining a HOP worker -/

theorem hopOutputWeight_pos (output : HopResponderOutput) : 0 < hopOutputWeight output := by
  cases output <;> simp [hopOutputWeight]

theorem Drains.popped {s t : Agent} {key : StreamKey} {worker : HopWorker}
    {responder : HopResponder} (sane : s.Sane)
    (found : s.hopWorkers.get key = some worker)
    (popped : worker.responder.pollOutput = some (output, responder)) (does : Does (within key) s t)
    (after : ∀ worker', t.hopWorkers.get key = some worker' → worker'.responder = responder)
    (kept : StopKept s t key) : Drains s t key := by
  have silent := ((sane.workers _ _ found).polled popped).2
  refine ⟨does, fun worker' request found' asked => ?_, ?_, kept⟩
  · rw [after worker' found'] at asked
    exact absurd asked (silent request)
  · rw [hopWeight_found found, (pollOutput_eq popped).1, map_cons, sum_cons]
    have positive := hopOutputWeight_pos output
    cases found' : t.hopWorkers.get key with
    | none =>
      simp only [hopWeight, found']
      omega
    | some worker' =>
      rw [hopWeight_found found', after worker' found']
      omega

theorem onHopOutput_drains (busy : s.Busy key)
    (unasked : s.Unasked key) (found : s.hopWorkers.get key = some worker)
    (popped : worker.responder.pollOutput = some (output, responder)) (now : Now) :
    ∃ t, s.onHopOutput key { worker with responder } now output = some t ∧ Drains s t key := by
  obtain ⟨front, rest⟩ := pollOutput_eq popped
  have here (worker' : HopWorker)
      (found' : (s.setWorker key { worker with responder }).hopWorkers.get key = some worker') :
      worker'.responder = responder := by
    cases (get_setWorker ..).symm.trans found'
    rfl
  cases output with
  | request request =>
    have member : HopResponderOutput.request request ∈ worker.responder.outputs := by
      rw [front]
      exact mem_cons_self
    obtain ⟨_, alone, waits⟩ := (busy.sane.workers _ _ found).requests member
    have requests : Requests s key worker request :=
      ⟨found, alone, unasked worker request found member, waits⟩
    have heard : ({ worker with responder, requestKnown := true } : HopWorker) = worker.heard := by
      rw [front] at alone
      rw [rest, (List.cons.inj alone).2]
      rfl
    cases request with
    | reserve =>
      simp only [onHopOutput, heard]
      split
      · exact ⟨_, rfl, requests.denyReservation _ _⟩
      · exact requests.decideReservation now
    | connect peerId =>
      simp only [onHopOutput, heard]
      split
      · exact ⟨_, rfl, requests.denyConnect _ _⟩
      · exact requests.decideConnect now
  | outbound data =>
    exact ⟨_, rfl, .popped busy.sane found popped (.quiet (.replied found popped
      (.status data))) here
      (.refl s key)⟩
  | closeWrite =>
    exact ⟨_, rfl, .popped busy.sane found popped (.quiet (.replied found popped .closeWrite)) here
      (.refl s key)⟩
  | reset =>
    exact ⟨_, rfl, .popped busy.sane found popped (.quiet (.replied found popped .reset)) here
      (.refl s key)⟩
  | bridgeData data =>
    simp only [onHopOutput]
    have lost (unowned : data = [] ∨
        (s.pendingCircuits.get key = none ∧ s.circuits.get key = none)) :
        Drains s (s.setWorker key { worker with responder }) key :=
      .popped busy.sane found popped (.stir (.turned found (.lost popped unowned)))
        here (.refl s key)
    cases pending : s.pendingCircuits.get key with
    | some circuit =>
      rw [if_pos (by simp [setWorker, BTreeMap.containsKey, pending])]
      simp only [appendPendingPayload, show (s.setWorker key
        { worker with responder }).pendingCircuits
        = s.pendingCircuits from rfl, pending]
      split
      · refine ⟨_, rfl, .popped busy.sane found popped
          (.quiet (.parked found popped pending)) here ?_⟩
        intro circuit' stop found' stops
        cases (get_insert_self ..).symm.trans found'
        exact ⟨circuit, pending, stops⟩
      · obtain ⟨does, idle, gone⟩ := abortPendingConnectBoth_does (Option.isSome_of_eq_some pending)
        have same := abortPendingConnectBoth_setWorker { worker with responder } found rfl
        refine ⟨_, rfl, ?_⟩
        rw [same]
        refine .popped busy.sane found popped ((does.within key).trans (.note rfl rfl))
          (fun worker' found' => ?_)
          (.none gone)
        cases idle.symm.trans found'
    | none =>
      rw [if_neg (by simp [setWorker, BTreeMap.containsKey, pending])]
      cases circuits : s.circuits.get key with
      | none =>
        rw [if_neg (by simp [setWorker, BTreeMap.containsKey, circuits])]
        exact ⟨_, rfl, lost (.inr ⟨pending, circuits⟩)⟩
      | some circuit =>
        rw [if_pos (by simp [setWorker, BTreeMap.containsKey, circuits])]
        refine ⟨_, rfl, ?_⟩
        rcases queueForward_cases (s.setWorker key { worker with responder }) key
            .sourceToDestination data with ⟨why, same⟩ | ⟨detail, same⟩
              | ⟨circuit', found', idle, nonempty, same⟩
        · rw [same]
          rcases why with empty | missing
          · exact lost (.inl empty)
          · cases missing.symm.trans circuits
        · have closed := closeCircuit_setWorker circuits { worker with responder } .internalFailure
          rw [same, closed]
          refine .popped busy.sane found popped (((closeCircuit_does ..).within key).trans
            (.note rfl rfl))
            (fun worker' found' => ?_) (.none ?_)
          · rw [show ((s.closeCircuit key .internalFailure).runtimeError ..).hopWorkers =
              (s.closeCircuit key .internalFailure).hopWorkers from rfl,
                hopWorkers_closeCircuit circuits,
              get_remove_self] at found'
            cases found'
          · rw [show ((s.closeCircuit key .internalFailure).runtimeError ..).pendingCircuits =
              (s.closeCircuit key .internalFailure).pendingCircuits from rfl,
              pendingCircuits_closeCircuit, pending]
        · rw [same]
          cases circuits.symm.trans found'
          exact .popped busy.sane found popped
            (.quiet (.bridged found popped pending circuits idle nonempty)) here (.refl s key)

theorem drainHopLoop_does (now : Now) {fuel : Nat} (busy : s.Busy key) (unasked : s.Unasked key)
    (enough : s.hopWeight key < fuel) :
    ∃ t, drainHopLoop key now fuel s = some t ∧ Does (within key) s t ∧ t.HopDrained key ∧
      StopKept s t key := by
  induction fuel generalizing s with
  | zero => exact absurd enough (Nat.not_lt_zero _)
  | succ fuel ih =>
    unfold drainHopLoop
    have finished (empty : s.HopDrained key) : s.pollHop key = none := by
      unfold pollHop
      split
      · rfl
      · rename_i worker found
        simp [pollOutput, empty worker found]
    cases found : s.hopWorkers.get key with
    | none =>
      have empty : s.HopDrained key := fun worker found' => by cases found.symm.trans found'
      exact ⟨s, by rw [finished empty], .refl _ s, empty, .refl s key⟩
    | some worker =>
      cases popped : worker.responder.pollOutput with
      | none =>
        have empty : s.HopDrained key := by
          intro worker' found'
          cases found.symm.trans found'
          unfold pollOutput at popped
          split at popped
          · assumption
          · cases popped
        exact ⟨s, by rw [finished empty], .refl _ s, empty, .refl s key⟩
      | some polled =>
        obtain ⟨t, handled, drains⟩ := onHopOutput_drains busy unasked found popped now
        obtain ⟨u, looped, does, empty, kept⟩ := ih (drains.does.busy busy) drains.unasked
          (by have lighter := drains.lighter; omega)
        exact ⟨u, by simp [pollHop, found, popped, handled, looped], drains.does.trans does, empty,
          drains.kept.trans kept⟩

theorem drainHop_does (busy : s.Busy key) (unasked : s.Unasked key) (now : Now) :
    ∃ t, s.drainHop key now = some t ∧ Does (within key) s t ∧ t.HopDrained key ∧
      StopKept s t key :=
  drainHopLoop_does now busy unasked (Nat.lt_succ_self _)

/-! ### Failing a pending circuit -/

theorem denyConnect_does (hop : s.HopDrained key) (free : s.pendingCircuits.get key = none)
    (peerId : PeerId) (status : Status) :
    Does (within key) s (s.denyConnect key peerId status) ∧
      (s.denyConnect key peerId status).pendingCircuits = s.pendingCircuits := by
  cases found : s.hopWorkers.get key with
  | none =>
    rw [denyConnect, found]
    exact ⟨.refl _ s, rfl⟩
  | some worker =>
    have empty := hop worker found
    have noted : Does (within key) s (s.emit (.circuitDenied worker.peerId peerId status)) :=
      .note rfl rfl
    rw [denyConnect, found]
    dsimp only
    cases waits : worker.responder.pendingRequest with
    | none =>
      have refused : worker.responder.handleInput (.reject status) =
          .error (.unexpectedMessage "cannot reject without a pending HOP request") := by
        simp [handleInput, reject, waits]
      simp only [feedHop, emit, found, refused]
      exact ⟨noted.trans (.note rfl rfl), rfl⟩
    | some pending =>
      obtain ⟨responder, taken, answers⟩ := reject_answers empty waits status
      have fed := feedHop_ok (s := s.emit (.circuitDenied worker.peerId peerId status))
        (.reject status) found taken
      rw [fed]
      exact ⟨noted.trans
        (.stir (.turned found (.refused free empty taken (.inl rfl)))), rfl⟩

section

variable (busy : s.Busy key)
include busy

theorem drainHop_ready (unasked : s.Unasked key) (stop : s.StopDrained key)
    (now : Now) : ∃ t, s.drainHop key now = some t ∧ Does (within key) s t ∧ t.Ready := by
  obtain ⟨t, drained, does, hop, kept⟩ := drainHop_does busy unasked now
  refine ⟨t, drained, does, (does.busy busy).ready hop fun circuit stop₁ found stops => ?_⟩
  obtain ⟨circuit', found', stops'⟩ := kept circuit stop₁ found stops
  exact stop circuit' stop₁ found' stops'

theorem drainHop_freed (free : s.pendingCircuits.get key = none) (now : Now) :
    ∃ t, s.drainHop key now = some t ∧ Does (within key) s t ∧ t.Ready :=
  drainHop_ready busy (fun _ _ _ _ => free)
    (fun _ _ found => by cases free.symm.trans found) now

theorem refuse_ready (hop : s.HopDrained key)
    (free : s.pendingCircuits.get key = none) (peerId : PeerId) (status : Status) (now : Now) :
    ∃ t, (s.denyConnect key peerId status).drainHop key now = some t ∧
      Does (within key) s t ∧ t.Ready := by
  obtain ⟨denied, same⟩ := denyConnect_does hop free peerId status
  obtain ⟨t, drained, does, ready⟩ := drainHop_freed (denied.busy busy) (by rw [same, free]) now
  exact ⟨t, drained, denied.trans does, ready⟩

theorem failPendingConnect_does (hop : s.HopDrained key) (status : Status) :
    ∃ t, s.failPendingConnect key status = some t ∧ Does (within key) s t ∧ t.Ready := by
  unfold failPendingConnect
  cases found : s.pendingCircuits.get key with
  | none =>
    exact ⟨s, rfl, .refl _ s, busy.ready hop fun circuit _ found' => by
      cases found.symm.trans found'⟩
  | some circuit =>
    have aborted := (abortPendingConnect_does s key).within key
    obtain ⟨t, drained, does, ready⟩ := refuse_ready (aborted.busy busy)
      (fun worker found' => hop worker (hopWorkers_abort s key ▸ found'))
      (pendingCircuits_abort s key) circuit.destinationPeerId status (.fromMillis 0)
    exact ⟨t, drained, aborted.trans does, ready⟩

end

/-! ### Draining a STOP machine -/

theorem abortPendingConnectBoth_setPending {circuit : PendingCircuit} (circuit' : PendingCircuit)
    (found : s.pendingCircuits.get key = some circuit)
    (stream : circuit'.stopStream = circuit.stopStream)
    (peer : circuit'.destinationPeerId = circuit.destinationPeerId) :
    (s.setPending key circuit').abortPendingConnectBoth key = s.abortPendingConnectBoth key := by
  have dropped : (s.setPending key circuit').dropPending key circuit' =
      s.dropPending key circuit := by
    simp only [dropPending, setPending, remove_insert, stream]
  have same : (s.setPending key circuit').abortPendingConnect key = s.abortPendingConnect key := by
    rw [abortPendingConnect_eq found, abortPendingConnect_eq
      (s := s.setPending key circuit') (get_insert_self ..), dropped, stream, peer]
  rw [abortPendingConnectBoth, abortPendingConnectBoth, same]

/-- What handling one output of a STOP machine comes to: the drain goes on with less to do,
or the circuit has failed and nothing is left. -/
structure StopDrains (s t : Agent) (key : StreamKey) (more : Bool) : Prop where
  does : Does (within key) s t
  hop : t.HopDrained key
  lighter : more = true → t.stopWeight key < s.stopWeight key
  ready : more = false → t.Ready

theorem stopWeight_le {n : Nat}
    (le : ∀ circuit stop, t.pendingCircuits.get key = some circuit → circuit.stop = some stop →
      stop.outputs.length ≤ n) : t.stopWeight key ≤ n := by
  unfold stopWeight
  split
  · exact Nat.zero_le n
  · rename_i stop stops
    obtain ⟨circuit, found, stops⟩ := Option.bind_eq_some_iff.mp stops
    exact le circuit stop found stops

section Stop

variable {s : Agent} {key : StreamKey} {circuit : PendingCircuit} {stop stop' : StopInitiator}
  {output : StopInitiatorOutput}

theorem stopWeight_popped (found : s.pendingCircuits.get key = some circuit)
    (stops : circuit.stop = some stop) (popped : stop.pollOutput = some (output, stop')) :
    s.stopWeight key = stop'.outputs.length + 1 := by
  have front := congrArg List.length (StopInitiator.pollOutput_eq popped).1
  simpa [stopWeight, found, stops] using front

theorem StopDrains.more (found : s.pendingCircuits.get key = some circuit)
    (stops : circuit.stop = some stop) (popped : stop.pollOutput = some (output, stop'))
    (does : Does (within key) s t) (hop : t.HopDrained key)
    (kept : ∀ circuit' stop₁, t.pendingCircuits.get key = some circuit' →
      circuit'.stop = some stop₁ → stop₁ = stop') : StopDrains s t key true := by
  refine ⟨does, hop, fun _ => ?_, nofun⟩
  rw [stopWeight_popped found stops popped, Nat.lt_succ_iff]
  exact stopWeight_le fun circuit' stop₁ found' stops' => by rw [kept circuit' stop₁ found' stops']

theorem StopDrains.fail (busy : s.Busy key) (does : Does (within key) s t)
    (hop : t.HopDrained key) (status : Status) :
    ∃ u, (t.failPendingConnect key status).map (fun s => (false, s)) = some (false, u) ∧
      StopDrains s u key false := by
  obtain ⟨u, failed, does', ready⟩ := failPendingConnect_does (does.busy busy) hop status
  exact ⟨u, by rw [failed]; rfl, does.trans does', ready.hop key, nofun, fun _ => ready⟩

theorem onStopAccepted_drains {circuit' : PendingCircuit} (busy : s.Busy key)
    (hop : s.HopDrained key) (found : s.pendingCircuits.get key = some circuit)
    (known : circuit.stopStream.isSome) (stops : circuit.stop = some stop)
    (popped : stop.pollOutput = some (.outcome .accepted, stop'))
    (same : circuit' = { circuit with stop := some stop', stopDeadlineMs := none }) (now : Now) :
    ∃ more t, (s.setPending key circuit').onStopAccepted key now = some (more, t) ∧
      StopDrains s t key more := by
  have shifted : Does (within key) s (s.setPending key circuit') := by
    rw [same]
    exact .stir (.shifted found (.popped stops popped (by simp)))
  have workers : (s.setPending key circuit').hopWorkers = s.hopWorkers := rfl
  unfold onStopAccepted
  cases worker : s.hopWorkers.get key with
  | none =>
    simp only [feedHop, workers, worker, Bool.not_false, if_true]
    exact ⟨false, StopDrains.fail busy shifted hop .connectionFailed⟩
  | some worker' =>
    have empty := hop worker' worker
    have limit : (s.setPending key circuit').circuitLimit = s.circuitLimit := rfl
    cases taken : worker'.responder.acceptConnect (some s.circuitLimit) with
    | error e =>
      simp only [feedHop, workers, worker, limit, handleInput, taken, Bool.not_false,
        if_true]
      exact ⟨false, StopDrains.fail busy (shifted.trans (.note rfl rfl)) hop .connectionFailed⟩
    | ok responder =>
      have fed := feedHop_ok (s := s.setPending key circuit') (.acceptConnect (some s.circuitLimit))
        worker taken
      rw [limit, fed]
      simp only [Bool.not_true, Bool.false_eq_true, if_false, get_setWorker]
      rcases acceptConnect_outputs empty taken with alone | ⟨frame, rest, both, only⟩
      · have polled := pollOutput_cons alone
        have misheard := Does.stir (.misheard found stops popped worker empty taken polled)
        rw [← same, ← setWorker_setWorker _ key { worker' with responder }] at misheard
        rw [polled]
        refine ⟨false, StopDrains.fail busy misheard (fun worker'' found'' => ?_) .connectionFailed⟩
        cases (get_setWorker ..).symm.trans found''
        rfl
      · have polled := pollOutput_cons both
        have accepted : Does (within key) s (((s.setPending key circuit').setWorker key
            { worker' with responder := { responder with outputs := rest } }).queueSend
              worker'.peerId key frame (.commitCircuit key)) := by
          rw [same]
          exact .stir (.stopAccepted found stops known popped worker empty taken polled)
        have unasked : (((s.setPending key circuit').setWorker key
            { worker' with responder := { responder with outputs := rest } }).queueSend
              worker'.peerId key frame (.commitCircuit key)).Unasked key := by
          intro worker'' request found'' asked
          cases (get_setWorker ..).symm.trans found''
          obtain ⟨data, wrong⟩ := only _ asked
          cases wrong
        obtain ⟨t, drained, does, quiet, kept⟩ := drainHop_does (accepted.busy busy) unasked now
        rw [polled]
        dsimp only
        rw [setWorker_setWorker, drained]
        refine ⟨true, t, rfl, .more found stops popped (accepted.trans does) quiet ?_⟩
        intro circuit₁ stop₁ found₁ stops₁
        obtain ⟨circuit₀, found₀, stops₀⟩ := kept circuit₁ stop₁ found₁ stops₁
        cases (get_insert_self ..).symm.trans found₀
        rw [same] at stops₀
        exact (Option.some.inj stops₀).symm

theorem onStopOutput_drains (busy : s.Busy key) (hop : s.HopDrained key)
    (found : s.pendingCircuits.get key = some circuit) (stops : circuit.stop = some stop)
    (popped : stop.pollOutput = some (output, stop')) (now : Now) :
    ∃ more t, s.onStopOutput key { circuit with stop := some stop' } now output = some (more, t) ∧
      StopDrains s t key more := by
  have known : circuit.stopStream.isSome := (busy.sane.pending _ _ found).known (by simp [stops])
  obtain ⟨stream, linked⟩ := Option.isSome_iff_exists.mp known
  have acts (act : PeerId → StreamKey → Agent) : onStopStream
      { circuit with stop := some stop' } act =
      some (true, act circuit.destinationPeerId stream) := by
    simp only [onStopStream, linked]
  have shifted (quiet : ∀ data, output ≠ .bridgeData data) :
      Does (within key) s (s.setPending key { circuit with stop := some stop' }) :=
    .stir (.shifted found (.popped stops popped quiet))
  have kept {t : Agent} (unchanged : t.pendingCircuits =
      (s.setPending key { circuit with stop := some stop' }).pendingCircuits) (circuit₁ stop₁)
      (found₁ : t.pendingCircuits.get key = some circuit₁) (stops₁ : circuit₁.stop = some stop₁) :
      stop₁ = stop' := by
    rw [unchanged] at found₁
    cases (get_insert_self ..).symm.trans found₁
    exact (Option.some.inj stops₁).symm
  cases output with
  | outcome outcome =>
    cases outcome with
    | accepted => exact onStopAccepted_drains busy hop found known stops popped rfl now
    | _ =>
      exact ⟨false, StopDrains.fail busy (shifted (by simp)) hop _⟩
  | bridgeData data =>
    refine ⟨true, _, rfl, ?_⟩
    simp only [appendPendingPayload, setPending, get_insert_self]
    split
    · have parked : Does (within key) s _ := .stir (.shifted found (.parked stops popped))
      simp only [setPending, insert_insert] at parked ⊢
      refine .more found stops popped parked hop fun circuit₁ stop₁ found₁ stops₁ => ?_
      cases (get_insert_self ..).symm.trans found₁
      exact (Option.some.inj stops₁).symm
    · obtain ⟨does, idle, gone⟩ := abortPendingConnectBoth_does (Option.isSome_of_eq_some found)
      have same := abortPendingConnectBoth_setPending { circuit with stop := some stop' }
        found rfl rfl
      rw [setPending] at same
      rw [same]
      refine .more found stops popped ((does.within key).trans (.note rfl rfl))
        (fun worker found' => ?_)
        (fun circuit₁ stop₁ found₁ => ?_)
      · cases idle.symm.trans found'
      · cases gone.symm.trans found₁
  | outbound data =>
    simp only [onStopOutput, acts]
    exact ⟨true, _, rfl, .more found stops popped
      ((shifted (by simp)).trans (.post rfl (fun _ => ⟨rfl, trivial⟩))) hop (kept rfl)⟩
  | closeWrite =>
    simp only [onStopOutput, acts]
    exact ⟨true, _, rfl, .more found stops popped
      ((shifted (by simp)).trans (.close ..)) hop (kept rfl)⟩
  | reset =>
    simp only [onStopOutput, acts]
    exact ⟨true, _, rfl, .more found stops popped
      ((shifted (by simp)).trans (.reset ..)) hop (kept rfl)⟩

end Stop

theorem drainStopLoop_does (now : Now) {fuel : Nat} (busy : s.Busy key) (hop : s.HopDrained key)
    (enough : s.stopWeight key < fuel) :
    ∃ t, drainStopLoop key now fuel s = some t ∧ Does (within key) s t ∧ t.Ready := by
  induction fuel generalizing s with
  | zero => exact absurd enough (Nat.not_lt_zero _)
  | succ fuel ih =>
    unfold drainStopLoop
    have finished (empty : s.StopDrained key) : s.pollStop key = none := by
      unfold pollStop
      split
      · rfl
      · rename_i circuit found
        split
        · rfl
        · rename_i stop stops
          simp [StopInitiator.pollOutput, empty circuit stop found stops]
    by_cases empty : s.StopDrained key
    · exact ⟨s, by rw [finished empty], .refl _ s, busy.ready hop empty⟩
    · simp only [StopDrained, not_forall] at empty
      obtain ⟨circuit, stop, found, stops, front⟩ := empty
      obtain ⟨output, outputs, front⟩ := exists_cons_of_ne_nil front
      have popped : stop.pollOutput = some (output, { stop with outputs }) := by
        simp [StopInitiator.pollOutput, front]
      obtain ⟨more, t, handled, drains⟩ := onStopOutput_drains busy hop found stops popped now
      simp only [pollStop, found, stops, popped, handled]
      cases more with
      | false => exact ⟨t, rfl, drains.does, drains.ready rfl⟩
      | true =>
        obtain ⟨u, looped, does, ready⟩ := ih (drains.does.busy busy) drains.hop
          (by have lighter := drains.lighter rfl; omega)
        exact ⟨u, looped, drains.does.trans does, ready⟩

theorem drainStop_does (busy : s.Busy key) (hop : s.HopDrained key) (now : Now) :
    ∃ t, s.drainStop key now = some t ∧ Does (within key) s t ∧ t.Ready :=
  drainStopLoop_does now busy hop (Nat.lt_succ_self _)

end Agent

end RelayServer
