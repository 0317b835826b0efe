import MiniP2P.RelayServer.Calls

/-! How much the relay takes on. Circuits never exceed their limits. Reservations do when a
renewal is committed after the reservation it renews has ended and its place was taken. -/
namespace RelayServer
open Collections Core Framing Identity Relay BTreeMap Agent PendingCircuit

variable {key : StreamKey} {s t : Agent} {marks : List Mark}

namespace Agent

structure WithinLimits (s : Agent) : Prop where
  reservations : s.reservations.len + s.pendingInitial ≤ s.config.maxReservations
  circuits : s.circuitCount ≤ s.config.maxCircuits
  perPeer : ∀ peerId, s.peerCircuitCount peerId ≤ s.config.maxCircuitsPerPeer

/-! ### Circuits -/

def load (s : Agent) (w : PeerId → PeerId → Nat) : Nat :=
  s.pendingCircuits.sum (fun _ c => w c.sourcePeerId c.destinationPeerId) +
    s.circuits.sum (fun _ c => w c.sourcePeerId c.destinationPeerId)

theorem circuitCount_eq_load (s : Agent) : s.circuitCount = s.load (fun _ _ => 1) := by
  simp only [circuitCount, load, len_eq_sum]

theorem peerCircuitCount_eq_load (s : Agent) (peerId : PeerId) :
    s.peerCircuitCount peerId = s.load (fun a b => (a == peerId || b == peerId).toNat) := by
  simp only [peerCircuitCount, load, count_eq_sum, names, Circuit.names]

section Load

variable {s t : Agent} (w : PeerId → PeerId → Nat)

theorem load_same (pending : t.pendingCircuits = s.pendingCircuits)
    (circuits : t.circuits = s.circuits) : t.load w = s.load w := by
  simp only [load, pending, circuits]

theorem load_alterPending {old new : PendingCircuit} (found : s.pendingCircuits.get key = some old)
    (pending : t.pendingCircuits = s.pendingCircuits.insert key new)
    (circuits : t.circuits = s.circuits)
    (peers : new.sourcePeerId = old.sourcePeerId ∧ new.destinationPeerId = old.destinationPeerId) :
    t.load w = s.load w := by
  have moved := s.pendingCircuits.sum_insert
    (fun _ c => w c.sourcePeerId c.destinationPeerId) key new
  rw [found, Option.elim_some, peers.1, peers.2] at moved
  simp only [load, pending, circuits]
  omega

theorem load_alterCircuit {old new : Circuit} (found : s.circuits.get key = some old)
    (pending : t.pendingCircuits = s.pendingCircuits)
    (circuits : t.circuits = s.circuits.insert key new)
    (peers : new.sourcePeerId = old.sourcePeerId ∧ new.destinationPeerId = old.destinationPeerId) :
    t.load w = s.load w := by
  have moved := s.circuits.sum_insert (fun _ c => w c.sourcePeerId c.destinationPeerId) key new
  rw [found, Option.elim_some, peers.1, peers.2] at moved
  simp only [load, pending, circuits]
  omega

theorem load_dropPending (pending : t.pendingCircuits = s.pendingCircuits.remove key)
    (circuits : t.circuits = s.circuits) : t.load w ≤ s.load w := by
  have fewer := s.pendingCircuits.sum_remove
    (fun _ c => w c.sourcePeerId c.destinationPeerId) key
  simp only [load, pending, circuits]
  omega

theorem load_dropCircuit (pending : t.pendingCircuits = s.pendingCircuits)
    (circuits : t.circuits = s.circuits.remove key) : t.load w ≤ s.load w := by
  have fewer := s.circuits.sum_remove (fun _ c => w c.sourcePeerId c.destinationPeerId) key
  simp only [load, pending, circuits]
  omega

end Load

theorem Circuit.setInFlight_peers (c : Circuit) (flag : Bool) (direction : CircuitDirection) :
    (c.setInFlight flag direction).sourcePeerId = c.sourcePeerId ∧
      (c.setInFlight flag direction).destinationPeerId = c.destinationPeerId := by
  cases direction with
  | sourceToDestination | destinationToSource => exact ⟨rfl, rfl⟩

theorem Step.load (step : Step s marks t) (w : PeerId → PeerId → Nat) :
    t.load w ≤ s.load w ∨ ∃ source destination,
      s.crowded source destination = false ∧ t.load w = s.load w + w source destination := by
  cases step with
  | replied _ _ reply =>
    cases reply with
    | _ => exact .inl (Nat.le_of_eq (load_same w rfl rfl))
  | @paid _ _ key direction bytes =>
    cases found : s.circuits.get key with
    | none =>
      refine .inl (Nat.le_of_eq (load_same w rfl ?_))
      simp [credit, takeOperation, found]
    | some circuit =>
      refine .inl (Nat.le_of_eq (load_alterCircuit w found rfl
        (by simp [credit, takeOperation, found]; rfl) ?_))
      cases direction with
      | sourceToDestination | destinationToSource => exact ⟨rfl, rfl⟩
  | @asked key worker outputs peerId connId now found front unasked roomy =>
    have added := s.pendingCircuits.sum_insert
      (fun _ c => w c.sourcePeerId c.destinationPeerId) key ⟨worker.peerId, peerId,
        connId, none, none, some (saturatingAdd now.monotonicMs s.config.controlStreamTimeoutMs),
        [], [], false, false⟩
    rw [unasked, Option.elim_none] at added
    refine .inr ⟨worker.peerId, peerId, roomy, ?_⟩
    simp only [load, requestCircuit, setWorker, enqueue] at added ⊢
    omega
  | parked _ _ before | misheard before | stopAccepted before | sourceEnded before
  | destinationEnded before | linked _ before =>
    exact .inl (Nat.le_of_eq (load_alterPending w before rfl rfl ⟨rfl, rfl⟩))
  | shifted before shift =>
    refine .inl (Nat.le_of_eq (load_alterPending w before rfl rfl ?_))
    cases shift with
    | _ => exact ⟨rfl, rfl⟩
  | dropped | deserted => exact .inl (load_dropPending w rfl rfl)
  | bridged _ _ _ found =>
    exact .inl (Nat.le_of_eq (load_alterCircuit w found rfl rfl (Circuit.setInFlight_peers ..)))
  | closed => exact .inl (load_dropCircuit w rfl rfl)
  | @eof key _ circuit leg found | @writeClosed key circuit leg found =>
    refine .inl (Nat.le_of_eq (load_alterCircuit w found rfl rfl ?_))
    cases leg with
    | source | destination => exact ⟨rfl, rfl⟩
  | @committed token _ key stream circuit now _ before known =>
    have opens := committed_opens token now before known
    obtain ⟨deadlineMs, circuits⟩ := opens.circuits
    have added := s.circuits.sum_insert (fun _ c => w c.sourcePeerId c.destinationPeerId) key
      (circuit.launched key stream deadlineMs)
    have fewer := s.pendingCircuits.sum_remove
      (fun _ c => w c.sourcePeerId c.destinationPeerId) key
    rw [before, Option.elim_some] at fewer
    simp only [launched] at added
    simp only [load, opens.pendingCircuits, circuits, launched]
    exact .inl (by omega)
  | arrived arrival =>
    cases arrival with
    | pending before | stop _ _ _ before =>
      exact .inl (Nat.le_of_eq (load_alterPending w before rfl rfl ⟨rfl, rfl⟩))
    | source _ _ found | destination _ _ _ _ found =>
      exact .inl (Nat.le_of_eq (load_alterCircuit w found rfl rfl (Circuit.setInFlight_peers ..)))
    | _ => exact .inl (Nat.le_of_eq (load_same w rfl rfl))
  | _ => exact .inl (Nat.le_of_eq (load_same w rfl rfl))

/-! ### Reservations -/

theorem pendingInitial_eq_sum (s : Agent) :
    s.pendingInitial = s.pendingOperations.sum (fun _ op => (isInitialCommit op).toNat) :=
  count_eq_sum ..

theorem pendingInitial_enqueue (s : Agent) (op : PendingOperation)
    (action : RelayServerToken → RelayServerAction) :
    (s.enqueue op action).pendingInitial ≤ s.pendingInitial + (isInitialCommit op).toNat := by
  have added := s.pendingOperations.sum_insert (fun _ op => (isInitialCommit op).toNat) s.token.1 op
  simp only [pendingInitial_eq_sum, enqueue]
  omega

theorem pendingInitial_enqueueAll
    {posts : List (PendingOperation × (RelayServerToken → RelayServerAction))}
    (nothing : ∀ post ∈ posts, isInitialCommit post.1 = false) :
    (s.enqueueAll posts).pendingInitial ≤ s.pendingInitial := by
  induction posts generalizing s with
  | nil => exact Nat.le_refl _
  | cons post posts ih =>
    have first := s.pendingInitial_enqueue post.1 post.2
    rw [nothing post List.mem_cons_self] at first
    exact (ih fun post member => nothing post (List.mem_cons_of_mem _ member)).trans first

theorem pendingInitial_cancel (s : Agent) (p : PendingOperation → Bool) :
    (s.cancelWhere p).pendingInitial ≤ s.pendingInitial := by
  simp only [pendingInitial_eq_sum, cancelWhere, cancelOperations]
  exact sum_retain_le ..

theorem pendingInitial_take {token : RelayServerToken} {op : PendingOperation}
    (filed : s.pendingOperations.get token = some op) :
    (s.takeOperation token).pendingInitial + (isInitialCommit op).toNat = s.pendingInitial := by
  have fewer := s.pendingOperations.sum_remove (fun _ op => (isInitialCommit op).toNat) token
  rw [filed, Option.elim_some] at fewer
  simpa only [pendingInitial_eq_sum, takeOperation] using fewer

theorem pendingInitial_taken (s : Agent) (token : RelayServerToken) :
    (s.takeOperation token).pendingInitial ≤ s.pendingInitial := by
  have fewer := s.pendingOperations.sum_remove (fun _ op => (isInitialCommit op).toNat) token
  simp only [pendingInitial_eq_sum, takeOperation]
  omega

/-- A live renewal is about to be committed whose reservation is gone and whose place is taken. -/
structure Overfills (s : Agent) (pending : PendingReservation) : Prop where
  renewed : pending.renewed = true
  ended : s.reservations.get pending.peerId = none
  full : s.config.maxReservations ≤ s.reservations.len + s.pendingInitial

theorem Step.config (step : Step s marks t) : t.config = s.config := by
  cases step with
  | replied _ _ reply =>
    cases reply with
    | _ => rfl
  | committed now _ before known => exact (committed_opens _ now before known).config
  | arrived arrival =>
    cases arrival with
    | _ => rfl
  | _ => rfl

theorem Step.held (step : Step s marks t)
    (within : s.reservations.len + s.pendingInitial ≤ s.config.maxReservations)
    (fits : ∀ token peerId pending, .echoed token ∈ marks →
      .accepted pending.peerId pending.renewed pending.expiresUnixSecs ∈ marks →
      s.pendingOperations.get token = some (.send peerId (.commitReservation pending)) →
      ¬ s.Overfills pending) :
    t.reservations.len + t.pendingInitial ≤ s.config.maxReservations := by
  have fewer (reservations : t.reservations = s.reservations)
      (pending : t.pendingInitial ≤ s.pendingInitial) :
      t.reservations.len + t.pendingInitial ≤ s.config.maxReservations := by
    rw [reservations]
    omega
  have posted {op : PendingOperation} (reservations : t.reservations = s.reservations)
      (after : t.pendingOperations = s.pendingOperations.insert s.token.1 op)
      (later : isInitialCommit op = false) :
      t.reservations.len + t.pendingInitial ≤ s.config.maxReservations := by
    have added :=
      s.pendingOperations.sum_insert (fun _ op => (isInitialCommit op).toNat) s.token.1 op
    simp only [later, Bool.toNat_false] at added
    refine fewer reservations ?_
    simp only [pendingInitial_eq_sum, after]
    omega
  cases step with
  | @unreserved peerId reason found =>
    have gone := s.reservations.sum_remove (fun _ _ => 1) peerId
    simp only [← len_eq_sum] at gone
    have same : (s.closeReservation peerId reason).pendingInitial = s.pendingInitial := rfl
    have shrunk : (s.closeReservation peerId reason).reservations =
        s.reservations.remove peerId := rfl
    rw [shrunk]
    omega
  | @reserved token peerId pending filed live =>
    have gone := pendingInitial_take filed
    have added := s.reservations.sum_insert (fun _ _ => 1) pending.peerId
      ⟨pending.connId, pending.deadlineMs, pending.expiresUnixSecs⟩
    simp only [← len_eq_sum] at added
    have same : (((s.takeOperation token).grantReservation pending).completeHop
        pending.stream).pendingInitial = (s.takeOperation token).pendingInitial := rfl
    have grown : (((s.takeOperation token).grantReservation pending).completeHop
        pending.stream).reservations = s.reservations.insert pending.peerId
          ⟨pending.connId, pending.deadlineMs, pending.expiresUnixSecs⟩ := rfl
    rw [grown]
    simp only [isInitialCommit] at gone
    cases renewed : pending.renewed with
    | false =>
      rw [renewed] at gone
      simp only [Bool.not_false, Bool.toNat_true] at gone
      omega
    | true =>
      rw [renewed] at gone
      cases found : s.reservations.get pending.peerId with
      | some record =>
        rw [found, Option.elim_some] at added
        omega
      | none =>
        have room := fits token peerId pending (by simp) (by simp) filed
        rw [found] at added
        by_contra exceeded
        exact room ⟨renewed, found, by omega⟩
  | @completed token _ effect stream | @resolved token | @paid token | @linked token =>
    exact fewer rfl (s.pendingInitial_taken token)
  | @posted op action inert =>
    refine posted rfl rfl ?_
    cases op with
    | send _ effect =>
      cases effect with
      | commitReservation => cases inert
      | _ => rfl
    | _ => rfl
  | dismissed | deserted | dropped | closed => exact fewer rfl (pendingInitial_cancel ..)
  | replied _ _ reply =>
    cases reply with
    | status | closeWrite | reset => exact posted rfl rfl rfl
  | @promised key worker data responder renewed deadlineMs expires found popped free same room =>
    have added := (s.setWorker key { worker with responder }).pendingInitial_enqueue
      (.send worker.peerId (.commitReservation
        ⟨key, worker.peerId, key.connId, renewed, deadlineMs, expires⟩))
      (.sendStream · worker.peerId key data)
    have before : (s.setWorker key { worker with responder }).pendingInitial =
        s.pendingInitial := rfl
    rw [before] at added
    simp only [isInitialCommit] at added
    have reservations : ((s.setWorker key { worker with responder }).queueSend
        worker.peerId key data
      (.commitReservation ⟨key, worker.peerId, key.connId, renewed, deadlineMs,
        expires⟩)).reservations = s.reservations := rfl
    rw [reservations, queueSend]
    cases renewed with
    | true =>
      simp only [Bool.not_true, Bool.toNat_false] at added
      omega
    | false =>
      simp only [Bool.not_false, Bool.toNat_true] at added
      simp only [Bool.false_eq_true, false_or] at room
      omega
  | asked | bridged | stopAccepted | eof => exact posted rfl rfl rfl
  | @committed token _ key stream circuit now _ before known =>
    obtain ⟨deadlineMs, launch⟩ := committed_eq token now before known
    refine fewer (committed_opens _ now before known).reservations ?_
    rw [launch]
    refine (pendingInitial_enqueueAll fun post member => ?_).trans (s.pendingInitial_taken token)
    rcases mem_posts member with ⟨_, _, _, _, rfl⟩ | ⟨_, _, _, rfl⟩
    · rfl
    · rfl
  | arrived arrival =>
    cases arrival with
    | source | destination => exact posted rfl rfl rfl
    | _ => exact within
  | _ => exact within

theorem WithinLimits.step (within : s.WithinLimits) (step : Step s marks t)
    (fits : ∀ token peerId pending, .echoed token ∈ marks →
      .accepted pending.peerId pending.renewed pending.expiresUnixSecs ∈ marks →
      s.pendingOperations.get token = some (.send peerId (.commitReservation pending)) →
      ¬ s.Overfills pending) : t.WithinLimits := by
  have room {source destination : PeerId} (roomy : s.crowded source destination = false) :
      s.peerCircuitCount source < s.config.maxCircuitsPerPeer ∧
        (source ≠ destination → s.peerCircuitCount destination < s.config.maxCircuitsPerPeer) ∧
        s.circuitCount < s.config.maxCircuits := by
    simpa [crowded, circuitCount, and_assoc] using roomy
  refine ⟨step.config ▸ step.held within.reservations fits, ?_, fun peerId => ?_⟩
  · have before := within.circuits
    rw [step.config, circuitCount_eq_load]
    rcases step.load (fun _ _ => 1) with fewer | ⟨source, destination, roomy, more⟩
    · rw [circuitCount_eq_load] at before
      exact fewer.trans before
    · have slot := (room roomy).2.2
      rw [circuitCount_eq_load] at slot
      omega
  · have before := within.perPeer peerId
    rw [step.config, peerCircuitCount_eq_load]
    rcases step.load (fun a b => (a == peerId || b == peerId).toNat) with
      fewer | ⟨source, destination, roomy, more⟩
    · rw [peerCircuitCount_eq_load] at before
      exact fewer.trans before
    · obtain ⟨first, second, -⟩ := room roomy
      rw [more, ← peerCircuitCount_eq_load]
      by_cases isSource : source = peerId
      · subst isSource
        simp only [BEq.rfl, Bool.true_or, Bool.toNat_true]
        exact first
      · by_cases isDestination : destination = peerId
        · subst isDestination
          simp only [BEq.rfl, Bool.or_true, Bool.toNat_true]
          exact second isSource
        · rw [beq_false_of_ne isSource, beq_false_of_ne isDestination]
          exact before

/-! ### Runs -/

def lapses (s : Agent) : Call → Bool
  | .sendResult token (.ok ()) _ =>
    match s.pendingOperations.get token with
    | some (.send _ (.commitReservation pending)) =>
      pending.renewed && s.live pending && !s.hasReservation pending.peerId &&
        decide (s.config.maxReservations ≤ s.reservations.len + s.pendingInitial)
    | _ => false
  | _ => false

theorem accepted_outward {call : Call} {peerId : PeerId} {renewed : Bool} {expires : Option Nat}
    (member : .accepted peerId renewed expires ∈ s.outward call) :
    ∃ token now sender pending, call = .sendResult token (.ok ()) now ∧
      s.pendingOperations.get token = some (.send sender (.commitReservation pending)) ∧
      s.live pending = true ∧ pending.peerId = peerId ∧ pending.renewed = renewed := by
  obtain ⟨token, now, sender, effect, rfl, filed, member⟩ := outward_commits member rfl
  cases effect with
  | commitCircuit key =>
    simp only [commits] at member
    split at member <;> simp at member
  | commitReservation pending =>
    simp only [commits] at member
    split at member
    · rename_i live
      cases List.mem_singleton.mp member
      exact ⟨token, now, sender, pending, rfl, filed, live, rfl, rfl⟩
    · cases member
  | _ => simp [commits] at member

theorem seen_outward {call : Call} {mark : Mark} (steady : ∀ mark ∈ marks, mark.steady)
    (outer : mark.outer = true) (member : mark ∈ s.outward call ++ marks) :
    mark ∈ s.outward call := by
  rcases List.mem_append.mp member with member | member
  · exact member
  · cases outer.symm.trans (steady mark member).unseen

theorem WithinLimits.does {P : Mark → Prop} (within : s.WithinLimits) (does : Does P s t)
    (inner : ∀ mark, P mark → mark.outer = false) : t.WithinLimits :=
  does.keeps within fun within step only => within.step step fun token _ _ echoed => by
    cases inner _ (only _ echoed)

theorem WithinLimits.serves {call : Call} (within : s.WithinLimits) (serves : Serves s call t)
    (timely : s.lapses call = false) : t.WithinLimits := by
  cases serves with
  | quiet _ does => exact within.does does fun _ inner => inner.unseen
  | @shows s₁ preceded before ready shows =>
    obtain ⟨rest, s₂, step, steady, after⟩ := shows
    have within₁ := within.does before fun _ inner => inner.unseen
    refine WithinLimits.does (within₁.step step fun token peerId pending echoed accepted filed
      overfills => ?_)
      after fun _ steady => steady.unseen
    obtain ⟨token', now, sender, pending', rfl, filed', live, -⟩ :=
      accepted_outward (seen_outward steady rfl accepted)
    cases preceded
    have same : token = token' := by
      have echoed := seen_outward steady rfl echoed
      simp only [outward, pays, filed', commits, live, if_true, List.mem_cons, Mark.echoed.injEq,
        reduceCtorEq, List.not_mem_nil, or_false] at echoed
      exact echoed
    subst same
    cases filed.symm.trans filed'
    have lapsed : s.lapses (.sendResult token (.ok ()) now) = true := by
      simp [lapses, filed, overfills.renewed, live, hasReservation, BTreeMap.containsKey,
        overfills.ended, overfills.full]
    cases lapsed.symm.trans timely

theorem new_ready {localPeerId : PeerId} {config : RelayServerConfig}
    (created : new localPeerId config = .ok s) : s.Ready ∧ s.WithinLimits := by
  unfold new at created
  generalize config.checked = checked at created
  cases checked with
  | error e => cases created
  | ok valid =>
    cases created
    refine ⟨⟨.fresh rfl rfl rfl, fun _ _ found => ?_, fun _ _ _ found => ?_⟩, ?_, ?_, ?_⟩
    · cases found
    · cases found
    · exact Nat.zero_le _
    · exact Nat.zero_le _
    · exact fun _ => Nat.zero_le _

theorem limits_hold {localPeerId : PeerId} {config : RelayServerConfig} {s₀ : Agent}
    (created : new localPeerId config = .ok s₀) {calls : List Call}
    (timely : Machine.Along call (fun s call => s.lapses call = false) s₀ calls) :
    ∃ log s, Machine.run call s₀ calls = some (log, s) ∧ s.WithinLimits := by
  obtain ⟨log, s, runs, held⟩ := Machine.run_along (I := fun s => s.Ready ∧ s.WithinLimits)
    (fun call held timely => by
      obtain ⟨answer, t, answered, serves, ready⟩ := call_serves held.1 call
      exact ⟨answer, t, answered, ready, held.2.serves serves timely⟩)
    (new_ready created) timely
  exact ⟨log, s, runs, held.2⟩

/-! ### A renewal that comes too late -/

def relayPeer : PeerId := ⟨⟨0, [0], by decide⟩, by decide⟩
def alice : PeerId := ⟨⟨0, [1], by decide⟩, by decide⟩
def bob : PeerId := ⟨⟨0, [2], by decide⟩, by decide⟩

def relayAddr : Multiaddr := ⟨[.ip4 #v[192, 0, 2, 1], .udp 4001, .quicV1]⟩

def reserveFrame : List UInt8 :=
  encodeFrame (HopMessage.encode ⟨.reserve, none, none, none, none⟩)

def asksToReserve (peerId : PeerId) (key : StreamKey) (nowMs : Nat) : List Call :=
  [.event (.streamReady peerId key hopProtocolId false) false (.fromMillis nowMs),
    .event (.streamData peerId key reserveFrame) false (.fromMillis nowMs),
    .pollAction, .pollAction]

def oneReservation : RelayServerConfig := { maxReservations := 1, reservationDurationSecs := 1 }

/-- One peer reserves and asks to renew. Its reservation expires, the place goes to another
peer, and the renewal is sent after that. -/
def lapsedRenewal : List Call :=
  [.setListenerAddrs [relayAddr],
    .event (.connectionEstablished alice 1) false (.fromMillis 0)] ++
  asksToReserve alice ⟨1, 0⟩ 0 ++
  [.sendResult 1 (.ok ()) (.fromMillis 0), .closeResult 2 (.ok ())] ++
  asksToReserve alice ⟨1, 4⟩ 500 ++
  [.tick (.fromMillis 1000), .event (.connectionEstablished bob 2) false (.fromMillis 1000)] ++
  asksToReserve bob ⟨2, 0⟩ 1000 ++
  [.sendResult 3 (.ok ()) (.fromMillis 1000)]

theorem created_of_isSome {result : Except RelayServerConfigError Agent}
    (succeeded : result.toOption.isSome) : result = .ok (result.toOption.get succeeded) := by
  cases result with
  | error e => cases succeeded
  | ok s => rfl

def oneReservationAgent : Agent :=
  (new relayPeer oneReservation).toOption.get (by decide +kernel)

theorem oneReservationAgent_created :
    new relayPeer oneReservation = .ok oneReservationAgent := created_of_isSome _

theorem renewal_overfills : ∃ log s,
    new relayPeer oneReservation = .ok oneReservationAgent ∧
      Machine.run call oneReservationAgent lapsedRenewal = some (log, s) ∧
      ¬ s.WithinLimits := by
  have evaluated : (Machine.run call oneReservationAgent lapsedRenewal).any (fun r =>
      decide (r.2.config.maxReservations < r.2.reservations.len + r.2.pendingInitial)) = true := by
    decide +kernel
  obtain ⟨⟨log, s⟩, runs, exceeded⟩ := (Option.any_eq_true _ _).mp evaluated
  exact ⟨log, s, oneReservationAgent_created, runs, fun within =>
    absurd within.reservations (Nat.not_le.mpr (of_decide_eq_true exceeded))⟩

theorem limits_hold_until_renewal : ∃ log s,
    Machine.run call oneReservationAgent lapsedRenewal.dropLast = some (log, s) ∧
      s.WithinLimits :=
  limits_hold oneReservationAgent_created (by decide +kernel)

end Agent

end RelayServer
