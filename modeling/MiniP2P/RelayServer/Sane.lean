import MiniP2P.RelayServer.Workers

/-! The invariant that makes every call return: a STOP machine has its stream, a responder
says nothing before its time, and a circuit that waits for its commit can be committed. -/
namespace RelayServer
open Collections Core Identity Relay BTreeMap StopInitiator

/-- A pending circuit keeps its machine on its stream, and the machine is sound. -/
structure PendingCircuit.Sound (c : PendingCircuit) : Prop where
  known : c.stop.isSome → c.stopStream.isSome
  stop : ∀ stop, c.stop = some stop → stop.Sound

/-- How a pending circuit may change while it stays: its STOP stream is fixed, and a
finished STOP machine stays finished and accepts no more. -/
structure PendingCircuit.Evolves (c c' : PendingCircuit) : Prop where
  stream : c'.stopStream = c.stopStream
  idle : c.stop = none → c'.stop = none
  stop : ∀ stop, c.stop = some stop → ∃ stop', c'.stop = some stop' ∧
    (stop.done = true → stop'.done = true ∧
      (.outcome .accepted ∉ stop.outputs → .outcome .accepted ∉ stop'.outputs))
  peers : c'.sourcePeerId = c.sourcePeerId ∧ c'.destinationPeerId = c.destinationPeerId

theorem PendingCircuit.Evolves.refl (c : PendingCircuit) : c.Evolves c :=
  ⟨rfl, id, fun stop found => ⟨stop, found, fun finished => ⟨finished, id⟩⟩, rfl, rfl⟩

variable {s t : Agent} {key : StreamKey} {circuit : PendingCircuit} {marks : List Mark}

namespace Agent

/-! ### Pending circuits -/

theorem Shift.evolves {c c' : PendingCircuit} (shift : Shift c c')
    (sound : ∀ stop, c.stop = some stop → stop.Sound) :
    c.Evolves c' ∧ ∀ stop, c'.stop = some stop → stop.Sound := by
  cases shift with
  | @signalled stop stop' found signal =>
    have old := sound stop found
    refine ⟨⟨rfl, by simp [found], fun other same => ?_, rfl, rfl⟩, ?_⟩
    · cases found.symm.trans same
      refine ⟨stop', rfl, fun finished => ?_⟩
      rcases signal with rfl | rfl
      · simp [remoteWriteClosed, finishRemoteTerminal, finished]
      · simp only [remoteReset, finishRemoteTerminal, finished, if_true,
          List.mem_filter, true_and]
        exact fun silent member => silent member.1
    · intro other same
      cases same
      rcases signal with rfl | rfl
      · exact old.writeClosed
      · exact old.reset
  | @popped stop stop' output deadline found popped _ | @parked stop stop' data found popped =>
    obtain ⟨kept, same, -, fewer⟩ := (sound stop found).polled popped
    refine ⟨⟨rfl, by simp [found], fun other again => ?_, rfl, rfl⟩, fun other again => ?_⟩
    · cases found.symm.trans again
      exact ⟨stop', rfl, fun finished => ⟨same.trans finished, fun silent member =>
        silent (fewer _ member)⟩⟩
    · cases again
      exact kept

inductive Fate (s t : Agent) (key : StreamKey) (circuit : PendingCircuit) : Prop where
  | evolves {circuit' : PendingCircuit} : t.pendingCircuits.get key = some circuit' →
      circuit.Evolves circuit' → circuit'.Sound → Fate s t key circuit
  | linked {token : RelayServerToken} {peerId : PeerId} {connId : ConnectionId}
      {stream : StreamKey} {stop : StopInitiator} :
      s.pendingOperations.get token = some (.openStop key peerId connId) →
      t.pendingOperations.get token = none →
      circuit.stop = none →
      t.pendingCircuits.get key =
        some { circuit with stopStream := some stream, stop := some stop } →
      stop.Sound → Fate s t key circuit
  | dropped : t.pendingCircuits.get key = none →
      (∀ token op, t.pendingOperations.get token = some op → isControlOp key op = false) →
      Fate s t key circuit
  | committed {token : RelayServerToken} {peerId : PeerId} :
      s.pendingOperations.get token = some (.send peerId (.commitCircuit key)) →
      t.pendingOperations.get token ≠ some (.send peerId (.commitCircuit key)) →
      t.pendingCircuits.get key = none → Fate s t key circuit

section

variable (found : s.pendingCircuits.get key = some circuit)
include found

theorem Fate.same (sound : circuit.Sound)
    (unchanged : t.pendingCircuits = s.pendingCircuits) : Fate s t key circuit :=
  .evolves (by rw [unchanged, found]) (.refl circuit) sound

theorem Fate.changed {key' : StreamKey} {old new : PendingCircuit} (sound : circuit.Sound)
    (before : s.pendingCircuits.get key' = some old)
    (after : t.pendingCircuits = s.pendingCircuits.insert key' new)
    (evolves : old.Sound → old.Evolves new ∧ new.Sound) : Fate s t key circuit := by
  by_cases here : key = key'
  · subst here
    cases before.symm.trans found
    obtain ⟨evolves, kept⟩ := evolves sound
    exact .evolves (by rw [after, get_insert_self]) evolves kept
  · exact .evolves (by rw [after, get_insert, if_neg here, found]) (.refl circuit) sound

theorem Fate.apart {key' : StreamKey} (sound : circuit.Sound) (apart : key ≠ key')
    (after : t.pendingCircuits = s.pendingCircuits.remove key') : Fate s t key circuit :=
  .evolves (by rw [after, get_remove, if_neg apart, found]) (.refl circuit) sound

end

theorem Step.fate (step : Step s marks t) (found : s.pendingCircuits.get key = some circuit)
    (sound : circuit.Sound) : Fate s t key circuit := by
  cases step with
  | replied _ _ reply =>
    cases reply with
    | _ => exact .same found sound rfl
  | asked _ _ _ _ unasked =>
    refine .evolves ?_ (.refl circuit) sound
    have apart : key ≠ _ := fun here => by rw [here, unasked] at found; cases found
    exact (get_insert ..).trans ((if_neg apart).trans found)
  | parked _ _ before | sourceEnded before | destinationEnded before =>
    exact .changed found sound before rfl (fun old => ⟨⟨rfl, id, fun stop same =>
      ⟨stop, same, fun finished => ⟨finished, id⟩⟩, rfl, rfl⟩, old.known, old.stop⟩)
  | shifted before shift =>
    refine .changed found sound before rfl (fun old => ?_)
    obtain ⟨evolves, kept⟩ := shift.evolves old.stop
    refine ⟨evolves, fun present => ?_, kept⟩
    rw [evolves.stream]
    apply old.known
    cases before : PendingCircuit.stop _ with
    | none => rw [evolves.idle before] at present; cases present
    | some stop => rfl
  | misheard before stops popped | stopAccepted before stops _ popped =>
    refine .changed found sound before rfl (fun old => ?_)
    obtain ⟨kept, same, -, fewer⟩ := (old.stop _ stops).polled popped
    refine ⟨⟨rfl, by simp [stops], fun other again => ?_, rfl, rfl⟩,
      fun _ => old.known (by simp [stops]), fun other again => ?_⟩
    · cases stops.symm.trans again
      exact ⟨_, rfl, fun finished => ⟨same.trans finished, fun silent member =>
        silent (fewer _ member)⟩⟩
    · cases again
      exact kept
  | @linked token peerId connId key' stream circuit' stop filed before idle empty _
    unfinished unbridged =>
    by_cases here : key = key'
    · subst here
      cases before.symm.trans found
      exact .linked filed (by simp [takeOperation]) idle (get_insert_self ..)
        ⟨fun _ => ⟨by simp [empty], unbridged⟩, by simp [empty]⟩
    · exact .evolves ((get_insert ..).trans ((if_neg here).trans found)) (.refl circuit)
        sound
  | @dropped key' _ before | @deserted key' _ before =>
    by_cases here : key = key'
    · subst here
      exact .dropped (get_remove_self ..)
        (fun token op filed => (operation_cancelWhere filed).2)
    · exact .apart found sound here rfl
  | @committed token peerId key' stream circuit' now filed before known =>
    have pending := (committed_opens token now before known).pendingCircuits
    by_cases here : key = key'
    · subst here
      refine .committed filed (fun again => ?_) (by simp [pending])
      obtain ⟨deadlineMs, launch⟩ := committed_eq token now before known
      rw [launch] at again
      rcases operation_enqueueAll again with ⟨post, member, same⟩ | old
      · rcases PendingCircuit.mem_posts member with ⟨_, _, _, _, rfl⟩ | ⟨_, _, _, rfl⟩
        · cases same
        · cases same
      · simp [completeHop, takeOperation] at old
    · exact .apart found sound here (by rw [pending])
  | arrived arrival =>
    cases arrival with
    | pending before =>
      exact .changed found sound before rfl (fun old => ⟨⟨rfl, id, fun stop same =>
        ⟨stop, same, fun finished => ⟨finished, id⟩⟩, rfl, rfl⟩, old.known, old.stop⟩)
    | @stop _ _ _ _ _ _ _ before stops =>
      refine .changed found sound before rfl (fun old => ?_)
      refine ⟨⟨rfl, by simp [stops], fun other again => ?_, rfl, rfl⟩,
        fun _ => old.known (by simp [stops]), fun other again => ?_⟩
      · cases stops.symm.trans again
        exact ⟨_, rfl, fun finished => onData_finished finished _⟩
      · cases again
        exact (old.stop _ stops).data _
    | _ => exact .same found sound rfl
  | _ => exact .same found sound rfl

/-! ### The invariant -/

/-- A circuit that waits for its commit can be committed: it has its STOP stream, and the
STOP machine has said all it has to say about acceptance. -/
structure Promised (s : Agent) (key : StreamKey) : Prop where
  intro ::
  circuit : ∃ circuit stop, s.pendingCircuits.get key = some circuit ∧
    circuit.stopStream.isSome ∧ circuit.stop = some stop ∧ stop.done = true ∧
    .outcome .accepted ∉ stop.outputs

structure Sane (s : Agent) : Prop where
  workers : s.Workers
  pending : ∀ key circuit, s.pendingCircuits.get key = some circuit → circuit.Sound
  opening : ∀ token key peerId connId,
    s.pendingOperations.get token = some (.openStop key peerId connId) →
    ∃ circuit, s.pendingCircuits.get key = some circuit ∧ circuit.stop = none
  openedOnce : ∀ token token' key peerId peerId' connId connId',
    s.pendingOperations.get token = some (.openStop key peerId connId) →
    s.pendingOperations.get token' = some (.openStop key peerId' connId') → token = token'
  promised : ∀ token key peerId,
    s.pendingOperations.get token = some (.send peerId (.commitCircuit key)) → s.Promised key
  promisedOnce : ∀ token token' key peerId peerId',
    s.pendingOperations.get token = some (.send peerId (.commitCircuit key)) →
    s.pendingOperations.get token' = some (.send peerId' (.commitCircuit key)) → token = token'

theorem Sane.fresh (workers : s.hopWorkers = .empty) (pending : s.pendingCircuits = .empty)
    (operations : s.pendingOperations = .empty) : s.Sane := by
  refine ⟨fun _ _ found => ?_, fun _ _ found => ?_, fun _ _ _ _ found => ?_,
    fun _ _ _ _ _ _ _ found => ?_, fun _ _ _ found => ?_, fun _ _ _ _ _ found => ?_⟩
  · simp [workers] at found
  · simp [pending] at found
  all_goals simp [operations] at found

/-- A circuit becomes pending only when a worker asks for it. -/
theorem Step.pending (step : Step s marks t) (unasked : s.pendingCircuits.get key = none)
    (found : t.pendingCircuits.get key = some circuit) :
    circuit.stop = none ∧ .stirred key ∉ marks ∧ ∃ worker peerId outputs,
      s.hopWorkers.get key = some worker ∧
        worker.responder.outputs = .request (.connect peerId) :: outputs := by
  have same (unchanged : t.pendingCircuits.get key = s.pendingCircuits.get key) : False := by
    rw [unchanged, unasked] at found
    cases found
  have elsewhere {key' : StreamKey} {old new : PendingCircuit}
      (before : s.pendingCircuits.get key' = some old)
      (after : t.pendingCircuits = s.pendingCircuits.insert key' new) : False := by
    apply same
    rw [after, get_insert, if_neg]
    rintro rfl
    rw [unasked] at before
    cases before
  have removed {key' : StreamKey} (after : t.pendingCircuits = s.pendingCircuits.remove key') :
      False := by
    rw [after, get_remove] at found
    split at found
    · cases found
    · rw [unasked] at found
      cases found
  cases step with
  | replied _ _ reply =>
    cases reply with
    | _ => exact (same rfl).elim
  | asked _ _ hired front =>
    have found := (get_insert ..).symm.trans found
    split at found
    · rename_i here
      cases found
      exact ⟨rfl, by simp, _, _, _, here ▸ hired, front⟩
    · cases unasked.symm.trans found
  | parked _ _ before | shifted before | misheard before | stopAccepted before
  | sourceEnded before | destinationEnded before | linked _ before =>
    exact (elsewhere before rfl).elim
  | dropped | deserted => exact (removed rfl).elim
  | committed now _ before known =>
    exact (removed (committed_opens _ now before known).pendingCircuits).elim
  | arrived arrival =>
    cases arrival with
    | pending before | stop _ _ _ before => exact (elsewhere before rfl).elim
    | _ => exact (same rfl).elim
  | _ => exact (same rfl).elim

theorem Promised.evolves {circuit' : PendingCircuit} (promised : s.Promised key)
    (found : s.pendingCircuits.get key = some circuit)
    (found' : t.pendingCircuits.get key = some circuit') (evolves : circuit.Evolves circuit') :
    t.Promised key := by
  obtain ⟨other, stop, same, known, stops, finished, silent⟩ := promised.circuit
  cases same.symm.trans found
  obtain ⟨stop', stops', later⟩ := evolves.stop stop stops
  exact ⟨circuit', stop', found', by rw [evolves.stream]; exact known, stops', (later finished).1,
    (later finished).2 silent⟩

theorem Sane.step (sane : s.Sane) (step : Step s marks t) : t.Sane := by
  -- an operation the step files under its new token leaves no older one of its kind
  have opening : ∀ token key peerId connId,
      t.pendingOperations.get token = some (.openStop key peerId connId) →
      ∃ circuit, t.pendingCircuits.get key = some circuit ∧ circuit.stop = none := by
    intro token key peerId connId filed
    rcases step.operation filed with old | new
    · obtain ⟨circuit, found, idle⟩ := sane.opening _ _ _ _ old
      cases step.fate found (sane.pending _ _ found) with
      | evolves found' evolves => exact ⟨_, found', evolves.idle idle⟩
      | linked opened gone =>
        cases sane.openedOnce _ _ _ _ _ _ _ opened old
        rw [filed] at gone
        cases gone
      | dropped _ cancelled => exact absurd (cancelled _ _ filed) (by simp [isControlOp])
      | committed committed =>
        obtain ⟨other, stop, same, _, stops, _⟩ := (sane.promised _ _ _ committed).circuit
        cases same.symm.trans found
        rw [idle] at stops
        cases stops
    · cases new with
      | inert inert => cases inert
      | opening _ _ found idle => exact ⟨_, found, idle⟩
  have promised : ∀ token key peerId,
      t.pendingOperations.get token = some (.send peerId (.commitCircuit key)) →
      t.Promised key := by
    intro token key peerId filed
    rcases step.operation filed with old | new
    · have before := sane.promised _ _ _ old
      obtain ⟨circuit, stop, found, _, stops, _⟩ := before.circuit
      cases step.fate found (sane.pending _ _ found) with
      | evolves found' evolves => exact before.evolves found found' evolves
      | linked _ _ idle =>
        rw [idle] at stops
        cases stops
      | dropped _ cancelled => exact absurd (cancelled _ _ filed) (by simp [isControlOp])
      | committed committed gone =>
        cases sane.promisedOnce _ _ _ _ _ committed old
        cases committed.symm.trans old
        exact absurd filed gone
    · cases new with
      | inert inert => cases inert
      | circuit _ found stops known popped found' =>
        obtain ⟨_, same, accepted, _⟩ := ((sane.pending _ _ found).stop _ stops).polled popped
        exact ⟨_, _, found', known, rfl, same.trans (accepted rfl).1, (accepted rfl).2⟩
  refine ⟨step.workers sane.workers, fun key circuit found => ?_, opening, ?_, promised, ?_⟩
  · cases before : s.pendingCircuits.get key with
    | none =>
      have idle := (step.pending before found).1
      exact ⟨by simp [idle], by simp [idle]⟩
    | some old =>
      cases step.fate before (sane.pending _ _ before) with
      | evolves found' _ sound =>
        cases found.symm.trans found'
        exact sound
      | linked _ _ _ found' sound =>
        cases found.symm.trans found'
        exact ⟨fun _ => rfl, fun other same => by cases same; exact sound⟩
      | dropped gone | committed _ _ gone =>
        rw [found] at gone
        cases gone
  · intro token token' key peerId peerId' connId connId' filed filed'
    rcases step.operation filed with old | new
    · rcases step.operation filed' with old' | new'
      · exact sane.openedOnce _ _ _ _ _ _ _ old old'
      · cases new' with
        | inert inert => cases inert
        | opening _ unasked =>
          obtain ⟨_, found, _⟩ := sane.opening _ _ _ _ old
          rw [unasked] at found
          cases found
    · cases new with
      | inert inert => cases inert
      | opening drawn unasked =>
        rcases step.operation filed' with old' | new'
        · obtain ⟨_, found, _⟩ := sane.opening _ _ _ _ old'
          rw [unasked] at found
          cases found
        · cases new' with
          | inert inert => cases inert
          | opening drawn' => rw [drawn, drawn']
  · have spent {key : StreamKey} {circuit : PendingCircuit} {stop stop' : StopInitiator}
        {token : RelayServerToken} {peerId : PeerId}
        (old : s.pendingOperations.get token = some (.send peerId (.commitCircuit key)))
        (found : s.pendingCircuits.get key = some circuit) (stops : circuit.stop = some stop)
        (popped : stop.pollOutput = some (.outcome .accepted, stop')) : False := by
      obtain ⟨other, stop₁, same, _, stops₁, _, silent⟩ := (sane.promised _ _ _ old).circuit
      cases same.symm.trans found
      cases stops₁.symm.trans stops
      apply silent
      rw [(pollOutput_eq popped).1]
      exact List.mem_cons_self
    intro token token' key peerId peerId' filed filed'
    rcases step.operation filed with old | new
    · rcases step.operation filed' with old' | new'
      · exact sane.promisedOnce _ _ _ _ _ old old'
      · cases new' with
        | inert inert => cases inert
        | circuit _ found stops _ popped => exact (spent old found stops popped).elim
    · cases new with
      | inert inert => cases inert
      | circuit drawn found stops _ popped =>
        rcases step.operation filed' with old' | new'
        · exact (spent old' found stops popped).elim
        · cases new' with
          | inert inert => cases inert
          | circuit drawn' => rw [drawn, drawn']

end Agent

end RelayServer
