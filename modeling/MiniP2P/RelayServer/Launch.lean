import MiniP2P.RelayServer.Step

/-! How a committed circuit starts, and where the operations of a step come from. -/
namespace RelayServer
open Collections Core Identity Relay List BTreeMap PendingCircuit

def PendingCircuit.launched (c : PendingCircuit) (key stream : StreamKey)
    (deadlineMs : Option Nat) :
    Circuit where
  sourcePeerId := c.sourcePeerId
  destinationPeerId := c.destinationPeerId
  sourceStream := key
  destinationStream := stream
  deadlineMs
  bytes := {}
  sourceEof := c.sourceEof
  destinationEof := c.destinationEof
  sourceWriteClosed := false
  destinationWriteClosed := false
  sourceToDestinationInFlight := decide (c.sourcePipelined ≠ [])
  destinationToSourceInFlight := decide (c.destinationPipelined ≠ [])

def chunkPost (key : StreamKey) (direction : CircuitDirection) (peerId : PeerId)
    (stream : StreamKey) (data : List UInt8) :
    PendingOperation × (RelayServerToken → RelayServerAction) :=
  (.send peerId (.forward key direction (min data.length u64Max)),
    (.sendStream · peerId stream data))

def closePost (key : StreamKey) (leg : CircuitLeg) (peerId : PeerId) (stream : StreamKey) :
    PendingOperation × (RelayServerToken → RelayServerAction) :=
  (.close peerId stream (some (key, leg)), (.closeStreamWrite · peerId stream))

def PendingCircuit.posts (c : PendingCircuit) (key stream : StreamKey) :
    List (PendingOperation × (RelayServerToken → RelayServerAction)) :=
  (if c.sourcePipelined = [] then []
    else [chunkPost key .sourceToDestination c.destinationPeerId stream c.sourcePipelined]) ++
  ((if c.destinationPipelined = [] then []
    else [chunkPost key .destinationToSource c.sourcePeerId key c.destinationPipelined]) ++
  ((if c.sourceEof then [closePost key .destination c.destinationPeerId stream] else []) ++
  (if c.destinationEof then [closePost key .source c.sourcePeerId key] else [])))

theorem PendingCircuit.mem_posts {c : PendingCircuit} {key stream : StreamKey}
    {post : PendingOperation × (RelayServerToken → RelayServerAction)}
    (member : post ∈ c.posts key stream) :
    (∃ direction peerId stream data, post = chunkPost key direction peerId stream data) ∨
      ∃ leg peerId stream, post = closePost key leg peerId stream := by
  simp only [posts, mem_append] at member
  rcases member with chunk | chunk | close | close
  · split at chunk
    · cases chunk
    · exact .inl ⟨_, _, _, _, mem_singleton.mp chunk⟩
  · split at chunk
    · cases chunk
    · exact .inl ⟨_, _, _, _, mem_singleton.mp chunk⟩
  · split at close
    · exact .inr ⟨_, _, _, mem_singleton.mp close⟩
    · cases close
  · split at close
    · exact .inr ⟨_, _, _, mem_singleton.mp close⟩
    · cases close

variable {s : Agent} {op : PendingOperation} {token : RelayServerToken}

namespace Agent

/-! ### Committing -/

def enqueueAll (s : Agent)
    (posts : List (PendingOperation × (RelayServerToken → RelayServerAction))) : Agent :=
  posts.foldl (fun s post => s.enqueue post.1 post.2) s

def launch (s : Agent) (key stream : StreamKey) (circuit : PendingCircuit)
    (deadlineMs : Option Nat) : Agent :=
  ({ s with
    pendingCircuits := s.pendingCircuits.remove key
    circuits := s.circuits.insert key (circuit.launched key stream deadlineMs)
    events := s.events ++
      [RelayServerEvent.circuitOpened circuit.sourcePeerId circuit.destinationPeerId] }).enqueueAll
    (circuit.posts key stream)

theorem commitCircuit_eq {key stream : StreamKey} {circuit : PendingCircuit} (now : Now)
    (found : s.pendingCircuits.get key = some circuit) (known : circuit.stopStream = some stream) :
    ∃ deadlineMs, s.commitCircuit key now = s.launch key stream circuit deadlineMs := by
  refine ⟨if s.config.maxCircuitDurationSecs ≠ 0 then some (saturatingAdd now.monotonicMs
    (saturatingMul s.config.maxCircuitDurationSecs 1000)) else none, ?_⟩
  obtain ⟨source, destination, connId, stopStream, stop, deadline, sent, received,
      ended, finished⟩ :=
    circuit
  subst known
  unfold commitCircuit
  rw [found]
  by_cases noneSent : sent = [] <;> by_cases noneReceived : received = [] <;> cases ended <;>
    cases finished <;>
    simp [noneSent, noneReceived, queueForward, circuitEof, emit, queueSend, queueCircuitClose,
      queueCloseFor, enqueue, token, finishEofIfDrained, Circuit.inFlight, Circuit.setInFlight,
      Circuit.receiver, Circuit.hasEof, Circuit.setEof, Circuit.drained, CircuitLeg.outward,
      CircuitLeg.opposite, launched, posts, chunkPost, closePost,
      launch, enqueueAll, insert_insert]

theorem committed_eq {key stream : StreamKey} {circuit : PendingCircuit} (token : RelayServerToken)
    (now : Now) (found : s.pendingCircuits.get key = some circuit)
    (known : circuit.stopStream = some stream) :
    ∃ deadlineMs, ((s.takeOperation token).completeHop key).commitCircuit key now =
      ((s.takeOperation token).completeHop key).launch key stream circuit deadlineMs :=
  commitCircuit_eq now found known

theorem enqueueAll_eq (s : Agent)
    (posts : List (PendingOperation × (RelayServerToken → RelayServerAction))) :
    ∃ actions pendingOperations nextToken,
      s.enqueueAll posts = { s with actions, pendingOperations, nextToken } := by
  induction posts generalizing s with
  | nil => exact ⟨_, _, _, rfl⟩
  | cons post posts ih =>
    obtain ⟨_, _, _, rest⟩ := ih (s.enqueue post.1 post.2)
    exact ⟨_, _, _, rest⟩

/-- A committed circuit leaves the pending ones for the open ones. -/
structure Opens (s t : Agent) (key stream : StreamKey) (circuit : PendingCircuit) : Prop where
  config : t.config = s.config
  connections : t.connections = s.connections
  reservations : t.reservations = s.reservations
  hopWorkers : t.hopWorkers = (s.completeHop key).hopWorkers
  pendingCircuits : t.pendingCircuits = s.pendingCircuits.remove key
  circuits : ∃ deadlineMs,
    t.circuits = s.circuits.insert key (circuit.launched key stream deadlineMs)
  events : t.events =
    s.events ++ [.circuitOpened circuit.sourcePeerId circuit.destinationPeerId]

theorem committed_opens {key stream : StreamKey} {circuit : PendingCircuit}
    (token : RelayServerToken) (now : Now) (found : s.pendingCircuits.get key = some circuit)
    (known : circuit.stopStream = some stream) :
    Opens s (((s.takeOperation token).completeHop key).commitCircuit key now) key
      stream circuit := by
  obtain ⟨deadlineMs, launch⟩ := committed_eq token now found known
  rw [launch, Agent.launch]
  generalize circuit.posts key stream = posts
  obtain ⟨_, _, _, queued⟩ := enqueueAll_eq _ posts
  rw [queued]
  exact ⟨rfl, rfl, rfl, rfl, rfl, ⟨deadlineMs, rfl⟩, rfl⟩

/-! ### Operations -/

theorem operation_enqueue {op' : PendingOperation} {action : RelayServerToken → RelayServerAction}
    (found : (s.enqueue op action).pendingOperations.get token = some op') :
    (op' = op ∧ token = s.token.1) ∨ s.pendingOperations.get token = some op' := by
  simp only [enqueue, get_insert] at found
  split at found
  · rename_i same
    exact .inl ⟨(Option.some.inj found).symm, same⟩
  · exact .inr found

theorem operation_enqueueAll
    {posts : List (PendingOperation × (RelayServerToken → RelayServerAction))}
    (found : (s.enqueueAll posts).pendingOperations.get token = some op) :
    (∃ post ∈ posts, op = post.1) ∨ s.pendingOperations.get token = some op := by
  induction posts generalizing s with
  | nil => exact .inr found
  | cons post posts ih =>
    rcases ih found with ⟨later, member, same⟩ | earlier
    · exact .inl ⟨later, mem_cons_of_mem _ member, same⟩
    · rcases operation_enqueue earlier with ⟨same, -⟩ | old
      · exact .inl ⟨post, mem_cons_self, same⟩
      · exact .inr old

theorem get_cancelWhere (s : Agent) (p : PendingOperation → Bool) (token : RelayServerToken) :
    (s.cancelWhere p).pendingOperations.get token =
      (s.pendingOperations.get token).filter (fun op => !p op) := by
  simp only [cancelWhere, cancelOperations, get_retain]
  cases found : s.pendingOperations.get token with
  | none => rfl
  | some op =>
    have listed : token ∈ s.pendingOperations.keysWhere (fun _ op => p op) ↔ p op = true := by
      rw [mem_keysWhere]
      simp [found]
    by_cases cancelled : p op = true
    · simp [Option.filter, listed, cancelled]
    · simp [Option.filter, listed, cancelled]

theorem operation_cancelWhere {p : PendingOperation → Bool}
    (found : (s.cancelWhere p).pendingOperations.get token = some op) :
    s.pendingOperations.get token = some op ∧ p op = false := by
  rw [get_cancelWhere, Option.filter_eq_some_iff] at found
  exact ⟨found.1, by simpa using found.2⟩

theorem operation_take {token' : RelayServerToken}
    (found : (s.takeOperation token).pendingOperations.get token' = some op) :
    s.pendingOperations.get token' = some op := by
  simp only [takeOperation, get_remove] at found
  split at found
  · cases found
  · exact found

theorem operation_made {P : PendingOperation → Prop} {u : Agent} {op' : PendingOperation}
    {action : RelayServerToken → RelayServerAction}
    (found : (u.enqueue op action).pendingOperations.get token = some op')
    (same : u.pendingOperations = s.pendingOperations) (made : token = u.token.1 → P op) :
    s.pendingOperations.get token = some op' ∨ P op' := by
  rcases operation_enqueue found with ⟨rfl, drawn⟩ | old
  · exact .inr (made drawn)
  · exact .inl (same ▸ old)

/-- A step takes a status off a worker and queues it under a new token. -/
structure Announces (s t : Agent) (token : RelayServerToken) (key : StreamKey) : Prop where
  drawn : token = s.token.1
  next : t.nextToken = s.token.2
  worker : ∃ worker data responder, s.hopWorkers.get key = some worker ∧
    worker.responder.pollOutput = some (.outbound data, responder) ∧
    t.hopWorkers.get key = some { worker with responder } ∧
    .sendStream token worker.peerId key data ∈ t.actions
  circuits : t.pendingCircuits = s.pendingCircuits ∧ t.circuits = s.circuits

/-- An operation that a step files, with what it stands for. -/
inductive NewOp (s t : Agent) (token : RelayServerToken) : PendingOperation → Prop where
  | inert {op : PendingOperation} : isInert op = true → NewOp s t token op
  | complete {peerId : PeerId} {key : StreamKey} : Announces s t token key →
      NewOp s t token (.send peerId (.completeHop key))
  | reservation {peerId : PeerId} {pending : PendingReservation} :
      token = s.token.1 → s.pendingForPeer pending.peerId = false →
      pending.connId = pending.stream.connId →
      pending.renewed = s.renews pending.peerId pending.connId →
      Announces s t token pending.stream →
      NewOp s t token (.send peerId (.commitReservation pending))
  | circuit {peerId : PeerId} {key : StreamKey} {circuit : PendingCircuit}
      {stop stop' : StopInitiator} :
      token = s.token.1 → s.pendingCircuits.get key = some circuit → circuit.stop = some stop →
      circuit.stopStream.isSome → stop.pollOutput = some (.outcome .accepted, stop') →
      t.pendingCircuits.get key =
        some { circuit with stop := some stop', stopDeadlineMs := none } →
      (∀ worker, t.hopWorkers.get key = some worker → worker.responder.done = true) →
      NewOp s t token (.send peerId (.commitCircuit key))
  | opening {peerId : PeerId} {key : StreamKey} {connId : ConnectionId}
      {circuit : PendingCircuit} :
      token = s.token.1 → s.pendingCircuits.get key = none →
      t.pendingCircuits.get key = some circuit → circuit.stop = none →
      NewOp s t token (.openStop key peerId connId)
  | forward {peerId : PeerId} {key : StreamKey} {direction : CircuitDirection} {bytes : Nat} :
      t.circuits.containsKey key = true → NewOp s t token
        (.send peerId (.forward key direction bytes))
  | close {peerId : PeerId} {stream key : StreamKey} {leg : CircuitLeg} :
      t.circuits.containsKey key = true → NewOp s t token (.close peerId stream (some (key, leg)))

theorem Step.operation {t : Agent} {marks : List Mark} (step : Step s marks t)
    (found : t.pendingOperations.get token = some op) :
    s.pendingOperations.get token = some op ∨ NewOp s t token op := by
  cases step with
  | reserved | completed | resolved | paid | linked => exact .inl (operation_take found)
  | posted inert => exact operation_made found rfl fun _ => .inert inert
  | dismissed | deserted | dropped | closed => exact .inl (operation_cancelWhere found).1
  | replied before popped reply =>
    cases reply with
    | status data =>
      exact operation_made found rfl fun drawn => .complete ⟨drawn, rfl, ⟨_, _, _, before, popped,
        get_insert_self .., by rw [drawn]; exact mem_append_right _ (mem_singleton_self _)⟩,
        rfl, rfl⟩
    | closeWrite | reset => exact operation_made found rfl fun _ => .inert rfl
  | promised renewed deadlineMs expires before popped free same room =>
    exact operation_made found rfl fun drawn => .reservation drawn free rfl same
      ⟨drawn, rfl, ⟨_, _, _, before, popped, get_insert_self ..,
        by rw [drawn]; exact mem_append_right _ (mem_singleton_self _)⟩, rfl, rfl⟩
  | asked destinationConnId now _ _ unasked =>
    exact operation_made found rfl fun drawn => .opening drawn unasked (get_insert_self ..) rfl
  | bridged =>
    exact operation_made found rfl fun _ =>
      .forward (by simp [sendForward, setCircuit, queueSend, enqueue, containsKey])
  | stopAccepted pending stops known popped _ _ taken polled =>
    refine operation_made found rfl fun drawn =>
      .circuit drawn pending stops known popped (get_insert_self ..) fun worker found' => ?_
    cases (get_insert_self ..).symm.trans found'
    rw [(HopResponder.pollOutput_eq polled).2]
    exact (HopResponder.acceptConnect_done taken).2
  | @committed spent _ _ _ _ now _ pending known =>
    obtain ⟨_, circuits⟩ := (committed_opens spent now pending known).circuits
    obtain ⟨deadlineMs, launch⟩ := committed_eq _ now pending known
    rw [launch] at found
    rcases operation_enqueueAll found with ⟨post, member, rfl⟩ | old
    · refine .inr ?_
      rcases mem_posts member with ⟨_, _, _, _, rfl⟩ | ⟨_, _, _, rfl⟩
      · exact .forward (by simp [circuits, containsKey])
      · exact .close (by simp [circuits, containsKey])
    · exact .inl (operation_take old)
  | eof =>
    exact operation_made found rfl fun _ =>
      .close (by simp [sendEof, setCircuit, queueCircuitClose, queueCloseFor, enqueue, containsKey])
  | arrived arrival =>
    cases arrival with
    | source | destination =>
      exact operation_made found rfl fun _ =>
        .forward (by simp [sendForward, setCircuit, queueSend, enqueue, containsKey])
    | _ => exact .inl found
  | _ => exact .inl found

end Agent

end RelayServer
