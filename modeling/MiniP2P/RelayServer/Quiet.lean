import MiniP2P.RelayServer.Sane

/-! Between calls every machine has been drained. Inside a call one stream at a time is at
work, and its drain ends with every machine quiet again. -/
namespace RelayServer
open Collections Core Identity Relay BTreeMap Mark

/-- The marks of steps that feed no machine. -/
def Mark.idle : Mark → Prop
  | .rewired | .stirred _ | .stranded _ => False
  | mark => mark.outer = false

def Mark.within (key : StreamKey) : Mark → Prop
  | .stirred key' => key' = key
  | .rewired | .stranded _ => False
  | mark => mark.outer = false

theorem Mark.idle.within {mark : Mark} (idle : mark.idle) (key : StreamKey) : mark.within key := by
  cases mark with
  | rewired | stirred | stranded => exact idle.elim
  | _ => exact idle

variable {s t : Agent} {marks : List Mark} {key key' : StreamKey} {circuit : PendingCircuit}

namespace Agent

/-! ### Drained machines -/

def HopDrained (s : Agent) (key : StreamKey) : Prop :=
  ∀ worker, s.hopWorkers.get key = some worker → worker.responder.outputs = []

def StopDrained (s : Agent) (key : StreamKey) : Prop :=
  ∀ circuit stop, s.pendingCircuits.get key = some circuit → circuit.stop = some stop →
    stop.outputs = []

theorem Step.hopDrained (step : Step s marks t) (drained : s.HopDrained key)
    (calm : .stirred key ∉ marks) : t.HopDrained key := by
  intro worker' found
  -- a worker that has nothing to say is not polled
  have unpolled {worker : HopWorker} {output : HopResponderOutput} {responder : HopResponder}
      (before : s.hopWorkers.get key = some worker)
      (popped : worker.responder.pollOutput = some (output, responder)) : False := by
    simp [HopResponder.pollOutput, drained worker before] at popped
  cases step.career found with
  | kept before => exact drained _ before
  | hired _ stirred | turned _ stirred | accepted _ stirred | heard _ _ stirred =>
    exact absurd stirred calm
  | stranded before _ same | completed before _ _ _ same | committed before _ _ same =>
    have empty := drained _ before
    rwa [same]
  | replied before popped | promised before popped | bridged before popped =>
    exact (unpolled before popped).elim
  | asked before front => exact (unpolled before (HopResponder.pollOutput_cons front)).elim

section

variable (drained : s.StopDrained key)
include drained

theorem StopDrained.same (unchanged : t.pendingCircuits = s.pendingCircuits) :
    t.StopDrained key := by
  intro circuit stop found stops
  rw [unchanged] at found
  exact drained circuit stop found stops

theorem StopDrained.insert (after : t.pendingCircuits = s.pendingCircuits.insert key' circuit)
    (empty : key = key' → ∀ stop, circuit.stop = some stop → stop.outputs = []) :
    t.StopDrained key := by
  intro circuit' stop found stops
  rw [after, get_insert] at found
  split at found
  · rename_i here
    cases found
    exact empty here stop stops
  · exact drained circuit' stop found stops

theorem StopDrained.alter {circuit' : PendingCircuit}
    (before : s.pendingCircuits.get key' = some circuit)
    (after : t.pendingCircuits = s.pendingCircuits.insert key' circuit')
    (kept : circuit'.stop = circuit.stop) : t.StopDrained key :=
  drained.insert after fun here stop stops => drained circuit stop (here ▸ before) (kept ▸ stops)

theorem StopDrained.remove (after : t.pendingCircuits = s.pendingCircuits.remove key') :
    t.StopDrained key := by
  intro circuit stop found stops
  rw [after, get_remove] at found
  split at found
  · cases found
  · exact drained circuit stop found stops

end

theorem Step.stopDrained (step : Step s marks t) (drained : s.StopDrained key)
    (calm : .stirred key ∉ marks) : t.StopDrained key := by
  cases step with
  | replied _ _ reply =>
    cases reply with
    | _ => exact drained.same rfl
  | asked => exact drained.insert rfl (fun _ _ stops => nomatch stops)
  | parked _ _ before | sourceEnded before | destinationEnded before =>
    exact drained.alter before rfl rfl
  | shifted | misheard | stopAccepted =>
    exact drained.insert rfl (fun here => absurd List.mem_cons_self (here ▸ calm))
  | linked _ _ _ empty =>
    exact drained.insert rfl (fun _ stop stops => by cases stops; exact empty)
  | dropped | deserted => exact drained.remove rfl
  | committed now _ before known =>
    exact drained.remove (committed_opens _ now before known).pendingCircuits
  | arrived arrival =>
    cases arrival with
    | pending before => exact drained.alter before rfl rfl
    | stop => exact drained.insert rfl (fun here => absurd (by simp [here]) calm)
    | _ => exact drained.same rfl
  | _ => exact drained.same rfl

/-! ### Work on one stream -/

structure Ready (s : Agent) : Prop where
  sane : s.Sane
  hop : ∀ key, s.HopDrained key
  stop : ∀ key, s.StopDrained key

structure Busy (s : Agent) (key : StreamKey) : Prop where
  sane : s.Sane
  hop : ∀ key', key' ≠ key → s.HopDrained key'
  stop : ∀ key', key' ≠ key → s.StopDrained key'

theorem Ready.busy (ready : s.Ready) (key : StreamKey) : s.Busy key :=
  ⟨ready.sane, fun key' _ => ready.hop key', fun key' _ => ready.stop key'⟩

theorem Busy.ready {s : Agent} {key : StreamKey} (busy : s.Busy key) (hop : s.HopDrained key)
    (stop : s.StopDrained key) : s.Ready := by
  refine ⟨busy.sane, fun key' => ?_, fun key' => ?_⟩
  · by_cases here : key' = key
    · exact here ▸ hop
    · exact busy.hop key' here
  · by_cases here : key' = key
    · exact here ▸ stop
    · exact busy.stop key' here

theorem Busy.step (busy : s.Busy key) (step : Step s marks t)
    (only : ∀ key', .stirred key' ∈ marks → key' = key) : t.Busy key := by
  have calm {key' : StreamKey} (apart : key' ≠ key) : .stirred key' ∉ marks :=
    fun member => apart (only key' member)
  exact ⟨busy.sane.step step, fun key' apart => step.hopDrained (busy.hop key' apart) (calm apart),
    fun key' apart => step.stopDrained (busy.stop key' apart) (calm apart)⟩

/-- The agent gets from one state to another by steps with marks of a kind. -/
def Does (P : Mark → Prop) (s t : Agent) : Prop :=
  ∃ marks, Transition.Trace Step s marks t ∧ ∀ mark ∈ marks, P mark

namespace Does

variable {P Q : Mark → Prop} {key : StreamKey} {s t u : Agent}

theorem refl (P : Mark → Prop) (s : Agent) : Does P s s := ⟨[], .nil s, by simp⟩

theorem trans (first : Does P s t) (second : Does P t u) : Does P s u := by
  obtain ⟨marks, run, only⟩ := first
  obtain ⟨marks', run', only'⟩ := second
  refine ⟨marks ++ marks', run.append run', fun mark member => ?_⟩
  rcases List.mem_append.mp member with member | member
  · exact only mark member
  · exact only' mark member

theorem mono (does : Does P s t) (weaker : ∀ mark, P mark → Q mark) : Does Q s t := by
  obtain ⟨marks, run, only⟩ := does
  exact ⟨marks, run, fun mark member => weaker mark (only mark member)⟩

theorem within (does : Does idle s t) (key : StreamKey) : Does (Mark.within key) s t :=
  does.mono fun _ idle => idle.within key

theorem one {mark : Mark} (step : Step s [mark] t) (only : P mark) : Does P s t :=
  ⟨[mark], .single step, fun other member => by cases List.mem_singleton.mp member; exact only⟩

theorem quiet (step : Step s [] t) : Does P s t := ⟨[], .single step, by simp⟩

theorem stir (step : Step s [.stirred key] t) : Does (Mark.within key) s t := .one step rfl

theorem note {event : RelayServerEvent} (report : event.isReport = true) (only : P (.noted event)) :
    Does P s (s.emit event) := .one (.noted report) only

theorem post {op : PendingOperation} {action : RelayServerToken → RelayServerAction}
    (inert : isInert op = true)
    (suits : ∀ token, (action token).token = token ∧ op.suits (action token)) :
    Does P s (s.enqueue op action) := .quiet (.posted inert suits)

theorem reset (peerId : PeerId) (stream : StreamKey) : Does P s (s.queueReset peerId stream) :=
  .post rfl (fun _ => ⟨rfl, trivial⟩)

theorem close (peerId : PeerId) (stream : StreamKey) : Does P s (s.queueClose peerId stream) :=
  @post P s (.close peerId stream none) (.closeStreamWrite · peerId stream) rfl
    (fun _ => ⟨rfl, rfl⟩)

theorem keeps {I : Agent → Prop} (does : Does P s t) (start : I s)
    (kept : ∀ {s marks t}, I s → Step s marks t → (∀ mark ∈ marks, P mark) → I t) : I t := by
  obtain ⟨marks, run, only⟩ := does
  induction run with
  | nil => exact start
  | cons step _ ih =>
    exact ih (kept start step fun mark member => only mark (List.mem_append_left _ member))
      (fun mark member => only mark (List.mem_append_right _ member))

theorem busy (does : Does (Mark.within key) s t) (busy : s.Busy key) : t.Busy key :=
  does.keeps (I := (Busy · key)) busy fun busy step only =>
    busy.step step fun _ member => only _ member

theorem ready (does : Does idle s t) (ready : s.Ready) : t.Ready := by
  refine does.keeps ready fun {s marks t} ready step only => ?_
  have calm (key : StreamKey) : .stirred key ∉ marks := fun member => only _ member
  exact ⟨ready.sane.step step, fun key => step.hopDrained (ready.hop key) (calm key),
    fun key => step.stopDrained (ready.stop key) (calm key)⟩

end Does

/-! ### Ends -/

theorem closeCircuit_does (s : Agent) (key : StreamKey) (reason : CircuitCloseReason) :
    Does idle s (s.closeCircuit key reason) := by
  cases found : s.circuits.get key with
  | none =>
    rw [closeCircuit, found]
    exact .refl _ s
  | some circuit =>
    have closed : Does idle s (s.dropCircuit key circuit reason) := .one (.closed reason found) rfl
    rw [closeCircuit, found]
    cases resets : resetLegs reason with
    | mk source destination =>
      cases source with
      | false =>
        cases destination with
        | false => exact closed
        | true => exact closed.trans (.reset ..)
      | true =>
        cases destination with
        | false => exact closed.trans (.reset ..)
        | true => exact closed.trans ((Does.reset ..).trans (.reset ..))

theorem hopWorkers_closeCircuit {circuit : Circuit} (found : s.circuits.get key = some circuit)
    (reason : CircuitCloseReason) :
    (s.closeCircuit key reason).hopWorkers = s.hopWorkers.remove key := by
  rw [closeCircuit, found]
  cases reason with
  | streamReset leg | connectionClosed leg =>
    cases leg with
    | source | destination => rfl
  | _ => rfl

theorem pendingCircuits_closeCircuit (s : Agent) (key : StreamKey) (reason : CircuitCloseReason) :
    (s.closeCircuit key reason).pendingCircuits = s.pendingCircuits := by
  cases found : s.circuits.get key with
  | none => rw [closeCircuit, found]
  | some circuit =>
    rw [closeCircuit, found]
    cases reason with
    | streamReset leg | connectionClosed leg =>
      cases leg with
      | source | destination => rfl
    | _ => rfl

theorem abortPendingConnect_eq (found : s.pendingCircuits.get key = some circuit) :
    s.abortPendingConnect key = circuit.stopStream.elim (s.dropPending key circuit)
      ((s.dropPending key circuit).queueReset circuit.destinationPeerId) := by
  rw [abortPendingConnect, found]
  cases known : circuit.stopStream with
  | none => simp only [known, dropPending, Option.elim, cancelPendingControlOps]
  | some stream =>
    simp only [known, dropPending, Option.elim]
    rfl

theorem abortPendingConnect_does (s : Agent) (key : StreamKey) :
    Does idle s (s.abortPendingConnect key) := by
  cases found : s.pendingCircuits.get key with
  | none =>
    rw [abortPendingConnect, found]
    exact .refl _ s
  | some circuit =>
    have dropped : Does idle s (s.dropPending key circuit) := .quiet (.dropped found)
    rw [abortPendingConnect_eq found]
    cases circuit.stopStream with
    | none => exact dropped
    | some stream => exact dropped.trans (.reset ..)

theorem pendingCircuits_abort (s : Agent) (key : StreamKey) :
    (s.abortPendingConnect key).pendingCircuits.get key = none := by
  cases found : s.pendingCircuits.get key with
  | none =>
    rw [abortPendingConnect, found]
    exact found
  | some circuit =>
    rw [abortPendingConnect_eq found]
    cases circuit.stopStream with
    | none | some => exact get_remove_self ..

theorem hopWorkers_abort (s : Agent) (key : StreamKey) :
    (s.abortPendingConnect key).hopWorkers = s.hopWorkers := by
  cases found : s.pendingCircuits.get key with
  | none => rw [abortPendingConnect, found]
  | some circuit =>
    rw [abortPendingConnect_eq found]
    cases circuit.stopStream with
    | none | some => rfl

theorem abandon_does (pending : (s.pendingCircuits.get key).isSome) : Does idle s
      { s.abortPendingConnect key with hopWorkers := s.hopWorkers.remove key } := by
  obtain ⟨circuit, found⟩ := Option.isSome_iff_exists.mp pending
  have deserted : Does idle s
      ({ s with hopWorkers := s.hopWorkers.remove key }.dropPending key circuit) :=
    .quiet (.deserted found)
  rw [abortPendingConnect_eq found]
  cases circuit.stopStream with
  | none => exact deserted
  | some stream => exact deserted.trans (.reset circuit.destinationPeerId stream)

theorem abortPendingConnectBoth_does (pending : (s.pendingCircuits.get key).isSome) :
    Does idle s (s.abortPendingConnectBoth key) ∧
      (s.abortPendingConnectBoth key).hopWorkers.get key = none ∧
      (s.abortPendingConnectBoth key).pendingCircuits.get key = none := by
  have aborted := abortPendingConnect_does s key
  have abandoned := abandon_does pending
  have gone := pendingCircuits_abort s key
  rw [← hopWorkers_abort s key] at abandoned
  unfold abortPendingConnectBoth
  dsimp only
  split
  · rename_i idle
    exact ⟨aborted, idle, gone⟩
  · refine ⟨abandoned.trans (.reset ..), ?_, gone⟩
    simp [queueReset, enqueue]

theorem abortPendingConnect_setWorker (s : Agent) (key : StreamKey) (worker : HopWorker) :
    (s.setWorker key worker).abortPendingConnect key =
      (s.abortPendingConnect key).setWorker key worker := by
  cases pending : s.pendingCircuits.get key with
  | none => simp [abortPendingConnect, setWorker, pending]
  | some circuit =>
    rw [abortPendingConnect_eq pending, abortPendingConnect_eq
      (s := s.setWorker key worker) pending]
    cases circuit.stopStream with
    | none | some => rfl

theorem abortPendingConnectBoth_setWorker {worker : HopWorker} (worker' : HopWorker)
    (found : s.hopWorkers.get key = some worker) (same : worker'.peerId = worker.peerId) :
    (s.setWorker key worker').abortPendingConnectBoth key = s.abortPendingConnectBoth key := by
  have workers := hopWorkers_abort s key
  rw [abortPendingConnectBoth, abortPendingConnectBoth, abortPendingConnect_setWorker]
  simp only [setWorker, get_insert_self, workers, found, remove_insert, same]

theorem closeCircuit_setWorker {circuit : Circuit} (found : s.circuits.get key = some circuit)
    (worker : HopWorker) (reason : CircuitCloseReason) :
    (s.setWorker key worker).closeCircuit key reason = s.closeCircuit key reason := by
  simp only [closeCircuit, setWorker, found, remove_insert]

theorem queueForward_cases (s : Agent) (key : StreamKey) (direction : CircuitDirection)
    (data : List UInt8) :
    ((data = [] ∨ s.circuits.get key = none) ∧ s.queueForward key direction data = s) ∨
      (∃ detail, s.queueForward key direction data =
        (s.closeCircuit key .internalFailure).runtimeError .internalInvariant none detail) ∨
      ∃ circuit, s.circuits.get key = some circuit ∧ circuit.inFlight direction = false ∧
        data ≠ [] ∧ s.queueForward key direction data =
          s.sendForward key circuit direction data := by
  unfold queueForward
  split
  · rename_i empty
    exact .inl ⟨.inl empty, rfl⟩
  · rename_i present
    split
    · rename_i missing
      exact .inl ⟨.inr missing, rfl⟩
    · rename_i circuit found
      split
      · exact .inr (.inl ⟨_, rfl⟩)
      · rename_i idle
        exact .inr (.inr ⟨circuit, found, by simpa using idle, present, rfl⟩)

end Agent

end RelayServer
