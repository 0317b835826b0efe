import MiniP2P.RelayServer.Launch

/-! What a step makes of a HOP worker. -/
namespace RelayServer
open Collections Core Identity Relay BTreeMap

variable {s : Agent} {marks : List Mark} {key : StreamKey}

namespace Agent

inductive Career (s t : Agent) (marks : List Mark) (key : StreamKey) (worker' : HopWorker) :
    Prop where
  | kept : s.hopWorkers.get key = some worker' → Career s t marks key worker'
  | hired : .began key ∈ marks → .stirred key ∈ marks → worker'.responder = .new →
      worker'.deadlineMs.isSome → Career s t marks key worker'
  | turned {worker : HopWorker} : s.hopWorkers.get key = some worker → .stirred key ∈ marks →
      Turn s key worker worker' → t.pendingCircuits = s.pendingCircuits →
      t.circuits = s.circuits → Career s t marks key worker'
  | stranded {worker : HopWorker} : s.hopWorkers.get key = some worker → .stranded key ∈ marks →
      worker' = { worker with deadlineMs := none } → Career s t marks key worker'
  | completed {worker : HopWorker} {token : RelayServerToken} {peerId : PeerId}
      {effect : SendEffect} : s.hopWorkers.get key = some worker →
      s.pendingOperations.get token = some (.send peerId effect) → effect.completes = some key →
      worker.responder.outputs = [] → worker' = { worker with deadlineMs := none } →
      Career s t marks key worker'
  | committed {worker : HopWorker} {token : RelayServerToken} {peerId : PeerId} :
      s.hopWorkers.get key = some worker →
      s.pendingOperations.get token = some (.send peerId (.commitCircuit key)) →
      (t.circuits.get key).isSome → worker' = { worker with deadlineMs := none } →
      Career s t marks key worker'
  | replied {worker : HopWorker} {output : HopResponderOutput} {responder : HopResponder} :
      s.hopWorkers.get key = some worker →
      worker.responder.pollOutput = some (output, responder) →
      Reply (s.setWorker key { worker with responder }) key worker output t →
      worker' = { worker with responder } → Career s t marks key worker'
  | promised {worker : HopWorker} {data : List UInt8} {responder : HopResponder}
      {pending : PendingReservation} : s.hopWorkers.get key = some worker →
      worker.responder.pollOutput = some (.outbound data, responder) → pending.stream = key →
      t = (s.setWorker key { worker with responder }).queueSend worker.peerId key data
        (.commitReservation pending) →
      worker' = { worker with responder } → Career s t marks key worker'
  | bridged {worker : HopWorker} {data : List UInt8} {responder : HopResponder} :
      s.hopWorkers.get key = some worker →
      worker.responder.pollOutput = some (.bridgeData data, responder) →
      worker' = { worker with responder } → Career s t marks key worker'
  | asked {worker : HopWorker} {request : HopRequest} {outputs : List HopResponderOutput} :
      s.hopWorkers.get key = some worker →
      worker.responder.outputs = .request request :: outputs →
      worker' = { worker with
        responder := { worker.responder with outputs }, requestKnown := true } →
      Career s t marks key worker'
  | accepted {worker : HopWorker} {limit : Option Limit} {output : HopResponderOutput}
      {responder responder' : HopResponder} : s.hopWorkers.get key = some worker →
      .stirred key ∈ marks → (s.pendingCircuits.get key).isSome → worker.responder.outputs = [] →
      worker.responder.acceptConnect limit = .ok responder →
      responder.pollOutput = some (output, responder') →
      worker' = { worker with responder := responder' } → Career s t marks key worker'
  | heard {worker : HopWorker} {data : List UInt8} {responder : HopResponder} :
      s.hopWorkers.get key = some worker → .arrived key data ∈ marks → .stirred key ∈ marks →
      s.pendingCircuits.get key = none → worker.responder.onData data = .ok responder →
      worker' = { worker with responder } → t.pendingCircuits = s.pendingCircuits →
      t.circuits = s.circuits → Career s t marks key worker'

namespace Career

variable {s t : Agent} {marks : List Mark} {key key' : StreamKey} {worker worker' : HopWorker}

section

variable (found : t.hopWorkers.get key = some worker')
include found

theorem insert (after : t.hopWorkers = s.hopWorkers.insert key' worker)
    (here : Career s t marks key' worker) : Career s t marks key worker' := by
  rw [after, get_insert] at found
  split at found
  · rename_i same
    cases found
    exact same ▸ here
  · exact .kept found

theorem remove (after : t.hopWorkers = s.hopWorkers.remove key') :
    Career s t marks key worker' := by
  rw [after, get_remove] at found
  split at found
  · cases found
  · exact .kept found

theorem complete (after : t.hopWorkers = (s.completeHop key').hopWorkers)
    (here : ∀ worker, s.hopWorkers.get key' = some worker →
      Career s t marks key' { worker with deadlineMs := none }) : Career s t marks key worker' := by
  cases before : s.hopWorkers.get key' with
  | none =>
    simp only [completeHop, before] at after
    exact .kept (after ▸ found)
  | some worker =>
    simp only [completeHop, before] at after
    exact .insert found after (here worker before)

end

end Career

variable {t : Agent}

theorem Step.career (step : Step s marks t) {worker' : HopWorker}
    (found : t.hopWorkers.get key = some worker') : Career s t marks key worker' := by
  cases step with
  | reserved filed _ silent =>
    exact .complete found rfl fun worker before =>
      .completed before filed rfl (silent worker before) rfl
  | completed filed completes silent =>
    exact .complete found rfl fun worker before =>
      .completed before filed completes (silent worker before) rfl
  | hired fresh timed => exact .insert found rfl (.hired (by simp) (by simp) fresh timed)
  | dismissed | deserted | closed => exact .remove found rfl
  | turned before turn => exact .insert found rfl (.turned before (by simp) turn rfl rfl)
  | stranded before => exact .insert found rfl (.stranded before (by simp) rfl)
  | replied before popped reply =>
    refine .insert found ?_ (.replied before popped reply rfl)
    cases reply with
    | _ => rfl
  | promised _ _ _ before popped =>
    exact .insert found rfl (.promised before popped rfl rfl rfl)
  | parked before popped | bridged before popped =>
    exact .insert found rfl (.bridged before popped rfl)
  | asked _ _ before front => exact .insert found rfl (.asked before front rfl)
  | misheard pending _ _ before empty taken popped
  | stopAccepted pending _ _ _ before empty taken popped =>
    exact .insert found rfl
      (.accepted before (by simp) (Option.isSome_of_eq_some pending) empty taken popped rfl)
  | @committed token _ _ _ _ now filed pending known =>
    have opens := committed_opens token now pending known
    obtain ⟨_, circuits⟩ := opens.circuits
    exact .complete found opens.hopWorkers fun worker before =>
      .committed before filed (by simp [circuits]) rfl
  | arrived arrival =>
    cases arrival with
    | hop free before taken =>
      exact .insert found rfl (.heard before (by simp) (by simp) free taken rfl rfl rfl)
    | _ => exact .kept found
  | _ => exact .kept found

/-- Why the worker of a stream is gone: its stream has ended, or its circuit has. -/
inductive Leaves (s t : Agent) (key : StreamKey) : Prop where
  | dismissed : t.pendingCircuits.get key = none →
      (∀ token op, t.pendingOperations.get token = some op → isHopOp key op = false) →
      Leaves s t key
  | deserted : (s.pendingCircuits.get key).isSome → t.pendingCircuits.get key = none →
      Leaves s t key
  | closed : (s.circuits.get key).isSome → t.pendingCircuits = s.pendingCircuits → Leaves s t key

theorem Step.stays (step : Step s marks t) (found : (s.hopWorkers.get key).isSome) :
    (t.hopWorkers.get key).isSome ∨ Leaves s t key := by
  have insert {key' : StreamKey} {worker : HopWorker}
      (after : t.hopWorkers = s.hopWorkers.insert key' worker) : (t.hopWorkers.get key).isSome := by
    rw [after, get_insert]
    split
    · rfl
    · exact found
  have complete {key' : StreamKey} (after : t.hopWorkers = (s.completeHop key').hopWorkers) :
      (t.hopWorkers.get key).isSome := by
    cases before : s.hopWorkers.get key' with
    | none =>
      simp only [completeHop, before] at after
      rwa [after]
    | some worker =>
      simp only [completeHop, before] at after
      exact insert after
  have remove {key' : StreamKey} (after : t.hopWorkers = s.hopWorkers.remove key')
      (leaves : key = key' → Leaves s t key) : (t.hopWorkers.get key).isSome ∨ Leaves s t key := by
    rw [after, get_remove]
    split
    · rename_i here
      exact .inr (leaves here)
    · exact .inl found
  cases step with
  | reserved | completed => exact .inl (complete rfl)
  | hired | turned | stranded | promised | parked | bridged | asked | misheard | stopAccepted =>
    exact .inl (insert rfl)
  | replied _ _ reply =>
    cases reply with
    | _ => exact .inl (insert rfl)
  | dismissed free =>
    refine remove rfl fun here => ?_
    subst here
    exact .dismissed free fun token op filed => (operation_cancelWhere filed).2
  | deserted before =>
    refine remove rfl fun here => ?_
    subst here
    exact .deserted (Option.isSome_of_eq_some before) (get_remove_self ..)
  | closed _ before =>
    refine remove rfl fun here => ?_
    subst here
    exact .closed (Option.isSome_of_eq_some before) rfl
  | committed now _ pending known =>
    exact .inl (complete (committed_opens _ now pending known).hopWorkers)
  | arrived arrival =>
    cases arrival with
    | hop => exact .inl (insert rfl)
    | _ => exact .inl found
  | _ => exact .inl found

inductive CircuitFate (s t : Agent) (key : StreamKey) : Prop where
  | same : (t.circuits.get key).isSome = (s.circuits.get key).isSome → CircuitFate s t key
  | opened {token : RelayServerToken} {peerId : PeerId} :
      s.pendingOperations.get token = some (.send peerId (.commitCircuit key)) →
      (s.pendingCircuits.get key).isSome → t.pendingCircuits.get key = none → CircuitFate s t key
  | closed : (s.circuits.get key).isSome → t.hopWorkers.get key = none → CircuitFate s t key

theorem Step.circuitFate (step : Step s marks t) (key : StreamKey) : CircuitFate s t key := by
  have alter {key' : StreamKey} {old new : Circuit} (before : s.circuits.get key' = some old)
      (after : t.circuits = s.circuits.insert key' new) : CircuitFate s t key := by
    refine .same ?_
    rw [after, get_insert]
    split
    · rename_i here
      rw [here, before]
      rfl
    · rfl
  cases step with
  | replied _ _ reply =>
    cases reply with
    | _ => exact .same rfl
  | bridged _ _ _ found | eof found | writeClosed _ found => exact alter found rfl
  | @paid token _ key' direction bytes =>
    cases found : s.circuits.get key' with
    | none =>
      refine .same ?_
      rw [credit, show (s.takeOperation token).circuits.get key' = _ from found]
      rfl
    | some circuit =>
      have after : ((s.takeOperation token).credit key' direction bytes).circuits =
          s.circuits.insert key' (circuit.accept bytes direction).2 := by
        simp only [credit, show (s.takeOperation token).circuits.get key' = _ from found]
        rfl
      exact alter found after
  | @closed key' circuit reason found =>
    by_cases here : key = key'
    · subst here
      exact .closed (Option.isSome_of_eq_some found) (get_remove_self ..)
    · refine .same ?_
      rw [show (s.dropCircuit key' circuit reason).circuits = s.circuits.remove key' from rfl,
        get_remove, if_neg here]
  | @committed token _ key' _ _ now filed pending known =>
    have opens := committed_opens token now pending known
    by_cases here : key = key'
    · subst here
      refine .opened filed (Option.isSome_of_eq_some pending) ?_
      rw [opens.pendingCircuits]
      exact get_remove_self ..
    · obtain ⟨deadlineMs, circuits⟩ := opens.circuits
      exact .same (by rw [circuits, get_insert, if_neg here])
  | arrived arrival =>
    cases arrival with
    | source _ _ found | destination _ _ _ _ found => exact alter found rfl
    | _ => exact .same rfl
  | _ => exact .same rfl

theorem Step.vacant (step : Step s marks t) (free : s.circuits.get key = none) :
    t.circuits.get key = none ∨
      (s.pendingCircuits.get key).isSome ∧ t.pendingCircuits.get key = none := by
  cases step.circuitFate key with
  | same same =>
    rw [free] at same
    exact .inl (Option.isNone_iff_eq_none.mp (by simpa using same))
  | opened _ pending gone => exact .inr ⟨pending, gone⟩
  | closed there =>
    rw [free] at there
    cases there

/-! ### Responders -/

def Workers (s : Agent) : Prop :=
  ∀ key worker, s.hopWorkers.get key = some worker → worker.responder.Sound

theorem Decision.sound {m m' : HopResponder} (decision : Decision m m') (sound : m.Sound)
    (silent : ∀ request, .request request ∉ m.outputs) : m'.Sound := by
  cases decision with
  | none => exact sound
  | rejected taken => exact .rejected silent taken
  | reserved taken => exact .reserved silent taken

theorem Turn.sound {worker worker' : HopWorker} (turn : Turn s key worker worker')
    (sound : worker.responder.Sound) : worker'.responder.Sound := by
  cases turn with
  | hungUp => exact sound.writeClosed
  | answered _ front decision =>
    have popped := sound.polled (HopResponder.pollOutput_cons front)
    exact decision.sound popped.1 popped.2
  | refused _ empty taken => exact .rejected (by simp [empty]) taken
  | muted _ front taken popped =>
    have silent := (sound.polled (HopResponder.pollOutput_cons front)).2
    exact ((HopResponder.Sound.reserved silent taken).polled popped).1
  | lost popped => exact (sound.polled popped).1

theorem Step.workers (step : Step s marks t) (workers : s.Workers) : t.Workers := by
  intro key worker' found
  cases step.career found with
  | kept before => exact workers _ _ before
  | hired _ _ fresh => exact fresh ▸ .start
  | turned before _ turn => exact turn.sound (workers _ _ before)
  | stranded before _ same | completed before _ _ _ same | committed before _ _ same =>
    have sound := workers _ _ before
    rwa [same]
  | replied before popped _ same | promised before popped _ _ same | bridged before popped same =>
    rw [same]
    exact ((workers _ _ before).polled popped).1
  | asked before front same =>
    rw [same]
    exact ((workers _ _ before).polled (HopResponder.pollOutput_cons front)).1
  | accepted before _ _ empty taken popped same =>
    rw [same]
    exact ((HopResponder.Sound.connected (by simp [empty]) taken).polled popped).1
  | heard before _ _ _ taken same =>
    rw [same]
    exact (workers _ _ before).data taken

end Agent

end RelayServer
