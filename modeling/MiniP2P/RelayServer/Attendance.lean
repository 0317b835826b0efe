import MiniP2P.RelayServer.Tokens
import MiniP2P.RelayServer.Limits

/-! No HOP request is left alone. Its worker is on the clock, is the source of a circuit, or
has had its last word queued, and a pending circuit hangs on a worker that is on the clock. -/
namespace RelayServer
open Collections Core Framing Identity Relay List HopResponder

@[ext]
structure Watch where
  taken : List RelayServerAction := []
  since : StreamKey → Nat := fun _ => 0

namespace Agent

def Call.begins : Call → Option StreamKey
  | .event (.streamReady _ key protocolId initiatedLocally) _ _ =>
    if protocolId = hopProtocolId ∧ initiatedLocally = false then some key else none
  | _ => none

end Agent

namespace Watch

open Agent

def after (w : Watch) (s : Agent) (call : Call) (answer : Answer) : Watch where
  taken := w.taken ++ answer.taken
  since key :=
    if call.begins = some key then (s.preceded call).elim 0 (fun s => s.nextToken)
    else w.since key

def along : Watch → Agent → List Call → Watch
  | w, _, [] => w
  | w, s, call :: calls =>
    match s.call call with
    | none => w
    | some (answer, t) => (w.after s call answer).along t calls

/-- Every action that has been queued and not cancelled. -/
def queued (w : Watch) (s : Agent) : List RelayServerAction := w.taken ++ s.actions

/-- Since the request came in, a reset of its stream has been queued, or a status and then
the end of the stream. -/
inductive Ended (w : Watch) (s : Agent) (key : StreamKey) : Prop where
  | reset {token : RelayServerToken} {peerId : PeerId} :
      w.since key ≤ token → .resetStream token peerId key ∈ w.queued s → Ended w s key
  | closed {token token' : RelayServerToken} {peerId peerId' : PeerId} {data : List UInt8} :
      w.since key ≤ token → .sendStream token peerId key data ∈ w.queued s → token < token' →
      .closeStreamWrite token' peerId' key ∈ w.queued s → Ended w s key

inductive Situated (w : Watch) (s : Agent) (key : StreamKey) (worker : HopWorker) : Prop where
  | timed : worker.deadlineMs.isSome → Situated w s key worker
  | pending {circuit : PendingCircuit} : s.pendingCircuits.get key = some circuit →
      circuit.stopDeadlineMs.isSome ∨ (∃ token op, s.pendingOperations.get token = some op ∧
        isControlOp key op = true) → Situated w s key worker
  | committed : (s.circuits.get key).isSome → Situated w s key worker
  | ended : Ended w s key → Situated w s key worker

end Watch

namespace Agent

/-- Nobody is left alone: every worker has its situation, every pending circuit a worker on
the clock, and a tick leaves no worker whose time is up. -/
structure Attended (w : Watch) (s : Agent) : Prop where
  workers : ∀ key worker, s.hopWorkers.get key = some worker → w.Situated s key worker
  slots : ∀ key, (s.pendingCircuits.get key).isSome → ∃ worker,
    s.hopWorkers.get key = some worker ∧ worker.deadlineMs.isSome
  ticks : ∀ now, ∃ t, s.handleTick now = some t ∧ ∀ key worker,
    t.hopWorkers.get key = some worker → due now worker.deadlineMs = false

end Agent

/-! ### The watch goes on -/

structure Watch.Next (w w' : Watch) (s : Agent) (marks : List Mark) : Prop where
  taken : w'.taken = w.taken ++ marks.filterMap Mark.takes
  since : ∀ key, .began key ∉ marks → w'.since key = w.since key
  began : ∀ key, .began key ∈ marks → w'.since key = s.nextToken

variable {token : RelayServerToken} {peerId : PeerId} {effect : SendEffect}
    {worker worker' : HopWorker}

namespace Agent

variable {w w' : Watch} {s t : Agent} {marks : List Mark} {key : StreamKey}

theorem queued_next (next : w.Next w' s marks) (step : Step s marks t)
    {action : RelayServerAction} (member : action ∈ w.queued s)
    (spared : action ∈ s.actions → ∀ op, s.pendingOperations.get action.token = some op →
      ¬ Cancels t op) : action ∈ w'.queued t := by
  rw [Watch.queued, next.taken, append_assoc, mem_append]
  rcases mem_append.mp member with earlier | here
  · exact .inl earlier
  · refine .inr ?_
    rcases step.leaves here with still | ⟨forward, taken⟩ | ⟨op, filed, cancels⟩
    · exact mem_append_right _ still
    · exact mem_append_left _ (mem_filterMap.mpr ⟨_, taken, rfl⟩)
    · exact absurd cancels (spared here op filed)

variable {op : PendingOperation}

theorem reset_spared (suits : op.suits (.resetStream token peerId key)) : ¬ Cancels t op := by
  cases op with
  | reset =>
    intro cancels
    cases cancels with
    | hop wrong | control wrong | forward wrong => cases wrong
  | _ => exact suits.elim

theorem close_spared (suits : op.suits (.closeStreamWrite token peerId key))
    (there : (t.hopWorkers.get key).isSome) : ¬ Cancels t op := by
  cases op with
  | close sender stream circuit =>
    have same : key = stream := suits
    intro cancels
    cases cancels with
    | @hop key' chosen gone =>
      have here : stream = key' := by simpa [isHopOp] using chosen
      rw [same, here, gone] at there
      cases there
    | control wrong | forward wrong => cases wrong
  | _ => exact suits.elim

theorem completes_spared {sender : PeerId} (completes : effect.completes = some key)
    (there : (t.hopWorkers.get key).isSome) : ¬ Cancels t (.send sender effect) := by
  intro cancels
  cases effect with
  | completeHop | commitReservation =>
    cases completes
    cases cancels with
    | hop chosen gone =>
      simp only [isHopOp, beq_iff_eq] at chosen
      rw [chosen, gone] at there
      cases there
    | control wrong | forward wrong => cases wrong
  | _ => cases completes

/-- A status of the request has been queued, and its operation is still to complete it. -/
structure Replied (w : Watch) (s : Agent) (key : StreamKey) (token : RelayServerToken) : Prop where
  late : w.since key ≤ token
  drawn : token < s.nextToken
  queued : ∃ peerId data, .sendStream token peerId key data ∈ w.queued s
  completes : ∀ op, s.pendingOperations.get token = some op → ∃ sender effect,
    op = .send sender effect ∧ effect.completes = some key

inductive Over (w : Watch) (s : Agent) (key : StreamKey) : Prop where
  | reset {token : RelayServerToken} {peerId : PeerId} :
      w.since key ≤ token → .resetStream token peerId key ∈ w.queued s → Over w s key
  | closed {token token' : RelayServerToken} {peerId : PeerId} : Replied w s key token →
      token < token' → .closeStreamWrite token' peerId key ∈ w.queued s → Over w s key

theorem Over.ended (ceased : Over w s key) : w.Ended s key := by
  cases ceased with
  | reset late queued => exact .reset late queued
  | closed replied later closed =>
    obtain ⟨_, _, queued⟩ := replied.queued
    exact .closed replied.late queued later closed

theorem Replied.step (replied : Replied w s key token) (filed : s.Filed) (step : Step s marks t)
    (room : t.nextToken ≤ maxTokens) (next : w.Next w' s marks) (same : .began key ∉ marks)
    (there : (t.hopWorkers.get key).isSome) : Replied w' t key token := by
  refine ⟨next.since key same ▸ replied.late, Nat.lt_of_lt_of_le replied.drawn step.nextToken_le,
    ?_, fun op found => replied.completes op (step.operation_old filed room replied.drawn found)⟩
  obtain ⟨peerId, data, queued⟩ := replied.queued
  refine ⟨peerId, data, queued_next next step queued fun _ op found => ?_⟩
  obtain ⟨sender, effect, rfl, completes⟩ := replied.completes op found
  exact completes_spared completes there

theorem Over.step (ceased : Over w s key) (filed : s.Filed) (step : Step s marks t)
    (room : t.nextToken ≤ maxTokens) (next : w.Next w' s marks) (same : .began key ∉ marks)
    (there : (t.hopWorkers.get key).isSome) : Over w' t key := by
  cases ceased with
  | reset late queued =>
    exact .reset (next.since key same ▸ late) (queued_next next step queued fun here op found =>
      reset_spared (filed.suits _ here op found))
  | closed replied later closed =>
    exact .closed (replied.step filed step room next same there) later
      (queued_next next step closed fun here op found =>
        close_spared (filed.suits _ here op found) there)

/-! ### The invariant -/

inductive Owing (w : Watch) (s : Agent) (key : StreamKey) (worker : HopWorker) : Prop where
  | status {frame : List UInt8} : .outbound frame ∈ worker.responder.outputs → Owing w s key worker
  | reset : .reset ∈ worker.responder.outputs → Owing w s key worker
  | close {token : RelayServerToken} : Replied w s key token →
      .closeWrite ∈ worker.responder.outputs → Owing w s key worker

/-- A worker whose answer waits for its send: it has decided, carries no circuit, and has
said all but the end of its stream. -/
structure Owed (w : Watch) (s : Agent) (key : StreamKey) (worker : HopWorker) : Prop where
  decided : worker.responder.done = true
  free : s.pendingCircuits.get key = none ∧ s.circuits.get key = none
  rest : Over w s key ∨ ∃ token, Replied w s key token ∧ .closeWrite ∈ worker.responder.outputs

structure Kept (w : Watch) (s : Agent) (key : StreamKey) (worker : HopWorker) : Prop where
  closes : HopResponder.Closes worker.responder.outputs
  talks : ∀ frame, .outbound frame ∈ worker.responder.outputs →
    s.pendingCircuits.get key = none ∧ s.circuits.get key = none
  timed : worker.responder.done = false → worker.deadlineMs.isSome
  decided : (s.circuits.get key).isSome ∨ (∃ token peerId,
    s.pendingOperations.get token = some (.send peerId (.commitCircuit key))) →
    worker.responder.done = true
  situated : worker.deadlineMs.isSome ∨ (s.circuits.get key).isSome ∨ Over w s key ∨
    Owing w s key worker

structure Tended (w : Watch) (s : Agent) : Prop where
  sane : s.Sane
  filed : s.Filed
  since : ∀ key, w.since key ≤ s.nextToken
  workers : ∀ key worker, s.hopWorkers.get key = some worker → Kept w s key worker
  slots : ∀ key, (s.pendingCircuits.get key).isSome → s.circuits.get key = none ∧
    ∃ worker, s.hopWorkers.get key = some worker ∧ worker.deadlineMs.isSome
  owed : ∀ token peerId effect key, s.pendingOperations.get token = some (.send peerId effect) →
    effect.completes = some key → ∃ worker, s.hopWorkers.get key = some worker ∧ Owed w s key worker

/-- Nothing goes on at a stream. -/
def Vacant (s : Agent) (key : StreamKey) : Prop :=
  s.hopWorkers.get key = none ∧ s.pendingCircuits.get key = none ∧ s.circuits.get key = none

/-- A step of a run in which no token comes again, no worker is stranded and no stream that
is in use brings a second request. -/
structure Orderly (s t : Agent) (marks : List Mark) : Prop where
  room : t.nextToken ≤ maxTokens
  unstranded : ∀ key, .stranded key ∉ marks
  fresh : ∀ key, .began key ∈ marks → s.Vacant key

theorem Orderly.known (orderly : Orderly s t marks) (found : s.hopWorkers.get key = some worker) :
    .began key ∉ marks := fun began => by
  cases found.symm.trans (orderly.fresh key began).1

/-! ### What a turn leaves behind -/

/-- A turn of a worker answers a request that was undecided, or leaves what it had to say. -/
inductive TurnFate (s : Agent) (key : StreamKey) (worker worker' : HopWorker) : Prop where
  | calm : worker'.responder.outputs = worker.responder.outputs ∨
      (∃ data, worker.responder.outputs = .bridgeData data :: worker'.responder.outputs) →
      worker'.deadlineMs = worker.deadlineMs →
      (worker.responder.done = true → worker'.responder.done = true) → TurnFate s key worker worker'
  | heard : worker.responder.done = false → worker'.deadlineMs = worker.deadlineMs →
      worker'.responder.outputs = [] → TurnFate s key worker worker'
  | answered : worker.responder.done = false → s.pendingCircuits.get key = none →
      worker'.deadlineMs = worker.deadlineMs ∨ worker'.deadlineMs = none →
      worker'.responder.done = true → HopResponder.Answers worker'.responder.outputs →
      TurnFate s key worker worker'

theorem Turn.fate (turn : Turn s key worker worker') (sound : worker.responder.Sound) :
    TurnFate s key worker worker' := by
  have alone {request : HopRequest} {outputs : List HopResponderOutput}
      (front : worker.responder.outputs = .request request :: outputs) :
      worker.responder.done = false ∧ outputs = [] := by
    obtain ⟨undecided, only, _⟩ := sound.requests (front ▸ mem_cons_self)
    rw [front] at only
    exact ⟨undecided, (List.cons.inj only).2⟩
  cases turn with
  | hungUp =>
    exact .calm (.inl rfl) rfl fun decided => by simp [onRemoteWriteClosed, decided]
  | answered free front decision =>
    obtain ⟨undecided, rfl⟩ := alone front
    cases decision with
    | none => exact .heard undecided rfl rfl
    | rejected taken =>
      obtain ⟨_, decided, answers⟩ := rejected_answers rfl taken
      exact .answered undecided free (.inl rfl) decided answers
    | reserved taken =>
      obtain ⟨decided, answers⟩ := reserved_answers rfl taken
      exact .answered undecided free (.inl rfl) decided answers
  | refused free empty taken deadline =>
    obtain ⟨waits, decided, answers⟩ := rejected_answers empty taken
    obtain ⟨pending, waits⟩ := Option.isSome_iff_exists.mp waits
    exact .answered (sound.waiting pending waits).1 free deadline decided answers
  | muted free front taken popped =>
    obtain ⟨undecided, rfl⟩ := alone front
    refine .heard undecided rfl ?_
    obtain ⟨-, answers⟩ := reserved_answers rfl taken
    have front := (pollOutput_eq popped).1
    rcases answers with reset | ⟨frame, both⟩
    · rw [reset] at front
      exact (List.cons.inj front).2.symm
    · rw [both] at front
      cases front
  | lost popped =>
    have front := pollOutput_eq popped
    refine .calm (.inr ⟨_, front.1⟩) rfl fun decided => ?_
    rw [front.2]
    exact decided

/-! ### One step -/

theorem free_step (sane : s.Sane) (step : Step s marks t)
    (found : s.hopWorkers.get key = some worker) (decided : worker.responder.done = true)
    (free : s.pendingCircuits.get key = none ∧ s.circuits.get key = none) :
    t.pendingCircuits.get key = none ∧ t.circuits.get key = none := by
  constructor
  · cases pending : t.pendingCircuits.get key with
    | none => rfl
    | some circuit =>
      obtain ⟨_, worker', request, found', asked, _⟩ :=
        step.asks sane free.1 (Option.isSome_of_eq_some pending)
      cases found.symm.trans found'
      exact absurd asked ((sane.workers _ _ found).silent decided |>.2.2 request)
  · rcases step.vacant free.2 with vacant | ⟨pending, -⟩
    · exact vacant
    · rw [free.1] at pending
      cases pending

/-- An output of a decided worker waits on, or the step has just taken it off. -/
inductive Passes.Said (s t : Agent) (key : StreamKey) (worker worker' : HopWorker)
    (output : HopResponderOutput) : Prop where
  | waits : output ∈ worker'.responder.outputs → Said s t key worker worker' output
  | replied {responder : HopResponder} :
      worker.responder.outputs = output :: worker'.responder.outputs →
      Reply (s.setWorker key { worker with responder }) key worker output t →
      Said s t key worker worker' output
  | promised {responder : HopResponder} {data : List UInt8} {pending : PendingReservation} :
      output = .outbound data →
      worker.responder.outputs = output :: worker'.responder.outputs → pending.stream = key →
      t = (s.setWorker key { worker with responder }).queueSend worker.peerId key data
        (.commitReservation pending) → Said s t key worker worker' output

/-- What a step makes of the outputs of a worker: it drops some from the front and adds payload at
the end, says the first, or decides. -/
inductive Spoke (s t : Agent) (key : StreamKey) (worker worker' : HopWorker) : Prop where
  | onward {front kept extra : List HopResponderOutput} :
      worker.responder.outputs = front ++ kept → worker'.responder.outputs = kept ++ extra →
      (∀ output ∈ front, (∃ data, output = .bridgeData data) ∨ worker.responder.done = false) →
      (∀ output ∈ extra, ∃ data, output = .bridgeData data) →
      (worker.responder.done = true → worker'.responder.done = true) → Spoke s t key worker worker'
  | told {output : HopResponderOutput} :
      worker.responder.outputs = output :: worker'.responder.outputs →
      worker'.responder.done = worker.responder.done → Passes.Said s t key worker worker' output →
      Spoke s t key worker worker'
  | heard : worker.responder.done = false → worker'.responder.outputs = [] ∨
      (∃ request, worker'.responder.outputs = [.request request]) → Spoke s t key worker worker'
  | answered : worker.responder.done = false → s.pendingCircuits.get key = none →
      t.pendingCircuits = s.pendingCircuits → t.circuits = s.circuits →
      HopResponder.Answers worker'.responder.outputs → Spoke s t key worker worker'

theorem Spoke.dropped {front : List HopResponderOutput}
    (whole : worker.responder.outputs = front ++ worker'.responder.outputs)
    (mere : ∀ output ∈ front, (∃ data, output = .bridgeData data) ∨ worker.responder.done = false)
    (keeps : worker.responder.done = true → worker'.responder.done = true) :
    Spoke s t key worker worker' :=
  .onward whole (append_nil _).symm mere nofun keeps

theorem Career.spoke (career : Career s t marks key worker') (sane : s.Sane) :
    (.began key ∈ marks ∧ worker'.responder = .new) ∨
      ∃ worker, s.hopWorkers.get key = some worker ∧ Spoke s t key worker worker' := by
  cases career with
  | kept before => exact .inr ⟨_, before, .dropped (nil_append _).symm nofun id⟩
  | hired began _ fresh => exact .inl ⟨began, fresh⟩
  | turned before _ turn pending circuits =>
    refine .inr ⟨_, before, ?_⟩
    cases turn.fate (sane.workers _ _ before) with
    | calm outputs _ keeps =>
      rcases outputs with same | ⟨data, front⟩
      · exact .dropped (same.symm.trans (nil_append _).symm) nofun keeps
      · exact .dropped (singleton_append ▸ front) (by simp) keeps
    | heard undecided _ empty => exact .heard undecided (.inl empty)
    | answered undecided free _ _ answers => exact .answered undecided free pending circuits answers
  | stranded before _ eq | completed before _ _ _ eq | committed before _ _ eq =>
    subst eq
    exact .inr ⟨_, before, .dropped (nil_append _).symm nofun id⟩
  | replied before popped reply eq =>
    subst eq
    obtain ⟨front, same⟩ := pollOutput_eq popped
    exact .inr ⟨_, before, .told front (by rw [same]) (.replied front reply)⟩
  | promised before popped stream after eq =>
    subst eq
    obtain ⟨front, same⟩ := pollOutput_eq popped
    exact .inr ⟨_, before, .told front (by rw [same]) (.promised rfl front stream after)⟩
  | bridged before popped eq =>
    subst eq
    obtain ⟨front, same⟩ := pollOutput_eq popped
    exact .inr ⟨_, before, .dropped (singleton_append ▸ front) (by simp) fun decided =>
      same ▸ decided⟩
  | asked before front eq =>
    subst eq
    have undecided := ((sane.workers _ _ before).requests (front ▸ mem_cons_self)).1
    exact .inr ⟨_, before, .dropped (singleton_append ▸ front) (fun _ _ => .inr undecided) id⟩
  | accepted before _ _ empty taken popped eq =>
    subst eq
    obtain ⟨front, same⟩ := pollOutput_eq popped
    refine .inr ⟨_, before, .onward (append_nil _).symm (nil_append _).symm (by simp [empty]) ?_
      fun _ => ?_⟩
    · rcases acceptConnect_outputs empty taken with reset | ⟨frame, rest, both, payload⟩
      · rw [← (List.cons.inj (reset.symm.trans front)).2]
        nofun
      · rw [← (List.cons.inj (both.symm.trans front)).2]
        exact payload
    · rw [same]
      exact (acceptConnect_done taken).2
  | heard before _ _ free taken eq pending circuits =>
    subst eq
    refine .inr ⟨_, before, ?_⟩
    rcases onData_outputs (sane.workers _ _ before) taken with
      ⟨kept, extra, more, payload⟩ | ⟨undecided, empty | alone | answers⟩
    · exact .onward (nil_append _).symm more nofun payload fun decided => kept.trans decided
    · exact .heard undecided (.inl empty)
    · exact .heard undecided (.inr alone)
    · exact .answered undecided free pending circuits answers

theorem Career.decided (career : Career s t marks key worker') (known : .began key ∉ marks)
    (sane : s.Sane) (found : s.hopWorkers.get key = some worker)
    (decided : worker.responder.done = true) : worker'.responder.done = true := by
  obtain ⟨began, _⟩ | ⟨_, before, spoke⟩ := career.spoke sane
  · exact absurd began known
  · cases found.symm.trans before
    cases spoke with
    | onward _ _ _ _ keeps => exact keeps decided
    | told _ same => exact same.trans decided
    | heard undecided | answered undecided => cases decided.symm.trans undecided

theorem Career.closes (career : Career s t marks key worker') (sane : s.Sane)
    (closes : ∀ worker, s.hopWorkers.get key = some worker →
      HopResponder.Closes worker.responder.outputs) :
    HopResponder.Closes worker'.responder.outputs := by
  obtain ⟨_, fresh⟩ | ⟨worker, before, spoke⟩ := career.spoke sane
  · rw [fresh]
    exact .nil
  · have closes := closes worker before
    cases spoke with
    | onward whole rest _ payload =>
      rw [whole] at closes
      rw [rest]
      exact closes.drop.append payload
    | told whole =>
      rw [whole, ← singleton_append] at closes
      exact closes.drop
    | heard _ outputs =>
      rcases outputs with empty | ⟨request, alone⟩
      · rw [empty]
        exact .nil
      · rw [alone]
        exact .request request
    | answered _ _ _ _ answers => exact answers.closes

theorem Career.talks (career : Career s t marks key worker') (sane : s.Sane) {frame : List UInt8}
    (talks : .outbound frame ∈ worker'.responder.outputs) :
    ∃ worker, s.hopWorkers.get key = some worker ∧
      (.outbound frame ∈ worker.responder.outputs ∨ (worker.responder.done = false ∧
        s.pendingCircuits.get key = none ∧ t.pendingCircuits = s.pendingCircuits ∧
        t.circuits = s.circuits)) := by
  obtain ⟨_, fresh⟩ | ⟨worker, before, spoke⟩ := career.spoke sane
  · rw [fresh] at talks
    cases talks
  · refine ⟨worker, before, ?_⟩
    cases spoke with
    | onward whole rest _ payload =>
      rw [rest] at talks
      rcases mem_append.mp talks with old | new
      · exact .inl (whole ▸ mem_append_right _ old)
      · obtain ⟨data, wrong⟩ := payload _ new
        cases wrong
    | told whole => exact .inl (whole ▸ mem_cons_of_mem _ talks)
    | heard _ outputs =>
      rcases outputs with only | ⟨request, only⟩
      all_goals
        rw [only] at talks
        simp at talks
    | answered undecided free pending circuits => exact .inr ⟨undecided, free, pending, circuits⟩

inductive OffClock (w : Watch) (s t : Agent) (key : StreamKey) (worker worker' : HopWorker) :
    Prop where
  | answered : worker.responder.done = false → s.pendingCircuits.get key = none →
      t.pendingCircuits = s.pendingCircuits → worker'.responder.done = true →
      HopResponder.Answers worker'.responder.outputs → OffClock w s t key worker worker'
  | completed : Owed w s key worker → worker.responder.outputs = [] →
      worker' = { worker with deadlineMs := none } → OffClock w s t key worker worker'
  | committed : worker.responder.done = true → (t.circuits.get key).isSome →
      worker' = { worker with deadlineMs := none } → OffClock w s t key worker worker'

theorem Tended.clock (tended : Tended w s) (career : Career s t marks key worker')
    (orderly : Orderly s t marks) :
    (worker'.responder = .new ∧ worker'.deadlineMs.isSome ∧ .began key ∈ marks) ∨
      ∃ worker, s.hopWorkers.get key = some worker ∧
        (worker'.deadlineMs = worker.deadlineMs ∨ OffClock w s t key worker worker') := by
  cases career with
  | kept before => exact .inr ⟨_, before, .inl rfl⟩
  | hired began _ fresh timed => exact .inl ⟨fresh, timed, began⟩
  | turned before _ turn pending =>
    refine .inr ⟨_, before, ?_⟩
    cases turn.fate (tended.sane.workers _ _ before) with
    | calm _ deadline | heard _ deadline => exact .inl deadline
    | answered undecided free deadline decided answers =>
      exact .inr (.answered undecided free pending decided answers)
  | stranded _ marked => exact absurd marked (orderly.unstranded key)
  | completed before filed completes empty eq =>
    obtain ⟨worker, found, owed⟩ := tended.owed _ _ _ _ filed completes
    cases before.symm.trans found
    exact .inr ⟨_, before, .inr (.completed owed empty eq)⟩
  | committed before filed circuit eq =>
    have decided := (tended.workers _ _ before).decided (.inr ⟨_, _, filed⟩)
    exact .inr ⟨_, before, .inr (.committed decided circuit eq)⟩
  | replied before _ _ eq | promised before _ _ _ eq | bridged before _ eq | asked before _ eq
  | accepted before _ _ _ _ _ eq | heard before _ _ _ _ eq =>
    exact .inr ⟨_, before, .inl (by rw [eq])⟩

/-! ### The last word -/

/-- What a step takes with it: the files are in order and the watch goes on. -/
structure Passes (w w' : Watch) (s t : Agent) (marks : List Mark) : Prop where
  tended : Tended w s
  step : Step s marks t
  orderly : Orderly s t marks
  next : w.Next w' s marks

namespace Passes

section

variable (passes : Passes w w' s t marks)
include passes

theorem drawn (next : t.nextToken = s.token.2) : s.token = (s.nextToken, s.nextToken + 1) :=
  token_eq passes.tended.filed.positive
    (Nat.lt_of_lt_of_le s.nextToken_lt_token (next ▸ passes.orderly.room))

theorem since (known : .began key ∉ marks)
    (next : t.nextToken = s.token.2) : w'.since key ≤ s.token.1 := by
  rw [passes.next.since key known, passes.drawn next]
  exact passes.tended.since key

theorem replied (known : .began key ∉ marks)
    (there : (t.hopWorkers.get key).isSome) {token : RelayServerToken}
    (replied : Replied w s key token) : Replied w' t key token :=
  replied.step passes.tended.filed passes.step passes.orderly.room passes.next known there

theorem stays_over (known : .began key ∉ marks)
    (there : (t.hopWorkers.get key).isSome) (ceased : Over w s key) : Over w' t key :=
  ceased.step passes.tended.filed passes.step passes.orderly.room passes.next known there

theorem announces (known : .began key ∉ marks)
    (next : t.nextToken = s.token.2) {sender : PeerId} {data : List UInt8}
    (queued : .sendStream s.token.1 peerId key data ∈ t.actions)
    (filed : t.pendingOperations.get s.token.1 = some (.send sender effect))
    (completes : effect.completes = some key) : Replied w' t key s.token.1 := by
  refine ⟨passes.since known next, ?_, ⟨peerId, data, mem_append_right _ queued⟩,
    fun op found => ?_⟩
  · rw [next, passes.drawn next]
    exact Nat.lt_succ_self _
  · cases filed.symm.trans found
    exact ⟨sender, effect, rfl, completes⟩

end

variable {worker worker' : HopWorker}

section

variable (passes : Passes w w' s t marks)
include passes

theorem said (before : s.hopWorkers.get key = some worker)
    (found : t.hopWorkers.get key = some worker') (decided : worker.responder.done = true)
    {output : HopResponderOutput} (member : output ∈ worker.responder.outputs)
    (plain : ∀ data, output ≠ .bridgeData data) : Said s t key worker worker' output := by
  obtain ⟨began, _⟩ | ⟨_, before', spoke⟩ := (passes.step.career found).spoke passes.tended.sane
  · exact absurd began (passes.orderly.known before)
  · cases before.symm.trans before'
    cases spoke with
    | onward whole rest mere =>
      rw [whole] at member
      rcases mem_append.mp member with dropped | kept
      · obtain ⟨data, same⟩ | undecided := mere _ dropped
        · exact absurd same (plain data)
        · cases decided.symm.trans undecided
      · exact .waits (rest ▸ mem_append_left _ kept)
    | told whole _ said =>
      rw [whole] at member
      obtain rfl | kept := mem_cons.mp member
      · exact said
      · exact .waits kept
    | heard undecided | answered undecided => cases decided.symm.trans undecided

theorem closing (before : s.hopWorkers.get key = some worker)
    (found : t.hopWorkers.get key = some worker') (decided : worker.responder.done = true)
    (replied : Replied w s key token) (closing : .closeWrite ∈ worker.responder.outputs) :
    Over w' t key ∨ ∃ token, Replied w' t key token ∧ .closeWrite ∈ worker'.responder.outputs := by
  have replied' :=
    passes.replied (passes.orderly.known before) (Option.isSome_of_eq_some found) replied
  cases passes.said before found decided closing (by simp) with
  | waits waits => exact .inr ⟨_, replied', waits⟩
  | promised wrong => cases wrong
  | replied _ reply =>
    cases reply with
    | closeWrite =>
      have later : token < s.token.1 := by
        rw [passes.drawn rfl]
        exact replied.drawn
      exact .inl (.closed replied' later
        (mem_append_right _ (mem_append_right _ (mem_singleton_self _))))

theorem owing (before : s.hopWorkers.get key = some worker)
    (found : t.hopWorkers.get key = some worker') (decided : worker.responder.done = true)
    (owing : Owing w s key worker) : Over w' t key ∨ Owing w' t key worker' := by
  have known := passes.orderly.known before
  cases owing with
  | @status frame talks =>
    have closes := (passes.tended.workers _ _ before).closes
    cases passes.said before found decided talks (by simp) with
    | waits waits => exact .inr (.status waits)
    | replied front reply =>
      have last := closes [] _ _ front
      cases reply with
      | status =>
        exact .inr (.close (passes.announces known rfl
          (mem_append_right _ (mem_singleton_self _)) (BTreeMap.get_insert_self ..) rfl)
          last)
    | promised same front stream after =>
      have last := closes [] _ _ front
      subst after
      refine .inr (.close (passes.announces known rfl
        (mem_append_right _ (mem_singleton_self _)) (BTreeMap.get_insert_self ..) ?_) last)
      rw [← stream]
      rfl
  | reset waiting =>
    cases passes.said before found decided waiting (by simp) with
    | waits waits => exact .inr (.reset waits)
    | promised wrong => cases wrong
    | replied _ reply =>
      cases reply with
      | reset =>
        exact .inl (.reset (passes.since known rfl)
          (mem_append_right _ (mem_append_right _ (mem_singleton_self _))))
  | close replied waiting =>
    rcases passes.closing before found decided replied waiting with ceased | ⟨_, replied, waits⟩
    · exact .inl ceased
    · exact .inr (.close replied waits)

/-! ### Workers -/

theorem circuit (there : (s.circuits.get key).isSome)
    (found : (t.hopWorkers.get key).isSome) : (t.circuits.get key).isSome := by
  cases passes.step.circuitFate key with
  | same same => rwa [same]
  | opened _ pending =>
    rw [(passes.tended.slots key pending).1] at there
    cases there
  | closed _ gone =>
    rw [gone] at found
    cases found

theorem kept (found : t.hopWorkers.get key = some worker') : Kept w' t key worker' := by
  obtain ⟨tended, step, orderly, next⟩ := passes
  have passes : Passes w w' s t marks := ⟨tended, step, orderly, next⟩
  have sane := tended.sane
  have career := step.career found
  have there := Option.isSome_of_eq_some found
  have undecided {worker : HopWorker} (before : s.hopWorkers.get key = some worker)
      (same : worker'.responder.done = false) : worker.responder.done = false := by
    cases decided : worker.responder.done with
    | false => rfl
    | true =>
      cases (career.decided (orderly.known before) sane before decided).symm.trans same
  refine ⟨career.closes sane fun worker before => (tended.workers _ _ before).closes,
    ?_, ?_, ?_, ?_⟩
  · intro frame talks
    obtain ⟨worker, before, old | ⟨fresh, free, pending, circuits⟩⟩ := career.talks sane talks
    · exact free_step sane step before ((sane.workers _ _ before).finished_of_outbound old)
        ((tended.workers _ _ before).talks frame old)
    · refine ⟨pending ▸ free, ?_⟩
      rw [circuits]
      cases circuit : s.circuits.get key with
      | none => rfl
      | some _ =>
        have decided := (tended.workers _ _ before).decided (.inl (by simp [circuit]))
        cases decided.symm.trans fresh
  · intro same
    rcases tended.clock career orderly with ⟨_, timed, _⟩ | ⟨worker, before, kept | off⟩
    · exact timed
    · rw [kept]
      exact (tended.workers _ _ before).timed (undecided before same)
    · cases off with
      | answered _ _ _ decided => cases decided.symm.trans same
      | completed owed => cases owed.decided.symm.trans (undecided before same)
      | committed decided => cases decided.symm.trans (undecided before same)
  · intro busy
    by_cases began : .began key ∈ marks
    · -- a stream that is in use brings no request
      obtain ⟨-, noPending, noCircuit⟩ := orderly.fresh key began
      rcases busy with circuit | ⟨token, peerId, filed⟩
      · rcases step.vacant noCircuit with vacant | ⟨pending, -⟩
        · rw [vacant] at circuit
          cases circuit
        · rw [noPending] at pending
          cases pending
      · rcases step.operation filed with old | new
        · obtain ⟨_, _, pending, _⟩ := (sane.promised _ _ _ old).circuit
          cases noPending.symm.trans pending
        · cases new with
          | inert inert => cases inert
          | circuit _ pending => cases noPending.symm.trans pending
    · have before : ∃ worker, s.hopWorkers.get key = some worker := by
        rcases tended.clock career orderly with ⟨_, _, wrong⟩ | ⟨worker, before, _⟩
        · exact absurd wrong began
        · exact ⟨worker, before⟩
      obtain ⟨worker, before⟩ := before
      have decided := (tended.workers _ _ before).decided
      rcases busy with circuit | ⟨token, peerId, filed⟩
      · cases step.circuitFate key with
        | same same =>
          exact career.decided began sane before (decided (.inl (same ▸ circuit)))
        | opened filed => exact career.decided began sane before (decided (.inr ⟨_, _, filed⟩))
        | closed _ gone => cases gone.symm.trans found
      · rcases step.operation filed with old | new
        · exact career.decided began sane before (decided (.inr ⟨_, _, old⟩))
        · cases new with
          | inert inert => cases inert
          | circuit _ _ _ _ _ _ done => exact done worker' found
  · rcases tended.clock career orderly with ⟨_, timed, _⟩ | ⟨worker, before, kept | off⟩
    · exact .inl timed
    · have known := orderly.known before
      rcases (tended.workers _ _ before).situated with timed | circuit | ceased | owing
      · exact .inl (kept ▸ timed)
      · exact .inr (.inl (passes.circuit circuit there))
      · exact .inr (.inr (.inl (passes.stays_over known there ceased)))
      · cases decided : worker.responder.done with
        | false => exact .inl (kept ▸ (tended.workers _ _ before).timed decided)
        | true => exact .inr (.inr (passes.owing before found decided owing))
    · cases off with
      | answered _ _ _ _ answers =>
        rcases answers with reset | ⟨frame, both⟩
        · exact .inr (.inr (.inr (.reset (by simp [reset]))))
        · exact .inr (.inr (.inr (@Owing.status _ _ _ _ frame (by simp [both]))))
      | completed owed empty =>
        rcases owed.rest with ceased | ⟨_, _, waits⟩
        · exact .inr (.inr (.inl (passes.stays_over (orderly.known before) there ceased)))
        · rw [empty] at waits
          cases waits
      | committed _ circuit => exact .inr (.inl circuit)

/-! ### Slots and sends -/

theorem slot (pending : (t.pendingCircuits.get key).isSome) : t.circuits.get key = none ∧
      ∃ worker, t.hopWorkers.get key = some worker ∧ worker.deadlineMs.isSome := by
  obtain ⟨tended, step, orderly, next⟩ := passes
  have sane := tended.sane
  -- before the step the stream has a worker on the clock and no circuit
  have before : s.circuits.get key = none ∧ ∃ worker, s.hopWorkers.get key = some worker ∧
      worker.deadlineMs.isSome ∧
      (s.pendingCircuits.get key = none → worker.responder.done = false) := by
    cases asked : s.pendingCircuits.get key with
    | some circuit =>
      obtain ⟨free, worker, found, timed⟩ := tended.slots key (Option.isSome_of_eq_some asked)
      exact ⟨free, worker, found, timed, nofun⟩
    | none =>
      obtain ⟨_, worker, request, found, member, _⟩ := step.asks sane asked pending
      have undecided := ((sane.workers _ _ found).requests member).1
      refine ⟨?_, worker, found, (tended.workers _ _ found).timed undecided, fun _ => undecided⟩
      cases circuit : s.circuits.get key with
      | none => rfl
      | some _ =>
        have decided := (tended.workers _ _ found).decided (.inl (by simp [circuit]))
        cases decided.symm.trans undecided
  obtain ⟨free, worker, found, timed, undecided⟩ := before
  have free' : t.circuits.get key = none := by
    rcases step.vacant free with vacant | ⟨-, gone⟩
    · exact vacant
    · rw [gone] at pending
      cases pending
  refine ⟨free', ?_⟩
  have stays : (t.hopWorkers.get key).isSome := by
    rcases step.stays (Option.isSome_of_eq_some found) with stays | leaves
    · exact stays
    · cases leaves with
      | dismissed gone | deserted _ gone =>
        rw [gone] at pending
        cases pending
      | closed there =>
        rw [free] at there
        cases there
  obtain ⟨worker', found'⟩ := Option.isSome_iff_exists.mp stays
  refine ⟨worker', found', ?_⟩
  rcases tended.clock (step.career found') orderly with ⟨_, timed, _⟩
      | ⟨worker₁, found₁, kept | off⟩
  · exact timed
  · cases found.symm.trans found₁
    exact kept ▸ timed
  · cases found.symm.trans found₁
    cases off with
    | answered _ nothing same =>
      rw [same, nothing] at pending
      cases pending
    | completed owed => cases owed.decided.symm.trans (undecided owed.free.1)
    | committed _ circuit =>
      rw [free'] at circuit
      cases circuit

theorem owed (filed : t.pendingOperations.get token = some (.send peerId effect))
    (completes : effect.completes = some key) :
    ∃ worker, t.hopWorkers.get key = some worker ∧ Owed w' t key worker := by
  have sane := passes.tended.sane
  have hop : isHopOp key (.send peerId effect) = true := by
    cases effect with
    | completeHop | commitReservation =>
      cases completes
      simp [isHopOp]
    | _ => cases completes
  -- a status that the step has just queued
  have fresh (announces : Announces s t token key) :
      ∃ worker, t.hopWorkers.get key = some worker ∧ Owed w' t key worker := by
    obtain ⟨drawn, next, ⟨worker, data, responder, before, popped, found, queued⟩,
        pending, circuits⟩ :=
      announces
    subst drawn
    obtain ⟨front, same⟩ := pollOutput_eq popped
    have talks : .outbound data ∈ worker.responder.outputs := front ▸ mem_cons_self
    have kept := passes.tended.workers _ _ before
    refine ⟨_, found, ?_, ?_, .inr ⟨_, passes.announces (passes.orderly.known before) next queued
      filed completes, kept.closes [] data _ front⟩⟩
    · rw [same]
      exact (sane.workers _ _ before).finished_of_outbound talks
    · rw [pending, circuits]
      exact kept.talks data talks
  rcases passes.step.operation filed with old | new
  · obtain ⟨worker, before, owed⟩ := passes.tended.owed _ _ _ _ old completes
    have stays : (t.hopWorkers.get key).isSome := by
      rcases passes.step.stays (Option.isSome_of_eq_some before) with stays | leaves
      · exact stays
      · cases leaves with
        | dismissed _ cancelled => cases hop.symm.trans (cancelled _ _ filed)
        | deserted pending =>
          rw [owed.free.1] at pending
          cases pending
        | closed circuit =>
          rw [owed.free.2] at circuit
          cases circuit
    obtain ⟨worker', found⟩ := Option.isSome_iff_exists.mp stays
    have known := passes.orderly.known before
    refine ⟨worker', found, (passes.step.career found).decided known sane before owed.decided,
      free_step sane passes.step before owed.decided owed.free, ?_⟩
    rcases owed.rest with ceased | ⟨_, replied, waits⟩
    · exact .inl (passes.stays_over known stays ceased)
    · exact passes.closing before found owed.decided replied waits
  · cases new with
    | inert inert =>
      cases effect with
      | stopRequest => cases completes
      | _ => cases inert
    | complete announces | reservation _ _ _ _ announces =>
      cases completes
      exact fresh announces
    | circuit | forward => cases completes

end

end Passes

theorem Tended.step (tended : Tended w s) (step : Step s marks t) (orderly : Orderly s t marks)
    (next : w.Next w' s marks) : Tended w' t := by
  have passes : Passes w w' s t marks := ⟨tended, step, orderly, next⟩
  refine ⟨tended.sane.step step, tended.filed.step step orderly.room, fun key => ?_,
    fun key worker found => passes.kept found, fun key pending => passes.slot pending,
    fun token peerId effect key filed completes => passes.owed filed completes⟩
  by_cases began : .began key ∈ marks
  · rw [next.began key began]
    exact step.nextToken_le
  · rw [next.since key began]
    exact (tended.since key).trans step.nextToken_le

theorem Tended.does {P : Mark → Prop} (tended : Tended w s) (does : Does P s t)
    (unseen : ∀ mark, P mark → mark.outer = false) (unstranded : ∀ key, ¬ P (.stranded key))
    (room : t.nextToken ≤ maxTokens) : Tended w t := by
  obtain ⟨marks, run, only⟩ := does
  induction run with
  | nil => exact tended
  | @cons s s₁ t marks rest step run ih =>
    have unseen' (mark : Mark) (member : mark ∈ marks) : mark.outer = false :=
      unseen mark (only mark (mem_append_left _ member))
    have known (key : StreamKey) : .began key ∉ marks := fun began => by cases unseen' _ began
    refine ih (tended.step step ⟨(Trace.nextToken_le run).trans room, fun key stranded =>
      unstranded key (only _ (mem_append_left _ stranded)),
      fun key began => absurd began (known key)⟩ ⟨?_, fun _ _ => rfl, fun key began =>
        absurd began (known key)⟩) room (fun mark member => only mark (mem_append_right _ member))
    rw [unseen_takes unseen', append_nil]

theorem Vacant.step (vacant : s.Vacant key) (sane : s.Sane) (step : Step s marks t)
    (known : .began key ∉ marks) : t.Vacant key := by
  obtain ⟨idle, unasked, free⟩ := vacant
  refine ⟨?_, ?_, ?_⟩
  · cases found : t.hopWorkers.get key with
    | none => rfl
    | some worker' =>
      obtain ⟨began, _⟩ | ⟨_, before, _⟩ := (step.career found).spoke sane
      · exact absurd began known
      · cases idle.symm.trans before
  · cases pending : t.pendingCircuits.get key with
    | none => rfl
    | some _ =>
      obtain ⟨_, _, _, found, _⟩ := step.asks sane unasked (Option.isSome_of_eq_some pending)
      cases idle.symm.trans found
  · obtain vacant | ⟨pending, _⟩ := step.vacant free
    · exact vacant
    · rw [unasked] at pending
      cases pending

theorem Vacant.does {P : Mark → Prop} (vacant : s.Vacant key) (sane : s.Sane) (does : Does P s t)
    (known : ¬ P (.began key)) : t.Vacant key := by
  obtain ⟨marks, run, only⟩ := does
  induction run with
  | nil => exact vacant
  | cons step _ ih =>
    exact ih (vacant.step sane step fun began => known (only _ (mem_append_left _ began)))
      (sane.step step) fun mark member => only mark (mem_append_right _ member)

/-! ### Calls -/

/-- The call comes at a time when the deadline of a worker has passed whose CONNECT was
accepted and not committed. -/
def strands (s : Agent) : Call → Bool
  | .event _ _ now | .tick now =>
    !(s.hopWorkers.keysWhere fun key worker => due now worker.deadlineMs &&
      worker.responder.pendingRequest.isNone && s.pendingCircuits.containsKey key).isEmpty
  | _ => false

/-- The call brings a request on a stream that is in use. -/
def retakes (s : Agent) (call : Call) : Bool := call.begins.any fun key =>
  s.hopWorkers.containsKey key || s.pendingCircuits.containsKey key || s.circuits.containsKey key

def tidy (s : Agent) (call : Call) : Bool := !(s.strands call || s.retakes call)

theorem vacant_of_fresh {call : Call} (fresh : s.retakes call = false)
    (begins : call.begins = some key) :
    s.Vacant key := by
  simpa [retakes, begins, BTreeMap.containsKey, Vacant, and_assoc] using fresh

theorem unstranded {call : Call} (safe : s.strands call = false) (key : StreamKey) :
    ¬ s.late call key := by
  have nothing {now : Now} (safe : s.strands (.tick now) = false) : ¬ s.Overdue now key := by
    intro overdue
    obtain ⟨worker, found, passed, decided⟩ := overdue.worker
    have empty : s.hopWorkers.keysWhere (fun key worker => due now worker.deadlineMs &&
        worker.responder.pendingRequest.isNone && s.pendingCircuits.containsKey key) = [] := by
      simpa [strands] using safe
    have member : key ∈ s.hopWorkers.keysWhere (fun key worker => due now worker.deadlineMs &&
        worker.responder.pendingRequest.isNone && s.pendingCircuits.containsKey key) :=
      BTreeMap.mem_keysWhere.mpr
        ⟨worker, found, by simp [passed, decided, BTreeMap.containsKey, overdue.pending]⟩
    rw [empty] at member
    cases member
  cases call with
  | event | tick => exact nothing safe
  | _ => exact id

theorem began_outward {call : Call} : .began key ∈ s.outward call ↔ call.begins = some key := by
  cases call with
  | event event =>
    cases event with
    | streamReady =>
      simp only [outward, Call.begins]
      split <;> simp [eq_comm]
    | _ => simp [outward, Call.begins]
  | openResult token result =>
    simp only [outward, Call.begins, joins]
    split
    · split <;> simp
    · simp
  | sendResult token result now =>
    refine ⟨fun began => ?_, by simp [Call.begins]⟩
    rcases mem_cons.mp began with wrong | paid
    · cases wrong
    · cases pays_isCommit paid
  | pollAction | pollEvent | _ => simp [outward, Call.begins]

theorem watch_quiet {call : Call} {answer : Answer} (answered : s.call call = some (answer, t))
    (silent : s.outward call = []) : w.after s call answer = w := by
  have untaken := (outward_answer answered).2
  rw [silent] at untaken
  have unbegun (key : StreamKey) : ¬ call.begins = some key := fun begins => by
    have began := (@began_outward s key call).mpr begins
    rw [silent] at began
    cases began
  ext1
  · simp [Watch.after, ← untaken]
  · funext key
    exact if_neg (unbegun key)

theorem Tended.call {call : Call} {answer : Answer} (tended : Tended w s)
    (answered : s.call call = some (answer, t)) (serves : Serves s call t)
    (tidy : s.tidy call = true) (room : t.nextToken ≤ maxTokens) :
    Tended (w.after s call answer) t := by
  obtain ⟨safe, fresh⟩ : s.strands call = false ∧ s.retakes call = false := by
    simpa [Agent.tidy] using tidy
  cases serves with
  | quiet silent does =>
    rw [watch_quiet answered silent]
    exact tended.does does (fun _ inner => inner.unseen) (unstranded safe) room
  | @shows s₁ preceded before ready shows =>
    rw [outward_preceded preceded] at shows
    obtain ⟨rest, s₂, step, steady, after⟩ := shows
    have last : s₂.nextToken ≤ maxTokens := (Does.nextToken_le after).trans room
    have tended₁ := tended.does before (fun _ inner => inner.unseen) (unstranded safe)
      (step.nextToken_le.trans last)
    have begins {key : StreamKey} : .began key ∈ s.outward call ++ rest ↔
        call.begins = some key := by
      rw [mem_append, began_outward]
      refine ⟨fun began => ?_, .inl⟩
      rcases began with here | there
      · exact here
      · cases steady _ there
    refine (tended₁.step step ⟨last, fun key stranded => ?_, fun key began => ?_⟩
      ⟨?_, fun key other => if_neg fun here => other (begins.mpr here),
        fun key began => ?_⟩).does after
      (fun _ steady => steady.unseen) (fun _ wrong => wrong) room
    · rcases mem_append.mp stranded with here | there
      · cases outward_outer here
      · exact steady _ there
    · exact (vacant_of_fresh fresh (begins.mp began)).does tended.sane before fun inner =>
        nomatch inner.unseen
    · rw [filterMap_append, (outward_answer answered).2,
        unseen_takes fun mark member => (steady mark member).unseen, append_nil]
      rfl
    · simp only [Watch.after, if_pos (begins.mp began), preceded, Option.elim_some]

theorem Serves.nextToken_le {call : Call} (serves : Serves s call t) :
    s.nextToken ≤ t.nextToken := by
  cases serves with
  | quiet _ does => exact Does.nextToken_le does
  | shows _ before _ shows =>
    obtain ⟨_, _, step, _, after⟩ := shows
    exact (Does.nextToken_le before).trans (step.nextToken_le.trans (Does.nextToken_le after))

theorem Tended.attended (tended : Tended w s) (ready : s.Ready) : Attended w s := by
  refine ⟨fun key worker found => ?_, fun key pending => (tended.slots key pending).2,
    fun now => ?_⟩
  · have said := ready.hop key worker found
    rcases (tended.workers key worker found).situated with timed | circuit | ceased | owing
    · exact .timed timed
    · exact .committed circuit
    · exact .ended ceased.ended
    · cases owing with
      | status owes | reset owes | close _ owes =>
        rw [said] at owes
        cases owes
  · obtain ⟨t, ticked, _, _, onTime⟩ := handleTick_does ready now
    exact ⟨t, ticked, onTime⟩

theorem new_tended {localPeerId : PeerId} {config : RelayServerConfig}
    (created : new localPeerId config = .ok s) : Tended {} s := by
  have ready := (new_ready created).1
  unfold new at created
  generalize config.checked = checked at created
  cases checked with
  | error e => cases created
  | ok valid =>
    cases created
    refine ⟨ready.sane, ⟨Nat.one_pos, ?_, ?_, ?_⟩, fun _ => Nat.zero_le _, ?_, ?_, ?_⟩
    · intro _ queued
      cases queued
    · intro _ _ filed
      cases filed
    · intro _ queued
      cases queued
    · intro _ _ found
      cases found
    · intro _ pending
      cases pending
    · intro _ _ _ _ filed
      cases filed

theorem tended_along (tended : s.nextToken ≤ maxTokens → Tended w s) (ready : s.Ready)
    {calls : List Call}
    (tidy : Machine.Along Agent.call (fun s call => s.tidy call = true) s calls) :
    ∃ log t, Machine.run Agent.call s calls = some (log, t) ∧
      (t.nextToken ≤ maxTokens → Tended (w.along s calls) t) ∧ t.Ready := by
  induction calls generalizing w s with
  | nil => exact ⟨[], s, rfl, tended, ready⟩
  | cons call calls ih =>
    obtain ⟨here, later⟩ := tidy
    obtain ⟨answer, s₁, answered, serves, ready⟩ := call_serves ready call
    rw [answered] at later
    obtain ⟨log, t, runs, tended, ready⟩ := ih (fun room =>
      (tended (serves.nextToken_le.trans room)).call answered serves here room) ready later
    refine ⟨(call, answer) :: log, t, by simp [Machine.run, answered, runs], ?_, ready⟩
    simpa only [Watch.along, answered] using tended

def relayAgent : Agent := (new relayPeer {}).toOption.get (by decide +kernel)

theorem relayAgent_created : new relayPeer {} = .ok relayAgent := created_of_isSome _

def connectFrame (peerId : PeerId) : List UInt8 :=
  encodeFrame (HopMessage.encode ⟨.connect, some ⟨peerId.toBytes, []⟩, none, none, none⟩)

def stopOkFrame : List UInt8 :=
  encodeFrame (StopMessage.encode ⟨.status, none, none, some .ok⟩)

/-- One peer reserves and another asks for a circuit to it, which the first accepts. The host
takes the OK for the source, and the time of the request is up before its result is back. -/
def lateCommit : List Call :=
  [.setListenerAddrs [relayAddr],
    .event (.connectionEstablished bob 2) false (.fromMillis 0)] ++
  asksToReserve bob ⟨2, 0⟩ 0 ++
  [.sendResult 1 (.ok ()) (.fromMillis 0), .closeResult 2 (.ok ()),
    .event (.connectionEstablished alice 1) false (.fromMillis 0),
    .event (.streamReady alice ⟨1, 0⟩ hopProtocolId false) false (.fromMillis 0),
    .event (.streamData alice ⟨1, 0⟩ (connectFrame bob)) false (.fromMillis 0),
    .pollAction, .openResult 3 (.ok ⟨2, 4⟩), .pollAction, .sendResult 4 (.ok ()) (.fromMillis 0),
    .event (.streamData bob ⟨2, 4⟩ stopOkFrame) false (.fromMillis 0),
    .pollAction, .tick (.fromMillis 60000)]

def forsaken (w : Watch) (s : Agent) (key : StreamKey) : Bool :=
  (s.hopWorkers.get key).any (fun worker => worker.deadlineMs.isNone) &&
    (s.pendingCircuits.get key).isNone && (s.circuits.get key).isNone &&
    (w.queued s).all fun action =>
      match action with
      | .closeStreamWrite _ _ stream | .resetStream _ _ stream => stream != key
      | _ => true

theorem forsaken_unattended (forsaken : s.forsaken w key = true) : ¬ Attended w s := by
  intro attended
  simp only [Agent.forsaken, Bool.and_eq_true, Option.isNone_iff_eq_none, all_eq_true] at forsaken
  obtain ⟨⟨⟨worker, pending⟩, circuit⟩, silent⟩ := forsaken
  obtain ⟨worker, found, untimed⟩ := (Option.any_eq_true _ _).mp worker
  cases attended.workers key worker found with
  | timed timed =>
    rw [Option.isNone_iff_eq_none.mp untimed] at timed
    cases timed
  | pending there => cases pending.symm.trans there
  | committed there =>
    rw [circuit] at there
    cases there
  | ended ended =>
    cases ended with
    | reset _ queued | closed _ _ _ queued => simpa using silent _ queued

end Agent

end RelayServer
