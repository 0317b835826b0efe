import Mathlib.Data.Finset.Basic
import MiniP2P.Lib.Machine

/-! The background driver of the foreign interface. The driver thread queues events in a bounded
carry under the lock and rings outside it; the doorbell thread calls the application, which drains
the carry. The threads interleave at their operations on the lock and on the channel. -/
namespace Ffi

inductive DriverFailureKind where
  | transport | swarm | invariant | panic
  deriving DecidableEq

/-- The events as the driver reads them: `payload` is `Message` or `StreamData`, `connect` one of
the five that name a connection attempt. `δ` holds the fields it only passes on. -/
inductive P2pEvent (δ : Type) where
  | eventsDropped (dropped totalDropped : Nat)
  | driverFailed (kind : DriverFailureKind) (detail : String)
  | payload (fields : δ)
  | connect (connectId : Nat) (fields : δ)
  | other (fields : δ)

variable {δ : Type}

def isPayloadEvent : P2pEvent δ → Bool
  | .payload _ => true
  | _ => false

/-- The test of `p2p_connect_id` that the events of cancelled attempts fail. -/
def spared (cancelled : Finset Nat) : P2pEvent δ → Bool
  | .connect id _ => id ∉ cancelled
  | _ => true

def maxCarryEvents : Nat := 4096

def saturatingAdd (a b : Nat) : Nat := min (a + b) (UInt64.size - 1)

/-- The queued events in the order of their ids, and the overflow: not yet reported, and in all. -/
structure Carry (δ : Type) where
  events : List (P2pEvent δ) := []
  pending : Nat := 0
  total : Nat := 0

namespace Carry

/-- Over the capacity the oldest payload is dropped, or else the oldest event. -/
def push (c : Carry δ) (event : P2pEvent δ) : Carry δ :=
  let events := c.events ++ [event]
  if events.length ≤ maxCarryEvents then { c with events }
  else
    ⟨if events.any isPayloadEvent then events.eraseP isPayloadEvent else events.tail,
      saturatingAdd c.pending 1, saturatingAdd c.total 1⟩

def ingest (c : Carry δ) (events : List (P2pEvent δ)) : Carry δ := events.foldl push c

def suppressCancelled (c : Carry δ) (cancelled : Finset Nat) : Carry δ :=
  { c with events := c.events.filter (spared cancelled) }

/-- A diagnostic that is due comes first and takes a place. -/
def takeDelivery (c : Carry δ) (limit : Nat) : List (P2pEvent δ) × Carry δ :=
  if c.pending = 0 then (c.events.take limit, { c with events := c.events.drop limit })
  else
    (.eventsDropped c.pending c.total :: c.events.take (limit - 1),
      ⟨c.events.drop (limit - 1), 0, c.total⟩)

end Carry

/-! ### Threads -/

inductive Error where
  | transport (text : String)
  | swarm (text : String)
  | invariant (text : String)
  | eventBacklogExceeded (text : String)
  | entropy (text : String)

def Error.text : Error → String
  | transport text | swarm text | invariant text | eventBacklogExceeded text | entropy text => text

def failureKind : Error → DriverFailureKind
  | .transport _ => .transport
  | .swarm _ => .swarm
  | .invariant _ | .eventBacklogExceeded _ | .entropy _ => .invariant

/-- How an iteration of the pump ends that does not return. -/
inductive Failure where
  | error (error : Error)
  | panic

def Failure.event : Failure → P2pEvent δ
  | error e => .driverFailed (failureKind e) e.text
  | panic => .driverFailed .panic "background endpoint driver panicked"

inductive Wake (δ : Type) where
  | event (event : Option (P2pEvent δ))
  | interrupted
  | other

/-- What the calls on the endpoint answer in one iteration, converted. The last three return no
errors, but may panic. -/
structure Turn (δ : Type) where
  nextWake : Except Failure (Wake δ)
  poll : Except Failure (List (P2pEvent δ))
  takeNatEvents : Option (List (P2pEvent δ))
  takePubsubEvents : Option (List (P2pEvent δ))
  takeDiscoveryEvents : Option (List (P2pEvent δ))

def Wake.events : Wake δ → List (P2pEvent δ)
  | event e => e.toList
  | interrupted | other => []

def Turn.isInterrupted (turn : Turn δ) : Bool := turn.nextWake matches .ok .interrupted

def Turn.sources (turn : Turn δ) (cancelled : Finset Nat) :
    List (Except Failure (List (P2pEvent δ))) :=
  let taken (events : Option (List (P2pEvent δ))) := events.elim (.error .panic) .ok
  [turn.nextWake.map Wake.events, turn.poll,
    taken (turn.takeNatEvents.map (List.filter (spared cancelled))), taken turn.takePubsubEvents,
    taken turn.takeDiscoveryEvents]

/-- Ingests source after source, up to the first that fails. -/
def Carry.ingestAll (c : Carry δ) :
    List (Except Failure (List (P2pEvent δ))) → Carry δ × Option Failure
  | [] => (c, none)
  | .error failure :: _ => (c, some failure)
  | .ok events :: rest => (c.ingest events).ingestAll rest

/-- Where the driver thread is between two operations. -/
inductive Driver where
  | pumping
  | failed (failure : Failure)
  | reporting (failure : Failure)
  | ringing (last : Bool)
  | leaving
  | closing
  | exited

def Driver.rings : Driver → Bool
  | ringing _ => true
  | _ => false

/-- The driver owns the only sender of the channel, until it drops its doorbell. -/
def Driver.holdsSender : Driver → Bool
  | closing | exited => false
  | _ => true

/-- Where the doorbell thread is; a callback that unwinds is made `again` once. -/
inductive Doorbell where
  | receiving
  | ready (again : Bool)
  | calling (again : Bool)
  | finishing
  | ended
  deriving DecidableEq

def Doorbell.isReady : Doorbell → Bool
  | ready _ => true
  | _ => false

def Doorbell.isCalling : Doorbell → Bool
  | calling _ => true
  | _ => false

inductive Lifecycle where
  | running | stopping | stopped
  deriving DecidableEq

/-- An endpoint from `start` on. The channel holds one ring at most. The application `owes` a drain
from the start of a callback until a drain came back empty. -/
structure Shared (δ : Type) where
  lifecycle : Lifecycle := .running
  carry : Carry δ := {}
  cancelledConnectIds : Finset Nat := ∅
  driver : Driver := .pumping
  doorbell : Doorbell := .receiving
  channel : Bool := false
  owes : Bool := false

/-- A call of the application, or the next operation of one of the two threads: with what the
endpoint answers if the driver is to pump, and with whether the callback unwinds if it returns. -/
inductive Operation (δ : Type) where
  | stop
  | cancelConnect (id : Nat)
  | drainEvents (limit : Nat)
  | waitStopped
  | driver (turn : Turn δ)
  | doorbell (unwound : Bool)

inductive Output (δ : Type) where
  | done
  | drained (events : List (P2pEvent δ))
  | stopped (whether : Bool)
  | called

namespace Shared

variable (s : Shared δ)

def stop : Shared δ :=
  match s.lifecycle with
  | .running => { s with lifecycle := .stopping }
  | .stopping | .stopped => s

/-- Of an attempt that is known; otherwise there is nothing to cancel. -/
def cancelConnect (id : Nat) : Shared δ :=
  match s.lifecycle with
  | .running =>
    { s with
      carry := s.carry.suppressCancelled {id}
      cancelledConnectIds := insert id s.cancelledConnectIds }
  | .stopping | .stopped => s

def drainEvents (limit : Nat) : List (P2pEvent δ) × Shared δ :=
  if limit = 0 then ([], s)
  else
    let (events, carry) := (s.carry.suppressCancelled s.cancelledConnectIds).takeDelivery limit
    (events, { s with carry, owes := s.owes && !events.isEmpty })

/-- One iteration, from taking the lock to releasing it. -/
def pump (turn : Turn δ) : Shared δ :=
  if s.lifecycle ≠ .running then { s with driver := .leaving }
  else if turn.isInterrupted then s
  else
    match s.carry.ingestAll (turn.sources s.cancelledConnectIds) with
    | (carry, some failure) => { s with carry, driver := .failed failure }
    | (carry, none) =>
      let shouldRing := s.carry.events.isEmpty && !carry.events.isEmpty
      { s with
        carry
        cancelledConnectIds := ∅
        driver := if shouldRing then .ringing false else .pumping }

/-- What `run` does after the pump. -/
def drive (turn : Turn δ) : Option (Shared δ) :=
  match s.driver with
  | .pumping => some (s.pump turn)
  | .failed failure =>
    if s.lifecycle = .running then
      some { s with lifecycle := .stopping, driver := .reporting failure }
    else some { s with driver := .leaving }
  | .reporting failure =>
    some { s with
      carry := s.carry.ingest [failure.event]
      driver := if s.carry.events.isEmpty then .ringing true else .leaving }
  | .ringing last =>
    some { s with channel := true, driver := if last then .leaving else .pumping }
  | .leaving => some { s with driver := .closing }
  | .closing => some { s with lifecycle := .stopped, driver := .exited }
  | .exited => none

/-- `recv` takes a ring, blocks until there is one, or learns that no sender is left. -/
def answer (unwound : Bool) : Option (Output δ × Shared δ) :=
  match s.doorbell with
  | .receiving =>
    if s.channel then some (.done, { s with channel := false, doorbell := .ready true })
    else if s.driver.holdsSender then none
    else some (.done, { s with doorbell := .finishing })
  | .ready again => some (.called, { s with doorbell := .calling again, owes := true })
  | .calling again =>
    some (.done, { s with doorbell := if unwound && again then .ready false else .receiving })
  | .finishing => some (.done, { s with doorbell := .ended })
  | .ended => none

/-- One check of `wait_stopped`, which returns true when a check succeeds and false after a timeout
or on one of the two threads. `doorbell_running` is cleared as the last act of its thread. -/
def isStopped : Bool := s.lifecycle = .stopped && s.doorbell = .ended

def step (s : Shared δ) : Operation δ → Option (Output δ × Shared δ)
  | .stop => some (.done, s.stop)
  | .cancelConnect id => some (.done, s.cancelConnect id)
  | .drainEvents limit => some (.drained (s.drainEvents limit).1, (s.drainEvents limit).2)
  | .waitStopped => some (.stopped s.isStopped, s)
  | .driver turn => (s.drive turn).map (.done, ·)
  | .doorbell unwound => s.answer unwound

/-! ### Wakeups -/

/-- Somebody is on the way to the carry. -/
def wakes : Bool := s.channel || s.doorbell.isReady || s.driver.rings || s.owes

/-- Events are queued, and no ring, no callback and no drain is coming for them. -/
structure LostWakeup : Prop where
  events : s.carry.events ≠ []
  channel : s.channel = false
  doorbell : s.doorbell.isReady = false ∧ s.doorbell.isCalling = false
  driver : s.driver.rings = false
  drained : s.owes = false

/-- Before a source fails, one gives an event, or one is queued already. -/
def failsAfter (queued : Bool) : List (Except Failure (List (P2pEvent δ))) → Bool
  | [] => false
  | .error _ :: _ => queued
  | .ok events :: rest => failsAfter (queued || !events.isEmpty) rest

/-- An iteration that finds an empty carry and nobody on the way, and fails after an event. -/
def strands : Operation δ → Bool
  | .driver turn =>
    s.driver matches .pumping && s.lifecycle = .running && s.carry.events.isEmpty && !s.wakes &&
      !turn.isInterrupted && failsAfter false (turn.sources s.cancelledConnectIds)
  | _ => false

end Shared

/-! ### The carry -/

namespace Carry

theorem push_events_ne_nil (c : Carry δ) (event : P2pEvent δ) : (c.push event).events ≠ [] := by
  unfold push
  dsimp only
  split
  · exact List.append_ne_nil_of_right_ne_nil _ (by simp)
  · rename_i full
    -- what is dropped is one of more than the capacity
    apply List.ne_nil_of_length_pos
    dsimp only
    split
    · rename_i payload
      obtain ⟨e, member, isPayload⟩ := List.any_eq_true.mp payload
      have one := List.length_eraseP_of_mem member isPayload
      unfold maxCarryEvents at full
      omega
    · have one := List.length_tail (l := c.events ++ [event])
      unfold maxCarryEvents at full
      omega

theorem ingest_events_eq_nil (c : Carry δ) (events : List (P2pEvent δ)) :
    (c.ingest events).events = [] ↔ c.events = [] ∧ events = [] := by
  cases events using List.reverseRecOn with
  | nil => simp [ingest]
  | append_singleton events event =>
    simp [ingest, push_events_ne_nil]

theorem ingestAll_fails (c : Carry δ) (sources : List (Except Failure (List (P2pEvent δ)))) :
    Shared.failsAfter (!c.events.isEmpty) sources =
      ((c.ingestAll sources).2.isSome && !(c.ingestAll sources).1.events.isEmpty) := by
  induction sources generalizing c with
  | nil => rfl
  | cons source rest ih =>
    cases source with
    | error failure => simp [Shared.failsAfter, ingestAll]
    | ok events =>
      have same : (!c.events.isEmpty || !events.isEmpty) = !(c.ingest events).events.isEmpty := by
        have empty := c.ingest_events_eq_nil events
        simp only [← List.isEmpty_iff] at empty
        grind
      rw [Shared.failsAfter, ingestAll, same, ih]

theorem takeDelivery_empty (c : Carry δ) (limit : Nat)
    (empty : c.events = [] ∨ 0 < limit ∧ (c.takeDelivery limit).1 = []) :
    (c.takeDelivery limit).2.events = [] := by
  by_cases reported : c.pending = 0
  · simp only [takeDelivery, reported, if_true] at empty ⊢
    rcases empty with empty | ⟨positive, nothing⟩
    · simp [empty]
    · simp [(List.take_eq_nil_iff.mp nothing).resolve_left (by omega)]
  · simp only [takeDelivery, reported, if_false] at empty ⊢
    simp [empty.resolve_right (by simp)]

end Carry

/-! ### Runs -/

namespace Shared

variable {s t : Shared δ} {op : Operation δ} {output : Output δ} {turn : Turn δ}

/-- Nothing is queued, or somebody is on the way. -/
def Awake (s : Shared δ) : Prop := s.carry.events = [] ∨ s.wakes = true

namespace Awake

theorem pump (awake : s.Awake) (here : s.driver = .pumping)
    (spared : s.strands (.driver turn) = false) : (s.pump turn).Awake := by
  have fails := s.carry.ingestAll_fails (turn.sources s.cancelledConnectIds)
  unfold Shared.pump
  split
  · simpa [Awake, wakes, here, Driver.rings] using awake
  · rename_i running
    split
    · exact awake
    · rename_i uninterrupted
      split
      · -- whoever finds an empty carry and leaves an event in it has somebody on the way
        rename_i carry failure ingested
        rw [ingested] at fails
        simp only [strands, here, Decidable.not_not.mp running, uninterrupted] at spared
        simp only [Awake, wakes, here, Driver.rings, ← List.isEmpty_iff] at awake spared ⊢
        grind
      · rename_i carry ingested
        simp only [Awake, wakes, here, Driver.rings, ← List.isEmpty_iff] at awake ⊢
        grind

theorem drainEvents (awake : s.Awake) (limit : Nat) : (s.drainEvents limit).2.Awake := by
  unfold Shared.drainEvents
  split
  · exact awake
  · rename_i positive
    have left := (s.carry.suppressCancelled s.cancelledConnectIds).takeDelivery_empty limit
    rcases awake with empty | wakes
    · left
      exact left (.inl (by simp [Carry.suppressCancelled, empty]))
    · by_cases nothing :
          ((s.carry.suppressCancelled s.cancelledConnectIds).takeDelivery limit).1 = []
      · left
        exact left (.inr ⟨Nat.pos_of_ne_zero positive, nothing⟩)
      · right
        simpa [Shared.wakes, nothing] using wakes

theorem drive (awake : s.Awake) (spared : s.strands (.driver turn) = false)
    (driven : s.drive turn = some t) : t.Awake := by
  cases here : s.driver with
  | pumping =>
    simp only [Shared.drive, here, Option.some.injEq] at driven
    exact driven ▸ awake.pump here spared
  | failed failure =>
    simp only [Shared.drive, here] at driven
    split at driven <;> cases driven <;> simpa [Awake, wakes, here, Driver.rings] using awake
  | reporting failure =>
    simp only [Shared.drive, here, Option.some.injEq] at driven
    subst driven
    right
    rcases awake with empty | awake
    · simp [wakes, empty, Driver.rings]
    · simp only [wakes, here, Driver.rings] at awake ⊢
      grind
  | ringing last =>
    simp only [Shared.drive, here, Option.some.injEq] at driven
    subst driven
    right
    simp [wakes]
  | leaving | closing =>
    simp only [Shared.drive, here, Option.some.injEq] at driven
    subst driven
    simpa [Awake, wakes, here, Driver.rings] using awake
  | exited => simp [Shared.drive, here] at driven

theorem answer {unwound : Bool} (awake : s.Awake) (answered : s.answer unwound = some (output, t)) :
    t.Awake := by
  simp only [Shared.answer] at answered
  split at answered
  · rename_i here
    split at answered
    · cases answered
      right
      simp [wakes, Doorbell.isReady]
    · split at answered
      · cases answered
      · cases answered
        simpa [Awake, wakes, here, Doorbell.isReady] using awake
  · cases answered
    right
    simp [wakes]
  · rename_i here
    cases answered
    refine awake.imp (fun empty => empty) fun wakes => ?_
    simp only [Shared.wakes, here, Doorbell.isReady] at wakes ⊢
    grind
  · rename_i here
    cases answered
    simpa [Awake, wakes, here, Doorbell.isReady] using awake
  · cases answered

theorem step (awake : s.Awake) (spared : s.strands op = false)
    (stepped : s.step op = some (output, t)) : t.Awake := by
  cases op with
  | stop =>
    cases stepped
    unfold stop
    split <;> exact awake
  | cancelConnect id =>
    cases stepped
    unfold cancelConnect
    split
    · refine awake.imp (fun empty => ?_) (fun wakes => wakes)
      simp [Carry.suppressCancelled, empty]
    all_goals exact awake
  | drainEvents limit =>
    cases stepped
    exact awake.drainEvents limit
  | waitStopped =>
    cases stepped
    exact awake
  | driver turn =>
    obtain ⟨t', driven, same⟩ := Option.map_eq_some_iff.mp stepped
    cases same
    exact awake.drive spared driven
  | doorbell unwound => exact awake.answer stepped

end Awake

theorem lost_of_strands (strands : s.strands op = true) :
    ∃ rest log t, Machine.run step s (op :: rest) = some (log, t) ∧ t.LostWakeup := by
  cases op with
  | driver turn =>
    have here : s.driver = .pumping := by cases here : s.driver <;> simp_all [Shared.strands]
    have fails := s.carry.ingestAll_fails (turn.sources s.cancelledConnectIds)
    simp only [Shared.strands, wakes, here, Driver.rings, Bool.and_eq_true, Bool.not_eq_true',
      Bool.or_eq_false_iff, decide_eq_true_eq] at strands
    obtain ⟨⟨⟨⟨⟨-, running⟩, empty⟩, ⟨⟨⟨channel, ready⟩, -⟩, drained⟩⟩, uninterrupted⟩, after⟩ :=
      strands
    rw [empty, Bool.not_true, after, eq_comm, Bool.and_eq_true, Option.isSome_iff_exists] at fails
    obtain ⟨⟨failure, failed⟩, queued⟩ := fails
    generalize ingested : s.carry.ingestAll (turn.sources s.cancelledConnectIds) =
      result at failed queued
    obtain ⟨carry, _⟩ := result
    cases failed
    have stepped : s.step (.driver turn) = some (.done,
        { s with carry, driver := .failed failure }) := by
      simp [step, drive, here, pump, running, uninterrupted, ingested]
    have events : carry.events ≠ [] := by simpa using queued
    -- a callback that still runs has drained already, and returns
    cases calling : s.doorbell with
    | calling again =>
      refine ⟨[.doorbell false], [(.driver turn, .done), (.doorbell false, .done)],
        { s with carry, driver := .failed failure, doorbell := .receiving }, ?_, ?_⟩
      · have returned : step { s with carry, driver := .failed failure } (.doorbell false) =
            some (.done, { s with carry, driver := .failed failure, doorbell := .receiving }) := by
          simp [step, answer, calling]
        simp only [Machine.run, stepped, returned]
      · exact ⟨events, channel, ⟨rfl, rfl⟩, rfl, drained⟩
    | _ =>
      refine ⟨[], [(.driver turn, .done)], { s with carry, driver := .failed failure }, ?_, ?_⟩
      · simp [Machine.run, stepped]
      · exact ⟨events, channel, ⟨ready, by simp [calling, Doorbell.isCalling]⟩, rfl, drained⟩
  | _ => cases strands

/-- Only the driver's last act stops the endpoint. -/
def Settled (s : Shared δ) : Prop := s.lifecycle = .stopped → s.driver = .exited

theorem pump_frame (s : Shared δ) (turn : Turn δ) :
    (s.pump turn).lifecycle = s.lifecycle ∧ (s.pump turn).doorbell = s.doorbell := by
  unfold pump
  split
  · exact ⟨rfl, rfl⟩
  · split
    · exact ⟨rfl, rfl⟩
    · split <;> exact ⟨rfl, rfl⟩

theorem Settled.drive (settled : s.Settled) (driven : s.drive turn = some t) :
    t.Settled ∧ t.doorbell = s.doorbell := by
  unfold Settled at settled ⊢
  cases here : s.driver with
  | pumping =>
    simp only [Shared.drive, here, Option.some.injEq] at driven
    obtain ⟨lifecycle, doorbell⟩ := driven ▸ s.pump_frame turn
    rw [here, ← lifecycle] at settled
    refine ⟨fun stopped => ?_, doorbell⟩
    cases settled stopped
  | failed failure =>
    simp only [Shared.drive, here] at driven
    split at driven <;> cases driven <;> simp_all
  | exited => simp [Shared.drive, here] at driven
  | _ =>
    simp only [Shared.drive, here, Option.some.injEq] at driven
    subst driven
    simp_all

theorem Settled.answer {unwound : Bool} (settled : s.Settled)
    (answered : s.answer unwound = some (output, t)) : t.Settled ∧ s.doorbell ≠ .ended := by
  simp only [Shared.answer] at answered
  split at answered
  · split at answered
    · cases answered
      exact ⟨settled, by simp_all⟩
    · split at answered <;> cases answered
      exact ⟨settled, by simp_all⟩
  all_goals
    cases answered
    try exact ⟨settled, by simp_all⟩

/-- A doorbell thread that has ended makes no callback and stays so. -/
theorem Settled.step (settled : s.Settled) (stepped : s.step op = some (output, t)) :
    t.Settled ∧ (s.doorbell = .ended → t.doorbell = .ended ∧ output ≠ .called) := by
  cases op with
  | stop =>
    cases stepped
    unfold stop
    split
    · exact ⟨by simp [Settled], fun ended => ⟨ended, by simp⟩⟩
    all_goals exact ⟨settled, fun ended => ⟨ended, by simp⟩⟩
  | cancelConnect id =>
    cases stepped
    unfold cancelConnect
    split <;> exact ⟨settled, fun ended => ⟨ended, by simp⟩⟩
  | drainEvents limit =>
    cases stepped
    unfold Shared.drainEvents
    split <;> exact ⟨settled, fun ended => ⟨ended, by simp⟩⟩
  | waitStopped =>
    cases stepped
    exact ⟨settled, fun ended => ⟨ended, by simp⟩⟩
  | driver turn =>
    obtain ⟨t', driven, same⟩ := Option.map_eq_some_iff.mp stepped
    cases same
    obtain ⟨settled, doorbell⟩ := settled.drive driven
    exact ⟨settled, fun ended => ⟨doorbell.trans ended, by simp⟩⟩
  | doorbell unwound =>
    obtain ⟨settled, running⟩ := settled.answer stepped
    exact ⟨settled, fun ended => absurd ended running⟩

end Shared

/-- While no iteration of the pump strands an event, none waits without somebody on the way to it;
an iteration that does can lose its wakeup. When `wait_stopped` finds the endpoint stopped, the
driver has exited, and no callback runs or ever will. -/
theorem rings_unless_stranded {ops : List (Operation δ)} {log : List (Operation δ × Output δ)}
    {s : Shared δ} (runs : Machine.run Shared.step {} ops = some (log, s)) :
    (Machine.Along Shared.step (fun s op => s.strands op = false) {} ops → ¬s.LostWakeup) ∧
    (∀ op, s.strands op = true →
      ∃ rest log' t, Machine.run Shared.step s (op :: rest) = some (log', t) ∧ t.LostWakeup) ∧
    (s.step .waitStopped = some (.stopped true, s) →
      s.driver = .exited ∧ s.doorbell = .ended ∧
      ∀ later log' t, Machine.run Shared.step s later = some (log', t) →
        t.doorbell = .ended ∧ ∀ entry ∈ log', entry.2 ≠ .called) := by
  refine ⟨fun spared lost => ?_, fun op => Shared.lost_of_strands, fun checked => ?_⟩
  · have awake : s.Awake := Machine.along_keeps [] (P := fun _ s => s.Awake)
      (fun awake spared stepped => awake.step spared stepped) (.inl rfl) spared runs
    refine awake.elim lost.events fun wakes => ?_
    simp [Shared.wakes, lost.channel, lost.doorbell.1, lost.driver, lost.drained] at wakes
  · have settled : s.Settled :=
      Machine.along_keeps [] (P := fun _ (s : Shared δ) => s.Settled)
        (fun settled _ stepped => (settled.step stepped).1) (by simp [Shared.Settled])
        (Machine.along_true {} ops) runs
    simp only [Shared.step, Shared.isStopped, Option.some.injEq, Prod.mk.injEq,
      Output.stopped.injEq, Bool.and_eq_true, decide_eq_true_eq, and_true] at checked
    obtain ⟨stopped, ended⟩ := checked
    refine ⟨settled stopped, ended, fun later log' t runs => ?_⟩
    exact (Machine.along_keeps []
      (P := fun log (s : Shared δ) =>
        s.Settled ∧ s.doorbell = .ended ∧ ∀ entry ∈ log, entry.2 ≠ .called)
      (fun kept _ stepped => by
        obtain ⟨settled, ended, silent⟩ := kept
        obtain ⟨settled, still⟩ := settled.step stepped
        refine ⟨settled, (still ended).1, fun entry member => ?_⟩
        rcases List.mem_append.mp member with earlier | last
        · exact silent entry earlier
        · exact List.mem_singleton.mp last ▸ (still ended).2)
      ⟨settled, ended, by simp⟩ (Machine.along_true s later) runs).2

/-- The swarm reports an event, and the poll after it gives `polled`. -/
def heard (polled : Except Failure (List (P2pEvent Unit))) : Operation Unit :=
  .driver
    { nextWake := .ok (.event (some (.other ())))
      poll := polled
      takeNatEvents := some []
      takePubsubEvents := some []
      takeDiscoveryEvents := some [] }

def rung : List (Operation Unit × Output Unit) :=
  [(heard (.ok []), .done), (heard (.ok []), .done), (.doorbell false, .done),
    (.doorbell false, .called), (.drainEvents 8, .drained [.other ()]),
    (.drainEvents 8, .drained []), (.doorbell false, .done), (.stop, .done),
    (heard (.ok []), .done), (heard (.ok []), .done), (heard (.ok []), .done),
    (.doorbell false, .done), (.doorbell false, .done)]

/-- An event rings and is drained in the callback; then the endpoint is stopped. -/
theorem rings_once :
    ∃ s, Machine.run Shared.step {} (rung.map Prod.fst) = some (rung, s) ∧ ¬s.LostWakeup ∧
      s.driver = .exited := by
  have runs : Machine.run Shared.step {} (rung.map Prod.fst) =
      some (rung, { lifecycle := .stopped, driver := .exited, doorbell := .ended }) := rfl
  obtain ⟨kept, -, gone⟩ := rings_unless_stranded runs
  exact ⟨_, runs, kept (by decide), (gone rfl).1⟩

/-- The poll fails after the wake gave an event: both threads are gone and nobody was called. -/
theorem stranded_unheard :
    ∃ log s, Machine.run Shared.step {}
        [heard (.error (.error (.transport "closed"))), heard (.ok []), heard (.ok []),
          heard (.ok []), heard (.ok []), .doorbell false, .doorbell false] = some (log, s) ∧
      s.LostWakeup ∧ s.carry.events = [.other (), .driverFailed .transport "closed"] ∧
      s.isStopped = true ∧ ∀ entry ∈ log, entry.2 = .done := by
  refine ⟨_, _, rfl, ⟨?_, rfl, ⟨rfl, rfl⟩, rfl, rfl⟩, rfl, rfl, by simp⟩
  exact List.cons_ne_nil _ _

end Ffi
