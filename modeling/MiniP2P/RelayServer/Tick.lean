import MiniP2P.RelayServer.Drain

/-! A tick returns, and what it ends it ends in steps. The one loss it may cause is named: a
worker whose accepted CONNECT has not been committed loses its deadline for good. -/
namespace RelayServer
open Collections Core Identity Relay List BTreeMap Mark

/-- The marks of a whole call, apart from what passes between agent and host. Only the
named workers may be stranded. -/
def Mark.inner (P : StreamKey → Prop) : Mark → Prop
  | .stranded key => P key
  | mark => mark.outer = false

def Mark.expires (exposed : Prop) (key : StreamKey) : Mark → Prop
  | .stirred key' => key' = key
  | .stranded key' => key' = key ∧ exposed
  | .rewired => False
  | mark => mark.outer = false

/-- The marks of work that leaves the connections alone and strands nobody. -/
def Mark.steady : Mark → Prop
  | .rewired | .stranded _ => False
  | mark => mark.outer = false

variable {mark : Mark} {key : StreamKey} {s t : Agent} {marks : List Mark} {P : Mark → Prop}

theorem Mark.within.steady (within : mark.within key) : mark.steady := by
  cases mark with
  | stirred => rfl
  | _ => exact within

theorem Mark.idle.steady (idle : mark.idle) : mark.steady := by
  cases mark with
  | rewired | stranded | stirred => exact idle.elim
  | _ => exact idle

theorem Mark.steady.inner (steady : mark.steady) (P : StreamKey → Prop) : mark.inner P := by
  cases mark with
  | rewired | stranded => exact steady.elim
  | _ => exact steady

theorem Mark.inner.unseen {P : StreamKey → Prop} (inner : mark.inner P) : mark.outer = false := by
  cases mark with
  | stranded => rfl
  | _ => exact inner

theorem Mark.steady.unseen (steady : mark.steady) : mark.outer = false := by
  cases mark with
  | stranded | rewired => rfl
  | _ => exact steady

theorem Mark.within.expires (within : mark.within key) (exposed : Prop) :
    mark.expires exposed key := by
  cases mark with
  | rewired | stranded => exact within.elim
  | _ => exact within

namespace Agent

/-- A worker whose pending CONNECT is no longer undecided: it cannot be refused any more. -/
structure Exposed (s : Agent) (key : StreamKey) : Prop where
  worker : ∃ worker, s.hopWorkers.get key = some worker ∧ worker.responder.pendingRequest = none
  pending : (s.pendingCircuits.get key).isSome

structure Overdue (s : Agent) (now : Now) (key : StreamKey) : Prop where
  worker : ∃ worker, s.hopWorkers.get key = some worker ∧ due now worker.deadlineMs = true ∧
    worker.responder.pendingRequest = none
  pending : (s.pendingCircuits.get key).isSome

/-! ### One worker -/

/-- The worker on a stream has not overstayed. -/
def OnTime (s : Agent) (now : Now) (key : StreamKey) : Prop :=
  ∀ worker, s.hopWorkers.get key = some worker → due now worker.deadlineMs = false

variable {now : Now}

theorem OnTime.step (onTime : s.OnTime now key) (step : Step s marks t)
    (known : .began key ∉ marks) : t.OnTime now key := by
  intro worker' found
  cases step.career found with
  | kept before => exact onTime _ before
  | hired began => exact absurd began known
  | turned before _ turn =>
    have before := onTime _ before
    cases turn with
    | refused _ _ _ deadline =>
      rcases deadline with same | nothing
      · rwa [same]
      · rw [nothing]
        rfl
    | _ => exact before
  | stranded _ _ same | completed _ _ _ _ same | committed _ _ _ same =>
    rw [same]
    rfl
  | replied before _ _ same | promised before _ _ _ same | bridged before _ same
  | asked before _ same | accepted before _ _ _ _ _ same | heard before _ _ _ _ same =>
    have before := onTime _ before
    rwa [same]

theorem OnTime.does (onTime : s.OnTime now key) (does : Does P s t)
    (unseen : ∀ mark, P mark → mark.outer = false) : t.OnTime now key :=
  does.keeps (I := fun s => s.OnTime now key) onTime fun onTime step only =>
    onTime.step step fun began => by cases unseen _ (only _ began)

theorem OnTime.gone (gone : s.hopWorkers.get key = none) :
    s.OnTime now key := fun worker found => by
  cases gone.symm.trans found

theorem expireHop_does (ready : s.Ready) (key : StreamKey) :
    ∃ t, s.expireHop key = some t ∧ Does (expires (s.Exposed key) key) s t ∧ t.Ready ∧
      ∀ now, t.OnTime now key := by
  have unseen {P : Prop} (mark : Mark) (only : mark.expires P key) : mark.outer = false := by
    cases mark with
    | stirred | stranded | rewired => rfl
    | _ => exact only
  unfold expireHop
  cases pending : s.pendingCircuits.get key with
  | none =>
    rw [if_neg (by simp [BTreeMap.containsKey, pending])]
    cases found : s.hopWorkers.get key with
    | none => exact ⟨s, rfl, .refl _ s, ready, fun _ => .gone found⟩
    | some worker =>
      obtain ⟨s₁, at₁⟩ : ∃ s₁, s₁ =
        ({ s with hopWorkers := s.hopWorkers.remove key }).cancelPendingHopOps key := ⟨_, rfl⟩
      have dismissed : Does idle s s₁ := at₁ ▸ .quiet (.dismissed pending)
      have gone : s₁.hopWorkers.get key = none := by
        rw [at₁]
        exact get_remove_self ..
      have reset : Does idle s₁ ((s₁.abortPendingConnect key).queueReset worker.peerId key) :=
        (abortPendingConnect_does ..).trans (.reset ..)
      have ended {t : Agent} (rest : Does idle s₁ t) :
          Does (expires (s.Exposed key) key) s t ∧ t.Ready ∧ ∀ now, t.OnTime now key :=
        ⟨((dismissed.trans rest).within key).mono fun _ within => within.expires _,
          (dismissed.trans rest).ready ready,
          fun _ => (OnTime.gone gone).does rest fun _ idle => idle.steady.unseen⟩
      refine ⟨_, rfl, ?_⟩
      rw [← at₁]
      split
      · exact ended (reset.trans (.note rfl rfl))
      · exact ended reset
  | some circuit =>
    rw [if_pos (by simp [BTreeMap.containsKey, pending])]
    have told {s₁ t : Agent} (does : Does (within key) s₁ t) :
        Does (expires (s.Exposed key) key) s₁ t := does.mono fun _ within => within.expires _
    cases found : s.hopWorkers.get key with
    | none =>
      have idle : s.completeHop key = s := by simp only [completeHop, found]
      rw [idle]
      obtain ⟨t, failed, does, ready'⟩ :=
        failPendingConnect_does (ready.busy key) (ready.hop key) .connectionFailed
      exact ⟨t, failed, told does, ready', fun _ => (OnTime.gone found).does (told does) unseen⟩
    | some worker =>
      have completed : s.completeHop key = s.setWorker key { worker with deadlineMs := none } := by
        simp only [completeHop, found, setWorker]
      have empty := ready.hop key worker found
      have aborted := abortPendingConnect_does s key
      have gone := pendingCircuits_abort s key
      have found' : (s.abortPendingConnect key).hopWorkers.get key = some worker := by
        rw [hopWorkers_abort, found]
      have busy := (aborted.within key).busy (ready.busy key)
      unfold failPendingConnect
      rw [completed,
        show (s.setWorker key { worker with deadlineMs := none }).pendingCircuits.get key =
        some circuit from pending]
      dsimp only
      rw [abortPendingConnect_setWorker]
      generalize s.abortPendingConnect key = s₁ at aborted gone found' busy
      cases waits : worker.responder.pendingRequest with
      | none =>
        -- the decision has been made, so the refusal fails and nothing else will end the worker
        have exposed : s.Exposed key := ⟨⟨worker, found, waits⟩, by simp [pending]⟩
        have stranded : Does (expires (s.Exposed key) key) s₁
            (s₁.setWorker key { worker with deadlineMs := none }) :=
          .one (.stranded found' gone) ⟨rfl, exposed⟩
        have busy' := busy.step (.stranded found' gone) (by simp)
        have hop : (s₁.setWorker key { worker with deadlineMs := none }).HopDrained key := by
          intro worker' same
          cases (get_setWorker ..).symm.trans same
          exact empty
        obtain ⟨t, drained, does, ready'⟩ := refuse_ready busy' hop gone circuit.destinationPeerId
          .connectionFailed (.fromMillis 0)
        have rest := told does
        refine ⟨t, drained, (told (aborted.within key)).trans (stranded.trans rest),
          ready', fun _ => ?_⟩
        refine OnTime.does (fun worker' same => ?_) rest unseen
        cases (get_setWorker ..).symm.trans same
        rfl
      | some request =>
        obtain ⟨responder, taken, -⟩ :=
          HopResponder.reject_answers empty waits .connectionFailed
        have denied : (s₁.setWorker key { worker with deadlineMs := none }).denyConnect key
            circuit.destinationPeerId .connectionFailed =
            (s₁.setWorker key { worker with responder, deadlineMs := none }).emit
              (.circuitDenied worker.peerId circuit.destinationPeerId .connectionFailed) := by
          have fed := feedHop_ok (s := (s₁.setWorker key { worker with deadlineMs := none }).emit
            (.circuitDenied worker.peerId circuit.destinationPeerId .connectionFailed))
            (.reject .connectionFailed) (get_setWorker ..) taken
          rw [denyConnect, get_setWorker]
          dsimp only
          rw [fed]
          simp only [setWorker, emit, insert_insert]
        have refused : Does (within key) s₁
            ((s₁.setWorker key { worker with responder, deadlineMs := none }).emit
              (.circuitDenied worker.peerId circuit.destinationPeerId .connectionFailed)) :=
          (Does.stir (.turned found' (.refused gone empty taken (.inr rfl)))).trans (.note rfl rfl)
        obtain ⟨t, drained, does, ready'⟩ := drainHop_freed (refused.busy busy) gone (.fromMillis 0)
        rw [denied]
        refine ⟨t, drained, told ((aborted.within key).trans (refused.trans does)),
          ready', fun _ => ?_⟩
        refine OnTime.does (fun worker' same => ?_) (told does) unseen
        cases (get_setWorker ..).symm.trans same
        rfl

/-! ### The whole tick -/

theorem foldl_does {κ : Type} {f : Agent → κ → Agent} (each : ∀ s key, Does P s (f s key))
    (keys : List κ) (s : Agent) : Does P s (keys.foldl f s) := by
  induction keys generalizing s with
  | nil => exact .refl P s
  | cons key keys ih => exact (each s key).trans (ih (f s key))

theorem forKeys_does {κ : Type} {f : Agent → κ → Option Agent}
    (each : ∀ s key, s.Ready → ∃ t, f s key = some t ∧ Does P s t ∧ t.Ready) (keys : List κ)
    (ready : s.Ready) : ∃ t, forKeys f keys s = some t ∧ Does P s t ∧ t.Ready := by
  induction keys generalizing s with
  | nil => exact ⟨s, rfl, .refl P s, ready⟩
  | cons key keys ih =>
    obtain ⟨t, first, does, ready'⟩ := each s key ready
    obtain ⟨u, rest, does', ready''⟩ := ih ready'
    exact ⟨u, by simp [forKeys, first, rest], does.trans does', ready''⟩

theorem Step.undecided (step : Step s marks t) (calm : .stirred key ∉ marks) {worker' : HopWorker}
    (found : t.hopWorkers.get key = some worker') : ∃ worker, s.hopWorkers.get key = some worker ∧
      worker.responder.pendingRequest = worker'.responder.pendingRequest := by
  cases step.career found with
  | kept before => exact ⟨_, before, rfl⟩
  | hired _ stirred | turned _ stirred | accepted _ stirred | heard _ _ stirred =>
    exact absurd stirred calm
  | stranded before _ same | completed before _ _ _ same | committed before _ _ same
  | asked before _ same =>
    exact ⟨_, before, by rw [same]⟩
  | replied before popped _ same | promised before popped _ _ same | bridged before popped same =>
    exact ⟨_, before, by rw [same, (HopResponder.pollOutput_eq popped).2]⟩

theorem Step.asks (step : Step s marks t) (sane : s.Sane)
    (unasked : s.pendingCircuits.get key = none) (pending : (t.pendingCircuits.get key).isSome) :
    .stirred key ∉ marks ∧
      ∃ worker request, s.hopWorkers.get key = some worker ∧
        .request request ∈ worker.responder.outputs ∧ worker.responder.pendingRequest.isSome := by
  obtain ⟨circuit, found⟩ := Option.isSome_iff_exists.mp pending
  obtain ⟨-, calm, worker, _, _, hired, front⟩ := step.pending unasked found
  have asked : .request _ ∈ worker.responder.outputs := front ▸ mem_cons_self
  obtain ⟨_, _, _, waits, _⟩ := (sane.workers _ _ hired).requests asked
  exact ⟨calm, worker, _, hired, asked, by simp [waits]⟩

def Settled (s : Agent) : Prop :=
  ∀ key worker request, s.hopWorkers.get key = some worker →
    .request request ∉ worker.responder.outputs

theorem Ready.settled (ready : s.Ready) : s.Settled := fun key worker _ found => by
  rw [ready.hop key worker found]
  exact not_mem_nil

theorem Settled.step (settled : s.Settled) (sane : s.Sane) (step : Step s marks t)
    (unheard : ∀ key data, .arrived key data ∉ marks) : t.Settled := by
  intro key worker' request found
  cases step.career found with
  | kept before => exact settled _ _ _ before
  | hired _ _ fresh =>
    rw [fresh]
    exact not_mem_nil
  | turned before _ turn =>
    cases turn with
    | hungUp =>
      have absent := settled _ _ request before
      exact absent
    | answered _ front | muted _ front =>
      exact absurd (front ▸ mem_cons_self) (settled _ _ _ before)
    | refused _ empty taken => exact (HopResponder.rejected_answers empty taken).2.2.unasked request
    | lost popped => exact ((sane.workers _ _ before).polled popped).2 request
  | stranded before _ same | completed before _ _ _ same | committed before _ _ same =>
    have nothing := settled _ _ request before
    rwa [same]
  | replied before popped _ same | promised before popped _ _ same | bridged before popped same =>
    rw [same]
    exact ((sane.workers _ _ before).polled popped).2 request
  | asked before front same =>
    exact absurd (front ▸ mem_cons_self) (settled _ _ _ before)
  | accepted before _ _ empty taken popped same =>
    rw [same]
    exact ((HopResponder.Sound.connected (by simp [empty]) taken).polled popped).2 request
  | heard _ arrived => exact absurd arrived (unheard _ _)

theorem Does.unasked (does : Does P s t) (ready : s.Ready)
    (unseen : ∀ mark, P mark → mark.outer = false) (free : s.pendingCircuits.get key = none) :
    t.pendingCircuits.get key = none := by
  have kept := does.keeps (I := fun u => u.Sane ∧ u.Settled ∧ u.pendingCircuits.get key = none)
    ⟨ready.sane, ready.settled, free⟩ fun {s marks t} held step only => by
      obtain ⟨sane, settled, free⟩ := held
      have unheard (key data) : arrived key data ∉ marks := fun member => by
        cases unseen _ (only _ member)
      refine ⟨sane.step step, settled.step sane step unheard, ?_⟩
      cases found : t.pendingCircuits.get key with
      | none => rfl
      | some circuit =>
        obtain ⟨_, worker, request, before, asked, _⟩ :=
          step.asks sane free (Option.isSome_of_eq_some found)
        exact absurd asked (settled _ _ _ before)
  exact kept.2.2

theorem Step.exposed (step : Step s marks t) (sane : s.Sane) (calm : .stirred key ∉ marks)
    (exposed : t.Exposed key) : s.Exposed key := by
  obtain ⟨worker', found', decided⟩ := exposed.worker
  obtain ⟨worker, found, same⟩ := step.undecided calm found'
  refine ⟨⟨worker, found, same.trans decided⟩, ?_⟩
  cases before : s.pendingCircuits.get key with
  | some circuit => rfl
  | none =>
    obtain ⟨_, worker₁, _, found₁, _, waits⟩ := step.asks sane before exposed.pending
    cases found.symm.trans found₁
    rw [same, decided] at waits
    cases waits

theorem expireAll_does {P : StreamKey → Prop} {keys : List StreamKey} (apart : keys.Nodup)
    (ready : s.Ready) (allowed : ∀ key ∈ keys, s.Exposed key → P key)
    (onTime : ∀ key, key ∉ keys → s.OnTime now key) :
    ∃ t, forKeys expireHop keys s = some t ∧ Does (inner P) s t ∧ t.Ready ∧
      ∀ key, t.OnTime now key := by
  induction keys generalizing s with
  | nil => exact ⟨s, rfl, .refl _ s, ready, fun key => onTime key not_mem_nil⟩
  | cons key keys ih =>
    obtain ⟨fresh, apart⟩ := nodup_cons.mp apart
    obtain ⟨t, expired, does, ready', ended⟩ := expireHop_does ready key
    have kept (key' : StreamKey) (member : key' ∈ keys) (exposed : t.Exposed key') :
        s.Exposed key' := by
      have other : key' ≠ key := fun here => fresh (here ▸ member)
      have back := does.keeps (I := fun u => u.Sane ∧ (u.Exposed key' → s.Exposed key'))
        ⟨ready.sane, id⟩ fun held step only => ⟨held.1.step step, fun exposed =>
          held.2 (step.exposed held.1 (fun stirred => other (only _ stirred)) exposed)⟩
      exact back.2 exposed
    have inner : Does (inner P) s t := does.mono fun mark only => by
      cases mark with
      | stranded key' => exact only.1 ▸ allowed key mem_cons_self only.2
      | stirred | rewired => rfl
      | _ => exact only
    have onTime' (key' : StreamKey) (other : key' ∉ keys) : t.OnTime now key' := by
      by_cases here : key' = key
      · exact here ▸ ended now
      · exact (onTime key' (by simp [here, other])).does inner fun _ inner => inner.unseen
    obtain ⟨u, rest, does', ready'', last⟩ := ih apart ready' (fun key' member exposed =>
      allowed key' (mem_cons_of_mem _ member) (kept key' member exposed)) onTime'
    exact ⟨u, by simp [forKeys, expired, rest], inner.trans does', ready'', last⟩

theorem closeReservation_does {peerId : PeerId} (held : (s.reservations.get peerId).isSome)
    (reason : ReservationCloseReason) : Does idle s (s.closeReservation peerId reason) :=
  .one (.unreserved reason held) rfl

theorem closeReservations_does {peers : List PeerId} (apart : peers.Nodup)
    (held : ∀ peerId ∈ peers, (s.reservations.get peerId).isSome)
    (reason : ReservationCloseReason) :
    Does idle s (peers.foldl (fun s peerId => s.closeReservation peerId reason) s) := by
  induction peers generalizing s with
  | nil => exact .refl _ s
  | cons peerId peers ih =>
    obtain ⟨fresh, apart⟩ := nodup_cons.mp apart
    refine (closeReservation_does (held peerId mem_cons_self) reason).trans
      (ih apart fun peerId' member => ?_)
    have other : peerId' ≠ peerId := fun here => fresh (here ▸ member)
    simp only [closeReservation, emit, get_remove, if_neg other]
    exact held peerId' (mem_cons_of_mem _ member)

theorem closeCircuit_workers {key' : StreamKey} {reason : CircuitCloseReason} {worker : HopWorker}
    (found : (s.closeCircuit key' reason).hopWorkers.get key = some worker) :
    s.hopWorkers.get key = some worker := by
  cases circuit : s.circuits.get key' with
  | none =>
    rw [closeCircuit, circuit] at found
    exact found
  | some circuit' =>
    rw [hopWorkers_closeCircuit circuit, get_remove] at found
    split at found
    · cases found
    · exact found

theorem closeCircuits_workers (keys : List StreamKey) (reason : CircuitCloseReason) :
    (∀ key worker, (keys.foldl (fun s key => s.closeCircuit key reason) s).hopWorkers.get key =
      some worker → s.hopWorkers.get key = some worker) ∧
    (keys.foldl (fun s key => s.closeCircuit key reason) s).pendingCircuits =
      s.pendingCircuits := by
  induction keys generalizing s with
  | nil => exact ⟨fun _ _ => id, rfl⟩
  | cons key keys ih =>
    obtain ⟨workers, pending⟩ := @ih (s.closeCircuit key reason)
    exact ⟨fun key' worker found => closeCircuit_workers (workers key' worker found),
      pending.trans (pendingCircuits_closeCircuit ..)⟩

theorem closeReservations_hops (peers : List PeerId) (reason : ReservationCloseReason) :
    (peers.foldl (fun s peerId => s.closeReservation peerId reason) s).hopWorkers = s.hopWorkers ∧
    (peers.foldl (fun s peerId => s.closeReservation peerId reason) s).pendingCircuits =
      s.pendingCircuits := by
  induction peers generalizing s with
  | nil => exact ⟨rfl, rfl⟩
  | cons peerId peers ih => exact @ih (s.closeReservation peerId reason)

theorem handleTick_does (ready : s.Ready) (now : Now) :
    ∃ t, s.handleTick now = some t ∧ Does (inner (s.Overdue now)) s t ∧ t.Ready ∧
      ∀ key, t.OnTime now key := by
  obtain ⟨s₀, at₀⟩ : ∃ s₀, s₀ = { s with lastEventTickMs := some now.monotonicMs } := ⟨_, rfl⟩
  have ticked : Does idle s s₀ := by
    rw [at₀]
    exact .quiet (.policy s.accepting s.explicitAddrs s.confirmedAddrs s.listenerAddrs
      (some now.monotonicMs) s.reservationLimiters s.circuitLimiters)
  obtain ⟨s₁, at₁⟩ : ∃ s₁, s₁ =
      (s₀.reservations.keysWhere (fun _ r => r.deadlineMs ≤ now.monotonicMs)).foldl
        (fun s peerId => s.closeReservation peerId .expired) s₀ := ⟨_, rfl⟩
  have expired : Does idle s₀ s₁ := by
    rw [at₁]
    refine closeReservations_does (keysWhere_nodup ..) (fun peerId member => ?_) .expired
    obtain ⟨record, found, _⟩ := mem_keysWhere.mp member
    simp [found]
  have hops := closeReservations_hops (s := s₀)
    (s₀.reservations.keysWhere (fun _ r => r.deadlineMs ≤ now.monotonicMs)) .expired
  rw [← at₁] at hops
  obtain ⟨s₂, at₂⟩ : ∃ s₂, s₂ = (s₁.circuits.keysWhere (fun _ c => due now c.deadlineMs)).foldl
      (fun s key => s.closeCircuit key .durationLimit) s₁ := ⟨_, rfl⟩
  have limited : Does idle s₁ s₂ := by
    rw [at₂]
    exact foldl_does (fun s key => closeCircuit_does s key .durationLimit) _ s₁
  have workers := closeCircuits_workers (s := s₁)
    (s₁.circuits.keysWhere (fun _ c => due now c.deadlineMs)) .durationLimit
  rw [← at₂] at workers
  have before := ticked.trans (expired.trans limited)
  have ready₂ := before.ready ready
  have unexpired (key : StreamKey)
      (absent : key ∉ s₂.hopWorkers.keysWhere (fun _ w => due now w.deadlineMs)) :
      s₂.OnTime now key := by
    intro worker found
    by_contra passed
    exact absent (mem_keysWhere.mpr ⟨worker, found, by simpa using passed⟩)
  obtain ⟨s₃, at₃, does₃, ready₃, onTime⟩ := expireAll_does (P := s.Overdue now)
    (s₂.hopWorkers.keysWhere_nodup (fun _ w => due now w.deadlineMs)) ready₂
    (fun key member exposed => by
      obtain ⟨worker, found, passed⟩ := mem_keysWhere.mp member
      obtain ⟨worker', found', decided⟩ := exposed.worker
      cases found.symm.trans found'
      have pending := exposed.pending
      rw [workers.2, hops.2, at₀] at pending
      have kept := workers.1 key worker found
      rw [hops.1, at₀] at kept
      exact ⟨⟨worker, kept, passed, decided⟩, pending⟩)
    unexpired
  obtain ⟨s₄, at₄, does₄, ready₄⟩ := forKeys_does (P := inner (s.Overdue now))
    (f := fun s key => s.failPendingConnect key .connectionFailed)
    (fun s key ready => by
      obtain ⟨t, failed, does, ready'⟩ :=
        failPendingConnect_does (ready.busy key) (ready.hop key) .connectionFailed
      exact ⟨t, failed, does.mono fun _ within => within.steady.inner _, ready'⟩)
    (s₃.pendingCircuits.keysWhere (fun _ c => due now c.stopDeadlineMs)) ready₃
  obtain ⟨reservationLimiters, swept⟩ := s₄.reservationLimiters.sweep_returns now.monotonicMs
  obtain ⟨circuitLimiters, swept'⟩ := s₄.circuitLimiters.sweep_returns now.monotonicMs
  have last : Does idle s₄ { s₄ with reservationLimiters, circuitLimiters } :=
    .quiet (.policy s₄.accepting s₄.explicitAddrs s₄.confirmedAddrs s₄.listenerAddrs
      s₄.lastEventTickMs reservationLimiters circuitLimiters)
  refine ⟨{ s₄ with reservationLimiters, circuitLimiters }, ?_, ?_, last.ready ready₄,
    fun key worker found => (onTime key).does does₄ (fun _ inner => inner.unseen) worker found⟩
  · rw [handleTick, ← at₀]
    rw [← at₁, ← at₂]
    simp only [at₃, at₄, swept, swept', Option.bind_eq_bind, Option.bind_some, pure]
  · exact (before.mono fun _ idle => idle.steady.inner _).trans
      (does₃.trans (does₄.trans (last.mono fun _ idle => idle.steady.inner _)))

theorem tickBeforeEvent_does (ready : s.Ready) (now : Now) :
    ∃ t, s.tickBeforeEvent now = some t ∧ Does (inner (s.Overdue now)) s t ∧ t.Ready := by
  unfold tickBeforeEvent
  split
  · obtain ⟨t, ticked, does, ready', _⟩ := handleTick_does ready now
    exact ⟨t, ticked, does, ready'⟩
  · exact ⟨s, rfl, .refl _ s, ready⟩

end Agent

end RelayServer
