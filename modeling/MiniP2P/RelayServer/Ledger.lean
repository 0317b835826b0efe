import MiniP2P.RelayServer.Bound
import MiniP2P.RelayServer.Limits
import MiniP2P.RelayServer.Tokens

/-! What the events add up to. A ledger takes the entries of a run in order and refuses one
that is out of place: a reservation is accepted, renewed while it is held and closed once,
and a circuit is opened, paid for and closed once, with the bytes that were paid. -/
namespace RelayServer
open Collections Core Identity Relay List BTreeMap Function Mark

structure Account where
  source : PeerId
  destination : PeerId
  paid : CircuitByteCounts := {}
  deriving DecidableEq

/-- The counters of the source, which stop at the largest 64-bit number. -/
def CircuitByteCounts.add (c : CircuitByteCounts) (bytes : Nat) :
    CircuitDirection → CircuitByteCounts
  | .sourceToDestination =>
    { c with sourceToDestination := saturatingAdd c.sourceToDestination bytes }
  | .destinationToSource =>
    { c with destinationToSource := saturatingAdd c.destinationToSource bytes }

namespace Account

def pay (a : Account) (bytes : Nat) : CircuitDirection → Account
  | .sourceToDestination =>
    { a with paid.sourceToDestination := a.paid.sourceToDestination + bytes }
  | .destinationToSource =>
    { a with paid.destinationToSource := a.paid.destinationToSource + bytes }

/-- The sums as the counters of the source hold them. -/
def counts (a : Account) : CircuitByteCounts :=
  ⟨min a.paid.sourceToDestination u64Max, min a.paid.destinationToSource u64Max⟩

end Account

open Account

structure Ledger where
  reserved : PeerId → Bool := fun _ => false
  circuits : StreamKey → Option Account := fun _ => none

namespace Ledger

def post (ledger : Ledger) : Mark → Option Ledger
  | .accepted peerId renewed _ =>
    if ledger.reserved peerId = renewed then
      some { ledger with reserved := update ledger.reserved peerId true }
    else none
  | .ended peerId _ =>
    if ledger.reserved peerId = true then
      some { ledger with reserved := update ledger.reserved peerId false }
    else none
  | .opened key source destination =>
    match ledger.circuits key with
    | some _ => none
    | none =>
      some { ledger with
        circuits := update ledger.circuits key (some { source, destination }) }
  | .paid key direction bytes =>
    match ledger.circuits key with
    | none => none
    | some account =>
      some { ledger with
        circuits := update ledger.circuits key (some (account.pay bytes direction)) }
  | .closed key source destination bytes _ =>
    match ledger.circuits key with
    | none => none
    | some account =>
      if account.source = source ∧ account.destination = destination ∧ account.counts = bytes then
        some { ledger with circuits := update ledger.circuits key none }
      else none
  | .noted event => if event.isReport = true then some ledger else none
  | _ => some ledger

def replay (ledger : Ledger) : List Mark → Option Ledger
  | [] => some ledger
  | mark :: marks => (ledger.post mark).bind (·.replay marks)

theorem replay_append (ledger : Ledger) (marks marks' : List Mark) :
    ledger.replay (marks ++ marks') = (ledger.replay marks).bind (·.replay marks') := by
  induction marks generalizing ledger with
  | nil => rfl
  | cons mark marks ih => simp [replay, Option.bind_assoc, ih]

end Ledger

open Ledger

namespace Agent

def statement (s : Agent) (key : StreamKey) : Option (PeerId × PeerId × CircuitByteCounts) :=
  (s.circuits.get key).map (fun c => (c.sourcePeerId, c.destinationPeerId, c.bytes))

end Agent

def Account.statement (a : Account) : PeerId × PeerId × CircuitByteCounts :=
  (a.source, a.destination, a.counts)

structure Ledger.Matches (ledger : Ledger) (s : Agent) : Prop where
  reservations : ledger.reserved = s.hasReservation
  circuits : Option.map Account.statement ∘ ledger.circuits = s.statement

theorem Account.statement_pay (a : Account) (bytes : Nat) (direction : CircuitDirection) :
    (a.pay bytes direction).statement =
      (a.statement.1, a.statement.2.1, a.statement.2.2.add bytes direction) := by
  cases direction with
  | sourceToDestination | destinationToSource =>
    simp only [Account.statement, pay, counts, CircuitByteCounts.add, saturatingAdd]
    congr 3
    omega

variable {ledger : Ledger} {s t : Agent} {marks : List Mark} {key : StreamKey}

theorem Ledger.Matches.account (agrees : ledger.Matches s) (key : StreamKey) :
    (ledger.circuits key).map Account.statement = s.statement key :=
  congrFun agrees.circuits key

def Mark.recounts : Mark → Bool
  | .opened .. | .paid .. | .closed .. => true
  | _ => false

def Mark.payment : Mark → Option (StreamKey × CircuitDirection × Nat)
  | .paid key direction bytes => some (key, direction, bytes)
  | _ => none

theorem Ledger.replay_aside (ledger : Ledger) (regrants : ∀ mark ∈ marks, mark.regrants = false)
    (recounts : ∀ mark ∈ marks, mark.recounts = false)
    (reports : ∀ event, .noted event ∈ marks → event.isReport = true) :
    ledger.replay marks = some ledger := by
  induction marks with
  | nil => rfl
  | cons mark marks ih =>
    have here : ledger.post mark = some ledger := by
      have first := mem_cons_self (a := mark) (l := marks)
      cases mark with
      | accepted | ended => cases regrants _ first
      | opened | paid | closed => cases recounts _ first
      | noted event => exact if_pos (reports event first)
      | _ => rfl
    rw [replay, here]
    exact ih (fun mark member => regrants mark (mem_cons_of_mem _ member))
      (fun mark member => recounts mark (mem_cons_of_mem _ member))
      (fun event member => reports event (mem_cons_of_mem _ member))

namespace Agent

/-- An echoed forward pays for the data last queued under its token. -/
def paidBy (s : Agent) (queued : List RelayServerAction) :
    Call → List (StreamKey × CircuitDirection × Nat)
  | .sendResult token (.ok ()) _ =>
    match s.pendingOperations.get token, lastUnder token queued with
    | some (.send _ (.forward key direction _)), some (.sendStream _ _ _ data) =>
      [(key, direction, min data.length u64Max)]
    | _, _ => []
  | _ => []

/-- The entries of a call are the events it emits and the payments it brings. The host has taken
some actions before. -/
structure Books (taken : List RelayServerAction) (s : Agent) (call : Call)
    (answer : Answer) (t : Agent) (entries : List Mark) : Prop where
  events : answer.polled ++ t.events = s.events ++ entries.filterMap event
  payments : entries.filterMap payment = s.paidBy (taken ++ s.actions) call

inductive Booked : List RelayServerAction → Agent → List Call → List Mark → Agent → Prop where
  | nil (taken : List RelayServerAction) (s : Agent) : Booked taken s [] [] s
  | cons {taken : List RelayServerAction} {s t u : Agent} {call : Call} {answer : Answer}
      {calls : List Call} {entries rest : List Mark} : s.call call = some (answer, t) →
      Books taken s call answer t entries → Booked (taken ++ answer.taken) t calls rest u →
      Booked taken s (call :: calls) (entries ++ rest) u

/-! ### Events -/

theorem Step.events (step : Step s marks t) :
    marks.filterMap polled ++ t.events = s.events ++ marks.filterMap event := by
  have still (events : t.events = s.events) (unread : marks.filterMap polled = [])
      (silent : marks.filterMap event = []) :
      marks.filterMap polled ++ t.events = s.events ++ marks.filterMap event := by
    rw [events, unread, silent, nil_append, append_nil]
  cases step with
  | unreserved | noted | reserved | closed => rfl
  | read queue =>
    rw [queue]
    exact (append_nil _).symm
  | replied _ _ reply =>
    cases reply with
    | _ => exact still rfl rfl rfl
  | committed now _ before known => exact (committed_opens _ now before known).events
  | arrived arrival =>
    cases arrival with
    | _ =>
      exact still rfl rfl rfl
  | _ =>
    exact still rfl rfl rfl

theorem Trace.events (run : Transition.Trace Step s marks t) :
    marks.filterMap polled ++ t.events = s.events ++ marks.filterMap event := by
  induction run with
  | nil => simp
  | cons step _ ih =>
    rw [filterMap_append, filterMap_append, append_assoc, ih, ← append_assoc,
      step.events, append_assoc]

/-! ### Forwards -/

/-- A send is on its way only for a circuit that is open. -/
def Forwards (s : Agent) : Prop :=
  ∀ token peerId key direction bytes,
    s.pendingOperations.get token = some (.send peerId (.forward key direction bytes)) →
    (s.circuits.get key).isSome

inductive Recounts (s t : Agent) : List Mark → Prop where
  | same {marks : List Mark} : t.statement = s.statement →
      (∀ mark ∈ marks, mark.recounts = false) → Recounts s t marks
  | opened {token : RelayServerToken} {key : StreamKey} {source destination : PeerId} :
      t.statement = update s.statement key (some (source, destination, {})) →
      Recounts s t [.echoed token, .opened key source destination]
  | paid {token : RelayServerToken} {peerId : PeerId} {key : StreamKey}
      {direction : CircuitDirection} {bytes : Nat} :
      s.pendingOperations.get token = some (.send peerId (.forward key direction bytes)) →
      t.statement = update s.statement key ((s.statement key).map fun statement =>
        (statement.1, statement.2.1, statement.2.2.add bytes direction)) →
      Recounts s t [.echoed token, .paid key direction bytes]
  | closed {key : StreamKey} {source destination : PeerId} {bytes : CircuitByteCounts}
      {reason : CircuitCloseReason} :
      s.statement key = some (source, destination, bytes) →
      t.statement = update s.statement key none →
      (∀ token peerId direction bytes, t.pendingOperations.get token ≠
        some (.send peerId (.forward key direction bytes))) →
      Recounts s t [.closed key source destination bytes reason]

theorem statement_eq (s : Agent) : s.statement =
    Option.map (fun c => (c.sourcePeerId, c.destinationPeerId, c.bytes)) ∘ s.circuits.get := rfl

theorem statement_insert {circuit : Circuit} (after : t.circuits = s.circuits.insert key circuit) :
    t.statement = update s.statement key
      (some (circuit.sourcePeerId, circuit.destinationPeerId, circuit.bytes)) := by
  rw [statement_eq, after, get_insert_update, comp_update]
  rfl

theorem statement_alter {old new : Circuit} (before : s.circuits.get key = some old)
    (after : t.circuits = s.circuits.insert key new)
    (same : (new.sourcePeerId, new.destinationPeerId, new.bytes) =
      (old.sourcePeerId, old.destinationPeerId, old.bytes)) : t.statement = s.statement := by
  rw [statement_insert after, same]
  refine update_eq_self_iff.mpr ?_
  rw [statement, before]
  rfl

theorem Step.recounts (step : Step s marks t) : Recounts s t marks := by
  cases step with
  | replied _ _ reply =>
    cases reply with
    | _ => exact .same rfl (by simp)
  | bridged _ _ _ found =>
    exact .same (statement_alter found rfl rfl) (by simp)
  | @eof _ _ _ leg found =>
    exact .same (statement_alter found rfl (by cases leg <;> rfl)) (by simp [recounts])
  | writeClosed leg found =>
    exact .same (statement_alter found rfl (by cases leg <;> rfl)) (by simp)
  | @paid token peerId key direction bytes filed =>
    refine .paid filed ?_
    cases found : s.circuits.get key with
    | none =>
      have nothing : s.statement key = none := by rw [statement, found]; rfl
      have same : ((s.takeOperation token).credit key direction bytes).statement = s.statement := by
        funext key'
        rw [credit, show (s.takeOperation token).circuits.get key = _ from found]
        rfl
      rw [same, nothing, Option.map_none, ← nothing, update_eq_self]
    | some circuit =>
      have after : ((s.takeOperation token).credit key direction bytes).circuits =
          s.circuits.insert key (circuit.accept bytes direction).2 := by
        simp only [credit, show (s.takeOperation token).circuits.get key = _ from found]
        rfl
      rw [statement_insert after, statement, found]
      cases direction with
      | sourceToDestination | destinationToSource => rfl
  | @closed key circuit reason found =>
    refine .closed (by rw [statement, found]; rfl) ?_ fun token peerId direction bytes filed => ?_
    · have after : (s.dropCircuit key circuit reason).circuits = s.circuits.remove key := rfl
      rw [statement_eq, after, get_remove_update, comp_update]
      rfl
    · have kept := (operation_cancelWhere filed).2
      simp [isForwardOp] at kept
  | committed now _ before known =>
    obtain ⟨deadlineMs, circuits⟩ := (committed_opens _ now before known).circuits
    exact .opened (statement_insert circuits)
  | arrived arrival =>
    cases arrival with
    | source _ _ found | destination _ _ _ _ found =>
      exact .same (statement_alter found rfl rfl) (by simp [recounts])
    | _ => exact .same rfl (by simp [recounts])
  | _ =>
    exact .same rfl (by simp [recounts])

theorem isSome_statement (s : Agent) (key : StreamKey) :
    (s.statement key).isSome = (s.circuits.get key).isSome := Option.isSome_map

theorem Forwards.step (forwards : s.Forwards) (step : Step s marks t) : t.Forwards := by
  intro token peerId key direction bytes filed
  rcases step.operation filed with old | new
  · have live := forwards _ _ _ _ _ old
    rw [← isSome_statement] at live ⊢
    cases step.recounts with
    | same statement => rwa [statement]
    | @opened _ key' _ _ statement =>
      rw [statement, update_apply]
      split
      · rfl
      · exact live
    | @paid _ _ key' _ _ _ statement =>
      rw [statement, update_apply]
      split
      · rename_i here
        rw [Option.isSome_map, ← here]
        exact live
      · exact live
    | @closed key' _ _ _ _ _ statement cancelled =>
      rw [statement, update_apply]
      split
      · rename_i here
        exact absurd (here ▸ filed) (cancelled _ _ _ _)
      · exact live
  · cases new with
    | inert inert => cases inert
    | forward live => exact live

/-! ### Posting -/

structure Audited (ledger : Ledger) (s : Agent) : Prop where
  agrees : ledger.Matches s
  bound : s.Bound
  forwards : s.Forwards

theorem hasReservation_eq (s : Agent) :
    s.hasReservation = Option.isSome ∘ s.reservations.get := rfl

theorem hasReservation_insert {peerId : PeerId} {record : ReservationRecord}
    (after : t.reservations = s.reservations.insert peerId record) :
    t.hasReservation = update s.hasReservation peerId true := by
  rw [hasReservation_eq, after, get_insert_update, comp_update]
  rfl

theorem hasReservation_remove {peerId : PeerId}
    (after : t.reservations = s.reservations.remove peerId) :
    t.hasReservation = update s.hasReservation peerId false := by
  rw [hasReservation_eq, after, get_remove_update, comp_update]
  rfl

theorem Step.reports (step : Step s marks t) {event : RelayServerEvent}
    (noted : .noted event ∈ marks) : event.isReport = true := by
  cases step with
  | noted report =>
    cases mem_singleton.mp noted
    exact report
  | arrived arrival =>
    cases arrival with
    | _ => simp at noted
  | _ => simp at noted

theorem Audited.step (audited : Audited ledger s) (step : Step s marks t)
    (renewals : ∀ peerId expires, .accepted peerId true expires ∈ marks →
      s.hasReservation peerId = true)
    (openings : ∀ key source destination, .opened key source destination ∈ marks →
      s.circuits.get key = none) :
    ∃ ledger', ledger.replay marks = some ledger' ∧ Audited ledger' t := by
  obtain ⟨agrees, bound, forwards⟩ := audited
  have audit {ledger' : Ledger} (agrees : ledger'.Matches t) : Audited ledger' t :=
    ⟨agrees, bound.step step, forwards.step step⟩
  have calm (reservations : t.reservations = s.reservations)
      (regrants : ∀ mark ∈ marks, mark.regrants = false) :
      ∃ ledger', ledger.replay marks = some ledger' ∧ Audited ledger' t := by
    have held : ledger.reserved = t.hasReservation := by
      rw [agrees.reservations, hasReservation_eq, hasReservation_eq, reservations]
    cases step.recounts with
    | same statement recounts =>
      exact ⟨ledger, ledger.replay_aside regrants recounts (fun _ => step.reports),
        audit ⟨held, statement ▸ agrees.circuits⟩⟩
    | @opened token key source destination statement =>
      have free : ledger.circuits key = none := by
        have account := agrees.account key
        rw [Agent.statement, openings key source destination (by simp)] at account
        exact Option.map_eq_none_iff.mp account
      refine ⟨{ ledger with
        circuits := update ledger.circuits key (some { source, destination }) }, ?_,
        audit ⟨held, ?_⟩⟩
      · simp [replay, post, free]
      · rw [comp_update, agrees.circuits, statement]
        rfl
    | @paid token peerId key direction bytes filed statement =>
      have live := forwards _ _ _ _ _ filed
      rw [← isSome_statement, ← agrees.account, Option.isSome_map] at live
      obtain ⟨account, found⟩ := Option.isSome_iff_exists.mp live
      refine ⟨{ ledger with
        circuits := update ledger.circuits key (some (account.pay bytes direction)) }, ?_,
        audit ⟨held, ?_⟩⟩
      · simp [replay, post, found]
      · rw [comp_update, agrees.circuits, statement, ← agrees.account, found,
          Option.map_some, statement_pay]
        rfl
    | @closed key source destination bytes reason before statement =>
      have account := agrees.account key
      rw [before] at account
      obtain ⟨account, found, same⟩ := Option.map_eq_some_iff.mp account
      simp only [Account.statement, Prod.mk.injEq] at same
      refine ⟨{ ledger with circuits := update ledger.circuits key none }, ?_,
        audit ⟨held, ?_⟩⟩
      · simp [replay, post, found, same]
      · rw [comp_update, agrees.circuits, statement]
        rfl
  cases step.rebinds with
  | same _ reservations regrants => exact calm reservations regrants
  | addressed _ _ _ reservations | established _ _ _ reservations | departed _ reservations =>
    exact calm reservations (by simp [regrants])
  | @unreserved peerId reason held _ reservations =>
    have reserved : ledger.reserved peerId = true := by rw [agrees.reservations]; exact held
    cases step.recounts with
    | same statement =>
      refine ⟨{ ledger with reserved := update ledger.reserved peerId false }, ?_,
        audit ⟨?_, statement ▸ agrees.circuits⟩⟩
      · simp [replay, post, reserved]
      · rw [hasReservation_remove reservations, agrees.reservations]
  | @reserved token peerId pending filed live _ _ reservations =>
    have reserved : ledger.reserved pending.peerId = pending.renewed := by
      rw [agrees.reservations]
      cases renewed : pending.renewed with
      | true => exact renewals pending.peerId pending.expiresUnixSecs (by simp [renewed])
      | false =>
        rw [hasReservation, BTreeMap.containsKey, bound.vacant filed live renewed]
        rfl
    cases step.recounts with
    | same statement =>
      refine ⟨{ ledger with reserved := update ledger.reserved pending.peerId true }, ?_,
        audit ⟨?_, statement ▸ agrees.circuits⟩⟩
      · simp [replay, post, reserved]
      · rw [hasReservation_insert reservations, agrees.reservations]

/-! ### Runs -/

/-- The call commits a renewal whose reservation has ended, or a circuit on the stream of
another one. -/
def misleads (s : Agent) : Call → Bool
  | .sendResult token (.ok ()) _ =>
    match s.pendingOperations.get token with
    | some (.send _ (.commitReservation pending)) =>
      pending.renewed && s.live pending && !s.hasReservation pending.peerId
    | some (.send _ (.commitCircuit key)) => s.circuits.containsKey key
    | _ => false
  | _ => false

theorem opened_outward {call : Call} {source destination : PeerId}
    (member : .opened key source destination ∈ s.outward call) :
    ∃ token now sender, call = .sendResult token (.ok ()) now ∧
      s.pendingOperations.get token = some (.send sender (.commitCircuit key)) := by
  obtain ⟨token, now, sender, effect, rfl, filed, member⟩ := outward_commits member rfl
  cases effect with
  | commitCircuit key' =>
    simp only [commits] at member
    split at member
    · cases member
    · cases mem_singleton.mp member
      exact ⟨token, now, sender, rfl, filed⟩
  | _ => simp [commits] at member

theorem Audited.trace (audited : Audited ledger s) (run : Transition.Trace Step s marks t)
    (unseen : ∀ mark ∈ marks, mark.outer = false) :
    ∃ ledger', ledger.replay marks = some ledger' ∧ Audited ledger' t := by
  induction run generalizing ledger with
  | nil => exact ⟨ledger, rfl, audited⟩
  | cons step _ ih =>
    obtain ⟨ledger₁, posted, audited⟩ := audited.step step
      (fun _ _ member => by cases unseen _ (mem_append_left _ member))
      (fun _ _ _ member => by cases unseen _ (mem_append_left _ member))
    obtain ⟨ledger', replayed, audited⟩ :=
      ih audited (fun mark member => unseen mark (mem_append_right _ member))
    exact ⟨ledger', by rw [replay_append, posted, Option.bind_some, replayed], audited⟩

variable {taken : List RelayServerAction}

theorem pays_payment (posted : Posted taken s) (token : RelayServerToken)
    (result : Except String Unit) (now : Now) : (s.pays token result).filterMap payment =
      s.paidBy (taken ++ s.actions) (.sendResult token result now) := by
  cases filed : s.pendingOperations.get token with
  | none =>
    cases result with
    | error | ok => simp [pays, paidBy, filed]
  | some op =>
    cases result with
    | error => simp [pays, paidBy, filed]
    | ok =>
      cases op with
      | send sender effect =>
        cases effect with
        | completeHop | stopRequest => simp [pays, commits, paidBy, filed]
        | forward =>
          obtain ⟨action, last, suits⟩ := posted token _ filed
          cases action with
          | sendStream =>
            rw [show _ = min _ _ from suits] at filed
            simp [pays, commits, paidBy, filed, payment, last]
          | _ => exact suits.elim
        | commitReservation | commitCircuit =>
          simp only [pays, commits, paidBy, filed]
          split <;> rfl
      | _ => simp [pays, paidBy, filed]

theorem outward_payment (posted : Posted taken s) (call : Call) :
    (s.outward call).filterMap payment = s.paidBy (taken ++ s.actions) call := by
  cases call with
  | sendResult token result now => exact pays_payment posted token result now
  | _ =>
    refine filterMap_eq_nil_iff.mpr fun mark member => ?_
    rcases outward_cases member with ⟨-, kind⟩ | ⟨_, _, _, same, -⟩
    · cases mark with
      | paid => cases kind
      | _ => rfl
    · cases same

theorem unseen_books (unseen : ∀ mark ∈ marks, mark.outer = false) :
    marks.filterMap polled = [] ∧ marks.filterMap payment = [] ∧ marks.filterMap takes = [] := by
  refine ⟨filterMap_eq_nil_iff.mpr fun mark member => ?_,
    filterMap_eq_nil_iff.mpr fun mark member => ?_, unseen_takes unseen⟩
  · cases mark with
    | read => cases unseen _ member
    | _ => rfl
  · cases mark with
    | paid => cases unseen _ member
    | _ => rfl

theorem Audited.call {call : Call} {answer : Answer} (audited : Audited ledger s)
    (posted : Posted taken s) (answered : s.call call = some (answer, t)) (serves : Serves s call t)
    (honest : s.misleads call = false) :
    ∃ entries ledger', Books taken s call answer t entries ∧ ledger.replay entries = some ledger' ∧
      Audited ledger' t ∧ Posted (taken ++ answer.taken) t := by
  obtain ⟨polled, took⟩ := outward_answer answered
  have payments := outward_payment posted call
  cases serves with
  | quiet silent does =>
    obtain ⟨marks, run, inner⟩ := does
    have unseen : ∀ mark ∈ marks, mark.outer = false :=
      fun mark member => (inner mark member).unseen
    obtain ⟨unread, unpaid, untaken⟩ := unseen_books unseen
    obtain ⟨ledger', replayed, audited⟩ := audited.trace run unseen
    have posted := posted.trace run
    rw [silent] at polled took payments
    refine ⟨marks, ledger', ⟨?_, ?_⟩, replayed, audited, ?_⟩
    · rw [← polled, ← Trace.events run, unread]
      rfl
    · rw [unpaid, ← payments]
      rfl
    · rw [← took]
      rwa [untaken] at posted
  | @shows s₁ preceded before ready shows =>
    rw [outward_preceded preceded] at shows
    obtain ⟨first, run₁, inner⟩ := before
    obtain ⟨rest, s₂, step, steady, last, run₂, only⟩ := shows
    have unseen₁ : ∀ mark ∈ first, mark.outer = false :=
      fun mark member => (inner mark member).unseen
    have unseen : ∀ mark ∈ rest, mark.outer = false :=
      fun mark member => (steady mark member).unseen
    have unseen₂ : ∀ mark ∈ last, mark.outer = false := fun mark member => (only mark member).unseen
    obtain ⟨ledger₁, replayed₁, audited⟩ := audited.trace run₁ unseen₁
    obtain ⟨ledger₂, replayed, audited⟩ := audited.step step
      (fun peerId expires member => by
        obtain ⟨token, now, sender, pending, rfl, filed, live, rfl, renewed⟩ :=
          accepted_outward (seen_outward steady rfl member)
        cases preceded
        simpa [misleads, filed, live, renewed] using honest)
      (fun key source destination member => by
        obtain ⟨token, now, sender, rfl, filed⟩ := opened_outward (seen_outward steady rfl member)
        cases preceded
        simpa [misleads, filed, BTreeMap.containsKey] using honest)
    obtain ⟨ledger', replayed₂, audited⟩ := audited.trace run₂ unseen₂
    have run := (run₁.append (.single step)).append run₂
    have posted := posted.trace run
    refine ⟨first ++ (s.outward call ++ rest) ++ last, ledger', ⟨?_, ?_⟩, ?_, audited, ?_⟩
    · rw [← Trace.events run]
      simp [polled, unseen_books unseen₁, unseen_books unseen, unseen_books unseen₂]
    · simp [payments, unseen_books unseen₁, unseen_books unseen, unseen_books unseen₂]
    · rw [replay_append, replay_append, replayed₁, Option.bind_some, replayed,
        Option.bind_some, replayed₂]
    · simpa [took, unseen_books unseen₁, unseen_books unseen, unseen_books unseen₂] using posted

def blocks (peerId : PeerId) : Bool → List RelayServerEvent → Option Bool
  | held, [] => some held
  | held, .reservationAccepted other renewed _ :: events =>
    if other = peerId then
      if held = renewed then blocks peerId true events else none
    else blocks peerId held events
  | held, .reservationClosed other _ :: events =>
    if other = peerId then
      if held = true then blocks peerId false events else none
    else blocks peerId held events
  | held, _ :: events => blocks peerId held events

def reported (log : List (Call × Answer)) (s : Agent) : List RelayServerEvent :=
  log.flatMap (fun entry => entry.2.polled) ++ s.events

theorem replay_blocks {ledger' : Ledger} {entries : List Mark}
    (replayed : ledger.replay entries = some ledger') (peerId : PeerId) :
    blocks peerId (ledger.reserved peerId) (entries.filterMap event) =
      some (ledger'.reserved peerId) := by
  induction entries generalizing ledger with
  | nil =>
    cases replayed
    rfl
  | cons mark entries ih =>
    obtain ⟨ledger₁, posted, replayed⟩ := Option.bind_eq_some_iff.mp replayed
    have rest := ih replayed
    cases mark with
    | accepted other renewed expires | ended other reason =>
      simp only [post] at posted
      split at posted
      · rename_i inOrder
        cases posted
        by_cases here : other = peerId
        · subst here
          simpa [event, blocks, inOrder] using rest
        · simpa [event, blocks, here, Ne.symm here] using rest
      · cases posted
    | opened key source destination =>
      simp only [post] at posted
      split at posted
      · cases posted
      · cases posted
        simpa [event, blocks] using rest
    | paid key direction bytes =>
      simp only [post] at posted
      split at posted
      · cases posted
      · cases posted
        exact rest
    | closed key source destination bytes reason =>
      simp only [post] at posted
      split at posted
      · cases posted
      · split at posted
        · cases posted
          simpa [event, blocks] using rest
        · cases posted
    | noted event =>
      simp only [post] at posted
      split at posted
      · rename_i report
        cases posted
        cases event with
        | reservationDenied | circuitDenied | error => simpa [event, blocks] using rest
        | _ => cases report
      · cases posted
    | _ =>
      cases posted
      exact rest

theorem Booked.run {calls : List Call} {entries : List Mark}
    (booked : Booked taken s calls entries t) :
    ∃ log, Machine.run Agent.call s calls = some (log, t) ∧
      reported log t = s.events ++ entries.filterMap event := by
  induction booked with
  | nil _ s => exact ⟨[], rfl, by simp [reported]⟩
  | @cons _ s t u call answer calls entries rest answered books _ ih =>
    obtain ⟨log, runs, same⟩ := ih
    refine ⟨(call, answer) :: log, by simp [Machine.run, answered, runs], ?_⟩
    rw [reported, flatMap_cons, append_assoc, ← reported, same, ← append_assoc,
      books.events, append_assoc, filterMap_append]

/-- The reservations and circuits of a run, as its events tell them. -/
structure Lifecycle (s₀ : Agent) (calls : List Call) (log : List (Call × Answer)) (s : Agent) :
    Prop where
  reservations : ∀ peerId, blocks peerId false (reported log s) = some (s.hasReservation peerId)
  circuits : ∃ entries ledger, Booked [] s₀ calls entries s ∧
    replay {} entries = some ledger ∧ ledger.Matches s

theorem Audited.along (audited : Audited ledger s) (posted : Posted taken s) (ready : s.Ready)
    {calls : List Call}
    (honest : Machine.Along Agent.call (fun s call => s.misleads call = false) s calls) :
    ∃ entries t ledger', Booked taken s calls entries t ∧ ledger.replay entries = some ledger' ∧
      ledger'.Matches t := by
  induction calls generalizing ledger taken s with
  | nil => exact ⟨[], s, ledger, .nil taken s, rfl, audited.agrees⟩
  | cons call calls ih =>
    obtain ⟨here, later⟩ := honest
    obtain ⟨answer, t, answered, serves, ready⟩ := call_serves ready call
    obtain ⟨entries, ledger₁, books, replayed₁, audited, posted⟩ :=
      audited.call posted answered serves here
    rw [answered] at later
    obtain ⟨rest, u, ledger', booked, replayed, agrees⟩ := ih audited posted ready later
    exact ⟨entries ++ rest, u, ledger', .cons answered books booked,
      by rw [replay_append, replayed₁, Option.bind_some, replayed], agrees⟩

theorem new_audited {localPeerId : PeerId} {config : RelayServerConfig}
    (created : Agent.new localPeerId config = .ok s) :
    Audited {} s ∧ Posted [] s ∧ s.events = [] := by
  unfold Agent.new at created
  generalize config.checked = checked at created
  cases checked with
  | error e => cases created
  | ok valid =>
    cases created
    refine ⟨⟨⟨rfl, rfl⟩, ⟨?_, ?_, ?_, ?_⟩, ?_⟩, ?_, rfl⟩
    · intro _ _ _ _ found
      cases found
    · intro _ _ _ found
      cases found
    · intro _ _ _ _ filed
      cases filed
    · intro _ _ _ _ _ _ filed
      cases filed
    · intro _ _ _ _ _ filed
      cases filed
    · intro _ _ filed
      cases filed

theorem lifecycle_holds {localPeerId : PeerId} {config : RelayServerConfig} {s₀ : Agent}
    (created : Agent.new localPeerId config = .ok s₀) {calls : List Call}
    (honest : Machine.Along Agent.call (fun s call => s.misleads call = false) s₀ calls) :
    ∃ log s, Machine.run Agent.call s₀ calls = some (log, s) ∧ Lifecycle s₀ calls log s := by
  obtain ⟨audited, posted, silent⟩ := new_audited created
  obtain ⟨entries, s, ledger, booked, replayed, agrees⟩ :=
    audited.along posted (new_ready created).1 honest
  obtain ⟨log, runs, same⟩ := booked.run
  refine ⟨log, s, runs, fun peerId => ?_, entries, ledger, booked, replayed, agrees⟩
  have blocks := replay_blocks replayed peerId
  rwa [same, silent, ← agrees.reservations]

theorem renewal_reopens : ∃ log s,
    Agent.new relayPeer oneReservation = .ok oneReservationAgent ∧
      Machine.run Agent.call oneReservationAgent lapsedRenewal = some (log, s) ∧
      ¬ Lifecycle oneReservationAgent lapsedRenewal log s := by
  have evaluated : (Machine.run Agent.call oneReservationAgent lapsedRenewal).any (fun r =>
      decide (blocks alice false (reported r.1 r.2) = none)) = true := by
    decide +kernel
  obtain ⟨⟨log, s⟩, runs, broken⟩ := (Option.any_eq_true _ _).mp evaluated
  refine ⟨log, s, oneReservationAgent_created, runs, fun lifecycle => ?_⟩
  cases (of_decide_eq_true broken).symm.trans (lifecycle.reservations alice)

theorem lifecycle_holds_until_renewal : ∃ log s,
    Machine.run Agent.call oneReservationAgent lapsedRenewal.dropLast = some (log, s) ∧
      Lifecycle oneReservationAgent lapsedRenewal.dropLast log s :=
  lifecycle_holds oneReservationAgent_created (by decide +kernel)

end Agent

end RelayServer
