import MiniP2P.RelayServer.Events

/-! Every call returns. It is the work of a tick, where the call brings a time, one step
that the host sees, and the work that step causes. -/
namespace RelayServer
open Collections Core Framing Identity Relay List Agent Step Mark

def Mark.isCommit : Mark → Bool
  | .accepted .. | .opened .. | .paid .. => true
  | _ => false

def Mark.polled : Mark → Option RelayServerEvent
  | .read event => some event
  | _ => none

def Mark.takes : Mark → Option RelayServerAction
  | .taken action _ => some action
  | _ => none

variable {s : Agent} {token : RelayServerToken} {peerId : PeerId} {call : Call}

namespace Agent

def Answer.polled : Answer → List RelayServerEvent
  | .event polled => polled.toList
  | _ => []

def Answer.taken : Answer → List RelayServerAction
  | .action polled => polled.toList
  | _ => []

/-! ### Results -/

variable {mark : Mark} {t : Agent}

theorem resolved_shows (ready : s.Ready) (token : RelayServerToken)
    (does : Does Mark.idle (s.takeOperation token) t) : Shows [.echoed token] s t ∧ t.Ready :=
  ⟨.alone (.resolved token) (does.mono fun _ idle => idle.steady),
    does.ready (ready.step (.resolved token) (by simp))⟩

theorem resolved_fails {s₁ : Agent} (ready : s.Ready) (token : RelayServerToken)
    (does : Does Mark.idle (s.takeOperation token) s₁) (key : StreamKey) (status : Status) :
    ∃ t, s₁.failPendingConnect key status = some t ∧ Shows [.echoed token] s t ∧ t.Ready := by
  obtain ⟨shows, ready₁⟩ := resolved_shows ready token does
  obtain ⟨t, failed, does', ready'⟩ :=
    failPendingConnect_does (ready₁.busy key) (ready₁.hop key) status
  exact ⟨t, failed, shows.trans (does'.mono fun _ within => within.steady), ready'⟩

def joins (s : Agent) (token : RelayServerToken) (result : Except String StreamKey) : List Mark :=
  match s.pendingOperations.get token, result with
  | some (.openStop _ _ connId), .ok stream =>
    if stream.connId = connId then [.joined stream] else []
  | _, _ => []

theorem startStop_shows (ready : s.Ready) {key : StreamKey} {connId : ConnectionId}
    (filed : s.pendingOperations.get token = some (.openStop key peerId connId))
    (stream : StreamKey) :
    Shows [.echoed token, .joined stream] s ((s.takeOperation token).startStop key peerId stream) ∧
      ((s.takeOperation token).startStop key peerId stream).Ready := by
  obtain ⟨circuit, found, idle⟩ := ready.sane.opening _ _ _ _ filed
  unfold startStop
  rw [show (s.takeOperation token).pendingCircuits.get key = some circuit from found]
  have step := @linked s token peerId connId key stream circuit
    { StopInitiator.new circuit.sourcePeerId (some s.circuitLimit) with outputs := [] }
    filed found idle rfl rfl rfl rfl
  have posted {u : Agent} {data : List UInt8} :
      Does Mark.idle u (u.queueSend peerId stream data (.stopRequest key)) :=
    .post rfl (fun _ => ⟨rfl, trivial⟩)
  exact ⟨.alone step (posted.mono fun _ idle => idle.steady),
    posted.ready (ready.step step (by simp))⟩

theorem streamOpenResult_shows (ready : s.Ready) (token : RelayServerToken)
    (result : Except String StreamKey) :
    ∃ t, s.streamOpenResult token result = some t ∧
      Shows (.echoed token :: s.joins token result) s t ∧ t.Ready := by
  have stray : Does Mark.idle (s.takeOperation token)
      ((s.takeOperation token).resetStray result) := by
    unfold resetStray
    split
    · exact .refl _ _
    · split
      · exact .refl _ _
      · exact .reset ..
  have stale := resolved_shows ready token stray
  unfold streamOpenResult joins
  cases filed : s.pendingOperations.get token with
  | none => exact ⟨_, rfl, stale⟩
  | some op =>
    cases op with
    | openStop key peerId connId =>
      cases result with
      | error detail => exact resolved_fails ready token (.note rfl rfl) key .connectionFailed
      | ok stream =>
        dsimp only
        split
        · exact ⟨_, rfl, startStop_shows ready filed stream⟩
        · exact resolved_fails ready token (.reset ..) key .noReservation
    | _ => exact ⟨_, rfl, stale⟩

def live (s : Agent) (pending : PendingReservation) : Bool :=
  (s.connections.get pending.connId).any (fun c => c.peerId == pending.peerId)

def commits (s : Agent) : SendEffect → List Mark
  | .forward key direction bytes => [.paid key direction bytes]
  | .commitReservation pending =>
    if s.live pending then
      [.accepted pending.peerId pending.renewed pending.expiresUnixSecs]
    else []
  | .commitCircuit key =>
    match s.pendingCircuits.get key with
    | none => []
    | some circuit => [.opened key circuit.sourcePeerId circuit.destinationPeerId]
  | _ => []

def pays (s : Agent) (token : RelayServerToken) (result : Except String Unit) : List Mark :=
  match s.pendingOperations.get token, result with
  | some (.send _ effect), .ok () => s.commits effect
  | _, _ => []

theorem pays_isCommit {result : Except String Unit}
    (member : mark ∈ s.pays token result) : mark.isCommit = true := by
  have only {mark' : Mark} (alone : mark ∈ [mark']) (commits : mark'.isCommit = true) :
      mark.isCommit = true := mem_singleton.mp alone ▸ commits
  unfold pays at member
  split at member
  · unfold commits at member
    split at member
    · exact only member rfl
    · split at member
      · exact only member rfl
      · cases member
    · split at member
      · cases member
      · exact only member rfl
    · cases member
  · cases member

theorem forwardAccepted_does (s : Agent) (key : StreamKey) (direction : CircuitDirection)
    (bytes : Nat) :
    Does Mark.idle (s.credit key direction bytes) (s.forwardAccepted key direction bytes) := by
  cases found : s.circuits.get key with
  | none =>
    simp only [forwardAccepted, credit, found]
    exact .refl _ _
  | some circuit =>
    simp only [forwardAccepted, credit, found]
    split
    · exact closeCircuit_does ..
    · exact finishEofIfDrained_does ..

section

variable (ready : s.Ready)
include ready

theorem sendAccepted_shows {effect : SendEffect}
    (filed : s.pendingOperations.get token = some (.send peerId effect)) (now : Now) :
    Shows (.echoed token :: s.pays token (.ok ())) s
      ((s.takeOperation token).sendAccepted now effect) ∧
      ((s.takeOperation token).sendAccepted now effect).Ready := by
  unfold pays
  rw [filed]
  have silent (stream : StreamKey) (worker) (found : s.hopWorkers.get stream = some worker) :
      worker.responder.outputs = [] := ready.hop stream worker found
  cases effect with
  | completeHop stream =>
    have step := completed filed rfl (silent stream)
    exact ⟨.alone step (.refl _ _), ready.step step (by simp)⟩
  | commitReservation pending =>
    by_cases alive : s.live pending = true
    · have granted : (s.takeOperation token).commitReservation pending =
          (s.takeOperation token).grantReservation pending := if_pos alive
      have step := reserved filed alive (silent pending.stream)
      simp only [sendAccepted, granted, commits, alive, if_true]
      exact ⟨.alone step (.refl _ _), ready.step step (by simp)⟩
    · have lapsed : (s.takeOperation token).commitReservation pending = s.takeOperation token :=
        if_neg alive
      have step := completed filed rfl (silent pending.stream)
      simp only [sendAccepted, lapsed, commits, if_neg alive]
      exact ⟨.alone step (.refl _ _), ready.step step (by simp)⟩
  | commitCircuit key =>
    obtain ⟨circuit, stop, found, known, _⟩ := (ready.sane.promised _ _ _ filed).circuit
    obtain ⟨stream, known⟩ := Option.isSome_iff_exists.mp known
    have step := committed now filed found known
    simp only [commits, found]
    exact ⟨.alone step (.refl _ _), ready.step step (by simp)⟩
  | stopRequest key => exact resolved_shows ready token (.refl _ _)
  | forward key direction bytes =>
    have step := paid filed
    have rest := forwardAccepted_does (s.takeOperation token) key direction bytes
    exact ⟨.alone step (rest.mono fun _ idle => idle.steady),
      rest.ready (ready.step step (by simp))⟩

theorem sendFailed_shows {effect : SendEffect}
    (filed : s.pendingOperations.get token = some (.send peerId effect)) :
    ∃ relevant t, (s.takeOperation token).sendFailed effect = some (relevant, t) ∧
      Shows [.echoed token] s t ∧ t.Ready := by
  have silent (stream : StreamKey) (worker) (found : s.hopWorkers.get stream = some worker) :
      worker.responder.outputs = [] := ready.hop stream worker found
  cases effect with
  | completeHop stream =>
    have step := completed filed rfl (silent stream)
    exact ⟨true, _, rfl, .alone step (.refl _ _), ready.step step (by simp)⟩
  | commitReservation pending =>
    have step := completed filed rfl (silent pending.stream)
    exact ⟨true, _, rfl, .alone step (.refl _ _), ready.step step (by simp)⟩
  | commitCircuit key =>
    simp only [sendFailed]
    split
    · rename_i pending
      exact ⟨true, _, rfl, resolved_shows ready token (abortPendingConnectBoth_does pending).1⟩
    · exact ⟨false, _, rfl, resolved_shows ready token (.refl _ _)⟩
  | stopRequest key =>
    simp only [sendFailed]
    split
    · obtain ⟨t, failed, shows⟩ := resolved_fails ready token (.refl _ _) key .connectionFailed
      exact ⟨true, t, by rw [failed]; rfl, shows⟩
    · exact ⟨false, _, rfl, resolved_shows ready token (.refl _ _)⟩
  | forward key direction bytes =>
    simp only [sendFailed]
    split
    · exact ⟨true, _, rfl, resolved_shows ready token (closeCircuit_does ..)⟩
    · exact ⟨false, _, rfl, resolved_shows ready token (.refl _ _)⟩

theorem sendStreamResult_shows (token : RelayServerToken)
    (result : Except String Unit) (now : Now) :
    ∃ t, s.sendStreamResult token result now = some t ∧
      Shows (.echoed token :: s.pays token result) s t ∧ t.Ready := by
  have stale := resolved_shows ready token (.refl _ _)
  unfold sendStreamResult
  cases filed : s.pendingOperations.get token with
  | none =>
    refine ⟨_, rfl, ?_⟩
    simpa only [pays, filed] using stale
  | some op =>
    cases op with
    | send peerId effect =>
      cases result with
      | ok => exact ⟨_, rfl, sendAccepted_shows ready filed now⟩
      | error detail =>
        obtain ⟨relevant, t, failed, shows, ready'⟩ := sendFailed_shows ready filed
        have unpaid : s.pays token (.error detail) = [] := by
          unfold pays
          split
          · rename_i wrong
            cases wrong
          · rfl
        simp only [failed, Option.map_some, unpaid]
        have noted : Does Mark.idle t (t.runtimeError .sendStream (some peerId) detail) :=
          .note rfl rfl
        cases relevant with
        | true =>
          exact ⟨_, rfl, shows.trans (noted.mono fun _ idle => idle.steady), noted.ready ready'⟩
        | false => exact ⟨_, rfl, shows, ready'⟩
    | _ =>
      refine ⟨_, rfl, ?_⟩
      simpa only [pays, filed] using stale

theorem closeStreamWriteResult_shows (token : RelayServerToken) (result : Except String Unit) :
    Shows [.echoed token] s (s.closeStreamWriteResult token result) ∧
      (s.closeStreamWriteResult token result).Ready := by
  unfold closeStreamWriteResult
  cases filed : s.pendingOperations.get token with
  | none => exact resolved_shows ready token (.refl _ _)
  | some op =>
    cases op with
    | close peerId stream circuit =>
      cases result with
      | ok =>
        cases circuit with
        | none => exact resolved_shows ready token (.refl _ _)
        | some leg =>
          obtain ⟨key, leg⟩ := leg
          refine resolved_shows ready token ?_
          simp only [circuitCloseAccepted]
          split
          · exact .refl _ _
          · rename_i found
            exact (Does.quiet (.writeClosed leg found)).trans (finishEofIfDrained_does ..)
      | error detail =>
        cases circuit with
        | none => exact resolved_shows ready token (.note rfl rfl)
        | some leg =>
          refine resolved_shows ready token ?_
          dsimp only
          split
          · exact (closeCircuit_does ..).trans (.note rfl rfl)
          · exact .refl _ _
    | _ => exact resolved_shows ready token (.refl _ _)

theorem resetStreamResult_shows (token : RelayServerToken) (result : Except String Unit) :
    Shows [.echoed token] s (s.resetStreamResult token result) ∧
      (s.resetStreamResult token result).Ready := by
  unfold resetStreamResult
  cases filed : s.pendingOperations.get token with
  | none => exact resolved_shows ready token (.refl _ _)
  | some op =>
    cases op with
    | reset peerId =>
      cases result with
      | ok => exact resolved_shows ready token (.refl _ _)
      | error detail => exact resolved_shows ready token (.note rfl rfl)
    | _ => exact resolved_shows ready token (.refl _ _)

end

/-! ### Calls -/

def outward (s : Agent) : Call → List Mark
  | .event (.streamReady _ key protocolId initiatedLocally) _ _ =>
    if protocolId = hopProtocolId ∧ initiatedLocally = false then [.began key] else []
  | .event (.streamData _ key data) _ _ => [.arrived key data]
  | .event (.streamRemoteWriteClosed _ key) _ _ | .event (.streamClosed _ key) _ _ => [.hungUp key]
  | .openResult token result => .echoed token :: s.joins token result
  | .sendResult token result _ => .echoed token :: s.pays token result
  | .closeResult token _ | .resetResult token _ => [.echoed token]
  | .pollAction => (s.actions.head?.map fun action => taken action (s.forwardOf action)).toList
  | .pollEvent => (s.events.head?.map read).toList
  | _ => []

theorem outward_cases (member : mark ∈ s.outward call) :
    mark.outer = true ∧ mark.isCommit = false ∨
      ∃ token result now, call = .sendResult token result now ∧ mark ∈ s.pays token result := by
  have only {mark' : Mark} (same : mark = mark')
      (kind : mark'.outer = true ∧ mark'.isCommit = false) :
      mark.outer = true ∧ mark.isCommit = false := same ▸ kind
  cases call with
  | event event =>
    left
    cases event with
    | streamReady =>
      simp only [outward] at member
      split at member
      · exact only (mem_singleton.mp member) ⟨rfl, rfl⟩
      · cases member
    | streamData | streamRemoteWriteClosed | streamClosed =>
      exact only (mem_singleton.mp member) ⟨rfl, rfl⟩
    | _ => cases member
  | openResult token result =>
    left
    rcases mem_cons.mp member with echoed | joined
    · exact only echoed ⟨rfl, rfl⟩
    · simp only [joins] at joined
      split at joined
      · split at joined
        · exact only (mem_singleton.mp joined) ⟨rfl, rfl⟩
        · cases joined
      · cases joined
  | sendResult token result now =>
    rcases mem_cons.mp member with echoed | paid
    · exact .inl (only echoed ⟨rfl, rfl⟩)
    · exact .inr ⟨token, result, now, rfl, paid⟩
  | closeResult | resetResult => exact .inl (only (mem_singleton.mp member) ⟨rfl, rfl⟩)
  | pollAction | pollEvent =>
    obtain ⟨_, _, same⟩ := Option.map_eq_some_iff.mp (Option.mem_toList.mp member)
    exact .inl (only same.symm ⟨rfl, rfl⟩)
  | _ => cases member

theorem outward_outer (member : mark ∈ s.outward call) : mark.outer = true := by
  rcases outward_cases member with ⟨outer, -⟩ | ⟨_, _, _, _, paid⟩
  · exact outer
  · have commits := pays_isCommit paid
    cases mark with
    | accepted | opened | paid => rfl
    | _ => cases commits

theorem outward_commits (member : mark ∈ s.outward call) (kind : mark.isCommit = true) :
    ∃ token now sender effect, call = .sendResult token (.ok ()) now ∧
      s.pendingOperations.get token = some (.send sender effect) ∧ mark ∈ s.commits effect := by
  rcases outward_cases member with ⟨-, unlike⟩ | ⟨token, result, now, rfl, paid⟩
  · cases unlike.symm.trans kind
  · simp only [pays] at paid
    split at paid
    · rename_i sender effect filed
      exact ⟨token, now, sender, effect, rfl, filed, paid⟩
    · cases paid

theorem outward_answer {answer : Answer} (answered : s.call call = some (answer, t)) :
    (s.outward call).filterMap polled = answer.polled ∧
      (s.outward call).filterMap takes = answer.taken := by
  cases call with
  | replaceAnnounceAddrs addrs | setConfirmedAddrs addrs | setListenerAddrs addrs =>
    simp only [call, withAddrs] at answered
    split at answered <;> cases answered <;> exact ⟨rfl, rfl⟩
  | event event =>
    obtain ⟨⟨claimed, _⟩, _, same⟩ := Option.map_eq_some_iff.mp answered
    cases same
    cases event with
    | streamReady =>
      simp only [outward]
      split <;> exact ⟨rfl, rfl⟩
    | _ => exact ⟨rfl, rfl⟩
  | tick =>
    obtain ⟨_, _, same⟩ := Option.map_eq_some_iff.mp answered
    cases same
    exact ⟨rfl, rfl⟩
  | openResult token result =>
    obtain ⟨_, _, same⟩ := Option.map_eq_some_iff.mp answered
    cases same
    simp only [outward, joins]
    split
    · split <;> exact ⟨rfl, rfl⟩
    · exact ⟨rfl, rfl⟩
  | sendResult token result =>
    obtain ⟨_, _, same⟩ := Option.map_eq_some_iff.mp answered
    cases same
    have unpolled : ∀ mark ∈ .echoed token :: s.pays token result,
        mark.polled = none ∧ mark.takes = none := by
      intro mark member
      rcases mem_cons.mp member with rfl | paid
      · exact ⟨rfl, rfl⟩
      · have commits := pays_isCommit paid
        cases mark with
        | accepted | opened | paid => exact ⟨rfl, rfl⟩
        | _ => cases commits
    exact ⟨filterMap_eq_nil_iff.mpr fun mark member => (unpolled mark member).1,
      filterMap_eq_nil_iff.mpr fun mark member => (unpolled mark member).2⟩
  | pollAction =>
    cases queue : s.actions with
    | nil | cons =>
      simp only [call, pollAction, queue] at answered
      cases answered
      simp [outward, queue, polled, takes, Answer.polled, Answer.taken]
  | pollEvent =>
    cases queue : s.events with
    | nil | cons =>
      simp only [call, pollEvent, queue] at answered
      cases answered
      simp [outward, queue, polled, takes, Answer.polled, Answer.taken]
  | _ =>
    cases answered
    exact ⟨rfl, rfl⟩

def preceded (s : Agent) : Call → Option Agent
  | .event _ _ now => s.tickBeforeEvent now
  | _ => some s

theorem outward_preceded {s₁ : Agent} (preceded : s.preceded call = some s₁) :
    s₁.outward call = s.outward call := by
  cases call with
  | event event =>
    cases event with
    | _ => rfl
  | _ =>
    cases preceded
    rfl

def late (s : Agent) : Call → StreamKey → Prop
  | .event _ _ now | .tick now => s.Overdue now
  | _ => fun _ => False

inductive Serves (s : Agent) (call : Call) (t : Agent) : Prop where
  | shows {s₁ : Agent} : s.preceded call = some s₁ → Does (inner (s.late call)) s s₁ →
      s₁.Ready → Shows (s₁.outward call) s₁ t → Serves s call t
  | quiet : s.outward call = [] → Does (inner (s.late call)) s t → Serves s call t

theorem Serves.result (same : s.preceded call = some s) (ready : s.Ready)
    (shows : Shows (s.outward call) s t) : Serves s call t :=
  .shows same (.refl _ s) ready shows

theorem event_serves (ready : s.Ready) (event : SwarmEvent) (isCircuit : Bool) (now : Now) :
    ∃ claimed t, s.handleEvent event isCircuit now = some (claimed, t) ∧
      Serves s (.event event isCircuit now) t ∧ t.Ready := by
  obtain ⟨s₁, ticked, does, ready₁⟩ := tickBeforeEvent_does ready now
  unfold handleEvent
  rw [ticked, Option.bind_some]
  have shown {claimed : Bool} {t : Agent}
      (served : s₁.dispatch event isCircuit now = some (claimed, t))
      (shows : Shows (s₁.outward (.event event isCircuit now)) s₁ t) (ready' : t.Ready) :
      ∃ claimed t, s₁.dispatch event isCircuit now = some (claimed, t) ∧
        Serves s (.event event isCircuit now) t ∧ t.Ready :=
    ⟨claimed, t, served, .shows ticked does ready₁ shows, ready'⟩
  have silent {claimed : Bool} {t : Agent}
      (served : s₁.dispatch event isCircuit now = some (claimed, t))
      (nothing : s.outward (.event event isCircuit now) = [])
      (does' : Does (inner (s.Overdue now)) s₁ t) (ready' : t.Ready) :
      ∃ claimed t, s₁.dispatch event isCircuit now = some (claimed, t) ∧
        Serves s (.event event isCircuit now) t ∧ t.Ready :=
    ⟨claimed, t, served, .quiet nothing (does.trans does'), ready'⟩
  cases event with
  | connectionEstablished peerId connId =>
    obtain ⟨t, served, does', ready'⟩ :=
      onConnectionEstablished_does ready₁ peerId connId isCircuit (s.Overdue now)
    exact silent (by rw [dispatch, served]; rfl) rfl does' ready'
  | connectionClosed peerId connId cause =>
    obtain ⟨t, served, does', ready', _⟩ :=
      onConnectionClosed_does ready₁ peerId connId cause (s.Overdue now)
    exact silent (by rw [dispatch, served]; rfl) rfl does' ready'
  | streamReady peerId key protocolId initiatedLocally =>
    by_cases hop : protocolId = hopProtocolId ∧ initiatedLocally = false
    · obtain ⟨shows, ready'⟩ := onHopReady_shows ready₁ peerId key isCircuit now
      refine shown (by rw [dispatch, if_pos hop]) ?_ ready'
      simpa only [outward, if_pos hop] using shows
    · exact silent (by rw [dispatch, if_neg hop]) (by simp only [outward, if_neg hop])
        (.refl _ s₁) ready₁
  | streamData peerId key data =>
    obtain ⟨claimed, t, served, shows, ready'⟩ := onStreamData_shows ready₁ key data now
    exact shown served shows ready'
  | streamRemoteWriteClosed peerId key =>
    obtain ⟨claimed, t, served, shows, ready'⟩ := onStreamRemoteWriteClosed_shows ready₁ key now
    exact shown served shows ready'
  | streamClosed peerId key =>
    obtain ⟨claimed, t, served, shows, ready'⟩ := onStreamClosed_shows ready₁ key now
    exact shown served shows ready'
  | other => exact silent rfl rfl (.refl _ s₁) ready₁

theorem call_serves (ready : s.Ready) (call : Call) :
    ∃ answer t, s.call call = some (answer, t) ∧ Serves s call t ∧ t.Ready := by
  have policy (accepting : Bool) (explicitAddrs : Option (List Multiaddr))
      (confirmedAddrs listenerAddrs : List Multiaddr) (P : Mark → Prop) : Does P s
        { s with accepting, explicitAddrs, confirmedAddrs, listenerAddrs } :=
    .quiet (.policy accepting explicitAddrs confirmedAddrs listenerAddrs s.lastEventTickMs
      s.reservationLimiters s.circuitLimiters)
  have addrs (addrs : List Multiaddr) (set : List Multiaddr → Agent)
      (sets : ∀ normalized P, Does P s (set normalized)) (P : StreamKey → Prop) :
      ∃ answer t, s.withAddrs addrs set = (answer, t) ∧ Does (inner P) s t ∧ t.Ready := by
    unfold withAddrs
    split
    · exact ⟨_, _, rfl, sets _ _, (sets _ Mark.idle).ready ready⟩
    · exact ⟨_, s, rfl, .refl _ s, ready⟩
  cases call with
  | setAccepting accepting =>
    exact ⟨_, _, rfl, .quiet rfl (policy accepting s.explicitAddrs s.confirmedAddrs
      s.listenerAddrs _), (policy accepting s.explicitAddrs s.confirmedAddrs s.listenerAddrs
        Mark.idle).ready ready⟩
  | replaceAnnounceAddrs addresses =>
    obtain ⟨answer, t, same, does, ready'⟩ := addrs addresses (fun normalized =>
      { s with explicitAddrs := if normalized = [] then none else some normalized })
      (fun normalized P => policy s.accepting _ s.confirmedAddrs s.listenerAddrs P) (fun _ => False)
    exact ⟨answer, t, congrArg some same, .quiet rfl does, ready'⟩
  | setConfirmedAddrs addresses =>
    obtain ⟨answer, t, same, does, ready'⟩ := addrs addresses
      (fun confirmedAddrs => { s with confirmedAddrs })
      (fun normalized P => policy s.accepting s.explicitAddrs normalized s.listenerAddrs P)
      (fun _ => False)
    exact ⟨answer, t, congrArg some same, .quiet rfl does, ready'⟩
  | setListenerAddrs addresses =>
    obtain ⟨answer, t, same, does, ready'⟩ := addrs addresses
      (fun listenerAddrs => { s with listenerAddrs })
      (fun normalized P => policy s.accepting s.explicitAddrs s.confirmedAddrs normalized P)
      (fun _ => False)
    exact ⟨answer, t, congrArg some same, .quiet rfl does, ready'⟩
  | setConnectionAddr connId address =>
    refine ⟨_, _, rfl, ?_⟩
    unfold setConnectionAddr
    split
    · exact ⟨.quiet rfl (.refl _ s), ready⟩
    · rename_i found
      have step : Step s [.rewired] _ := .addressed (some address) found
      exact ⟨.quiet rfl (.one step rfl), ready.step step (by simp)⟩
  | event event isCircuit now =>
    obtain ⟨claimed, t, handled, served⟩ := event_serves ready event isCircuit now
    exact ⟨.claimed claimed, t, by simp [call, handled], served⟩
  | tick now =>
    obtain ⟨t, ticked, does, ready', _⟩ := handleTick_does ready now
    exact ⟨.done, t, by simp [call, ticked], .quiet rfl does, ready'⟩
  | openResult token result =>
    obtain ⟨t, served, shows, ready'⟩ := streamOpenResult_shows ready token result
    exact ⟨.done, t, by simp [call, served], .result rfl ready shows, ready'⟩
  | sendResult token result now =>
    obtain ⟨t, served, shows, ready'⟩ := sendStreamResult_shows ready token result now
    exact ⟨.done, t, by simp [call, served], .result rfl ready shows, ready'⟩
  | closeResult token result =>
    obtain ⟨shows, ready'⟩ := closeStreamWriteResult_shows ready token result
    exact ⟨.done, _, rfl, .result rfl ready shows, ready'⟩
  | resetResult token result =>
    obtain ⟨shows, ready'⟩ := resetStreamResult_shows ready token result
    exact ⟨.done, _, rfl, .result rfl ready shows, ready'⟩
  | pollAction =>
    cases queue : s.actions with
    | nil =>
      exact ⟨.action none, s, by simp only [call, pollAction, queue],
        .quiet (by simp [outward, queue]) (.refl _ s), ready⟩
    | cons action actions =>
      have step := taken queue
      refine ⟨.action (some action), { s with actions }, by simp only [call, pollAction, queue],
        .result rfl ready ?_, ready.step step (by simp)⟩
      simp only [outward, queue, List.head?_cons, Option.map_some, Option.toList_some]
      exact .alone step (.refl _ _)
  | pollEvent =>
    cases queue : s.events with
    | nil =>
      exact ⟨.event none, s, by simp only [call, pollEvent, queue],
        .quiet (by simp [outward, queue]) (.refl _ s), ready⟩
    | cons event events =>
      have step := read queue
      refine ⟨.event (some event), { s with events }, by simp only [call, pollEvent, queue],
        .result rfl ready ?_, ready.step step (by simp)⟩
      simp only [outward, queue, List.head?_cons, Option.map_some, Option.toList_some]
      exact .alone step (.refl _ _)

end Agent

end RelayServer
