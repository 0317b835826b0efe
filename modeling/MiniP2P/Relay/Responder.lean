import MiniP2P.Identity.PeerId
import MiniP2P.Relay.Message

/-! The relay-side wire machines: one inbound HOP stream and one outbound STOP stream.
An input that fails leaves its machine as it was. -/
namespace Relay
open Framing Identity List

def maxPendingBridgeSize : Nat := 64 * 1024

inductive RelayError where
  | messageTooLarge (len : Nat)
  | unexpectedMessage (reason : String)
  | decisionPending
  deriving DecidableEq

def RelayError.display : RelayError → String
  | .messageTooLarge len =>
    "relay message exceeds maximum size (" ++ toString len ++ " > " ++
      toString maxMessageSize ++ ")"
  | .unexpectedMessage reason => "unexpected message: " ++ reason
  | .decisionPending => "relay stream input must pause while a service decision is pending"

def decodeFrame (input : List UInt8) : FrameDecode := Framing.decodeFrame input maxMessageSize

def checkedOutboundFrame (payload : List UInt8) : Except RelayError (List UInt8) :=
  if maxMessageSize < payload.length then .error (.messageTooLarge payload.length)
  else .ok (encodeFrame payload)

def encodeHopStatus (status : Status) (reservation : Option Reservation) (limit : Option Limit) :
    Except RelayError (List UInt8) :=
  checkedOutboundFrame (HopMessage.encode ⟨.status, none, reservation, limit, some status⟩)

def encodeStopStatus (status : Status) : Except RelayError (List UInt8) :=
  checkedOutboundFrame (StopMessage.encode ⟨.status, none, none, some status⟩)

inductive HopRequest where
  | reserve
  | connect (destinationPeerId : PeerId)
  deriving DecidableEq

inductive HopResponderInput where
  | data (bytes : List UInt8)
  | remoteWriteClosed
  | remoteReset
  | acceptReservation (reservation : Reservation) (limit : Option Limit)
  | acceptConnect (limit : Option Limit)
  | reject (status : Status)

inductive HopResponderOutput where
  | request (r : HopRequest)
  | outbound (frame : List UInt8)
  | closeWrite
  | reset
  | bridgeData (bytes : List UInt8)
  deriving DecidableEq

inductive PendingRequest where
  | reserve | connect
  deriving DecidableEq

structure HopResponder where
  recvBuf : List UInt8 := []
  outputs : List HopResponderOutput := []
  pendingRequest : Option PendingRequest := none
  pendingBridge : List UInt8 := []
  bridged : Bool := false
  remoteWriteClosed : Bool := false
  done : Bool := false
  deriving DecidableEq

variable {m m' : HopResponder} {output : HopResponderOutput} {outputs : List HopResponderOutput}
    {limit : Option Limit}

namespace HopResponder

def new : HopResponder := {}

def queueTerminalHopResponse (m : HopResponder) (response : Except RelayError (List UInt8)) :
    HopResponder :=
  { m with
    outputs :=
      match response with
      | .ok frame => m.outputs ++ [.outbound frame, .closeWrite]
      | .error _ => m.outputs ++ [.reset]
    pendingRequest := none
    pendingBridge := []
    recvBuf := []
    done := true }

def queueStatusAndClose (m : HopResponder) (status : Status) : HopResponder :=
  m.queueTerminalHopResponse (encodeHopStatus status none none)

def queueReset (m : HopResponder) : HopResponder :=
  { m with
    recvBuf := []
    pendingRequest := none
    pendingBridge := []
    outputs := m.outputs ++ [.reset]
    done := true }

def requestOf (message : HopMessage) : Except Status (HopRequest × PendingRequest) :=
  match message.kind with
  | .reserve => .ok (.reserve, .reserve)
  | .connect =>
    match message.peer with
    | none => .error .malformedMessage
    | some peer =>
      match PeerId.fromBytes peer.id with
      | .error _ => .error .malformedMessage
      | .ok destinationPeerId => .ok (.connect destinationPeerId, .connect)
  | .status => .error .unexpectedMessage

def onFrame (m : HopResponder) (payload : List UInt8) (consumed : Nat) : HopResponder :=
  if maxPendingBridgeSize < m.recvBuf.length - consumed then m.queueReset
  else
    match HopMessage.decode payload with
    | .error _ => m.queueStatusAndClose .malformedMessage
    | .ok message =>
      match requestOf message with
      | .error status => m.queueStatusAndClose status
      | .ok (request, pendingRequest) =>
        { m with
          pendingBridge :=
            if pendingRequest = .connect then m.recvBuf.drop consumed else m.pendingBridge
          recvBuf := []
          pendingRequest := some pendingRequest
          outputs := m.outputs ++ [.request request] }

def onData (m : HopResponder) (data : List UInt8) : Except RelayError HopResponder :=
  if m.remoteWriteClosed then .ok m
  else if m.bridged then
    .ok (if data = [] then m else { m with outputs := m.outputs ++ [.bridgeData data] })
  else if m.done then .ok m
  else if m.pendingRequest.isSome then .error .decisionPending
  else
    let m := { m with recvBuf := m.recvBuf ++ data }
    match decodeFrame m.recvBuf with
    | .complete payload consumed => .ok (m.onFrame payload consumed)
    | .incomplete => .ok m
    | .tooLarge _ | .error _ => .ok m.queueReset

def acceptReservation (m : HopResponder) (reservation : Reservation) (limit : Option Limit) :
    Except RelayError HopResponder :=
  if m.pendingRequest ≠ some .reserve then
    .error (.unexpectedMessage "cannot accept HOP RESERVE without a pending RESERVE request")
  else
    let reservation := { reservation with voucher := none }
    .ok (m.queueTerminalHopResponse (encodeHopStatus .ok (some reservation) limit))

def acceptConnect (m : HopResponder) (limit : Option Limit) : Except RelayError HopResponder :=
  if m.pendingRequest ≠ some .connect then
    .error (.unexpectedMessage "cannot accept HOP CONNECT without a pending CONNECT request")
  else
    match encodeHopStatus .ok none limit with
    | .error _ => .ok m.queueReset
    | .ok frame =>
      .ok { m with
        outputs := m.outputs ++ .outbound frame ::
          (if m.pendingBridge = [] then [] else [.bridgeData m.pendingBridge])
        pendingBridge := []
        pendingRequest := none
        bridged := !m.remoteWriteClosed
        done := true }

def reject (m : HopResponder) (status : Status) : Except RelayError HopResponder :=
  if m.pendingRequest.isNone then
    .error (.unexpectedMessage "cannot reject without a pending HOP request")
  else if status = .ok ∨ status = .unused then .ok m.queueReset
  else .ok (m.queueStatusAndClose status)

def onRemoteWriteClosed (m : HopResponder) : HopResponder :=
  let undecided := m.pendingRequest.isNone && !m.done
  { m with
    remoteWriteClosed := true
    recvBuf := []
    pendingBridge := if undecided then [] else m.pendingBridge
    done := m.done || undecided
    bridged := false }

def remoteReset (m : HopResponder) : HopResponder :=
  { m with
    recvBuf := []
    pendingRequest := none
    pendingBridge := []
    outputs := []
    bridged := false
    remoteWriteClosed := true
    done := true }

def handleInput (m : HopResponder) : HopResponderInput → Except RelayError HopResponder
  | .data bytes => m.onData bytes
  | .remoteWriteClosed => .ok m.onRemoteWriteClosed
  | .remoteReset => .ok m.remoteReset
  | .acceptReservation reservation limit => m.acceptReservation reservation limit
  | .acceptConnect limit => m.acceptConnect limit
  | .reject status => m.reject status

def pollOutput (m : HopResponder) : Option (HopResponderOutput × HopResponder) :=
  match m.outputs with
  | [] => none
  | output :: outputs => some (output, { m with outputs })

theorem pollOutput_cons (front : m.outputs = output :: outputs) :
    m.pollOutput = some (output, { m with outputs }) := by
  simp [pollOutput, front]

theorem pollOutput_eq (popped : m.pollOutput = some (output, m')) :
    m.outputs = output :: m'.outputs ∧ m' = { m with outputs := m'.outputs } := by
  unfold pollOutput at popped
  split at popped
  · cases popped
  · rename_i front
    cases popped
    exact ⟨front, rfl⟩

def Answers (outputs : List HopResponderOutput) : Prop :=
  outputs = [.reset] ∨ ∃ frame, outputs = [.outbound frame, .closeWrite]

/-- The last word of a responder is a status with the end of the stream, or a reset. -/
inductive Ends (m : HopResponder) : HopResponder → Prop where
  | reset : Ends m m.queueReset
  | response (response : Except RelayError (List UInt8)) :
      Ends m (m.queueTerminalHopResponse response)

theorem Ends.done (ends : Ends m m') : m'.done = true := by
  cases ends with
  | reset | response => rfl

theorem Ends.answers (ends : Ends m m') (empty : m.outputs = []) : Answers m'.outputs := by
  cases ends with
  | reset => exact .inl (by simp [queueReset, empty])
  | response response =>
    cases response with
    | ok frame => exact .inr ⟨frame, by simp [queueTerminalHopResponse, empty]⟩
    | error e => exact .inl (by simp [queueTerminalHopResponse, empty])

theorem reject_ends {status : Status} (taken : m.reject status = .ok m') :
    m.pendingRequest.isSome ∧ Ends m m' := by
  unfold reject at taken
  split at taken
  · cases taken
  · rename_i waits
    refine ⟨by simpa [Option.isSome_iff_ne_none] using waits, ?_⟩
    split at taken
    · cases taken
      exact .reset
    · cases taken
      exact .response _

theorem reject_answers (empty : m.outputs = []) {pending : PendingRequest}
    (waits : m.pendingRequest = some pending) (status : Status) :
    ∃ m', m.reject status = .ok m' ∧ Answers m'.outputs := by
  obtain ⟨m', taken⟩ : ∃ m', m.reject status = .ok m' := by
    rw [reject, if_neg (by simp [waits])]
    split <;> exact ⟨_, rfl⟩
  exact ⟨m', taken, (reject_ends taken).2.answers empty⟩

theorem rejected_answers (empty : m.outputs = []) {status : Status}
    (taken : m.reject status = .ok m') :
    m.pendingRequest.isSome ∧ m'.done = true ∧ Answers m'.outputs := by
  obtain ⟨waits, ends⟩ := reject_ends taken
  exact ⟨waits, ends.done, ends.answers empty⟩

theorem Answers.unasked (answers : Answers outputs) (request : HopRequest) :
    .request request ∉ outputs := by
  rcases answers with rfl | ⟨frame, rfl⟩
  · simp
  · simp

theorem acceptReservation_answers (empty : m.outputs = [])
    (waits : m.pendingRequest = some .reserve) (reservation : Reservation) (limit : Option Limit) :
    ∃ m', m.acceptReservation reservation limit = .ok m' ∧ Answers m'.outputs := by
  rw [acceptReservation, if_neg (by simp [waits])]
  exact ⟨_, rfl, (Ends.response _).answers empty⟩

theorem acceptReservation_ends {reservation : Reservation}
    (taken : m.acceptReservation reservation limit = .ok m') : Ends m m' := by
  unfold acceptReservation at taken
  split at taken
  · cases taken
  · cases taken
    exact .response _

theorem reserved_answers (empty : m.outputs = []) {reservation : Reservation}
    (taken : m.acceptReservation reservation limit = .ok m') :
    m'.done = true ∧ Answers m'.outputs :=
  have ends := acceptReservation_ends taken
  ⟨ends.done, ends.answers empty⟩

theorem acceptConnect_outputs (empty : m.outputs = []) (taken : m.acceptConnect limit = .ok m') :
    m'.outputs = [.reset] ∨ ∃ frame rest,
      m'.outputs = .outbound frame :: rest ∧ ∀ output ∈ rest, ∃ data,
        output = .bridgeData data := by
  unfold acceptConnect at taken
  split at taken
  · cases taken
  · split at taken
    · cases taken
      exact .inl (by simp [queueReset, empty])
    · cases taken
      refine .inr ⟨_, _, by rw [empty]; rfl, fun output member => ?_⟩
      split at member
      · cases member
      · exact ⟨_, mem_singleton.mp member⟩

theorem acceptConnect_done (taken : m.acceptConnect limit = .ok m') :
    m.pendingRequest = some .connect ∧ m'.done = true := by
  unfold acceptConnect at taken
  split at taken
  · cases taken
  · rename_i waits
    refine ⟨by simpa using waits, ?_⟩
    split at taken
    · cases taken
      rfl
    · cases taken
      rfl

theorem requestOf_kind {message : HopMessage} {request : HopRequest} {pending : PendingRequest}
    (decoded : requestOf message = .ok (request, pending)) :
    pending = .connect ↔ ∃ peer, request = .connect peer := by
  unfold requestOf at decoded
  split at decoded
  · cases decoded
    simp
  · split at decoded
    · cases decoded
    · split at decoded
      · cases decoded
      · cases decoded
        simp
  · cases decoded

/-- What bytes make of a responder. -/
inductive Fed (m : HopResponder) (data : List UInt8) : HopResponder → Prop where
  | same : Fed m data m
  | bridged : m.bridged = true → Fed m data { m with outputs := m.outputs ++ [.bridgeData data] }
  | grown : m.done = false → m.pendingRequest = none →
      Fed m data { m with recvBuf := m.recvBuf ++ data }
  | ended {m' : HopResponder} : m.done = false → m.pendingRequest = none →
      Ends { m with recvBuf := m.recvBuf ++ data } m' → Fed m data m'
  | asked {request : HopRequest} {pending : PendingRequest} {pendingBridge : List UInt8} :
      m.done = false → m.pendingRequest = none →
      (pending = .connect ↔ ∃ peer, request = .connect peer) →
      Fed m data { m with
        pendingBridge, recvBuf := [], pendingRequest := some pending
        outputs := m.outputs ++ [.request request] }

theorem onData_fed {data : List UInt8} (taken : m.onData data = .ok m') : Fed m data m' := by
  unfold onData at taken
  split at taken
  · cases taken
    exact .same
  · split at taken
    · rename_i bridged
      split at taken
      · cases taken
        exact .same
      · cases taken
        exact .bridged bridged
    · split at taken
      · cases taken
        exact .same
      · rename_i unfinished
        split at taken
        · cases taken
        · rename_i idle
          have unfinished : m.done = false := by simpa using unfinished
          have idle : m.pendingRequest = none := by simpa using idle
          dsimp only at taken
          split at taken
          · cases taken
            unfold onFrame
            split
            · exact .ended unfinished idle .reset
            · split
              · exact .ended unfinished idle (.response _)
              · split
                · exact .ended unfinished idle (.response _)
                · exact .asked unfinished idle (requestOf_kind ‹_›)
          · cases taken
            exact .grown unfinished idle
          · cases taken
            exact .ended unfinished idle .reset
          · cases taken
            exact .ended unfinished idle .reset

/-- What every input keeps: until its request is decided the responder has said nothing
but that request, and afterwards it asks no more. -/
structure Sound (m : HopResponder) : Prop where
  fresh : m.done = false → m.pendingRequest = none →
    m.outputs = [] ∧ m.pendingBridge = [] ∧ m.bridged = false
  waiting : ∀ pending, m.pendingRequest = some pending →
    m.done = false ∧ m.bridged = false ∧ m.recvBuf = [] ∧
      (m.outputs = [] ∨ ∃ request, m.outputs = [.request request] ∧
        (pending = .connect ↔ ∃ peer, request = .connect peer))
  silent : m.done = true → m.pendingRequest = none ∧ m.pendingBridge = [] ∧
    ∀ request, .request request ∉ m.outputs

namespace Sound

theorem start : new.Sound := ⟨fun _ _ => ⟨rfl, rfl, rfl⟩, nofun, nofun⟩

theorem requests (sound : m.Sound) {request : HopRequest} (asked : .request request ∈ m.outputs) :
    m.done = false ∧ m.outputs = [.request request] ∧ ∃ pending,
      m.pendingRequest = some pending ∧ (pending = .connect ↔ ∃ peer, request = .connect peer) := by
  cases finished : m.done with
  | true => exact absurd asked ((sound.silent finished).2.2 request)
  | false =>
    cases waits : m.pendingRequest with
    | none =>
      rw [(sound.fresh finished waits).1] at asked
      cases asked
    | some pending =>
      rcases (sound.waiting pending waits).2.2.2 with empty | ⟨request', alone, kind⟩
      · rw [empty] at asked
        cases asked
      · rw [alone] at asked
        cases mem_singleton.mp asked
        exact ⟨rfl, alone, pending, rfl, kind⟩

theorem polled (sound : m.Sound) (popped : m.pollOutput = some (output, m')) :
    m'.Sound ∧ ∀ request, .request request ∉ m'.outputs := by
  unfold pollOutput at popped
  split at popped
  · cases popped
  · rename_i outputs front
    cases popped
    cases finished : m.done with
    | true =>
      obtain ⟨decided, bridge, absent⟩ := sound.silent finished
      rw [front] at absent
      have nothing request : .request request ∉ outputs :=
        fun member => absent request (mem_cons_of_mem _ member)
      exact ⟨⟨nofun, by simp [decided], fun _ => ⟨decided, bridge, nothing⟩⟩, nothing⟩
    | false =>
      cases waits : m.pendingRequest with
      | none => exact absurd (sound.fresh finished waits).1 (by simp [front])
      | some pending =>
        obtain ⟨_, unbridged, received, only⟩ := sound.waiting pending waits
        rcases only with empty | ⟨request, alone, kind⟩
        · exact absurd empty (by simp [front])
        · rw [front] at alone
          cases alone
          exact ⟨⟨nofun, fun _ _ => ⟨rfl, unbridged, received, .inl rfl⟩, nofun⟩, by simp⟩

variable {m : HopResponder}

theorem ends (ends : Ends m m') (silent : ∀ request, .request request ∉ m.outputs) : m'.Sound := by
  cases ends with
  | reset =>
    refine ⟨nofun, nofun, fun _ => ⟨rfl, rfl, fun request member => ?_⟩⟩
    simp [queueReset, silent request] at member
  | response response =>
    refine ⟨nofun, nofun, fun _ => ⟨rfl, rfl, fun request member => ?_⟩⟩
    cases response with
    | ok frame | error e => simp [queueTerminalHopResponse, silent request] at member

theorem data {bytes : List UInt8} (sound : m.Sound) (taken : m.onData bytes = .ok m') :
    m'.Sound := by
  cases onData_fed taken with
  | same => exact sound
  | bridged bridged =>
    have finished : m.done = true := by
      cases finished : m.done with
      | true => rfl
      | false =>
        cases waits : m.pendingRequest with
        | none => exact absurd bridged (by simp [(sound.fresh finished waits).2.2])
        | some pending => exact absurd bridged (by simp [(sound.waiting pending waits).2.1])
    obtain ⟨decided, bridge, silent⟩ := sound.silent finished
    refine ⟨fun unfinished => absurd finished (by simp_all), fun pending waits => ?_, fun _ => ?_⟩
    · exact absurd waits (by simp [decided])
    · refine ⟨decided, bridge, fun request member => ?_⟩
      simp [silent request] at member
  | grown unfinished idle =>
    exact ⟨fun _ _ => sound.fresh unfinished idle,
      fun pending waits => absurd waits (by simp [idle]),
      fun finished => absurd finished (by simp [unfinished])⟩
  | ended unfinished idle last => exact ends last (by simp [(sound.fresh unfinished idle).1])
  | asked unfinished idle kind =>
    obtain ⟨empty, -, unbridged⟩ := sound.fresh unfinished idle
    refine ⟨nofun, fun pending waits => ?_, fun finished => absurd finished (by simp [unfinished])⟩
    cases waits
    exact ⟨unfinished, unbridged, rfl, .inr ⟨_, by simp [empty], kind⟩⟩

section

variable (silent : ∀ request, .request request ∉ m.outputs)
include silent

theorem rejected {status : Status} (taken : m.reject status = .ok m') : m'.Sound :=
  ends (reject_ends taken).2 silent

theorem reserved {m' : HopResponder} {reservation : Reservation} {limit : Option Limit}
    (taken : m.acceptReservation reservation limit = .ok m') : m'.Sound :=
  ends (acceptReservation_ends taken) silent

theorem connected (taken : m.acceptConnect limit = .ok m') : m'.Sound := by
  unfold acceptConnect at taken
  split at taken
  · cases taken
  · split at taken
    · cases taken
      exact ends .reset silent
    · cases taken
      refine ⟨nofun, nofun, fun _ => ⟨rfl, rfl, fun request member => ?_⟩⟩
      split at member <;> simp [silent request] at member

end

theorem writeClosed (sound : m.Sound) : m.onRemoteWriteClosed.Sound := by
  cases finished : m.done with
  | true =>
    obtain ⟨decided, bridge, silent⟩ := sound.silent finished
    refine ⟨by simp [onRemoteWriteClosed, finished], ?_, ?_⟩
    · simp [onRemoteWriteClosed, decided]
    · exact fun _ => ⟨decided, by simp [onRemoteWriteClosed, bridge], silent⟩
  | false =>
    cases waits : m.pendingRequest with
    | none =>
      obtain ⟨empty, -, -⟩ := sound.fresh finished waits
      refine ⟨by simp [onRemoteWriteClosed, finished, waits], ?_, ?_⟩
      · simp [onRemoteWriteClosed, waits]
      · exact fun _ => ⟨waits, by simp [onRemoteWriteClosed, finished, waits],
          by simp [onRemoteWriteClosed, empty]⟩
    | some pending =>
      obtain ⟨_, _, _, only⟩ := sound.waiting pending waits
      refine ⟨by simp [onRemoteWriteClosed, waits], fun pending' waits' => ?_, ?_⟩
      · have same : pending = pending' := by
          have := waits.symm.trans waits'
          exact Option.some.inj this
        subst same
        exact ⟨by simp [onRemoteWriteClosed, finished, waits], rfl, rfl, only⟩
      · simp [onRemoteWriteClosed, finished, waits]

end Sound

/-- Every status but that of an accepted CONNECT is followed by the end of the stream. -/
def Closes (outputs : List HopResponderOutput) : Prop :=
  ∀ before frame after, outputs = before ++ .outbound frame :: after → .closeWrite ∈ after

theorem Closes.nil : Closes [] := fun before _ _ same => by
  cases before <;> cases same

theorem Closes.request (request : HopRequest) : Closes [.request request] := by
  intro before frame after same
  match before with
  | [] => cases same
  | [_] => cases same
  | _ :: _ :: _ => cases same

theorem Answers.closes (answers : Answers outputs) : Closes outputs := by
  intro before frame after same
  rcases answers with rfl | ⟨frame', rfl⟩
  · match before with
    | [] => cases same
    | [_] => cases same
    | _ :: _ :: _ => cases same
  · match before with
    | [] =>
      cases same
      exact mem_singleton_self _
    | [_] => cases same
    | [_, _] => cases same
    | _ :: _ :: _ :: _ => cases same

theorem Closes.drop {front : List HopResponderOutput} (closes : Closes (front ++ outputs)) :
    Closes outputs :=
  fun before frame after same => closes (front ++ before) frame after (by rw [same, append_assoc])

theorem Closes.append {extra : List HopResponderOutput} (closes : Closes outputs)
    (payload : ∀ output ∈ extra, ∃ data, output = .bridgeData data) :
    Closes (outputs ++ extra) := by
  intro before frame after same
  rcases append_eq_append_iff.mp same with ⟨middle, split, rest⟩ | ⟨middle, split, rest⟩
  · have wrong : .outbound frame ∈ extra := by rw [rest]; simp
    obtain ⟨data, absurd⟩ := payload _ wrong
    cases absurd
  · cases middle with
    | nil =>
      have wrong : .outbound frame ∈ extra := by
        rw [← nil_append extra, ← rest]
        exact mem_cons_self
      obtain ⟨data, absurd⟩ := payload _ wrong
      cases absurd
    | cons first middle =>
      cases rest
      exact mem_append_left _ (closes before frame middle split)

theorem Sound.finished_of_outbound (sound : m.Sound) {frame : List UInt8}
    (member : .outbound frame ∈ m.outputs) : m.done = true := by
  cases finished : m.done with
  | true => rfl
  | false =>
    cases waits : m.pendingRequest with
    | none =>
      rw [(sound.fresh finished waits).1] at member
      cases member
    | some pending =>
      rcases (sound.waiting pending waits).2.2.2 with empty | ⟨request, alone, _⟩
      · rw [empty] at member
        cases member
      · rw [alone] at member
        cases mem_singleton.mp member

theorem onData_outputs {data : List UInt8} (sound : m.Sound) (taken : m.onData data = .ok m') :
    (m'.done = m.done ∧ ∃ extra, m'.outputs = m.outputs ++ extra ∧
      ∀ output ∈ extra, ∃ bytes, output = .bridgeData bytes) ∨
    (m.done = false ∧ (m'.outputs = [] ∨ (∃ request, m'.outputs = [.request request]) ∨
      Answers m'.outputs)) := by
  cases onData_fed taken with
  | same => exact .inl ⟨rfl, [], by simp⟩
  | bridged => exact .inl ⟨rfl, [.bridgeData data], by simp⟩
  | grown unfinished idle => exact .inr ⟨unfinished, .inl (sound.fresh unfinished idle).1⟩
  | ended unfinished idle last =>
    exact .inr ⟨unfinished, .inr (.inr (last.answers (sound.fresh unfinished idle).1))⟩
  | asked unfinished idle =>
    exact .inr ⟨unfinished, .inr (.inl ⟨_, by rw [(sound.fresh unfinished idle).1]; rfl⟩)⟩

end HopResponder

inductive StopInitiatorOutcome where
  | accepted
  | refused (status : Status)
  | protocolError (status : Status)
  | remoteWriteClosed
  | remoteReset
  deriving DecidableEq

def StopInitiatorOutcome.hopStatus : StopInitiatorOutcome → Status
  | .accepted => .ok
  | .refused .resourceLimitExceeded => .resourceLimitExceeded
  | .refused .permissionDenied => .permissionDenied
  | .refused _ => .unexpectedMessage
  | .protocolError status => status
  | .remoteWriteClosed | .remoteReset => .connectionFailed

inductive StopInitiatorInput where
  | data (bytes : List UInt8)
  | remoteWriteClosed
  | remoteReset

inductive StopInitiatorOutput where
  | outbound (frame : List UInt8)
  | outcome (o : StopInitiatorOutcome)
  | bridgeData (bytes : List UInt8)
  | closeWrite
  | reset
  deriving DecidableEq

structure StopInitiator where
  recvBuf : List UInt8
  outputs : List StopInitiatorOutput
  bridged : Bool
  done : Bool
  deriving DecidableEq

namespace StopInitiator

def new (sourcePeerId : PeerId) (limit : Option Limit) : StopInitiator :=
  let request : StopMessage := ⟨.connect, some ⟨sourcePeerId.toBytes, []⟩, limit, none⟩
  ⟨[], [.outbound (encodeFrame request.encode)], false, false⟩

variable (m : StopInitiator)

def queueProtocolError (status : Status) : StopInitiator :=
  { m with
    outputs :=
      (match encodeStopStatus status with
        | .ok frame => m.outputs ++ [.outbound frame, .closeWrite]
        | .error _ => m.outputs ++ [.reset]) ++ [.outcome (.protocolError status)]
    recvBuf := []
    done := true }

def queueReset (status : Status) : StopInitiator :=
  { m with
    outputs := m.outputs ++ [.reset, .outcome (.protocolError status)]
    recvBuf := []
    done := true }

def onFrame (payload : List UInt8) (consumed : Nat) : StopInitiator :=
  match StopMessage.decode payload with
  | .error _ => m.queueProtocolError .malformedMessage
  | .ok message =>
    if message.kind ≠ .status then m.queueProtocolError .unexpectedMessage
    else
      match message.status with
      | none => m.queueProtocolError .malformedMessage
      | some .ok =>
        { m with
          bridged := true
          outputs := m.outputs ++ .outcome .accepted ::
            (if consumed < m.recvBuf.length then [.bridgeData (m.recvBuf.drop consumed)] else [])
          recvBuf := []
          done := true }
      | some status =>
        { m with
          outputs := m.outputs ++ [.outcome (.refused status)]
          recvBuf := []
          done := true }

def onData (data : List UInt8) : StopInitiator :=
  if m.bridged then
    if data = [] then m else { m with outputs := m.outputs ++ [.bridgeData data] }
  else if m.done then m
  else
    let m := { m with recvBuf := m.recvBuf ++ data }
    match decodeFrame m.recvBuf with
    | .complete payload consumed => m.onFrame payload consumed
    | .incomplete => m
    | .tooLarge _ | .error _ => m.queueReset .malformedMessage

def finishRemoteTerminal : StopInitiator :=
  { m with recvBuf := [], bridged := false, done := true }

def remoteWriteClosed : StopInitiator :=
  finishRemoteTerminal
    (if m.done then m else { m with outputs := [.outcome .remoteWriteClosed] })

def drainable : StopInitiatorOutput → Bool
  | .outcome _ | .bridgeData _ => true
  | .outbound _ | .closeWrite | .reset => false

def remoteReset : StopInitiator :=
  finishRemoteTerminal
    (if m.done then { m with outputs := m.outputs.filter drainable }
    else { m with outputs := [.outcome .remoteReset] })

def handleInput : StopInitiatorInput → StopInitiator
  | .data bytes => m.onData bytes
  | .remoteWriteClosed => m.remoteWriteClosed
  | .remoteReset => m.remoteReset

def pollOutput : Option (StopInitiatorOutput × StopInitiator) :=
  match m.outputs with
  | [] => none
  | output :: outputs => some (output, { m with outputs })

theorem pollOutput_eq {m m' : StopInitiator} {output : StopInitiatorOutput}
    (popped : m.pollOutput = some (output, m')) :
    m.outputs = output :: m'.outputs ∧ m' = { m with outputs := m'.outputs } := by
  unfold pollOutput at popped
  split at popped
  · cases popped
  · rename_i front
    cases popped
    exact ⟨front, rfl⟩

theorem onData_finished {m : StopInitiator} (finished : m.done = true) (bytes : List UInt8) :
    (m.onData bytes).done = true ∧
      (.outcome .accepted ∉ m.outputs → .outcome .accepted ∉ (m.onData bytes).outputs) := by
  unfold onData
  split
  · split
    · exact ⟨finished, id⟩
    · exact ⟨finished, fun silent => by simp [silent]⟩
  · exact ⟨finished, id⟩

/-- What every input keeps: acceptance is reported once, by a finished machine. -/
structure Sound (m : StopInitiator) : Prop where
  unfinished : m.done = false → .outcome .accepted ∉ m.outputs ∧ m.bridged = false
  once : m.outputs.countP (· = .outcome .accepted) ≤ 1

namespace Sound

variable {m : StopInitiator}

theorem extend (sound : m.Sound) {outputs : List StopInitiatorOutput}
    (quiet : .outcome .accepted ∉ outputs) {recvBuf : List UInt8} {bridged done : Bool}
    (later : done = false → m.done = false ∧ bridged = false) :
    Sound ⟨recvBuf, m.outputs ++ outputs, bridged, done⟩ := by
  refine ⟨fun unfinished => ?_, ?_⟩
  · obtain ⟨before, unbridged⟩ := later unfinished
    exact ⟨by simp [(sound.unfinished before).1, quiet], unbridged⟩
  · have nothing : outputs.countP (· = .outcome .accepted) = 0 := by
      apply countP_eq_zero.mpr
      intro output member same
      exact quiet (of_decide_eq_true same ▸ member)
    rw [countP_append, nothing]
    exact sound.once

theorem polled {m' : StopInitiator} {output : StopInitiatorOutput} (sound : m.Sound)
    (popped : m.pollOutput = some (output, m')) :
    m'.Sound ∧ m'.done = m.done ∧ (output = .outcome .accepted → m.done = true ∧
      .outcome .accepted ∉ m'.outputs) ∧ ∀ other ∈ m'.outputs, other ∈ m.outputs := by
  unfold pollOutput at popped
  split at popped
  · cases popped
  · rename_i outputs front
    cases popped
    have once := sound.once
    rw [front, countP_cons] at once
    refine ⟨⟨fun unfinished => ?_, by dsimp only; omega⟩, rfl, fun accepted => ⟨?_, ?_⟩, ?_⟩
    · obtain ⟨silent, unbridged⟩ := sound.unfinished unfinished
      rw [front] at silent
      exact ⟨fun member => silent (mem_cons_of_mem _ member), unbridged⟩
    · cases finished : m.done with
      | true => rfl
      | false =>
        have silent := (sound.unfinished finished).1
        rw [front, accepted] at silent
        exact absurd mem_cons_self silent
    · intro member
      have positive : 0 < outputs.countP (· = .outcome .accepted) :=
        countP_pos_iff.mpr ⟨_, member, by simp⟩
      simp only [accepted, decide_true, if_true] at once
      omega
    · exact fun other member => by rw [front]; exact mem_cons_of_mem _ member

theorem framed (sound : m.Sound) (unfinished : m.done = false)
    (payload : List UInt8) (consumed : Nat) : (m.onFrame payload consumed).Sound := by
  have silent := (sound.unfinished unfinished).1
  have protocolError (status : Status) : (m.queueProtocolError status).Sound := by
    unfold queueProtocolError
    split
    · rw [append_assoc]
      exact sound.extend (by simp) nofun
    · rw [append_assoc]
      exact sound.extend (by simp) nofun
  unfold onFrame
  split
  · exact protocolError _
  · split
    · exact protocolError _
    · split
      · exact protocolError _
      · refine ⟨nofun, ?_⟩
        have nothing : m.outputs.countP (· = .outcome .accepted) = 0 := by
          apply countP_eq_zero.mpr
          intro output member same
          exact silent (of_decide_eq_true same ▸ member)
        rw [countP_append, nothing]
        split <;> simp
      · exact sound.extend (by simp) nofun

theorem data (sound : m.Sound) (bytes : List UInt8) : (m.onData bytes).Sound := by
  unfold onData
  split
  · rename_i bridged
    split
    · exact sound
    · refine sound.extend (by simp) (fun unfinished => ?_)
      exact absurd bridged (by simp [(sound.unfinished unfinished).2])
  · split
    · exact sound
    · rename_i unfinished
      have unfinished : m.done = false := by simpa using unfinished
      have grown : Sound { m with recvBuf := m.recvBuf ++ bytes } :=
        ⟨sound.unfinished, sound.once⟩
      dsimp only
      split
      · exact grown.framed unfinished _ _
      · exact grown
      · exact grown.extend (by simp) nofun
      · exact grown.extend (by simp) nofun

theorem writeClosed (sound : m.Sound) : m.remoteWriteClosed.Sound := by
  unfold remoteWriteClosed finishRemoteTerminal
  split
  · exact ⟨nofun, sound.once⟩
  · exact ⟨nofun, by simp⟩

theorem reset (sound : m.Sound) : m.remoteReset.Sound := by
  unfold remoteReset finishRemoteTerminal
  split
  · refine ⟨nofun, Nat.le_trans ?_ sound.once⟩
    exact List.Sublist.countP_le filter_sublist
  · exact ⟨nofun, by simp⟩

end Sound

end StopInitiator

end Relay
