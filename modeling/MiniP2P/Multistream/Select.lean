import Mathlib.Data.List.Induction
import MiniP2P.Multistream.Message

/-! The negotiation of one protocol. A negotiator reads complete messages until it has
settled; what is behind its last message stays in its buffer. -/
namespace Multistream
open Framing Incremental List

inductive MultistreamOutput where
  | outboundData (bytes : List UInt8)
  | negotiated (protocol : String)
  | notAvailable
  | protocolError (reason : String)
  deriving DecidableEq

inductive MultistreamInput where
  | start
  | data (bytes : List UInt8)
  deriving DecidableEq

inductive Role where
  | dialer | listener
  deriving DecidableEq

inductive State where
  | waitingForRemoteHeader
  | waitingForProtocolRequest
  | waitingForProtocolResponse
  | done
  deriving DecidableEq

structure MultistreamSelect where
  role : Role
  state : State
  desiredProtocol : Option String
  supportedProtocols : List String
  recvBuf : List UInt8
  started : Bool
  pendingOutputs : List MultistreamOutput
  deriving DecidableEq

def protocolError (e : MultistreamError) : State × List MultistreamOutput :=
  (.done, [.protocolError e.toString])

/-- A dialer always desires a protocol, and only a dialer waits for a response: where the
source would panic this stands still, and no negotiator gets there. -/
def handleMessage (role : Role) (state : State) (desiredProtocol : Option String)
    (supportedProtocols : List String) (line : String) : State × List MultistreamOutput :=
  match state with
  | .waitingForRemoteHeader =>
    if line ≠ multistreamProtocolId then protocolError (.unexpectedHeader line)
    else
      match role, desiredProtocol with
      | .dialer, some desired =>
        (.waitingForProtocolResponse, [.outboundData (encodeMessage desired)])
      | .dialer, none => (.waitingForRemoteHeader, [])
      | .listener, _ => (.waitingForProtocolRequest, [])
  | .waitingForProtocolRequest =>
    if line ∈ supportedProtocols then
      (.done, [.outboundData (encodeMessage line), .negotiated line])
    else
      (.waitingForProtocolRequest, [.outboundData (encodeMessage notAvailable), .notAvailable])
  | .waitingForProtocolResponse =>
    match desiredProtocol with
    | none => (.waitingForProtocolResponse, [])
    | some desired =>
      if line = desired then (.done, [.negotiated desired])
      else if line = notAvailable then (.done, [.notAvailable])
      else protocolError (.unexpectedProtocolResponse line)
  | .done => (.done, [])

namespace MultistreamSelect

def dialer (desiredProtocol : String) : MultistreamSelect where
  role := .dialer
  state := .waitingForRemoteHeader
  desiredProtocol := some desiredProtocol
  supportedProtocols := []
  recvBuf := []
  started := false
  pendingOutputs := []

def listener (protocols : List String) : MultistreamSelect where
  role := .listener
  state := .waitingForRemoteHeader
  desiredProtocol := none
  supportedProtocols := protocols
  recvBuf := []
  started := false
  pendingOutputs := []

variable (m : MultistreamSelect)

def start : List MultistreamOutput × MultistreamSelect :=
  if m.started then ([], m)
  else ([.outboundData (encodeMessage multistreamProtocolId)], { m with started := true })

def takeRemainingBuffer : List UInt8 × MultistreamSelect :=
  (m.recvBuf, { m with recvBuf := [] })

def receiveLoop : Nat → List MultistreamOutput → MultistreamSelect →
    List MultistreamOutput × MultistreamSelect
  | 0, outputs, m => (outputs, m)
  | fuel + 1, outputs, m =>
    if m.state = .done then (outputs, m)
    else
      match decodeMessage m.recvBuf with
      | .complete payload consumed =>
        let (nextState, produced) :=
          handleMessage m.role m.state m.desiredProtocol m.supportedProtocols payload
        receiveLoop fuel (outputs ++ produced)
          { m with recvBuf := m.recvBuf.drop consumed, state := nextState }
      | .incomplete => (outputs, m)
      | .error e => (outputs ++ [.protocolError e.toString], { m with state := .done })

def receive (bytes : List UInt8) : List MultistreamOutput × MultistreamSelect :=
  if m.state = .done then ([], m)
  else receiveLoop ((m.recvBuf ++ bytes).length + 1) [] { m with recvBuf := m.recvBuf ++ bytes }

def handleInput (input : MultistreamInput) : MultistreamSelect :=
  let (outputs, m) := match input with
    | .start => m.start
    | .data bytes => m.receive bytes
  { m with pendingOutputs := m.pendingOutputs ++ outputs }

def pollOutput : Option MultistreamOutput × MultistreamSelect :=
  match m.pendingOutputs with
  | [] => (none, m)
  | output :: pendingOutputs => (some output, { m with pendingOutputs })

/-! ### Reading -/

def reader (role : Role) (desiredProtocol : Option String) (supportedProtocols : List String) :
    Reader MultistreamError String (State × List MultistreamOutput) where
  handle s line :=
    ((handleMessage role s.1 desiredProtocol supportedProtocols line).1,
      s.2 ++ (handleMessage role s.1 desiredProtocol supportedProtocols line).2)
  fail s e := (.done, s.2 ++ [.protocolError e.toString])
  stopped s := s.1 == .done
  fail_stopped _ _ := rfl

def reads (outputs : List MultistreamOutput) (bytes : List UInt8) :
    (State × List MultistreamOutput) × List UInt8 :=
  codec.read (reader m.role m.desiredProtocol m.supportedProtocols) (m.state, outputs) bytes

def settle (read : (State × List MultistreamOutput) × List UInt8) :
    List MultistreamOutput × MultistreamSelect :=
  (read.1.2, { m with state := read.1.1, recvBuf := read.2 })

theorem receiveLoop_reads (fuel : Nat) (outputs : List MultistreamOutput) :
    m.receiveLoop fuel outputs = m.settle
      (codec.readLoop (reader m.role m.desiredProtocol m.supportedProtocols) fuel
        (m.state, outputs) m.recvBuf) := by
  induction fuel generalizing m outputs with
  | zero => rfl
  | succ fuel ih =>
    rw [receiveLoop, Parser.readLoop]
    by_cases done : m.state = .done
    · rw [if_pos done, if_pos (by simpa [reader] using done)]
      rfl
    · rw [if_neg done, if_neg (by simpa [reader] using done)]
      cases found : decodeMessage m.recvBuf with
      | incomplete =>
        have parsed : codec.parse m.recvBuf = .ok none := by simp [codec, parse, found]
        rw [parsed]
        rfl
      | error e =>
        have parsed : codec.parse m.recvBuf = .error e := by simp [codec, parse, found]
        rw [parsed]
        rfl
      | complete payload consumed =>
        have parsed : codec.parse m.recvBuf = .ok (some (payload, m.recvBuf.drop consumed)) := by
          simp [codec, parse, found]
        rw [parsed]
        exact ih ..

theorem receive_reads (bytes : List UInt8) (running : m.state ≠ .done) :
    m.receive bytes = m.settle (m.reads [] (m.recvBuf ++ bytes)) := by
  rw [receive, if_neg running, receiveLoop_reads]
  rfl

theorem receive_keeps (bytes : List UInt8) :
    (m.receive bytes).2.pendingOutputs = m.pendingOutputs ∧
      (m.receive bytes).2.started = m.started := by
  by_cases done : m.state = .done
  · rw [receive, if_pos done]
    exact ⟨rfl, rfl⟩
  · rw [receive_reads m bytes done]
    exact ⟨rfl, rfl⟩

theorem reads_outputs (outputs : List MultistreamOutput) (bytes : List UInt8) :
    m.reads outputs bytes =
      (((m.reads [] bytes).1.1, outputs ++ (m.reads [] bytes).1.2), (m.reads [] bytes).2) := by
  have carried := read_map (p := codec.toParser)
    (r := reader m.role m.desiredProtocol m.supportedProtocols)
    (f := fun s => (s.1, outputs ++ s.2)) (fun s line => by simp [reader])
    (fun s e => by simp [reader]) (fun _ => rfl) (m.state, []) bytes
  rw [append_nil] at carried
  exact carried

variable {m : MultistreamSelect} {bytes sent : List UInt8} {protocol : String}

theorem handleMessage_sends {role : Role} {state : State} {D : Option String} {S : List String}
    {line : String} (said : .outboundData sent ∈ (handleMessage role state D S line).2) :
    ∃ message, sent = encodeMessage message := by
  unfold handleMessage at said
  repeat' split at said
  all_goals simp [Multistream.protocolError] at said
  all_goals exact ⟨_, said⟩

theorem handleMessage_settles {role : Role} {state : State} {D : Option String} {S : List String}
    {line : String} (said : .negotiated protocol ∈ (handleMessage role state D S line).2) :
    (handleMessage role state D S line).1 = .done := by
  unfold handleMessage at said ⊢
  repeat' split at said
  all_goals simp_all [Multistream.protocolError]

theorem reads_messages (said : .outboundData sent ∈ (m.reads [] bytes).1.2) :
    ∃ line, sent = encodeMessage line := by
  have kept := read_keeps (p := codec.toParser)
    (r := reader m.role m.desiredProtocol m.supportedProtocols)
    (I := fun s => ∀ sent, .outboundData sent ∈ s.2 → ∃ line, sent = encodeMessage line)
    (s := (m.state, [])) (fun {s} line _ before sent among => ?_)
      (fun {s} e _ before sent among => ?_)
    bytes nofun
  · exact kept sent said
  · rcases mem_append.mp among with early | late
    · exact before sent early
    · exact handleMessage_sends late
  · rcases mem_append.mp among with early | late
    · exact before sent early
    · cases mem_singleton.mp late

theorem handleInput_messages (quiet : m.pendingOutputs = []) {input : MultistreamInput}
    (said : .outboundData sent ∈ (m.handleInput input).pendingOutputs) :
    ∃ line, sent = encodeMessage line := by
  cases input with
  | start =>
    cases begun : m.started with
    | true => simp [handleInput, start, begun, quiet] at said
    | false =>
      simp only [handleInput, start, begun, quiet, nil_append, Bool.false_eq_true, if_false] at said
      cases mem_singleton.mp said
      exact ⟨_, rfl⟩
  | data bytes =>
    have kept : (m.receive bytes).2.pendingOutputs = [] := (receive_keeps m bytes).1.trans quiet
    simp only [handleInput, kept, nil_append] at said
    by_cases done : m.state = .done
    · rw [receive, if_pos done] at said
      cases said
    · rw [receive_reads m bytes done] at said
      exact reads_messages said

theorem reads_done (said : .negotiated protocol ∈ (m.reads [] bytes).1.2) :
    (m.reads [] bytes).1.1 = .done := by
  have kept := read_keeps (p := codec.toParser)
    (r := reader m.role m.desiredProtocol m.supportedProtocols)
    (I := fun s => .negotiated protocol ∈ s.2 → s.1 = .done)
    (s := (m.state, [])) (fun {s} line running before among => ?_)
      (fun {s} e _ _ _ => rfl) bytes nofun
  · exact kept said
  · rcases mem_append.mp among with early | late
    · have halted : (reader m.role m.desiredProtocol m.supportedProtocols).stopped s = true := by
        simp [reader, before early]
      rw [halted] at running
      cases running
    · exact handleMessage_settles late

/-! ### Feeding -/

/-- A negotiator that has not read anything, started or not. -/
structure Fresh (m : MultistreamSelect) : Prop where
  desired : m.role = .dialer → m.desiredProtocol.isSome = true
  state : m.state = .waitingForRemoteHeader
  recvBuf : m.recvBuf = []

/-- A negotiator that has been fed these bytes, in whatever pieces. Once it has settled it
takes no more. -/
structure Fed (m₀ : MultistreamSelect) (got : List UInt8) (m : MultistreamSelect) : Prop where
  role : m.role = m₀.role
  desiredProtocol : m.desiredProtocol = m₀.desiredProtocol
  supportedProtocols : m.supportedProtocols = m₀.supportedProtocols
  state : m.state = (m₀.reads [] got).1.1
  recvBuf : m.state ≠ .done → m.recvBuf = (m₀.reads [] got).2

variable {m₀ m : MultistreamSelect} {got : List UInt8}

theorem Fresh.fed (fresh : Fresh m) : Fed m [] m := by
  have nothing : m.reads [] [] = ((m.state, []), []) := read_wait rfl
  exact ⟨rfl, rfl, rfl, by rw [nothing], fun _ => by rw [nothing, fresh.recvBuf]⟩

theorem Fed.more (fed : Fed m₀ got m) (bytes : List UInt8) :
    Fed m₀ (got ++ bytes) (m.receive bytes).2 ∧
      (m₀.reads [] (got ++ bytes)).1.2 = (m₀.reads [] got).1.2 ++ (m.receive bytes).1 ∧
      (m.state ≠ .done → (m.receive bytes).2.recvBuf = (m₀.reads [] (got ++ bytes)).2) := by
  have whole : m₀.reads [] (got ++ bytes) = codec.read
      (reader m₀.role m₀.desiredProtocol m₀.supportedProtocols) (m₀.reads [] got).1
      ((m₀.reads [] got).2 ++ bytes) := read_append ..
  by_cases done : m.state = .done
  · have halted : m₀.reads [] (got ++ bytes) =
        ((m₀.reads [] got).1, (m₀.reads [] got).2 ++ bytes) := by
      rw [whole]
      exact read_stopped (by simp [reader, ← fed.state, done])
    have same : m.receive bytes = ([], m) := if_pos done
    rw [same, halted]
    exact ⟨{ fed with
      state := by rw [halted, fed.state], recvBuf := fun running => absurd done running },
        (append_nil _).symm, fun running => absurd done running⟩
  · have start : (m.state, (m₀.reads [] got).1.2) = (m₀.reads [] got).1 := by rw [fed.state]
    have here : m.reads (m₀.reads [] got).1.2 (m.recvBuf ++ bytes) =
        m₀.reads [] (got ++ bytes) := by
      unfold reads at start whole ⊢
      rw [whole, fed.role, fed.desiredProtocol, fed.supportedProtocols, start, fed.recvBuf done]
      rfl
    have said := reads_outputs m (m₀.reads [] got).1.2 (m.recvBuf ++ bytes)
    rw [here] at said
    rw [receive_reads m bytes done, said]
    exact ⟨{ fed with state := by rw [said]; rfl, recvBuf := fun _ => by rw [said]; rfl }, rfl,
      fun _ => rfl⟩

/-! ### Chunks -/

def feed (chunks : List (List UInt8)) : MultistreamSelect :=
  chunks.foldl (fun m chunk => m.handleInput (.data chunk)) m

theorem feed_fed (fresh : Fresh m) (chunks : List (List UInt8)) :
    Fed m chunks.flatten (m.feed chunks) ∧
      (m.feed chunks).pendingOutputs = m.pendingOutputs ++ (m.reads [] chunks.flatten).1.2 := by
  induction chunks using List.reverseRecOn with
  | nil =>
    have nothing : m.reads [] [] = ((m.state, []), []) := read_wait rfl
    exact ⟨fresh.fed, by simp [feed, nothing]⟩
  | append_singleton chunks chunk ih =>
    obtain ⟨fed, outputs⟩ := ih
    obtain ⟨more, said, -⟩ := fed.more chunk
    have last : m.feed (chunks ++ [chunk]) = (m.feed chunks).handleInput (.data chunk) := by
      simp [feed]
    obtain ⟨kept, -⟩ := receive_keeps (m.feed chunks) chunk
    have bytes : (chunks ++ [chunk]).flatten = chunks.flatten ++ chunk := by simp
    rw [last, bytes]
    refine ⟨{ more with }, ?_⟩
    rw [handleInput, said]
    dsimp only
    rw [kept, outputs, append_assoc]

def Settles (lines : List String) (protocol : String) : Prop :=
  ∃ rejected, lines = multistreamProtocolId :: rejected ++ [protocol] ∧
    match m.role with
    | .dialer => rejected = [] ∧ m.desiredProtocol = some protocol
    | .listener => protocol ∈ m.supportedProtocols ∧ ∀ line ∈ rejected, line ∉ m.supportedProtocols

section Lines

variable {D : Option String} {S : List String} {protocol : String} {lines : List String}
  {outputs : List MultistreamOutput}

theorem requests_settle (before : .negotiated protocol ∉ outputs)
    (takes : (reader .listener D S).Takes (.waitingForProtocolRequest, outputs) lines)
    (said : .negotiated protocol ∈
      (lines.foldl (reader .listener D S).handle (.waitingForProtocolRequest, outputs)).2) :
    ∃ rejected, lines = rejected ++ [protocol] ∧ protocol ∈ S ∧ ∀ line ∈ rejected, line ∉ S := by
  induction lines generalizing outputs with
  | nil => exact absurd said before
  | cons line lines ih =>
    obtain ⟨-, takes⟩ := takes
    by_cases supported : line ∈ S
    · have last : lines = [] := takes.stopped (by simp [reader, handleMessage, supported])
      subst last
      have same : protocol = line := by simpa [reader, handleMessage, supported, before] using said
      subst same
      exact ⟨[], rfl, supported, nofun⟩
    · have next : (reader .listener D S).handle (.waitingForProtocolRequest, outputs) line =
          (.waitingForProtocolRequest,
            outputs ++ [.outboundData (encodeMessage notAvailable), .notAvailable]) := by
        simp [reader, handleMessage, supported]
      rw [next] at takes
      rw [foldl_cons, next] at said
      obtain ⟨rejected, split, member, others⟩ := ih (by simpa using before) takes said
      refine ⟨line :: rejected, by rw [split]; rfl, member, ?_⟩
      intro other listed
      rcases mem_cons.mp listed with rfl | listed
      · exact supported
      · exact others other listed

theorem response_next (desired : String) (S : List String) (outputs : List MultistreamOutput)
    (line : String) : ∃ output,
      (reader .dialer (some desired) S).handle (.waitingForProtocolResponse, outputs) line =
        (.done, outputs ++ [output]) ∧ (∀ bytes, output ≠ .outboundData bytes) ∧
      ∀ protocol, output = .negotiated protocol → line = protocol ∧ desired = protocol := by
  by_cases accepted : line = desired
  · exact ⟨.negotiated desired, by simp [reader, handleMessage, accepted], nofun,
      fun protocol same => by cases same; exact ⟨accepted, rfl⟩⟩
  · by_cases rejected : line = notAvailable
    · refine ⟨.notAvailable, ?_, nofun, nofun⟩
      simp only [reader, handleMessage, if_neg accepted, if_pos rejected]
    · refine ⟨.protocolError (MultistreamError.unexpectedProtocolResponse line).toString,
        ?_, nofun, nofun⟩
      simp only [reader, handleMessage, if_neg accepted, if_neg rejected, Multistream.protocolError]

theorem response_settles {desired : String} (before : .negotiated protocol ∉ outputs)
    (takes : (reader .dialer (some desired) S).Takes (.waitingForProtocolResponse, outputs) lines)
    (said : .negotiated protocol ∈
      (lines.foldl (reader .dialer (some desired) S).handle
        (.waitingForProtocolResponse, outputs)).2) :
    lines = [protocol] ∧ desired = protocol := by
  cases lines with
  | nil => exact absurd said before
  | cons line lines =>
    obtain ⟨-, takes⟩ := takes
    obtain ⟨output, next, -, settles⟩ := response_next desired S outputs line
    rw [next] at takes
    cases takes.stopped rfl
    rw [foldl_cons, next] at said
    have last : .negotiated protocol = output := by simpa [before] using said
    obtain ⟨rfl, rfl⟩ := settles protocol last.symm
    exact ⟨rfl, rfl⟩

theorem lines_settle (fresh : Fresh m)
    (takes : (reader m.role m.desiredProtocol m.supportedProtocols).Takes
      (.waitingForRemoteHeader, []) lines)
    (said : .negotiated protocol ∈ (lines.foldl
      (reader m.role m.desiredProtocol m.supportedProtocols).handle
        (.waitingForRemoteHeader, [])).2) :
    m.Settles lines protocol := by
  cases lines with
  | nil => cases said
  | cons header lines =>
    obtain ⟨-, takes⟩ := takes
    rw [foldl_cons] at said
    by_cases first : header = multistreamProtocolId
    · subst first
      cases role : m.role with
      | dialer =>
        obtain ⟨desired, here⟩ := Option.isSome_iff_exists.mp (fresh.desired role)
        have next : (reader m.role m.desiredProtocol m.supportedProtocols).handle
            (.waitingForRemoteHeader, []) multistreamProtocolId =
              (.waitingForProtocolResponse, [.outboundData (encodeMessage desired)]) := by
          simp [reader, handleMessage, role, here]
        rw [next, role, here] at takes said
        obtain ⟨rfl, rfl⟩ := response_settles (by simp) takes said
        exact ⟨[], rfl, by rw [role]; exact ⟨rfl, here⟩⟩
      | listener =>
        have next : (reader m.role m.desiredProtocol m.supportedProtocols).handle
            (.waitingForRemoteHeader, []) multistreamProtocolId =
              (.waitingForProtocolRequest, []) := by
          simp [reader, handleMessage, role]
        rw [next, role] at takes said
        obtain ⟨rejected, rfl, member, others⟩ := requests_settle (by simp) takes said
        exact ⟨rejected, rfl, by rw [role]; exact ⟨member, others⟩⟩
    · have next : (reader m.role m.desiredProtocol m.supportedProtocols).handle
          (.waitingForRemoteHeader, []) header =
            (.done, [.protocolError (MultistreamError.unexpectedHeader header).toString]) := by
        simp [reader, handleMessage, first, Multistream.protocolError]
      rw [next] at takes said
      have last : lines = [] := takes.stopped rfl
      subst last
      simp at said

end Lines

theorem reads_settles (fresh : Fresh m) (said : .negotiated protocol ∈ (m.reads [] bytes).1.2) :
    ∃ lines, m.Settles lines protocol ∧ bytes = codec.encodeAll lines ++ (m.reads [] bytes).2 := by
  obtain ⟨lines, whole, takes, last⟩ := codec.read_items
    (reader m.role m.desiredProtocol m.supportedProtocols) (m.state, []) bytes
  refine ⟨lines, lines_settle fresh (fresh.state ▸ takes) ?_, whole⟩
  unfold reads at said
  rw [← fresh.state]
  rcases last with same | ⟨-, e, failed⟩
  · rwa [same] at said
  · rw [failed] at said
    simpa [reader] using said

/-- Whatever the pieces, the outputs are the same. And when the protocol is settled, the
buffer followed by what has not been fed is what came after the last message. -/
theorem chunking_independent (fresh : Fresh m) :
    (∀ chunks, (m.feed chunks).pendingOutputs =
      (m.handleInput (.data chunks.flatten)).pendingOutputs) ∧
    ∀ before chunk after protocol,
      .negotiated protocol ∉ (m.feed before).pendingOutputs →
      .negotiated protocol ∈ (m.feed (before ++ [chunk])).pendingOutputs →
      ∃ lines, m.Settles lines protocol ∧
        (before ++ chunk :: after).flatten = codec.encodeAll lines ++
          ((m.feed (before ++ [chunk])).takeRemainingBuffer.1 ++ after.flatten) := by
  constructor
  · intro chunks
    have one := (feed_fed fresh [chunks.flatten]).2
    rw [(feed_fed fresh chunks).2]
    simpa [feed] using one.symm
  · intro before chunk after protocol unsaid said
    obtain ⟨fed, outputs⟩ := feed_fed fresh before
    obtain ⟨-, now, buffer⟩ := fed.more chunk
    have running : (m.feed before).state ≠ .done := by
      intro done
      have silent : (m.feed before).receive chunk = ([], m.feed before) := if_pos done
      rw [silent, append_nil] at now
      rw [(feed_fed fresh (before ++ [chunk])).2, flatten_append, flatten_singleton, now,
        ← outputs] at said
      exact unsaid said
    rw [outputs, mem_append, not_or] at unsaid
    rw [(feed_fed fresh (before ++ [chunk])).2, flatten_append, flatten_singleton,
      mem_append] at said
    obtain ⟨lines, settles, whole⟩ := reads_settles fresh (said.resolve_left unsaid.1)
    refine ⟨lines, settles, ?_⟩
    have last : (m.feed (before ++ [chunk])).recvBuf =
        (m.reads [] (before.flatten ++ chunk)).2 := by
      rw [← buffer running]
      simp [feed, handleInput]
    rw [takeRemainingBuffer, last, ← append_assoc, ← whole]
    simp

theorem dialer_fresh (protocol : String) : Fresh (dialer protocol) := ⟨fun _ => rfl, rfl, rfl⟩

theorem listener_fresh (protocols : List String) : Fresh (listener protocols) := ⟨nofun, rfl, rfl⟩

/-- A dialer gets its header and its answer with a byte of the application behind it. -/
theorem chunking_independent_ping :
    ((dialer "/ping").feed [encodeMessage multistreamProtocolId ++ [6],
      [47, 112, 105, 110, 103, 10, 7]]
      ).takeRemainingBuffer.1 = [7] ∧
    ∃ lines, (dialer "/ping").Settles lines "/ping" ∧
      encodeMessage multistreamProtocolId ++ [6] ++ [47, 112, 105, 110, 103, 10, 7] ++ [8] =
        codec.encodeAll lines ++ ([7] ++ [8]) := by
  have buffer : ((dialer "/ping").feed
      [encodeMessage multistreamProtocolId ++ [6], [47, 112, 105, 110, 103, 10, 7]]
      ).takeRemainingBuffer.1 = [7] := by decide +kernel
  refine ⟨buffer, ?_⟩
  obtain ⟨lines, settles, whole⟩ := (chunking_independent (dialer_fresh "/ping")).2
    [encodeMessage multistreamProtocolId ++ [6]] [47, 112, 105, 110, 103, 10, 7] [[8]] "/ping"
    (by decide +kernel) (by decide +kernel)
  refine ⟨lines, settles, ?_⟩
  simp only [singleton_append, buffer] at whole
  simpa using whole

end MultistreamSelect

end Multistream
