import MiniP2P.Multistream.Select

/-! A dialer and a listener joined by two byte channels that may cut and join bytes anywhere,
and every interleaving of calls on both ends. -/
namespace Multistream
open Incremental MultistreamSelect List MultistreamOutput Codec

def MultistreamOutput.wire : MultistreamOutput → List UInt8
  | .outboundData bytes => bytes
  | _ => []

def wireBytes (outputs : List MultistreamOutput) : List UInt8 := outputs.flatMap wire

structure Station where
  select : MultistreamSelect
  incoming : List UInt8
  outputs : List MultistreamOutput

namespace Station

def start (own : Station) : Station := { own with select := own.select.handleInput .start }

def deliver (own : Station) (count : Nat) : Station :=
  { own with
    select := own.select.handleInput (.data (own.incoming.take count))
    incoming := own.incoming.drop count }

/-- Take the next output of a negotiator. Outbound bytes enter the channel to the other end. -/
def poll (own other : Station) : Station × Station :=
  match own.select.pollOutput with
  | (none, _) => (own, other)
  | (some output, select) =>
    ({ own with select, outputs := own.outputs ++ [output] },
      { other with incoming := other.incoming ++ output.wire })

/-- Everything it has said, taken or not. -/
def said (own : Station) : List MultistreamOutput := own.outputs ++ own.select.pendingOutputs

def quiet (own : Station) : Bool := own.select.pendingOutputs.isEmpty && own.incoming.isEmpty

end Station

inductive Side where
  | dialer | listener
  deriving DecidableEq

inductive Action where
  | start (side : Side)
  | deliver (side : Side) (count : Nat)
  | poll (side : Side)

structure Pair where
  dialer : Station
  listener : Station

namespace Pair

def connect (d : String) (S : List String) : Pair where
  dialer := ⟨(MultistreamSelect.dialer d).handleInput .start, [], []⟩
  listener := ⟨(MultistreamSelect.listener S).handleInput .start, [], []⟩

def step (p : Pair) : Action → Pair
  | .start .dialer => { p with dialer := p.dialer.start }
  | .start .listener => { p with listener := p.listener.start }
  | .deliver .dialer count => { p with dialer := p.dialer.deliver count }
  | .deliver .listener count => { p with listener := p.listener.deliver count }
  | .poll .dialer => ⟨(p.dialer.poll p.listener).1, (p.dialer.poll p.listener).2⟩
  | .poll .listener => ⟨(p.listener.poll p.dialer).2, (p.listener.poll p.dialer).1⟩

def run (p : Pair) (actions : List Action) : Pair := actions.foldl step p

def quiet (p : Pair) : Bool := p.dialer.quiet && p.listener.quiet

structure Agrees (d : String) (S : List String) (p : Pair) : Prop where
  dialed : ∀ protocol, .negotiated protocol ∈ p.dialer.said →
    protocol = d ∧ d ∈ S ∧ .negotiated d ∈ p.listener.said
  listened : ∀ protocol, .negotiated protocol ∈ p.listener.said → protocol = d ∧ d ∈ S
  sound : ∀ reason, .protocolError reason ∉ p.dialer.said ∧ .protocolError reason ∉ p.listener.said
  settled : p.quiet = true →
    if d ∈ S then .negotiated d ∈ p.dialer.outputs ∧ .negotiated d ∈ p.listener.outputs
    else .notAvailable ∈ p.dialer.outputs ∧ p.dialer.select.state = .done

end Pair

/-! ### What the negotiators say -/

namespace MultistreamSelect

variable {d : String} {S : List String}

def answer (d : String) (S : List String) : List MultistreamOutput :=
  if d ∈ S then [.outboundData (encodeMessage d), .negotiated d]
  else [.outboundData (encodeMessage notAvailable), .notAvailable]

def reply (d : String) (S : List String) : String := if d ∈ S then d else notAvailable

def verdict (d : String) (S : List String) : MultistreamOutput :=
  if d ∈ S then .negotiated d else .notAvailable

theorem dialer_wire (d : String) (bytes : List UInt8) :
    wireBytes ((dialer d).reads [] bytes).1.2 <+: encodeMessage d := by
  obtain ⟨lines, -, takes, last⟩ := codec.read_items (reader .dialer (some d) [])
    (.waitingForRemoteHeader, []) bytes
  have sends : wireBytes (lines.foldl (reader .dialer (some d) []).handle
      (.waitingForRemoteHeader, [])).2 <+: encodeMessage d := by
    cases lines with
    | nil => exact nil_prefix
    | cons header lines =>
      obtain ⟨-, takes⟩ := takes
      by_cases first : header = multistreamProtocolId
      · subst first
        have next : (reader .dialer (some d) []).handle (.waitingForRemoteHeader, [])
            multistreamProtocolId =
              (.waitingForProtocolResponse, [.outboundData (encodeMessage d)]) := by
          simp [reader, handleMessage]
        rw [foldl_cons, next]
        rw [next] at takes
        cases lines with
        | nil => simp [wireBytes, wire]
        | cons line lines =>
          obtain ⟨-, takes⟩ := takes
          obtain ⟨output, ends, silent, -⟩ :=
            response_next d [] [.outboundData (encodeMessage d)] line
          rw [ends] at takes
          cases takes.stopped rfl
          rw [foldl_cons, ends]
          cases output with
          | outboundData bytes => exact absurd rfl (silent bytes)
          | _ => simp [wireBytes, wire]
      · have next : (reader .dialer (some d) []).handle (.waitingForRemoteHeader, []) header =
            (.done, [.protocolError (MultistreamError.unexpectedHeader header).toString]) := by
          simp [reader, handleMessage, first, Multistream.protocolError]
        rw [next] at takes
        cases takes.stopped rfl
        rw [foldl_cons, next]
        exact nil_prefix
  have reads : ((dialer d).reads [] bytes).1 =
      (codec.read (reader .dialer (some d) []) (.waitingForRemoteHeader, []) bytes).1 := rfl
  rw [reads]
  rcases last with same | ⟨-, e, failed⟩
  · rwa [same]
  · rw [failed]
    simpa [reader, wireBytes, wire] using sends

theorem header_legal : Legal multistreamProtocolId := by decide +kernel

theorem notAvailable_legal : Legal notAvailable := by decide +kernel

/-- What a reader has taken of two messages that arrive in pieces. -/
theorem read_two {r : Reader MultistreamError String (State × List MultistreamOutput)}
    {s : State × List MultistreamOutput} {first second : String} {got rest : List UInt8}
    (legal : Legal first ∧ Legal second) (running : r.stopped s = false)
    (still : r.stopped (r.handle s first) = false)
    (same : got ++ rest = codec.encodeAll [first, second]) :
    ((codec.read r s got).1 = s ∨ (codec.read r s got).1 = r.handle s first) ∧ rest ≠ [] ∨
      codec.read r s got = (r.handle (r.handle s first) second, []) ∧ rest = [] := by
  have lines : ∀ line ∈ [first, second], codec.Legal line :=
    forall_mem_cons.mpr ⟨legal.1, forall_mem_singleton.mpr legal.2⟩
  obtain ⟨before, after, split, state, unread, last⟩ := codec.read_stream r lines s same
  match before, split with
  | [], split =>
    refine .inl ⟨.inl state, fun vacant => ?_⟩
    rcases last vacant with nothing | halted
    · simp [nothing] at split
    · cases running.symm.trans halted
  | [_], split =>
    cases split
    refine .inl ⟨.inr state, fun empty => ?_⟩
    rcases last empty with nothing | halted
    · cases nothing
    · cases still.symm.trans halted
  | [_, _], split =>
    cases split
    obtain ⟨read, absent⟩ := append_eq_nil_iff.mp unread
    exact .inr ⟨Prod.ext state read, absent⟩
  | _ :: _ :: _ :: _, split => simp at split

theorem listener_reads (legal : Legal d) {got rest : List UInt8}
    (same : got ++ rest = codec.encodeAll [multistreamProtocolId, d]) :
    ((listener S).reads [] got).1.2 = [] ∧ rest ≠ [] ∨
      ((listener S).reads [] got).1.2 = answer d S ∧ rest = [] := by
  have reads : (listener S).reads [] got = codec.read (reader .listener none S)
    (.waitingForRemoteHeader, []) got := rfl
  rw [reads]
  rcases read_two (r := reader .listener none S) (s := (.waitingForRemoteHeader, []))
    ⟨header_legal, legal⟩ rfl (by simp [reader, handleMessage]) same with ⟨early, more⟩
      | ⟨whole, last⟩
  · refine .inl ⟨?_, more⟩
    rcases early with early | early
    all_goals rw [early]
    simp [reader, handleMessage]
  · refine .inr ⟨?_, last⟩
    rw [whole]
    by_cases supported : d ∈ S
    · simp [reader, handleMessage, answer, supported]
    · simp [reader, handleMessage, answer, supported]

theorem dialer_header (d : String) :
    ((dialer d).reads [] (encodeMessage multistreamProtocolId)).1.2 =
    [.outboundData (encodeMessage d)] := by
  have parsed : codec.parse (encodeMessage multistreamProtocolId) =
      .ok (some (multistreamProtocolId, [])) := by
    have found := codec.parse_encode [] header_legal
    rwa [append_nil] at found
  have running : (reader .dialer (some d) []).stopped (.waitingForRemoteHeader, []) = false := rfl
  have reads : (dialer d).reads [] (encodeMessage multistreamProtocolId) = codec.read
      (reader .dialer (some d) []) (.waitingForRemoteHeader, [])
        (encodeMessage multistreamProtocolId) :=
    rfl
  rw [reads, read_item running parsed, read_wait codec.parse_nil]
  simp [reader, handleMessage]

theorem dialer_reads (legal : Legal d) (other : d ≠ notAvailable) {got rest : List UInt8}
    (same : got ++ rest = codec.encodeAll [multistreamProtocolId, reply d S]) :
    (((dialer d).reads [] got).1.2 = [] ∨
        ((dialer d).reads [] got).1.2 = [.outboundData (encodeMessage d)]) ∧ rest ≠ [] ∨
      ((dialer d).reads [] got).1 = (.done, [.outboundData (encodeMessage d), verdict d S]) ∧
        rest = [] := by
  have legals : Legal multistreamProtocolId ∧ Legal (reply d S) := by
    refine ⟨header_legal, ?_⟩
    rw [reply]
    split
    · exact legal
    · exact notAvailable_legal
  have reads : (dialer d).reads [] got = codec.read (reader .dialer (some d) [])
    (.waitingForRemoteHeader, []) got := rfl
  rw [reads]
  rcases read_two (r := reader .dialer (some d) []) (s := (.waitingForRemoteHeader, []))
    legals rfl (by simp [reader, handleMessage]) same with ⟨early, more⟩ | ⟨whole, last⟩
  · refine .inl ⟨?_, more⟩
    rcases early with early | early
    · exact .inl (by rw [early])
    · exact .inr (by rw [early]; simp [reader, handleMessage])
  · refine .inr ⟨?_, last⟩
    rw [whole]
    by_cases supported : d ∈ S
    · simp [reader, handleMessage, reply, verdict, supported]
    · simp [reader, handleMessage, reply, verdict, supported, Ne.symm other]

theorem selects_both (legal : Legal d) {m : MultistreamSelect}
    (fresh : m = dialer d ∨ m = listener [d]) :
    m.reads [] (codec.encodeAll [multistreamProtocolId, d]) =
      ((.done, [.outboundData (encodeMessage d), .negotiated d]), []) := by
  rcases fresh with rfl | rfl
  · rcases read_two (r := reader .dialer (some d) []) (s := (.waitingForRemoteHeader, []))
      ⟨header_legal, legal⟩ rfl (by simp [reader, handleMessage]) (append_nil _) with
      ⟨-, more⟩ | ⟨whole, -⟩
    · exact absurd rfl more
    · exact whole.trans (by simp [reader, handleMessage])
  · rcases read_two (r := reader .listener none [d]) (s := (.waitingForRemoteHeader, []))
      ⟨header_legal, legal⟩ rfl (by simp [reader, handleMessage]) (append_nil _) with
      ⟨-, more⟩ | ⟨whole, -⟩
    · exact absurd rfl more
    · exact whole.trans (by simp [reader, handleMessage])

end MultistreamSelect

/-! ### Both ends -/

structure Joined (m₀ : MultistreamSelect) (own : Station) (got : List UInt8) : Prop where
  fed : Fed m₀ got own.select
  started : own.select.started = true
  said : own.said = .outboundData (encodeMessage multistreamProtocolId) :: (m₀.reads [] got).1.2

namespace Joined

variable {m₀ : MultistreamSelect} {own other : Station} {got : List UInt8}

theorem created (fresh : Fresh m₀) (unstarted : m₀.started = false)
    (silent : m₀.pendingOutputs = []) :
    Joined m₀ ⟨m₀.handleInput .start, [], []⟩ [] := by
  have nothing : m₀.reads [] [] = ((m₀.state, []), []) := read_wait rfl
  have begun : m₀.handleInput .start = { m₀ with
      started := true
      pendingOutputs := [.outboundData (encodeMessage multistreamProtocolId)] } := by
    simp [handleInput, MultistreamSelect.start, unstarted, silent]
  have fed := fresh.fed
  rw [begun]
  exact ⟨⟨rfl, rfl, rfl, fed.state, fed.recvBuf⟩, rfl, by rw [nothing]; rfl⟩

section

variable (joined : Joined m₀ own got)
include joined

theorem start : own.start = own := by
  have silent : own.select.start = ([], own.select) := if_pos joined.started
  rw [Station.start, handleInput, silent]
  dsimp only
  rw [append_nil]

theorem deliver (count : Nat) : Joined m₀ (own.deliver count) (got ++ own.incoming.take count) := by
  obtain ⟨fed, said, -⟩ := joined.fed.more (own.incoming.take count)
  obtain ⟨pending, started⟩ := receive_keeps own.select (own.incoming.take count)
  refine ⟨{ fed with },
    started.trans joined.started, ?_⟩
  have before := joined.said
  unfold Station.said at before ⊢
  rw [said, ← cons_append, ← before, append_assoc, ← pending]
  rfl

theorem poll : Joined m₀ (own.poll other).1 got ∧ (own.poll other).1.incoming = own.incoming ∧
      ∃ taken, (own.poll other).1.outputs = own.outputs ++ taken ∧
        (own.poll other).2 = { other with incoming := other.incoming ++ wireBytes taken } ∧
        (if !own.select.pendingOutputs.isEmpty then 1 else 0) ≤ taken.length := by
  unfold Station.poll pollOutput
  cases pending : own.select.pendingOutputs with
  | nil =>
    refine ⟨joined, rfl, [], (append_nil _).symm, ?_, Nat.le_refl _⟩
    rw [wireBytes, flatMap_nil, append_nil]
  | cons output rest =>
    have fed := joined.fed
    refine ⟨⟨{ fed with },
      joined.started, ?_⟩, rfl, [output], rfl, by simp [wireBytes], Nat.le_refl _⟩
    have before := joined.said
    unfold Station.said at before ⊢
    rw [← before, pending]
    simp

theorem incoming (bytes : List UInt8) :
    Joined m₀ { own with incoming := bytes } got := { joined with }

end

end Joined

namespace Pair

variable {d : String} {S : List String} {p : Pair}

def moves (p : Pair) : Action → Bool
  | .start _ => false
  | .deliver .dialer count => count ≠ 0 && !p.dialer.incoming.isEmpty
  | .deliver .listener count => count ≠ 0 && !p.listener.incoming.isEmpty
  | .poll .dialer => !p.dialer.select.pendingOutputs.isEmpty
  | .poll .listener => !p.listener.select.pendingOutputs.isEmpty

/-- What has been taken at one end has been fed to the other, or is on its way. -/
structure Linked (d : String) (S : List String) (p : Pair) (gotDialer gotListener : List UInt8) :
    Prop where
  dialer : Joined (.dialer d) p.dialer gotDialer
  listener : Joined (.listener S) p.listener gotListener
  toListener : wireBytes p.dialer.outputs = gotListener ++ p.listener.incoming
  toDialer : wireBytes p.listener.outputs = gotDialer ++ p.dialer.incoming

theorem connect_linked (d : String) (S : List String) : Linked d S (connect d S) [] [] :=
  ⟨.created (dialer_fresh d) rfl rfl, .created (listener_fresh S) rfl rfl, rfl, rfl⟩

def progress (p : Pair) (gotDialer gotListener : List UInt8) : Nat :=
  p.dialer.outputs.length + p.listener.outputs.length + gotDialer.length + gotListener.length

theorem take_moves (count : Nat) (incoming : List UInt8) :
    (if count ≠ 0 && !incoming.isEmpty then 1 else 0) ≤ (incoming.take count).length := by
  cases incoming with
  | nil => simp
  | cons byte bytes =>
    cases count with
    | zero => simp
    | succ count => simp

variable {gotListener gotDialer : List UInt8}

theorem wireBytes_more {outputs taken : List MultistreamOutput} {got incoming : List UInt8}
    (before : wireBytes outputs = got ++ incoming) :
    wireBytes (outputs ++ taken) = got ++ (incoming ++ wireBytes taken) := by
  rw [wireBytes, flatMap_append, ← append_assoc, ← before]
  rfl

theorem Linked.step (linked : Linked d S p gotDialer gotListener)
    (action : Action) : ∃ gotDialer' gotListener',
      Linked d S (p.step action) gotDialer' gotListener' ∧
      p.progress gotDialer gotListener + (if p.moves action then 1 else 0) ≤
        (p.step action).progress gotDialer' gotListener' := by
  obtain ⟨dialer, listener, toListener, toDialer⟩ := linked
  cases action with
  | start side =>
    refine ⟨gotDialer, gotListener, ?_⟩
    cases side with
    | dialer =>
      rw [Pair.step, dialer.start]
      exact ⟨⟨dialer, listener, toListener, toDialer⟩, Nat.le_refl _⟩
    | listener =>
      rw [Pair.step, listener.start]
      exact ⟨⟨dialer, listener, toListener, toDialer⟩, Nat.le_refl _⟩
  | deliver side count =>
    cases side with
    | dialer =>
      refine ⟨_, _, ⟨dialer.deliver count, listener, toListener, toDialer.trans ?_⟩, ?_⟩
      · rw [append_assoc]
        exact congrArg _ (take_append_drop ..).symm
      · have taken : (if p.moves (.deliver .dialer count) then 1 else 0) ≤
            (p.dialer.incoming.take count).length := take_moves ..
        simp only [progress, length_append, Pair.step, Station.deliver]
        omega
    | listener =>
      refine ⟨_, _, ⟨dialer, listener.deliver count, toListener.trans ?_, toDialer⟩, ?_⟩
      · rw [append_assoc]
        exact congrArg _ (take_append_drop ..).symm
      · have taken : (if p.moves (.deliver .listener count) then 1 else 0) ≤
            (p.listener.incoming.take count).length := take_moves ..
        simp only [progress, length_append, Pair.step, Station.deliver]
        omega
  | poll side =>
    refine ⟨gotDialer, gotListener, ?_⟩
    cases side with
    | dialer =>
      obtain ⟨joined, incoming, taken, handed, sent, nonempty⟩ :=
        @Joined.poll _ _ p.listener _ dialer
      rw [Pair.step, sent]
      refine ⟨⟨joined, listener.incoming _, by rw [handed]; exact wireBytes_more toListener,
        by rw [incoming]; exact toDialer⟩, ?_⟩
      have counted : (if p.moves (.poll .dialer) then 1 else 0) ≤ taken.length := nonempty
      simp only [progress, handed, length_append]
      omega
    | listener =>
      obtain ⟨joined, incoming, taken, handed, sent, present⟩ :=
        @Joined.poll _ _ p.dialer _ listener
      rw [Pair.step, sent]
      refine ⟨⟨dialer.incoming _, joined, by rw [incoming]; exact toListener,
        by rw [handed]; exact wireBytes_more toDialer⟩, ?_⟩
      have counted : (if p.moves (.poll .listener) then 1 else 0) ≤ taken.length := present
      simp only [progress, handed, length_append]
      omega

theorem run_linked (d : String) (S : List String) (actions : List Action) :
    ∃ gotDialer gotListener, Linked d S (run (connect d S) actions) gotDialer gotListener := by
  induction actions using List.reverseRecOn with
  | nil => exact ⟨[], [], connect_linked d S⟩
  | append_singleton actions action ih =>
    obtain ⟨gotDialer, gotListener, linked⟩ := ih
    obtain ⟨gotDialer', gotListener', linked', -⟩ := linked.step action
    rw [run, foldl_append, foldl_cons]
    exact ⟨gotDialer', gotListener', linked'⟩

/-! ### Agreement -/

theorem wireBytes_said {own : Station} {got incoming : List UInt8}
    (taken : wireBytes own.outputs = got ++ incoming) : got <+: wireBytes own.said := by
  refine ⟨incoming ++ wireBytes own.select.pendingOutputs, ?_⟩
  rw [← append_assoc, ← taken, wireBytes, wireBytes, ← flatMap_append]
  rfl

namespace Linked

variable {gotDialer gotListener : List UInt8}

theorem listens (linked : Linked d S p gotDialer gotListener) :
    ∃ rest, gotListener ++ rest = codec.encodeAll [multistreamProtocolId, d] := by
  refine (wireBytes_said linked.toListener).trans ?_
  rw [linked.dialer.said, wireBytes, encodeAll_cons, encodeAll_cons, encodeAll_nil,
    append_nil]
  exact (prefix_append_right_inj _).mpr (dialer_wire d gotDialer)

theorem listener_said (linked : Linked d S p gotDialer gotListener) (legal : Legal d) :
    p.listener.said = [.outboundData (encodeMessage multistreamProtocolId)] ∧
        gotListener ≠ codec.encodeAll [multistreamProtocolId, d] ∨
      p.listener.said = .outboundData (encodeMessage multistreamProtocolId) :: answer d S := by
  obtain ⟨rest, same⟩ := linked.listens
  rw [linked.listener.said]
  rcases listener_reads (S := S) legal same with ⟨silent, more⟩ | ⟨answers, -⟩
  · rw [silent]
    refine .inl ⟨rfl, fun whole => more ?_⟩
    rw [whole] at same
    exact append_right_eq_self.mp same
  · rw [answers]
    exact .inr rfl

theorem wireBytes_answer (d : String) (S : List String) :
    wireBytes (answer d S) = encodeMessage (reply d S) := by
  unfold answer reply
  split
  · simp [wireBytes, wire]
  · simp [wireBytes, wire]

theorem dials (linked : Linked d S p gotDialer gotListener) (legal : Legal d) :
    ∃ rest, gotDialer ++ rest = codec.encodeAll [multistreamProtocolId, reply d S] := by
  refine (wireBytes_said linked.toDialer).trans ?_
  rcases linked.listener_said legal with ⟨silent, -⟩ | answers
  · rw [silent]
    exact ⟨encodeMessage (reply d S), by simp [wireBytes, wire, encodeAll, codec]⟩
  · rw [answers]
    refine ⟨[], ?_⟩
    change _ ++ wireBytes (answer d S) ++ [] = _
    rw [wireBytes_answer]
    simp [wire, encodeAll, codec]

theorem dialer_said (linked : Linked d S p gotDialer gotListener) (legal : Legal d)
    (other : d ≠ notAvailable) :
    (p.dialer.said = [.outboundData (encodeMessage multistreamProtocolId)] ∨
        p.dialer.said = [.outboundData (encodeMessage multistreamProtocolId),
          .outboundData (encodeMessage d)]) ∧
        gotDialer ≠ codec.encodeAll [multistreamProtocolId, reply d S] ∨
      p.dialer.said = [.outboundData (encodeMessage multistreamProtocolId),
          .outboundData (encodeMessage d), verdict d S] ∧
        p.dialer.select.state = .done ∧
        p.listener.said = .outboundData (encodeMessage multistreamProtocolId) :: answer d S := by
  obtain ⟨rest, same⟩ := linked.dials legal
  rw [linked.dialer.said]
  rcases dialer_reads legal other same with ⟨early, more⟩ | ⟨reads, last⟩
  · refine .inl ⟨early.imp (congrArg _) (congrArg _), fun whole => more ?_⟩
    rw [whole] at same
    exact append_right_eq_self.mp same
  · rw [last, append_nil] at same
    refine .inr ⟨by rw [reads], by rw [linked.dialer.fed.state, reads], ?_⟩
    rcases linked.listener_said legal with ⟨silent, -⟩ | answers
    · have size := (wireBytes_said linked.toDialer).length_le
      rw [silent, same] at size
      have more : 0 < (encodeMessage (reply d S)).length := by
        simp only [encodeMessage, length_append, length_singleton]
        omega
      simp only [wireBytes, wire, encodeAll, codec, flatMap_cons,
        flatMap_nil, map_cons, map_nil, flatten_cons, flatten_nil,
        append_nil, length_append] at size
      omega
    · exact answers

theorem quiet_outputs {own : Station} (quiet : own.quiet = true) :
    own.outputs = own.said ∧ own.incoming = [] := by
  simp only [Station.quiet, Bool.and_eq_true, List.isEmpty_iff] at quiet
  rw [Station.said, quiet.1, append_nil]
  exact ⟨rfl, quiet.2⟩

theorem rests (linked : Linked d S p gotDialer gotListener) (legal : Legal d)
    (other : d ≠ notAvailable) (quiet : p.quiet = true) :
    p.dialer.outputs = [.outboundData (encodeMessage multistreamProtocolId),
        .outboundData (encodeMessage d), verdict d S] ∧
      p.dialer.select.state = .done ∧
      p.listener.outputs = .outboundData (encodeMessage multistreamProtocolId) :: answer d S := by
  simp only [Pair.quiet, Bool.and_eq_true] at quiet
  obtain ⟨dialer, toDialer⟩ := quiet_outputs quiet.1
  obtain ⟨listener, toListener⟩ := quiet_outputs quiet.2
  have fedDialer : gotDialer = wireBytes p.listener.said := by
    rw [← listener, linked.toDialer, toDialer, append_nil]
  have fedListener : gotListener = wireBytes p.dialer.said := by
    rw [← dialer, linked.toListener, toListener, append_nil]
  -- the listener's header alone makes the dialer propose, and the proposal makes it answer
  have answers : p.listener.said =
      .outboundData (encodeMessage multistreamProtocolId) :: answer d S := by
    rcases linked.listener_said legal with ⟨silent, unasked⟩ | answers
    · rw [silent] at fedDialer
      have header : gotDialer = encodeMessage multistreamProtocolId := by
        simpa [wireBytes, wire] using fedDialer
      have proposes := linked.dialer.said
      rw [header, dialer_header] at proposes
      rw [proposes] at fedListener
      refine absurd ?_ unasked
      rw [fedListener]
      simp [wireBytes, wire, encodeAll, codec]
    · exact answers
  have fed : gotDialer = codec.encodeAll [multistreamProtocolId, reply d S] := by
    rw [fedDialer, answers, wireBytes]
    change _ ++ wireBytes (answer d S) = _
    rw [wireBytes_answer]
    simp [wire, encodeAll, codec]
  rcases linked.dialer_said legal other with ⟨-, unfed⟩ | ⟨said, done, -⟩
  · exact absurd fed unfed
  · exact ⟨dialer.trans said, done, listener.trans answers⟩

theorem agrees (linked : Linked d S p gotDialer gotListener) (legal : Legal d)
    (other : d ≠ notAvailable) : Agrees d S p := by
  have answered (supported : d ∈ S) :
      answer d S = [.outboundData (encodeMessage d), .negotiated d] :=
    if_pos supported
  have refused (unsupported : d ∉ S) :
      answer d S = [.outboundData (encodeMessage notAvailable), .notAvailable] := if_neg unsupported
  constructor
  · intro protocol member
    rcases linked.dialer_said legal other with ⟨said | said, -⟩ | ⟨said, -, answers⟩
    · simp [said] at member
    · simp [said] at member
    · rw [answers]
      by_cases supported : d ∈ S
      · have same : protocol = d := by simpa [said, verdict, supported] using member
        exact ⟨same, supported, by simp [answered supported]⟩
      · simp [said, verdict, supported] at member
  · intro protocol member
    rcases linked.listener_said legal with ⟨said, -⟩ | said
    · simp [said] at member
    · by_cases supported : d ∈ S
      · have same : protocol = d := by simpa [said, answered supported] using member
        exact ⟨same, supported⟩
      · simp [said, refused supported] at member
  · intro reason
    constructor
    · rcases linked.dialer_said legal other with ⟨said | said, -⟩ | ⟨said, -, -⟩
      · simp [said]
      · simp [said]
      · by_cases supported : d ∈ S
        · simp [said, verdict, supported]
        · simp [said, verdict, supported]
    · rcases linked.listener_said legal with ⟨said, -⟩ | said
      · simp [said]
      · by_cases supported : d ∈ S
        · simp [said, answered supported]
        · simp [said, refused supported]
  · intro quiet
    obtain ⟨dialer, done, listener⟩ := linked.rests legal other quiet
    split
    · rename_i supported
      rw [dialer, listener, answered supported]
      simp [verdict, supported]
    · rename_i unsupported
      rw [dialer]
      exact ⟨by simp [verdict, unsupported], done⟩

end Linked

/-! ### Rest -/

def busy (p : Pair) : List Action → Nat
  | [] => 0
  | action :: actions => (if p.moves action then 1 else 0) + busy (p.step action) actions

def traffic (d : String) (S : List String) : Nat :=
  6 + (codec.encodeAll [multistreamProtocolId, d]).length +
    (codec.encodeAll [multistreamProtocolId, reply d S]).length

theorem Linked.busy_le (linked : Linked d S p gotDialer gotListener) (legal : Legal d)
    (other : d ≠ notAvailable)
    (actions : List Action) : p.busy actions + p.progress gotDialer gotListener ≤ traffic d S := by
  induction actions generalizing p gotDialer gotListener with
  | nil =>
    obtain ⟨restListener, listens⟩ := linked.listens
    obtain ⟨restDialer, dials⟩ := linked.dials legal
    have readListener := congrArg List.length listens
    have readDialer := congrArg List.length dials
    rw [length_append] at readListener readDialer
    have dialer : p.dialer.said.length ≤ 3 := by
      rcases linked.dialer_said legal other with ⟨said | said, -⟩ | ⟨said, -, -⟩
      all_goals simp [said]
    have listener : p.listener.said.length ≤ 3 := by
      rcases linked.listener_said legal with ⟨said, -⟩ | said
      · simp [said]
      · rw [said, answer]
        split <;> simp
    rw [Station.said, length_append] at dialer listener
    unfold busy progress traffic
    omega
  | cons action actions ih =>
    obtain ⟨gotDialer', gotListener', linked', further⟩ := linked.step action
    have rest := ih linked'
    unfold busy
    omega

/-- Two negotiators agree in every run, and every run comes to rest. -/
theorem multistream_agreement {d : String} (S : List String) (legal : Legal d)
    (other : d ≠ notAvailable) (actions : List Action) :
    Agrees d S (run (connect d S) actions) ∧ busy (connect d S) actions ≤ traffic d S := by
  obtain ⟨gotDialer, gotListener, linked⟩ := run_linked d S actions
  have bounded := (connect_linked d S).busy_le legal other actions
  exact ⟨linked.agrees legal other, by omega⟩

def exchange : List Action :=
  [.poll .dialer, .poll .listener, .deliver .listener 2000, .deliver .dialer 2000,
    .poll .dialer, .deliver .listener 2000, .poll .listener, .poll .listener,
    .deliver .dialer 2000, .poll .dialer]

/-- A line of no bytes is no protocol: the listener reports an error. -/
theorem empty_protocol_fails :
    "" ≠ notAvailable ∧ ¬ Agrees "" [] (run (connect "" []) exchange) := by
  refine ⟨by decide, fun agrees => ?_⟩
  have clean := (agrees.sound MultistreamError.emptyProtocol.toString).2
  exact clean (by decide +kernel)

theorem multistream_agreement_ping : (run (connect "/ping" ["/ping"]) exchange).quiet = true ∧
    Agrees "/ping" ["/ping"] (run (connect "/ping" ["/ping"]) exchange) ∧
    busy (connect "/ping" ["/ping"]) exchange ≤ traffic "/ping" ["/ping"] :=
  ⟨by decide +kernel,
    multistream_agreement ["/ping"] (by decide +kernel) (by decide) exchange⟩

end Pair

end Multistream
