import MiniP2P.Multistream.Pair
import MiniP2P.SecureMux.Work

/-! The two negotiations of an honest pair. Each end says the header and the protocol, and knows
that it is done when it has heard as much. -/
namespace SecureMux
open Fallible Incremental List
open Multistream (MultistreamSelect MultistreamOutput MultistreamInput MultistreamSelect.Fed
  multistreamProtocolId encodeMessage wireBytes)
open Noise (noiseProtocolId)
open Yamux (yamuxProtocolId)

variable (protocol : String)

def Proposable : Prop :=
  Multistream.Legal protocol ∧ protocol ≠ Multistream.notAvailable

theorem noise_proposable : Proposable noiseProtocolId := ⟨by decide +kernel, by decide +kernel⟩

theorem yamux_proposable : Proposable yamuxProtocolId := ⟨by decide +kernel, by decide +kernel⟩

def agreement : List UInt8 :=
  Multistream.codec.encodeAll [multistreamProtocolId, protocol]

theorem agreement_eq :
    agreement protocol = encodeMessage multistreamProtocolId ++ encodeMessage protocol := by
  simp [agreement, Codec.encodeAll, Multistream.codec]

def uttered (role : SessionRole) (protocol : String) (heard : List UInt8) : List UInt8 :=
  encodeMessage multistreamProtocolId ++ wireBytes ((selector role protocol).reads [] heard).1.2

/-- These bytes are the beginning of it, and not all of it. -/
def Begins (heard : List UInt8) : Prop :=
  ∃ rest, rest ≠ [] ∧ heard ++ rest = agreement protocol

variable {role : SessionRole} {protocol : String} {heard : List UInt8}

theorem Begins.reads (begins : Begins protocol heard) (proposable : Proposable protocol)
    (role : SessionRole) :
    ((selector role protocol).reads [] heard).1.2 = [] ∨
      ((selector role protocol).reads [] heard).1.2 = [.outboundData (encodeMessage protocol)] := by
  obtain ⟨rest, more, same⟩ := begins
  cases role with
  | initiator =>
    have supported : Multistream.MultistreamSelect.reply protocol [protocol] = protocol :=
      if_pos (by simp)
    rw [← supported] at same
    rcases MultistreamSelect.dialer_reads proposable.1 proposable.2 same with ⟨waits, -⟩
        | ⟨-, nothing⟩
    · exact waits
    · exact absurd nothing more
  | responder =>
    rcases MultistreamSelect.listener_reads (S := [protocol]) proposable.1 same with
      ⟨silent, -⟩ | ⟨-, nothing⟩
    · exact .inl silent
    · exact absurd nothing more

theorem agreement_reads (proposable : Proposable protocol) (role : SessionRole)
    (more : List UInt8) :
    (selector role protocol).reads [] (agreement protocol ++ more) =
      ((.done, [.outboundData (encodeMessage protocol), .negotiated protocol]), more) := by
  have whole : (selector role protocol).reads [] (agreement protocol) =
      ((.done, [.outboundData (encodeMessage protocol), .negotiated protocol]), []) :=
    MultistreamSelect.selects_both proposable.1 (by cases role <;> simp [selector])
  refine (Incremental.read_append ..).trans ?_
  have read : Multistream.codec.read _ _ (agreement protocol) = _ := whole
  rw [read]
  exact Incremental.read_stopped rfl

theorem Begins.uttered (begins : Begins protocol heard) (proposable : Proposable protocol)
    (role : SessionRole) : uttered role protocol heard <+: agreement protocol := by
  rw [agreement_eq, SecureMux.uttered, prefix_append_right_inj]
  rcases begins.reads proposable role with silent | proposed
  · rw [silent]
    exact nil_prefix
  · rw [proposed]
    simp [wireBytes, MultistreamOutput.wire]

theorem Begins.proposed (begins : Begins protocol heard) (proposable : Proposable protocol)
    (greeted : encodeMessage multistreamProtocolId <+: heard) :
    SecureMux.uttered .initiator protocol heard = agreement protocol := by
  obtain ⟨more, rfl⟩ := greeted
  have fresh := (MultistreamSelect.dialer_fresh protocol).fed
  obtain ⟨first, -, -⟩ := fresh.more (encodeMessage multistreamProtocolId)
  obtain ⟨-, said, -⟩ := first.more more
  rw [nil_append, MultistreamSelect.dialer_header] at said
  have both : ((selector .initiator protocol).reads []
      (encodeMessage multistreamProtocolId ++ more)).1.2 =
        [.outboundData (encodeMessage protocol)] := by
    rcases begins.reads proposable .initiator with silent | proposed
    · rw [selector, said] at silent
      cases silent
    · exact proposed
  rw [SecureMux.uttered, both, agreement_eq]
  simp [wireBytes, MultistreamOutput.wire]

theorem Begins.short {protocol : String} {heard : List UInt8} (begins : Begins protocol heard)
    (whole : agreement protocol <+: heard) : False := by
  obtain ⟨rest, more, split⟩ := begins
  have length := congrArg List.length split
  have bound := whole.length_le
  rw [length_append] at length
  exact more (length_eq_zero_iff.mp (by omega))

theorem both_agreed {heard' : List UInt8} (proposable : Proposable protocol)
    {said said' : List UInt8} (same : heard = said') (same' : heard' = said)
    (here : Begins protocol heard ∧ said = uttered .initiator protocol heard ∨
      agreement protocol <+: heard ∧ agreement protocol <+: said)
    (there : Begins protocol heard' ∧ said' = uttered .responder protocol heard' ∨
      agreement protocol <+: heard' ∧ agreement protocol <+: said') :
    agreement protocol <+: heard ∧ agreement protocol <+: heard' := by
  subst same same'
  rcases there with ⟨begins', rfl⟩ | ⟨heard', said'⟩
  · rcases here with ⟨begins, whole⟩ | ⟨-, said⟩
    · refine (begins'.short ⟨[], ?_⟩).elim
      rw [append_nil, whole, begins.proposed proposable (prefix_append ..)]
    · exact (begins'.short said).elim
  · exact ⟨said', heard'⟩

/-- A negotiator that was started, has been fed these bytes and had its outputs taken. -/
structure Talks (role : SessionRole) (protocol : String) (heard : List UInt8)
    (select : MultistreamSelect) : Prop where
  fed : MultistreamSelect.Fed (selector role protocol) heard select
  begun : select.started = true
  quiet : select.pendingOutputs = []
  begins : Begins protocol heard

variable {select : MultistreamSelect}

theorem Talks.new (role : SessionRole) (protocol : String) :
    Talks role protocol [] (takeOutputs ((selector role protocol).handleInput .start)) ∧
      ((selector role protocol).handleInput .start).pendingOutputs =
        [.outboundData (encodeMessage multistreamProtocolId)] ∧
      uttered role protocol [] = encodeMessage multistreamProtocolId := by
  have nothing : (selector role protocol).reads [] [] = ((.waitingForRemoteHeader, []), []) := by
    cases role <;> rfl
  have fresh : MultistreamSelect.Fed (selector role protocol) [] (selector role protocol) := by
    cases role
    · exact (MultistreamSelect.dialer_fresh protocol).fed
    · exact (MultistreamSelect.listener_fresh [protocol]).fed
  have begun : (selector role protocol).started = false ∧
      (selector role protocol).pendingOutputs = [] := by cases role <;> exact ⟨rfl, rfl⟩
  simp only [takeOutputs, MultistreamSelect.handleInput, MultistreamSelect.start, begun.1, begun.2,
    Bool.false_eq_true, if_false]
  refine ⟨⟨{ fresh with },
    rfl, rfl, agreement protocol, ?_, rfl⟩, rfl, ?_⟩
  · exact fun absent => absurd (append_eq_nil_iff.mp absent).1 (by decide +kernel)
  · rw [uttered, nothing]
    exact append_nil _

section

variable (talks : Talks role protocol heard select)
include talks

theorem Talks.outputs (data : List UInt8) :
    (select.handleInput (.data data)).pendingOutputs = (select.receive data).1 := by
  have kept := (MultistreamSelect.receive_keeps select data).1.trans talks.quiet
  have queued : (select.handleInput (.data data)).pendingOutputs =
      (select.receive data).2.pendingOutputs ++ (select.receive data).1 := rfl
  rw [queued, kept, nil_append]

theorem Talks.waits (proposable : Proposable protocol)
    {data : List UInt8} (begins : Begins protocol (heard ++ data)) :
    Talks role protocol (heard ++ data) (takeOutputs (select.handleInput (.data data))) ∧
      ∃ said : List (List UInt8),
        (select.handleInput (.data data)).pendingOutputs = said.map .outboundData ∧
        uttered role protocol (heard ++ data) = uttered role protocol heard ++ said.flatten := by
  obtain ⟨fed, now, -⟩ := talks.fed.more data
  have begun := (MultistreamSelect.receive_keeps select data).2
  refine ⟨⟨{ fed with },
    begun.trans talks.begun, rfl, begins⟩, ?_⟩
  rw [talks.outputs, uttered, uttered, now]
  rcases begins.reads proposable role with silent | proposed
  · rw [now] at silent
    exact ⟨[], (append_eq_nil_iff.mp silent).2, by
      rw [(append_eq_nil_iff.mp silent).2, append_nil, flatten_nil, append_nil]⟩
  · rw [now] at proposed
    rcases talks.begins.reads proposable role with before | before
    · rw [before] at proposed
      refine ⟨[encodeMessage protocol], proposed, ?_⟩
      rw [before, proposed]
      simp [wireBytes, MultistreamOutput.wire]
    · rw [before] at proposed
      have nothing : (select.receive data).1 = [] := by simpa using proposed
      exact ⟨[], nothing, by rw [nothing, append_nil, flatten_nil, append_nil]⟩

theorem Talks.settles (proposable : Proposable protocol)
    {data more : List UInt8} (whole : heard ++ data = agreement protocol ++ more) :
    (∃ said : List (List UInt8), (select.handleInput (.data data)).pendingOutputs =
        said.map .outboundData ++ [.negotiated protocol] ∧
        agreement protocol = uttered role protocol heard ++ said.flatten) ∧
      (select.handleInput (.data data)).takeRemainingBuffer.1 = more := by
  obtain ⟨-, now, buffer⟩ := talks.fed.more data
  have reads := agreement_reads proposable role more
  rw [← whole] at reads
  rw [reads] at now
  have running : select.state ≠ .done := by
    intro done
    have silent : (select.receive data).1 = [] := by rw [MultistreamSelect.receive, if_pos done]
    rw [silent] at now
    rcases talks.begins.reads proposable role with before | before
    · rw [before] at now
      cases now
    · rw [before] at now
      cases now
  refine ⟨?_, ?_⟩
  · rw [talks.outputs, uttered, agreement_eq]
    rcases talks.begins.reads proposable role with before | before
    · rw [before] at now
      refine ⟨[encodeMessage protocol], now.symm, ?_⟩
      rw [before]
      simp [wireBytes]
    · rw [before] at now
      refine ⟨[], (List.cons.inj now).2.symm, ?_⟩
      rw [before]
      simp [wireBytes, MultistreamOutput.wire]
  · have left : (select.handleInput (.data data)).takeRemainingBuffer.1 =
        (select.receive data).2.recvBuf := rfl
    rw [left, buffer running, reads]

end

/-! ### Sending what a negotiator says -/

section Sends

variable {S : Type} {send : S → List UInt8 → M S} {I : S → List UInt8 → List SessionOutput → Prop}
  {R : Halt → List SessionOutput → Prop} {outputs : List SessionOutput}

theorem drainSelect_talks (sends : ∀ state told outputs bytes, I state told outputs →
      wp (send state bytes) (fun state' outputs' => I state' (told ++ bytes) outputs') R outputs)
    (said : List (List UInt8)) {state : S} {told : List UInt8}
    (holds : I state told outputs) :
    wp (drainSelect send (said.map .outboundData) state)
      (fun state' outputs' => I state' (told ++ said.flatten) outputs') R outputs := by
  induction said generalizing state told outputs with
  | nil =>
    rw [flatten_nil, append_nil]
    exact holds
  | cons bytes said ih =>
    rw [map_cons, drainSelect, wp_bind, flatten_cons, ← append_assoc]
    exact wp_imp (sends state told outputs bytes holds) (fun _ _ kept => ih kept)

theorem followSelect_parts (role : SessionRole) (name protocol : String) (said : List (List UInt8))
    (state : S) (agreed : Bool) (outputs : List SessionOutput) :
    followSelect send role name protocol
        (said.map .outboundData ++ if agreed then [.negotiated protocol] else [])
        state false outputs =
      (do return (← drainSelect send (said.map .outboundData) state, agreed)) outputs := by
  induction said generalizing state outputs with
  | nil =>
    cases agreed
    · rfl
    · simp only [map_nil, nil_append, if_true, followSelect]
      rfl
  | cons bytes said ih =>
    rw [map_cons, cons_append, drainSelect, bind_assoc]
    change EStateM.bind _ _ _ = EStateM.bind _ _ _
    unfold EStateM.bind
    cases send state bytes outputs with
    | ok state' outputs' => exact ih state' outputs'
    | error halt outputs' => rfl

theorem followSelect_talks (sends : ∀ state told outputs bytes, I state told outputs →
      wp (send state bytes) (fun state' outputs' => I state' (told ++ bytes) outputs') R outputs)
    (role : SessionRole) (name protocol : String) (said : List (List UInt8)) (agreed : Bool)
    (state : S) {told : List UInt8} (holds : I state told outputs) :
    wp (followSelect send role name protocol
        (said.map .outboundData ++ if agreed then [.negotiated protocol] else []) state false)
      (fun found outputs' => found.2 = agreed ∧ I found.1 (told ++ said.flatten) outputs')
        R outputs := by
  have parts : wp (followSelect send role name protocol
        (said.map .outboundData ++ if agreed then [.negotiated protocol] else []) state false)
      (fun found outputs' => found.2 = agreed ∧ I found.1 (told ++ said.flatten)
        outputs') R outputs ↔
      wp (do return (← drainSelect send (said.map .outboundData) state, agreed))
        (fun found outputs' => found.2 = agreed ∧ I found.1 (told ++ said.flatten) outputs')
          R outputs := by
    unfold wp
    rw [followSelect_parts]
  rw [parts, wp_bind]
  exact wp_imp (drainSelect_talks sends said holds) (fun _ _ kept => ⟨rfl, kept⟩)

end Sends

end SecureMux
