import MiniP2P.SecureMux.Pair

/-! Both ends of an honest pair at once: what one has written the other has read or is to read, and
every step keeps it so. -/
namespace SecureMux
open Fallible Identity List SessionRole
open Noise (Primitives NoiseSession Script frames noiseProtocolId)
open Transport (StreamId)
open Yamux (YamuxConfig YamuxOutput YamuxSession yamuxProtocolId)

variable {P : Primitives}

@[simp] theorem SessionRole.other_other (role : SessionRole) : role.other.other = role := by
  cases role <;> rfl

theorem SessionRole.other_ne (role : SessionRole) : role ≠ role.other := by cases role <;> nofun

variable {initiator responder : SessionConfig P} {S : Script initiator.noise responder.noise}
  {fresh : SessionRole → YamuxSession} {role : SessionRole}
  {log : List (Move × Answer)} {p : Pair P}

/-! ### Both ends -/

structure End (S : Script initiator.noise responder.noise) (fresh : SessionRole → YamuxSession)
    (role : SessionRole) (log : List (Move × Answer)) (own other : Station P) (x y : Bearing)
    (fed : List UInt8) : Prop where
  sits : Sits S role y (own.incoming ++ wireOf other.session.outputs) (fresh role) fed
    (outputsOf role log) x own.session
  heard : wireOf (outputsOf role.other log) = fed ++ own.incoming
  acc : ∀ id : UInt32, x.tale.acc id = sentOf role id.toNat log

def Joint (S : Script initiator.noise responder.noise) (fresh : SessionRole → YamuxSession)
    (role : SessionRole) (log : List (Move × Answer)) (p : Pair P) : Prop :=
  ∃ x y fed fed', End S fresh role log (p role) (p role.other) x y fed ∧
    End S fresh role.other log (p role.other) (p role) y x fed'

theorem Joint.seen (joint : Joint S fresh role log p) (side : SessionRole) :
    Joint S fresh side log p := by
  obtain ⟨x, y, fed, fed', here, there⟩ := joint
  cases role <;> cases side
  · exact ⟨x, y, fed, fed', here, there⟩
  · exact ⟨y, x, fed', fed, there, here⟩
  · exact ⟨y, x, fed', fed, there, here⟩
  · exact ⟨x, y, fed, fed', here, there⟩

namespace End

variable {own other : Station P} {x y : Bearing} {fed fed' : List UInt8}

theorem spoken (here : End S fresh role log own other x y fed)
    (there : End S fresh role.other log other own y x fed') :
    Continues noiseProtocolId (fed' ++ (other.incoming ++ wireOf own.session.outputs))
      (frames.encodeAll x.record.sent) := by
  obtain ⟨phase, -, stage⟩ := here.sits.stage
  have spoken := stage.spoken
  have heard := there.heard
  rw [other_other] at heard
  rwa [wireOf_append, heard, append_assoc] at spoken

theorem fair (here : End S fresh role log own other x y fed) : Fair S role.other x := by
  obtain ⟨phase, -, stage⟩ := here.sits.stage
  exact stage.fair

theorem outputs_entry {side : SessionRole} {move : Move} {a : Answer}
    (silent : move.role = side → a.handed = []) :
    outputsOf side (log ++ [(move, a)]) = outputsOf side log := by
  rw [outputsOf, flatMap_append, flatMap_singleton]
  split
  · rw [silent ‹_›]
    exact append_nil _
  · exact append_nil _

theorem sent_entry (side : SessionRole) (stream : StreamId) (move : Move) (a : Answer) :
    sentOf side stream (log ++ [(move, a)]) = sentOf side stream log ++
      move.taken side stream a := by
  rw [sentOf, flatMap_append, flatMap_singleton]
  rfl

theorem taken_other {side : SessionRole} {move : Move} (ne : move.role ≠ side) (stream : StreamId)
    (a : Answer) : move.taken side stream a = [] := by
  cases move with
  | request s r => exact if_neg ne
  | deliver s count => rfl

theorem advance (here : End S fresh role log own other x y fed)
    (there : End S fresh role.other log other own y x fed') {move : Move} {a : Answer}
    (mover : move.role = role) (silent : a.handed = []) {own' : Station P} {x' : Bearing}
    {fed₁ : List UInt8}
    (sits : Sits S role y (own'.incoming ++ wireOf other.session.outputs) (fresh role) fed₁
      (outputsOf role log) x' own'.session)
    (heard : fed ++ own.incoming = fed₁ ++ own'.incoming) (sent : x.record.sent <+: x'.record.sent)
    (acc : ∀ id : UInt32, x'.tale.acc id = x.tale.acc id ++ move.taken role id.toNat a) :
    End S fresh role (log ++ [(move, a)]) own' other x' y fed₁ ∧
      End S fresh role.other (log ++ [(move, a)]) other own' y x' fed' := by
  have same (side : SessionRole) : outputsOf side (log ++ [(move, a)]) = outputsOf side log :=
    outputs_entry fun _ => silent
  have here' : End S fresh role (log ++ [(move, a)]) own' other x' y fed₁ := by
    refine ⟨?_, ?_, fun id => ?_⟩
    · rw [same]
      exact sits
    · rw [same, here.heard, heard]
    · rw [acc, here.acc, sent_entry]
  have hears : wireOf (outputsOf role.other.other (log ++ [(move, a)])) =
      fed' ++ other.incoming := by
    rw [same]
    exact there.heard
  obtain ⟨phase, found, stage⟩ := sits.stage
  refine ⟨here', ⟨there.sits.acts, there.sits.limits, ?_⟩, hears, fun id => ?_⟩
  · obtain ⟨phase', found', stage'⟩ := there.sits.stage
    refine ⟨phase', found', ?_⟩
    rw [same]
    refine stage'.follow (here.spoken there) ?_ sent stage.meets.symm
    rw [other_other, same] at hears
    have spoken' := stage.spoken
    rwa [wireOf_append, hears, append_assoc] at spoken'
  · rw [sent_entry, taken_other (mover ▸ role.other_ne), append_nil]
    exact there.acc id

theorem hands (here : End S fresh role log own other x y fed)
    (there : End S fresh role.other log other own y x fed') {output : SessionOutput}
    {rest : List SessionOutput} (queue : own.session.outputs = output :: rest) :
    End S fresh role (log ++ [(.request role .pollOutput, .output (some output))])
        { own with session := { own.session with outputs := rest } }
        { other with incoming := other.incoming ++ output.wire } x y fed ∧
      End S fresh role.other (log ++ [(.request role .pollOutput, .output (some output))])
        { other with incoming := other.incoming ++ output.wire }
        { own with session := { own.session with outputs := rest } } y x fed' := by
  have taken : outputsOf role (log ++ [(.request role .pollOutput, .output (some output))]) =
      outputsOf role log ++ [output] := by
    simp [outputsOf, Move.role, Answer.handed]
  have kept : outputsOf role.other (log ++ [(.request role .pollOutput, .output (some output))]) =
      outputsOf role.other log := outputs_entry fun same => absurd same role.other_ne
  have acc {side : SessionRole} (stream : StreamId) :
      sentOf side stream (log ++ [(.request role .pollOutput, .output (some output))]) =
        sentOf side stream log := by
    rw [sent_entry]
    simp [Move.taken, Request.taken]
  refine ⟨⟨⟨here.sits.acts, here.sits.limits, ?_⟩, ?_, fun id => ?_⟩,
    ⟨⟨there.sits.acts, there.sits.limits, ?_⟩, ?_, fun id => ?_⟩⟩
  · obtain ⟨phase, found, stage⟩ := here.sits.stage
    refine ⟨phase, found, ?_⟩
    rw [taken, append_assoc]
    rw [queue] at stage
    exact stage
  · rw [kept]
    exact here.heard
  · rw [acc]
    exact here.acc id
  · obtain ⟨phase, found, stage⟩ := there.sits.stage
    refine ⟨phase, found, ?_⟩
    rw [kept]
    rw [queue] at stage
    have way : other.incoming ++ wireOf (output :: rest) =
        other.incoming ++ output.wire ++ wireOf rest :=
      (append_assoc ..).symm
    rw [way] at stage
    exact stage
  · have heard := there.heard
    rw [other_other] at heard ⊢
    rw [taken, wireOf_append, heard]
    simp [wireOf]
  · rw [acc]
    exact there.acc id

end End

/-- What is taken for granted of both configurations: their multiplexers are valid. -/
def Created (initiator responder : SessionConfig P) (fresh : SessionRole → YamuxSession) : Prop :=
  ∀ role, YamuxSession.withConfig (yamuxRole role) (role.pick initiator responder).yamux =
    .ok (fresh role)

theorem Created.unsaid (created : Created initiator responder fresh) (role : SessionRole) :
    (fresh role).core.pending = [] := by
  obtain ⟨valid, -, same⟩ := YamuxSession.withConfig_ok (created role)
  rw [same]
  rfl

/-- How a step of an honest pair may end: its error is the last, or both ends go on. -/
def Goes (S : Script initiator.noise responder.noise) (fresh : SessionRole → YamuxSession)
    (role : SessionRole) (log : List (Move × Answer)) (p : Pair P) (move : Move) : Prop :=
  ∃ a p', p.step move = some (a, p') ∧ (a.error? = some exhausted ∨
    (∀ e, a.error? = some e → e.isFatal = false) ∧ Joint S fresh role (log ++ [(move, a)]) p')

theorem Joint.polls (joint : Joint S fresh role log p) :
    Goes S fresh role log p (.request role .pollOutput) := by
  obtain ⟨x, y, fed, fed', here, there⟩ := joint
  unfold Goes
  rw [Pair.step, Request.call, SecureMuxSession.call, SecureMuxSession.pollOutput]
  cases queue : (p role).session.outputs with
  | nil =>
    refine ⟨_, _, rfl, .inr ⟨by simp [Answer.error?], x, y, fed, fed', ?_⟩⟩
    have moved := @End.advance _ _ _ _ _ _ _ _ _ _ _ _ _ here there (.request role .pollOutput)
      (.output none) rfl rfl (p role) x fed here.sits rfl (prefix_refl _)
      (fun id => by simp [Move.taken, Request.taken])
    simpa [Answer.handed, wireOf] using moved
  | cons output rest =>
    refine ⟨_, _, rfl, .inr ⟨by simp [Answer.error?], x, y, fed, fed', ?_⟩⟩
    simpa [Answer.handed, wireOf] using here.hands there queue

theorem Joint.requests (lawful : P.Lawful) (joint : Joint S fresh role log p) {r : Request}
    (asks : r ≠ .pollOutput) : Goes S fresh role log p (.request role r) := by
  obtain ⟨x, y, fed, fed', here, there⟩ := joint
  obtain ⟨a, session', called, silent, served⟩ := here.sits.request lawful r asks
  unfold Goes
  rw [Pair.step, called]
  refine ⟨a, _, rfl, served.imp_right ?_⟩
  rintro ⟨mild, x', sits, sent, acc⟩
  refine ⟨mild, x', y, fed, fed', ?_⟩
  have moved := @End.advance _ _ _ _ _ _ _ _ _ _ _ _ _ here there (.request role r) a rfl silent
    { p role with session := session' } x' fed sits rfl sent
    (fun id => by rw [acc]; simp [Move.taken])
  simpa [silent, wireOf] using moved

theorem Joint.delivers (lawful : P.Lawful) (created : Created initiator responder fresh)
    (joint : Joint S fresh role log p) (count : Nat) :
    Goes S fresh role log p (.deliver role count) := by
  obtain ⟨x, y, fed, fed', here, there⟩ := joint
  have fair := there.fair
  have spoken := there.spoken (by rw [other_other]; exact here)
  have sits := here.sits
  rw [other_other] at fair
  rw [← take_append_drop count (p role).incoming, append_assoc] at sits spoken
  obtain ⟨answer, session', fed₁, served⟩ :=
    sits.feeds lawful fair (created role) (created.unsaid role) spoken
  unfold Goes
  rw [Pair.step, SecureMuxSession.call, fed₁]
  have errors : (Answer.done answer).error? = errorOf answer := by cases answer <;> rfl
  refine ⟨.done answer, _, rfl, ?_⟩
  rw [errors]
  refine served.imp_right ?_
  rintro ⟨mild, x', sits', sent, acc⟩
  refine ⟨mild, x', y, fed ++ (p role).incoming.take count, fed', ?_⟩
  have moved :=
    @End.advance _ _ _ _ _ _ _ _ _ _ _ _ _ here there (.deliver role count) (.done answer)
    rfl rfl ⟨session', (p role).incoming.drop count⟩ x' _ sits'
    (by rw [append_assoc, take_append_drop]) sent acc
  simpa using moved

theorem Joint.step (lawful : P.Lawful) (created : Created initiator responder fresh)
    (joint : Joint S fresh role log p) (move : Move) : Goes S fresh role log p move := by
  have goes : Goes S fresh move.role log p move := by
    cases move with
    | request side r =>
      by_cases polls : r = .pollOutput
      · subst polls
        exact (joint.seen side).polls
      · exact (joint.seen side).requests lawful polls
    | deliver side count => exact (joint.seen side).delivers lawful created count
  obtain ⟨a, p', stepped, ended⟩ := goes
  exact ⟨a, p', stepped, ended.imp_right fun ⟨mild, joint'⟩ => ⟨mild, joint'.seen role⟩⟩

end SecureMux
