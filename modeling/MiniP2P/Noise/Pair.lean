import MiniP2P.Noise.Channel
import MiniP2P.Noise.Life

/-! An initiator and a responder joined by two byte channels that may cut and join bytes anywhere,
and every interleaving of calls on both ends. -/
namespace Noise
open Identity Incremental List NoiseSession

variable {P : Primitives}

/-- A session, the bytes in the channel towards it, the outputs it has handed out, and the
plaintexts it has been given to encrypt and accepted. -/
structure Station (P : Primitives) where
  session : NoiseSession P
  incoming : List UInt8
  outputs : List NoiseOutput
  accepted : List (List UInt8)

namespace Station

variable (own : Station P)

def start : Station P :=
  { own with session := (own.session.handleInput .start).2 }

def deliver (count : Nat) : Station P :=
  if own.session.started then
    { own with
      session := (own.session.handleInput (.data (own.incoming.take count))).2
      incoming := own.incoming.drop count }
  else own

def encrypt (plaintext : List UInt8) : Station P :=
  match own.session.handleInput (.encrypt plaintext) with
  | (.ok (), session) => { own with session, accepted := own.accepted ++ [plaintext] }
  | (.error _, session) => { own with session }

def poll : Option NoiseOutput × Station P :=
  let (output, session) := own.session.pollOutput
  (output, { own with session, outputs := own.outputs ++ output.toList })

def quiet : Bool := own.session.pending.isEmpty && own.incoming.isEmpty

end Station

inductive Action where
  | start (role : NoiseRole)
  | deliver (role : NoiseRole) (count : Nat)
  | encrypt (role : NoiseRole) (plaintext : List UInt8)
  | poll (role : NoiseRole)

def Pair (P : Primitives) : Type := NoiseRole → Station P

namespace Pair

def connect (initiator responder : NoiseConfig P) : Pair P := fun role =>
  ⟨.new (role.pick initiator responder), [], [], []⟩

variable (p : Pair P) (role : NoiseRole)

def put (own : Station P) : Pair P := fun other =>
  if other = role then own else p other

def send (outputs : List NoiseOutput) : Pair P :=
  p.put role { p role with incoming := (p role).incoming ++ wireOf outputs }

def step : Action → Pair P
  | .start role => p.put role (p role).start
  | .deliver role count => p.put role ((p role).deliver count)
  | .encrypt role plaintext => p.put role ((p role).encrypt plaintext)
  | .poll role => (p.put role (p role).poll.2).send role.other (p role).poll.1.toList

def run (actions : List Action) : Pair P := actions.foldl step p

def quiet : Bool := (p .initiator).quiet && (p .responder).quiet

@[simp] theorem put_same (own : Station P) : p.put role own role = own :=
  if_pos rfl

@[simp] theorem put_other (own : Station P) : p.put role own role.other = p role.other := by
  cases role <;> rfl

@[simp] theorem put_self : p.put role (p role) = p := by
  funext other
  rw [put]
  split
  · rw [‹other = role›]
  · rfl

theorem put_of_other (own : Station P) : p.put role.other own role = p role := by
  cases role <;> rfl

end Pair

open Pair

/-! ### Both ends -/

variable {initiator responder : NoiseConfig P} {S : Script initiator responder} {role : NoiseRole}

/-- What one end has done, told and read, opposite the other. A failed session has lost outputs
that were not taken. -/
structure End (S : Script initiator responder) (role : NoiseRole) (own other : Station P)
    (mine theirs : Record) (lost lostThere : List NoiseOutput) : Prop where
  speaks : Speaks S role mine.sent mine.segments
  accepted : mine.segments = own.accepted.flatMap NoiseSession.segments
  told : Told mine (own.outputs ++ (own.session.pending ++ lost))
  sure : own.session.failed = false → lost = []
  broken : own.session.failed = true → own.session.pending = [] ∧ Plays.Exhausted own.session
  stands : own.session.failed = false → Stands S role own.session mine theirs.sent
    (own.incoming ++ wireOf (other.session.pending ++ lostThere))
  opens : mine.opened <+: theirs.segments
  reports : mine.report.toList <+: [(role.other.pick initiator responder).report]

variable {session session' : NoiseSession P} {record : Record} {sent segments : List (List UInt8)}
    {more : List UInt8}

theorem Stands.opens (lawful : P.Lawful) (stands : Stands S role session record sent more)
    (speaks : Speaks S role.other sent segments) : record.opened <+: segments := by
  obtain ⟨messages, encrypted, whole⟩ := speaks
  obtain ⟨plays, -, -, -, rest, split, -⟩ := stands
  cases plays with
  | idle | opened | waiting | answered => exact nil_prefix
  | complete _ _ _ _ _ _ _ decrypted =>
    refine encrypted.opens lawful decrypted ?_
    have head := (prefix_append _ rest).trans (split ▸ whole)
    rwa [prefix_append_right_inj] at head

theorem Plays.reports (plays : Plays S session role record) :
    record.report.toList <+: [(role.other.pick initiator responder).report] := by
  cases plays with
  | idle => exact nil_prefix
  | opened => exact nil_prefix
  | waiting => exact nil_prefix
  | answered => exact nil_prefix
  | complete => exact prefix_refl _

theorem Stands.drained (lawful : P.Lawful) (stands : Stands S role session record sent [])
    (speaks : Speaks S role.other sent segments) : record.read = sent := by
  obtain ⟨-, -, -, rests, rest, split, stream⟩ := stands
  have legal : ∀ message ∈ rest, frames.Legal message := fun message among =>
    speaks.legal lawful message (by rw [split]; exact mem_append_right _ among)
  rcases frames.parse_stream legal stream with ⟨-, all⟩ | ⟨first, rest, left, rfl, parses, -⟩
  · rw [split, all rfl, append_nil]
  · exact absurd (rests.symm.trans parses) nofun

theorem Stands.grows {extra : List (List UInt8)} (stands : Stands S role session record sent more) :
    Stands S role session record (sent ++ extra) (more ++ frames.encodeAll extra) := by
  obtain ⟨plays, running, valid, rests, rest, split, stream⟩ := stands
  refine ⟨plays, running, valid, rests, rest ++ extra, ?_, ?_⟩
  · rw [split, append_assoc]
  · rw [← append_assoc, stream, Codec.encodeAll_append]

theorem Stands.polled (stands : Stands S role session record sent more)
    (pending : List NoiseOutput) :
    Stands S role { session with pending } record sent more :=
  { stands with plays := stands.plays.congr rfl rfl rfl rfl }

namespace End

variable {own own' other other' : Station P} {mine mine' theirs theirs' : Record}
  {lost lostThere new : List NoiseOutput}

theorem flatten (here : End S role own other mine theirs lost lostThere) :
    mine.segments.flatten = own.accepted.flatten := by
  rw [here.accepted]
  induction own.accepted with
  | nil => rfl
  | cons plaintext rest ih =>
    rw [flatMap_cons, flatten_append, ih, (segments_spec plaintext).1]
    rfl

theorem advance (lawful : P.Lawful) (here : End S role own other mine theirs lost lostThere)
    (there : Speaks S role.other theirs.sent theirs.segments)
    (running : own.session.failed = false) (adds : Adds mine mine' new)
    (pending : own'.session.pending = own.session.pending ++ new)
    (outputs : own'.outputs = own.outputs)
    (accepted : mine'.segments = own'.accepted.flatMap NoiseSession.segments)
    (stands : Stands S role own'.session mine' theirs.sent
      (own'.incoming ++ wireOf (other.session.pending ++ lostThere))) :
    End S role own' other mine' theirs lost lostThere := by
  have nothing := here.sure running
  subst nothing
  refine ⟨stands.plays.speaks, accepted, ?_, fun _ => rfl, fun failed => ?_, fun _ => stands,
    stands.opens lawful there, stands.plays.reports⟩
  · rw [outputs, pending, append_nil, ← append_assoc]
    have told := here.told
    rw [append_nil] at told
    exact told.adds adds
  · rw [stands.running] at failed
    cases failed

theorem follow (here : End S role own other mine theirs lost [])
    (adds : Adds theirs theirs' new) (segments : theirs.segments <+: theirs'.segments)
    (pending : other'.session.pending = other.session.pending ++ new) :
    End S role own other' mine theirs' lost [] := by
  refine { here with stands := fun running => ?_, opens := here.opens.trans segments }
  obtain ⟨extra, sent, wire⟩ := adds.wire
  have stands := here.stands running
  rw [pending, append_nil, sent, wireOf_append, wire, ← append_assoc]
  rw [append_nil] at stands
  exact stands.grows

theorem fail (here : End S role own other mine theirs lost lostThere)
    (running : own.session.failed = false) (failed : own'.session.failed = true)
    (silent : own'.session.pending = []) (exhausted : Plays.Exhausted own'.session)
    (outputs : own'.outputs = own.outputs) (accepted : own'.accepted = own.accepted) :
    End S role own' other mine theirs own.session.pending lostThere := by
  have told := here.told
  rw [here.sure running, append_nil] at told
  refine ⟨here.speaks, ?_, ?_, fun still => ?_, fun _ => ⟨silent, exhausted⟩, fun still => ?_,
    here.opens, here.reports⟩
  · rw [accepted]
    exact here.accepted
  · rw [outputs, silent]
    exact told
  · rw [failed] at still
    cases still
  · rw [failed] at still
    cases still

theorem bereft (here : End S role own other mine theirs lost [])
    (silent : other'.session.pending = []) :
    End S role own other' mine theirs lost other.session.pending := by
  refine { here with stands := fun running => ?_ }
  have stands := here.stands running
  rw [append_nil] at stands
  rw [silent]
  exact stands

end End

def Linked (S : Script initiator responder) (role : NoiseRole) (p : Pair P) : Prop :=
  ∃ mine theirs lost lostThere, End S role (p role) (p role.other) mine theirs lost lostThere ∧
    End S role.other (p role.other) (p role) theirs mine lostThere lost

namespace Linked

variable {p : Pair P}

theorem swap (linked : Linked S role p) : Linked S role.other p := by
  obtain ⟨mine, theirs, lost, lostThere, here, there⟩ := linked
  cases role <;> exact ⟨theirs, mine, lostThere, lost, there, here⟩

theorem connect (S : Script initiator responder) (role : NoiseRole) :
    Linked S role (Pair.connect initiator responder) := by
  have fresh (role : NoiseRole) : End S role (Pair.connect initiator responder role)
      (Pair.connect initiator responder role.other) ⟨[], [], [], [], none⟩
        ⟨[], [], [], [], none⟩ [] [] :=
    ⟨⟨[], .nil, nil_prefix⟩, rfl, ⟨rfl, rfl, rfl⟩, fun _ => rfl, nofun,
      fun _ => ⟨.idle rfl rfl rfl rfl, rfl, Nat.le_refl _, rfl, [], rfl, rfl⟩, nil_prefix,
      nil_prefix⟩
  refine ⟨⟨[], [], [], [], none⟩, ⟨[], [], [], [], none⟩, [], [], fresh role, ?_⟩
  cases role
  · exact fresh .responder
  · exact fresh .initiator

theorem advance (lawful : P.Lawful) {own' : Station P} {mine mine' theirs : Record}
    {lost lostThere new : List NoiseOutput}
    (here : End S role (p role) (p role.other) mine theirs lost lostThere)
    (there : End S role.other (p role.other) (p role) theirs mine lostThere lost)
    (running : (p role).session.failed = false) (adds : Adds mine mine' new)
    (segments : mine.segments <+: mine'.segments)
    (pending : own'.session.pending = (p role).session.pending ++ new)
    (outputs : own'.outputs = (p role).outputs)
    (accepted : mine'.segments = own'.accepted.flatMap NoiseSession.segments)
    (stands : Stands S role own'.session mine' theirs.sent
      (own'.incoming ++ wireOf ((p role.other).session.pending ++ lostThere))) :
    Linked S role (p.put role own') := by
  refine ⟨mine', theirs, lost, lostThere, ?_, ?_⟩
  · rw [put_same, put_other]
    exact here.advance lawful there.speaks running adds pending outputs accepted stands
  · rw [put_same, put_other]
    cases here.sure running
    exact there.follow adds segments pending

theorem start (lawful : P.Lawful) (linked : Linked S role p) :
    Linked S role (p.put role (p role).start) := by
  cases failed : (p role).session.failed with
  | true =>
    have same : (p role).start = p role := by
      rw [Station.start, handleInput, if_pos failed]
    rw [same, put_self]
    exact linked
  | false =>
    obtain ⟨mine, theirs, lost, lostThere, here, there⟩ := linked
    obtain ⟨answer, session, record, new, handled, stands, -, -, segments, adds, pending, -⟩ :=
      (here.stands failed).start
    rw [Station.start, handled]
    refine advance lawful here there failed adds (segments ▸ prefix_refl _) pending rfl ?_ stands
    rw [segments]
    exact here.accepted

theorem deliver (lawful : P.Lawful) (linked : Linked S role p) (count : Nat) :
    Linked S role (p.put role ((p role).deliver count)) := by
  unfold Station.deliver
  cases started : (p role).session.started with
  | false =>
    rw [if_neg (by decide), put_self]
    exact linked
  | true =>
    obtain ⟨mine, theirs, lost, lostThere, here, there⟩ := linked
    rw [if_pos rfl]
    cases failed : (p role).session.failed with
    | true =>
      have same (input : NoiseInput) : ((p role).session.handleInput input).2 =
          (p role).session := by
        rw [handleInput, if_pos failed]
      refine ⟨mine, theirs, lost, lostThere, ?_, ?_⟩
      · rw [put_same, same]
        refine { here with stands := fun running => ?_ }
        rw [failed] at running
        cases running
      · rw [put_same, put_other, same]
        exact { there with }
    | false =>
      have arrives := here.stands failed
      rw [← take_append_drop count (p role).incoming, append_assoc] at arrives
      obtain ⟨session, record, new, handled, stands, -, segments, adds, pending⟩ :=
        arrives.receive lawful started there.speaks
      rw [handled]
      refine advance lawful here there failed adds (segments ▸ prefix_refl _) pending rfl ?_ stands
      rw [segments]
      exact here.accepted

theorem encrypt (lawful : P.Lawful) (linked : Linked S role p) (plaintext : List UInt8) :
    Linked S role (p.put role ((p role).encrypt plaintext)) := by
  have unchanged (e : NoiseError)
      (refused : (p role).session.handleInput (.encrypt plaintext) = (.error e, (p role).session)) :
      Linked S role (p.put role ((p role).encrypt plaintext)) := by
    rw [Station.encrypt, refused, put_self]
    exact linked
  obtain ⟨mine, theirs, lost, lostThere, here, there⟩ := linked
  cases failed : (p role).session.failed with
  | true => exact unchanged .failed (by rw [handleInput, if_pos failed])
  | false =>
    rcases (here.stands failed).encrypt lawful plaintext with
      ⟨session, record, new, handled, stands, sends⟩ | refused
        | ⟨session, handled, broken, silent, last⟩
    · rw [Station.encrypt, handled]
      refine advance lawful here there failed sends.adds ⟨_, sends.segments.symm⟩
        sends.pending rfl ?_
        stands
      rw [sends.segments, here.accepted, flatMap_append, flatMap_singleton]
    · exact unchanged _ refused
    · cases here.sure failed
      refine ⟨mine, theirs, (p role).session.pending, lostThere, ?_, ?_⟩
      · rw [put_same, put_other, Station.encrypt, handled]
        exact here.fail failed broken silent last rfl rfl
      · rw [put_same, put_other, Station.encrypt, handled]
        exact there.bereft silent

theorem poll (linked : Linked S role p) : Linked S role (p.step (.poll role)) := by
  obtain ⟨mine, theirs, lost, lostThere, here, there⟩ := linked
  cases pending : (p role).session.pending with
  | nil =>
    have same : p.step (.poll role) = p := by
      simp only [step, Station.poll, pollOutput, pending, Option.toList_none,
        append_nil, put_self, send, wireOf, outboundOf, filterMap_nil, flatten_nil]
    rw [same]
    exact ⟨mine, theirs, lost, lostThere, here, there⟩
  | cons output rest =>
    have running : (p role).session.failed = false := by
      cases failed : (p role).session.failed with
      | false => rfl
      | true => rw [(here.broken failed).1] at pending; cases pending
    have own : p.step (.poll role) role = { p role with
        session := { (p role).session with pending := rest }
        outputs := (p role).outputs ++ [output] } := by
      rw [step, send, put_of_other, put_same]
      simp only [Station.poll, pollOutput, pending, Option.toList_some]
    have other : p.step (.poll role) role.other = { p role.other with
        incoming := (p role.other).incoming ++ wireOf [output] } := by
      rw [step, send, put_same, put_other]
      simp only [Station.poll, pollOutput, pending, Option.toList_some]
    refine ⟨mine, theirs, lost, lostThere, ?_, ?_⟩
    · rw [own, other]
      refine { here with
        told := ?_, broken := fun failed => ?_, stands :=
          fun _ => (here.stands running).polled rest }
      · have told := here.told
        rw [pending] at told
        rw [append_assoc]
        exact told
      · rw [running] at failed
        cases failed
    · rw [own, other]
      refine { there with stands := fun going => ?_ }
      have stands := there.stands going
      rw [pending, cons_append, ← singleton_append, wireOf_append, ← append_assoc] at stands
      exact stands

theorem seen (linked : Linked S role p) (side : NoiseRole) : Linked S side p := by
  cases role <;> cases side
  · exact linked
  · exact linked.swap
  · exact linked.swap
  · exact linked

theorem step (lawful : P.Lawful) (linked : Linked S role p) (action : Action) :
    Linked S role (p.step action) := by
  cases action with
  | start side => exact ((linked.seen side).start lawful).seen role
  | deliver side count => exact ((linked.seen side).deliver lawful count).seen role
  | encrypt side plaintext => exact ((linked.seen side).encrypt lawful plaintext).seen role
  | poll side => exact (linked.seen side).poll.seen role

theorem run (lawful : P.Lawful) (linked : Linked S role p) (actions : List Action) :
    Linked S role (p.run actions) := by
  induction actions generalizing p with
  | nil => exact linked
  | cons action actions ih => exact ih (linked.step lawful action)

end Linked

/-! ### Results -/

variable {p : Pair P}

namespace Linked

section

variable (linked : Linked S role p)
include linked

theorem carried : (decryptedOf (p role).outputs).flatten <+: (p role.other).accepted.flatten := by
  obtain ⟨mine, theirs, lost, lostThere, here, there⟩ := linked
  have told := here.told.opened
  rw [decryptedOf_append] at told
  obtain ⟨rest, whole⟩ := here.opens
  rw [← there.flatten, ← whole, ← told, append_assoc, flatten_append]
  exact prefix_append ..

theorem reported :
    reportsOf (p role).outputs <+: [(role.other.pick initiator responder).report] := by
  obtain ⟨mine, theirs, lost, lostThere, here, there⟩ := linked
  have told := here.told.report
  rw [reportsOf_append] at told
  exact (prefix_append _ _).trans (told ▸ here.reports)

theorem lasted (failed : (p role).session.failed = true) : Plays.Exhausted (p role).session := by
  obtain ⟨mine, theirs, lost, lostThere, here, there⟩ := linked
  exact (here.broken failed).2

end

end Linked

theorem Plays.both_complete {mine theirs : Record} (here : Plays S session .initiator mine)
    (there : Plays S session' .responder theirs) (started : session.started = true)
    (started' : session'.started = true) (read : mine.read = theirs.sent)
    (read' : theirs.read = mine.sent) : session.sendCipher.isSome ∧ session'.sendCipher.isSome := by
  cases here with
  | idle unstarted => rw [started] at unstarted; cases unstarted
  | opened =>
    cases there with
    | idle unstarted => rw [started'] at unstarted; cases unstarted
    | waiting => cases read'
    | answered => cases read
    | complete => cases read
  | complete _ _ sends =>
    cases there with
    | idle unstarted => rw [started'] at unstarted; cases unstarted
    | waiting => cases read
    | answered => cases read'
    | complete _ _ sends' => rw [sends, sends']; exact ⟨rfl, rfl⟩

theorem Plays.reported (plays : Plays S session role record) :
    record.report.isSome = session.sendCipher.isSome := by
  cases plays with
  | idle _ _ nothing | opened _ _ nothing | waiting _ _ nothing | answered _ _ nothing =>
    rw [nothing]; rfl
  | complete _ _ sends => rw [sends]; rfl

theorem Plays.silent (plays : Plays S session role record) (unreported : record.report = none) :
    record.opened = [] ∧ record.segments = [] := by
  cases plays with
  | complete => cases unreported
  | _ => exact ⟨rfl, rfl⟩

theorem Plays.unread (plays : Plays S session role record) (nothing : record.read = []) :
    record.report = none := by
  cases plays with
  | @complete role =>
    cases role <;> cases nothing
  | _ => rfl

theorem Plays.completed {session : NoiseSession P} {record : Record}
    (plays : Plays S session role record) (complete : session.sendCipher.isSome) :
    ∃ send receive read sent, session.sendCipher = some send ∧
      session.receiveCipher = some receive ∧
      send.At (S.key role) record.segments.length ∧
      receive.At (S.key role.other) record.opened.length ∧
      record.report = some (role.other.pick initiator responder).report ∧
      record.read = S.speech role.other ++ read ∧ record.sent = S.speech role ++ sent ∧
      Sealed P (S.key role) 0 record.segments sent ∧
      Sealed P (S.key role.other) 0 record.opened read := by
  cases plays with
  | idle _ _ nothing | opened _ _ nothing | waiting _ _ nothing | answered _ _ nothing =>
    rw [nothing] at complete; cases complete
  | complete _ _ sends receives sendAt receiveAt encrypted decrypted =>
    exact ⟨_, _, _, _, sends, receives, sendAt, receiveAt, rfl, rfl, rfl, encrypted, decrypted⟩

theorem Plays.opened_all {mine theirs : Record} (here : Plays S session role mine)
    (there : Plays S session' role.other theirs) (complete : session.sendCipher.isSome)
    (complete' : session'.sendCipher.isSome) (read : mine.read = theirs.sent)
    (opens : mine.opened <+: theirs.segments) : mine.opened = theirs.segments := by
  obtain ⟨_, _, messages, _, -, -, -, -, -, reads, -, -, decrypted⟩ := here.completed complete
  obtain ⟨_, _, _, messages', -, -, -, -, -, -, sends, encrypted, -⟩ := there.completed complete'
  rw [reads, sends] at read
  refine opens.eq_of_length ?_
  rw [← decrypted.length, ← encrypted.length, append_cancel_left read]

theorem Plays.Sends.still {record' : Record} {new : List NoiseOutput}
    (sends : Plays.Sends S role session session' record record' segments new)
    (plays : Plays S session role record) (complete : session.sendCipher.isSome) :
    record'.opened = record.opened ∧ record'.report = record.report ∧ decryptedOf new = [] ∧
      reportsOf new = [] := by
  obtain ⟨_, _, read, _, -, -, -, -, report, reads, -, -, decrypted⟩ := plays.completed complete
  have reports := sends.adds.report
  have opened := sends.adds.opened
  have complete' : session'.sendCipher.isSome := by
    rw [← sends.plays.reported]
    rw [report] at reports
    cases found : record'.report with
    | none => rw [found] at reports; cases reports
    | some _ => rfl
  obtain ⟨_, _, read', _, -, -, -, -, report', reads', -, -, decrypted'⟩ :=
    sends.plays.completed complete'
  have same : read' = read := by
    exact append_cancel_left (reads'.symm.trans (sends.read.trans reads))
  have count : record'.opened.length = record.opened.length := by
    rw [← decrypted.length, ← decrypted'.length, same]
  have silent : decryptedOf new = [] := by
    rw [opened, length_append] at count
    exact length_eq_zero_iff.mp (by omega)
  have quiet : reportsOf new = [] := by
    rw [report, report'] at reports
    exact append_right_eq_self.mp reports.symm
  rw [silent, append_nil] at opened
  exact ⟨opened, report'.trans report.symm, silent, quiet⟩

structure CaughtUp (S : Script initiator responder) (role : NoiseRole) (own other : Station P)
    (mine theirs : Record) : Prop where
  plays : Plays S own.session role mine
  told : Told mine own.outputs
  accepted : mine.segments.flatten = own.accepted.flatten
  read : mine.read = theirs.sent
  opens : mine.opened <+: theirs.segments

namespace Linked

theorem caughtUp (lawful : P.Lawful) (linked : Linked S role p) (quiet : p.quiet = true)
    (running : ∀ side, (p side).session.failed = false) :
    ∃ mine theirs, CaughtUp S role (p role) (p role.other) mine theirs ∧
      CaughtUp S role.other (p role.other) (p role) theirs mine := by
  obtain ⟨mine, theirs, lost, lostThere, here, there⟩ := linked
  have still (side : NoiseRole) : (p side).session.pending = [] ∧ (p side).incoming = [] := by
    simp only [Pair.quiet, Station.quiet, Bool.and_eq_true, List.isEmpty_iff] at quiet
    cases side
    · exact quiet.1
    · exact quiet.2
  cases here.sure (running role)
  cases there.sure (running role.other)
  have told := here.told
  have told' := there.told
  have stands := here.stands (running role)
  have stands' := there.stands (running role.other)
  rw [(still role).1, append_nil, append_nil] at told
  rw [(still role.other).1, append_nil, append_nil] at told'
  rw [(still role).2, (still role.other).1] at stands
  rw [(still role.other).2, (still role).1] at stands'
  have same : role.other.other = role := by cases role <;> rfl
  have speaks : Speaks S role.other.other mine.sent mine.segments := by
    rw [same]
    exact here.speaks
  exact ⟨mine, theirs,
    ⟨stands.plays, told, here.flatten, stands.drained lawful there.speaks, here.opens⟩,
    ⟨stands'.plays, told', there.flatten, stands'.drained lawful speaks, there.opens⟩⟩

theorem complete (lawful : P.Lawful) (linked : Linked S role p) (quiet : p.quiet = true)
    (going : ∀ side, (p side).session.started = true ∧ (p side).session.failed = false)
    (side : NoiseRole) : (p side).session.sendCipher.isSome := by
  obtain ⟨mine, theirs, here, there⟩ :=
    (linked.seen .initiator).caughtUp lawful quiet fun side => (going side).2
  obtain ⟨first, second⟩ := here.plays.both_complete there.plays (going .initiator).1
    (going .responder).1 here.read there.read
  cases side
  · exact first
  · exact second

theorem settled (lawful : P.Lawful) (linked : Linked S role p) (quiet : p.quiet = true)
    (going : ∀ side, (p side).session.started = true ∧ (p side).session.failed = false) :
    reportsOf (p role).outputs = [(role.other.pick initiator responder).report] ∧
      (decryptedOf (p role).outputs).flatten = (p role.other).accepted.flatten ∧
      ∃ send receive key nonce, (p role).session.sendCipher = some send ∧
        (p role.other).session.receiveCipher = some receive ∧ send.At key nonce ∧
        receive.At key nonce := by
  have complete := linked.complete lawful quiet going
  obtain ⟨mine, theirs, here, there⟩ := linked.caughtUp lawful quiet fun side => (going side).2
  obtain ⟨send, -, -, -, sends, -, sendAt, -, report, -⟩ := here.plays.completed (complete role)
  obtain ⟨-, receive, -, -, -, receives, -, receiveAt, -⟩ :=
    there.plays.completed (complete role.other)
  have same : role.other.other = role := by cases role <;> rfl
  -- the two ends have counted the same messages in each direction
  have opened : mine.opened = theirs.segments := here.plays.opened_all there.plays (complete role)
    (complete role.other) here.read here.opens
  have opened' : theirs.opened = mine.segments :=
    there.plays.opened_all (by rw [same]; exact here.plays)
    (complete role.other) (complete role) there.read there.opens
  rw [same] at receiveAt
  refine ⟨?_, ?_, send, receive, S.key role, mine.segments.length, sends, receives, sendAt, ?_⟩
  · rw [here.told.report, report]
    rfl
  · rw [here.told.opened, opened, there.accepted]
  · rw [← opened']
    exact receiveAt

end Linked

end Noise
