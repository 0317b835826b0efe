import MiniP2P.SecureMux.Authentication
import MiniP2P.SecureMux.Honest

/-! From the first negotiation to the multiplexer: where an end stands opposite an honest one, and
where the bytes that it reads lead it. -/
namespace SecureMux
open Fallible Identity List Bearing
open Multistream (MultistreamSelect multistreamProtocolId encodeMessage)
open Noise (Primitives NoiseInput NoiseOutput NoiseRole NoiseSession Record Script Speaks frames
  noiseProtocolId outboundOf decryptedOf reportsOf)
open Yamux (YamuxConfig YamuxError YamuxSession Staying yamuxProtocolId)

variable {P : Primitives}

/-- What an end has said: some of the negotiation, or all of it and then more. -/
def Continues (protocol : String) (said more : List UInt8) : Prop :=
  said <+: agreement protocol ∧ more = [] ∨ said = agreement protocol ++ more

variable {protocol : String} {more : List UInt8} {limits : YamuxConfig} {phase : Phase P}
    {said : List SessionOutput}

theorem Continues.heard {said heard : List UInt8} (continues : Continues protocol said more)
    (part : heard <+: said) :
    Begins protocol heard ∨ ∃ rest, heard = agreement protocol ++ rest ∧ rest <+: more := by
  have early (within : heard <+: agreement protocol) :
      Begins protocol heard ∨ ∃ rest, heard = agreement protocol ++ rest ∧ rest <+: more := by
    obtain ⟨rest, whole⟩ := within
    cases rest with
    | nil => exact .inr ⟨[], by rw [append_nil, ← whole, append_nil], nil_prefix⟩
    | cons byte rest => exact .inl ⟨byte :: rest, cons_ne_nil _ _, whole⟩
  rcases continues with ⟨within, -⟩ | rfl
  · exact early (part.trans within)
  · rcases prefix_or_prefix_of_prefix part (prefix_append (agreement protocol) more) with
      within | ⟨rest, rfl⟩
    · exact early within
    · exact .inr ⟨rest, rfl, (prefix_append_right_inj _).mp part⟩

theorem Continues.behind {said rest : List UInt8} (continues : Continues protocol said more)
    (part : agreement protocol ++ rest <+: said) : rest <+: more := by
  rcases continues with ⟨within, rfl⟩ | rfl
  · obtain ⟨left, whole⟩ := part.trans within
    rw [append_assoc] at whole
    have nothing := append_right_eq_self.mp whole
    exact ⟨[], by rw [append_nil, (append_eq_nil_iff.mp nothing).1]⟩
  · exact (prefix_append_right_inj _).mp part

theorem Continues.rest {rest : List UInt8}
    (continues : Continues protocol (agreement protocol ++ rest) more) : rest = more := by
  rcases continues with ⟨⟨left, whole⟩, rfl⟩ | whole
  · rw [append_assoc] at whole
    exact (append_eq_nil_iff.mp (append_right_eq_self.mp whole)).1
  · exact append_cancel_left whole

variable {initiator responder : SessionConfig P} {S : Script initiator.noise responder.noise}
  {role : SessionRole} {y x : Bearing} {way : List UInt8} {noise : NoiseSession P} {mine : Record}
  {base outputs : List SessionOutput} {fresh : YamuxSession}

structure Fair (S : Script initiator.noise responder.noise) (role : SessionRole)
    (y : Bearing) : Prop where
  speaks : Speaks S role.noise.other y.record.sent y.record.segments
  plain : Continues yamuxProtocolId y.record.segments.flatten y.given

def peerOf (initiator responder : SessionConfig P) (role : SessionRole) : PeerId :=
  (role.other.pick initiator responder).identity.peerId

/-- A session past the handshake, whose upper layers have heard these plaintexts. -/
inductive Upper (S : Script initiator.noise responder.noise) (role : SessionRole) (y : Bearing)
    (way : List UInt8) (fresh : YamuxSession) (heard : List UInt8) :
    Phase P → List SessionOutput → Bearing → Prop
  | selectYamux {noise : NoiseSession P} {select : MultistreamSelect} {said : List SessionOutput}
      {mine : Record} (noisy : Noisy S role y way noise mine said) (complete : mine.report.isSome)
      (talks : Talks role yamuxProtocolId heard select)
      (told : mine.segments.flatten = uttered role yamuxProtocolId heard)
      (events : eventsOf said = []) (meets : (idle mine fresh).Meets y) :
      Upper S role y way fresh heard (.selectYamux noise select
        (peerOf initiator responder role)) said
        (.idle mine fresh)
  | ready {noise : NoiseSession P} {mux : YamuxSession} {said : List SessionOutput} {x : Bearing}
      (muxes : Muxes S role y way [.established (peerOf initiator responder role)] noise said x)
      (same : x.mux = mux) (listened : heard = agreement yamuxProtocolId ++ x.taken)
      (rests : mux.core.pending = []) :
      Upper S role y way fresh heard (.ready noise mux (peerOf initiator responder role)) said x

/-- The work has led on to a session that has heard these plaintexts. -/
def Climbs (S : Script initiator.noise responder.noise) (role : SessionRole) (y : Bearing)
    (way : List UInt8) (fresh : YamuxSession) (x : Bearing) (heard : List UInt8) (phase : Phase P)
    (said : List SessionOutput) : Prop :=
  ∃ x', Upper S role y way fresh heard phase said x' ∧
    x'.record.opened = x.record.opened ∧ x.Later x'

def Covers (S : Script initiator.noise responder.noise) (role : SessionRole) (y : Bearing)
    (way : List UInt8) (base : List SessionOutput) (mine : Record) (noise : NoiseSession P)
    (told : List UInt8) (outputs : List SessionOutput) : Prop :=
  ∃ mine', Noisy S role y way noise mine' (base ++ outputs) ∧ mine.sent <+: mine'.sent ∧
    mine'.segments.flatten = told ∧ mine'.opened = mine.opened ∧ mine'.report = mine.report ∧
    eventsOf (base ++ outputs) = []

theorem Covers.send (lawful : P.Lawful) (complete : mine.report.isSome) (noise : NoiseSession P)
    (told : List UInt8) (outputs : List SessionOutput) (bytes : List UInt8)
    (covers : Covers S role y way base mine noise told outputs) :
    wp (encrypt noise bytes)
      (fun noise' outputs' => Covers S role y way base mine noise' (told ++ bytes) outputs')
      WornOut outputs := by
  obtain ⟨mine', noisy, sent, rfl, opened, report, events⟩ := covers
  refine wp_imp (noisy.encrypt lawful (by rw [report]; exact complete) bytes) ?_
  rintro noise' outputs' ⟨mine'', noisy', sent', segments, opened', report', events'⟩
  exact ⟨mine'', noisy', sent.trans sent', segments, opened'.trans opened, report'.trans report,
    events'.trans events⟩

theorem Muxes.announce {peer : PeerId} {outputs' : List SessionOutput}
    (muxes : Muxes S role y way [] noise (base ++ outputs') x)
    (silent : eventsOf (base ++ outputs) = []) (grows : Grows outputs outputs') :
    Muxes S role y way [.established peer] noise
      (base ++ outputs'.insertIdx outputs.length (.established peer)) x := by
  obtain ⟨more, rfl, -⟩ := grows
  have events := muxes.events
  have wrote := muxes.noisy.wrote
  rw [insertIdx_append]
  rw [← append_assoc, eventsOf_append, silent] at events
  refine { muxes with noisy := { muxes.noisy with wrote := ?_ }, events := ?_ }
  · rw [← wrote]
    simp [wireOf, SessionOutput.wire]
  · rw [← append_assoc, eventsOf_append, silent]
    exact congrArg (.established peer :: ·) events

/-- Where an end stands between calls that has been fed these bytes. -/
inductive Stage (S : Script initiator.noise responder.noise) (role : SessionRole) (y : Bearing)
    (way : List UInt8) (fresh : YamuxSession) (fed : List UInt8) :
    Phase P → List SessionOutput → Bearing → Prop
  | selectNoise {select : MultistreamSelect} {said : List SessionOutput}
      (talks : Talks role noiseProtocolId fed select)
      (wrote : wireOf said = uttered role noiseProtocolId fed) (events : eventsOf said = [])
      (meets : (idle ⟨[], [], [], [], none⟩ fresh).Meets y) :
      Stage S role y way fresh fed
        (.selectNoise select (some (.new (role.pick initiator responder).noise))) said
        (.idle ⟨[], [], [], [], none⟩ fresh)
  | noise {noise : NoiseSession P} {said : List SessionOutput} {mine : Record}
      (selected : agreement noiseProtocolId <+: fed) (noisy : Noisy S role y way noise mine said)
      (unreported : mine.report = none) (events : eventsOf said = [])
      (meets : (idle mine fresh).Meets y) :
      Stage S role y way fresh fed (.noise noise) said (.idle mine fresh)
  | upper {phase : Phase P} {said : List SessionOutput} {x : Bearing}
      (selected : agreement noiseProtocolId <+: fed)
      (upper : Upper S role y way fresh x.record.opened.flatten phase said x) :
      Stage S role y way fresh fed phase said x

def Moves (S : Script initiator.noise responder.noise) (role : SessionRole) (y : Bearing)
    (way : List UInt8) (fresh : YamuxSession) (x : Bearing) (fed : List UInt8) (phase : Phase P)
    (said : List SessionOutput) : Prop :=
  ∃ x', Stage S role y way fresh fed phase said x' ∧ x.Later x'

variable {fed data : List UInt8}

theorem Climbs.moves (climbs : Climbs S role y way fresh x x.record.opened.flatten phase said)
    (selected : agreement noiseProtocolId <+: fed) : Moves S role y way fresh x fed phase said := by
  obtain ⟨x', upper, opened, later⟩ := climbs
  rw [← opened] at upper
  exact ⟨x', .upper selected upper, later⟩

theorem Noisy.transport (lawful : P.Lawful) (complete : mine.report.isSome) (fair : Fair S role y)
    (noisy : Noisy S role y (data ++ way) noise mine (base ++ outputs)) :
    ∃ noise' mine' new, readTransport noise data outputs = .ok ⟨none, decryptedOf new, noise'⟩
        (outputs ++ (outboundOf new).map .write) ∧
      Noisy S role y way noise' mine' (base ++ (outputs ++ (outboundOf new).map .write)) ∧
      mine.sent <+: mine'.sent ∧ mine'.segments = mine.segments ∧
      mine'.opened = mine.opened ++ decryptedOf new ∧ mine'.report.isSome := by
  obtain ⟨noise', mine', new, ran, noisy', sent, segments, opened, report⟩ :=
    noisy.read lawful fair.speaks "Noise transport failed: "
  have once := noisy'.stands.plays.reports.length_le
  rw [report, length_append] at once
  obtain ⟨told, reported⟩ := Option.isSome_iff_exists.mp complete
  rw [reported] at once report
  have nobody : reportsOf new = [] := by
    rw [Option.toList_some, length_singleton, length_singleton] at once
    exact length_eq_zero_iff.mp (by omega)
  refine ⟨noise', mine', new, ran_of_wp ?_, noisy', sent, segments, opened, ?_⟩
  · rw [readTransport, wp_bind, wp_ran ran, nobody]
    exact ⟨rfl, rfl⟩
  · cases found : mine'.report with
    | none => rw [found] at report; cases report
    | some _ => rfl

theorem sendRaw_tells (base : List SessionOutput) (state : Unit) (told : List UInt8)
    (outputs : List SessionOutput) (bytes : List UInt8)
    (holds : wireOf (base ++ outputs) = told ∧ eventsOf (base ++ outputs) = []) :
    wp (sendRaw state bytes)
      (fun _ outputs' => wireOf (base ++ outputs') = told ++ bytes ∧
        eventsOf (base ++ outputs') = [])
      WornOut outputs := by
  obtain ⟨rfl, events⟩ := holds
  rw [sendRaw, write, push, wp_modify, ← append_assoc, wireOf_append, eventsOf_append, events]
  exact ⟨congrArg _ (append_nil _), rfl⟩

section

variable (lawful : P.Lawful) (fair : Fair S role y)
  (created : YamuxSession.withConfig (yamuxRole role) limits = .ok fresh)
  (unsaid : fresh.core.pending = [])
include lawful fair created unsaid

theorem Upper.select {select : MultistreamSelect} {heard plaintext : List UInt8}
    (noisy : Noisy S role y way noise mine (base ++ outputs)) (complete : mine.report.isSome)
    (talks : Talks role yamuxProtocolId heard select)
    (told : mine.segments.flatten = uttered role yamuxProtocolId heard)
    (events : eventsOf (base ++ outputs) = []) (meets : (idle mine fresh).Meets y)
    (coming : heard ++ plaintext <+: y.record.segments.flatten) :
    wp (feedDecryptedYamuxSelect role limits noise select
      (peerOf initiator responder role) plaintext)
      (fun phase outputs' => Climbs S role y way fresh (.idle mine fresh) (heard ++ plaintext) phase
        (base ++ outputs')) WornOut outputs := by
  have covers : Covers S role y way base mine noise (uttered role yamuxProtocolId heard) outputs :=
    ⟨mine, noisy, prefix_refl _, told, rfl, rfl, events⟩
  have meets' {mine' : Record} : (idle mine' fresh).Meets y := meets
  unfold feedDecryptedYamuxSelect
  rw [wp_bind]
  rcases fair.plain.heard coming with begins | ⟨rest, whole, given⟩
  · obtain ⟨talks', said, queue, uttered'⟩ := talks.waits yamux_proposable begins
    have follows := followSelect_talks (Covers.send lawful complete) role "Yamux" yamuxProtocolId
      said false noise
      covers
    rw [if_neg (by decide), append_nil, ← queue] at follows
    refine wp_imp follows ?_
    rintro ⟨noise', negotiated⟩ outputs' ⟨rfl, mine', noisy', sent, told', opened, report, events'⟩
    refine ⟨.idle mine' fresh, .selectYamux noisy' (by rw [report]; exact complete) talks' ?_
      events' meets', opened, sent, rfl⟩
    rw [told', uttered']
  · obtain ⟨⟨said, queue, agreed⟩, remaining⟩ := talks.settles yamux_proposable whole
    have follows := followSelect_talks (Covers.send lawful complete) role "Yamux" yamuxProtocolId
      said true noise
      covers
    rw [if_pos rfl, ← queue, ← agreed] at follows
    refine wp_imp follows ?_
    rintro ⟨noise', negotiated⟩ outputs' ⟨rfl, mine', noisy', sent, told', opened, report, events'⟩
    dsimp only
    rw [if_neg (by decide), remaining, created, wp_bind, wp_orFail_ok]
    have muxes : Muxes S role y way [] noise' (base ++ outputs') (.idle mine' fresh) := by
      refine ⟨noisy', by rw [idle, report]; exact complete, ?_, events', ?_, meets'⟩
      · exact told'
      · intro code among
        rw [idle, unsaid] at among
        cases among
    rw [wp_bind, wp_get, wp_ite]
    refine ⟨fun nothing => ?_, fun _ => ?_⟩
    · rw [List.isEmpty_iff.mp nothing] at whole
      exact ⟨.idle mine' fresh, .ready (muxes.announce events' (.refl outputs')) rfl whole
        unsaid, opened, sent, rfl⟩
    · have given' : (idle mine' fresh).taken ++ rest <+: y.given := given
      obtain ⟨valid, -, rfl⟩ := Yamux.YamuxSession.withConfig_ok created
      rw [wp_bind, wp_unpublished]
      refine wp_mono (wp_and (muxes.feed lawful given')
        (feedYamux_plain (Yamux.YamuxSession.new_good (yamuxRole role) valid) noise'
          rest outputs')) ?_
        fun _ _ ended => ended.1
      rintro ⟨noise'', mux⟩ outputs'' ⟨⟨x', muxes', same, empty, taken, opened', later⟩, -, grows⟩
      refine ⟨x', .ready (muxes'.announce events' grows) same ?_ empty, opened'.trans opened, ?_⟩
      · rw [whole, taken]
        rfl
      · exact ⟨sent.trans later.sent, later.acc⟩

theorem Upper.transport {heard plaintext : List UInt8}
    (upper : Upper S role y way fresh heard phase (base ++ outputs) x)
    (coming : heard ++ plaintext <+: y.record.segments.flatten) :
    wp (feedDecryptedTransport role limits phase plaintext)
      (fun phase' outputs' =>
        Climbs S role y way fresh x (heard ++ plaintext) phase' (base ++ outputs'))
          WornOut outputs := by
  cases upper with
  | selectYamux noisy complete talks told events meets =>
    exact Upper.select lawful fair created unsaid noisy complete talks told events meets coming
  | ready muxes same listened rests =>
    subst same listened
    rw [feedDecryptedTransport, wp_bind]
    refine wp_imp (muxes.feed lawful (fair.plain.behind coming)) ?_
    rintro ⟨noise', mux⟩ outputs' ⟨x', muxes', same, empty, taken, opened, later⟩
    exact ⟨x', .ready muxes' same (by rw [taken, append_assoc]) empty, opened, later⟩

theorem Upper.decrypted {plaintexts : List (List UInt8)} {heard : List UInt8}
    (upper : Upper S role y way fresh heard phase (base ++ outputs) x)
    (coming : heard ++ plaintexts.flatten <+: y.record.segments.flatten) :
    wp (feedDecrypted role limits plaintexts phase)
      (fun phase' outputs' =>
        Climbs S role y way fresh x (heard ++ plaintexts.flatten) phase' (base ++ outputs'))
      WornOut outputs := by
  induction plaintexts generalizing heard phase outputs x with
  | nil =>
    rw [flatten_nil, append_nil]
    exact ⟨x, upper, rfl, .refl x⟩
  | cons plaintext plaintexts ih =>
    rw [flatten_cons, ← append_assoc] at coming ⊢
    rw [feedDecrypted, wp_bind]
    refine wp_imp (upper.transport lawful fair created unsaid ((prefix_append ..).trans coming)) ?_
    rintro phase' outputs' ⟨x', upper', opened, later⟩
    refine wp_imp (ih upper' coming) ?_
    rintro phase'' outputs'' ⟨x'', upper'', opened', later'⟩
    exact ⟨x'', upper'', opened'.trans opened, later.trans later'⟩

theorem Noisy.feed (noisy : Noisy S role y (data ++ way) noise mine (base ++ outputs))
    (unreported : mine.report = none) (events : eventsOf (base ++ outputs) = [])
    (meets : (idle mine fresh).Meets y) (selected : agreement noiseProtocolId <+: fed) :
    wp (feedNoise role limits noise data)
      (fun phase outputs' => Moves S role y way fresh (.idle mine fresh) fed phase
        (base ++ outputs'))
      WornOut outputs := by
  have meets' {mine' : Record} : (idle mine' fresh).Meets y := meets
  obtain ⟨noise', mine', new, ran, noisy', sent, segments, opened, report⟩ :=
    noisy.read lawful fair.speaks "Noise handshake failed: "
  obtain ⟨unopened, unspoken⟩ := noisy.stands.plays.silent unreported
  have events' := (eventsOf_wrote (outboundOf new)).trans events
  rw [unreported] at report
  rw [unopened, nil_append] at opened
  rw [feedNoise, wp_bind, wp_ran ran]
  cases reported : mine'.report with
  | none =>
    obtain ⟨unopened', -⟩ := noisy'.stands.plays.silent reported
    have silent : reportsOf new = [] := by
      rw [reported] at report
      exact report.symm
    rw [← opened, unopened', silent]
    exact ⟨.idle mine' fresh, .noise selected noisy' reported events' meets', sent, rfl⟩
  | some told =>
    have complete : mine'.report.isSome := by rw [reported]; rfl
    obtain ⟨_, _, _, _, -, -, -, -, expected, -⟩ :=
      noisy'.stands.plays.completed (noisy'.stands.plays.reported ▸ complete)
    have found : reportsOf new = [((role.other.pick initiator responder).noise).report] := by
      rw [expected] at report
      refine report.symm.trans ?_
      cases role <;> rfl
    have peer : (reportsOf new).getLast?.map Prod.fst = some (peerOf initiator responder role) := by
      rw [found]
      rfl
    rw [peer]
    obtain ⟨talks, queue, greeting⟩ := Talks.new role yamuxProtocolId
    have covers : Covers S role y way base mine' noise' [] (outputs ++
        (outboundOf new).map .write) := by
      refine ⟨mine', noisy', prefix_refl _, ?_, rfl, rfl, events'⟩
      rw [segments, unspoken]
      rfl
    have greets :=
      drainSelect_talks (Covers.send lawful complete) [encodeMessage multistreamProtocolId]
      covers
    rw [wp_bind, queue]
    refine wp_imp greets ?_
    rintro noise'' outputs'' ⟨mine'', noisy'', sent', told', opened'', report'', events''⟩
    have upper : Upper S role y way fresh [] (.selectYamux noise''
        (takeOutputs ((selector role yamuxProtocolId).handleInput .start))
          (peerOf initiator responder role))
        (base ++ outputs'') (.idle mine'' fresh) := by
      refine .selectYamux noisy'' (by rw [report'']; exact complete) talks ?_ events'' meets'
      rw [told', greeting]
      simp
    have coming : [] ++ (decryptedOf new).flatten <+: y.record.segments.flatten := by
      have opens := noisy'.stands.opens lawful fair.speaks
      rw [opened] at opens
      obtain ⟨rest, whole⟩ := opens
      rw [← whole, flatten_append]
      exact prefix_append ..
    refine wp_imp (upper.decrypted lawful fair created unsaid coming) ?_
    intro phase outputs₃ climbs
    have heard : [] ++ (decryptedOf new).flatten = (idle mine'' fresh).record.opened.flatten := by
      rw [← opened, ← opened'']
      rfl
    rw [heard] at climbs
    obtain ⟨x', stage, later⟩ := climbs.moves selected
    exact ⟨x', stage, (sent.trans sent').trans later.sent, later.acc⟩

theorem startNoise_moves {rest : List UInt8}
    (wrote : wireOf (base ++ outputs) = agreement noiseProtocolId)
    (events : eventsOf (base ++ outputs) = [])
    (meets : (idle ⟨[], [], [], [], none⟩ fresh).Meets y)
    (coming : rest ++ way = frames.encodeAll y.record.sent)
    (selected : agreement noiseProtocolId <+: fed) :
    wp (startNoise role limits (.new (role.pick initiator responder).noise) rest)
      (fun phase outputs' => Moves S role y way fresh (.idle ⟨[], [], [], [], none⟩ fresh) fed phase
        (base ++ outputs')) WornOut outputs := by
  have meets' {mine' : Record} : (idle mine' fresh).Meets y := meets
  have idle : Noise.Stands S role.noise (.new (role.pick initiator responder).noise)
      ⟨[], [], [], [], none⟩ y.record.sent (rest ++ way) := by
    refine ⟨.idle rfl ?_ rfl rfl, rfl, Nat.le_refl _, rfl, y.record.sent, rfl, coming⟩
    cases role <;> rfl
  obtain ⟨answer, session, mine, new, handled, stands, started, read, -, adds, pending, answered⟩ :=
    idle.start
  rw [answered rfl] at handled
  obtain ⟨ran, noisy, sent⟩ := noise_goes "Noise start failed: " rfl
    (wrote.trans (append_nil _).symm) handled stands started adds pending
  have unreported := stands.plays.unread read
  obtain ⟨unopened, -⟩ := stands.plays.silent unreported
  have nothing : decryptedOf new = [] := adds.opened.symm.trans unopened
  have nobody : reportsOf new = [] := by
    have report := adds.report
    rw [unreported] at report
    exact report.symm
  have events' := (eventsOf_wrote (outboundOf new)).trans events
  rw [startNoise, wp_bind, wp_ran ran, nothing, nobody]
  dsimp only
  rw [if_neg (by decide), wp_ite]
  refine ⟨fun absent => ?_, fun _ => ?_⟩
  · rw [List.isEmpty_iff.mp absent] at noisy
    exact ⟨.idle mine fresh, .noise selected noisy unreported events' meets', nil_prefix, rfl⟩
  · refine wp_imp (noisy.feed lawful fair created unsaid unreported events' meets' selected) ?_
    rintro phase outputs' ⟨x', stage, later⟩
    exact ⟨x', stage, nil_prefix, later.acc⟩

theorem Upper.feed (upper : Upper S role y (data ++ way) fresh x.record.opened.flatten phase
    (base ++ outputs) x)
    (selected : agreement noiseProtocolId <+: fed) :
    wp (feedPhase role limits phase data)
      (fun phase' outputs' => Moves S role y way fresh x fed phase' (base ++ outputs'))
        WornOut outputs := by
  -- What is read is some of what the other end has sent, and the upper layers go on from there.
  have goes {mine mine' : Record}
      {new : List NoiseOutput} {noise' : NoiseSession P} {phase' : Phase P}
      {outputs' : List SessionOutput} (x₁ : Bearing)
      (noisy' : Noisy S role y way noise' mine' (base ++ outputs'))
      (opened : mine'.opened = mine.opened ++ decryptedOf new) (same : x₁.record = mine')
      (upper' : Upper S role y way fresh mine.opened.flatten phase' (base ++ outputs') x₁) :
      wp (feedDecrypted role limits (decryptedOf new) phase')
        (fun phase' outputs' => Moves S role y way fresh x₁ fed phase' (base ++ outputs'))
        WornOut outputs' := by
    have heard : mine.opened.flatten ++ (decryptedOf new).flatten = x₁.record.opened.flatten := by
      rw [same, opened, flatten_append]
    have coming : mine.opened.flatten ++ (decryptedOf new).flatten <+:
        y.record.segments.flatten := by
      obtain ⟨rest, whole⟩ := noisy'.stands.opens lawful fair.speaks
      rw [heard, same, ← whole, flatten_append]
      exact prefix_append ..
    refine wp_imp (upper'.decrypted lawful fair created unsaid coming) ?_
    intro phase'' outputs'' climbs
    rw [heard] at climbs
    exact climbs.moves selected
  cases upper with
  | @selectYamux noise select _ mine noisy complete talks told events meets =>
    obtain ⟨noise', mine', new, ran, noisy', sent, segments, opened, complete'⟩ :=
      noisy.transport lawful complete fair
    rw [feedPhase, wp_bind, wp_ran ran]
    refine wp_imp (goes (.idle mine' fresh) noisy' opened rfl (.selectYamux noisy' complete' talks
      (by rw [segments]; exact told) ((eventsOf_wrote _).trans events) meets)) ?_
    rintro phase' outputs' ⟨x', stage, later⟩
    exact ⟨x', stage, sent.trans later.sent, later.acc⟩
  | @ready noise mux _ x muxes same listened rests =>
    obtain ⟨noise', mine', new, ran, noisy', sent, segments, opened, complete'⟩ :=
      muxes.noisy.transport lawful muxes.complete fair
    rw [feedPhase, wp_bind, wp_ran ran]
    have muxes' : Muxes S role y way [.established (peerOf initiator responder role)] noise'
        (base ++ (outputs ++ (outboundOf new).map .write)) { x with record := mine' } :=
      ⟨noisy', complete', by rw [segments]; exact muxes.told, (eventsOf_wrote _).trans muxes.events,
        muxes.staying, muxes.meets⟩
    refine wp_imp (goes { x with record := mine' } noisy' opened rfl
      (.ready muxes' same listened rests)) ?_
    rintro phase' outputs' ⟨x', stage, later⟩
    exact ⟨x', stage, sent.trans later.sent, later.acc⟩

theorem Stage.feed (spoken : Continues noiseProtocolId (fed ++ (data ++ way))
    (frames.encodeAll y.record.sent))
    (stage : Stage S role y (data ++ way) fresh fed phase (base ++ outputs) x) :
    wp (feedPhase role limits phase data)
      (fun phase' outputs' => Moves S role y way fresh x (fed ++ data) phase' (base ++ outputs'))
      WornOut outputs := by
  cases stage with
  | @selectNoise select _ talks wrote events meets =>
    rw [feedPhase, wp_bind]
    have coming : fed ++ data <+: fed ++ (data ++ way) := by
      rw [← append_assoc]
      exact prefix_append ..
    rcases spoken.heard coming with begins | ⟨rest, whole, -⟩
    · obtain ⟨talks', said, queue, uttered'⟩ := talks.waits noise_proposable begins
      have follows :=
        followSelect_talks (sendRaw_tells base) role "Noise" noiseProtocolId said false
        () ⟨wrote, events⟩
      rw [if_neg (by decide), append_nil, ← queue] at follows
      refine wp_imp follows ?_
      rintro ⟨_, negotiated⟩ outputs' ⟨rfl, wrote', events'⟩
      exact ⟨_, .selectNoise talks' (wrote'.trans uttered'.symm) events' meets, .refl _⟩
    · obtain ⟨⟨said, queue, agreed⟩, remaining⟩ := talks.settles noise_proposable whole
      have follows := followSelect_talks (sendRaw_tells base) role "Noise" noiseProtocolId said true
        () ⟨wrote, events⟩
      rw [if_pos rfl, ← queue, ← agreed] at follows
      refine wp_imp follows ?_
      rintro ⟨_, negotiated⟩ outputs' ⟨rfl, wrote', events'⟩
      dsimp only
      rw [remaining]
      rw [← append_assoc, whole] at spoken
      exact startNoise_moves lawful fair created unsaid wrote' events' meets spoken.rest
        ⟨rest, whole.symm⟩
  | noise selected noisy unreported events meets =>
    exact noisy.feed lawful fair created unsaid unreported events meets
      (selected.trans (prefix_append ..))
  | upper selected upper =>
    exact upper.feed lawful fair created unsaid (selected.trans (prefix_append ..))

end

/-! ### The other end -/

section

variable (stage : Stage S role y way fresh fed phase said x)
include stage

theorem Stage.meets : x.Meets y := by
  cases stage with
  | selectNoise _ _ _ meets => exact meets
  | noise _ _ _ _ meets => exact meets
  | upper _ upper =>
    cases upper with
    | selectYamux _ _ _ _ _ meets => exact meets
    | ready muxes => exact muxes.meets

theorem Stage.spoken :
    Continues noiseProtocolId (wireOf said) (frames.encodeAll x.record.sent) := by
  cases stage with
  | selectNoise talks wrote =>
    rw [wrote]
    exact .inl ⟨talks.begins.uttered noise_proposable role, rfl⟩
  | noise _ noisy => exact .inr noisy.wrote
  | upper _ upper =>
    cases upper with
    | selectYamux noisy => exact .inr noisy.wrote
    | ready muxes => exact .inr muxes.noisy.wrote

theorem Stage.fair : Fair S role.other x := by
  have same : role.other.noise.other = role.noise := by cases role <;> rfl
  have speaks {noise : NoiseSession P} {mine : Record}
      (noisy : Noisy S role y way noise mine said) :
      Speaks S role.other.noise.other mine.sent mine.segments := by
    rw [same]
    exact noisy.stands.plays.speaks
  cases stage with
  | selectNoise => exact ⟨⟨[], .nil, nil_prefix⟩, .inl ⟨ nil_prefix, rfl⟩⟩
  | noise _ noisy unreported =>
    refine ⟨speaks noisy, .inl ⟨?_, rfl⟩⟩
    rw [idle, (noisy.stands.plays.silent unreported).2]
    exact nil_prefix
  | upper _ upper =>
    cases upper with
    | selectYamux noisy _ talks told =>
      refine ⟨speaks noisy, .inl ⟨?_, rfl⟩⟩
      rw [idle, told]
      exact talks.begins.uttered yamux_proposable role
    | ready muxes => exact ⟨speaks muxes.noisy, .inr muxes.told⟩

end

theorem Noisy.follow {y' : Bearing} {way' : List UInt8} (noisy : Noisy S role y way noise mine said)
    (selected : agreement noiseProtocolId <+: fed)
    (spoken : Continues noiseProtocolId (fed ++ way) (frames.encodeAll y.record.sent))
    (spoken' : Continues noiseProtocolId (fed ++ way') (frames.encodeAll y'.record.sent))
    (sent : y.record.sent <+: y'.record.sent) : Noisy S role y' way' noise mine said := by
  obtain ⟨extra, more⟩ := sent
  obtain ⟨heard, rfl⟩ := selected
  rw [append_assoc] at spoken spoken'
  have before := spoken.rest
  have after := spoken'.rest
  rw [← more, Incremental.Codec.encodeAll_append, ← before, append_assoc] at after
  rw [append_cancel_left after]
  refine { noisy with stands := ?_ }
  rw [← more]
  exact noisy.stands.grows

theorem Stage.follow {y' : Bearing} {way' : List UInt8}
    (stage : Stage S role y way fresh fed phase said x)
    (spoken : Continues noiseProtocolId (fed ++ way) (frames.encodeAll y.record.sent))
    (spoken' : Continues noiseProtocolId (fed ++ way') (frames.encodeAll y'.record.sent))
    (sent : y.record.sent <+: y'.record.sent) (meets : x.Meets y') :
    Stage S role y' way' fresh fed phase said x := by
  cases stage with
  | selectNoise talks wrote events _ => exact .selectNoise talks wrote events meets
  | noise selected noisy unreported events _ =>
    exact .noise selected (noisy.follow selected spoken spoken' sent) unreported events meets
  | upper selected upper =>
    refine .upper selected ?_
    cases upper with
    | selectYamux noisy complete talks told events _ =>
      exact .selectYamux (noisy.follow selected spoken spoken' sent) complete talks
        told events meets
    | ready muxes same listened rests =>
      exact .ready
        { muxes with noisy := muxes.noisy.follow selected spoken spoken' sent, meets } same
        listened rests

end SecureMux
