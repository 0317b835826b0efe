import MiniP2P.SecureMux.Joint

/-! Two honest sessions over byte channels, through every run: they come up, each announces the
other, and their streams carry what they are given. -/
namespace SecureMux
open Fallible Identity List SecureMuxSession SessionOutput Pair
open Noise (Primitives NoiseSession Script frames noiseProtocolId)
open Transport (StreamId)
open Yamux (YamuxConfig YamuxOutput YamuxSession yamuxProtocolId)

variable {P : Primitives} {initiator responder : SessionConfig P}
  {S : Script initiator.noise responder.noise} {fresh : SessionRole → YamuxSession}
  {role : SessionRole} {log : List (Move × Answer)} {p : Pair P}

/-! ### What has been reported -/

variable {os : List YamuxOutput} {y x : Bearing} {way fed : List UInt8} {mux : YamuxSession}
    {phase : Phase P} {said : List SessionOutput}

theorem Stage.events (stage : Stage S role y way mux fed phase said x) :
    eventsOf said = [] ∧ x.tale.seen = [] ∨
      eventsOf said = .established (peerOf initiator responder role) ::
        x.tale.seen.filterMap publish := by
  cases stage with
  | selectNoise _ _ events | noise _ _ _ events => exact .inl ⟨events, rfl⟩
  | upper _ upper =>
    cases upper with
    | selectYamux _ _ _ _ events => exact .inl ⟨events, rfl⟩
    | ready muxes => exact .inr muxes.events

theorem publish_quiet : (os.filterMap publish).filter announces = [] := by
  refine filter_eq_nil_iff.mpr fun output among => ?_
  obtain ⟨o, -, published⟩ := mem_filterMap.mp among
  cases o <;> cases published <;> nofun

theorem filter_events (said : List SessionOutput) :
    said.filter announces = (eventsOf said).filter announces := by
  rw [eventsOf, filter_filter]
  congr 1
  funext output
  cases output <;> rfl

theorem Stage.once (stage : Stage S role y way mux fed phase said x) :
    said.filter announces <+: [.established (peerOf initiator responder role)] := by
  rw [filter_events]
  rcases stage.events with ⟨nothing, -⟩ | present
  · rw [nothing]
    exact nil_prefix
  · exact ⟨[], by rw [append_nil, present, filter_cons_of_pos rfl, publish_quiet]⟩

def SessionOutput.isStream : SessionOutput → Bool
  | .write _ | .established _ => false
  | _ => true

theorem Stage.first (stage : Stage S role y way mux fed phase said x)
    {before after : List SessionOutput} {output : SessionOutput}
    (split : said = before ++ output :: after) (stream : output.isStream = true) :
    .established (peerOf initiator responder role) ∈ before := by
  have event : output.isEvent = true := by
    cases output with
    | write bytes => cases stream
    | _ => rfl
  have events : eventsOf said = eventsOf before ++ output :: eventsOf after := by
    rw [split, eventsOf, filter_append, filter_cons_of_pos event]
    rfl
  rcases stage.events with ⟨nothing, -⟩ | present
  · rw [nothing] at events
    cases (append_eq_nil_iff.mp events.symm).2
  · rw [present] at events
    cases found : eventsOf before with
    | nil =>
      rw [found] at events
      rw [← (List.cons.inj events).1] at stream
      cases stream
    | cons head rest =>
      rw [found] at events
      have among : .established (peerOf initiator responder role) ∈ eventsOf before := by
        rw [found, (List.cons.inj events).1]
        exact mem_cons_self
      exact (mem_filter.mp among).1

theorem dataOf_events (stream : StreamId) (said : List SessionOutput) :
    dataOf stream said = dataOf stream (eventsOf said) := by
  induction said with
  | nil => rfl
  | cons output said ih =>
    cases output with
    | write bytes => exact ih
    | _ =>
      rw [eventsOf, filter_cons_of_pos rfl, dataOf, flatMap_cons]
      exact congrArg _ ih

theorem dataOf_publish (stream : UInt32) (os : List YamuxOutput) :
    dataOf stream.toNat (os.filterMap publish) = Yamux.dataOf stream os := by
  induction os with
  | nil => rfl
  | cons o os ih =>
    cases o with
    | data i bytes =>
      change (if i.toNat = stream.toNat then bytes else []) ++ dataOf stream.toNat
        (os.filterMap publish) = _
      rw [ih, Yamux.dataOf]
      by_cases same : i = stream
      · rw [if_pos same, if_pos (congrArg _ same)]
      · rw [if_neg same, if_neg fun equal => same (UInt32.toNat_inj.mp equal)]
        rfl
    | _ => exact ih

theorem closed_publish (stream : UInt32)
    (closed : .streamRemoteWriteClosed stream.toNat ∈ os.filterMap publish) :
    .remoteWriteClosed stream ∈ os := by
  obtain ⟨o, among, published⟩ := mem_filterMap.mp closed
  cases o with
  | remoteWriteClosed i =>
    have same : i.toNat = stream.toNat := by simpa [publish] using published
    rw [← UInt32.toNat_inj.mp same]
    exact among
  | _ => cases published

section

variable (stage : Stage S role y way mux fed phase said x)
include stage

theorem Stage.seen {seen : List SessionOutput} (part : seen <+: said) : ∃ os, os <+: x.tale.seen ∧
      (∀ stream, dataOf stream seen = dataOf stream (os.filterMap publish)) ∧
      ∀ stream, .streamRemoteWriteClosed stream ∈ seen →
        .streamRemoteWriteClosed stream ∈ os.filterMap publish := by
  have shown : eventsOf seen <+: eventsOf said := by
    obtain ⟨rest, rfl⟩ := part
    rw [eventsOf_append]
    exact prefix_append ..
  have event {stream : StreamId} (closed : .streamRemoteWriteClosed stream ∈ seen) :
      .streamRemoteWriteClosed stream ∈ eventsOf seen := mem_filter.mpr ⟨closed, rfl⟩
  obtain ⟨os, among, same⟩ : ∃ os, os <+: x.tale.seen ∧ (eventsOf seen = [] ∧ os = [] ∨
      eventsOf seen = .established (peerOf initiator responder role) :: os.filterMap publish) := by
    rcases stage.events with ⟨vacant, -⟩ | present
    · exact ⟨[], nil_prefix, .inl ⟨prefix_nil.mp (vacant ▸ shown), rfl⟩⟩
    · rw [present] at shown
      rcases prefix_cons_iff.mp shown with empty | ⟨events, found, rest⟩
      · exact ⟨[], nil_prefix, .inl ⟨empty, rfl⟩⟩
      · obtain ⟨os, among, rfl⟩ := prefix_filterMap_iff.mp rest
        exact ⟨os, among, .inr found⟩
  refine ⟨os, among, fun stream => ?_, fun stream closed => ?_⟩
  · rw [dataOf_events]
    rcases same with ⟨absent, rfl⟩ | found
    · rw [absent]
      rfl
    · rw [found]
      rfl
  · have member := event closed
    rcases same with ⟨nothing, -⟩ | found
    · rw [nothing] at member
      cases member
    · rw [found] at member
      exact (mem_cons.mp member).resolve_left nofun

theorem Stage.received {seen : List SessionOutput} (part : seen <+: said) (stream : UInt32) :
    dataOf stream.toNat seen <+: y.tale.acc stream ∧
      (.streamRemoteWriteClosed stream.toNat ∈ seen →
        dataOf stream.toNat seen = y.tale.acc stream) := by
  obtain ⟨coming, going, -, -, joined⟩ := stage.meets.symm
  obtain ⟨fa, fb, ma, mb, linked, -, -⟩ := joined.linked
  obtain ⟨os, among, same, closes⟩ := stage.seen part
  obtain ⟨received, ended⟩ := (linked.integral stream).seen (among.trans (prefix_append ..))
  rw [same, dataOf_publish]
  exact ⟨received, fun closed => ended (closed_publish stream (closes _ closed))⟩

theorem Stage.narrow {stream : StreamId}
    (wide : 2 ^ 32 ≤ stream) {seen : List SessionOutput} (part : seen <+: said) :
    dataOf stream seen = [] ∧ .streamRemoteWriteClosed stream ∉ seen := by
  obtain ⟨os, -, same, closes⟩ := stage.seen part
  have fits (i : UInt32) : i.toNat ≠ stream := fun equal =>
    absurd (equal ▸ wide) (Nat.not_le.mpr i.toNat_lt)
  refine ⟨?_, fun closed => ?_⟩
  · rw [same, dataOf, flatMap_eq_nil_iff]
    intro output published
    obtain ⟨o, -, named⟩ := mem_filterMap.mp published
    cases o with
    | data i bytes =>
      cases named
      exact if_neg (fits i)
    | outbound bytes => cases named
    | goAwayReceived code => cases named
    | _ => cases named; rfl
  · obtain ⟨o, -, named⟩ := mem_filterMap.mp (closes _ closed)
    cases o with
    | remoteWriteClosed i => exact fits i (by simpa [publish] using named)
    | _ => cases named

end

/-! ### When there is nothing more to do -/

theorem Stage.clear (stage : Stage S role y way mux fed phase said x) :
    Begins noiseProtocolId fed ∧ wireOf said = uttered role noiseProtocolId fed ∨
      agreement noiseProtocolId <+: fed ∧ agreement noiseProtocolId <+: wireOf said := by
  cases stage with
  | selectNoise talks wrote => exact .inl ⟨talks.begins, wrote⟩
  | noise selected noisy => exact .inr ⟨selected, ⟨_, noisy.wrote.symm⟩⟩
  | upper selected upper =>
    cases upper with
    | selectYamux noisy => exact .inr ⟨selected, ⟨_, noisy.wrote.symm⟩⟩
    | ready muxes => exact .inr ⟨selected, ⟨_, muxes.noisy.wrote.symm⟩⟩

theorem Stage.noisy (stage : Stage S role y way mux fed phase said x)
    (selected : agreement noiseProtocolId <+: fed) :
    ∃ noise, Noisy S role y way noise x.record said ∧
      (x.record.report.isSome → Upper S role y way mux x.record.opened.flatten phase said x) := by
  cases stage with
  | selectNoise talks => exact (talks.begins.short selected).elim
  | noise _ noisy unreported =>
    refine ⟨_, noisy, fun reported => ?_⟩
    rw [Bearing.idle, unreported] at reported
    cases reported
  | upper _ upper =>
    cases upper with
    | selectYamux noisy complete talks told events meets =>
      exact ⟨_, noisy, fun _ => .selectYamux noisy complete talks told events meets⟩
    | ready muxes same listened rests =>
      exact ⟨_, muxes.noisy, fun _ => .ready muxes same listened rests⟩

theorem Upper.covered {heard : List UInt8} (upper : Upper S role y way mux heard phase said x) :
    Begins yamuxProtocolId heard ∧
        x.record.segments.flatten = uttered role yamuxProtocolId heard ∨
      agreement yamuxProtocolId <+: heard ∧ agreement yamuxProtocolId <+:
        x.record.segments.flatten := by
  cases upper with
  | selectYamux noisy complete talks told => exact .inl ⟨talks.begins, told⟩
  | ready muxes same listened => exact .inr ⟨⟨_, listened.symm⟩, ⟨_, muxes.told.symm⟩⟩

theorem Upper.announced {heard : List UInt8} (upper : Upper S role y way mux heard phase said x)
    (agreed : agreement yamuxProtocolId <+: heard) :
    .established (peerOf initiator responder role) ∈ said := by
  cases upper with
  | selectYamux noisy complete talks told => exact (talks.begins.short agreed).elim
  | ready muxes =>
    have among : .established (peerOf initiator responder role) ∈ eventsOf said := by
      rw [muxes.events]
      exact mem_cons_self
    exact (mem_filter.mp among).1

theorem Joint.settled (lawful : P.Lawful) (joint : Joint S fresh .initiator log p) (quiet : p.quiet)
    (role : SessionRole) : .established (peerOf initiator responder role) ∈ outputsOf role log := by
  obtain ⟨x, y, fed, fed', here, there⟩ := joint
  have still := quiet .initiator
  have still' := quiet .responder
  obtain ⟨phase, -, stage⟩ := here.sits.stage
  obtain ⟨phase', -, stage'⟩ := there.sits.stage
  have heard := here.heard
  have heard' := there.heard
  simp only [SessionRole.other, still, still', append_nil] at heard heard' stage stage'
  -- the first negotiation is over at both ends
  obtain ⟨selected, selected'⟩ := both_agreed noise_proposable heard.symm heard'.symm stage.clear
    stage'.clear
  obtain ⟨noise, noisy, upper⟩ := stage.noisy selected
  obtain ⟨noise', noisy', upper'⟩ := stage'.noisy selected'
  -- and so is the handshake
  have read := noisy.stands.drained lawful stage'.fair.speaks
  have read' := noisy'.stands.drained lawful stage.fair.speaks
  obtain ⟨complete, complete'⟩ := noisy.stands.plays.both_complete noisy'.stands.plays noisy.started
    noisy'.started read read'
  have opened := noisy.stands.plays.opened_all noisy'.stands.plays complete complete' read
    (noisy.stands.opens lawful stage'.fair.speaks)
  have opened' := noisy'.stands.plays.opened_all noisy.stands.plays complete' complete read'
    (noisy'.stands.opens lawful stage.fair.speaks)
  rw [← noisy.stands.plays.reported] at complete
  rw [← noisy'.stands.plays.reported] at complete'
  -- and the second negotiation
  obtain ⟨agreed, agreed'⟩ := both_agreed yamux_proposable (congrArg List.flatten opened)
    (congrArg List.flatten opened') (upper complete).covered (upper' complete').covered
  cases role with
  | initiator => exact (upper complete).announced agreed
  | responder => exact (upper' complete').announced agreed'

/-! ### Every run -/

/-- An initiator and a responder that can come up: neither expects someone else, and the
multiplexers have valid limits and the same for frames. -/
structure Matched (initiator responder : SessionConfig P) : Prop where
  initiates : initiator.role = .initiator
  responds : responder.role = .responder
  expects : ∀ other, initiator.expectedPeer = some other → other = responder.identity.peerId
  expected : ∀ other, responder.expectedPeer = some other → other = initiator.identity.peerId
  valid : ∀ role, ∃ mux,
    YamuxSession.withConfig (yamuxRole role) (role.pick initiator responder).yamux = .ok mux
  limit : initiator.yamux.maxFrameLen = responder.yamux.maxFrameLen

namespace Matched

section

variable (matched : Matched initiator responder)
include matched

theorem honest : Noise.Honest initiator.noise responder.noise := by
  refine ⟨?_, ?_, matched.expects, matched.expected⟩
  · rw [SessionConfig.noise, matched.initiates]
  · rw [SessionConfig.noise, matched.responds]

theorem acts (role : SessionRole) : (role.pick initiator responder).role = role := by
  cases role
  · exact matched.initiates
  · exact matched.responds

theorem created : ∃ fresh, Created initiator responder fresh :=
  ⟨fun role => (matched.valid role).choose, fun role => (matched.valid role).choose_spec⟩

end

end Matched

theorem Created.meets (created : Created initiator responder fresh)
    (limit : initiator.yamux.maxFrameLen = responder.yamux.maxFrameLen) (role : SessionRole) :
    (Bearing.idle ⟨[], [], [], [], none⟩ (fresh role)).Meets
      (Bearing.idle ⟨[], [], [], [], none⟩ (fresh role.other)) := by
  have first : (Bearing.idle ⟨[], [], [], [], none⟩ (fresh .initiator)).Meets
      (Bearing.idle ⟨[], [], [], [], none⟩ (fresh .responder)) := by
    obtain ⟨client, valid, same⟩ := YamuxSession.withConfig_ok (created .initiator)
    obtain ⟨server, valid', same'⟩ := YamuxSession.withConfig_ok (created .responder)
    have frames : client.maxFrameLen = server.maxFrameLen := by
      rw [valid, valid']
      exact limit
    rw [same, same']
    exact ⟨[], [], rfl, rfl, Yamux.Joined.start frames⟩
  cases role
  · exact first
  · exact first.symm

theorem begun_eq (config : SessionConfig P) : begun config = { new config with
      phase :=
        some (.selectNoise (takeOutputs ((selector config.role noiseProtocolId).handleInput .start))
        (some (.new config.noise)))
      outputs := [.write (Multistream.encodeMessage Multistream.multistreamProtocolId)] } := by
  have queue := (Talks.new config.role noiseProtocolId).2.1
  rw [begun, start, withPhase, new]
  dsimp only
  rw [startPhase, queue]
  rfl

theorem connect_end (matched : Matched initiator responder)
    (created : Created initiator responder fresh) (role : SessionRole) :
    End S fresh role [] (connect initiator responder role)
      (connect initiator responder role.other)
      (.idle ⟨[], [], [], [], none⟩ (fresh role)) (.idle ⟨[], [], [], [], none⟩
        (fresh role.other)) [] := by
  refine ⟨⟨?_, ?_, ?_⟩, rfl, fun _ => rfl⟩
  · rw [connect, begun_eq]
    exact matched.acts role
  · rw [connect, begun_eq]
    rfl
  · obtain ⟨talks, -, greeting⟩ := Talks.new role noiseProtocolId
    rw [connect, begun_eq, matched.acts role]
    refine ⟨_, rfl, .selectNoise talks ?_ rfl (created.meets matched.limit role)⟩
    rw [greeting]
    exact append_nil _

theorem connect_joint (matched : Matched initiator responder)
    (created : Created initiator responder fresh) :
    Joint S fresh .initiator [] (connect initiator responder) :=
  ⟨_, _, [], [], connect_end matched created .initiator, connect_end matched created .responder⟩

def Returning (initiator responder : SessionConfig P) (p : Pair P) : Prop :=
  ∀ role, ∃ received taken, Holds (role.pick initiator responder) received taken (p role).session

theorem connect_returning (initiator responder : SessionConfig P) :
    Returning initiator responder (connect initiator responder) := by
  intro role
  obtain ⟨a, session, called, holds, -⟩ :=
    behaves (new_holds (role.pick initiator responder)) .start
  have begun : begun (role.pick initiator responder) = session := by
    rw [begun]
    rw [call] at called
    cases started : (new (role.pick initiator responder)).start with
    | none => rw [started] at called; cases called
    | some returned => rw [started] at called; cases called; rfl
  exact ⟨_, _, by rw [connect, begun]; exact holds⟩

theorem Returning.step (returning : Returning initiator responder p) (move : Move) :
    ∃ a p', p.step move = some (a, p') ∧ Returning initiator responder p' := by
  have moved (role : SessionRole) (c : Call) :
      ∃ a session', (p role).session.call c = some (a, session') ∧
      ∀ own' other' : Station P, own'.session = session' → other'.session = (p role.other).session →
        Returning initiator responder (facing role own' other') := by
    obtain ⟨received, taken, holds⟩ := returning role
    obtain ⟨a, session', called, holds', -⟩ := behaves holds c
    refine ⟨a, session', called, fun own' other' same same' side => ?_⟩
    by_cases own : side = role
    · subst own
      exact ⟨_, _, by rw [facing_same, same]; exact holds'⟩
    · have opposite : side = role.other := by
        cases side <;> cases role <;> first | rfl | exact absurd rfl own
      subst opposite
      rw [facing_other, same']
      exact returning role.other
  cases move with
  | request role r =>
    obtain ⟨a, session', called, kept⟩ := moved role r.call
    exact ⟨a, facing role { p role with session := session' }
      { p role.other with incoming := (p role.other).incoming ++ wireOf a.handed },
      by rw [Pair.step, called], kept _ _ rfl rfl⟩
  | deliver role count =>
    obtain ⟨a, session', called, kept⟩ := moved role (.handleInput ((p role).incoming.take count))
    exact ⟨a, facing role ⟨session', (p role).incoming.drop count⟩ (p role.other),
      by rw [Pair.step, called], kept _ _ rfl rfl⟩

structure Connected (initiator responder : SessionConfig P) (log : List (Move × Answer))
    (p : Pair P) :
    Prop where
  lasting : ∀ entry ∈ log, ∀ e, entry.2.error? = some e → e.isFatal = false
  once : ∀ role, (outputsOf role log ++ (p role).session.outputs).filter announces <+:
    [.established (peerOf initiator responder role)]
  first : ∀ role before output after,
    outputsOf role log ++ (p role).session.outputs = before ++ output :: after →
    output.isStream = true → .established (peerOf initiator responder role) ∈ before
  settled : p.quiet → ∀ role, (outputsOf role log).filter announces =
    [.established (peerOf initiator responder role)]
  received : ∀ role stream seen, seen <+: outputsOf role log ++ (p role).session.outputs →
    dataOf stream seen <+: sentOf role.other stream log ∧
      (.streamRemoteWriteClosed stream ∈ seen → dataOf stream seen = sentOf role.other stream log)

theorem Joint.connected (lawful : P.Lawful) (joint : Joint S fresh .initiator log p)
    (lasting : ∀ entry ∈ log, ∀ e, entry.2.error? = some e → e.isFatal = false) :
    Connected initiator responder log p := by
  have once (role : SessionRole) :
      (outputsOf role log ++ (p role).session.outputs).filter announces <+:
        [.established (peerOf initiator responder role)] := by
    obtain ⟨x, y, fed, fed', here, -⟩ := joint.seen role
    obtain ⟨phase, -, stage⟩ := here.sits.stage
    exact stage.once
  refine ⟨lasting, once, fun role before output after split stream => ?_, fun quiet role => ?_,
    fun role stream seen part => ?_⟩
  · obtain ⟨x, y, fed, fed', here, -⟩ := joint.seen role
    obtain ⟨phase, -, stage⟩ := here.sits.stage
    exact stage.first split stream
  · have among : .established (peerOf initiator responder role) ∈
        (outputsOf role log).filter announces :=
      mem_filter.mpr ⟨joint.settled lawful quiet role, rfl⟩
    have single := once role
    rw [(quiet role).2, append_nil] at single
    rcases prefix_cons_iff.mp single with absent | ⟨rest, same, empty⟩
    · rw [absent] at among
      cases among
    · rw [same, prefix_nil.mp empty]
  · obtain ⟨x, y, fed, fed', here, there⟩ := joint.seen role
    obtain ⟨phase, -, stage⟩ := here.sits.stage
    by_cases fits : stream < 2 ^ 32
    · have named : (UInt32.ofNat stream).toNat = stream := UInt32.toNat_ofNat_of_lt' fits
      have received := stage.received part (UInt32.ofNat stream)
      rwa [there.acc, named] at received
    · obtain ⟨nothing, unclosed⟩ := stage.narrow (Nat.not_lt.mp fits) part
      rw [nothing]
      exact ⟨ nil_prefix, fun closed => absurd closed unclosed⟩

/-- Over lawful primitives, two sessions that match come up in every run and carry their streams,
up to the end of a Noise counter. -/
theorem honest_sessions_connect (lawful : P.Lawful) {initiator responder : SessionConfig P}
    (matched : Matched initiator responder) (moves : List Move) :
    ∃ log p, Machine.run Pair.step (connect initiator responder) moves = some (log, p) ∧
      ((∀ entry ∈ log, entry.2.error? ≠ some exhausted) → Connected initiator responder log p) := by
  obtain ⟨S⟩ := Noise.handshake_agrees lawful matched.honest
  obtain ⟨fresh, created⟩ := matched.created
  let Course : List (Move × Answer) → Pair P → Prop := fun log p =>
    Returning initiator responder p ∧ ((∀ entry ∈ log, entry.2.error? ≠ some exhausted) →
      (∀ entry ∈ log, ∀ e, entry.2.error? = some e → e.isFatal = false) ∧
        Joint S fresh .initiator log p)
  have start : Course [] (connect initiator responder) :=
    ⟨connect_returning initiator responder, fun _ => ⟨nofun, connect_joint matched created⟩⟩
  obtain ⟨log, p, runs, -, course⟩ := Machine.run_keeps (P := Course) (fun {past p} move kept => by
    obtain ⟨returning, course⟩ := kept
    obtain ⟨a, p', stepped, returning'⟩ := returning.step move
    refine ⟨a, p', stepped, returning', fun unworn => ?_⟩
    have early : ∀ entry ∈ past, entry.2.error? ≠ some exhausted := fun entry among =>
      unworn entry (mem_append_left _ among)
    obtain ⟨lasting, joint⟩ := course early
    obtain ⟨_, _, stepped', ended⟩ := joint.step lawful created move
    cases stepped.symm.trans stepped'
    rcases ended with worn | ⟨mild, joint'⟩
    · exact absurd worn (unworn (move, a) (mem_append_right _ (mem_singleton_self _)))
    · refine ⟨fun entry among => ?_, joint'⟩
      rcases mem_append.mp among with before | last
      · exact lasting entry before
      · rw [mem_singleton.mp last]
        exact mild) start moves
  refine ⟨log, p, runs, fun unworn => ?_⟩
  obtain ⟨lasting, joint⟩ := course unworn
  exact joint.connected lawful lasting

def narrowConfig (role : SessionRole) (secret : UInt8) (limit : UInt32) :
    SessionConfig Noise.plainPrimitives :=
  { plainConfig role secret with
    yamux := { (plainConfig role secret).yamux with maxFrameLen := limit } }

def exchange : List Move :=
  [.request .initiator .pollOutput, .request .responder .pollOutput, .deliver .initiator 4096,
    .deliver .responder 4096]

def conversation : List Move :=
  (List.replicate 9 exchange).flatten ++
    [.request .initiator .openStream, .request .initiator (.send 1 [1, 2])] ++
    (List.replicate 8 exchange).flatten

theorem narrow_matched (limit : UInt32) (positive : limit.toNat ≠ 0) :
    Matched (narrowConfig .initiator 1 limit) (narrowConfig .responder 4 limit) where
  initiates := rfl
  responds := rfl
  expects := nofun
  expected := nofun
  valid role := by
    have window : ¬ Yamux.YamuxConfig.default.receiveWindow.toNat < Yamux.defaultReceiveWindow := by
      decide
    cases role <;> exact ⟨_, (dif_neg window).trans (dif_neg positive)⟩
  limit := rfl

/-- Two plain sessions that carry two bytes and come to rest. -/
theorem narrow_sessions_connect : ∃ log p,
    Machine.run Pair.step (connect (narrowConfig .initiator 1 2) (narrowConfig .responder 4 2))
      conversation = some (log, p) ∧
    (∀ entry ∈ log, entry.2.error? ≠ some exhausted) ∧ p.quiet ∧
    dataOf 1 (outputsOf .responder log) = [1, 2] ∧
    Connected (narrowConfig .initiator 1 2) (narrowConfig .responder 4 2) log p := by
  obtain ⟨log, p, runs, connected⟩ := honest_sessions_connect Noise.plainPrimitives_lawful
    (narrow_matched 2 (by decide)) conversation
  have checked : (Machine.run Pair.step
      (connect (narrowConfig .initiator 1 2) (narrowConfig .responder 4 2)) conversation).all
      (fun ran => ran.1.all (fun entry => entry.2.error? != some exhausted) &&
        [SessionRole.initiator, .responder].all (fun role =>
          (ran.2 role).incoming == [] && (ran.2 role).session.outputs == []) &&
        dataOf 1 (outputsOf .responder ran.1) == [1, 2]) = true := by decide +kernel
  rw [runs] at checked
  simp only [Option.all_some, Bool.and_eq_true, all_eq_true, bne_iff_ne, beq_iff_eq] at checked
  obtain ⟨⟨unworn, empty⟩, carried⟩ := checked
  exact ⟨log, p, runs, unworn, fun role => empty role (by cases role <;> simp), carried,
    connected unworn⟩

/-- A responder that takes shorter frames than the initiator sends fails on valid limits. -/
theorem frame_limits_clash : Noise.plainPrimitives.Lawful ∧
    (∀ role : SessionRole, ∃ mux, YamuxSession.withConfig (yamuxRole role)
      (role.pick (narrowConfig .initiator 1 2) (narrowConfig .responder 4 1)).yamux = .ok mux) ∧
    ((Machine.run Pair.step
      (connect (narrowConfig .initiator 1 2) (narrowConfig .responder 4 1)) conversation).any
      fun ran => ran.1.any fun entry => entry.2.error?.any SessionError.isFatal) = true := by
  refine ⟨Noise.plainPrimitives_lawful, fun role => ?_, by decide +kernel⟩
  cases role <;> exact ⟨_, (dif_neg (by decide)).trans (dif_neg (by decide))⟩

end SecureMux
