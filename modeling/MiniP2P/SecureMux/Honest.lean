import MiniP2P.Noise.Pair
import MiniP2P.SecureMux.Negotiation
import MiniP2P.Yamux.Honest
import MiniP2P.Yamux.Staying

/-! The work of a call opposite an honest end: what the session has read and said in each phase,
and what it goes on to. -/
namespace SecureMux
open Fallible Identity List
open Multistream (MultistreamSelect multistreamProtocolId encodeMessage)
open Noise (Primitives NoiseInput NoiseOutput NoiseRole NoiseSession Record Script
    Speaks Adds frames
  noiseProtocolId outboundOf decryptedOf reportsOf)
open Yamux (YamuxConfig YamuxError YamuxOutput YamuxSession Tale Staying yamuxProtocolId)

variable {P : Primitives}

namespace SessionRole

def other : SessionRole → SessionRole
  | initiator => responder
  | responder => initiator

def pick {α : Type} (a b : α) : SessionRole → α
  | initiator => a
  | responder => b

def noise : SessionRole → NoiseRole
  | initiator => .initiator
  | responder => .responder

end SessionRole

/-! ### What has been said -/

def SessionOutput.wire : SessionOutput → List UInt8
  | .write bytes => bytes
  | _ => []

def wireOf (said : List SessionOutput) : List UInt8 := said.flatMap SessionOutput.wire

def SessionOutput.isEvent : SessionOutput → Bool
  | .write _ => false
  | _ => true

/-- All that is not written but reported. -/
def eventsOf (said : List SessionOutput) : List SessionOutput := said.filter SessionOutput.isEvent

@[simp] theorem wireOf_append (a b : List SessionOutput) : wireOf (a ++ b) = wireOf a ++ wireOf b :=
  flatMap_append

@[simp] theorem eventsOf_append (a b : List SessionOutput) :
    eventsOf (a ++ b) = eventsOf a ++ eventsOf b := filter_append ..

@[simp] theorem wireOf_writes (messages : List (List UInt8)) :
    wireOf (messages.map .write) = messages.flatten := by
  induction messages with
  | nil => rfl
  | cons message messages ih => exact congrArg (message ++ ·) ih

@[simp] theorem eventsOf_writes (messages : List (List UInt8)) :
    eventsOf (messages.map .write) = [] := by
  induction messages with
  | nil => rfl
  | cons message messages ih => exact ih

def publish : YamuxOutput → Option SessionOutput
  | .incomingStream stream => some (.incomingStream stream.toNat)
  | .data stream data => some (.streamData stream.toNat data)
  | .remoteWriteClosed stream => some (.streamRemoteWriteClosed stream.toNat)
  | .streamClosed stream => some (.streamClosed stream.toNat)
  | .outbound _ | .goAwayReceived _ => none

/-- The one error that two honest sessions can come to: the counter of the sender's cipher has
come to its end. -/
def exhausted : SessionError := .protocol "Noise encryption failed: Noise cipher nonce exhausted"

def WornOut (halt : Halt) (_ : List SessionOutput) : Prop := halt = .error exhausted

/-! ### Where an end stands -/

/-- What the layers of one end have done: its Noise session, its multiplexer, and the bytes that
this has taken from the other multiplexer and given to it. -/
structure Bearing where
  record : Record
  mux : YamuxSession
  tale : Tale
  taken : List UInt8
  given : List UInt8

namespace Bearing

def idle (record : Record) (mux : YamuxSession) : Bearing :=
  ⟨record, mux, ⟨fun _ => [], [], []⟩, [], []⟩

def Meets (x y : Bearing) : Prop :=
  ∃ coming going, y.given = x.taken ++ coming ∧ x.given = y.taken ++ going ∧
    Yamux.Joined false ⟨x.mux, coming⟩ ⟨y.mux, going⟩ x.tale y.tale

theorem Meets.symm {x y : Bearing} (meets : x.Meets y) : y.Meets x := by
  obtain ⟨coming, going, takes, gives, joined⟩ := meets
  exact ⟨going, coming, gives, takes, joined.symm⟩

/-- One bearing leads to another, without a call that sends. -/
structure Later (x x' : Bearing) : Prop where
  sent : x.record.sent <+: x'.record.sent
  acc : x'.tale.acc = x.tale.acc

theorem Later.refl (x : Bearing) : x.Later x := ⟨prefix_refl _, rfl⟩

theorem Later.trans {x y z : Bearing} (first : x.Later y) (second : y.Later z) : x.Later z :=
  ⟨first.sent.trans second.sent, second.acc.trans first.acc⟩

end Bearing

variable {initiator responder : SessionConfig P} {S : Script initiator.noise responder.noise}
  {role : SessionRole} {y : Bearing} {way : List UInt8} {noise : NoiseSession P} {mine : Record}
  {base outputs : List SessionOutput}

/-- A Noise session that is started and drained, with what it has sent. -/
structure Noisy (S : Script initiator.noise responder.noise) (role : SessionRole) (y : Bearing)
    (way : List UInt8) (noise : NoiseSession P) (mine : Record)
    (said : List SessionOutput) : Prop where
  stands : Noise.Stands S role.noise noise mine y.record.sent way
  started : noise.started = true
  drained : noise.pending = []
  wrote : wireOf said = agreement noiseProtocolId ++ frames.encodeAll mine.sent

theorem noise_goes (context : String) (drained : noise.pending = [])
    (wrote : wireOf (base ++ outputs) = agreement noiseProtocolId ++ frames.encodeAll mine.sent)
    {input : NoiseInput} {session : NoiseSession P} {mine' : Record} {new : List NoiseOutput}
    {way' : List UInt8} (handled : noise.handleInput input = (.ok (), session))
    (stands : Noise.Stands S role.noise session mine' y.record.sent way')
    (started : session.started = true) (adds : Adds mine mine' new)
    (pending : session.pending = noise.pending ++ new) :
    handleNoise context noise input outputs = .ok
      ⟨(reportsOf new).getLast?.map Prod.fst, decryptedOf new, { session with pending := [] }⟩
      (outputs ++ (outboundOf new).map .write) ∧
    Noisy S role y way' { session with pending := [] } mine'
      (base ++ (outputs ++ (outboundOf new).map .write)) ∧
    mine.sent <+: mine'.sent := by
  obtain ⟨extra, sent, wire⟩ := adds.wire
  rw [drained] at pending
  refine ⟨ran_of_wp ?_, ⟨stands.polled [], started, rfl, ?_⟩, ⟨extra, sent.symm⟩⟩
  · rw [handleNoise, handled]
    change wp (drainNoise session) _ _ outputs
    rw [wp_ran (drainNoise_ran ..), pending]
    exact ⟨rfl, rfl⟩
  · rw [← append_assoc, wireOf_append, wrote, sent, Incremental.Codec.encodeAll_append, ← wire,
      wireOf_writes]
    rfl

theorem eventsOf_wrote (messages : List (List UInt8)) :
    eventsOf (base ++ (outputs ++ messages.map .write)) = eventsOf (base ++ outputs) := by
  rw [← append_assoc, eventsOf_append, eventsOf_writes, append_nil]

variable {said : List SessionOutput}

theorem Noisy.tell (noisy : Noisy S role y way noise mine said)
    {output : SessionOutput} (event : output.isEvent = true) :
    Noisy S role y way noise mine (said ++ [output]) := by
  refine { noisy with wrote := ?_ }
  cases output with
  | write bytes => cases event
  | _ =>
    rw [wireOf_append, noisy.wrote]
    exact append_nil _

theorem Noisy.read (lawful : P.Lawful) {data : List UInt8}
    (noisy : Noisy S role y (data ++ way) noise mine (base ++ outputs))
    (speaks : Speaks S role.noise.other y.record.sent y.record.segments) (context : String) :
    ∃ noise' mine' new, handleNoise context noise (.data data) outputs = .ok
        ⟨(reportsOf new).getLast?.map Prod.fst, decryptedOf new, noise'⟩
        (outputs ++ (outboundOf new).map .write) ∧
      Noisy S role y way noise' mine' (base ++ (outputs ++ (outboundOf new).map .write)) ∧
      mine.sent <+: mine'.sent ∧ mine'.segments = mine.segments ∧
      mine'.opened = mine.opened ++ decryptedOf new ∧
      mine'.report.toList = mine.report.toList ++ reportsOf new := by
  obtain ⟨session, mine', new, handled, stands, started, segments, adds, pending⟩ :=
    noisy.stands.receive lawful noisy.started speaks
  obtain ⟨ran, noisy', sent⟩ :=
    noise_goes context noisy.drained noisy.wrote handled stands started adds pending
  exact ⟨_, mine', new, ran, noisy', sent, segments, adds.opened, adds.report⟩

theorem Noisy.encrypt (lawful : P.Lawful) (noisy : Noisy S role y way noise mine (base ++ outputs))
    (complete : mine.report.isSome) (plaintext : List UInt8) :
    wp (SecureMux.encrypt noise plaintext)
      (fun noise' outputs' => ∃ mine', Noisy S role y way noise' mine' (base ++ outputs') ∧
        mine.sent <+: mine'.sent ∧ mine'.segments.flatten = mine.segments.flatten ++ plaintext ∧
        mine'.opened = mine.opened ∧ mine'.report = mine.report ∧
        eventsOf (base ++ outputs') = eventsOf (base ++ outputs)) WornOut outputs := by
  have ready : noise.sendCipher.isSome := by
    rw [← noisy.stands.plays.reported]
    exact complete
  rw [SecureMux.encrypt, wp_bind]
  rcases noisy.stands.encrypt_complete lawful ready plaintext with
    ⟨session, mine', new, handled, stands, sends⟩ | ⟨session, handled, -⟩
  · have started : session.started = true := sends.started.trans noisy.started
    obtain ⟨ran, noisy', sent⟩ := noise_goes "Noise encryption failed: " noisy.drained noisy.wrote
        handled stands started sends.adds sends.pending
    obtain ⟨opened, report, silent, quiet⟩ := sends.still noisy.stands.plays ready
    rw [wp_ran ran, silent, quiet]
    refine ⟨mine', noisy', sent, ?_, opened, report, ?_⟩
    · rw [sends.segments, flatten_append, (NoiseSession.segments_spec plaintext).1]
    · exact eventsOf_wrote _
  · rw [handleNoise, handled]
    rfl

/-! ### Over the multiplexer -/

/-- A session inside a call that works on its multiplexer. `front` has been reported before. -/
structure Muxes (S : Script initiator.noise responder.noise) (role : SessionRole) (y : Bearing)
    (way : List UInt8) (front : List SessionOutput) (noise : NoiseSession P)
    (said : List SessionOutput) (x : Bearing) : Prop where
  noisy : Noisy S role y way noise x.record said
  complete : x.record.report.isSome
  told : x.record.segments.flatten = agreement yamuxProtocolId ++ x.given
  events : eventsOf said = front ++ x.tale.seen.filterMap publish
  staying : Staying x.mux.core
  meets : x.Meets y

variable {front : List SessionOutput} {x : Bearing}

theorem Muxes.tell (muxes : Muxes S role y way front noise said x)
    {output : YamuxOutput} {mux : YamuxSession} {event : SessionOutput}
    (silent : output.wire = []) (published : publish output = some event)
    (staying : Staying mux.core)
    (meets : Bearing.Meets { x with
      mux, tale := { x.tale with seen := x.tale.seen ++ [output] },
      given := x.given ++ output.wire } y) :
    Muxes S role y way front noise (said ++ [event])
      { x with mux, tale := { x.tale with seen := x.tale.seen ++ [output] } } := by
  have shown : event.isEvent = true := by
    cases output <;> cases published <;> rfl
  rw [silent, append_nil] at meets
  refine ⟨muxes.noisy.tell shown, muxes.complete, muxes.told, ?_, staying, meets⟩
  rw [eventsOf_append, muxes.events, filterMap_append]
  simp [eventsOf, shown, published]

/-- The call has drained the multiplexer, which has taken these bytes by now. -/
def Rests (S : Script initiator.noise responder.noise) (role : SessionRole) (y : Bearing)
    (way : List UInt8) (front : List SessionOutput) (x : Bearing) (taken : List UInt8)
    (noise : NoiseSession P) (mux : YamuxSession) (said : List SessionOutput) : Prop :=
  ∃ x', Muxes S role y way front noise said x' ∧ x'.mux = mux ∧ mux.core.pending = [] ∧
    x'.taken = taken ∧ x'.record.opened = x.record.opened ∧ x.Later x'

theorem Rests.after {x₁ : Bearing} {taken : List UInt8} {mux : YamuxSession}
    (rests : Rests S role y way front x₁ taken noise mux said) (later : x.Later x₁)
    (opened : x₁.record.opened = x.record.opened) :
    Rests S role y way front x taken noise mux said := by
  obtain ⟨x', muxes, same, empty, took, kept, more⟩ := rests
  exact ⟨x', muxes, same, empty, took, kept.trans opened, later.trans more⟩

theorem Muxes.drainLoop (lawful : P.Lawful) {fuel : Nat} (enough : x.mux.core.owed < fuel)
    (muxes : Muxes S role y way front noise (base ++ outputs) x) :
    wp (drainYamuxLoop fuel noise x.mux none)
      (fun found outputs' => found.2.2 = none ∧
        Rests S role y way front x x.taken found.1 found.2.1 (base ++ outputs'))
          WornOut outputs := by
  induction fuel generalizing x noise outputs with
  | zero => exact absurd enough (Nat.not_lt_zero _)
  | succ fuel ih =>
    obtain ⟨coming, going, takes, gives, joined⟩ := muxes.meets
    unfold drainYamuxLoop
    rcases joined.polls muxes.staying with
      ⟨drained, empty⟩ | ⟨output, core, polled, owed, staying, stays, joined'⟩
    · rw [drained]
      exact ⟨rfl, x, muxes, rfl, empty, rfl, rfl, .refl x⟩
    · dsimp only at polled owed joined'
      rw [polled]
      have fewer : core.owed < fuel := by omega
      have meets : Bearing.Meets { x with
          mux := ⟨core, x.mux.decoder⟩
          tale := { x.tale with seen := x.tale.seen ++ [output] }
          given := x.given ++ output.wire } y :=
        ⟨coming, going ++ output.wire, takes, by rw [gives, append_assoc], joined'⟩
      -- The rest of the loop goes on from whatever bearing this output has led to.
      have next {x₁ : Bearing} {noise₁ : NoiseSession P} {outputs₁ : List SessionOutput}
          (kept : Muxes S role y way front noise₁ (base ++ outputs₁) x₁)
          (same : x₁.mux = ⟨core, x.mux.decoder⟩) (taken : x₁.taken = x.taken)
          (opened : x₁.record.opened = x.record.opened) (later : x.Later x₁) :
          wp (drainYamuxLoop fuel noise₁ ⟨core, x.mux.decoder⟩ none)
            (fun found outputs' => found.2.2 = none ∧
              Rests S role y way front x x.taken found.1 found.2.1 (base ++ outputs'))
            WornOut outputs₁ := by
        have fewer₁ : x₁.mux.core.owed < fuel := same ▸ fewer
        rw [← same, ← taken]
        exact wp_imp (ih fewer₁ kept) fun _ _ found => ⟨found.1, found.2.after later opened⟩
      have reports {event : SessionOutput} (silent : output.wire = [])
          (published : publish output = some event) :
          wp (do push event; drainYamuxLoop fuel noise ⟨core, x.mux.decoder⟩ none)
            (fun found outputs' => found.2.2 = none ∧
              Rests S role y way front x x.taken found.1 found.2.1 (base ++ outputs'))
            WornOut outputs := by
        have told := muxes.tell silent published staying meets
        rw [append_assoc] at told
        exact next told rfl rfl rfl ⟨prefix_refl _, rfl⟩
      cases output with
      | outbound bytes =>
        rw [wp_bind]
        refine wp_imp (muxes.noisy.encrypt lawful muxes.complete bytes) ?_
        rintro noise' outputs' ⟨mine', noisy', sent, segments, opened, report, events⟩
        have kept : Muxes S role y way front noise' (base ++ outputs')
            ⟨mine', ⟨core, x.mux.decoder⟩, { x.tale with seen := x.tale.seen ++ [.outbound bytes] },
              x.taken, x.given ++ bytes⟩ := by
          refine ⟨noisy', report ▸ muxes.complete, ?_, ?_, staying, meets⟩
          · rw [segments, muxes.told, append_assoc]
          · rw [events, muxes.events]
            simp [publish]
        exact next kept rfl rfl opened ⟨sent, rfl⟩
      | goAwayReceived code => exact absurd rfl (stays code)
      | incomingStream stream | data stream data | remoteWriteClosed stream | streamClosed stream =>
        exact reports rfl rfl

theorem Muxes.drain (lawful : P.Lawful)
    (muxes : Muxes S role y way front noise (base ++ outputs) x) :
    wp (drainYamux noise x.mux)
      (fun found outputs' => Rests S role y way front x x.taken found.1 found.2 (base ++ outputs'))
      WornOut outputs := by
  rw [drainYamux, wp_bind]
  refine wp_imp (muxes.drainLoop lawful (Nat.lt_succ_of_le (Yamux.SessionCore.owed_le _))) ?_
  rintro ⟨noise', mux, goAway⟩ outputs' ⟨nothing, kept⟩
  subst nothing
  exact kept

theorem Muxes.feed (lawful : P.Lawful) (muxes : Muxes S role y way front noise (base ++ outputs) x)
    {plaintext : List UInt8} (coming : x.taken ++ plaintext <+: y.given) :
    wp (feedYamux noise x.mux plaintext)
      (fun found outputs' =>
        Rests S role y way front x (x.taken ++ plaintext) found.1 found.2 (base ++ outputs'))
      WornOut outputs := by
  obtain ⟨left, going, takes, gives, joined⟩ := muxes.meets
  rw [takes, prefix_append_right_inj] at coming
  obtain ⟨rest, rfl⟩ := coming
  obtain ⟨mux, fed, staying, joined'⟩ := joined.deliver_stays muxes.staying plaintext.length
  rw [take_left] at fed
  rw [drop_left] at joined'
  have kept : Muxes S role y way front noise (base ++ outputs)
      { x with mux, taken := x.taken ++ plaintext } :=
    { muxes with staying, meets := ⟨rest, going, by rw [takes, append_assoc], gives, joined'⟩ }
  unfold feedYamux
  rw [fed]
  rw [wp_bind]
  refine wp_imp (kept.drain lawful) ?_
  rintro ⟨noise', mux'⟩ outputs' rests
  exact rests.after ⟨prefix_refl _, rfl⟩ rfl

end SecureMux
