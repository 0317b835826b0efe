import Mathlib.Data.List.Induction
import MiniP2P.Core.MultiaddrKind
import MiniP2P.NatTraversal.Types
import MiniP2P.Transport.Types

/-! Reachability from AutoNAT probes. A probe may end in a sample; the verdict follows the samples
in a window of the last few. The AutoNAT client is any machine. Sums of times wrap, as they do in
a build without overflow checks. -/
namespace NatTraversal
open Core Identity List Transport

structure PeerAddr where
  transport : Multiaddr
  peerId : PeerId

abbrev NatToken := Nat

inductive TokenPurpose where
  | probeDial
  | openProbe (peer : PeerId)

inductive NatAction where
  | dial (token : NatToken) (addr : PeerAddr)
  | openStream (token : NatToken) (peer : PeerId) (protocolId : String)
  | sendStream (peer : PeerId) (streamId : StreamId) (data : List UInt8)
  | closeStreamWrite (peer : PeerId) (streamId : StreamId)
  | resetStream (peer : PeerId) (streamId : StreamId)

inductive Reachability where
  | isPublic (addrs : List Multiaddr)
  | isPrivate
  | unknown

inductive ClientInput where
  | flush
  | data (bytes : List UInt8)
  | remoteWriteClosed

inductive ClientOutput where
  | outbound (data : List UInt8)
  | outcome (reachability : Reachability)

/-- The client of one probe. An input that is not refused yields the outputs until there are no
more. -/
structure AutoNatClient (M : Type) where
  new : PeerId → List Multiaddr → M
  handleInput : M → ClientInput → Option (List ClientOutput × M)

def autonatProtocolId : String := "/libp2p/autonat/1.0.0"

structure ProbeConfig where
  autonatServers : List PeerAddr
  confidenceThreshold : UInt8
  confidenceWindow : UInt8
  probeIntervalSettledMs : UInt64
  probeIntervalUnsettledMs : UInt64
  probeDeadlineMs : UInt64

def ProbeConfig.window (c : ProbeConfig) : Nat := max c.confidenceWindow.toNat 1

def ProbeConfig.threshold (c : ProbeConfig) : Nat :=
  min (max c.confidenceThreshold.toNat 1) c.window

/-- What the prober uses of the state it shares with the rest of the agent. -/
structure Shared where
  localPeerId : PeerId
  listenAddrs : List Multiaddr
  ready : PeerId → Option (List String)
  isConnected : PeerId → Bool
  pendingSessionDials : List (NatToken × PeerId × UInt64)
  tokens : List (NatToken × TokenPurpose)
  nextToken : NatToken
  probeStreams : List (PeerId × StreamId)
  actions : List NatAction

namespace Shared

variable (s : Shared)

def allocToken (purpose : TokenPurpose) : NatToken × Shared :=
  (s.nextToken,
    { s with nextToken := s.nextToken + 1, tokens := s.tokens ++ [(s.nextToken, purpose)] })

def pushAction (action : NatAction) : Shared := { s with actions := s.actions ++ [action] }

def pushSessionDial (purpose : TokenPurpose) (addr : PeerAddr) (now deadlineMs : UInt64) : Shared :=
  let kept := s.pendingSessionDials.filter (now < ·.2.2)
  let (token, s) := s.allocToken purpose
  { s with pendingSessionDials := kept ++ [(token, addr.peerId, now + deadlineMs)] }.pushAction
    (.dial token addr)

def sessionDialPending (peer : PeerId) (now : UInt64) : Bool :=
  s.pendingSessionDials.any fun dial => dial.2.1 = peer ∧ now < dial.2.2

def openProbe (peer : PeerId) : Shared :=
  let (token, s) := s.allocToken (.openProbe peer)
  s.pushAction (.openStream token peer autonatProtocolId)

def ownStream (peer : PeerId) (stream : StreamId) : Shared :=
  { s with probeStreams := (peer, stream) :: s.probeStreams }

def releaseStream (peer : PeerId) (stream : StreamId) : Shared :=
  { s with probeStreams := s.probeStreams.filter (· ≠ (peer, stream)) }

end Shared

inductive ExchangeStage where
  | waitPeerReady
  | opening
  | waitStreamReady (stream : StreamId)
  | awaitResponse (stream : StreamId)
  deriving DecidableEq

def ExchangeStage.stream : ExchangeStage → Option StreamId
  | .waitStreamReady stream | .awaitResponse stream => some stream
  | _ => none

structure ProbeFlight (M : Type) where
  server : PeerAddr
  stage : ExchangeStage
  machine : Option M
  deadline : UInt64

/-- What the application sees of the prober, and what its verdict rests on. -/
structure Belief where
  verdict : ReachabilityState := .unknown
  window : List Bool := []
  publicAddrs : List Multiaddr := []
  events : List NatEvent := []

structure Prober (M : Type) where
  config : ProbeConfig
  belief : Belief
  flight : Option (ProbeFlight M)
  nextProbeAt : Option UInt64
  serverIdx : Nat
  shared : Shared

inductive StreamInput where
  | ready
  | data (bytes : List UInt8)
  | remoteWriteClosed
  | closed

def pushCandidate (accepted : List Multiaddr) (addr : Multiaddr) : List Multiaddr :=
  if addr.isWildcardHost || addr.transportKind.isNone || addr ∈ accepted then accepted
  else accepted ++ [addr]

def selectDirectAddrs (manual : List Multiaddr) (identifyObserved listen : Option Multiaddr) :
    List Multiaddr :=
  (manual ++ identifyObserved.toList ++ listen.toList).foldl pushCandidate []

def Belief.vote (b : Belief) (c : ProbeConfig) (sample : Bool) (addrs : List Multiaddr) :
    Bool × Belief :=
  let window := b.window ++ [sample]
  let window := if c.window < window.length then window.tail else window
  let publicVotes := window.countP id
  let privateVotes := window.length - publicVotes
  let new : ReachabilityState :=
    if c.threshold ≤ publicVotes then .isPublic
    else if c.threshold ≤ privateVotes then .isPrivate
    else b.verdict
  if new = b.verdict then
    if new = .isPublic ∧ sample = true ∧ addrs ≠ b.publicAddrs then
      (false, { b with
        window, publicAddrs := addrs, events := b.events ++ [.publicAddressesChanged addrs] })
    else (false, { b with window })
  else
    let publicAddrs := if new = .isPublic ∧ sample = true then addrs else []
    (true, ⟨new, window, publicAddrs, b.events ++ [.reachabilityChanged b.verdict new publicAddrs]⟩)

def Belief.recordSample (b : Belief) (c : ProbeConfig) (reachability : Reachability) :
    Bool × Belief :=
  match reachability with
  | .isPublic addrs =>
    let selected := selectDirectAddrs addrs none none
    if selected.isEmpty then (false, b) else b.vote c true selected
  | .isPrivate => b.vote c false []
  | .unknown => (false, b)

/-- Whether a probe found us public, and at which addresses. -/
abbrev Sample := Bool × List Multiaddr

/-- The sample of a result: the addresses of a public one that something can dial. -/
def Reachability.sample : Reachability → Option Sample
  | .isPublic addrs =>
    let selected := selectDirectAddrs addrs none none
    if selected.isEmpty then none else some (true, selected)
  | .isPrivate => some (false, [])
  | .unknown => none

def ClientOutput.result : ClientOutput → Option Reachability
  | .outcome reachability => some reachability
  | .outbound _ => none

namespace Prober

variable {M : Type} (client : AutoNatClient M) (p : Prober M)

def new (config : ProbeConfig) (shared : Shared) : Prober M where
  config
  belief := {}
  flight := none
  nextProbeAt := if config.autonatServers.isEmpty then none else some 0
  serverIdx := 0
  shared

def retrySoon (now : UInt64) : Prober M :=
  { p with nextProbeAt := some (now + p.config.probeIntervalUnsettledMs) }

/-- The end of a flight: its stream, if it has one, gets a last action and is let go. -/
def endFlight (last : PeerId → StreamId → Shared → Shared) : Prober M :=
  match p.flight with
  | none => p
  | some flight =>
    let peer := flight.server.peerId
    { p with
      flight := none
      shared := flight.stage.stream.elim p.shared fun stream =>
        (last peer stream p.shared).releaseStream peer stream }

def abortFlight (now : UInt64) : Prober M :=
  let p := p.endFlight fun peer stream shared => shared.pushAction (.resetStream peer stream)
  { p with serverIdx := p.serverIdx + 1 }.retrySoon now

def finishFlight (now : UInt64) : Prober M :=
  let p := p.endFlight fun peer stream shared => shared.pushAction (.closeStreamWrite peer stream)
  let interval := if p.belief.verdict = .unknown then p.config.probeIntervalUnsettledMs
    else p.config.probeIntervalSettledMs
  { p with nextProbeAt := some (now + interval) }

def startProbe (now : UInt64) : Prober M :=
  match p.config.autonatServers[p.serverIdx % p.config.autonatServers.length]? with
  | none => p.retrySoon now
  | some server =>
    let peer := server.peerId
    let fly (stage : ExchangeStage) (shared : Shared) : Prober M := { p with
      flight := some ⟨server, stage, none, now + p.config.probeDeadlineMs⟩
      nextProbeAt := none
      shared }
    if p.shared.listenAddrs.isEmpty then p.retrySoon now
    else
      match p.shared.ready peer with
      | some protocols =>
        if autonatProtocolId ∈ protocols then fly .opening (p.shared.openProbe peer)
        else { p with serverIdx := p.serverIdx + 1 }.retrySoon now
      | none =>
        if p.shared.isConnected peer || p.shared.sessionDialPending peer now then
          fly .waitPeerReady p.shared
        else fly .waitPeerReady (p.shared.pushSessionDial .probeDial server now
          p.config.probeDeadlineMs)

def onTick (now : UInt64) : Prober M :=
  let p := if p.flight.any (·.deadline ≤ now) then p.abortFlight now else p
  if p.flight.isNone && p.nextProbeAt.any (· ≤ now) then p.startProbe now else p

def onPeerReady (peer : PeerId) (protocols : List String) (now : UInt64) : Prober M :=
  match p.flight with
  | none => p
  | some flight =>
    if flight.stage ≠ .waitPeerReady ∨ flight.server.peerId ≠ peer then p
    else if autonatProtocolId ∈ protocols then
      { p with flight := some { flight with stage := .opening }, shared := p.shared.openProbe peer }
    else p.abortFlight now

def onPeerDisconnected (peer : PeerId) (now : UInt64) : Prober M :=
  if p.flight.any (·.server.peerId = peer) then
    let p := p.endFlight fun _ _ shared => shared
    { p with serverIdx := p.serverIdx + 1 }.retrySoon now
  else p

def onDialResult (failed : Bool) (now : UInt64) : Prober M :=
  if failed && p.flight.any (·.stage = .waitPeerReady) then p.abortFlight now else p

def onStreamOpenResult (serverPeer : PeerId) (result : Option StreamId) (now : UInt64) : Prober M :=
  match p.flight.filter fun f => f.stage = .opening ∧ f.server.peerId = serverPeer, result with
  | none, none => p
  | none, some stream => { p with shared := p.shared.pushAction (.resetStream serverPeer stream) }
  | some flight, some stream => { p with
    shared := p.shared.ownStream serverPeer stream
    flight := some { flight with
      machine := some (client.new p.shared.localPeerId p.shared.listenAddrs)
      stage := .waitStreamReady stream } }
  | some _, none => p.abortFlight now

/-- The last outcome among the outputs. -/
def outcome (outputs : List ClientOutput) : Option Reachability :=
  outputs.foldl (fun sample output =>
    match output with
    | .outcome reachability => some reachability
    | .outbound _ => sample) none

/-- Input while a response is awaited: the result of the probe, if that is its end. -/
def respond (flight : ProbeFlight M) (input : ClientInput) (now : UInt64) :
    Option Reachability × Prober M :=
  match flight.machine with
  | none => (none, p)
  | some machine =>
    match client.handleInput machine input with
    | none => (none, p.abortFlight now)
    | some (outputs, machine) =>
      let p := { p with flight := some { flight with machine := some machine } }
      match outcome outputs with
      | none => (none, p)
      | some reachability => (some reachability, p.finishFlight now)

/-- A stream event up to the result, which is yet to be recorded. -/
def hear (stream : StreamId) (input : StreamInput) (now : UInt64) :
    Option Reachability × Prober M :=
  match p.flight.filter (·.stage.stream = some stream) with
  | none => (none, p)
  | some flight =>
    match flight.stage, input with
    | .waitStreamReady _, .ready =>
      match flight.machine with
      | none => (none, p)
      | some machine =>
        match client.handleInput machine .flush with
        | none => (none, p.abortFlight now)
        | some (outputs, machine) =>
          let send (shared : Shared) : ClientOutput → Shared
            | .outbound data => shared.pushAction (.sendStream flight.server.peerId stream data)
            | .outcome _ => shared
          (none, { p with
            flight := some { flight with machine := some machine, stage := .awaitResponse stream }
            shared := outputs.foldl send p.shared })
    | .awaitResponse _, .data bytes => p.respond client flight (.data bytes) now
    | .awaitResponse _, .remoteWriteClosed => p.respond client flight .remoteWriteClosed now
    | _, .closed => (none, p.abortFlight now)
    | _, _ => (none, p)

def onStreamInput (stream : StreamId) (input : StreamInput) (now : UInt64) : Bool × Prober M :=
  match p.hear client stream input now with
  | (none, p) => (false, p)
  | (some reachability, p) =>
    let (flipped, belief) := p.belief.recordSample p.config reachability
    (flipped, { p with belief })

/-! ### Runs -/

/-- What reaches the prober. In between, the rest of the agent does what it likes with the shared
state. -/
inductive Call where
  | tick (now : UInt64)
  | peerReady (peer : PeerId) (protocols : List String) (now : UInt64)
  | peerDisconnected (peer : PeerId) (now : UInt64)
  | dialResult (failed : Bool) (now : UInt64)
  | streamOpenResult (serverPeer : PeerId) (result : Option StreamId) (now : UInt64)
  | streamInput (stream : StreamId) (input : StreamInput) (now : UInt64)
  | elsewhere (shared : Shared)

def call : Call → Prober M
  | .tick now => p.onTick now
  | .peerReady peer protocols now => p.onPeerReady peer protocols now
  | .peerDisconnected peer now => p.onPeerDisconnected peer now
  | .dialResult failed now => p.onDialResult failed now
  | .streamOpenResult peer result now => p.onStreamOpenResult client peer result now
  | .streamInput stream input now => (p.onStreamInput client stream input now).2
  | .elsewhere shared => { p with shared }

/-- What the client hears when it awaits the response on the stream. -/
def awaited (stream : StreamId) : StreamInput → Option (M × ClientInput)
  | .data bytes => awaits.map (·, .data bytes)
  | .remoteWriteClosed => awaits.map (·, .remoteWriteClosed)
  | _ => none
where awaits := (p.flight.filter (·.stage = .awaitResponse stream)).bind ProbeFlight.machine

/-- The last result that the client answers the call with, unless it refuses. -/
def answer : Call → Option Reachability
  | .streamInput stream input _ =>
    (p.awaited stream input).bind fun (machine, input) =>
      (client.handleInput machine input).bind fun (outputs, _) =>
        (outputs.filterMap ClientOutput.result).getLast?
  | _ => none

/-- The sample that the call brings: a result of the client, if it is conclusive. -/
def sampled (c : Call) : Option Sample := (p.answer client c).bind Reachability.sample

/-- The samples, the newest first, and the prober after the calls. -/
def run (p : Prober M) (calls : List Call) : List Sample × Prober M :=
  calls.foldl (fun (samples, p) c => ((p.sampled client c).toList ++ samples,
    p.call client c)) ([], p)

def core : Belief × ProbeConfig := (p.belief, p.config)

variable {client p} {now : UInt64}

theorem endFlight_core (last : PeerId → StreamId → Shared → Shared) :
    (p.endFlight last).core = p.core := by
  unfold endFlight
  split <;> rfl

theorem abortFlight_core : (p.abortFlight now).core = p.core := endFlight_core _

theorem startProbe_core : (p.startProbe now).core = p.core := by
  fun_cases startProbe p now <;> rfl

theorem respond_core (flight : ProbeFlight M) (input : ClientInput) :
    (p.respond client flight input now).2.core = p.core := by
  fun_cases respond client p flight input now
  · rfl
  · exact abortFlight_core
  · rfl
  · exact endFlight_core _

theorem hear_core (stream : StreamId) (input : StreamInput) :
    (p.hear client stream input now).2.core = p.core := by
  fun_cases hear client p stream input now <;>
    first | rfl | exact abortFlight_core | exact respond_core ..

theorem outcome_eq (outputs : List ClientOutput) :
    outcome outputs = (outputs.filterMap ClientOutput.result).getLast? := by
  induction outputs using List.reverseRecOn with
  | nil => rfl
  | append_singleton outputs output ih =>
    rw [outcome, foldl_concat, filterMap_append]
    cases output with
    | outbound => simpa [ClientOutput.result, outcome] using ih
    | outcome => simp [ClientOutput.result]

theorem respond_answer (flight : ProbeFlight M) (input : ClientInput) :
    (p.respond client flight input now).1 = flight.machine.bind fun machine =>
      (client.handleInput machine input).bind fun (outputs, _) =>
        (outputs.filterMap ClientOutput.result).getLast? := by
  simp only [← outcome_eq]
  fun_cases respond client p flight input now <;> simp [*]

/-- The prober hears a result exactly when the client answers with one. -/
theorem hear_answer (stream : StreamId) (input : StreamInput) :
    (p.hear client stream input now).1 = p.answer client (.streamInput stream input now) := by
  unfold hear answer awaited awaited.awaits
  cases flying : p.flight with
  | none => cases input <;> rfl
  | some flight =>
    obtain ⟨server, stage, machine, deadline⟩ := flight
    cases stage with
    | waitPeerReady | opening => cases input <;> rfl
    | waitStreamReady own =>
      rcases eq_or_ne own stream with rfl | other
      · cases input with
        | ready =>
          cases machine with
          | none => simp [Option.filter, ExchangeStage.stream]
          | some machine =>
            cases replied : client.handleInput machine .flush <;>
              simp [Option.filter, ExchangeStage.stream, replied]
        | _ => simp [Option.filter, ExchangeStage.stream]
      · cases input <;> simp [Option.filter, ExchangeStage.stream, other]
    | awaitResponse own =>
      rcases eq_or_ne own stream with rfl | other
      · cases input <;> cases machine <;>
          simp [Option.filter, ExchangeStage.stream, respond_answer]
      · cases input <;> simp [Option.filter, ExchangeStage.stream, other]

theorem recordSample_eq (b : Belief) (c : ProbeConfig) (reachability : Reachability) :
    b.recordSample c reachability =
      reachability.sample.elim (false, b) fun x => b.vote c x.1 x.2 := by
  cases reachability with
  | isPublic addrs =>
    simp only [Belief.recordSample, Reachability.sample]
    split <;> rfl
  | _ => rfl

theorem call_core (c : Call) : (p.call client c).core = ((p.sampled client c).elim p.belief fun x =>
    (p.belief.vote p.config x.1 x.2).2, p.config) := by
  cases c with
  | tick now =>
    have aborted :
        (if p.flight.any (·.deadline ≤ now) then p.abortFlight now else p).core = p.core := by
      split
      · exact abortFlight_core
      · rfl
    simp only [call, onTick]
    generalize (if p.flight.any (·.deadline ≤ now) then p.abortFlight now else p) = q at aborted ⊢
    split
    · exact startProbe_core.trans aborted
    · exact aborted
  | peerReady peer protocols now =>
    simp only [call]
    fun_cases onPeerReady p peer protocols now <;> first | rfl | exact abortFlight_core
  | peerDisconnected peer now =>
    simp only [call, onPeerDisconnected]
    split
    · exact endFlight_core _
    · rfl
  | dialResult failed now =>
    simp only [call, onDialResult]
    split
    · exact abortFlight_core
    · rfl
  | streamOpenResult peer result now =>
    simp only [call]
    fun_cases onStreamOpenResult client p peer result now <;> first | rfl | exact abortFlight_core
  | streamInput stream input now =>
    have heard : (p.hear client stream input now).2.core = p.core := hear_core stream input
    simp only [call, onStreamInput, sampled, ← hear_answer]
    generalize p.hear client stream input now = result at heard
    obtain ⟨_ | reachability, q⟩ := result
    · exact heard
    · obtain ⟨same, config⟩ : q.belief = p.belief ∧ q.config = p.config := Prod.mk.inj heard
      simp only [core, recordSample_eq, Option.bind_some]
      rw [same, config]
      cases reachability.sample <;> rfl
  | elsewhere => rfl

end Prober

/-! ### The verdict -/

/-- Where the events lead from the verdict, each from where the last one led. -/
def follow (events : List NatEvent) (verdict : ReachabilityState) : Option ReachabilityState :=
  events.foldl (fun verdict event =>
    match event with
    | .reachabilityChanged old new _ => if verdict = some old ∧ old ≠ new then some new else none
    | _ => verdict) (some verdict)

/-- The addresses that the events announce last. -/
def announced (events : List NatEvent) : Option (List Multiaddr) :=
  events.foldl (fun last event =>
    match event with
    | .reachabilityChanged _ _ addrs | .publicAddressesChanged addrs => some addrs
    | _ => last) none

def agrees : ReachabilityState → Sample → Bool
  | .isPublic, x => x.1
  | .isPrivate, x => !x.1
  | .unknown, _ => false

/-- How many of the samples in the window agree on the verdict. -/
def votes (c : ProbeConfig) (verdict : ReachabilityState) (samples : List Sample) : Nat :=
  (samples.take c.window).countP (agrees verdict)

variable {c : ProbeConfig} {b : Belief} {samples : List Sample} {sample : Bool}
    {addrs : List Multiaddr}

/-- What the samples make of the belief. -/
structure Consistent (c : ProbeConfig) (samples : List Sample) (b : Belief) : Prop where
  window : b.window = ((samples.take c.window).map Prod.fst).reverse
  told : follow b.events .unknown = some b.verdict
  unsettled : b.verdict ≠ .isPublic → votes c .isPublic samples < c.threshold
  confirmed : b.verdict = .isPublic → c.threshold ≤ samples.length ∧ b.publicAddrs ≠ [] ∧
    announced b.events = some b.publicAddrs ∧
    (samples.take c.window).find? Prod.fst = some (true, b.publicAddrs)

theorem window_push (l : List Bool) {n : Nat} (room : 1 ≤ n) :
    (if n < ((l.take n).reverse ++ [sample]).length then ((l.take n).reverse ++ [sample]).tail
     else (l.take n).reverse ++ [sample]) = ((sample :: l).take n).reverse := by
  obtain ⟨n, rfl⟩ := Nat.exists_eq_add_of_le' room
  rw [← reverse_cons, tail_reverse, length_reverse, length_cons, length_take, take_succ_cons]
  split
  · rw [dropLast_eq_take, length_cons, length_take, Nat.add_sub_cancel,
      show min (n + 1) l.length = n + 1 by omega, take_succ_cons, take_take,
          Nat.min_eq_left (Nat.le_succ n)]
  · rw [take_of_length_le (by omega), take_of_length_le (by omega)]

theorem window_pos (c : ProbeConfig) : 1 ≤ c.window := Nat.le_max_right ..

theorem threshold_bounds (c : ProbeConfig) : 1 ≤ c.threshold ∧ c.threshold ≤ c.window :=
  ⟨Nat.le_min.mpr ⟨Nat.le_max_right .., window_pos c⟩, Nat.min_le_right ..⟩

/-- The window after one more sample, and how it votes. -/
theorem Consistent.counts (sound : Consistent c samples b) (sample : Bool)
    (addrs : List Multiaddr) :
    let window := b.window ++ [sample]
    let window := if c.window < window.length then window.tail else window
    let all := (sample, addrs) :: samples
    window = ((all.take c.window).map Prod.fst).reverse ∧
      window.countP id = votes c .isPublic all ∧
      window.length - window.countP id = votes c .isPrivate all := by
  intro _ window all
  have pushed : window = ((all.take c.window).map Prod.fst).reverse := by
    rw [map_take]
    have push := @window_push sample (samples.map Prod.fst) _ (window_pos c)
    rwa [← map_take, ← sound.window] at push
  have both := length_eq_countP_add_countP id (l := window)
  refine ⟨pushed, ?_, ?_⟩
  · rw [pushed, countP_reverse, countP_map]
    rfl
  · rw [both, Nat.add_sub_cancel_left, pushed, countP_reverse, countP_map]
    exact countP_congr fun x _ => by simp [agrees]

/-- While the verdict stays public, a private sample leaves the newest public one in the window. -/
theorem Consistent.stays (sound : Consistent c samples b)
    (stays : c.threshold ≤ votes c .isPublic ((false, addrs) :: samples) ∨
      votes c .isPrivate ((false, addrs) :: samples) < c.threshold ∧ b.verdict = .isPublic) :
    b.verdict = .isPublic ∧
      (((false, addrs) :: samples).take c.window).find? Prod.fst = some (true, b.publicAddrs) := by
  obtain ⟨n, width⟩ := Nat.exists_eq_add_of_le' (window_pos c)
  obtain ⟨least, most⟩ := threshold_bounds c
  have unsettled := sound.unsettled
  have confirmed := sound.confirmed
  unfold votes at stays unsettled
  rw [width, take_succ_cons] at stays
  rw [width, take_succ_cons, find?_cons_of_neg (by simp)]
  rw [width, take_add_one, countP_append] at unsettled
  rw [width, take_add_one, find?_append] at confirmed
  rw [countP_cons_of_neg (by simp [agrees])] at stays
  have verdict : b.verdict = .isPublic := by
    by_contra other
    have few := unsettled other
    rcases stays with enough | ⟨-, same⟩
    · omega
    · exact other same
  refine ⟨verdict, ?_⟩
  obtain ⟨long, -, -, newest⟩ := confirmed verdict
  cases found : (samples.take n).find? Prod.fst with
  | some x => rwa [found] at newest
  | none =>
    -- with none but private samples the verdict would have turned
    have never := find?_eq_none.mp found
    have no : (samples.take n).countP (agrees .isPublic) = 0 := countP_eq_zero.mpr never
    have all : (samples.take n).countP (agrees .isPrivate) = (samples.take n).length :=
      countP_eq_length.mpr fun x member => by simpa [agrees] using never x member
    rw [countP_cons_of_pos rfl, all, length_take] at stays
    omega

theorem Consistent.vote (sound : Consistent c samples b) (dialable : sample = true → addrs ≠ []) :
    Consistent c ((sample, addrs) :: samples) (b.vote c sample addrs).2 ∧
      ((b.vote c sample addrs).2.verdict ≠ b.verdict →
        c.threshold ≤ votes c (b.vote c sample addrs).2.verdict ((sample, addrs) :: samples)) := by
  obtain ⟨pushed, isPublic, isPrivate⟩ := sound.counts sample addrs
  unfold Belief.vote
  dsimp only
  rw [isPrivate, isPublic, pushed]
  generalize rule : (if c.threshold ≤ votes c .isPublic ((sample, addrs) :: samples) then
    ReachabilityState.isPublic else if c.threshold ≤ votes c .isPrivate ((sample, addrs) :: samples)
    then .isPrivate else b.verdict) = new
  have outvoted : new ≠ .isPublic → votes c .isPublic ((sample, addrs) :: samples) <
      c.threshold := by
    grind
  have agreed : new ≠ b.verdict → c.threshold ≤ votes c new ((sample, addrs) :: samples) := by
    grind
  have elected : new = .isPublic →
      c.threshold ≤ votes c .isPublic ((sample, addrs) :: samples) ∨
        votes c .isPrivate ((sample, addrs) :: samples) < c.threshold ∧ b.verdict = .isPublic := by
    grind
  -- the newest public sample is this one or the one before
  have newest (won : new = .isPublic) : sample = true ∨ b.verdict = .isPublic ∧
      (((sample, addrs) :: samples).take c.window).find? Prod.fst = some (true, b.publicAddrs) := by
    cases sample with
    | true => exact .inl rfl
    | false => exact .inr (sound.stays (elected won))
  have newcomer (found : sample = true) :
      (((sample, addrs) :: samples).take c.window).find? Prod.fst = some (true, addrs) := by
    obtain ⟨n, width⟩ := Nat.exists_eq_add_of_le' (window_pos c)
    rw [width, take_succ_cons, find?_cons_of_pos found, found]
  have long (won : new = .isPublic) : c.threshold ≤ ((sample, addrs) :: samples).length := by
    rcases elected won with enough | ⟨-, before⟩
    · exact enough.trans (countP_le_length.trans (length_take_le' ..))
    · exact (sound.confirmed before).1.trans (Nat.le_succ _)
  refine ⟨?_, ?_⟩
  · split
    · rename_i same
      split
      · rename_i changed
        obtain ⟨won, found, -⟩ := changed
        refine ⟨rfl, ?_, fun other => outvoted (same ▸ other), fun _ =>
          ⟨long won, dialable found, ?_, newcomer found⟩⟩
        · simpa [follow] using sound.told
        · simp [announced]
      · refine ⟨rfl, sound.told, fun other => outvoted (same ▸ other), fun before => ?_⟩
        obtain ⟨_, nonempty, told, _⟩ := sound.confirmed before
        have won := same.trans before
        refine ⟨long won, nonempty, told, ?_⟩
        rcases newest won with found | ⟨-, kept⟩
        · grind
        · exact kept
    · rename_i turned
      refine ⟨rfl, ?_, outvoted, fun won => ?_⟩
      · have told := sound.told
        unfold follow at told ⊢
        rw [foldl_append, told]
        simp [Ne.symm turned]
      · rcases newest won with found | ⟨before, -⟩
        · rw [if_pos ⟨won, found⟩]
          exact ⟨long won, dialable found, by simp [announced], newcomer found⟩
        · exact absurd (won.trans before.symm) turned
  · split
    · split <;> exact fun changed => absurd rfl changed
    · exact fun _ => agreed ‹_›

namespace Prober

variable {M : Type} {client : AutoNatClient M} {p : Prober M}

theorem sampled_dialable {c : Call} {sample : Bool} {addrs : List Multiaddr}
    (sampled : p.sampled client c = some (sample, addrs)) (found : sample = true) : addrs ≠ [] := by
  obtain ⟨reachability, -, conclusive⟩ := Option.bind_eq_some_iff.mp sampled
  cases reachability with
  | isPublic all =>
    simp only [Reachability.sample] at conclusive
    split at conclusive
    · cases conclusive
    · rename_i nonempty
      cases conclusive
      simpa using nonempty
  | isPrivate =>
    cases conclusive
    cases found
  | unknown => cases conclusive

theorem call_consistent (c : Call) (sound : Consistent p.config samples p.belief) :
    (p.call client c).config = p.config ∧
      Consistent p.config ((p.sampled client c).toList ++ samples) (p.call client c).belief ∧
      ((p.call client c).belief.verdict ≠ p.belief.verdict → p.config.threshold ≤
        votes p.config (p.call client c).belief.verdict ((p.sampled client c).toList ++
          samples)) := by
  obtain ⟨belief, config⟩ := Prod.mk.inj (@call_core M client p c)
  refine ⟨config, ?_⟩
  rw [belief]
  cases sampled : p.sampled client c with
  | none => exact ⟨sound, fun changed => absurd rfl changed⟩
  | some x => exact sound.vote fun found => sampled_dialable sampled found

theorem run_consistent (config : ProbeConfig) (shared : Shared) (calls : List Call) :
    (run client (new config shared) calls).2.config = config ∧
      Consistent config (run client (new config shared) calls).1
        (run client (new config shared) calls).2.belief := by
  refine foldlRecOn calls _ (motive := fun (state : List Sample × Prober M) =>
    state.2.config = config ∧ Consistent config state.1 state.2.belief) ?_ ?_
  · obtain ⟨least, -⟩ := threshold_bounds config
    refine ⟨rfl, by simp [new], rfl, fun _ => ?_, nofun⟩
    rw [votes, take_nil]
    exact least
  · rintro ⟨samples, p⟩ ⟨rfl, sound⟩ c -
    obtain ⟨config, sound, -⟩ := call_consistent c sound
    exact ⟨config, sound⟩

end Prober

open Prober

/-- The verdict turns only with enough votes in the window, its changes are told in a chain, a
public one has the addresses of the newest public sample, still in the window, and what brings no
sample changes nothing. -/
theorem verdict_follows_samples (M : Type) (client : AutoNatClient M) (config : ProbeConfig)
    (shared : Shared) (calls : List Call) :
    let (samples, p) := run client (new config shared) calls
    follow p.belief.events .unknown = some p.belief.verdict ∧
    (p.belief.verdict = .isPublic → ∃ addrs, addrs ≠ [] ∧ announced p.belief.events = some addrs ∧
      (samples.take config.window).find? Prod.fst = some (true, addrs)) ∧
    ∀ c, ((p.call client c).belief.verdict ≠ p.belief.verdict → config.threshold ≤
        votes config (p.call client c).belief.verdict ((p.sampled client c).toList ++ samples)) ∧
      (p.sampled client c = none → (p.call client c).belief = p.belief) := by
  obtain ⟨same, sound⟩ := @run_consistent M client config shared calls
  generalize run client (new config shared) calls = state at same sound
  obtain ⟨samples, p⟩ := state
  subst same
  refine ⟨sound.told, fun won => ?_, fun c => ⟨(call_consistent c sound).2.2, fun silent => ?_⟩⟩
  · obtain ⟨-, nonempty, told, newest⟩ := sound.confirmed won
    exact ⟨p.belief.publicAddrs, nonempty, told, newest⟩
  · have belief := (Prod.mk.inj (@call_core M client p c)).1
    rwa [silent] at belief

/-! ### Timers -/

namespace Prober

variable {M : Type} {client : AutoNatClient M} {p : Prober M} {now : UInt64}

def nextDeadline (p : Prober M) : Option UInt64 :=
  match p.flight.map (·.deadline), p.nextProbeAt with
  | some a, some b => some (min a b)
  | a, b => a.or b

/-- A probe is in flight or the next one has its time, and not both. -/
def Waits (p : Prober M) : Prop := p.flight.isSome = p.nextProbeAt.isNone

theorem endFlight_flight (last : PeerId → StreamId → Shared → Shared) :
    (p.endFlight last).flight = none := by
  cases flies : p.flight <;> simp [endFlight, flies]

theorem abortFlight_waits : (p.abortFlight now).Waits := by
  simp [Waits, abortFlight, retrySoon, endFlight_flight]

theorem startProbe_waits (idle : p.flight = none) : (p.startProbe now).Waits := by
  fun_cases startProbe p now <;> first | rfl | simp [Waits, retrySoon, idle]

theorem Waits.onTick (waits : p.Waits) : (p.onTick now).Waits := by
  simp only [Prober.onTick]
  split
  · split
    · exact startProbe_waits (by simp_all)
    · exact abortFlight_waits
  · split
    · exact startProbe_waits (by simp_all)
    · exact waits

theorem Waits.respond (waits : p.Waits) {flight : ProbeFlight M} (flies : p.flight = some flight)
    (input : ClientInput) : (p.respond client flight input now).2.Waits := by
  fun_cases Prober.respond client p flight input now
  · exact waits
  · exact abortFlight_waits
  · rwa [Waits, flies] at waits
  · simp [Waits, finishFlight, endFlight_flight]

theorem Waits.hear (waits : p.Waits) (stream : StreamId) (input : StreamInput) :
    (p.hear client stream input now).2.Waits := by
  fun_cases Prober.hear client p stream input now <;> first
    | exact waits
    | exact abortFlight_waits
    | exact waits.respond (Option.filter_eq_some_iff.mp ‹_›).1 _
    | simp_all [Waits, Option.filter_eq_some_iff]

theorem Waits.call (waits : p.Waits) (c : Call) : (p.call client c).Waits := by
  cases c with
  | tick now => exact waits.onTick
  | peerReady peer protocols now =>
    simp only [Prober.call]
    fun_cases onPeerReady p peer protocols now <;> first
      | exact waits
      | exact abortFlight_waits
      | simp_all [Waits]
  | peerDisconnected peer now =>
    simp only [Prober.call, onPeerDisconnected]
    split
    · simp [Waits, retrySoon, endFlight_flight]
    · exact waits
  | dialResult failed now =>
    simp only [Prober.call, onDialResult]
    split
    · exact abortFlight_waits
    · exact waits
  | streamOpenResult peer result now =>
    simp only [Prober.call]
    fun_cases onStreamOpenResult client p peer result now <;> first
      | exact waits
      | exact abortFlight_waits
      | simp_all [Waits, Option.filter_eq_some_iff]
  | streamInput stream input now =>
    have heard : (p.hear client stream input now).2.Waits := waits.hear stream input
    simp only [Prober.call, onStreamInput]
    split <;> simp_all [Waits]
  | elsewhere => exact waits

/-- Nothing runs, and nothing ever will. -/
def Rests (p : Prober M) : Prop := p.flight = none ∧ p.nextProbeAt = none

theorem Rests.call (rests : p.Rests) (c : Call) : (p.call client c).Rests := by
  obtain ⟨idle, never⟩ := rests
  cases c with
  | streamOpenResult peer result now =>
    cases result <;> simp [Rests, Prober.call, onStreamOpenResult, idle, never]
  | _ =>
    simp [Rests, Prober.call, onTick, onPeerReady, onPeerDisconnected, onDialResult, onStreamInput,
      Prober.hear, idle, never]

theorem run_keeps {P : Prober M → Prop} (kept : ∀ {p}, P p → ∀ c, P (p.call client c)) (start : P p)
    (calls : List Call) : P (run client p calls).2 :=
  foldlRecOn calls _ (motive := fun (state : List Sample × Prober M) => P state.2) start
    fun _ held c _ => kept held c

end Prober

/-- With servers, the prober always has exactly one time to wait for, and without it has none. -/
theorem probing_never_stalls {M : Type} (client : AutoNatClient M) (config : ProbeConfig)
    (shared : Shared) (calls : List Call) :
    let p := (run client (new config shared) calls).2
    if config.autonatServers = [] then p.nextDeadline = none else
      p.nextDeadline.isSome ∧ p.Waits := by
  intro p
  split
  · have rests : p.Rests := run_keeps Rests.call (by simp [Rests, new, *]) calls
    rw [nextDeadline, rests.1, rests.2]
    rfl
  · have waits : p.Waits := run_keeps Waits.call (by simp [Waits, new, *]) calls
    refine ⟨?_, waits⟩
    unfold Waits at waits
    unfold nextDeadline
    cases flies : p.flight <;> cases next : p.nextProbeAt <;> simp_all

end NatTraversal
