import Mathlib.Data.Prod.Lex
import Mathlib.Data.Finset.Basic
import Mathlib.Data.List.MinMax
import MiniP2P.Core.MultiaddrKind
import MiniP2P.Lib.OrderedIndex

/-! The shared peer book of discovery: what two sources say about peers, which of it the
application has been told, and which peers are dialed because of it. -/
namespace Discovery
open Collections Core Identity

def u64Max : Nat := 2 ^ 64 - 1

def saturatingAdd (a b : Nat) : Nat := min (a + b) u64Max

inductive DiscoverySource where
  | signedBeacon
  | mdns
  deriving DecidableEq

structure PeerDiscoveryConfig where
  maxKnownPeers : Nat := 128
  maxAddrsPerPeer : Nat := 16
  autoDial : Bool := true
  dialTieBreak : Bool := true
  redialBackoffMs : Nat := 30000
  beaconPeerTtlMs : Nat := 35000
  maxObservedTtlMs : Nat := 360000
  mdnsDialWindowMs : Nat := 60000
  maxMdnsDialsPerWindow : Nat := 3
  maxMdnsDialsPerWindowGlobal : Nat := 32
  maxPendingViolations : Nat := 4

/-- The errors of the book's own configuration. -/
inductive DiscoveryConfigError where
  | zeroMaxKnownPeers
  | zeroMaxAddrs
  | zeroBeaconPeerTtl
  | zeroMaxObservedTtl
  | zeroMdnsDialWindow
  | zeroMdnsDialLimit
  | zeroPendingViolations

def PeerDiscoveryConfig.validate (c : PeerDiscoveryConfig) : Except DiscoveryConfigError Unit :=
  if c.maxKnownPeers = 0 then .error .zeroMaxKnownPeers
  else if c.maxAddrsPerPeer = 0 then .error .zeroMaxAddrs
  else if c.beaconPeerTtlMs = 0 then .error .zeroBeaconPeerTtl
  else if c.maxObservedTtlMs = 0 then .error .zeroMaxObservedTtl
  else if c.mdnsDialWindowMs = 0 then .error .zeroMdnsDialWindow
  else if c.maxMdnsDialsPerWindow = 0 ∨ c.maxMdnsDialsPerWindowGlobal = 0 then
    .error .zeroMdnsDialLimit
  else if c.maxPendingViolations = 0 then .error .zeroPendingViolations
  else .ok ()

inductive DiscoveryAction where
  | dial (peer : PeerId) (addrs : List Multiaddr) (source : DiscoverySource)
  | cancelDial (peer : PeerId)
  deriving DecidableEq

inductive DiscoveryEvent where
  | peerDiscovered (peer : PeerId) (addrs : List Multiaddr) (source : DiscoverySource)
  | peerUpdated (peer : PeerId) (addrs : List Multiaddr) (source : DiscoverySource)
  | peerExpired (peer : PeerId)
  | dialFailed (peer : PeerId) (reason : String)
  | protocolViolation (peer : Option PeerId) (source : DiscoverySource) (reason : String)
      (suppressed : Nat)
  deriving DecidableEq

/-! ### Addresses -/

def isSupportedAddr (addr : Multiaddr) : Bool :=
  if addr.isWildcardHost || addr.protocols.isEmpty then false
  else addr.transportKind.isSome || addr.isRelayCircuitTransport

def normalizeAddr (peer : PeerId) (addr : Multiaddr) : Option Multiaddr :=
  let own : Option Multiaddr := match addr.protocols.getLast? with
    | some (.p2p suffix) => if suffix = peer then some ⟨addr.protocols.dropLast⟩ else none
    | _ => some addr
  own.filter isSupportedAddr

/-- The loop stops when the list is as long as the cap. -/
def normalizeObservedLoop (peer : PeerId) (cap : Nat) (normalized : List Multiaddr) :
    List Multiaddr → List Multiaddr
  | [] => normalized
  | addr :: addrs =>
    match normalizeAddr peer addr with
    | none => normalizeObservedLoop peer cap normalized addrs
    | some addr =>
      if addr ∈ normalized then normalizeObservedLoop peer cap normalized addrs
      else if normalized.length + 1 = cap then normalized ++ [addr]
      else normalizeObservedLoop peer cap (normalized ++ [addr]) addrs

def normalizeObservedAddrs (peer : PeerId) (addrs : List Multiaddr) (cap : Nat) : List Multiaddr :=
  normalizeObservedLoop peer cap [] addrs

/-! ### Entries -/

inductive DialState where
  | idle
  | inFlight
  | backoff (untilMs : Nat)
  deriving DecidableEq

def DialState.permits (nowMs : Nat) : DialState → Bool
  | .idle => true
  | .inFlight => false
  | .backoff untilMs => untilMs ≤ nowMs

structure BeaconSource where
  addrs : List Multiaddr
  lastSeenMs : Nat

structure MdnsRecord where
  observedAtMs : Nat
  expiresAtMs : Nat

structure RateWindow where
  attempts : List Nat := []

namespace RateWindow

def allows (w : RateWindow) (nowMs windowMs limit : Nat) : Bool :=
  w.attempts.countP (fun at_ => nowMs < saturatingAdd at_ windowMs) < limit

def charge (w : RateWindow) (nowMs windowMs : Nat) : RateWindow :=
  ⟨w.attempts.dropWhile (fun at_ => saturatingAdd at_ windowMs ≤ nowMs) ++ [nowMs]⟩

end RateWindow

/-- The records of mDNS are filed by address and listed in order of arrival. -/
structure PeerEntry where
  beacon : Option BeaconSource := none
  mdns : OrderedIndex Multiaddr MdnsRecord := .empty
  dial : DialState := .idle
  mdnsAttempts : RateWindow := {}

structure PeerView where
  merged : List Multiaddr
  provenance : List (Multiaddr × Bool × Bool)
  beaconPresent : Bool
  mdnsPresent : Bool
  deriving DecidableEq

namespace PeerEntry

def isEmpty (e : PeerEntry) : Bool := e.beacon.isNone && e.mdns.map.len = 0

def lastSeenMs (e : PeerEntry) : Nat :=
  max (e.beacon.elim 0 (·.lastSeenMs)) ((e.mdns.map.values.map (·.observedAtMs)).max?.getD 0)

def beaconAddrs (e : PeerEntry) : List Multiaddr := e.beacon.elim [] (·.addrs)

def view (maxAddrs : Nat) (e : PeerEntry) : PeerView :=
  let all :=
    e.mdns.order.foldl (fun all addr => if addr ∈ all then all else all ++ [addr]) e.beaconAddrs
  { merged := all.take maxAddrs
    provenance :=
      all.map (fun addr => (addr, decide (addr ∈ e.beaconAddrs), (e.mdns.get addr).isSome))
    beaconPresent := e.beacon.isSome
    mdnsPresent := e.mdns.map.len ≠ 0 }

/-- The record that expires first makes room for one that expires later. -/
def record (c : PeerDiscoveryConfig) (nowMs : Nat) (mdns : OrderedIndex Multiaddr MdnsRecord)
    (claim : Multiaddr × Nat) : OrderedIndex Multiaddr MdnsRecord :=
  let (addr, ttlMs) := claim
  if ttlMs = 0 then mdns.remove addr
  else
    let fresh : MdnsRecord := ⟨nowMs, saturatingAdd nowMs (min ttlMs c.maxObservedTtlMs)⟩
    if (mdns.get addr).isSome then mdns.set addr fresh
    else if mdns.map.len = c.maxAddrsPerPeer then
      match mdns.map.entries.argmin (fun known => toLex (known.2.expiresAtMs, known.1)) with
      | none => mdns
      | some (candidate, oldest) =>
        if fresh.expiresAtMs ≤ oldest.expiresAtMs then mdns
        else (mdns.remove candidate).set addr fresh
    else mdns.set addr fresh

/-- What is left of an entry when its stale records are gone. -/
def expire (beaconDue : Bool) (nowMs : Nat) (e : PeerEntry) : PeerEntry :=
  { e with
    beacon := if beaconDue then none else e.beacon
    mdns :=
      (e.mdns.map.keysWhere (fun _ record => record.expiresAtMs ≤ nowMs)).foldl .remove e.mdns }

end PeerEntry

inductive StateTransition where
  | discovered (source : DiscoverySource)
  | updated (source : DiscoverySource)
  | expired
  deriving DecidableEq

structure PendingPeer where
  state : Option StateTransition := none
  dialFailed : Option String := none

structure PendingViolation where
  peer : Option PeerId
  source : DiscoverySource
  reason : String
  suppressed : Nat

def maxDialFailureReasonChars : Nat := 256

def capReason (reason : String) : String := .ofList (reason.toList.take maxDialFailureReasonChars)

structure PeerDiscoveryAgent where
  config : PeerDiscoveryConfig
  localPeerId : PeerId
  book : BTreeMap PeerId PeerEntry := .empty
  connected : Finset PeerId := ∅
  actions : List DiscoveryAction := []
  pending : OrderedIndex PeerId PendingPeer := .empty
  reported : BTreeMap PeerId PeerView := .empty
  violations : List PendingViolation := []
  globalMdnsAttempts : RateWindow := {}
  /-- Every debug assertion so far has held. -/
  asserted : Bool := true

namespace PeerDiscoveryAgent

def new (localPeerId : PeerId) (config : PeerDiscoveryConfig) :
    Except DiscoveryConfigError PeerDiscoveryAgent :=
  config.validate.map fun _ => { config, localPeerId }

variable (s : PeerDiscoveryAgent)

def view (e : PeerEntry) : PeerView := e.view s.config.maxAddrsPerPeer

variable (peer : PeerId)

/-- The view of a peer that is in the book. -/
def viewOf : Option PeerView := (s.book.get peer).map s.view

def put (e : PeerEntry) : PeerDiscoveryAgent :=
  { s with book := s.book.insert peer e }

/-! ### Pending events -/

def removePending : PeerDiscoveryAgent :=
  { s with pending := s.pending.remove peer }

def setPending (e : PendingPeer) : PeerDiscoveryAgent :=
  { s with pending := s.pending.set peer e }

/-- That the queue lists the keys of the map once each needs no check: the index is built so. -/
def assertPendingInvariants : PeerDiscoveryAgent :=
  { s with asserted := s.asserted && s.pending.map.len ≤ 2 * s.config.maxKnownPeers }

/-- `pending_entry`, without its effect on the queue: `setPending` has that. -/
def pendingEntry : PendingPeer := (s.pending.get peer).getD {}

/-- What has happened to a peer between two views of it. -/
def transition (source : DiscoverySource) :
    Option PeerView → Option PeerView → Option StateTransition
  | none, some _ => some (.discovered source)
  | some previous, some current => if previous ≠ current then some (.updated source) else none
  | some _, none => some .expired
  | none, none => none

def markState (source : DiscoverySource) : PeerDiscoveryAgent :=
  let marked := match transition source (s.reported.get peer) (s.viewOf peer) with
    | some state => s.setPending peer { s.pendingEntry peer with state := some state }
    | none =>
      if (s.reported.get peer).isNone ∧ (s.viewOf peer).isNone then s.removePending peer
      else match s.pending.get peer with
        | none => s
        | some e =>
          if e.dialFailed.isNone then s.removePending peer
          else s.setPending peer { e with state := none }
  marked.assertPendingInvariants

def markDialFailed (reason : String) : PeerDiscoveryAgent :=
  if (s.book.get peer).isNone ∧ (s.reported.get peer).isNone then s.removePending peer
  else (s.setPending peer { s.pendingEntry peer with
      dialFailed := some (capReason reason) }).assertPendingInvariants

/-! ### The book -/

def dialOf : DiscoveryAction → Option PeerId
  | .dial peer _ _ => some peer
  | .cancelDial _ => none

def removePeer : PeerDiscoveryAgent :=
  match s.book.get peer with
  | none => s
  | some e =>
    let queued := s.actions.any (fun a => dialOf a = some peer)
    let actions := s.actions.filter (fun a => dialOf a ≠ some peer)
    let actions := if e.dial = .inFlight ∨ queued then actions ++ [.cancelDial peer] else actions
    { s with book := s.book.remove peer, actions }.markState peer .mdns

/-- Who goes first: unconnected before connected, unauthenticated before authenticated. -/
def evictionKey (known : PeerId × PeerEntry) : Bool ×ₗ Bool ×ₗ Nat ×ₗ PeerId :=
  toLex (decide (known.1 ∈ s.connected), toLex (known.2.beacon.isSome,
    toLex (known.2.lastSeenMs, known.1)))

/-- `none`: there is no room, and nothing that may go. -/
def makeRoom (incoming : PeerId) (source : DiscoverySource) : Option PeerDiscoveryAgent :=
  if s.book.len < s.config.maxKnownPeers then some s
  else
    let candidates := s.book.entries.filter (fun e => source ≠ .mdns || e.2.beacon.isNone)
    match candidates.argmin s.evictionKey with
    | none => none
    | some (candidate, _) => if candidate = incoming then some s else some (s.removePeer candidate)

def maybeDial (source : DiscoverySource) (nowMs : Nat) : PeerDiscoveryAgent :=
  if !s.config.autoDial ∨ peer ∈ s.connected ∨ (s.config.dialTieBreak ∧ peer ≤ s.localPeerId) then s
  else match s.book.get peer with
    | none => s
    | some e =>
      let window := s.config.mdnsDialWindowMs
      let allowed := source ≠ .mdns ||
        e.mdnsAttempts.allows nowMs window s.config.maxMdnsDialsPerWindow &&
          s.globalMdnsAttempts.allows nowMs window s.config.maxMdnsDialsPerWindowGlobal
      let addrs := (s.view e).merged
      if !e.dial.permits nowMs ∨ !allowed ∨ addrs = [] then s
      else
        let charge (w : RateWindow) := if source = .mdns then w.charge nowMs window else w
        { s.put peer { e with dial := .inFlight, mdnsAttempts := charge e.mdnsAttempts } with
          globalMdnsAttempts := charge s.globalMdnsAttempts
          actions := s.actions ++ [.dial peer addrs source] }

/-- The entry goes into the book, and the application hears of it if its view has changed. -/
def revise (e : PeerEntry) (source : DiscoverySource) : PeerDiscoveryAgent :=
  if s.viewOf peer = some (s.view e) then s.put peer e else (s.put peer e).markState peer source

def observeBeaconEntry (addrs : List Multiaddr) (nowMs : Nat) (e : PeerEntry) : PeerEntry :=
  let addressChanged : Bool := e.beacon.elim (addrs ≠ []) (·.addrs ≠ addrs)
  { e with
    beacon := some ⟨addrs, nowMs⟩
    dial := match e.dial with
      | .backoff untilMs => if addressChanged then .idle else .backoff untilMs
      | dial => dial }

def observeBeacon (addrs : List Multiaddr) (nowMs : Nat) : PeerDiscoveryAgent :=
  if peer = s.localPeerId then s
  else
    let addrs := normalizeObservedAddrs peer addrs s.config.maxAddrsPerPeer
    match if (s.book.get peer).isSome then some s else s.makeRoom peer .signedBeacon with
    | none => s
    | some s =>
      let s :=
        s.revise peer (observeBeaconEntry addrs nowMs ((s.book.get peer).getD {})) .signedBeacon
      if addrs = [] then s else s.maybeDial peer .signedBeacon nowMs

def observeMdns (addrs : List (Multiaddr × Nat)) (nowMs : Nat) : PeerDiscoveryAgent :=
  if peer = s.localPeerId then s
  else
    let normalized := addrs.filterMap fun claim => (normalizeAddr peer claim.1).map (·, claim.2)
    let hasPositive := normalized.any fun claim => 0 < claim.2
    let room := if (s.book.get peer).isSome then some s
      else if hasPositive then s.makeRoom peer .mdns else none
    match room with
    | none => s
    | some s =>
      let e := (s.book.get peer).getD {}
      let e := { e with mdns := normalized.foldl (PeerEntry.record s.config nowMs) e.mdns }
      if e.isEmpty then (s.put peer e).removePeer peer
      else
        let s := s.revise peer e .mdns
        if hasPositive then s.maybeDial peer .mdns nowMs else s

def reportViolation (peer : Option PeerId) (source : DiscoverySource)
    (reason : String) : PeerDiscoveryAgent :=
  if s.violations.length < s.config.maxPendingViolations then
    { s with violations := s.violations ++ [⟨peer, source, capReason reason, 0⟩] }
  else match s.violations.getLast? with
    | none => s
    | some newest =>
      { s with violations := s.violations.dropLast ++
          [{ newest with suppressed := min (newest.suppressed + 1) (2 ^ 32 - 1) }] }

/-! ### Connections and dials -/

def setDial (dial : DialState) : PeerDiscoveryAgent :=
  match s.book.get peer with
  | none => s
  | some e => s.put peer { e with dial }

/-- The peer is in the book, and a dial of it has been requested. -/
def dialing : Bool :=
  (s.book.get peer).any (·.dial = .inFlight)

def peerConnected : PeerDiscoveryAgent :=
  { s with connected := insert peer s.connected }.setDial peer .idle

def peerDisconnected : PeerDiscoveryAgent :=
  { s with connected := s.connected.erase peer }

def dialSucceeded : PeerDiscoveryAgent :=
  if s.dialing peer then s.setDial peer .idle else s

def dialFailed (reason : String) (nowMs : Nat) : PeerDiscoveryAgent :=
  if s.dialing peer then
    (s.setDial peer (.backoff (saturatingAdd nowMs s.config.redialBackoffMs))).markDialFailed peer
      reason
  else s

def resetDials : PeerDiscoveryAgent :=
  { (s.book.keys.foldl (fun s peer => if s.dialing peer then s.setDial peer .idle else s) s) with
    actions := [] }

def expirePeer (nowMs : Nat) (s : PeerDiscoveryAgent) (peer : PeerId) : PeerDiscoveryAgent :=
  match s.book.get peer with
  | none => s
  | some e =>
    let beaconDue := e.beacon.any fun source =>
      saturatingAdd source.lastSeenMs s.config.beaconPeerTtlMs ≤ nowMs
    let mdnsDue := e.mdns.map.values.any fun record => record.expiresAtMs ≤ nowMs
    if !beaconDue ∧ !mdnsDue then s
    else
      let e := e.expire beaconDue nowMs
      if e.isEmpty then (s.put peer e).removePeer peer
      else s.revise peer e (if beaconDue then .signedBeacon else .mdns)

def handleTick (nowMs : Nat) : PeerDiscoveryAgent :=
  s.book.keys.foldl (expirePeer nowMs) s

/-! ### Polling -/

def pollAction : Option DiscoveryAction × PeerDiscoveryAgent :=
  (s.actions.head?, { s with actions := s.actions.tail })

def cleanupPendingHead : PeerDiscoveryAgent :=
  if (s.pending.get peer).any fun e => e.state.isNone && e.dialFailed.isNone then
    s.removePending peer
  else s

/-- The event of a transition, with what is reported from then on; `none` if the peer it is about
has gone from the book. -/
def report : StateTransition → Option (DiscoveryEvent × PeerDiscoveryAgent)
  | .discovered source => (s.viewOf peer).map fun view =>
      (.peerDiscovered peer view.merged source, { s with reported := s.reported.insert peer view })
  | .updated source => (s.viewOf peer).map fun view =>
      (.peerUpdated peer view.merged source, { s with reported := s.reported.insert peer view })
  | .expired => some (.peerExpired peer, { s with reported := s.reported.remove peer })

def pollDialFailed : Option DiscoveryEvent × PeerDiscoveryAgent :=
  let e := s.pendingEntry peer
  match e.dialFailed with
  | some reason => (some (.dialFailed peer reason),
      ((s.setPending peer { e with dialFailed := none }).cleanupPendingHead
        peer).assertPendingInvariants)
  | none => (none, s.removePending peer)

/-- The loop of `poll_event` while one peer is at the head. A turn without an event clears the
state, and the next one finds a failed dial, or drops the peer. -/
def pollHead : Option DiscoveryEvent × PeerDiscoveryAgent :=
  match (s.pendingEntry peer).state with
  | none => s.pollDialFailed peer
  | some state =>
    let taken := s.setPending peer { s.pendingEntry peer with state := none }
    match taken.report peer state with
    | some (event, s) => (some event, (s.cleanupPendingHead peer).assertPendingInvariants)
    | none => taken.pollDialFailed peer

def pollLoop (s : PeerDiscoveryAgent) : List PeerId → Option DiscoveryEvent × PeerDiscoveryAgent
  | [] => (none, s)
  | peer :: order =>
    match s.pollHead peer with
    | (some event, s) => (some event, s)
    | (none, s) => pollLoop s order

def pollEvent : Option DiscoveryEvent × PeerDiscoveryAgent :=
  match s.pollLoop s.pending.order with
  | (some event, s) => (some event, s)
  | (none, s) =>
    match s.violations with
    | [] => (none, s)
    | v :: violations =>
      (some (.protocolViolation v.peer v.source v.reason v.suppressed), { s with violations })

/-! ### Runs -/

inductive Call where
  | observeBeacon (peer : PeerId) (addrs : List Multiaddr) (nowMs : Nat)
  | observeMdns (peer : PeerId) (addrs : List (Multiaddr × Nat)) (nowMs : Nat)
  | reportViolation (peer : Option PeerId) (source : DiscoverySource) (reason : String)
  | peerConnected (peer : PeerId) (nowMs : Nat)
  | peerDisconnected (peer : PeerId) (nowMs : Nat)
  | dialSucceeded (peer : PeerId) (nowMs : Nat)
  | dialFailed (peer : PeerId) (reason : String) (nowMs : Nat)
  | resetDials
  | handleTick (nowMs : Nat)
  | pollAction
  | pollEvent

inductive Answer where
  | done
  | action (action : Option DiscoveryAction)
  | event (event : Option DiscoveryEvent)
  deriving DecidableEq

def call : Call → Answer × PeerDiscoveryAgent
  | .observeBeacon peer addrs now => (.done, s.observeBeacon peer addrs now)
  | .observeMdns peer addrs now => (.done, s.observeMdns peer addrs now)
  | .reportViolation peer source reason => (.done, s.reportViolation peer source reason)
  | .peerConnected peer _ => (.done, s.peerConnected peer)
  | .peerDisconnected peer _ => (.done, s.peerDisconnected peer)
  | .dialSucceeded peer _ => (.done, s.dialSucceeded peer)
  | .dialFailed peer reason now => (.done, s.dialFailed peer reason now)
  | .resetDials => (.done, s.resetDials)
  | .handleTick now => (.done, s.handleTick now)
  | .pollAction => (.action s.pollAction.1, s.pollAction.2)
  | .pollEvent => (.event s.pollEvent.1, s.pollEvent.2)

/-- The state after a list of calls. -/
def run (calls : List Call) : PeerDiscoveryAgent :=
  calls.foldl (fun s c => (s.call c).2) s

/-- The answers to a list of calls. -/
def answers : PeerDiscoveryAgent → List Call → List Answer
  | _, [] => []
  | s, c :: calls => (s.call c).1 :: answers (s.call c).2 calls

end PeerDiscoveryAgent

end Discovery
