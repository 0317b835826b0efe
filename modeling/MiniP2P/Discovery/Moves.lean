import Mathlib.Logic.Relation
import MiniP2P.Discovery.Book

/-! What the calls do to the book, in three moves: an entry is revised, a peer is dropped, a peer
is dialed. -/
namespace Discovery.PeerDiscoveryAgent
open Collections Core Identity

variable {s t : PeerDiscoveryAgent} {peer other : PeerId} {e : PeerEntry} {source : DiscoverySource}
  {now : Nat}

/-! ### Frames -/

theorem markState_eq (s : PeerDiscoveryAgent) (peer : PeerId) (source : DiscoverySource) :
    s.markState peer source =
      { s with
        pending := (s.markState peer source).pending
        asserted := (s.markState peer source).asserted } := by
  unfold markState assertPendingInvariants
  split
  · rfl
  · split
    · rfl
    · split
      · rfl
      · split <;> rfl

@[simp] theorem markState_config :
    (s.markState peer source).config = s.config := by rw [markState_eq]

@[simp] theorem markState_book : (s.markState peer source).book = s.book := by rw [markState_eq]

@[simp] theorem markState_reported : (s.markState peer source).reported = s.reported := by
  rw [markState_eq]

@[simp] theorem markState_actions :
    (s.markState peer source).actions = s.actions := by rw [markState_eq]

@[simp] theorem markState_connected : (s.markState peer source).connected = s.connected := by
  rw [markState_eq]

theorem markState_pending_away (away : other ≠ peer) :
    (s.markState peer source).pending.get other = s.pending.get other := by
  unfold markState assertPendingInvariants setPending removePending
  split
  · simp [OrderedIndex.get_set, away]
  · split
    · simp [OrderedIndex.get_remove, away]
    · split
      · rfl
      · split <;> simp [OrderedIndex.get_set, OrderedIndex.get_remove, away]

theorem revise_eq (s : PeerDiscoveryAgent) (peer : PeerId) (e : PeerEntry)
    (source : DiscoverySource) :
    s.revise peer e source =
      { s with
        book := s.book.insert peer e
        pending := (s.revise peer e source).pending
        asserted := (s.revise peer e source).asserted } := by
  unfold revise put
  split
  · rfl
  · rw [markState_eq]

@[simp] theorem revise_config : (s.revise peer e source).config = s.config := by rw [revise_eq]

@[simp] theorem revise_book :
    (s.revise peer e source).book = s.book.insert peer e := by rw [revise_eq]

@[simp] theorem revise_reported :
    (s.revise peer e source).reported = s.reported := by rw [revise_eq]

@[simp] theorem revise_actions : (s.revise peer e source).actions = s.actions := by rw [revise_eq]

@[simp] theorem revise_connected :
    (s.revise peer e source).connected = s.connected := by rw [revise_eq]

/-! ### Dropping -/

/-- The queue after a peer has gone: its dials are withdrawn, and one already under way is
cancelled. -/
def withdraw (peer : PeerId) (dial : DialState) (actions : List DiscoveryAction) :
    List DiscoveryAction :=
  let kept := actions.filter (fun a => dialOf a ≠ some peer)
  if dial = .inFlight ∨ actions.any (fun a => dialOf a = some peer) then kept ++ [.cancelDial peer]
  else kept

/-- `remove_peer` of a peer in the book, whose entry has this dial state. -/
def drop (s : PeerDiscoveryAgent) (peer : PeerId) (dial : DialState) : PeerDiscoveryAgent :=
  { s with
    book := s.book.remove peer
    actions := withdraw peer dial s.actions }.markState peer .mdns

theorem removePeer_eq_drop (known : s.book.get peer = some e) :
    s.removePeer peer = s.drop peer e.dial := by
  simp only [removePeer, known, drop, withdraw]

theorem put_removePeer (s : PeerDiscoveryAgent) (peer : PeerId) (e : PeerEntry) :
    (s.put peer e).removePeer peer = s.drop peer e.dial := by
  have known : (s.put peer e).book.get peer = some e := s.book.get_insert_self peer e
  rw [removePeer_eq_drop known]
  simp only [drop, put, BTreeMap.remove_insert]

/-! ### Observations -/

def entryOf (s : PeerDiscoveryAgent) (peer : PeerId) : PeerEntry := (s.book.get peer).getD {}

/-- How there is room for a peer. A source that is not authenticated drives out no peer that is. -/
inductive Room (s : PeerDiscoveryAgent) (peer : PeerId) (source : DiscoverySource) :
    PeerDiscoveryAgent → Prop
  | known (known : (s.book.get peer).isSome) : Room s peer source s
  | free (new : s.book.get peer = none) (free : s.book.len < s.config.maxKnownPeers) :
      Room s peer source s
  | evicted {other : PeerId} {e : PeerEntry} (new : s.book.get peer = none)
      (known : s.book.get other = some e) (weak : source = .mdns → e.beacon = none) :
      Room s peer source (s.drop other e.dial)

theorem makeRoom_room (new : s.book.get peer = none) (made : s.makeRoom peer source = some t) :
    Room s peer source t := by
  unfold makeRoom at made
  split at made
  · rename_i free
    cases made
    exact .free new free
  · dsimp only at made
    split at made
    · cases made
    · rename_i candidate known least
      have member := List.argmin_mem (Option.mem_def.mpr least)
      obtain ⟨member, weak⟩ := List.mem_filter.mp member
      have known := (s.book.mem_entries _ _).mp member
      split at made
      · rename_i same
        rw [same, new] at known
        cases known
      · cases made
        rw [removePeer_eq_drop known]
        refine .evicted new known ?_
        rintro rfl
        simpa using weak

/-- What an observation does to the entry of the peer it is about. -/
structure Heard (source : DiscoverySource) (before after : PeerEntry) : Prop where
  attempts : after.mdnsAttempts = before.mdnsAttempts
  beacon : source = .mdns → after.beacon = before.beacon
  /-- Only a beacon with other addresses takes a peer out of its backoff. -/
  dial : after.dial = before.dial ∨ source = .signedBeacon ∧ after.dial = .idle ∧
    before.dial ≠ .inFlight ∧ after.beaconAddrs ≠ before.beaconAddrs

inductive Observed (s : PeerDiscoveryAgent) (peer : PeerId) (source : DiscoverySource) (now : Nat) :
    PeerDiscoveryAgent → Prop
  | ignored : Observed s peer source now s
  | dropped {room : PeerDiscoveryAgent} (made : Room s peer source room)
      (bare : (room.entryOf peer).beacon = none) :
      Observed s peer source now (room.drop peer (room.entryOf peer).dial)
  | revised {room : PeerDiscoveryAgent} {after : PeerEntry} (made : Room s peer source room)
      (heard : Heard source (room.entryOf peer) after) :
      Observed s peer source now (room.revise peer after source)
  | dialed {room : PeerDiscoveryAgent} {after : PeerEntry} (made : Room s peer source room)
      (heard : Heard source (room.entryOf peer) after) :
      Observed s peer source now ((room.revise peer after source).maybeDial peer source now)

theorem room_of_choice {wanted : Option PeerDiscoveryAgent}
    (made : (if (s.book.get peer).isSome then some s else wanted) = some t)
    (sound : wanted = some t → s.makeRoom peer source = some t) : Room s peer source t := by
  split at made
  · rename_i known
    cases made
    exact .known known
  · rename_i new
    exact makeRoom_room (by simpa using new) (sound made)

theorem observeBeaconEntry_heard (addrs : List Multiaddr) (now : Nat) (e : PeerEntry) :
    Heard .signedBeacon e (observeBeaconEntry addrs now e) := by
  refine ⟨rfl, nofun, ?_⟩
  cases waiting : e.dial with
  | idle | inFlight => exact .inl (by simp [observeBeaconEntry, waiting])
  | backoff untilMs =>
    cases heard : e.beacon with
    | none =>
      by_cases same : addrs = [] <;>
        simp [observeBeaconEntry, PeerEntry.beaconAddrs, waiting, heard, same]
    | some source =>
      by_cases same : source.addrs = addrs
      · simp [observeBeaconEntry, waiting, heard, same]
      · refine .inr ⟨rfl, by simp [observeBeaconEntry, waiting, heard, same], nofun, ?_⟩
        simpa [observeBeaconEntry, PeerEntry.beaconAddrs, heard] using Ne.symm same

theorem observeBeacon_observed (s : PeerDiscoveryAgent) (peer : PeerId) (addrs : List Multiaddr)
    (now : Nat) : Observed s peer .signedBeacon now (s.observeBeacon peer addrs now) := by
  unfold observeBeacon
  split
  · exact .ignored
  · dsimp only
    split
    · exact .ignored
    · rename_i room made
      have made := room_of_choice made id
      split
      · exact .revised made (observeBeaconEntry_heard _ _ _)
      · exact .dialed made (observeBeaconEntry_heard _ _ _)

theorem observeMdns_observed (s : PeerDiscoveryAgent) (peer : PeerId)
    (addrs : List (Multiaddr × Nat))
    (now : Nat) : Observed s peer .mdns now (s.observeMdns peer addrs now) := by
  unfold observeMdns
  split
  · exact .ignored
  · dsimp only
    split
    · exact .ignored
    · rename_i room made
      have made : Room s peer .mdns room := room_of_choice made fun made => by
        split at made
        · exact made
        · cases made
      have heard (mdns) : Heard .mdns (room.entryOf peer) { room.entryOf peer with mdns } :=
        ⟨rfl, fun _ => rfl, .inl rfl⟩
      split
      · rename_i empty
        rw [put_removePeer]
        exact .dropped made (Option.isNone_iff_eq_none.mp (Bool.and_eq_true_iff.mp empty).1)
      · split
        · exact .dialed made (heard _)
        · exact .revised made (heard _)

/-! ### Dials -/

/-- A dial that is let through. -/
structure Dialed (s : PeerDiscoveryAgent) (peer : PeerId) (source : DiscoverySource) (now : Nat)
    (e : PeerEntry) : Prop where
  known : s.book.get peer = some e
  apart : peer ∉ s.connected
  permitted : e.dial.permits now = true
  allowed : source = .mdns →
    e.mdnsAttempts.allows now s.config.mdnsDialWindowMs s.config.maxMdnsDialsPerWindow = true ∧
    s.globalMdnsAttempts.allows now s.config.mdnsDialWindowMs
      s.config.maxMdnsDialsPerWindowGlobal = true

def charged (s : PeerDiscoveryAgent) (source : DiscoverySource) (now : Nat) (w : RateWindow) :
    RateWindow :=
  if source = .mdns then w.charge now s.config.mdnsDialWindowMs else w

def dial (s : PeerDiscoveryAgent) (peer : PeerId) (source : DiscoverySource) (now : Nat)
    (e : PeerEntry) : PeerDiscoveryAgent :=
  let e' := { e with dial := .inFlight, mdnsAttempts := s.charged source now e.mdnsAttempts }
  { s.put peer e' with
    globalMdnsAttempts := s.charged source now s.globalMdnsAttempts
    actions := s.actions ++ [.dial peer (s.view e).merged source] }

theorem maybeDial_cases (s : PeerDiscoveryAgent) (peer : PeerId)
    (source : DiscoverySource) (now : Nat) :
    s.maybeDial peer source now = s ∨
      ∃ e, Dialed s peer source now e ∧ s.maybeDial peer source now = s.dial peer source now e := by
  unfold maybeDial
  split
  · exact .inl rfl
  · rename_i eligible
    split
    · exact .inl rfl
    · rename_i e known
      dsimp only
      split
      · exact .inl rfl
      · rename_i let_through
        simp only [not_or] at eligible let_through
        refine .inr ⟨e, ⟨known, eligible.2.1, by simpa using let_through.1, ?_⟩, rfl⟩
        simpa using let_through.2.1

/-! ### Moves -/

/-- One move of a call at a time. A call is calm if it adds no peer to the book for which an event
still waits. -/
inductive Move (calm : Prop) (now : Nat) (s : PeerDiscoveryAgent) : PeerDiscoveryAgent → Prop
  | revise {peer : PeerId} {after : PeerEntry} {source : DiscoverySource}
      (room : (s.book.get peer).isSome ∨ s.book.len < s.config.maxKnownPeers)
      (new : calm → s.book.get peer = none → s.pending.get peer = none)
      (heard : Heard source (s.entryOf peer) after) : Move calm now s (s.revise peer after source)
  | drop {peer : PeerId} (new : calm → s.book.get peer = none → s.pending.get peer = none) :
      Move calm now s (s.drop peer (s.entryOf peer).dial)
  | dial {peer : PeerId} {source : DiscoverySource} {e : PeerEntry}
    (dialed : Dialed s peer source now e) :
      Move calm now s (s.dial peer source now e)

abbrev Moves (calm : Prop) (now : Nat) := Relation.ReflTransGen (Move calm now)

def Bounded (s : PeerDiscoveryAgent) : Prop := s.book.len ≤ s.config.maxKnownPeers

variable {calm : Prop}

@[simp] theorem drop_config (dial : DialState) : (s.drop peer dial).config = s.config := by
  rw [drop, markState_config]

@[simp] theorem drop_book (dial : DialState) : (s.drop peer dial).book = s.book.remove peer := by
  rw [drop, markState_book]

theorem len_insert_known {α : Type} {m : BTreeMap PeerId α} {v w : α}
    (known : m.get peer = some v) :
    (m.insert peer w).len = m.len := by
  have counted := m.len_insert peer w
  rw [known] at counted
  exact Nat.add_right_cancel counted

theorem Move.bounded (move : Move calm now s t) (before : Bounded s) : Bounded t := by
  unfold Bounded at *
  cases move with
  | @revise peer after source room =>
    rw [revise_book, revise_config]
    have counted := s.book.len_insert peer after
    cases known : s.book.get peer with
    | none =>
      rw [known] at counted room
      simp only [Option.elim_none, Option.isSome_none, Bool.false_eq_true, false_or] at counted room
      omega
    | some _ =>
      rw [len_insert_known known]
      exact before
  | @drop peer =>
    rw [drop_book, drop_config]
    have counted := s.book.len_remove peer
    omega
  | dial dialed =>
    change (s.book.insert _ _).len ≤ s.config.maxKnownPeers
    rw [len_insert_known dialed.known]
    exact before

theorem Room.moves {room : PeerDiscoveryAgent} (now : Nat) (made : Room s peer source room)
    (before : Bounded s) (new : calm → s.book.get peer = none → s.pending.get peer = none) :
    Moves calm now s room ∧
      ((room.book.get peer).isSome ∨ room.book.len < room.config.maxKnownPeers) ∧
      (calm → room.book.get peer = none → room.pending.get peer = none) := by
  cases made with
  | known known => exact ⟨.refl, .inl known, new⟩
  | free _ free => exact ⟨.refl, .inr free, new⟩
  | @evicted other e unknown known weak =>
    have apart : peer ≠ other := by
      rintro rfl
      rw [unknown] at known
      cases known
    have counted := s.book.len_remove other
    rw [known] at counted
    simp only [Option.elim_some] at counted
    refine ⟨.single ?_, .inr ?_, ?_⟩
    · have dropped : Move calm now s (s.drop other (s.entryOf other).dial) := by
        refine .drop fun _ gone => ?_
        rw [known] at gone
        cases gone
      rwa [entryOf, known] at dropped
    · rw [drop_book, drop_config]
      unfold Bounded at before
      omega
    · intro isCalm _
      rw [drop, markState_pending_away apart]
      exact new isCalm unknown

theorem Observed.moves (observed : Observed s peer source now t) (before : Bounded s)
    (new : calm → s.book.get peer = none → s.pending.get peer = none) : Moves calm now s t := by
  cases observed with
  | ignored => exact .refl
  | dropped made _ =>
    obtain ⟨moves, _, new⟩ := made.moves now before new
    exact moves.tail (.drop new)
  | revised made heard =>
    obtain ⟨moves, room, new⟩ := made.moves now before new
    exact moves.tail (.revise room new heard)
  | @dialed room after made heard =>
    obtain ⟨moves, room, new⟩ := made.moves now before new
    have revised := moves.tail (.revise room new heard)
    obtain idle | ⟨e, dialed, same⟩ := maybeDial_cases (_ : PeerDiscoveryAgent) peer source now
    · rwa [idle]
    · rw [same]
      exact revised.tail (.dial dialed)

theorem expirePeer_moves (s : PeerDiscoveryAgent) (peer : PeerId) :
    Moves calm now s (expirePeer now s peer) := by
  unfold expirePeer
  split
  · exact .refl
  · rename_i e known
    have entry : s.entryOf peer = e := by rw [entryOf, known]; rfl
    have new : calm → s.book.get peer = none → s.pending.get peer = none := by
      intro _ gone
      rw [known] at gone
      cases gone
    dsimp only
    split
    · exact .refl
    · split
      · rw [put_removePeer]
        have dropped : Move calm now s _ := .drop new
        rw [entry] at dropped
        exact .single dropped
      · refine .single (.revise (.inl (by rw [known]; rfl)) new ?_)
        rw [entry]
        refine ⟨rfl, ?_, .inl rfl⟩
        split
        · nofun
        · rename_i fresh
          intro _
          simp only [PeerEntry.expire, if_neg fresh]

theorem handleTick_moves (s : PeerDiscoveryAgent) (now : Nat) :
    Moves calm now s (s.handleTick now) := by
  unfold handleTick
  generalize s.book.keys = peers
  induction peers generalizing s with
  | nil => exact .refl
  | cons peer peers ih => exact (expirePeer_moves s peer).trans (ih _)

/-! ### Calls -/

/-- Nobody out of the book is observed while an event about them waits. -/
def Calm (s : PeerDiscoveryAgent) : Call → Prop
  | .observeBeacon peer _ _ => s.book.get peer = none → s.pending.get peer = none
  | .observeMdns peer _ _ => s.book.get peer = none → s.pending.get peer = none
  | _ => True

/-- What it takes to hold after every call but a poll for events. -/
structure Kept (calm : Prop) (I : PeerDiscoveryAgent → Prop) : Prop where
  move : ∀ {now s t}, Move calm now s t → I s → I t
  setDial : ∀ {s} peer dial, I s → I (s.setDial peer dial)
  markDialFailed : ∀ {s} peer reason, (s.book.get peer).isSome → I s →
    I (s.markDialFailed peer reason)
  frame : ∀ {s t}, t.config = s.config → t.book = s.book → t.pending = s.pending →
    t.reported = s.reported → t.asserted = s.asserted → I s → I t

variable {I : PeerDiscoveryAgent → Prop}

theorem Kept.moves (kept : Kept calm I) (moves : Moves calm now s t) (before : I s) : I t := by
  induction moves with
  | refl => exact before
  | tail _ move ih => exact kept.move move ih

theorem Kept.resetDials (kept : Kept calm I) (before : I s) : I s.resetDials := by
  refine kept.frame (s := s.book.keys.foldl _ s) rfl rfl rfl rfl rfl ?_
  generalize s.book.keys = peers
  induction peers generalizing s with
  | nil => exact before
  | cons peer peers ih =>
    apply ih
    dsimp only
    split
    · exact kept.setDial _ _ before
    · exact before

theorem setDial_known (known : (s.book.get peer).isSome) (dial : DialState) :
    ((s.setDial peer dial).book.get peer).isSome := by
  unfold setDial
  split
  · exact known
  · rw [put, BTreeMap.get_insert_self]
    rfl

theorem known_of_dialing (dialing : s.dialing peer = true) : (s.book.get peer).isSome :=
  Option.isSome_of_any dialing

theorem Kept.call (kept : Kept calm I) {c : Call} (other : c ≠ .pollEvent) (ok : calm → s.Calm c)
    (bounded : Bounded s) (before : I s) : I (s.call c).2 := by
  cases c with
  | observeBeacon peer addrs now =>
    exact kept.moves ((s.observeBeacon_observed peer addrs now).moves bounded ok) before
  | observeMdns peer addrs now =>
    exact kept.moves ((s.observeMdns_observed peer addrs now).moves bounded ok) before
  | reportViolation peer source reason =>
    change I (s.reportViolation peer source reason)
    unfold reportViolation
    split
    · exact kept.frame (s := s) rfl rfl rfl rfl rfl before
    · split
      · exact before
      · exact kept.frame (s := s) rfl rfl rfl rfl rfl before
  | peerConnected peer now =>
    exact kept.setDial peer .idle (kept.frame (s := s) rfl rfl rfl rfl rfl before)
  | peerDisconnected peer now | pollAction => exact kept.frame (s := s) rfl rfl rfl rfl rfl before
  | dialSucceeded peer now =>
    change I (s.dialSucceeded peer)
    unfold dialSucceeded
    split
    · exact kept.setDial peer .idle before
    · exact before
  | dialFailed peer reason now =>
    change I (s.dialFailed peer reason now)
    unfold PeerDiscoveryAgent.dialFailed
    split
    · rename_i dialing
      exact kept.markDialFailed _ _ (setDial_known (known_of_dialing dialing) _)
        (kept.setDial _ _ before)
    · exact before
  | resetDials => exact kept.resetDials before
  | handleTick now => exact kept.moves (s.handleTick_moves now) before
  | pollEvent => exact absurd rfl other

end Discovery.PeerDiscoveryAgent
