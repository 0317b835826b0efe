import MiniP2P.Discovery.Sync

/-! Which dials the host has in hand, and which beacons the book holds. The agent keeps track of
its dials as long as the host reports on a peer with no dial of it left in the queue. -/
namespace Discovery.PeerDiscoveryAgent
open Collections Core Identity List BTreeMap

variable {s t : PeerDiscoveryAgent} {peer other : PeerId} {e : PeerEntry} {source : DiscoverySource}
  {now n w : Nat} {dial : DialState} {actions : List DiscoveryAction}
  {calls : List Call}

def Queued (peer : PeerId) (actions : List DiscoveryAction) : Prop :=
  ∃ a ∈ actions, dialOf a = some peer

/-- The dials of a peer in hand once the queue is worked off; `none` if one would be added to
another. -/
def settle (peer : PeerId) : Nat → List DiscoveryAction → Option Nat
  | n, [] => some n
  | n, .dial about _ _ :: actions =>
    if about ≠ peer then settle peer n actions else if n = 0 then settle peer 1 actions else none
  | n, .cancelDial about :: actions => settle peer (if about = peer then 0 else n) actions

theorem settle_append (xs ys : List DiscoveryAction) :
    settle peer n (xs ++ ys) = (settle peer n xs).bind (settle peer · ys) := by
  induction xs generalizing n with
  | nil => rfl
  | cons a xs ih =>
    cases a with
    | cancelDial => exact ih
    | dial =>
      simp only [cons_append, settle]
      split
      · exact ih
      · split
        · exact ih
        · rfl

theorem settle_quiet (quiet : ¬ Queued peer actions) :
    settle peer n actions = some n ∨ settle peer n actions = some 0 := by
  induction actions generalizing n with
  | nil => exact .inl rfl
  | cons a actions ih =>
    have rest : ¬ Queued peer actions := fun ⟨b, member, here⟩ => quiet ⟨b, .tail a member, here⟩
    cases a with
    | cancelDial about =>
      rw [settle]
      split
      · exact .inr ((ih rest).elim id id)
      · exact ih rest
    | dial about addrs source =>
      rw [settle, if_pos fun here => quiet ⟨_, mem_cons_self, by rw [here, dialOf]⟩]
      exact ih rest

theorem settle_filter (apart : other ≠ peer) :
    settle peer n (actions.filter fun a => dialOf a ≠ some other) = settle peer n actions := by
  induction actions generalizing n with
  | nil => rfl
  | cons a actions ih =>
    cases a with
    | cancelDial => exact ih
    | dial about addrs source =>
      by_cases here : about = other
      · subst here
        rw [filter_cons_of_neg (by simp [dialOf]), settle, if_pos apart, ih]
      · rw [filter_cons_of_pos (by simp [dialOf, here]), settle, settle, ih, ih]

theorem settle_withdraw_away (apart : other ≠ peer) :
    settle peer n (withdraw other dial actions) = settle peer n actions := by
  unfold withdraw
  split
  · rw [settle_append, settle_filter apart]
    simp [settle, apart]
  · exact settle_filter apart

theorem queued_withdraw (queued : Queued peer (withdraw other dial actions)) :
    Queued peer actions ∧ peer ≠ other := by
  obtain ⟨a, member, here⟩ := queued
  have kept : a ∈ actions.filter fun a => dialOf a ≠ some other := by
    unfold withdraw at member
    split at member
    · obtain kept | last := mem_append.mp member
      · exact kept
      · rw [mem_singleton.mp last] at here
        cases here
    · exact member
  refine ⟨⟨a, mem_of_mem_filter kept, here⟩, ?_⟩
  rintro rfl
  simp [here] at kept

/-- A peer that is dropped has no dial in hand, or the queue is silent about it. -/
theorem settle_withdraw (n : Nat) (peer : PeerId) (dial : DialState)
    (actions : List DiscoveryAction) :
    settle peer n (withdraw peer dial actions) = some 0 ∨
      dial ≠ .inFlight ∧ ¬ Queued peer actions ∧ withdraw peer dial actions = actions := by
  unfold withdraw
  split
  · have quiet : ¬ Queued peer (actions.filter fun a => dialOf a ≠ some peer) := by
      rintro ⟨a, member, here⟩
      simp [here] at member
    rw [settle_append]
    obtain rest | rest := settle_quiet (n := n) quiet <;> rw [rest] <;> simp [settle]
  · rename_i free
    simp only [not_or, any_eq_true, decide_eq_true_eq] at free
    exact .inr ⟨free.1, free.2, filter_eq_self.mpr fun a member => by
      simpa using fun here => free.2 ⟨a, member, here⟩⟩

/-- What the agent knows of the dials of a peer, of which the host has so many in hand. -/
structure Tidy (peer : PeerId) (n : Nat) (s : PeerDiscoveryAgent) : Prop where
  one : n ≤ 1
  queue : ∃ w, settle peer n s.actions = some w ∧ w ≤ 1 ∧ (s.dialing peer = true → w = 1) ∧
    (w = 1 → s.dialing peer = true ∨ peer ∈ s.connected)
  apart : peer ∈ s.connected → ¬ Queued peer s.actions

theorem Tidy.same (tidy : Tidy peer n s)
    (settled : settle peer n t.actions = settle peer n s.actions)
    (queued : Queued peer t.actions → Queued peer s.actions)
    (dialing : t.dialing peer = s.dialing peer)
    (connected : peer ∈ t.connected ↔ peer ∈ s.connected) : Tidy peer n t := by
  obtain ⟨one, queue, apart⟩ := tidy
  refine ⟨one, by rwa [settled, dialing, connected], fun here there => ?_⟩
  exact apart (connected.mp here) (queued there)

theorem dialing_insert_away (apart : peer ≠ other) (book : t.book = s.book.insert other e) :
    t.dialing peer = s.dialing peer := by
  rw [dialing, dialing, book, get_insert, if_neg apart]

theorem dialing_insert (book : t.book = s.book.insert peer e) :
    t.dialing peer = true ↔ e.dial = .inFlight := by
  simp [dialing, book]

theorem entryOf_dialing : s.dialing peer = true ↔ (s.entryOf peer).dial = .inFlight := by
  unfold dialing entryOf
  cases s.book.get peer <;> simp

section

variable (tidy : Tidy peer n s)
include tidy

theorem Tidy.revise (heard : Heard source (s.entryOf other) e) :
    Tidy peer n (s.revise other e source) := by
  refine tidy.same (by rw [revise_actions]) (by rw [revise_actions]; exact id) ?_
    (by rw [revise_connected])
  by_cases here : peer = other
  · subst here
    rw [Bool.eq_iff_iff, dialing_insert revise_book, entryOf_dialing]
    obtain same | ⟨-, idle, busy, -⟩ := heard.dial
    · rw [same]
    · simp [idle, busy]
  · exact dialing_insert_away here revise_book

theorem Tidy.drop : Tidy peer n (s.drop other (s.entryOf other).dial) := by
  have actions : (s.drop other (s.entryOf other).dial).actions =
      withdraw other (s.entryOf other).dial s.actions := markState_actions
  have connected : (s.drop other (s.entryOf other).dial).connected = s.connected :=
    markState_connected
  by_cases here : other = peer
  · subst here
    have idle : (s.drop other (s.entryOf other).dial).dialing other = false := by
      rw [dialing, drop_book, get_remove_self]
      rfl
    refine ⟨tidy.one, ?_, fun _ queued => (queued_withdraw (actions ▸ queued)).2 rfl⟩
    rw [actions, connected, idle]
    obtain nothing | ⟨free, quiet, same⟩ := settle_withdraw n other (s.entryOf other).dial s.actions
    · exact ⟨0, nothing, by decide, nofun, nofun⟩
    · obtain ⟨w, settled, small, -, held⟩ := tidy.queue
      rw [same]
      refine ⟨w, settled, small, nofun, fun one => .inr ((held one).resolve_left ?_)⟩
      rwa [entryOf_dialing]
  · refine tidy.same (by rw [actions, settle_withdraw_away here]) ?_ ?_ (by rw [connected])
    · rw [actions]
      exact fun queued => (queued_withdraw queued).1
    · rw [dialing, dialing, drop_book, get_remove, if_neg (Ne.symm here)]

theorem Tidy.dialed (dialed : Dialed s other source now e) :
    Tidy peer n (s.dial other source now e) := by
  by_cases here : other = peer
  · subst here
    have busy : (s.dial other source now e).dialing other = true := (dialing_insert rfl).mpr rfl
    have idle : s.dialing other = false := by
      have permitted := dialed.permitted
      simp only [dialing, dialed.known, Option.any_some, decide_eq_false_iff_not]
      intro flying
      rw [flying] at permitted
      cases permitted
    obtain ⟨w, settled, small, -, held⟩ := tidy.queue
    have free : w = 0 := by
      by_contra present
      obtain flying | there := held (by omega)
      · rw [idle] at flying
        cases flying
      · exact dialed.apart there
    refine ⟨tidy.one, ⟨1, ?_, le_rfl, fun _ => rfl, fun _ => .inl busy⟩,
      fun there => absurd there dialed.apart⟩
    rw [PeerDiscoveryAgent.dial, settle_append, settled, free]
    simp [settle]
  · refine tidy.same ?_ ?_ (dialing_insert_away (Ne.symm here) rfl) Iff.rfl
    · rw [PeerDiscoveryAgent.dial, settle_append]
      simp [settle, here]
    · rintro ⟨a, member, about⟩
      obtain kept | last := mem_append.mp member
      · exact ⟨a, kept, about⟩
      · rw [mem_singleton.mp last] at about
        exact absurd (Option.some.inj about) here

theorem Tidy.moves {calm : Prop} (moves : Moves calm now s t) : Tidy peer n t := by
  induction moves with
  | refl => exact tidy
  | tail _ move ih =>
    cases move with
    | revise _ _ heard => exact ih.revise heard
    | drop => exact ih.drop
    | dial dialed => exact ih.dialed dialed

end

theorem setDial_dialing (landed : dial ≠ .inFlight) :
    (s.setDial other dial).dialing peer = (s.dialing peer && other ≠ peer) := by
  unfold setDial dialing
  split
  · rename_i gone
    by_cases here : other = peer
    · simp [← here, gone]
    · simp [here]
  · by_cases here : peer = other
    · simp [put, here, landed]
    · simp [put, get_insert, here, Ne.symm here]

theorem setDial_frame :
    (s.setDial other dial).actions = s.actions ∧
      (s.setDial other dial).connected = s.connected := by
  unfold setDial
  split <;> exact ⟨rfl, rfl⟩

theorem tidy_of_quiet (quiet : ¬ Queued peer s.actions)
    (idle : s.dialing peer = false) (one : n ≤ 1)
    (held : n = 0 ∨ peer ∈ s.connected) : Tidy peer n s := by
  refine ⟨one, ?_, fun _ => quiet⟩
  rw [idle]
  obtain same | nothing := settle_quiet (n := n) quiet
  · exact ⟨n, same, one, nofun, fun present => .inr (held.resolve_left (by omega))⟩
  · exact ⟨0, nothing, by decide, nofun, nofun⟩

theorem dialing_false_of_reset (peers : List PeerId)
    (listed : s.dialing peer = true → peer ∈ peers) :
    (peers.foldl (fun s p => if s.dialing p then s.setDial p .idle else s) s).dialing peer =
      false := by
  induction peers generalizing s with
  | nil => simpa using listed
  | cons p peers ih =>
    apply ih
    dsimp only
    split
    · rw [setDial_dialing (by decide)]
      intro flying
      obtain ⟨flying, apart⟩ := Bool.and_eq_true_iff.mp flying
      exact (mem_cons.mp (listed flying)).resolve_left (Ne.symm (of_decide_eq_true apart))
    · rename_i idle
      intro flying
      exact (mem_cons.mp (listed flying)).resolve_left fun same => idle (same ▸ flying)

/-! ### Calls -/

/-- The dials of a peer that the host has in hand after a call. -/
def inHand (peer : PeerId) (n : Nat) : Call → Answer → Nat
  | .dialSucceeded about _, _ => if about = peer then n - 1 else n
  | .dialFailed about _ _, _ => if about = peer then n - 1 else n
  | .resetDials, _ => 0
  | _, .action (some (.dial about _ _)) => if about = peer then n + 1 else n
  | _, .action (some (.cancelDial about)) => if about = peer then 0 else n
  | _, _ => n

/-- The host reports on a peer when no dial of it is queued, and that a connection is gone when it
has no dial in hand. -/
def Prompt (peer : PeerId) (n : Nat) (s : PeerDiscoveryAgent) : Call → Prop
  | .peerConnected about _ => about = peer → ¬ Queued peer s.actions
  | .dialSucceeded about _ => about = peer → ¬ Queued peer s.actions
  | .dialFailed about _ _ => about = peer → ¬ Queued peer s.actions
  | .peerDisconnected about _ => about = peer → n = 0
  | _ => True

theorem Tidy.result (tidy : Tidy peer n s) (prompt : other = peer → ¬ Queued peer s.actions)
    (actions : t.actions = s.actions) (connected : t.connected = s.connected)
    (dialing : t.dialing peer = (s.dialing peer && other ≠ peer)) :
    Tidy peer (if other = peer then n - 1 else n) t := by
  have one := tidy.one
  split
  · rename_i here
    exact tidy_of_quiet (by rw [actions]; exact prompt here) (by simp [dialing, here]) (by omega)
      (.inl (by omega))
  · rename_i away
    exact tidy.same (by rw [actions]) (by rw [actions]; exact id) (by simp [dialing, away])
      (by rw [connected])

theorem Tidy.disconnected (tidy : Tidy peer n s) (prompt : other = peer → n = 0) :
    Tidy peer n (s.peerDisconnected other) := by
  by_cases here : other = peer ∧ peer ∈ s.connected
  · obtain ⟨same, there⟩ := here
    obtain ⟨w, settled, _, busy, -⟩ := tidy.queue
    have quiet := tidy.apart there
    have nothing : n = 0 := prompt same
    refine tidy_of_quiet quiet ?_ tidy.one (.inl nothing)
    have free : w ≠ 1 := by
      obtain rest | rest :=
        settle_quiet (n := n) quiet <;> rw [rest] at settled <;> cases settled <;> omega
    exact Bool.eq_false_iff.mpr fun flying => free (busy flying)
  · refine tidy.same rfl id rfl ?_
    simp only [peerDisconnected, Finset.mem_erase]
    exact ⟨And.right, fun there => ⟨fun same => here ⟨same.symm, there⟩, there⟩⟩

theorem Tidy.polled {a : DiscoveryAction} {rest : List DiscoveryAction} (tidy : Tidy peer n s)
    (first : s.actions = a :: rest) :
    Tidy peer (inHand peer n .pollAction (.action (some a))) { s with actions := rest } := by
  obtain ⟨one, ⟨w, settled, held⟩, apart⟩ := tidy
  rw [first] at settled apart
  have quiet (there : peer ∈ s.connected) : ¬ Queued peer rest := fun ⟨b, member, about⟩ =>
    apart there ⟨b, .tail a member, about⟩
  cases a with
  | cancelDial about =>
    exact ⟨by unfold inHand; dsimp only; split <;> omega, ⟨w, settled, held⟩, quiet⟩
  | dial about addrs source =>
    rw [settle] at settled
    simp only [inHand]
    split at settled
    · rename_i away
      rw [if_neg away]
      exact ⟨one, ⟨w, settled, held⟩, quiet⟩
    · rename_i here
      rw [if_pos (not_not.mp here)]
      split at settled
      · rename_i nothing
        subst nothing
        exact ⟨le_rfl, ⟨w, settled, held⟩, quiet⟩
      · cases settled

theorem stays_idle (idle : ¬ s.dialing other = true) :
    s.dialing peer = (s.dialing peer && other ≠ peer) := by
  by_cases here : other = peer
  · simpa [← here] using idle
  · simp [here]

theorem markDialFailed_frame (reason : String) :
    (s.markDialFailed other reason).actions = s.actions ∧
    (s.markDialFailed other reason).connected = s.connected ∧
    (s.markDialFailed other reason).book = s.book := by
  unfold markDialFailed
  split <;> exact ⟨rfl, rfl, rfl⟩

theorem Tidy.call (tidy : Tidy peer n s) (before : Sound s) {c : Call}
    (prompt : Prompt peer n s c) :
    Tidy peer (inHand peer n c (s.call c).1) (s.call c).2 := by
  cases c with
  | observeBeacon about addrs now =>
    have moves : Moves False now s _ :=
      (s.observeBeacon_observed about addrs now).moves before.bounded (by simp)
    exact tidy.moves moves
  | observeMdns about addrs now =>
    have moves : Moves False now s _ :=
      (s.observeMdns_observed about addrs now).moves before.bounded (by simp)
    exact tidy.moves moves
  | handleTick now =>
    have moves : Moves False now s _ := s.handleTick_moves now
    exact tidy.moves moves
  | reportViolation about source reason =>
    simp only [PeerDiscoveryAgent.call, reportViolation]
    split
    · exact tidy.same rfl id rfl Iff.rfl
    · split
      · exact tidy
      · exact tidy.same rfl id rfl Iff.rfl
  | peerConnected about now =>
    simp only [PeerDiscoveryAgent.call, peerConnected]
    by_cases here : about = peer
    · refine tidy_of_quiet ?_ ?_ tidy.one (.inr ?_)
      · rw [setDial_frame.1]
        exact prompt here
      · simp [setDial_dialing, here]
      · simp [setDial_frame.2, here]
    · refine tidy.same (by rw [setDial_frame.1]) (by rw [setDial_frame.1]; exact id) ?_ ?_
      · rw [setDial_dialing (by decide)]
        simp [here, dialing]
      · simp [setDial_frame.2, Ne.symm here]
  | peerDisconnected about now => exact tidy.disconnected prompt
  | dialSucceeded about now =>
    simp only [PeerDiscoveryAgent.call, PeerDiscoveryAgent.dialSucceeded]
    split
    · exact tidy.result prompt setDial_frame.1 setDial_frame.2 (setDial_dialing (by decide))
    · rename_i idle
      exact tidy.result prompt rfl rfl (stays_idle idle)
  | dialFailed about reason now =>
    simp only [PeerDiscoveryAgent.call, PeerDiscoveryAgent.dialFailed]
    split
    · refine tidy.result prompt ?_ ?_ ?_
      · rw [(markDialFailed_frame reason).1, setDial_frame.1]
      · rw [(markDialFailed_frame reason).2.1, setDial_frame.2]
      · rw [dialing, (markDialFailed_frame reason).2.2, ← dialing, setDial_dialing (by simp)]
    · rename_i idle
      exact tidy.result prompt rfl rfl (stays_idle idle)
  | resetDials =>
    refine tidy_of_quiet ?_ ?_ (Nat.zero_le _) (.inl rfl)
    · rintro ⟨_, member, -⟩
      cases member
    · exact dialing_false_of_reset s.book.keys fun flying => (s.book.mem_keys peer).mpr
        (known_of_dialing flying)
  | pollAction =>
    simp only [PeerDiscoveryAgent.call, PeerDiscoveryAgent.pollAction]
    cases first : s.actions with
    | nil => exact tidy.same (by rw [first]; rfl) (by rw [first]; exact id) rfl Iff.rfl
    | cons a rest => exact tidy.polled first
  | pollEvent =>
    have polled := pollEvent_polled before.inSync
    simp only [PeerDiscoveryAgent.call, inHand]
    generalize s.pollEvent.1 = event, s.pollEvent.2 = t at polled
    cases polled with
    | gap | failed => rw [told_eq]; exact tidy.same rfl id rfl Iff.rfl
    | violation => exact tidy.same rfl id rfl Iff.rfl
    | drained => exact tidy

/-! ### Beacons -/

def beaconOf (s : PeerDiscoveryAgent) (peer : PeerId) : Option BeaconSource :=
  (s.book.get peer).bind (·.beacon)

theorem beaconOf_entry : s.beaconOf peer = (s.entryOf peer).beacon := by
  rw [beaconOf, entryOf]
  cases s.book.get peer <;> rfl

theorem beaconOf_insert (book : t.book = s.book.insert other e)
    (same : e.beacon = s.beaconOf other) :
    t.beaconOf peer = s.beaconOf peer := by
  rw [beaconOf, book, get_insert]
  split
  · rename_i here
    rw [here, ← same]
    rfl
  · rfl

theorem beaconOf_drop (bare : s.beaconOf other = none) :
    (s.drop other dial).beaconOf peer = s.beaconOf peer := by
  rw [beaconOf, drop_book, get_remove]
  split
  · rename_i here
    rw [here, bare]
    rfl
  · rfl

/-- What is heard over mDNS neither removes nor changes what a beacon has said. -/
theorem Observed.beacons (observed : Observed s other .mdns now t) :
    t.beaconOf peer = s.beaconOf peer := by
  have kept {room} (made : Room s other .mdns room) : room.beaconOf peer = s.beaconOf peer := by
    cases made with
    | known => rfl
    | free => rfl
    | evicted _ known weak => exact beaconOf_drop (by rw [beaconOf, known]; exact weak rfl)
  cases observed with
  | ignored => rfl
  | dropped made bare => exact (beaconOf_drop (beaconOf_entry.trans bare)).trans (kept made)
  | revised made heard =>
    exact (beaconOf_insert revise_book ((heard.beacon rfl).trans beaconOf_entry.symm)).trans
      (kept made)
  | @dialed room after made heard =>
    have revised : (room.revise other after .mdns).beaconOf peer = s.beaconOf peer :=
      (beaconOf_insert revise_book ((heard.beacon rfl).trans beaconOf_entry.symm)).trans (kept made)
    obtain idle | ⟨e, dialed, same⟩ :=
      maybeDial_cases (room.revise other after .mdns) other .mdns now
    · rwa [idle]
    · rw [same]
      refine (beaconOf_insert rfl ?_).trans revised
      rw [beaconOf, dialed.known]
      rfl

/-! ### Runs -/

def handAfter (peer : PeerId) : Nat → PeerDiscoveryAgent → List Call → Nat
  | n, _, [] => n
  | n, s, c :: calls => handAfter peer (inHand peer n c (s.call c).1) (s.call c).2 calls

def PromptRun (peer : PeerId) : Nat → PeerDiscoveryAgent → List Call → Prop
  | _, _, [] => True
  | n, s, c :: calls =>
    Prompt peer n s c ∧ PromptRun peer (inHand peer n c (s.call c).1) (s.call c).2 calls

/-- Whether a peer is connected, by what the host reports. -/
def connects (peer : PeerId) (there : Bool) : Call → Bool
  | .peerConnected about _ => there || about = peer
  | .peerDisconnected about _ => there && about ≠ peer
  | _ => there

def connectedAfter (peer : PeerId) (calls : List Call) : Bool := calls.foldl (connects peer) false

theorem Polled.connected {event : Option DiscoveryEvent} (polled : Polled s event t) :
    t.connected = s.connected := by
  cases polled with
  | gap | failed => rw [told_eq]
  | violation | drained => rfl

theorem moves_connected {calm : Prop} (moves : Moves calm now s t) : t.connected = s.connected := by
  induction moves with
  | refl => rfl
  | tail _ move ih =>
    rw [← ih]
    cases move with
    | revise => exact revise_connected
    | drop => exact markState_connected
    | dial => rfl

theorem call_connected (before : Sound s) (c : Call) :
    peer ∈ (s.call c).2.connected ↔ connects peer (peer ∈ s.connected) c := by
  have kept (same : (s.call c).2.connected = s.connected) :
      peer ∈ (s.call c).2.connected ↔ decide (peer ∈ s.connected) = true := by
    rw [same, decide_eq_true_iff]
  cases c with
  | peerConnected about now =>
    rw [call, peerConnected, setDial_frame.2, Finset.mem_insert, or_comm, eq_comm]
    simp [connects]
  | peerDisconnected about now =>
    rw [call, peerDisconnected, Finset.mem_erase, and_comm, ne_comm]
    simp [connects]
  | observeBeacon about addrs now =>
    have observed := s.observeBeacon_observed about addrs now
    exact kept (moves_connected (observed.moves before.bounded False.elim))
  | observeMdns about addrs now =>
    have observed := s.observeMdns_observed about addrs now
    exact kept (moves_connected (observed.moves before.bounded False.elim))
  | handleTick now =>
    have moves : Moves False now s (s.handleTick now) := s.handleTick_moves now
    exact kept (moves_connected moves)
  | reportViolation about source reason =>
    refine kept ?_
    simp only [call, reportViolation]
    split
    · rfl
    · split <;> rfl
  | dialSucceeded about now =>
    refine kept ?_
    simp only [call, PeerDiscoveryAgent.dialSucceeded]
    split
    · exact setDial_frame.2
    · rfl
  | dialFailed about reason now =>
    refine kept ?_
    simp only [call, PeerDiscoveryAgent.dialFailed]
    split
    · rw [(markDialFailed_frame reason).2.1, setDial_frame.2]
    · rfl
  | resetDials =>
    refine kept (foldlRecOn (motive := fun t : PeerDiscoveryAgent => t.connected = s.connected)
      _ _ rfl fun t same _ _ => ?_)
    split
    · rw [setDial_frame.2, same]
    · exact same
  | pollAction => exact kept rfl
  | pollEvent => exact kept (pollEvent_polled before.inSync).connected

theorem run_connected (before : Sound s) (calls : List Call) :
    peer ∈ (s.run calls).connected ↔ calls.foldl (connects peer) (peer ∈ s.connected) = true := by
  induction calls generalizing s with
  | nil => exact decide_eq_true_iff.symm
  | cons c calls ih =>
    rw [foldl_cons, ← Bool.decide_coe (connects ..), ← decide_eq_decide.mpr
      (call_connected before c)]
    exact ih (call_sound before c).1

theorem run_tidy (before : Sound s) (tidy : Tidy peer n s) (prompt : PromptRun peer n s calls) :
    Tidy peer (handAfter peer n s calls) (s.run calls) := by
  induction calls generalizing s n with
  | nil => exact tidy
  | cons c calls ih => exact ih (call_sound before c).1 (tidy.call before prompt.1) prompt.2

/-- A host that is prompt about a peer never holds two dials of it, and is never told to dial it
while the connections it has reported are not gone. The book keeps its size, each entry its index,
and mDNS leaves what beacons have said alone. -/
theorem dials_disciplined {localPeerId : PeerId} {config : PeerDiscoveryConfig}
    (made : new localPeerId config = .ok s) (calls : List Call) (peer : PeerId) :
    (PromptRun peer 0 s calls → handAfter peer 0 s calls ≤ 1 ∧ ∀ addrs source,
      ((s.run calls).call .pollAction).1 = .action (some (.dial peer addrs source)) →
        connectedAfter peer calls = false) ∧
    (s.run calls).book.len ≤ config.maxKnownPeers ∧
    (∀ e, (s.run calls).book.get peer = some e →
      e.mdns.order.Nodup ∧ ∀ addr, addr ∈ e.mdns.order ↔ (e.mdns.get addr).isSome) ∧
    ∀ other addrs now, ((s.run calls).observeMdns other addrs now).beaconOf peer =
      (s.run calls).beaconOf peer := by
  have sound := (run_sound (new_sound made) calls).1
  refine ⟨fun prompt => ?_, ?_, fun e _ => ⟨e.mdns.nodup, e.mdns.covers⟩, ?_⟩
  · have start : Tidy peer 0 s := by
      rw [new_eq made]
      exact tidy_of_quiet (fun ⟨_, member, _⟩ => nomatch member) rfl (Nat.zero_le _) (.inl rfl)
    have tidy := run_tidy (new_sound made) start prompt
    refine ⟨tidy.one, fun addrs source returned => Bool.eq_false_iff.mpr fun there => ?_⟩
    simp only [PeerDiscoveryAgent.call, PeerDiscoveryAgent.pollAction,
      Answer.action.injEq] at returned
    have connected : peer ∈ (s.run calls).connected := by
      rw [run_connected (new_sound made), new_eq made]
      exact there
    exact tidy.apart connected ⟨_, mem_of_head? returned, rfl⟩
  · have bounded := sound.bounded
    rwa [Bounded, run_config made] at bounded
  · intro other addrs now
    exact (observeMdns_observed _ other addrs now).beacons

theorem first_dial_disciplined : PromptRun (guest 1) 0 (host {}) [announces 1000 1, .pollAction] ∧
    handAfter (guest 1) 0 (host {}) [announces 1000 1, .pollAction] ≤ 1 :=
  have made : new (guest 0) {} = .ok (host {}) := rfl
  have prompt : PromptRun (guest 1) 0 (host {}) [announces 1000 1, .pollAction] :=
    ⟨trivial, trivial, trivial⟩
  ⟨prompt, ((dials_disciplined made _ _).1 prompt).1⟩

def redialed : List Call := [announces 1000 1, .pollAction, .peerConnected (guest 1) 0,
  .peerDisconnected (guest 1) 0, announces 1000 1, .pollAction]

/-- A dial stays in the queue when the peer connects, and a dial in hand is forgotten. -/
theorem connected_peer_dialed :
    connectedAfter (guest 1) [announces 1000 1, .peerConnected (guest 1) 0] = true ∧
    ((host {}).run [announces 1000 1, .peerConnected (guest 1) 0]).pollAction.1 =
      some (.dial (guest 1) [place] .mdns) ∧
    handAfter (guest 1) 0 (host {}) redialed = 2 := by
  decide +kernel

end Discovery.PeerDiscoveryAgent
