import MiniP2P.Discovery.Moves

/-! The events of the book are the differences between what the application has been told of a
peer and what the book holds. Whatever happens between two polls, what waits for a peer is the one
event that closes the gap. -/
namespace Discovery.PeerDiscoveryAgent
open Collections Core Identity BTreeMap

variable {s t : PeerDiscoveryAgent} {peer other : PeerId} {e : PeerEntry} {source : DiscoverySource}
  {now : Nat} {reported current : Option PeerView}
  {localPeerId : PeerId} {config : PeerDiscoveryConfig}

theorem transition_eq_none : transition source reported current = none ↔ reported = current := by
  cases reported <;> cases current <;> simp [transition]

/-- What waits for a peer, given what was reported of it and what the book holds. -/
structure Fits (waiting : Option PendingPeer) (reported current : Option PeerView) : Prop where
  gap : ∃ source, waiting.bind (·.state) = transition source reported current
  busy : ∀ e, waiting = some e → e.state.isSome ∨ e.dialFailed.isSome

theorem Fits.settled : Fits none current current :=
  ⟨⟨.mdns, by rw [transition_eq_none.mpr rfl]; rfl⟩, nofun⟩

theorem Fits.failed {reason : String} : Fits (some ⟨none, some reason⟩) current current :=
  ⟨⟨.mdns, by rw [transition_eq_none.mpr rfl]; rfl⟩, by simp⟩

def InSync (s : PeerDiscoveryAgent) : Prop :=
  ∀ peer, Fits (s.pending.get peer) (s.reported.get peer) (s.viewOf peer)

/-! ### One peer at a time -/

/-- The two agree about everyone else. -/
structure Away (peer : PeerId) (s t : PeerDiscoveryAgent) : Prop where
  pending : ∀ other, other ≠ peer → t.pending.get other = s.pending.get other
  reported : ∀ other, other ≠ peer → t.reported.get other = s.reported.get other
  view : ∀ other, other ≠ peer → t.viewOf other = s.viewOf other

theorem Away.inSync (away : Away peer s t) (before : InSync s)
    (here : Fits (t.pending.get peer) (t.reported.get peer) (t.viewOf peer)) : InSync t := by
  intro other
  by_cases same : other = peer
  · rw [same]
    exact here
  · rw [away.pending other same, away.reported other same, away.view other same]
    exact before other

theorem viewOf_eq (book : t.book.get peer = s.book.get peer) (config : t.config = s.config) :
    t.viewOf peer = s.viewOf peer := by
  have sees : t.view = s.view := by
    funext e
    rw [view, view, config]
  rw [viewOf, viewOf, book, sees]

theorem markState_fits (s : PeerDiscoveryAgent) (peer : PeerId) (source : DiscoverySource) :
    Fits ((s.markState peer source).pending.get peer) (s.reported.get peer) (s.viewOf peer) := by
  unfold markState assertPendingInvariants setPending removePending
  split
  · rename_i state gap
    simp only [OrderedIndex.get_set, if_true]
    exact ⟨⟨source, gap.symm⟩, by simp⟩
  · rename_i same
    rw [transition_eq_none.mp same]
    split
    · simp only [OrderedIndex.get_remove, if_true]
      exact .settled
    · split
      · rename_i quiet
        rw [quiet]
        exact .settled
      · split
        · simp only [OrderedIndex.get_remove, if_true]
          exact .settled
        · rename_i failed
          simp only [OrderedIndex.get_set, if_true]
          obtain ⟨reason, failed⟩ := Option.ne_none_iff_exists'.mp (by simpa using failed)
          rw [failed]
          exact .failed

theorem markState_inSync (away : Away peer s t) (before : InSync s) :
    InSync (t.markState peer source) := by
  have sees (other) : (t.markState peer source).viewOf other = t.viewOf other :=
    viewOf_eq (by rw [markState_book]) markState_config
  have marked : Away peer s (t.markState peer source) := by
    constructor
    · intro other apart
      rw [markState_pending_away apart, away.pending other apart]
    · intro other apart
      rw [markState_reported, away.reported other apart]
    · intro other apart
      rw [sees, away.view other apart]
  apply marked.inSync before
  rw [markState_reported, sees]
  exact markState_fits t peer source

theorem put_away (s : PeerDiscoveryAgent) (peer : PeerId) (e : PeerEntry) :
    Away peer s (s.put peer e) where
  pending _ _ := rfl
  reported _ _ := rfl
  view other apart := viewOf_eq (by rw [put, get_insert, if_neg apart]) rfl

theorem viewOf_put (s : PeerDiscoveryAgent) (peer : PeerId) (e : PeerEntry) :
    (s.put peer e).viewOf peer = some (s.view e) := by
  rw [viewOf, put, get_insert_self]
  rfl

theorem put_inSync (same : s.viewOf peer = some (s.view e)) (before : InSync s) :
    InSync (s.put peer e) := by
  apply (put_away s peer e).inSync before
  rw [viewOf_put, ← same]
  exact before peer

theorem revise_inSync (before : InSync s) : InSync (s.revise peer e source) := by
  unfold revise
  split
  · rename_i same
    exact put_inSync same before
  · exact markState_inSync (put_away s peer e) before

theorem drop_inSync (dial : DialState) (before : InSync s) : InSync (s.drop peer dial) := by
  refine markState_inSync (s := s) ⟨fun _ _ => rfl, fun _ _ => rfl, ?_⟩ before
  intro other apart
  exact viewOf_eq (by rw [get_remove, if_neg apart]) rfl

theorem setDial_inSync (peer : PeerId) (dial : DialState) (before : InSync s) :
    InSync (s.setDial peer dial) := by
  unfold setDial
  split
  · exact before
  · rename_i e known
    exact put_inSync (by rw [viewOf, known]; rfl) before

theorem inSync_of_eq (pending : t.pending = s.pending) (reported : t.reported = s.reported)
    (book : t.book = s.book) (config : t.config = s.config) (before : InSync s) : InSync t := by
  intro peer
  rw [pending, reported, viewOf_eq (by rw [book]) config]
  exact before peer

theorem dial_inSync (dialed : Dialed s peer source now e) (before : InSync s) :
    InSync (s.dial peer source now e) := by
  refine inSync_of_eq rfl rfl rfl rfl (put_inSync ?_ before)
  rw [viewOf, dialed.known]
  rfl

theorem setPending_away (s : PeerDiscoveryAgent) (peer : PeerId) (waiting : PendingPeer) :
    Away peer s (s.setPending peer waiting) := by
  refine ⟨?_, fun _ _ => rfl, fun _ _ => rfl⟩
  intro other apart
  rw [setPending, OrderedIndex.get_set, if_neg apart]

theorem removePending_away (s : PeerDiscoveryAgent) (peer : PeerId) :
    Away peer s (s.removePending peer) := by
  refine ⟨?_, fun _ _ => rfl, fun _ _ => rfl⟩
  intro other apart
  rw [removePending, OrderedIndex.get_remove, if_neg apart]

theorem removePending_inSync (same : s.reported.get peer = s.viewOf peer) (before : InSync s) :
    InSync (s.removePending peer) := by
  apply (s.removePending_away peer).inSync before
  rw [removePending, OrderedIndex.get_remove, if_pos rfl]
  rw [same]
  exact .settled

theorem markDialFailed_inSync (peer : PeerId) (reason : String) (before : InSync s) :
    InSync (s.markDialFailed peer reason) := by
  unfold markDialFailed
  split
  · rename_i unknown
    obtain ⟨gone, untold⟩ := unknown
    refine removePending_inSync ?_ before
    rw [viewOf, Option.isNone_iff_eq_none.mp gone, Option.isNone_iff_eq_none.mp untold]
    rfl
  · refine inSync_of_eq rfl rfl rfl rfl ((setPending_away s peer _).inSync before ?_)
    obtain ⟨⟨source, gap⟩, -⟩ := before peer
    rw [setPending, OrderedIndex.get_set, if_pos rfl]
    refine ⟨⟨source, ?_⟩, by simp⟩
    change (s.pendingEntry peer).state = transition source (s.reported.get peer) (s.viewOf peer)
    rw [← gap, pendingEntry]
    cases s.pending.get peer <;> rfl

/-! ### Polling -/

variable {event : Option DiscoveryEvent} {failed : Option String}

theorem cleanup_inSync (away : Away peer s t) (before : InSync s)
    (taken : t.pending.get peer = some ⟨none, failed⟩)
    (same : t.reported.get peer = t.viewOf peer) :
    InSync (t.cleanupPendingHead peer) := by
  unfold cleanupPendingHead
  rw [taken]
  cases failed with
  | none =>
    have left : Away peer s (t.removePending peer) := by
      have last := removePending_away t peer
      constructor
      · intro other apart
        rw [last.pending other apart, away.pending other apart]
      · exact away.reported
      · exact away.view
    apply left.inSync before
    change Fits ((t.pending.remove peer).get peer) (t.reported.get peer) (t.viewOf peer)
    rw [OrderedIndex.get_remove, if_pos rfl, same]
    exact .settled
  | some reason =>
    apply away.inSync before
    rw [taken, same]
    exact .failed

/-- The event that tells the application how a peer has changed. -/
inductive Tells (peer : PeerId) : Option PeerView → Option PeerView → DiscoveryEvent → Prop
  | discovered {view : PeerView} {source : DiscoverySource} :
      Tells peer none (some view) (.peerDiscovered peer view.merged source)
  | updated {old view : PeerView} {source : DiscoverySource} (changed : old ≠ view) :
      Tells peer (some old) (some view) (.peerUpdated peer view.merged source)
  | expired {old : PeerView} : Tells peer (some old) none (.peerExpired peer)

/-- What is reported once a peer's gap has been told. -/
def caughtUp (s : PeerDiscoveryAgent) (peer : PeerId) : BTreeMap PeerId PeerView :=
  match s.viewOf peer with
  | some view => s.reported.insert peer view
  | none => s.reported.remove peer

theorem caughtUp_here (s : PeerDiscoveryAgent) (peer : PeerId) :
    (s.caughtUp peer).get peer = s.viewOf peer := by
  unfold caughtUp
  split
  · rename_i seen
    rw [get_insert_self, seen]
  · rename_i gone
    rw [get_remove_self, gone]

theorem caughtUp_away (apart : other ≠ peer) :
    (s.caughtUp peer).get other = s.reported.get other := by
  unfold caughtUp
  split
  · rw [get_insert, if_neg apart]
  · rw [get_remove, if_neg apart]

/-- The state in which `poll_event` returns, when the event it has taken was at the head. -/
def told (s : PeerDiscoveryAgent) (peer : PeerId) (reported : BTreeMap PeerId PeerView)
    (failed : Option String) : PeerDiscoveryAgent :=
  (({ s with reported }.setPending peer ⟨none, failed⟩).cleanupPendingHead
    peer).assertPendingInvariants

section

variable (before : InSync s)
include before

theorem told_inSync {after : BTreeMap PeerId PeerView} (here : after.get peer = s.viewOf peer)
    (others : ∀ other, other ≠ peer → after.get other = s.reported.get other) :
    InSync (s.told peer after failed) := by
  have last := setPending_away { s with reported := after } peer ⟨none, failed⟩
  have away : Away peer s ({ s with reported := after }.setPending peer ⟨none, failed⟩) :=
    ⟨last.pending, others, last.view⟩
  have queued : (s.pending.set peer ⟨none, failed⟩).get peer = some ⟨none, failed⟩ := by
    rw [OrderedIndex.get_set, if_pos rfl]
  exact inSync_of_eq rfl rfl rfl rfl (cleanup_inSync away before queued here)

theorem pollHead_cases {waiting : PendingPeer} (queued : s.pending.get peer = some waiting) :
    (∃ event, Tells peer (s.reported.get peer) (s.viewOf peer) event ∧
      s.pollHead peer = (some event, s.told peer (s.caughtUp peer) waiting.dialFailed)) ∨
    (∃ reason, s.reported.get peer = s.viewOf peer ∧ waiting = ⟨none, some reason⟩ ∧
      s.pollHead peer = (some (.dialFailed peer reason), s.told peer s.reported none)) := by
  obtain ⟨⟨source, gap⟩, busy⟩ := before peer
  rw [queued, Option.bind_some] at gap
  have entry : s.pendingEntry peer = waiting := by rw [pendingEntry, queued]; rfl
  have seen (state) : (s.setPending peer state).viewOf peer = s.viewOf peer := rfl
  unfold pollHead
  rw [entry]
  obtain ⟨state, failed⟩ := waiting
  cases state with
  | none =>
    right
    obtain ⟨reason, rfl⟩ := Option.isSome_iff_exists.mp (by simpa using busy _ queued)
    refine ⟨reason, transition_eq_none.mp gap.symm, rfl, ?_⟩
    simp only [pollDialFailed, entry]
    rfl
  | some state =>
    left
    cases known : s.reported.get peer with
    | none =>
      cases view : s.viewOf peer with
      | none => simp [known, view, transition] at gap
      | some view' =>
        simp only [known, view, transition, Option.some.injEq] at gap
        subst gap
        refine ⟨.peerDiscovered peer view'.merged source, .discovered, ?_⟩
        simp only [report, seen, view, Option.map_some]
        rw [caughtUp, view]
        rfl
    | some old =>
      cases view : s.viewOf peer with
      | none =>
        simp only [known, view, transition, Option.some.injEq] at gap
        subst gap
        refine ⟨_, .expired, ?_⟩
        rw [caughtUp, view]
        rfl
      | some view' =>
        simp only [known, view, transition] at gap
        split at gap
        · rename_i changed
          cases gap
          refine ⟨.peerUpdated peer view'.merged source, .updated changed, ?_⟩
          simp only [report, seen, view, Option.map_some]
          rw [caughtUp, view]
          rfl
        · cases gap

theorem pollEvent_head {rest : List PeerId} (order : s.pending.order = peer :: rest) :
    ∃ waiting, s.pending.get peer = some waiting ∧ s.pollEvent = s.pollHead peer := by
  have member : peer ∈ s.pending.order := by simp [order]
  obtain ⟨waiting, queued⟩ := Option.isSome_iff_exists.mp ((s.pending.covers peer).mp member)
  refine ⟨waiting, queued, ?_⟩
  unfold pollEvent
  rw [order, pollLoop]
  obtain ⟨event, -, polled⟩ | ⟨reason, -, -, polled⟩ := pollHead_cases before queued <;> rw [polled]

theorem settled_of_absent (absent : peer ∉ s.pending.order) :
    s.reported.get peer = s.viewOf peer := by
  have free : s.pending.get peer = none := by
    rw [s.pending.covers] at absent
    simpa [OrderedIndex.get] using absent
  obtain ⟨⟨source, gap⟩, -⟩ := before peer
  rw [free] at gap
  exact transition_eq_none.mp gap.symm

end

/-- What a poll does: it tells a gap, or it tells something that is none. -/
inductive Polled (s : PeerDiscoveryAgent) : Option DiscoveryEvent → PeerDiscoveryAgent → Prop
  | gap {peer : PeerId} {event : DiscoveryEvent} {failed : Option String}
      (tells : Tells peer (s.reported.get peer) (s.viewOf peer) event) :
      Polled s (some event) (s.told peer (s.caughtUp peer) failed)
  | failed {peer : PeerId} {reason : String} (same : s.reported.get peer = s.viewOf peer) :
      Polled s (some (.dialFailed peer reason)) (s.told peer s.reported none)
  | violation {v : PendingViolation} {violations : List PendingViolation} :
      Polled s (some (.protocolViolation v.peer v.source v.reason v.suppressed))
        { s with violations }
  | drained (quiet : ∀ peer, s.reported.get peer = s.viewOf peer) : Polled s none s

theorem pollEvent_polled (before : InSync s) : Polled s s.pollEvent.1 s.pollEvent.2 := by
  cases order : s.pending.order with
  | cons peer rest =>
    obtain ⟨waiting, queued, polled⟩ := pollEvent_head before order
    rw [polled]
    obtain ⟨event, tells, polled⟩ | ⟨reason, same, -, polled⟩ := pollHead_cases before queued
    · rw [polled]
      exact .gap tells
    · rw [polled]
      exact .failed same
  | nil =>
    have quiet (peer) : s.reported.get peer = s.viewOf peer :=
      settled_of_absent before (by simp [order])
    unfold pollEvent
    rw [order, pollLoop]
    dsimp only
    split
    · exact .drained quiet
    · exact .violation

theorem Polled.inSync (polled : Polled s event t) (before : InSync s) : InSync t := by
  cases polled with
  | gap tells => exact told_inSync before (caughtUp_here s _) fun _ => caughtUp_away
  | failed same => exact told_inSync before same fun _ _ => rfl
  | violation => exact inSync_of_eq rfl rfl rfl rfl before
  | drained => exact before

theorem told_eq (s : PeerDiscoveryAgent) (peer : PeerId) (reported : BTreeMap PeerId PeerView)
    (failed : Option String) :
    s.told peer reported failed =
      { s with
        reported
        pending := (s.told peer reported failed).pending
        asserted := (s.told peer reported failed).asserted } := by
  unfold told cleanupPendingHead assertPendingInvariants
  split <;> rfl

section

variable (polled : Polled s event t)
include polled

theorem Polled.same_config : t.config = s.config := by
  cases polled with
  | gap => rw [told_eq]
  | failed => rw [told_eq]
  | violation => rfl
  | drained => rfl

theorem Polled.book : t.book = s.book := by
  cases polled with
  | gap => rw [told_eq]
  | failed => rw [told_eq]
  | violation => rfl
  | drained => rfl

theorem Polled.bounded (before : Bounded s) : Bounded t := by
  rwa [Bounded, polled.book, polled.same_config]

end

/-! ### Calls -/

/-- What holds between two calls. -/
structure Sound (s : PeerDiscoveryAgent) : Prop where
  inSync : InSync s
  bounded : Bounded s

theorem sound_kept (calm : Prop) (was : PeerDiscoveryAgent) :
    Kept calm (fun s => Sound s ∧ s.reported = was.reported ∧ s.config = was.config) where
  move move before := by
    obtain ⟨sound, same⟩ := before
    have bounded := move.bounded sound.bounded
    cases move with
    | revise =>
      exact ⟨⟨revise_inSync sound.inSync, bounded⟩, by rwa [revise_reported, revise_config]⟩
    | drop => exact ⟨⟨drop_inSync _ sound.inSync, bounded⟩, by rwa [drop, markState_reported,
      markState_config]⟩
    | dial dialed => exact ⟨⟨dial_inSync dialed sound.inSync, bounded⟩, same⟩
  setDial peer dial before := by
    have inSync := setDial_inSync peer dial before.1.inSync
    unfold setDial at inSync ⊢
    split at inSync
    · exact before
    · rename_i known
      refine ⟨⟨inSync, ?_⟩, before.2⟩
      rw [Bounded, put, len_insert_known known]
      exact before.1.bounded
  markDialFailed peer reason _ before := by
    refine ⟨⟨markDialFailed_inSync peer reason before.1.inSync, ?_⟩, ?_⟩
    · unfold markDialFailed
      split <;> exact before.1.bounded
    · unfold markDialFailed
      split <;> exact before.2
  frame config book pending reported _ before :=
    ⟨⟨inSync_of_eq pending reported book config before.1.inSync,
      by rw [Bounded, book, config]; exact before.1.bounded⟩,
      reported.trans before.2.1, config.trans before.2.2⟩

theorem call_sound (before : Sound s) (c : Call) :
    Sound (s.call c).2 ∧ (s.call c).2.config = s.config := by
  by_cases polls : c = .pollEvent
  · subst polls
    have polled := pollEvent_polled before.inSync
    exact ⟨⟨polled.inSync before.inSync, polled.bounded before.bounded⟩, polled.same_config⟩
  · obtain ⟨sound, -, config⟩ :=
      (sound_kept False s).call polls nofun before.bounded ⟨before, rfl, rfl⟩
    exact ⟨sound, config⟩

theorem new_eq (made : new localPeerId config = .ok s) : s = { config, localPeerId } := by
  unfold new at made
  cases valid : config.validate with
  | error => rw [valid] at made; cases made
  | ok => rw [valid] at made; cases made; rfl

theorem new_sound (made : new localPeerId config = .ok s) : Sound s := by
  rw [new_eq made]
  exact ⟨fun _ => .settled, Nat.zero_le _⟩

theorem run_sound (before : Sound s) (calls : List Call) :
    Sound (s.run calls) ∧ (s.run calls).config = s.config := by
  induction calls generalizing s with
  | nil => exact ⟨before, rfl⟩
  | cons c calls ih =>
    obtain ⟨sound, config⟩ := call_sound before c
    exact ⟨(ih sound).1, (ih sound).2.trans config⟩

theorem run_config {calls : List Call}
    (made : new localPeerId config = .ok s) : (s.run calls).config = config := by
  rw [(run_sound (new_sound made) calls).2, new_eq made]

/-! ### The log -/

/-- What the application knows of a peer after an event. `none`: the event does not follow from
what it knew. -/
def hear (peer : PeerId) (known : Option (List Multiaddr)) :
    DiscoveryEvent → Option (Option (List Multiaddr))
  | .peerDiscovered about addrs _ =>
    if about ≠ peer then some known else if known.isNone then some (some addrs) else none
  | .peerUpdated about addrs _ =>
    if about ≠ peer then some known else if known.isSome then some (some addrs) else none
  | .peerExpired about =>
    if about ≠ peer then some known else if known.isSome then some none else none
  | _ => some known

/-- The fold of the events among some answers. -/
def hearAll (peer : PeerId) :
    Option (List Multiaddr) → List Answer → Option (Option (List Multiaddr))
  | known, [] => some known
  | known, .event (some event) :: answers => (hear peer known event).bind (hearAll peer · answers)
  | known, _ :: answers => hearAll peer known answers

theorem Tells.hear {event : DiscoveryEvent} (tells : Tells peer reported current event) :
    PeerDiscoveryAgent.hear peer (reported.map (·.merged)) event =
      some (current.map (·.merged)) := by
  cases tells <;> simp [PeerDiscoveryAgent.hear]

theorem Tells.changed {about : PeerId} {addrs : List Multiaddr}
    (tells : Tells about reported current (.peerUpdated peer addrs source)) :
    about = peer ∧ ∃ old view, reported = some old ∧ current = some view ∧ old ≠ view ∧
      view.merged = addrs := by
  cases tells with
  | updated changed => exact ⟨rfl, _, _, rfl, rfl, changed, rfl⟩

theorem Tells.hear_away {event : DiscoveryEvent} {known : Option (List Multiaddr)}
    (tells : Tells peer reported current event) (apart : peer ≠ other) :
    PeerDiscoveryAgent.hear other known event = some known := by
  cases tells <;> simp [PeerDiscoveryAgent.hear, apart]

/-- The addresses last reported for a peer. -/
def lastTold (s : PeerDiscoveryAgent) (peer : PeerId) : Option (List Multiaddr) :=
  (s.reported.get peer).map (·.merged)

theorem Polled.hear {event : DiscoveryEvent} (polled : Polled s (some event) t) (peer : PeerId) :
    PeerDiscoveryAgent.hear peer (s.lastTold peer) event = some (t.lastTold peer) := by
  unfold lastTold
  cases polled with
  | @gap about _ failed tells =>
    rw [told_eq]
    by_cases here : peer = about
    · rw [here, caughtUp_here]
      exact tells.hear
    · rw [caughtUp_away here]
      exact tells.hear_away (Ne.symm here)
  | failed => rw [told_eq]; rfl
  | violation => rfl

theorem call_heard (before : Sound s) (c : Call) (peer : PeerId) (answers : List Answer) :
    hearAll peer (s.lastTold peer) ((s.call c).1 :: answers) =
      hearAll peer ((s.call c).2.lastTold peer) answers := by
  by_cases polls : c = .pollEvent
  · subst polls
    have polled := pollEvent_polled before.inSync
    simp only [call]
    cases returned : s.pollEvent.1 with
    | none =>
      rw [returned] at polled
      generalize s.pollEvent.2 = t at polled
      cases polled
      rfl
    | some event =>
      rw [returned] at polled
      rw [hearAll, polled.hear peer, Option.bind_some]
  · have kept := ((sound_kept False s).call polls nofun before.bounded ⟨before, rfl, rfl⟩).2.1
    rw [lastTold, ← kept]
    cases c with
    | pollEvent => exact absurd rfl polls
    | _ => rfl

theorem run_heard (before : Sound s) (calls : List Call) (peer : PeerId) :
    hearAll peer (s.lastTold peer) (s.answers calls) = some ((s.run calls).lastTold peer) := by
  induction calls generalizing s with
  | nil => rfl
  | cons c calls ih =>
    rw [answers, call_heard before c peer]
    exact ih (call_sound before c).1

/-- Whom an answer tells the application something new about. -/
def newsOf : Answer → Option PeerId
  | .event (some (.peerDiscovered peer _ _)) => some peer
  | .event (some (.peerUpdated peer _ _)) => some peer
  | .event (some (.peerExpired peer)) => some peer
  | _ => none

/-- The view of a peer in the book when the last event about it was told. -/
def viewTold (peer : PeerId) : Option PeerView → PeerDiscoveryAgent → List Call → Option PeerView
  | known, _, [] => known
  | known, s, c :: calls =>
    viewTold peer (if newsOf (s.call c).1 = some peer then s.viewOf peer else known)
      (s.call c).2 calls

theorem Tells.news {event : DiscoveryEvent} (tells : Tells peer reported current event) :
    newsOf (.event (some event)) = some peer := by
  cases tells <;> rfl

theorem Polled.viewTold (polled : Polled s event t) (peer : PeerId) : t.reported.get peer =
    if newsOf (.event event) = some peer then s.viewOf peer else s.reported.get peer := by
  cases polled with
  | gap tells =>
    rw [told_eq, tells.news]
    split
    · rename_i here
      obtain rfl := Option.some.inj here
      exact caughtUp_here s _
    · rename_i away
      exact caughtUp_away fun here => away (congrArg some here.symm)
  | failed => rw [told_eq]; rfl
  | violation | drained => rfl

theorem call_viewTold (before : Sound s) (c : Call) (peer : PeerId) :
    (s.call c).2.reported.get peer =
    if newsOf (s.call c).1 = some peer then s.viewOf peer else s.reported.get peer := by
  by_cases polls : c = .pollEvent
  · subst polls
    exact (pollEvent_polled before.inSync).viewTold peer
  · rw [((sound_kept False s).call polls nofun before.bounded ⟨before, rfl, rfl⟩).2.1, if_neg]
    cases c with
    | pollEvent => exact absurd rfl polls
    | _ => nofun

theorem run_viewTold (before : Sound s) (calls : List Call) (peer : PeerId) :
    (s.run calls).reported.get peer = viewTold peer (s.reported.get peer) s calls := by
  induction calls generalizing s with
  | nil => rfl
  | cons c calls ih =>
    rw [viewTold, ← call_viewTold before c peer]
    exact ih (call_sound before c).1

/-- The events about a peer are those of a peer that comes, changes and goes, over and over. A
change that is reported is one of the view that the last event was about, and when there is nothing
left to poll, the events add up to the book. -/
theorem event_log_faithful (made : new localPeerId config = .ok s) (calls : List Call) :
    (∀ peer, (hearAll peer none (s.answers calls)).isSome) ∧
    (∀ peer addrs source after,
      (s.run calls).call .pollEvent = (.event (some (.peerUpdated peer addrs source)), after) →
      ∃ old view, viewTold peer none s calls = some old ∧
        (s.run calls).viewOf peer = some view ∧ old ≠ view ∧ view.merged = addrs ∧
        after.reported.get peer = some view) ∧
    (((s.run calls).call .pollEvent).1 = .event none → ∀ peer,
      hearAll peer none (s.answers calls) = some (((s.run calls).viewOf peer).map (·.merged))) := by
  have start := new_sound made
  have untold (peer) : s.reported.get peer = none := by
    rw [new_eq made]
    rfl
  have heard (peer) := run_heard start calls peer
  have told (peer) := run_viewTold start calls peer
  have sound := (run_sound start calls).1
  generalize s.run calls = t at heard told sound ⊢
  have polled := pollEvent_polled sound.inSync
  simp only [lastTold, untold, Option.map_none] at heard told
  refine ⟨fun peer => by rw [heard]; rfl, ?_, ?_⟩
  · intro peer addrs source after returned
    simp only [call, Prod.mk.injEq, Answer.event.injEq] at returned
    rw [returned.1, returned.2] at polled
    cases polled with
    | gap tells =>
      obtain ⟨rfl, old, view, was, is, changed, merged⟩ := tells.changed
      refine ⟨old, view, (told _).symm.trans was, is, changed, merged, ?_⟩
      rw [told_eq, caughtUp_here, is]
  · intro returned peer
    simp only [call, Answer.event.injEq] at returned
    rw [returned] at polled
    generalize t.pollEvent.2 = after at polled
    cases polled with
    | drained quiet => rw [heard, quiet]

def guest (n : UInt8) : PeerId := ⟨⟨0, [n], by simp [peerIdMultihashSize]⟩, nofun⟩

def place : Multiaddr := ⟨[.ip4 (.replicate 4 1), .udp 9000, .quicV1]⟩

def host (config : PeerDiscoveryConfig) : PeerDiscoveryAgent := { config, localPeerId := guest 0 }

/-- A peer announces itself over mDNS, or takes its leave. -/
def announces (ttlMs : Nat) (n : UInt8) : Call := .observeMdns (guest n) [(place, ttlMs)] 0

/-- A peer is heard of over mDNS, then in a beacon, and then the beacon grows old. -/
def heardTwice : List Call :=
  [announces 100000 1, .pollEvent, .observeBeacon (guest 1) [place] 0,
    .pollEvent, .handleTick 35000, .pollEvent]

theorem heardTwice_faithful : new (guest 0) {} = .ok (host {}) ∧
    (hearAll (guest 1) none ((host {}).answers heardTwice)).isSome :=
  have made : new (guest 0) {} = .ok (host {}) := rfl
  ⟨made, (event_log_faithful made heardTwice).1 (guest 1)⟩

/-- The address is the same throughout, and so are the two updates. -/
theorem heardTwice_repeats : (host {}).answers heardTwice =
    [.done, .event (some (.peerDiscovered (guest 1) [place] .mdns)),
      .done, .event (some (.peerUpdated (guest 1) [place] .signedBeacon)),
      .done, .event (some (.peerUpdated (guest 1) [place] .signedBeacon))] := by
  decide +kernel

end Discovery.PeerDiscoveryAgent
