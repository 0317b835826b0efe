import MiniP2P.Discovery.Sync
import MiniP2P.Lib.Walk

/-! How many events wait, and for how many peers the application has been told something. The
events in the queue say how the number of peers reported will move, and it stays within the size
of the book as long as nobody comes back whose going has not been told. -/
namespace Discovery.PeerDiscoveryAgent
open Collections Core Identity List BTreeMap

variable {s t : PeerDiscoveryAgent} {peer : PeerId} {source : DiscoverySource}
  {calls : List Call} {failed : Option String} {rest : List PeerId}
  {after : BTreeMap PeerId PeerView}

def has {α : Type} (m : BTreeMap PeerId α) (peer : PeerId) : Int :=
  if (m.get peer).isSome then 1 else 0

/-- Gone and told so, all but the failure of a dial. -/
def lost (s : PeerDiscoveryAgent) (peer : PeerId) : Int :=
  if (s.reported.get peer).isSome ∨ (s.book.get peer).isSome then 0 else 1

/-- How the events of a peer in the queue move the number of peers held. -/
def weight (s : PeerDiscoveryAgent) (peer : PeerId) : Int :=
  has s.book peer - has s.reported peer - s.lost peer

def held (s : PeerDiscoveryAgent) : Int := s.reported.len + (s.pending.order.map s.lost).sum

def Within (s : PeerDiscoveryAgent) : Prop :=
  Below s.config.maxKnownPeers s.weight s.held s.pending.order

theorem lost_nonneg : 0 ≤ s.lost peer := by
  unfold lost
  split <;> decide

/-! ### Sums over the queue -/

theorem sum_weights (s : PeerDiscoveryAgent) (l : List PeerId) :
    (l.map s.lost).sum + (l.map s.weight).sum + l.countP (fun p => (s.reported.get p).isSome) =
      l.countP (fun p => (s.book.get p).isSome) := by
  induction l with
  | nil => rfl
  | cons p l ih =>
    simp only [map_cons, sum_cons, countP_cons, weight, has] at ih ⊢
    split <;> split <;> push_cast <;> omega

theorem length_le_sums (s : PeerDiscoveryAgent) (l : List PeerId) :
    (l.length : Int) ≤ l.countP (fun p => (s.reported.get p).isSome) + (l.map s.lost).sum +
      l.countP (fun p => (s.book.get p).isSome) := by
  induction l with
  | nil => exact le_rfl
  | cons p l ih =>
    simp only [map_cons, sum_cons, countP_cons, length_cons, lost] at ih ⊢
    split <;> split <;> split <;> push_cast <;> simp_all <;> omega

theorem sum_lost_filter (s : PeerDiscoveryAgent) (p : PeerId → Bool) (l : List PeerId) :
    ((l.filter p).map s.lost).sum ≤ (l.map s.lost).sum := by
  apply (filter_sublist.map s.lost).sum_le_sum
  intro n member
  obtain ⟨q, -, rfl⟩ := mem_map.mp member
  exact lost_nonneg

theorem held_add_weights (sync : InSync s) :
    s.held + (s.pending.order.map s.weight).sum = s.book.len := by
  have off := s.reported.len_of_same_off (n := s.book) s.pending.nodup fun p absent => by
    rw [settled_of_absent sync absent, viewOf, Option.isSome_map]
  have sums := s.sum_weights s.pending.order
  unfold held
  omega

theorem pending_le (s : PeerDiscoveryAgent) : (s.pending.map.len : Int) ≤ s.held + s.book.len := by
  have told := s.reported.countP_get_le s.pending.nodup
  have book := s.book.countP_get_le s.pending.nodup
  have sums := s.length_le_sums s.pending.order
  rw [s.pending.length_order] at sums
  unfold held
  omega

theorem Within.pending_le (within : Within s) (bounded : Bounded s) :
    s.pending.map.len ≤ 2 * s.config.maxKnownPeers := by
  have start := within.start
  have sums := s.pending_le
  unfold Bounded at bounded
  omega

/-! ### The queue moves at one peer -/

theorem markState_requeued (s : PeerDiscoveryAgent) (peer : PeerId) (source : DiscoverySource) :
    OrderedIndex.Requeued peer s.pending.order (s.markState peer source).pending.order := by
  unfold markState
  split
  · exact s.pending.set_requeued ..
  · split
    · exact .left
    · split
      · exact .same
      · split
        · exact .left
        · exact s.pending.set_requeued ..

/-- A change at one peer, which was queued only if the book had it, and is not lost. -/
structure Shift (peer : PeerId) (s t : PeerDiscoveryAgent) : Prop where
  config : t.config = s.config
  reported : t.reported = s.reported
  members : ∀ p, p ≠ peer → (t.book.get p).isSome = (s.book.get p).isSome
  queue : OrderedIndex.Requeued peer s.pending.order t.pending.order
  known : peer ∈ s.pending.order → (s.book.get peer).isSome
  found : peer ∈ t.pending.order → t.lost peer = 0

theorem Within.shift (before : Within s) (shift : Shift peer s t) (sync : InSync t)
    (bounded : Bounded t) :
    Within t := by
  obtain ⟨config, reported, members, queue, known, found⟩ := shift
  have heavy (member : peer ∈ s.pending.order) : s.weight peer = 1 - has s.reported peer := by
    simp [weight, lost, has, known member]
  have lostAway (p) (apart : p ≠ peer) : t.lost p = s.lost p := by
    rw [lost, lost, reported, members p apart]
  have weightAway (p) (apart : p ≠ peer) : t.weight p = s.weight p := by
    rw [weight, weight, lostAway p apart, reported, has, has, has, members p apart]
  have total := held_add_weights sync
  have lostLe (p) (member : p ∈ t.pending.order) : t.lost p ≤ s.lost p := by
    by_cases here : p = peer
    · subst here
      rw [found member]
      exact lost_nonneg
    · rw [lostAway p here]
  unfold Within at before ⊢
  unfold held at *
  rw [config]
  generalize t.pending.order = order at *
  cases queue with
  | same =>
    refine before.mono ?_ ?_
    · rw [reported]
      have sums := sum_le_sum lostLe
      omega
    · intro p member
      by_cases here : p = peer
      · subst here
        rw [heavy member, weight, reported, has]
        have := @lost_nonneg t p
        split <;> omega
      · rw [weightAway p here]
  | left =>
    refine (before.filter _ ?_).mono ?_ ?_
    · intro p member here
      obtain rfl : p = peer := by simpa using here
      rw [heavy member, has]
      split <;> decide
    · rw [reported]
      exact Int.add_le_add_left ((sum_le_sum lostLe).trans (s.sum_lost_filter _ _)) _
    · intro p member
      rw [weightAway p (by simpa using (mem_filter.mp member).2)]
  | joined new =>
    have apart (p) (member : p ∈ s.pending.order) : p ≠ peer := by
      rintro rfl
      exact new member
    simp only [map_append, sum_append, map_singleton, sum_singleton,
      found (mem_append_right _ (mem_singleton_self _)), add_zero] at total ⊢
    refine (before.mono ?_ ?_).append ?_
    · have sums := sum_le_sum fun p member => lostLe p (mem_append_left _ member)
      rw [reported]
      omega
    · intro p member
      rw [weightAway p (apart p member)]
    · unfold Bounded at bounded
      rw [config] at bounded
      omega

/-! ### What keeps the queue within the limit -/

/-- The agent as it is between two moves. -/
structure Steady (s : PeerDiscoveryAgent) : Prop extends Sound s where
  within : Within s
  asserted : s.asserted = true

theorem markState_asserted (s : PeerDiscoveryAgent) (peer : PeerId) (source : DiscoverySource) :
    (s.markState peer source).asserted = (s.asserted &&
      (s.markState peer source).pending.map.len ≤ 2 * s.config.maxKnownPeers) := by
  unfold markState
  split
  · rfl
  · split
    · rfl
    · split
      · rfl
      · split <;> rfl

theorem Steady.shift (before : Steady s) (shift : Shift peer s t) (sound : Sound t)
    (checked : t.asserted = (s.asserted && t.pending.map.len ≤ 2 * s.config.maxKnownPeers) ∨
      t.asserted = s.asserted) : Steady t := by
  have within := before.within.shift shift sound.inSync sound.bounded
  have bound := within.pending_le sound.bounded
  rw [shift.config] at bound
  refine ⟨sound, within, ?_⟩
  obtain checked | unchecked := checked
  · rw [checked, before.asserted, decide_eq_true bound]
    rfl
  · rw [unchecked, before.asserted]

theorem lost_of_known (known : (s.book.get peer).isSome) : s.lost peer = 0 := by
  rw [lost, if_pos (.inr known)]

variable {e : PeerEntry}

theorem members_insert {m : BTreeMap PeerId PeerEntry} (p : PeerId) (apart : p ≠ peer) :
    ((m.insert peer e).get p).isSome = (m.get p).isSome := by
  rw [get_insert, if_neg apart]

theorem Steady.revise (before : Steady s) (sound : Sound (s.revise peer e source))
    (known : peer ∈ s.pending.order → (s.book.get peer).isSome) :
    Steady (s.revise peer e source) := by
  have found : ((s.revise peer e source).book.get peer).isSome := by
    rw [revise_book, get_insert_self]
    rfl
  refine before.shift ⟨revise_config, revise_reported, ?_, ?_, known,
    fun _ => lost_of_known found⟩ sound ?_
  · rw [revise_book]
    exact members_insert
  · unfold PeerDiscoveryAgent.revise
    split
    · exact .same
    · exact (s.put peer e).markState_requeued peer source
  · unfold PeerDiscoveryAgent.revise
    split
    · exact .inr rfl
    · exact .inl ((s.put peer e).markState_asserted peer source)

theorem markState_lost (queued : peer ∈ (s.markState peer source).pending.order) :
    (s.markState peer source).lost peer = 0 := by
  rw [lost, markState_reported, markState_book, if_pos]
  by_contra unknown
  have untold : s.reported.get peer = none := by simpa using fun told => unknown (.inl told)
  have gone : s.viewOf peer = none := by simpa [viewOf] using fun here => unknown (.inr here)
  simp only [markState, untold, gone, transition] at queued
  simp [assertPendingInvariants, removePending, OrderedIndex.remove] at queued

theorem Steady.drop (before : Steady s) {dial : DialState} (sound : Sound (s.drop peer dial))
    (known : peer ∈ s.pending.order → (s.book.get peer).isSome) : Steady (s.drop peer dial) := by
  have queue := { s with
    book := s.book.remove peer
    actions := withdraw peer dial s.actions }.markState_requeued peer .mdns
  refine before.shift ⟨drop_config dial, markState_reported, ?_, queue, known, markState_lost⟩ sound
    (.inl (markState_asserted _ peer .mdns))
  intro p apart
  rw [drop_book, get_remove, if_neg apart]

theorem Steady.put {e' : PeerEntry} (before : Steady s) (known : s.book.get peer = some e)
    (sound : Sound t)
    (config : t.config = s.config) (reported : t.reported = s.reported)
    (pending : t.pending = s.pending)
    (asserted : t.asserted = s.asserted) (book : t.book = s.book.insert peer e') : Steady t := by
  refine before.shift ⟨config, reported, by rw [book]; exact members_insert, ?_, ?_, ?_⟩ sound
    (.inr asserted)
  · rw [pending]
    exact .same
  · intro _
    rw [known]
    rfl
  · intro _
    refine lost_of_known ?_
    rw [book, get_insert_self]
    rfl

theorem known_of_calm (new : s.book.get peer = none → s.pending.get peer = none)
    (queued : peer ∈ s.pending.order) : (s.book.get peer).isSome := by
  cases here : s.book.get peer with
  | some => rfl
  | none =>
    have free : s.pending.map.get peer = none := new here
    rw [s.pending.covers, free] at queued
    exact queued

theorem steady_kept : Kept True Steady where
  move {now s t} move before := by
    have sound := ((sound_kept True s).move move ⟨before.toSound, rfl, rfl⟩).1
    cases move with
    | revise room new heard => exact before.revise sound (known_of_calm (new trivial))
    | drop new => exact before.drop sound (known_of_calm (new trivial))
    | dial dialed => exact before.put dialed.known sound rfl rfl rfl rfl rfl
  setDial {s} peer dial before := by
    have sound := ((sound_kept True s).setDial peer dial ⟨before.toSound, rfl, rfl⟩).1
    unfold setDial at sound ⊢
    split at sound
    · exact before
    · rename_i known
      exact before.put known sound rfl rfl rfl rfl rfl
  markDialFailed {s} peer reason known before := by
    have sound :=
      ((sound_kept True s).markDialFailed peer reason known ⟨before.toSound, rfl, rfl⟩).1
    have listed : ¬((s.book.get peer).isNone ∧ (s.reported.get peer).isNone) := by
      intro unknown
      rw [Option.isNone_iff_eq_none.mp unknown.1] at known
      cases known
    unfold markDialFailed at sound ⊢
    rw [if_neg listed] at sound ⊢
    exact before.shift ⟨rfl, rfl, fun _ _ => rfl, s.pending.set_requeued peer _, fun _ => known,
      fun _ => lost_of_known known⟩ sound (.inl rfl)
  frame {s t} config book pending reported asserted before := by
    have sound := ((sound_kept True s).frame config book pending reported asserted
      ⟨before.toSound, rfl, rfl⟩).1
    refine ⟨sound, ?_, asserted.trans before.asserted⟩
    have lostSame : t.lost = s.lost := by
      funext p
      rw [lost, lost, reported, book]
    have weightSame : t.weight = s.weight := by
      funext p
      rw [weight, weight, lostSame, reported, book]
    rw [Within, held, config, weightSame, lostSame, reported, pending]
    exact before.within

/-! ### Polling -/

/-- The head of the queue moves the counter as its weight says; a peer that has gone and stays
there, with a failed dial, is lost. -/
theorem Within.poll (before : Within s) (order : s.pending.order = peer :: rest)
    (config : t.config = s.config) (book : t.book = s.book)
    (here : (t.reported.get peer).isSome = (s.book.get peer).isSome)
    (others : ∀ other, other ≠ peer → t.reported.get other = s.reported.get other)
    (queue : t.pending.order = rest ∨ t.pending.order = peer :: rest) : Within t := by
  have apart (p) (member : p ∈ rest) : p ≠ peer := by
    rintro rfl
    exact (nodup_cons.mp (order ▸ s.pending.nodup)).1 member
  have moved := t.reported.len_of_same_off (n := s.reported) (l := [peer]) (nodup_singleton _)
    fun p off => by rw [others p (by simpa using off)]
  simp only [countP_singleton, here] at moved
  have lostRest : rest.map t.lost = rest.map s.lost := by
    refine map_congr_left fun p member => ?_
    rw [lost, lost, book, others p (apart p member)]
  have lighter (p) (member : p ∈ rest) : t.weight p ≤ s.weight p := by
    simp only [weight, lost, has, book, others p (apart p member), le_refl]
  unfold Within held at before ⊢
  rw [order, map_cons, sum_cons] at before
  obtain ⟨start, tail⟩ := before
  have limit := tail.start
  have weightWas : s.weight peer = has s.book peer - has s.reported peer - s.lost peer := rfl
  have weightIs : t.weight peer = has t.book peer - has t.reported peer - t.lost peer := rfl
  have lostWas : s.lost peer =
      if (s.reported.get peer).isSome ∨ (s.book.get peer).isSome then 0 else 1 := rfl
  have lostIs : t.lost peer = if (s.book.get peer).isSome then 0 else 1 := by
    simp only [lost, book, here, or_self]
  simp only [has, book, here] at weightWas weightIs
  -- in the book or not, reported or not: the rest is arithmetic
  have sums : (t.reported.len : Int) + (rest.map s.lost).sum =
        s.reported.len + (s.lost peer + (rest.map s.lost).sum) + s.weight peer ∧
      t.lost peer + t.weight peer = 0 ∧
      t.reported.len + (t.lost peer + (rest.map s.lost).sum) ≤ (s.config.maxKnownPeers : Int) := by
    cases known : (s.book.get peer).isSome <;> cases told : (s.reported.get peer).isSome <;>
      simp [known, told] at moved weightWas weightIs lostWas lostIs <;> omega
  obtain ⟨same, nothing, within⟩ := sums
  rw [config]
  obtain queue | queue := queue
  · rw [queue, lostRest]
    exact tail.mono same.le lighter
  · rw [queue, map_cons, sum_cons, lostRest]
    exact ⟨within, tail.mono (by omega) lighter⟩

theorem told_queue (order : s.pending.order = peer :: rest) :
    (s.told peer after failed).pending.order = rest ∨
      (s.told peer after failed).pending.order = peer :: rest := by
  have queued : (s.pending.get peer).isSome := (s.pending.covers peer).mp (by simp [order])
  have placed : (s.pending.set peer ⟨none, failed⟩).order = peer :: rest := by
    rw [← order]
    exact if_pos queued
  have apart : peer ∉ rest := (nodup_cons.mp (order ▸ s.pending.nodup)).1
  unfold told cleanupPendingHead
  split
  · left
    change (s.pending.set peer ⟨none, failed⟩).order.filter _ = rest
    rw [placed, filter_cons_of_neg (by simp), filter_eq_self]
    intro p member
    have away : p ≠ peer := by
      rintro rfl
      exact apart member
    simpa using away
  · exact .inr placed

theorem told_asserted (after : BTreeMap PeerId PeerView) (failed : Option String) :
    (s.told peer after failed).asserted = (s.asserted &&
      (s.told peer after failed).pending.map.len ≤ 2 * s.config.maxKnownPeers) := by
  unfold told cleanupPendingHead
  split <;> rfl

theorem Steady.told (before : Steady s) (order : s.pending.order = peer :: rest)
    (here : after.get peer = s.viewOf peer)
    (others : ∀ other, other ≠ peer → after.get other = s.reported.get other) :
    Steady (s.told peer after failed) := by
  have within : Within (s.told peer after failed) := by
    refine before.within.poll order (by rw [told_eq]) (by rw [told_eq]) ?_ ?_ (told_queue order)
    · rw [told_eq, here, viewOf, Option.isSome_map]
    · rw [told_eq]
      exact others
  have bounded : Bounded (s.told peer after failed) := by
    rw [told_eq]
    exact before.bounded
  have bound := within.pending_le bounded
  refine ⟨⟨told_inSync before.inSync here others, bounded⟩, within, ?_⟩
  rw [told_eq] at bound
  rw [told_asserted, before.asserted, decide_eq_true bound]
  rfl

theorem Steady.poll (before : Steady s) : Steady s.pollEvent.2 := by
  cases order : s.pending.order with
  | nil =>
    unfold pollEvent
    rw [order, pollLoop]
    dsimp only
    split
    · exact before
    · exact steady_kept.frame (s := s) rfl rfl rfl rfl rfl before
  | cons peer rest =>
    obtain ⟨waiting, queued, same⟩ := pollEvent_head before.inSync order
    rw [same]
    obtain ⟨event, -, polled⟩ | ⟨reason, same, -, polled⟩ := pollHead_cases before.inSync queued
    · rw [polled]
      exact before.told order (caughtUp_here s peer) fun _ => caughtUp_away
    · rw [polled]
      exact before.told order same fun _ _ => rfl

/-! ### Runs -/

def CalmRun : PeerDiscoveryAgent → List Call → Prop
  | _, [] => True
  | s, c :: calls => s.Calm c ∧ CalmRun (s.call c).2 calls

theorem run_steady (before : Steady s) (calm : s.CalmRun calls) : Steady (s.run calls) := by
  induction calls generalizing s with
  | nil => exact before
  | cons c calls ih =>
    refine ih ?_ calm.2
    by_cases polls : c = .pollEvent
    · subst polls
      exact before.poll
    · exact steady_kept.call polls (fun _ => calm.1) before.bounded before

/-- The queue lists those for whom something waits, once each. As long as nobody comes back into
the book for whom an event waits, there are at most twice as many of them as the book may hold, no
more peers are reported than it may hold, and no assertion fails. -/
theorem pending_bounded {localPeerId : PeerId} {config : PeerDiscoveryConfig}
    (made : new localPeerId config = .ok s) (calls : List Call) :
    (s.run calls).pending.order.Nodup ∧
    (∀ peer, peer ∈ (s.run calls).pending.order ↔ ((s.run calls).pending.get peer).isSome) ∧
    (s.CalmRun calls → (s.run calls).pending.map.len ≤ 2 * config.maxKnownPeers ∧
      (s.run calls).reported.len ≤ config.maxKnownPeers ∧ (s.run calls).asserted = true) := by
  refine ⟨(s.run calls).pending.nodup, (s.run calls).pending.covers, fun calm => ?_⟩
  have start : Steady s := by
    refine ⟨new_sound made, ?_, ?_⟩
    · rw [new_eq made]
      exact Int.natCast_nonneg _
    · rw [new_eq made]
  have same : (s.run calls).config = config := run_config made
  have steady := run_steady start calm
  have counted := steady.within.start
  have lost : 0 ≤ ((s.run calls).pending.order.map (s.run calls).lost).sum := by
    apply sum_nonneg
    intro n member
    obtain ⟨p, -, rfl⟩ := mem_map.mp member
    exact lost_nonneg
  have pending := steady.within.pending_le steady.bounded
  rw [held, same] at counted
  rw [same] at pending
  exact ⟨pending, by omega, steady.asserted⟩

/-! ### Peers that come back -/

theorem first_announced :
    (host {}).CalmRun [announces 1000 1] ∧ ((host {}).run [announces 1000 1]).asserted = true :=
  have made : new (guest 0) {} = .ok (host {}) := rfl
  have calm : (host {}).CalmRun [announces 1000 1] := ⟨fun _ => rfl, trivial⟩
  ⟨calm, ((pending_bounded made _).2.2 calm).2.2⟩

/-- The book holds two peers. One leaves it, a new one comes, the other leaves; those who have left
before look in, which puts them behind in the queue; then the first one is back, and an event is
polled. -/
def comings : Nat → List UInt8 → UInt8 → UInt8 → List Call
  | 0, _, _, _ => []
  | rounds + 1, gone, x, y =>
    let new := UInt8.ofNat (gone.length + 3)
    [announces 0 x, announces 1000 new, announces 0 y] ++
      gone.flatMap (fun n => [announces 1000 n, announces 0 n]) ++
      [announces 1000 x, .pollEvent] ++ comings rounds (y :: gone) new x

def small : PeerDiscoveryConfig := { maxKnownPeers := 2, autoDial := false }

def crowded : PeerDiscoveryAgent :=
  (host small).run ([announces 1000 1, announces 1000 2, .pollEvent, .pollEvent] ++
    comings 5 [] 1 2)

/-- With every round one more peer is reported that is not in the book, and waits to expire. -/
theorem pending_unbounded : new (guest 0) small = .ok (host small) ∧
    crowded.book.len = 2 ∧ crowded.pending.map.len = 5 ∧ crowded.reported.len = 7 ∧
    crowded.asserted = false := by
  refine ⟨rfl, ?_⟩
  decide +kernel

end Discovery.PeerDiscoveryAgent
