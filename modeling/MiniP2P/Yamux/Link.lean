import MiniP2P.Yamux.Pair
import MiniP2P.Yamux.Run

/-! Two honest sessions and the frames between them. Every stream id belongs to the end
whose parity it has; each id is a pair of an opener and an accepting end. -/
namespace Yamux
open Collections Incremental Transition List Label SessionCore Untold

/-- A session with what is known of it from outside: the frames on their way here, the
bytes its caller gave and the outputs so far, the ids on which a SYN has arrived, and the
ids it has opened. -/
structure Peer where
  core : SessionCore
  frames : List Frame
  acc : UInt32 → List UInt8
  outs : List YamuxOutput
  met : UInt32 → Bool
  opened : List UInt32

variable {stream id : UInt32} {fs rest : List Frame} {gone : Bool} {os : List YamuxOutput}
    {f : Frame}

namespace Peer

variable (p : Peer)

def side (stream : UInt32) : End where
  config := p.core.config
  st := p.core.streams.get stream
  met := !p.core.validRemoteStreamId stream || p.met stream
  inbox := p.frames.filter (fun f => f.streamId = stream)
  acc := p.acc stream
  outs := p.outs

def hear (fs : List Frame) : Peer := { p with frames := p.frames ++ fs }

def after (core : SessionCore) (stream : UInt32) (ls : List Label) : Peer :=
  { p with
    core := core
    acc := fun id => if id = stream then p.acc id ++ accepted ls else p.acc id
    outs := p.outs ++ outputs ls }

def read (f : Frame) (rest : List Frame) : Peer :=
  { p with
    frames := rest
    met := fun id => p.met id || (decide (id = f.streamId) && (f.syn && !f.rst)) }

theorem side_hear_self (about : ∀ f ∈ fs, f.streamId = stream) :
    (p.hear fs).side stream = (p.side stream).push fs := by
  have all : fs.filter (fun f => f.streamId = stream) = fs :=
    filter_eq_self.mpr (fun f member => by simp [about f member])
  simp [side, hear, End.push, all]

theorem side_hear_other {other : UInt32} (ne : other ≠ stream)
    (about : ∀ f ∈ fs, f.streamId = stream) : (p.hear fs).side other = p.side other := by
  have nothing : fs.filter (fun f => f.streamId = other) = [] :=
    filter_eq_nil_iff.mpr (fun f member => by simp [about f member, Ne.symm ne])
  simp [side, hear, nothing]

end Peer

/-- What one end knows of itself and of the streams it opens. `gone` tells that one of
the ends has gone away. -/
structure Half (gone : Bool) (x y : Peer) : Prop where
  sound : x.core.Sound
  unfailed : x.core.failed = false
  paired : ∀ id, y.core.validRemoteStreamId id = true → Paired id (x.side id) (y.side id)
  fresh : ∀ n, x.core.nextStreamId = some n → ∀ id, y.core.validRemoteStreamId id = true →
    n.toNat ≤ id.toNat → Untouched id (x.side id) (y.side id)
  legal : ∀ f ∈ x.frames, (codec x.core.config.maxFrameLen).Legal f
  distinct : x.opened.Nodup
  below : ∀ id ∈ x.opened, y.core.validRemoteStreamId id = true ∧
    ∀ n, x.core.nextStreamId = some n → id.toNat < n.toNat
  together : gone = false → (∀ f ∈ x.frames, f.frameType ≠ .goAway) ∧
    x.core.localGoAway = false ∧ x.core.remoteGoAway = false
  zero : x.acc 0 = [] ∧ Untold 0 x.outs

structure Linked (gone : Bool) (x y : Peer) : Prop where
  parity : ∀ id, id ≠ 0 → y.core.validRemoteStreamId id = !x.core.validRemoteStreamId id
  limit : x.core.config.maxFrameLen = y.core.config.maxFrameLen
  here : Half gone x y
  there : Half gone y x

variable {x y : Peer}

theorem Linked.symm (h : Linked gone x y) : Linked gone y x :=
  ⟨fun id nonzero => by rw [h.parity id nonzero, Bool.not_not], h.limit.symm, h.there, h.here⟩

/-- One end moved without touching any stream but one. -/
structure Reacts (x x' : Peer) (stream : UInt32) (os : List YamuxOutput) : Prop where
  role : x'.core.role = x.core.role
  config : x'.core.config = x.core.config
  next : x'.core.nextStreamId = x.core.nextStreamId
  failed : x'.core.failed = x.core.failed
  localGoAway : x'.core.localGoAway = x.core.localGoAway
  remoteGoAway : x'.core.remoteGoAway = x.core.remoteGoAway
  streams : ∀ id, id ≠ stream → x'.core.streams.get id = x.core.streams.get id
  frames : ∀ id, id ≠ stream → x'.frames.filter (fun f => f.streamId = id) =
    x.frames.filter (fun f => f.streamId = id)
  less : ∀ f ∈ x'.frames, f ∈ x.frames
  met : ∀ id, id ≠ stream → x'.met id = x.met id
  acc : ∀ id, id ≠ stream → x'.acc id = x.acc id
  outs : x'.outs = x.outs ++ os
  opened : x'.opened = x.opened
  untold : ∀ id, id ≠ stream → Untold id os
  zero : x'.acc 0 = x.acc 0 ∧ Untold 0 os

theorem Reacts.refl (x : Peer) (stream : UInt32) : Reacts x x stream [] :=
  ⟨rfl, rfl, rfl, rfl, rfl, rfl, fun _ _ => rfl, fun _ _ => rfl, fun _ => id, fun _ _ => rfl,
    fun _ _ => rfl, (append_nil _).symm, rfl, fun id _ => .nil id, rfl, .nil 0⟩

theorem Reacts.side {x' : Peer} (reacts : Reacts x x' stream os) (ne : id ≠ stream) :
    x'.side id = { x.side id with outs := (x.side id).outs ++ os } := by
  simp only [Peer.side, reacts.config, reacts.streams id ne, reacts.frames id ne,
    reacts.acc id ne, reacts.outs, reacts.met id ne,
    validRemoteStreamId_congr reacts.role]

theorem Untouched.tell {o a : End} (h : Untouched stream o a) (untold : Untold stream os) :
    Untouched stream { o with outs := o.outs ++ os } a ∧
      Untouched stream o { a with outs := a.outs ++ os } :=
  ⟨{ h with outsO := h.outsO.append untold }, { h with outsA := h.outsA.append untold }⟩

theorem Linked.reacts {x' : Peer} (h : Linked gone x y) (reacts : Reacts x x' stream os)
    (sound : x'.core.Sound) (about : ∀ f ∈ fs, f.streamId = stream)
    (legal : ∀ f ∈ fs, (codec y.core.config.maxFrameLen).Legal f)
    (stays : ∀ f ∈ fs, f.frameType ≠ .goAway) (pairs : (y.core.validRemoteStreamId stream = true →
        ¬ Untouched stream (x.side stream) (y.side stream) ∧
        Paired stream (x'.side stream) ((y.hear fs).side stream)) ∧
      (x.core.validRemoteStreamId stream = true →
        ¬ Untouched stream (y.side stream) (x.side stream) ∧
        Paired stream ((y.hear fs).side stream) (x'.side stream))) :
    Linked gone x' (y.hear fs) := by
  have parity : ∀ id, x'.core.validRemoteStreamId id = x.core.validRemoteStreamId id :=
    validRemoteStreamId_congr reacts.role
  refine ⟨?_, ?_, ⟨sound, ?_, ?_, ?_, ?_, ?_, ?_, ?_, ?_⟩, ⟨h.there.sound, h.there.unfailed, ?_, ?_,
    ?_, h.there.distinct, ?_, ?_, h.there.zero⟩⟩
  · intro id nonzero
    rw [parity]
    exact h.parity id nonzero
  · rw [reacts.config]
    exact h.limit
  · exact reacts.failed.trans h.here.unfailed
  · intro id remote
    by_cases same : id = stream
    · subst same
      exact (pairs.1 remote).2
    · rw [reacts.side same, y.side_hear_other same about]
      exact (h.here.paired id remote).tell_opener (reacts.untold id same)
  · intro n next id remote above
    rw [reacts.next] at next
    have fresh := h.here.fresh n next id remote above
    by_cases same : id = stream
    · subst same
      exact absurd fresh (pairs.1 remote).1
    · rw [reacts.side same, y.side_hear_other same about]
      exact (fresh.tell (reacts.untold id same)).1
  · rw [reacts.config]
    exact fun f member => h.here.legal f (reacts.less f member)
  · rw [reacts.opened]
    exact h.here.distinct
  · rw [reacts.opened, reacts.next]
    exact h.here.below
  · intro together
    obtain ⟨frames, here, there⟩ := h.here.together together
    exact ⟨fun f member => frames f (reacts.less f member), reacts.localGoAway.trans here,
      reacts.remoteGoAway.trans there⟩
  · rw [reacts.zero.1, reacts.outs]
    exact ⟨h.here.zero.1, h.here.zero.2.append reacts.zero.2⟩
  · intro id remote
    rw [parity] at remote
    by_cases same : id = stream
    · subst same
      exact (pairs.2 remote).2
    · rw [reacts.side same, y.side_hear_other same about]
      exact (h.there.paired id remote).tell_acceptor (reacts.untold id same)
  · intro n next id remote above
    rw [parity] at remote
    have fresh := h.there.fresh n next id remote above
    by_cases same : id = stream
    · subst same
      exact absurd fresh (pairs.2 remote).1
    · rw [reacts.side same, y.side_hear_other same about]
      exact (fresh.tell (reacts.untold id same)).2
  · exact forall_mem_append.mpr ⟨h.there.legal, legal⟩
  · intro id member
    rw [parity]
    exact h.there.below id member
  · intro together
    obtain ⟨frames, here, there⟩ := h.there.together together
    refine ⟨fun f member => ?_, here, there⟩
    rcases mem_append.mp member with member | member
    · exact frames f member
    · exact stays f member

variable {config : ValidConfig}

theorem trace_sendable {late : Prop} {a b : Option StreamState}
    {ls : List Label} (nonzero : stream ≠ 0) (trace : Trace (Act config stream late) a ls b) :
    ∀ f ∈ frames ls, Sendable config stream f := by
  induction trace with
  | nil => simp [frames]
  | cons act _ ih =>
    rw [frames_append]
    exact forall_mem_append.mpr ⟨act.sendable nonzero, ih⟩

variable {gone : Bool}

theorem Linked.sendable {x y : Peer} (h : Linked gone x y) {stream : UInt32}
    (nonzero : stream ≠ 0) {fs : List Frame}
    (sendable : ∀ f ∈ fs, Sendable x.core.config stream f) :
    (∀ f ∈ fs, f.streamId = stream) ∧
      (∀ f ∈ fs, (codec y.core.config.maxFrameLen).Legal f) ∧
      ∀ f ∈ fs, f.frameType ≠ .goAway := by
  refine ⟨fun f member => (sendable f member).id, fun f member => ⟨(sendable f member).valid, ?_⟩,
    fun f member kind => ?_⟩
  · rw [← h.limit]
    exact (sendable f member).fits
  · have zero := (sendable f member).valid.stream_zero.mpr (.inr kind)
    exact nonzero ((sendable f member).id.symm.trans zero)

variable (p : Peer)

theorem Peer.side_after {core : SessionCore} {stream : UInt32} {ls : List Label}
    (role : core.role = p.core.role) (config : core.config = p.core.config) :
    (p.after core stream ls).side stream =
      (p.side stream).step (core.streams.get stream) ls := by
  simp [Peer.side, Peer.after, End.step, config, validRemoteStreamId_congr role]

theorem Touched.reacts {core : SessionCore} {ls : List Label}
    (touched : Touched x.core core stream ls) (nonzero : stream ≠ 0)
    (about : ∀ o ∈ outputs ls, About stream o) :
    Reacts x (x.after core stream ls) stream (outputs ls) :=
  ⟨touched.role, touched.config, touched.next, touched.failed, touched.localGoAway,
    touched.remoteGoAway, touched.others, fun _ _ => rfl, fun _ => id, fun _ _ => rfl,
    fun _ ne => if_neg ne, rfl, rfl, fun _ ne => of_about ne about,
    if_neg (Ne.symm nonzero), of_about (Ne.symm nonzero) about⟩

theorem Linked.session {x x' y : Peer} {os : List YamuxOutput} {fs : List Frame}
    (h : Linked gone x y) (reacts : Reacts x x' 0 os) (sound : x'.core.Sound)
    (control : ∀ f ∈ fs, f.Valid ∧ f.streamId = 0 ∧ f.frameType = .ping) :
    Linked gone x' (y.hear fs) := by
  refine h.reacts reacts sound (fun f member => (control f member).2.1)
    (fun f member => ⟨(control f member).1, fun kind => ?_⟩) (fun f member kind => ?_)
    ⟨fun remote => ?_, fun own => ?_⟩
  · rw [(control f member).2.2] at kind
    cases kind
  · rw [(control f member).2.2] at kind
    cases kind
  · cases remote
  · cases own

@[simp] theorem Peer.hear_nil : p.hear [] = p := by simp [Peer.hear]

theorem Linked.works {x y : Peer} (h : Linked gone x y) {core : SessionCore}
    {stream : UInt32} {ls : List Label} (progress : Progress x.core core stream ls) :
    Linked gone (x.after core stream ls) (y.hear (frames ls)) := by
  have touched := progress.works.toTouched
  have trace := progress.works.trace
  have nonzero := progress.nonzero
  obtain ⟨about, legal, stays⟩ := h.sendable nonzero (trace_sendable nonzero trace)
  have sound : SoundStream x.core.config (x.core.streams.get stream) :=
    fun st tracked => (h.here.sound.streams stream st tracked).1
  have self := @Peer.side_after x core stream ls touched.role touched.config
  cases tracked : x.core.streams.get stream with
  | none =>
    rw [tracked] at trace
    obtain ⟨absent, rfl⟩ := trace_absent trace
    refine @Linked.session gone x _ y [] [] h { touched.reacts nonzero (by simp) with
      streams := fun id _ => ?_, met := fun _ _ => rfl, frames := fun _ _ => rfl,
      acc := fun id _ => ?_
      untold := fun id _ => .nil id } progress.sound (by simp)
    · by_cases same : id = stream
      · rw [same]
        exact absent.trans tracked.symm
      · exact touched.others id same
    · simp [Peer.after, accepted]
  | some st =>
    refine h.reacts (touched.reacts nonzero (trace_about nonzero trace)) progress.sound
      about legal stays
      ⟨fun remote => ⟨fun fresh => ?_, ?_⟩, fun own => ⟨fun fresh => ?_, ?_⟩⟩
    · cases tracked.symm.trans fresh.noneO
    · rw [self, y.side_hear_self about]
      exact Paired.acts (Paired stream) trace (fun h => h.act_opener nonzero)
        (h.here.paired stream remote) rfl rfl sound
    · cases tracked.symm.trans fresh.noneA
    · rw [self, y.side_hear_self about]
      exact Paired.acts (fun x y => Paired stream y x) trace (fun h => h.act_acceptor nonzero)
        (h.there.paired stream own) rfl rfl sound

theorem Act.mono {stream : UInt32} {late late' : Prop}
    {a b : Option StreamState} {ls : List Label} (act : Act config stream late a ls b)
    (weaker : late → late') : Act config stream late' a ls b := by
  cases act with
  | park writable nonempty spent room => exact .park writable nonempty spent room
  | push writable drained credit fits => exact .push writable drained credit fits
  | flush front positive within credit fits => exact .flush front positive within credit fits
  | fin unclosed drained => exact .fin unclosed drained
  | closeLater writable parked => exact .closeLater writable parked
  | advertise small => exact .advertise small
  | reset => exact .reset
  | closed here there => exact .closed here there
  | remoteFin permitted unclosed => exact .remoteFin (weaker permitted) unclosed

theorem Regular.not_late (regular : Regular f) : ¬ Late f := by
  rintro ⟨kind, fin⟩
  have nothing : hasFlag f.flags flagFin = false := (regular.update kind).1
  rw [nothing] at fin
  cases fin

theorem Peer.inbox_next {p : Peer} (next : p.frames = f :: rest) :
    (p.side f.streamId).inbox = f :: rest.filter (fun g => g.streamId = f.streamId) := by
  simp [Peer.side, next]

theorem Linked.owner (h : Linked gone x y) (nonzero : id ≠ 0) :
    y.core.validRemoteStreamId id = true ∨ x.core.validRemoteStreamId id = true := by
  rw [h.parity id nonzero]
  cases x.core.validRemoteStreamId id <;> simp

theorem Linked.regular (h : Linked gone x y) (nonzero : f.streamId ≠ 0) (member : f ∈ x.frames) :
    Regular f := by
  have inbox : f ∈ (x.side f.streamId).inbox := by simp [Peer.side, member]
  rcases h.owner nonzero with remote | own
  · exact (h.here.paired _ remote).regularO f inbox
  · exact (h.there.paired _ own).regularA f inbox

theorem Linked.not_rejected (h : Linked gone x y) (next : x.frames = f :: rest)
    (nonzero : f.streamId ≠ 0) {e : YamuxError} : ¬ Rejects x.core f e := by
  have inbox := Peer.inbox_next next
  have member : f ∈ (x.side f.streamId).inbox := by rw [inbox]; simp
  have valid := (h.regular nonzero (by simp [next])).valid
  intro rejects
  rcases h.owner nonzero with remote | own
  · have pair := h.here.paired _ remote
    have plain : hasFlag f.flags flagSyn = false := pair.reply.1 f member
    cases rejects with
    | parity rst syn own | duplicate rst syn tracked | opening rst syn absent refused =>
      rw [plain] at syn; cases syn
    | known rst syn tracked refused =>
      exact pair.back.not_refused pair.there inbox ((End.view_met pair.opener).trans tracked) valid
        refused
  · have pair := h.there.paired _ own
    obtain ⟨known, first, -⟩ := pair.first_word inbox
    cases rejects with
    | parity rst syn own' => rw [own] at own'; cases own'
    | duplicate rst syn tracked =>
      have unmet := first syn rst
      rw [known _ tracked] at unmet
      cases unmet
    | opening rst syn absent refused =>
      have view : (x.side f.streamId).view =
          some (.inbound x.core.config defaultReceiveWindow) := by
        rw [End.view, first syn rst]
        rfl
      exact pair.there.not_refused pair.back inbox view valid refused
    | known rst syn tracked refused =>
      exact pair.there.not_refused pair.back inbox
        ((End.view_met (known _ tracked)).trans tracked) valid refused

theorem Peer.side_read_after {p : Peer} {core : SessionCore} {f : Frame} {rest : List Frame}
    {first later : List Label} {mid : Option StreamState} (role : core.role = p.core.role)
    (config : core.config = p.core.config)
    (accepted : accepted (first ++ later) = []) :
    ((p.read f rest).after core f.streamId (first ++ later)).side f.streamId =
      ((p.side f.streamId).consume f (rest.filter (fun g => g.streamId = f.streamId))
        mid first).step
        (core.streams.get f.streamId) later := by
  rw [accepted_append, append_eq_nil_iff] at accepted
  simp [Peer.side, Peer.after, Peer.read, End.step, End.consume, config,
    validRemoteStreamId_congr role, accepted.1, accepted.2, Bool.or_assoc]

theorem Linked.handled {x y : Peer} (h : Linked gone x y) {core : SessionCore}
    {f : Frame} {rest : List Frame} {ls : List Label} (next : x.frames = f :: rest)
    (nonzero : f.streamId ≠ 0) (active : x.core.ensureActive = .ok ())
    (taken : Handled x.core core f ls) :
    Linked gone ((x.read f rest).after core f.streamId ls) (y.hear (frames ls)) := by
  have touched := taken.touched
  have inbox := Peer.inbox_next next
  have early := (h.regular nonzero (by simp [next])).not_late
  have sound₀ : SoundStream x.core.config (x.core.streams.get f.streamId) :=
    fun st tracked => (h.here.sound.streams _ st tracked).1
  have sound := taken.sound h.here.sound active nonzero
  have told := taken.about nonzero
  have accepted := taken.accepted
  obtain ⟨first, later, mid, rfl, consume, lateTrace⟩ := taken.split
  have trace := lateTrace.mono (fun act => @Act.mono _ _ _ False _ _ _ act early)
  obtain ⟨about, legal, stays⟩ :=
    @Linked.sendable gone x y h f.streamId nonzero (frames (first ++ later)) (by
      rw [frames_append]
      exact forall_mem_append.mpr ⟨consume.sendable nonzero, trace_sendable nonzero trace⟩)
  have reacts : Reacts x ((x.read f rest).after core f.streamId (first ++ later)) f.streamId
      (outputs (first ++ later)) := by
    refine { touched.reacts nonzero told with
      frames := fun id ne => ?_, less := fun g member => ?_, met := fun id ne => ?_ }
    · simp [Peer.after, Peer.read, next, Ne.symm ne]
    · simp [next, show g ∈ rest from member]
    · simp [Peer.after, Peer.read, ne]
  have self := @Peer.side_read_after x core f rest first later mid touched.role touched.config
    accepted
  refine h.reacts reacts sound about legal stays
    ⟨fun remote => ⟨fun fresh => ?_, ?_⟩, fun own => ⟨fun fresh => ?_, ?_⟩⟩
  · have empty := fresh.emptyO
    rw [inbox] at empty
    cases empty
  · rw [self, y.side_hear_self about, frames_append, ← End.push_push]
    exact Paired.acts (Paired f.streamId) trace (fun h => h.act_opener nonzero)
      ((h.here.paired _ remote).consume_opener nonzero inbox consume) rfl rfl (consume.sound sound₀)
  · have empty := fresh.emptyA
    rw [inbox] at empty
    cases empty
  · rw [self, y.side_hear_self about, frames_append, ← End.push_push]
    exact Paired.acts (fun x y => Paired f.streamId y x) trace (fun h => h.act_acceptor nonzero)
      ((h.there.paired _ own).consume_acceptor nonzero inbox consume) rfl rfl (consume.sound sound₀)

/-- An end has gone away: all its streams are dropped without a word about them. -/
structure Leaves (x x' : Peer) (os : List YamuxOutput) : Prop where
  role : x'.core.role = x.core.role
  config : x'.core.config = x.core.config
  next : x'.core.nextStreamId = x.core.nextStreamId
  failed : x'.core.failed = x.core.failed
  streams : x'.core.streams = .empty
  frames : ∀ id, id ≠ 0 → x'.frames.filter (fun f => f.streamId = id) =
    x.frames.filter (fun f => f.streamId = id)
  less : ∀ f ∈ x'.frames, f ∈ x.frames
  met : x'.met = x.met
  acc : x'.acc = x.acc
  outs : x'.outs = x.outs ++ os
  opened : x'.opened = x.opened
  untold : ∀ id, Untold id os

theorem Leaves.side {x' : Peer} (leaves : Leaves x x' os) (nonzero : id ≠ 0) :
    x'.side id = { x.side id with st := none, outs := (x.side id).outs ++ os } := by
  simp only [Peer.side, leaves.config, leaves.streams, leaves.frames id nonzero, leaves.acc,
    leaves.outs, leaves.met, validRemoteStreamId_congr leaves.role]
  rfl

theorem Untouched.drop_opener {o a : End} (h : Untouched stream o a) :
    Untouched stream { o with st := none } a :=
  { h with noneO := rfl }

theorem Untouched.drop_acceptor {o a : End} (h : Untouched stream o a) :
    Untouched stream o { a with st := none } :=
  { h with noneA := rfl }

theorem remote_nonzero {s : SessionCore} (remote : s.validRemoteStreamId id = true) : id ≠ 0 := by
  rintro rfl
  cases remote

theorem Linked.leaves {x x' y : Peer} {os : List YamuxOutput} {fs : List Frame}
    (h : Linked gone x y) (leaves : Leaves x x' os) (sound : x'.core.Sound)
    (control : ∀ f ∈ fs, f.Valid ∧ f.streamId = 0 ∧ f.frameType = .goAway) :
    Linked true x' (y.hear fs) := by
  have parity : ∀ id, x'.core.validRemoteStreamId id = x.core.validRemoteStreamId id :=
    validRemoteStreamId_congr leaves.role
  have about : ∀ f ∈ fs, f.streamId = 0 := fun f member => (control f member).2.1
  refine ⟨?_, ?_, ⟨sound, ?_, ?_, ?_, ?_, ?_, ?_, nofun, ?_⟩, ⟨h.there.sound, h.there.unfailed, ?_,
    ?_, ?_, h.there.distinct, ?_, nofun, h.there.zero⟩⟩
  · intro id nonzero
    rw [parity]
    exact h.parity id nonzero
  · rw [leaves.config]
    exact h.limit
  · exact leaves.failed.trans h.here.unfailed
  · intro id remote
    have nonzero := remote_nonzero remote
    rw [leaves.side nonzero, y.side_hear_other nonzero about]
    exact (h.here.paired id remote).drop_opener.tell_opener (leaves.untold id)
  · intro n next id remote above
    have nonzero := remote_nonzero remote
    rw [leaves.next] at next
    rw [leaves.side nonzero, y.side_hear_other nonzero about]
    exact ((h.here.fresh n next id remote above).drop_opener.tell (leaves.untold id)).1
  · rw [leaves.config]
    exact fun f member => h.here.legal f (leaves.less f member)
  · rw [leaves.opened]
    exact h.here.distinct
  · rw [leaves.opened, leaves.next]
    exact h.here.below
  · rw [leaves.acc, leaves.outs]
    exact ⟨h.here.zero.1, h.here.zero.2.append (leaves.untold 0)⟩
  · intro id own
    have nonzero := remote_nonzero own
    rw [parity] at own
    rw [leaves.side nonzero, y.side_hear_other nonzero about]
    exact (h.there.paired id own).drop_acceptor.tell_acceptor (leaves.untold id)
  · intro n next id own above
    have nonzero := remote_nonzero own
    rw [parity] at own
    rw [leaves.side nonzero, y.side_hear_other nonzero about]
    exact ((h.there.fresh n next id own above).drop_acceptor.tell (leaves.untold id)).2
  · intro f member
    rcases mem_append.mp member with member | member
    · exact h.there.legal f member
    · refine ⟨(control f member).1, fun kind => ?_⟩
      rw [(control f member).2.2] at kind
      cases kind
  · intro id member
    rw [parity]
    exact h.there.below id member

def Peer.opening (n : UInt32) : Peer :=
  { p with
    core := { p.core with
      nextStreamId := if n.toNat + 2 ≤ u32Max then some (n + 2) else none
      streams := p.core.streams.insert n (.outbound p.core.config) }
    opened := p.opened ++ [n] }

theorem Peer.side_open_self (n : UInt32) :
    (p.opening n).side n = { p.side n with st := some (.outbound p.core.config) } := by
  have here : (p.opening n).core.streams.get n = some (.outbound p.core.config) :=
    BTreeMap.get_insert_self _ _ _
  simp only [Peer.side, here]
  rfl

variable {n : UInt32}

theorem Peer.side_open_other (ne : id ≠ n) : (p.opening n).side id = p.side id := by
  have here : (p.opening n).core.streams.get id = p.core.streams.get id := by
    simp [Peer.opening, BTreeMap.get_insert, ne]
  simp only [Peer.side, here]
  rfl

theorem Peer.next_open {p : Peer} {m : UInt32} (next : (p.opening n).core.nextStreamId = some m) :
    m.toNat = n.toNat + 2 := by
  simp only [Peer.opening] at next
  split at next
  · rename_i small
    cases next
    exact add_two small
  · cases next

theorem Linked.opens (h : Linked gone x y) (active : x.core.ensureActive = .ok ())
    (next : x.core.nextStreamId = some n) (absent : x.core.streams.get n = none) :
    Linked gone (x.opening n) y := by
  obtain ⟨nonzero, own⟩ := h.here.sound.next n next
  have remote : y.core.validRemoteStreamId n = true := by rw [h.parity n nonzero, own]; rfl
  have fresh := h.here.fresh n next n remote (Nat.le_refl _)
  have elsewhere : ∀ {id}, x.core.validRemoteStreamId id = true → id ≠ n := by
    rintro id own' rfl
    rw [own] at own'
    cases own'
  refine ⟨h.parity, h.limit, ⟨h.here.sound.openStream active next absent, h.here.unfailed, ?_, ?_,
    h.here.legal, ?_, ?_, h.here.together, h.here.zero⟩, ⟨h.there.sound, h.there.unfailed, ?_, ?_,
    h.there.legal, h.there.distinct, h.there.below, h.there.together, h.there.zero⟩⟩
  · intro id remote'
    by_cases same : id = n
    · subst same
      rw [Peer.side_open_self]
      exact fresh.paired (.inr rfl)
    · rw [Peer.side_open_other x same]
      exact h.here.paired id remote'
  · intro m next' id remote' above
    have grown := Peer.next_open next'
    have ne : id ≠ n := by rintro rfl; omega
    rw [Peer.side_open_other x ne]
    exact h.here.fresh n next id remote' (by omega)
  · refine nodup_append.mpr ⟨h.here.distinct, by simp, ?_⟩
    rintro id member _ last rfl
    cases mem_singleton.mp last
    have less := (h.here.below _ member).2 _ next
    omega
  · intro id member
    rcases mem_append.mp member with member | member
    · refine ⟨(h.here.below id member).1, fun m next' => ?_⟩
      have grown := Peer.next_open next'
      have less := (h.here.below id member).2 n next
      omega
    · cases mem_singleton.mp member
      refine ⟨remote, fun m next' => ?_⟩
      have grown := Peer.next_open next'
      omega
  · intro id own'
    rw [Peer.side_open_other x (elsewhere own')]
    exact h.there.paired id own'
  · intro m next' id own' above
    rw [Peer.side_open_other x (elsewhere own')]
    exact h.there.fresh m next' id own' above

theorem Untold.frames (id : UInt32) (fs : List Frame) :
    Untold id (fs.map (fun f => .outbound f.encode)) := by
  refine of_forall (fun o member => ?_)
  obtain ⟨f, -, rfl⟩ := mem_map.mp member
  exact outbound id _

def Peer.control (core : SessionCore) (fs : List Frame) : Peer :=
  { p with core := core, outs := p.outs ++ fs.map (fun f => .outbound f.encode) }

theorem Linked.quiet (h : Linked gone x y) {core : SessionCore} (quiet : Quiet x.core core fs) :
    Linked gone (x.control core fs) (y.hear fs) :=
  h.session (⟨quiet.role, quiet.config, quiet.next, quiet.failed, quiet.localGoAway,
    quiet.remoteGoAway, fun id _ => by rw [Peer.control, quiet.streams],
    fun _ _ => rfl, fun _ => id,
    fun _ _ => rfl, fun _ _ => rfl, rfl, rfl, fun id _ => frames id fs, rfl,
    frames 0 fs⟩ :
    Reacts x (x.control core fs) 0 (fs.map (fun f => .outbound f.encode)))
    (quiet.sound h.here.sound) quiet.control

theorem Linked.skip (h : Linked gone x y) (next : x.frames = f :: rest) (zero : f.streamId = 0) :
    Linked gone (x.read f rest) y := by
  have reacts : Reacts x (x.read f rest) 0 [] := by
    refine { Reacts.refl x 0 with
      frames := fun id ne => ?_, less := fun g member => ?_, met := fun id ne => ?_ }
    · simp [Peer.read, next, zero, Ne.symm ne]
    · simp [next, show g ∈ rest from member]
    · simp [Peer.read, zero, ne]
  have skipped := @Linked.session gone x _ y [] [] h reacts h.here.sound (by simp)
  rwa [Peer.hear_nil] at skipped

end Yamux
