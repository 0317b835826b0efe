import MiniP2P.Yamux.Run

/-! The life of a stream as its owner sees it: it begins when it is opened or announced,
and ends with one `StreamClosed`. -/
namespace Yamux
open Collections Transition List Event YamuxSession YamuxOutput Label SessionCore

inductive Mark where
  | began | body | closed
  deriving DecidableEq

def YamuxOutput.mark (stream : UInt32) : YamuxOutput → Option Mark
  | .incomingStream i => if i = stream then some .began else none
  | .data i _ => if i = stream then some .body else none
  | .remoteWriteClosed i => if i = stream then some .body else none
  | .streamClosed i => if i = stream then some .closed else none
  | _ => none

def Seen.mark (stream : UInt32) : Seen → Option (Mark × Bool)
  | .opened n => if n = stream then some (.began, true) else none
  | .delivered o => (o.mark stream).map (·, true)
  | .discarded o => (o.mark stream).map (·, false)

def marks (stream : UInt32) (seen : List Seen) : List (Mark × Bool) :=
  seen.filterMap (Seen.mark stream)

/-- Where a stream id stands in the eyes of its owner. `live` remembers whether the
owner knows of the stream. -/
inductive Phase where
  | idle
  | live (announced : Bool)
  | broken
  deriving DecidableEq

/-- An announced stream must be closed in sight. Nothing comes before the beginning of
a stream or after its end. -/
def Phase.next : Phase → Mark × Bool → Phase
  | .idle, (.began, seen) => .live seen
  | .live announced, (.body, _) => .live announced
  | .live announced, (.closed, seen) => if announced && !seen then .broken else .idle
  | _, _ => .broken

def phase (start : Phase) (ms : List (Mark × Bool)) : Phase := ms.foldl Phase.next start

def Phase.Agrees (tracked : Bool) : Phase → Prop
  | .idle => tracked = false
  | .live _ => tracked = true
  | .broken => False

instance (tracked : Bool) (p : Phase) : Decidable (p.Agrees tracked) :=
  match p with
  | .idle => inferInstanceAs (Decidable (tracked = false))
  | .live _ => inferInstanceAs (Decidable (tracked = true))
  | .broken => inferInstanceAs (Decidable False)

/-- Exactly one `StreamClosed` was delivered for every finished stream the owner knew of,
with nothing after it, and what is not finished is tracked. Outputs that are still
queued count as delivered. -/
def Terminated (stream : UInt32) (log : List (Call × Answer)) (s : YamuxSession) : Prop :=
  (phase .idle (marks stream (history log ++ s.core.pending.map .delivered))).Agrees
    (s.core.streams.get stream).isSome

instance (stream : UInt32) (log : List (Call × Answer)) (s : YamuxSession) :
    Decidable (Terminated stream log s) :=
  inferInstanceAs (Decidable (Phase.Agrees _ _))

/-- The queue ends a stream that it did not itself announce. -/
def orphans (stream : UInt32) : List YamuxOutput → Bool
  | [] => false
  | o :: queue =>
    match o.mark stream with
    | some .closed => true
    | some .began => false
    | _ => orphans stream queue

/-- The life of an id whether or not its owner sees it: `some true` while it is live. -/
def Mark.next : Option Bool → Mark × Bool → Option Bool
  | some false, (.began, _) => some true
  | some true, (.body, _) => some true
  | some true, (.closed, _) => some false
  | _, _ => none

def life (live : Option Bool) (ms : List (Mark × Bool)) : Option Bool := ms.foldl Mark.next live

@[simp] theorem life_append (live : Option Bool) (xs ys : List (Mark × Bool)) :
    life live (xs ++ ys) = life (life live xs) ys := foldl_append

@[simp] theorem life_none (ms : List (Mark × Bool)) : life none ms = none := by
  induction ms with
  | nil => rfl
  | cons m ms ih => exact ih

@[simp] theorem marks_append (stream : UInt32) (xs ys : List Seen) :
    marks stream (xs ++ ys) = marks stream xs ++ marks stream ys := filterMap_append

def lifeOf (stream : UInt32) (live : Option Bool) (os : List YamuxOutput) : Option Bool :=
  life live (marks stream (os.map .delivered))

@[simp] theorem lifeOf_nil (stream : UInt32) (live : Option Bool) :
    lifeOf stream live [] = live := rfl

@[simp] theorem lifeOf_cons (stream : UInt32) (live : Option Bool) (o : YamuxOutput)
    (os : List YamuxOutput) : lifeOf stream live (o :: os) =
      lifeOf stream ((o.mark stream).elim live (fun m => Mark.next live (m, true))) os := by
  cases h : o.mark stream <;> simp [lifeOf, life, marks, Seen.mark, h]

theorem lifeOf_append (stream : UInt32) (live : Option Bool) (os ps : List YamuxOutput) :
    lifeOf stream live (os ++ ps) = lifeOf stream (lifeOf stream live os) ps := by
  simp [lifeOf]

variable {stream : UInt32} {config : ValidConfig} {a b : Option StreamState} {ls : List Label}
  {f : Frame} {s s' : SessionCore} {es : List Event} {os : List YamuxOutput}

theorem marks_silent {id : UInt32} (silent : ∀ o ∈ os, o.mark id = none) :
    marks id (os.map .delivered) = [] := by
  refine filterMap_eq_nil_iff.mpr (fun x member => ?_)
  obtain ⟨o, ho, rfl⟩ := mem_map.mp member
  simp [Seen.mark, silent o ho]

theorem marks_elsewhere {other : UInt32} (ne : other ≠ stream)
    (about : ∀ o ∈ os, About stream o) : marks other (os.map .delivered) = [] :=
  marks_silent fun o ho => by cases about o ho <;> simp [mark, Ne.symm ne]

theorem Act.lives {late : Prop} (act : Act config stream late a ls b) :
    lifeOf stream (some a.isSome) (outputs ls) = some b.isSome := by
  cases act <;> simp [mark, Mark.next]

theorem trace_lives {late : Prop} (trace : Trace (Act config stream late) a ls b) :
    lifeOf stream (some a.isSome) (outputs ls) = some b.isSome := by
  induction trace with
  | nil => rfl
  | cons act _ ih => rw [outputs_append, lifeOf_append, act.lives, ih]

theorem Absorb.lives {st st' : StreamState} (absorb : Absorb config f st ls st') :
    lifeOf f.streamId (some true) (outputs ls) = some true := by
  cases absorb with
  | data kind order fits =>
    simp only [dataLabels, finLabels]
    split <;> split <;> simp [mark, Mark.next]
  | credit kind fits => rfl

theorem Consume.lives {remote room : Prop} (consume : Consume config remote room f a ls b) :
    lifeOf f.streamId (some a.isSome) (outputs ls) = some b.isSome := by
  cases consume with
  | resetKnown rst => simp [mark, Mark.next]
  | resetUnknown rst => rfl
  | refuse rst full => rfl
  | accept rst syn parity free absorb =>
    simpa [mark, Mark.next] using absorb.lives
  | known rst syn absorb => exact absorb.lives

theorem Handled.lives (handled : Handled s s' f ls) :
    lifeOf f.streamId (some (s.streams.get f.streamId).isSome) (outputs ls) =
      some (s'.streams.get f.streamId).isSome := by
  obtain ⟨first, rest, mid, rfl, consume, trace⟩ := handled.split
  rw [outputs_append, lifeOf_append, consume.lives, trace_lives trace]

theorem Spoiled.lives (wrong : Spoiled s s' f ls) :
    lifeOf f.streamId (some (s.streams.get f.streamId).isSome) (outputs ls) =
      some (s'.streams.get f.streamId).isSome := by
  rcases wrong.shape with ⟨rfl, same⟩ | ⟨rfl, absent, now⟩
  · simp [same]
  · simp [absent, now, mark, Mark.next]

theorem Spoiled.about (wrong : Spoiled s s' f ls) : ∀ o ∈ outputs ls, About f.streamId o := by
  rcases wrong.shape with ⟨rfl, -⟩ | ⟨rfl, -⟩
  · simp
  · intro o member
    cases mem_singleton.mp member
    exact .incoming

theorem lifeOf_closing (stream : UInt32) {keys : List UInt32} (distinct : keys.Nodup) :
    lifeOf stream (some (decide (stream ∈ keys))) (keys.map .streamClosed) = some false := by
  induction keys with
  | nil => rfl
  | cons k keys ih =>
    obtain ⟨fresh, distinct⟩ := nodup_cons.mp distinct
    by_cases same : k = stream
    · subst same
      have later := ih distinct
      simp only [fresh, decide_false] at later
      simpa [mark, Mark.next] using later
    · have later := ih distinct
      have member : (stream ∈ k :: keys) = (stream ∈ keys) := by simp [Ne.symm same]
      simpa [mark, same, member] using later

theorem lifeOf_closeAll (stream : UInt32) (streams : BTreeMap UInt32 StreamState)
    {o : YamuxOutput} (silent : o.mark stream = none) :
    lifeOf stream (some (streams.get stream).isSome) (o :: streams.keys.map .streamClosed) =
      some false := by
  have tracked : (streams.get stream).isSome = decide (stream ∈ streams.keys) := by
    rw [Bool.eq_iff_iff, decide_eq_true_iff]
    exact (streams.mem_keys stream).symm
  rw [lifeOf_cons, silent, tracked]
  exact lifeOf_closing stream streams.keys_nodup

def Seen.visible : Seen → Bool
  | .discarded _ => false
  | _ => true

def account (es : List Event) (s : SessionCore) : List Seen :=
  seens es ++ s.pending.map .delivered

/-- A stream is tracked exactly while it is live, an id not yet handed out has no past,
and outputs are thrown away at most once, by the failure that ends the session. -/
structure Lives (es : List Event) (s : SessionCore) : Prop where
  tracked : ∀ id, life (some false) (marks id (account es s)) = some (s.streams.get id).isSome
  unused : s.failed = false → ∀ id n, s.validRemoteStreamId id = false →
    s.nextStreamId = some n → n.toNat ≤ id.toNat → marks id (account es s) = []
  shape : ∃ before queue after, seens es = before ++ queue.map .discarded ++ after ∧
    (∀ x ∈ before, x.visible = true) ∧ (∀ x ∈ after, x.visible = true) ∧
    (s.failed = false → queue = [] ∧ after = [])

theorem Lives.untracked (h : Lives es s) (unfailed : s.failed = false) {id n : UInt32}
    (own : s.validRemoteStreamId id = false) (next : s.nextStreamId = some n)
    (above : n.toNat ≤ id.toNat) : s.streams.get id = none := by
  have tracked := h.tracked id
  rw [h.unused unfailed id n own next above] at tracked
  cases found : s.streams.get id with
  | none => rfl
  | some st =>
    rw [found] at tracked
    cases tracked

theorem Lives.more {fs : List Event} (h : Lives es s) (failed : s'.failed = s.failed)
    (visible : ∀ x ∈ seens fs, x.visible = true) :
    ∃ before queue after, seens (es ++ fs) = before ++ queue.map .discarded ++ after ∧
      (∀ x ∈ before, x.visible = true) ∧ (∀ x ∈ after, x.visible = true) ∧
      (s'.failed = false → queue = [] ∧ after = []) := by
  obtain ⟨before, queue, after, split, seenBefore, seenAfter, unfailed⟩ := h.shape
  cases hs : s.failed with
  | false =>
    obtain ⟨rfl, rfl⟩ := unfailed hs
    refine ⟨before ++ seens fs, [], [], ?_, ?_, nofun, fun _ => ⟨rfl, rfl⟩⟩
    · simp [split]
    · exact forall_mem_append.mpr ⟨seenBefore, visible⟩
  | true =>
    refine ⟨before, queue, after ++ seens fs, ?_, seenBefore, ?_, fun now => ?_⟩
    · simp [split]
    · exact forall_mem_append.mpr ⟨seenAfter, visible⟩
    · rw [failed, hs] at now
      cases now

theorem Lives.spoken (h : Lives es s) (role : s'.role = s.role)
    (next : s'.nextStreamId = s.nextStreamId) (failed : s'.failed = s.failed)
    (pending : s'.pending = s.pending ++ os)
    (goes : ∀ id, lifeOf id (some (s.streams.get id).isSome) os = some (s'.streams.get id).isSome)
    (silent : ∀ id, s.streams.get id = none → s.validRemoteStreamId id = false →
      marks id (os.map .delivered) = []) : Lives (es ++ spoken os) s' := by
  have grown : account (es ++ Yamux.spoken os) s' = account es s ++ os.map .delivered := by
    simp [account, pending]
  refine ⟨fun id => ?_, fun unfailed id n own hn above => ?_, h.more failed (by simp)⟩
  · rw [grown, marks_append, life_append, h.tracked id]
    exact goes id
  · rw [validRemoteStreamId_congr role] at own
    rw [next] at hn
    rw [failed] at unfailed
    rw [grown, marks_append, h.unused unfailed id n own hn above,
      silent id (h.untracked unfailed own hn above) own]
    rfl

theorem Touched.lives (touched : Touched s s' stream ls) (about : ∀ o ∈ outputs ls, About stream o)
    (goes : lifeOf stream (some (s.streams.get stream).isSome) (outputs ls) =
      some (s'.streams.get stream).isSome) (id : UInt32) :
    lifeOf id (some (s.streams.get id).isSome) (outputs ls) = some (s'.streams.get id).isSome := by
  by_cases same : id = stream
  · rw [same]
    exact goes
  · rw [lifeOf, marks_elsewhere same about, touched.others id same]
    rfl

theorem Lives.touched (h : Lives es s) (touched : Touched s s' stream ls)
    (about : ∀ o ∈ outputs ls, About stream o)
    (goes : lifeOf stream (some (s.streams.get stream).isSome) (outputs ls) =
      some (s'.streams.get stream).isSome)
    (silent : s.streams.get stream = none → s.validRemoteStreamId stream = false →
      marks stream ((outputs ls).map .delivered) = []) :
    Lives (es ++ Yamux.spoken (outputs ls)) s' := by
  refine h.spoken touched.role touched.next touched.failed touched.pending
    (touched.lives about goes) (fun id absent own => ?_)
  by_cases same : id = stream
  · subst same
    exact silent absent own
  · exact marks_elsewhere same about

theorem Lives.session {es : List Event} {s s' : SessionCore}
    (h : Lives es s) (role : s'.role = s.role) (next : s'.nextStreamId = s.nextStreamId)
    (failed : s'.failed = s.failed) (streams : s'.streams = s.streams)
    (pending : s'.pending = s.pending ++ os) (session : ∀ id, ∀ o ∈ os, o.mark id = none) :
    Lives (es ++ Yamux.spoken os) s' := by
  refine h.spoken role next failed pending (fun id => ?_) (fun id _ _ => marks_silent (session id))
  rw [lifeOf, marks_silent (session id), streams]
  rfl

theorem Lives.openStream {n : UInt32} (h : Lives es s) (unfailed : s.failed = false)
    (next : s.nextStreamId = some n) (own : s.validRemoteStreamId n = false) :
    Lives (es ++ [.opened n]) { s with
      nextStreamId := if n.toNat + 2 ≤ u32Max then some (n + 2) else none
      streams := s.streams.insert n (.outbound s.config) } := by
  have elsewhere : ∀ {id}, id ≠ n →
      marks id (account (es ++ [.opened n]) s) = marks id (account es s) := by
    intro id ne
    have nothing : marks id (seens [.opened n]) = [] := by
      simp [marks, seens, seen, Seen.mark, Ne.symm ne]
    simp [account, nothing]
  have here : marks n (account (es ++ [.opened n]) s) = [(.began, true)] := by
    have empty := h.unused unfailed n n own next (Nat.le_refl _)
    have began : marks n (seens [.opened n]) = [(.began, true)] := by
      simp [marks, seens, seen, Seen.mark]
    simp only [account, marks_append, append_eq_nil_iff] at empty
    simp [account, empty, began]
  refine ⟨fun id => ?_, fun _ id m own' hm above => ?_, h.more rfl (by
    simp [seens, seen, Seen.visible])⟩
  · show life _ (marks id (account (es ++ [.opened n]) s)) =
      some ((s.streams.insert n (.outbound s.config)).get id).isSome
    by_cases same : id = n
    · subst same
      rw [here]
      simp [life, Mark.next]
    · rw [elsewhere same, h.tracked id, BTreeMap.get_insert, if_neg same]
  · have grown : m.toNat = n.toNat + 2 := by
      split at hm
      · rename_i small
        cases hm
        exact add_two small
      · cases hm
    have ne : id ≠ n := by
      rintro rfl
      omega
    exact (elsewhere ne).trans (h.unused unfailed id n own' next (by omega))

theorem marks_closing {id : UInt32} {keys : List UInt32} (absent : id ∉ keys) :
    marks id ((keys.map streamClosed).map .delivered) = [] := by
  refine marks_silent (fun o member => ?_)
  obtain ⟨k, hk, rfl⟩ := mem_map.mp member
  have ne : k ≠ id := fun same => absent (same ▸ hk)
  simp [mark, ne]

theorem Lives.closeAll {o : YamuxOutput} (h : Lives es s) (base : SameBase s s')
    (failed : s'.failed = s.failed) (streams : s'.streams = .empty)
    (control : ∀ id, o.mark id = none)
    (pending : s'.pending = s.pending ++ o :: s.streams.keys.map .streamClosed) :
    Lives (es ++ Yamux.spoken (o :: s.streams.keys.map .streamClosed)) s' := by
  refine h.spoken base.role base.next failed pending (fun id => ?_) (fun id absent own => ?_)
  · rw [lifeOf_closeAll id s.streams (control id), streams]
    rfl
  · have outside : id ∉ s.streams.keys := by
      rw [BTreeMap.mem_keys, absent]
      simp
    have nothing := marks_closing outside
    simpa [marks, Seen.mark, control id] using nothing

theorem life_discarded (id : UInt32) (live : Option Bool) (os : List YamuxOutput) :
    life live (marks id (os.map .discarded)) = lifeOf id live os := by
  induction os generalizing live with
  | nil => rfl
  | cons o os ih =>
    rw [lifeOf_cons, ← ih]
    cases h : o.mark id with
    | none => simp [marks, Seen.mark, h]
    | some m => cases m <;> cases live with
      | none => simp [life, marks, Seen.mark, h, Mark.next]
      | some b => cases b <;> simp [life, marks, Seen.mark, h, Mark.next]

theorem Lives.failed (h : Lives es s) (active : s.ensureActive = .ok ())
    (wrong : Spoiled s s' f ls) :
    Lives (es ++ (Yamux.spoken (outputs ls) ++ .lost s'.pending ::
      Yamux.spoken (.outbound (Frame.goAway 1).encode :: s'.streams.keys.map .streamClosed)))
      s'.failProtocol := by
  have seen : seens (es ++ (Yamux.spoken (outputs ls) ++ .lost s'.pending ::
      Yamux.spoken (.outbound (Frame.goAway 1).encode :: s'.streams.keys.map .streamClosed))) =
      seens es ++ s'.pending.map .discarded := by
    rw [seens_append, seens_append, seens_spoken, seens_lost]
    rfl
  refine ⟨fun id => ?_, fun unfailed => (by cases unfailed), ?_⟩
  · have tracked : lifeOf id (life (some false) (marks id (seens es))) s.pending =
        some (s.streams.get id).isSome := by
      rw [← h.tracked id, account, marks_append, life_append, lifeOf]
    have queue : s'.failProtocol.pending =
      .outbound (Frame.goAway 1).encode :: s'.streams.keys.map .streamClosed := rfl
    rw [account, seen, marks_append, marks_append, life_append, life_append, life_discarded,
      wrong.touched.pending, lifeOf_append, tracked,
      wrong.touched.lives wrong.about wrong.lives id]
    exact lifeOf_closeAll id s'.streams rfl
  · obtain ⟨before, queue, after, split, seenBefore, -, unfailed⟩ := h.shape
    obtain ⟨rfl, rfl⟩ := unfailed (ensureActive_ok.mp active).1
    refine ⟨before, s'.pending, [], ?_, seenBefore, nofun, fun now => (by cases now)⟩
    rw [seen, split]
    simp

theorem Lives.step {fs : List Event} {t : SessionCore} (h : Lives es s) (step : Step s fs t) :
    Lives (es ++ fs) t := by
  cases step with
  | works progress =>
    refine h.touched progress.works.toTouched (trace_about progress.nonzero progress.works.trace)
      (trace_lives progress.works.trace) (fun absent own => ?_)
    have trace := progress.works.trace
    rw [absent] at trace
    rw [(trace_absent trace).2]
    rfl
  | @handled _ f ls active nonzero valid taken =>
    refine h.touched taken.touched (taken.about nonzero) taken.lives (fun absent own => ?_)
    obtain ⟨first, rest, mid, rfl, consume, trace⟩ := taken.split
    rw [absent] at consume
    cases consume with
    | accept rst syn parity free absorb => simp [parity] at own
    | resetUnknown rst | refuse rst full =>
      rw [(trace_absent trace).2]
      rfl
  | opened active next nonzero own absent =>
    exact h.openStream (ensureActive_ok.mp active).1 next own
  | session quiet =>
    refine h.session quiet.role quiet.next quiet.failed quiet.streams quiet.pending ?_
    intro id o member
    obtain ⟨f, -, rfl⟩ := mem_map.mp member
    rfl
  | closeAll base failed streams control pending =>
    refine h.closeAll base failed streams (fun id => ?_) pending
    rcases control with ⟨code, rfl⟩ | ⟨code, rfl⟩ <;> rfl
  | @popped _ o base streams failed pending =>
    have same : account (es ++ [.popped o]) t = account es s := by
      simp [account, pending, seens, seen]
    refine ⟨fun id => ?_, fun unfailed id n own next above => ?_, h.more failed (by
      simp [seens, seen, Seen.visible])⟩
    · rw [same, streams]
      exact h.tracked id
    · rw [validRemoteStreamId_congr base.role] at own
      rw [same]
      exact h.unused (failed ▸ unfailed) id n own (base.next ▸ next) above
  | failed active wrong => exact h.failed active wrong

variable {ms : List (Mark × Bool)} {b : Bool} {b' : Bool}

theorem life_split {live : Option Bool} {xs ys : List (Mark × Bool)}
    (goes : life live (xs ++ ys) = some b) :
    ∃ c, life live xs = some c ∧ life (some c) ys = some b := by
  rw [life_append] at goes
  cases first : life live xs with
  | none => simp [first] at goes
  | some c => exact ⟨c, rfl, by rw [← first]; exact goes⟩

theorem life_cons_some {m : Mark × Bool} (goes : life (some b) (m :: ms) = some b') :
    ∃ c, Mark.next (some b) m = some c ∧ life (some c) ms = some b' :=
  @life_split b' (some b) [m] ms goes

variable {p : Phase}

theorem phase_visible (visible : ∀ m ∈ ms, m.2 = true)
    (agrees : p.Agrees b) (goes : life (some b) ms = some b') :
    (phase p ms).Agrees b' ∧ (p ≠ .live false → phase p ms ≠ .live false) := by
  induction ms generalizing b p with
  | nil =>
    cases goes
    exact ⟨agrees, id⟩
  | cons m ms ih =>
    obtain ⟨c, next, rest⟩ := life_cons_some goes
    have now : (p.next m).Agrees c ∧ (p ≠ .live false → p.next m ≠ .live false) := by
      obtain ⟨mark, seen⟩ := m
      cases (visible _ mem_cons_self : seen = true)
      cases p <;> cases mark <;> cases b <;> simp_all [Phase.Agrees, Mark.next, Phase.next]
    obtain ⟨later, known⟩ := ih (fun m' member => visible m' (by simp [member])) now.1 rest
    exact ⟨later, fun start => known (now.2 start)⟩

theorem phase_hidden (hidden : ∀ m ∈ ms, m.2 = false)
    (unknown : p ≠ .live true) (agrees : p.Agrees b) (goes : life (some b) ms = some b') :
    (phase p ms).Agrees b' := by
  induction ms generalizing b p with
  | nil =>
    cases goes
    exact agrees
  | cons m ms ih =>
    obtain ⟨c, next, rest⟩ := life_cons_some goes
    have now : (p.next m).Agrees c ∧ p.next m ≠ .live true := by
      obtain ⟨mark, seen⟩ := m
      cases (hidden _ mem_cons_self : seen = false)
      cases p with
      | idle => cases mark <;> cases b <;> simp_all [Phase.Agrees, Mark.next, Phase.next]
      | live known => cases known <;> cases mark <;> cases b <;>
          simp_all [Phase.Agrees, Mark.next, Phase.next]
      | broken => cases agrees
    exact ih (fun m' member => hidden m' (by simp [member])) now.2 now.1 rest

theorem marks_discarded_hidden (id : UInt32) (os : List YamuxOutput) :
    ∀ m ∈ marks id (os.map .discarded), m.2 = false := by
  intro m member
  obtain ⟨x, hx, found⟩ := mem_filterMap.mp member
  obtain ⟨o, -, rfl⟩ := mem_map.mp hx
  obtain ⟨mark, -, rfl⟩ := Option.map_eq_some_iff.mp found
  rfl

theorem phase_broken (ms : List (Mark × Bool)) : phase .broken ms = .broken := by
  induction ms with
  | nil => rfl
  | cons m ms ih => exact ih

theorem phase_lost (id : UInt32) (queue : List YamuxOutput)
    (known : p ≠ .live false) (agrees : p.Agrees b)
    (goes : life (some b) (marks id (queue.map .discarded)) = some b') :
    if orphans id queue then phase p (marks id (queue.map .discarded)) = .broken
    else (phase p (marks id (queue.map .discarded))).Agrees b' := by
  induction queue generalizing b p with
  | nil =>
    cases goes
    exact agrees
  | cons o queue ih =>
    cases told : o.mark id with
    | none =>
      have skip : marks id ((o :: queue).map .discarded) = marks id (queue.map .discarded) := by
        simp [marks, Seen.mark, told]
      rw [skip] at goes ⊢
      simp only [orphans, told]
      exact ih known agrees goes
    | some mark =>
      have first : marks id ((o :: queue).map .discarded) =
          (mark, false) :: marks id (queue.map .discarded) := by
        simp [marks, Seen.mark, told]
      rw [first] at goes ⊢
      obtain ⟨c, next, rest⟩ := life_cons_some goes
      have later : phase p ((mark, false) :: marks id (queue.map .discarded)) =
        phase (p.next (mark, false)) (marks id (queue.map .discarded)) := rfl
      rw [later]
      simp only [orphans, told]
      cases p with
      | broken => cases agrees
      | idle =>
        cases agrees
        cases mark with
        | began =>
          cases next
          exact phase_hidden (marks_discarded_hidden id queue) (by simp [Phase.next]) rfl rest
        | body => cases next
        | closed => cases next
      | live announced =>
        cases agrees
        cases announced with
        | false => exact absurd rfl known
        | true =>
          cases mark with
          | began => cases next
          | body =>
            cases next
            exact ih (by simp [Phase.next]) rfl rest
          | closed => exact phase_broken _

def Answer.lost : Answer → List YamuxOutput
  | .fed _ discarded => discarded
  | _ => []

def thrown (seen : List Seen) : List YamuxOutput :=
  seen.filterMap (fun x => if x.visible then none else x.output)

@[simp] theorem thrown_append (xs ys : List Seen) : thrown (xs ++ ys) = thrown xs ++ thrown ys :=
  filterMap_append

theorem thrown_visible {xs : List Seen} (visible : ∀ x ∈ xs, x.visible = true) : thrown xs = [] :=
  filterMap_eq_nil_iff.mpr (fun x member => by simp [visible x member])

theorem thrown_discarded (os : List YamuxOutput) : thrown (os.map .discarded) = os := by
  induction os with
  | nil => rfl
  | cons o os ih => exact congrArg (o :: ·) ih

theorem thrown_seen (a : Answer) : thrown a.seen = a.lost := by
  cases a with
  | opened r => cases r <;> rfl
  | done r => rfl
  | output o => cases o <;> rfl
  | fed r discarded => exact thrown_discarded discarded

theorem Step.stays_failed {t : SessionCore} (failed : s.failed = true) (step : Step s es t) :
    t.failed = true := by
  cases step with
  | works progress => exact progress.works.failed.trans failed
  | handled active nonzero valid taken => exact taken.touched.failed.trans failed
  | opened active next nonzero own absent => exact failed
  | session quiet => exact quiet.failed.trans failed
  | closeAll base same streams control pending | popped base streams same pending =>
    exact same.trans failed
  | failed active wrong => rfl

variable {s : YamuxSession}

/-- The queue that the call throws away. -/
def YamuxSession.throws (s : YamuxSession) : Call → List YamuxOutput
  | .handleData bytes => s.discarded bytes
  | .request _ => []

theorem YamuxSession.lost_eq {s' : YamuxSession} {c : Call} {a : Answer}
    (answer : s.call c = some (a, s')) : a.lost = s.throws c := by
  cases c with
  | handleData bytes =>
    simp only [call] at answer
    split at answer <;> cases answer
    rfl
  | request r =>
    cases r with
    | goAway => cases answer; rfl
    | _ =>
      obtain ⟨x, core, -, rfl, -⟩ := withCore_some answer
      rfl

theorem YamuxSession.lost_fails {s' : YamuxSession} {c : Call} {a : Answer}
    (answer : s.call c = some (a, s')) (loss : a.lost ≠ []) :
    s.core.failed = false ∧ s'.core.failed = true := by
  rw [lost_eq answer] at loss
  cases c with
  | handleData bytes =>
    simp only [throws, discarded] at loss
    split at loss
    · rename_i active runs
      simp only [call, handleData, active, runs] at answer
      cases answer
      exact ⟨(ensureActive_ok.mp active).1, rfl⟩
    · exact absurd rfl loss
  | request => exact absurd rfl loss

structure OneLoss (log : List (Call × Answer)) (s : YamuxSession) : Prop where
  good : s.Good
  all : ∀ entry ∈ log, entry.2.lost = [] ∨ entry.2.lost = thrown (history log)
  one : thrown (history log) = [] ∨
    s.core.failed = true ∧ ∃ entry ∈ log, entry.2.lost = thrown (history log)

variable {log : List (Call × Answer)}

theorem OneLoss.call (h : OneLoss log s)
    (c : Call) : ∃ a s', s.call c = some (a, s') ∧ OneLoss (log ++ [(c, a)]) s' := by
  obtain ⟨a, s', es, answer, trace, -, good, -⟩ := behaves h.good c
  have total : thrown (history (log ++ [(c, a)])) = thrown (history log) ++ a.lost := by
    simp [history, thrown_seen]
  by_cases loss : a.lost = []
  · rw [loss, append_nil] at total
    refine ⟨a, s', answer, good, fun entry member => ?_, ?_⟩
    · rw [total]
      rcases mem_append.mp member with member | member
      · exact h.all entry member
      · cases mem_singleton.mp member
        exact .inl loss
    · rw [total]
      rcases h.one with nothing | ⟨failed, entry, member, same⟩
      · exact .inl nothing
      · exact .inr ⟨trace.invariant (P := fun s => s.failed = true)
          (fun failed step => step.stays_failed failed) failed, entry,
          mem_append_left _ member, same⟩
  · obtain ⟨unfailed, failed⟩ := lost_fails answer loss
    have absent : thrown (history log) = [] := by
      rcases h.one with nothing | ⟨already, -⟩
      · exact nothing
      · rw [unfailed] at already
        cases already
    rw [absent] at total
    refine ⟨a, s', answer, good, fun entry member => ?_,
      .inr ⟨failed, (c, a), by simp, total.symm⟩⟩
    rcases mem_append.mp member with member | member
    · have old := h.all entry member
      rw [absent, or_self] at old
      exact .inl old
    · cases mem_singleton.mp member
      exact .inr total.symm

theorem OneLoss.orphans_iff (h : OneLoss log s)
    (stream : UInt32) : (∀ entry ∈ log, orphans stream entry.2.lost = false) ↔
      orphans stream (thrown (history log)) = false := by
  constructor
  · intro spared
    rcases h.one with nothing | ⟨-, entry, member, same⟩
    · rw [nothing]
      rfl
    · rw [← same]
      exact spared entry member
  · intro spared entry member
    rcases h.all entry member with nothing | same
    · rw [nothing]
      rfl
    · rw [same]
      exact spared

theorem marks_visible {xs : List Seen} (visible : ∀ x ∈ xs, x.visible = true) :
    ∀ m ∈ marks stream xs, m.2 = true := by
  intro m member
  obtain ⟨x, hx, found⟩ := mem_filterMap.mp member
  have seen := visible x hx
  cases x with
  | opened n =>
    simp only [Seen.mark] at found
    split at found
    · cases found
      rfl
    · cases found
  | delivered o =>
    obtain ⟨mark, -, rfl⟩ := Option.map_eq_some_iff.mp found
    rfl
  | discarded o => cases seen

@[simp] theorem phase_append (p : Phase) (xs ys : List (Mark × Bool)) :
    phase p (xs ++ ys) = phase (phase p xs) ys := foldl_append

theorem phase_account {before after : List Seen} {queue : List YamuxOutput}
    (seenBefore : ∀ x ∈ before, x.visible = true) (seenAfter : ∀ x ∈ after, x.visible = true)
    (goes : life (some false) (marks stream (before ++ queue.map .discarded ++ after)) = some b) :
    if orphans stream queue then
      phase .idle (marks stream (before ++ queue.map .discarded ++ after)) = .broken
    else (phase .idle (marks stream (before ++ queue.map .discarded ++ after))).Agrees b := by
  rw [marks_append, marks_append] at goes ⊢
  obtain ⟨d, front, last⟩ := life_split goes
  obtain ⟨c, first, lost⟩ := life_split front
  obtain ⟨agrees, known⟩ := phase_visible (marks_visible seenBefore)
    (show Phase.Agrees false .idle from rfl) first
  have queued := phase_lost stream queue (known (by simp)) agrees lost
  rw [phase_append, phase_append]
  split
  · rename_i ends
    rw [if_pos ends] at queued
    rw [queued, phase_broken]
  · rename_i spares
    rw [if_neg spares] at queued
    exact (phase_visible (marks_visible seenAfter) queued last).1

/-- In every run, whatever the peer sends, the owner of a stream gets exactly one
`StreamClosed` for it, and nothing after that, if and only if no failing call throws away
the `StreamClosed` of a stream it knew. -/
theorem terminal_events_iff_none_lost {role : YamuxRole} {config : YamuxConfig}
    {start : YamuxSession} (accepted : withConfig role config = .ok start)
    (calls : List Call) :
    ∃ log s, Machine.run call start calls = some (log, s) ∧
      ∀ stream, Terminated stream log s ↔
        Machine.Along call (fun s c => orphans stream (s.throws c) = false) start calls := by
  obtain ⟨valid, rfl, rfl⟩ := withConfig_ok accepted
  have start : Lives [] (fromValidatedConfig role valid).core :=
    ⟨fun id => rfl, fun _ _ _ _ _ _ => rfl, [], [], [], rfl, by simp, by simp,
      fun _ => ⟨rfl, rfl⟩⟩
  obtain ⟨log, s, es, runs, -, -, lives, seen, -⟩ :=
    run_steps start (fun h step => h.step step) calls
  obtain ⟨log', s', runs', one⟩ := @Machine.run_keeps _ _ _ call OneLoss
    (.fromValidatedConfig role valid) [] (fun c h => h.call c)
    ⟨new_good role valid, by simp, .inl rfl⟩ calls
  rw [runs] at runs'
  cases runs'
  refine ⟨log, s, runs, fun stream => ?_⟩
  obtain ⟨before, queue, after, split, seenBefore, seenAfter, -⟩ := lives.shape
  rw [seen] at split
  have lost : thrown (history log) = queue := by
    rw [split, thrown_append, thrown_append, thrown_visible seenBefore, thrown_visible seenAfter,
      thrown_discarded]
    simp
  have goes := lives.tracked stream
  rw [account, seen, split, append_assoc] at goes
  have later : ∀ x ∈ after ++ s.core.pending.map .delivered, x.visible = true := by
    intro x member
    rcases mem_append.mp member with member | member
    · exact seenAfter x member
    · obtain ⟨o, -, rfl⟩ := mem_map.mp member
      rfl
  have ends := phase_account seenBefore later goes
  rw [nil_append] at one
  rw [← Machine.along_iff (p := fun a => orphans stream a.lost = false)
    (fun answer => by rw [lost_eq answer]) runs, one.orphans_iff stream, lost, Terminated, split,
    append_assoc]
  cases orphaned : orphans stream queue with
  | true =>
    rw [orphaned] at ends
    rw [ends]
    exact ⟨fun broken => broken.elim, nofun⟩
  | false =>
    rw [orphaned] at ends
    exact ⟨fun _ => rfl, fun _ => ends⟩

def resetBytes : List UInt8 := (dataFrame 1 flagRst []).encode

def badBytes : List UInt8 := [1, 0, 0, 0, 0, 0, 0, 0, 0, 0, 0, 0]

/-- The end of stream 1 is queued when the rest of the same bytes fails the session. -/
theorem close_lost_with_failing_batch : ∃ log s, Machine.run call (.new .client)
        [.request .openStream, .request .pollOutput, .handleData (resetBytes ++ badBytes),
          .request .pollOutput, .request .pollOutput] =
          some (log, s) ∧
      Seen.opened 1 ∈ history log ∧ s.core.streams.get 1 = none ∧ s.core.pending = [] ∧
      Seen.delivered (.streamClosed 1) ∉ history log ∧ ¬ Terminated 1 log s := by
  refine ⟨_, _, rfl, ?_, rfl, rfl, ?_, ?_⟩
  · decide
  · decide
  · decide

/-- The stream is closed before the bytes that fail the session. -/
def quietClose : List Call :=
  [.request .openStream, .request .pollOutput, .handleData resetBytes, .request .pollOutput,
    .handleData badBytes]

theorem terminal_events_iff_none_lost_apart :
    withConfig .client YamuxConfig.default.toYamuxConfig = .ok (.new .client) ∧
      ∃ log s, Machine.run call (.new .client)
          quietClose =
            some (log, s) ∧ Terminated 1 log s := by
  refine ⟨rfl, ?_⟩
  obtain ⟨log, s, runs, exactly⟩ := @terminal_events_iff_none_lost .client
    YamuxConfig.default.toYamuxConfig (.new .client) rfl
    quietClose
  exact ⟨log, s, runs, (exactly 1).mpr (by decide)⟩

end Yamux
