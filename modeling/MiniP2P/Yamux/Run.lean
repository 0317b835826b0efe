import MiniP2P.Lib.Machine
import MiniP2P.Yamux.Input

/-! Whole sessions: feeding bytes, every public call, and runs of calls. -/
namespace Yamux
open Collections Incremental Transition List SessionCore YamuxSession FrameDecoder Yamux.Frame

namespace SessionCore

/-- The body of the `handle_data` loop: go on with a session, or stop with a result. -/
def handle (s : SessionCore) (f : Frame) : Option (SessionCore ⊕ Returned Unit) :=
  match s.processFrame f with
  | none => none
  | some (.error e, s') => some (.inr (.error e, s'))
  | some (.ok (), s') =>
    if s'.remoteGoAway then some (.inr (.ok (), { s' with dirty := true }))
    else some (.inl { s' with dirty := true })

def decodeFailed (s : SessionCore) (e : YamuxError) : Returned Unit := (.error e, s)

end SessionCore

namespace YamuxSession

/-- The decoder agrees with the configuration and its offset is inside its buffer. -/
structure Framed (s : YamuxSession) : Prop where
  bounds : s.decoder.InBounds
  limit : s.decoder.maxFrameLen = s.core.config.maxFrameLen

theorem handleLoop_view (fuel : Nat) (core : SessionCore) (d : FrameDecoder) (h : d.InBounds) :
    match (codec d.maxFrameLen).drive SessionCore.handle SessionCore.decodeFailed fuel core
      d.unread with
    | none => handleLoop fuel ⟨core, d⟩ = none
    | some (.waiting core' u) => ∃ d', handleLoop fuel ⟨core, d⟩ = some (.ok (), ⟨core', d'⟩) ∧
        d'.unread = u ∧ d'.InBounds ∧ d'.maxFrameLen = d.maxFrameLen
    | some (.finished (r, core')) => ∃ d', handleLoop fuel ⟨core, d⟩ = some (r, ⟨core', d'⟩) ∧
        d'.maxFrameLen = d.maxFrameLen ∧ (r = .ok () → d' = d'.clear) := by
  induction fuel generalizing core d with
  | zero => rfl
  | succ fuel ih =>
    have view := d.nextFrame_view h
    have parsed : (codec d.maxFrameLen).parse d.unread = parse d.maxFrameLen d.unread := rfl
    simp only [Parser.drive, handleLoop, parsed]
    split at view
    · rename_i e failed
      simp only [failed, view]
      exact ⟨d, rfl, rfl, fun wrong => by cases wrong⟩
    · rename_i waits
      simp only [waits, view]
      exact ⟨d, rfl, rfl, h, rfl⟩
    · rename_i f rest found
      obtain ⟨d', next, unread, bounds, limit⟩ := view
      simp only [found, next]
      have tail := fun core' => ih core' d' bounds
      rw [unread, limit] at tail
      cases answer : core.processFrame f with
      | none => simp [SessionCore.handle, answer]
      | some result =>
        obtain ⟨r, core'⟩ := result
        cases r with
        | error e =>
          simp only [SessionCore.handle, answer]
          exact ⟨d', rfl, limit, by simp⟩
        | ok _ =>
          simp only [SessionCore.handle, answer]
          by_cases gone : core'.remoteGoAway = true
          · simp only [if_pos gone]
            exact ⟨d'.clear, rfl, limit, fun _ => rfl⟩
          · simp only [if_neg gone]
            exact tail { core' with dirty := true }

/-- The rule of `handle_data`: an invariant of the session and the unread bytes that
every frame keeps holds when all complete frames are handled. -/
theorem handleFrames_rule {s : YamuxSession} (framed : s.Framed)
    {Inv : SessionCore → List UInt8 → Prop} {Post : Returned Unit → Prop}
    (step : ∀ {core u f rest}, Inv core u →
      (codec s.decoder.maxFrameLen).parse u = .ok (some (f, rest)) →
      (∃ core', core.handle f = some (.inl core') ∧ Inv core' rest) ∨
        ∃ r, core.handle f = some (.inr r) ∧ Post r)
    (failed : ∀ {core u e}, Inv core u → (codec s.decoder.maxFrameLen).parse u = .error e →
      Post (.error e, core))
    {bytes : List UInt8} (initial : Inv s.core (s.decoder.unread ++ bytes)) :
    (∃ core d, s.handleFrames bytes = some (.ok (), ⟨core, d⟩) ∧ Inv core d.unread ∧
      (codec s.decoder.maxFrameLen).parse d.unread = .ok none ∧ d.InBounds ∧
      d.maxFrameLen = s.decoder.maxFrameLen) ∨
    ∃ r core d, s.handleFrames bytes = some (r, ⟨core, d⟩) ∧ Post (r, core) ∧
      d.maxFrameLen = s.decoder.maxFrameLen ∧ (r = .ok () → d = d.clear) := by
  have bounds := inBounds_push framed.bounds bytes
  have unread := unread_push framed.bounds bytes
  have view := handleLoop_view ((s.decoder.push bytes).unread.length + 1) s.core
    (s.decoder.push bytes) bounds
  rw [maxFrameLen_push, unread] at view
  rcases drive_rule (codec s.decoder.maxFrameLen).toParser SessionCore.handle
      SessionCore.decodeFailed step failed initial (Nat.lt_succ_self _) with
    ⟨core, u, driven, inv, waits⟩ | ⟨⟨r, core⟩, driven, post⟩
  · rw [driven] at view
    obtain ⟨d, runs, rfl, bounds, limit⟩ := view
    exact .inl ⟨core, d, by rw [handleFrames, unread]; exact runs, inv, waits, bounds, limit⟩
  · rw [driven] at view
    obtain ⟨d, runs, limit, cleared⟩ := view
    exact .inr ⟨r, core, d, by rw [handleFrames, unread]; exact runs, post, limit, cleared⟩

end YamuxSession

/-- What is seen of a session over time: a stream is opened here, an output is queued,
an output is handed out, the queue is thrown away. -/
inductive Event where
  | opened (stream : UInt32)
  | said (output : YamuxOutput)
  | popped (output : YamuxOutput)
  | lost (queue : List YamuxOutput)

def spoken (os : List YamuxOutput) : List Event := os.map .said

structure SameBase (s s' : SessionCore) : Prop where
  role : s'.role = s.role
  config : s'.config = s.config
  next : s'.nextStreamId = s.nextStreamId

/-- Only session frames were queued; the streams and the state of the session stay. -/
structure Quiet (s s' : SessionCore) (fs : List Frame) : Prop extends SameBase s s' where
  streams : s'.streams = s.streams
  total : s'.totalBufferedSend = s.totalBufferedSend
  failed : s'.failed = s.failed
  localGoAway : s'.localGoAway = s.localGoAway
  remoteGoAway : s'.remoteGoAway = s.remoteGoAway
  control : ∀ f ∈ fs, f.Valid ∧ f.streamId = 0 ∧ f.frameType = .ping
  pending : s'.pending = s.pending ++ fs.map (fun f => .outbound f.encode)

inductive Step : SessionCore → List Event → SessionCore → Prop where
  | works {s s' : SessionCore} {stream : UInt32} {ls : List Label}
      (progress : Progress s s' stream ls) :
      Step s (spoken (Label.outputs ls)) s'
  | handled {s s' : SessionCore} {f : Frame} {ls : List Label}
      (active : s.ensureActive = .ok ()) (nonzero : f.streamId ≠ 0) (valid : f.Valid)
      (taken : Handled s s' f ls) :
      Step s (spoken (Label.outputs ls)) s'
  | opened {s : SessionCore} {n : UInt32} (active : s.ensureActive = .ok ())
      (next : s.nextStreamId = some n) (nonzero : n ≠ 0)
      (own : s.validRemoteStreamId n = false) (absent : s.streams.get n = none) :
      Step s [.opened n] { s with
        nextStreamId := if n.toNat + 2 ≤ u32Max then some (n + 2) else none
        streams := s.streams.insert n (.outbound s.config) }
  | session {s s' : SessionCore} {fs : List Frame} (quiet : Quiet s s' fs) :
      Step s (spoken (fs.map (fun f => .outbound f.encode))) s'
  | closeAll {s s' : SessionCore} {o : YamuxOutput} (base : SameBase s s')
      (failed : s'.failed = s.failed) (streams : s'.streams = .empty)
      (control : (∃ code, o = .goAwayReceived code) ∨
        ∃ code, o = .outbound (Frame.goAway code).encode)
      (pending : s'.pending = s.pending ++ o :: s.streams.keys.map .streamClosed) :
      Step s (spoken (o :: s.streams.keys.map .streamClosed)) s'
  | popped {s s' : SessionCore} {o : YamuxOutput} (base : SameBase s s')
      (streams : s'.streams = s.streams) (failed : s'.failed = s.failed)
      (pending : s.pending = o :: s'.pending) : Step s [.popped o] s'
  | failed {s s' : SessionCore} {f : Frame} {ls : List Label} (active : s.ensureActive = .ok ())
      (wrong : Spoiled s s' f ls) :
      Step s (spoken (Label.outputs ls) ++ .lost s'.pending ::
        spoken (.outbound (Frame.goAway 1).encode :: s'.streams.keys.map .streamClosed))
        s'.failProtocol

inductive Request where
  | openStream
  | send (stream : UInt32) (data : List UInt8)
  | closeWrite (stream : UInt32)
  | reset (stream : UInt32)
  | goAway (code : UInt32)
  | poll (now : Nat)
  | pollOutput

inductive Call where
  | request (r : Request)
  | handleData (bytes : List UInt8)

def Request.leaves : Request → Bool
  | .goAway _ => true
  | _ => false

/-- What a call returns. `fed` also keeps the queue that a failing call threw away,
which the caller never sees. -/
inductive Answer where
  | opened (result : Except YamuxError UInt32)
  | done (result : Except YamuxError Unit)
  | output (o : Option YamuxOutput)
  | fed (result : Except YamuxError Unit) (discarded : List YamuxOutput)

variable {s : YamuxSession} {core s' t : SessionCore} {stream : UInt32} {ls : List Label}
    {e : YamuxError}

namespace YamuxSession

def discarded (s : YamuxSession) (bytes : List UInt8) : List YamuxOutput :=
  match s.core.ensureActive, s.handleFrames bytes with
  | .ok (), some (.error _, s') => s'.core.pending
  | _, _ => []

def withCore (s : YamuxSession) {α : Type} (answer : α → Answer) :
    Option (α × SessionCore) → Option (Answer × YamuxSession)
  | none => none
  | some (a, core) => some (answer a, ⟨core, s.decoder⟩)

theorem withCore_eq {α : Type} {wrap : α → Answer} {r : Option (α × SessionCore)} {x : α}
    (result : r = some (x, core)) : s.withCore wrap r = some (wrap x, ⟨core, s.decoder⟩) := by
  rw [result]
  rfl

theorem withCore_some {s' : YamuxSession} {α : Type} {wrap : α → Answer}
    {r : Option (α × SessionCore)} {a : Answer} (answer : s.withCore wrap r = some (a, s')) :
    ∃ x core, r = some (x, core) ∧ a = wrap x ∧ s' = ⟨core, s.decoder⟩ := by
  cases r with
  | none => cases answer
  | some r =>
    cases answer
    exact ⟨r.1, r.2, rfl, rfl, rfl⟩

def request (s : YamuxSession) : Request → Option (Answer × YamuxSession)
  | .openStream => s.withCore .opened s.core.openStream
  | .send stream data => s.withCore .done (s.core.send stream data)
  | .closeWrite stream => s.withCore .done (s.core.closeWrite stream)
  | .reset stream => s.withCore .done (s.core.reset stream)
  | .goAway code => some (.done (.ok ()), s.goAway code)
  | .poll now => s.withCore .done (s.core.poll now)
  | .pollOutput => s.withCore .output s.core.pollOutput

def call (s : YamuxSession) : Call → Option (Answer × YamuxSession)
  | .request r => s.request r
  | .handleData bytes =>
    match s.handleData bytes with
    | none => none
    | some (r, s') => some (.fed r (s.discarded bytes), s')

end YamuxSession

inductive Seen where
  | opened (stream : UInt32)
  | delivered (output : YamuxOutput)
  | discarded (output : YamuxOutput)
  deriving DecidableEq

def Seen.output : Seen → Option YamuxOutput
  | .opened _ => none
  | .delivered o => some o
  | .discarded o => some o

def seenOutputs (seen : List Seen) : List YamuxOutput := seen.filterMap Seen.output

namespace Event

def said? : Event → Option YamuxOutput
  | .said o => some o
  | _ => none

def seen : Event → List Seen
  | .opened n => [.opened n]
  | .said _ => []
  | .popped o => [.delivered o]
  | .lost os => os.map .discarded

def saids (es : List Event) : List YamuxOutput := es.filterMap said?

def seens (es : List Event) : List Seen := es.flatMap seen

@[simp] theorem saids_append (es fs : List Event) : saids (es ++ fs) = saids es ++ saids fs :=
  filterMap_append

@[simp] theorem seens_append (es fs : List Event) : seens (es ++ fs) = seens es ++ seens fs :=
  flatMap_append

@[simp] theorem saids_spoken (os : List YamuxOutput) : saids (spoken os) = os := by
  induction os with
  | nil => rfl
  | cons o os ih => exact congrArg (o :: ·) ih

@[simp] theorem seens_spoken (os : List YamuxOutput) : seens (spoken os) = [] := by
  induction os with
  | nil => rfl
  | cons o os ih => exact ih

theorem seens_lost (queue os : List YamuxOutput) :
    seens (.lost queue :: spoken os) = queue.map .discarded := by
  have silent := seens_spoken os
  simp only [seens, flatMap_cons, seen] at silent ⊢
  rw [silent, append_nil]

theorem saids_lost (queue os : List YamuxOutput) : saids (.lost queue :: spoken os) = os :=
  saids_spoken os

end Event

open Event

def Answer.seen : Answer → List Seen
  | .opened (.ok n) => [.opened n]
  | .output (some o) => [.delivered o]
  | .fed _ discarded => discarded.map .discarded
  | _ => []

def history (log : List (Call × Answer)) : List Seen := log.flatMap (fun entry => entry.2.seen)

theorem Quiet.sound {s : SessionCore} {fs : List Frame} (quiet : Quiet s s' fs) (h : s.Sound) :
    s'.Sound :=
  h.of_same quiet.role quiet.config quiet.streams quiet.next quiet.total quiet.failed
    quiet.localGoAway quiet.remoteGoAway

theorem Quiet.ensureActive {s : SessionCore} {fs : List Frame} (quiet : Quiet s s' fs) :
    s'.ensureActive = s.ensureActive := by
  simp only [SessionCore.ensureActive, quiet.failed, quiet.localGoAway, quiet.remoteGoAway]

theorem pingFrame_valid (flags : UInt16) (nonce : UInt32)
    (legal : flags = flagSyn ∨ flags = flagAck) : (⟨.ping, flags, 0, nonce, []⟩ : Frame).Valid := by
  rcases legal with rfl | rfl
  · exact (ping_valid (ping_syn_ok nonce)).1
  · exact (ping_valid (ping_ack_ok nonce)).1

theorem SessionCore.poll_spec (s : SessionCore) (now : Nat) :
    (∃ e, s.poll now = some (.error e, s)) ∨
    ∃ s' fs, s.poll now = some (.ok (), s') ∧ Quiet s s' fs := by
  unfold poll
  cases active : s.ensureActive with
  | error e => exact .inl ⟨e, rfl⟩
  | ok _ =>
    right
    generalize hs₁ : (if (s.dirty || s.lastActivityMs.isNone) = true then
      { s with lastActivityMs := some now, dirty := false } else s) = s₁
    have stamped : Quiet s s₁ [] := by
      subst hs₁
      split <;> exact ⟨⟨rfl, rfl, rfl⟩, rfl, rfl, rfl, rfl, rfl, nofun, by simp⟩
    obtain ⟨last, hlast⟩ : ∃ last, s₁.lastActivityMs = some last := by
      subst hs₁
      split
      · exact ⟨now, rfl⟩
      · rename_i h
        cases hl : s.lastActivityMs with
        | none => simp [hl] at h
        | some last => exact ⟨last, rfl⟩
    simp only [hlast, ping_syn_ok]
    split
    · refine ⟨_, [⟨.ping, flagSyn, 0, s₁.nextPingNonce, []⟩], rfl,
        { stamped with control := ?_, pending := ?_ }⟩
      · intro f member
        cases mem_singleton.mp member
        exact ⟨pingFrame_valid _ _ (.inl rfl), rfl, rfl⟩
      · have pending := stamped.pending
        simp [queueFrame, pending]
    · exact ⟨s₁, [], rfl, stamped⟩

def accountingOverflow : YamuxError := .protocol "receive accounting overflow"

/-- Feeding bytes never meets the accounting overflow. -/
def Answer.Conserves : Answer → Prop
  | .fed r _ => r ≠ .error accountingOverflow
  | _ => True

variable {es : List Event}

namespace YamuxSession

/-- What a request that stays can do to a session, and its answer. -/
inductive Does (s : SessionCore) : Request → Answer → SessionCore → Prop
  | unopened {e : YamuxError} : Does s .openStream (.opened (.error e)) s
  | refused {r : Request} {e : YamuxError} : Does s r (.done (.error e)) s
  | opened {n : UInt32} (active : s.ensureActive = .ok ()) (next : s.nextStreamId = some n)
      (absent : s.streams.get n = none) :
      Does s .openStream (.opened (.ok n)) { s with
        nextStreamId := if n.toNat + 2 ≤ u32Max then some (n + 2) else none
        streams := s.streams.insert n (.outbound s.config) }
  | sent {t : SessionCore} {stream : UInt32} {ls : List Label} {data : List UInt8}
      (progress : Progress s t stream ls) (bytes : Label.accepted ls = data) :
      Does s (.send stream data) (.done (.ok ())) t
  | closed {t : SessionCore} {stream : UInt32} {ls : List Label}
      (progress : Progress s t stream ls) (bytes : Label.accepted ls = []) :
      Does s (.closeWrite stream) (.done (.ok ())) t
  | reset {t : SessionCore} {stream : UInt32} {ls : List Label}
      (progress : Progress s t stream ls) (bytes : Label.accepted ls = []) :
      Does s (.reset stream) (.done (.ok ())) t
  | polled {t : SessionCore} {now : Nat} {fs : List Frame} (quiet : Quiet s t fs) :
      Does s (.poll now) (.done (.ok ())) t
  | popped : Does s .pollOutput (.output s.popFront.1) s.popFront.2
  | materialized {t : SessionCore} {stream : UInt32} {ls : List Label}
      (progress : Progress s t stream ls) (bytes : Label.accepted ls = []) :
      Does s .pollOutput (.output t.popFront.1) t.popFront.2

theorem request_does (sound : s.core.Sound) (r : Request) (stays : r.leaves = false) :
    ∃ a core, s.request r = some (a, ⟨core, s.decoder⟩) ∧ Does s.core r a core := by
  cases r with
  | openStream =>
    rcases s.core.openStream_spec sound with ⟨n, active, next, absent, answer⟩ | ⟨e, failed⟩
    · exact ⟨_, _, withCore_eq answer, .opened active next absent⟩
    · exact ⟨_, _, withCore_eq failed, .unopened⟩
  | send stream data =>
    rcases s.core.send_spec sound stream data with
      ⟨core, ls, sent, progress, bytes, -⟩ | ⟨e, failed⟩
    · exact ⟨_, _, withCore_eq sent, .sent progress bytes⟩
    · exact ⟨_, _, withCore_eq failed, .refused⟩
  | closeWrite stream =>
    rcases s.core.closeWrite_spec sound stream with
      ⟨core, ls, closed, progress, bytes⟩ | ⟨e, failed⟩
    · exact ⟨_, _, withCore_eq closed, .closed progress bytes⟩
    · exact ⟨_, _, withCore_eq failed, .refused⟩
  | reset stream =>
    rcases s.core.reset_spec sound stream with
      ⟨core, ls, closed, progress, bytes, -⟩ | ⟨e, failed⟩
    · exact ⟨_, _, withCore_eq closed, .reset progress bytes⟩
    · exact ⟨_, _, withCore_eq failed, .refused⟩
  | goAway code => cases stays
  | poll now =>
    rcases s.core.poll_spec now with ⟨e, failed⟩ | ⟨core, fs, polled, quiet⟩
    · exact ⟨_, _, withCore_eq failed, .refused⟩
    · exact ⟨_, _, withCore_eq polled, .polled quiet⟩
  | pollOutput =>
    rcases s.core.pollOutput_spec sound with polled | ⟨core, stream, ls, polled, progress, bytes⟩
    · exact ⟨_, _, withCore_eq polled, .popped⟩
    · exact ⟨_, _, withCore_eq polled, .materialized progress bytes⟩

/-- Between calls: counters are sound, and no complete frame waits to be handled. -/
structure Good (s : YamuxSession) : Prop extends Framed s where
  sound : s.core.Sound
  drained : s.core.ensureActive = .ok () → parse s.decoder.maxFrameLen s.decoder.unread = .ok none

/-- What every call does: it returns, and its effect is a trace of steps. -/
def Behaves (s : YamuxSession) (c : Call) : Prop :=
  ∃ a s' es, s.call c = some (a, s') ∧ Trace Step s.core es s'.core ∧
    seens es = a.seen ∧ s'.Good ∧ a.Conserves

theorem Good.same (h : s.Good) (sound : core.Sound) (config : core.config = s.core.config)
    (active : core.ensureActive = s.core.ensureActive) : Good ⟨core, s.decoder⟩ :=
  ⟨⟨h.bounds, h.limit.trans (by rw [config])⟩, sound, by rw [active]; exact h.drained⟩

theorem Good.progress (h : s.Good) (progress : Progress s.core core stream ls) :
    Good ⟨core, s.decoder⟩ :=
  h.same progress.sound progress.works.config
    (ensureActive_congr progress.works.toTouched)

theorem goAway_behaves (h : s.Good) (code : UInt32) : s.Behaves (.request (.goAway code)) := by
  by_cases finished : (s.core.localGoAway || s.core.failed) = true
  · exact ⟨.done (.ok ()), s, [], by simp [call, request, goAway, finished], .nil _,
      rfl, h, trivial⟩
  · generalize hcore :
      ({ s.core with localGoAway := true }.queueFrame (Frame.goAway code)).closeAllStreams = core
    have left : s.goAway code = ⟨core, s.decoder.clear⟩ := by
      simp [goAway, SessionCore.goAway, finished, hcore]
    have step : Step s.core (spoken (.outbound (Frame.goAway code).encode ::
        s.core.streams.keys.map .streamClosed)) core := by
      subst hcore
      exact .closeAll ⟨rfl, rfl, rfl⟩ rfl rfl (.inr ⟨code, rfl⟩) (by
        simp [SessionCore.closeAllStreams, SessionCore.queueFrame])
    refine ⟨.done (.ok ()), _, _, by rw [call, request, left], .single step,
      seens_spoken _, ?_, trivial⟩
    subst hcore
    refine ⟨⟨inBounds_clear _, h.limit⟩, h.sound.cleared rfl rfl rfl rfl, ?_⟩
    intro active
    have gone := (ensureActive_ok.mp active).2.1
    cases gone

theorem pop_behaves (good : Good ⟨core, s.decoder⟩) (trace : Trace Step s.core es core)
    (silent : seens es = []) (answer : s.request .pollOutput =
      some (.output core.popFront.1, ⟨core.popFront.2, s.decoder⟩)) :
    s.Behaves (.request .pollOutput) := by
  cases queue : core.pending with
  | nil =>
    have empty : core.popFront = (none, core) := by simp [SessionCore.popFront, queue]
    rw [empty] at answer
    exact ⟨_, _, es, answer, trace, silent, good, trivial⟩
  | cons o rest =>
    have front : core.popFront = (some o, { core with pending := rest }) := by
      simp [SessionCore.popFront, queue]
    have step : Step core [.popped o] { core with pending := rest } :=
      .popped ⟨rfl, rfl, rfl⟩ rfl rfl queue
    rw [front] at answer
    refine ⟨_, _, es ++ [.popped o], answer, trace.append (.single step), ?_,
      good.same (good.sound.of_same rfl rfl rfl rfl rfl rfl rfl rfl) rfl rfl, trivial⟩
    rw [seens_append, silent]
    rfl

theorem request_behaves (h : s.Good) (r : Request) (stays : r.leaves = false) :
    s.Behaves (.request r) := by
  obtain ⟨a, core, answer, does⟩ := request_does h.sound r stays
  cases does with
  | unopened | refused => exact ⟨_, s, [], answer, .nil _, rfl, h, trivial⟩
  | opened active next absent =>
    exact ⟨_, _, [.opened _], answer,
      .single (.opened active next (h.sound.next _ next).1 (h.sound.next _ next).2 absent), rfl,
      h.same (h.sound.openStream active next absent) rfl rfl, trivial⟩
  | sent progress | closed progress | reset progress =>
    exact ⟨_, _, _, answer, .single (.works progress), seens_spoken _, h.progress progress, trivial⟩
  | polled quiet =>
    exact ⟨_, _, _, answer, .single (.session quiet), seens_spoken _,
      h.same (quiet.sound h.sound) quiet.config quiet.ensureActive, trivial⟩
  | popped => exact pop_behaves h (.nil _) rfl answer
  | materialized progress =>
    exact pop_behaves (h.progress progress) (.single (.works progress)) (seens_spoken _) answer

end YamuxSession

theorem parse_conserves {m : UInt32} {u : List UInt8} (failed : parse m u = .error e) :
    e ≠ accountingOverflow := by
  unfold parse at failed
  split at failed
  · split at failed
    · cases failed; nofun
    · split at failed
      · rename_i decoded
        cases failed
        unfold FrameType.decode at decoded
        repeat (split at decoded; · cases decoded)
        cases decoded
        nofun
      · dsimp only at failed
        split at failed
        · cases failed; nofun
        · split at failed
          · cases failed
          · split at failed
            · rename_i checked
              cases failed
              unfold validate at checked
              split at checked
              · cases checked; nofun
              · split at checked
                · cases checked; nofun
                · cases checked
            · cases failed
  · cases failed

variable {f : Frame}

theorem Refused.conserves {st : StreamState} (refused : Refused f st e) :
    e ≠ accountingOverflow := by
  cases refused <;> simp [accountingOverflow]

theorem Rejects.conserves {s : SessionCore} (rejects : Rejects s f e) : e ≠ accountingOverflow := by
  cases rejects with
  | parity | duplicate => simp [accountingOverflow]
  | opening rst syn absent refused | known rst syn tracked refused => exact refused.conserves

theorem quiet_dirty (s : SessionCore) : Quiet s { s with dirty := true } [] :=
  ⟨⟨rfl, rfl, rfl⟩, rfl, rfl, rfl, rfl, rfl, by simp, by simp⟩

theorem trace_dirty {s : SessionCore} (trace : Trace Step s es s') :
    Trace Step s es { s' with dirty := true } := by
  have noted := trace.append (.single (.session (quiet_dirty s')))
  rwa [map_nil, spoken, map_nil, append_nil] at noted

theorem quiet_ping (s : SessionCore) (f : Frame) :
    ∃ fs, Quiet s { s.queueFrames (if f.flags = flagSyn then [⟨.ping, flagAck, 0, f.value, []⟩]
      else []) with dirty := true } fs := by
  refine ⟨_, ⟨?_, ?_, ?_⟩, ?_, ?_, ?_, ?_, ?_, fun g member => ?_,
    by rw [queueFrames_eq]⟩ <;> try rw [queueFrames_eq]
  split at member
  · cases mem_singleton.mp member
    exact ⟨pingFrame_valid _ _ (.inr rfl), rfl, rfl⟩
  · cases member

theorem SessionCore.handle_shape {s : SessionCore} (h : s.Sound)
    (active : s.ensureActive = .ok ()) (valid : f.Valid) :
    (f.streamId ≠ 0 ∧ ∃ s' ls, s.handle f = some (.inl { s' with dirty := true }) ∧
      Handled s s' f ls) ∨
    (f.streamId ≠ 0 ∧ ∃ e s' ls, s.handle f = some (.inr (.error e, s')) ∧ Rejects s f e ∧
      Spoiled s s' f ls) ∨
    (f.frameType = .ping ∧ ∃ s' fs, s.handle f = some (.inl s') ∧ Quiet s s' fs) ∨
    (f.frameType = .goAway ∧
      s.handle f = some (.inr (.ok (), { s.onGoAway f.value with dirty := true }))) := by
  obtain ⟨-, -, there⟩ := ensureActive_ok.mp active
  unfold handle
  rcases processFrame_cases h valid with ⟨nonzero, -, verdict⟩ | ⟨kind, answer⟩ | ⟨kind, answer⟩
  · rcases verdict with ⟨s', ls, answer, handled⟩ | ⟨e, s', ls, answer, rejects, spoiled⟩
    · refine .inl ⟨nonzero, s', ls, ?_, handled⟩
      rw [answer]
      exact if_neg (by simp [handled.touched.remoteGoAway, there])
    · exact .inr (.inl ⟨nonzero, e, s', ls, by rw [answer], rejects, spoiled⟩)
  · obtain ⟨fs, quiet⟩ := quiet_ping s f
    refine .inr (.inr (.inl ⟨kind, _, fs, ?_, quiet⟩))
    rw [answer]
    exact if_neg (by simp [queueFrames_eq, there])
  · refine .inr (.inr (.inr ⟨kind, ?_⟩))
    rw [answer]
    exact if_pos rfl

theorem onGoAway_pending (s : SessionCore) (code : UInt32) : (s.onGoAway code).pending =
      s.pending ++ .goAwayReceived code :: s.streams.keys.map .streamClosed := by
  simp [SessionCore.onGoAway, SessionCore.closeAllStreams, SessionCore.emit]

theorem SessionCore.handle_cases {s : SessionCore} (h : s.Sound)
    (active : s.ensureActive = .ok ()) (valid : f.Valid) :
    (∃ s' es, s.handle f = some (.inl s') ∧ s'.Sound ∧ s'.ensureActive = .ok () ∧
      SameBase s s' ∧ Trace Step s es s' ∧ seens es = []) ∨
    (∃ s' es, s.handle f = some (.inr (.ok (), s')) ∧ s'.Sound ∧ s'.remoteGoAway = true ∧
      SameBase s s' ∧ Trace Step s es s' ∧ seens es = []) ∨
    ∃ e s' ls, s.handle f = some (.inr (.error e, s')) ∧ e ≠ accountingOverflow ∧
      Spoiled s s' f ls := by
  rcases handle_shape h active valid with ⟨nonzero, s', ls, answer, handled⟩ |
    ⟨-, e, s', ls, answer, rejects, spoiled⟩ | ⟨-, s', fs, answer, quiet⟩ | ⟨-, answer⟩
  · have sound := handled.sound h active nonzero
    refine .inl ⟨_, _, answer, sound.of_same rfl rfl rfl rfl rfl rfl rfl rfl, ?_, ?_,
      trace_dirty (.single (.handled active nonzero valid handled)), seens_spoken _⟩
    · exact (ensureActive_congr handled.touched).trans active
    · exact ⟨handled.touched.role, handled.touched.config, handled.touched.next⟩
  · exact .inr (.inr ⟨e, s', ls, answer, rejects.conserves, spoiled⟩)
  · exact .inl ⟨s', _, answer, quiet.sound h, quiet.ensureActive.trans active, quiet.toSameBase,
      .single (.session quiet), seens_spoken _⟩
  · have step : Step s (spoken (.goAwayReceived f.value :: s.streams.keys.map .streamClosed))
        (s.onGoAway f.value) :=
      .closeAll ⟨rfl, rfl, rfl⟩ rfl rfl (.inl ⟨f.value, rfl⟩) (onGoAway_pending s f.value)
    exact .inr (.inl ⟨_, _, answer, h.cleared rfl rfl rfl rfl, rfl, ⟨rfl, rfl, rfl⟩,
      trace_dirty (.single step), seens_spoken _⟩)

/-- Steps that show nothing to the caller lead from one session to the other. -/
structure Reaches (s t : SessionCore) : Prop where
  base : SameBase s t
  steps : ∃ es, Trace Step s es t ∧ seens es = []

theorem Reaches.trans {s u : SessionCore} (first : Reaches s t) (second : Reaches t u) :
    Reaches s u := by
  obtain ⟨es, trace, silent⟩ := first.steps
  obtain ⟨fs, trace', silent'⟩ := second.steps
  exact ⟨⟨second.base.role.trans first.base.role, second.base.config.trans first.base.config,
    second.base.next.trans first.base.next⟩, es ++ fs,
    trace.append trace', by simp [silent, silent']⟩

theorem SessionCore.ensureActive_error {s : SessionCore} (inactive : s.ensureActive = .error e) :
    e = .failed ∨ e = .sessionClosed := by
  unfold ensureActive at inactive
  split at inactive
  · cases inactive; exact .inl rfl
  · split at inactive
    · cases inactive; exact .inr rfl
    · cases inactive

namespace YamuxSession

/-- The loop of `handle_data` from a good session: it reaches a session that waits for
bytes or has gone away, or one whose next frame is in error. -/
theorem handleFrames_reaches (h : s.Good) (active : s.core.ensureActive = .ok ())
    (bytes : List UInt8) :
    (∃ s', s.handleFrames bytes = some (.ok (), s') ∧ Reaches s.core s'.core ∧ s'.Good) ∨
    ∃ e s' core f ls, s.handleFrames bytes = some (.error e, s') ∧ Reaches s.core core ∧
      core.ensureActive = .ok () ∧ Spoiled core s'.core f ls ∧
        s'.decoder.maxFrameLen = s.decoder.maxFrameLen ∧
      e ≠ accountingOverflow := by
  have start : s.core.Sound ∧ s.core.ensureActive = .ok () ∧ Reaches s.core s.core :=
    ⟨h.sound, active, ⟨rfl, rfl, rfl⟩, [], .nil _, rfl⟩
  rcases @handleFrames_rule s h.toFramed
      (fun core _ => core.Sound ∧ core.ensureActive = .ok () ∧ Reaches s.core core)
      (fun r => (r.1 = .ok () ∧ Reaches s.core r.2 ∧ r.2.Sound ∧ r.2.remoteGoAway = true) ∨
        ∃ e core' g ls, r.1 = .error e ∧ e ≠ accountingOverflow ∧ Reaches s.core core' ∧
          core'.ensureActive = .ok () ∧ Spoiled core' r.2 g ls)
      (fun {core _ f _} inv found => by
        obtain ⟨sound, alive, reached⟩ := inv
        have valid : f.Valid := (parse_item found).1
        rcases core.handle_cases sound alive valid with
          ⟨core', es, answer, sound', alive', base, trace, silent⟩ |
          ⟨core', es, answer, sound', gone, base, trace, silent⟩ |
          ⟨e, core', ls, answer, conserves, spoiled⟩
        · exact .inl ⟨core', answer, sound', alive', reached.trans ⟨base, es, trace, silent⟩⟩
        · exact .inr ⟨_, answer, .inl ⟨rfl, reached.trans ⟨base, es, trace, silent⟩, sound', gone⟩⟩
        · exact .inr ⟨_, answer, .inr ⟨e, core, f, ls, rfl, conserves, reached, alive, spoiled⟩⟩)
      (fun {core _ e} inv failed => .inr ⟨e, core, Frame.goAway 0, [], rfl,
        parse_conserves failed, inv.2.2, inv.2.1, .same _⟩) bytes start with
    ⟨core, d, runs, ⟨sound, alive, reached⟩, waits, bounds, limit⟩ |
    ⟨r, core, d, runs, post, limit, cleared⟩
  · refine .inl ⟨_, runs, reached, ⟨bounds, ?_⟩, sound, fun _ => ?_⟩
    · exact limit.trans (h.limit.trans (by rw [reached.base.config]))
    · rw [limit]
      exact waits
  · rcases post with ⟨rfl, reached, sound, left⟩ | ⟨e, core', g, ls, rfl, conserves,
        reached, alive, wrong⟩
    · refine .inl ⟨_, runs, reached, ⟨?_, ?_⟩, sound, fun alive => ?_⟩
      · rw [cleared rfl]
        exact inBounds_clear d
      · exact limit.trans (h.limit.trans (by rw [reached.base.config]))
      · have stays := (ensureActive_ok.mp alive).2.2
        rw [left] at stays
        cases stays
    · exact .inr ⟨e, _, core', g, ls, runs, reached, alive, wrong, limit, conserves⟩

theorem handleData_behaves (h : s.Good) (bytes : List UInt8) : s.Behaves (.handleData bytes) := by
  unfold Behaves call handleData discarded
  cases active : s.core.ensureActive with
  | error e =>
    refine ⟨_, s, [], rfl, .nil _, rfl, h, ?_⟩
    rcases ensureActive_error active with rfl | rfl <;>
      simp [Answer.Conserves, accountingOverflow]
  | ok _ =>
    rcases handleFrames_reaches h active bytes with
      ⟨s', runs, reached, good⟩ |
      ⟨e, s', core, f, ls, runs, reached, alive, wrong, limit, conserves⟩
    · obtain ⟨es, trace, silent⟩ := reached.steps
      simp only [runs]
      exact ⟨_, s', es, rfl, trace, silent, good, nofun⟩
    · obtain ⟨es, trace, silent⟩ := reached.steps
      simp only [runs, failProtocol]
      refine ⟨_, _, _, rfl, trace.append (.single (.failed alive wrong)), ?_,
        ⟨⟨?_, ?_⟩, ?_, ?_⟩, ?_⟩
      · rw [seens_append, silent, seens_append, seens_spoken, seens_lost]
        rfl
      · exact inBounds_clear _
      · exact limit.trans (h.limit.trans (by
          rw [← reached.base.config, ← wrong.touched.config]; rfl))
      · exact h.sound.cleared (wrong.touched.role.trans reached.base.role) rfl
          (wrong.touched.next.trans reached.base.next) rfl
      · intro open'
        have failed := (ensureActive_ok.mp open').1
        cases failed
      · exact fun same => conserves (Except.error.inj same)

theorem behaves (h : s.Good) (c : Call) : s.Behaves c := by
  cases c with
  | handleData bytes => exact handleData_behaves h bytes
  | request r =>
    cases r with
    | goAway code => exact goAway_behaves h code
    | _ => exact request_behaves h _ rfl

theorem new_good (role : YamuxRole) (config : ValidConfig) :
    (fromValidatedConfig role config).Good := by
  have empty : ∀ stream, (fromValidatedConfig role config).core.streams.get stream = none :=
    fun _ => rfl
  have sound : (fromValidatedConfig role config).core.Sound := by
    refine ⟨?_, rfl, Nat.zero_le _, ?_, ?_, fun _ => rfl⟩
    · intro stream st tracked
      cases tracked
    · intro n hn
      cases role with
      | client | server => cases hn; exact ⟨by decide, rfl⟩
    · intro n hn stream st tracked
      cases tracked
  exact ⟨⟨inBounds_new _, rfl⟩, sound, fun _ => rfl⟩

/-- A session accepted by `with_config` starts from a valid configuration. -/
theorem withConfig_ok {role : YamuxRole} {config : YamuxConfig}
    (accepted : withConfig role config = .ok s) :
    ∃ valid : ValidConfig, valid.toYamuxConfig = config ∧ s = fromValidatedConfig role valid := by
  unfold withConfig at accepted
  split at accepted
  · cases accepted
  · split at accepted
    · cases accepted
    · cases accepted
      exact ⟨_, rfl, rfl⟩

end YamuxSession

theorem seenOutputs_discarded (os : List YamuxOutput) : seenOutputs (os.map .discarded) = os := by
  induction os with
  | nil => rfl
  | cons o os ih => exact congrArg (o :: ·) ih

@[simp] theorem seenOutputs_append (xs ys : List Seen) :
    seenOutputs (xs ++ ys) = seenOutputs xs ++ seenOutputs ys := filterMap_append

theorem Step.fifo {s : SessionCore} (step : Step s es t) :
    seenOutputs (seens es) ++ t.pending = s.pending ++ saids es := by
  cases step with
  | works progress => simp [progress.works.pending, seenOutputs]
  | handled active nonzero valid taken => simp [taken.touched.pending, seenOutputs]
  | opened active next nonzero own absent => exact (append_nil s.pending).symm
  | session quiet => simp [quiet.pending, seenOutputs]
  | closeAll base failed streams control pending => simp [pending, seenOutputs]
  | popped base streams failed pending =>
    rw [pending]
    exact (append_nil _).symm
  | failed active wrong =>
    rw [seens_append, seens_spoken, seens_lost, saids_append,
      saids_spoken, saids_lost, nil_append, seenOutputs_discarded,
      ← append_assoc, ← wrong.touched.pending]
    rfl

theorem trace_fifo {s : SessionCore} (trace : Trace Step s es t) :
    seenOutputs (seens es) ++ t.pending = s.pending ++ saids es := by
  induction trace with
  | nil => simp [seens, saids, seenOutputs]
  | cons step _ ih =>
    rw [seens_append, seenOutputs_append, saids_append, append_assoc, ih,
      ← append_assoc, step.fifo, append_assoc]

theorem Step.fixed {s : SessionCore} (step : Step s es t) :
    t.role = s.role ∧ t.config = s.config := by
  cases step with
  | works progress => exact ⟨progress.works.role, progress.works.config⟩
  | handled active nonzero valid taken => exact ⟨taken.touched.role, taken.touched.config⟩
  | opened active next nonzero own absent => exact ⟨rfl, rfl⟩
  | session quiet => exact ⟨quiet.role, quiet.config⟩
  | closeAll base failed streams control pending | popped base streams failed pending =>
    exact ⟨base.role, base.config⟩
  | failed active wrong => exact ⟨wrong.touched.role, wrong.touched.config⟩

/-- A session reached by a transcript, with the steps that led to it. -/
structure Reached (start : SessionCore) (log : List (Call × Answer)) (s : YamuxSession) : Prop where
  good : s.Good
  conserves : ∀ entry ∈ log, entry.2.Conserves
  steps : ∃ es, Trace Step start es s.core ∧ seens es = history log

theorem Reached.call {start : SessionCore} {log : List (Call × Answer)}
    (reached : Reached start log s) (c : Call) :
    ∃ a s', s.call c = some (a, s') ∧ Reached start (log ++ [(c, a)]) s' := by
  obtain ⟨es, trace, seen⟩ := reached.steps
  obtain ⟨a, s', fs, answer, steps, seen', good, conserves⟩ :=
    behaves reached.good c
  refine ⟨a, s', answer, good, ?_, es ++ fs, trace.append steps, ?_⟩
  · exact forall_mem_append.mpr ⟨reached.conserves, forall_mem_singleton.mpr conserves⟩
  · rw [seens_append, seen, seen']
    simp [history]

theorem run_returns (role : YamuxRole) (config : ValidConfig) (calls : List Call) :
    ∃ log s, Machine.run call (.fromValidatedConfig role config) calls =
        some (log, s) ∧
      Reached (fromValidatedConfig role config).core log s := by
  have start : Reached (fromValidatedConfig role config).core []
      (.fromValidatedConfig role config) :=
    ⟨new_good role config, by simp, [], .nil _, rfl⟩
  exact Machine.run_keeps (P := Reached (fromValidatedConfig role config).core)
    (fun c reached => reached.call c) start calls

theorem run_steps {role : YamuxRole} {config : ValidConfig} {P : List Event → SessionCore → Prop}
    (start : P [] (fromValidatedConfig role config).core)
    (kept : ∀ {past s es t}, P past s → Step s es t → P (past ++ es) t) (calls : List Call) :
    ∃ log s es, Machine.run call (.fromValidatedConfig role config) calls =
        some (log, s) ∧ s.Good ∧ s.core.config = config ∧ P es s.core ∧
      seens es = history log ∧
      saids es = seenOutputs (history log) ++ s.core.pending ∧
      ∀ entry ∈ log, entry.2.Conserves := by
  obtain ⟨log, s, runs, reached⟩ := run_returns role config calls
  obtain ⟨es, trace, seen⟩ := reached.steps
  have same : s.core.config = config :=
    trace.invariant (P := fun s => s.config = config) (fun h step => step.fixed.2.trans h) rfl
  have holds : P es s.core := trace.keeps (P := P) (fun h step => kept h step) start
  have fifo := trace_fifo trace
  rw [seen] at fifo
  exact ⟨log, s, es, runs, reached.good, same, holds, seen, fifo.symm, reached.conserves⟩

/-! ### Frames -/

/-- Bytes for the wire are those of one valid frame. -/
def YamuxOutput.Valid : YamuxOutput → Prop
  | .outbound bytes => ∃ f : Frame, f.Valid ∧ bytes = f.encode
  | _ => True

theorem About.valid {o : YamuxOutput} (about : About stream o) : o.Valid := by
  cases about with
  | frame valid => exact ⟨_, valid, rfl⟩
  | _ => trivial

theorem Step.valid (step : Step core es t) : ∀ o ∈ saids es, o.Valid := by
  have closing (keys : List UInt32) : ∀ o ∈ keys.map YamuxOutput.streamClosed, o.Valid := by
    simp [YamuxOutput.Valid]
  cases step with
  | works progress =>
    rw [saids_spoken]
    exact fun o sent => (trace_about progress.nonzero progress.works.trace o sent).valid
  | handled active nonzero valid taken =>
    rw [saids_spoken]
    exact fun o sent => (taken.about nonzero o sent).valid
  | session quiet =>
    rw [saids_spoken, forall_mem_map]
    exact fun f member => ⟨f, (quiet.control f member).1, rfl⟩
  | closeAll base failed streams control =>
    rw [saids_spoken, forall_mem_cons]
    refine ⟨?_, closing _⟩
    rcases control with ⟨code, rfl⟩ | ⟨code, rfl⟩
    · trivial
    · exact ⟨_, Frame.goAway_valid code, rfl⟩
  | failed active wrong =>
    rw [saids_append, saids_spoken, saids_lost, forall_mem_append, forall_mem_cons]
    refine ⟨?_, ⟨_, Frame.goAway_valid 1, rfl⟩, closing _⟩
    rcases wrong.shape with ⟨rfl, -⟩ | ⟨rfl, -⟩ <;> simp [Label.outputs, Label.output,
        YamuxOutput.Valid]
  | opened | popped =>
    intro o sent
    cases sent

/-- Whatever a session is fed, all it puts on the wire are valid frames. -/
theorem sends_valid_frames (role : YamuxRole) (config : ValidConfig) (calls : List Call) :
    ∃ log s, Machine.run call (.fromValidatedConfig role config) calls = some (log, s) ∧
      ∀ o ∈ seenOutputs (history log) ++ s.core.pending, o.Valid := by
  obtain ⟨log, s, es, runs, -, -, valid, -, said, -⟩ := @run_steps role config
    (fun es _ => ∀ o ∈ saids es, o.Valid) (by simp [saids])
    (fun before step => by
      rw [saids_append]
      exact forall_mem_append.mpr ⟨before, step.valid⟩) calls
  exact ⟨log, s, runs, said ▸ valid⟩

end Yamux
