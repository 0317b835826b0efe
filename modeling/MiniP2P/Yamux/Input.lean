import MiniP2P.Yamux.Effect

/-! What a decoded frame does to a session: it is consumed by the stream it names and
followed by acts on that stream, or it is rejected for one of the listed reasons. -/
namespace Yamux
open Collections Transition StreamState BTreeMap Label

def Late (f : Frame) : Prop := f.frameType = .windowUpdate ∧ hasFlag f.flags flagFin = true

inductive Refused (f : Frame) : StreamState → YamuxError → Prop where
  | overflow {st : StreamState} (kind : f.frameType = .windowUpdate)
      (exceeds : u32Max < st.sendWindow + f.value.toNat) :
      Refused f st (.windowOverflow f.streamId)
  | afterFin {st : StreamState} (kind : f.frameType = .data)
      (closed : st.remoteWriteClosed = true) (payload : f.payload ≠ []) :
      Refused f st (.protocol "data after FIN")
  | exceeded {st : StreamState} (kind : f.frameType = .data)
      (exceeds : st.receiveWindow < f.value.toNat) :
      Refused f st (.receiveWindowExceeded f.streamId)

inductive Rejects (s : SessionCore) (f : Frame) : YamuxError → Prop where
  | parity (rst : hasFlag f.flags flagRst = false) (syn : hasFlag f.flags flagSyn = true)
      (own : s.validRemoteStreamId f.streamId = false) :
      Rejects s f (.protocol "remote used a local-parity stream id")
  | duplicate {st : StreamState} (rst : hasFlag f.flags flagRst = false)
      (syn : hasFlag f.flags flagSyn = true) (tracked : s.streams.get f.streamId = some st) :
      Rejects s f (.protocol "duplicate SYN for an existing stream")
  | opening {e : YamuxError} (rst : hasFlag f.flags flagRst = false)
      (syn : hasFlag f.flags flagSyn = true) (absent : s.streams.get f.streamId = none)
      (refused : Refused f (.inbound s.config defaultReceiveWindow) e) : Rejects s f e
  | known {st : StreamState} {e : YamuxError} (rst : hasFlag f.flags flagRst = false)
      (syn : hasFlag f.flags flagSyn = false) (tracked : s.streams.get f.streamId = some st)
      (refused : Refused f st e) : Rejects s f e

structure Handled (s s' : SessionCore) (f : Frame) (ls : List Label) : Prop where
  touched : Touched s s' f.streamId ls
  split : ∃ first rest mid, ls = first ++ rest ∧
    Consume s.config (s.validRemoteStreamId f.streamId = true)
      (s.streams.len < s.config.maxStreams) f (s.streams.get f.streamId) first mid ∧
    Trace (Act s.config f.streamId (Late f)) mid rest (s'.streams.get f.streamId)
  accepted : accepted ls = []
  settled : ∀ st, s'.streams.get f.streamId = some st → st.Settled

variable {s : SessionCore} {f : Frame}

theorem Handled.about {s' : SessionCore} {ls : List Label} (handled : Handled s s' f ls)
    (nonzero : f.streamId ≠ 0) : ∀ o ∈ Label.outputs ls, About f.streamId o := by
  obtain ⟨first, rest, mid, rfl, consume, trace⟩ := handled.split
  intro o member
  rw [outputs_append, List.mem_append] at member
  rcases member with member | member
  · exact consume.about nonzero o member
  · exact trace_about nonzero trace o member

/-- A rejected frame may have announced its stream before it was found at fault. -/
structure Spoiled (s s' : SessionCore) (f : Frame) (ls : List Label) : Prop where
  touched : Touched s s' f.streamId ls
  shape : (ls = [] ∧ (s'.streams.get f.streamId).isSome = (s.streams.get f.streamId).isSome) ∨
    (ls = [.event (.incomingStream f.streamId)] ∧ s.streams.get f.streamId = none ∧
      (s'.streams.get f.streamId).isSome = true)

theorem Spoiled.same (f : Frame) : Spoiled s s f [] :=
  ⟨.refl s f.streamId, .inl ⟨rfl, rfl⟩⟩

theorem Handled.sound {s' : SessionCore} {ls : List Label} (handled : Handled s s' f ls)
    (before : s.Sound) (active : s.ensureActive = .ok ()) (nonzero : f.streamId ≠ 0) :
    s'.Sound := by
  obtain ⟨first, rest, mid, rfl, consume, trace⟩ := handled.split
  have sound₀ : SoundStream s.config (s.streams.get f.streamId) :=
    fun st tracked => (before.streams _ st tracked).1
  have sound := trace.invariant (fun h act => act.sound h) (consume.sound sound₀)
  refine handled.touched.sound before active (fun st tracked => ?_) ?_
  · refine ⟨sound st tracked, handled.settled st tracked, nonzero, fun absent => ?_⟩
    rw [absent] at consume
    cases consume with
    | accept rst syn parity free absorb => exact parity
    | resetUnknown rst | refuse rst full =>
      rw [tracked] at trace
      cases (trace_absent trace).1
  · have total := handled.touched.total
    have cap := before.cap
    have kept := consume.buffered_le
    have less := trace_buffered_le trace
    have quiet := handled.accepted
    rw [accepted_append, List.append_eq_nil_iff] at quiet
    rw [quiet.2, List.length_nil] at less
    omega

theorem StreamState.Sound.noteAck {config : ValidConfig} {st : StreamState}
    (sound : st.Sound config) (flags : UInt16) : (st.noteAck flags).Sound config :=
  { sound with }

namespace SessionCore

theorem noteFin_eq (st : StreamState) (flags : UInt16) :
    (if hasFlag flags flagFin && !st.remoteWriteClosed then
      { st with remoteWriteClosed := true } else st) = st.noteFin flags := by
  cases st with
  | mk lo po ack sw rw du pc sb bs cp lwc rwc =>
    cases rwc <;> cases h : hasFlag flags flagFin <;> simp [noteFin, h]

theorem outputs_events (os : List YamuxOutput) : Label.outputs (os.map .event) = os := by
  induction os with
  | nil => rfl
  | cons o os ih => exact congrArg (o :: ·) ih

theorem touched_setStream {stream : UInt32} {old : StreamState}
    (tracked : s.streams.get stream = some old) {new : StreamState}
    (same : new.bufferedSend = old.bufferedSend) :
    Touched s (s.setStream stream new) stream [] := by
  refine ⟨rfl, rfl, rfl, rfl, rfl, rfl, ?_, by simp [setStream, store, Label.outputs], ?_⟩
  · intro j hj
    simp [setStream, store, get_insert, hj]
  · simp [setStream, store, bufferedOf, tracked, same]

theorem finish_spec {s : SessionCore} {stream : UInt32} {late : Prop} {old state : StreamState}
    (flags : UInt16) (outputs : List YamuxOutput) (tracked : s.streams.get stream = some old)
    (same : state.bufferedSend = old.bufferedSend)
    (counted : old.bufferedSend ≤ s.totalBufferedSend) :
    ∃ s₁ s' ls, s.finish stream flags state outputs = some (.ok (), s') ∧
      Touched s s₁ stream (outputs.map .event ++ finLabels stream flags state) ∧
      s₁.streams.get stream = some (state.noteFin flags) ∧ Works s₁ s' stream late ls ∧
      accepted ls = [] ∧ frames ls = [] ∧
      (s'.streams.get stream = some (state.noteFin flags) ∨ s'.streams.get stream = none) := by
  unfold finish
  simp only [noteFin_eq]
  generalize hs₁ : ({ s.setStream stream (state.noteFin flags) with
    pending := (s.setStream stream (state.noteFin flags)).pending ++ outputs ++
      if (hasFlag flags flagFin && !state.remoteWriteClosed) = true then
        [YamuxOutput.remoteWriteClosed stream] else [] } : SessionCore) = s₁
  have touched : Touched s s₁ stream (outputs.map .event ++ finLabels stream flags state) := by
    have set := touched_setStream tracked (show (state.noteFin flags).bufferedSend = _ from same)
    subst hs₁
    refine ⟨rfl, rfl, rfl, rfl, rfl, rfl, set.others, ?_, set.total⟩
    rw [outputs_append, outputs_events]
    simp only [setStream, store, finLabels, List.append_assoc]
    split <;> simp [Label.outputs, Label.output]
  have now : s₁.streams.get stream = some (state.noteFin flags) := by
    subst hs₁
    exact get_store s stream _ s.totalBufferedSend
  have counted₁ : (state.noteFin flags).bufferedSend ≤ s₁.totalBufferedSend := by
    subst hs₁
    exact same ▸ counted
  obtain ⟨s', ls, removed, works, none_accepted, no_frames, after⟩ :=
    @removeClosed_spec s₁ stream late _ now counted₁
      ((state.noteFin flags).remoteWriteClosed && (state.noteFin flags).localWriteClosed)
      (fun h => (Bool.and_eq_true_iff.mp h).2) (fun h => (Bool.and_eq_true_iff.mp h).1)
  refine ⟨s₁, s', ls, ?_, touched, now, works, none_accepted, no_frames, after⟩
  simp [removed]

theorem onStreamData_spec {st : StreamState} (kind : f.frameType = .data)
    (tracked : s.streams.get f.streamId = some st) (sound : st.Sound s.config)
    (settled : st.Settled) (counted : st.bufferedSend ≤ s.totalBufferedSend) :
    (∃ s' first rest st', s.onStreamData f = some (.ok (), s') ∧
      Touched s s' f.streamId (first ++ rest) ∧ Absorb s.config f st first st' ∧
      Trace (Act s.config f.streamId (Late f)) (some st') rest (s'.streams.get f.streamId) ∧
      accepted (first ++ rest) = [] ∧
      ∀ st'', s'.streams.get f.streamId = some st'' → st''.Settled) ∨
    ∃ e s', s.onStreamData f = some (.error e, s') ∧ Refused f st e ∧
      Touched s s' f.streamId [] ∧ (s'.streams.get f.streamId).isSome = true := by
  unfold onStreamData
  simp only [tracked]
  have failing : ∀ st', st'.bufferedSend = st.bufferedSend →
      Touched s (s.setStream f.streamId st') f.streamId [] ∧
        ((s.setStream f.streamId st').streams.get f.streamId).isSome = true := by
    intro st' same
    refine ⟨touched_setStream tracked same, ?_⟩
    rw [setStream, get_store]
    rfl
  split
  · rename_i late
    simp only [Bool.and_eq_true, Bool.not_eq_true', List.isEmpty_eq_false_iff] at late
    exact .inr ⟨_, _, rfl, .afterFin kind late.1 late.2, failing _ rfl⟩
  · by_cases fits : f.value.toNat ≤ st.receiveWindow
    · rw [receive_ok (sound.noteAck f.flags) f.streamId fits]
      obtain ⟨s₁, s', rest, runs, touched, now, works, none_accepted, -, after⟩ :=
        @finish_spec s f.streamId (Late f) st
          ((st.noteAck f.flags).received s.config f.value.toNat) f.flags
          (if f.payload.isEmpty then [] else [.data f.streamId f.payload]) tracked rfl counted
      have events : List.map event
          (if f.payload.isEmpty then [] else [.data f.streamId f.payload]) =
          dataLabels f.streamId f.payload := by
        unfold dataLabels
        split <;> rfl
      rw [events] at touched
      have trace := works.trace
      rw [now, touched.config] at trace
      have absorb : Absorb s.config f st _ _ := .data kind (by simp_all [noteAck]) fits
      refine .inl ⟨s', _, rest, _, runs, touched.trans works.toTouched, absorb, trace, ?_,
        settled_of_left after ⟨settled.exhausted, settled.deferred⟩⟩
      rw [accepted_append, none_accepted, List.append_nil]
      exact absorb.quiet.1
    · have exceeds : (st.noteAck f.flags).receiveWindow < f.value.toNat := Nat.lt_of_not_le fits
      rw [receive_exceeded f.streamId exceeds]
      exact .inr ⟨_, _, rfl, .exceeded kind exceeds, failing _ rfl⟩

theorem flushBuffered_spec {s : SessionCore} {stream : UInt32} {late : Prop} {st : StreamState}
    (tracked : s.streams.get stream = some st) (sound : st.Sound s.config) (nonzero : stream ≠ 0)
    (counted : st.bufferedSend ≤ s.totalBufferedSend) :
    ∃ s' ls, s.flushBuffered stream = some (.ok (), s') ∧ Works s s' stream late ls ∧
      accepted ls = [] ∧ ∀ st', s'.streams.get stream = some st' → st'.Settled := by
  obtain ⟨fs, n, closed, st', runs, trace, count, settled, there, here⟩ :=
    @flush_acts s.config stream late nonzero st sound
  have checked : checkedSub s.totalBufferedSend n = some (s.totalBufferedSend - n) :=
    if_pos (by omega)
  have stored := works_store tracked trace (events_frames fs)
    (show s.totalBufferedSend - n + st.bufferedSend = s.totalBufferedSend +
      st'.bufferedSend by omega)
  rw [frames_frames] at stored
  have now : ((s.store stream st' (s.totalBufferedSend - n)).queueFrames fs).streams.get stream =
      some st' := by simp
  obtain ⟨s', ls, removed, works, none_accepted, -, after⟩ :=
    @removeClosed_spec _ stream late _ now (by rw [queueFrames_eq]; simp only [store]; omega)
      (closed && st'.remoteWriteClosed) (fun h => here (Bool.and_eq_true_iff.mp h).1)
      (fun h => (Bool.and_eq_true_iff.mp h).2)
  refine ⟨s', _, ?_, stored.trans works, by simp [none_accepted], settled_of_left after settled⟩
  simp [flushBuffered, tracked, runs, checked, removed]

theorem trace_fin (kind : f.frameType = .windowUpdate) (config : ValidConfig) (st : StreamState) :
    Trace (Act config f.streamId (Late f)) (some st) (finLabels f.streamId f.flags st)
      (some (st.noteFin f.flags)) := by
  rw [← noteFin_eq, finLabels]
  split
  · rename_i closing
    obtain ⟨fin, unclosed⟩ := Bool.and_eq_true_iff.mp closing
    exact .single (.remoteFin ⟨kind, fin⟩ (by simpa using unclosed))
  · exact .nil _

theorem onStreamCredit_spec {st : StreamState} (kind : f.frameType = .windowUpdate)
    (tracked : s.streams.get f.streamId = some st) (sound : st.Sound s.config)
    (nonzero : f.streamId ≠ 0) (counted : st.bufferedSend ≤ s.totalBufferedSend) :
    ∃ s' ls, s.onStreamCredit f = some (.ok (), s') ∧ Touched s s' f.streamId ls ∧
      Trace (Act s.config f.streamId (Late f)) (some (st.noteAck f.flags)) ls
        (s'.streams.get f.streamId) ∧
      accepted ls = [] ∧ ∀ st', s'.streams.get f.streamId = some st' → st'.Settled := by
  have acked := touched_setStream tracked (show (st.noteAck f.flags).bufferedSend = _ from rfl)
  have now : (s.setStream f.streamId (st.noteAck f.flags)).streams.get f.streamId =
      some (st.noteAck f.flags) := get_store _ _ _ _
  obtain ⟨s₁, ls, flushed, works, none_accepted, settled⟩ :=
    @flushBuffered_spec _ f.streamId (Late f) _ now (sound.noteAck f.flags) nonzero counted
  have trace := works.trace
  rw [now] at trace
  have upto := acked.trans works.toTouched
  cases left : s₁.streams.get f.streamId with
  | none =>
    refine ⟨s₁, ls, ?_, upto, trace, none_accepted, settled⟩
    simp [onStreamCredit, tracked, flushed, left]
  | some st₁ =>
    have counted₁ : bufferedOf (s₁.streams.get f.streamId) ≤ s₁.totalBufferedSend :=
      upto.counted (by rw [tracked]; exact counted)
    rw [left] at counted₁ trace
    obtain ⟨s₂, s', ms, runs, touched, now₂, works₂, none_accepted₂, -, after⟩ :=
      @finish_spec s₁ f.streamId (Late f) st₁ st₁ f.flags [] left rfl counted₁
    have closing := trace_fin kind s.config st₁
    have removing := works₂.trace
    rw [now₂, touched.config, works.config] at removing
    refine ⟨s', _, ?_, (upto.trans touched).trans works₂.toTouched,
      (trace.append closing).append removing, ?_, ?_⟩
    · simp [onStreamCredit, tracked, flushed, left, runs]
    · have quiet : accepted (finLabels f.streamId f.flags st₁) = [] := by
        unfold finLabels
        split <;> rfl
      simp [none_accepted, none_accepted₂, quiet]
    · have settled₁ := settled st₁ left
      exact settled_of_left after ⟨settled₁.exhausted, settled₁.deferred⟩

def Verdict (s : SessionCore) (f : Frame) (result : Option (Returned Unit)) : Prop :=
  (∃ s' ls, result = some (.ok (), s') ∧ Handled s s' f ls) ∨
    ∃ e s' ls, result = some (.error e, s') ∧ Rejects s f e ∧ Spoiled s s' f ls

theorem onReset_verdict (h : s.Sound) (rst : hasFlag f.flags flagRst = true) :
    Verdict s f (s.onReset f.streamId) := by
  left
  cases tracked : s.streams.get f.streamId with
  | none =>
    refine ⟨s, [], by simp [onReset, removeStream, tracked], .refl s f.streamId, ?_, rfl, ?_⟩
    · rw [tracked]
      exact ⟨[], [], none, rfl, .resetUnknown rst, .nil _⟩
    · intro st now
      rw [tracked] at now
      cases now
  | some st =>
    obtain ⟨s', removed, touched, gone⟩ := removeStream_spec tracked (h.counted tracked)
    refine ⟨s', _, by simp [onReset, containsKey, tracked, removed], touched, ?_, rfl, ?_⟩
    · rw [tracked, gone]
      exact ⟨[.event (.streamClosed f.streamId)], [], none, rfl, .resetKnown rst, .nil _⟩
    · intro st now
      rw [gone] at now
      cases now

theorem reset_verdict (nonzero : f.streamId ≠ 0) (rst : hasFlag f.flags flagRst = false)
    (absent : s.streams.get f.streamId = none)
    (full : hasFlag f.flags flagSyn = true → ¬ s.streams.len < s.config.maxStreams) :
    s.queueResetForUnknown f.streamId =
        (.ok (), s.queueFrame (dataFrame f.streamId flagRst [])) ∧
      Handled s (s.queueFrame (dataFrame f.streamId flagRst [])) f
        [.frame (dataFrame f.streamId flagRst [])] := by
  have built : Frame.data f.streamId flagRst [] = .ok (dataFrame f.streamId flagRst []) :=
    Frame.data_ok nonzero (by decide) (by decide)
  refine ⟨by simp [queueResetForUnknown, built], ?_, ?_, rfl, ?_⟩
  · exact ⟨rfl, rfl, rfl, rfl, rfl, rfl, fun _ _ => rfl, rfl, rfl⟩
  · refine ⟨[.frame (dataFrame f.streamId flagRst [])], [], none, rfl, ?_, ?_⟩
    · rw [absent]
      exact .refuse rst full
    · simp only [queueFrame, absent]
      exact .nil _
  · intro st now
    simp only [queueFrame, absent] at now
    cases now

theorem touched_accept {stream : UInt32} (absent : s.streams.get stream = none) (window : Nat) :
    Touched s ((s.setStream stream (.inbound s.config window)).emit (.incomingStream stream))
      stream [.event (.incomingStream stream)] := by
  refine ⟨rfl, rfl, rfl, rfl, rfl, rfl, ?_, rfl, ?_⟩
  · intro j hj
    simp [emit, setStream, store, get_insert, hj]
  · simp [emit, setStream, store, bufferedOf, absent, inbound]

theorem acceptSyn_verdict (nonzero : f.streamId ≠ 0) (rst : hasFlag f.flags flagRst = false)
    (syn : hasFlag f.flags flagSyn = true) {window : Except YamuxError Nat}
    {next : SessionCore → Option (Returned Unit)}
    (refuses : ∀ e, window = .error e → s.streams.get f.streamId = none → Rejects s f e)
    (accepts : ∀ w s₁, window = .ok w → s.validRemoteStreamId f.streamId = true →
      s.streams.len < s.config.maxStreams → s.streams.get f.streamId = none →
      Touched s s₁ f.streamId [.event (.incomingStream f.streamId)] →
      s₁.streams.get f.streamId = some (.inbound s.config w) → Verdict s f (next s₁)) :
    Verdict s f (match s.acceptSyn f.streamId window with
      | (.error e, s) => some (.error e, s)
      | (.ok false, s) => some (.ok (), s)
      | (.ok true, s) => next s) := by
  unfold acceptSyn
  by_cases parity : s.validRemoteStreamId f.streamId = true
  · rw [if_neg (by simp [parity])]
    cases tracked : s.streams.get f.streamId with
    | some st =>
      rw [if_pos (by simp [containsKey, tracked])]
      exact .inr ⟨_, s, [], rfl, .duplicate rst syn tracked, .same f⟩
    | none =>
      rw [if_neg (by simp [containsKey, tracked])]
      by_cases full : s.config.maxStreams ≤ s.streams.len
      · rw [if_pos full]
        obtain ⟨queued, handled⟩ := reset_verdict nonzero rst tracked
          (fun _ => Nat.not_lt.mpr full)
        rw [queued]
        exact .inl ⟨_, _, rfl, handled⟩
      · rw [if_neg full]
        cases window with
        | error e => exact .inr ⟨e, s, [], rfl, refuses e rfl tracked, .same f⟩
        | ok w =>
          exact accepts w _ rfl parity (Nat.lt_of_not_le full) tracked (touched_accept tracked w)
            (get_store s f.streamId _ s.totalBufferedSend)
  · rw [if_pos (by simp [parity])]
    exact .inr ⟨_, s, [], rfl, .parity rst syn (by simpa using parity), .same f⟩

theorem onData_verdict (h : s.Sound) (kind : f.frameType = .data) (nonzero : f.streamId ≠ 0) :
    Verdict s f (s.onData f) := by
  unfold onData
  cases rst : hasFlag f.flags flagRst with
  | true => exact onReset_verdict h rst
  | false =>
    cases syn : hasFlag f.flags flagSyn with
    | true =>
      refine acceptSyn_verdict nonzero rst syn nofun ?_
      rintro w s₁ ⟨⟩ parity room absent opened now
      have sound : (inbound s.config defaultReceiveWindow).Sound s₁.config :=
        opened.config ▸ inbound_sound s.config
      rcases onStreamData_spec kind now sound ⟨fun parked => absurd rfl parked, nofun⟩
        (Nat.zero_le _) with
        ⟨s', first, rest, st', runs, touched, absorb, trace, none_accepted, settled⟩ |
        ⟨e, s', runs, refused, touched, tracked⟩
      · rw [opened.config] at absorb trace
        refine .inl ⟨s', _, runs, opened.trans touched, ?_, none_accepted, settled⟩
        rw [absent]
        exact ⟨.event (.incomingStream f.streamId) :: first, rest, some st', rfl,
          .accept rst syn parity room absorb, trace⟩
      · exact .inr ⟨e, s', _, runs, .opening rst syn absent refused, opened.trans touched,
          .inr ⟨rfl, absent, tracked⟩⟩
    | false =>
      cases tracked : s.streams.get f.streamId with
      | none =>
        obtain ⟨queued, handled⟩ := reset_verdict nonzero rst tracked (by simp [syn])
        simp only [containsKey, tracked, Option.isSome_none, Bool.not_false, if_true,
          queued]
        exact .inl ⟨_, _, rfl, handled⟩
      | some st =>
        simp only [containsKey, tracked, Option.isSome_some, Bool.not_true,
          Bool.false_eq_true, if_false]
        obtain ⟨sound, settled, -⟩ := h.streams _ st tracked
        rcases onStreamData_spec kind tracked sound settled (h.counted tracked) with
          ⟨s', first, rest, st', runs, touched, absorb, trace, none_accepted, settled⟩ |
          ⟨e, s', runs, refused, touched, still⟩
        · refine .inl ⟨s', _, runs, touched, ?_, none_accepted, settled⟩
          rw [tracked]
          exact ⟨first, rest, some st', rfl, .known rst syn absorb, trace⟩
        · exact .inr ⟨e, s', _, runs, .known rst syn tracked refused, touched,
            .inl ⟨rfl, by rw [still, tracked]; rfl⟩⟩

theorem onWindowUpdate_verdict (h : s.Sound) (kind : f.frameType = .windowUpdate)
    (nonzero : f.streamId ≠ 0) : Verdict s f (s.onWindowUpdate f) := by
  unfold onWindowUpdate
  cases rst : hasFlag f.flags flagRst with
  | true => exact onReset_verdict h rst
  | false =>
    cases syn : hasFlag f.flags flagSyn with
    | true =>
      simp only [Bool.false_eq_true, if_false, if_true]
      by_cases fits : defaultReceiveWindow + f.value.toNat ≤ u32Max
      · rw [if_pos fits]
        refine acceptSyn_verdict nonzero rst syn nofun ?_
        rintro w s₁ ⟨⟩ parity room absent opened now
        have raised : (inbound s.config (defaultReceiveWindow + f.value.toNat)).Sound s.config :=
          ⟨fits, (inbound_sound s.config).credit, Nat.zero_le _, rfl, nofun, Nat.zero_le _, nofun⟩
        obtain ⟨s', ls, runs, touched, trace, none_accepted, settled⟩ :=
          onStreamCredit_spec kind now (opened.config ▸ raised) nonzero (Nat.zero_le _)
        rw [opened.config] at trace
        refine .inl ⟨s', _, runs, opened.trans touched, ?_, none_accepted, settled⟩
        rw [absent]
        exact ⟨[.event (.incomingStream f.streamId)], ls, _, rfl,
          .accept rst syn parity room (.credit kind fits), trace⟩
      · rw [if_neg fits]
        refine acceptSyn_verdict nonzero rst syn ?_ nofun
        rintro _ ⟨⟩ absent
        exact .opening rst syn absent (.overflow kind (Nat.lt_of_not_le fits))
    | false =>
      simp only [Bool.false_eq_true, if_false]
      cases tracked : s.streams.get f.streamId with
      | none =>
        obtain ⟨queued, handled⟩ := reset_verdict nonzero rst tracked (by simp [syn])
        simp only [queued]
        exact .inl ⟨_, _, rfl, handled⟩
      | some st =>
        obtain ⟨sound, settled, -⟩ := h.streams _ st tracked
        dsimp only
        split
        · rename_i fits
          have set := touched_setStream tracked
            (show (st.raise f.value.toNat).bufferedSend = _ from rfl)
          have raised : (st.raise f.value.toNat).Sound s.config :=
            { sound with window := fits }
          have now : (s.setStream f.streamId (st.raise f.value.toNat)).streams.get f.streamId =
              some (st.raise f.value.toNat) := get_store _ _ _ _
          have counted : st.bufferedSend ≤ s.totalBufferedSend := h.counted tracked
          obtain ⟨s', ls, runs, touched, trace, none_accepted, settled⟩ :=
            onStreamCredit_spec kind now raised nonzero counted
          refine .inl ⟨s', _, runs, set.trans touched, ?_, none_accepted, settled⟩
          rw [tracked]
          exact ⟨[], ls, _, rfl, .known rst syn (.credit kind fits), trace⟩
        · rename_i exceeds
          exact .inr ⟨_, s, [], rfl, .known rst syn tracked
            (.overflow kind (Nat.lt_of_not_le exceeds)), .same f⟩

theorem processFrame_cases (h : s.Sound) (valid : f.Valid) :
    (f.streamId ≠ 0 ∧ (f.frameType = .data ∨ f.frameType = .windowUpdate) ∧
      Verdict s f (s.processFrame f)) ∨
    (f.frameType = .ping ∧ s.processFrame f = some (.ok (), s.queueFrames
      (if f.flags = flagSyn then [⟨.ping, flagAck, 0, f.value, []⟩] else []))) ∨
    (f.frameType = .goAway ∧ s.processFrame f = some (.ok (), s.onGoAway f.value)) := by
  have zero := valid.stream_zero
  unfold processFrame
  cases kind : f.frameType with
  | data =>
    have nonzero : f.streamId ≠ 0 := by simp [zero, kind]
    exact .inl ⟨nonzero, .inl rfl, onData_verdict h kind nonzero⟩
  | windowUpdate =>
    have nonzero : f.streamId ≠ 0 := by simp [zero, kind]
    exact .inl ⟨nonzero, .inr rfl, onWindowUpdate_verdict h kind nonzero⟩
  | ping =>
    by_cases syn : f.flags = flagSyn
    · simp [onPing, syn, queueFrames]
    · simp [onPing, syn, queueFrames]
  | goAway => exact .inr (.inr ⟨rfl, rfl⟩)

end SessionCore

end Yamux
