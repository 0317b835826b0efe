import MiniP2P.Yamux.Stream

/-! What each call of a session does, said once: it touches one stream, queues the
outputs of a trace of acts on it and keeps everything else. -/
namespace Yamux
open Collections Transition BTreeMap Label StreamState

def bufferedOf (o : Option StreamState) : Nat := o.elim 0 (fun st => st.bufferedSend)

/-- Only one stream changed, and only the outputs of `ls` were queued. -/
structure Touched (s s' : SessionCore) (stream : UInt32) (ls : List Label) : Prop where
  role : s'.role = s.role
  config : s'.config = s.config
  next : s'.nextStreamId = s.nextStreamId
  failed : s'.failed = s.failed
  localGoAway : s'.localGoAway = s.localGoAway
  remoteGoAway : s'.remoteGoAway = s.remoteGoAway
  others : ∀ j, j ≠ stream → s'.streams.get j = s.streams.get j
  pending : s'.pending = s.pending ++ outputs ls
  total : s'.totalBufferedSend + bufferedOf (s.streams.get stream) =
    s.totalBufferedSend + bufferedOf (s'.streams.get stream)

theorem Touched.refl (s : SessionCore) (stream : UInt32) : Touched s s stream [] :=
  ⟨rfl, rfl, rfl, rfl, rfl, rfl, fun _ _ => rfl, by simp [outputs], rfl⟩

variable {s s' : SessionCore} {stream : UInt32} {ls : List Label} {late : Prop}
    {config : ValidConfig} {b a : Option StreamState}

theorem Touched.trans {t u : SessionCore} {ms : List Label} (first : Touched s t stream ls)
    (second : Touched t u stream ms) :
    Touched s u stream (ls ++ ms) where
  role := second.role.trans first.role
  config := second.config.trans first.config
  next := second.next.trans first.next
  failed := second.failed.trans first.failed
  localGoAway := second.localGoAway.trans first.localGoAway
  remoteGoAway := second.remoteGoAway.trans first.remoteGoAway
  others := fun j hj => (second.others j hj).trans (first.others j hj)
  pending := by
    rw [second.pending, first.pending, outputs_append, List.append_assoc]
  total := by
    have h := first.total
    have h' := second.total
    omega

theorem Touched.counted (touched : Touched s s' stream ls)
    (counted : bufferedOf (s.streams.get stream) ≤ s.totalBufferedSend) :
    bufferedOf (s'.streams.get stream) ≤ s'.totalBufferedSend := by
  have total := touched.total
  omega

structure Works (s s' : SessionCore) (stream : UInt32) (late : Prop) (ls : List Label) : Prop
    extends Touched s s' stream ls where
  trace : Trace (Act s.config stream late) (s.streams.get stream) ls (s'.streams.get stream)

theorem Works.refl (s : SessionCore) (stream : UInt32) (late : Prop) : Works s s stream late [] :=
  ⟨.refl s stream, .nil _⟩

theorem Works.trans {t u : SessionCore} {ms : List Label} (first : Works s t stream late ls)
    (second : Works t u stream late ms) : Works s u stream late (ls ++ ms) := by
  refine ⟨first.toTouched.trans second.toTouched, first.trace.append ?_⟩
  rw [← first.config]
  exact second.trace

namespace SessionCore

theorem queueFrames_eq (s : SessionCore) (fs : List Frame) : s.queueFrames fs = { s with
      dirty := s.dirty || !fs.isEmpty
      pending := s.pending ++ fs.map (fun f => .outbound f.encode) } := by
  induction fs generalizing s with
  | nil => simp [queueFrames]
  | cons f fs ih => simp [queueFrames, ih, queueFrame]

theorem ensureActive_ok : s.ensureActive = .ok () ↔
      s.failed = false ∧ s.localGoAway = false ∧ s.remoteGoAway = false := by
  unfold ensureActive
  cases s.failed <;> cases s.localGoAway <;> cases s.remoteGoAway <;> simp

theorem works_store {old new : StreamState} (tracked : s.streams.get stream = some old)
    (trace : Trace (Act s.config stream late) (some old) ls (some new))
    (silent : events ls = []) {total : Nat}
    (count : total + old.bufferedSend = s.totalBufferedSend + new.bufferedSend) :
    Works s ((s.store stream new total).queueFrames (frames ls)) stream late ls := by
  rw [queueFrames_eq]
  refine ⟨⟨rfl, rfl, rfl, rfl, rfl, rfl, ?_, ?_, ?_⟩, ?_⟩
  · intro j hj
    simp [store, get_insert, hj]
  · simp [store, outputs_of_frames silent]
  · simpa [store, bufferedOf, tracked] using count
  · simpa [store, tracked] using trace

@[simp] theorem get_queueFrames (s : SessionCore) (fs : List Frame) (stream : UInt32) :
    (s.queueFrames fs).streams.get stream = s.streams.get stream := by
  rw [queueFrames_eq]

@[simp] theorem get_store (s : SessionCore) (stream : UInt32) (st : StreamState) (total : Nat) :
    (s.store stream st total).streams.get stream = some st := by
  simp [store]

theorem removeStream_spec {st : StreamState} (tracked : s.streams.get stream = some st)
    (counted : st.bufferedSend ≤ s.totalBufferedSend) :
    ∃ s', s.removeStream stream true = some s' ∧
      Touched s s' stream [.event (.streamClosed stream)] ∧ s'.streams.get stream = none := by
  have checked : checkedSub s.totalBufferedSend st.bufferedSend =
      some (s.totalBufferedSend - st.bufferedSend) := if_pos counted
  simp only [removeStream, tracked, checked, Option.bind_eq_bind, Option.bind_some, if_true]
  refine ⟨_, rfl, ⟨rfl, rfl, rfl, rfl, rfl, rfl, ?_, rfl, ?_⟩, by simp [emit]⟩
  · intro j hj
    simp [emit, get_remove, hj]
  · simp only [emit, bufferedOf, tracked, get_remove_self, Option.elim_some,
      Option.elim_none]
    omega

theorem removeClosed_spec {s : SessionCore} {stream : UInt32} {late : Prop} {st : StreamState}
    (tracked : s.streams.get stream = some st) (counted : st.bufferedSend ≤ s.totalBufferedSend)
    {fullyClosed : Bool} (here : fullyClosed = true → st.localWriteClosed = true)
    (there : fullyClosed = true → st.remoteWriteClosed = true) :
    ∃ s' ls, s.removeClosed stream fullyClosed = some s' ∧ Works s s' stream late ls ∧
      accepted ls = [] ∧ frames ls = [] ∧
      (s'.streams.get stream = some st ∨ s'.streams.get stream = none) := by
  cases fullyClosed with
  | false =>
    exact ⟨s, [], rfl, .refl s stream late, rfl, rfl, .inl tracked⟩
  | true =>
    obtain ⟨s', removed, touched, gone⟩ := removeStream_spec tracked counted
    refine ⟨s', _, removed, ⟨touched, ?_⟩, rfl, rfl, .inr gone⟩
    rw [tracked, gone]
    exact .single (.closed (here rfl) (there rfl))

structure Sound (s : SessionCore) : Prop where
  streams : ∀ stream st, s.streams.get stream = some st →
    st.Sound s.config ∧ st.Settled ∧ stream ≠ 0
  total : s.totalBufferedSend = s.streams.sum (fun _ st => st.bufferedSend)
  cap : s.totalBufferedSend ≤ s.config.maxTotalBufferedSend
  next : ∀ n, s.nextStreamId = some n → n ≠ 0 ∧ s.validRemoteStreamId n = false
  fresh : ∀ n, s.nextStreamId = some n → ∀ stream st, s.streams.get stream = some st →
    s.validRemoteStreamId stream = false → stream.toNat < n.toNat
  quiet : s.ensureActive ≠ .ok () → s.streams = .empty

theorem Sound.counted (h : s.Sound) {st : StreamState} (tracked : s.streams.get stream = some st) :
    st.bufferedSend ≤ s.totalBufferedSend := by
  rw [h.total]
  exact le_sum (fun _ st => st.bufferedSend) tracked

theorem validRemoteStreamId_congr (role : s'.role = s.role) (stream : UInt32) :
    s'.validRemoteStreamId stream = s.validRemoteStreamId stream := by
  simp only [validRemoteStreamId, role]

theorem ensureActive_congr (touched : Touched s s' stream ls) :
    s'.ensureActive = s.ensureActive := by
  simp only [ensureActive, touched.failed, touched.localGoAway, touched.remoteGoAway]

end SessionCore

theorem Touched.sound (touched : Touched s s' stream ls) (before : s.Sound)
    (active : s.ensureActive = .ok ())
    (now : ∀ st, s'.streams.get stream = some st → st.Sound s.config ∧ st.Settled ∧
      stream ≠ 0 ∧ (s.streams.get stream = none → s.validRemoteStreamId stream = true))
    (cap : s'.totalBufferedSend ≤ s.config.maxTotalBufferedSend) : s'.Sound where
  streams := by
    intro j st tracked
    rw [touched.config]
    by_cases hj : j = stream
    · subst hj
      exact ⟨(now st tracked).1, (now st tracked).2.1, (now st tracked).2.2.1⟩
    · rw [touched.others j hj] at tracked
      exact before.streams j st tracked
  total := by
    have sums := sum_of_eq_away (fun _ st => bufferedSend st) touched.others
    have total := touched.total
    have old := before.total
    simp only [bufferedOf] at total
    omega
  cap := by rw [touched.config]; exact cap
  next := by
    intro n hn
    rw [touched.next] at hn
    rw [SessionCore.validRemoteStreamId_congr touched.role]
    exact before.next n hn
  fresh := by
    intro n hn j st tracked own
    rw [touched.next] at hn
    rw [SessionCore.validRemoteStreamId_congr touched.role] at own
    by_cases hj : j = stream
    · subst hj
      cases old : s.streams.get j with
      | none => simp [(now st tracked).2.2.2 old] at own
      | some st₀ => exact before.fresh n hn j st₀ old own
    · rw [touched.others j hj] at tracked
      exact before.fresh n hn j st tracked own
  quiet := by
    rw [SessionCore.ensureActive_congr touched]
    exact fun inactive => absurd active inactive

theorem trace_absent (trace : Trace (Act config stream late) none ls b) : b = none ∧ ls = [] := by
  cases trace with
  | nil => exact ⟨rfl, rfl⟩
  | cons act _ => cases act

theorem trace_about (nonzero : stream ≠ 0) (trace : Trace (Act config stream late) a ls b) :
    ∀ o ∈ outputs ls, About stream o := by
  induction trace with
  | nil => nofun
  | cons act _ ih =>
    intro o member
    rw [outputs_append, List.mem_append] at member
    rcases member with member | member
    · exact act.about nonzero o member
    · exact ih o member

theorem Act.buffered_le (act : Act config stream late a ls b) :
    bufferedOf b ≤ bufferedOf a + (accepted ls).length := by
  cases act <;> simp [bufferedOf, accepted, StreamState.park, StreamState.opened,
    StreamState.finished, StreamState.advertised, StreamState.spend, StreamState.putBack,
    StreamState.takeChunk]

theorem trace_buffered_le (trace : Trace (Act config stream late) a ls b) :
    bufferedOf b ≤ bufferedOf a + (accepted ls).length := by
  induction trace with
  | nil => exact Nat.le_add_right _ _
  | cons act _ ih =>
    have first := act.buffered_le
    rw [accepted_append, List.length_append]
    omega

theorem Consume.buffered_le {remote room : Prop} {f : Frame}
    (consume : Consume config remote room f a ls b) : bufferedOf b ≤ bufferedOf a := by
  cases consume with
  | accept rst syn parity free absorb =>
    simp [bufferedOf, absorb.bufferedSend, inbound]
  | known rst syn absorb => simp [bufferedOf, absorb.bufferedSend]
  | _ => simp [bufferedOf]

theorem Works.sound (works : Works s s' stream late ls) (before : s.Sound)
    (active : s.ensureActive = .ok ())
    (settled : ∀ st, s'.streams.get stream = some st → st.Settled)
    (cap : s'.totalBufferedSend ≤ s.config.maxTotalBufferedSend) : s'.Sound := by
  refine works.toTouched.sound before active (fun st tracked => ?_) cap
  cases old : s.streams.get stream with
  | none =>
    have trace := works.trace
    rw [old, tracked] at trace
    cases (trace_absent trace).1
  | some st₀ =>
    have h := before.streams stream st₀ old
    have sound : SoundStream s.config (s.streams.get stream) := by
      intro st' h'
      rw [old] at h'
      cases h'
      exact h.1
    exact ⟨works.trace.invariant (fun h act => act.sound h) sound st tracked, settled st tracked,
      h.2.2, nofun⟩

theorem Works.total_le (works : Works s s' stream late ls) (none_accepted : accepted ls = []) :
    s'.totalBufferedSend ≤ s.totalBufferedSend := by
  have total := works.total
  have less := trace_buffered_le works.trace
  rw [none_accepted, List.length_nil] at less
  omega

/-- A call that worked on one stream of an active session and left it sound. -/
structure Progress (s s' : SessionCore) (stream : UInt32) (ls : List Label) : Prop where
  active : s.ensureActive = .ok ()
  nonzero : stream ≠ 0
  works : Works s s' stream False ls
  sound : s'.Sound

theorem Works.progress (works : Works s s' stream False ls) (h : s.Sound)
    (active : s.ensureActive = .ok ()) (nonzero : stream ≠ 0) (none_accepted : accepted ls = [])
    (settled : ∀ st, s'.streams.get stream = some st → st.Settled) : Progress s s' stream ls :=
  ⟨active, nonzero, works,
    works.sound h active settled (Nat.le_trans (works.total_le none_accepted) h.cap)⟩

/-- A stream that was kept as it is or removed. -/
theorem settled_of_left {st : StreamState} (left : a = some st ∨ a = none) (settled : st.Settled) :
    ∀ st', a = some st' → st'.Settled := by
  rintro st' rfl
  rcases left with same | gone
  · cases same
    exact settled
  · cases gone

namespace SessionCore

theorem send_spec (h : s.Sound) (stream : UInt32) (data : List UInt8) :
    (∃ s' ls, s.send stream data = some (.ok (), s') ∧ Progress s s' stream ls ∧
      accepted ls = data ∧ events ls = []) ∨
    ∃ e, s.send stream data = some (.error e, s) := by
  unfold send
  cases active : s.ensureActive with
  | error e => exact .inr ⟨e, rfl⟩
  | ok _ =>
    cases tracked : s.streams.get stream with
    | none => exact .inr ⟨_, rfl⟩
    | some st =>
      obtain ⟨sound, settled, nonzero⟩ := h.streams stream st tracked
      dsimp only
      split
      · exact .inr ⟨_, rfl⟩
      · rename_i closed
        split
        · exact .inr ⟨_, rfl⟩
        · rename_i full
          simp only [Bool.or_eq_true, decide_eq_true_eq, not_or, Nat.not_lt] at full
          simp only [Bool.or_eq_true, not_or, Bool.not_eq_true] at closed
          obtain ⟨ls, st', runs, trace, bytes, silent, settled', count⟩ :=
            @send_acts s.config stream False nonzero st settled ⟨closed.1, closed.2⟩ data full.1
          have works := works_store tracked trace silent
            (show s.totalBufferedSend + (data.length - min data.length st.sendWindow) +
              st.bufferedSend = s.totalBufferedSend + st'.bufferedSend by omega)
          refine .inl ⟨_, ls, by rw [runs], ⟨active, nonzero, works, ?_⟩, bytes, silent⟩
          refine works.sound h active (fun st₁ after => ?_) ?_
          · simp only [get_queueFrames, get_store] at after
            cases after
            exact settled'
          · rw [queueFrames_eq]
            exact full.2

theorem closeWrite_spec (h : s.Sound) (stream : UInt32) :
    (∃ s' ls, s.closeWrite stream = some (.ok (), s') ∧ Progress s s' stream ls ∧
      accepted ls = []) ∨
    ∃ e, s.closeWrite stream = some (.error e, s) := by
  unfold closeWrite
  cases active : s.ensureActive with
  | error e => exact .inr ⟨e, rfl⟩
  | ok _ =>
    cases tracked : s.streams.get stream with
    | none => exact .inr ⟨_, rfl⟩
    | some st =>
      obtain ⟨sound, settled, nonzero⟩ := h.streams stream st tracked
      left
      dsimp only
      split
      · exact ⟨s, [], rfl, ⟨active, nonzero, .refl s stream False, h⟩, rfl⟩
      · rename_i closed
        simp only [Bool.or_eq_true, not_or, Bool.not_eq_true] at closed
        split
        · rename_i parked
          have chunks : st.sendBuffer ≠ [] := fun empty => parked (sound.buffered_zero.mpr empty)
          have works : Works s (s.setStream stream { st with closePending := true }) stream
              False [] :=
            works_store tracked (.single (.closeLater ⟨closed.1, closed.2⟩ chunks)) rfl rfl
          refine ⟨_, [], rfl, works.progress h active nonzero rfl (fun st₁ after => ?_), rfl⟩
          rw [setStream, get_store] at after
          cases after
          exact ⟨settled.exhausted, fun _ => chunks⟩
        · rename_i unparked
          have drained : st.sendBuffer = [] :=
            sound.buffered_zero.mp (Decidable.not_not.mp unparked)
          have built : Frame.data stream (st.openFlags ||| flagFin) [] =
              .ok (dataFrame stream (st.openFlags ||| flagFin) []) :=
            Frame.data_ok nonzero st.finFlags_legal (by decide)
          simp only [takeOpenFlag_eq, built]
          have last : { st.opened with localWriteClosed := true } = st.finished := by
            rw [StreamState.finished, ← closed.2]
            rfl
          rw [last]
          have finished : Works s ((s.setStream stream st.finished).queueFrame
              (dataFrame stream (st.openFlags ||| flagFin) [])) stream False
              [.frame (dataFrame stream (st.openFlags ||| flagFin) [])] :=
            works_store tracked (.single (.fin closed.1 drained)) rfl rfl
          have now : ((s.setStream stream st.finished).queueFrame (dataFrame stream
              (st.openFlags ||| flagFin) [])).streams.get stream = some st.finished :=
            get_store s stream st.finished s.totalBufferedSend
          have counted : st.bufferedSend ≤ s.totalBufferedSend := h.counted tracked
          obtain ⟨s', ls, removed, works, none_accepted, -, after⟩ :=
            @removeClosed_spec _ stream False _ now counted st.opened.remoteWriteClosed
              (fun _ => rfl) id
          have silent : accepted (.frame (dataFrame stream (st.openFlags ||| flagFin) []) ::
              ls) = [] := by
            simp [accepted, none_accepted]
          exact ⟨s', _, by simp [removed], (finished.trans works).progress h active nonzero silent
            (settled_of_left after ⟨settled.exhausted, by simp [StreamState.finished]⟩), silent⟩

theorem reset_spec (h : s.Sound) (stream : UInt32) :
    (∃ s' ls, s.reset stream = some (.ok (), s') ∧ Progress s s' stream ls ∧
      accepted ls = [] ∧ s'.streams.get stream = none) ∨
    ∃ e, s.reset stream = some (.error e, s) := by
  unfold reset
  cases active : s.ensureActive with
  | error e => exact .inr ⟨e, rfl⟩
  | ok _ =>
    cases tracked : s.streams.get stream with
    | none => exact .inr ⟨_, rfl⟩
    | some st =>
      obtain ⟨sound, settled, nonzero⟩ := h.streams stream st tracked
      have counted := h.counted tracked
      have checked : checkedSub s.totalBufferedSend st.bufferedSend =
          some (s.totalBufferedSend - st.bufferedSend) := if_pos counted
      have built : Frame.data stream flagRst [] = .ok (dataFrame stream flagRst []) :=
        Frame.data_ok nonzero (by decide) (by decide)
      simp only [checked, built, Option.bind_eq_bind, Option.bind_some]
      have touched : Touched s (({ s with
          streams := s.streams.remove stream
          totalBufferedSend := s.totalBufferedSend - st.bufferedSend }.queueFrame
            (dataFrame stream flagRst [])).emit (.streamClosed stream)) stream
          [.frame (dataFrame stream flagRst []), .event (.streamClosed stream)] := by
        refine ⟨rfl, rfl, rfl, rfl, rfl, rfl, ?_, ?_, ?_⟩
        · intro j hj
          simp [emit, queueFrame, get_remove, hj]
        · simp [emit, queueFrame, outputs, output]
        · simp only [emit, queueFrame, bufferedOf, tracked, get_remove_self,
            Option.elim_some, Option.elim_none]
          omega
      have gone : (s.streams.remove stream).get stream = none := get_remove_self _ _
      have works : Works s _ stream False _ := ⟨touched, by
        simp only [emit, queueFrame, tracked, gone]
        exact .single .reset⟩
      refine .inl ⟨_, _, rfl, works.progress h active nonzero rfl (fun st₁ after => ?_), rfl, gone⟩
      simp only [emit, queueFrame, gone] at after
      cases after

variable {n : UInt32}

theorem add_two (small : n.toNat + 2 ≤ u32Max) : (n + 2).toNat = n.toNat + 2 := by
  simp only [u32Max] at small
  exact Nat.mod_eq_of_lt (by simp; omega)

theorem validRemoteStreamId_add_two (small : n.toNat + 2 ≤ u32Max) (nonzero : n ≠ 0) :
    s.validRemoteStreamId (n + 2) = s.validRemoteStreamId n := by
  have grown := add_two small
  have nonzero' : n + 2 ≠ 0 := by
    intro zero
    rw [zero] at grown
    simp at grown
  simp only [validRemoteStreamId, grown, bne_iff_ne.mpr nonzero, bne_iff_ne.mpr nonzero',
    Nat.add_mod_right]

section

variable (h : s.Sound)
include h

theorem openStream_spec :
    (∃ n, s.ensureActive = .ok () ∧ s.nextStreamId = some n ∧ s.streams.get n = none ∧
      s.openStream = some (.ok n, { s with
        nextStreamId := if n.toNat + 2 ≤ u32Max then some (n + 2) else none
        streams := s.streams.insert n (.outbound s.config) })) ∨
    ∃ e, s.openStream = some (.error e, s) := by
  unfold openStream
  cases active : s.ensureActive with
  | error e => exact .inr ⟨e, rfl⟩
  | ok _ =>
    dsimp only
    split
    · exact .inr ⟨_, rfl⟩
    · cases next : s.nextStreamId with
      | none => exact .inr ⟨_, rfl⟩
      | some n =>
        refine .inl ⟨n, rfl, rfl, ?_, rfl⟩
        cases tracked : s.streams.get n with
        | none => rfl
        | some st =>
          have less := h.fresh n next n st tracked (h.next n next).2
          omega

theorem Sound.openStream (active : s.ensureActive = .ok ())
    (next : s.nextStreamId = some n) (absent : s.streams.get n = none) :
    Sound { s with
      nextStreamId := if n.toNat + 2 ≤ u32Max then some (n + 2) else none
      streams := s.streams.insert n (.outbound s.config) } := by
  obtain ⟨nonzero, own⟩ := h.next n next
  refine ⟨?_, ?_, h.cap, ?_, ?_, fun inactive => absurd active inactive⟩
  · intro j st tracked
    rw [get_insert] at tracked
    split at tracked
    · rename_i same
      cases tracked
      exact ⟨outbound_sound s.config, ⟨fun parked => absurd rfl parked, nofun⟩, same ▸ nonzero⟩
    · exact h.streams j st tracked
  · have sums := s.streams.sum_insert (fun _ st => st.bufferedSend) n (.outbound s.config)
    rw [absent, Option.elim_none] at sums
    simp only [outbound, Nat.add_zero] at sums ⊢
    rw [sums]
    exact h.total
  · intro m hm
    split at hm
    · rename_i small
      cases hm
      refine ⟨fun zero => ?_, (validRemoteStreamId_add_two small nonzero).trans own⟩
      have grown := add_two small
      rw [zero] at grown
      simp at grown
    · cases hm
  · intro m hm j st tracked own'
    split at hm
    · rename_i small
      cases hm
      have grown := add_two small
      rw [get_insert] at tracked
      split at tracked
      · rename_i same
        rw [same]
        omega
      · have less := h.fresh n next j st tracked own'
        omega
    · cases hm

theorem materializeDeferredControl_cases : s.materializeDeferredControl = some s ∧
        (∀ stream st, s.streams.get stream = some st → st.hasDeferredControl = false) ∨
      ∃ stream st, s.streams.get stream = some st ∧ st.hasDeferredControl = true ∧
        s.materializeDeferredControl = some ((s.setStream stream st.advertised).queueFrame
          (creditFrame stream st.openFlags st.pendingCredit)) := by
  unfold materializeDeferredControl
  cases found : s.streams.entries.find? (fun e => e.2.hasDeferredControl) with
  | none =>
    refine .inl ⟨rfl, fun stream st tracked => ?_⟩
    have nothing := List.find?_eq_none.mp found (stream, st)
      ((s.streams.mem_entries stream st).mpr tracked)
    simpa using nothing
  | some entry =>
    obtain ⟨stream, st⟩ := entry
    have tracked : s.streams.get stream = some st :=
      (s.streams.mem_entries stream st).mp (List.mem_of_find?_eq_some found)
    obtain ⟨sound, settled, nonzero⟩ := h.streams stream st tracked
    have small := sound.receiveWindow_le
    have whole : min st.pendingCredit u32Max = st.pendingCredit := by omega
    have fits : ¬ u32Max < st.receiveWindow + st.pendingCredit := by omega
    have built : Frame.windowUpdate stream st.openFlags (UInt32.ofNat st.pendingCredit) =
        .ok (creditFrame stream st.openFlags st.pendingCredit) :=
      Frame.windowUpdate_ok _ nonzero st.openFlags_legal
    refine .inr ⟨stream, st, tracked, List.find?_some (p := fun e : UInt32 × StreamState =>
      e.2.hasDeferredControl) found, ?_⟩
    simp only [takeOpenFlag_eq, StreamState.opened, whole, if_neg fits, Nat.sub_self, built]
    rfl

theorem materializeDeferredControl_spec (active : s.ensureActive = .ok ()) :
    s.materializeDeferredControl = some s ∧
        (∀ stream st, s.streams.get stream = some st → st.hasDeferredControl = false) ∨
      ∃ s' stream ls, s.materializeDeferredControl = some s' ∧ Progress s s' stream ls ∧
        accepted ls = [] ∧ events ls = [] ∧ ls ≠ [] := by
  rcases materializeDeferredControl_cases h with nothing | ⟨stream, st, tracked, -, announced⟩
  · exact .inl nothing
  · obtain ⟨sound, settled, nonzero⟩ := h.streams stream st tracked
    have small := sound.receiveWindow_le
    have works : Works s ((s.setStream stream st.advertised).queueFrame
        (creditFrame stream st.openFlags st.pendingCredit)) stream False
        [.frame (creditFrame stream st.openFlags st.pendingCredit)] :=
      works_store tracked (.single (.advertise (by omega))) rfl rfl
    refine .inr ⟨_, stream, _, announced, works.progress h active nonzero rfl (fun st₁ after => ?_),
      rfl, rfl, nofun⟩
    have now := (get_store s stream st.advertised s.totalBufferedSend).symm.trans after
    cases now
    exact ⟨settled.exhausted, settled.deferred⟩

theorem pollOutput_spec : s.pollOutput = some s.popFront ∨
      ∃ core stream ls, s.pollOutput = some core.popFront ∧ Progress s core stream ls ∧
        accepted ls = [] := by
  cases queue : s.pending with
  | cons o rest => exact .inl (by simp [pollOutput, popFront, queue])
  | nil =>
    by_cases active : s.ensureActive = .ok ()
    · obtain ⟨unfailed, here, there⟩ := ensureActive_ok.mp active
      rcases s.materializeDeferredControl_spec h active with
        ⟨nothing, -⟩ | ⟨core, stream, ls, found, progress, accepted, -⟩
      · exact .inl (by simp [pollOutput, queue, unfailed, here, there, nothing])
      · exact .inr ⟨core, stream, ls,
          by simp [pollOutput, queue, unfailed, here, there, found], progress, accepted⟩
    · rw [ensureActive_ok] at active
      have finished : (!s.failed && !s.localGoAway && !s.remoteGoAway) = false := by
        revert active
        cases s.failed <;> cases s.localGoAway <;> cases s.remoteGoAway <;> simp
      exact .inl (by simp [pollOutput, queue, finished])

end

/-- How many outputs there are to drain: those queued, and one for each stream that has something
to announce. -/
def owed (s : SessionCore) : Nat :=
  s.pending.length + s.streams.sum fun _ st => st.hasDeferredControl.toNat

theorem owed_le (s : SessionCore) : s.owed ≤ s.pending.length + s.streams.len := by
  rw [len_eq_sum]
  exact Nat.add_le_add_left (sum_le fun _ _ => Bool.toNat_le _) _

theorem pollOutput_owed (h : s.Sound) : (s.pollOutput = some (none, s) ∧ s.pending = []) ∨
      ∃ output s', s.pollOutput = some (some output, s') ∧ s'.owed + 1 = s.owed := by
  cases queue : s.pending with
  | cons output rest =>
    refine .inr ⟨output, { s with pending := rest }, by simp [pollOutput, queue], ?_⟩
    simp only [owed, queue, List.length_cons]
    omega
  | nil =>
    have drained : s.popFront = (none, s) := by simp [popFront, queue]
    unfold pollOutput
    rw [queue]
    split
    · cases ‹_›
    · split
      · rcases materializeDeferredControl_cases h with ⟨nothing, -⟩
            | ⟨stream, st, tracked, due, announced⟩
        · rw [nothing]
          exact .inl ⟨by simp [drained], rfl⟩
        · have fewer :=
            s.streams.sum_insert (fun _ st => st.hasDeferredControl.toNat) stream st.advertised
          rw [tracked, Option.elim_some, due] at fewer
          have announces : st.advertised.hasDeferredControl = false := by
            simp [hasDeferredControl, StreamState.advertised, StreamState.opened]
          rw [announces] at fewer
          rw [announced]
          refine .inr ⟨.outbound (creditFrame stream st.openFlags st.pendingCredit).encode,
            { s.setStream stream st.advertised with dirty := true },
            by simp [popFront, queueFrame, setStream, store, queue], ?_⟩
          simpa [owed, setStream, store, queue] using fewer
      · exact .inl ⟨by rw [drained], rfl⟩

theorem Sound.of_same (h : s.Sound) (role : s'.role = s.role) (config : s'.config = s.config)
    (streams : s'.streams = s.streams) (next : s'.nextStreamId = s.nextStreamId)
    (total : s'.totalBufferedSend = s.totalBufferedSend) (failed : s'.failed = s.failed)
    (gone : s'.localGoAway = s.localGoAway) (left : s'.remoteGoAway = s.remoteGoAway) :
    s'.Sound := by
  -- What the invariant reads of `s` is what `s'` shares with it.
  cases s'
  cases role
  cases config
  cases streams
  cases next
  cases total
  cases failed
  cases gone
  cases left
  exact ⟨h.streams, h.total, h.cap, h.next, h.fresh, h.quiet⟩

theorem Sound.cleared (h : s.Sound) (role : s'.role = s.role) (streams : s'.streams = .empty)
    (next : s'.nextStreamId = s.nextStreamId) (total : s'.totalBufferedSend = 0) : s'.Sound := by
  refine ⟨?_, ?_, ?_, ?_, ?_, fun _ => streams⟩
  · rw [streams]; intro stream st tracked; cases tracked
  · rw [total, streams]; rfl
  · rw [total]; exact Nat.zero_le _
  · rw [next]
    intro n hn
    rw [validRemoteStreamId_congr role]
    exact h.next n hn
  · rw [streams]; intro n hn stream st tracked; cases tracked

end SessionCore

end Yamux
