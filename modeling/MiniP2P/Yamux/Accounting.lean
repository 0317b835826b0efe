import MiniP2P.Yamux.Run

/-! Credit and buffer accounting over every run of one session, whatever its peer sends. -/
namespace Yamux
open Collections Incremental Transition List YamuxSession Label Event SessionCore

def creditOf (stream : UInt32) (bytes : List UInt8) : Nat :=
  match parse 0xffffffff bytes with
  | .ok (some (f, _)) =>
    if f.frameType = .windowUpdate ∧ f.streamId = stream then f.value.toNat else 0
  | _ => 0

variable {f : Frame}

theorem creditOf_encode (stream : UInt32) (valid : f.Valid) : creditOf stream f.encode =
      if f.frameType = .windowUpdate ∧ f.streamId = stream then f.value.toNat else 0 := by
  have small : f.value ≤ 0xffffffff := by
    exact Nat.le_of_lt_succ f.value.toNat_lt
  have parsed := parse_encode 0xffffffff valid (fun _ => small) []
  rw [append_nil] at parsed
  simp only [creditOf, parsed]

/-- Bytes a stream took from its peer, and credit announced for it, since it began. -/
structure Ledger where
  received : Nat
  credited : Nat
  deriving DecidableEq

open Ledger

def Ledger.note (stream : UInt32) (l : Ledger) : YamuxOutput → Ledger
  | .incomingStream i => if i = stream then ⟨0, 0⟩ else l
  | .data i bytes => if i = stream then { l with received := l.received + bytes.length } else l
  | .outbound bytes => { l with credited := l.credited + creditOf stream bytes }
  | _ => l

def Ledger.after (stream : UInt32) (l : Ledger) (outputs : List YamuxOutput) : Ledger :=
  outputs.foldl (note stream) l

def ledger (stream : UInt32) (outputs : List YamuxOutput) : Ledger :=
  Ledger.after stream ⟨0, 0⟩ outputs

/-- What a stream holds open is what it was given and has not used. -/
def Balanced (l : Ledger) (o : Option StreamState) : Prop :=
  ∀ st, o = some st → l.received + st.receiveWindow = defaultReceiveWindow + l.credited

theorem balanced_none (l : Ledger) : Balanced l none := by
  intro st now
  cases now

@[simp] theorem Ledger.after_append (stream : UInt32) (l : Ledger) (xs ys : List YamuxOutput) :
    l.after stream (xs ++ ys) = (l.after stream xs).after stream ys :=
  foldl_append

variable {stream : UInt32} {config : ValidConfig} {a b : Option StreamState} {ls : List Label}
    {es : List Event} {s : SessionCore}

theorem Ledger.after_elsewhere {other : UInt32} (ne : other ≠ stream) {outputs : List YamuxOutput}
    (about : ∀ o ∈ outputs, About stream o) (l : Ledger) : l.after other outputs = l := by
  induction outputs generalizing l with
  | nil => rfl
  | cons o outputs ih =>
    have here : note other l o = l := by
      cases about o (by simp) with
      | frame valid id => simp [note, creditOf_encode other valid, id, Ne.symm ne]
      | incoming | data bytes => simp [note, Ne.symm ne]
      | remoteWriteClosed => rfl
      | closed => rfl
    rw [Ledger.after, foldl_cons, here]
    exact ih (fun p member => about p (by simp [member])) l

theorem Ledger.after_data (stream : UInt32) (l : Ledger) {id : UInt32} {flags : UInt16}
    {payload : List UInt8} (valid : (dataFrame id flags payload).Valid) :
    l.after stream [.outbound (dataFrame id flags payload).encode] = l := by
  have nothing : creditOf stream (dataFrame id flags payload).encode = 0 := by
    rw [creditOf_encode stream valid]
    exact if_neg (fun h => by cases h.1)
  simp [Ledger.after, note, nothing]

variable {l : Ledger}

theorem Act.balanced {late : Prop} (act : Act config stream late a ls b) (nonzero : stream ≠ 0)
    (before : Balanced l a) : Balanced (l.after stream (outputs ls)) b := by
  have sendable := act.sendable nonzero
  intro st' after
  cases act with
  | @park st bytes writable nonempty spent room | @closeLater st writable parked
  | @remoteFin st permitted unclosed =>
    cases after
    exact before st rfl
  | @push st bytes writable drained credit fits =>
    cases after
    have frame := sendable _ (mem_singleton_self _)
    rw [show outputs _ = [.outbound (dataFrame stream st.openFlags bytes).encode] from rfl,
      after_data stream l frame.valid]
    exact before st rfl
  | @flush st chunk rest n front positive within credit fits =>
    cases after
    have frame := sendable _ (mem_singleton_self _)
    rw [show outputs _ = [.outbound (dataFrame stream st.openFlags (chunk.take n)).encode]
      from rfl, after_data stream l frame.valid]
    exact before st rfl
  | @fin st unclosed drained =>
    cases after
    have frame := sendable _ (mem_singleton_self _)
    rw [show outputs _ = [.outbound (dataFrame stream (st.openFlags ||| flagFin) []).encode]
      from rfl, after_data stream l frame.valid]
    exact before st rfl
  | @advertise st small =>
    cases after
    have frame := sendable _ (mem_singleton_self _)
    have credit : (UInt32.ofNat st.pendingCredit).toNat = st.pendingCredit :=
      UInt32.toNat_ofNat_of_lt' (Nat.lt_succ_of_le small)
    have given : creditOf stream (creditFrame stream st.openFlags st.pendingCredit).encode =
        st.pendingCredit := by
      rw [creditOf_encode stream frame.valid, if_pos ⟨rfl, rfl⟩]
      exact credit
    have balance := before st rfl
    simp only [outputs, output, filterMap_cons, filterMap_nil, Ledger.after,
      foldl_cons, foldl_nil, note, given, StreamState.advertised]
    omega
  | reset => cases after
  | closed here there => cases after

theorem trace_balanced {late : Prop} (nonzero : stream ≠ 0)
    (trace : Trace (Act config stream late) a ls b) (before : Balanced l a) :
    Balanced (l.after stream (outputs ls)) b := by
  induction trace generalizing l with
  | nil => exact before
  | cons act _ ih =>
    rw [outputs_append, after_append]
    exact ih (act.balanced nonzero before)

theorem Absorb.balanced {st st' : StreamState} (absorb : Absorb config f st ls st')
    (valid : f.Valid) (before : Balanced l (some st)) :
    Balanced (l.after f.streamId (outputs ls)) (some st') := by
  intro now after
  cases after
  have balance := before st rfl
  cases absorb with
  | data kind order fits =>
    have length := valid.data_value kind
    have noted : l.after f.streamId (outputs (dataLabels f.streamId f.payload ++
        finLabels f.streamId f.flags st)) =
        { l with received := l.received + f.payload.length } := by
      have data : l.after f.streamId (outputs (dataLabels f.streamId f.payload)) =
          { l with received := l.received + f.payload.length } := by
        unfold dataLabels
        split
        · rename_i empty
          simp [List.isEmpty_iff.mp empty, Ledger.after, outputs]
        · simp [Ledger.after, outputs, output, note]
      have fin : ∀ m : Ledger,
          m.after f.streamId (outputs (finLabels f.streamId f.flags st)) = m := by
        intro m
        unfold finLabels
        split <;> rfl
      rw [outputs_append, after_append, data, fin]
    rw [noted]
    simp only [StreamState.noteFin, StreamState.received, StreamState.noteAck]
    omega
  | credit kind fits => exact balance

theorem Consume.balanced {remote room : Prop}
    (consume : Consume config remote room f a ls b) (valid : f.Valid) (before : Balanced l a) :
    Balanced (l.after f.streamId (outputs ls)) b := by
  cases consume with
  | accept rst syn parity free absorb =>
    -- the announcement opens a new ledger, and the stream opens with the default window
    have opened : Balanced ⟨0, 0⟩ (some (.inbound config defaultReceiveWindow)) := by
      intro st now
      cases now
      exact Nat.add_comm _ _
    have fresh := absorb.balanced valid opened
    simpa [Ledger.after, note] using fresh
  | known rst syn absorb => exact absorb.balanced valid before
  | _ => exact balanced_none _

/-- Ledgers of all streams: tracked ones balance, and ids not yet opened here have
nothing on record. -/
structure Ledgers (es : List Event) (s : SessionCore) : Prop where
  balanced : ∀ stream, Balanced (ledger stream (saids es)) (s.streams.get stream)
  opened : ∀ stream st, s.streams.get stream = some st → s.validRemoteStreamId stream = false →
    ∀ n, s.nextStreamId = some n → stream.toNat < n.toNat
  unused : ∀ stream n, s.validRemoteStreamId stream = false → s.nextStreamId = some n →
    n.toNat ≤ stream.toNat → ledger stream (saids es) = ⟨0, 0⟩

variable {s' : SessionCore}

theorem Ledgers.touched (h : Ledgers es s) (touched : Touched s s' stream ls)
    (about : ∀ o ∈ outputs ls, About stream o)
    (now : Balanced ((ledger stream (saids es)).after stream (outputs ls))
      (s'.streams.get stream))
    (kept : s.streams.get stream = none → s.validRemoteStreamId stream = false →
      s'.streams.get stream = none ∧ ∀ l : Ledger, l.after stream (outputs ls) = l) :
    Ledgers (es ++ spoken (outputs ls)) s' := by
  have said : saids (es ++ spoken (outputs ls)) =
      saids es ++ outputs ls := by simp
  have elsewhere : ∀ j, j ≠ stream →
      ledger j (saids es ++ outputs ls) = ledger j (saids es) := by
    intro j hj
    rw [ledger, after_append]
    exact after_elsewhere hj about _
  refine ⟨?_, ?_, ?_⟩
  · intro j
    rw [said]
    by_cases hj : j = stream
    · subst hj
      rw [ledger, after_append]
      exact now
    · rw [elsewhere j hj, touched.others j hj]
      exact h.balanced j
  · intro j st tracked own n next
    rw [validRemoteStreamId_congr touched.role] at own
    rw [touched.next] at next
    by_cases hj : j = stream
    · subst hj
      cases old : s.streams.get j with
      | none =>
        rw [(kept old own).1] at tracked
        cases tracked
      | some st₀ => exact h.opened j st₀ old own n next
    · rw [touched.others j hj] at tracked
      exact h.opened j st tracked own n next
  · intro j n own next above
    rw [validRemoteStreamId_congr touched.role] at own
    rw [touched.next] at next
    rw [said]
    by_cases hj : j = stream
    · subst hj
      cases old : s.streams.get j with
      | none =>
        rw [ledger, after_append, (kept old own).2]
        exact h.unused j n own next above
      | some st₀ =>
        have := h.opened j st₀ old own n next
        omega
    · rw [elsewhere j hj]
      exact h.unused j n own next above

theorem Ledger.after_session {outputs : List YamuxOutput}
    (session : ∀ o ∈ outputs, (∃ f : Frame, f.Valid ∧ f.streamId = 0 ∧ o = .outbound f.encode) ∨
      (∃ code, o = .goAwayReceived code) ∨ ∃ k, o = .streamClosed k) (l : Ledger) :
    l.after stream outputs = l := by
  induction outputs generalizing l with
  | nil => rfl
  | cons o outputs ih =>
    have here : note stream l o = l := by
      rcases session o (by simp) with ⟨f, valid, zero, rfl⟩ | ⟨code, rfl⟩ | ⟨k, rfl⟩
      · have kind := valid.stream_zero.mp zero
        have nothing : creditOf stream f.encode = 0 := by
          rw [creditOf_encode stream valid]
          refine if_neg (fun h => ?_)
          rcases kind with kind | kind <;> rw [kind] at h <;> cases h.1
        simp [note, nothing]
      · rfl
      · rfl
    rw [Ledger.after, foldl_cons, here]
    exact ih (fun p member => session p (by simp [member])) l

theorem Ledgers.session {es fs : List Event} {s : SessionCore} (h : Ledgers es s)
    (role : s'.role = s.role) (next : s'.nextStreamId = s.nextStreamId)
    (streams : s'.streams = s.streams ∨ s'.streams = .empty)
    (quiet : ∀ stream, ledger stream (saids (es ++ fs)) = ledger stream (saids es)) :
    Ledgers (es ++ fs) s' := by
  refine ⟨fun stream => ?_, fun stream st tracked own n hn => ?_, fun stream n own hn above => ?_⟩
  · rw [quiet]
    rcases streams with same | absent
    · rw [same]
      exact h.balanced stream
    · rw [absent]
      exact balanced_none _
  · rw [validRemoteStreamId_congr role] at own
    rw [next] at hn
    rcases streams with same | nothing
    · rw [same] at tracked
      exact h.opened stream st tracked own n hn
    · rw [nothing] at tracked
      cases tracked
  · rw [validRemoteStreamId_congr role] at own
    rw [next] at hn
    rw [quiet]
    exact h.unused stream n own hn above

theorem Ledgers.failed (h : Ledgers es s) (wrong : Spoiled s s' f ls) :
    Ledgers (es ++ (spoken (outputs ls) ++ .lost s'.pending ::
      spoken (.outbound (Frame.goAway 1).encode :: s'.streams.keys.map .streamClosed)))
      s'.failProtocol := by
  refine ⟨fun stream => balanced_none _, fun stream st tracked => (by cases tracked), ?_⟩
  intro stream n own next above
  have own' : s.validRemoteStreamId stream = false :=
    (validRemoteStreamId_congr wrong.touched.role stream).symm.trans own
  have zero := h.unused stream n own' (wrong.touched.next.symm.trans next) above
  have closing : ∀ l : Ledger, l.after stream (.outbound (Frame.goAway 1).encode ::
      s'.streams.keys.map .streamClosed) = l := by
    refine after_session (fun o member => ?_)
    rcases mem_cons.mp member with rfl | member
    · exact .inl ⟨_, Frame.goAway_valid 1, rfl, rfl⟩
    · obtain ⟨k, -, rfl⟩ := mem_map.mp member
      exact .inr (.inr ⟨k, rfl⟩)
  rw [saids_append, saids_append, saids_lost, ledger,
    after_append, after_append, closing]
  rw [ledger] at zero
  rw [zero]
  rcases wrong.shape with ⟨rfl, -⟩ | ⟨rfl, -⟩
  · rfl
  · simp [outputs, output, Ledger.after, note]

theorem Ledgers.openStream {n : UInt32} (h : Ledgers es s) (next : s.nextStreamId = some n)
    (own : s.validRemoteStreamId n = false) :
    Ledgers (es ++ [.opened n]) { s with
      nextStreamId := if n.toNat + 2 ≤ u32Max then some (n + 2) else none
      streams := s.streams.insert n (.outbound s.config) } := by
  have said : saids (es ++ [.opened n]) = saids es := by
    rw [saids_append]
    exact append_nil _
  have raised : ∀ m, (if n.toNat + 2 ≤ u32Max then some (n + 2) else none) = some m →
      m.toNat = n.toNat + 2 := by
    intro m hm
    split at hm
    · rename_i small
      cases hm
      exact add_two small
    · cases hm
  refine ⟨fun stream => ?_, fun stream st tracked own' m hm => ?_, fun stream m own' hm above => ?_⟩
  · rw [said]
    intro st tracked
    rw [BTreeMap.get_insert] at tracked
    split at tracked
    · rename_i same
      cases tracked
      rw [same, h.unused n n own next (Nat.le_refl _)]
      exact Nat.add_comm _ _
    · exact h.balanced stream st tracked
  · have grown := raised m hm
    rw [BTreeMap.get_insert] at tracked
    split at tracked
    · rename_i same
      rw [same]
      omega
    · have less := h.opened stream st tracked own' n next
      omega
  · have grown := raised m hm
    rw [said]
    exact h.unused stream n own' next (by omega)

theorem Ledgers.step {fs : List Event} {t : SessionCore} (h : Ledgers es s) (step : Step s fs t) :
    Ledgers (es ++ fs) t := by
  cases step with
  | @works _ stream ls progress =>
    refine h.touched progress.works.toTouched (trace_about progress.nonzero progress.works.trace)
      (trace_balanced progress.nonzero progress.works.trace (h.balanced stream)) ?_
    intro absent own
    have trace := progress.works.trace
    rw [absent] at trace
    obtain ⟨gone, rfl⟩ := trace_absent trace
    exact ⟨gone, fun l => rfl⟩
  | @handled _ f ls active nonzero valid taken =>
    obtain ⟨first, rest, mid, rfl, consume, trace⟩ := taken.split
    refine h.touched taken.touched (taken.about nonzero) ?_ ?_
    · rw [outputs_append, after_append]
      exact trace_balanced nonzero trace (consume.balanced valid (h.balanced f.streamId))
    · intro absent own
      have sendable := consume.sendable nonzero
      rw [absent] at consume
      cases consume with
      | accept rst syn parity free absorb => simp [parity] at own
      | resetUnknown rst =>
        obtain ⟨gone, rfl⟩ := trace_absent trace
        exact ⟨gone, fun l => rfl⟩
      | refuse rst full =>
        obtain ⟨gone, rfl⟩ := trace_absent trace
        exact ⟨gone, fun l =>
          after_data f.streamId l (sendable _ (mem_singleton_self _)).valid⟩
  | @opened n active next nonzero own absent => exact h.openStream next own
  | session quiet =>
    refine h.session quiet.role quiet.next (.inl quiet.streams) (fun stream => ?_)
    rw [saids_append, saids_spoken, ledger, after_append]
    refine after_session (fun o member => ?_) _
    obtain ⟨f, hf, rfl⟩ := mem_map.mp member
    exact .inl ⟨f, (quiet.control f hf).1, (quiet.control f hf).2.1, rfl⟩
  | closeAll base failed streams control pending =>
    refine h.session base.role base.next (.inr streams) (fun stream => ?_)
    rw [saids_append, saids_spoken, ledger, after_append]
    refine after_session (fun o member => ?_) _
    rcases mem_cons.mp member with rfl | member
    · rcases control with ⟨code, rfl⟩ | ⟨code, rfl⟩
      · exact .inr (.inl ⟨code, rfl⟩)
      · exact .inl ⟨_, Frame.goAway_valid code, rfl, rfl⟩
    · obtain ⟨k, -, rfl⟩ := mem_map.mp member
      exact .inr (.inr ⟨k, rfl⟩)
  | popped base streams failed pending =>
    refine h.session base.role base.next (.inl streams) (fun stream => ?_)
    rw [saids_append]
    exact congrArg (ledger stream) (append_nil _)
  | failed active wrong => exact h.failed wrong

/-- Credit is conserved on every stream in every run, whatever the peer sends. Every
call returns, so no checked operation panics, and the accounting overflow is never
reported. `ledger` counts, from all outputs queued so far, the bytes a stream has
taken and the credit it has announced. The first credit widens the default window to
the configured one, so what was taken and not yet given back is what the last line
bounds by the receive window. -/
theorem credit_conservation {role : YamuxRole} {config : YamuxConfig} {start : YamuxSession}
    (accepted : withConfig role config = .ok start) (calls : List Call) :
    ∃ log s, Machine.run call start calls = some (log, s) ∧
      (∀ entry ∈ log, ∀ discarded,
        entry.2 ≠ .fed (.error (.protocol "receive accounting overflow")) discarded) ∧
      ∀ stream st, s.core.streams.get stream = some st →
        st.receiveWindow + st.deliveredSinceUpdate + st.pendingCredit =
            config.receiveWindow.toNat ∧
          st.deliveredSinceUpdate ≤ config.receiveWindow.toNat / 2 ∧
          let l := ledger stream (seenOutputs (history log) ++ s.core.pending)
          l.received + st.receiveWindow = defaultReceiveWindow + l.credited ∧
            l.received + (config.receiveWindow.toNat - defaultReceiveWindow) ≤
              l.credited + config.receiveWindow.toNat := by
  obtain ⟨valid, rfl, rfl⟩ := withConfig_ok accepted
  have start : Ledgers [] (fromValidatedConfig role valid).core :=
    ⟨fun stream => balanced_none _, fun stream st tracked => (by cases tracked),
      fun _ _ _ _ _ => rfl⟩
  obtain ⟨log, s, es, runs, good, same, ledgers, -, said, conserves⟩ :=
    run_steps start (fun h step => h.step step) calls
  refine ⟨log, s, runs, fun entry member discarded overflow => ?_, fun stream st tracked => ?_⟩
  · have conserve := conserves entry member
    rw [overflow] at conserve
    exact conserve rfl
  · obtain ⟨sound, -, -⟩ := good.sound.streams stream st tracked
    rw [same] at sound
    have balance := ledgers.balanced stream st tracked
    rw [said] at balance
    have window := valid.window_ok
    have credit := sound.credit
    exact ⟨credit, sound.threshold, balance, by omega⟩

/-- A stream that has announced itself and taken five bytes. -/
theorem credit_conservation_client :
    withConfig .client YamuxConfig.default.toYamuxConfig = .ok (.new .client) ∧
      ∃ log s st, Machine.run call (.new .client)
          [.request .openStream, .request .pollOutput,
            .handleData (dataFrame 1 flagAck [1, 2, 3, 4, 5]).encode] =
          some (log, s) ∧ s.core.streams.get 1 = some st ∧
        st.receiveWindow + st.deliveredSinceUpdate + st.pendingCredit = 262144 := by
  refine ⟨rfl, ?_⟩
  obtain ⟨log, s, runs, -, holds⟩ := @credit_conservation .client
    YamuxConfig.default.toYamuxConfig (.new .client) rfl
    [.request .openStream, .request .pollOutput,
      .handleData (dataFrame 1 flagAck [1, 2, 3, 4, 5]).encode]
  have tracked : (Machine.run call (.new .client)
      [.request .openStream, .request .pollOutput,
        .handleData (dataFrame 1 flagAck [1, 2, 3, 4, 5]).encode]).elim
      false (fun r => (r.2.core.streams.get 1).isSome) = true := by decide
  rw [runs] at tracked
  obtain ⟨st, hst⟩ := Option.isSome_iff_exists.mp tracked
  exact ⟨log, s, st, runs, hst, (holds 1 st hst).1⟩

/-- Parked bytes are counted per stream and in total, within the caps, in every run.
Every call returns, so no counter is taken below zero, and a refused `send` changes
nothing. -/
theorem send_accounting {role : YamuxRole} {config : YamuxConfig} {start : YamuxSession}
    (accepted : withConfig role config = .ok start) (calls : List Call) :
    ∃ log s, Machine.run call start calls = some (log, s) ∧
      (∀ stream st, s.core.streams.get stream = some st →
        st.bufferedSend = (st.sendBuffer.map List.length).sum ∧
          st.bufferedSend ≤ config.maxBufferedSend ∧
          (st.sendBuffer ≠ [] → st.sendWindow = 0) ∧
          (st.closePending = true → st.sendBuffer ≠ [])) ∧
      s.core.totalBufferedSend = s.core.streams.sum (fun _ st => st.bufferedSend) ∧
      s.core.totalBufferedSend ≤ config.maxTotalBufferedSend ∧
      ∀ stream data e s', s.call (.request (.send stream data)) =
        some (.done (.error e), s') → s' = s := by
  obtain ⟨valid, rfl, rfl⟩ := withConfig_ok accepted
  obtain ⟨log, s, es, runs, good, same, -⟩ := @run_steps role valid (fun _ _ => True) trivial
    (fun _ _ => trivial) calls
  refine ⟨log, s, runs, fun stream st tracked => ?_, good.sound.total, ?_, ?_⟩
  · obtain ⟨sound, settled, -⟩ := good.sound.streams stream st tracked
    rw [same] at sound
    exact ⟨sound.buffered, sound.cap, settled.exhausted, settled.deferred⟩
  · have cap := good.sound.cap
    rwa [same] at cap
  · intro stream data e s' refused
    rcases s.core.send_spec good.sound stream data with ⟨core, ls, sent, -⟩ | ⟨e', failed⟩
    · simp [call, request, withCore, sent] at refused
    · simp only [call, request, withCore, failed, Option.some.injEq,
        Prod.mk.injEq] at refused
      exact refused.2.symm

theorem send_accounting_server :
    withConfig .server YamuxConfig.default.toYamuxConfig = .ok (.new .server) ∧
      ∃ log s, Machine.run call (.new .server)
          [.request .openStream, .request (.send 2 [1, 2, 3]), .request (.closeWrite 2),
            .request (.send 2 [4])] = some (log, s) ∧
        s.core.totalBufferedSend = s.core.streams.sum (fun _ st => st.bufferedSend) ∧
        s.core.totalBufferedSend ≤ 4 * 1024 * 1024 := by
  refine ⟨rfl, ?_⟩
  obtain ⟨log, s, runs, -, total, cap, -⟩ := @send_accounting .server
    YamuxConfig.default.toYamuxConfig (.new .server) rfl
    [.request .openStream, .request (.send 2 [1, 2, 3]), .request (.closeWrite 2),
      .request (.send 2 [4])]
  exact ⟨log, s, runs, total, cap⟩

end Yamux
