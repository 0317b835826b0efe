import MiniP2P.Lib.Trace
import MiniP2P.Yamux.Session

/-! What a session does to one stream, as a short list of acts. Sending, flushing
and closing are traces of acts; an incoming frame is first consumed and then
followed by acts. Every property of a stream is proved once for each act. -/
namespace Yamux
open Transition List StreamState Yamux.Frame

def dataFrame (stream : UInt32) (flags : UInt16) (payload : List UInt8) : Frame :=
  ⟨.data, flags, stream, UInt32.ofNat payload.length, payload⟩

def creditFrame (stream : UInt32) (flags : UInt16) (credit : Nat) : Frame :=
  ⟨.windowUpdate, flags, stream, UInt32.ofNat credit, []⟩

inductive Label where
  | accept (bytes : List UInt8)
  | frame (f : Frame)
  | event (output : YamuxOutput)

variable {ls : List Label} {st st' : StreamState} {config : ValidConfig} {stream : UInt32}
    {a b : Option StreamState} {f : Frame}

namespace Label

def output : Label → Option YamuxOutput
  | .accept _ => none
  | .frame f => some (.outbound f.encode)
  | .event o => some o

def outputs (ls : List Label) : List YamuxOutput := ls.filterMap output

def accepted : List Label → List UInt8
  | [] => []
  | .accept bytes :: ls => bytes ++ accepted ls
  | .frame _ :: ls => accepted ls
  | .event _ :: ls => accepted ls

def frames : List Label → List Frame
  | [] => []
  | .accept _ :: ls => frames ls
  | .frame f :: ls => f :: frames ls
  | .event _ :: ls => frames ls

def events : List Label → List YamuxOutput
  | [] => []
  | .accept _ :: ls => events ls
  | .frame _ :: ls => events ls
  | .event o :: ls => o :: events ls

@[simp] theorem outputs_nil : outputs [] = [] := rfl
@[simp] theorem outputs_accept (bytes : List UInt8) (ls : List Label) :
    outputs (.accept bytes :: ls) = outputs ls := rfl
@[simp] theorem outputs_frame (f : Frame) (ls : List Label) :
    outputs (.frame f :: ls) = .outbound f.encode :: outputs ls := rfl
@[simp] theorem outputs_event (o : YamuxOutput) (ls : List Label) :
    outputs (.event o :: ls) = o :: outputs ls := rfl

@[simp] theorem outputs_append (ls ms : List Label) :
    outputs (ls ++ ms) = outputs ls ++ outputs ms := filterMap_append

@[simp] theorem accepted_append (ls ms : List Label) :
    accepted (ls ++ ms) = accepted ls ++ accepted ms := by
  induction ls with
  | nil => rfl
  | cons l ls ih => cases l <;> simp [accepted, ih]

@[simp] theorem frames_append (ls ms : List Label) :
    frames (ls ++ ms) = frames ls ++ frames ms := by
  induction ls with
  | nil => rfl
  | cons l ls ih => cases l <;> simp [frames, ih]

@[simp] theorem events_append (ls ms : List Label) :
    events (ls ++ ms) = events ls ++ events ms := by
  induction ls with
  | nil => rfl
  | cons l ls ih => cases l <;> simp [events, ih]

@[simp] theorem frames_frames (fs : List Frame) : frames (fs.map .frame) = fs := by
  induction fs with
  | nil => rfl
  | cons f fs ih => exact congrArg (f :: ·) ih

@[simp] theorem events_frames (fs : List Frame) : events (fs.map .frame) = [] := by
  induction fs with
  | nil => rfl
  | cons f fs ih => exact ih

@[simp] theorem accepted_frames (fs : List Frame) : accepted (fs.map .frame) = [] := by
  induction fs with
  | nil => rfl
  | cons f fs ih => simpa [accepted] using ih

theorem outputs_of_frames (silent : events ls = []) :
    outputs ls = (frames ls).map (fun f => .outbound f.encode) := by
  induction ls with
  | nil => rfl
  | cons l ls ih =>
    cases l with
    | accept bytes => exact ih silent
    | frame f => exact congrArg (YamuxOutput.outbound f.encode :: ·) (ih silent)
    | event o => cases silent

end Label

open Label

namespace StreamState

def openFlags (st : StreamState) : UInt16 :=
  match st.pendingOpen with
  | some .syn => flagSyn
  | some .ack => flagAck
  | none => 0

def opened (st : StreamState) : StreamState :=
  { st with
    pendingOpen := none
    acknowledged := st.acknowledged || st.pendingOpen == some .ack }

theorem takeOpenFlag_eq (st : StreamState) : st.takeOpenFlag = (st.openFlags, st.opened) := by
  cases st with
  | mk lo po => rcases po with _ | _ | _ <;> simp [openFlags, takeOpenFlag, opened]

theorem openFlags_cases (st : StreamState) : (st.pendingOpen = none ∧ st.openFlags = 0) ∨
      (st.pendingOpen = some .syn ∧ st.openFlags = flagSyn) ∨
      (st.pendingOpen = some .ack ∧ st.openFlags = flagAck) := by
  rcases h : st.pendingOpen with _ | _ | _ <;> simp [openFlags, h]

theorem openFlags_legal (st : StreamState) : st.openFlags &&& ~~~streamFlags = 0 := by
  rcases st.openFlags_cases with ⟨-, h⟩ | ⟨-, h⟩ | ⟨-, h⟩ <;> rw [h] <;> decide

theorem finFlags_legal (st : StreamState) : (st.openFlags ||| flagFin) &&& ~~~streamFlags = 0 := by
  rcases st.openFlags_cases with ⟨-, h⟩ | ⟨-, h⟩ | ⟨-, h⟩ <;> rw [h] <;> decide

theorem opened_self {st : StreamState} (h : st.pendingOpen = none) : st.opened = st := by
  cases st with
  | mk lo po => cases h; simp [opened]

theorem openFlags_none (h : st.pendingOpen = none) : st.openFlags = 0 := by
  simp [openFlags, h]

def raise (st : StreamState) (n : Nat) : StreamState := { st with sendWindow := st.sendWindow + n }

def finished (st : StreamState) : StreamState :=
  { st.opened with closePending := false, localWriteClosed := true }

def advertised (st : StreamState) : StreamState :=
  { st.opened with
    pendingCredit := 0
    receiveWindow := st.receiveWindow + st.pendingCredit }

def park (st : StreamState) (bytes : List UInt8) : StreamState :=
  { st with
    sendBuffer := st.sendBuffer ++ [bytes]
    bufferedSend := st.bufferedSend + bytes.length }

/-- `send` takes bytes on this stream. -/
structure Writable (st : StreamState) : Prop where
  unclosed : st.localWriteClosed = false
  undeferred : st.closePending = false

/-- Counters that every act keeps: receive credit is conserved, the parked bytes are
counted, and no chunk is empty. -/
structure Sound (config : ValidConfig) (st : StreamState) : Prop where
  window : st.sendWindow ≤ u32Max
  credit : st.receiveWindow + st.deliveredSinceUpdate + st.pendingCredit =
    config.receiveWindow.toNat
  threshold : st.deliveredSinceUpdate ≤ config.receiveWindow.toNat / 2
  buffered : st.bufferedSend = (st.sendBuffer.map List.length).sum
  chunks : ∀ chunk ∈ st.sendBuffer, chunk ≠ []
  cap : st.bufferedSend ≤ config.maxBufferedSend
  closed : st.localWriteClosed = true → st.sendBuffer = [] ∧ st.closePending = false

/-- What holds between calls: parked bytes mean an exhausted window, and a deferred
close means parked bytes. -/
structure Settled (st : StreamState) : Prop where
  exhausted : st.sendBuffer ≠ [] → st.sendWindow = 0
  deferred : st.closePending = true → st.sendBuffer ≠ []

theorem Sound.receiveWindow_le (h : st.Sound config) :
    st.receiveWindow + st.deliveredSinceUpdate + st.pendingCredit ≤ u32Max := by
  rw [h.credit]
  have := config.receiveWindow.toNat_lt
  simp only [u32Max]
  omega

theorem Sound.buffered_zero (h : st.Sound config) : st.bufferedSend = 0 ↔ st.sendBuffer = [] := by
  rw [h.buffered]
  cases hb : st.sendBuffer with
  | nil => simp
  | cons chunk rest =>
    have nonempty := length_pos_iff.mpr (h.chunks chunk (by simp [hb]))
    simp only [map_cons, sum_cons, reduceCtorEq, iff_false]
    omega

end StreamState

/-- The acts of a session on one stream that consume no input. `late` permits the one
exception, a FIN on a window update, which is noted after the flush it caused. -/
inductive Act (config : ValidConfig) (stream : UInt32) (late : Prop) :
    Option StreamState → List Label → Option StreamState → Prop where
  | park {st : StreamState} {bytes : List UInt8} (writable : st.Writable) (nonempty : bytes ≠ [])
      (spent : st.sendWindow = 0)
      (room : st.bufferedSend + bytes.length ≤ config.maxBufferedSend) :
      Act config stream late (some st) [.accept bytes] (some (st.park bytes))
  | push {st : StreamState} {bytes : List UInt8} (writable : st.Writable)
      (drained : bytes ≠ [] → st.sendBuffer = []) (credit : bytes.length ≤ st.sendWindow)
      (fits : bytes.length ≤ config.maxFrameLen.toNat) :
      Act config stream late (some st)
        [.accept bytes, .frame (dataFrame stream st.openFlags bytes)]
        (some (st.opened.spend bytes.length))
  | flush {st : StreamState} {chunk : List UInt8} {rest : List (List UInt8)} {n : Nat}
      (front : st.sendBuffer = chunk :: rest) (positive : 0 < n) (within : n ≤ chunk.length)
      (credit : n ≤ st.sendWindow) (fits : n ≤ config.maxFrameLen.toNat) :
      Act config stream late (some st)
        [.frame (dataFrame stream st.openFlags (chunk.take n))]
        (some ((st.takeChunk rest n (st.bufferedSend - n)).opened.putBack (chunk.drop n)))
  | fin {st : StreamState} (unclosed : st.localWriteClosed = false)
      (drained : st.sendBuffer = []) :
      Act config stream late (some st)
        [.frame (dataFrame stream (st.openFlags ||| flagFin) [])]
        (some st.finished)
  | closeLater {st : StreamState} (writable : st.Writable) (parked : st.sendBuffer ≠ []) :
      Act config stream late (some st) [] (some { st with closePending := true })
  | advertise {st : StreamState} (small : st.pendingCredit ≤ u32Max) :
      Act config stream late (some st)
        [.frame (creditFrame stream st.openFlags st.pendingCredit)]
        (some st.advertised)
  | reset {st : StreamState} :
      Act config stream late (some st)
        [.frame (dataFrame stream flagRst []), .event (.streamClosed stream)] none
  | closed {st : StreamState} (here : st.localWriteClosed = true)
      (there : st.remoteWriteClosed = true) :
      Act config stream late (some st) [.event (.streamClosed stream)] none
  | remoteFin {st : StreamState} (permitted : late) (unclosed : st.remoteWriteClosed = false) :
      Act config stream late (some st) [.event (.remoteWriteClosed stream)]
        (some { st with remoteWriteClosed := true })

/-- A frame that any peer with the same or a larger payload limit decodes. -/
structure Sendable (config : ValidConfig) (stream : UInt32) (f : Frame) : Prop where
  valid : f.Valid
  id : f.streamId = stream
  fits : f.frameType = .data → f.value ≤ config.maxFrameLen

theorem dataFrame_sendable (nonzero : stream ≠ 0) {flags : UInt16}
    (legal : flags &&& ~~~streamFlags = 0) {payload : List UInt8}
    (fits : payload.length ≤ config.maxFrameLen.toNat) :
    Sendable config stream (dataFrame stream flags payload) := by
  have short : payload.length < 2 ^ 32 := Nat.lt_of_le_of_lt fits config.maxFrameLen.toNat_lt
  refine ⟨(data_valid (data_ok nonzero legal short)).1, rfl, fun _ => ?_⟩
  exact Nat.le_trans (Nat.le_of_eq (UInt32.toNat_ofNat_of_lt' short)) fits

theorem creditFrame_sendable (nonzero : stream ≠ 0) {flags : UInt16}
    (legal : flags &&& ~~~streamFlags = 0) (credit : Nat) :
    Sendable config stream (creditFrame stream flags credit) :=
  ⟨(windowUpdate_valid (windowUpdate_ok _ nonzero legal)).1, rfl, nofun⟩

variable {late : Prop} {config : ValidConfig}

theorem Act.sendable {stream : UInt32}
    {a b : Option StreamState} {ls : List Label} (act : Act config stream late a ls b)
    (nonzero : stream ≠ 0) : ∀ f ∈ Label.frames ls, Sendable config stream f := by
  intro f member
  cases act with
  | push writable drained credit fits =>
    cases mem_singleton.mp member
    exact dataFrame_sendable nonzero (openFlags_legal _) fits
  | flush front positive within credit fits =>
    cases mem_singleton.mp member
    refine dataFrame_sendable nonzero (openFlags_legal _) ?_
    rw [length_take]
    omega
  | fin unclosed drained =>
    cases mem_singleton.mp member
    exact dataFrame_sendable nonzero (finFlags_legal _) (Nat.zero_le _)
  | advertise small =>
    cases mem_singleton.mp member
    exact creditFrame_sendable nonzero (openFlags_legal _) _
  | reset =>
    cases mem_singleton.mp member
    exact dataFrame_sendable nonzero (by decide) (Nat.zero_le _)
  | _ => cases member

def SoundStream (config : ValidConfig) (o : Option StreamState) : Prop :=
  ∀ st, o = some st → st.Sound config

theorem sum_flush {n : Nat} {chunk : List UInt8} (rest : List (List UInt8))
    (within : n ≤ chunk.length) :
    ((if (chunk.drop n).isEmpty then rest else chunk.drop n :: rest).map List.length).sum + n =
      ((chunk :: rest).map List.length).sum := by
  split
  · rename_i empty
    have len : chunk.length - n = 0 := by
      rw [← length_drop, List.isEmpty_iff.mp empty]
      rfl
    simp only [map_cons, sum_cons]
    omega
  · simp only [map_cons, sum_cons, length_drop]
    omega

theorem Act.sound (act : Act config stream late a ls b)
    (before : SoundStream config a) : SoundStream config b := by
  intro st' after
  cases act with
  | @park st bytes writable nonempty spent room =>
    cases after
    have h := before st rfl
    refine ⟨h.window, h.credit, h.threshold, ?_, ?_, room, ?_⟩
    · simp [StreamState.park, h.buffered]
    · exact forall_mem_append.mpr ⟨h.chunks, forall_mem_singleton.mpr nonempty⟩
    · have unclosed := writable.unclosed
      simp_all [StreamState.park]
  | @push st bytes writable drained credit fits =>
    cases after
    have h := before st rfl
    exact { h with window := Nat.le_trans (Nat.sub_le _ _) h.window }
  | @flush st chunk rest n front positive within credit fits =>
    cases after
    have h := before st rfl
    have counted := h.buffered
    rw [front, ← sum_flush rest within] at counted
    refine ⟨?_, h.credit, h.threshold, ?_, ?_, ?_, ?_⟩
    · exact Nat.le_trans (Nat.sub_le _ _) h.window
    · simp only [putBack, opened, takeChunk]
      omega
    · intro c member
      simp only [putBack, opened, takeChunk] at member
      split at member
      · exact h.chunks c (by simp [front, member])
      · rename_i left
        rcases mem_cons.mp member with rfl | member
        · simpa using left
        · exact h.chunks c (by simp [front, member])
    · exact Nat.le_trans (Nat.sub_le _ _) h.cap
    · intro closed
      have empty := (h.closed closed).1
      rw [front] at empty
      cases empty
  | @fin st unclosed drained =>
    cases after
    have h := before st rfl
    exact { h with closed := fun _ => ⟨drained, rfl⟩ }
  | @closeLater st writable parked =>
    cases after
    have h := before st rfl
    refine { h with closed := fun closed => ?_ }
    have unclosed := writable.unclosed
    simp_all
  | @advertise st small =>
    cases after
    have h := before st rfl
    refine { h with credit := ?_ }
    have credit := h.credit
    simp only [advertised, opened]
    omega
  | reset => cases after
  | closed => cases after
  | @remoteFin st permitted unclosed =>
    cases after
    have h := before st rfl
    exact { h with }

section Loops

variable {config : ValidConfig} {stream : UInt32} {late : Prop}

theorem rest_eq_drop (n : Nat) (bytes : List UInt8) :
    (if n < bytes.length then bytes.drop n else []) = bytes.drop n := by
  split
  · rfl
  · rename_i short
    exact (drop_eq_nil_of_le (Nat.le_of_not_lt short)).symm

section

variable (nonzero : stream ≠ 0)
include nonzero

/-- The loop of `send` pushes all its bytes, the opening flag on the first frame. The
program has already spent the window for them. -/
theorem sendLoop_acts {fuel : Nat} {first : Bool} {st : StreamState}
    {immediate : List UInt8} (frames : List Frame) (writable : st.Writable)
    (drained : st.sendBuffer = []) (flagged : first = true ∨ st.pendingOpen = none)
    (enough : immediate.length ≤ fuel) :
    ∃ ls, sendLoop stream config.maxFrameLen.toNat fuel first st immediate frames =
        some (.ok (frames ++ Label.frames ls), if immediate = [] then st else st.opened) ∧
      Trace (Act config stream late)
        (some (st.raise immediate.length)) ls
        (some (if immediate = [] then st else st.opened)) ∧
      accepted ls = immediate ∧ Label.events ls = [] := by
  induction fuel generalizing first st immediate frames with
  | zero =>
    cases eq_nil_of_length_eq_zero (Nat.le_zero.mp enough)
    exact ⟨[], by simp [sendLoop, Label.frames], .nil _, rfl, rfl⟩
  | succ fuel ih =>
    cases immediate with
    | nil => exact ⟨[], by simp [sendLoop, Label.frames], .nil _, rfl, rfl⟩
    | cons byte bytes =>
      generalize himm : byte :: bytes = immediate at enough
      have nonempty : immediate ≠ [] := by simp [← himm]
      have frame_ok := config.frame_ok
      have taken : (if first = true then st.takeOpenFlag else (0, st)) =
          (st.openFlags, st.opened) := by
        rcases flagged with h | h
        · rw [if_pos h, takeOpenFlag_eq]
        · split
          · exact takeOpenFlag_eq st
          · rw [openFlags_none h, opened_self h]
      have fits : (immediate.take config.maxFrameLen.toNat).length ≤
          config.maxFrameLen.toNat := by
        rw [length_take]
        omega
      have built : data stream st.openFlags (immediate.take config.maxFrameLen.toNat) =
          .ok (dataFrame stream st.openFlags (immediate.take config.maxFrameLen.toNat)) :=
        data_ok nonzero st.openFlags_legal
          (Nat.lt_of_le_of_lt fits config.maxFrameLen.toNat_lt)
      have shorter : (immediate.drop config.maxFrameLen.toNat).length ≤ fuel := by
        rw [length_drop]
        omega
      obtain ⟨ls, runs, trace, bytes_eq, silent⟩ := @ih false st.opened _
        (frames ++ [dataFrame stream st.openFlags (immediate.take config.maxFrameLen.toNat)])
        ⟨writable.unclosed, writable.undeferred⟩ drained (.inr rfl) shorter
      have last : (if immediate.drop config.maxFrameLen.toNat = [] then st.opened
          else st.opened.opened) = st.opened := by
        rw [@opened_self st.opened rfl, ite_self]
      rw [last] at runs trace
      refine ⟨[.accept (immediate.take config.maxFrameLen.toNat),
        .frame (dataFrame stream st.openFlags (immediate.take config.maxFrameLen.toNat))] ++ ls,
        ?_, ?_, ?_, ?_⟩
      · subst himm
        simp only [sendLoop, taken, built, rest_eq_drop, runs]
        simp [Label.frames]
      · rw [if_neg nonempty]
        have credit : (immediate.take config.maxFrameLen.toNat).length ≤
            (st.raise immediate.length).sendWindow := by
          simp only [length_take, raise]
          omega
        have unclosed : (st.raise immediate.length).Writable :=
          ⟨writable.unclosed, writable.undeferred⟩
        refine .cons (.push unclosed (fun _ => drained) credit fits) ?_
        · have left : (st.raise immediate.length).opened.spend
              (immediate.take config.maxFrameLen.toNat).length =
              st.opened.raise (immediate.drop config.maxFrameLen.toNat).length := by
            simp only [spend, raise, opened,
              length_take, length_drop]
            congr 1
            omega
          rw [left]
          exact trace
      · simp [accepted, bytes_eq]
      · simpa [Label.events] using silent

/-- The bytes within the window: none when it is exhausted, and only then may chunks
already be parked. -/
theorem sendNow_acts {st : StreamState} (settled : st.Settled)
    (writable : st.Writable) {now : List UInt8} (within : now.length ≤ st.sendWindow) :
    ∃ ls st', st.sendNow stream config.maxFrameLen.toNat now =
        some (.ok (Label.frames ls), st') ∧
      Trace (Act config stream late) (some st) ls (some st') ∧
      accepted ls = now ∧ Label.events ls = [] ∧
      (st' = st.spend now.length ∨ st' = (st.spend now.length).opened) := by
  by_cases zero : now.length = 0
  · cases eq_nil_of_length_eq_zero zero
    exact ⟨[], st, by simp [sendNow, spend, Label.frames], .nil _, rfl, rfl, .inl rfl⟩
  · have drained : st.sendBuffer = [] := by
      by_contra parked
      have := settled.exhausted parked
      omega
    obtain ⟨ls, runs, trace, bytes, silent⟩ := @sendLoop_acts config stream late nonzero
      now.length true (st.spend now.length) now [] ⟨writable.unclosed, writable.undeferred⟩
      drained (.inl rfl) (Nat.le_refl _)
    have nonempty : now ≠ [] := fun h => zero (by rw [h]; rfl)
    have spent : (st.spend now.length).raise now.length = st := by
      simp only [spend, raise, Nat.sub_add_cancel within]
    rw [if_neg nonempty] at runs trace
    rw [spent] at trace
    exact ⟨ls, _, by simpa [sendNow, zero] using runs, trace, bytes, silent, .inr rfl⟩

/-- `send` on a settled stream takes all its bytes: what the window allows goes out
now, the rest is parked. -/
theorem send_acts {st : StreamState} (settled : st.Settled)
    (writable : st.Writable) {data : List UInt8}
    (room : st.bufferedSend + (data.length - min data.length st.sendWindow) ≤
      config.maxBufferedSend) :
    ∃ ls st', st.send stream config.maxFrameLen.toNat data = some (.ok (Label.frames ls), st') ∧
      Trace (Act config stream late) (some st) ls (some st') ∧
      accepted ls = data ∧ Label.events ls = [] ∧ st'.Settled ∧
      st'.bufferedSend = st.bufferedSend + (data.length - min data.length st.sendWindow) := by
  by_cases opening : (data.isEmpty && st.pendingOpen.isSome) = true
  · obtain ⟨empty, flagged⟩ := Bool.and_eq_true_iff.mp opening
    cases List.isEmpty_iff.mp empty
    have built : data stream st.openFlags [] = .ok (dataFrame stream st.openFlags []) :=
      data_ok nonzero st.openFlags_legal (by decide)
    refine ⟨[.accept [], .frame (dataFrame stream st.openFlags [])], st.opened, ?_, ?_, rfl, rfl,
      ⟨settled.exhausted, settled.deferred⟩, rfl⟩
    · simp [send, flagged, takeOpenFlag_eq, built, Label.frames]
    · exact .single (.push writable (by simp) (by simp) (by simp))
  · generalize hn : min data.length st.sendWindow = n at room ⊢
    have taken : (data.take n).length = n := by
      rw [length_take]
      omega
    obtain ⟨ls, st', runs, trace, bytes, silent, shape⟩ := @sendNow_acts config stream late
      nonzero st settled writable (data.take n) (by omega)
    rw [taken] at shape
    have kept : st'.sendWindow = st.sendWindow - n ∧ st'.sendBuffer = st.sendBuffer ∧
        st'.bufferedSend = st.bufferedSend ∧ st'.closePending = st.closePending ∧
        st'.Writable := by
      rcases shape with rfl | rfl
      · exact ⟨rfl, rfl, rfl, rfl, writable.unclosed, writable.undeferred⟩
      · exact ⟨rfl, rfl, rfl, rfl, writable.unclosed, writable.undeferred⟩
    obtain ⟨window, buffer, count, closing, unclosed⟩ := kept
    have start : st.send stream config.maxFrameLen.toNat data =
        if (data.drop n).isEmpty then some (.ok (Label.frames ls), st')
        else some (.ok (Label.frames ls), st'.park (data.drop n)) := by
      simp only [send, hn, if_neg opening, runs, StreamState.park]
    by_cases all : (data.drop n).isEmpty = true
    · have whole : data.take n = data := by
        rw [List.isEmpty_iff] at all
        have split := take_append_drop n data
        rwa [all, append_nil] at split
      have len : data.length = n := by rw [← taken, whole]
      refine ⟨ls, st', by rw [start, if_pos all], trace, by rw [bytes, whole], silent, ?_, by omega⟩
      refine ⟨fun parked => ?_, fun closing' => ?_⟩
      · rw [buffer] at parked
        have := settled.exhausted parked
        omega
      · rw [closing] at closing'
        rw [buffer]
        exact settled.deferred closing'
    · have nonempty : data.drop n ≠ [] := by simpa [List.isEmpty_iff] using all
      have more : 0 < (data.drop n).length := length_pos_iff.mpr nonempty
      rw [length_drop] at more
      have spent : st'.sendWindow = 0 := by omega
      refine ⟨ls ++ [.accept (data.drop n)], st'.park (data.drop n), ?_, ?_, ?_, ?_, ?_, ?_⟩
      · rw [start, if_neg all]
        simp [Label.frames]
      · refine trace.append (.single (.park unclosed nonempty spent ?_))
        rw [count, length_drop]
        exact room
      · simp [accepted, bytes]
      · simp [Label.events, silent]
      · exact ⟨fun _ => spent, fun closing' => by simp [StreamState.park]⟩
      · simp [StreamState.park, count]

theorem flushLoop_acts {fuel : Nat} {st : StreamState}
    (frames : List Frame) (drained : Nat) (sound : st.Sound config)
    (enough : st.flushFuel ≤ fuel) :
    ∃ fs n st', flushLoop stream config.maxFrameLen.toNat fuel st frames drained =
        some (.ok (frames ++ fs, drained + n), st') ∧
      Trace (Act config stream late) (some st) (fs.map .frame) (some st') ∧
      n + st'.bufferedSend = st.bufferedSend ∧
      (st'.sendBuffer ≠ [] → st'.sendWindow = 0) ∧ st'.closePending = st.closePending ∧
      st'.localWriteClosed = st.localWriteClosed ∧
      st'.remoteWriteClosed = st.remoteWriteClosed := by
  induction fuel generalizing st frames drained with
  | zero =>
    have drainedAll : st.sendBuffer = [] := by
      cases hb : st.sendBuffer with
      | nil => rfl
      | cons chunk rest => simp [flushFuel, hb] at enough
    refine ⟨[], 0, st, ?_, .nil _, by omega, fun h => absurd drainedAll h, rfl, rfl, rfl⟩
    unfold flushLoop
    split
    · simp
    · simp [drainedAll]
  | succ fuel ih =>
    by_cases spent : st.sendWindow = 0
    · refine ⟨[], 0, st, ?_, .nil _, by omega, fun _ => spent, rfl, rfl, rfl⟩
      unfold flushLoop
      simp [spent]
    · cases hb : st.sendBuffer with
      | nil =>
        refine ⟨[], 0, st, ?_, .nil _, by omega, fun h => absurd hb h, rfl, rfl, rfl⟩
        unfold flushLoop
        simp [spent, hb]
      | cons chunk rest =>
        have frame_ok := config.frame_ok
        have nonempty : 0 < chunk.length :=
          length_pos_iff.mpr (sound.chunks chunk (by simp [hb]))
        have counted : chunk.length ≤ st.bufferedSend := by
          simp [sound.buffered, hb]
        generalize hn : min (min chunk.length st.sendWindow) config.maxFrameLen.toNat = n
        generalize hnext :
          (st.takeChunk rest n (st.bufferedSend - n)).opened.putBack (chunk.drop n) = next
        have act : Act config stream late (some st)
            [.frame (dataFrame stream st.openFlags (chunk.take n))] (some next) :=
          hnext ▸ .flush hb (by omega) (by omega) (by omega) (by omega)
        have soundNext : next.Sound config :=
          act.sound (fun st' h => by cases h; exact sound) next rfl
        have less : next.flushFuel ≤ fuel := by
          subst hnext
          simp only [flushFuel, hb, map_cons, sum_cons,
            putBack, opened, takeChunk] at enough ⊢
          split
          · omega
          · simp only [map_cons, sum_cons, length_drop]
            omega
        have built : data stream st.openFlags (chunk.take n) =
            .ok (dataFrame stream st.openFlags (chunk.take n)) := by
          refine data_ok nonzero st.openFlags_legal ?_
          have := config.maxFrameLen.toNat_lt
          rw [length_take]
          omega
        have checked : checkedSub st.bufferedSend n = some (st.bufferedSend - n) :=
          if_pos (by omega)
        obtain ⟨fs, m, st', runs, trace, count, settled, closing, here, there⟩ := ih
          (frames ++ [dataFrame stream st.openFlags (chunk.take n)]) (drained + n) soundNext less
        refine ⟨dataFrame stream st.openFlags (chunk.take n) :: fs, n + m, st', ?_,
          .cons act trace, ?_, settled, ?_, ?_, ?_⟩
        · unfold flushLoop
          have flags : (st.takeChunk rest n (st.bufferedSend - n)).openFlags = st.openFlags := rfl
          simp only [if_neg spent, hb, hn, checked, Option.bind_eq_bind, Option.bind_some,
            takeOpenFlag_eq, flags, built, hnext, runs]
          simp [Nat.add_assoc]
        · subst hnext
          simp only [putBack, opened, takeChunk] at count
          omega
        · rw [closing, ← hnext]; rfl
        · rw [here, ← hnext]; rfl
        · rw [there, ← hnext]; rfl

theorem flush_acts {st : StreamState} (sound : st.Sound config) :
    ∃ fs n closed st', st.flush stream config.maxFrameLen.toNat =
        some (.ok (fs, n, closed), st') ∧
      Trace (Act config stream late) (some st) (fs.map .frame) (some st') ∧
      n + st'.bufferedSend = st.bufferedSend ∧ st'.Settled ∧
      st'.remoteWriteClosed = st.remoteWriteClosed ∧
      (closed = true → st'.localWriteClosed = true) := by
  obtain ⟨fs, n, st', runs, trace, count, exhausted, closing, here, there⟩ :=
    @flushLoop_acts config stream late nonzero st.flushFuel st [] 0 sound (Nat.le_refl _)
  rw [nil_append, Nat.zero_add] at runs
  by_cases last : (st'.sendBuffer.isEmpty && st'.closePending) = true
  · obtain ⟨empty, deferred⟩ := Bool.and_eq_true_iff.mp last
    have drained : st'.sendBuffer = [] := List.isEmpty_iff.mp empty
    have soundLast : st'.Sound config :=
      trace.invariant (fun h act => act.sound h) (fun _ h => by cases h; exact sound) st' rfl
    have unclosed : st'.localWriteClosed = false := by
      by_contra closed
      have := (soundLast.closed (by simpa using closed)).2
      simp [deferred] at this
    have built : data stream (st'.openFlags ||| flagFin) [] =
        .ok (dataFrame stream (st'.openFlags ||| flagFin) []) :=
      data_ok nonzero st'.finFlags_legal (by decide)
    refine ⟨fs ++ [dataFrame stream (st'.openFlags ||| flagFin) []], n, true,
      st'.finished, ?_, ?_, count, ?_, there, fun _ => rfl⟩
    · unfold flush
      simp only [runs, if_pos last, takeOpenFlag_eq]
      have flags : ({ st' with closePending := false, localWriteClosed := true } :
          StreamState).openFlags = st'.openFlags := rfl
      rw [flags, built]
      rfl
    · rw [map_append]
      exact trace.append (.single (.fin unclosed drained))
    · exact ⟨exhausted, nofun⟩
  · refine ⟨fs, n, false, st', ?_, trace, count, ⟨exhausted, ?_⟩, there, nofun⟩
    · unfold flush
      simp only [runs, if_neg last]
    · intro deferred drained
      simp [drained, deferred] at last

end

end Loops

namespace StreamState

/-- The stream after `receive` took a payload of `n` bytes within its window. -/
def received (st : StreamState) (config : ValidConfig) (n : Nat) : StreamState :=
  { st with
    receiveWindow := st.receiveWindow - n
    pendingCredit := if config.receiveWindow.toNat / 2 < st.deliveredSinceUpdate + n then
      st.pendingCredit + (st.deliveredSinceUpdate + n) else st.pendingCredit
    deliveredSinceUpdate := if config.receiveWindow.toNat / 2 < st.deliveredSinceUpdate + n then
      0 else st.deliveredSinceUpdate + n }

def noteFin (st : StreamState) (flags : UInt16) : StreamState :=
  { st with remoteWriteClosed := st.remoteWriteClosed || hasFlag flags flagFin }

theorem received_credit (st : StreamState) (config : ValidConfig) {n : Nat}
    (fits : n ≤ st.receiveWindow) :
    (st.received config n).receiveWindow + (st.received config n).deliveredSinceUpdate +
      (st.received config n).pendingCredit =
      st.receiveWindow + st.deliveredSinceUpdate + st.pendingCredit := by
  simp only [received]
  split <;> omega

theorem received_threshold (st : StreamState) (config : ValidConfig) (n : Nat) :
    (st.received config n).deliveredSinceUpdate ≤ config.receiveWindow.toNat / 2 := by
  simp only [received]
  split <;> omega

theorem receive_ok (sound : st.Sound config) (stream : UInt32) {n : Nat}
    (fits : n ≤ st.receiveWindow) :
    st.receive config stream n = some (.ok (), st.received config n) := by
  have small := sound.receiveWindow_le
  have delivered : ¬ u32Max < st.deliveredSinceUpdate + n := by omega
  have pending : ¬ u64Max < st.pendingCredit + (st.deliveredSinceUpdate + n) := by
    simp only [u32Max, u64Max] at small ⊢
    omega
  simp only [receive, received, if_neg (Nat.not_lt.mpr fits), if_neg delivered, if_neg pending]
  split <;> simp_all

theorem receive_exceeded (stream : UInt32) {n : Nat} (exceeds : st.receiveWindow < n) :
    st.receive config stream n = some (.error (.receiveWindowExceeded stream), st) := by
  simp only [receive, if_pos exceeds]

end StreamState

def dataLabels (stream : UInt32) (payload : List UInt8) : List Label :=
  if payload.isEmpty then [] else [.event (.data stream payload)]

def finLabels (stream : UInt32) (flags : UInt16) (st : StreamState) : List Label :=
  if hasFlag flags flagFin && !st.remoteWriteClosed then [.event (.remoteWriteClosed stream)]
  else []

/-- What a frame without RST does first to the stream it names. -/
inductive Absorb (config : ValidConfig) (f : Frame) :
    StreamState → List Label → StreamState → Prop where
  | data {st : StreamState} (kind : f.frameType = .data)
      (order : st.remoteWriteClosed = true → f.payload = [])
      (fits : f.value.toNat ≤ st.receiveWindow) :
      Absorb config f st (dataLabels f.streamId f.payload ++ finLabels f.streamId f.flags st)
        (((st.noteAck f.flags).received config f.value.toNat).noteFin f.flags)
  | credit {st : StreamState} (kind : f.frameType = .windowUpdate)
      (fits : st.sendWindow + f.value.toNat ≤ u32Max) :
      Absorb config f st [] ((st.raise f.value.toNat).noteAck f.flags)

/-- What an accepted frame does first. `room` says whether another stream is allowed,
`remote` whether the peer may open the id. -/
inductive Consume (config : ValidConfig) (remote room : Prop) (f : Frame) :
    Option StreamState → List Label → Option StreamState → Prop where
  | resetKnown {st : StreamState} (rst : hasFlag f.flags flagRst = true) :
      Consume config remote room f (some st) [.event (.streamClosed f.streamId)] none
  | resetUnknown (rst : hasFlag f.flags flagRst = true) :
      Consume config remote room f none [] none
  | refuse (rst : hasFlag f.flags flagRst = false)
      (full : hasFlag f.flags flagSyn = true → ¬ room) :
      Consume config remote room f none [.frame (dataFrame f.streamId flagRst [])] none
  | accept {st : StreamState} {ls : List Label} (rst : hasFlag f.flags flagRst = false)
      (syn : hasFlag f.flags flagSyn = true) (parity : remote) (free : room)
      (absorb : Absorb config f (.inbound config defaultReceiveWindow) ls st) :
      Consume config remote room f none (.event (.incomingStream f.streamId) :: ls) (some st)
  | known {st st' : StreamState} {ls : List Label} (rst : hasFlag f.flags flagRst = false)
      (syn : hasFlag f.flags flagSyn = false) (absorb : Absorb config f st ls st') :
      Consume config remote room f (some st) ls (some st')

theorem defaultReceiveWindow_le : defaultReceiveWindow ≤ u32Max := by decide

theorem inbound_sound (config : ValidConfig) :
    (inbound config defaultReceiveWindow).Sound config := by
  have := config.window_ok
  refine ⟨defaultReceiveWindow_le, ?_, Nat.zero_le _, rfl, nofun, Nat.zero_le _, nofun⟩
  simp only [inbound]
  omega

theorem outbound_sound (config : ValidConfig) : (outbound config).Sound config := by
  have := config.window_ok
  refine ⟨defaultReceiveWindow_le, ?_, Nat.zero_le _, rfl, nofun, Nat.zero_le _, nofun⟩
  simp only [outbound]
  omega

theorem Absorb.quiet (absorb : Absorb config f st ls st') :
    accepted ls = [] ∧ Label.frames ls = [] := by
  cases absorb with
  | data kind order fits =>
    simp only [dataLabels, finLabels]
    split <;> split <;> exact ⟨rfl, rfl⟩
  | credit kind fits => exact ⟨rfl, rfl⟩

theorem Absorb.sound (absorb : Absorb config f st ls st') (h : st.Sound config) :
    st'.Sound config := by
  cases absorb with
  | data kind order fits =>
    exact { h with
      credit := (received_credit (st.noteAck f.flags) config fits).trans h.credit
      threshold := received_threshold (st.noteAck f.flags) config f.value.toNat }
  | credit kind fits => exact { h with window := fits }

variable {remote : Prop} {room : Prop}

theorem Consume.sound (consume : Consume config remote room f a ls b)
    (before : SoundStream config a) : SoundStream config b := by
  intro st' after
  cases consume with
  | accept rst syn parity free absorb => cases after; exact absorb.sound (inbound_sound config)
  | known rst syn absorb => cases after; exact absorb.sound (before _ rfl)
  | _ => cases after

theorem Absorb.bufferedSend (absorb : Absorb config f st ls st') :
    st'.bufferedSend = st.bufferedSend := by
  cases absorb <;> rfl

theorem Consume.sendable {f : Frame}
    {a b : Option StreamState} {ls : List Label} (consume : Consume config remote room f a ls b)
    (nonzero : f.streamId ≠ 0) : ∀ g ∈ Label.frames ls, Sendable config f.streamId g := by
  intro g member
  cases consume with
  | refuse rst full =>
    cases mem_singleton.mp member
    exact dataFrame_sendable nonzero (by decide) (Nat.zero_le _)
  | accept rst syn parity free absorb =>
    rw [Label.frames, absorb.quiet.2] at member
    cases member
  | known rst syn absorb =>
    rw [absorb.quiet.2] at member
    cases member
  | _ => cases member

inductive About (stream : UInt32) : YamuxOutput → Prop where
  | frame {f : Frame} (valid : f.Valid) (id : f.streamId = stream) :
      About stream (.outbound f.encode)
  | incoming : About stream (.incomingStream stream)
  | data (bytes : List UInt8) : About stream (.data stream bytes)
  | remoteWriteClosed : About stream (.remoteWriteClosed stream)
  | closed : About stream (.streamClosed stream)

theorem about_outputs (frames : ∀ f ∈ Label.frames ls, Sendable config stream f)
    (events : ∀ o ∈ Label.events ls, About stream o) : ∀ o ∈ outputs ls, About stream o := by
  induction ls with
  | nil => nofun
  | cons l ls ih =>
    intro o member
    cases l with
    | accept bytes => exact ih frames events o member
    | frame f =>
      rcases mem_cons.mp member with rfl | member
      · have sendable := frames f (by simp [Label.frames])
        exact .frame sendable.valid sendable.id
      · exact ih (fun g hg => frames g (by simp [Label.frames, hg])) events o member
    | event e =>
      rcases mem_cons.mp member with rfl | member
      · exact events _ (by simp [Label.events])
      · exact ih frames (fun p hp => events p (by simp [Label.events, hp])) o member

theorem Act.about (act : Act config stream late a ls b) (nonzero : stream ≠ 0) :
    ∀ o ∈ outputs ls, About stream o := by
  refine about_outputs (act.sendable nonzero) (fun o member => ?_)
  cases act with
  | reset | closed here there => cases mem_singleton.mp member; exact .closed
  | remoteFin permitted unclosed =>
    cases mem_singleton.mp member; exact .remoteWriteClosed
  | _ => cases member

theorem Absorb.about (absorb : Absorb config f st ls st') :
    ∀ o ∈ Label.events ls, About f.streamId o := by
  intro o member
  cases absorb with
  | data kind order fits =>
    rw [events_append, mem_append] at member
    rcases member with member | member
    · unfold dataLabels at member
      split at member
      · cases member
      · cases mem_singleton.mp member; exact .data _
    · unfold finLabels at member
      split at member
      · cases mem_singleton.mp member; exact .remoteWriteClosed
      · cases member
  | credit kind fits => cases member

theorem Consume.about (consume : Consume config remote room f a ls b)
    (nonzero : f.streamId ≠ 0) : ∀ o ∈ outputs ls, About f.streamId o := by
  refine about_outputs (consume.sendable nonzero) (fun o member => ?_)
  cases consume with
  | resetKnown rst => cases mem_singleton.mp member; exact .closed
  | accept rst syn parity free absorb =>
    rcases mem_cons.mp member with rfl | member
    · exact .incoming
    · exact absorb.about o member
  | known rst syn absorb => exact absorb.about o member
  | _ => cases member

end Yamux
