import MiniP2P.Yamux.Input

/-! One direction of one stream between two honest ends: what the sender still holds,
what is on its way, and what the receiver has passed on. -/
namespace Yamux
open Transition List Label StreamState

def payloads (fs : List Frame) : List UInt8 := (fs.map Frame.payload).flatten

variable (f : Frame)

def Frame.credit : Nat := if f.frameType = .windowUpdate then f.value.toNat else 0

def credits (fs : List Frame) : Nat := (fs.map Frame.credit).sum

def Frame.syn : Bool := hasFlag f.flags flagSyn
def Frame.fin : Bool := hasFlag f.flags flagFin
def Frame.rst : Bool := hasFlag f.flags flagRst

@[simp] theorem payloads_nil : payloads [] = [] := rfl
@[simp] theorem payloads_cons (fs : List Frame) :
    payloads (f :: fs) = f.payload ++ payloads fs := rfl
@[simp] theorem payloads_append (fs gs : List Frame) :
    payloads (fs ++ gs) = payloads fs ++ payloads gs := by simp [payloads]

@[simp] theorem credits_nil : credits [] = 0 := rfl
@[simp] theorem credits_cons (fs : List Frame) : credits (f :: fs) = f.credit + credits fs := rfl
@[simp] theorem credits_append (fs gs : List Frame) :
    credits (fs ++ gs) = credits fs + credits gs := by simp [credits]

def Ordered : List Frame → Prop
  | [] => True
  | f :: fs => (f.fin = true → payloads fs = []) ∧ Ordered fs

variable {fs : List Frame} {st st' rt : StreamState} {config : ValidConfig} {stream : UInt32}
    {ls : List Label}

theorem Ordered.append {gs : List Frame} (first : Ordered fs) (second : Ordered gs)
    (stopped : (∃ f ∈ fs, f.fin = true) → payloads gs = []) : Ordered (fs ++ gs) := by
  induction fs with
  | nil => exact second
  | cons f fs ih =>
    refine ⟨fun last => ?_, ih first.2 (fun ⟨g, member, last⟩ => stopped
      ⟨g, by simp [member], last⟩)⟩
    have all : payloads (fs ++ gs) = [] := by
      rw [payloads_append, first.1 last, stopped ⟨f, by simp, last⟩, append_nil]
    exact all

/-- A frame without bytes, credit or FIN. -/
structure Blank (f : Frame) : Prop where
  payload : f.payload = []
  credit : f.credit = 0
  fin : f.fin = false

section

variable (blank : ∀ f ∈ fs, Blank f)
include blank

theorem blank_payloads : payloads fs = [] := by
  simp only [payloads, flatten_eq_nil_iff, mem_map]
  rintro _ ⟨f, member, rfl⟩
  exact (blank f member).payload

theorem blank_credits : credits fs = 0 := by
  induction fs with
  | nil => rfl
  | cons f fs ih =>
    rw [credits_cons, (blank f (by simp)).credit, ih (fun g member => blank g (by simp [member]))]

theorem blank_unfinished : ¬ ∃ f ∈ fs, f.fin = true := by
  rintro ⟨f, member, last⟩
  rw [(blank f member).fin] at last
  cases last

theorem blank_ordered : Ordered fs := by
  induction fs with
  | nil => trivial
  | cons f fs ih =>
    have later : ∀ g ∈ fs, Blank g := fun g member => blank g (by simp [member])
    exact ⟨fun _ => blank_payloads later, ih later⟩

end

/-- One direction of a stream. `out` is on its way to the receiver, `due` is the credit
on its way back; `acc` are the bytes taken from the sender's caller and `del` those
passed to the receiver's; `closed` tells that their end was passed on too. An end that
is gone is `none`. -/
structure Flow (s r : Option StreamState) (out : List Frame) (due : Nat)
    (acc del : List UInt8) (closed : Bool) : Prop where
  credit : ∀ st rt, s = some st → r = some rt →
    st.sendWindow + (payloads out).length + due = rt.receiveWindow
  room : ∀ rt, r = some rt → (payloads out).length ≤ rt.receiveWindow
  small : ∀ st, s = some st → st.sendWindow + due ≤ u32Max
  bytes : ∀ st rt, s = some st → r = some rt →
    del ++ payloads out ++ st.sendBuffer.flatten = acc
  within : ∀ rt, r = some rt → del ++ payloads out <+: acc
  received : del <+: acc
  ended : closed = true → del = acc ∧ ∀ st, s = some st → st.localWriteClosed = true
  ending : (∃ f ∈ out, f.fin = true) → (∀ st, s = some st → st.localWriteClosed = true) ∧
    ∀ rt, r = some rt → del ++ payloads out = acc
  order : Ordered out
  readable : ∀ rt, r = some rt → rt.remoteWriteClosed = closed

/-- What a sender that stays does: frames leave, bytes are taken from the caller. -/
structure Sends (st : StreamState) (fs : List Frame) (more : List UInt8) (st' : StreamState) :
    Prop where
  window : st'.sendWindow + (payloads fs).length = st.sendWindow
  bytes : payloads fs ++ st'.sendBuffer.flatten = st.sendBuffer.flatten ++ more
  stopped : st.localWriteClosed = true → payloads fs = [] ∧ more = [] ∧ st'.localWriteClosed = true
  last : (∃ f ∈ fs, f.fin = true) → st'.localWriteClosed = true ∧ st'.sendBuffer = []
  order : Ordered fs
  credit : st'.receiveWindow = st.receiveWindow + credits fs
  readable : st'.remoteWriteClosed = st.remoteWriteClosed

namespace Flow

variable {s r : Option StreamState} {out : List Frame} {due : Nat} {acc del : List UInt8}
  {closed : Bool}

theorem sends {more : List UInt8} (h : Flow (some st) r out due acc del closed)
    (sends : Sends st fs more st') :
    Flow (some st') r (out ++ fs) due (acc ++ more) del closed := by
  have window := sends.window
  have bytes : ∀ rt, r = some rt →
      del ++ payloads (out ++ fs) ++ st'.sendBuffer.flatten = acc ++ more := by
    intro rt here
    rw [payloads_append, ← h.bytes st rt rfl here]
    simp only [append_assoc, sends.bytes]
  refine ⟨?_, ?_, ?_, ?_, ?_, ?_, ?_, ?_, ?_, h.readable⟩
  · rintro _ rt ⟨⟩ here
    have credit := h.credit st rt rfl here
    rw [payloads_append, length_append]
    omega
  · intro rt here
    have credit := h.credit st rt rfl here
    rw [payloads_append, length_append]
    omega
  · rintro _ ⟨⟩
    have small := h.small st rfl
    omega
  · rintro _ rt ⟨⟩ here
    exact bytes rt here
  · intro rt here
    exact ⟨_, bytes rt here⟩
  · exact h.received.trans (prefix_append _ _)
  · intro done
    obtain ⟨all, writeClosed⟩ := h.ended done
    obtain ⟨-, nothing, stays⟩ := sends.stopped (writeClosed st rfl)
    exact ⟨by rw [nothing, append_nil, all], by rintro _ ⟨⟩; exact stays⟩
  · rintro ⟨f, member, fin⟩
    rcases mem_append.mp member with member | member
    · obtain ⟨writeClosed, all⟩ := h.ending ⟨f, member, fin⟩
      obtain ⟨quiet, nothing, stays⟩ := sends.stopped (writeClosed st rfl)
      refine ⟨by rintro _ ⟨⟩; exact stays, fun rt here => ?_⟩
      rw [payloads_append, quiet, nothing, append_nil, append_nil]
      exact all rt here
    · obtain ⟨stays, drained⟩ := sends.last ⟨f, member, fin⟩
      refine ⟨by rintro _ ⟨⟩; exact stays, fun rt here => ?_⟩
      have all := bytes rt here
      rwa [drained, flatten_nil, append_nil] at all
  · refine h.order.append sends.order (fun finished => ?_)
    exact (sends.stopped ((h.ending finished).1 st rfl)).1

theorem announces {rt' : StreamState} {n : Nat} (h : Flow s (some rt) out due acc del closed)
    (window : rt'.receiveWindow = rt.receiveWindow + n) (small : rt'.receiveWindow ≤ u32Max)
    (same : rt'.remoteWriteClosed = rt.remoteWriteClosed) :
    Flow s (some rt') out (due + n) acc del closed := by
  refine ⟨?_, ?_, ?_, ?_, ?_, h.received, h.ended, ?_, h.order, ?_⟩
  · rintro st _ here ⟨⟩
    have credit := h.credit st rt here rfl
    omega
  · rintro _ ⟨⟩
    have room := h.room rt rfl
    omega
  · intro st here
    have credit := h.credit st rt here rfl
    omega
  · rintro st _ here ⟨⟩
    exact h.bytes st rt here rfl
  · rintro _ ⟨⟩
    exact h.within rt rfl
  · intro finished
    obtain ⟨writeClosed, all⟩ := h.ending finished
    exact ⟨writeClosed, by rintro _ ⟨⟩; exact all rt rfl⟩
  · rintro _ ⟨⟩
    rw [same]
    exact h.readable rt rfl

theorem sender_gone (h : Flow s r out due acc del closed) (blank : ∀ f ∈ fs, Blank f) :
    Flow none r (out ++ fs) due acc del closed := by
  have quiet : payloads (out ++ fs) = payloads out := by
    rw [payloads_append, blank_payloads blank, append_nil]
  refine ⟨by simp, ?_, by simp, by simp, ?_, h.received, fun done => ⟨(h.ended done).1, by simp⟩,
    ?_, ?_, h.readable⟩
  · rw [quiet]
    exact h.room
  · rw [quiet]
    exact h.within
  · rintro ⟨f, member, fin⟩
    rcases mem_append.mp member with member | member
    · rw [quiet]
      exact ⟨by simp, (h.ending ⟨f, member, fin⟩).2⟩
    · exact absurd ⟨f, member, fin⟩ (blank_unfinished blank)
  · exact h.order.append (blank_ordered blank) (fun _ => blank_payloads blank)

theorem receiver_gone (h : Flow s r out due acc del closed) : Flow s none out due acc del closed :=
  ⟨by simp, by simp, h.small, by simp, by simp, h.received, h.ended,
    fun finished => ⟨(h.ending finished).1, by simp⟩, h.order, by simp⟩

variable {f : Frame}

theorem drops (h : Flow s none (f :: out) due acc del closed) :
    Flow s none out due acc del closed :=
  ⟨by simp, by simp, h.small, by simp, by simp, h.received, h.ended,
    fun ⟨g, member, fin⟩ => ⟨(h.ending ⟨g, by simp [member], fin⟩).1, by simp⟩, h.order.2, by simp⟩

theorem skips (h : Flow s r (f :: out) due acc del closed) (blank : Blank f) :
    Flow s r out due acc del closed := by
  have quiet : payloads (f :: out) = payloads out := by
    rw [payloads_cons, blank.payload, nil_append]
  have credit := h.credit
  have room := h.room
  have bytes := h.bytes
  have within := h.within
  have ending := h.ending
  rw [quiet] at credit room bytes within ending
  exact ⟨credit, room, h.small, bytes, within, h.received, h.ended,
    fun ⟨g, member, fin⟩ => ending ⟨g, by simp [member], fin⟩, h.order.2, h.readable⟩

theorem none_due (h : Flow none r out due acc del closed) (due' : Nat) :
    Flow none r out due' acc del closed :=
  { h with credit := by simp, small := by simp }

theorem credited {n : Nat} (h : Flow (some st) r out (n + due) acc del closed) :
    Flow (some (st.raise n)) r out due acc del closed := by
  refine ⟨?_, h.room, ?_, ?_, h.within, h.received, fun done => ⟨(h.ended done).1, ?_⟩,
    fun finished => ⟨?_, (h.ending finished).2⟩, h.order, h.readable⟩
  · rintro _ rt ⟨⟩ here
    have credit := h.credit st rt rfl here
    simp only [raise]
    omega
  · rintro _ ⟨⟩
    have small := h.small st rfl
    simp only [raise]
    omega
  · rintro _ rt ⟨⟩ here
    exact h.bytes st rt rfl here
  · rintro _ ⟨⟩
    exact (h.ended done).2 st rfl
  · rintro _ ⟨⟩
    exact (h.ending finished).1 st rfl

theorem sender_same (h : Flow (some st) r out due acc del closed)
    (window : st'.sendWindow = st.sendWindow) (buffer : st'.sendBuffer = st.sendBuffer)
    (writeClosed : st'.localWriteClosed = st.localWriteClosed) :
    Flow (some st') r out due acc del closed := by
  refine ⟨?_, h.room, ?_, ?_, h.within, h.received, fun done => ⟨(h.ended done).1, ?_⟩,
    fun finished => ⟨?_, (h.ending finished).2⟩, h.order, h.readable⟩
  · rintro _ rt ⟨⟩ here
    rw [window]
    exact h.credit st rt rfl here
  · rintro _ ⟨⟩
    rw [window]
    exact h.small st rfl
  · rintro _ rt ⟨⟩ here
    rw [buffer]
    exact h.bytes st rt rfl here
  · rintro _ ⟨⟩
    rw [writeClosed]
    exact (h.ended done).2 st rfl
  · rintro _ ⟨⟩
    rw [writeClosed]
    exact (h.ending finished).1 st rfl

theorem quiet (h : Flow s (some rt) out due acc del closed) (done : closed = true) :
    payloads out = [] := by
  have within := (h.within rt rfl).length_le
  rw [(h.ended done).1, length_append] at within
  exact eq_nil_of_length_eq_zero (by omega)

theorem arrives {rt' : StreamState} (h : Flow s (some rt) (f :: out) due acc del closed)
    (window : rt'.receiveWindow + f.payload.length = rt.receiveWindow)
    (noted : rt'.remoteWriteClosed = (rt.remoteWriteClosed || f.fin)) :
    Flow s (some rt') out due acc (del ++ f.payload) (closed || f.fin) := by
  have within : del ++ f.payload ++ payloads out <+: acc := by
    have all := h.within rt rfl
    rwa [payloads_cons, ← append_assoc] at all
  refine ⟨?_, ?_, h.small, ?_, ?_, ?_, ?_, ?_, h.order.2, ?_⟩
  · rintro st _ here ⟨⟩
    have credit := h.credit st rt here rfl
    rw [payloads_cons, length_append] at credit
    omega
  · rintro _ ⟨⟩
    have room := h.room rt rfl
    rw [payloads_cons, length_append] at room
    omega
  · rintro st _ here ⟨⟩
    have bytes := h.bytes st rt here rfl
    rwa [payloads_cons, ← append_assoc] at bytes
  · rintro _ ⟨⟩
    exact within
  · exact (prefix_append _ _).trans within
  · intro done
    rcases Bool.or_eq_true_iff.mp done with done | fin
    · have nothing := h.quiet done
      rw [payloads_cons, append_eq_nil_iff] at nothing
      rw [nothing.1, append_nil]
      exact h.ended done
    · obtain ⟨writeClosed, all⟩ := h.ending ⟨f, by simp, fin⟩
      have last := all rt rfl
      rw [payloads_cons, h.order.1 fin, append_nil] at last
      exact ⟨last, writeClosed⟩
  · rintro ⟨g, member, fin⟩
    obtain ⟨writeClosed, all⟩ := h.ending ⟨g, by simp [member], fin⟩
    refine ⟨writeClosed, ?_⟩
    rintro _ ⟨⟩
    have last := all rt rfl
    rwa [payloads_cons, ← append_assoc] at last
  · rintro _ ⟨⟩
    rw [noted, h.readable rt rfl]

end Flow

theorem openFlags_plain (st : StreamState) : hasFlag st.openFlags flagFin = false ∧
    hasFlag st.openFlags flagRst = false ∧
    hasFlag st.openFlags flagSyn = decide (st.pendingOpen = some .syn) := by
  rcases st.openFlags_cases with ⟨h, flags⟩ | ⟨h, flags⟩ | ⟨h, flags⟩ <;>
    rw [flags, h] <;> decide

theorem finFlags_plain (st : StreamState) : hasFlag (st.openFlags ||| flagFin) flagRst = false ∧
    hasFlag (st.openFlags ||| flagFin) flagSyn = decide (st.pendingOpen = some .syn) := by
  rcases st.openFlags_cases with ⟨h, flags⟩ | ⟨h, flags⟩ | ⟨h, flags⟩ <;>
    rw [flags, h] <;> decide

theorem unfinished {st : StreamState} {f : Frame} (flags : f.flags = st.openFlags) :
    ¬ ∃ g ∈ [f], g.fin = true := by
  rintro ⟨g, member, fin⟩
  cases mem_singleton.mp member
  have plain := (openFlags_plain st).1
  rw [Frame.fin, flags, plain] at fin
  cases fin

theorem resetFrame_blank (stream : UInt32) : Blank (dataFrame stream flagRst []) :=
  ⟨rfl, rfl, show hasFlag flagRst flagFin = false by decide⟩

theorem creditFrame_credit (stream : UInt32) (flags : UInt16) {n : Nat} (small : n ≤ u32Max) :
    (creditFrame stream flags n).credit = n :=
  (if_pos rfl).trans (UInt32.toNat_ofNat_of_lt' (Nat.lt_succ_of_le small))

theorem Act.sends (act : Act config stream False (some st) ls (some st'))
    (sound : st.Sound config) :
    Sends st (frames ls) (accepted ls) st' := by
  cases act with
  | @park _ bytes writable nonempty spent room =>
    refine ⟨rfl, ?_, fun done => ?_, by simp [frames], trivial, rfl, rfl⟩
    · simp [frames, accepted, StreamState.park]
    · rw [writable.unclosed] at done
      cases done
  | @push _ bytes writable drained credit fits =>
    refine ⟨?_, ?_, fun done => ?_, ?_, ⟨fun _ => rfl, trivial⟩, rfl, rfl⟩
    · simp only [frames, payloads_cons, payloads_nil, append_nil, dataFrame,
        spend, opened]
      omega
    · simp only [frames, accepted, payloads_cons, payloads_nil, append_nil,
        dataFrame, spend, opened]
      by_cases none : bytes = []
      · simp [none]
      · simp [drained none]
    · rw [writable.unclosed] at done
      cases done
    · exact fun present => (unfinished rfl present).elim
  | @flush _ chunk rest n front positive within credit fits =>
    have unclosed : st.localWriteClosed = true → False := by
      intro done
      rw [(sound.closed done).1] at front
      cases front
    refine ⟨?_, ?_, fun done => (unclosed done).elim, ?_, ⟨fun _ => rfl, trivial⟩, rfl, rfl⟩
    · rw [show frames _ = [dataFrame stream st.openFlags (chunk.take n)] from rfl,
        payloads_cons, payloads_nil, append_nil]
      simp only [dataFrame, length_take, Nat.min_eq_left within, takeChunk,
        spend, opened, putBack]
      omega
    · have left : (if (chunk.drop n).isEmpty = true then rest else chunk.drop n :: rest).flatten =
          chunk.drop n ++ rest.flatten := by
        split
        · rename_i nothing
          rw [List.isEmpty_iff.mp nothing, nil_append]
        · rfl
      rw [show frames _ = [dataFrame stream st.openFlags (chunk.take n)] from rfl,
        payloads_cons, payloads_nil, append_nil, front]
      simp only [dataFrame, takeChunk, spend, opened,
        putBack, left, ← append_assoc, take_append_drop]
      exact (append_nil _).symm
    · exact fun present => (unfinished rfl present).elim
  | @fin _ unclosed drained =>
    refine ⟨rfl, ?_, fun done => ?_, fun _ => ⟨rfl, drained⟩, ⟨fun _ => rfl, trivial⟩, rfl, rfl⟩
    · exact (append_nil _).symm
    · rw [unclosed] at done
      cases done
  | closeLater writable parked =>
    refine ⟨rfl, (append_nil _).symm, fun done => ?_, by simp [frames], trivial, rfl, rfl⟩
    rw [writable.unclosed] at done
    cases done
  | advertise small =>
    refine ⟨rfl, (append_nil _).symm, fun done => ⟨rfl, rfl, done⟩, ?_,
      ⟨fun _ => rfl, trivial⟩, ?_, rfl⟩
    · exact fun present => (unfinished rfl present).elim
    · rw [show frames _ = [creditFrame stream st.openFlags st.pendingCredit] from rfl,
        credits_cons, creditFrame_credit stream st.openFlags small]
      rfl
  | remoteFin permitted unclosed => exact permitted.elim

variable {late : Prop} {b : Option StreamState}

theorem Act.leaves {config : ValidConfig} {stream : UInt32} {st : StreamState}
    {ls : List Label} (act : Act config stream late (some st) ls none) :
    (∀ f ∈ frames ls, Blank f) ∧ accepted ls = [] := by
  cases act with
  | reset =>
    refine ⟨fun f member => ?_, rfl⟩
    cases mem_singleton.mp member
    exact resetFrame_blank stream
  | closed here there => exact ⟨by simp [frames], rfl⟩

structure Regular (f : Frame) : Prop where
  valid : f.Valid
  update : f.frameType = .windowUpdate → f.fin = false ∧ f.rst = false
  reset : f.rst = true → Blank f ∧ f.syn = false

theorem Act.introduces (act : Act config stream late (some st) ls b) :
    (frames ls = [] ∧ ∀ st', b = some st' → st'.pendingOpen = st.pendingOpen) ∨
    (∃ f, frames ls = [f] ∧ f.rst = true ∧ f.syn = false ∧ b = none) ∨
    ∃ f st', frames ls = [f] ∧ f.rst = false ∧
      f.syn = decide (st.pendingOpen = some .syn) ∧ b = some st' ∧ st'.pendingOpen = none := by
  have plain := openFlags_plain st
  have finPlain := finFlags_plain st
  cases act with
  | park writable nonempty spent room | closeLater writable parked | remoteFin permitted unclosed =>
    exact .inl ⟨rfl, by rintro _ ⟨⟩; rfl⟩
  | push writable drained credit fits | flush front positive within credit fits | advertise small =>
    exact .inr (.inr ⟨_, _, rfl, plain.2.1, plain.2.2, rfl, rfl⟩)
  | fin unclosed drained => exact .inr (.inr ⟨_, _, rfl, finPlain.1, finPlain.2, rfl, rfl⟩)
  | reset =>
    exact .inr (.inl ⟨_, rfl, (by decide : hasFlag flagRst flagRst = true),
      (by decide : hasFlag flagRst flagSyn = false), rfl⟩)
  | closed here there => exact .inl ⟨rfl, by simp⟩

theorem resetFrame_regular (nonzero : stream ≠ 0) : Regular (dataFrame stream flagRst []) :=
  ⟨(Frame.data_valid (Frame.data_ok nonzero (by decide) (by decide))).1, nofun,
    fun _ => ⟨resetFrame_blank stream, show hasFlag flagRst flagSyn = false by decide⟩⟩

theorem regular_of_flags {f : Frame} (valid : f.Valid) (keeps : f.rst = false)
    (update : f.frameType = .windowUpdate → f.fin = false) : Regular f := by
  refine ⟨valid, fun kind => ⟨update kind, keeps⟩, fun rst => ?_⟩
  rw [keeps] at rst
  cases rst

theorem Act.regular {a : Option StreamState} (act : Act config stream late a ls b)
    (nonzero : stream ≠ 0) : ∀ f ∈ frames ls, Regular f := by
  have sendable := act.sendable nonzero
  intro f member
  have valid := (sendable f member).valid
  cases act with
  | @push st bytes writable drained credit fits
  | @flush st chunk rest n front positive within credit fits =>
    cases mem_singleton.mp member
    exact regular_of_flags valid (openFlags_plain st).2.1 nofun
  | @fin st unclosed drained =>
    cases mem_singleton.mp member
    exact regular_of_flags valid (finFlags_plain st).1 nofun
  | @advertise st small =>
    cases mem_singleton.mp member
    exact regular_of_flags valid (openFlags_plain st).2.1 (fun _ => (openFlags_plain st).1)
  | reset =>
    cases mem_singleton.mp member
    exact resetFrame_regular nonzero
  | park writable nonempty spent room => cases member
  | closeLater writable parked => cases member
  | closed here there => cases member
  | remoteFin permitted unclosed => cases member

end Yamux
