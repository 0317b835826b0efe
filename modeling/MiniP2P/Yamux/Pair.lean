import MiniP2P.Yamux.Flow

/-! Both ends of one stream: the opener and the end that accepts it. Until the SYN is
seen, the accepting end counts as the stream it would create. -/
namespace Yamux
open Transition List Label

def dataOf (stream : UInt32) : List YamuxOutput → List UInt8
  | [] => []
  | .data i bytes :: os => if i = stream then bytes ++ dataOf stream os else dataOf stream os
  | _ :: os => dataOf stream os

def closedOf (stream : UInt32) (os : List YamuxOutput) : Bool :=
  decide (.remoteWriteClosed stream ∈ os)

def lateOf (stream : UInt32) : List YamuxOutput → List UInt8
  | [] => []
  | .remoteWriteClosed i :: os => if i = stream then dataOf stream os else lateOf stream os
  | _ :: os => lateOf stream os

def incomings (stream : UInt32) (os : List YamuxOutput) : Nat := os.count (.incomingStream stream)

section

variable (stream : UInt32)
include stream

@[simp] theorem incomings_append (os ps : List YamuxOutput) :
    incomings stream (os ++ ps) = incomings stream os + incomings stream ps := count_append

@[simp] theorem dataOf_append (os ps : List YamuxOutput) :
    dataOf stream (os ++ ps) = dataOf stream os ++ dataOf stream ps := by
  induction os with
  | nil => rfl
  | cons o os ih =>
    cases o with
    | data i bytes =>
      simp only [cons_append, dataOf, ih]
      split <;> simp
    | _ => exact ih

@[simp] theorem closedOf_append (os ps : List YamuxOutput) :
    closedOf stream (os ++ ps) = (closedOf stream os || closedOf stream ps) := by
  simp [closedOf]

theorem lateOf_append (os ps : List YamuxOutput) : lateOf stream (os ++ ps) = lateOf stream os ++
      (if closedOf stream os then dataOf stream ps else lateOf stream ps) := by
  induction os with
  | nil => rfl
  | cons o os ih =>
    cases o with
    | remoteWriteClosed i =>
      by_cases same : i = stream
      · simp [lateOf, same, closedOf]
      · have other : closedOf stream (.remoteWriteClosed i :: os) = closedOf stream os := by
          simp [closedOf, Ne.symm same]
        rw [other]
        simpa [lateOf, same] using ih
    | _ => simpa [lateOf, closedOf] using ih

end

structure Untold (stream : UInt32) (os : List YamuxOutput) : Prop where
  data : dataOf stream os = []
  closed : closedOf stream os = false
  late : lateOf stream os = []
  incoming : incomings stream os = 0

namespace Untold

variable {stream : UInt32} {os ps : List YamuxOutput}

theorem nil (stream : UInt32) : Untold stream [] := ⟨rfl, rfl, rfl, rfl⟩

theorem append (first : Untold stream os) (second : Untold stream ps) : Untold stream (os ++ ps) :=
  ⟨by simp [first.data, second.data], by simp [first.closed, second.closed],
    by simp [lateOf_append, first.late, first.closed, second.late],
    by simp [first.incoming, second.incoming]⟩

theorem cons {o : YamuxOutput} (first : Untold stream [o]) (second : Untold stream os) :
    Untold stream (o :: os) := first.append second

theorem of_forall (each : ∀ o ∈ os, Untold stream [o]) : Untold stream os := by
  induction os with
  | nil => exact nil stream
  | cons o os ih =>
    exact cons (each o (by simp)) (ih (fun p member => each p (by simp [member])))

theorem outbound (stream : UInt32) (bytes : List UInt8) : Untold stream [.outbound bytes] :=
  ⟨rfl, rfl, rfl, rfl⟩

theorem streamClosed (stream k : UInt32) : Untold stream [.streamClosed k] := ⟨rfl, rfl, rfl, rfl⟩

theorem goAwayReceived (stream code : UInt32) : Untold stream [.goAwayReceived code] :=
  ⟨rfl, rfl, rfl, rfl⟩

theorem of_about {other : UInt32} (ne : other ≠ stream) (about : ∀ o ∈ os, About stream o) :
    Untold other os := by
  refine of_forall (fun o member => ?_)
  cases about o member with
  | frame valid id => exact outbound other _
  | incoming => exact ⟨rfl, rfl, rfl, by simp [incomings, Ne.symm ne]⟩
  | data bytes => exact ⟨by simp [dataOf, Ne.symm ne], rfl, rfl, rfl⟩
  | remoteWriteClosed => exact ⟨rfl, by simp [closedOf, ne], by simp [lateOf, Ne.symm ne], rfl⟩
  | closed => exact streamClosed other _

end Untold

/-- One end of a stream. `met` tells that a SYN would not be the first word from the
other end, `inbox` holds the frames on their way here, `acc` the bytes its caller gave
and `outs` all outputs of its session. -/
structure End where
  config : ValidConfig
  st : Option StreamState
  met : Bool
  inbox : List Frame
  acc : List UInt8
  outs : List YamuxOutput

namespace End

variable (e : End)

def view : Option StreamState :=
  if e.met then e.st else some (.inbound e.config defaultReceiveWindow)

theorem view_met {e : End} (met : e.met = true) : e.view = e.st := by simp [view, met]

def step (st : Option StreamState) (ls : List Label) : End :=
  { e with st := st, acc := e.acc ++ accepted ls, outs := e.outs ++ outputs ls }

def push (fs : List Frame) : End := { e with inbox := e.inbox ++ fs }

@[simp] theorem view_push (fs : List Frame) : (e.push fs).view = e.view := rfl

theorem view_step {e : End} (met : e.met = true) (st : Option StreamState) (ls : List Label) :
    (e.step st ls).view = st := view_met met

@[simp] theorem step_nil : e.step e.st [] = e := by simp [step, accepted]

theorem step_step (st st' : Option StreamState) (ls ms : List Label) :
    (e.step st ls).step st' ms = e.step st' (ls ++ ms) := by
  simp [step]

theorem push_push (fs gs : List Frame) : (e.push fs).push gs = e.push (fs ++ gs) := by
  simp [push]

end End

open End

def Heading (stream : UInt32) (x y : End) : Prop :=
  Flow x.view y.view y.inbox (credits x.inbox) x.acc (dataOf stream y.outs) (closedOf stream y.outs)

def NoSyn (fs : List Frame) : Prop := ∀ f ∈ fs, f.syn = false

/-- The first words of an opener: nothing but resets, or a SYN and what follows it. -/
def Opening (st : Option StreamState) (fs : List Frame) : Prop :=
  ((∀ f ∈ fs, f.rst = true) ∧ ∀ s, st = some s → s.pendingOpen = some .syn ∧ fs = []) ∨
  ∃ f rest, fs = f :: rest ∧ f.syn = true ∧ f.rst = false ∧ NoSyn rest ∧
    ∀ s, st = some s → s.pendingOpen ≠ some .syn

structure Paired (stream : UInt32) (o a : End) : Prop where
  opener : o.met = true
  there : Heading stream o a
  back : Heading stream a o
  unmet : a.met = false → a.st = none ∧ Opening o.st a.inbox
  begun : a.met = true → NoSyn a.inbox ∧ ∀ st, o.st = some st → st.pendingOpen ≠ some .syn
  reply : NoSyn o.inbox ∧ ∀ st, a.st = some st → st.pendingOpen ≠ some .syn
  regularO : ∀ f ∈ o.inbox, Regular f
  regularA : ∀ f ∈ a.inbox, Regular f
  sealedO : lateOf stream o.outs = []
  sealedA : lateOf stream a.outs = []
  announcedO : incomings stream o.outs = 0
  announcedA : incomings stream a.outs ≤ a.met.toNat

variable {config : ValidConfig} {stream : UInt32} {a b mid : Option StreamState} {ls : List Label}
    {fs rest : List Frame} {st st' : StreamState} {os : List YamuxOutput} {f : Frame}
    {remote room : Prop}

theorem Act.keeps_quiet (act : Act config stream False a ls b) :
    dataOf stream (outputs ls) = [] ∧ closedOf stream (outputs ls) = false := by
  cases act <;> first | exact ⟨rfl, rfl⟩ | contradiction

variable {x y : End}

theorem Heading.act (out : Heading stream x y) (back : Heading stream y x) (met : x.met = true)
    (sound : SoundStream config x.st) (act : Act config stream False x.st ls b) :
    Heading stream (x.step b ls) (y.push (frames ls)) ∧
      Heading stream (y.push (frames ls)) (x.step b ls) := by
  obtain ⟨noData, noClose⟩ := act.keeps_quiet
  unfold Heading at out back ⊢
  rw [view_met met] at out back
  rw [view_step met]
  simp only [step, push, dataOf_append, closedOf_append, noData, noClose, append_nil,
    Bool.or_false, credits_append]
  cases hst : x.st with
  | none =>
    rw [hst] at act
    cases act
  | some st =>
    rw [hst] at act out back
    cases b with
    | none =>
      obtain ⟨blank, nothing⟩ := act.leaves
      rw [nothing, append_nil, blank_credits blank]
      exact ⟨out.sender_gone blank, back.receiver_gone⟩
    | some st' =>
      have sends := act.sends (sound st hst)
      have sound' := act.sound (fun s here => by cases here; exact sound st hst)
      refine ⟨out.sends sends, back.announces sends.credit ?_ sends.readable⟩
      have small := (sound' st' rfl).receiveWindow_le
      omega

theorem NoSyn.append {gs : List Frame} (first : NoSyn fs) (second : NoSyn gs) :
    NoSyn (fs ++ gs) := forall_mem_append.mpr ⟨first, second⟩

variable {late : Prop} {r : Option StreamState}

theorem Act.past_syn (act : Act config stream late (some st) ls b)
    (past : st.pendingOpen ≠ some .syn) :
    NoSyn (frames ls) ∧ ∀ st', b = some st' → st'.pendingOpen ≠ some .syn := by
  rcases act.introduces with ⟨nothing, same⟩ | ⟨f, one, -, syn, gone⟩ |
    ⟨f, st₁, one, -, syn, stays, cleared⟩
  · refine ⟨by rw [nothing]; simp [NoSyn], fun st' here => ?_⟩
    rw [same st' here]
    exact past
  · refine ⟨?_, by simp [gone]⟩
    rw [one]
    exact forall_mem_singleton.mpr syn
  · refine ⟨?_, fun st' here => ?_⟩
    · rw [one]
      exact forall_mem_singleton.mpr (syn.trans (decide_eq_false past))
    · rw [stays] at here
      cases here
      rw [cleared]
      simp

theorem Opening.act (opening : Opening a fs) (act : Act config stream late a ls b) :
    Opening b (fs ++ frames ls) := by
  cases a with
  | none => cases act
  | some st =>
    rcases opening with ⟨resets, waiting⟩ | ⟨f, rest, rfl, syn, keeps, later, past⟩
    · obtain ⟨pending, rfl⟩ := waiting st rfl
      rcases act.introduces with ⟨nothing, same⟩ | ⟨f, one, rst, -, gone⟩ |
        ⟨f, st₁, one, keeps, syn, stays, cleared⟩
      · refine .inl ⟨by simp [nothing], fun st' here =>
          ⟨(same st' here).trans pending, by simp [nothing]⟩⟩
      · refine .inl ⟨?_, by simp [gone]⟩
        rw [one]
        exact forall_mem_singleton.mpr rst
      · refine .inr ⟨f, [], by simp [one], by simp [syn, pending], keeps, by simp [NoSyn], ?_⟩
        rw [stays]
        rintro _ ⟨⟩
        rw [cleared]
        simp
    · obtain ⟨quiet, past'⟩ := act.past_syn (past st rfl)
      exact .inr ⟨f, rest ++ frames ls, rfl, syn, keeps, later.append quiet, past'⟩

theorem sealed_act (act : Act config stream False a ls b) (sealed : lateOf stream os = []) :
    lateOf stream (os ++ outputs ls) = [] := by
  have nothing : lateOf stream (outputs ls) = [] := by
    cases act <;> first | rfl | contradiction
  rw [lateOf_append, sealed, nothing, act.keeps_quiet.1]
  simp

theorem Act.incomings (act : Act config stream late a ls b) :
    incomings stream (outputs ls) = 0 := by
  cases act <;> simp [Yamux.incomings]

def End.consume (e : End) (f : Frame) (rest : List Frame) (st : Option StreamState)
    (ls : List Label) : End :=
  { e with
    st := st
    met := e.met || (f.syn && !f.rst)
    inbox := rest
    outs := e.outs ++ outputs ls }

theorem Heading.not_refused {e : YamuxError} (out : Heading stream x y) (back : Heading stream y x)
    (next : y.inbox = f :: rest) (here : y.view = some st) (valid : f.Valid) :
    ¬ Refused f st e := by
  unfold Heading at out back
  rw [here, next] at out back
  intro refused
  cases refused with
  | overflow kind exceeds =>
    have small := back.small st rfl
    have credit : f.credit = f.value.toNat := if_pos kind
    rw [credits_cons] at small
    omega
  | afterFin kind closed payload =>
    have done := out.readable st rfl
    have nothing := out.quiet (done ▸ closed)
    rw [payloads_cons, append_eq_nil_iff] at nothing
    exact payload nothing.1
  | exceeded kind exceeds =>
    have room := out.room st rfl
    rw [payloads_cons, length_append] at room
    rw [valid.data_value kind] at exceeds
    omega

theorem dataLabels_passes (stream : UInt32) (payload : List UInt8) :
    dataOf stream (outputs (dataLabels stream payload)) = payload ∧
      closedOf stream (outputs (dataLabels stream payload)) = false ∧
      lateOf stream (outputs (dataLabels stream payload)) = [] := by
  unfold dataLabels
  split
  · rename_i nothing
    exact ⟨(List.isEmpty_iff.mp nothing).symm, rfl, rfl⟩
  · exact ⟨by simp [dataOf], by simp [closedOf], rfl⟩

theorem finLabels_passes (stream : UInt32) (flags : UInt16) (st : StreamState) :
    dataOf stream (outputs (finLabels stream flags st)) = [] ∧
      closedOf stream (outputs (finLabels stream flags st)) =
        (hasFlag flags flagFin && !st.remoteWriteClosed) ∧
      lateOf stream (outputs (finLabels stream flags st)) = [] := by
  unfold finLabels
  split
  · rename_i last
    exact ⟨rfl, by simp [closedOf, last], by simp [lateOf, dataOf]⟩
  · rename_i more
    exact ⟨rfl, by simpa [closedOf] using more, rfl⟩

theorem Absorb.passes (absorb : Absorb config f st ls st') (regular : Regular f) :
    st'.receiveWindow + f.payload.length = st.receiveWindow ∧
      st'.remoteWriteClosed = (st.remoteWriteClosed || f.fin) ∧
      dataOf f.streamId (outputs ls) = f.payload ∧
      closedOf f.streamId (outputs ls) = (f.fin && !st.remoteWriteClosed) ∧
      lateOf f.streamId (outputs ls) = [] := by
  cases absorb with
  | data kind order fits =>
    have length := regular.valid.data_value kind
    obtain ⟨data, noClose, early⟩ := dataLabels_passes f.streamId f.payload
    obtain ⟨noData, closed, early'⟩ := finLabels_passes f.streamId f.flags st
    refine ⟨?_, rfl, ?_, ?_, ?_⟩
    · simp only [StreamState.noteFin, StreamState.received, StreamState.noteAck]
      omega
    · rw [outputs_append, dataOf_append, data, noData, append_nil]
    · rw [outputs_append, closedOf_append, noClose, closed]
      rfl
    · rw [outputs_append, lateOf_append, early, noClose, early']
      rfl
  | credit kind fits =>
    have nothing := regular.valid.no_payload (by rw [kind]; simp)
    have fin := (regular.update kind).1
    rw [nothing, fin]
    exact ⟨rfl, (Bool.or_false _).symm, rfl, rfl, rfl⟩

theorem Absorb.sender (absorb : Absorb config f st ls st')
    {out : List Frame} {due : Nat} {acc del : List UInt8} {closed : Bool}
    (flow : Flow (some st) r out (f.credit + due) acc del closed) :
    Flow (some st') r out due acc del closed := by
  cases absorb with
  | data kind order fits =>
    have nothing : f.credit = 0 := if_neg (by rw [kind]; simp)
    rw [nothing, Nat.zero_add] at flow
    exact flow.sender_same rfl rfl rfl
  | credit kind fits =>
    have given : f.credit = f.value.toNat := if_pos kind
    rw [given] at flow
    exact flow.credited.sender_same rfl rfl rfl

theorem Heading.absorb (out : Heading f.streamId x y) (back : Heading f.streamId y x)
    (next : y.inbox = f :: rest) (here : y.view = some st) (absorb : Absorb config f st ls st')
    (regular : Regular f) (met : (y.met || (f.syn && !f.rst)) = true)
    (sealed : lateOf f.streamId y.outs = []) :
    Heading f.streamId x (y.consume f rest (some st') ls) ∧
      Heading f.streamId (y.consume f rest (some st') ls) x ∧
      lateOf f.streamId (y.consume f rest (some st') ls).outs = [] := by
  obtain ⟨window, noted, data, closed, early⟩ := absorb.passes regular
  have view : (y.consume f rest (some st') ls).view = some st' := view_met met
  unfold Heading at out back ⊢
  rw [here, next] at out back
  rw [view]
  have same := out.readable st rfl
  refine ⟨?_, ?_, ?_⟩
  · have flow := out.arrives window noted
    simp only [End.consume, dataOf_append, closedOf_append, data, closed]
    have ends : (closedOf f.streamId y.outs || (f.fin && !st.remoteWriteClosed)) =
        (closedOf f.streamId y.outs || f.fin) := by
      rw [same]
      cases closedOf f.streamId y.outs <;> simp
    rw [ends]
    exact flow
  · exact absorb.sender back
  · rw [End.consume, lateOf_append, sealed, early, data]
    split
    · rename_i done
      have nothing := out.quiet done
      rw [payloads_cons, append_eq_nil_iff] at nothing
      rw [nothing.1]
      rfl
    · rfl

theorem Heading.leave (out : Heading stream x y) (back : Heading stream y x)
    (next : y.inbox = f :: rest) (met : (y.met || (f.syn && !f.rst)) = true) (gs : List Frame)
    (ls : List Label) (blank : ∀ g ∈ gs, Blank g)
    (quiet : dataOf stream (outputs ls) = [] ∧ closedOf stream (outputs ls) = false) :
    Heading stream (x.push gs) (y.consume f rest none ls) ∧
      Heading stream (y.consume f rest none ls) (x.push gs) := by
  have view : (y.consume f rest none ls).view = none := view_met met
  unfold Heading at out back ⊢
  rw [next] at out
  rw [view]
  simp only [End.consume, push, dataOf_append, closedOf_append, quiet.1, quiet.2,
    append_nil, Bool.or_false, credits_append, blank_credits blank, Nat.add_zero]
  exact ⟨out.receiver_gone.drops, (back.sender_gone blank).none_due _⟩

theorem Heading.ignore (out : Heading stream x y) (back : Heading stream y x)
    (next : y.inbox = f :: rest) (blank : Blank f) (reset : f.rst = true) :
    Heading stream x (y.consume f rest y.st []) ∧ Heading stream (y.consume f rest y.st []) x := by
  have view : (y.consume f rest y.st []).view = y.view := by
    simp [End.view, End.consume, reset]
  unfold Heading at out back ⊢
  rw [next] at out back
  rw [view]
  simp only [End.consume, outputs_nil, append_nil]
  rw [credits_cons, blank.credit, Nat.zero_add] at back
  exact ⟨out.skips blank, back⟩

@[simp] theorem End.push_nil (e : End) : e.push [] = e := by simp [push]

theorem Heading.consume (out : Heading f.streamId x y) (back : Heading f.streamId y x)
    (next : y.inbox = f :: rest) (regular : Regular f)
    (consume : Consume y.config remote room f y.st ls mid)
    (known : ∀ st, y.st = some st → y.met = true)
    (first : f.syn = true → f.rst = false → y.met = false)
    (later : f.syn = false → f.rst = false → y.met = true)
    (sealed : lateOf f.streamId y.outs = []) :
    Heading f.streamId (x.push (frames ls)) (y.consume f rest mid ls) ∧
      Heading f.streamId (y.consume f rest mid ls) (x.push (frames ls)) ∧
      lateOf f.streamId (y.consume f rest mid ls).outs = [] := by
  generalize hst : y.st = before at consume
  cases consume with
  | resetKnown rst =>
    have met := known _ hst
    have quiet : lateOf f.streamId (y.outs ++ [.streamClosed f.streamId]) = [] := by
      rw [lateOf_append, sealed]
      split <;> rfl
    obtain ⟨out', back'⟩ := out.leave back next (by rw [met]; rfl) []
      [.event (.streamClosed f.streamId)] (by simp) ⟨rfl, rfl⟩
    exact ⟨out', back', quiet⟩
  | resetUnknown rst =>
    obtain ⟨out', back'⟩ := out.ignore back next (regular.reset rst).1 rst
    rw [hst] at out' back'
    refine ⟨by simpa [frames] using out', by simpa [frames] using back', ?_⟩
    simpa [End.consume] using sealed
  | refuse rst full =>
    have met : (y.met || (f.syn && !f.rst)) = true := by
      have keeps : f.rst = false := rst
      cases syn : f.syn with
      | true => simp [keeps]
      | false => simp [later syn keeps]
    have quiet :
        lateOf f.streamId (y.outs ++ [.outbound (dataFrame f.streamId flagRst []).encode]) =
        [] := by
      rw [lateOf_append, sealed]
      split <;> rfl
    obtain ⟨out', back'⟩ := out.leave back next met [dataFrame f.streamId flagRst []]
      [.frame (dataFrame f.streamId flagRst [])]
      (forall_mem_singleton.mpr (resetFrame_blank _)) ⟨rfl, rfl⟩
    exact ⟨out', back', quiet⟩
  | @accept st ls rst syn parity free absorb =>
    have unmet := first syn rst
    have view : y.view = some (.inbound y.config defaultReceiveWindow) := by simp [End.view, unmet]
    obtain ⟨-, framed⟩ := absorb.quiet
    -- The announcement comes before what the first frame passes on.
    have announced : y.consume f rest (some st) (.event (.incomingStream f.streamId) :: ls) =
        ({ y with outs := y.outs ++ [.incomingStream f.streamId] } : End).consume f rest
          (some st) ls := by
      simp [End.consume]
    have met : (y.met || (f.syn && !f.rst)) = true := by
      have syn' : f.syn = true := syn
      have keeps : f.rst = false := rst
      simp [syn', keeps]
    rw [announced, show frames (.event (.incomingStream f.streamId) :: ls) =
      frames ls from rfl, framed, push_nil]
    refine Heading.absorb (y := { y with outs := y.outs ++ [.incomingStream f.streamId] }) ?_ ?_
      next
      view absorb regular met ?_
    · unfold Heading at out ⊢
      simpa [dataOf, closedOf, End.view] using out
    · exact back
    · rw [lateOf_append, sealed]
      split <;> rfl
  | known rst syn absorb =>
    have met := known _ hst
    obtain ⟨-, framed⟩ := absorb.quiet
    rw [framed, push_nil]
    exact out.absorb back next ((view_met met).trans hst) absorb regular (by rw [met]; rfl) sealed

theorem Consume.answers (consume : Consume config remote room f a ls b) : frames ls = [] ∨
      (frames ls = [dataFrame f.streamId flagRst []] ∧ a = none ∧ b = none) := by
  cases consume with
  | resetKnown rst | resetUnknown rst => exact .inl rfl
  | refuse rst full => exact .inr ⟨rfl, rfl, rfl⟩
  | accept rst syn parity free absorb | known rst syn absorb => exact .inl absorb.quiet.2

theorem Absorb.pendingOpen (absorb : Absorb config f st ls st') :
    st'.pendingOpen = st.pendingOpen := by
  cases absorb <;> rfl

theorem Consume.pendingOpen (consume : Consume config remote room f a ls b) (here : b = some st') :
    (∃ st, a = some st ∧ st'.pendingOpen = st.pendingOpen) ∨
      a = none ∧ f.syn = true ∧ f.rst = false ∧ st'.pendingOpen = some .ack := by
  cases consume with
  | accept rst syn parity free absorb =>
    cases here
    exact .inr ⟨rfl, syn, rst, absorb.pendingOpen⟩
  | known rst syn absorb =>
    cases here
    exact .inl ⟨_, rfl, absorb.pendingOpen⟩
  | _ => cases here

theorem Absorb.incomings (absorb : Absorb config f st ls st') :
    incomings f.streamId (outputs ls) = 0 := by
  cases absorb with
  | data kind order fits =>
    simp only [dataLabels, finLabels]
    split <;> split <;> simp [Yamux.incomings]
  | credit kind fits => rfl

theorem Consume.incomings (consume : Consume config remote room f a ls b) :
    incomings f.streamId (outputs ls) = 0 ∨
      incomings f.streamId (outputs ls) = 1 ∧ f.syn = true ∧ f.rst = false := by
  cases consume with
  | resetKnown rst | refuse rst full => exact .inl (by simp [Yamux.incomings])
  | resetUnknown rst => exact .inl rfl
  | accept rst syn parity free absorb =>
    refine .inr ⟨?_, syn, rst⟩
    have nothing := absorb.incomings
    simp only [Yamux.incomings] at nothing
    simp [Yamux.incomings, nothing]
  | known rst syn absorb => exact .inl absorb.incomings

theorem Consume.frames_all (consume : Consume config remote room f a ls b) {P : Frame → Prop}
    (reset : P (dataFrame f.streamId flagRst [])) : ∀ g ∈ frames ls, P g := by
  intro g member
  rcases consume.answers with nothing | ⟨one, -, -⟩
  · rw [nothing] at member
    cases member
  · rw [one] at member
    cases mem_singleton.mp member
    exact reset

theorem resetFrame_plain (stream : UInt32) : (dataFrame stream flagRst []).syn = false ∧
    (dataFrame stream flagRst []).rst = true :=
  ⟨show hasFlag flagRst flagSyn = false by decide, show hasFlag flagRst flagRst = true by decide⟩

theorem Opening.consume (opening : Opening a fs) (consume : Consume config remote room f a ls b)
    (plain : f.syn = false) : Opening b (fs ++ frames ls) := by
  have past : ∀ st', b = some st' → ∃ st, a = some st ∧ st'.pendingOpen = st.pendingOpen := by
    intro st' here
    rcases consume.pendingOpen here with same | ⟨-, syn, -⟩
    · exact same
    · rw [plain] at syn
      cases syn
  rcases opening with ⟨resets, waiting⟩ | ⟨g, rest, rfl, syn, keeps, later, past'⟩
  · refine .inl ⟨forall_mem_append.mpr ⟨resets, consume.frames_all (resetFrame_plain _).2⟩,
      fun st' here => ?_⟩
    obtain ⟨st, was, same⟩ := past st' here
    obtain ⟨pending, rfl⟩ := waiting st was
    refine ⟨same.trans pending, ?_⟩
    rcases consume.answers with nothing | ⟨-, gone, -⟩
    · rw [nothing]
      rfl
    · rw [gone] at was
      cases was
  · refine .inr ⟨g, rest ++ frames ls, rfl, syn, keeps,
      later.append (consume.frames_all (resetFrame_plain _).1), fun st' here => ?_⟩
    obtain ⟨st, was, same⟩ := past st' here
    rw [same]
    exact past' st was

namespace Paired

variable {stream : UInt32} {o a : End}

theorem act_opener (h : Paired stream o a) (nonzero : stream ≠ 0)
    (sound : SoundStream o.config o.st) (act : Act o.config stream False o.st ls b) :
    Paired stream (o.step b ls) (a.push (frames ls)) := by
  obtain ⟨there, back⟩ := h.there.act h.back h.opener sound act
  refine ⟨h.opener, there, back, fun unmet => ?_, fun met => ?_, h.reply, h.regularO,
    forall_mem_append.mpr ⟨h.regularA, act.regular nonzero⟩, sealed_act act h.sealedO,
    h.sealedA, ?_,
    h.announcedA⟩
  · obtain ⟨absent, opening⟩ := h.unmet unmet
    exact ⟨absent, opening.act act⟩
  · obtain ⟨quiet, past⟩ := h.begun met
    cases hst : o.st with
    | none =>
      rw [hst] at act
      cases act
    | some st =>
      rw [hst] at act
      obtain ⟨quiet', past'⟩ := act.past_syn (past st hst)
      exact ⟨quiet.append quiet', past'⟩
  · simp [step, h.announcedO, act.incomings]

theorem act_acceptor (h : Paired stream o a) (nonzero : stream ≠ 0)
    (sound : SoundStream a.config a.st) (act : Act a.config stream False a.st ls b) :
    Paired stream (o.push (frames ls)) (a.step b ls) := by
  cases hst : a.st with
  | none =>
    rw [hst] at act
    cases act
  | some st =>
    have met : a.met = true := by
      cases met : a.met with
      | true => rfl
      | false =>
        rw [(h.unmet met).1] at hst
        cases hst
    obtain ⟨back, there⟩ := h.back.act h.there met sound act
    have act' := act
    rw [hst] at act'
    obtain ⟨quiet, past⟩ := act'.past_syn (h.reply.2 st hst)
    refine { h with
      there, back, unmet := fun unmet => ?_, reply := ⟨h.reply.1.append quiet, past⟩
      regularO := forall_mem_append.mpr ⟨h.regularO, act.regular nonzero⟩
      sealedA := sealed_act act h.sealedA, announcedA := ?_ }
    · rw [show (a.step b ls).met = a.met from rfl, met] at unmet
      cases unmet
    · simpa [step, act.incomings] using h.announcedA

theorem consume_opener (h : Paired f.streamId o a) (nonzero : f.streamId ≠ 0)
    (next : o.inbox = f :: rest) (consume : Consume o.config remote room f o.st ls mid) :
    Paired f.streamId (o.consume f rest mid ls) (a.push (frames ls)) := by
  have plain : f.syn = false := h.reply.1 f (by simp [next])
  obtain ⟨back, there, sealed⟩ :=
    h.back.consume h.there next (h.regularO f (by simp [next])) consume
    (fun _ _ => h.opener) (fun syn _ => by rw [plain] at syn; cases syn) (fun _ _ => h.opener)
    h.sealedO
  have silent : incomings f.streamId (outputs ls) = 0 := by
    rcases consume.incomings with nothing | ⟨-, syn, -⟩
    · exact nothing
    · rw [plain] at syn
      cases syn
  refine ⟨by simp [End.consume, h.opener], there, back, fun unmet => ?_, fun met => ?_, ?_, ?_, ?_,
    sealed, h.sealedA, by simp [End.consume, h.announcedO, silent], h.announcedA⟩
  · obtain ⟨absent, opening⟩ := h.unmet unmet
    exact ⟨absent, opening.consume consume plain⟩
  · obtain ⟨quiet, past⟩ := h.begun met
    refine ⟨quiet.append (consume.frames_all (resetFrame_plain _).1), fun st' here => ?_⟩
    rcases consume.pendingOpen here with ⟨st, was, same⟩ | ⟨-, syn, -⟩
    · rw [same]
      exact past st was
    · rw [plain] at syn
      cases syn
  · exact ⟨fun g member => h.reply.1 g (by simp [next, show g ∈ rest from member]), h.reply.2⟩
  · exact fun g member => h.regularO g (by simp [next, show g ∈ rest from member])
  · exact forall_mem_append.mpr ⟨h.regularA, consume.frames_all (resetFrame_regular nonzero)⟩

theorem first_word (h : Paired stream o a) (next : a.inbox = f :: rest) :
    (∀ st, a.st = some st → a.met = true) ∧
      (f.syn = true → f.rst = false → a.met = false) ∧
      (f.syn = false → f.rst = false → a.met = true) := by
  refine ⟨fun st here => ?_, fun syn _ => ?_, fun plain keeps => ?_⟩
  · cases met : a.met with
    | true => rfl
    | false =>
      rw [(h.unmet met).1] at here
      cases here
  · cases met : a.met with
    | false => rfl
    | true =>
      rw [(h.begun met).1 f (by simp [next])] at syn
      cases syn
  · cases met : a.met with
    | true => rfl
    | false =>
      obtain ⟨-, opening⟩ := h.unmet met
      rw [next] at opening
      rcases opening with ⟨resets, -⟩ | ⟨g, rest', same, syn, -⟩
      · rw [resets f (by simp)] at keeps
        cases keeps
      · cases same
        rw [plain] at syn
        cases syn

theorem consume_acceptor (h : Paired f.streamId o a) (nonzero : f.streamId ≠ 0)
    (next : a.inbox = f :: rest) (consume : Consume a.config remote room f a.st ls mid) :
    Paired f.streamId (o.push (frames ls)) (a.consume f rest mid ls) := by
  obtain ⟨known, first, later⟩ := h.first_word next
  obtain ⟨there, back, sealed⟩ :=
    h.there.consume h.back next (h.regularA f (by simp [next])) consume
    known first later h.sealedA
  have announced : incomings f.streamId (a.consume f rest mid ls).outs ≤
      (a.consume f rest mid ls).met.toNat := by
    have before := h.announcedA
    simp only [End.consume, incomings_append]
    rcases consume.incomings with nothing | ⟨one, syn, keeps⟩
    · rw [nothing]
      refine Nat.le_trans before ?_
      cases a.met
      · exact Nat.zero_le _
      · exact Nat.le_refl _
    · rw [first syn keeps, Bool.toNat_false] at before
      simp [one, syn, keeps, before]
  refine ⟨h.opener, there, back, fun unmet => ?_, fun met => ?_, ?_, ?_, ?_, h.sealedO, sealed,
    h.announcedO, announced⟩
  · obtain ⟨unmet, notFirst⟩ := Bool.or_eq_false_iff.mp unmet
    obtain ⟨absent, opening⟩ := h.unmet unmet
    rw [next] at opening
    rcases opening with ⟨resets, waiting⟩ | ⟨g, rest', same, syn, keeps, -⟩
    · refine ⟨?_, .inl ⟨fun g member => resets g (by simp [show g ∈ rest from member]), ?_⟩⟩
      · cases here : mid with
        | none => rfl
        | some st' =>
          rcases consume.pendingOpen here with ⟨st, was, -⟩ | ⟨-, syn, keeps, -⟩
          · rw [absent] at was
            cases was
          · rw [syn, keeps] at notFirst
            cases notFirst
      · intro st here
        cases (waiting st here).2
    · cases same
      rw [syn, keeps] at notFirst
      cases notFirst
  · cases already : a.met with
    | true =>
      obtain ⟨quiet, past⟩ := h.begun already
      exact ⟨fun g member => quiet g (by simp [next, show g ∈ rest from member]), past⟩
    | false =>
      obtain ⟨-, opening⟩ := h.unmet already
      rw [next] at opening
      rcases opening with ⟨resets, -⟩ | ⟨g, rest', same, -, -, quiet, past⟩
      · simp [End.consume, already, resets f (by simp)] at met
      · cases same
        exact ⟨quiet, past⟩
  · refine ⟨h.reply.1.append (consume.frames_all (resetFrame_plain _).1), fun st' here => ?_⟩
    rcases consume.pendingOpen here with ⟨st, was, same⟩ | ⟨-, -, -, ack⟩
    · rw [same]
      exact h.reply.2 st was
    · rw [ack]
      simp
  · exact forall_mem_append.mpr ⟨h.regularO, consume.frames_all (resetFrame_regular nonzero)⟩
  · exact fun g member => h.regularA g (by simp [next, show g ∈ rest from member])

variable {before : Option StreamState}

/-- Trace by trace what holds act by act, on either side. -/
theorem acts (R : End → End → Prop) (trace : Trace (Act config stream False) before ls b)
    (one : ∀ {x y : End} {ls : List Label} {b : Option StreamState}, R x y →
      SoundStream x.config x.st → Act x.config stream False x.st ls b →
      R (x.step b ls) (y.push (frames ls)))
    (h : R x y) (configured : x.config = config) (starts : x.st = before)
    (sound : SoundStream config before) : R (x.step b ls) (y.push (frames ls)) := by
  induction trace generalizing x y with
  | nil =>
    rw [← starts, step_nil]
    exact (push_nil y).symm ▸ h
  | cons act _ ih =>
    have first := one h (by rw [configured, starts]; exact sound)
      (by rw [configured, starts]; exact act)
    have all := ih first configured rfl (act.sound sound)
    rwa [step_step, push_push, ← frames_append] at all

end Paired

theorem Heading.tell (heading : Heading stream x y) (untold : Untold stream os) :
    Heading stream x { y with outs := y.outs ++ os } := by
  unfold Heading at heading ⊢
  simpa [End.view, untold.data, untold.closed] using heading

theorem Heading.drop (out : Heading stream x y) (back : Heading stream y x) (met : x.met = true) :
    Heading stream { x with st := none } y ∧ Heading stream y { x with st := none } := by
  have view : ({ x with st := none } : End).view = none := view_met met
  have gone := Flow.sender_gone out (show ∀ f ∈ [], Blank f by simp)
  rw [append_nil] at gone
  unfold Heading
  rw [view]
  exact ⟨gone, Flow.receiver_gone back⟩

namespace Paired

section

variable {stream : UInt32} {o a : End} (h : Paired stream o a)
include h

theorem tell_opener (untold : Untold stream os) :
    Paired stream { o with outs := o.outs ++ os } a := by
  refine { h with back := h.back.tell untold, sealedO := ?_, announcedO := ?_ }
  · simp [lateOf_append, h.sealedO, untold.data, untold.late]
  · simp [h.announcedO, untold.incoming]

theorem tell_acceptor (untold : Untold stream os) :
    Paired stream o { a with outs := a.outs ++ os } := by
  refine { h with there := h.there.tell untold, sealedA := ?_, announcedA := ?_ }
  · simp [lateOf_append, h.sealedA, untold.data, untold.late]
  · simpa [untold.incoming] using h.announcedA

theorem drop_opener : Paired stream { o with st := none } a := by
  obtain ⟨there, back⟩ := h.there.drop h.back h.opener
  refine { h with
    there, back, unmet := fun unmet => ⟨(h.unmet unmet).1, ?_⟩
    begun := fun met => ⟨(h.begun met).1, by simp⟩ }
  rcases (h.unmet unmet).2 with ⟨resets, -⟩ | ⟨f, rest, same, syn, keeps, later, -⟩
  · exact .inl ⟨resets, by simp⟩
  · exact .inr ⟨f, rest, same, syn, keeps, later, by simp⟩

theorem drop_acceptor : Paired stream o { a with st := none } := by
  by_cases met : a.met = true
  · obtain ⟨back, there⟩ := h.back.drop h.there met
    refine { h with there, back, unmet := fun unmet => ?_, reply := ⟨h.reply.1, by simp⟩ }
    rw [met] at unmet
    cases unmet
  · have same : ({ a with st := none } : End) = a := by
      rw [← (h.unmet (Bool.not_eq_true _ ▸ met)).1]
    rw [same]
    exact h

end

end Paired

structure Untouched (stream : UInt32) (o a : End) : Prop where
  opener : o.met = true
  unmet : a.met = false
  noneO : o.st = none
  noneA : a.st = none
  emptyO : o.inbox = []
  emptyA : a.inbox = []
  accO : o.acc = []
  accA : a.acc = []
  outsO : Untold stream o.outs
  outsA : Untold stream a.outs

theorem Flow.silent {s : Option StreamState}
    (sender : ∀ st, s = some st → st.sendWindow = defaultReceiveWindow ∧ st.sendBuffer = [])
    (receiver : ∀ rt, r = some rt → rt.receiveWindow = defaultReceiveWindow ∧
      rt.remoteWriteClosed = false) : Flow s r [] 0 [] [] false := by
  refine ⟨?_, by simp, ?_, ?_, by simp, prefix_refl _, by simp, by simp, trivial, ?_⟩
  · intro st rt here there
    rw [(sender st here).1, (receiver rt there).1]
    rfl
  · intro st here
    rw [(sender st here).1]
    exact defaultReceiveWindow_le
  · intro st rt here there
    rw [(sender st here).2]
    rfl
  · exact fun rt there => (receiver rt there).2

theorem Untouched.paired {stream : UInt32} {o a : End} (h : Untouched stream o a)
    {st : Option StreamState} (opens : st = none ∨ st = some (.outbound o.config)) :
    Paired stream { o with st := st } a := by
  have view : a.view = some (.inbound a.config defaultReceiveWindow) := by simp [End.view, h.unmet]
  have viewO : ({ o with st := st } : End).view = st := view_met h.opener
  have own : ∀ s, st = some s → s = .outbound o.config := by
    rintro s rfl
    rcases opens with nothing | here
    · cases nothing
    · exact Option.some.inj here
  refine ⟨h.opener, ?_, ?_, fun _ => ⟨h.noneA, ?_⟩, fun met => ?_, ?_, ?_, ?_, h.outsO.late,
    h.outsA.late, h.outsO.incoming, by rw [h.outsA.incoming]; exact Nat.zero_le _⟩
  · unfold Heading
    rw [view, viewO, h.outsA.data, h.outsA.closed, h.emptyA]
    rw [h.emptyO, h.accO]
    refine Flow.silent (fun s here => ?_) (by rintro _ ⟨⟩; exact ⟨rfl, rfl⟩)
    rw [own s here]
    exact ⟨rfl, rfl⟩
  · unfold Heading
    rw [view, viewO, h.emptyA, h.accA]
    rw [h.outsO.data, h.outsO.closed, h.emptyO]
    refine Flow.silent (by rintro _ ⟨⟩; exact ⟨rfl, rfl⟩) (fun s here => ?_)
    rw [own s here]
    exact ⟨rfl, rfl⟩
  · rw [h.emptyA]
    refine .inl ⟨by simp, fun s here => ⟨?_, rfl⟩⟩
    rw [own s here]
    rfl
  · rw [h.unmet] at met
    cases met
  · refine ⟨?_, fun s here => ?_⟩
    · rw [h.emptyO]
      simp [NoSyn]
    · rw [h.noneA] at here
      cases here
  · rw [h.emptyO]
    simp
  · rw [h.emptyA]
    simp

end Yamux
