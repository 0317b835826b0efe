import MiniP2P.Yamux.Network

/-! While neither end goes away, no session has a GOAWAY to report. -/
namespace Yamux
open Collections Incremental YamuxSession

def Staying (core : SessionCore) : Prop := ∀ code, .goAwayReceived code ∉ core.pending

theorem About.staying {stream code : UInt32}
    (about : About stream (.goAwayReceived code)) : False := by
  cases about

variable {core core' : SessionCore}

section

variable (staying : Staying core)
include staying

theorem Staying.told {os : List YamuxOutput}
    (pending : core'.pending = core.pending ++ os) (told : ∀ code, .goAwayReceived code ∉ os) :
    Staying core' := by
  intro code among
  rw [pending] at among
  rcases List.mem_append.mp among with early | late
  · exact staying code early
  · exact told code late

theorem Staying.progress {stream : UInt32}
    {ls : List Label} (progress : Progress core core' stream ls) : Staying core' :=
  staying.told progress.works.pending fun _ among =>
    (trace_about progress.nonzero progress.works.trace _ among).staying

theorem Staying.quiet {fs : List Frame} (quiet : Quiet core core' fs) : Staying core' := by
  refine staying.told quiet.pending fun code among => ?_
  obtain ⟨_, -, same⟩ := List.mem_map.mp among
  cases same

theorem Staying.handled {f : Frame}
    {ls : List Label} (nonzero : f.streamId ≠ 0) (handled : Handled core core' f ls) :
    Staying core' :=
  staying.told handled.touched.pending fun _ among => (handled.about nonzero _ among).staying

theorem Staying.popFront :
    Staying core.popFront.2 ∧ ∀ code, core.popFront.1 ≠ some (.goAwayReceived code) := by
  unfold SessionCore.popFront
  split
  · exact ⟨staying, nofun⟩
  · rename_i o rest queue
    refine ⟨fun code among => staying code ?_, fun code same => staying code ?_⟩
    · rw [queue]
      exact List.mem_cons_of_mem _ among
    · cases same
      rw [queue]
      exact List.mem_cons_self

end

theorem Staying.request {s : YamuxSession} (good : s.Good) (staying : Staying s.core) {r : Request}
    (stays : r.leaves = false) {ans : Answer} {s' : YamuxSession}
    (answer : s.request r = some (ans, s')) :
    Staying s'.core ∧ ∀ code, ans ≠ .output (some (.goAwayReceived code)) := by
  obtain ⟨_, core, called, does⟩ := request_does good.sound r stays
  cases called.symm.trans answer
  cases does with
  | unopened | refused | opened => exact ⟨staying, nofun⟩
  | sent progress | closed progress | reset progress => exact ⟨staying.progress progress, nofun⟩
  | polled quiet => exact ⟨staying.quiet quiet, nofun⟩
  | popped =>
    obtain ⟨kept, silent⟩ := staying.popFront
    exact ⟨kept, fun code same => silent code (Answer.output.inj same)⟩
  | materialized progress =>
    obtain ⟨kept, silent⟩ := (staying.progress progress).popFront
    exact ⟨kept, fun code same => silent code (Answer.output.inj same)⟩

section Joined

variable {a b : Station} {ta tb : Tale} {core : SessionCore} {f : Frame} {rest : List Frame}

theorem Joined.asks (h : Joined false a b ta tb) (staying : Staying a.session.core) {r : Request}
    (stays : r.leaves = false) {ans : Answer} {s' : YamuxSession}
    (called : a.session.request r = some (ans, s')) :
    Staying s'.core ∧ Joined false ⟨s', a.incoming⟩ ⟨b.session, b.incoming ++ wireBytes ans.handed⟩
      (ta.after r ans) tb := by
  obtain ⟨_, _, _, answered, joined⟩ := h.stays r stays
  simp only [Station.request, called, Option.some.injEq, Prod.mk.injEq] at answered
  obtain ⟨rfl, rfl, rfl⟩ := answered
  exact ⟨(staying.request h.goodA stays called).1, joined⟩

theorem Joined.polls (h : Joined false a b ta tb) (staying : Staying a.session.core) :
    (a.session.core.pollOutput = some (none, a.session.core) ∧ a.session.core.pending = []) ∨
    ∃ output core, a.session.core.pollOutput = some (some output, core) ∧
      core.owed + 1 = a.session.core.owed ∧ Staying core ∧
      (∀ code, output ≠ .goAwayReceived code) ∧
      Joined false ⟨⟨core, a.session.decoder⟩, a.incoming⟩
        ⟨b.session, b.incoming ++ output.wire⟩ { ta with seen := ta.seen ++ [output] } tb := by
  rcases SessionCore.pollOutput_owed h.goodA.sound with drained | ⟨output, core, polled, owed⟩
  · exact .inl drained
  · have called : a.session.request .pollOutput =
        some (.output (some output), ⟨core, a.session.decoder⟩) := withCore_eq polled
    obtain ⟨kept, joined⟩ := h.asks staying rfl called
    refine .inr ⟨output, core, polled, owed, kept, fun code same => ?_, ?_⟩
    · exact (staying.request h.goodA rfl called).2 code (by rw [same])
    · simpa [Tale.after, Answer.handed, Answer.openedId, Request.taken] using joined

theorem Between.handle_stays (h : Between false a b ta tb core (f :: rest))
    (active : core.ensureActive = .ok ()) (staying : Staying core) {core' : SessionCore}
    (answer : core.handle f = some (.inl core')) : Staying core' := by
  obtain ⟨fb, ma, mb, linked, carries⟩ := h
  have valid : f.Valid := (linked.here.legal f (by simp [Station.peer])).1
  rcases SessionCore.handle_shape linked.here.sound active valid with
    ⟨nonzero, after, ls, handled, taken⟩ | ⟨-, e, after, ls, failed, -⟩ |
    ⟨-, after, fs, handled, quiet⟩ | ⟨-, left⟩
  · cases handled.symm.trans answer
    have kept : Staying after := staying.handled nonzero taken
    exact kept
  · cases failed.symm.trans answer
  · cases handled.symm.trans answer
    exact staying.quiet quiet
  · cases left.symm.trans answer

theorem Joined.deliver_stays (h : Joined false a b ta tb) (staying : Staying a.session.core)
    (count : Nat) :
    ∃ s', a.session.handleData (a.incoming.take count) = some (.ok (), s') ∧ Staying s'.core ∧
      Joined false ⟨s', a.incoming.drop count⟩ b ta tb := by
  obtain ⟨_, _, _, _, linked, -, -⟩ := h.linked
  obtain ⟨-, own, other⟩ := linked.here.together rfl
  have active : a.session.core.ensureActive = .ok () :=
    SessionCore.ensureActive_ok.mpr ⟨linked.here.unfailed, own, other⟩
  have ran := @handleFrames_rule a.session h.goodA.toFramed
    (fun core u => Reading false a b ta tb
      (a.incoming.drop count ++ wireBytes b.session.core.pending) core u ∧ Staying core)
    (fun _ => False)
    (fun {core u f left} inv parsed => by
      rcases inv.1.first with waits | ⟨g, rest, left', found, between, more⟩
      · cases waits.symm.trans parsed
      · cases found.symm.trans parsed
        rcases between.handle inv.1.active with
          ⟨core', answer, active', config, between'⟩ | ⟨_, _, gone, _⟩
        · exact .inl ⟨core', answer, ⟨active', config ▸ inv.1.limit, rest, between', more⟩,
            between.handle_stays inv.1.active inv.2 answer⟩
        · cases gone)
    (fun inv failed => absurd failed inv.1.not_error) _
    ⟨h.reading active count, staying⟩
  obtain ⟨core, d, runs, ⟨-, kept⟩, -⟩ | ⟨_, _, _, _, impossible, -⟩ := ran
  · have fed : a.session.handleData (a.incoming.take count) = some (.ok (), ⟨core, d⟩) := by
      simp [handleData, active, runs]
    obtain ⟨_, a', delivered, joined, -⟩ := h.deliver count
    simp only [Station.deliver, call, fed] at delivered
    cases delivered
    exact ⟨_, fed, kept, joined⟩
  · exact impossible.elim

end Joined

end Yamux
