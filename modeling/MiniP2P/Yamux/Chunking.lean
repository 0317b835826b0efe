import MiniP2P.Yamux.Run

/-! Decoding does not depend on how bytes are cut into calls: neither the frames a
decoder yields nor, up to where the decoder keeps its unread bytes, the session. -/
namespace Yamux
open Incremental FrameDecoder YamuxSession Machine SessionCore

variable {d : FrameDecoder} {s t s' : YamuxSession}

namespace FrameDecoder

theorem nextFrame_kept (h : d.InBounds) :
    d.nextFrame.2.InBounds ∧ d.nextFrame.2.maxFrameLen = d.maxFrameLen := by
  have view := nextFrame_view d h
  split at view
  · rw [view]; exact ⟨h, rfl⟩
  · rw [view]; exact ⟨h, rfl⟩
  · obtain ⟨d', next, -, bounds, limit⟩ := view
    rw [next]
    exact ⟨bounds, limit⟩

theorem answers_kept (calls : List (Incremental.Call UInt8)) (h : d.InBounds) :
    (d.answers calls).2.InBounds ∧ (d.answers calls).2.maxFrameLen = d.maxFrameLen := by
  induction calls generalizing d with
  | nil => exact ⟨h, rfl⟩
  | cons call calls ih =>
    cases call with
    | push bytes => exact ih (inBounds_push h bytes)
    | next =>
      obtain ⟨bounds, limit⟩ := nextFrame_kept h
      obtain ⟨bounds', limit'⟩ := ih bounds
      exact ⟨bounds', limit'.trans limit⟩

theorem nextFrame_consumes {d' : FrameDecoder} {f : Frame} (h : d.InBounds)
    (next : d.nextFrame = (.ok (some f), d')) : d.unread = f.encode ++ d'.unread := by
  have view := nextFrame_view d h
  split at view
  · rw [view] at next; cases next
  · rw [view] at next; cases next
  · rename_i g rest found
    obtain ⟨d'', next', rfl, -, -⟩ := view
    rw [next'] at next
    cases next
    exact (parse_item found).2.2

theorem nextFrame_error {d' : FrameDecoder} {e : YamuxError} (h : d.InBounds)
    (next : d.nextFrame = (.error e, d')) : d' = d := by
  have view := nextFrame_view d h
  split at view
  · rw [view] at next; cases next; rfl
  · rw [view] at next; cases next
  · obtain ⟨d'', next', -⟩ := view
    rw [next'] at next
    cases next

theorem answers_frames {m : UInt32} {frames : List Frame}
    (legal : ∀ f ∈ frames, f.Valid ∧ f.payload.length ≤ m.toNat)
    {calls : List (Incremental.Call UInt8)}
    (bytes : pushed calls = (frames.map Frame.encode).flatten) {n : Nat}
    (enough : frames.length ≤ n) :
    yielded ((new m).answers (calls ++ List.replicate n .next)).1 = frames ∧
      (∀ a ∈ ((new m).answers (calls ++ List.replicate n .next)).1, ∃ o, a = .ok o) ∧
      ((new m).answers (calls ++ List.replicate n .next)).2.unread = [] := by
  have fits : ∀ f ∈ frames, (codec m).Legal f := by
    intro f member
    obtain ⟨valid, small⟩ := legal f member
    refine ⟨valid, fun isData => ?_⟩
    rw [UInt32.le_iff_toNat_le, valid.data_value isData]
    exact small
  obtain ⟨items, unread⟩ := answers_view (calls ++ List.replicate n .next) (new m) (inBounds_new m)
  rw [items, unread]
  exact (codec m).answers_all fits bytes enough

end FrameDecoder

namespace YamuxSession

structure SameView (s t : YamuxSession) : Prop where
  core : s.core = t.core
  unread : s.decoder.unread = t.decoder.unread
  limit : s.decoder.maxFrameLen = t.decoder.maxFrameLen
  bounds : s.decoder.InBounds
  bounds' : t.decoder.InBounds

/-- The loop of `handle_data` on the unread bytes and the new ones. -/
def drive (core : SessionCore) (m : UInt32) (u : List UInt8) :
    Option (Outcome SessionCore (Returned Unit) UInt8) :=
  (codec m).drive handle decodeFailed (u.length + 1) core u

/-- What `handle_data` makes of the end of the loop. -/
def conclude : Outcome SessionCore (Returned Unit) UInt8 →
    Except YamuxError Unit × SessionCore × List UInt8
  | .waiting core u => (.ok (), core, u)
  | .finished (.ok (), core) => (.ok (), core, [])
  | .finished (.error e, core) => (.error e, core.failProtocol, [])

def leftover : Outcome SessionCore (Returned Unit) UInt8 → List YamuxOutput
  | .finished (.error _, core) => core.pending
  | _ => []

/-- `handle_data` on an active session is a function of the core and the unread bytes. -/
theorem handleData_drive {s : YamuxSession} (bounds : s.decoder.InBounds)
    (active : s.core.ensureActive = .ok ()) {bytes : List UInt8}
    {o : Outcome SessionCore (Returned Unit) UInt8}
    (driven : drive s.core s.decoder.maxFrameLen (s.decoder.unread ++ bytes) = some o) :
    s.discarded bytes = leftover o ∧
    ∃ d, s.handleData bytes = some ((conclude o).1, ⟨(conclude o).2.1, d⟩) ∧
      d.unread = (conclude o).2.2 ∧ d.InBounds ∧ d.maxFrameLen = s.decoder.maxFrameLen := by
  have view := handleLoop_view ((s.decoder.push bytes).unread.length + 1) s.core
    (s.decoder.push bytes) (inBounds_push bounds bytes)
  have loop : s.handleFrames bytes =
      handleLoop ((s.decoder.push bytes).unread.length + 1) ⟨s.core, s.decoder.push bytes⟩ := rfl
  rw [maxFrameLen_push, unread_push bounds] at view
  rw [unread_push bounds] at loop
  unfold drive at driven
  rw [driven] at view
  simp only [handleData, discarded, active, loop]
  match o, view with
  | .waiting core u, view =>
    obtain ⟨d, runs, unread, inside, limit⟩ := view
    simp only [runs]
    exact ⟨rfl, d, rfl, unread, inside, limit⟩
  | .finished (.ok (), core), view =>
    obtain ⟨d, runs, limit, cleared⟩ := view
    simp only [runs]
    refine ⟨rfl, d, rfl, ?_, ?_, limit⟩
    · rw [cleared rfl]; rfl
    · rw [cleared rfl]; exact inBounds_clear d
  | .finished (.error e, core), view =>
    obtain ⟨d, runs, limit, -⟩ := view
    simp only [runs]
    exact ⟨rfl, d.clear, rfl, rfl, inBounds_clear d, limit⟩

/-- The session that the loop leaves takes no more bytes. -/
def Ended (r : Returned Unit) : Prop := ∃ e, (conclude (.finished r)).2.1.ensureActive = .error e

theorem drive_returns {core : SessionCore} (sound : core.Sound)
    (active : core.ensureActive = .ok ()) (m : UInt32) (u : List UInt8) :
    (∃ core' w, drive core m u = some (.waiting core' w) ∧ core'.Sound ∧
      core'.ensureActive = .ok ()) ∨
    ∃ r, drive core m u = some (.finished r) ∧ Ended r := by
  have step : ∀ {core : SessionCore} {u : List UInt8} {f : Frame} {rest : List UInt8},
      core.Sound ∧ core.ensureActive = .ok () → (codec m).parse u = .ok (some (f, rest)) →
      (∃ core', core.handle f = some (.inl core') ∧ core'.Sound ∧ core'.ensureActive = .ok ()) ∨
        ∃ r, core.handle f = some (.inr r) ∧ Ended r := by
    rintro core u f rest ⟨sound, active⟩ found
    rcases core.handle_cases sound active (parse_item found).1 with
      ⟨core', es, answer, sound', active', -⟩ | ⟨core', es, answer, sound', gone, -⟩ |
      ⟨e, core', ls, answer, -⟩
    · exact .inl ⟨core', answer, sound', active'⟩
    · refine .inr ⟨_, answer, ?_⟩
      cases failed : core'.failed <;> simp [Ended, conclude, ensureActive, gone, failed]
    · exact .inr ⟨_, answer, .failed, rfl⟩
  rcases drive_rule (codec m).toParser handle decodeFailed step
      (fun _ _ => ⟨.failed, rfl⟩) ⟨sound, active⟩ (Nat.lt_succ_self u.length) with
    ⟨core', w, driven, ⟨sound', active'⟩, -⟩ | ⟨r, driven, ended⟩
  · exact .inl ⟨core', w, driven, sound', active'⟩
  · exact .inr ⟨r, driven, ended⟩

theorem drive_some {core : SessionCore} (sound : core.Sound)
    (active : core.ensureActive = .ok ()) (m : UInt32) (u : List UInt8) :
    ∃ o, drive core m u = some o := by
  rcases drive_returns sound active m u with ⟨_, _, driven, -⟩ | ⟨_, driven, -⟩
  · exact ⟨_, driven⟩
  · exact ⟨_, driven⟩

theorem handleData_inactive {s : YamuxSession} {e : YamuxError}
    (inactive : s.core.ensureActive = .error e) (bytes : List UInt8) :
    s.handleData bytes = some (.error e, s) := by
  simp [handleData, inactive]

theorem handleData_append (h : s.Good) (a b : List UInt8) :
    ∃ r₁ s₁ r₂ s₂ r t, s.handleData a = some (r₁, s₁) ∧ s₁.handleData b = some (r₂, s₂) ∧
      s.handleData (a ++ b) = some (r, t) ∧ SameView t s₂ := by
  cases active : s.core.ensureActive with
  | error e =>
    exact ⟨_, s, _, s, _, s, handleData_inactive active a, handleData_inactive active b,
      handleData_inactive active _, rfl, rfl, rfl, h.bounds, h.bounds⟩
  | ok _ =>
    obtain ⟨o, whole⟩ := drive_some h.sound active s.decoder.maxFrameLen
      (s.decoder.unread ++ (a ++ b))
    obtain ⟨-, d, fed, unread, inside, limit⟩ := handleData_drive h.bounds active whole
    rw [← List.append_assoc] at whole
    rcases drive_returns h.sound active s.decoder.maxFrameLen (s.decoder.unread ++ a) with
      ⟨core, w, first, sound, active'⟩ | ⟨r, first, e, ended⟩
    · obtain ⟨-, d₁, fed₁, unread₁, inside₁, limit₁⟩ := handleData_drive h.bounds active first
      obtain ⟨o₂, second⟩ := drive_some sound active' d₁.maxFrameLen (d₁.unread ++ b)
      obtain ⟨-, d₂, fed₂, unread₂, inside₂, limit₂⟩ :=
        @handleData_drive ⟨core, d₁⟩ inside₁ active' b o₂ second
      rw [limit₁, unread₁] at second
      have same := drive_unique _ _ _ whole (drive_waiting _ _ _ first second)
      subst same
      exact ⟨_, _, _, _, _, _, fed₁, fed₂, fed, rfl, unread.trans unread₂.symm,
        limit.trans (limit₁.symm.trans limit₂.symm), inside, inside₂⟩
    · obtain ⟨-, d₁, fed₁, unread₁, inside₁, limit₁⟩ := handleData_drive h.bounds active first
      have same := drive_unique _ _ _ whole (drive_finished _ _ _ b first)
      subst same
      exact ⟨_, _, _, _, _, _, fed₁, @handleData_inactive ⟨_, d₁⟩ e ended b, fed, rfl,
        unread.trans unread₁.symm, limit.trans limit₁.symm, inside, inside₁⟩

theorem withCore_sameView (same : SameView s t) {α : Type} {wrap : α → Answer}
    {r : Option (α × SessionCore)} {a : Answer} (answer : s.withCore wrap r = some (a, s')) :
    ∃ t', t.withCore wrap r = some (a, t') ∧ SameView s' t' := by
  obtain ⟨x, core, rfl, rfl, rfl⟩ := withCore_some answer
  exact ⟨_, rfl, rfl, same.unread, same.limit, same.bounds, same.bounds'⟩

theorem handleData_sameView (same : SameView s t) (h : s.Good) (bytes : List UInt8) :
    ∃ r s' t', s.handleData bytes = some (r, s') ∧ t.handleData bytes = some (r, t') ∧
      s.discarded bytes = t.discarded bytes ∧ SameView s' t' := by
  cases active : s.core.ensureActive with
  | error e =>
    have inactive := active
    rw [same.core] at inactive
    exact ⟨_, s, t, handleData_inactive active bytes, handleData_inactive inactive bytes,
      by simp [discarded, active, inactive], same⟩
  | ok _ =>
    obtain ⟨o, driven⟩ := drive_some h.sound active s.decoder.maxFrameLen
      (s.decoder.unread ++ bytes)
    obtain ⟨lost, d, fed, unread, inside, limit⟩ := handleData_drive h.bounds active driven
    rw [same.core, same.unread, same.limit] at driven
    rw [same.core] at active
    obtain ⟨lost', d', fed', unread', inside', limit'⟩ :=
      handleData_drive same.bounds' active driven
    exact ⟨_, _, _, fed, fed', lost.trans lost'.symm, rfl, unread.trans unread'.symm,
      limit.trans (same.limit.trans limit'.symm), inside, inside'⟩

theorem call_sameView (same : SameView s t) (h : s.Good) (c : Call) {a : Answer}
    (answer : s.call c = some (a, s')) : ∃ t', t.call c = some (a, t') ∧ SameView s' t' := by
  cases c with
  | request r =>
    cases r with
    | goAway code =>
      simp only [call, request, goAway, same.core] at answer ⊢
      cases answer
      refine ⟨_, rfl, ?_⟩
      split
      · exact same
      · exact ⟨rfl, rfl, same.limit, inBounds_clear _, inBounds_clear _⟩
    | _ =>
      simp only [call, request, same.core] at answer ⊢
      exact withCore_sameView same answer
  | handleData bytes =>
    obtain ⟨r, s₁, t₁, fed, fed', lost, related⟩ := handleData_sameView same h bytes
    simp only [call, fed, fed', lost] at answer ⊢
    cases answer
    exact ⟨t₁, rfl, related⟩

theorem run_good (h : s.Good) (calls : List Call) :
    ∃ log s', run call s calls = some (log, s') :=
  have ⟨log, s', runs, _⟩ := @run_keeps _ _ _ call (fun _ s => s.Good) s []
    (fun c good => have ⟨a, s', _, answer, _, _, good', _⟩ := behaves good c;
      ⟨a, s', answer, good'⟩)
    h calls
  ⟨log, s', runs⟩

theorem handleData_good (h : s.Good) {bytes : List UInt8} {r : Except YamuxError Unit}
    (fed : s.handleData bytes = some (r, s')) : s'.Good := by
  obtain ⟨a, t, es, answer, -, -, good, -⟩ := behaves h (.handleData bytes)
  simp only [call, fed] at answer
  cases answer
  exact good

theorem run_sameView (same : SameView s t) (h : s.Good) {calls : List Call}
    {log : List (Call × Answer)} (runs : run call s calls = some (log, s')) :
    ∃ t', run call t calls = some (log, t') ∧ SameView s' t' := by
  obtain ⟨t', runs', -, same'⟩ := run_simulates (R := fun s t => s.Good ∧ SameView s t)
    (fun {s t a s'} c related answer => by
      obtain ⟨t', answer', same'⟩ := call_sameView related.2 related.1 c answer
      obtain ⟨b, u, es, answer'', -, -, good, -⟩ := behaves related.1 c
      cases answer.symm.trans answer''
      exact ⟨t', answer', good, same'⟩) ⟨h, same⟩ runs
  exact ⟨t', runs', same'⟩

end YamuxSession

/-- Frames are decoded exactly, however their bytes are cut into pushes. A frame that is
yielded is what its bytes encode, and an error consumes nothing. In every reachable
session, feeding two pieces at once or one after the other leaves sessions that differ at
most in where the decoder keeps the same unread bytes, which no later call can tell. -/
theorem decoding_chunking_independent (m : UInt32) :
    (∀ frames : List Frame, (∀ f ∈ frames, f.Valid ∧ f.payload.length ≤ m.toNat) →
      ∀ calls : List (Incremental.Call UInt8),
        pushed calls = (frames.map Frame.encode).flatten → ∀ n, frames.length ≤ n →
        let r := (new m).answers (calls ++ List.replicate n .next)
        yielded r.1 = frames ∧ (∀ a ∈ r.1, ∃ o, a = .ok o) ∧ r.2.unread = []) ∧
    (∀ calls f d', ((new m).answers calls).2.nextFrame = (.ok (some f), d') →
      ((new m).answers calls).2.unread = f.encode ++ d'.unread) ∧
    (∀ calls e d', ((new m).answers calls).2.nextFrame = (.error e, d') →
      d'.unread = ((new m).answers calls).2.unread) ∧
    ∀ role config start, withConfig role config = .ok start →
      ∀ (before : List Call) (a b : List UInt8), ∃ log s,
        run call start before = some (log, s) ∧
        ∃ r₁ s₁ r₂ s₂ r t, s.handleData a = some (r₁, s₁) ∧ s₁.handleData b = some (r₂, s₂) ∧
          s.handleData (a ++ b) = some (r, t) ∧
          t.core = s₂.core ∧ t.core.pending = s₂.core.pending ∧
          t.decoder.unread = s₂.decoder.unread ∧
          t.decoder.maxFrameLen = s₂.decoder.maxFrameLen ∧
          ∀ later, (run call t later).map Prod.fst =
            (run call s₂ later).map Prod.fst := by
  refine ⟨fun frames legal calls bytes n enough =>
    answers_frames legal bytes enough, fun calls f d' next => ?_,
    fun calls e d' next => ?_, fun role config start accepted before a b => ?_⟩
  · exact nextFrame_consumes
      (answers_kept calls (inBounds_new m)).1 next
  · rw [nextFrame_error
      (answers_kept calls (inBounds_new m)).1 next]
  · obtain ⟨valid, rfl, rfl⟩ := withConfig_ok accepted
    obtain ⟨log, s, runs, reached⟩ := run_returns role valid before
    obtain ⟨r₁, s₁, r₂, s₂, r, t, first, second, whole, same⟩ :=
      handleData_append reached.good a b
    refine ⟨log, s, runs, r₁, s₁, r₂, s₂, r, t, first, second, whole, same.core,
      congrArg pending same.core, same.unread, same.limit, fun later => ?_⟩
    have good := handleData_good reached.good whole
    obtain ⟨log', t', runs'⟩ := run_good good later
    obtain ⟨u, runs'', -⟩ := run_sameView same good runs'
    rw [runs', runs'']
    rfl

def pingBytes : List UInt8 := (⟨.ping, flagSyn, 0, 7, []⟩ : Frame).encode

def partBytes : List UInt8 := (⟨.data, flagSyn, 2, 100, [1, 2, 3, 4, 5]⟩ : Frame).encode

/-- Two sessions that differ only in the buffer that holds the same seventeen bytes. -/
theorem decoder_layout_depends_on_chunking :
    ∃ s₁ s₂ t, (new .client).handleData pingBytes = some (.ok (), s₁) ∧
      s₁.handleData partBytes = some (.ok (), s₂) ∧
      (new .client).handleData (pingBytes ++ partBytes) = some (.ok (), t) ∧
      (t.decoder.buffer.length, t.decoder.offset) = (29, 12) ∧
      (s₂.decoder.buffer.length, s₂.decoder.offset) = (17, 0) ∧ t ≠ s₂ := by
  refine ⟨_, _, _, rfl, rfl, rfl, rfl, rfl, fun same => ?_⟩
  have length := congrArg (fun s : YamuxSession => s.decoder.buffer.length) same
  exact absurd length (by decide)

theorem decoding_chunking_independent_ping :
    (∃ d, (new 65536).answers
        ([.push (pingBytes.take 5), .next, .push (pingBytes.drop 5)] ++ List.replicate 1 .next) =
          ([.ok none, .ok (some ⟨.ping, flagSyn, 0, 7, []⟩)], d) ∧ d.unread = []) ∧
      withConfig .client YamuxConfig.default.toYamuxConfig = .ok (.new .client) ∧
      ∃ log s, run call (.new .client) [.request .openStream] = some (log, s) ∧
        ∃ r₁ s₁ r₂ s₂ r t, s.handleData pingBytes = some (r₁, s₁) ∧
          s₁.handleData partBytes = some (r₂, s₂) ∧
          s.handleData (pingBytes ++ partBytes) = some (r, t) ∧ t.core = s₂.core := by
  obtain ⟨exact', -, -, session⟩ := decoding_chunking_independent 65536
  have valid : (⟨.ping, flagSyn, 0, 7, []⟩ : Frame).Valid := pingFrame_valid _ _ (.inl rfl)
  have decoded := exact' [⟨.ping, flagSyn, 0, 7, []⟩] (by simp [valid])
    [.push (pingBytes.take 5), .next, .push (pingBytes.drop 5)] rfl 1 (Nat.le_refl 1)
  obtain ⟨log, s, runs, r₁, s₁, r₂, s₂, r, t, first, second, whole, same, -⟩ :=
    session .client YamuxConfig.default.toYamuxConfig (.new .client) rfl [.request .openStream]
      pingBytes partBytes
  exact ⟨⟨_, rfl, decoded.2.2⟩, rfl, log, s, runs, r₁, s₁, r₂, s₂, r, t, first, second, whole, same⟩

end Yamux
