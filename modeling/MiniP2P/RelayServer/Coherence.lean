import MiniP2P.RelayServer.Attendance
import MiniP2P.RelayServer.Ledger

/-! What holds of the relay with no condition on its calls: it answers every one of them, and its
tables agree. Its tokens are sound until their counter comes round. -/
namespace RelayServer
open Identity Transition

namespace Agent

variable {localPeerId : PeerId} {config : RelayServerConfig} {s₀ s t : Agent} {marks : List Mark}

theorem Serves.steps {call : Call} (serves : Serves s call t) : ∃ marks, Trace Step s marks t := by
  cases serves with
  | quiet _ does =>
    obtain ⟨marks, run, -⟩ := does
    exact ⟨marks, run⟩
  | shows _ before _ shows =>
    obtain ⟨_, run, -⟩ := before
    obtain ⟨_, _, step, -, _, run', -⟩ := shows
    exact ⟨_, run.append (.cons step run')⟩

/-- Every run returns, and what it does is a trace of steps. -/
theorem run_steps (created : new localPeerId config = .ok s₀) (calls : List Call) :
    ∃ log s, Machine.run call s₀ calls = some (log, s) ∧ (∃ marks, Trace Step s₀ marks s) ∧
      s.Ready := by
  refine @Machine.run_keeps _ _ _ call (fun _ s => (∃ marks, Trace Step s₀ marks s) ∧ s.Ready) s₀ []
    (fun call held => ?_) ⟨⟨[], .nil s₀⟩, (new_ready created).1⟩ calls
  obtain ⟨⟨_, run⟩, ready⟩ := held
  obtain ⟨answer, t, answered, serves, ready'⟩ := call_serves ready call
  obtain ⟨_, more⟩ := serves.steps
  exact ⟨answer, t, answered, ⟨_, run.append more⟩, ready'⟩

/-- A load stays within a limit that every circuit opened leaves room for. -/
theorem load_bounded {w : PeerId → PeerId → Nat} {l : ValidConfig → Nat}
    (room : ∀ (s : Agent) source destination, s.crowded source destination = false →
      s.load w ≤ l s.config → s.load w + w source destination ≤ l s.config)
    (run : Trace Step s₀ marks s) (start : s₀.load w ≤ l s₀.config) : s.load w ≤ l s.config := by
  refine run.invariant (P := fun s => s.load w ≤ l s.config) (fun before step => ?_) start
  rw [step.config]
  rcases step.load w with fewer | ⟨source, destination, roomy, more⟩
  · exact fewer.trans before
  · exact more ▸ room _ source destination roomy before

/-- Circuits never exceed their limits, also when a renewal comes too late for its reservation. -/
theorem circuits_bounded (created : new localPeerId config = .ok s₀) (calls : List Call) :
    ∃ log s, Machine.run call s₀ calls = some (log, s) ∧
      s.circuitCount ≤ s.config.maxCircuits ∧
      ∀ peerId, s.peerCircuitCount peerId ≤ s.config.maxCircuitsPerPeer := by
  obtain ⟨log, s, runs, ⟨_, run⟩, -⟩ := run_steps created calls
  obtain ⟨-, -, circuits, perPeer⟩ := new_ready created
  refine ⟨log, s, runs, ?_, fun peerId => ?_⟩
  · rw [circuitCount_eq_load] at circuits ⊢
    refine load_bounded (l := (·.maxCircuits)) (fun s source destination roomy _ => ?_) run circuits
    rw [← circuitCount_eq_load]
    simp only [crowded, Bool.or_eq_false_iff, decide_eq_false_iff_not, Nat.not_le] at roomy
    exact roomy.2
  · have start := perPeer peerId
    rw [peerCircuitCount_eq_load] at start ⊢
    refine load_bounded (l := (·.maxCircuitsPerPeer))
      (fun s source destination roomy before => ?_) run start
    simp [crowded, peerCircuitCount_eq_load] at roomy
    by_cases isSource : source = peerId
    · simpa [isSource] using isSource ▸ roomy.1.1
    · by_cases isDestination : destination = peerId
      · simpa [isDestination] using isDestination ▸ roomy.1.2 (isDestination ▸ isSource)
      · rwa [beq_false_of_ne isSource, beq_false_of_ne isDestination]

theorem circuits_bounded_late : ∃ log s, Machine.run call relayAgent lateCommit = some (log, s) ∧
    s.circuitCount ≤ s.config.maxCircuits ∧
    ∀ peerId, s.peerCircuitCount peerId ≤ s.config.maxCircuitsPerPeer :=
  circuits_bounded relayAgent_created lateCommit

/-! ### Tokens -/

/-- Until the counter comes round, what is queued and filed carries tokens that have been drawn, and
the operation on file under the token of a queued action is the one of that action. -/
theorem tokens_filed (created : new localPeerId config = .ok s₀) (calls : List Call) :
    ∃ log s, Machine.run call s₀ calls = some (log, s) ∧
      (s.nextToken ≤ maxTokens → s.Filed) := by
  obtain ⟨log, s, runs, ⟨_, run⟩, -⟩ := run_steps created calls
  refine ⟨log, s, runs, ?_⟩
  refine run.invariant (P := fun s => s.nextToken ≤ maxTokens → s.Filed) ?_ fun _ =>
    (new_tended created).filed
  intro s _ t before step room
  exact (before (step.nextToken_le.trans room)).step step room

theorem tokens_filed_late : ∃ log s, Machine.run call relayAgent lateCommit = some (log, s) ∧
    (s.nextToken ≤ maxTokens → s.Filed) :=
  tokens_filed relayAgent_created lateCommit

end Agent

end RelayServer
