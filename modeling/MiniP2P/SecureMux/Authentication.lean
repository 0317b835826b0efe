import Mathlib.Data.List.TakeWhile
import MiniP2P.Noise.Progress
import MiniP2P.SecureMux.Work

/-! A session opposite any other end: whom it announces, what it has said by then, and how it
ends. -/
namespace SecureMux
open Fallible Identity List SessionConfig SecureMuxSession
open Multistream (MultistreamSelect MultistreamOutput MultistreamInput encodeMessage)
open Noise (Primitives NoiseInput NoiseOutput NoiseSession Evidence Life noiseProtocolId outboundOf
  decryptedOf reportsOf)
open Yamux (YamuxConfig YamuxError YamuxSession yamuxProtocolId)

variable {P : Primitives} {config : SessionConfig P}

/-! ### Before a peer is announced -/

variable (role : SessionRole)

def noiseBytes (received : List UInt8) : List UInt8 :=
  let read := (selector role noiseProtocolId).reads [] received
  if read.1.1 = .done then read.2 else []

def SessionConfig.life (config : SessionConfig P) (calls : List Noise.Call) : Life P :=
  (Life.new config.noise).run calls

/-- All that may be said before a peer is announced: messages of a negotiation in the clear, then
what a Noise session sends that is given nothing to encrypt but messages of a negotiation. -/
structure Opening (config : SessionConfig P) (known : Option PeerId) (calls : List Noise.Call)
    (said : List SessionOutput) : Prop where
  said : ∃ lines : List String, said = lines.map (fun line => .write (encodeMessage line)) ++
    (outboundOf (config.life calls).outputs).map .write
  messages : ∀ plaintext, .input (.encrypt plaintext) ∈ calls → ∃ line,
    plaintext = encodeMessage line
  reported : ∀ peer, known = some peer →
    ∃ identityKey, .handshakeComplete peer identityKey ∈ (config.life calls).outputs

/-- The opening of a session whose Noise session is this one, drained, after it has heard these
bytes. -/
def Runs (config : SessionConfig P) (heard : List UInt8) (known : Option PeerId)
    (said : List SessionOutput) (noise : NoiseSession P) : Prop :=
  ∃ calls, Opening config known calls said ∧ (config.life calls).received = heard ∧
    (config.life calls).session = noise ∧ noise.pending = []

/-- The opening of a session whose Noise session has heard some of these bytes. -/
def Told (config : SessionConfig P) (heard : List UInt8) (known : Option PeerId)
    (said : List SessionOutput) : Prop :=
  ∃ calls, Opening config known calls said ∧ (config.life calls).received <+: heard

variable {heard : List UInt8} {known : Option PeerId} {said base outputs : List SessionOutput}
  {noise : NoiseSession P}

/-! ### Work that may fail -/

section Leads

variable {α β : Type} {Q : α → List SessionOutput → Prop} {Q' : β → List SessionOutput → Prop}
  {E E' : List SessionOutput → Prop}

/-- After `base` and what it leaves queued, the work ends in `Q`, or fails for good in `E`. -/
def Leads (base : List SessionOutput) (work : M α) (Q : α → List SessionOutput → Prop)
    (E : List SessionOutput → Prop) (outputs : List SessionOutput) : Prop :=
  wp work (fun a outputs' => Q a (base ++ outputs'))
    (fun halt outputs' => halt.Fatal ∧ E (base ++ outputs')) outputs

variable {work : M α} (leads : Leads base work Q E outputs)
include leads

theorem Leads.bind {next : α → M β}
    (later : ∀ a outputs', Q a (base ++ outputs') → Leads base (next a) Q' E' outputs')
    (weaker : ∀ said, E said → E' said) : Leads base (work >>= next) Q' E' outputs :=
  wp_bind.mpr (wp_mono leads later fun _ _ ended => ⟨ended.1, weaker _ ended.2⟩)

theorem Leads.mono {Q' : α → List SessionOutput → Prop} (ok : ∀ a said, Q a said → Q' a said)
    (weaker : ∀ said, E said → E' said) : Leads base work Q' E' outputs :=
  wp_mono leads (fun a _ => ok a _) fun _ _ ended => ⟨ended.1, weaker _ ended.2⟩

omit leads in
theorem leads_unless {c : Prop} [Decidable c] {reason : String} {a : α}
    (bad : E (base ++ outputs)) (good : Q a (base ++ outputs)) :
    Leads base (if c then fail reason else pure a) Q E outputs :=
  wp_ite.mpr ⟨fun _ => ⟨fail_fatal _, bad⟩, fun _ => good⟩

end Leads

theorem Runs.told (runs : Runs config heard known said noise) : Told config heard known said := by
  obtain ⟨calls, opening, rfl, -⟩ := runs
  exact ⟨calls, opening, prefix_refl _⟩

theorem Told.longer {longer : List UInt8} (told : Told config heard known said)
    (more : heard <+: longer) : Told config longer known said := by
  obtain ⟨calls, opening, part⟩ := told
  exact ⟨calls, opening, part.trans more⟩

theorem Told.forget (told : Told config heard known said) : Told config heard none said := by
  obtain ⟨calls, ⟨said, messages, -⟩, part⟩ := told
  exact ⟨calls, ⟨said, messages, nofun⟩, part⟩

theorem Runs.handle (runs : Runs config heard known (base ++ outputs) noise) (context : String)
    {input : NoiseInput}
    (message : ∀ plaintext, input = .encrypt plaintext → ∃ line, plaintext = encodeMessage line) :
    Leads base (handleNoise context noise input)
      (fun drained said =>
        Runs config (heard ++ Life.taken input (.ok ())) known said drained.noise ∧
        ∀ peer, drained.peer = some peer →
          Runs config (heard ++ Life.taken input (.ok ())) (some peer) said drained.noise)
      (Told config heard none) outputs := by
  obtain ⟨calls, ⟨⟨lines, said⟩, messages, reported⟩, rfl, rfl, drained⟩ := runs
  unfold handleNoise Leads
  rw [wp_bind]
  refine wp_orFail (fun _ answered => ?_) fun halt fatal =>
    ⟨fatal, calls, ⟨⟨lines, said⟩, messages, nofun⟩, prefix_refl _⟩
  rw [wp_ran (drainNoise_ran ..)]
  obtain ⟨session, handled⟩ : ∃ session, (config.life calls).session.handleInput input =
      (.ok (), session) := ⟨_, Prod.ext answered rfl⟩
  rw [handled]
  have polled := Life.run_handled handled
  rw [life, ← Life.run_append] at polled
  have runs {known : Option PeerId} (reported : ∀ peer, known = some peer → ∃ identityKey,
      .handshakeComplete peer identityKey ∈ (config.life calls).outputs ++ session.pending) :
      Runs config ((config.life calls).received ++ Life.taken input (.ok ())) known
        (base ++ (outputs ++ (outboundOf session.pending).map .write))
        { session with pending := [] } := by
    refine ⟨calls ++ .input input :: List.replicate session.pending.length .poll,
      ⟨⟨lines, ?_⟩, ?_, ?_⟩, ?_⟩
    · rw [life, polled, ← append_assoc, said]
      simp [life]
    · intro plaintext among
      rcases mem_append.mp among with early | late
      · exact messages plaintext early
      · rcases mem_cons.mp late with same | poll
        · cases same
          exact message plaintext rfl
        · cases (mem_replicate.mp poll).2
    · rw [life, polled]
      exact reported
    · rw [life, polled]
      exact ⟨rfl, rfl, rfl⟩
  refine ⟨runs fun peer same => ?_, fun peer same => runs ?_⟩
  · obtain ⟨identityKey, told⟩ := reported peer same
    exact ⟨identityKey, mem_append_left _ told⟩
  · rintro _ ⟨⟩
    obtain ⟨⟨_, identityKey⟩, last, rfl⟩ := Option.map_eq_some_iff.mp same
    obtain ⟨output, told, shape⟩ := mem_filterMap.mp (mem_of_getLast? last)
    refine ⟨identityKey, mem_append_right _ ?_⟩
    cases output with
    | handshakeComplete peer key => cases shape; exact told
    | outbound bytes => cases shape
    | decrypted bytes => cases shape

theorem Runs.encrypt (runs : Runs config heard known (base ++ outputs) noise) (line : String) :
    Leads base (SecureMux.encrypt noise (encodeMessage line))
      (fun noise' said => Runs config heard known said noise')
        (Told config heard none) outputs := by
  refine (runs.handle _ ?_).bind ?_ fun _ told => told
  · rintro _ ⟨⟩
    exact ⟨line, rfl⟩
  · rintro drained outputs' ⟨runs', -⟩
    rw [Life.taken, append_nil] at runs'
    · exact leads_unless runs'.told.forget runs'
    · simp

/-! ### Negotiating -/

section Select

variable {S : Type} {send : S → List UInt8 → M S} {I : S → List SessionOutput → Prop}
  {E : List SessionOutput → Prop}

/-- Sending a message keeps one thing, and failing to leaves another, which follows from it. -/
def Sends (send : S → List UInt8 → M S) (I : S → List SessionOutput → Prop)
    (E : List SessionOutput → Prop) : Prop :=
  (∀ state outputs, I state outputs → E outputs) ∧
  ∀ state outputs line, I state outputs →
    wp (send state (encodeMessage line)) I (fun halt outputs' => halt.Fatal ∧ E outputs') outputs

variable {queue : List MultistreamOutput}

theorem drainSelect_keeps (sends : Sends send I E)
    (messages : ∀ sent, .outboundData sent ∈ queue → ∃ line, sent = encodeMessage line) {state : S}
    {outputs : List SessionOutput} (holds : I state outputs) :
    wp (drainSelect send queue state) I (fun halt outputs' => halt.Fatal ∧ E outputs') outputs := by
  induction queue generalizing state outputs with
  | nil => exact holds
  | cons output queue ih =>
    have later := @ih fun sent among => messages sent (mem_cons_of_mem _ among)
    cases output with
    | outboundData sent =>
      obtain ⟨line, rfl⟩ := messages sent (mem_cons_self ..)
      rw [drainSelect, wp_bind]
      exact wp_imp (sends.2 state outputs line holds) (fun _ _ kept => later kept)
    | _ => exact later holds

theorem followSelect_keeps (sends : Sends send I E) {role : SessionRole} {name protocol : String}
    (messages : ∀ sent, .outboundData sent ∈ queue → ∃ line, sent = encodeMessage line) {state : S}
    {outputs : List SessionOutput} (holds : I state outputs) (negotiated : Bool) :
    wp (followSelect send role name protocol queue state negotiated)
      (fun found outputs' => I found.1 outputs' ∧
        (found.2 = true → negotiated = true ∨ .negotiated protocol ∈ queue))
      (fun halt outputs' => halt.Fatal ∧ E outputs') outputs := by
  induction queue generalizing state outputs negotiated with
  | nil => exact ⟨holds, .inl⟩
  | cons output queue ih =>
    have rest := @ih fun sent among => messages sent (mem_cons_of_mem _ among)
    have later {state : S} {outputs : List SessionOutput} (holds : I state outputs) :
        wp (followSelect send role name protocol queue state negotiated)
          (fun found outputs' => I found.1 outputs' ∧
            (found.2 = true → negotiated = true ∨ .negotiated protocol ∈ output :: queue))
          (fun halt outputs' => halt.Fatal ∧ E outputs') outputs :=
      wp_imp (rest holds negotiated)
        (fun _ _ kept => ⟨kept.1, fun yes => (kept.2 yes).imp_right (mem_cons_of_mem _)⟩)
    have halts (reason : String) {Q : S × Bool → List SessionOutput → Prop} :
        wp (fail reason) Q (fun halt outputs' => halt.Fatal ∧ E outputs') outputs :=
      ⟨fail_fatal reason, sends.1 state outputs holds⟩
    cases output with
    | outboundData sent =>
      obtain ⟨line, rfl⟩ := messages sent (mem_cons_self ..)
      rw [followSelect, wp_bind]
      exact wp_imp (sends.2 state outputs line holds) (fun _ _ kept => later kept)
    | negotiated chosen =>
      rw [followSelect, wp_ite]
      refine ⟨?_, fun _ => halts _⟩
      rintro rfl
      exact wp_imp (rest holds true) (fun _ _ kept => ⟨kept.1, fun _ => .inr (mem_cons_self ..)⟩)
    | notAvailable =>
      rw [followSelect, wp_ite]
      exact ⟨fun _ => later holds, fun _ => halts _⟩
    | protocolError reason => exact halts _

end Select

theorem encrypt_sends (config : SessionConfig P) (heard : List UInt8) (known : Option PeerId)
    (base : List SessionOutput) :
    Sends SecureMux.encrypt
      (fun noise outputs => Runs config heard known (base ++ outputs) noise)
      (fun outputs => Told config heard none (base ++ outputs)) :=
  ⟨fun _ _ runs => runs.told.forget, fun _ _ line runs => runs.encrypt line⟩

def Clear (said : List SessionOutput) : Prop :=
  ∃ lines : List String, said = lines.map fun line => .write (encodeMessage line)

theorem Clear.runs (clear : Clear said) (config : SessionConfig P) :
    Runs config [] none said (.new config.noise) := by
  obtain ⟨lines, rfl⟩ := clear
  exact ⟨[], ⟨⟨lines, (append_nil _).symm⟩, nofun, nofun⟩, rfl, rfl, rfl⟩

theorem sendRaw_sends (config : SessionConfig P) (base : List SessionOutput) :
    Sends sendRaw (fun _ outputs => Clear (base ++ outputs))
      (fun outputs => Told config [] none (base ++ outputs)) := by
  refine ⟨fun _ _ clear => (clear.runs config).told, fun _ outputs line clear => ?_⟩
  obtain ⟨lines, said⟩ := clear
  refine ⟨lines ++ [line], ?_⟩
  rw [← append_assoc, said]
  simp

/-! ### Phases -/

def Selected (received : List UInt8) : Prop :=
  ((selector role noiseProtocolId).reads [] received).1.1 = .done

theorem Selected.more {role : SessionRole} {received : List UInt8}
    (selected : Selected role received) (more : List UInt8) : Selected role (received ++ more) ∧
      noiseBytes role (received ++ more) = noiseBytes role received ++ more := by
  have whole : (selector role noiseProtocolId).reads [] (received ++ more) =
      (((selector role noiseProtocolId).reads [] received).1,
        ((selector role noiseProtocolId).reads [] received).2 ++ more) := by
    refine (Incremental.read_append ..).trans (Incremental.read_stopped ?_)
    exact beq_iff_eq.mpr selected
  have settled : Selected role (received ++ more) := by
    rw [Selected, whole]
    exact selected
  refine ⟨settled, ?_⟩
  have now : noiseBytes role (received ++ more) =
      ((selector role noiseProtocolId).reads [] (received ++ more)).2 := if_pos settled
  have before : noiseBytes role received = ((selector role noiseProtocolId).reads [] received).2 :=
    if_pos selected
  rw [now, before, whole]

theorem noiseBytes_mono (received more : List UInt8) :
    noiseBytes role received <+: noiseBytes role (received ++ more) := by
  by_cases selected : Selected role received
  · rw [(selected.more more).2]
    exact prefix_append ..
  · have nothing : noiseBytes role received = [] := if_neg selected
    rw [nothing]
    exact nil_prefix

/-- A peer has been announced, once, after the opening that reported it. -/
def Announced (config : SessionConfig P) (heard : List UInt8) (peer : PeerId)
    (said : List SessionOutput) : Prop :=
  ∃ before after, said = before ++ .established peer :: after ∧ Told config heard
    (some peer) before ∧
    ∀ output ∈ after, output.announces = false

def Outcome (config : SessionConfig P) (heard : List UInt8) (said : List SessionOutput) : Prop :=
  Told config heard none said ∨ ∃ peer, Announced config heard peer said

variable {peer : PeerId} {outputs' : List SessionOutput} {phase : Phase P} {α : Type}

theorem Announced.longer {longer : List UInt8} (announced : Announced config heard peer said)
    (more : heard <+: longer) : Announced config longer peer said := by
  obtain ⟨before, after, split, told, once⟩ := announced
  exact ⟨before, after, split, told.longer more, once⟩

theorem Outcome.longer {longer : List UInt8} (outcome : Outcome config heard said)
    (more : heard <+: longer) : Outcome config longer said :=
  outcome.imp (·.longer more) fun ⟨peer, announced⟩ => ⟨peer, announced.longer more⟩

theorem Announced.grows (announced : Announced config heard peer (base ++ outputs))
    (grows : Grows outputs outputs') : Announced config heard peer (base ++ outputs') := by
  obtain ⟨before, after, split, told, once⟩ := announced
  obtain ⟨more, rfl, quiet⟩ := grows
  refine ⟨before, after ++ more, ?_, told, fun output among => ?_⟩
  · rw [← append_assoc, split, append_assoc, cons_append]
  · rcases mem_append.mp among with early | late
    · exact once output early
    · exact quiet output late

inductive Stands (config : SessionConfig P) (heard : List UInt8) :
    Phase P → List SessionOutput → Prop
  | noise {noise : NoiseSession P} {said : List SessionOutput}
      (runs : Runs config heard none said noise) : Stands config heard (.noise noise) said
  | selectYamux {noise : NoiseSession P} {select : MultistreamSelect} {peer : PeerId}
      {said : List SessionOutput} (runs : Runs config heard (some peer) said noise)
      (quiet : select.pendingOutputs = []) :
      Stands config heard (.selectYamux noise select peer) said
  | ready {noise : NoiseSession P} {yamux : YamuxSession} {peer : PeerId}
    {said : List SessionOutput}
      (announced : Announced config heard peer said) (good : yamux.Good) :
      Stands config heard (.ready noise yamux peer) said

theorem Stands.outcome (stands : Stands config heard phase said) : Outcome config heard said := by
  cases stands with
  | noise runs => exact .inl runs.told
  | selectYamux runs => exact .inl runs.told.forget
  | ready announced => exact .inr ⟨_, announced⟩

theorem wp_unpublished {m : M α} {Q : α → List SessionOutput → Prop}
    {R : Halt → List SessionOutput → Prop} :
    wp (unpublished m) Q R outputs ↔ wp m Q (fun halt outputs' =>
      R halt (outputs'.take outputs.length))
      outputs := by
  unfold wp unpublished
  cases m outputs <;> rfl

theorem Grows.unpublished (grows : Grows outputs outputs') :
    outputs'.take outputs.length = outputs := by
  obtain ⟨more, rfl, -⟩ := grows
  exact take_left

theorem insertIdx_append (xs ys : List α) (a : α) :
    (xs ++ ys).insertIdx xs.length a = xs ++ a :: ys := by
  induction xs with
  | nil => rfl
  | cons x xs ih => simp [ih]

theorem Runs.announce (runs : Runs config heard (some peer) (base ++ outputs) noise)
    (grows : Grows outputs outputs') :
    Announced config heard peer (base ++ outputs'.insertIdx outputs.length
      (.established peer)) := by
  obtain ⟨more, rfl, quiet⟩ := grows
  refine ⟨base ++ outputs, more, ?_, runs.told, quiet⟩
  rw [insertIdx_append, append_assoc]

theorem Runs.select {select : MultistreamSelect}
    (runs : Runs config heard (some peer) (base ++ outputs) noise)
    (quiet : select.pendingOutputs = []) (role : SessionRole) (limits : YamuxConfig)
    (plaintext : List UInt8) :
    Leads base (feedDecryptedYamuxSelect role limits noise select peer plaintext)
      (Stands config heard) (Told config heard none) outputs := by
  unfold feedDecryptedYamuxSelect Leads
  rw [wp_bind]
  refine wp_imp (followSelect_keeps (encrypt_sends config heard (some peer) base)
    (fun _ => MultistreamSelect.handleInput_messages quiet) runs false) ?_
  rintro ⟨noise', negotiated⟩ outputs' ⟨runs', -⟩
  cases negotiated with
  | false => exact .selectYamux runs' rfl
  | true =>
    dsimp only
    rw [if_neg (by decide), wp_bind]
    refine wp_orFail (fun yamux created => ?_) fun halt fatal => ⟨fatal, runs'.told.forget⟩
    obtain ⟨valid, -, rfl⟩ := Yamux.YamuxSession.withConfig_ok created
    have good := Yamux.YamuxSession.new_good (yamuxRole role) valid
    rw [wp_bind, wp_get, wp_ite]
    refine ⟨fun _ => ?_, fun _ => ?_⟩
    · exact .ready (runs'.announce (.refl outputs')) good
    · rw [wp_bind, wp_unpublished]
      refine wp_mono (feedYamux_plain good noise' _ outputs') ?_ ?_
      · rintro ⟨noise'', yamux⟩ outputs'' ⟨good', grows⟩
        exact .ready (runs'.announce grows) good'
      · rintro halt outputs'' ⟨fatal, grows⟩
        rw [grows.unpublished]
        exact ⟨fatal, runs'.told.forget⟩

theorem Stands.transport (stands : Stands config heard phase (base ++ outputs)) (role : SessionRole)
    (limits : YamuxConfig) (plaintext : List UInt8) :
    Leads base (feedDecryptedTransport role limits phase plaintext)
      (Stands config heard) (Outcome config heard) outputs := by
  cases stands with
  | noise runs => exact ⟨fail_fatal _, .inl runs.told⟩
  | selectYamux runs quiet =>
    exact (runs.select quiet role limits plaintext).mono (fun _ _ stands => stands) fun _ => .inl
  | ready announced good =>
    rw [Leads, feedDecryptedTransport, wp_bind]
    refine wp_mono (feedYamux_plain good _ plaintext outputs) ?_ ?_
    · rintro ⟨noise', yamux'⟩ outputs' ⟨good', grows⟩
      exact .ready (announced.grows grows) good'
    · rintro halt outputs' ⟨fatal, grows⟩
      exact ⟨fatal, .inr ⟨_, announced.grows grows⟩⟩

theorem Stands.decrypted (stands : Stands config heard phase (base ++ outputs)) (role : SessionRole)
    (limits : YamuxConfig) (plaintexts : List (List UInt8)) :
    Leads base (feedDecrypted role limits plaintexts phase)
      (Stands config heard) (Outcome config heard) outputs := by
  induction plaintexts generalizing phase outputs with
  | nil => exact stands
  | cons plaintext rest ih =>
    exact (stands.transport role limits plaintext).bind (fun _ _ stands' => ih stands')
      fun _ outcome => outcome

theorem Runs.feedNoise (runs : Runs config heard none (base ++ outputs) noise) (role : SessionRole)
    (limits : YamuxConfig) (data : List UInt8) :
    Leads base (SecureMux.feedNoise role limits noise data)
      (Stands config (heard ++ data)) (Outcome config (heard ++ data)) outputs := by
  refine .bind (runs.handle _ (by nofun)) ?_ fun _ told => .inl (told.longer (prefix_append ..))
  rintro drained outputs' ⟨runs', reported⟩
  split
  · exact leads_unless (.inl runs'.told) (.noise runs')
  · rename_i peer found
    have quiet : (selector role yamuxProtocolId).pendingOutputs = [] := by cases role <;> rfl
    rw [Leads, wp_bind]
    refine wp_mono (drainSelect_keeps (encrypt_sends config (heard ++ data) (some peer) base)
      (fun _ => MultistreamSelect.handleInput_messages quiet) (reported peer found)) ?_
      fun _ _ ended => ⟨ended.1, .inl ended.2⟩
    intro noise' outputs'' runs''
    exact Stands.decrypted (.selectYamux runs'' rfl) role limits _

theorem Clear.startNoise (clear : Clear (base ++ outputs)) (role : SessionRole)
    (limits : YamuxConfig) (remaining : List UInt8) :
    Leads base (SecureMux.startNoise role limits (.new config.noise) remaining)
      (Stands config remaining) (Outcome config remaining) outputs := by
  refine .bind ((clear.runs config).handle _ (by nofun)) ?_ fun _ told =>
    .inl (told.longer nil_prefix)
  rintro drained outputs' ⟨runs, -⟩
  rw [Leads, wp_ite]
  refine ⟨fun _ => ⟨fail_fatal _, .inl (runs.told.longer nil_prefix)⟩, fun _ => ?_⟩
  rw [wp_ite]
  refine ⟨fun empty => ?_, fun _ => runs.feedNoise role limits remaining⟩
  rw [List.isEmpty_iff.mp empty]
  exact .noise runs

theorem Runs.readTransport (runs : Runs config heard known (base ++ outputs) noise)
    (data : List UInt8) :
    Leads base (SecureMux.readTransport noise data)
      (fun drained said => Runs config (heard ++ data) known said drained.noise)
      (Told config (heard ++ data) none) outputs := by
  refine .bind (runs.handle _ (by nofun)) ?_ fun _ told => told.longer (prefix_append ..)
  rintro drained outputs' ⟨runs', -⟩
  exact leads_unless runs'.told.forget runs'

/-- A session that has not failed, by the bytes it has received. -/
inductive Keeps (config : SessionConfig P) (received : List UInt8) :
    Phase P → List SessionOutput → Prop
  | selectNoise {select : MultistreamSelect} {said : List SessionOutput}
      (fed : MultistreamSelect.Fed (selector config.role noiseProtocolId) received select)
      (quiet : select.pendingOutputs = []) (clear : Clear said) :
      Keeps config received (.selectNoise select (some (.new config.noise))) said
  | later {phase : Phase P} {said : List SessionOutput} (selected : Selected config.role received)
      (stands : Stands config (noiseBytes config.role received) phase said) :
      Keeps config received phase said

variable {received : List UInt8} {phase : Phase P}

theorem Keeps.outcome (keeps : Keeps config received phase said) :
    Outcome config (noiseBytes config.role received) said := by
  cases keeps with
  | selectNoise _ _ clear => exact .inl ((clear.runs config).told.longer nil_prefix)
  | later _ stands => exact stands.outcome

theorem selected_of_negotiated {role : SessionRole} {select : MultistreamSelect} {data : List UInt8}
    (fed : MultistreamSelect.Fed (selector role noiseProtocolId) received select)
    (quiet : select.pendingOutputs = [])
    (found : .negotiated noiseProtocolId ∈ (select.handleInput (.data data)).pendingOutputs) :
    Selected role (received ++ data) ∧
      (select.handleInput (.data data)).takeRemainingBuffer.1 = noiseBytes role
        (received ++ data) := by
  obtain ⟨-, now, buffer⟩ := fed.more data
  have kept : (select.receive data).2.pendingOutputs = [] :=
    (MultistreamSelect.receive_keeps select data).1.trans quiet
  simp only [MultistreamSelect.handleInput, kept, nil_append] at found
  have running : select.state ≠ .done := by
    intro done
    rw [MultistreamSelect.receive, if_pos done] at found
    cases found
  have selected : Selected role (received ++ data) := by
    refine @MultistreamSelect.reads_done _ _ noiseProtocolId ?_
    rw [now]
    exact mem_append_right _ found
  refine ⟨selected, ?_⟩
  have bytes : noiseBytes role (received ++ data) =
      ((selector role noiseProtocolId).reads [] (received ++ data)).2 := if_pos selected
  rw [bytes, ← buffer running]
  rfl

theorem Keeps.feed (keeps : Keeps config received phase (base ++ outputs)) (limits : YamuxConfig)
    (data : List UInt8) :
    Leads base (feedPhase config.role limits phase data) (Keeps config (received ++ data))
      (Outcome config (noiseBytes config.role (received ++ data))) outputs := by
  cases keeps with
  | @selectNoise select _ fed quiet clear =>
    rw [Leads, feedPhase, wp_bind]
    refine wp_mono (followSelect_keeps (sendRaw_sends config base)
      (fun _ => MultistreamSelect.handleInput_messages quiet) clear false) ?_
      fun _ _ ended => ⟨ended.1, .inl (ended.2.longer nil_prefix)⟩
    rintro ⟨_, negotiated⟩ outputs' ⟨clear', found⟩
    cases negotiated with
    | false =>
      obtain ⟨fed', -, -⟩ := fed.more data
      exact .selectNoise { fed' with } rfl clear'
    | true =>
      obtain ⟨selected, remaining⟩ :=
        selected_of_negotiated fed quiet ((found rfl).resolve_left nofun)
      dsimp only
      rw [remaining]
      exact (clear'.startNoise config.role limits _).mono (fun _ _ stands => .later selected stands)
        fun _ outcome => outcome
  | later selected stands =>
    obtain ⟨selected', whole⟩ := selected.more data
    rw [whole]
    have later {work : M (Phase P)} {outputs : List SessionOutput}
        (leads : Leads base work (Stands config (noiseBytes config.role received ++ data))
          (Outcome config (noiseBytes config.role received ++ data)) outputs) :
        Leads base work (Keeps config (received ++ data))
          (Outcome config (noiseBytes config.role received ++ data)) outputs :=
      leads.mono (fun _ _ stands => .later selected' (whole ▸ stands)) fun _ outcome => outcome
    cases stands with
    | noise runs => exact later (runs.feedNoise config.role limits data)
    | selectYamux runs quiet =>
      refine (runs.readTransport data).bind (fun drained outputs' runs' => ?_) fun _ => .inl
      exact later (Stands.decrypted (.selectYamux runs' quiet) config.role limits _)
    | @ready noise yamux peer _ announced good =>
      have longer := announced.longer (prefix_append (noiseBytes config.role received) data)
      rw [Leads, feedPhase, wp_bind]
      refine wp_mono (readTransport_plain noise data outputs) ?_ fun _ _ ended =>
        ⟨ended.1, .inr ⟨peer, longer.grows ended.2⟩⟩
      rintro drained outputs' ⟨-, grows⟩
      exact later (Stands.decrypted (.ready (longer.grows grows) good) config.role limits _)

/-! ### Calls -/

def Call.bytes : Call → List UInt8
  | .handleInput data => data
  | _ => []

def Call.isInput : Call → Bool
  | .start | .handleInput _ => true
  | _ => false

def Call.asks : Call → Bool
  | .handleInput data => !data.isEmpty
  | .pollOutput | .poll _ => false
  | _ => true

def Answer.handed : Answer → List SessionOutput
  | .output (some o) => [o]
  | _ => []

def Answer.error? : Answer → Option SessionError
  | .done (.error e) | .opened (.error e) => some e
  | _ => none

def receivedOf (log : List (Call × Answer)) : List UInt8 := log.flatMap fun entry => entry.1.bytes

def handedOf (log : List (Call × Answer)) : List SessionOutput :=
  log.flatMap fun entry => entry.2.handed

/-- A session by the bytes it was given and the outputs taken from it. -/
structure Holds (config : SessionConfig P) (received : List UInt8) (taken : List SessionOutput)
    (session : SecureMuxSession P) : Prop where
  role : session.role = config.role
  alive : ∀ phase, session.phase = some phase → Keeps config received phase
    (taken ++ session.outputs)
  lost : session.phase = none →
    Outcome config (noiseBytes config.role received) (taken ++ session.outputs)

def Answer.Ends (c : Call) (a : Answer) (session : SecureMuxSession P) : Prop :=
  ∀ e, a.error? = some e → (c.isInput = true → e.isFatal = true) ∧
    (e.isFatal = true → session.phase = none)

def Behaves (config : SessionConfig P) (received : List UInt8) (taken : List SessionOutput)
    (session : SecureMuxSession P) (c : Call) : Prop :=
  ∃ a session', session.call c = some (a, session') ∧
    Holds config (received ++ c.bytes) (taken ++ a.handed) session' ∧ a.Ends c session'

/-- A call that has returned, and what its errors mean; those to an input are fatal. -/
def Served {α : Type} (config : SessionConfig P) (received : List UInt8)
    (taken : List SessionOutput) (input : Bool) (returned : Returned P α) : Prop :=
  ∃ answer session', returned = some (answer, session') ∧ Holds config received taken session' ∧
    ∀ e, answer = .error e → (input = true → e.isFatal = true) ∧
      (e.isFatal = true → session'.phase = none)

namespace SecureMuxSession

variable {session : SecureMuxSession P} {taken : List SessionOutput}

theorem proceed_holds (holds : Holds config received taken session) (result : Except SessionError α)
    {work : M (Phase P)} {received' : List UInt8}
    (works : Leads taken work (Keeps config received')
      (Outcome config (noiseBytes config.role received')) session.outputs) :
    ∃ answer session', session.proceed result work = some (answer, session') ∧
      Holds config received' taken session' ∧
      (answer = result ∨ ∃ e, answer = .error e ∧ e.isFatal = true ∧ session'.phase = none) := by
  unfold Leads wp at works
  unfold proceed
  split at works
  · rename_i phase outputs' ran
    rw [ran]
    refine ⟨result, { session with phase := some phase, outputs := outputs' }, rfl,
      ⟨holds.role, fun phase' same => ?_, fun gone => by cases gone⟩, .inl rfl⟩
    cases same
    exact works
  · rename_i outputs' ran
    obtain ⟨⟨e, rfl, fatal⟩, outcome⟩ := works
    rw [ran]
    exact ⟨.error e, { session with phase := none, outputs := outputs' }, rfl,
      ⟨holds.role, fun _ same => (by cases same), fun _ => outcome⟩, .inr ⟨e, rfl, fatal, rfl⟩⟩

theorem withPhase_holds (holds : Holds config received taken session) (data : List UInt8)
    {work : Phase P → M (Phase P)}
    (works : ∀ phase, Keeps config received phase (taken ++ session.outputs) →
      Leads taken (work phase) (Keeps config (received ++ data))
        (Outcome config (noiseBytes config.role (received ++ data))) session.outputs) :
    Served config (received ++ data) taken true (session.withPhase work) := by
  unfold withPhase
  cases found : session.phase with
  | none =>
    refine ⟨_, session, rfl, ⟨holds.role, fun phase same => ?_, fun _ =>
      (holds.lost found).longer (noiseBytes_mono ..)⟩, ?_⟩
    · rw [found] at same
      cases same
    · rintro _ ⟨⟩
      exact ⟨fun _ => rfl, fun _ => found⟩
  | some phase =>
    obtain ⟨answer, session', returned, holds', ended⟩ :=
      proceed_holds holds (.ok ()) (works phase (holds.alive phase found))
    refine ⟨answer, session', returned, holds', fun e failed => ?_⟩
    rcases ended with rfl | ⟨e', rfl, fatal, gone⟩
    · cases failed
    · cases failed
      exact ⟨fun _ => fatal, fun _ => gone⟩

theorem startPhase_keeps (keeps : Keeps config received phase (base ++ outputs)) :
    Leads base (startPhase phase) (Keeps config received)
      (Outcome config (noiseBytes config.role received)) outputs := by
  cases keeps with
  | @selectNoise select _ fed quiet clear =>
    rw [Leads, startPhase, wp_bind]
    refine wp_mono (drainSelect_keeps (sendRaw_sends config base)
      (fun _ => MultistreamSelect.handleInput_messages quiet) clear) ?_
      fun _ _ ended => ⟨ended.1, .inl (ended.2.longer nil_prefix)⟩
    intro _ outputs' clear'
    refine .selectNoise ?_ rfl clear'
    cases begun : select.started with
    | true =>
      simp only [takeOutputs, MultistreamSelect.handleInput, MultistreamSelect.start,
        begun, if_true]
      exact { fed with }
    | false =>
      simp only [takeOutputs, MultistreamSelect.handleInput, MultistreamSelect.start, begun,
        Bool.false_eq_true, if_false]
      exact { fed with }
  | later selected stands =>
    cases stands with
    | noise runs => exact .later selected (.noise runs)
    | selectYamux runs quiet => exact .later selected (.selectYamux runs quiet)
    | ready announced good => exact .later selected (.ready announced good)

def Operates {α : Type} (operation : YamuxSession → Option (Except YamuxError α × YamuxSession)) :
    Prop :=
  ∀ yamux, yamux.Good → ∃ result yamux', operation yamux = some (result, yamux') ∧ yamux'.Good

theorem withYamux_holds (holds : Holds config received taken session)
    {operation : YamuxSession → Option (Except YamuxError α × YamuxSession)}
    (operates : Operates operation) :
    Served config received taken false (session.withYamux operation) := by
  unfold withYamux
  split
  · rename_i noise yamux peer found
    have keeps := holds.alive _ found
    obtain ⟨announced, good⟩ : Announced config (noiseBytes config.role received) peer
        (taken ++ session.outputs) ∧ yamux.Good := by
      cases keeps with
      | later _ stands => cases stands with
        | ready announced good => exact ⟨announced, good⟩
    have selected : Selected config.role received := by cases keeps with
      | later selected _ => exact selected
    obtain ⟨result, yamux', operated, good'⟩ := operates yamux good
    rw [operated]
    have works : Leads taken (do
          let drained ← drainYamux noise yamux'
          return .ready drained.1 drained.2 peer) (Keeps config received)
        (Outcome config (noiseBytes config.role received)) session.outputs := by
      rw [Leads, wp_bind]
      refine wp_mono (drainYamux_plain good' noise session.outputs) ?_ ?_
      · rintro ⟨noise', yamux''⟩ outputs' ⟨good'', grows⟩
        exact .later selected (.ready (announced.grows grows) good'')
      · rintro halt outputs' ⟨fatal, grows⟩
        exact ⟨fatal, .inr ⟨peer, announced.grows grows⟩⟩
    obtain ⟨answer, session', returned, holds', ended⟩ :=
      proceed_holds holds (result.mapError .yamux) works
    refine ⟨answer, session', returned, holds', fun e failed => ⟨by simp, fun fatal => ?_⟩⟩
    rcases ended with rfl | ⟨_, -, -, gone⟩
    · cases result with
      | ok a => cases failed
      | error e' =>
        cases failed
        cases fatal
    · exact gone
  · refine ⟨_, session, rfl, holds, ?_⟩
    rintro _ ⟨⟩
    exact ⟨by simp, by simp [SessionError.isFatal]⟩

theorem onCore_operates {operation : Yamux.SessionCore → Option (Yamux.Returned α)} {c : Yamux.Call}
    {wrap : Except YamuxError α → Yamux.Answer}
    (same : ∀ yamux : YamuxSession, yamux.call c = yamux.withCore wrap (operation yamux.core)) :
    Operates (onCore operation) := by
  intro yamux good
  obtain ⟨answer, yamux', -, called, -, -, good', -⟩ := Yamux.YamuxSession.behaves good c
  rw [same] at called
  obtain ⟨result, core, operated, -, rfl⟩ := Yamux.YamuxSession.withCore_some called
  exact ⟨result, _, by rw [onCore, operated], good'⟩

theorem withYamuxStream_behaves (holds : Holds config received taken session)
    (stream : Transport.StreamId)
    {operation : UInt32 → Yamux.SessionCore → Option (Yamux.Returned Unit)}
    (operates : ∀ id, Operates (onCore (operation id))) :
    Served config received taken false (session.withYamuxStream stream operation) := by
  unfold withYamuxStream yamuxStream
  split
  · rename_i narrowed
    split at narrowed
    · cases narrowed
    · cases narrowed
      refine ⟨_, session, rfl, holds, ?_⟩
      rintro _ ⟨⟩
      exact ⟨nofun, nofun⟩
  · rename_i id _
    obtain ⟨answer, session', returned, holds', ended⟩ := withYamux_holds holds (operates id)
    rw [returned]
    refine ⟨_, session', rfl, holds', fun e failed => ⟨nofun, fun fatal => ?_⟩⟩
    cases answer with
    | ok a => cases failed
    | error e' =>
      cases failed
      refine (ended e' rfl).2 ?_
      unfold nameStream at fatal
      split at fatal
      · cases fatal
      · exact fatal

variable {returned : Returned P Unit}

theorem done_behaves {c : Call} (called : session.call c = answered .done returned)
    {received' : List UInt8} (bytes : received ++ c.bytes = received')
    (served : Served config received' taken c.isInput returned) :
    Behaves config received taken session c := by
  obtain ⟨answer, session', rfl, holds', ended⟩ := served
  refine ⟨.done answer, session', called, ?_, fun e failed => ?_⟩
  · rw [bytes, Answer.handed, append_nil]
    · exact holds'
    · nofun
  · cases answer with
    | ok a => cases failed
    | error e' =>
      cases failed
      exact ended e rfl

theorem behaves (holds : Holds config received taken session) (c : Call) :
    Behaves config received taken session c := by
  cases c with
  | start =>
    refine done_behaves rfl rfl (withPhase_holds holds [] fun phase keeps => ?_)
    rw [append_nil]
    exact startPhase_keeps keeps
  | handleInput data =>
    refine done_behaves rfl rfl ?_
    rw [handleInput, Call.bytes]
    split
    · rename_i empty
      rw [List.isEmpty_iff.mp empty, append_nil]
      exact ⟨_, session, rfl, holds, nofun⟩
    · refine withPhase_holds holds data fun phase keeps => ?_
      rw [holds.role]
      exact keeps.feed session.yamuxConfig data
  | pollOutput =>
    unfold Behaves
    rw [call, pollOutput, Call.bytes, append_nil]
    · cases queue : session.outputs with
      | nil =>
        refine ⟨_, session, rfl, ?_, nofun⟩
        rw [Answer.handed, append_nil]
        · exact holds
        · nofun
      | cons output rest =>
        have same : taken ++ [output] ++ rest = taken ++ session.outputs := by rw [queue]; simp
        refine ⟨.output (some output), { session with outputs := rest }, rfl,
          ⟨holds.role, ?_, ?_⟩, nofun⟩
        · intro phase found
          rw [Answer.handed, same]
          exact holds.alive phase found
        · intro gone
          rw [Answer.handed, same]
          exact holds.lost gone
    · nofun
  | poll now =>
    refine done_behaves rfl (append_nil _) ?_
    have operates : Operates (onCore fun core => core.poll now) :=
      onCore_operates (c := .request (.poll now)) fun _ => rfl
    obtain ⟨answer, session', returned, holds', ended⟩ := withYamux_holds holds operates
    rw [poll, returned]
    split
    · rename_i same
      cases same
      exact ⟨_, _, rfl, holds', nofun⟩
    · exact ⟨answer, session', rfl, holds', ended⟩
  | openStream =>
    have operates : Operates (onCore Yamux.SessionCore.openStream) :=
      onCore_operates (c := .request .openStream) fun _ => rfl
    obtain ⟨answer, session', returned, holds', ended⟩ := withYamux_holds holds operates
    refine ⟨.opened (answer.map UInt32.toNat), session', ?_, ?_, fun e failed =>
      ⟨nofun, fun fatal => ?_⟩⟩
    · rw [call, openStream, returned]
      rfl
    · rw [Call.bytes, Answer.handed, append_nil, append_nil]
      · exact holds'
      · nofun
      · nofun
    · cases answer with
      | ok id => cases failed
      | error e' =>
        cases failed
        exact (ended e rfl).2 fatal
  | send stream data =>
    exact done_behaves rfl (append_nil _)
      (withYamuxStream_behaves holds stream fun id => onCore_operates
        (c := .request (.send id data)) fun _ => rfl)
  | closeStreamWrite stream =>
    exact done_behaves rfl (append_nil _)
      (withYamuxStream_behaves holds stream fun id => onCore_operates
        (c := .request (.closeWrite id)) fun _ => rfl)
  | resetStream stream =>
    exact done_behaves rfl (append_nil _)
      (withYamuxStream_behaves holds stream fun id => onCore_operates
        (c := .request (.reset id)) fun _ => rfl)
  | goAway code =>
    refine done_behaves rfl (append_nil _) (withYamux_holds holds fun yamux good => ?_)
    obtain ⟨answer, yamux', -, called, -, -, good', -⟩ :=
      Yamux.YamuxSession.behaves good (.request (.goAway code))
    cases called
    exact ⟨_, _, rfl, good'⟩

/-- A session that has failed only hands out what it has queued, and answers every wish with an
error. -/
theorem call_failed (gone : session.phase = none) (c : Call) :
    ∃ a session', session.call c = some (a, session') ∧ session'.phase = none ∧
      a.handed ++ session'.outputs = session.outputs ∧
        (c.asks = true → a.error?.isSome = true) := by
  have phaseless {work : Phase P → M (Phase P)} :
      session.withPhase work = some (.error (.protocol "session already failed"), session) := by
    rw [withPhase, gone]
  have unready {α : Type} {operation : YamuxSession → Option (Except YamuxError α × YamuxSession)} :
      session.withYamux operation = some (.error .notEstablished, session) := by
    rw [withYamux, gone]
  have streamless (stream : Transport.StreamId)
      {operation : UInt32 → Yamux.SessionCore → Option (Yamux.Returned Unit)} :
      ∃ e, session.withYamuxStream stream operation = some (.error e, session) := by
    rw [withYamuxStream]
    split
    · exact ⟨_, rfl⟩
    · rw [unready]
      exact ⟨_, rfl⟩
  cases c with
  | start => exact ⟨_, session, by rw [call, start, phaseless, answered], gone, rfl, fun _ => rfl⟩
  | handleInput data =>
    rw [call, handleInput]
    split
    · rename_i empty
      exact ⟨_, session, rfl, gone, rfl, fun asks => by rw [Call.asks, empty] at asks; cases asks⟩
    · exact ⟨_, session, by rw [phaseless, answered], gone, rfl, fun _ => rfl⟩
  | pollOutput =>
    rw [call, pollOutput]
    cases queue : session.outputs with
    | nil => exact ⟨_, session, rfl, gone, queue, nofun⟩
    | cons output rest => exact ⟨_, { session with outputs := rest }, rfl, gone, rfl, nofun⟩
  | poll now => exact ⟨_, session, by rw [call, poll, unready, answered], gone, rfl, nofun⟩
  | openStream =>
    exact ⟨_, session, by rw [call, openStream, unready, answered], gone, rfl, fun _ => rfl⟩
  | send stream data =>
    obtain ⟨e, failed⟩ := @streamless stream fun id core => core.send id data
    exact ⟨_, session, by rw [call, send, failed, answered], gone, rfl, fun _ => rfl⟩
  | closeStreamWrite stream =>
    obtain ⟨e, failed⟩ := @streamless stream fun id core => core.closeWrite id
    exact ⟨_, session, by rw [call, closeStreamWrite, failed, answered], gone, rfl, fun _ => rfl⟩
  | resetStream stream =>
    obtain ⟨e, failed⟩ := @streamless stream fun id core => core.reset id
    exact ⟨_, session, by rw [call, resetStream, failed, answered], gone, rfl, fun _ => rfl⟩
  | goAway code =>
    exact ⟨_, session, by rw [call, goAway, unready, answered], gone, rfl, fun _ => rfl⟩

/-- Nothing is queued any more in a session, and every wish is answered with an error. -/
def Over (session : SecureMuxSession P) (calls : List Call) : Prop :=
  ∃ log session', Machine.run call session calls = some (log, session') ∧
    handedOf log ++ session'.outputs = session.outputs ∧
    ∀ entry ∈ log, entry.1.asks = true → entry.2.error?.isSome = true

/-- A session that has failed, by what it had queued then and what was called since. -/
def Failed (queue : List SessionOutput) (log : List (Call × Answer))
    (session : SecureMuxSession P) :
    Prop :=
  session.phase = none ∧ handedOf log ++ session.outputs = queue ∧
    ∀ entry ∈ log, entry.1.asks = true → entry.2.error?.isSome = true

theorem Failed.call {queue : List SessionOutput} {log : List (Call × Answer)}
    (failed : Failed queue log session) (c : Call) :
    ∃ a session', session.call c = some (a, session') ∧ Failed queue
      (log ++ [(c, a)]) session' := by
  obtain ⟨gone, kept, answers⟩ := failed
  obtain ⟨a, session', called, gone', kept', answers'⟩ := call_failed gone c
  refine ⟨a, session', called, gone', ?_, fun entry among => ?_⟩
  · rw [← kept, ← kept', handedOf, handedOf]
    simp
  · rcases mem_append.mp among with early | late
    · exact answers entry early
    · rw [mem_singleton.mp late]
      exact answers'

theorem over_of_failed (gone : session.phase = none) (calls : List Call) : session.Over calls := by
  have start : Failed session.outputs [] session := ⟨gone, rfl, nofun⟩
  obtain ⟨log, session', runs, -, kept, answers⟩ :=
    Machine.run_keeps (P := Failed session.outputs) (fun c failed => failed.call c) start calls
  exact ⟨log, session', runs, kept, answers⟩

end SecureMuxSession

/-! ### Every run -/

theorem new_holds (config : SessionConfig P) : Holds config [] [] (.new config) := by
  have fresh : MultistreamSelect.Fresh (selector config.role noiseProtocolId) := by
    cases config.role with
    | initiator => exact MultistreamSelect.dialer_fresh _
    | responder => exact MultistreamSelect.listener_fresh _
  have quiet : (selector config.role noiseProtocolId).pendingOutputs = [] := by
    cases config.role <;> rfl
  refine ⟨rfl, fun phase same => ?_, fun gone => by cases gone⟩
  cases same
  exact .selectNoise fresh.fed quiet ⟨[], rfl⟩

def openingOf (said : List SessionOutput) : List SessionOutput := said.takeWhile (!·.announces)

structure Authentic (config : SessionConfig P) (received : List UInt8) (said : List SessionOutput) :
    Prop where
  authenticated : ∀ peer, .established peer ∈ said →
    (∃ identityKey, Evidence config.noise (noiseBytes config.role received) peer identityKey) ∧
    ∀ expected, config.expectedPeer = some expected → peer = expected
  opening : ∃ calls, Opening config none calls (openingOf said)
  once : (said.filter (·.announces)).length ≤ 1

theorem Opening.writes {calls : List Noise.Call} (opening : Opening config known calls said) :
    ∀ output ∈ said, output.announces = false := by
  obtain ⟨lines, rfl⟩ := opening.said
  intro output among
  rcases mem_append.mp among with early | late
  · obtain ⟨_, -, rfl⟩ := mem_map.mp early
    rfl
  · obtain ⟨_, -, rfl⟩ := mem_map.mp late
    rfl

theorem Outcome.authentic (outcome : Outcome config (noiseBytes config.role received) said) :
    Authentic config received said := by
  rcases outcome with ⟨calls, opening, -⟩ | ⟨peer, before, after, rfl, ⟨calls, opening, part⟩, once⟩
  · have quiet := opening.writes
    have all : openingOf said = said := by
      refine takeWhile_eq_self_iff.mpr fun output among => ?_
      rw [quiet output among]
      rfl
    have empty : said.filter (·.announces) = [] := by
      refine filter_eq_nil_iff.mpr fun output among => ?_
      rw [quiet output among]
      decide
    refine ⟨fun peer among => ?_, ⟨calls, all.symm ▸ opening⟩, by rw [empty]; decide⟩
    cases quiet _ among
  · have quiet := opening.writes
    have first : openingOf (before ++ .established peer :: after) = before := by
      rw [openingOf, takeWhile_append_of_pos]
      · simp [SessionOutput.announces]
      · intro output among
        rw [quiet output among]
        rfl
    have one : (before ++ .established peer :: after).filter (·.announces) =
        [.established peer] := by
      have absent : before.filter (·.announces) = [] := filter_eq_nil_iff.mpr fun output among => by
        rw [quiet output among]
        decide
      have nothing : after.filter (·.announces) = [] := filter_eq_nil_iff.mpr fun output among => by
        rw [once output among]
        decide
      rw [filter_append, absent, filter_cons_of_pos rfl, nothing, nil_append]
    refine ⟨fun peer' among => ?_, ⟨calls, ?_⟩, by rw [one]; exact Nat.le_refl 1⟩
    · have same : .established peer' ∈ (before ++ .established peer :: after).filter
          (·.announces) :=
        mem_filter.mpr ⟨among, rfl⟩
      rw [one] at same
      cases mem_singleton.mp same
      obtain ⟨identityKey, told⟩ := opening.reported peer rfl
      obtain ⟨rest, whole⟩ := part
      have evidence := ((Life.run_honest config.noise calls).evidence told).append rest
      rw [life] at whole
      rw [whole] at evidence
      exact ⟨⟨identityKey, evidence⟩, fun expected same => (evidence.expected expected same).symm⟩
    · rw [first]
      exact ⟨opening.said, opening.messages, nofun⟩

def Reached (config : SessionConfig P) (log : List (Call × Answer)) (session : SecureMuxSession P) :
    Prop :=
  Holds config (receivedOf log) (handedOf log) session

theorem Reached.call {log : List (Call × Answer)} {session : SecureMuxSession P}
    (reached : Reached config log session) (c : Call) :
    ∃ a session', session.call c = some (a, session') ∧ Reached config
      (log ++ [(c, a)]) session' := by
  obtain ⟨a, session', called, holds, -⟩ := behaves reached c
  refine ⟨a, session', called, ?_⟩
  simpa [Reached, receivedOf, handedOf] using holds

/-- Whatever bytes a session is given and whatever is called in between: it announces a peer once
at most, on the evidence of its Noise handshake, and the one that was expected; before that it
writes negotiations and the handshake only; and once it has failed it queues nothing more and
answers every wish with an error. -/
theorem secure_mux_authenticates (config : SessionConfig P) (calls : List Call) :
    ∃ log session, Machine.run call (.new config) calls = some (log, session) ∧
      Authentic config (receivedOf log) (handedOf log ++ session.outputs) ∧
      ∀ c a session' e, session.call c = some (a, session') → a.error? = some e →
        (c.isInput = true → e.isFatal = true) ∧
        (e.isFatal = true → ∀ more, session'.Over more) := by
  have start : Reached config [] (.new config) := new_holds config
  obtain ⟨log, session, runs, holds⟩ :=
    Machine.run_keeps (P := Reached config) (fun c holds => holds.call c) start calls
  refine ⟨log, session, runs, ?_, fun c a session' e called failed => ?_⟩
  · refine Outcome.authentic ?_
    cases found : session.phase with
    | none => exact holds.lost found
    | some phase => exact (holds.alive phase found).outcome
  · obtain ⟨a', session'', called', -, ends⟩ := behaves holds c
    rw [called] at called'
    cases called'
    obtain ⟨always, gone⟩ := ends e failed
    exact ⟨always, fun fatal more => over_of_failed (gone fatal) more⟩

def plainConfig (secret : UInt8) : SessionConfig Noise.plainPrimitives where
  role := role
  identity := .fromSecretKeyBytes _ (.replicate 32 secret)
  staticSecret := .replicate 32 (secret + 1)
  ephemeralSecret := .replicate 32 (secret + 2)
  expectedPeer := none
  yamux := Yamux.YamuxConfig.default.toYamuxConfig

/-- Reading nothing is accepted even by a session that has failed. -/
theorem empty_input_accepted : ∃ log session, Machine.run call (.new (plainConfig .responder 1))
      [.start, .handleInput (encodeMessage "/none"), .handleInput []] = some (log, session) ∧
      log.map (fun entry => entry.2.error?.map SessionError.isFatal) = [none, some true, none] := by
  refine ⟨_, _, rfl, ?_⟩
  decide +kernel

end SecureMux
