import MiniP2P.Noise.Channel
import MiniP2P.SecureMux.Session
import MiniP2P.Yamux.Run

/-! What the work of a call adds to the queue, and how it may end early, whatever the other end
has sent. -/
namespace SecureMux
open Fallible Identity
open Multistream (MultistreamSelect MultistreamOutput)
open Noise (Primitives NoiseInput NoiseOutput NoiseSession outboundOf decryptedOf reportsOf)
open Yamux (YamuxConfig YamuxError YamuxSession)

variable {P : Primitives} {α β : Type}

/-! ### Draining Noise -/

theorem drainNoiseLoop_ran (queue : List NoiseOutput) (drained : Drained P)
    (outputs : List SessionOutput) :
    drainNoiseLoop queue drained outputs = .ok
      { peer := ((reportsOf queue).getLast?.map Prod.fst).or drained.peer
        decrypted := drained.decrypted ++ decryptedOf queue
        noise := drained.noise }
      (outputs ++ (outboundOf queue).map .write) := by
  induction queue generalizing drained outputs with
  | nil => simp [drainNoiseLoop, reportsOf, decryptedOf, outboundOf]; rfl
  | cons output queue ih =>
    cases output with
    | outbound bytes =>
      refine ran_of_wp ?_
      rw [drainNoiseLoop, wp_bind, write, push, wp_modify, wp_ran (ih drained _)]
      simp [reportsOf, decryptedOf, outboundOf]
    | handshakeComplete peer identityKey =>
      have told : reportsOf (.handshakeComplete peer identityKey :: queue) =
          (peer, identityKey) :: reportsOf queue := rfl
      rw [drainNoiseLoop, ih, told, List.getLast?_cons]
      cases (reportsOf queue).getLast? <;> rfl
    | decrypted bytes =>
      rw [drainNoiseLoop, ih]
      simp [reportsOf, decryptedOf, outboundOf]

variable (noise : NoiseSession P)

theorem drainNoise_ran (outputs : List SessionOutput) : drainNoise noise outputs = .ok
      ⟨(reportsOf noise.pending).getLast?.map Prod.fst, decryptedOf noise.pending,
        { noise with pending := [] }⟩
      (outputs ++ (outboundOf noise.pending).map .write) := by
  rw [drainNoise, drainNoiseLoop_ran]
  simp

/-! ### Endings -/

def SessionError.isFatal : SessionError → Bool
  | .protocol _ | .goAway _ => true
  | _ => false

def Halt.Fatal (halt : Halt) : Prop := ∃ e, halt = .error e ∧ e.isFatal = true

variable {Q : α → List SessionOutput → Prop} {R : Halt → List SessionOutput → Prop}
    {outputs : List SessionOutput} {context : String} {yamux : YamuxSession}

theorem fail_fatal (reason : String) : (Halt.error (.protocol reason)).Fatal := ⟨_, rfl, rfl⟩

theorem wp_orFail {ε : Type} {text : ε → String} {result : Except ε α}
    (ok : ∀ a, result = .ok a → Q a outputs) (failed : ∀ halt, halt.Fatal → R halt outputs) :
    wp (orFail context text result) Q R outputs := by
  cases result with
  | ok a => exact ok a rfl
  | error e => exact failed _ (fail_fatal _)

theorem wp_orFail_ok {ε : Type} {text : ε → String} {a : α} :
    wp (orFail context text (.ok a)) Q R outputs ↔ Q a outputs := .rfl

def SessionOutput.announces : SessionOutput → Bool
  | .established _ => true
  | _ => false

def Grows (outputs outputs' : List SessionOutput) : Prop :=
  ∃ more, outputs' = outputs ++ more ∧ ∀ output ∈ more, output.announces = false

theorem Grows.refl (outputs : List SessionOutput) : Grows outputs outputs :=
  ⟨[], (List.append_nil _).symm, nofun⟩

theorem Grows.trans {a b c : List SessionOutput} (first : Grows a b) (second : Grows b c) :
    Grows a c := by
  obtain ⟨more, rfl, quiet⟩ := first
  obtain ⟨more', rfl, quiet'⟩ := second
  refine ⟨more ++ more', List.append_assoc .., fun output among => ?_⟩
  rcases List.mem_append.mp among with early | late
  · exact quiet output early
  · exact quiet' output late

theorem Grows.push {output : SessionOutput} (outputs : List SessionOutput)
    (quiet : output.announces = false) : Grows outputs (outputs ++ [output]) := by
  refine ⟨[output], rfl, fun other among => ?_⟩
  rw [List.mem_singleton.mp among]
  exact quiet

theorem Grows.writes (outputs : List SessionOutput) (messages : List (List UInt8)) :
    Grows outputs (outputs ++ messages.map .write) := by
  refine ⟨_, rfl, fun output among => ?_⟩
  obtain ⟨_, -, rfl⟩ := List.mem_map.mp among
  rfl

/-- Work that announces no peer and ends early only in a fatal error. -/
def Plain (m : M α) (Q : α → Prop) : Prop := ∀ outputs,
  wp m (fun a outputs' => Q a ∧ Grows outputs outputs')
    (fun halt outputs' => halt.Fatal ∧ Grows outputs outputs') outputs

namespace Plain

variable {Q : α → Prop}

theorem pure {a : α} (holds : Q a) : Plain (pure a) Q :=
  fun outputs => ⟨holds, .refl outputs⟩

theorem fail (reason : String) : Plain (fail reason) Q :=
  fun outputs => ⟨fail_fatal reason, .refl outputs⟩

theorem bind {m : M α} {f : α → M β} {R : β → Prop} (first : Plain m Q)
    (second : ∀ a, Q a → Plain (f a) R) : Plain (m >>= f) R := by
  intro outputs
  rw [wp_bind]
  refine wp_imp (first outputs) ?_
  rintro a middle ⟨holds, grows⟩
  exact wp_mono (second a holds middle) (fun _ _ ⟨holds', more⟩ => ⟨holds', grows.trans more⟩)
    fun _ _ ⟨fatal, more⟩ => ⟨fatal, grows.trans more⟩

theorem ite {c : Prop} [Decidable c] {m m' : M α} (yes : c → Plain m Q)
    (no : ¬ c → Plain m' Q) : Plain (if c then m else m') Q := by
  split
  · exact yes ‹_›
  · exact no ‹_›

theorem orFail {ε : Type} {text : ε → String} {result : Except ε α}
    (ok : ∀ a, result = .ok a → Q a) : Plain (orFail context text result) Q :=
  fun outputs => wp_orFail (fun a same => ⟨ok a same, .refl outputs⟩)
    fun _ fatal => ⟨fatal, .refl outputs⟩

theorem push {output : SessionOutput} (quiet : output.announces = false) :
    Plain (push output) fun _ => True :=
  fun outputs => ⟨trivial, .push outputs quiet⟩

end Plain

theorem drainNoise_plain : Plain (drainNoise noise) fun _ => True := by
  intro outputs
  rw [wp_ran (drainNoise_ran noise outputs)]
  exact ⟨trivial, .writes ..⟩

theorem handleNoise_plain (context : String) (noise : NoiseSession P) (input : NoiseInput) :
    Plain (handleNoise context noise input) fun _ => True :=
  .bind (.orFail fun _ _ => trivial) fun _ _ => drainNoise_plain _

theorem encrypt_plain (plaintext : List UInt8) : Plain (encrypt noise plaintext) fun _ => True :=
  .bind (handleNoise_plain _ _ _) fun _ _ => .ite (fun _ => .fail _) fun _ => .pure trivial

theorem readTransport_plain (data : List UInt8) : Plain (readTransport noise data) fun _ => True :=
  .bind (handleNoise_plain _ _ _) fun _ _ => .ite (fun _ => .fail _) fun _ => .pure trivial

/-! ### Draining Yamux -/

theorem drainYamuxLoop_plain {fuel : Nat} (good : yamux.Good) (enough : yamux.core.owed < fuel)
    (noise : NoiseSession P) (goAway : Option UInt32) :
    Plain (drainYamuxLoop fuel noise yamux goAway) fun found => found.2.1.Good := by
  induction fuel generalizing noise yamux goAway with
  | zero => exact absurd enough (Nat.not_lt_zero _)
  | succ fuel ih =>
    obtain ⟨answer, yamux', -, called, -, -, good', -⟩ := Yamux.YamuxSession.behaves good
      (.request .pollOutput)
    obtain ⟨found, core, polled, rfl, rfl⟩ := Yamux.YamuxSession.withCore_some called
    unfold drainYamuxLoop
    rw [polled]
    cases found with
    | none => exact .pure good'
    | some output =>
      have fewer : core.owed < fuel := by
        rcases Yamux.SessionCore.pollOutput_owed good.sound with ⟨drained, -⟩ | ⟨_, _, taken, owed⟩
        · rw [drained] at polled
          cases polled
        · rw [taken] at polled
          cases polled
          omega
      have next := fun noise goAway => ih good' fewer noise goAway
      cases output with
      | outbound bytes => exact .bind (encrypt_plain _ _) fun noise' _ => next noise' goAway
      | goAwayReceived code => exact next noise _
      | _ => exact .bind (.push rfl) fun _ _ => next noise goAway

theorem drainYamux_plain (good : yamux.Good) (noise : NoiseSession P) :
    Plain (drainYamux noise yamux) fun found => found.2.Good := by
  refine .bind (drainYamuxLoop_plain good ?_ noise none) ?_
  · exact Nat.lt_succ_of_le (Yamux.SessionCore.owed_le _)
  · rintro ⟨noise', yamux', goAway⟩ good'
    cases goAway with
    | none => exact .pure good'
    | some code => exact fun outputs => ⟨⟨_, rfl, rfl⟩, .refl outputs⟩

theorem feedYamux_plain (good : yamux.Good) (noise : NoiseSession P) (plaintext : List UInt8) :
    Plain (feedYamux noise yamux plaintext) fun found => found.2.Good := by
  obtain ⟨answer, yamux', -, called, -, -, good', -⟩ :=
    Yamux.YamuxSession.behaves good (.handleData plaintext)
  rw [Yamux.YamuxSession.call] at called
  cases handled : yamux.handleData plaintext with
  | none =>
    rw [handled] at called
    cases called
  | some returned =>
    rw [handled] at called
    cases called
    rw [feedYamux, handled]
    exact .bind (drainYamux_plain good' noise) fun found good'' =>
      .bind (.orFail fun _ _ => trivial) fun _ _ => .pure good''

end SecureMux
