/-! Code that changes a state and may fail, keeping the state it failed in: rules that give
the weakest condition under which it ends as wanted. -/
namespace Fallible

variable {ε σ τ α β : Type}

def part (get : σ → τ) (put : σ → τ → σ) (m : EStateM ε τ α) : EStateM ε σ α := fun s =>
  match m (get s) with
  | .ok a t => .ok a (put s t)
  | .error e t => .error e (put s t)

def partOf (get : σ → Option τ) (put : σ → τ → σ) (missing : ε) (m : EStateM ε τ α) :
    EStateM ε σ α := fun s =>
  match get s with
  | none => .error missing s
  | some t => part (fun _ => t) put m s

/-- From this state the code answers as `Q` asks, or fails as `R` allows. -/
def wp (m : EStateM ε σ α) (Q : α → σ → Prop) (R : ε → σ → Prop) (s : σ) : Prop :=
  match m s with
  | .ok a t => Q a t
  | .error e t => R e t

variable {Q Q' : α → σ → Prop} {R R' : ε → σ → Prop} {s t : σ} {m : EStateM ε σ α}

theorem wp_ok {a : α} (holds : wp m Q R s) (ran : m s = .ok a t) : Q a t := by
  rw [wp, ran] at holds
  exact holds

theorem wp_error {e : ε} (holds : wp m Q R s) (ran : m s = .error e t) : R e t := by
  rw [wp, ran] at holds
  exact holds

theorem wp_of (ok : ∀ a t, m s = .ok a t → Q a t) (error : ∀ e t, m s = .error e t → R e t) :
    wp m Q R s := by
  unfold wp
  split
  · exact ok _ _ ‹_›
  · exact error _ _ ‹_›

theorem wp_mono (holds : wp m Q R s) (ok : ∀ a t, Q a t → Q' a t) (error : ∀ e t, R e t → R' e t) :
    wp m Q' R' s :=
  wp_of (fun a t ran => ok a t (wp_ok holds ran)) fun e t ran => error e t (wp_error holds ran)

theorem wp_imp (holds : wp m Q R s) (ok : ∀ a t, Q a t → Q' a t) : wp m Q' R s :=
  wp_mono holds ok fun _ _ failed => failed

theorem wp_of_ran (holds : wp m Q R s) : wp m (fun a t => Q a t ∧ m s = .ok a t) R s :=
  wp_of (fun _ _ ran => ⟨wp_ok holds ran, ran⟩) fun _ _ ran => wp_error holds ran

theorem wp_and (first : wp m Q R s) (second : wp m Q' R' s) :
    wp m (fun a t => Q a t ∧ Q' a t) (fun e t => R e t ∧ R' e t) s :=
  wp_of (fun _ _ ran => ⟨wp_ok first ran, wp_ok second ran⟩) fun _ _ ran =>
    ⟨wp_error first ran, wp_error second ran⟩

@[simp] theorem wp_pure (a : α) : wp (pure a) Q R s ↔ Q a s := .rfl

@[simp] theorem wp_throw (e : ε) : wp (throw e) Q R s ↔ R e s := .rfl

variable {f : α → EStateM ε σ β}

@[simp] theorem wp_bind {Q : β → σ → Prop} :
    wp (m >>= f) Q R s ↔ wp m (fun a t => wp (f a) Q R t) R s := by
  unfold wp
  change (match EStateM.bind m f s with | .ok a t => Q a t | .error e t => R e t) ↔ _
  unfold EStateM.bind
  cases m s <;> rfl

theorem wp_skip {Q : β → σ → Prop}
    (next : ∀ a t, wp (f a) Q (fun _ _ => True) t) : wp (m >>= f) Q (fun _ _ => True) s :=
  wp_bind.mpr (wp_of (fun a t _ => next a t) fun _ _ _ => trivial)

@[simp] theorem wp_get {Q : σ → σ → Prop} : wp get Q R s ↔ Q s s := .rfl

@[simp] theorem wp_modify {f : σ → σ} {Q : PUnit → σ → Prop} :
    wp (modify f) Q R s ↔ Q ⟨⟩ (f s) := .rfl

variable {put : σ → τ → σ}

@[simp] theorem wp_part {get : σ → τ} {m : EStateM ε τ α} : wp (part get put m) Q R s ↔
      wp m (fun a t => Q a (put s t)) (fun e t => R e (put s t)) (get s) := by
  unfold wp part
  cases m (get s) <;> rfl

theorem wp_partOf {get : σ → Option τ} {missing : ε} {m : EStateM ε τ α} {t : τ}
    (found : get s = some t) :
    wp (partOf get put missing m) Q R s ↔
      wp m (fun a t => Q a (put s t)) (fun e t => R e (put s t)) t := by
  have runs : partOf get put missing m s = part (fun _ => t) put m s := by rw [partOf, found]
  rw [wp, runs]
  exact wp_part

theorem wp_ofExcept {x : Except ε α} :
    wp (ofExcept x) Q R s ↔ (∀ a, x = .ok a → Q a s) ∧ ∀ e, x = .error e → R e s := by
  cases x <;> simp [ofExcept]

@[simp] theorem wp_ofExcept_ok (a : α) : wp (ofExcept (.ok a : Except ε α)) Q R s ↔ Q a s := .rfl

theorem wp_ite {c : Prop} [Decidable c] {m' : EStateM ε σ α} :
    wp (if c then m else m') Q R s ↔ (c → wp m Q R s) ∧ (¬ c → wp m' Q R s) := by
  split <;> simp_all

/-! ### Runs that succeed -/

theorem wp_ran {a : α} (ran : m s = .ok a t) : wp m Q R s ↔ Q a t := by rw [wp, ran]

theorem wp_failed {e : ε} (failed : m s = .error e t) : wp m Q R s ↔ R e t := by rw [wp, failed]

theorem wp_exists (holds : wp m Q (fun _ _ => False) s) : ∃ a t, m s = .ok a t ∧ Q a t := by
  unfold wp at holds
  split at holds
  · exact ⟨_, _, ‹_›, holds⟩
  · exact holds.elim

theorem ran_of_wp {a : α} (holds : wp m (fun b u => b = a ∧ u = t) (fun _ _ => False) s) :
    m s = .ok a t := by
  obtain ⟨_, _, ran, rfl, rfl⟩ := wp_exists holds
  exact ran

theorem failed_of_wp {e : ε} (holds : wp m (fun _ _ => False) (fun e' u => e' = e ∧ u = t) s) :
    m s = .error e t := by
  unfold wp at holds
  split at holds
  · exact holds.elim
  · obtain ⟨rfl, rfl⟩ := holds
    exact ‹_›

end Fallible
