/-! Machines that answer calls. A call may fail to return, and then the run does
not return either. The transcript of a run pairs every call with its answer. -/
namespace Machine

universe u v w

variable {σ : Type u} {C : Type v} {A : Type w}

def run (step : σ → C → Option (A × σ)) : σ → List C → Option (List (C × A) × σ)
  | s, [] => some ([], s)
  | s, c :: cs =>
    match step s c with
    | none => none
    | some (a, s') =>
      match run step s' cs with
      | none => none
      | some (log, t) => some ((c, a) :: log, t)

variable {step : σ → C → Option (A × σ)} {P : List (C × A) → σ → Prop} {s : σ} {past : List (C × A)}

theorem run_each {Q : List (C × A) → C → A → Prop}
    (kept : ∀ {past s} (c : C), P past s →
      ∃ a s', step s c = some (a, s') ∧ P (past ++ [(c, a)]) s' ∧ Q past c a)
    (start : P past s) (calls : List C) :
    ∃ log t, run step s calls = some (log, t) ∧ P (past ++ log) t ∧
      ∀ before c a after, log = before ++ (c, a) :: after → Q (past ++ before) c a := by
  induction calls generalizing past s with
  | nil => exact ⟨[], s, rfl, by simpa using start, by simp⟩
  | cons c cs ih =>
    obtain ⟨a, s', answered, holds, shown⟩ := kept c start
    obtain ⟨log, t, runs, last, each⟩ := ih holds
    refine ⟨(c, a) :: log, t, by simp [run, answered, runs], by simpa using last, ?_⟩
    intro before c' a' after split
    cases before with
    | nil =>
      cases split
      simpa using shown
    | cons entry before =>
      cases split
      simpa using each before c' a' after rfl

/-- A property of the transcript so far and the state that every call keeps, while it
returns, holds after every run, and every run returns. -/
theorem run_keeps
    (kept : ∀ {past s} (c : C), P past s →
      ∃ a s', step s c = some (a, s') ∧ P (past ++ [(c, a)]) s')
    (start : P past s) (calls : List C) :
    ∃ log t, run step s calls = some (log, t) ∧ P (past ++ log) t := by
  obtain ⟨log, t, runs, last, -⟩ := run_each (Q := fun _ _ _ => True) (fun c holds => by
    obtain ⟨a, s', answered, kept⟩ := kept c holds
    exact ⟨a, s', answered, kept, trivial⟩) start calls
  exact ⟨log, t, runs, last⟩

/-- Every call of a run meets a condition in the state that it finds. -/
def Along (step : σ → C → Option (A × σ)) (ok : σ → C → Prop) : σ → List C → Prop
  | _, [] => True
  | s, c :: cs => ok s c ∧
    match step s c with
    | none => True
    | some (_, s') => Along step ok s' cs

instance Along.decidable (step : σ → C → Option (A × σ)) (ok : σ → C → Prop)
    [∀ s c, Decidable (ok s c)] : (s : σ) → (calls : List C) → Decidable (Along step ok s calls)
  | _, [] => isTrue trivial
  | s, c :: cs =>
    match h : step s c with
    | none => decidable_of_iff (ok s c) (by simp [Along, h])
    | some (_, s') =>
      have := Along.decidable step ok s' cs
      decidable_of_iff (ok s c ∧ Along step ok s' cs) (by simp [Along, h])

/-- A condition on the answers of a run, as one on the calls and the states they find. -/
theorem along_iff {ok : σ → C → Prop} {p : A → Prop}
    (same : ∀ {s c a s'}, step s c = some (a, s') → (p a ↔ ok s c)) {calls : List C}
    {log : List (C × A)} {t : σ} (runs : run step s calls = some (log, t)) :
    (∀ entry ∈ log, p entry.2) ↔ Along step ok s calls := by
  induction calls generalizing s log with
  | nil =>
    cases runs
    simp [Along]
  | cons c cs ih =>
    simp only [run] at runs
    split at runs
    · cases runs
    · rename_i a s' answered
      split at runs
      · cases runs
      · rename_i rest
        cases runs
        simp only [Along, answered, List.forall_mem_cons, same answered, ih rest]

theorem run_along {ok : σ → C → Prop} {I : σ → Prop}
    (kept : ∀ {s} (c : C), I s → ok s c → ∃ a s', step s c = some (a, s') ∧ I s')
    (start : I s) {calls : List C} (met : Along step ok s calls) :
    ∃ log t, run step s calls = some (log, t) ∧ I t := by
  induction calls generalizing s with
  | nil => exact ⟨[], s, rfl, start⟩
  | cons c cs ih =>
    obtain ⟨here, later⟩ := met
    obtain ⟨a, s', answered, holds⟩ := kept c start here
    rw [answered] at later
    obtain ⟨log, t, runs, last⟩ := ih holds later
    exact ⟨(c, a) :: log, t, by simp [run, answered, runs], last⟩

/-- What every call that meets the condition keeps holds at the end of a run that returned. -/
theorem along_keeps {ok : σ → C → Prop} (past : List (C × A))
    (kept : ∀ {past s c a s'}, P past s → ok s c → step s c = some (a, s') →
      P (past ++ [(c, a)]) s')
    (start : P past s) {calls : List C} (met : Along step ok s calls) {log : List (C × A)} {t : σ}
    (runs : run step s calls = some (log, t)) : P (past ++ log) t := by
  induction calls generalizing past s log with
  | nil =>
    cases runs
    simpa using start
  | cons c cs ih =>
    obtain ⟨here, later⟩ := met
    simp only [run] at runs
    split at runs
    · cases runs
    · rename_i a s' answered
      rw [answered] at later
      split at runs
      · cases runs
      · rename_i rest
        cases runs
        simpa using ih (past ++ [(c, a)]) (kept start here answered) later rest

theorem along_true (s : σ) (calls : List C) : Along step (fun _ _ => True) s calls := by
  induction calls generalizing s with
  | nil => trivial
  | cons c cs ih =>
    refine ⟨trivial, ?_⟩
    split
    · trivial
    · exact ih _

theorem run_simulates {R : σ → σ → Prop}
    (alike : ∀ {s t a s'} (c : C), R s t → step s c = some (a, s') →
      ∃ t', step t c = some (a, t') ∧ R s' t')
    {t : σ} (start : R s t) {calls : List C} {log : List (C × A)} {s' : σ}
    (runs : run step s calls = some (log, s')) :
    ∃ t', run step t calls = some (log, t') ∧ R s' t' := by
  induction calls generalizing s t log with
  | nil =>
    cases runs
    exact ⟨t, rfl, start⟩
  | cons c cs ih =>
    simp only [run] at runs ⊢
    split at runs
    · cases runs
    · rename_i a s₁ answered
      obtain ⟨t₁, answered', related⟩ := alike c start answered
      split at runs
      · cases runs
      · rename_i tail s₂ rest
        cases runs
        obtain ⟨t', rest', last⟩ := ih related rest
        exact ⟨t', by simp [answered', rest'], last⟩

end Machine
