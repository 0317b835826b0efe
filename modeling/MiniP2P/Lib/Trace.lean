/-! Traces of a labelled step relation. One step may carry any number of labels; a
trace carries those of its steps in order. -/
namespace Transition

universe u v

variable {σ : Type u} {L : Type v}

inductive Trace (step : σ → List L → σ → Prop) : σ → List L → σ → Prop where
  | nil (s : σ) : Trace step s [] s
  | cons {s t u : σ} {l ls : List L} : step s l t → Trace step t ls u → Trace step s (l ++ ls) u

namespace Trace

variable {step : σ → List L → σ → Prop}

theorem single {s t : σ} {l : List L} (h : step s l t) : Trace step s l t := by
  have one := Trace.cons h (Trace.nil t)
  rwa [List.append_nil] at one

theorem append {s t u : σ} {l m : List L} (first : Trace step s l t)
    (second : Trace step t m u) : Trace step s (l ++ m) u := by
  induction first with
  | nil => exact second
  | cons h _ ih =>
    rw [List.append_assoc]
    exact .cons h (ih second)

/-- A property of the state and of everything said so far that every step keeps
holds at the end of every trace. -/
theorem keeps {P : List L → σ → Prop}
    (kept : ∀ {past s l t}, P past s → step s l t → P (past ++ l) t)
    {past : List L} {s t : σ} {ls : List L} (start : P past s) (run : Trace step s ls t) :
    P (past ++ ls) t := by
  induction run generalizing past with
  | nil => simpa using start
  | cons h _ ih =>
    rw [← List.append_assoc]
    exact ih (kept start h)

theorem invariant {P : σ → Prop} (kept : ∀ {s l t}, P s → step s l t → P t)
    {s t : σ} {ls : List L} (start : P s) (run : Trace step s ls t) : P t :=
  @keeps _ _ step (fun _ s => P s) (fun h => kept h) [] s t ls start run

theorem mono {step' : σ → List L → σ → Prop} (weaker : ∀ {s l t}, step s l t → step' s l t)
    {s t : σ} {ls : List L} (run : Trace step s ls t) : Trace step' s ls t := by
  induction run with
  | nil => exact .nil _
  | cons h _ ih => exact .cons (weaker h) ih

end Trace

end Transition
