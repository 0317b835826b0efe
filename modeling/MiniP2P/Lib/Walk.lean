import Mathlib.Algebra.BigOperators.Group.List.Basic
import Mathlib.Algebra.Order.BigOperators.Group.List
import Mathlib.Algebra.Ring.Int.Defs

/-! A counter moved by a queue of changes, which stays under a limit all the way. -/
namespace Collections
open List

universe u

variable {κ : Type u} {limit n n' : Int} {w w' : κ → Int} {l : List κ} {k : κ}

def Below (limit : Int) (w : κ → Int) : Int → List κ → Prop
  | n, [] => n ≤ limit
  | n, k :: l => n ≤ limit ∧ Below limit w (n + w k) l

namespace Below

section

variable (below : Below limit w n l)
include below

theorem start : n ≤ limit := by
  cases l with
  | nil => exact below
  | cons => exact below.1

theorem mono (le : n' ≤ n) (lighter : ∀ k ∈ l, w' k ≤ w k) : Below limit w' n' l := by
  induction l generalizing n n' with
  | nil => exact le.trans below
  | cons k l ih =>
    have here := lighter k mem_cons_self
    exact ⟨le.trans below.1, ih below.2 (by omega) fun j member => lighter j (.tail k member)⟩

theorem filter (p : κ → Bool) (heavy : ∀ k ∈ l, p k = false → 0 ≤ w k) :
    Below limit w n (l.filter p) := by
  induction l generalizing n with
  | nil => exact below
  | cons k l ih =>
    have rest := ih below.2 fun j member => heavy j (.tail k member)
    cases kept : p k with
    | true =>
      rw [filter_cons_of_pos kept]
      exact ⟨below.1, rest⟩
    | false =>
      rw [filter_cons_of_neg (by simp [kept])]
      have here := heavy k mem_cons_self kept
      exact rest.mono (by omega) fun _ _ => le_rfl

theorem append (last : n + (l.map w).sum + w k ≤ limit) : Below limit w n (l ++ [k]) := by
  induction l generalizing n with
  | nil =>
    exact ⟨below, by simpa [Below] using last⟩
  | cons j l ih =>
    rw [map_cons, sum_cons] at last
    exact ⟨below.1, ih below.2 (by omega)⟩

end

end Below

end Collections
