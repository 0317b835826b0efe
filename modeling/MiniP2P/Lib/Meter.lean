import Mathlib.Order.Nat

/-! Rates. A meter is read as the time at which it will have run off: what it lets through puts
that time off by an interval, waiting does not bring it nearer, and it is never more than a
capacity of intervals away. -/
namespace Meter
open List

variable {capacity interval clock now full full' : Nat} {asked : List (Nat × Bool)} {answer : Bool}

def granted (asked : List (Nat × Bool)) (start : Nat) : Nat :=
  asked.countP fun a => start ≤ a.1 ∧ a.2

/-- What a meter has kept to after it was `asked` at these times and gave these answers. -/
structure Metered (capacity interval clock full : Nat) (asked : List (Nat × Bool)) : Prop where
  paid : ∀ start, 0 < granted asked start →
    start + granted asked start * interval < full + interval
  rested : ∀ rest, (∀ a ∈ asked, a.1 + capacity * interval ≤ rest) → full ≤ max clock rest
  bounded : ∀ start length, asked.countP (fun a => start ≤ a.1 ∧ a.1 ≤ start + length ∧ a.2) ≤
    capacity + length / interval + 1

theorem Metered.wait (metered : Metered capacity interval clock full asked) (le : clock ≤ now)
    (after : full ≤ full') (before : full' ≤ max now full) :
    Metered capacity interval now full' asked := by
  constructor
  · intro start present
    have := metered.paid start present
    omega
  · intro rest all
    have := metered.rested rest all
    omega
  · exact metered.bounded

theorem granted_append (start : Nat) : granted (asked ++ [(now, answer)]) start =
    granted asked start + if start ≤ now ∧ answer then 1 else 0 := by
  simp only [granted, countP_append, countP_singleton, decide_eq_true_eq]

theorem within_le_granted (start length : Nat) :
    asked.countP (fun a => start ≤ a.1 ∧ a.1 ≤ start + length ∧ a.2) ≤ granted asked start := by
  apply countP_mono_left
  intro a _ within
  simp only [decide_eq_true_eq] at within ⊢
  exact ⟨within.1, within.2.2⟩

theorem Metered.ask (metered : Metered capacity interval now full asked) (positive : 0 < interval)
    (fresh : now < full + interval)
    (after : full + (if answer then interval else 0) ≤ full')
    (before : full' ≤ now + capacity * interval) :
    Metered capacity interval now full' (asked ++ [(now, answer)]) := by
  have paid start (nonzero : 0 < granted (asked ++ [(now, answer)]) start) :
      start + granted (asked ++ [(now, answer)]) start * interval < full' + interval := by
    have old := metered.paid start
    rw [granted_append] at nonzero ⊢
    generalize granted asked start = n at nonzero old ⊢
    rw [Nat.add_mul]
    rcases Nat.eq_zero_or_pos n with rfl | many
    · split at nonzero <;> simp_all
      omega
    · split <;> simp_all <;> omega
  refine ⟨paid, fun rest all => ?_, fun start length => ?_⟩
  · have := all (now, answer) (mem_append_right _ (mem_singleton_self _))
    omega
  · rw [countP_append, countP_singleton]
    split
    · rename_i inside
      -- the answers in the window are among those since its start, and this one is its last
      obtain ⟨started, soon, yes⟩ := of_decide_eq_true inside
      have cost := paid start
      rw [granted_append, if_pos ⟨started, yes⟩, Nat.add_mul] at cost
      have most : granted asked start ≤ capacity + length / interval := by
        rw [Nat.add_comm, ← Nat.add_mul_div_right _ _ positive, Nat.le_div_iff_mul_le positive]
        omega
      have := @within_le_granted asked start length
      omega
    · exact metered.bounded start length

end Meter
