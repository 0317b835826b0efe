import Mathlib.Data.List.TakeWhile
import Mathlib.Data.Nat.Digits.Lemmas

/-! Numbers written in one base and rewritten in another. Digits in a pass of carries stand low
digit first; in `recode` they stand as they are read, high digit first, and the zeros in front
are kept one by one. -/
namespace Radix
open List

variable {b m : Nat}

/-- One pass of carries: the digits of `n` become those of `n * m + carry`. -/
def mulAdd (b m : Nat) : Nat → List Nat → List Nat
  | carry, [] => Nat.digits b carry
  | carry, d :: ds => (d * m + carry) % b :: mulAdd b m ((d * m + carry) / b) ds

theorem mulAdd_digits (base : 1 < b) (positive : 0 < m) (n carry : Nat) :
    mulAdd b m carry (Nat.digits b n) = Nat.digits b (n * m + carry) := by
  induction n using Nat.strong_induction_on generalizing carry with
  | _ n ih =>
    by_cases zero : n = 0
    · rw [zero, Nat.digits_zero, mulAdd, Nat.zero_mul, Nat.zero_add]
    · have product : n * m + carry ≠ 0 := by
        have := Nat.mul_pos (Nat.pos_of_ne_zero zero) positive
        omega
      have parts : n * m + carry = (n % b * m + carry) + b * (n / b * m) := by
        calc n * m + carry = (n % b + b * (n / b)) * m + carry := by rw [Nat.mod_add_div]
          _ = _ := by rw [Nat.add_mul, Nat.mul_assoc]; omega
      rw [Nat.digits_eq_cons_digits_div base zero,
        Nat.digits_eq_cons_digits_div base product, mulAdd,
        ih _ (Nat.div_lt_self (Nat.pos_of_ne_zero zero) base), parts, Nat.add_mul_mod_self_left,
        Nat.add_mul_div_left _ _ (by omega), Nat.add_comm (n / b * m)]

def value (m : Nat) (digits : List Nat) : Nat := Nat.ofDigits m digits.reverse

theorem value_cons (c : Nat) (digits : List Nat) :
    value m (c :: digits) = c * m ^ digits.length + value m digits := by
  rw [value, value, reverse_cons, Nat.ofDigits_append, length_reverse,
    Nat.ofDigits_singleton, Nat.add_comm, Nat.mul_comm]

theorem value_lt (base : 1 < m) {digits : List Nat} (small : ∀ d ∈ digits, d < m) :
    value m digits < m ^ digits.length := by
  have bound := @Nat.ofDigits_lt_base_pow_length m digits.reverse base (by simpa using small)
  rwa [length_reverse] at bound

variable {digits : List Nat} {f : List Nat → Nat → List Nat}

theorem foldl_digits (positive : 0 < m)
    (pass : ∀ n c, 0 < n → f (Nat.digits b n) c = Nat.digits b (n * m + c))
    (digits : List Nat) {n : Nat} (nonzero : 0 < n) :
    digits.foldl f (Nat.digits b n) = Nat.digits b (n * m ^ digits.length + value m digits) := by
  induction digits generalizing n with
  | nil => simp [value]
  | cons c digits ih =>
    have more : 0 < n * m + c := by
      have := Nat.mul_pos nonzero positive
      omega
    rw [foldl_cons, pass n c nonzero, ih more, value_cons, length_cons]
    ring_nf

/-- Digits without a zero in front, in another base. -/
def rebase (b m : Nat) (digits : List Nat) : List Nat := (Nat.digits b (value m digits)).reverse

theorem foldl_rebase (positive : 0 < m) (start : ∀ c, 0 < c → f [] c = Nat.digits b c)
    (pass : ∀ n c, 0 < n → f (Nat.digits b n) c = Nat.digits b (n * m + c))
    (high : digits.head? ≠ some 0) : (digits.foldl f []).reverse = rebase b m digits := by
  cases digits with
  | nil => simp [rebase, value]
  | cons c digits =>
    have nonzero : 0 < c := Nat.pos_of_ne_zero (by simpa using high)
    rw [foldl_cons, start c nonzero, foldl_digits positive pass digits nonzero, rebase, value_cons]

theorem rebase_high (base : 1 < b) {k low high : Nat} (below : low < b ^ k) (positive : 0 < high)
    (total : value m digits = low + b ^ k * high) :
    ∃ rest, rebase b m digits = (Nat.digits b high).reverse ++ rest := by
  have short := (Nat.digits_length_le_iff base low).mpr below
  refine ⟨(Nat.digits b low ++ List.replicate (k - (Nat.digits b low).length) 0).reverse, ?_⟩
  rw [← reverse_append, Nat.digits_append_zeroes_append_digits base positive,
    Nat.add_sub_cancel' short, rebase, total]

def recode (b m : Nat) (digits : List Nat) : List Nat :=
  digits.takeWhile (· = 0) ++ rebase b m (digits.dropWhile (· = 0))

theorem rebase_lt (base : 1 < b) {d : Nat} (mem : d ∈ rebase b m digits) :
    d < b := Nat.digits_lt_base base (mem_reverse.mp mem)

theorem rebase_head {rest : List Nat} {d : Nat}
    (found : rebase b m digits = d :: rest) : d ≠ 0 := by
  have positive : value m digits ≠ 0 := by
    intro zero
    rw [rebase, zero] at found
    simp at found
  have last := Nat.getLast_digit_ne_zero b positive
  have reversed : Nat.digits b (value m digits) = rest.reverse ++ [d] := by
    rw [← reverse_reverse (Nat.digits b _), ← rebase, found, reverse_cons]
  simpa [reversed] using last

theorem rebase_rebase (source : 1 < m) (small : ∀ d ∈ digits, d < m)
    (high : digits.head? ≠ some 0) : rebase m b (rebase b m digits) = digits := by
  rw [rebase, value, rebase, reverse_reverse, Nat.ofDigits_digits, value,
    Nat.digits_ofDigits m source _ (by simpa using small), reverse_reverse]
  intro present zero
  rw [getLast_reverse] at zero
  exact high (by rw [List.head?_eq_some_head (by simpa using present), zero])

theorem takeWhile_zeros (digits : List Nat) :
    digits.takeWhile (· = 0) = List.replicate (digits.takeWhile (· = 0)).length 0 :=
  eq_replicate_of_mem fun _ mem =>
    by simpa using mem_takeWhile_imp mem

theorem span_zeros (count : Nat) {rest : List Nat} (high : rest.head? ≠ some 0) :
    (List.replicate count 0 ++ rest).takeWhile (· = 0) = List.replicate count 0 ∧
      (List.replicate count 0 ++ rest).dropWhile (· = 0) = rest := by
  induction count with
  | zero =>
    cases rest with
    | nil => exact ⟨rfl, rfl⟩
    | cons d rest =>
      have positive : d ≠ 0 := by simpa using high
      simp [positive]
  | succ count ih => simpa [replicate_succ] using ih

theorem head_dropWhile (digits : List Nat) : (digits.dropWhile (· = 0)).head? ≠ some 0 := by
  intro zero
  have := List.head?_dropWhile_not (· = 0) digits
  rw [zero] at this
  simp at this

theorem recode_recode (source : 1 < m)
    (small : ∀ d ∈ digits, d < m) : recode m b (recode b m digits) = digits := by
  have high : (rebase b m (digits.dropWhile (· = 0))).head? ≠ some 0 := by
    intro zero
    obtain ⟨rest, found⟩ := List.head?_eq_some_iff.mp zero
    exact rebase_head found rfl
  have spans := span_zeros (digits.takeWhile (· = 0)).length high
  rw [← takeWhile_zeros] at spans
  rw [recode, recode, spans.1, spans.2, rebase_rebase source _ (head_dropWhile digits),
    takeWhile_append_dropWhile]
  exact fun d mem => small d (dropWhile_subset _ mem)

/-- A numeral without a zero in front is as large as its length says. -/
theorem pow_le_of_recode (base : 1 < b) {d : Nat} {rest : List Nat}
    (found : recode b m digits = d :: rest) (high : d ≠ 0) : b ^ rest.length ≤ value m digits := by
  have front : digits.takeWhile (· = 0) = [] := by
    cases digits with
    | nil => rfl
    | cons c digits =>
      by_cases zero : c = 0
      · simp [recode, zero] at found
        exact absurd found.1.symm high
      · simp [zero]
  have whole : digits.dropWhile (· = 0) = digits := by
    have parts := takeWhile_append_dropWhile (p := (· = 0)) (l := digits)
    rwa [front, nil_append] at parts
  rw [recode, front, whole, nil_append, rebase] at found
  have length := congrArg List.length found
  rw [length_reverse, length_cons] at length
  exact (Nat.lt_digits_length_iff base _).mp (by omega)

theorem recode_lt (target : 1 < b) {d : Nat} (mem : d ∈ recode b m digits) : d < b := by
  rcases mem_append.mp mem with zero | high
  · rw [takeWhile_zeros] at zero
    have := eq_of_mem_replicate zero
    omega
  · exact rebase_lt target high

end Radix
