import Mathlib.Data.Nat.Bitwise

/-! Numbers of one width in bits rewritten as numbers of another, through a buffer of limited
width. What a stream holds is its bits, high bit first; regrouping moves no bit. -/
namespace Regroup
open List

/-- The low `w` bits of a number. -/
def bitsOf : Nat → Nat → List Bool
  | 0, _ => []
  | w + 1, n => n.testBit w :: bitsOf w n

@[simp] theorem length_bitsOf (w n : Nat) : (bitsOf w n).length = w := by
  induction w with
  | zero => rfl
  | succ w ih => rw [bitsOf, length_cons, ih]

theorem bitsOf_congr {w m n : Nat} (same : ∀ i < w, m.testBit i = n.testBit i) :
    bitsOf w m = bitsOf w n := by
  induction w with
  | zero => rfl
  | succ w ih => rw [bitsOf, bitsOf, same w (by omega), ih fun i below => same i (by omega)]

theorem testBit_of_bitsOf {w m n : Nat} (same : bitsOf w m = bitsOf w n) :
    ∀ i < w, m.testBit i = n.testBit i := by
  induction w with
  | zero => nofun
  | succ w ih =>
    obtain ⟨high, low⟩ := List.cons.inj same
    intro i below
    rcases Nat.lt_succ_iff_lt_or_eq.mp below with below | rfl
    · exact ih low i below
    · exact high

theorem bitsOf_inj {w m n : Nat} (left : m < 2 ^ w) (right : n < 2 ^ w)
    (same : bitsOf w m = bitsOf w n) : m = n := by
  apply Nat.eq_of_testBit_eq
  intro i
  by_cases below : i < w
  · exact testBit_of_bitsOf same i below
  · have wide : 2 ^ w ≤ 2 ^ i := Nat.pow_le_pow_right (by decide) (by omega)
    rw [Nat.testBit_lt_two_pow (by omega), Nat.testBit_lt_two_pow (by omega)]

theorem bitsOf_mod {w k : Nat} (n : Nat) (narrow : w ≤ k) : bitsOf w (n % 2 ^ k) = bitsOf w n := by
  apply bitsOf_congr
  intro i below
  simp [Nat.testBit_mod_two_pow, Nat.lt_of_lt_of_le below narrow]

theorem bitsOf_add (v w n : Nat) : bitsOf (v + w) n = bitsOf v (n >>> w) ++ bitsOf w n := by
  induction v with
  | zero => rw [Nat.zero_add, bitsOf, nil_append]
  | succ v ih =>
    rw [Nat.succ_add, bitsOf, ih, bitsOf, Nat.testBit_shiftRight, cons_append, Nat.add_comm]

theorem bitsOf_shift_or {v w m n : Nat} (small : n < 2 ^ w) :
    bitsOf (v + w) (m <<< w ||| n) = bitsOf v m ++ bitsOf w n := by
  rw [bitsOf_add]
  congr 1
  · apply bitsOf_congr
    intro i below
    have wide : 2 ^ w ≤ 2 ^ (w + i) := Nat.pow_le_pow_right (by decide) (by omega)
    simp [Nat.testBit_lt_two_pow (Nat.lt_of_lt_of_le small wide)]
  · apply bitsOf_congr
    intro i below
    have high : ¬ w ≤ i := by omega
    simp [high]

theorem bitsOf_zero (w : Nat) : bitsOf w 0 = List.replicate w false := by
  induction w with
  | zero => rfl
  | succ w ih => rw [bitsOf, ih, Nat.zero_testBit, replicate_succ]

theorem chunks_inj {v : Nat} {xs ys : List Nat} {rest rest' : List Bool}
    (left : ∀ x ∈ xs, x < 2 ^ v) (right : ∀ y ∈ ys, y < 2 ^ v) (length : xs.length = ys.length)
    (same : xs.flatMap (bitsOf v) ++ rest = ys.flatMap (bitsOf v) ++ rest') : xs = ys := by
  induction xs generalizing ys with
  | nil => exact (eq_nil_of_length_eq_zero length.symm).symm
  | cons x xs ih =>
    obtain ⟨y, ys, rfl⟩ := exists_cons_of_length_eq_add_one length.symm
    simp only [flatMap_cons, append_assoc] at same
    obtain ⟨first, others⟩ := append_inj same (by simp)
    rw [bitsOf_inj (left x mem_cons_self) (right y mem_cons_self) first,
      ih (fun z mem => left z (mem_cons_of_mem _ mem))
        (fun z mem => right z (mem_cons_of_mem _ mem)) (by simpa using length) others]

/-! ### The buffer -/

/-- Whole groups leave the buffer, high bits first; the number of bits left is returned. Each turn
takes a bit at least. -/
def emit (w : Nat) : Nat → Nat → Nat → List Nat × Nat
  | 0, bits, _ => ([], bits)
  | fuel + 1, bits, buffer =>
    if w ≤ bits then
      let (groups, left) := emit w fuel (bits - w) buffer
      ((buffer >>> (bits - w)) % 2 ^ w :: groups, left)
    else ([], bits)

/-- One more number of `v` bits enters a buffer `width` bits wide. -/
def push (v width buffer x : Nat) : Nat := (buffer <<< v ||| x) % 2 ^ width

def regroup (v w width : Nat) : Nat → Nat → List Nat → List Nat × Nat × Nat
  | bits, buffer, [] => ([], bits, buffer)
  | bits, buffer, x :: xs =>
    let buffer := push v width buffer x
    let (groups, left) := emit w (bits + v) (bits + v) buffer
    let (more, left, buffer) := regroup v w width left buffer xs
    (groups ++ more, left, buffer)

theorem emit_spec {w : Nat} (positive : 0 < w) {fuel bits : Nat} (buffer : Nat)
    (enough : bits ≤ fuel) :
    (emit w fuel bits buffer).2 < w ∧ (∀ x ∈ (emit w fuel bits buffer).1, x < 2 ^ w) ∧
      (emit w fuel bits buffer).1.flatMap (bitsOf w) ++ bitsOf (emit w fuel bits buffer).2 buffer =
        bitsOf bits buffer := by
  induction fuel generalizing bits with
  | zero =>
    obtain rfl : bits = 0 := by omega
    exact ⟨positive, nofun, rfl⟩
  | succ fuel ih =>
    rw [emit]
    split
    · obtain ⟨left, small, moved⟩ := @ih (bits - w) (by omega)
      refine ⟨left, ?_, ?_⟩
      · rintro x (_ | ⟨_, mem⟩)
        · exact Nat.mod_lt _ (Nat.two_pow_pos w)
        · exact small x mem
      · have total : bits = w + (bits - w) := by omega
        simp only [flatMap_cons, append_assoc]
        rw [moved, bitsOf_mod _ (Nat.le_refl w), ← bitsOf_add, ← total]
    · exact ⟨by omega, nofun, rfl⟩

variable {v w width : Nat}

theorem regroup_spec (positive : 0 < w) (room : w + v ≤ width + 1) {bits : Nat} (buffer : Nat)
    (inside : bits < w) {xs : List Nat} (small : ∀ x ∈ xs, x < 2 ^ v) :
    (regroup v w width bits buffer xs).2.1 < w ∧
      (∀ x ∈ (regroup v w width bits buffer xs).1, x < 2 ^ w) ∧
      (regroup v w width bits buffer xs).1.flatMap (bitsOf w) ++
          bitsOf (regroup v w width bits buffer xs).2.1 (regroup v w width bits buffer xs).2.2 =
        bitsOf bits buffer ++ xs.flatMap (bitsOf v) := by
  induction xs generalizing bits buffer with
  | nil => exact ⟨inside, nofun, by simp [regroup]⟩
  | cons x xs ih =>
    obtain ⟨left, groups, moved⟩ :=
      emit_spec positive (push v width buffer x) (Nat.le_refl (bits + v))
    obtain ⟨left', groups', moved'⟩ := ih (push v width buffer x) left
      fun y mem => small y (mem_cons_of_mem _ mem)
    simp only [regroup]
    refine ⟨left', ?_, ?_⟩
    · exact forall_mem_append.mpr ⟨groups, groups'⟩
    · have entered : bitsOf (bits + v) (push v width buffer x) =
          bitsOf bits buffer ++ bitsOf v x := by
        rw [push, bitsOf_mod _ (by omega), bitsOf_shift_or (small x mem_cons_self)]
      rw [flatMap_append, append_assoc, moved', ← append_assoc, moved, entered,
        flatMap_cons, append_assoc]

def pack (v w width : Nat) (xs : List Nat) : List Nat :=
  let (groups, left, buffer) := regroup v w width 0 0 xs
  groups ++ if 0 < left then [(buffer <<< (w - left)) % 2 ^ w] else []

theorem pack_spec (positive : 0 < w) (room : w + v ≤ width + 1) {xs : List Nat}
    (small : ∀ x ∈ xs, x < 2 ^ v) :
    (∀ x ∈ pack v w width xs, x < 2 ^ w) ∧
      ∃ k < w, (pack v w width xs).flatMap (bitsOf w) =
        xs.flatMap (bitsOf v) ++ List.replicate k false := by
  obtain ⟨left, groups, moved⟩ := regroup_spec positive room 0 positive small
  rw [bitsOf, nil_append] at moved
  unfold pack
  generalize regroup v w width 0 0 xs = stream at left groups moved ⊢
  obtain ⟨out, rest, buffer⟩ := stream
  dsimp only at left groups moved ⊢
  split
  · constructor
    · intro x mem
      rcases mem_append.mp mem with mem | mem
      · exact groups x mem
      · rw [mem_singleton.mp mem]
        exact Nat.mod_lt _ (Nat.two_pow_pos w)
    · refine ⟨w - rest, by omega, ?_⟩
      have last : bitsOf w (buffer <<< (w - rest)) =
          bitsOf rest buffer ++ List.replicate (w - rest) false := by
        have shifted := @bitsOf_shift_or rest (w - rest) buffer 0 (Nat.two_pow_pos _)
        rwa [Nat.or_zero, bitsOf_zero, Nat.add_sub_cancel' (Nat.le_of_lt left)] at shifted
      rw [flatMap_append, flatMap_singleton, bitsOf_mod _ (Nat.le_refl w), last, ← moved,
        append_assoc]
  · obtain rfl : rest = 0 := by omega
    rw [bitsOf] at moved
    exact ⟨by simpa using groups, 0, positive, by simpa using moved⟩

theorem length_flatMap_bitsOf (xs : List Nat) : (xs.flatMap (bitsOf v)).length = xs.length * v := by
  induction xs with
  | nil => simp
  | cons x xs ih => simp [ih, Nat.succ_mul, Nat.add_comm]

theorem regroup_pack {width' : Nat} (positive : 0 < w) (narrow : w ≤ v) (room : w + v ≤ width + 1)
    (room' : v + w ≤ width' + 1) {xs : List Nat} (small : ∀ x ∈ xs, x < 2 ^ v) :
    (regroup w v width' 0 0 (pack v w width xs)).1 = xs := by
  obtain ⟨packed, k, pad, moved⟩ := pack_spec positive room small
  obtain ⟨left, groups, moved'⟩ := @regroup_spec w v width' (by omega) room' 0 0 (by omega) _ packed
  rw [bitsOf, nil_append, moved] at moved'
  refine chunks_inj groups small ?_ moved'
  have lengths := congrArg List.length moved'
  simp only [length_append, length_flatMap_bitsOf, length_bitsOf, length_replicate]
    at lengths
  have quotients := congrArg (· / v) lengths
  simpa [Nat.mul_comm _ v, Nat.div_eq_of_lt left,
    Nat.div_eq_of_lt (Nat.lt_of_lt_of_le pad narrow),
    Nat.mul_add_div (Nat.lt_of_lt_of_le positive narrow)] using quotients

end Regroup
