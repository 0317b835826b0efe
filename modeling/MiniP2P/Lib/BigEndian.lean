import Mathlib.Algebra.Group.Nat.Defs

/-! Fixed-width big-endian integers as byte lists. Width is a parameter, and the
two directions are inverse on exactly the values that fit the width. -/
namespace BigEndian

def toBytes : Nat → Nat → List UInt8
  | 0, _ => []
  | w + 1, n => UInt8.ofNat (n / 256 ^ w) :: toBytes w n

def ofBytes : List UInt8 → Nat
  | [] => 0
  | b :: bs => b.toNat * 256 ^ bs.length + ofBytes bs

@[simp] theorem length_toBytes (w n : Nat) : (toBytes w n).length = w := by
  induction w with
  | zero => rfl
  | succ w ih => simp [toBytes, ih]

theorem ofBytes_lt (bs : List UInt8) : ofBytes bs < 256 ^ bs.length := by
  induction bs with
  | nil => decide
  | cons b bs ih =>
    have small : b.toNat < 256 := b.toNat_lt
    have step : (b.toNat + 1) * 256 ^ bs.length ≤ 256 * 256 ^ bs.length :=
      Nat.mul_le_mul_right _ small
    simp only [ofBytes, List.length_cons, Nat.pow_succ]
    rw [Nat.add_mul] at step
    omega

theorem ofBytes_toBytes_mod (w n : Nat) : ofBytes (toBytes w n) = n % 256 ^ w := by
  induction w with
  | zero => simp [toBytes, ofBytes, Nat.mod_one]
  | succ w ih =>
    have split := Nat.mod_mul (x := n) (a := 256 ^ w) (b := 256)
    have byte : (UInt8.ofNat (n / 256 ^ w)).toNat = n / 256 ^ w % 256 := UInt8.toNat_ofNat'
    rw [toBytes, ofBytes, length_toBytes, byte, ih, Nat.pow_succ, split, Nat.add_comm,
      Nat.mul_comm (256 ^ w)]

theorem ofBytes_toBytes {w n : Nat} (fits : n < 256 ^ w) : ofBytes (toBytes w n) = n := by
  rw [ofBytes_toBytes_mod, Nat.mod_eq_of_lt fits]

/-- High bytes above the width are dropped, so a prefix value does not matter. -/
theorem toBytes_add_mul (w k n : Nat) : toBytes w (k * 256 ^ w + n) = toBytes w n := by
  induction w generalizing k with
  | zero => rfl
  | succ w ih =>
    have high : k * 256 ^ (w + 1) = (k * 256) * 256 ^ w := by
      rw [Nat.pow_succ, Nat.mul_comm (256 ^ w), Nat.mul_assoc]
    have quotient : (k * 256 * 256 ^ w + n) / 256 ^ w = k * 256 + n / 256 ^ w := by
      rw [Nat.add_comm, Nat.add_mul_div_right _ _ (Nat.pow_pos (by decide)), Nat.add_comm]
    have byte : UInt8.ofNat (k * 256 + n / 256 ^ w) = UInt8.ofNat (n / 256 ^ w) := by
      apply UInt8.toNat_inj.mp
      simp only [UInt8.toNat_ofNat']
      omega
    simp only [toBytes, high, quotient, byte, ih]

theorem toBytes_ofBytes (bs : List UInt8) : toBytes bs.length (ofBytes bs) = bs := by
  induction bs with
  | nil => rfl
  | cons b bs ih =>
    have quotient : (b.toNat * 256 ^ bs.length + ofBytes bs) / 256 ^ bs.length = b.toNat := by
      rw [Nat.add_comm, Nat.add_mul_div_right _ _ (Nat.pow_pos (by decide)),
        Nat.div_eq_of_lt (ofBytes_lt bs), Nat.zero_add]
    simp only [List.length_cons, ofBytes, toBytes, quotient, UInt8.ofNat_toNat,
      toBytes_add_mul, ih]

end BigEndian
