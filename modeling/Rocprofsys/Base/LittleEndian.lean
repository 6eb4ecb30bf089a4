import Mathlib.Tactic.Ring

namespace Rocprofsys
namespace Base

/-- The `w` low-order bytes of `n`, least significant first. -/
def leBytes : Nat → Nat → List UInt8
  | 0, _ => []
  | w + 1, n => UInt8.ofNat n :: leBytes w (n / 256)

/-- The number a little-endian byte string spells. -/
def leNat : List UInt8 → Nat
  | [] => 0
  | b :: bs => b.toNat + 256 * leNat bs

@[simp] theorem length_leBytes (w n : Nat) : (leBytes w n).length = w := by
  induction w generalizing n with
  | zero => rfl
  | succ w ih => simp [leBytes, ih]

/-- Reading back a `w`-byte word keeps the number modulo `256 ^ w`. -/
theorem leNat_leBytes_mod (w n : Nat) : leNat (leBytes w n) = n % 256 ^ w := by
  induction w generalizing n with
  | zero => simp [leBytes, leNat, Nat.mod_one]
  | succ w ih =>
    have hb : (UInt8.ofNat n).toNat = n % 256 := by simp
    rw [leBytes, leNat, ih, hb, Nat.pow_succ', Nat.mod_mul]

theorem leNat_leBytes {w n : Nat} (h : n < 256 ^ w) : leNat (leBytes w n) = n := by
  rw [leNat_leBytes_mod, Nat.mod_eq_of_lt h]

theorem leBytes_append (v w n : Nat) :
    leBytes (v + w) n = leBytes v n ++ leBytes w (n / 256 ^ v) := by
  induction v generalizing n with
  | zero => simp [leBytes]
  | succ v ih => rw [Nat.succ_add, leBytes, leBytes, ih, Nat.div_div_eq_div_mul, ← Nat.pow_succ',
      List.cons_append]

/-- Only the low-order bytes count. -/
theorem leBytes_mod (w n : Nat) : leBytes w (n % 256 ^ w) = leBytes w n := by
  induction w generalizing n with
  | zero => rfl
  | succ w ih =>
    have hlow : UInt8.ofNat (n % 256 ^ (w + 1)) = UInt8.ofNat n := by
      apply UInt8.toNat_inj.mp
      rw [UInt8.toNat_ofNat', UInt8.toNat_ofNat', Nat.pow_succ']
      exact Nat.mod_mul_right_mod n 256 (256 ^ w)
    rw [leBytes, leBytes, hlow, Nat.pow_succ', Nat.mod_mul_right_div_self, ih]

/-- A word assembled from shifted bytes adds them up. -/
theorem or_shiftLeft {a w : Nat} (h : a < 256 ^ w) (b : Nat) :
    a ||| b <<< (w * 8) = a + 256 ^ w * b := by
  have hpow : 256 ^ w = 2 ^ (w * 8) := by
    rw [Nat.mul_comm, Nat.pow_mul]
  rw [Nat.or_comm, ← Nat.shiftLeft_add_eq_or_of_lt (hpow ▸ h), Nat.shiftLeft_eq, hpow]
  ring

end Base
end Rocprofsys
