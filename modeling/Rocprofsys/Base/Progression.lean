import Mathlib.Data.Int.GCD
import Mathlib.Data.Int.ModEq
import Mathlib.Tactic.Ring

namespace Rocprofsys
namespace Base

/-! ## Values that advance by a constant -/

theorem emod_le_self {a : ℤ} (ha : 0 ≤ a) (n : ℕ) : a % n ≤ a := by
  have hsplit := Int.emod_add_mul_ediv a n
  have hquotient : 0 ≤ (n : ℤ) * (a / n) :=
    Int.mul_nonneg (Int.natCast_nonneg n) (Int.ediv_nonneg ha (Int.natCast_nonneg n))
  omega

section Wrapping

variable {m : ℕ} {value step top : ℤ}

/-- The greatest number up to `top` that a progression reaches modulo `m`. -/
def greatest (m : ℕ) (top value step : ℤ) : ℤ := top - (top - value) % (Int.gcd step m : ℤ)

theorem le_greatest_of_modEq {n : ℕ} {w : ℤ} (h : w ≡ value + (n + 1) * step [ZMOD m])
    (htop : w ≤ top) : w ≤ greatest m top value step := by
  have hgcd : (Int.gcd step m : ℤ) ∣ w - value := by
    have hm : (Int.gcd step m : ℤ) ∣ w - (value + (n + 1) * step) :=
      Int.dvd_trans (Int.gcd_dvd_right step m) h.symm.dvd
    have hstep : (Int.gcd step m : ℤ) ∣ (n + 1) * step :=
      Dvd.dvd.mul_left (Int.gcd_dvd_left step m) _
    have hsum := Int.dvd_add hm hstep
    rwa [show w - (value + (n + 1) * step) + (n + 1) * step = w - value by ring] at hsum
  have hsame : (top - w) % (Int.gcd step m : ℤ) = (top - value) % (Int.gcd step m : ℤ) := by
    refine Int.modEq_iff_dvd.mpr ?_
    rwa [show top - value - (top - w) = w - value by ring]
  have hle := emod_le_self (show 0 ≤ top - w by omega) (Int.gcd step m)
  rw [greatest, ← hsame]
  omega

/-- The progression comes to it after some steps. -/
theorem exists_modEq_greatest (hm : 0 < m) :
    ∃ n : ℕ, greatest m top value step ≡ value + (n + 1) * step [ZMOD m] := by
  have hbezout := Int.gcd_eq_gcd_ab step m
  have hsplit := Int.emod_add_mul_ediv (top - value) (Int.gcd step m)
  generalize (top - value) / (Int.gcd step m : ℤ) = q at hsplit
  generalize Int.gcdA step m = a at hbezout
  generalize Int.gcdB step m = b at hbezout
  have hm' : (m : ℤ) ≠ 0 := by omega
  refine ⟨((a * q - 1) % m).toNat, ?_⟩
  rw [Int.toNat_of_nonneg (Int.emod_nonneg _ hm')]
  have hn : (a * q - 1) % (m : ℤ) + 1 ≡ a * q [ZMOD m] := by
    have hmod := (Int.mod_modEq (a * q - 1) m).add_right 1
    rwa [Int.sub_add_cancel] at hmod
  refine Int.ModEq.trans ?_ ((hn.symm.mul_right step).add_left value)
  refine Int.modEq_iff_dvd.mpr ⟨-(b * q), ?_⟩
  have hvalue : greatest m top value step = value + (Int.gcd step m : ℤ) * q := by
    rw [greatest]
    omega
  rw [hvalue, hbezout]
  ring

theorem sub_lt_greatest (hvalue : value ≤ top) (hlow : top < value + m) :
    top - m < greatest m top value step := by
  have hle := emod_le_self (show 0 ≤ top - value by omega) (Int.gcd step m)
  rw [greatest]
  omega

theorem greatest_le (hm : 0 < m) : greatest m top value step ≤ top := by
  have hgcd : (Int.gcd step m : ℤ) ≠ 0 := by
    rw [Ne, Int.natCast_eq_zero, Int.gcd_eq_zero_iff]
    omega
  have hnonneg := Int.emod_nonneg (top - value) hgcd
  rw [greatest]
  omega

end Wrapping

section Unbounded

variable {value step limit top : ℤ}

/-- The first number of a rising progression beyond a limit, from its second on. -/
def firstBeyond (limit value step : ℤ) : ℤ :=
  value + ((limit - value).toNat / step + 1) * step

/-- A progression leaves a limit behind, and no earlier step leaves the top, exactly if the
first number beyond the limit does not leave the top. -/
theorem exists_beyond_iff (hstep : 0 < step) :
    (∃ n : ℕ, value + (n + 1) * step < top ∧ limit < value + (n + 1) * step) ↔
      firstBeyond limit value step < top := by
  have hdistance : limit - value ≤ (limit - value).toNat := Int.self_le_toNat _
  have hnonneg : 0 ≤ ((limit - value).toNat : ℤ) / step :=
    Int.ediv_nonneg (Int.natCast_nonneg _) hstep.le
  constructor
  · intro h
    obtain ⟨n, htop, hbeyond⟩ := h
    have hpos : 0 < ((n : ℤ) + 1) * step := Int.mul_pos (by omega) hstep
    have hlt : ((limit - value).toNat : ℤ) / step < n + 1 :=
      Int.ediv_lt_of_lt_mul hstep (by omega)
    have hle : (((limit - value).toNat : ℤ) / step + 1) * step ≤ (n + 1) * step :=
      Int.mul_le_mul_of_nonneg_right (by omega) hstep.le
    rw [firstBeyond]
    omega
  · intro h
    refine ⟨(((limit - value).toNat : ℤ) / step).toNat, ?_⟩
    have hbeyond := Int.lt_ediv_add_one_mul_self ((limit - value).toNat : ℤ) hstep
    rw [firstBeyond] at h
    rw [Int.toNat_of_nonneg hnonneg]
    omega

end Unbounded

end Base
end Rocprofsys
