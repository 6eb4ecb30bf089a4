import Rocprofsys.Base.Rounding

namespace Rocprofsys
namespace Base

/-! ## IEEE doubles as rational numbers -/

/-- The bits of a double. -/
structure Double where
  bits : UInt64
  deriving DecidableEq, Repr

namespace Double

def negative (d : Double) : Bool := decide (9223372036854775808 ≤ d.bits.toNat)

def exponent (d : Double) : Nat := d.bits.toNat / 4503599627370496 % 2048

def fraction (d : Double) : Nat := d.bits.toNat % 4503599627370496

def IsFinite (d : Double) : Prop := d.exponent ≠ 2047

instance (d : Double) : Decidable d.IsFinite := inferInstanceAs (Decidable (_ ≠ _))

/-- The absolute value of a finite double. -/
def magnitude (d : Double) : ℚ :=
  if d.exponent = 0 then d.fraction * (2 : ℚ) ^ (-1074 : ℤ)
  else (4503599627370496 + d.fraction : ℕ) * (2 : ℚ) ^ (d.exponent - 1075 : ℤ)

theorem magnitude_nonneg (d : Double) : 0 ≤ d.magnitude := by
  have htwo : (0 : ℚ) ≤ 2 := by norm_num
  unfold magnitude
  split
  · exact mul_nonneg (Nat.cast_nonneg _) (zpow_nonneg htwo _)
  · exact mul_nonneg (Nat.cast_nonneg _) (zpow_nonneg htwo _)

end Double

/-! ## The nearest double -/

/-- The exponent of the last of 53 bits, or of the smallest double. -/
def doublePlace (q : ℚ) : ℤ := max (lastPlace 2 53 q) (-1074)

/-- The double nearest to a number that is not negative; `none` above the largest. -/
def roundDouble (q : ℚ) : Option ℚ :=
  let rounded := roundAt 2 (doublePlace q) q
  if rounded < 2 ^ 1024 then some rounded else none

theorem roundAt_of_roundDouble {q v : ℚ} (h : roundDouble q = some v) :
    roundAt 2 (doublePlace q) q = v ∧ v < 2 ^ 1024 := by
  unfold roundDouble at h
  simp only [] at h
  split at h
  · rename_i hlt
    cases h
    exact ⟨rfl, hlt⟩
  · cases h

theorem roundDouble_of_roundAt {q v : ℚ} (h : roundAt 2 (doublePlace q) q = v)
    (hv : v < 2 ^ 1024) : roundDouble q = some v := by
  unfold roundDouble
  simp only []
  rw [h, if_pos hv]

theorem zpow_multiple {e f : ℤ} (h : f ≤ e) (m : ℕ) :
    ∃ n : ℕ, (m : ℚ) * 2 ^ e = n * 2 ^ f := by
  refine ⟨m * 2 ^ (e - f).toNat, ?_⟩
  have hsplit : (2 : ℚ) ^ e = 2 ^ (e - f).toNat * 2 ^ f := by
    rw [← zpow_natCast, ← zpow_add₀ (by norm_num)]
    congr 1
    omega
  push_cast
  rw [hsplit, mul_assoc]

/-- A number of 53 bits above the smallest double lies on the grid around it. -/
theorem roundAt_of_hasDigits {m : ℕ} {e : ℤ} (hm : m < 2 ^ 53) (he : -1074 ≤ e) :
    roundAt 2 (doublePlace ((m : ℚ) * 2 ^ e)) ((m : ℚ) * 2 ^ e) = (m : ℚ) * 2 ^ e := by
  have hmultiple : ∃ n : ℕ, (m : ℚ) * 2 ^ e = n * 2 ^ doublePlace (m * 2 ^ e : ℚ) := by
    by_cases hplace : lastPlace 2 53 (m * 2 ^ e : ℚ) ≤ -1074
    · rw [doublePlace, max_eq_right hplace]
      exact zpow_multiple he m
    · rw [doublePlace, max_eq_left (by omega)]
      have hdigits : HasDigits 2 53 (m * 2 ^ e : ℚ) := ⟨m, e, hm, rfl⟩
      rcases hdigits.multiple_or_lt (by norm_num) (by norm_num) (m * 2 ^ e) with hn | hlt
      · exact hn
      · obtain ⟨m', e', hm', heq, hle⟩ := hlt
        rcases Nat.eq_zero_or_pos m with rfl | hmpos
        · exact ⟨0, by simp⟩
        · -- the number would lie below its own first digit
          have hpos : (0 : ℚ) < m * 2 ^ e :=
            mul_pos (by exact_mod_cast hmpos) (zpow_pos (by norm_num) e)
          have hfirst := @zpow_lastPlace_le 2 53 (by norm_num) _ hpos (by norm_num)
          have hpow : (0 : ℚ) < ((2 : ℕ) : ℚ) ^ e' := zpow_base_pos (by norm_num) e'
          have hsmall : (m' : ℚ) * ((2 : ℕ) : ℚ) ^ e' < ((2 : ℕ) : ℚ) ^ 53 * ((2 : ℕ) : ℚ) ^ e' :=
            mul_lt_mul_of_pos_right (by exact_mod_cast hm') hpow
          rw [← heq] at hsmall
          exact absurd (hsmall.trans_le (hle.trans hfirst)) (lt_irrefl _)
  obtain ⟨n, hn⟩ := hmultiple
  have hround := roundAt_mul_zpow (by norm_num : 1 < 2) n (doublePlace (m * 2 ^ e : ℚ))
  generalize doublePlace (m * 2 ^ e : ℚ) = place at hn hround ⊢
  rw [hn]
  exact hround

/-- A number of 53 bits within the exponents of a double is one. -/
theorem roundDouble_of_hasDigits {m : ℕ} {e : ℤ} (hm : m < 2 ^ 53) (he : -1074 ≤ e)
    (hlarge : (m : ℚ) * 2 ^ e < 2 ^ 1024) :
    roundDouble ((m : ℚ) * 2 ^ e) = some ((m : ℚ) * 2 ^ e) :=
  roundDouble_of_roundAt (roundAt_of_hasDigits hm he) hlarge

theorem roundDouble_natCast_mul {m k : ℕ} (hm : m < 2 ^ 53) (hk : k ≤ 900) :
    roundDouble ((m * 2 ^ k : ℕ) : ℚ) = some ((m * 2 ^ k : ℕ) : ℚ) := by
  have hcast : ((m * 2 ^ k : ℕ) : ℚ) = (m : ℚ) * 2 ^ (k : ℤ) := by
    push_cast
    rw [zpow_natCast]
  have hlarge : ((m * 2 ^ k : ℕ) : ℚ) < 2 ^ 1024 := by
    have hm' : (m : ℚ) < 2 ^ 53 := by exact_mod_cast hm
    have hpow : (2 : ℚ) ^ k ≤ 2 ^ 900 := pow_le_pow_right₀ (by norm_num) hk
    have hpos : (0 : ℚ) < 2 ^ k := pow_pos (by norm_num) k
    push_cast
    calc (m : ℚ) * 2 ^ k < 2 ^ 53 * 2 ^ k := mul_lt_mul_of_pos_right hm' hpos
      _ ≤ 2 ^ 53 * 2 ^ 900 := mul_le_mul_of_nonneg_left hpow (pow_nonneg (by norm_num) 53)
      _ = 2 ^ 953 := (pow_add 2 53 900).symm
      _ ≤ 2 ^ 1024 := pow_le_pow_right₀ (by norm_num) (by norm_num)
  rw [hcast] at hlarge ⊢
  exact roundDouble_of_hasDigits hm (by omega) hlarge

theorem roundDouble_natCast {n : ℕ} (h : n < 2 ^ 53) : roundDouble n = some (n : ℚ) := by
  have hround := @roundDouble_natCast_mul n 0 h (by norm_num)
  rwa [pow_zero, mul_one] at hround

theorem roundDouble_zero : roundDouble 0 = some 0 := by
  have hround := @roundDouble_natCast 0 (by norm_num)
  rwa [Nat.cast_zero] at hround

/-- Between `2 ^ 63` and `2 ^ 64` the doubles are the multiples of `2 ^ 11`. -/
theorem roundDouble_natCast_iff {n : ℕ} (hlow : 2 ^ 63 ≤ n) (hhigh : n < 2 ^ 64) :
    roundDouble n = some (n : ℚ) ↔ 2048 ∣ n := by
  constructor
  · intro h
    have hpos : (0 : ℚ) < n := by
      exact_mod_cast Nat.lt_of_lt_of_le (by norm_num) hlow
    have hlog : Int.log 2 (n : ℚ) = 63 := by
      have hle : ((2 : ℕ) : ℚ) ^ (63 : ℤ) ≤ n := by exact_mod_cast hlow
      have hlt : (n : ℚ) < ((2 : ℕ) : ℚ) ^ (64 : ℤ) := by exact_mod_cast hhigh
      have h63 := (Int.zpow_le_iff_le_log (by norm_num) hpos).mp hle
      have h64 := (Int.lt_zpow_iff_log_lt (by norm_num) hpos).mp hlt
      omega
    have hplace : doublePlace (n : ℚ) = 11 := by
      rw [doublePlace, lastPlace, hlog]
      rfl
    have hround := (roundAt_of_roundDouble h).1
    rw [hplace, roundAt] at hround
    have hint : roundHalfEven ((n : ℚ) / ((2 : ℕ) : ℚ) ^ (11 : ℤ)) * 2048 = (n : ℤ) := by
      have hpow : ((2 : ℕ) : ℚ) ^ (11 : ℤ) = 2048 := by norm_num
      rw [hpow] at hround ⊢
      exact_mod_cast hround
    exact Int.natCast_dvd_natCast.mp ⟨_, by rw [← hint]; push_cast; ring⟩
  · intro h
    obtain ⟨m, rfl⟩ := h
    have hround := @roundDouble_natCast_mul m 11 (by omega) (by norm_num)
    rwa [Nat.mul_comm] at hround

/-! ## Decimal numbers that survive in a double -/

/-- A decimal number of few digits is what the numbers next to it round to. -/
theorem roundDigits_of_close {digits : ℕ} (hdigits : 0 < digits) (hsmall : 10 ^ digits ≤ 2 ^ 50)
    {x v : ℚ} (hx : HasDigits 10 digits x) (hpos : 0 < x) (hv : 0 < v)
    (hclose : |x - v| ≤ x / 2 ^ 53) : roundDigits 10 digits v = x := by
  have hten : 1 < 10 := by norm_num
  have hlarge : ((10 : ℕ) : ℚ) ^ digits ≤ 2 ^ 50 := by exact_mod_cast hsmall
  have hbounds := abs_le.mp hclose
  have hlt := @lt_zpow_lastPlace 10 digits hten v
  have hfirst := @zpow_lastPlace_le 10 digits hten v hv hdigits
  rcases hx.multiple_or_lt hten hdigits v with ⟨n, rfl⟩ | ⟨m, e, hm, rfl, hle⟩
  · have hplace := zpow_base_pos hten (lastPlace 10 digits v)
    have hscaled := mul_le_mul_of_nonneg_right hlarge hplace.le
    have hdist : |v - n * ((10 : ℕ) : ℚ) ^ lastPlace 10 digits v| <
        ((10 : ℕ) : ℚ) ^ lastPlace 10 digits v / 2 := by
      rw [abs_lt]
      generalize ((10 : ℕ) : ℚ) ^ lastPlace 10 digits v = place at *
      generalize (n : ℚ) * place = x at *
      constructor <;> linarith [hbounds.1, hbounds.2]
    exact roundAt_of_abs_lt hten (n := n) hdist
  · -- below the first digit of `v` there is room for more than the distance
    have hpow := zpow_base_pos hten e
    have hscaled := mul_le_mul_of_nonneg_right hlarge hpow.le
    have hcast : (m : ℚ) + 1 ≤ ((10 : ℕ) : ℚ) ^ digits := by exact_mod_cast hm
    have hfew := mul_le_mul_of_nonneg_right hcast hpow.le
    rw [add_mul, one_mul] at hfew
    have hbelow := hle.trans hfirst
    generalize ((10 : ℕ) : ℚ) ^ digits * ((10 : ℕ) : ℚ) ^ e = bound at *
    generalize (m : ℚ) * ((10 : ℕ) : ℚ) ^ e = x at *
    generalize ((10 : ℕ) : ℚ) ^ e = unit at *
    exfalso
    linarith [hbounds.1]

/-- Below the doubles of full precision the smallest double is the grid. -/
theorem doublePlace_of_lt {q : ℚ} (hq : 0 < q) (h : q < 2 ^ (-1021 : ℤ)) :
    doublePlace q = -1074 := by
  have hlog : Int.log 2 q < -1021 := (Int.lt_zpow_iff_log_lt (by norm_num) hq).mp h
  rw [doublePlace, lastPlace]
  omega

/-- A double nearest to a decimal number of few digits is nearest to its own first
digits. -/
theorem roundDouble_roundDigits {digits : ℕ} (hdigits : 0 < digits)
    (hsmall : 10 ^ digits ≤ 2 ^ 50) {x v : ℚ} (hx : HasDigits 10 digits x) (hpos : 0 < x)
    (hv : 0 < v) (h : roundDouble x = some v) : roundDouble (roundDigits 10 digits v) = some v := by
  have hten : 1 < 10 := by norm_num
  have htwo : 1 < 2 := by norm_num
  obtain ⟨hround, hlarge⟩ := roundAt_of_roundDouble h
  have hnear := abs_sub_roundAt_le htwo (doublePlace x) x
  rw [hround] at hnear
  by_cases hplace : -1074 ≤ lastPlace 2 53 x
  · -- full precision: the rounding gives `x` back
    have hfirst := @zpow_lastPlace_le 2 53 htwo x hpos (by norm_num)
    rw [doublePlace, max_eq_left hplace] at hnear
    have hclose : |x - v| ≤ x / 2 ^ 53 := by
      generalize ((2 : ℕ) : ℚ) ^ lastPlace 2 53 x = place at *
      push_cast at hfirst
      linarith
    rw [roundDigits_of_close hdigits hsmall hx hpos hv hclose]
    exact h
  · have hxplace : doublePlace x = -1074 := max_eq_right (by omega)
    have hxlog : Int.log 2 x < -1022 := by
      rw [lastPlace] at hplace
      omega
    have hxlt : x < 2 ^ (-1022 : ℤ) := (Int.lt_zpow_iff_log_lt htwo hpos).mpr hxlog
    have hdist := abs_sub_roundDigits_le hten hx hv hdigits
    have hrpos := roundDigits_pos hten hv hdigits
    generalize roundDigits 10 digits v = r at *
    rw [hxplace] at hround hnear
    have hrlt : r < 2 ^ (-1021 : ℤ) := by
      have hgrid : (2 : ℚ) ^ (-1074 : ℤ) ≤ 2 ^ (-1022 : ℤ) :=
        zpow_le_zpow_right₀ (by norm_num) (by norm_num)
      have hdouble : (2 : ℚ) ^ (-1021 : ℤ) = 2 ^ (-1022 : ℤ) * 2 :=
        zpow_add_one₀ (by norm_num) (-1022)
      rw [Nat.cast_ofNat] at hnear
      generalize (2 : ℚ) ^ (-1074 : ℤ) = grid at *
      rw [abs_sub_comm v x] at hdist
      have hleft := abs_le.mp hdist
      have hright := abs_le.mp hnear
      linarith [hleft.1, hright.1]
    refine roundDouble_of_roundAt ?_ hlarge
    rw [doublePlace_of_lt hrpos hrlt, ← hround]
    apply roundAt_of_abs_le htwo
    rw [hround, abs_sub_comm r v, abs_sub_comm x v]
    exact hdist

end Base
end Rocprofsys
