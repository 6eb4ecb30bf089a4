import Rocprofsys.Base.Double

namespace Rocprofsys
namespace Base

/-! ## Conversion to double

Within the range of a double, a conversion of an integer and a quotient of two doubles
both give the nearest one. -/

/-- The double nearest to a number of either sign. -/
def nearestDouble (q : ℚ) : ℚ :=
  if q < 0 then -roundAt 2 (doublePlace (-q)) (-q) else roundAt 2 (doublePlace q) q

theorem nearestDouble_of_nonneg {q : ℚ} (h : 0 ≤ q) :
    nearestDouble q = roundAt 2 (doublePlace q) q := if_neg (not_lt.mpr h)

theorem roundAt_nonneg {q : ℚ} (h : 0 ≤ q) (e : ℤ) : 0 ≤ roundAt 2 e q := by
  have hpos := zpow_base_pos (by norm_num : 1 < 2) e
  have hquot : 0 ≤ q / ((2 : ℕ) : ℚ) ^ e := div_nonneg h hpos.le
  have hround := abs_le.mp (abs_sub_roundHalfEven_le (q / ((2 : ℕ) : ℚ) ^ e))
  have hlt : ((-1 : ℤ) : ℚ) < (roundHalfEven (q / ((2 : ℕ) : ℚ) ^ e) : ℚ) := by
    push_cast
    linarith [hround.2]
  have hint : (0 : ℤ) ≤ roundHalfEven (q / ((2 : ℕ) : ℚ) ^ e) := by
    have hcast := Int.cast_lt.mp hlt
    omega
  exact mul_nonneg (by exact_mod_cast hint) hpos.le

theorem nearestDouble_nonneg {q : ℚ} (h : 0 ≤ q) : 0 ≤ nearestDouble q := by
  rw [nearestDouble_of_nonneg h]
  exact roundAt_nonneg h _

theorem nearestDouble_neg (q : ℚ) : nearestDouble (-q) = -nearestDouble q := by
  have hzero : roundAt 2 (doublePlace 0) 0 = 0 := (roundAt_of_roundDouble roundDouble_zero).1
  rcases lt_trichotomy q 0 with hneg | rfl | hpos
  · rw [nearestDouble_of_nonneg (by linarith), nearestDouble, if_pos hneg, neg_neg]
  · rw [neg_zero, nearestDouble_of_nonneg le_rfl, hzero, neg_zero]
  · rw [nearestDouble, if_pos (by linarith), neg_neg, nearestDouble_of_nonneg hpos.le]

theorem nearestDouble_natCast {n : ℕ} (h : n < 2 ^ 53) : nearestDouble n = n := by
  rw [nearestDouble_of_nonneg (Nat.cast_nonneg n)]
  exact (roundAt_of_roundDouble (roundDouble_natCast h)).1

theorem nearestDouble_intCast {n : ℤ} (h : n.natAbs < 2 ^ 53) : nearestDouble n = n := by
  have hnat := nearestDouble_natCast h
  rcases Int.natAbs_eq n with hn | hn
  · rw [hn, Int.cast_natCast]
    exact hnat
  · rw [hn, Int.cast_neg, Int.cast_natCast, nearestDouble_neg, hnat]

theorem nearestDouble_zero : nearestDouble 0 = 0 := by
  have h := @nearestDouble_natCast 0 (by norm_num)
  rwa [Nat.cast_zero] at h

/-- The relative error where doubles have all their 53 bits. -/
theorem abs_sub_nearestDouble_le {q : ℚ} (h : 2 ^ (-1022 : ℤ) ≤ q) :
    |q - nearestDouble q| ≤ q / 2 ^ 53 := by
  have htwo : 1 < 2 := by norm_num
  have hpos : 0 < q := lt_of_lt_of_le (zpow_pos (by norm_num) _) h
  have hlog : -1022 ≤ Int.log 2 q := (Int.zpow_le_iff_le_log htwo hpos).mp h
  have hplace : doublePlace q = lastPlace 2 53 q := by
    rw [doublePlace, lastPlace]
    omega
  have hnear := abs_sub_roundAt_le htwo (lastPlace 2 53 q) q
  have hfirst := @zpow_lastPlace_le 2 53 htwo q hpos (by norm_num)
  rw [nearestDouble_of_nonneg hpos.le, hplace]
  generalize ((2 : ℕ) : ℚ) ^ lastPlace 2 53 q = place at *
  push_cast at hfirst
  linarith

/-- An upper bound that also holds below the doubles of full precision. -/
theorem nearestDouble_le {q : ℚ} (h : 0 ≤ q) :
    nearestDouble q ≤ q + q / 2 ^ 53 + 2 ^ (-1075 : ℤ) := by
  have hunit : (0 : ℚ) ≤ 2 ^ (-1075 : ℤ) := zpow_nonneg (by norm_num) _
  have hfrac : 0 ≤ q / 2 ^ 53 := div_nonneg h (by norm_num)
  by_cases hsmall : 2 ^ (-1022 : ℤ) ≤ q
  · have hnear := abs_le.mp (abs_sub_nearestDouble_le hsmall)
    linarith [hnear.1]
  · rcases h.eq_or_lt with rfl | hpos
    · rw [nearestDouble_zero]
      linarith
    · have hlt : q < 2 ^ (-1021 : ℤ) :=
        (not_le.mp hsmall).trans_le (zpow_le_zpow_right₀ (by norm_num) (by norm_num))
      have hnear := abs_le.mp (abs_sub_roundAt_le (by norm_num : 1 < 2) (-1074) q)
      have hhalf : ((2 : ℕ) : ℚ) ^ (-1074 : ℤ) / 2 = 2 ^ (-1075 : ℤ) := by
        rw [Nat.cast_ofNat, div_eq_iff (by norm_num), ← zpow_add_one₀ (by norm_num)]
        norm_num
      rw [nearestDouble_of_nonneg h, doublePlace_of_lt hpos hlt]
      linarith [hnear.1]

/-- Where a number is large enough, its unit of rounding covers the smallest one too. -/
theorem le_nearestDouble {q : ℚ} (h : 2 ^ (-1000 : ℤ) ≤ q) :
    0 < q ∧ (2 : ℚ) ^ (-1075 : ℤ) ≤ q / 2 ^ 53 ∧ q - q / 2 ^ 53 ≤ nearestDouble q := by
  have hlarge : 2 ^ (-1022 : ℤ) ≤ q :=
    (zpow_le_zpow_right₀ (by norm_num) (by norm_num)).trans h
  have hnear := abs_le.mp (abs_sub_nearestDouble_le hlarge)
  refine ⟨lt_of_lt_of_le (zpow_pos (by norm_num) _) h, ?_, by linarith [hnear.2]⟩
  rw [le_div_iff₀ (by norm_num)]
  calc (2 : ℚ) ^ (-1075 : ℤ) * 2 ^ 53 = 2 ^ (-1022 : ℤ) := by
        rw [← zpow_natCast, ← zpow_add₀ (by norm_num)]
        norm_num
    _ ≤ q := hlarge

/-- Rounding keeps a number at most half of another well below it. -/
theorem nearestDouble_le_of_le_half {p q : ℚ} (hp : 0 ≤ p) (hq : 2 ^ (-1000 : ℤ) ≤ q)
    (h : p ≤ q / 2) : nearestDouble p ≤ 3 / 4 * nearestDouble q := by
  obtain ⟨hpos, hunit, hlow⟩ := le_nearestDouble hq
  have hle := nearestDouble_le hp
  generalize (2 : ℚ) ^ (-1075 : ℤ) = unit at *
  linarith

/-- Rounding keeps a number well below another below it. -/
theorem nearestDouble_lt_of_le {p q : ℚ} (hp : 0 ≤ p) (hq : 2 ^ (-1000 : ℤ) ≤ q)
    (h : p ≤ 3 / 4 * q) : nearestDouble p < nearestDouble q := by
  obtain ⟨hpos, hunit, hlow⟩ := le_nearestDouble hq
  have hle := nearestDouble_le hp
  generalize (2 : ℚ) ^ (-1075 : ℤ) = unit at *
  linarith

/-- Rounding gives at most `2 ^ 53` units of the last place. -/
theorem exists_roundAt_eq {q : ℚ} (h : 0 ≤ q) :
    ∃ n : ℕ, n ≤ 2 ^ 53 ∧ roundAt 2 (doublePlace q) q = n * 2 ^ doublePlace q := by
  have htwo : 1 < 2 := by norm_num
  have hpos := zpow_base_pos htwo (doublePlace q)
  have hlt : q / ((2 : ℕ) : ℚ) ^ doublePlace q < 2 ^ 53 := by
    rw [div_lt_iff₀ hpos]
    calc q < ((2 : ℕ) : ℚ) ^ 53 * ((2 : ℕ) : ℚ) ^ lastPlace 2 53 q := lt_zpow_lastPlace htwo q
      _ ≤ ((2 : ℕ) : ℚ) ^ 53 * ((2 : ℕ) : ℚ) ^ doublePlace q :=
        mul_le_mul_of_nonneg_left (zpow_base_mono htwo (le_max_left _ _)) (by norm_num)
      _ = 2 ^ 53 * ((2 : ℕ) : ℚ) ^ doublePlace q := by norm_num
  have hround := abs_le.mp (abs_sub_roundHalfEven_le (q / ((2 : ℕ) : ℚ) ^ doublePlace q))
  have hnonneg := roundAt_nonneg h (doublePlace q)
  rw [roundAt] at hnonneg
  have hint : 0 ≤ roundHalfEven (q / ((2 : ℕ) : ℚ) ^ doublePlace q) := by
    exact_mod_cast nonneg_of_mul_nonneg_left hnonneg hpos
  obtain ⟨n, hn⟩ := Int.eq_ofNat_of_zero_le hint
  refine ⟨n, ?_, by rw [roundAt, hn]; norm_num⟩
  rw [hn, Int.cast_natCast] at hround
  have hcast : ((n : ℤ) : ℚ) < ((2 ^ 53 + 1 : ℤ) : ℚ) := by
    push_cast
    linarith [hround.1]
  have hle := Int.cast_lt.mp hcast
  omega

theorem nearestDouble_nearestDouble_of_nonneg {q : ℚ} (h : 0 ≤ q) :
    nearestDouble (nearestDouble q) = nearestDouble q := by
  have hplace : -1074 ≤ doublePlace q := le_max_right _ _
  obtain ⟨n, hle, hn⟩ := exists_roundAt_eq h
  rw [nearestDouble_of_nonneg h, nearestDouble_of_nonneg (roundAt_nonneg h _), hn]
  rcases Nat.lt_or_eq_of_le hle with hlt | rfl
  · exact roundAt_of_hasDigits hlt hplace
  · -- the next power of two has one bit
    have hone := @roundAt_of_hasDigits 1 (doublePlace q + 53) (by norm_num) (by omega)
    have hpow : ((2 ^ 53 : ℕ) : ℚ) * 2 ^ doublePlace q = (1 : ℕ) * 2 ^ (doublePlace q + 53) := by
      rw [zpow_add₀ (by norm_num)]
      push_cast
      ring
    rw [hpow]
    exact hone

/-- The nearest double to a double is itself. -/
theorem nearestDouble_nearestDouble (q : ℚ) :
    nearestDouble (nearestDouble q) = nearestDouble q := by
  rcases le_total 0 q with hpos | hneg
  · exact nearestDouble_nearestDouble_of_nonneg hpos
  · have h := nearestDouble_nearestDouble_of_nonneg (neg_nonneg.mpr hneg)
    rwa [nearestDouble_neg, nearestDouble_neg, neg_inj] at h

/-! ## Relative errors -/

/-- The error against the sign. -/
theorem abs_nearestDouble_sub_le {q : ℚ} (h : q = 0 ∨ 2 ^ (-1022 : ℤ) ≤ |q|) :
    |nearestDouble q - q| ≤ |q| / 2 ^ 53 := by
  rcases h with rfl | h
  · rw [nearestDouble_zero, sub_self, abs_zero, zero_div]
  · rcases le_total 0 q with hq | hq
    · rw [abs_of_nonneg hq] at h ⊢
      rw [abs_sub_comm]
      exact abs_sub_nearestDouble_le h
    · rw [abs_of_nonpos hq] at h ⊢
      have hneg := abs_sub_nearestDouble_le h
      rwa [nearestDouble_neg, sub_neg_eq_add, neg_add_eq_sub] at hneg

/-- A number is rounded by a factor near one. -/
theorem exists_nearestDouble_eq {q : ℚ} (h : q = 0 ∨ 2 ^ (-1022 : ℤ) ≤ |q|) :
    ∃ δ : ℚ, |δ| ≤ 1 / 2 ^ 53 ∧ nearestDouble q = q * (1 + δ) := by
  by_cases hq : q = 0
  · refine ⟨0, by norm_num, ?_⟩
    rw [hq, nearestDouble_zero, zero_mul]
  · refine ⟨(nearestDouble q - q) / q, ?_, ?_⟩
    · have hpos : 0 < |q| := abs_pos.mpr hq
      rw [abs_div, div_le_iff₀ hpos, one_div_mul_eq_div]
      exact abs_nearestDouble_sub_le h
    · rw [mul_add, mul_one, mul_div_cancel₀ _ hq]
      ring

/-- The joint factor of three roundings, one of them below a fraction line. -/
theorem abs_factors_sub_one_le {δ₁ δ₂ δ₃ : ℚ} (h₁ : |δ₁| ≤ 1 / 2 ^ 53) (h₂ : |δ₂| ≤ 1 / 2 ^ 53)
    (h₃ : |δ₃| ≤ 1 / 2 ^ 53) : |(1 + δ₁) / (1 + δ₂) * (1 + δ₃) - 1| ≤ 4 / 2 ^ 53 := by
  have hprod : |δ₁ * δ₃| ≤ 1 / 2 ^ 53 * (1 / 2 ^ 53) := by
    rw [abs_mul]
    exact mul_le_mul h₁ h₃ (abs_nonneg _) (by norm_num)
  rw [abs_le] at h₁ h₂ h₃ hprod
  have hpos : 0 < 1 + δ₂ := by linarith
  have hsplit : (1 + δ₁) / (1 + δ₂) * (1 + δ₃) - 1 = (δ₁ + δ₃ + δ₁ * δ₃ - δ₂) / (1 + δ₂) := by
    field_simp
    ring
  rw [hsplit, abs_div, abs_of_pos hpos, div_le_iff₀ hpos, abs_le]
  constructor <;> linarith

/-- A quotient that is not zero has doubles of full precision near it. -/
theorem quotient_zero_or_large {p q δ₁ δ₂ : ℚ} (hp : p = 0 ∨ 1 ≤ |p|) (hq : 1 ≤ q)
    (hlarge : q < 2 ^ 64) (h₁ : |δ₁| ≤ 1 / 2 ^ 53) (h₂ : |δ₂| ≤ 1 / 2 ^ 53) :
    p / q * ((1 + δ₁) / (1 + δ₂)) = 0 ∨
      2 ^ (-1022 : ℤ) ≤ |p / q * ((1 + δ₁) / (1 + δ₂))| := by
  rw [abs_le] at h₁ h₂
  rcases hp with rfl | hp
  · left
    rw [zero_div, zero_mul]
  · right
    have hfactor : (1 : ℚ) / 4 ≤ (1 + δ₁) / (1 + δ₂) := by
      rw [le_div_iff₀ (by linarith)]
      linarith
    have hmain : (1 : ℚ) / 2 ^ 64 ≤ |p / q| := by
      rw [abs_div, abs_of_pos (by linarith : 0 < q), div_le_div_iff₀ (by norm_num) (by linarith)]
      linarith
    rw [abs_mul, abs_of_nonneg (by linarith : 0 ≤ (1 + δ₁) / (1 + δ₂))]
    calc (2 : ℚ) ^ (-1022 : ℤ) ≤ 2 ^ (-66 : ℤ) :=
          zpow_le_zpow_right₀ (by norm_num) (by norm_num)
      _ = 1 / 2 ^ 64 * (1 / 4) := by norm_num
      _ ≤ |p / q| * ((1 + δ₁) / (1 + δ₂)) :=
          mul_le_mul hmain hfactor (by norm_num) (abs_nonneg _)

/-- Three roundings: both numbers and their quotient. -/
theorem abs_nearestDouble_div_sub_le {p q : ℚ} (hp : p = 0 ∨ 1 ≤ |p|) (hq : 1 ≤ q)
    (hlarge : q < 2 ^ 64) :
    |nearestDouble (nearestDouble p / nearestDouble q) - p / q| ≤ |p / q| * (4 / 2 ^ 53) := by
  have hone : (2 : ℚ) ^ (-1022 : ℤ) ≤ 1 :=
    zpow_le_one_of_nonpos₀ (by norm_num) (by norm_num)
  have hqAbs : (2 : ℚ) ^ (-1022 : ℤ) ≤ |q| := (hone.trans hq).trans (le_abs_self q)
  obtain ⟨δ₁, hδ₁, hnear₁⟩ := exists_nearestDouble_eq (hp.imp_right hone.trans)
  obtain ⟨δ₂, hδ₂, hnear₂⟩ := exists_nearestDouble_eq (Or.inr hqAbs)
  obtain ⟨δ₃, hδ₃, hnear₃⟩ :=
    exists_nearestDouble_eq (quotient_zero_or_large hp hq hlarge hδ₁ hδ₂)
  rw [hnear₁, hnear₂, mul_div_mul_comm, hnear₃]
  calc |p / q * ((1 + δ₁) / (1 + δ₂)) * (1 + δ₃) - p / q|
      = |p / q * ((1 + δ₁) / (1 + δ₂) * (1 + δ₃) - 1)| := by ring_nf
    _ = |p / q| * |(1 + δ₁) / (1 + δ₂) * (1 + δ₃) - 1| := abs_mul _ _
    _ ≤ |p / q| * (4 / 2 ^ 53) :=
        mul_le_mul_of_nonneg_left (abs_factors_sub_one_le hδ₁ hδ₂ hδ₃) (abs_nonneg _)

end Base
end Rocprofsys
