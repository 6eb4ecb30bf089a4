import Mathlib.Data.Int.Log
import Mathlib.Data.Rat.Floor
import Mathlib.Tactic.FieldSimp
import Mathlib.Tactic.Linarith
import Mathlib.Tactic.NormNum
import Mathlib.Tactic.Ring

namespace Rocprofsys
namespace Base

/-! ## Rounding to a grid -/

/-- The nearest integer, and the even one of two. -/
def roundHalfEven (q : ℚ) : ℤ :=
  let down := ⌊q⌋
  if q - down < 1 / 2 then down
  else if 1 / 2 < q - down then down + 1
  else if down % 2 = 0 then down else down + 1

theorem abs_sub_roundHalfEven_le (q : ℚ) : |q - roundHalfEven q| ≤ 1 / 2 := by
  have hlow := Int.floor_le q
  have hhigh := Int.lt_floor_add_one q
  unfold roundHalfEven
  simp only []
  split_ifs <;> push_cast <;> rw [abs_le] <;> constructor <;> linarith

/-- Half way between two integers, the even one is taken. -/
theorem even_roundHalfEven {q : ℚ} (h : |q - roundHalfEven q| = 1 / 2) :
    roundHalfEven q % 2 = 0 := by
  have hlow := Int.floor_le q
  have hhigh := Int.lt_floor_add_one q
  by_cases hless : q - ⌊q⌋ < 1 / 2
  · have hround : roundHalfEven q = ⌊q⌋ := if_pos hless
    rw [hround, abs_of_nonneg (by linarith)] at h
    linarith
  · by_cases hmore : 1 / 2 < q - ⌊q⌋
    · have hround : roundHalfEven q = ⌊q⌋ + 1 := by
        show (if q - ⌊q⌋ < 1 / 2 then _ else _) = _
        rw [if_neg hless, if_pos hmore]
      rw [hround, Int.cast_add, Int.cast_one, abs_of_nonpos (by linarith)] at h
      linarith
    · have hround : roundHalfEven q = if ⌊q⌋ % 2 = 0 then ⌊q⌋ else ⌊q⌋ + 1 := by
        show (if q - ⌊q⌋ < 1 / 2 then _ else _) = _
        rw [if_neg hless, if_neg hmore]
      rw [hround]
      split_ifs with heven
      · exact heven
      · omega

/-- Two integers closer than the spacing are one. -/
theorem eq_of_abs_sub_lt {m n : ℤ} {q : ℚ} (h : |q - m| + |q - n| < 1) : m = n := by
  have hcast : |((m - n : ℤ) : ℚ)| < 1 := by
    have htriangle := abs_sub_le (m : ℚ) q n
    rw [abs_sub_comm (m : ℚ) q] at htriangle
    push_cast
    linarith
  have hint : |m - n| < 1 := by exact_mod_cast hcast
  have hzero := Int.abs_lt_one_iff.mp hint
  omega

theorem roundHalfEven_of_abs_lt {q : ℚ} {n : ℤ} (h : |q - n| < 1 / 2) : roundHalfEven q = n := by
  have hround := abs_sub_roundHalfEven_le q
  exact eq_of_abs_sub_lt (by linarith)

theorem roundHalfEven_intCast (n : ℤ) : roundHalfEven n = n := by
  apply roundHalfEven_of_abs_lt
  rw [sub_self, abs_zero]
  norm_num

/-- No integer is closer. -/
theorem abs_sub_roundHalfEven_le_abs_sub (q : ℚ) (n : ℤ) : |q - roundHalfEven q| ≤ |q - n| := by
  by_contra hlt
  have hround := abs_sub_roundHalfEven_le q
  have heq : roundHalfEven q = n := eq_of_abs_sub_lt (by linarith)
  rw [heq] at hlt
  exact hlt le_rfl

/-- What lies no further from the result rounds to it too. -/
theorem roundHalfEven_of_abs_le {q r : ℚ} (h : |r - roundHalfEven q| ≤ |q - roundHalfEven q|) :
    roundHalfEven r = roundHalfEven q := by
  have hq := abs_sub_roundHalfEven_le q
  rcases lt_or_eq_of_le (h.trans hq) with hlt | heq
  · exact roundHalfEven_of_abs_lt hlt
  · -- a tie, broken the same way
    have hqeven := even_roundHalfEven (le_antisymm hq (heq ▸ h))
    by_contra hne
    have hr := abs_sub_roundHalfEven_le r
    have hrtie : |r - roundHalfEven r| = 1 / 2 := by
      rcases lt_or_eq_of_le hr with hlt | hrtie
      · exact absurd (eq_of_abs_sub_lt (by linarith)) hne
      · exact hrtie
    have hreven := even_roundHalfEven hrtie
    have hdist : |((roundHalfEven r - roundHalfEven q : ℤ) : ℚ)| ≤ 1 := by
      have htriangle := abs_sub_le (roundHalfEven r : ℚ) r (roundHalfEven q)
      rw [abs_sub_comm (roundHalfEven r : ℚ) r] at htriangle
      push_cast
      linarith
    have hint : |roundHalfEven r - roundHalfEven q| ≤ 1 := by exact_mod_cast hdist
    rw [abs_le] at hint
    omega

/-- The nearest multiple of `base ^ e`. -/
def roundAt (base : ℕ) (e : ℤ) (q : ℚ) : ℚ := roundHalfEven (q / (base : ℚ) ^ e) * (base : ℚ) ^ e

section Grid

variable {base : ℕ} (hbase : 1 < base)
include hbase

theorem zpow_base_pos (e : ℤ) : (0 : ℚ) < (base : ℚ) ^ e :=
  zpow_pos (by exact_mod_cast Nat.lt_of_succ_lt hbase) e

theorem zpow_base_mono {e f : ℤ} (h : e ≤ f) : (base : ℚ) ^ e ≤ (base : ℚ) ^ f :=
  zpow_le_zpow_right₀ (by exact_mod_cast hbase.le) h

theorem roundAt_mul_zpow (n : ℤ) (e : ℤ) :
    roundAt base e (n * (base : ℚ) ^ e) = n * (base : ℚ) ^ e := by
  have hne := (zpow_base_pos hbase e).ne'
  rw [roundAt, mul_div_cancel_right₀ _ hne, roundHalfEven_intCast]

theorem abs_sub_eq_mul (q : ℚ) (n e : ℤ) :
    |q - n * (base : ℚ) ^ e| = |q / (base : ℚ) ^ e - n| * (base : ℚ) ^ e := by
  have hpos := zpow_base_pos hbase e
  rw [← abs_of_pos hpos, ← abs_mul, abs_of_pos hpos, sub_mul, div_mul_cancel₀ _ hpos.ne']

theorem abs_sub_roundAt_le (e : ℤ) (q : ℚ) :
    |q - roundAt base e q| ≤ (base : ℚ) ^ e / 2 := by
  have hround := abs_sub_roundHalfEven_le (q / (base : ℚ) ^ e)
  have hpos := zpow_base_pos hbase e
  rw [roundAt, abs_sub_eq_mul hbase]
  calc _ ≤ 1 / 2 * (base : ℚ) ^ e := mul_le_mul_of_nonneg_right hround hpos.le
    _ = (base : ℚ) ^ e / 2 := by ring

/-- No multiple is closer. -/
theorem abs_sub_roundAt_le_abs_sub (e : ℤ) (q : ℚ) (n : ℤ) :
    |q - roundAt base e q| ≤ |q - n * (base : ℚ) ^ e| := by
  rw [roundAt, abs_sub_eq_mul hbase, abs_sub_eq_mul hbase]
  exact mul_le_mul_of_nonneg_right (abs_sub_roundHalfEven_le_abs_sub _ n)
    (zpow_base_pos hbase e).le

theorem roundAt_of_abs_lt {e : ℤ} {q : ℚ} {n : ℤ}
    (h : |q - n * (base : ℚ) ^ e| < (base : ℚ) ^ e / 2) :
    roundAt base e q = n * (base : ℚ) ^ e := by
  have hpos := zpow_base_pos hbase e
  rw [abs_sub_eq_mul hbase] at h
  have hclose : |q / (base : ℚ) ^ e - n| < 1 / 2 := by
    by_contra hfar
    have hle := mul_le_mul_of_nonneg_right (not_lt.mp hfar) hpos.le
    linarith
  rw [roundAt, roundHalfEven_of_abs_lt hclose]

theorem roundAt_of_abs_le {e : ℤ} {q r : ℚ}
    (h : |r - roundAt base e q| ≤ |q - roundAt base e q|) :
    roundAt base e r = roundAt base e q := by
  have hpos := zpow_base_pos hbase e
  rw [roundAt, abs_sub_eq_mul hbase, abs_sub_eq_mul hbase] at h
  rw [roundAt, roundHalfEven_of_abs_le (le_of_mul_le_mul_right h hpos), roundAt]

end Grid

/-! ## Significant digits -/

/-- The exponent of the last of `digits` significant digits. -/
def lastPlace (base digits : ℕ) (q : ℚ) : ℤ := Int.log base q + 1 - digits

/-- Rounded to `digits` significant digits. -/
def roundDigits (base digits : ℕ) (q : ℚ) : ℚ := roundAt base (lastPlace base digits q) q

/-- A number of at most `digits` significant digits. -/
def HasDigits (base digits : ℕ) (q : ℚ) : Prop :=
  ∃ (m : ℕ) (e : ℤ), m < base ^ digits ∧ q = m * (base : ℚ) ^ e

section Digits

variable {base digits : ℕ} (hbase : 1 < base) {q : ℚ}
include hbase

theorem lt_zpow_lastPlace (q : ℚ) :
    q < (base : ℚ) ^ digits * (base : ℚ) ^ lastPlace base digits q := by
  have hne : (base : ℚ) ≠ 0 := by exact_mod_cast (Nat.lt_of_succ_lt hbase).ne'
  have hlt := Int.lt_zpow_succ_log_self hbase q
  rw [← zpow_natCast, ← zpow_add₀ hne, lastPlace]
  rwa [show (digits : ℤ) + (Int.log base q + 1 - digits) = Int.log base q + 1 by ring]

theorem zpow_lastPlace_le (hq : 0 < q) (hdigits : 0 < digits) :
    (base : ℚ) ^ (digits - 1) * (base : ℚ) ^ lastPlace base digits q ≤ q := by
  have hne : (base : ℚ) ≠ 0 := by exact_mod_cast (Nat.lt_of_succ_lt hbase).ne'
  have hle := Int.zpow_log_le_self hbase hq
  rw [← zpow_natCast, ← zpow_add₀ hne, lastPlace]
  rwa [show ((digits - 1 : ℕ) : ℤ) + (Int.log base q + 1 - digits) = Int.log base q by omega]

/-- The digits in front of the last place, as an integer. -/
theorem le_roundHalfEven_lastPlace (hq : 0 < q) (hdigits : 0 < digits) :
    (base : ℤ) ^ (digits - 1) ≤
      roundHalfEven (q / (base : ℚ) ^ lastPlace base digits q) := by
  have hpos := zpow_base_pos hbase (lastPlace base digits q)
  have hle : (base : ℚ) ^ (digits - 1) ≤ q / (base : ℚ) ^ lastPlace base digits q := by
    rw [le_div_iff₀ hpos]
    exact zpow_lastPlace_le hbase hq hdigits
  have hround := abs_le.mp (abs_sub_roundHalfEven_le (q / (base : ℚ) ^ lastPlace base digits q))
  have hlt : (((base : ℤ) ^ (digits - 1) : ℤ) : ℚ) <
      ((roundHalfEven (q / (base : ℚ) ^ lastPlace base digits q) + 1 : ℤ) : ℚ) := by
    push_cast
    linarith [hround.2]
  have hint := Int.cast_lt.mp hlt
  omega

theorem roundHalfEven_lastPlace_le (q : ℚ) :
    roundHalfEven (q / (base : ℚ) ^ lastPlace base digits q) ≤ (base : ℤ) ^ digits := by
  have hpos := zpow_base_pos hbase (lastPlace base digits q)
  have hlt : q / (base : ℚ) ^ lastPlace base digits q < (base : ℚ) ^ digits := by
    rw [div_lt_iff₀ hpos]
    exact lt_zpow_lastPlace hbase q
  have hround := abs_le.mp (abs_sub_roundHalfEven_le (q / (base : ℚ) ^ lastPlace base digits q))
  have hint : ((roundHalfEven (q / (base : ℚ) ^ lastPlace base digits q) : ℤ) : ℚ) <
      (((base : ℤ) ^ digits + 1 : ℤ) : ℚ) := by
    push_cast
    linarith [hround.1]
  have hlt' := Int.cast_lt.mp hint
  omega

theorem roundDigits_pos (hq : 0 < q) (hdigits : 0 < digits) : 0 < roundDigits base digits q := by
  have hpos := zpow_base_pos hbase (lastPlace base digits q)
  have hle := le_roundHalfEven_lastPlace hbase hq hdigits
  have hbasePos : (0 : ℤ) < (base : ℤ) ^ (digits - 1) :=
    pow_pos (by exact_mod_cast Nat.lt_of_succ_lt hbase) _
  have hcast : (0 : ℚ) < roundHalfEven (q / (base : ℚ) ^ lastPlace base digits q) := by
    exact_mod_cast hbasePos.trans_le hle
  exact mul_pos hcast hpos

/-- A number of so many digits is a multiple of the last place of `q`, or is smaller
than all that begin where `q` does. -/
theorem HasDigits.multiple_or_lt {x : ℚ} (hx : HasDigits base digits x) (hdigits : 0 < digits)
    (q : ℚ) :
    (∃ n : ℕ, x = n * (base : ℚ) ^ lastPlace base digits q) ∨
      ∃ (m : ℕ) (e : ℤ), m < base ^ digits ∧ x = m * (base : ℚ) ^ e ∧
        (base : ℚ) ^ digits * (base : ℚ) ^ e ≤
          (base : ℚ) ^ (digits - 1) * (base : ℚ) ^ lastPlace base digits q := by
  have hne : (base : ℚ) ≠ 0 := by exact_mod_cast (Nat.lt_of_succ_lt hbase).ne'
  obtain ⟨m, e, hm, rfl⟩ := hx
  by_cases he : lastPlace base digits q ≤ e
  · left
    refine ⟨m * base ^ (e - lastPlace base digits q).toNat, ?_⟩
    have hsplit : (base : ℚ) ^ e =
        (base : ℚ) ^ (e - lastPlace base digits q).toNat *
          (base : ℚ) ^ lastPlace base digits q := by
      rw [← zpow_natCast, ← zpow_add₀ hne]
      congr 1
      omega
    push_cast
    rw [hsplit, mul_assoc]
  · right
    refine ⟨m, e, hm, rfl, ?_⟩
    rw [← zpow_natCast, ← zpow_natCast, ← zpow_add₀ hne, ← zpow_add₀ hne]
    apply zpow_base_mono hbase
    omega

/-- No number of so many digits is closer. -/
theorem abs_sub_roundDigits_le {x : ℚ} (hx : HasDigits base digits x) (hq : 0 < q)
    (hdigits : 0 < digits) :
    |q - roundDigits base digits q| ≤ |q - x| := by
  rcases hx.multiple_or_lt hbase hdigits q with ⟨n, rfl⟩ | ⟨m, e, hm, rfl, hle⟩
  · exact abs_sub_roundAt_le_abs_sub hbase _ q n
  · have hnear := abs_sub_roundAt_le_abs_sub hbase (lastPlace base digits q) q
      ((base : ℤ) ^ (digits - 1))
    have hfirst := zpow_lastPlace_le hbase hq hdigits
    have hsmall : (m : ℚ) * (base : ℚ) ^ e ≤ (base : ℚ) ^ digits * (base : ℚ) ^ e :=
      mul_le_mul_of_nonneg_right (by exact_mod_cast hm.le) (zpow_base_pos hbase e).le
    push_cast at hnear
    rw [abs_of_nonneg (sub_nonneg.mpr hfirst)] at hnear
    rw [roundDigits, abs_of_nonneg (a := q - m * (base : ℚ) ^ e) (by linarith)]
    linarith

end Digits

theorem hasDigits_roundDigits {base digits : ℕ} (hbase : 1 < base) (hdigits : 0 < digits) {q : ℚ}
    (hq : 0 < q) : HasDigits base digits (roundDigits base digits q) := by
  have hne : (base : ℚ) ≠ 0 := by exact_mod_cast (Nat.lt_of_succ_lt hbase).ne'
  have hle := @roundHalfEven_lastPlace_le base digits hbase q
  have hpos := le_roundHalfEven_lastPlace hbase hq hdigits
  have hbasePos : (0 : ℤ) < (base : ℤ) ^ (digits - 1) :=
    pow_pos (by exact_mod_cast Nat.lt_of_succ_lt hbase) _
  obtain ⟨n, hn⟩ := Int.eq_ofNat_of_zero_le (hbasePos.le.trans hpos)
  rw [roundDigits, roundAt]
  rw [hn] at hle ⊢
  rcases lt_or_eq_of_le hle with hlt | heq
  · exact ⟨n, lastPlace base digits q, by exact_mod_cast hlt, rfl⟩
  · -- rounded up to one digit more, which is a zero
    refine ⟨base ^ (digits - 1), lastPlace base digits q + 1,
      Nat.pow_lt_pow_right hbase (by omega), ?_⟩
    have hcast : ((n : ℤ) : ℚ) = (base : ℚ) ^ digits := by exact_mod_cast heq
    rw [hcast, zpow_add_one₀ hne]
    push_cast
    rw [← Nat.sub_one_add_one hdigits.ne', pow_succ, Nat.add_sub_cancel]
    ring

end Base
end Rocprofsys
