import Rocprofsys.Base.Merging
import Rocprofsys.Base.NearestDouble
import Mathlib.Algebra.BigOperators.Ring.Finset
import Mathlib.Algebra.Order.BigOperators.Group.List

namespace Rocprofsys
namespace Base

/-! ## Whole numbers that a binary format holds -/

/-- All bits but the first so many are zero. -/
def HasBits (bits n : ℕ) : Prop := ∃ m k, m < 2 ^ bits ∧ n = m * 2 ^ k

variable {bits n : ℕ}

theorem hasBits_of_lt (h : n < 2 ^ bits) : HasBits bits n := ⟨n, 0, h, by simp⟩

theorem HasBits.roundDigits (h : HasBits bits n) : roundDigits 2 bits n = (n : ℚ) := by
  obtain ⟨m, k, hm, hn⟩ := h
  rcases Nat.eq_zero_or_pos n with rfl | hpos
  · have hzero := roundAt_mul_zpow (by norm_num : 1 < 2) 0 (lastPlace 2 bits ((0 : ℕ) : ℚ))
    rw [Int.cast_zero, zero_mul] at hzero
    rw [Base.roundDigits, Nat.cast_zero]
    exact hzero
  · have hbits : 0 < bits := by
      rcases Nat.eq_zero_or_pos bits with rfl | hbits
      · rw [Nat.lt_one_iff.mp hm, Nat.zero_mul] at hn
        omega
      · exact hbits
    have hdigits : HasDigits 2 bits (n : ℚ) := ⟨m, k, hm, by rw [hn]; push_cast; rfl⟩
    have hnear := abs_sub_roundDigits_le (by norm_num) hdigits (Nat.cast_pos.mpr hpos) hbits
    rw [sub_self, abs_zero] at hnear
    exact (sub_eq_zero.mp (abs_nonpos_iff.mp hnear)).symm

theorem HasBits.nearestDouble (h : HasBits 53 n) (hn : n < 2 ^ 64) :
    nearestDouble n = (n : ℚ) := by
  obtain ⟨m, k, hm, heq⟩ := h
  rcases Nat.eq_zero_or_pos n with rfl | hpos
  · exact nearestDouble_natCast (by norm_num)
  · have hk : k < 64 := by
      apply (Nat.pow_lt_pow_iff_right (by norm_num : 1 < 2)).mp
      apply Nat.lt_of_le_of_lt _ hn
      rw [heq]
      apply Nat.le_mul_of_pos_left
      apply Nat.pos_of_ne_zero
      intro hm0
      rw [hm0, Nat.zero_mul] at heq
      omega
    have hround := @roundDouble_natCast_mul m k hm (by omega)
    rw [← heq] at hround
    rw [nearestDouble_of_nonneg (Nat.cast_nonneg n)]
    exact (roundAt_of_roundDouble hround).1

/-! ## Sums in any order and grouping -/

/-- Every choice of the amounts has a sum with so many bits. -/
def SumsHaveBits (bits : ℕ) (amounts : List ℕ) : Prop :=
  ∀ chosen : List ℕ, chosen.Subperm amounts → HasBits bits chosen.sum

theorem sumsHaveBits_of_sum_lt {amounts : List ℕ} (h : amounts.sum < 2 ^ bits) :
    SumsHaveBits bits amounts := by
  intro chosen hchosen
  obtain ⟨l, hperm, hsub⟩ := hchosen
  apply hasBits_of_lt
  rw [← hperm.sum_eq]
  exact Nat.lt_of_le_of_lt (hsub.sum_le_sum fun _ _ => Nat.zero_le _) h

theorem SumsHaveBits.of_prefix {amounts done : List ℕ} (h : SumsHaveBits bits amounts)
    (hdone : done <+: amounts) : HasBits bits done.sum := h done hdone.sublist.subperm

theorem sum_filter_ne_zero (amounts : List ℕ) :
    (amounts.filter fun n => n ≠ 0).sum = amounts.sum := by
  induction amounts with
  | nil => rfl
  | cons n amounts ih =>
    by_cases hn : n = 0
    · rw [List.filter_cons_of_neg (by simp [hn]), ih, List.sum_cons, hn, Nat.zero_add]
    · rw [List.filter_cons_of_pos (by simp [hn]), List.sum_cons, List.sum_cons, ih]

/-- Amounts of zero do not matter. -/
theorem SumsHaveBits.of_filter {amounts amounts' : List ℕ} (h : SumsHaveBits bits amounts)
    (hperm : (amounts'.filter fun n => n ≠ 0).Perm (amounts.filter fun n => n ≠ 0)) :
    SumsHaveBits bits amounts' := by
  intro chosen hchosen
  rw [← sum_filter_ne_zero]
  apply h
  have hfilter := (hchosen.filter fun n => n ≠ 0).trans hperm.subperm
  exact hfilter.trans List.filter_sublist.subperm

/-- Rounding after each addition does nothing where every choice of the parts has a sum that is
not rounded. -/
theorem Merging.value_eq_sum {α : Type} [AddCommMonoid α] {round : α → α} (m : Merging α)
    (h : ∀ chosen : List α, chosen.Subperm m.parts → round chosen.sum = chosen.sum) :
    m.value (fun a b => round (a + b)) = m.parts.sum := by
  induction m with
  | part d => exact (List.sum_singleton).symm
  | join l r ihl ihr =>
    have hl := ihl fun chosen hchosen =>
      h chosen (hchosen.trans (List.sublist_append_left l.parts r.parts).subperm)
    have hr := ihr fun chosen hchosen =>
      h chosen (hchosen.trans (List.sublist_append_right l.parts r.parts).subperm)
    show round (l.value _ + r.value _) = (l.parts ++ r.parts).sum
    rw [hl, hr, ← List.sum_append]
    exact h _ (List.Subperm.refl _)

theorem sum_map_natCast (amounts : List ℕ) :
    (amounts.map fun n : ℕ => (n : ℚ)).sum = (amounts.sum : ℚ) := (Nat.cast_list_sum amounts).symm

theorem Merging.value_roundDigits {amounts : List ℕ} {m : Merging ℚ}
    (hparts : m.parts.Perm (amounts.map fun n : ℕ => roundDigits 2 bits n))
    (h : SumsHaveBits bits amounts) :
    m.value (fun a b => roundDigits 2 bits (a + b)) = (amounts.sum : ℚ) := by
  -- no amount is rounded itself
  have hamounts : (amounts.map fun n : ℕ => roundDigits 2 bits n) = amounts.map fun n : ℕ => (n : ℚ) := by
    apply List.map_congr_left
    intro n hn
    have hone := h [n] (List.singleton_sublist.mpr hn).subperm
    rw [List.sum_singleton] at hone
    exact hone.roundDigits
  rw [hamounts] at hparts
  have hsums : ∀ chosen : List ℚ, chosen.Subperm m.parts →
      roundDigits 2 bits chosen.sum = chosen.sum := by
    intro chosen hchosen
    obtain ⟨l, hperm, hsub⟩ := hchosen.trans hparts.subperm
    obtain ⟨numbers, hnumbers, rfl⟩ := List.sublist_map_iff.mp hsub
    rw [← hperm.sum_eq, sum_map_natCast]
    exact (h numbers hnumbers.subperm).roundDigits
  rw [Merging.value_eq_sum m hsums, hparts.sum_eq, sum_map_natCast]

end Base
end Rocprofsys
