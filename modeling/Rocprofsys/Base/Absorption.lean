import Mathlib.Data.List.Basic

namespace Rocprofsys
namespace Base

variable {σ α : Type} {compress : σ → List α → σ} {n : Nat} {s : σ} {l m : List α}

/-! ## Compressing a stream block by block -/

/-- Compresses the blocks of `n` elements from the front on, and keeps what is left over. -/
def absorb (compress : σ → List α → σ) (n : Nat) (s : σ) (l : List α) : σ × List α :=
  if _ : 0 < n ∧ n ≤ l.length then absorb compress n (compress s (l.take n)) (l.drop n) else (s, l)
termination_by l.length
decreasing_by
  rw [List.length_drop]
  omega

theorem absorb_of_lt (h : l.length < n) : absorb compress n s l = (s, l) := by
  rw [absorb]
  exact dif_neg fun hle => absurd hle.2 (Nat.not_le.mpr h)

theorem absorb_of_le (hn : 0 < n) (h : n ≤ l.length) :
    absorb compress n s l = absorb compress n (compress s (l.take n)) (l.drop n) := by
  rw [absorb]
  exact dif_pos ⟨hn, h⟩

theorem absorb_block (hn : 0 < n) (h : l.length = n) : absorb compress n s (l ++ m) =
    absorb compress n (compress s l) m := by
  have hle : n ≤ (l ++ m).length := by
    rw [List.length_append]
    omega
  rw [absorb_of_le hn hle, ← h, List.take_left, List.drop_left]

theorem absorb_snd (hn : 0 < n) :
    (absorb compress n s l).2 = l.drop (l.length - l.length % n) := by
  induction hlength : l.length using Nat.strongRecOn generalizing s l with
  | ind length ih =>
    by_cases hlt : l.length < n
    · rw [absorb_of_lt hlt, ← hlength, Nat.mod_eq_of_lt hlt, Nat.sub_self, List.drop_zero]
    · have hle : n ≤ l.length := Nat.not_lt.mp hlt
      have hdrop : (l.drop n).length = length - n := by
        rw [List.length_drop, hlength]
      have hmod : length % n = (length - n) % n := Nat.mod_eq_sub_mod (hlength ▸ hle)
      have hrest : (length - n) % n ≤ length - n := Nat.mod_le _ _
      rw [absorb_of_le hn hle, ih _ (by omega) hdrop, List.drop_drop, hmod]
      congr 1
      omega

theorem length_absorb (hn : 0 < n) : (absorb compress n s l).2.length = l.length % n := by
  rw [absorb_snd hn, List.length_drop, Nat.sub_sub_self (Nat.mod_le _ _)]

/-- What is left over goes in front of what follows. -/
theorem absorb_append (hn : 0 < n) : absorb compress n s (l ++ m) =
    absorb compress n (absorb compress n s l).1 ((absorb compress n s l).2 ++ m) := by
  induction hlength : l.length using Nat.strongRecOn generalizing s l with
  | ind length ih =>
    by_cases hlt : l.length < n
    · rw [absorb_of_lt hlt]
    · have hle : n ≤ l.length := Nat.not_lt.mp hlt
      have hdrop : (l.drop n).length = length - n := by
        rw [List.length_drop, hlength]
      have htake : (l.take n).length = n := List.length_take_of_le hle
      have hsplit : l ++ m = l.take n ++ (l.drop n ++ m) := by
        rw [← List.append_assoc, List.take_append_drop]
      rw [hsplit, absorb_block hn htake, ih _ (by omega) hdrop, absorb_of_le hn hle]

end Base
end Rocprofsys
