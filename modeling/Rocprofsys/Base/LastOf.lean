import Mathlib.Data.List.DropRight
import Mathlib.Data.List.Induction

namespace Rocprofsys
namespace Base

variable {α : Type} [DecidableEq α] {c : α} {l p q : List α} {i : ℕ}

/-- `find_last_of` one character, with `none` for `npos`. -/
def lastOf (c : α) : List α → Option ℕ
  | [] => none
  | a :: l =>
    match lastOf c l with
    | some i => some (i + 1)
    | none => if a = c then some 0 else none

theorem lastOf_eq_none (h : c ∉ l) : lastOf c l = none := by
  induction l with
  | nil => rfl
  | cons a l ih =>
    obtain ⟨ha, hl⟩ := List.ne_and_not_mem_of_not_mem_cons h
    rw [lastOf, ih hl]
    exact if_neg ha.symm

theorem lastOf_append (h : c ∉ q) : lastOf c (p ++ c :: q) = some p.length := by
  induction p with
  | nil =>
    rw [List.nil_append, lastOf, lastOf_eq_none h]
    exact if_pos rfl
  | cons a p ih => rw [List.cons_append, lastOf, ih, List.length_cons]

/-- A list with a `c` in it, split at the last one. -/
theorem exists_split_last (h : c ∈ l) : ∃ p q, l = p ++ c :: q ∧ c ∉ q := by
  induction l with
  | nil => cases h
  | cons a l ih =>
    by_cases hl : c ∈ l
    · obtain ⟨p, q, rfl, hq⟩ := ih hl
      exact ⟨a :: p, q, rfl, hq⟩
    · have ha : c = a := (List.mem_cons.mp h).resolve_right hl
      exact ⟨[], l, by rw [ha]; rfl, hl⟩

/-- What follows the last `c`. -/
theorem rtakeWhile_append_cons (h : c ∉ q) : (p ++ c :: q).rtakeWhile (· ≠ c) = q := by
  induction q using List.reverseRecOn with
  | nil => exact List.rtakeWhile_concat_neg _ _ c (by simp)
  | append_singleton q d ih =>
    rw [List.mem_append, not_or] at h
    have hd : d ≠ c := fun heq => h.2 (heq ▸ List.mem_singleton_self d)
    rw [← List.cons_append, ← List.append_assoc,
      List.rtakeWhile_concat_pos _ _ d (by simpa using hd), ih h.1]

/-- What is left of a list up to the last `c`. -/
theorem rdropWhile_append_cons (h : c ∉ q) : (p ++ c :: q).rdropWhile (· ≠ c) = p ++ [c] := by
  have hsplit : (p ++ c :: q).rdropWhile (· ≠ c) ++ (p ++ c :: q).rtakeWhile (· ≠ c) = p ++ c :: q :=
    List.rdropWhile_append_rtakeWhile
  rw [rtakeWhile_append_cons h] at hsplit
  apply List.append_cancel_right (hsplit.trans _)
  rw [List.append_assoc, List.singleton_append]

end Base
end Rocprofsys
