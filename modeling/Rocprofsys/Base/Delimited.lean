import Mathlib.Tactic.Ring

namespace Rocprofsys
namespace Base

variable {α : Type} [DecidableEq α]

/-! ## Fields ended by a delimiter

Fields written one after another, each with the delimiter behind it, are cut apart at
the leftmost occurrences of the delimiter. -/

/-- The leftmost position of `delimiter`. -/
def find (delimiter : List α) : List α → Option Nat
  | [] => if delimiter = [] then some 0 else none
  | x :: xs =>
    if delimiter.isPrefixOf (x :: xs) then some 0 else (find delimiter xs).map (· + 1)

theorem find_of_isPrefix {delimiter xs : List α} (h : delimiter.isPrefixOf xs = true) :
    find delimiter xs = some 0 := by
  cases xs with
  | nil =>
    rw [List.isPrefixOf_iff_prefix, List.prefix_nil] at h
    rw [find, if_pos h]
  | cons x xs => rw [find, if_pos h]

/-- An occurrence at `i` fits in front of the end. -/
theorem add_length_le_of_find {delimiter xs : List α} {i : Nat} (h : find delimiter xs = some i) :
    i + delimiter.length ≤ xs.length := by
  induction xs generalizing i with
  | nil =>
    rw [find] at h
    split at h
    · rename_i hnil
      rw [hnil]
      cases h
      exact Nat.le_refl 0
    · cases h
  | cons x xs ih =>
    rw [find] at h
    by_cases hstarts : delimiter.isPrefixOf (x :: xs) = true
    · rw [if_pos hstarts] at h
      cases h
      rw [Nat.zero_add]
      exact (List.isPrefixOf_iff_prefix.mp hstarts).length_le
    · rw [if_neg hstarts] at h
      obtain ⟨j, hj, rfl⟩ := Option.map_eq_some_iff.mp h
      have hle := ih hj
      rw [List.length_cons]
      omega

/-- The delimiter is found no later than behind its own field. -/
theorem exists_find_append (delimiter field : List α) :
    ∃ i, i ≤ field.length ∧ find delimiter (field ++ delimiter) = some i := by
  induction field with
  | nil =>
    refine ⟨0, Nat.le_refl 0, find_of_isPrefix ?_⟩
    exact List.isPrefixOf_iff_prefix.mpr List.prefix_rfl
  | cons x field ih =>
    obtain ⟨i, hi, hfind⟩ := ih
    rw [List.cons_append, find]
    by_cases hstarts : delimiter.isPrefixOf (x :: (field ++ delimiter)) = true
    · exact ⟨0, Nat.zero_le _, if_pos hstarts⟩
    · refine ⟨i + 1, Nat.succ_le_succ hi, ?_⟩
      rw [if_neg hstarts, hfind]
      rfl

/-- What follows an occurrence does not move it. -/
theorem find_append_of_eq {delimiter xs : List α} {i : Nat} (h : find delimiter xs = some i)
    (rest : List α) : find delimiter (xs ++ rest) = some i := by
  induction xs generalizing i with
  | nil =>
    rw [find] at h
    split at h
    · rename_i hnil
      subst hnil
      cases h
      exact find_of_isPrefix rfl
    · cases h
  | cons x xs ih =>
    rw [find] at h
    by_cases hstarts : delimiter.isPrefixOf (x :: xs) = true
    · rw [if_pos hstarts] at h
      cases h
      refine find_of_isPrefix ?_
      rw [List.isPrefixOf_iff_prefix] at hstarts ⊢
      exact hstarts.trans (List.prefix_append _ _)
    · rw [if_neg hstarts] at h
      obtain ⟨j, hj, rfl⟩ := Option.map_eq_some_iff.mp h
      have hfit := add_length_le_of_find hj
      have hlong : ¬delimiter.isPrefixOf (x :: (xs ++ rest)) = true := by
        intro hlong
        rw [List.isPrefixOf_iff_prefix] at hlong hstarts
        refine hstarts (List.prefix_of_prefix_length_le hlong (List.prefix_append (x :: xs) rest) ?_)
        rw [List.length_cons]
        omega
      rw [List.cons_append, find, if_neg hlong, ih hj]
      rfl

/-- A field that the delimiter behind it ends: no occurrence starts inside. -/
def Clean (delimiter field : List α) : Prop :=
  find delimiter (field ++ delimiter) = some field.length

theorem length_drop_lt {delimiter xs : List α} {i : Nat} (hne : delimiter ≠ [])
    (h : find delimiter xs = some i) : (xs.drop (i + delimiter.length)).length < xs.length := by
  have hpos : 0 < delimiter.length := List.length_pos_iff.mpr hne
  have hle := add_length_le_of_find h
  rw [List.length_drop]
  omega

/-- Cut at every occurrence, and drop what follows the last. -/
def splitFields (delimiter : List α) (hne : delimiter ≠ []) (xs : List α) : List (List α) :=
  match _ : find delimiter xs with
  | some i => xs.take i :: splitFields delimiter hne (xs.drop (i + delimiter.length))
  | none => []
termination_by xs.length
decreasing_by exact length_drop_lt hne ‹_›

theorem splitFields_of_find {delimiter xs : List α} (hne : delimiter ≠ []) {i : Nat}
    (h : find delimiter xs = some i) :
    splitFields delimiter hne xs =
      xs.take i :: splitFields delimiter hne (xs.drop (i + delimiter.length)) := by
  rw [splitFields]
  split
  · rename_i j hj
    rw [h] at hj
    cases hj
    rfl
  · rename_i hnone
    rw [h] at hnone
    cases hnone

theorem splitFields_nil {delimiter : List α} (hne : delimiter ≠ []) :
    splitFields delimiter hne [] = [] := by
  rw [splitFields]
  split
  · rename_i i hi
    rw [find, if_neg hne] at hi
    cases hi
  · rfl

/-- A clean field is cut off as it was written. -/
theorem splitFields_clean {delimiter field : List α} (hne : delimiter ≠ [])
    (h : Clean delimiter field) (rest : List α) :
    splitFields delimiter hne (field ++ delimiter ++ rest) =
      field :: splitFields delimiter hne rest := by
  have hlength : field.length + delimiter.length = (field ++ delimiter).length :=
    List.length_append.symm
  rw [splitFields_of_find hne (find_append_of_eq h rest), hlength, List.drop_left,
    List.append_assoc, List.take_left]

/-- Any other field is cut short. -/
theorem splitFields_of_not_clean {delimiter field : List α} (hne : delimiter ≠ [])
    (h : ¬Clean delimiter field) (rest : List α) :
    ∃ short others, short ≠ field ∧
      splitFields delimiter hne (field ++ delimiter ++ rest) = short :: others := by
  obtain ⟨i, hi, hfind⟩ := exists_find_append delimiter field
  have hlt : i < field.length := by
    rcases Nat.lt_or_ge i field.length with hlt | hge
    · exact hlt
    · have heq : i = field.length := Nat.le_antisymm hi hge
      rw [heq] at hfind
      exact absurd hfind h
  refine ⟨_, _, ?_, splitFields_of_find hne (find_append_of_eq hfind rest)⟩
  intro heq
  have hlength := congrArg List.length heq
  rw [List.length_take, List.length_append, List.length_append] at hlength
  omega

/-- For a delimiter of two equal symbols a field must neither hold it nor end with half
of it. -/
theorem clean_pair_iff {c : α} {field : List α} :
    Clean [c, c] field ↔ ¬[c, c] <:+: field ∧ field.getLast? ≠ some c := by
  induction field with
  | nil =>
    have hclean : Clean [c, c] [] := find_of_isPrefix (by simp)
    simp [hclean]
  | cons x field ih =>
    have hstep : Clean [c, c] (x :: field) ↔
        ¬[c, c] <+: x :: (field ++ [c, c]) ∧ Clean [c, c] field := by
      rw [Clean, List.cons_append, find]
      by_cases hstarts : ([c, c].isPrefixOf (x :: (field ++ [c, c]))) = true
      · rw [if_pos hstarts]
        rw [List.isPrefixOf_iff_prefix] at hstarts
        simp [hstarts]
      · rw [if_neg hstarts]
        rw [List.isPrefixOf_iff_prefix] at hstarts
        simp [hstarts, Clean]
    rw [hstep, ih, List.infix_cons_iff]
    cases field with
    | nil =>
      have hsymm : c = x ↔ x = c := eq_comm
      simp [List.cons_prefix_cons, hsymm]
    | cons y field =>
      have hstarts : [c, c] <+: x :: (y :: field ++ [c, c]) ↔ [c, c] <+: x :: y :: field := by
        simp [List.cons_prefix_cons]
      rw [hstarts, List.getLast?_cons_cons]
      tauto

end Base
end Rocprofsys
