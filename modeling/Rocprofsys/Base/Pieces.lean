import Mathlib.Data.List.Induction
import Rocprofsys.Base.Delimited

namespace Rocprofsys
namespace Base

variable {α : Type} [DecidableEq α] {delimiter xs t : List α} {i : Nat}

theorem find_eq_zero_iff : find delimiter xs = some 0 ↔ delimiter <+: xs := by
  constructor
  · intro h
    cases xs with
    | nil =>
      rw [find] at h
      split at h
      · rename_i hnil
        exact List.prefix_nil.mpr hnil
      · cases h
    | cons x xs =>
      rw [find] at h
      by_cases hstarts : delimiter.isPrefixOf (x :: xs) = true
      · exact List.isPrefixOf_iff_prefix.mp hstarts
      · rw [if_neg hstarts] at h
        obtain ⟨j, -, hj⟩ := Option.map_eq_some_iff.mp h
        cases hj
  · intro h
    exact find_of_isPrefix (List.isPrefixOf_iff_prefix.mpr h)

theorem find_eq_none_iff : find delimiter xs = none ↔ ¬ delimiter <:+: xs := by
  induction xs with
  | nil =>
    rw [find, List.infix_nil]
    split
    · rename_i hnil
      simp [hnil]
    · rename_i hne
      simp [hne]
  | cons x xs ih =>
    rw [find, List.infix_cons_iff, ← List.isPrefixOf_iff_prefix]
    by_cases hstarts : delimiter.isPrefixOf (x :: xs) = true
    · simp [hstarts]
    · rw [if_neg hstarts, Option.map_eq_none_iff, ih]
      simp [hstarts]

/-! ## Pieces between delimiters

The text is cut at the leftmost occurrences, and the rest is the last piece.
An empty delimiter cuts nothing. -/

def pieces (delimiter xs : List α) : List (List α) :=
  if _ : delimiter = [] then [xs]
  else
    match _ : find delimiter xs with
    | some i => xs.take i :: pieces delimiter (xs.drop (i + delimiter.length))
    | none => [xs]
termination_by xs.length
decreasing_by exact length_drop_lt ‹_› ‹_›

theorem pieces_of_eq_nil (h : delimiter = []) : pieces delimiter xs = [xs] := by
  rw [pieces, dif_pos h]

theorem pieces_of_find (hne : delimiter ≠ []) (h : find delimiter xs = some i) :
    pieces delimiter xs = xs.take i :: pieces delimiter (xs.drop (i + delimiter.length)) := by
  rw [pieces, dif_neg hne]
  split
  · rename_i j hj
    rw [h] at hj
    cases hj
    rfl
  · rename_i hnone
    rw [h] at hnone
    cases hnone

theorem pieces_of_not_find (h : find delimiter xs = none) : pieces delimiter xs = [xs] := by
  rw [pieces]
  split
  · rfl
  · split
    · rename_i j hj
      rw [h] at hj
      cases hj
    · rfl

theorem pieces_ne_nil (delimiter xs : List α) : pieces delimiter xs ≠ [] := by
  rw [pieces]
  split
  · exact List.cons_ne_nil _ _
  · split
    · exact List.cons_ne_nil _ _
    · exact List.cons_ne_nil _ _

def lastPiece (delimiter xs : List α) : List α :=
  (pieces delimiter xs).getLast (pieces_ne_nil delimiter xs)

theorem lastPiece_of_find (hne : delimiter ≠ []) (h : find delimiter xs = some i) :
    lastPiece delimiter xs = lastPiece delimiter (xs.drop (i + delimiter.length)) := by
  simp only [lastPiece, pieces_of_find hne h, List.getLast_cons (pieces_ne_nil _ _)]

theorem lastPiece_of_not_find (h : find delimiter xs = none) : lastPiece delimiter xs = xs := by
  simp only [lastPiece, pieces_of_not_find h, List.getLast_singleton]

/-- No occurrence is left in the last piece. -/
theorem find_lastPiece (hne : delimiter ≠ []) (xs : List α) :
    find delimiter (lastPiece delimiter xs) = none := by
  induction xs using pieces.induct delimiter with
  | case1 xs hnil => exact absurd hnil hne
  | case2 xs _ i hfind ih =>
    rw [lastPiece_of_find hne hfind]
    exact ih
  | case3 xs _ hfind =>
    rw [lastPiece_of_not_find hfind]
    exact hfind

theorem pieces_eq_singleton_iff :
    pieces delimiter xs = [xs] ↔ delimiter = [] ∨ ¬ delimiter <:+: xs := by
  rw [← find_eq_none_iff]
  by_cases hne : delimiter = []
  · simp [hne, pieces_of_eq_nil]
  · cases h : find delimiter xs with
    | none => simp [pieces_of_not_find h]
    | some i =>
      rw [pieces_of_find hne h]
      simp [hne, pieces_ne_nil]

/-- A piece is a stretch of the text. -/
theorem infix_of_mem_pieces (h : t ∈ pieces delimiter xs) : t <:+: xs := by
  induction xs using pieces.induct delimiter with
  | case1 xs hnil =>
    rw [pieces_of_eq_nil hnil, List.mem_singleton] at h
    exact h ▸ List.infix_rfl
  | case2 xs hne i hfind ih =>
    rw [pieces_of_find hne hfind] at h
    rcases List.mem_cons.mp h with rfl | htail
    · exact (List.take_prefix i xs).isInfix
    · exact (ih htail).trans (List.drop_suffix _ xs).isInfix
  | case3 xs hne hfind =>
    rw [pieces_of_not_find hfind, List.mem_singleton] at h
    exact h ▸ List.infix_rfl

theorem length_pieces_of_eq_nil (h : delimiter = []) : (pieces delimiter xs).length = 1 := by
  rw [pieces_of_eq_nil h]
  rfl

/-- A field put in front with a delimiter is the first piece exactly if it is clean. -/
theorem pieces_prepend_iff (hne : delimiter ≠ []) (field xs : List α) :
    pieces delimiter (field ++ delimiter ++ xs) = field :: pieces delimiter xs ↔
      Clean delimiter field := by
  obtain ⟨i, hi, hfind⟩ := exists_find_append delimiter field
  have hpieces := pieces_of_find hne (find_append_of_eq hfind xs)
  have hlength : field.length + delimiter.length = (field ++ delimiter).length :=
    List.length_append.symm
  rw [hpieces, Clean, hfind]
  constructor
  · intro h
    have htake := congrArg List.length (List.cons.inj h).1
    rw [List.length_take, List.length_append, List.length_append] at htake
    congr 1
    omega
  · intro h
    cases h
    rw [hlength, List.drop_left, List.append_assoc, List.take_left]

/-- A field put behind with a delimiter is the last piece exactly if the delimiter is found
neither earlier nor inside it. -/
theorem pieces_append_iff (hne : delimiter ≠ []) (xs field : List α) :
    pieces delimiter (xs ++ delimiter ++ field) = pieces delimiter xs ++ [field] ↔
      Clean delimiter (lastPiece delimiter xs) ∧ ¬ delimiter <:+: field := by
  induction xs using pieces.induct delimiter with
  | case1 xs hnil => exact absurd hnil hne
  | case2 xs _ i hfind ih =>
    have hpieces := pieces_of_find hne hfind
    have hlong : find delimiter (xs ++ delimiter ++ field) = some i := by
      rw [List.append_assoc]
      exact find_append_of_eq hfind _
    have hfit := add_length_le_of_find hfind
    rw [lastPiece_of_find hne hfind, ← ih, hpieces, pieces_of_find hne hlong, List.append_assoc,
      List.take_append_of_le_length (by omega), List.drop_append_of_le_length hfit,
      List.cons_append, List.cons_inj_right, List.append_assoc]
  | case3 xs _ hfind =>
    -- the text is its own last piece, so the field goes behind one field
    have hpieces := pieces_of_not_find hfind
    rw [lastPiece_of_not_find hfind, hpieces, ← pieces_prepend_iff hne xs field,
      List.singleton_append]
    constructor
    · intro h
      obtain ⟨j, hj, hfindj⟩ := exists_find_append delimiter xs
      have hcut := pieces_of_find hne (find_append_of_eq hfindj field)
      rw [hcut] at h
      have hfirst := (List.cons.inj h).1
      have htake := congrArg List.length hfirst
      rw [List.length_take, List.length_append, List.length_append] at htake
      have hclean : Clean delimiter xs := by
        rw [Clean, hfindj]
        congr 1
        omega
      have hrest := (pieces_prepend_iff hne xs field).mpr hclean
      rw [hcut, h] at hrest
      refine ⟨by rw [hcut, h, ← (List.cons.inj hrest).2], ?_⟩
      have hsingle := pieces_eq_singleton_iff.mp (List.cons.inj hrest).2.symm
      exact hsingle.resolve_left hne
    · intro h
      rw [h.1, pieces_eq_singleton_iff.mpr (Or.inr h.2)]

/-- A field is clean for a delimiter of one symbol exactly if it does not hold it. -/
theorem clean_singleton_iff {c : α} {field : List α} : Clean [c] field ↔ c ∉ field := by
  induction field with
  | nil =>
    have hclean : Clean [c] [] := find_of_isPrefix (by simp)
    simp [hclean]
  | cons x field ih =>
    rw [Clean, List.cons_append, find, List.mem_cons, not_or, ← ih, Clean]
    by_cases hx : c = x
    · simp [hx]
    · simp [hx, List.isPrefixOf]

omit [DecidableEq α] in
/-- An occurrence that ends with an element of the front lies in the front. -/
theorem not_infix_append {front back : List α} {c : α} (hc : c ∉ back)
    (h : ¬ t ++ [c] <:+: front) : ¬ t ++ [c] <:+: front ++ back := by
  induction back using List.reverseRecOn with
  | nil => rwa [List.append_nil]
  | append_singleton back b ih =>
    obtain ⟨hback, hb⟩ := not_or.mp (mt List.mem_append.mpr hc)
    rw [← List.append_assoc, List.infix_concat_iff]
    intro hoccurs
    rcases hoccurs with hsuffix | hinfix
    · obtain hnil | ⟨_, heq, -⟩ := List.suffix_concat_iff.mp hsuffix
      · exact List.append_ne_nil_of_right_ne_nil _ (List.cons_ne_nil c []) hnil
      · exact hb ((List.append_inj' heq rfl).2 ▸ List.mem_singleton_self c)
    · exact ih hback hinfix

/-- A delimiter whose first element does not come again does not start inside a field without
it. -/
theorem clean_of_not_infix {c : α} {cs field : List α} (hc : c ∉ cs)
    (h : ¬ c :: cs <:+: field) : Clean (c :: cs) field := by
  induction field with
  | nil => exact find_eq_zero_iff.mpr List.prefix_rfl
  | cons x field ih =>
    have hprefix : ¬ c :: cs <+: (x :: field) ++ c :: cs := by
      intro hprefix
      rcases List.prefix_or_prefix_of_prefix hprefix (List.prefix_append (x :: field) _) with
        hfront | hback
      · exact h hfront.isInfix
      · obtain ⟨rest, hrest⟩ := hback
        rw [← hrest, List.prefix_append_right_inj] at hprefix
        cases rest with
        | nil =>
          rw [List.append_nil] at hrest
          exact h (hrest ▸ List.infix_rfl)
        | cons d rest =>
          rw [hrest] at hprefix
          have hd : d = c := (List.cons_prefix_cons.mp hprefix).1
          have htail : field ++ d :: rest = cs := (List.cons.inj hrest).2
          exact hc (htail ▸ hd ▸ List.mem_append_right field List.mem_cons_self)
    have hnext := ih fun hinfix => h (List.infix_cons hinfix)
    unfold Clean at hnext ⊢
    rw [List.cons_append, find, ← List.cons_append,
      if_neg (mt List.isPrefixOf_iff_prefix.mp hprefix), hnext]
    rfl

end Base
end Rocprofsys
