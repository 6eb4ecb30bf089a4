import Rocprofsys.Base.Tokens

namespace Rocprofsys
namespace Common

open Base

variable {α : Type} {p : α → Bool} {line delimiters : List UInt8} {pos i : Nat}

/-! ## Positions in a text -/

/-- The first position from `pos` on of a symbol that satisfies `p`. -/
def findFirst (p : α → Bool) (line : List α) (pos : Nat) : Option Nat :=
  ((line.drop pos).findIdx? p).map (pos + ·)

/-- `find_first_of`. -/
def findFirstOf (line delimiters : List UInt8) (pos : Nat) : Option Nat :=
  findFirst delimiters.contains line pos

/-- `find_first_not_of`. -/
def findFirstNotOf (line delimiters : List UInt8) (pos : Nat) : Option Nat :=
  findFirst (! delimiters.contains ·) line pos

theorem findFirst_spec {line : List α} (h : findFirst p line pos = some i) :
    pos ≤ i ∧ i < line.length ∧
      (line.drop pos).takeWhile (! p ·) = (line.drop pos).take (i - pos) ∧
      (line.drop pos).dropWhile (! p ·) = line.drop i ∧
      ∃ x rest, line.drop i = x :: rest ∧ p x = true := by
  obtain ⟨k, hk, rfl⟩ := Option.map_eq_some_iff.mp h
  obtain ⟨hlt, hidx⟩ := List.findIdx?_eq_some_iff_findIdx_eq.mp hk
  have hnot : (fun x => ! ! p x) = p := by
    funext x
    exact Bool.not_not (p x)
  have hx := List.findIdx_getElem (w := by rw [hidx]; exact hlt)
  simp only [hidx] at hx
  rw [List.length_drop] at hlt
  refine ⟨Nat.le_add_right pos k, by omega, ?_, ?_, ?_⟩
  · rw [List.takeWhile_eq_take_findIdx_not, hnot, hidx, Nat.add_sub_cancel_left]
  · rw [List.dropWhile_eq_drop_findIdx_not, hnot, hidx, List.drop_drop]
  · rw [← List.drop_drop]
    refine ⟨_, _, List.drop_eq_getElem_cons (by rw [List.length_drop]; omega), hx⟩

theorem findFirst_eq_none_iff {line : List α} :
    findFirst p line pos = none ↔ ∀ x ∈ line.drop pos, p x = false := by
  rw [findFirst, Option.map_eq_none_iff, List.findIdx?_eq_none_iff]

/-- The delimiter found behind the beginning of a token is no part of the token. -/
theorem lt_of_findFirst {beginp delimp : Nat}
    (hbegin : findFirstNotOf line delimiters pos = some beginp)
    (hdelim : findFirstOf line delimiters beginp = some delimp) :
    pos ≤ beginp ∧ beginp < delimp ∧ delimp < line.length := by
  obtain ⟨hle, -, -, -, x, rest, hdrop, hx⟩ := findFirst_spec hbegin
  obtain ⟨hle', hlt', -, -, x', rest', hdrop', hx'⟩ := findFirst_spec hdelim
  have hne : delimp ≠ beginp := by
    intro heq
    rw [heq, hdrop, List.cons.injEq] at hdrop'
    rw [← hdrop'.1] at hx'
    rw [hx'] at hx
    cases hx
  omega

/-! ## Splitting -/

/-- The passes of the loop, from these positions on. -/
def delimitFrom (line delimiters : List UInt8) (beginp delimp : Nat) : List (List UInt8) :=
  if beginp < line.length ∧ delimp < line.length then
    match _hbegin : findFirstNotOf line delimiters delimp with
    | none => []
    | some beginp =>
      match _hdelim : findFirstOf line delimiters beginp with
      | none => [line.drop beginp].filter (! ·.isEmpty)
      | some delimp =>
        [(line.drop beginp).take (delimp - beginp)].filter (! ·.isEmpty) ++
          delimitFrom line delimiters beginp delimp
  else []
termination_by line.length - delimp
decreasing_by
  have hlt := lt_of_findFirst _hbegin _hdelim
  omega

/-- `delimit`. -/
def delimit (line delimiters : List UInt8) : List (List UInt8) := delimitFrom line delimiters 0 0

/-- From the first symbol of a token on. -/
theorem tokens_of_findFirstNotOf (hbegin : findFirstNotOf line delimiters pos = some i) :
    tokens delimiters.contains (line.drop pos) =
      [(line.drop i).takeWhile (! delimiters.contains ·)].filter (! ·.isEmpty) ++
        tokens delimiters.contains ((line.drop i).dropWhile (! delimiters.contains ·)) := by
  obtain ⟨-, -, -, hdropWhile, x, rest, hdrop, hx⟩ := findFirst_spec hbegin
  simp only [Bool.not_not] at hdropWhile
  rw [Bool.not_eq_true'] at hx
  rw [← tokens_dropWhile, hdropWhile, hdrop, tokens_cons hx,
    List.takeWhile_cons_of_pos (by rw [hx]; rfl)]
  rfl

theorem delimitFrom_eq_tokens {beginp delimp : Nat} (hle : beginp ≤ delimp) :
    delimitFrom line delimiters beginp delimp =
      tokens delimiters.contains (line.drop delimp) := by
  induction beginp, delimp using delimitFrom.induct line delimiters with
  | case1 beginp delimp hlt hbegin =>
    have hall := findFirst_eq_none_iff.mp hbegin
    have hdelimiters : ∀ x ∈ line.drop delimp, delimiters.contains x = true := by
      intro x hx
      simpa using hall x hx
    rw [delimitFrom, if_pos hlt, tokens_eq_nil hdelimiters]
    split <;> simp_all
  | case2 beginp delimp hlt beginp' hbegin hdelim =>
    have hall := findFirst_eq_none_iff.mp hdelim
    have htake : (line.drop beginp').takeWhile (! delimiters.contains ·) = line.drop beginp' := by
      rw [List.takeWhile_eq_self_iff]
      intro x hx
      rw [hall x hx]
      rfl
    have hdrop : (line.drop beginp').dropWhile (! delimiters.contains ·) = [] := by
      rw [List.dropWhile_eq_nil_iff]
      intro x hx
      rw [hall x hx]
      rfl
    rw [tokens_of_findFirstNotOf hbegin, htake, hdrop, tokens_nil, List.append_nil, delimitFrom,
      if_pos hlt]
    split
    · simp_all
    · split <;> simp_all
  | case3 beginp delimp hlt beginp' hbegin delimp' hdelim ih =>
    obtain ⟨hle', -, htake, hdrop, -⟩ := findFirst_spec hdelim
    rw [tokens_of_findFirstNotOf hbegin, htake, hdrop, ← ih hle', delimitFrom, if_pos hlt]
    split
    · simp_all
    · split <;> simp_all
  | case4 beginp delimp hge =>
    rw [delimitFrom, if_neg hge, List.drop_eq_nil_of_le (by omega), tokens_nil]

/-- What is split off are the tokens of the line. -/
theorem delimit_eq_tokens (line delimiters : List UInt8) :
    delimit line delimiters = tokens delimiters.contains line :=
  delimitFrom_eq_tokens (Nat.le_refl 0)

theorem delimit_eq : delimit = fun line delimiters => tokens delimiters.contains line := by
  funext line delimiters
  exact delimit_eq_tokens line delimiters

end Common
end Rocprofsys
