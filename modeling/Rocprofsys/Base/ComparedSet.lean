import Mathlib.Data.List.Induction

namespace Rocprofsys
namespace Base

variable {α : Type} {lt : α → α → Bool} {valid : α → Prop} {s l : List α} {x y : α}

/-! ## Sets in the order of a comparison -/

/-- A strict total order of the elements that are valid. -/
structure TotalOn (lt : α → α → Bool) (valid : α → Prop) : Prop where
  irrefl : ∀ x, valid x → lt x x = false
  trans : ∀ x y z, valid x → valid y → valid z → lt x y = true → lt y z = true → lt x z = true
  eq_of_not_lt : ∀ x y, valid x → valid y → lt x y = false → lt y x = false → x = y

/-- `std::set::insert`, which leaves out what is equivalent to a member. -/
def insertBy (lt : α → α → Bool) (x : α) : List α → List α
  | [] => [x]
  | a :: s => if lt x a then x :: a :: s else if lt a x then a :: insertBy lt x s else a :: s

/-- `std::set::find`: the first member that is not less, unless it is greater. -/
def findBy (lt : α → α → Bool) (x : α) : List α → Option α
  | [] => none
  | a :: s => if lt a x then findBy lt x s else if lt x a then none else some a

/-- The set of elements that are inserted one after the other. -/
def setBy (lt : α → α → Bool) (l : List α) : List α := l.foldl (fun s x => insertBy lt x s) []

namespace TotalOn

theorem asymm (h : TotalOn lt valid) (hx : valid x) (hy : valid y) (hlt : lt x y = true) :
    lt y x = false := by
  rw [Bool.eq_false_iff]
  intro hgt
  have hself := h.trans x y x hx hy hx hlt hgt
  rw [h.irrefl x hx] at hself
  cases hself

theorem imp {valid' : α → Prop} (h : TotalOn lt valid) (himp : ∀ x, valid' x → valid x) :
    TotalOn lt valid' where
  irrefl x hx := h.irrefl x (himp x hx)
  trans x y z hx hy hz := h.trans x y z (himp x hx) (himp y hy) (himp z hz)
  eq_of_not_lt x y hx hy := h.eq_of_not_lt x y (himp x hx) (himp y hy)

theorem mem_insertBy (h : TotalOn lt valid) (hx : valid x) (hs : ∀ a ∈ s, valid a) :
    y ∈ insertBy lt x s ↔ y = x ∨ y ∈ s := by
  induction s with
  | nil => exact List.mem_cons
  | cons a s ih =>
    obtain ⟨ha, hrest⟩ := List.forall_mem_cons.mp hs
    rw [insertBy]
    split
    · exact List.mem_cons
    · rename_i hxa
      split
      · rw [List.mem_cons, ih hrest, List.mem_cons, or_left_comm]
      · rename_i hax
        have heq : x = a := h.eq_of_not_lt x a hx ha (Bool.eq_false_iff.mpr hxa)
          (Bool.eq_false_iff.mpr hax)
        rw [heq, List.mem_cons, or_self_left]

theorem sorted_insertBy (h : TotalOn lt valid) (hx : valid x) (hs : ∀ a ∈ s, valid a)
    (hsorted : s.Pairwise fun a b => lt a b = true) :
    (insertBy lt x s).Pairwise fun a b => lt a b = true := by
  induction s with
  | nil => exact List.pairwise_singleton _ x
  | cons a s ih =>
    obtain ⟨ha, hrest⟩ := List.forall_mem_cons.mp hs
    obtain ⟨hfirst, htail⟩ := List.pairwise_cons.mp hsorted
    rw [insertBy]
    split
    · rename_i hxa
      refine List.pairwise_cons.mpr ⟨fun b hb => ?_, hsorted⟩
      rcases List.mem_cons.mp hb with rfl | hb
      · exact hxa
      · exact h.trans x a b hx ha (hrest b hb) hxa (hfirst b hb)
    · split
      · rename_i hax
        refine List.pairwise_cons.mpr ⟨fun b hb => ?_, ih hrest htail⟩
        rcases (h.mem_insertBy hx hrest).mp hb with rfl | hb
        · exact hax
        · exact hfirst b hb
      · exact hsorted

/-- A member is found, and nothing else. -/
theorem findBy_eq_some_iff (h : TotalOn lt valid) (hx : valid x) (hs : ∀ a ∈ s, valid a)
    (hsorted : s.Pairwise fun a b => lt a b = true) : findBy lt x s = some y ↔ y = x ∧ x ∈ s := by
  induction s with
  | nil =>
    rw [findBy]
    exact iff_of_false (fun hnone => by cases hnone) fun hmem => List.not_mem_nil hmem.2
  | cons a s ih =>
    obtain ⟨ha, hrest⟩ := List.forall_mem_cons.mp hs
    obtain ⟨hfirst, htail⟩ := List.pairwise_cons.mp hsorted
    rw [findBy]
    split
    · rename_i hax
      have hne : x ≠ a := by
        rintro rfl
        rw [h.irrefl x hx] at hax
        cases hax
      rw [ih hrest htail, List.mem_cons, or_iff_right hne]
    · rename_i hax
      split
      · -- `x` is in front of all members
        rename_i hxa
        refine iff_of_false (fun hnone => by cases hnone) fun hmem => ?_
        rcases List.mem_cons.mp hmem.2 with rfl | hmem
        · exact hax hxa
        · exact hax (hfirst x hmem)
      · rename_i hxa
        have heq : x = a := h.eq_of_not_lt x a hx ha (Bool.eq_false_iff.mpr hxa)
          (Bool.eq_false_iff.mpr hax)
        rw [heq, Option.some_inj, eq_comm]
        exact (and_iff_left List.mem_cons_self).symm

/-- A set holds what has been inserted, in order. -/
theorem setBy_spec (h : TotalOn lt valid) (hl : ∀ x ∈ l, valid x) :
    (setBy lt l).Pairwise (fun a b => lt a b = true) ∧ ∀ x, x ∈ setBy lt l ↔ x ∈ l := by
  induction l using List.reverseRecOn with
  | nil => exact ⟨List.Pairwise.nil, fun x => Iff.rfl⟩
  | append_singleton l a ih =>
    have hl' : ∀ x ∈ l, valid x := fun x hx => hl x (List.mem_append_left [a] hx)
    have ha : valid a := hl a (List.mem_append_right l (List.mem_singleton_self a))
    obtain ⟨hsorted, hmem⟩ := ih hl'
    have hs : ∀ x ∈ setBy lt l, valid x := fun x hx => hl' x ((hmem x).mp hx)
    have hset : setBy lt (l ++ [a]) = insertBy lt a (setBy lt l) := List.foldl_append
    rw [hset]
    refine ⟨h.sorted_insertBy ha hs hsorted, fun x => ?_⟩
    rw [h.mem_insertBy ha hs, hmem, List.mem_append, List.mem_singleton, or_comm]

end TotalOn

end Base
end Rocprofsys
