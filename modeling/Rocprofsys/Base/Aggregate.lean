import Mathlib.Algebra.BigOperators.Group.List.Basic
import Rocprofsys.Base.Grouping

namespace Rocprofsys
namespace Base

/-! ## One value for each key -/

section Aggregate

variable {κ ν : Type} [DecidableEq κ] {merge : ν → ν → ν}

/-- A new entry, or the value merged into the one that is there. -/
def emplaceOrMerge (merge : ν → ν → ν) (entries : List (κ × ν)) (pair : κ × ν) : List (κ × ν) :=
  if pair.1 ∈ entries.map Prod.fst then
    entries.map fun entry => if entry.1 = pair.1 then (entry.1, merge entry.2 pair.2) else entry
  else entries ++ [pair]

def aggregate (merge : ν → ν → ν) (pairs : List (κ × ν)) : List (κ × ν) :=
  pairs.foldl (emplaceOrMerge merge) []

theorem aggregate_append_singleton (pairs : List (κ × ν)) (pair : κ × ν) :
    aggregate merge (pairs ++ [pair]) = emplaceOrMerge merge (aggregate merge pairs) pair := by
  rw [aggregate, List.foldl_append, List.foldl_cons, List.foldl_nil, ← aggregate]

theorem map_fst_emplaceOrMerge (entries : List (κ × ν)) (pair : κ × ν) :
    (emplaceOrMerge merge entries pair).map Prod.fst =
      if pair.1 ∈ entries.map Prod.fst then entries.map Prod.fst
      else entries.map Prod.fst ++ [pair.1] := by
  unfold emplaceOrMerge
  split
  · rw [List.map_map]
    apply List.map_congr_left
    intro entry _
    show (if entry.1 = pair.1 then (entry.1, merge entry.2 pair.2) else entry).1 = entry.1
    split <;> rfl
  · rw [List.map_append, List.map_singleton]

/-- An entry for each key, in the order of the first occurrences. -/
theorem map_fst_aggregate (pairs : List (κ × ν)) :
    (aggregate merge pairs).map Prod.fst = keys pairs := by
  induction pairs using List.reverseRecOn with
  | nil => rfl
  | append_singleton pairs pair ih =>
    rw [aggregate_append_singleton, map_fst_emplaceOrMerge, ih]
    exact (keys_append_singleton pairs pair.1 pair.2).symm

/-- What an entry inherits: if a property of the values of a key survives a merge with one
more value, and holds of a single one, it holds of the entry. -/
theorem aggregate_induction {p : List ν → ν → Prop} (hone : ∀ v, p [v] v)
    (hmerge : ∀ vs v v', p vs v → p (vs ++ [v']) (merge v v')) {pairs : List (κ × ν)}
    {entry : κ × ν} (h : entry ∈ aggregate merge pairs) : p (group entry.1 pairs) entry.2 := by
  induction pairs using List.reverseRecOn generalizing entry with
  | nil => cases h
  | append_singleton pairs pair ih =>
    rw [aggregate_append_singleton, emplaceOrMerge] at h
    rw [show pair = (pair.1, pair.2) from rfl, group_append_singleton]
    split at h
    · obtain ⟨old, hold, rfl⟩ := List.mem_map.mp h
      by_cases heq : old.1 = pair.1
      · simp only [heq, if_true, beq_self_eq_true]
        apply hmerge
        rw [← heq]
        exact ih hold
      · simp only [heq, if_false, beq_iff_eq, Ne.symm heq]
        exact ih hold
    · rename_i hnew
      rcases List.mem_append.mp h with hold | hself
      · have hne : pair.1 ≠ entry.1 := by
          intro heq
          exact hnew (heq ▸ List.mem_map_of_mem hold)
        simp only [beq_iff_eq, hne, if_false]
        exact ih hold
      · rw [List.mem_singleton] at hself
        subst hself
        rw [map_fst_aggregate] at hnew
        simp only [beq_self_eq_true, if_true, group_eq_nil hnew, List.nil_append]
        exact hone entry.2

/-- The entries of an additive merge are sums. -/
theorem aggregate_sum {M : Type} [AddMonoid M] {f : ν → M}
    (hf : ∀ a b, f (merge a b) = f a + f b) {pairs : List (κ × ν)} {entry : κ × ν}
    (h : entry ∈ aggregate merge pairs) : f entry.2 = ((group entry.1 pairs).map f).sum := by
  refine aggregate_induction (p := fun vs v => f v = (vs.map f).sum) (fun v => ?_)
    (fun vs v v' hv => ?_) h
  · rw [List.map_singleton, List.sum_singleton]
  · rw [hf, hv, List.map_append, List.sum_append, List.map_singleton, List.sum_singleton]

/-- What a merge leaves as it is comes from the first value of the key. -/
theorem aggregate_head? {β : Type} {g : ν → β} (hg : ∀ a b, g (merge a b) = g a)
    {pairs : List (κ × ν)} {entry : κ × ν} (h : entry ∈ aggregate merge pairs) :
    (group entry.1 pairs).head?.map g = some (g entry.2) := by
  refine aggregate_induction (p := fun vs v => vs.head?.map g = some (g v)) (fun v => rfl)
    (fun vs v v' hv => ?_) h
  cases vs with
  | nil => cases hv
  | cons first vs =>
    rw [hg, ← hv]
    rfl

end Aggregate

end Base
end Rocprofsys
