import Mathlib.Data.List.Basic
import Mathlib.Data.List.Dedup
import Mathlib.Data.List.Induction

namespace Rocprofsys
namespace Base

variable {α κ ν : Type} [BEq α] [LawfulBEq α] [BEq κ] [LawfulBEq κ]

/-! ## First occurrences -/

theorem eraseDups_append_congr {xs ys : List α} (h : xs.eraseDups = ys.eraseDups) (zs : List α) :
    (xs ++ zs).eraseDups = (ys ++ zs).eraseDups := by
  have hmem : ∀ x, x ∈ xs ↔ x ∈ ys := by
    intro x
    rw [← List.mem_eraseDups, h, List.mem_eraseDups]
  have hremove : zs.removeAll xs = zs.removeAll ys := by
    unfold List.removeAll
    apply List.filter_congr
    intro z _
    simp [hmem]
  rw [List.eraseDups_append, List.eraseDups_append, h, hremove]

theorem eraseDups_append_singleton (xs : List α) (x : α) :
    (xs ++ [x]).eraseDups = if x ∈ xs then xs.eraseDups else xs.eraseDups ++ [x] := by
  rw [List.eraseDups_append]
  split
  · rename_i hx
    simp [List.removeAll, hx]
  · rename_i hx
    simp [List.removeAll, hx, List.eraseDups_cons]

theorem nodup_eraseDups (xs : List α) : xs.eraseDups.Nodup := by
  induction xs using List.reverseRecOn with
  | nil => exact List.nodup_nil
  | append_singleton xs x ih =>
    rw [eraseDups_append_singleton]
    split
    · exact ih
    · rename_i hx
      refine List.nodup_append.mpr ⟨ih, List.nodup_singleton x, ?_⟩
      intro a ha b hb heq
      rw [List.mem_singleton.mp hb] at heq
      exact hx (heq ▸ List.mem_eraseDups.mp ha)

theorem eraseDups_of_nodup {xs : List α} (h : xs.Nodup) : xs.eraseDups = xs := by
  induction xs using List.reverseRecOn with
  | nil => rfl
  | append_singleton xs x ih =>
    obtain ⟨hxs, -, hdisjoint⟩ := List.nodup_append.mp h
    have hx : x ∉ xs := fun hx => hdisjoint x hx x (List.mem_singleton_self x) rfl
    rw [eraseDups_append_singleton, if_neg hx, ih hxs]

theorem eraseDups_eraseDups (xs : List α) : xs.eraseDups.eraseDups = xs.eraseDups :=
  eraseDups_of_nodup (nodup_eraseDups xs)

/-! ## Values by key -/

/-- The keys in the order of their first occurrence. -/
def keys (pairs : List (κ × ν)) : List κ := (pairs.map Prod.fst).eraseDups

/-- The values of a key in their order. -/
def group (k : κ) (pairs : List (κ × ν)) : List ν :=
  (pairs.filter (·.1 == k)).map Prod.snd

variable {k : κ} {v : ν} {pairs : List (κ × ν)}

theorem nodup_keys (pairs : List (κ × ν)) : (keys pairs).Nodup := nodup_eraseDups _

theorem keys_append_singleton (pairs : List (κ × ν)) (k : κ) (v : ν) :
    keys (pairs ++ [(k, v)]) = if k ∈ keys pairs then keys pairs else keys pairs ++ [k] := by
  unfold keys
  rw [List.map_append, List.map_singleton, eraseDups_append_singleton]
  simp only [List.mem_eraseDups]

omit [LawfulBEq κ] in
theorem group_append_singleton (k' : κ) (pairs : List (κ × ν)) (k : κ) (v : ν) :
    group k' (pairs ++ [(k, v)]) = if k == k' then group k' pairs ++ [v] else group k' pairs := by
  unfold group
  rw [List.filter_append, List.map_append]
  split
  · rename_i heq
    simp [heq]
  · rename_i hne
    simp [hne]

theorem group_eq_nil (h : k ∉ keys pairs) : group k pairs = [] := by
  rw [keys, List.mem_eraseDups] at h
  unfold group
  rw [List.map_eq_nil_iff, List.filter_eq_nil_iff]
  intro pair hpair
  rw [beq_iff_eq]
  exact fun heq => h (heq ▸ List.mem_map_of_mem hpair)

/-! One pair for each key of a list without repetitions. -/

theorem keys_map {ks : List κ} (h : ks.Nodup) (f : κ → ν) :
    keys (ks.map fun k => (k, f k)) = ks := by
  rw [keys, List.map_map]
  exact (congrArg List.eraseDups (List.map_id ks)).trans (eraseDups_of_nodup h)

theorem group_map {ks : List κ} (h : ks.Nodup) (f : κ → ν) (k : κ) :
    group k (ks.map fun k => (k, f k)) = if k ∈ ks then [f k] else [] := by
  induction ks using List.reverseRecOn with
  | nil => rfl
  | append_singleton ks k' ih =>
    obtain ⟨hks, -, hdisjoint⟩ := List.nodup_append.mp h
    have hk' : k' ∉ ks := fun hmem => hdisjoint k' hmem k' (List.mem_singleton_self k') rfl
    rw [List.map_append, List.map_singleton, group_append_singleton, ih hks]
    by_cases heq : k' = k
    · subst heq
      simp [hk']
    · have hne : k ≠ k' := fun h => heq h.symm
      simp [heq, hne]

end Base
end Rocprofsys
