import Mathlib.Data.Finset.Insert

namespace Rocprofsys
namespace Base

variable {α β κ : Type} [DecidableEq κ] {p : α → Bool} {key : α → κ} {found : β → α → Bool}
  {l : List α} {terms : List β} {s : Finset κ} {k : κ}

/-! ## Sets filled by a loop -/

/-- The keys of the elements that pass, added to a set. -/
def gather (p : α → Bool) (key : α → κ) (l : List α) (s : Finset κ) : Finset κ :=
  l.foldl (fun s a => if p a then insert (key a) s else s) s

theorem mem_gather : k ∈ gather p key l s ↔ k ∈ s ∨ ∃ a ∈ l, p a = true ∧ key a = k := by
  induction l generalizing s with
  | nil =>
    refine ⟨Or.inl, fun h => h.resolve_right fun hpassed => ?_⟩
    obtain ⟨a, ha, -⟩ := hpassed
    cases ha
  | cons a l ih =>
    show k ∈ gather p key l (if p a then insert (key a) s else s) ↔ _
    rw [ih, List.exists_mem_cons_iff]
    by_cases ha : p a = true
    · rw [if_pos ha, Finset.mem_insert]
      constructor
      · intro h
        rcases h with (rfl | h) | h
        · exact Or.inr (Or.inl ⟨ha, rfl⟩)
        · exact Or.inl h
        · exact Or.inr (Or.inr h)
      · intro h
        rcases h with h | ⟨-, rfl⟩ | h
        · exact Or.inl (Or.inr h)
        · exact Or.inl (Or.inl rfl)
        · exact Or.inr h
    · rw [if_neg ha]
      refine or_congr_right ⟨Or.inr, fun h => h.resolve_left fun hfirst => ha hfirst.1⟩

/-- The keys of the elements that one of the terms finds, term by term. -/
def gatherAll (found : β → α → Bool) (key : α → κ) (l : List α) (terms : List β)
    (s : Finset κ) : Finset κ :=
  terms.foldl (fun s t => gather (found t) key l s) s

theorem mem_gatherAll :
    k ∈ gatherAll found key l terms s ↔
      k ∈ s ∨ ∃ t ∈ terms, ∃ a ∈ l, found t a = true ∧ key a = k := by
  induction terms generalizing s with
  | nil =>
    refine ⟨Or.inl, fun h => h.resolve_right fun hfound => ?_⟩
    obtain ⟨t, ht, -⟩ := hfound
    cases ht
  | cons t terms ih =>
    show k ∈ gatherAll found key l terms (gather (found t) key l s) ↔ _
    rw [ih, mem_gather, List.exists_mem_cons_iff, or_assoc]

end Base
end Rocprofsys
