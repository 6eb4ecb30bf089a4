namespace Rocprofsys
namespace Base

variable {α β : Type}

/-! ## Parts put together in some order and grouping -/

inductive Merging (α : Type) where
  | part (d : α)
  | join (l r : Merging α)

namespace Merging

def value (op : α → α → α) : Merging α → α
  | .part d => d
  | .join l r => op (l.value op) (r.value op)

/-- The parts, each as often as it is used. -/
def parts : Merging α → List α
  | .part d => [d]
  | .join l r => l.parts ++ r.parts

/-- The part that everything else is put into. -/
def first : Merging α → α
  | .part d => d
  | .join l _ => l.first

variable {op : α → α → α}

theorem first_mem_parts (m : Merging α) : m.first ∈ m.parts := by
  induction m with
  | part d => exact List.mem_singleton_self d
  | join l r ihl _ => exact List.mem_append_left r.parts ihl

/-- What holds of two values put together exactly if it holds of one of them. -/
theorem value_iff_exists {p : α → Prop} (hop : ∀ a b, p (op a b) ↔ p a ∨ p b) (m : Merging α) :
    p (m.value op) ↔ ∃ d ∈ m.parts, p d := by
  induction m with
  | part d =>
    constructor
    · exact fun h => ⟨d, List.mem_singleton_self d, h⟩
    · intro ⟨d', hd', h⟩
      rw [List.mem_singleton.mp hd'] at h
      exact h
  | join l r ihl ihr =>
    show p (op (l.value op) (r.value op)) ↔ ∃ d ∈ l.parts ++ r.parts, p d
    rw [hop, ihl, ihr]
    constructor
    · intro h
      rcases h with ⟨d, hd, h⟩ | ⟨d, hd, h⟩
      · exact ⟨d, List.mem_append_left _ hd, h⟩
      · exact ⟨d, List.mem_append_right _ hd, h⟩
    · intro ⟨d, hd, h⟩
      rcases List.mem_append.mp hd with hd | hd
      · exact Or.inl ⟨d, hd, h⟩
      · exact Or.inr ⟨d, hd, h⟩

/-- What the left of two values decides when they are put together. -/
theorem value_eq_first {f : α → β} (hop : ∀ a b, f (op a b) = f a) (m : Merging α) :
    f (m.value op) = f m.first := by
  induction m with
  | part d => rfl
  | join l r ihl _ => exact (hop _ _).trans ihl

end Merging

end Base
end Rocprofsys
