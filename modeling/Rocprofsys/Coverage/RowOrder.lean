import Rocprofsys.Coverage.Details

namespace Rocprofsys
namespace Coverage

open Base

variable {a b : Row} {l : List Row}

/-! ## When the rows can be sorted -/

/-- Rows are compared by their counts and triples, but two rows of a triple not at all. -/
theorem greater_iff_across : a.greater b = true ↔ a.triple ≠ b.triple ∧ b.key < a.key := by
  by_cases heq : a.triple = b.triple
  · have hnot : a.greater b = false := by simp [Row.greater, heq]
    simp [hnot, heq]
  · rw [greater_iff fun h => absurd h heq, and_iff_right heq]

theorem triple_eq_of_key (h : a.key = b.key) : a.triple = b.triple := by
  simp only [Row.key, toLex_inj, Prod.mk.injEq] at h
  exact place_inj.mp h.2

/-- `operator>` sorts the rows exactly if no row of another triple has its count and triple between
those of two rows of one triple. -/
theorem strictWeakOn_greater_iff (l : List Row) :
    StrictWeakOn (fun a b => Row.greater a b) l ↔
      ∀ a ∈ l, ∀ c ∈ l, a.triple = c.triple → ∀ b ∈ l, c.key < b.key → b.key < a.key →
        b.triple = a.triple := by
  rw [StrictWeakOn.across_groups_iff (fun r => OrderDual.toDual r.key) Row.triple
    (fun a b => greater_iff_across) fun a b h => triple_eq_of_key h]
  constructor
  · intro h a ha c hc heq b hb hcb hba
    exact h a ha c hc heq b hb hba hcb
  · intro h a ha c hc heq b hb hba hcb
    exact h a ha c hc heq b hb hcb hba

/-- Two functions, the first of which is registered once more. -/
def registeredAgain : List Call :=
  [.source "a.c" "f" 1 16 none, .source "a.c" "g" 2 32 none, .source "a.c" "f" 1 16 none,
    .coverage 0 .active true "a.c" "f" 16, .coverage 0 .active true "a.c" "f" 16,
    .coverage 0 .active true "a.c" "g" 32]

theorem not_strictWeakOn_registeredAgain :
    ¬ StrictWeakOn (fun a b => Row.greater a b) (countRows (run registeredAgain)) := by
  have hrows : countRows (run registeredAgain) =
      [⟨2, 16, 1, "a.c", "f", "f"⟩, ⟨1, 32, 2, "a.c", "g", "g"⟩, ⟨0, 16, 1, "a.c", "f", "f"⟩] := by
    decide +kernel
  rw [hrows]
  intro h
  have hgreater := h.trans ⟨2, 16, 1, "a.c", "f", "f"⟩ (by simp) ⟨1, 32, 2, "a.c", "g", "g"⟩
    (by simp) ⟨0, 16, 1, "a.c", "f", "f"⟩ (by simp) (by decide) (by decide)
  revert hgreater
  decide

end Coverage
end Rocprofsys
