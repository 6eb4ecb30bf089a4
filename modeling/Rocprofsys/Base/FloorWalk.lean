import Mathlib.Algebra.Order.Ring.Int
import Mathlib.Data.List.Infix

namespace Rocprofsys
namespace Base

variable {bound height : ℕ} {changes : List Int}

/-! ## A height that does not fall below the floor -/

def climb (height : ℕ) (change : Int) : ℕ := (height + change).toNat

theorem climb_one : climb height 1 = height + 1 := by
  unfold climb
  omega

theorem climb_neg_one : climb height (-1) = height - 1 := by
  unfold climb
  omega

theorem climb_zero : climb height 0 = height := by
  unfold climb
  omega

/-- No height on the way is above the bound. -/
def Below (bound : ℕ) : ℕ → List Int → Prop
  | _, [] => True
  | height, c :: cs => climb height c ≤ bound ∧ Below bound (climb height c) cs

theorem forall_prefix_cons {P : List Int → Prop} {c : Int} {cs : List Int} :
    (∀ start, start <+: c :: cs → P start) ↔ P [] ∧ ∀ start, start <+: cs → P (c :: start) := by
  constructor
  · intro h
    exact ⟨h [] List.nil_prefix, fun start hstart => h _ ((List.prefix_cons_inj c).mpr hstart)⟩
  · intro h start hstart
    cases start with
    | nil => exact h.1
    | cons d start =>
      obtain ⟨rfl, hrest⟩ := List.cons_prefix_cons.mp hstart
      exact h.2 start hrest

/-- The height stays below the bound exactly if it does when the walk goes on from where it
starts, and when it goes on from the floor at any later time. -/
theorem below_iff (hheight : height ≤ bound) :
    Below bound height changes ↔
      (∀ start, start <+: changes → height + start.sum ≤ bound) ∧
        ∀ stretch, stretch <:+: changes → stretch.sum ≤ bound := by
  induction changes generalizing height with
  | nil =>
    refine iff_of_true trivial ⟨fun start hstart => ?_, fun stretch hstretch => ?_⟩
    · rw [List.prefix_nil.mp hstart, List.sum_nil]
      omega
    · rw [List.infix_nil.mp hstretch, List.sum_nil]
      omega
  | cons c cs ih =>
    have hclimb : (climb height c : Int) = max 0 (height + c) := by
      unfold climb
      omega
    constructor
    · intro h
      obtain ⟨hle, hrest⟩ := h
      obtain ⟨hstarts, hstretches⟩ := (ih hle).mp hrest
      have hfrom : ∀ start, start <+: c :: cs → (height : Int) + start.sum ≤ bound := by
        refine forall_prefix_cons.mpr ⟨?_, fun start hstart => ?_⟩
        · rw [List.sum_nil]
          omega
        · have hstart := hstarts start hstart
          rw [List.sum_cons]
          omega
      refine ⟨hfrom, fun stretch hstretch => ?_⟩
      rcases List.infix_cons_iff.mp hstretch with hprefix | hinfix
      · have hstart := hfrom stretch hprefix
        omega
      · exact hstretches stretch hinfix
    · intro h
      obtain ⟨hstarts, hstretches⟩ := h
      obtain ⟨-, hafter⟩ := forall_prefix_cons.mp hstarts
      have hfirst := hafter [] List.nil_prefix
      rw [List.sum_cons, List.sum_nil] at hfirst
      have hle : climb height c ≤ bound := by omega
      refine ⟨hle, (ih hle).mpr ⟨fun start hstart => ?_, fun stretch hstretch => ?_⟩⟩
      · have hlater := hafter start hstart
        have hfloor := hstretches start (List.infix_cons hstart.isInfix)
        rw [List.sum_cons] at hlater
        omega
      · exact hstretches stretch (List.infix_cons hstretch)

/-- From the floor only the stretches count. -/
theorem below_zero_iff :
    Below bound 0 changes ↔ ∀ stretch, stretch <:+: changes → stretch.sum ≤ bound := by
  rw [below_iff (Nat.zero_le bound)]
  refine ⟨And.right, fun h => ⟨fun start hstart => ?_, h⟩⟩
  have hstretch := h start hstart.isInfix
  omega

end Base
end Rocprofsys
