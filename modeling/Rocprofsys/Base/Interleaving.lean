import Mathlib.Algebra.Order.Ring.Nat
import Mathlib.Data.List.Flatten
import Mathlib.Data.List.Perm.Basic

namespace Rocprofsys
namespace Base

variable {α β κ σ τ : Type}

/-! ## Steps of several threads -/

/-- Each thread takes the steps of its program, in their order. -/
def Interleaves [DecidableEq κ] (thread : α → κ) (program run : List α) : Prop :=
  ∀ k, (run.filter fun a => thread a = k) = program.filter fun a => thread a = k

section Thread

variable [DecidableEq κ] {thread : α → κ} {program run : List α}

theorem interleaves_self (thread : α → κ) (program : List α) :
    Interleaves thread program program := fun _ => rfl

theorem Interleaves.perm (h : Interleaves thread program run) : run.Perm program := by
  classical
  rw [List.perm_iff_count]
  intro a
  have hfilter : ∀ l : List α, l.count a = (l.filter fun b => thread b = thread a).count a := by
    intro l
    rw [List.count_filter]
    exact decide_eq_true rfl
  rw [hfilter run, hfilter program, h (thread a)]

end Thread

/-- What only some of the steps act on is what these steps make of it. -/
theorem foldl_part {step : σ → α → σ} {part : σ → τ} {concern : α → Option β} {act : τ → β → τ}
    (hstep : ∀ s a, part (step s a) = (concern a).elim (part s) (act (part s))) (s : σ)
    (run : List α) : part (run.foldl step s) = (run.filterMap concern).foldl act (part s) := by
  induction run generalizing s with
  | nil => rfl
  | cons a run ih =>
    rw [List.foldl_cons, ih, hstep]
    cases h : concern a with
    | none => rw [List.filterMap_cons_none h, Option.elim_none]
    | some b => rw [List.filterMap_cons_some h, List.foldl_cons, Option.elim_some]

/-! ## Running totals -/

/-- The sum of the first amount, of the first two, and so on. -/
def runningTotals (amounts : List ℕ) : List ℕ :=
  (List.range amounts.length).map fun n => (amounts.take (n + 1)).sum

theorem length_runningTotals (amounts : List ℕ) :
    (runningTotals amounts).length = amounts.length := by
  rw [runningTotals, List.length_map, List.length_range]

theorem runningTotals_append_singleton (amounts : List ℕ) (a : ℕ) :
    runningTotals (amounts ++ [a]) = runningTotals amounts ++ [(amounts ++ [a]).sum] := by
  have hbefore : ∀ n ∈ List.range amounts.length,
      ((amounts ++ [a]).take (n + 1)).sum = (amounts.take (n + 1)).sum := by
    intro n hn
    rw [List.take_append_of_le_length (List.mem_range.mp hn)]
  have hall : (amounts ++ [a]).take (amounts.length + 1) = amounts ++ [a] := by
    apply List.take_of_length_le
    simp
  rw [runningTotals, List.length_append, List.length_singleton, List.range_succ, List.map_append,
    List.map_congr_left hbefore, List.map_singleton, hall, runningTotals]

end Base
end Rocprofsys
