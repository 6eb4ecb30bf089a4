import Mathlib.Data.List.TakeWhile

namespace Rocprofsys
namespace Base

variable {σ ε : Type} {apply : σ → ε → σ} {s : σ} {es fs : List (Option ε)}

/-! ## Updates that may fail

Updates are applied one after another, in place: what went before a failure stays. -/

/-- The state that is left, and whether every update was there to be applied. -/
def attempt (apply : σ → ε → σ) : List (Option ε) → σ → σ × Bool
  | [], s => (s, true)
  | none :: _, s => (s, false)
  | some e :: es, s => attempt apply es (apply s e)

/-- The updates in front of the first failure. -/
def performed : List (Option ε) → List ε
  | some e :: es => e :: performed es
  | _ => []

def Succeeds (es : List (Option ε)) : Prop := ∀ e ∈ es, e.isSome = true

@[simp] theorem performed_nil : performed ([] : List (Option ε)) = [] := rfl

@[simp] theorem performed_none : performed (none :: es) = [] := rfl

@[simp] theorem performed_some (e : ε) : performed (some e :: es) = e :: performed es := rfl

theorem attempt_fst (es : List (Option ε)) (s : σ) :
    (attempt apply es s).1 = (performed es).foldl apply s := by
  induction es generalizing s with
  | nil => rfl
  | cons e es ih =>
    cases e with
    | none => rfl
    | some e => exact ih (apply s e)

theorem attempt_snd (es : List (Option ε)) (s : σ) :
    (attempt apply es s).2 = true ↔ Succeeds es := by
  induction es generalizing s with
  | nil => exact iff_of_true rfl fun e he => absurd he List.not_mem_nil
  | cons e es ih =>
    cases e with
    | none => exact iff_of_false Bool.false_ne_true fun h => by cases h none List.mem_cons_self
    | some e =>
      rw [attempt, ih]
      simp [Succeeds]

/-- A loop fails with an element that no state accepts. -/
theorem foldlM_ne_ok {α : Type} {f : σ → α → Except ε σ} {xs : List α} {x : α} (h : x ∈ xs)
    (hx : ∀ s s', f s x ≠ .ok s') {s s' : σ} : xs.foldlM f s ≠ .ok s' := by
  induction xs generalizing s with
  | nil => exact absurd h List.not_mem_nil
  | cons y ys ih =>
    rw [List.foldlM_cons]
    cases hy : f s y with
    | error e => exact fun hok => by cases hok
    | ok t =>
      rcases List.mem_cons.mp h with rfl | h
      · exact absurd hy (hx s t)
      · exact ih h

/-- A loop that loses its state with a failure. -/
theorem foldlM_eq_attempt (es : List (Option ε)) (s : σ) :
    es.foldlM (fun s e => e.map (apply s)) s =
      if (attempt apply es s).2 then some (attempt apply es s).1 else none := by
  induction es generalizing s with
  | nil => rfl
  | cons e es ih =>
    cases e with
    | none => rfl
    | some e => exact ih (apply s e)

/-- Where an update that changes something makes the state larger, nothing changes exactly
if no update changes anything. -/
theorem foldl_eq_self_iff (size : σ → ℕ)
    (hgrows : ∀ s e, apply s e = s ∨ size s < size (apply s e)) {es : List ε} :
    es.foldl apply s = s ↔ ∀ e ∈ es, apply s e = s := by
  have hsize (es : List ε) (s : σ) : size s ≤ size (es.foldl apply s) := by
    induction es generalizing s with
    | nil => exact Nat.le_refl _
    | cons e es ih =>
      rcases hgrows s e with heq | hlt
      · rw [List.foldl_cons, heq]
        exact ih s
      · exact Nat.le_trans hlt.le (ih (apply s e))
  induction es with
  | nil => simp
  | cons e es ih =>
    rw [List.foldl_cons, List.forall_mem_cons]
    constructor
    · intro h
      have heq : apply s e = s := by
        rcases hgrows s e with heq | hlt
        · exact heq
        · have hle := hsize es (apply s e)
          rw [h] at hle
          omega
      rw [heq] at h
      exact ⟨heq, ih.mp h⟩
    · intro ⟨heq, h⟩
      rw [heq]
      exact ih.mpr h

end Base
end Rocprofsys
