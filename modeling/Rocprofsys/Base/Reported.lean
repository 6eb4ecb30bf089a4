import Mathlib.Data.List.Basic

namespace Rocprofsys
namespace Base

/-! ## Values with messages -/

/-- A value, and what was reported on the way to it. -/
structure Reported (μ α : Type) where
  value : α
  messages : List μ
  deriving DecidableEq, Repr

namespace Reported

variable {μ α β : Type}

instance : Monad (Reported μ) where
  pure a := ⟨a, []⟩
  bind x f := ⟨(f x.value).value, x.messages ++ (f x.value).messages⟩

def report (m : μ) : Reported μ Unit := ⟨(), [m]⟩

@[simp] theorem value_pure (a : α) : (pure a : Reported μ α).value = a := rfl

@[simp] theorem value_bind (x : Reported μ α) (f : α → Reported μ β) :
    (x >>= f).value = (f x.value).value := rfl

@[simp] theorem messages_pure (a : α) : (pure a : Reported μ α).messages = [] := rfl

@[simp] theorem messages_bind (x : Reported μ α) (f : α → Reported μ β) :
    (x >>= f).messages = x.messages ++ (f x.value).messages := rfl

@[simp] theorem value_ite (c : Prop) [Decidable c] (x y : Reported μ α) :
    (if c then x else y).value = if c then x.value else y.value := by
  split <;> rfl

end Reported

end Base
end Rocprofsys
