import Mathlib.Data.List.TakeWhile

namespace Rocprofsys
namespace Base

/-! ## Texts that end with a NUL and views of texts -/

/-- The bytes of a text before its NUL. -/
abbrev CText := { text : List UInt8 // 0 ∉ text }

/-- A view: the memory from its start on, in which a NUL follows, and its length. -/
structure StringView where
  memory : List UInt8
  length : ℕ
  fits : length ≤ memory.length
  terminated : 0 ∈ memory
  deriving DecidableEq

namespace StringView

/-- The text that is viewed. -/
def text (v : StringView) : List UInt8 := v.memory.take v.length

/-- What is read from the start of the view up to the NUL. -/
def cText (v : StringView) : CText where
  val := v.memory.takeWhile (· ≠ 0)
  property h := by
    have hne := List.mem_takeWhile_imp h
    exact absurd rfl (of_decide_eq_true hne)

/-- The view of a text that ends with a NUL. -/
def ofCText (t : CText) : StringView where
  memory := t.val ++ [0]
  length := t.val.length
  fits := by simp
  terminated := by simp

@[simp] theorem cText_ofCText (t : CText) : (ofCText t).cText = t := by
  apply Subtype.ext
  show (t.val ++ [0]).takeWhile (· ≠ 0) = t.val
  have hne : ∀ b ∈ t.val, decide (b ≠ 0) = true := by
    intro b hb
    refine decide_eq_true fun hzero => ?_
    subst hzero
    exact t.property hb
  rw [List.takeWhile_append_of_pos hne]
  exact List.append_nil _

end StringView

end Base
end Rocprofsys
