import Mathlib.Algebra.Order.Ring.Nat
import Mathlib.Tactic.Ring

namespace Rocprofsys
namespace Base

variable {α : Type} {n : Nat}

/-! ## Lists cut into chunks -/

/-- Every chunk but the last is full. -/
def Packed (n : Nat) (chunks : List (List α)) : Prop := ∀ c ∈ chunks.dropLast, c.length = n

theorem Packed.head {c d : List α} {chunks : List (List α)} (h : Packed n (c :: d :: chunks)) :
    c.length = n := h c List.mem_cons_self

theorem Packed.tail {c : List α} {chunks : List (List α)} (h : Packed n (c :: chunks)) :
    Packed n chunks := by
  intro d hd
  cases chunks with
  | nil => cases hd
  | cons e chunks => exact h d (List.mem_cons_of_mem c hd)

theorem packed_cons {c : List α} {chunks : List (List α)} (hc : c.length = n)
    (h : Packed n chunks) : Packed n (c :: chunks) := by
  cases chunks with
  | nil =>
    intro d hd
    cases hd
  | cons e chunks =>
    intro d hd
    rcases List.mem_cons.mp hd with rfl | hd
    · exact hc
    · exact h d hd

theorem packed_singleton (c : List α) : Packed n [c] := by
  intro d hd
  cases hd

theorem Packed.modify {chunks : List (List α)} (h : Packed n chunks) (i : Nat)
    {f : List α → List α} (hf : ∀ c, (f c).length = c.length) :
    Packed n (chunks.modify i f) := by
  induction chunks generalizing i with
  | nil =>
    rw [List.modify_nil]
    exact h
  | cons c chunks ih =>
    cases i with
    | zero =>
      show Packed n (f c :: chunks)
      cases chunks with
      | nil => exact packed_singleton (f c)
      | cons d chunks => exact packed_cons ((hf c).trans h.head) h.tail
    | succ i =>
      rw [List.modify_succ_cons]
      cases chunks with
      | nil =>
        rw [List.modify_nil]
        exact packed_singleton c
      | cons d chunks => exact packed_cons h.head (ih h.tail i)

theorem packed_append_singleton {c : List α} {chunks : List (List α)} :
    Packed n (chunks ++ [c]) ↔ ∀ d ∈ chunks, d.length = n := by
  rw [Packed, List.dropLast_concat]

theorem length_flatten_of_full {chunks : List (List α)} (h : ∀ d ∈ chunks, d.length = n) :
    chunks.flatten.length = chunks.length * n := by
  induction chunks with
  | nil => exact (Nat.zero_mul n).symm
  | cons c chunks ih =>
    rw [List.flatten_cons, List.length_append, h c List.mem_cons_self,
      ih fun d hd => h d (List.mem_cons_of_mem c hd), List.length_cons]
    ring

/-- The length of packed chunks, from the last. -/
theorem Packed.length_flatten {c : List α} {chunks : List (List α)}
    (h : Packed n (chunks ++ [c])) :
    (chunks ++ [c]).flatten.length = chunks.length * n + c.length := by
  rw [List.flatten_append, List.length_append, List.flatten_singleton,
    length_flatten_of_full (packed_append_singleton.mp h)]

/-- Position `i` of packed chunks is position `i % n` of chunk `i / n`. -/
theorem Packed.getElem?_flatten (hn : 0 < n) {chunks : List (List α)} (h : Packed n chunks)
    (hle : ∀ c ∈ chunks, c.length ≤ n) (i : Nat) :
    (chunks[i / n]?.bind fun chunk => chunk[i % n]?) = chunks.flatten[i]? := by
  induction chunks generalizing i with
  | nil => rfl
  | cons head chunks ih =>
    rw [List.flatten_cons]
    by_cases hi : i < n
    · rw [Nat.div_eq_of_lt hi, Nat.mod_eq_of_lt hi]
      show head[i]? = _
      cases chunks with
      | nil => rw [List.flatten_nil, List.append_nil]
      | cons d chunks => rw [List.getElem?_append_left (h.head.symm ▸ hi)]
    · have hge : n ≤ i := Nat.le_of_not_lt hi
      have hdiv : i / n = (i - n) / n + 1 := by
        rw [← Nat.add_div_right (i - n) hn, Nat.sub_add_cancel hge]
      have hmod : i % n = (i - n) % n := Nat.mod_eq_sub_mod hge
      rw [hdiv, hmod, List.getElem?_cons_succ]
      cases chunks with
      | nil =>
        have hlength := hle head List.mem_cons_self
        rw [List.flatten_nil, List.append_nil, List.getElem?_nil,
          List.getElem?_eq_none (Nat.le_trans hlength hge)]
        rfl
      | cons d chunks =>
        have hrest := ih h.tail (fun e he => hle e (List.mem_cons_of_mem head he)) (i - n)
        rw [hrest, List.getElem?_append_right (h.head.symm ▸ hge), h.head]

/-- Writing to a position writes to its chunk. -/
theorem Packed.flatten_set (hn : 0 < n) {chunks : List (List α)} (h : Packed n chunks)
    (hle : ∀ c ∈ chunks, c.length ≤ n) (i : Nat) (a : α) :
    (chunks.modify (i / n) fun c => c.set (i % n) a).flatten = chunks.flatten.set i a := by
  induction chunks generalizing i with
  | nil => rw [List.modify_nil, List.flatten_nil, List.set_nil]
  | cons c chunks ih =>
    rw [List.flatten_cons]
    by_cases hi : i < n
    · rw [Nat.div_eq_of_lt hi, Nat.mod_eq_of_lt hi]
      show (c.set i a :: chunks).flatten = _
      rw [List.flatten_cons]
      cases chunks with
      | nil => rw [List.flatten_nil, List.append_nil, List.append_nil]
      | cons d chunks => rw [List.set_append_left i a (h.head.symm ▸ hi)]
    · have hge : n ≤ i := Nat.le_of_not_lt hi
      have hdiv : i / n = (i - n) / n + 1 := by
        rw [← Nat.add_div_right (i - n) hn, Nat.sub_add_cancel hge]
      have hmod : i % n = (i - n) % n := Nat.mod_eq_sub_mod hge
      rw [hdiv, hmod, List.modify_succ_cons, List.flatten_cons,
        ih h.tail (fun e he => hle e (List.mem_cons_of_mem c he)) (i - n)]
      cases chunks with
      | nil =>
        have hlength := hle c List.mem_cons_self
        rw [List.flatten_nil, List.set_nil, List.append_nil,
          List.set_eq_of_length_le (Nat.le_trans hlength hge)]
      | cons d chunks =>
        rw [List.set_append_right i a (h.head.symm ▸ hge), h.head]

end Base
end Rocprofsys
