import Mathlib.Data.List.Flatten

namespace Rocprofsys
namespace Base

variable {κ : Type}

/-! ## Numbered blocks -/

/-- The elements of blocks of the given sizes, each with its block's key and its number in the
block. -/
def numbered (blocks : List (κ × Nat)) : List (κ × Nat) :=
  blocks.flatMap fun block => (List.range block.2).map fun i => (block.1, i)

theorem numbered_cons (k : κ) (n : Nat) (blocks : List (κ × Nat)) :
    numbered ((k, n) :: blocks) = (List.range n).map (fun i => (k, i)) ++ numbered blocks :=
  List.flatMap_cons

theorem numbered_append (blocks blocks' : List (κ × Nat)) :
    numbered (blocks ++ blocks') = numbered blocks ++ numbered blocks' := List.flatMap_append

/-- An empty block has no elements. -/
theorem numbered_filter (blocks : List (κ × Nat)) :
    numbered (blocks.filter fun block => 0 < block.2) = numbered blocks := by
  induction blocks with
  | nil => rfl
  | cons block blocks ih =>
    obtain ⟨k, n⟩ := block
    cases n with
    | zero =>
      rw [List.filter_cons_of_neg (by simp), ih, numbered_cons]
      rfl
    | succ n => rw [List.filter_cons_of_pos (by simp), numbered_cons, numbered_cons, ih]

/-- The same blocks, but the last may be smaller and others may follow. -/
inductive Within : List (κ × Nat) → List (κ × Nat) → Prop
  | nil (blocks) : Within [] blocks
  | last {n m : Nat} (k : κ) (blocks) (h : n ≤ m) : Within [(k, n)] ((k, m) :: blocks)
  | cons {blocks blocks'} (block : κ × Nat) (h : Within blocks blocks') :
      Within (block :: blocks) (block :: blocks')

theorem numbered_prefix_of_within {blocks blocks' : List (κ × Nat)} (h : Within blocks blocks') :
    numbered blocks <+: numbered blocks' := by
  induction h with
  | nil blocks => exact List.nil_prefix
  | @last n m k blocks h =>
    obtain ⟨d, rfl⟩ := Nat.exists_eq_add_of_le h
    rw [numbered_cons, numbered_cons, List.range_add, List.map_append, List.append_assoc]
    exact (List.prefix_append_right_inj _).mpr List.nil_prefix
  | cons block h ih =>
    rw [numbered_cons, numbered_cons]
    exact (List.prefix_append_right_inj _).mpr ih

theorem numbered_cons_of_lt {k : κ} {n i : Nat} (h : i < n) (blocks : List (κ × Nat)) :
    (numbered ((k, n) :: blocks))[i]? = some (k, i) := by
  have hlength : i < ((List.range n).map fun i => (k, i)).length := by
    rwa [List.length_map, List.length_range]
  rw [numbered_cons, List.getElem?_append_left hlength, List.getElem?_map,
    List.getElem?_range h, Option.map_some]

theorem numbered_cons_length (k : κ) (n : Nat) (blocks : List (κ × Nat)) :
    (numbered ((k, n) :: blocks))[n]? = (numbered blocks)[0]? := by
  have hlength : ((List.range n).map fun i => (k, i)).length = n := by
    rw [List.length_map, List.length_range]
  rw [numbered_cons, List.getElem?_append_right (Nat.le_of_eq hlength), hlength, Nat.sub_self]

theorem eq_zero_of_first {blocks : List (κ × Nat)} (hpos : ∀ block ∈ blocks, 0 < block.2)
    {element : κ × Nat} (h : (numbered blocks)[0]? = some element) : element.2 = 0 := by
  cases blocks with
  | nil => cases h
  | cons block blocks =>
    rw [numbered_cons_of_lt (hpos block List.mem_cons_self), Option.some_inj] at h
    rw [← h]

theorem numbered_eq_nil_iff {blocks : List (κ × Nat)} (hpos : ∀ block ∈ blocks, 0 < block.2) :
    numbered blocks = [] ↔ blocks = [] := by
  cases blocks with
  | nil => exact iff_of_true rfl rfl
  | cons block blocks =>
    refine iff_of_false (fun h => ?_) (List.cons_ne_nil _ _)
    obtain ⟨k, n⟩ := block
    have hfirst := @numbered_cons_of_lt κ k n 0 (hpos (k, n) List.mem_cons_self) blocks
    rw [h] at hfirst
    cases hfirst

/-- Of blocks with elements the numbers show where each begins. -/
theorem numbered_prefix_iff {blocks : List (κ × Nat)} (hpos : ∀ block ∈ blocks, 0 < block.2) :
    ∀ {blocks' : List (κ × Nat)}, (∀ block ∈ blocks', 0 < block.2) →
      (numbered blocks <+: numbered blocks' ↔ Within blocks blocks') := by
  induction blocks with
  | nil => exact fun _ => iff_of_true List.nil_prefix (.nil _)
  | cons block blocks ih =>
    obtain ⟨k, n⟩ := block
    intro blocks' hpos'
    refine ⟨fun hprefix => ?_, numbered_prefix_of_within⟩
    have hn : 0 < n := hpos (k, n) List.mem_cons_self
    have hat {i : Nat} {element : κ × Nat}
        (h : (numbered ((k, n) :: blocks))[i]? = some element) :
        (numbered blocks')[i]? = some element := by
      obtain ⟨hi, rfl⟩ := List.getElem?_eq_some_iff.mp h
      exact List.prefix_iff_getElem?.mp hprefix i hi
    have hfirst := hat (numbered_cons_of_lt hn blocks)
    cases blocks' with
    | nil => cases hfirst
    | cons block' blocks' =>
      obtain ⟨k', m⟩ := block'
      rw [numbered_cons_of_lt (hpos' (k', m) List.mem_cons_self), Option.some_inj] at hfirst
      cases hfirst
      have hrest : ∀ block ∈ blocks, 0 < block.2 := (List.forall_mem_cons.mp hpos).2
      have hrest' : ∀ block ∈ blocks', 0 < block.2 := (List.forall_mem_cons.mp hpos').2
      rcases Nat.lt_trichotomy n m with hlt | rfl | hgt
      · cases blocks with
        | nil => exact .last k blocks' (Nat.le_of_lt hlt)
        | cons next blocks =>
          -- The next block begins at 0, but the larger one has its number `n` there.
          obtain ⟨l, c⟩ := next
          have hnext := @numbered_cons_of_lt κ l c 0 (hrest (l, c) List.mem_cons_self) blocks
          have hsame := hat ((numbered_cons_length k n _).trans hnext)
          rw [numbered_cons_of_lt hlt, Option.some_inj, Prod.mk.injEq] at hsame
          exact absurd hsame.2 (Nat.ne_of_gt hn)
      · rw [numbered_cons, numbered_cons, List.prefix_append_right_inj, ih hrest hrest'] at hprefix
        exact .cons (k, n) hprefix
      · have hsame := hat (numbered_cons_of_lt hgt blocks)
        rw [numbered_cons_length] at hsame
        have hm : 0 < m := hpos' (k, m) List.mem_cons_self
        exact absurd (eq_zero_of_first hrest' hsame) (Nat.ne_of_gt hm)

end Base
end Rocprofsys
