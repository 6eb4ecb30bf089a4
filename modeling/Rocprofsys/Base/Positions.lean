import Mathlib.Algebra.BigOperators.Group.List.Basic
import Mathlib.Algebra.Order.Ring.Nat
import Mathlib.Data.List.Nodup
import Mathlib.Data.List.Sort

namespace Rocprofsys
namespace Base

/-! ## Positions in a list without duplicates -/

section Positions

variable {α : Type} [DecidableEq α]

/-- In a prefix the elements have the positions from zero on. -/
theorem map_idxOf_prefix_eq {l t : List α} (h : l <+: t) (ht : t.Nodup) :
    l.map (t.idxOf ·) = List.range l.length := by
  refine List.ext_getElem (by rw [List.length_map, List.length_range]) fun i hi _ => ?_
  rw [List.length_map] at hi
  rw [List.getElem_map, List.getElem_range, h.getElem hi]
  exact ht.idxOf_getElem i (Nat.lt_of_lt_of_le hi h.length_le)

theorem map_idxOf_cons {a : α} {t : List α} (ha : a ∉ t) {l : List α} (h : List.Sublist l t) :
    l.map ((a :: t).idxOf ·) = (l.map (t.idxOf ·)).map (· + 1) := by
  rw [List.map_map]
  refine List.map_congr_left fun x hx => List.idxOf_cons_ne t ?_
  intro heq
  subst heq
  exact ha (h.subset hx)

theorem sum_map_succ (l : List ℕ) : (l.map (· + 1)).sum = l.sum + l.length := by
  induction l with
  | nil => rfl
  | cons a l ih =>
    rw [List.map_cons, List.sum_cons, ih, List.sum_cons, List.length_cons]
    omega

theorem sum_range_succ (n : ℕ) : (List.range (n + 1)).sum = (List.range n).sum + n := by
  rw [List.range_succ, List.sum_append, List.sum_singleton]

/-- A sublist has no lower positions than the prefix of its length, and equal ones only
if it is that prefix. -/
theorem sum_range_le_of_sublist {l t : List α} (h : List.Sublist l t) (ht : t.Nodup) :
    (List.range l.length).sum ≤ (l.map (t.idxOf ·)).sum ∧
      ((List.range l.length).sum = (l.map (t.idxOf ·)).sum → l <+: t) := by
  induction h with
  | slnil => exact ⟨Nat.le_refl _, fun _ => List.prefix_rfl⟩
  | @cons l t a h ih =>
    obtain ⟨hle, -⟩ := ih ht.of_cons
    have hsum := sum_map_succ (l.map (t.idxOf ·))
    rw [List.length_map] at hsum
    rw [map_idxOf_cons (List.nodup_cons.mp ht).1 h, hsum]
    refine ⟨by omega, fun heq => ?_⟩
    have hnil : l = [] := List.length_eq_zero_iff.mp (by omega)
    rw [hnil]
    exact List.nil_prefix
  | @cons_cons l t a h ih =>
    obtain ⟨hle, heq⟩ := ih ht.of_cons
    have hsum := sum_map_succ (l.map (t.idxOf ·))
    rw [List.length_map] at hsum
    rw [List.map_cons, List.sum_cons, map_idxOf_cons (List.nodup_cons.mp ht).1 h, hsum,
      List.idxOf_cons_self, List.length_cons, sum_range_succ]
    refine ⟨by omega, fun h => ?_⟩
    rw [List.prefix_cons_inj]
    exact heq (by omega)

end Positions

/-! ## Pairing lists -/

theorem zip_flatMap {α β γ : Type} {f : α → List β} {g : α → List γ} {l : List α}
    (h : ∀ a ∈ l, (f a).length = (g a).length) :
    (l.flatMap f).zip (l.flatMap g) = l.flatMap fun a => (f a).zip (g a) := by
  induction l with
  | nil => rfl
  | cons a l ih =>
    rw [List.forall_mem_cons] at h
    rw [List.flatMap_cons, List.flatMap_cons, List.flatMap_cons, List.zip_append h.1, ih h.2]

theorem map_flatten_zipIdx {α β : Type} (ls : List (List α)) (f : α → β) :
    ls.flatten.map f = ls.zipIdx.flatMap fun l => l.1.map f := by
  rw [List.map_flatten, ← List.flatMap_def]
  conv_lhs => rw [← List.zipIdx_map_fst 0 ls]
  rw [List.flatMap_map]

/-- A longer partner adds nothing. -/
theorem zip_prefix_eq {α β : Type} {l t : List α} (h : l <+: t) {values : List β}
    (hlength : values.length = l.length) : t.zip values = l.zip values := by
  obtain ⟨rest, rfl⟩ := h
  have hzip := @List.zip_append _ _ l rest values [] hlength.symm
  rwa [List.append_nil, List.zip_nil_right, List.append_nil] at hzip

/-! ## Selections from a list -/

/-- What is selected is the first part of a larger selection if none of the rest of that comes
before it. -/
theorem filter_prefix_filter_iff {α : Type} {p q : α → Bool} {l : List α} (h : ∀ a, p a = true → q a = true) :
    l.filter p <+: l.filter q ↔ l.Pairwise fun a b => p b = true → q a = true → p a = true := by
  induction l with
  | nil => exact iff_of_true List.nil_prefix List.Pairwise.nil
  | cons a l ih =>
    rw [List.pairwise_cons]
    cases hp : p a with
    | true =>
      rw [List.filter_cons_of_pos hp, List.filter_cons_of_pos (h a hp), List.prefix_cons_inj, ih]
      exact ⟨fun hl => ⟨fun _ _ _ _ => rfl, hl⟩, fun hl => hl.2⟩
    | false =>
      rw [List.filter_cons_of_neg (by rw [hp]; exact Bool.false_ne_true)]
      cases hq : q a with
      | false =>
        rw [List.filter_cons_of_neg (by rw [hq]; exact Bool.false_ne_true), ih]
        exact ⟨fun hl => ⟨fun _ _ _ hfalse => absurd hfalse Bool.false_ne_true, hl⟩, fun hl => hl.2⟩
      | true =>
        rw [List.filter_cons_of_pos hq]
        constructor
        · intro hprefix
          have hnil : l.filter p = [] := by
            cases hfilter : l.filter p with
            | nil => rfl
            | cons b rest =>
              rw [hfilter, List.cons_prefix_cons] at hprefix
              have hb : b ∈ l.filter p := by rw [hfilter]; exact List.mem_cons_self
              have hpb := (List.mem_filter.mp hb).2
              rw [ hprefix.1, hp] at hpb
              cases hpb
          have hnone := List.filter_eq_nil_iff.mp hnil
          exact ⟨fun b hb hpb => absurd hpb (hnone b hb),
            List.pairwise_of_forall_mem_list fun _ _ b hb hpb => absurd hpb (hnone b hb)⟩
        · intro hl
          have hnil : l.filter p = [] :=
            List.filter_eq_nil_iff.mpr fun b hb hpb => absurd (hl.1 b hb hpb rfl) Bool.false_ne_true
          rw [hnil]
          exact List.nil_prefix

/-! ## Rising lists -/

/-- From one position of a rising list to another its numbers rise at least as much as the
positions. -/
theorem add_le_of_pairwise_lt {l : List Nat} (h : l.Pairwise (· < ·)) {i : Nat} (k : Nat)
    (hi : i + k < l.length) : l.get ⟨i, by omega⟩ + k ≤ l.get ⟨i + k, hi⟩ := by
  induction k with
  | zero => exact Nat.le_refl _
  | succ k ih =>
    have hstep := List.pairwise_iff_get.mp h ⟨i + k, by omega⟩ ⟨i + (k + 1), hi⟩
      (by show i + k < i + (k + 1); omega)
    have hle := ih (by omega)
    omega

/-- A rising list of numbers below its length is the list of the positions. -/
theorem get_eq_of_pairwise_lt {l : List Nat} (h : l.Pairwise (· < ·))
    (hlt : ∀ n ∈ l, n < l.length) {i : Nat} (hi : i < l.length) : l.get ⟨i, hi⟩ = i := by
  have hbelow := add_le_of_pairwise_lt h (i := 0) i (by omega)
  have habove := add_le_of_pairwise_lt h (i := i) (l.length - 1 - i) (by omega)
  have hlast := hlt _ (List.get_mem l ⟨i + (l.length - 1 - i), by omega⟩)
  have hzero : l.get ⟨0 + i, by omega⟩ = l.get ⟨i, hi⟩ := by
    congr 2
    omega
  omega

end Base
end Rocprofsys
