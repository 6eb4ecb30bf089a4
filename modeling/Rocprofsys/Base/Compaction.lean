import Mathlib.Data.List.Basic

namespace Rocprofsys
namespace Base

variable {α : Type} {p : α → Bool}

/-! ## Elements that stay at their places -/

/-- Nothing that is dropped stands before something that is kept. -/
def KeptFirst (p : α → Bool) (l : List α) : Prop := l.Pairwise fun a b => p b = true → p a = true

instance (l : List α) : Decidable (KeptFirst p l) :=
  inferInstanceAs (Decidable (l.Pairwise fun a b => p b = true → p a = true))

/-- Where nothing is kept, nothing is out of place. -/
theorem keptFirst_of_forall {l : List α} (h : ∀ a ∈ l, ¬ p a = true) : KeptFirst p l :=
  List.pairwise_of_forall_mem_list fun _ _ b hb hp => absurd hp (h b hb)

theorem filter_prefix_iff {l : List α} : l.filter p <+: l ↔ KeptFirst p l := by
  induction l with
  | nil => exact iff_of_true List.nil_prefix List.Pairwise.nil
  | cons a l ih =>
    rw [KeptFirst, List.pairwise_cons]
    by_cases ha : p a = true
    · rw [List.filter_cons_of_pos ha, List.prefix_cons_inj, ih, KeptFirst]
      exact (and_iff_right fun b _ _ => ha).symm
    · have hdrop : l.filter p <+: a :: l ↔ ∀ b ∈ l, ¬ p b = true := by
        constructor
        · intro h b hb hp
          cases hfilter : l.filter p with
          | nil => exact absurd (hfilter ▸ List.mem_filter.mpr ⟨hb, hp⟩) List.not_mem_nil
          | cons c rest =>
            rw [hfilter] at h
            obtain ⟨rfl, -⟩ := List.cons_prefix_cons.mp h
            exact ha (List.mem_filter.mp (hfilter ▸ List.mem_cons_self)).2
        · intro h
          rw [List.filter_eq_nil_iff.mpr h]
          exact List.nil_prefix
      rw [List.filter_cons_of_neg ha, hdrop]
      constructor
      · exact fun h => ⟨fun b hb hp => absurd hp (h b hb), keptFirst_of_forall h⟩
      · exact fun h b hb hp => ha (h.1 b hb hp)

/-! ## Two levels -/

/-- The elements kept of each list, and of these lists those with any. -/
def compact (p : α → Bool) (ls : List (List α)) : List (List α) :=
  (ls.map (List.filter p)).filter fun l => !l.isEmpty

def elementAt (ls : List (List α)) (x i : Nat) : Option α := ls[x]?.bind fun l => l[i]?

/-- Every element of `out` is the one of `src` at the same two positions. -/
def InPlace (out src : List (List α)) : Prop :=
  ∀ x i a, elementAt out x i = some a → elementAt src x i = some a

theorem inPlace_nil (src : List (List α)) : InPlace [] src := fun _ _ _ h => nomatch h

theorem inPlace_cons {l l' : List α} {out src : List (List α)} :
    InPlace (l :: out) (l' :: src) ↔ l <+: l' ∧ InPlace out src := by
  constructor
  · intro h
    refine ⟨List.prefix_iff_getElem?.mpr fun i hi => ?_, fun x i a => h (x + 1) i a⟩
    exact h 0 i l[i] (List.getElem?_eq_getElem hi)
  · rintro ⟨hstart, hrest⟩ x i a h
    cases x with
    | zero =>
      obtain ⟨hi, rfl⟩ := List.getElem?_eq_some_iff.mp (show l[i]? = some a from h)
      exact List.prefix_iff_getElem?.mp hstart i hi
    | succ x => exact hrest x i a h

theorem isEmpty_filter (l : List α) : (l.filter p).isEmpty = !l.any p := by
  cases hany : l.any p with
  | true =>
    obtain ⟨a, ha, hp⟩ := List.any_eq_true.mp hany
    exact List.isEmpty_eq_false_iff.mpr (List.ne_nil_of_mem (List.mem_filter.mpr ⟨ha, hp⟩))
  | false =>
    rw [List.any_eq_false] at hany
    rw [List.filter_eq_nil_iff.mpr hany]
    rfl

theorem compact_cons_of_any {l : List α} {ls : List (List α)} (h : l.any p = true) :
    compact p (l :: ls) = l.filter p :: compact p ls := by
  rw [compact, List.map_cons, List.filter_cons_of_pos (by rw [isEmpty_filter, h]; rfl), compact]

theorem compact_cons_of_not_any {l : List α} {ls : List (List α)} (h : ¬ l.any p = true) :
    compact p (l :: ls) = compact p ls := by
  rw [compact, List.map_cons, List.filter_cons_of_neg, compact]
  rw [isEmpty_filter, Bool.not_not]
  exact h

theorem compact_eq_nil {ls : List (List α)} (h : ∀ l ∈ ls, ¬ l.any p = true) :
    compact p ls = [] := by
  induction ls with
  | nil => rfl
  | cons l ls ih =>
    rw [List.forall_mem_cons] at h
    rw [compact_cons_of_not_any h.1, ih h.2]

/-- With something kept, the first list of the result begins with it. -/
theorem exists_elementAt_compact {ls : List (List α)} {l : List α} (hl : l ∈ ls)
    (hany : l.any p = true) :
    ∃ a i, p a = true ∧ elementAt (compact p ls) 0 i = some a := by
  induction ls with
  | nil => exact absurd hl List.not_mem_nil
  | cons l' ls ih =>
    by_cases hl' : l'.any p = true
    · obtain ⟨a, ha, hp⟩ := List.any_eq_true.mp hl'
      obtain ⟨i, hi⟩ := List.getElem?_of_mem (List.mem_filter.mpr ⟨ha, hp⟩)
      rw [compact_cons_of_any hl']
      exact ⟨a, i, hp, hi⟩
    · rw [compact_cons_of_not_any hl']
      rcases List.mem_cons.mp hl with rfl | hmem
      · exact absurd hany hl'
      · exact ih hmem

/-- Compaction moves nothing exactly if in each list, and among the lists, what is dropped
comes last. -/
theorem inPlace_compact_iff {ls : List (List α)} :
    InPlace (compact p ls) ls ↔
      (∀ l ∈ ls, KeptFirst p l) ∧ KeptFirst (fun l : List α => l.any p) ls := by
  induction ls with
  | nil =>
    exact iff_of_true (inPlace_nil _) ⟨fun _ h => absurd h List.not_mem_nil, List.Pairwise.nil⟩
  | cons l ls ih =>
    have hlists : KeptFirst (fun l : List α => l.any p) (l :: ls) ↔
        (∀ l' ∈ ls, l'.any p = true → l.any p = true) ∧ KeptFirst (fun l : List α => l.any p) ls :=
      List.pairwise_cons
    rw [List.forall_mem_cons, hlists]
    by_cases hl : l.any p = true
    · rw [compact_cons_of_any hl, inPlace_cons, filter_prefix_iff, ih]
      constructor
      · intro h
        obtain ⟨hfirst, hrest, hlists⟩ := h
        exact ⟨⟨hfirst, hrest⟩, fun _ _ _ => hl, hlists⟩
      · intro h
        obtain ⟨⟨hfirst, hrest⟩, -, hlists⟩ := h
        exact ⟨hfirst, hrest, hlists⟩
    · rw [compact_cons_of_not_any hl]
      have hnone : InPlace (compact p ls) (l :: ls) ↔ ∀ l' ∈ ls, ¬ l'.any p = true := by
        constructor
        · intro h l' hl' hany
          obtain ⟨a, i, hkept, helement⟩ := exists_elementAt_compact hl' hany
          have hmem : a ∈ l := List.mem_of_getElem? (h 0 i a helement)
          exact hl (List.any_eq_true.mpr ⟨a, hmem, hkept⟩)
        · intro h
          rw [compact_eq_nil h]
          exact inPlace_nil _
      rw [hnone]
      constructor
      · intro h
        refine ⟨⟨keptFirst_of_forall fun a ha hp => ?_, fun l' hl' =>
          keptFirst_of_forall fun a ha hp => ?_⟩, fun l' hl' hany => absurd hany (h l' hl'),
          keptFirst_of_forall h⟩
        · exact hl (List.any_eq_true.mpr ⟨a, ha, hp⟩)
        · exact h l' hl' (List.any_eq_true.mpr ⟨a, ha, hp⟩)
      · exact fun h l' hl' hany => hl (h.2.1 l' hl' hany)

end Base
end Rocprofsys
