import Mathlib.Algebra.BigOperators.Group.List.Basic
import Mathlib.Algebra.Order.BigOperators.Group.List
import Mathlib.Algebra.Order.Field.Rat
import Mathlib.Algebra.Order.Positive.Ring
import Mathlib.Tactic.FieldSimp
import Mathlib.Tactic.Linarith
import Mathlib.Tactic.Positivity
import Mathlib.Tactic.Ring

namespace Rocprofsys
namespace Base

abbrev Positive := {x : ℚ // 0 < x}

def Positive.one : Positive := ⟨1, by decide⟩

def Positive.two : Positive := ⟨2, by decide⟩

/-- How often something happened, and in which time. -/
structure Sample where
  delta : Positive
  duration : Positive

namespace Sample

variable {l : List Sample}

def add (s t : Sample) : Sample := ⟨s.delta + t.delta, s.duration + t.duration⟩

/-- The time of one time. -/
def rate (s : Sample) : ℚ := s.duration / s.delta

/-- The time of one time, over all samples. -/
def mean (l : List Sample) : ℚ :=
  (l.map fun s => (s.duration : ℚ)).sum / (l.map fun s => (s.delta : ℚ)).sum

/-- The sum of the samples, if there are any. -/
def total (l : List Sample) : Option Sample :=
  l.foldl (fun o s => some (o.elim s fun t => t.add s)) none

theorem foldl_add (l : List Sample) (t : Sample) :
    ∃ u, l.foldl (fun o s => some (o.elim s fun t => t.add s)) (some t) = some u ∧
      (u.delta : ℚ) = t.delta + (l.map fun s => (s.delta : ℚ)).sum ∧
      (u.duration : ℚ) = t.duration + (l.map fun s => (s.duration : ℚ)).sum := by
  induction l generalizing t with
  | nil => exact ⟨t, rfl, (add_zero _).symm, (add_zero _).symm⟩
  | cons s l ih =>
    obtain ⟨u, hu, hdelta, hduration⟩ := ih (t.add s)
    refine ⟨u, hu, ?_, ?_⟩
    · rw [hdelta, List.map_cons, List.sum_cons, ← add_assoc]
      rfl
    · rw [hduration, List.map_cons, List.sum_cons, ← add_assoc]
      rfl

theorem total_eq_none_iff : total l = none ↔ l = [] := by
  cases l with
  | nil => exact iff_of_true rfl rfl
  | cons s l =>
    obtain ⟨u, hu, -⟩ := foldl_add l s
    exact iff_of_false (fun h => nomatch hu.symm.trans h) (List.cons_ne_nil _ _)

/-- The rate of the sum is the mean. -/
theorem rate_of_total {u : Sample} (h : total l = some u) : u.rate = mean l := by
  cases l with
  | nil => cases h
  | cons s l =>
    obtain ⟨v, hv, hdelta, hduration⟩ := foldl_add l s
    cases Option.some.inj (hv.symm.trans h)
    rw [rate, mean, hdelta, hduration]
    rfl

theorem exists_total (h : l ≠ []) : ∃ u, total l = some u ∧ u.rate = mean l := by
  obtain ⟨u, hu⟩ := Option.ne_none_iff_exists'.mp (fun hnone => h (total_eq_none_iff.mp hnone))
  exact ⟨u, hu, rate_of_total hu⟩

end Sample

/-! ## Weighing -/

section Weigh

variable {α : Type} {l : List α} {p q p' q' : α → Bool} {a b x y : ℚ}

/-- A sample of one unit of time, with twice the count where the predicate holds. -/
def weigh (p : α → Bool) (a : α) : Sample :=
  ⟨if p a then Positive.two else Positive.one, Positive.one⟩

theorem delta_weigh (p : α → Bool) (a : α) :
    ((weigh p a).delta : ℚ) = 1 + if p a = true then 1 else 0 := by
  unfold weigh
  split_ifs
  · show (2 : ℚ) = 1 + 1
    norm_num
  · exact (add_zero _).symm

theorem mean_weigh (p : α → Bool) (l : List α) :
    Sample.mean (l.map (weigh p)) = l.length / (l.length + l.countP p) := by
  have hduration : ((l.map (weigh p)).map fun s => (s.duration : ℚ)).sum = l.length := by
    induction l with
    | nil => simp
    | cons a l ih =>
      rw [List.map_cons, List.map_cons, List.sum_cons, ih, List.length_cons, Nat.cast_succ, add_comm]
      rfl
  have hdelta : ((l.map (weigh p)).map fun s => (s.delta : ℚ)).sum = l.length + l.countP p := by
    clear hduration
    induction l with
    | nil => simp
    | cons a l ih =>
      rw [List.map_cons, List.map_cons, List.sum_cons, ih, List.length_cons, List.countP_cons,
        delta_weigh, Nat.cast_add, Nat.cast_add, Nat.cast_ite, Nat.cast_one, Nat.cast_zero]
      ring
  rw [Sample.mean, hduration, hdelta]

theorem mean_weigh_eq_half (hne : l ≠ []) (h : ∀ a ∈ l, p a = true) :
    Sample.mean (l.map (weigh p)) = 1 / 2 := by
  have hpos : (l.length : ℚ) ≠ 0 := by simpa using hne
  rw [mean_weigh, List.countP_eq_length.mpr h]
  field_simp
  norm_num

theorem mean_weigh_eq_one (hne : l ≠ []) (h : ∀ a ∈ l, ¬ p a = true) :
    Sample.mean (l.map (weigh p)) = 1 := by
  have hpos : (l.length : ℚ) ≠ 0 := by simpa using hne
  rw [mean_weigh, List.countP_eq_zero.mpr h, Nat.cast_zero, add_zero, div_self hpos]

/-- With weights of one and two, a mean is between a half and one. -/
theorem mean_weigh_mem (p : α → Bool) (hne : l ≠ []) :
    1 / 2 ≤ Sample.mean (l.map (weigh p)) ∧ Sample.mean (l.map (weigh p)) ≤ 1 := by
  have hpos : 0 < (l.length : ℚ) := by simpa using List.length_pos_iff.mpr hne
  have hcount : ((l.countP p : ℕ) : ℚ) ≤ l.length := Nat.cast_le.mpr List.countP_le_length
  have hcount0 : (0 : ℚ) ≤ (l.countP p : ℕ) := Nat.cast_nonneg _
  rw [mean_weigh, div_le_div_iff₀ (by norm_num) (by linarith), div_le_one (by linarith)]
  constructor
  · linarith
  · linarith

theorem eq_of_ratio_eq_half (ha : 0 < a) (hb : 0 < b) (hx : 0 ≤ x) (hxa : x ≤ a) (hy : 0 ≤ y)
    (h : a / (a + x) / (b / (b + y)) = 1 / 2) : x = a := by
  rw [div_div_div_eq, div_eq_div_iff (by positivity) (by norm_num)] at h
  have hay : 0 ≤ a * y := mul_nonneg ha.le hy
  refine le_antisymm hxa (le_of_mul_le_mul_right ?_ hb)
  linarith

theorem eq_of_ratio_eq_two (ha : 0 < a) (hb : 0 < b) (hx : 0 ≤ x) (hyb : y ≤ b)
    (h : a / (a + x) / (b / (b + y)) = 2) : y = b := by
  rw [div_div_div_eq, div_eq_iff (by positivity)] at h
  have hxb : 0 ≤ x * b := mul_nonneg hx hb.le
  refine le_antisymm hyb (le_of_mul_le_mul_left ?_ ha)
  linarith

/-- Two ratios of means that agree for all weights are over the same elements; here one
inclusion. -/
theorem imp_of_ratio (hp : l.filter p ≠ []) (hq : l.filter q ≠ []) (hp' : l.filter p' ≠ [])
    (hq' : l.filter q' ≠ []) (hdisjoint : ∀ a ∈ l, p a = true → ¬ q a = true)
    (h : ∀ w : α → Bool,
      Sample.mean ((l.filter p').map (weigh w)) / Sample.mean ((l.filter q').map (weigh w)) =
        Sample.mean ((l.filter p).map (weigh w)) / Sample.mean ((l.filter q).map (weigh w))) :
    ∀ a ∈ l, (p' a = true → p a = true) ∧ (q' a = true → q a = true) := by
  have hp'pos : (0 : ℚ) < (l.filter p').length := by simpa using List.length_pos_iff.mpr hp'
  have hq'pos : (0 : ℚ) < (l.filter q').length := by simpa using List.length_pos_iff.mpr hq'
  have hcount : ∀ (w r : α → Bool), (((l.filter r).countP w : ℕ) : ℚ) ≤ (l.filter r).length :=
    fun w r => Nat.cast_le.mpr List.countP_le_length
  have hhalf := h p
  rw [mean_weigh_eq_half hp (fun a ha => (List.mem_filter.mp ha).2),
    mean_weigh_eq_one hq (fun a ha hpa =>
      hdisjoint a (List.mem_filter.mp ha).1 hpa (List.mem_filter.mp ha).2),
    mean_weigh, mean_weigh, div_one] at hhalf
  have hp'p := eq_of_ratio_eq_half hp'pos hq'pos (Nat.cast_nonneg _) (hcount p p')
    (Nat.cast_nonneg _) hhalf
  have htwo := h q
  rw [mean_weigh_eq_half hq (fun a ha => (List.mem_filter.mp ha).2),
    mean_weigh_eq_one hp (fun a ha hqa =>
      hdisjoint a (List.mem_filter.mp ha).1 (List.mem_filter.mp ha).2 hqa),
    mean_weigh, mean_weigh, one_div_one_div] at htwo
  have hq'q := eq_of_ratio_eq_two hp'pos hq'pos (Nat.cast_nonneg _) (hcount q q') htwo
  rw [Nat.cast_inj, List.countP_eq_length] at hp'p hq'q
  intro a ha
  exact ⟨fun h => hp'p a (List.mem_filter.mpr ⟨ha, h⟩),
    fun h => hq'q a (List.mem_filter.mpr ⟨ha, h⟩)⟩

theorem iff_of_ratio (hp : l.filter p ≠ []) (hq : l.filter q ≠ []) (hp' : l.filter p' ≠ [])
    (hq' : l.filter q' ≠ []) (hdisjoint : ∀ a ∈ l, p a = true → ¬ q a = true)
    (hdisjoint' : ∀ a ∈ l, p' a = true → ¬ q' a = true)
    (h : ∀ w : α → Bool,
      Sample.mean ((l.filter p').map (weigh w)) / Sample.mean ((l.filter q').map (weigh w)) =
        Sample.mean ((l.filter p).map (weigh w)) / Sample.mean ((l.filter q).map (weigh w))) :
    ∀ a ∈ l, (p' a = true ↔ p a = true) ∧ (q' a = true ↔ q a = true) := by
  intro a ha
  have hto := imp_of_ratio hp hq hp' hq' hdisjoint h a ha
  have hfrom := imp_of_ratio hp' hq' hp hq hdisjoint' (fun w => (h w).symm) a ha
  exact ⟨⟨hto.1, hfrom.1⟩, ⟨hto.2, hfrom.2⟩⟩

end Weigh

end Base
end Rocprofsys
