import Rocprofsys.Base.ComparedSet
import Rocprofsys.Binary.AddressRanges

namespace Rocprofsys
namespace Causal

open Base

namespace AddressRange

/-! ## The order of the ranges -/

/-- `operator==`. -/
def eq (r v : AddressRange) : Bool := r.low == v.low && r.high == v.high

/-- `operator>`. -/
def gt (r v : AddressRange) : Bool := !r.lt v && !r.eq v

variable {r v w : AddressRange}

theorem eq_iff : r.eq v = true ↔ r = v := by
  cases r
  cases v
  rw [eq, Bool.and_eq_true, beq_iff_eq, beq_iff_eq, mk.injEq]

/-- Ranges with ordered addresses are ordered by their ranks. -/
theorem totalOn_lt : TotalOn lt fun r => r.low ≤ r.high where
  irrefl r _ := by
    rw [Bool.eq_false_iff, ne_eq, lt_iff_rank_lt]
    exact lt_irrefl r.rank
  trans r v w _ _ _ hrv hvw := by
    rw [lt_iff_rank_lt] at hrv hvw ⊢
    exact hrv.trans hvw
  eq_of_not_lt r v hr hv hlt hgt :=
    eq_of_not_lt hr hv (Bool.eq_false_iff.mp hlt) (Bool.eq_false_iff.mp hgt)

theorem totalOn_isValid : TotalOn lt fun r => r.isValid = true :=
  totalOn_lt.imp fun _ h => low_le_high_of_isValid h

/-- The comparisons are a strict total order of the ranges that satisfy `valid`, and a sorted set of
them has, and finds, all that has been inserted. -/
structure OrdersTotally (valid : AddressRange → Prop) : Prop where
  irrefl : ∀ a, valid a → a.lt a = false
  trans : ∀ a b c, valid a → valid b → valid c → a.lt b = true → b.lt c = true → a.lt c = true
  exactlyOne : ∀ a b, valid a → valid b →
    (a.lt b = true ∧ a.eq b = false ∧ b.lt a = false) ∨
      (a.lt b = false ∧ a.eq b = true ∧ b.lt a = false) ∨
      (a.lt b = false ∧ a.eq b = false ∧ b.lt a = true)
  gt : ∀ a b, valid a → valid b → a.gt b = b.lt a
  keeps : ∀ inserted : List AddressRange, (∀ r ∈ inserted, valid r) →
    (setBy lt inserted).Pairwise (fun a b => a.lt b = true) ∧
      ∀ r, r ∈ setBy lt inserted ↔ r ∈ inserted
  finds : ∀ inserted : List AddressRange, (∀ r ∈ inserted, valid r) → ∀ r, valid r →
    findBy lt r (setBy lt inserted) = if r ∈ inserted then some r else none

theorem exactlyOne_of_totalOn {valid : AddressRange → Prop} (h : TotalOn lt valid) (hr : valid r)
    (hv : valid v) :
    (r.lt v = true ∧ r.eq v = false ∧ v.lt r = false) ∨
      (r.lt v = false ∧ r.eq v = true ∧ v.lt r = false) ∨
      (r.lt v = false ∧ r.eq v = false ∧ v.lt r = true) := by
  have hne {a b : AddressRange} (ha : valid a) (hlt : a.lt b = true) : a ≠ b := by
    rintro rfl
    rw [h.irrefl a ha] at hlt
    cases hlt
  by_cases hlt : r.lt v = true
  · exact Or.inl ⟨hlt, Bool.eq_false_iff.mpr fun heq => hne hr hlt (eq_iff.mp heq),
      h.asymm hr hv hlt⟩
  · rw [Bool.not_eq_true] at hlt
    by_cases hgt : v.lt r = true
    · exact Or.inr (Or.inr ⟨hlt, Bool.eq_false_iff.mpr fun heq => hne hv hgt (eq_iff.mp heq).symm,
        hgt⟩)
    · rw [Bool.not_eq_true] at hgt
      exact Or.inr (Or.inl ⟨hlt, eq_iff.mpr (h.eq_of_not_lt r v hr hv hlt hgt), hgt⟩)

theorem gt_eq_of_totalOn {valid : AddressRange → Prop} (h : TotalOn lt valid) (hr : valid r)
    (hv : valid v) : r.gt v = v.lt r := by
  rw [gt]
  rcases exactlyOne_of_totalOn h hr hv with hcase | hcase | hcase
  · rw [hcase.1, hcase.2.2]
    rfl
  · rw [hcase.1, hcase.2.1, hcase.2.2]
    rfl
  · rw [hcase.1, hcase.2.1, hcase.2.2]
    rfl

/-- The valid ranges are totally ordered, and sorted sets of them are complete. -/
theorem ordersTotally_isValid : OrdersTotally fun r => r.isValid = true where
  irrefl := totalOn_isValid.irrefl
  trans := totalOn_isValid.trans
  exactlyOne a b ha hb := exactlyOne_of_totalOn totalOn_isValid ha hb
  gt a b ha hb := gt_eq_of_totalOn totalOn_isValid ha hb
  keeps inserted hinserted := totalOn_isValid.setBy_spec hinserted
  finds inserted hinserted r hr := by
    obtain ⟨hsorted, hmem⟩ := totalOn_isValid.setBy_spec hinserted
    have hset : ∀ v ∈ setBy lt inserted, v.isValid = true :=
      fun v hv => hinserted v ((hmem v).mp hv)
    have hfind (v : AddressRange) :
        findBy lt r (setBy lt inserted) = some v ↔ v = r ∧ r ∈ inserted := by
      rw [totalOn_isValid.findBy_eq_some_iff hr hset hsorted, hmem]
    split
    · rename_i hin
      exact (hfind r).mpr ⟨rfl, hin⟩
    · rename_i hout
      rw [Option.eq_none_iff_forall_ne_some]
      exact fun v hv => hout ((hfind v).mp hv).2

end AddressRange
end Causal
end Rocprofsys
