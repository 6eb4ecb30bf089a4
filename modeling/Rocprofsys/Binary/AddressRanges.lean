import Mathlib.Algebra.Order.Ring.Int
import Mathlib.Data.Prod.Lex
import Rocprofsys.Causal.BinaryInfo

namespace Rocprofsys
namespace Causal
namespace AddressRange

/-! ## Constructing and comparing address ranges -/

/-- `address_range{ _low, _high }`, which throws `std::invalid_argument` for a high address below
the low one. -/
def construct (low high : UInt64) : Option AddressRange :=
  if high < low then none else some ⟨low, high⟩

/-- `operator<`. -/
def lt (r v : AddressRange) : Bool :=
  if r.isRange && !v.isRange then if r.low == v.low then true else r.low < v.low
  else if !r.isRange && v.isRange then if r.low == v.low then false else r.low < v.low
  else if !r.isRange && !v.isRange then r.low < v.low
  else r.low < v.low || !(v.low < r.low) && r.high < v.high

/-- Ranges come by their low address, in front of a single address with the same one, and then by
their high address. -/
def rank (r : AddressRange) : ℕ ×ₗ ℕ ×ₗ ℕ :=
  toLex (r.low.toNat, toLex (if r.isRange then (0, r.high.toNat) else (1, 0)))

variable {r v : AddressRange} {low high : UInt64}

theorem toNat_min (v w : UInt64) : (min v w).toNat = min v.toNat w.toNat := by
  show (if v ≤ w then v else w).toNat = _
  split <;> rename_i h <;> rw [UInt64.le_iff_toNat_le] at h <;> omega

theorem toNat_max (v w : UInt64) : (max v w).toNat = max v.toNat w.toNat := by
  show (if v ≤ w then w else v).toNat = _
  split <;> rename_i h <;> rw [UInt64.le_iff_toNat_le] at h <;> omega

theorem low_le_high_of_isValid (h : r.isValid = true) : r.low ≤ r.high := by
  rw [isValid, Bool.and_eq_true, decide_eq_true_eq] at h
  exact h.1

theorem construct_eq_some_iff : construct low high = some r ↔ low ≤ high ∧ r = ⟨low, high⟩ := by
  rw [construct]
  split
  · rename_i h
    exact iff_of_false (fun h' => nomatch h') fun h' => absurd h'.1 (UInt64.not_le.mpr h)
  · rename_i h
    rw [Option.some_inj, and_iff_right (UInt64.not_lt.mp h), eq_comm]

theorem lt_iff_rank_lt : r.lt v = true ↔ r.rank < v.rank := by
  have hlow : r.low = v.low ↔ r.low.toNat = v.low.toNat := UInt64.toNat_inj.symm
  rw [rank, rank, Prod.Lex.toLex_lt_toLex, lt]
  cases hr : r.isRange <;> cases hv : v.isRange <;>
    simp [Prod.Lex.toLex_lt_toLex, UInt64.lt_iff_toNat_lt, hlow] <;> omega

/-- Single addresses are compared as such. -/
theorem lt_of_not_isRange (hr : r.isRange = false) (hv : v.isRange = false) :
    r.lt v = true ↔ r.low.toNat < v.low.toNat := by
  rw [lt, hr, hv]
  show decide (r.low < v.low) = true ↔ _
  rw [decide_eq_true_eq, UInt64.lt_iff_toNat_lt]

/-- Of ordered ranges only equal ones are equivalent. -/
theorem eq_of_not_lt (hr : r.low ≤ r.high) (hv : v.low ≤ v.high) (hlt : ¬ r.lt v = true)
    (hgt : ¬ v.lt r = true) : r = v := by
  rw [lt_iff_rank_lt] at hlt hgt
  have hrank : r.rank = v.rank := le_antisymm (not_lt.mp hgt) (not_lt.mp hlt)
  have hlow : r.low = v.low := UInt64.toNat_inj.mp (congrArg (fun k => (ofLex k).1) hrank)
  have hrest := congrArg (fun k => ofLex (ofLex k).2) hrank
  simp only [rank, ofLex_toLex] at hrest
  have hhigh : r.high = v.high := by
    have hnotrange (w : AddressRange) (hw : w.low ≤ w.high) (h : ¬ w.isRange = true) :
        w.high = w.low := by
      rw [isRange, decide_eq_true_eq, UInt64.lt_iff_toNat_lt] at h
      rw [UInt64.le_iff_toNat_le] at hw
      exact UInt64.toNat_inj.mp (by omega)
    split at hrest
    · split at hrest
      · exact UInt64.toNat_inj.mp (Prod.mk.inj hrest).2
      · exact absurd (Prod.mk.inj hrest).1 Nat.zero_ne_one
    · rename_i h
      split at hrest
      · exact absurd (Prod.mk.inj hrest).1 Nat.one_ne_zero
      · rename_i h'
        rw [hnotrange r hr h, hnotrange v hv h', hlow]
  cases r
  cases v
  exact AddressRange.mk.injEq _ _ _ _ ▸ ⟨hlow, hhigh⟩

theorem isRange_iff : isRange ⟨low, high⟩ = true ↔ low.toNat < high.toNat := by
  rw [isRange, decide_eq_true_eq, UInt64.lt_iff_toNat_lt]

/-- A range has its low address and those up to the high one. -/
theorem contains_iff (h : low.toNat ≤ high.toNat) {a : UInt64} : contains ⟨low, high⟩ a = true ↔
    low.toNat ≤ a.toNat ∧ (a.toNat < high.toNat ∨ a.toNat = low.toNat) := by
  have heq : a = low ↔ a.toNat = low.toNat := UInt64.toNat_inj.symm
  show (if isRange ⟨low, high⟩ then decide (low ≤ a) && decide (a < high) else a == low) = true ↔ _
  split
  · rename_i hrange
    rw [isRange_iff] at hrange
    rw [Bool.and_eq_true, decide_eq_true_eq, decide_eq_true_eq, UInt64.le_iff_toNat_le,
      UInt64.lt_iff_toNat_lt]
    omega
  · rename_i hrange
    rw [isRange_iff] at hrange
    rw [beq_iff_eq, heq]
    omega

end AddressRange
end Causal
end Rocprofsys
