import Mathlib.Data.Set.Card
import Mathlib.Order.Interval.Finset.Nat
import Rocprofsys.Binary.AddressRanges

namespace Rocprofsys
namespace Causal
namespace AddressRange

/-! ## Size and overlap of address ranges -/

def size (r : AddressRange) : UInt64 :=
  if r.low = r.high then 1
  else if r.low < r.high then r.high - r.low + 1 else r.low - r.high + 1

/-- The comparison of the signed differences, or nothing where their sum overflows. -/
def compareDiffs (diff lhsDiff rhsDiff : ℤ) : Option Bool :=
  if -2 ^ 63 ≤ lhsDiff + rhsDiff ∧ lhsDiff + rhsDiff < 2 ^ 63 then
    some (diff < lhsDiff + rhsDiff)
  else none

def overlaps (r v : AddressRange) : Option Bool :=
  if r.containsRange v then some false
  else compareDiffs (max r.high v.high - min r.low v.low).toInt64.toInt
    (r.high - r.low).toInt64.toInt (v.high - v.low).toInt64.toInt

/-! ## Ranges as sets of addresses -/

/-- Every address of `v` is one of `r`. -/
def Within (v r : AddressRange) : Prop := ∀ a, v.contains a = true → r.contains a = true

def Meet (r v : AddressRange) : Prop := ∃ a, r.contains a = true ∧ v.contains a = true

/-- The size is the number of addresses. -/
def SizeExact (r : AddressRange) : Prop := r.size.toNat = {a | r.contains a = true}.ncard

def ContainsExact (r v : AddressRange) : Prop := r.containsRange v = true ↔ Within v r

/-- `overlaps` is symmetric, and tells whether the ranges have an address in common but neither
contains the other. -/
def OverlapsExact (r v : AddressRange) : Prop :=
  ∃ b, r.overlaps v = some b ∧ v.overlaps r = some b ∧
    (b = true ↔ Meet r v ∧ ¬ Within v r ∧ ¬ Within r v)

def length (r : AddressRange) : ℕ := r.high.toNat - r.low.toNat

/-- From the lower start to the higher end. -/
def span (r v : AddressRange) : ℕ :=
  max r.high.toNat v.high.toNat - min r.low.toNat v.low.toNat

/-- A part of the range for which both differences are taken right, or wrong to the same effect. -/
def PartOf (v r : AddressRange) : Prop :=
  Within v r ∧ (v.length = 0 ∨ 2 ^ 63 ≤ v.length ∧ 3 * 2 ^ 63 ≤ r.length + v.length)

/-- Where `overlaps` is right: for equal ranges, a single address in a range, and ranges of which
neither contains the other unless the signed differences wrap around to another effect. -/
def OverlapsWhen (r v : AddressRange) : Prop :=
  r = v ∨ PartOf v r ∨ PartOf r v ∨
    (¬ Meet r v ∧ (span r v < 2 ^ 63 ∨ 2 ^ 63 ≤ r.length ∨ 2 ^ 63 ≤ v.length)) ∨
    (Meet r v ∧ ¬ Within v r ∧ ¬ Within r v ∧
      (r.length + v.length < 2 ^ 63 ∨ ¬ (r.length < 2 ^ 63 ↔ v.length < 2 ^ 63)))

variable {r v : AddressRange} {a : UInt64}

/-! ## The addresses -/

/-- The address behind the last one. -/
def stop (r : AddressRange) : ℕ := max r.high.toNat (r.low.toNat + 1)

theorem contains_iff_stop (hr : r.low ≤ r.high) :
    r.contains a = true ↔ r.low.toNat ≤ a.toNat ∧ a.toNat < r.stop := by
  rw [UInt64.le_iff_toNat_le] at hr
  rw [stop]
  have hiff := contains_iff hr (a := a)
  show contains ⟨r.low, r.high⟩ a = true ↔ _
  rw [hiff]
  omega

theorem stop_le (r : AddressRange) : r.stop ≤ 2 ^ 64 := by
  have hlow := r.low.toNat_lt
  have hhigh := r.high.toNat_lt
  rw [stop]
  omega

theorem low_lt_stop (r : AddressRange) : r.low.toNat < r.stop := by
  rw [stop]
  omega

theorem within_iff (hr : r.low ≤ r.high) (hv : v.low ≤ v.high) :
    Within v r ↔ r.low.toNat ≤ v.low.toNat ∧ v.stop ≤ r.stop := by
  constructor
  · intro h
    have hstop := stop_le v
    have hlow := low_lt_stop v
    have hlast : (UInt64.ofNat (v.stop - 1)).toNat = v.stop - 1 :=
      UInt64.toNat_ofNat_of_lt' (show v.stop - 1 < 2 ^ 64 by omega)
    have hfirst := h v.low ((contains_iff_stop hv).mpr ⟨le_rfl, hlow⟩)
    have hend := h (UInt64.ofNat (v.stop - 1)) ((contains_iff_stop hv).mpr (by omega))
    rw [contains_iff_stop hr] at hfirst hend
    omega
  · intro h a ha
    rw [contains_iff_stop hv] at ha
    rw [contains_iff_stop hr]
    omega

theorem meet_iff (hr : r.low ≤ r.high) (hv : v.low ≤ v.high) :
    Meet r v ↔ r.low.toNat < v.stop ∧ v.low.toNat < r.stop := by
  have hrlow := low_lt_stop r
  have hvlow := low_lt_stop v
  constructor
  · intro h
    obtain ⟨a, har, hav⟩ := h
    rw [contains_iff_stop hr] at har
    rw [contains_iff_stop hv] at hav
    omega
  · intro h
    -- the higher of the two starts
    rcases le_total r.low.toNat v.low.toNat with hle | hle
    · exact ⟨v.low, (contains_iff_stop hr).mpr (by omega), (contains_iff_stop hv).mpr (by omega)⟩
    · exact ⟨r.low, (contains_iff_stop hr).mpr (by omega), (contains_iff_stop hv).mpr (by omega)⟩

theorem meet_comm : Meet r v ↔ Meet v r :=
  exists_congr fun _ => and_comm

/-! ## size -/

theorem ncard_contains (hr : r.low ≤ r.high) :
    {a | r.contains a = true}.ncard = r.stop - r.low.toNat := by
  have himage : UInt64.toNat '' {a | r.contains a = true} = Set.Ico r.low.toNat r.stop := by
    ext n
    rw [Set.mem_image, Set.mem_Ico]
    constructor
    · rintro ⟨a, ha, rfl⟩
      exact (contains_iff_stop hr).mp ha
    · intro h
      have hstop := stop_le r
      have hn : (UInt64.ofNat n).toNat = n :=
        UInt64.toNat_ofNat_of_lt' (show n < 2 ^ 64 by omega)
      exact ⟨UInt64.ofNat n, (contains_iff_stop hr).mpr (by omega), hn⟩
  rw [← Set.ncard_image_of_injective _ fun a b => UInt64.toNat_inj.mp, himage,
    ← Finset.coe_Ico, Set.ncard_coe_finset, Nat.card_Ico]

theorem size_exact_iff (hr : r.low ≤ r.high) : SizeExact r ↔ r.low = r.high := by
  rw [SizeExact, ncard_contains hr, size, stop]
  have hlow := r.low.toNat_lt
  have hhigh := r.high.toNat_lt
  by_cases heq : r.low = r.high
  · rw [if_pos heq, ← heq]
    refine iff_of_true ?_ rfl
    show 1 = _
    omega
  · have hlt : r.low < r.high := UInt64.lt_of_le_of_ne hr heq
    rw [if_neg heq, if_pos hlt]
    rw [UInt64.lt_iff_toNat_lt] at hlt
    have hdiff : (r.high - r.low).toNat = r.high.toNat - r.low.toNat :=
      UInt64.toNat_sub_of_le _ _ hr
    have hone : (1 : UInt64).toNat = 1 := rfl
    have hsum := UInt64.toNat_add (r.high - r.low) 1
    refine iff_of_false (fun hsize => ?_) heq
    omega

/-! ## contains -/

theorem eq_iff_toNat : r = v ↔ r.low.toNat = v.low.toNat ∧ r.high.toNat = v.high.toNat := by
  cases r
  cases v
  rw [mk.injEq, UInt64.toNat_inj, UInt64.toNat_inj]

/-- A range contains itself and what lies in it, a single address only itself. -/
theorem containsRange_iff (hr : r.low ≤ r.high) (hv : v.low ≤ v.high) :
    r.containsRange v = true ↔ r = v ∨ r.low.toNat ≤ v.low.toNat ∧
      v.low.toNat < r.high.toNat ∧ v.high.toNat ≤ r.high.toNat := by
  have hhigh : v.high = r.high ↔ v.high.toNat = r.high.toNat := UInt64.toNat_inj.symm
  rw [containsRange, Bool.or_eq_true, Bool.and_eq_true, Bool.or_eq_true, beq_iff_eq, beq_iff_eq,
    contains_iff_stop hr, contains_iff_stop hr, eq_iff_toNat, hhigh, stop]
  rw [UInt64.le_iff_toNat_le] at hr hv
  omega

theorem within_of_containsRange (hr : r.low ≤ r.high) (hv : v.low ≤ v.high)
    (h : r.containsRange v = true) : Within v r := by
  rw [containsRange_iff hr hv] at h
  rw [within_iff hr hv]
  rcases h with rfl | h
  · exact ⟨le_rfl, le_rfl⟩
  · rw [stop, stop]
    omega

/-- Only the range of a single address is not told to be in that address. -/
theorem contains_exact_iff (hr : r.isValid = true) (hv : v.low ≤ v.high) :
    ContainsExact r v ↔ ¬ (r.low = r.high ∧ v = ⟨r.low, r.low + 1⟩) := by
  rw [isValid, Bool.and_eq_true, decide_eq_true_eq, decide_eq_true_eq] at hr
  obtain ⟨hr, htop⟩ := hr
  rw [UInt64.lt_iff_toNat_lt, UInt64.toNat_add] at htop
  have hone : (1 : UInt64).toNat = 1 := rfl
  have hlow := r.low.toNat_lt
  have hnext : (r.low + 1).toNat = r.low.toNat + 1 := by
    rw [UInt64.toNat_add]
    omega
  have hsingle : r.low = r.high ↔ r.low.toNat = r.high.toNat := UInt64.toNat_inj.symm
  have hunit : v = ⟨r.low, r.low + 1⟩ ↔
      v.low.toNat = r.low.toNat ∧ v.high.toNat = r.low.toNat + 1 := by
    rw [eq_iff_toNat, ← hnext]
  rw [ContainsExact, containsRange_iff hr hv, within_iff hr hv, hunit, eq_iff_toNat, hsingle, stop,
    stop]
  rw [UInt64.le_iff_toNat_le] at hr hv
  omega

/-! ## overlaps -/

/-- What a difference is as a signed number. -/
def signed (n : ℕ) : ℤ := if n < 2 ^ 63 then n else n - 2 ^ 64

theorem toInt_toInt64 (d : UInt64) : d.toInt64.toInt = signed d.toNat := by
  have hlt := d.toNat_lt
  rw [signed]
  show d.toBitVec.toInt = _
  rw [BitVec.toInt_eq_toNat_cond]
  show (if 2 * d.toNat < 2 ^ 64 then (d.toNat : ℤ) else d.toNat - (2 ^ 64 : ℕ)) = _
  split <;> split <;> omega

theorem overlaps_eq (hr : r.low ≤ r.high) (hv : v.low ≤ v.high)
    (h : ¬ r.containsRange v = true) :
    r.overlaps v = compareDiffs (signed (span r v)) (signed r.length) (signed v.length) := by
  have hdiff : (max r.high v.high - min r.low v.low).toNat = span r v := by
    rw [UInt64.toNat_sub_of_le, toNat_max, toNat_min, span]
    rw [UInt64.le_iff_toNat_le] at hr hv ⊢
    rw [toNat_max, toNat_min]
    omega
  rw [overlaps, if_neg h, toInt_toInt64, toInt_toInt64, toInt_toInt64, hdiff,
    UInt64.toNat_sub_of_le _ _ hr, UInt64.toNat_sub_of_le _ _ hv, length, length]

theorem compareDiffs_comm (diff d d' : ℤ) : compareDiffs diff d d' = compareDiffs diff d' d := by
  rw [compareDiffs, compareDiffs, Int.add_comm]

theorem span_comm : span r v = span v r := by
  rw [span, span, max_comm, min_comm]

theorem compareDiffs_eq_some_iff {diff d d' : ℤ} {b : Bool} :
    compareDiffs diff d d' = some b ↔
      (-2 ^ 63 ≤ d + d' ∧ d + d' < 2 ^ 63) ∧ (b = true ↔ diff < d + d') := by
  rw [compareDiffs]
  split
  · rename_i hfits
    rw [Option.some_inj, and_iff_right hfits, eq_comm, Bool.eq_iff_iff, decide_eq_true_eq]
  · rename_i hfits
    exact iff_of_false (fun h => by cases h) fun h => hfits h.1

theorem exists_compareDiffs_iff {diff d d' : ℤ} {p : Prop} :
    (∃ b, compareDiffs diff d d' = some b ∧ (b = true ↔ p)) ↔
      (-2 ^ 63 ≤ d + d' ∧ d + d' < 2 ^ 63) ∧ (diff < d + d' ↔ p) := by
  constructor
  · intro ⟨b, hb, hp⟩
    rw [compareDiffs_eq_some_iff] at hb
    exact ⟨hb.1, hb.2.symm.trans hp⟩
  · intro h
    exact ⟨decide (diff < d + d'), compareDiffs_eq_some_iff.mpr ⟨h.1, decide_eq_true_iff⟩,
      decide_eq_true_iff.trans h.2⟩

/-- Lengths that leave the span room between them. -/
theorem compareDiffs_apart_iff {l m n : ℕ} (hsum : l + m ≤ n) (hn : n < 2 ^ 64) :
    (-2 ^ 63 ≤ signed l + signed m ∧ signed l + signed m < 2 ^ 63) ∧
        ¬ signed n < signed l + signed m ↔
      n < 2 ^ 63 ∨ 2 ^ 63 ≤ l ∨ 2 ^ 63 ≤ m := by
  rw [signed, signed, signed]
  split <;> split <;> split <;> omega

/-- Lengths that take up more than the span. -/
theorem compareDiffs_across_iff {l m n : ℕ} (hl : l < n) (hm : m < n) (hsum : n < l + m)
    (hn : n < 2 ^ 64) :
    (-2 ^ 63 ≤ signed l + signed m ∧ signed l + signed m < 2 ^ 63) ∧
        signed n < signed l + signed m ↔
      l + m < 2 ^ 63 ∨ ¬ (l < 2 ^ 63 ↔ m < 2 ^ 63) := by
  rw [signed, signed, signed]
  split <;> split <;> split <;> omega

theorem overlapsExact_comm : OverlapsExact r v ↔ OverlapsExact v r := by
  refine exists_congr fun b => ?_
  rw [meet_comm, and_left_comm, and_comm (a := ¬ Within v r)]

theorem overlapsWhen_comm : OverlapsWhen r v ↔ OverlapsWhen v r := by
  have hlengths : (r.length < 2 ^ 63 ↔ v.length < 2 ^ 63) ↔
      (v.length < 2 ^ 63 ↔ r.length < 2 ^ 63) := iff_comm
  rw [OverlapsWhen, OverlapsWhen, eq_comm, or_left_comm (a := PartOf v r), meet_comm, span_comm,
    or_comm (a := 2 ^ 63 ≤ r.length), and_left_comm (a := ¬ Within v r), Nat.add_comm, hlengths]

/-- What is asked of a range that strictly contains the other. -/
theorem overlapsWhen_of_contains (hr : r.low ≤ r.high) (hv : v.low ≤ v.high) (hne : r ≠ v)
    (h : r.containsRange v = true) : OverlapsWhen r v ↔
      v.length = 0 ∨ 2 ^ 63 ≤ v.length ∧ 3 * 2 ^ 63 ≤ r.length + v.length := by
  have hwithin : Within v r := within_of_containsRange hr hv h
  rw [containsRange_iff hr hv, or_iff_right hne] at h
  rw [ne_eq, eq_iff_toNat] at hne
  constructor
  · intro hwhen
    rcases hwhen with heq | hpart | hpart | hapart | hcross
    · exact absurd (eq_iff_toNat.mp heq) hne
    · exact hpart.2
    · -- the two are the same set, so that `v` is a single address
      have hback := (within_iff hv hr).mp hpart.1
      rw [stop, stop] at hback
      left
      rw [length]
      omega
    · rw [meet_iff hr hv] at hapart
      have hlow := low_lt_stop v
      have hin := (within_iff hr hv).mp hwithin
      omega
    · exact absurd hwithin hcross.2.1
  · exact fun hlength => Or.inr (Or.inl ⟨hwithin, hlength⟩)

/-- A range that strictly contains the other: only one of the two calls sees that. -/
theorem overlaps_exact_of_contains (hr : r.low ≤ r.high) (hv : v.low ≤ v.high) (hne : r ≠ v)
    (h : r.containsRange v = true) : OverlapsExact r v ↔ OverlapsWhen r v := by
  have hwithin : Within v r := within_of_containsRange hr hv h
  have hinside := (containsRange_iff hr hv).mp h
  rw [or_iff_right hne] at hinside
  have hother := mt eq_iff_toNat.mpr hne
  have hordered := UInt64.le_iff_toNat_le.mp hv
  have hnot : ¬ v.containsRange r = true := by
    rw [containsRange_iff hv hr, eq_iff_toNat]
    omega
  have hoverlaps : r.overlaps v = some false := if_pos h
  have hexact : OverlapsExact r v ↔ v.overlaps r = some false := by
    constructor
    · intro ⟨b, hb, hb', _⟩
      rw [hoverlaps, Option.some_inj] at hb
      rw [hb', hb]
    · intro hfalse
      exact ⟨false, hoverlaps, hfalse, iff_of_false Bool.false_ne_true fun h => h.2.1 hwithin⟩
  have hspan : span v r = r.length := by
    rw [span, length]
    omega
  rw [hexact, overlapsWhen_of_contains hr hv hne h, overlaps_eq hv hr hnot, hspan,
    compareDiffs_eq_some_iff, signed, signed]
  have hlength : v.length < r.length := by
    rw [length, length]
    omega
  have hlong : r.length < 2 ^ 64 := (Nat.sub_le _ _).trans_lt r.high.toNat_lt
  split <;> split <;> simp only [Bool.false_eq_true, false_iff, not_lt] <;> omega

/-- Where neither is told to contain the other, neither is part of the other. -/
theorem not_within_of_not_contains (hr : r.low ≤ r.high) (hv : v.low ≤ v.high)
    (hrv : ¬ r.containsRange v = true) (hvr : ¬ v.containsRange r = true) : ¬ Within v r := by
  rw [containsRange_iff hr hv, eq_iff_toNat] at hrv
  rw [containsRange_iff hv hr, eq_iff_toNat] at hvr
  rw [within_iff hr hv, stop, stop]
  rw [UInt64.le_iff_toNat_le] at hr hv
  omega

theorem length_add_le_span (hr : r.low ≤ r.high) (hv : v.low ≤ v.high) (h : ¬ Meet r v) :
    r.length + v.length ≤ span r v := by
  rw [meet_iff hr hv, stop, stop] at h
  rw [UInt64.le_iff_toNat_le] at hr hv
  rw [length, length, span]
  omega

theorem span_lt_length_add (hr : r.low ≤ r.high) (hv : v.low ≤ v.high) (h : Meet r v)
    (hvr : ¬ Within v r) (hrv : ¬ Within r v) :
    r.length < span r v ∧ v.length < span r v ∧ span r v < r.length + v.length := by
  rw [meet_iff hr hv] at h
  rw [within_iff hr hv] at hvr
  rw [within_iff hv hr] at hrv
  rw [UInt64.le_iff_toNat_le] at hr hv
  rw [stop, stop] at h hvr hrv
  rw [length, length, span]
  omega

theorem span_lt (r v : AddressRange) : span r v < 2 ^ 64 := by
  have hr := r.high.toNat_lt
  have hv := v.high.toNat_lt
  rw [span]
  omega

/-- Two ranges of which neither is told to contain the other. -/
theorem overlaps_exact_of_not_contains (hr : r.low ≤ r.high) (hv : v.low ≤ v.high)
    (hrv : ¬ r.containsRange v = true) (hvr : ¬ v.containsRange r = true) :
    OverlapsExact r v ↔ OverlapsWhen r v := by
  have hin : ¬ Within v r := not_within_of_not_contains hr hv hrv hvr
  have hin' : ¬ Within r v := not_within_of_not_contains hv hr hvr hrv
  have hne : r ≠ v := fun heq => hrv ((containsRange_iff hr hv).mpr (Or.inl heq))
  have hpart : ¬ PartOf v r := fun h => hin h.1
  have hpart' : ¬ PartOf r v := fun h => hin' h.1
  have hback : v.overlaps r = r.overlaps v := by
    rw [overlaps_eq hr hv hrv, overlaps_eq hv hr hvr, span_comm, compareDiffs_comm]
  have hexact : OverlapsExact r v ↔ ∃ b, r.overlaps v = some b ∧ (b = true ↔ Meet r v) := by
    refine exists_congr fun b => ?_
    rw [hback, and_iff_left (show ¬ Within v r ∧ ¬ Within r v from ⟨hin, hin'⟩), ← and_assoc,
      and_self]
  rw [hexact, overlaps_eq hr hv hrv, exists_compareDiffs_iff, OverlapsWhen, or_iff_right hne,
    or_iff_right hpart, or_iff_right hpart', and_iff_right hin, and_iff_right hin']
  by_cases hmeet : Meet r v
  · obtain ⟨hlt, hlt', hsum⟩ := span_lt_length_add hr hv hmeet hin hin'
    rw [iff_true_right hmeet, and_iff_right hmeet, or_iff_right fun h => h.1 hmeet]
    exact compareDiffs_across_iff hlt hlt' hsum (span_lt r v)
  · rw [iff_false_right hmeet, and_iff_right hmeet, or_iff_left fun h => hmeet h.1]
    exact compareDiffs_apart_iff (length_add_le_span hr hv hmeet) (span_lt r v)

theorem overlaps_exact_iff (hr : r.low ≤ r.high) (hv : v.low ≤ v.high) :
    OverlapsExact r v ↔ OverlapsWhen r v := by
  by_cases heq : r = v
  · subst heq
    have hself : r.containsRange r = true := (containsRange_iff hr hr).mpr (Or.inl rfl)
    have hwithin : Within r r := within_of_containsRange hr hr hself
    refine iff_of_true ⟨false, if_pos hself, if_pos hself, ?_⟩ (Or.inl rfl)
    exact iff_of_false Bool.false_ne_true fun h => h.2.1 hwithin
  · by_cases hrv : r.containsRange v = true
    · exact overlaps_exact_of_contains hr hv heq hrv
    · by_cases hvr : v.containsRange r = true
      · rw [overlapsExact_comm, overlapsWhen_comm]
        exact overlaps_exact_of_contains hv hr (Ne.symm heq) hvr
      · exact overlaps_exact_of_not_contains hr hv hrv hvr

/-- Where the operations on valid ranges are those on the sets of their addresses. -/
theorem exact_iff (r v : AddressRange) (hr : r.isValid = true) (hv : v.isValid = true) :
    (SizeExact r ↔ r.low = r.high) ∧
      (ContainsExact r v ↔ ¬ (r.low = r.high ∧ v = ⟨r.low, r.low + 1⟩)) ∧
      (OverlapsExact r v ↔ OverlapsWhen r v) := by
  have hrordered := low_le_high_of_isValid hr
  have hvordered := low_le_high_of_isValid hv
  exact ⟨size_exact_iff hrordered, contains_exact_iff hr hvordered,
    overlaps_exact_iff hrordered hvordered⟩

/-- An address in a range. -/
theorem exact_of_address : SizeExact ⟨5000, 5000⟩ ∧ ContainsExact ⟨5000, 5000⟩ ⟨4096, 8192⟩ ∧
    OverlapsExact ⟨5000, 5000⟩ ⟨4096, 8192⟩ := by
  have h := exact_iff ⟨5000, 5000⟩ ⟨4096, 8192⟩ (by decide) (by decide)
  have hwithin : Within ⟨5000, 5000⟩ ⟨4096, 8192⟩ :=
    (within_iff (by decide) (by decide)).mpr (by decide)
  exact ⟨h.1.mpr rfl, h.2.1.mpr (by decide),
    h.2.2.mpr (Or.inr (Or.inr (Or.inl ⟨hwithin, Or.inl rfl⟩)))⟩

/-- Two addresses, one address as a range, and a range in the middle of another. -/
theorem not_exact_of_ranges :
    ¬ SizeExact ⟨4096, 4098⟩ ∧ ¬ ContainsExact ⟨4096, 4096⟩ ⟨4096, 4097⟩ ∧
      ¬ OverlapsExact ⟨4096, 8192⟩ ⟨5000, 6000⟩ := by
  refine ⟨?_, ?_, ?_⟩
  · rw [size_exact_iff (by decide)]
    decide
  · rw [contains_exact_iff (by decide) (by decide)]
    decide
  · intro ⟨b, hb, hb', _⟩
    have hfirst : overlaps ⟨4096, 8192⟩ ⟨5000, 6000⟩ = some false := by decide
    have hsecond : overlaps ⟨5000, 6000⟩ ⟨4096, 8192⟩ = some true := by decide
    rw [hfirst, Option.some_inj] at hb
    rw [hsecond, Option.some_inj, ← hb] at hb'
    cases hb'

end AddressRange
end Causal
end Rocprofsys
