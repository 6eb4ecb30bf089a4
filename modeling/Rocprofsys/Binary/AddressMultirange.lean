import Mathlib.Data.List.Induction
import Rocprofsys.Base.SortedBy
import Rocprofsys.Binary.AddressRanges

namespace Rocprofsys
namespace Binary

open Causal (AddressRange)

/-! ## Multiranges -/

/-- `address_multirange`. The order of the set of fine ranges has no influence. -/
structure AddressMultirange where
  coarseRange : AddressRange
  fineRanges : List AddressRange

/-- What `operator+=` takes: an address, or a range that the constructor has checked. -/
inductive Operand where
  | address (v : UInt64)
  | range (r : AddressRange) (ordered : r.low ≤ r.high)

namespace AddressMultirange

def empty : AddressMultirange := ⟨⟨UInt64.ofNat (2 ^ 64 - 1), 0⟩, []⟩

/-- `std::set::emplace`, which leaves out what is equivalent to a member. -/
def emplace (r : AddressRange) (fineRanges : List AddressRange) : List AddressRange :=
  if fineRanges.any fun f => !f.lt r && !r.lt f then fineRanges else r :: fineRanges

/-- The bounds that the coarse range is extended to. -/
def extend (m : AddressMultirange) (low high : UInt64) : Option AddressRange :=
  AddressRange.construct (min m.coarseRange.low low) (max m.coarseRange.high high)

/-- `operator+=`, or nothing where the coarse range throws. -/
def add (m : AddressMultirange) : Operand → Option AddressMultirange
  | .address v => (m.extend v (v + 1)).map fun coarseRange =>
      ⟨coarseRange, emplace ⟨v, v⟩ m.fineRanges⟩
  | .range r _ => (m.extend r.low r.high).map fun coarseRange =>
      ⟨coarseRange, emplace r m.fineRanges⟩

def contains (m : AddressMultirange) (v : UInt64) : Bool :=
  if !m.coarseRange.contains v then false else m.fineRanges.any fun r => r.contains v

/-- A sequence of `+=`. -/
def addAll (operands : List Operand) : Option AddressMultirange := operands.foldlM add empty

end AddressMultirange

namespace Operand

def Contains (a : UInt64) : Operand → Prop
  | address v => a = v
  | range r _ => r.contains a = true

def fine : Operand → AddressRange
  | address v => ⟨v, v⟩
  | range r _ => r

/-- Up to where the coarse range is extended. The sum wraps around. -/
def top : Operand → UInt64
  | address v => v + 1
  | range r _ => r.high

end Operand

/-- The multirange contains what has been added. -/
def ContainsAdded (operands : List Operand) : Prop :=
  ∃ m, AddressMultirange.addAll operands = some m ∧
    ∀ a, m.contains a = true ↔ ∃ o ∈ operands, o.Contains a

/-! ## What the coarse range covers -/

/-- The largest address. -/
def largest : UInt64 := UInt64.ofNat (2 ^ 64 - 1)

def StartsBelow (operands : List Operand) (v : UInt64) : Prop := ∃ o ∈ operands, o.fine.low < v

def ReachesAbove (operands : List Operand) (v : UInt64) : Prop := ∃ o ∈ operands, v < o.top

/-- The first operand is not the largest address, a range of one address is below the end of
another operand or not above the start of any, and nothing starts below the largest address if
that is added. -/
structure Covered (operands : List Operand) : Prop where
  first : operands.head? ≠ some (.address largest)
  single : ∀ r h, .range r h ∈ operands → r.low = r.high →
    ReachesAbove operands r.low ∨ ¬ StartsBelow operands r.low
  top : .address largest ∈ operands → ¬ StartsBelow operands largest

/-! ## What a sequence of additions leaves -/

section Additions

variable {operands : List Operand} {o : Operand} {m m' : AddressMultirange} {r : AddressRange}
  {a v w : UInt64}

theorem toNat_largest : largest.toNat = 2 ^ 64 - 1 := rfl

theorem fine_ordered (o : Operand) : o.fine.low ≤ o.fine.high := by
  cases o with
  | address v => exact UInt64.le_refl v
  | range r h => exact h

theorem contains_fine_iff : o.fine.contains a = true ↔ o.Contains a := by
  cases o with
  | address v =>
    show AddressRange.contains ⟨v, v⟩ a = true ↔ a = v
    rw [AddressRange.contains_iff le_rfl, ← UInt64.toNat_inj]
    omega
  | range r h => exact Iff.rfl

theorem mem_emplace {fineRanges : List AddressRange} {f : AddressRange}
    (hfine : ∀ f ∈ fineRanges, f.low ≤ f.high) (hr : r.low ≤ r.high) :
    f ∈ AddressMultirange.emplace r fineRanges ↔ f = r ∨ f ∈ fineRanges := by
  rw [AddressMultirange.emplace]
  split
  · rename_i h
    obtain ⟨g, hg, hequivalent⟩ := List.any_eq_true.mp h
    rw [Bool.and_eq_true, Bool.not_eq_true', Bool.not_eq_true'] at hequivalent
    have heq : g = r := AddressRange.eq_of_not_lt (hfine g hg) hr
      (Bool.eq_false_iff.mp hequivalent.1) (Bool.eq_false_iff.mp hequivalent.2)
    refine ⟨Or.inr, fun h => ?_⟩
    rcases h with rfl | h
    · exact heq ▸ hg
    · exact h
  · exact List.mem_cons

/-- What the coarse and the fine ranges are after these operands. -/
structure Spans (operands : List Operand) (m : AddressMultirange) : Prop where
  low_le : ∀ o ∈ operands, m.coarseRange.low.toNat ≤ o.fine.low.toNat
  top_le : ∀ o ∈ operands, o.top.toNat ≤ m.coarseRange.high.toNat
  low_eq : m.coarseRange.low.toNat = 2 ^ 64 - 1 ∨
    ∃ o ∈ operands, o.fine.low.toNat = m.coarseRange.low.toNat
  high_eq : m.coarseRange.high.toNat = 0 ∨
    ∃ o ∈ operands, o.top.toNat = m.coarseRange.high.toNat
  ordered : operands ≠ [] → m.coarseRange.low.toNat ≤ m.coarseRange.high.toNat
  fine : ∀ r, r ∈ m.fineRanges ↔ ∃ o ∈ operands, o.fine = r

theorem spans_empty : Spans [] .empty where
  low_le o h := absurd h List.not_mem_nil
  top_le o h := absurd h List.not_mem_nil
  low_eq := Or.inl rfl
  high_eq := Or.inl rfl
  ordered h := absurd rfl h
  fine r := by simp [AddressMultirange.empty]

theorem add_eq (m : AddressMultirange) (o : Operand) :
    m.add o = (m.extend o.fine.low o.top).map fun coarseRange =>
      ⟨coarseRange, AddressMultirange.emplace o.fine m.fineRanges⟩ := by
  cases o <;> rfl

/-- One addition. -/
theorem Spans.add (h : Spans operands m) (hadd : m.add o = some m') :
    Spans (operands ++ [o]) m' := by
  rw [add_eq] at hadd
  obtain ⟨c, hextend, rfl⟩ := Option.map_eq_some_iff.mp hadd
  obtain ⟨hle, rfl⟩ := AddressRange.construct_eq_some_iff.mp hextend
  have hfine (f : AddressRange) (hf : f ∈ m.fineRanges) : f.low ≤ f.high := by
    obtain ⟨o, -, rfl⟩ := (h.fine f).mp hf
    exact fine_ordered o
  have hlow := AddressRange.toNat_min m.coarseRange.low o.fine.low
  have hhigh := AddressRange.toNat_max m.coarseRange.high o.top
  rw [UInt64.le_iff_toNat_le, hlow, hhigh] at hle
  refine ⟨?_, ?_, ?_, ?_, fun _ => ?_, fun f => ?_⟩
  · show ∀ o' ∈ operands ++ [o], (min m.coarseRange.low o.fine.low).toNat ≤ o'.fine.low.toNat
    rw [hlow]
    exact Base.min_le_key_append h.low_le
  · show ∀ o' ∈ operands ++ [o], o'.top.toNat ≤ (max m.coarseRange.high o.top).toNat
    rw [hhigh]
    exact Base.key_append_le_max h.top_le
  · show (min m.coarseRange.low o.fine.low).toNat = _ ∨
      ∃ o' ∈ operands ++ [o], o'.fine.low.toNat = (min m.coarseRange.low o.fine.low).toNat
    rw [hlow]
    exact Base.exists_key_eq_min h.low_eq
  · show (max m.coarseRange.high o.top).toNat = _ ∨
      ∃ o' ∈ operands ++ [o], o'.top.toNat = (max m.coarseRange.high o.top).toNat
    rw [hhigh]
    exact Base.exists_key_eq_max h.high_eq
  · show (min m.coarseRange.low o.fine.low).toNat ≤ (max m.coarseRange.high o.top).toNat
    rw [hlow, hhigh]
    exact hle
  · show f ∈ AddressMultirange.emplace o.fine m.fineRanges ↔ _
    rw [mem_emplace hfine (fine_ordered o), h.fine]
    simp only [List.mem_append, List.mem_singleton, or_and_right, exists_or, exists_eq_left]
    rw [or_comm, eq_comm (a := f)]

theorem addAll_append_singleton : AddressMultirange.addAll (operands ++ [o]) =
    (AddressMultirange.addAll operands).bind fun m => m.add o := by
  rw [AddressMultirange.addAll, List.foldlM_append, AddressMultirange.addAll]
  refine congrArg (Option.bind _) (funext fun m => ?_)
  rw [List.foldlM_cons]
  cases m.add o <;> rfl

/-- A whole sequence of additions. -/
theorem spans_of_addAll (h : AddressMultirange.addAll operands = some m) : Spans operands m := by
  induction operands using List.reverseRecOn generalizing m with
  | nil =>
    cases h
    exact spans_empty
  | append_singleton operands o ih =>
    rw [addAll_append_singleton] at h
    obtain ⟨m', hm', hadd⟩ := Option.bind_eq_some_iff.mp h
    exact (ih hm').add hadd

/-- An addition succeeds if the bounds of what is added, or those that are there, are in order. -/
theorem exists_add (hle : o.fine.low.toNat ≤ o.top.toNat ∨
    m.coarseRange.low.toNat ≤ m.coarseRange.high.toNat) : ∃ m', m.add o = some m' := by
  have hordered : min m.coarseRange.low o.fine.low ≤ max m.coarseRange.high o.top := by
    rw [UInt64.le_iff_toNat_le, AddressRange.toNat_min, AddressRange.toNat_max]
    omega
  rw [add_eq, AddressMultirange.extend, AddressRange.construct_eq_some_iff.mpr ⟨hordered, rfl⟩]
  exact ⟨_, rfl⟩

theorem toNat_top_address : (Operand.address v).top.toNat = (v.toNat + 1) % 2 ^ 64 :=
  UInt64.toNat_add v 1

/-- Only the largest address ends in front of its start. -/
theorem low_le_top (hne : o ≠ .address largest) : o.fine.low.toNat ≤ o.top.toNat := by
  cases o with
  | address v =>
    have hlt := v.toNat_lt
    have hv : v.toNat ≠ 2 ^ 64 - 1 := by
      intro heq
      exact hne (congrArg Operand.address (UInt64.toNat_inj.mp (heq.trans toNat_largest.symm)))
    rw [toNat_top_address]
    show v.toNat ≤ _
    omega
  | range r h => exact UInt64.le_iff_toNat_le.mp h

theorem exists_addAll_iff :
    (∃ m, AddressMultirange.addAll operands = some m) ↔
      operands.head? ≠ some (.address largest) := by
  constructor
  · intro h heq
    obtain ⟨m, hm⟩ := h
    obtain ⟨rest, rfl⟩ := List.head?_eq_some_iff.mp heq
    have hthrows : AddressMultirange.empty.add (.address largest) = none := by decide
    rw [AddressMultirange.addAll, List.foldlM_cons, hthrows] at hm
    cases hm
  · intro hfirst
    induction operands using List.reverseRecOn with
    | nil => exact ⟨.empty, rfl⟩
    | append_singleton operands o ih =>
      cases operands with
      | nil =>
        have hne : o ≠ .address largest := fun heq => hfirst (congrArg some heq)
        obtain ⟨m, hm⟩ := @exists_add o .empty (Or.inl (low_le_top hne))
        exact ⟨m, by rw [addAll_append_singleton]; exact hm⟩
      | cons o' operands =>
        obtain ⟨m, hm⟩ := ih hfirst
        obtain ⟨m', hm'⟩ := @exists_add o m
          (Or.inr ((spans_of_addAll hm).ordered (List.cons_ne_nil o' operands)))
        exact ⟨m', by rw [addAll_append_singleton, hm, Option.bind_some, hm']⟩

/-- The coarse range decides: the fine ranges are right. -/
theorem Spans.contains_iff (h : Spans operands m) :
    (∀ a, m.contains a = true ↔ ∃ o ∈ operands, o.Contains a) ↔
      ∀ o ∈ operands, ∀ a, o.Contains a → m.coarseRange.contains a = true := by
  have hfine (a : UInt64) : m.fineRanges.any (fun r => r.contains a) = true ↔
      ∃ o ∈ operands, o.Contains a := by
    simp only [List.any_eq_true, h.fine, ← contains_fine_iff]
    constructor
    · intro hany
      obtain ⟨r, ⟨o, ho, rfl⟩, hr⟩ := hany
      exact ⟨o, ho, hr⟩
    · intro hany
      obtain ⟨o, ho, hr⟩ := hany
      exact ⟨o.fine, ⟨o, ho, rfl⟩, hr⟩
  have hcontains (a : UInt64) : m.contains a = true ↔
      m.coarseRange.contains a = true ∧ ∃ o ∈ operands, o.Contains a := by
    rw [← hfine, AddressMultirange.contains]
    cases m.coarseRange.contains a <;> simp
  simp only [hcontains, and_iff_right_iff_imp, forall_exists_index, and_imp]
  exact ⟨fun h o ho a => h a o ho, fun h a o ho => h o ho a⟩

theorem Spans.reachesAbove_iff (h : Spans operands m) :
    ReachesAbove operands v ↔ v.toNat < m.coarseRange.high.toNat := by
  constructor
  · intro hreaches
    obtain ⟨o, ho, hlt⟩ := hreaches
    exact (UInt64.lt_iff_toNat_lt.mp hlt).trans_le (h.top_le o ho)
  · intro hlt
    rcases h.high_eq with hzero | ⟨o, ho, heq⟩
    · omega
    · exact ⟨o, ho, UInt64.lt_iff_toNat_lt.mpr (heq ▸ hlt)⟩

theorem Spans.startsBelow_iff (h : Spans operands m) :
    StartsBelow operands v ↔ m.coarseRange.low.toNat < v.toNat := by
  have hv := v.toNat_lt
  constructor
  · intro hstarts
    obtain ⟨o, ho, hlt⟩ := hstarts
    exact (h.low_le o ho).trans_lt (UInt64.lt_iff_toNat_lt.mp hlt)
  · intro hlt
    rcases h.low_eq with hlargest | ⟨o, ho, heq⟩
    · omega
    · exact ⟨o, ho, UInt64.lt_iff_toNat_lt.mpr (heq ▸ hlt)⟩

/-- An address is covered unless it is the largest one and something starts below it. -/
theorem Spans.covers_address_iff (h : Spans operands m) (ho : .address v ∈ operands) :
    m.coarseRange.contains v = true ↔ (v = largest → ¬ StartsBelow operands largest) := by
  have hlow : m.coarseRange.low.toNat ≤ v.toNat := h.low_le _ ho
  have hhigh := h.top_le _ ho
  have hlt := m.coarseRange.high.toNat_lt
  rw [AddressRange.contains_iff (h.ordered (List.ne_nil_of_mem ho)), h.startsBelow_iff]
  rw [toNat_top_address] at hhigh
  by_cases hlargest : v = largest
  · rw [hlargest] at hlow ⊢
    rw [toNat_largest] at hlow ⊢
    simp only [forall_const]
    omega
  · have hv := v.toNat_lt
    have hne : v.toNat ≠ 2 ^ 64 - 1 := fun heq =>
      hlargest (UInt64.toNat_inj.mp (heq.trans toNat_largest.symm))
    refine iff_of_true ?_ fun heq => absurd heq hlargest
    omega

/-- A range is covered unless it is of one address, where the coarse range ends as well. -/
theorem Spans.covers_range_iff (h : Spans operands m) {hr : r.low ≤ r.high}
    (ho : .range r hr ∈ operands) :
    (∀ a, (Operand.range r hr).Contains a → m.coarseRange.contains a = true) ↔
      (r.low = r.high → ReachesAbove operands r.low ∨ ¬ StartsBelow operands r.low) := by
  have hlow : m.coarseRange.low.toNat ≤ r.low.toNat := h.low_le _ ho
  have hhigh : r.high.toNat ≤ m.coarseRange.high.toNat := h.top_le _ ho
  have hle := UInt64.le_iff_toNat_le.mp hr
  have hordered := h.ordered (List.ne_nil_of_mem ho)
  have hcoarse (a : UInt64) := AddressRange.contains_iff hordered (a := a)
  rw [h.reachesAbove_iff, h.startsBelow_iff]
  constructor
  · intro hcovers heq
    have hself : (Operand.range r hr).Contains r.low :=
      (AddressRange.contains_iff hle).mpr ⟨le_rfl, Or.inr rfl⟩
    have hcontains := (hcoarse _).mp (hcovers r.low hself)
    omega
  · intro hsingle a ha
    have hinterval := (AddressRange.contains_iff hle).mp ha
    refine (hcoarse a).mpr ?_
    by_cases heq : r.low = r.high
    · have hreaches := hsingle heq
      rw [heq] at hreaches hinterval hlow
      omega
    · have hne : r.low.toNat ≠ r.high.toNat := fun h => heq (UInt64.toNat_inj.mp h)
      omega

/-- What is added is covered by the coarse range, with the two exceptions. -/
theorem Spans.covers_iff (h : Spans operands m) :
    (∀ o ∈ operands, ∀ a, o.Contains a → m.coarseRange.contains a = true) ↔
      (∀ r h, .range r h ∈ operands → r.low = r.high →
        ReachesAbove operands r.low ∨ ¬ StartsBelow operands r.low) ∧
      (.address largest ∈ operands → ¬ StartsBelow operands largest) := by
  constructor
  · intro hcovers
    refine ⟨fun r hr ho => (h.covers_range_iff ho).mp (hcovers _ ho), fun ho => ?_⟩
    exact (h.covers_address_iff ho).mp (hcovers _ ho largest rfl) rfl
  · intro hexceptions o ho
    obtain ⟨hsingle, htop⟩ := hexceptions
    cases o with
    | address v =>
      intro a ha
      obtain rfl : a = v := ha
      refine (h.covers_address_iff ho).mpr fun hlargest => htop ?_
      rw [← hlargest]
      exact ho
    | range r hr => exact (h.covers_range_iff ho).mpr (hsingle r hr ho)

end Additions

/-- What is added is contained exactly if the coarse range covers it. -/
theorem containsAdded_iff_covered (operands : List Operand) :
    ContainsAdded operands ↔ Covered operands := by
  constructor
  · intro h
    obtain ⟨m, hm, hcontains⟩ := h
    have hspans := spans_of_addAll hm
    obtain ⟨hsingle, htop⟩ := hspans.covers_iff.mp (hspans.contains_iff.mp hcontains)
    exact ⟨exists_addAll_iff.mp ⟨m, hm⟩, hsingle, htop⟩
  · intro h
    obtain ⟨m, hm⟩ := exists_addAll_iff.mpr h.first
    have hspans := spans_of_addAll hm
    exact ⟨m, hm, hspans.contains_iff.mpr (hspans.covers_iff.mpr ⟨h.single, h.top⟩)⟩

/-- An address, and a range of one address above it. -/
def addressAndRange : List Operand := [.address 5, .range ⟨9, 9⟩ (by decide)]

/-- The coarse range ends in front of a last range of one address, and the largest address cannot
be added first. -/
theorem not_containsAdded_addressAndRange :
    ¬ ContainsAdded addressAndRange ∧ ¬ ContainsAdded [.address largest] := by
  constructor
  · intro h
    obtain ⟨m, hm, hcontains⟩ := h
    have hrun : AddressMultirange.addAll addressAndRange =
        some ⟨⟨5, 9⟩, [⟨9, 9⟩, ⟨5, 5⟩]⟩ := rfl
    rw [hrun, Option.some_inj] at hm
    have hnine := (hcontains 9).mpr
      ⟨_, List.mem_cons_of_mem _ (List.mem_singleton_self _), by rfl⟩
    rw [← hm] at hnine
    exact absurd hnine (by decide)
  · intro h
    obtain ⟨m, hm, -⟩ := h
    have hthrows : AddressMultirange.addAll [.address largest] = none := by decide
    rw [hthrows] at hm
    cases hm

end Binary
end Rocprofsys
