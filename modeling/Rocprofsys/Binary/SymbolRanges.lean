import Rocprofsys.Binary.AddressRanges

namespace Rocprofsys
namespace Binary

open Causal (AddressRange)

/-! ## The range of a symbol -/

/-- `bfd_section_vma` and `bfd_section_size`. -/
structure Section where
  vma : UInt64
  size : UInt64

/-- What is read of a symbol: where it begins, how long it is and its section. -/
structure BfdSymbol where
  address : UInt64
  symsize : UInt64
  sect : Section

namespace BfdSymbol

/-- The address is in the half-open interval of the symbol. -/
def Holds (s : BfdSymbol) (a : UInt64) : Prop :=
  s.address.toNat ≤ a.toNat ∧ a.toNat < s.address.toNat + s.symsize.toNat

/-- The address range of a new symbol. -/
def constructed (s : BfdSymbol) : Option AddressRange :=
  AddressRange.construct s.address (s.address + s.symsize + 1)

/-- What `read_bfd_line_info` makes of the range. -/
def readBfdLineInfo (s : BfdSymbol) (r : AddressRange) : AddressRange :=
  if r.low < s.sect.vma || r.low ≥ s.sect.vma + s.sect.size then r
  -- add one to vma + size because address range is exclusive of last address
  else if r.high > s.sect.vma + s.sect.size then { r with high := s.sect.vma + s.sect.size }
  else r

/-- By construction and `read_bfd_line_info`, or nothing where the construction throws. -/
def range (s : BfdSymbol) : Option AddressRange := s.constructed.map s.readBfdLineInfo

def Contains (s : BfdSymbol) (a : UInt64) : Prop := ∃ r, s.range = some r ∧ r.contains a = true

/-- The symbol begins in its section and runs up to its end, and the end of its range is an
address. (A size of 2^64 - 1 makes the end of the range the address itself.) -/
def EndsSection (s : BfdSymbol) : Prop :=
  s.symsize.toNat + 1 = 2 ^ 64 ∨
    s.address.toNat + s.symsize.toNat + 1 < 2 ^ 64 ∧
      s.sect.vma ≤ s.address ∧ s.address < s.sect.vma + s.sect.size ∧
        (s.sect.vma + s.sect.size).toNat ≤ s.address.toNat + s.symsize.toNat

end BfdSymbol

/-- The symbols of a binary, whose intervals have no address in common. -/
structure Layout where
  symbols : List BfdSymbol
  disjoint : symbols.Pairwise fun s t => ∀ a, ¬ (s.Holds a ∧ t.Holds a)

/-- Every symbol has a range, no address is contained in two ranges, and one that is contained in
a range is in the interval of the symbol. -/
structure Layout.KeepsApart (b : Layout) : Prop where
  ranges : ∀ s ∈ b.symbols, ∃ r, s.range = some r
  disjoint : b.symbols.Pairwise fun s t => ∀ a, ¬ (s.Contains a ∧ t.Contains a)
  within : ∀ s ∈ b.symbols, ∀ a, s.Contains a → s.Holds a

/-! ## One symbol -/

section Symbol

variable {s : BfdSymbol} {r : AddressRange} {a : UInt64}

/-- The range has the interval, and the address behind it unless the section ends in front of
that. -/
theorem contains_range_iff (hfits : s.address.toNat + s.symsize.toNat + 1 < 2 ^ 64)
    (hrange : s.range = some r) : r.contains a = true ↔
      s.address.toNat ≤ a.toNat ∧ a.toNat ≤ s.address.toNat + s.symsize.toNat ∧
        (s.sect.vma ≤ s.address → s.address < s.sect.vma + s.sect.size →
          a < s.sect.vma + s.sect.size) := by
  obtain ⟨r₀, hconstructed, rfl⟩ := Option.map_eq_some_iff.mp hrange
  obtain ⟨-, rfl⟩ := AddressRange.construct_eq_some_iff.mp hconstructed
  have hhigh : (s.address + s.symsize + 1).toNat = s.address.toNat + s.symsize.toNat + 1 := by
    rw [UInt64.toNat_add, UInt64.toNat_add]
    show ((s.address.toNat + s.symsize.toNat) % 2 ^ 64 + 1) % 2 ^ 64 = _
    omega
  simp only [UInt64.le_iff_toNat_le, UInt64.lt_iff_toNat_lt, BfdSymbol.readBfdLineInfo,
    ge_iff_le, gt_iff_lt, Bool.or_eq_true, decide_eq_true_eq, hhigh]
  generalize (s.sect.vma + s.sect.size) = sectionEnd
  split
  · rename_i hout
    rw [AddressRange.contains_iff (by omega), hhigh]
    omega
  · rename_i hin
    split
    · rename_i hclamped
      rw [AddressRange.contains_iff (by omega)]
      omega
    · rename_i hbelow
      rw [AddressRange.contains_iff (by omega), hhigh]
      omega

theorem exists_range (hfits : s.address.toNat + s.symsize.toNat + 1 < 2 ^ 64) :
    ∃ r, s.range = some r := by
  have hle : s.address ≤ s.address + s.symsize + 1 := by
    rw [UInt64.le_iff_toNat_le, UInt64.toNat_add, UInt64.toNat_add]
    show _ ≤ ((s.address.toNat + s.symsize.toNat) % 2 ^ 64 + 1) % 2 ^ 64
    omega
  exact ⟨_, Option.map_eq_some_iff.mpr ⟨_, AddressRange.construct_eq_some_iff.mpr ⟨hle, rfl⟩, rfl⟩⟩

/-- A sum that is too large wraps around to an end in front of the symbol. -/
theorem range_of_overflow (hlarge : ¬ s.address.toNat + s.symsize.toNat + 1 < 2 ^ 64)
    (hsize : s.symsize.toNat + 1 ≠ 2 ^ 64) : s.range = none := by
  have haddress := s.address.toNat_lt
  have hsymsize := s.symsize.toNat_lt
  have hlt : s.address + s.symsize + 1 < s.address := by
    rw [UInt64.lt_iff_toNat_lt, UInt64.toNat_add, UInt64.toNat_add]
    show ((s.address.toNat + s.symsize.toNat) % 2 ^ 64 + 1) % 2 ^ 64 < _
    omega
  rw [BfdSymbol.range, BfdSymbol.constructed, AddressRange.construct, if_pos hlt, Option.map_none]

/-- With the largest size it wraps around to the symbol itself. -/
theorem range_of_largest (hsize : s.symsize.toNat + 1 = 2 ^ 64) :
    s.range = some ⟨s.address, s.address⟩ := by
  have haddress := s.address.toNat_lt
  have hsum : s.address + s.symsize + 1 = s.address := by
    rw [← UInt64.toNat_inj, UInt64.toNat_add, UInt64.toNat_add]
    show ((s.address.toNat + s.symsize.toNat) % 2 ^ 64 + 1) % 2 ^ 64 = _
    omega
  have hrange : AddressRange.construct s.address s.address = some ⟨s.address, s.address⟩ :=
    AddressRange.construct_eq_some_iff.mpr ⟨UInt64.le_refl _, rfl⟩
  rw [BfdSymbol.range, BfdSymbol.constructed, hsum, hrange, Option.map_some, Option.some_inj,
    BfdSymbol.readBfdLineInfo]
  split
  · rfl
  · rename_i hin
    rw [Bool.or_eq_true, not_or, decide_eq_true_eq, decide_eq_true_eq] at hin
    exact if_neg fun hgt => hin.2 (UInt64.le_of_lt hgt)

/-- The range stays in the interval exactly if the symbol ends its section. -/
theorem range_within_iff :
    ((∃ r, s.range = some r) ∧ ∀ a, s.Contains a → s.Holds a) ↔ s.EndsSection := by
  by_cases hsize : s.symsize.toNat + 1 = 2 ^ 64
  · have hrange := range_of_largest hsize
    refine iff_of_true ⟨⟨_, hrange⟩, fun a ha => ?_⟩ (Or.inl hsize)
    obtain ⟨r, hr, ha⟩ := ha
    rw [hrange, Option.some_inj] at hr
    rw [← hr, AddressRange.contains_iff le_rfl] at ha
    rw [BfdSymbol.Holds]
    omega
  · rw [BfdSymbol.EndsSection, or_iff_right hsize]
    by_cases hfits : s.address.toNat + s.symsize.toNat + 1 < 2 ^ 64
    · rw [and_iff_right hfits]
      obtain ⟨r, hr⟩ := exists_range hfits
      simp only [BfdSymbol.Contains, hr, Option.some_inj, exists_eq', true_and, exists_eq_left',
        contains_range_iff hfits hr, BfdSymbol.Holds, UInt64.le_iff_toNat_le,
        UInt64.lt_iff_toNat_lt]
      generalize s.sect.vma + s.sect.size = sectionEnd
      constructor
      · intro h
        -- the address behind the interval is not contained
        have hnat : (UInt64.ofNat (s.address.toNat + s.symsize.toNat)).toNat =
            s.address.toNat + s.symsize.toNat :=
          UInt64.toNat_ofNat_of_lt' (show s.address.toNat + s.symsize.toNat < 2 ^ 64 by omega)
        have hbehind := h (UInt64.ofNat (s.address.toNat + s.symsize.toNat))
        rw [hnat] at hbehind
        omega
      · intro h a ha
        omega
    · rw [range_of_overflow hfits hsize]
      refine iff_of_false (fun h => ?_) fun h => hfits h.1
      obtain ⟨⟨r, hr⟩, -⟩ := h
      cases hr

end Symbol

/-- The ranges are kept apart exactly if every symbol runs up to the end of its section. -/
theorem keepsApart_iff_endsSection (b : Layout) :
    b.KeepsApart ↔ ∀ s ∈ b.symbols, s.EndsSection := by
  constructor
  · intro h s hs
    exact range_within_iff.mp ⟨h.ranges s hs, h.within s hs⟩
  · intro h
    have hwithin (s : BfdSymbol) (hs : s ∈ b.symbols) := (range_within_iff.mpr (h s hs)).2
    refine ⟨fun s hs => (range_within_iff.mpr (h s hs)).1, ?_, hwithin⟩
    exact b.disjoint.imp_of_mem fun hs ht hnone a hboth =>
      hnone a ⟨hwithin _ hs a hboth.1, hwithin _ ht a hboth.2⟩

/-- The code of a program. -/
def text : Section := ⟨4096, 4096⟩

/-- Two functions side by side. -/
def adjacent : Layout where
  symbols := [⟨4096, 64, text⟩, ⟨4160, 32, text⟩]
  disjoint := by
    refine List.pairwise_pair.mpr fun a hboth => ?_
    obtain ⟨⟨-, hlt⟩, hle, -⟩ := hboth
    exact absurd (hle.trans_lt hlt) (by decide)

/-- The first address of the second function is attributed to the first one too. -/
theorem not_keepsApart_adjacent :
    (∀ s ∈ adjacent.symbols, s.Contains 4160) ∧ ¬ adjacent.KeepsApart := by
  have hcontains : ∀ s ∈ adjacent.symbols, s.Contains 4160 := by
    intro s hs
    rcases List.mem_pair.mp hs with rfl | rfl
    · exact ⟨⟨4096, 4161⟩, rfl, rfl⟩
    · exact ⟨⟨4160, 4193⟩, rfl, rfl⟩
  refine ⟨hcontains, fun h => ?_⟩
  have hdisjoint := List.pairwise_pair.mp h.disjoint
  exact hdisjoint 4160 ⟨hcontains _ List.mem_cons_self,
    hcontains _ (List.mem_cons_of_mem _ List.mem_cons_self)⟩

end Binary
end Rocprofsys
