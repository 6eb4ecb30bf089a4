import Mathlib.Data.String.Basic
import Rocprofsys.Base.Tiling
import Rocprofsys.Base.WeakOrder
import Rocprofsys.Binary.AddressRanges

namespace Rocprofsys
namespace Binary

open Base
open Causal (AddressRange)

/-! ## Line entries -/

/-- The fields of a line entry that are compared. -/
structure DwarfEntry where
  line : UInt32
  col : Int32
  address : AddressRange
  file : String
  deriving DecidableEq

/-- The address range of a symbol, which the constructor has checked. -/
structure SymbolRange where
  address : AddressRange
  ordered : address.low ≤ address.high

/-- The address is a single one. -/
def DwarfEntry.IsSingle (d : DwarfEntry) : Prop := d.address.low = d.address.high

/-- Both comparisons of the sorts. -/
def DwarfEntry.addressLt (d d' : DwarfEntry) : Bool := d.address.lt d'.address

def DwarfEntry.lineLt (d d' : DwarfEntry) : Bool :=
  d.address.lt d'.address || !d'.address.lt d.address &&
    (d.file < d'.file || !(d'.file < d.file) &&
      (d.line < d'.line || !(d'.line < d.line) && d.col < d'.col))

/-- The comparison of `unique`. -/
def DwarfEntry.SameLine (d d' : DwarfEntry) : Prop :=
  d.address = d'.address ∧ d.file = d'.file ∧ d.line = d'.line

instance : DecidableRel DwarfEntry.SameLine := fun _ _ => inferInstanceAs (Decidable (_ ∧ _))

/-! ## read_dwarf_entries -/

/-- `_get_next_address`, with the entries behind the one it is asked for. -/
def getNextAddress (high low : UInt64) : List DwarfEntry → UInt64
  | [] => high
  | next :: entries =>
    if next.address.low > low then next.address.low else getNextAddress high low entries

/-- The loop that converts the single addresses into ranges, or nothing where it throws. The low
addresses of the entries behind, which it looks up, are never changed. -/
def convert (high : UInt64) : List DwarfEntry → Option (List DwarfEntry)
  | [] => some []
  | d :: entries =>
    let address :=
      if !d.address.isRange then
        AddressRange.construct d.address.low (getNextAddress high d.address.low entries)
      else some d.address
    address.bind fun address =>
      (convert high entries).map fun rest => { d with address := address } :: rest

/-- The entries that the symbol takes. -/
def taken (s : SymbolRange) (info : List DwarfEntry) : List DwarfEntry :=
  info.filter fun d => s.address.containsRange d.address

/-- What may be left of the entries of a symbol, where both sorts order equal entries in any
way. -/
def ReadDwarfEntries (s : SymbolRange) (info result : List DwarfEntry) : Prop :=
  ∃ sorted converted resorted,
    SortedOf (fun d d' => d.addressLt d' = true) (taken s info) sorted ∧
    convert s.address.high sorted = some converted ∧
    SortedOf (fun d d' => d.lineLt d' = true) converted resorted ∧
    result = unique DwarfEntry.SameLine resorted

/-- The comparisons are orderings, and nothing throws on the way. -/
structure Succeeds (s : SymbolRange) (info : List DwarfEntry) : Prop where
  addressOrder : StrictWeakOn (fun d d' => d.addressLt d' = true) (taken s info)
  converts : ∀ sorted, SortedOf (fun d d' => d.addressLt d' = true) (taken s info) sorted →
    ∃ converted, convert s.address.high sorted = some converted ∧
      StrictWeakOn (fun d d' => d.lineLt d' = true) converted

/-- The entries tile the symbol from the lowest of them on. -/
structure Tiles (s : SymbolRange) (info result : List DwarfEntry) : Prop where
  shared : ∀ d ∈ result, ∀ d' ∈ result, d.address.low = d'.address.low → d.address = d'.address
  disjoint : ∀ d ∈ result, ∀ d' ∈ result, d.address.low ≠ d'.address.low →
    ∀ a, ¬ (d.address.contains a = true ∧ d'.address.contains a = true)
  contiguous : ∀ d ∈ result,
    (∃ d' ∈ result, d'.address.low = d.address.high ∧ d.address.low < d'.address.low) ∨
      d.address.high = s.address.high
  covers : ∀ a, (∃ d ∈ result, d.address.contains a = true) ↔
    s.address.contains a = true ∧ ∃ d ∈ result, d.address.low ≤ a
  own : ∀ d ∈ result, ∃ e ∈ info, e.address.low = d.address.low ∧
    { d with address := e.address } = e
  inside : ∀ d ∈ result, s.address.containsRange d.address = true
  kept : ∀ e ∈ info, s.address.containsRange e.address = true →
    ∃ d ∈ result, d.address.low = e.address.low ∧ d.file = e.file ∧ d.line = e.line

/-! ## The sorts -/

section Orders

variable {entries : List DwarfEntry} {d d' : DwarfEntry}

def DwarfEntry.lineKey (d : DwarfEntry) : (ℕ ×ₗ ℕ ×ₗ ℕ) ×ₗ String ×ₗ ℕ ×ₗ ℤ :=
  toLex (d.address.rank, toLex (d.file, toLex (d.line.toNat, d.col.toInt)))

theorem strictWeakOn_addressLt :
    StrictWeakOn (fun d d' => d.addressLt d' = true) entries :=
  .of_key (fun d => d.address.rank) fun _ _ => AddressRange.lt_iff_rank_lt

theorem lineLt_iff : d.lineLt d' = true ↔ d.lineKey < d'.lineKey := by
  simp only [DwarfEntry.lineKey, toLex_lt_iff, ← AddressRange.lt_iff_rank_lt,
    ← UInt32.lt_iff_toNat_lt, ← Int32.lt_iff_toInt_lt, DwarfEntry.lineLt, Bool.or_eq_true,
    Bool.and_eq_true, Bool.not_eq_true', decide_eq_true_eq, decide_eq_false_iff_not,
    Bool.not_eq_true]

theorem strictWeakOn_lineLt : StrictWeakOn (fun d d' => d.lineLt d' = true) entries :=
  .of_key DwarfEntry.lineKey fun _ _ => lineLt_iff

theorem equivalence_sameLine : Equivalence DwarfEntry.SameLine where
  refl _ := ⟨rfl, rfl, rfl⟩
  symm h := ⟨h.1.symm, h.2.1.symm, h.2.2.symm⟩
  trans h h' := ⟨h.1.trans h'.1, h.2.1.trans h'.2.1, h.2.2.trans h'.2.2⟩

end Orders

/-! ## Ranges from single addresses -/

section Convert

variable {entries : List DwarfEntry} {high low : UInt64} {d : DwarfEntry}

/-- Where the entries begin. -/
def starts (entries : List DwarfEntry) : List ℕ := entries.map fun d => d.address.low.toNat

/-- Sorted by their addresses. -/
def Rising (entries : List DwarfEntry) : Prop :=
  entries.Pairwise fun d d' => d.address.low.toNat ≤ d'.address.low.toNat

theorem endsAt_getNextAddress (hrising : Rising entries) :
    EndsAt (starts entries) high.toNat low.toNat (getNextAddress high low entries).toNat := by
  induction entries with
  | nil => exact Or.inr ⟨rfl, fun m h => absurd h List.not_mem_nil⟩
  | cons d entries ih =>
    obtain ⟨hd, hentries⟩ := List.pairwise_cons.mp hrising
    rw [getNextAddress]
    split
    · rename_i hgt
      rw [gt_iff_lt, UInt64.lt_iff_toNat_lt] at hgt
      refine Or.inl ⟨List.mem_cons_self, hgt, List.forall_mem_cons.mpr ⟨Or.inr le_rfl, ?_⟩⟩
      intro m hm
      obtain ⟨d', hd', rfl⟩ := List.mem_map.mp hm
      exact Or.inr (hd d' hd')
    · rename_i hle
      rw [gt_iff_lt, UInt64.lt_iff_toNat_lt, Nat.not_lt] at hle
      exact (ih hentries).cons hle

/-- An entry with its range among these entries. -/
def DwarfEntry.ranged (high : UInt64) (entries : List DwarfEntry) (d : DwarfEntry) : DwarfEntry :=
  { d with address := ⟨d.address.low, getNextAddress high d.address.low entries⟩ }

/-- The loop gives each entry its range. -/
theorem convert_eq (hrising : Rising entries) (hsingle : ∀ d ∈ entries, d.IsSingle)
    (hhigh : ∀ d ∈ entries, d.address.low ≤ high) :
    convert high entries = some (entries.map (DwarfEntry.ranged high entries)) := by
  induction entries with
  | nil => rfl
  | cons d entries ih =>
    obtain ⟨hd, hentries⟩ := List.pairwise_cons.mp hrising
    obtain ⟨hdsingle, hsingle⟩ := List.forall_mem_cons.mp hsingle
    obtain ⟨hdhigh, hhigh⟩ := List.forall_mem_cons.mp hhigh
    have hskip {low : UInt64} (h : d.address.low.toNat ≤ low.toNat) :
        getNextAddress high low (d :: entries) = getNextAddress high low entries := by
      rw [getNextAddress, if_neg]
      rw [gt_iff_lt, UInt64.lt_iff_toNat_lt]
      omega
    have hnotrange : d.address.isRange = false := by
      rw [AddressRange.isRange, decide_eq_false_iff_not, hdsingle]
      exact UInt64.lt_irrefl _
    have hnext := (@endsAt_getNextAddress entries high d.address.low hentries).low_le
      (UInt64.le_iff_toNat_le.mp hdhigh)
    have hconstruct : AddressRange.construct d.address.low
        (getNextAddress high d.address.low entries) =
          some ⟨d.address.low, getNextAddress high d.address.low entries⟩ :=
      AddressRange.construct_eq_some_iff.mpr ⟨UInt64.le_iff_toNat_le.mpr hnext, rfl⟩
    have hrest : entries.map (DwarfEntry.ranged high entries) =
        entries.map (DwarfEntry.ranged high (d :: entries)) := by
      refine List.map_congr_left fun d' hd' => ?_
      rw [DwarfEntry.ranged, DwarfEntry.ranged, hskip (hd d' hd')]
    rw [convert, hnotrange, Bool.not_false, if_pos rfl, hconstruct, Option.bind_some,
      ih hentries hsingle hhigh, Option.map_some, hrest, List.map_cons, DwarfEntry.ranged,
      hskip le_rfl]

end Convert

/-! ## The ranges of a symbol -/

section Symbol

variable {s : SymbolRange} {info sorted result : List DwarfEntry} {d d' e : DwarfEntry}
  {a : UInt64}

theorem contains_iff : s.address.contains a = true ↔ s.address.low.toNat ≤ a.toNat ∧
    (a.toNat < s.address.high.toNat ∨ a.toNat = s.address.low.toNat) :=
  AddressRange.contains_iff (UInt64.le_iff_toNat_le.mp s.ordered)

/-- A single address is taken if the symbol contains it. -/
theorem containsRange_single (h : d.IsSingle) :
    s.address.containsRange d.address = true ↔ s.address.contains d.address.low = true := by
  have hself (heq : s.address = d.address) : s.address.contains d.address.low = true := by
    rw [contains_iff, heq]
    exact ⟨le_rfl, Or.inr rfl⟩
  rw [AddressRange.containsRange, Bool.or_eq_true, beq_iff_eq, Bool.and_eq_true, Bool.or_eq_true,
    ← h]
  constructor
  · intro hor
    rcases hor with heq | hand
    · exact hself heq
    · exact hand.1
  · intro hcontains
    exact Or.inr ⟨hcontains, Or.inl hcontains⟩

/-- The first sort orders single addresses. -/
theorem rising_of_sortedOf (hsingle : ∀ d ∈ sorted, d.IsSingle)
    (hpairwise : sorted.Pairwise fun d d' => ¬ d'.addressLt d = true) : Rising sorted := by
  have hnotrange (d : DwarfEntry) (hd : d ∈ sorted) : d.address.isRange = false := by
    rw [AddressRange.isRange, decide_eq_false_iff_not, hsingle d hd]
    exact UInt64.lt_irrefl _
  refine hpairwise.imp_of_mem fun hd hd' hle => ?_
  rw [DwarfEntry.addressLt, AddressRange.lt_of_not_isRange (hnotrange _ hd') (hnotrange _ hd),
    Nat.not_lt] at hle
  exact hle

/-- What is left of sorted entries of the symbol, each with its range. -/
structure Ranged (s : SymbolRange) (sorted result : List DwarfEntry) : Prop where
  rising : Rising sorted
  contained : ∀ e ∈ sorted, s.address.contains e.address.low = true
  fromSorted : ∀ d ∈ result, ∃ e ∈ sorted, d = e.ranged s.address.high sorted
  represented : ∀ e ∈ sorted, ∃ d ∈ result, (e.ranged s.address.high sorted).SameLine d

namespace Ranged

theorem endsAt (h : Ranged s sorted result) (hd : d ∈ result) :
    EndsAt (starts sorted) s.address.high.toNat d.address.low.toNat d.address.high.toNat := by
  obtain ⟨e, -, rfl⟩ := h.fromSorted d hd
  exact endsAt_getNextAddress h.rising

theorem mem_starts (h : Ranged s sorted result) (hd : d ∈ result) :
    d.address.low.toNat ∈ starts sorted := by
  obtain ⟨e, he, rfl⟩ := h.fromSorted d hd
  exact List.mem_map.mpr ⟨e, he, rfl⟩

theorem contains_low (h : Ranged s sorted result) (hd : d ∈ result) :
    s.address.contains d.address.low = true := by
  obtain ⟨e, he, rfl⟩ := h.fromSorted d hd
  exact h.contained e he

/-- A start is the one of an entry that is left. -/
theorem exists_start (h : Ranged s sorted result) {m : ℕ} (hm : m ∈ starts sorted) :
    ∃ d ∈ result, d.address.low.toNat = m := by
  obtain ⟨e, he, rfl⟩ := List.mem_map.mp hm
  obtain ⟨d, hd, haddress, -⟩ := h.represented e he
  exact ⟨d, hd, by rw [← haddress]; rfl⟩

theorem low_le_high (h : Ranged s sorted result) (hd : d ∈ result) :
    d.address.low.toNat ≤ d.address.high.toNat := by
  have hordered := UInt64.le_iff_toNat_le.mp s.ordered
  have hcontains := contains_iff.mp (h.contains_low hd)
  exact (h.endsAt hd).low_le (by omega)

theorem high_le (h : Ranged s sorted result) (hd : d ∈ result) :
    d.address.high.toNat ≤ s.address.high.toNat := by
  have hordered := UInt64.le_iff_toNat_le.mp s.ordered
  refine (h.endsAt hd).le_last fun m hm => ?_
  obtain ⟨d', hd', rfl⟩ := h.exists_start hm
  have hcontains := contains_iff.mp (h.contains_low hd')
  omega

theorem contains_iff (h : Ranged s sorted result) (hd : d ∈ result) :
    d.address.contains a = true ↔ d.address.low.toNat ≤ a.toNat ∧
      (a.toNat < d.address.high.toNat ∨ a.toNat = d.address.low.toNat) :=
  AddressRange.contains_iff (h.low_le_high hd)

theorem shared (h : Ranged s sorted result) (hd : d ∈ result) (hd' : d' ∈ result)
    (hlow : d.address.low = d'.address.low) : d.address = d'.address := by
  have hends := h.endsAt hd
  rw [hlow] at hends
  have hhigh : d.address.high = d'.address.high :=
    UInt64.toNat_inj.mp (hends.unique (h.endsAt hd'))
  generalize d.address = r at hlow hhigh
  generalize d'.address = r' at hlow hhigh
  cases r
  cases r'
  exact AddressRange.mk.injEq _ _ _ _ ▸ ⟨hlow, hhigh⟩

theorem disjoint (h : Ranged s sorted result) (hd : d ∈ result) (hd' : d' ∈ result)
    (hlow : d.address.low ≠ d'.address.low) :
    ¬ (d.address.contains a = true ∧ d'.address.contains a = true) := by
  have hne : d.address.low.toNat ≠ d'.address.low.toNat := fun heq => hlow (UInt64.toNat_inj.mp heq)
  have hapart := (h.endsAt hd).disjoint (h.endsAt hd') (h.mem_starts hd) (h.mem_starts hd') hne
  have hle := h.low_le_high hd
  have hle' := h.low_le_high hd'
  rw [h.contains_iff hd, h.contains_iff hd']
  omega

theorem contiguous (h : Ranged s sorted result) (hd : d ∈ result) :
    (∃ d' ∈ result, d'.address.low = d.address.high ∧ d.address.low < d'.address.low) ∨
      d.address.high = s.address.high := by
  rcases h.endsAt hd with ⟨hmem, hlt, -⟩ | ⟨hlast, -⟩
  · obtain ⟨d', hd', heq⟩ := h.exists_start hmem
    exact Or.inl ⟨d', hd', UInt64.toNat_inj.mp heq, UInt64.lt_iff_toNat_lt.mpr (heq ▸ hlt)⟩
  · exact Or.inr (UInt64.toNat_inj.mp hlast)

theorem covers (h : Ranged s sorted result) :
    (∃ d ∈ result, d.address.contains a = true) ↔
      s.address.contains a = true ∧ ∃ d ∈ result, d.address.low ≤ a := by
  constructor
  · intro hcontains
    obtain ⟨d, hd, ha⟩ := hcontains
    have hlow := Binary.contains_iff.mp (h.contains_low hd)
    have hhigh := h.high_le hd
    have hinterval := (h.contains_iff hd).mp ha
    refine ⟨Binary.contains_iff.mpr (by omega), d, hd, ?_⟩
    rw [UInt64.le_iff_toNat_le]
    omega
  · intro hinside
    obtain ⟨ha, d, hd, hle⟩ := hinside
    obtain ⟨m, hm, hmle, hgreatest⟩ :=
      exists_greatest_start ⟨_, h.mem_starts hd, UInt64.le_iff_toNat_le.mp hle⟩
    obtain ⟨d', hd', rfl⟩ := h.exists_start hm
    have hlow := Binary.contains_iff.mp (h.contains_low hd')
    refine ⟨d', hd', (h.contains_iff hd').mpr ⟨hmle, ?_⟩⟩
    rcases (Binary.contains_iff.mp ha).2 with hlt | heq
    · exact Or.inl ((h.endsAt hd').lt_of_greatest hlt hgreatest)
    · exact Or.inr (by omega)

theorem inside (h : Ranged s sorted result) (hd : d ∈ result) :
    s.address.containsRange d.address = true := by
  rw [AddressRange.containsRange, Bool.or_eq_true, Bool.and_eq_true, Bool.or_eq_true, beq_iff_eq]
  refine Or.inr ⟨h.contains_low hd, ?_⟩
  rcases h.contiguous hd with ⟨d', hd', heq, -⟩ | hlast
  · exact Or.inl (heq ▸ h.contains_low hd')
  · exact Or.inr (beq_iff_eq.mpr hlast)

end Ranged

/-- The sorted entries are those of the symbol, in the order of their addresses. -/
theorem of_sortedOf_taken (hsingle : ∀ d ∈ info, d.IsSingle)
    (hsorted : SortedOf (fun d d' => d.addressLt d' = true) (taken s info) sorted) :
    Rising sorted ∧ (∀ e ∈ sorted, e.IsSingle) ∧
      ∀ e ∈ sorted, s.address.contains e.address.low = true := by
  obtain ⟨hperm, hpairwise⟩ := hsorted
  have htaken (e : DwarfEntry) (he : e ∈ sorted) := List.mem_filter.mp (hperm.subset he)
  have hsorted (e : DwarfEntry) (he : e ∈ sorted) : e.IsSingle := hsingle e (htaken e he).1
  exact ⟨rising_of_sortedOf hsorted hpairwise, hsorted, fun e he =>
    (containsRange_single (hsorted e he)).mp (htaken e he).2⟩

/-- The conversion does not throw. -/
theorem convert_sorted (hsingle : ∀ d ∈ info, d.IsSingle)
    (hsorted : SortedOf (fun d d' => d.addressLt d' = true) (taken s info) sorted) :
    convert s.address.high sorted =
      some (sorted.map (DwarfEntry.ranged s.address.high sorted)) := by
  obtain ⟨hrising, hsingle, hcontained⟩ := of_sortedOf_taken hsingle hsorted
  refine convert_eq hrising hsingle fun e he => ?_
  have hordered := UInt64.le_iff_toNat_le.mp s.ordered
  have hcontains := contains_iff.mp (hcontained e he)
  rw [UInt64.le_iff_toNat_le]
  omega

/-- The sorts and the loop in between leave entries with such ranges. -/
theorem ranged_of_sorts {converted resorted : List DwarfEntry}
    (hsingle : ∀ d ∈ info, d.IsSingle)
    (hsorted : SortedOf (fun d d' => d.addressLt d' = true) (taken s info) sorted)
    (hconvert : convert s.address.high sorted = some converted)
    (hresorted : SortedOf (fun d d' => d.lineLt d' = true) converted resorted) :
    Ranged s sorted (unique DwarfEntry.SameLine resorted) := by
  obtain ⟨hrising, -, hcontained⟩ := of_sortedOf_taken hsingle hsorted
  rw [convert_sorted hsingle hsorted, Option.some_inj] at hconvert
  refine ⟨hrising, hcontained, fun d hd => ?_, fun e he => ?_⟩
  · have hmem := hresorted.1.subset ((List.destutter_sublist _ _).subset hd)
    rw [← hconvert] at hmem
    obtain ⟨e, he, rfl⟩ := List.mem_map.mp hmem
    exact ⟨e, he, rfl⟩
  · refine exists_same_unique equivalence_sameLine (hresorted.1.symm.subset ?_)
    rw [← hconvert]
    exact List.mem_map_of_mem he

theorem tiles_of_ranged (hperm : sorted.Perm (taken s info)) (h : Ranged s sorted result) :
    Tiles s info result where
  shared d hd d' hd' := h.shared hd hd'
  disjoint d hd d' hd' hne a := h.disjoint hd hd' hne
  contiguous d hd := h.contiguous hd
  covers a := h.covers
  own d hd := by
    obtain ⟨e, he, rfl⟩ := h.fromSorted d hd
    exact ⟨e, (List.mem_filter.mp (hperm.subset he)).1, rfl, rfl⟩
  inside d hd := h.inside hd
  kept e he hinside := by
    have hsorted := hperm.symm.subset (List.mem_filter.mpr ⟨he, hinside⟩)
    obtain ⟨d, hd, haddress, hfile, hline⟩ := h.represented e hsorted
    exact ⟨d, hd, by rw [← haddress]; rfl, hfile.symm, hline.symm⟩

end Symbol

/-- With single addresses nothing throws, and what is left tiles the symbol from the lowest entry
on. -/
theorem tiles_of_readDwarfEntries (s : SymbolRange) (info : List DwarfEntry)
    (hsingle : ∀ d ∈ info, d.IsSingle) :
    Succeeds s info ∧ (∃ result, ReadDwarfEntries s info result) ∧
      ∀ result, ReadDwarfEntries s info result → Tiles s info result := by
  refine ⟨⟨strictWeakOn_addressLt, fun sorted hsorted =>
    ⟨_, convert_sorted hsingle hsorted, strictWeakOn_lineLt⟩⟩, ?_, fun result hresult => ?_⟩
  · obtain ⟨sorted, hsorted, -⟩ := (@strictWeakOn_addressLt (taken s info)).exists_sortedOf
      (List.nil_subperm) List.Pairwise.nil
    obtain ⟨resorted, hresorted, -⟩ :=
      (@strictWeakOn_lineLt (sorted.map (DwarfEntry.ranged s.address.high sorted))).exists_sortedOf
        (List.nil_subperm) List.Pairwise.nil
    exact ⟨_, sorted, _, resorted, hsorted, convert_sorted hsingle hsorted, hresorted, rfl⟩
  · obtain ⟨sorted, converted, resorted, hsorted, hconvert, hresorted, rfl⟩ := hresult
    exact tiles_of_ranged hsorted.1 (ranged_of_sorts hsingle hsorted hconvert hresorted)

/-- Two lines at one address, one further on and one behind the function. -/
def fourLines : List DwarfEntry :=
  [⟨12, 3, ⟨4112, 4112⟩, "main.cpp"⟩, ⟨10, 1, ⟨4096, 4096⟩, "main.cpp"⟩,
    ⟨11, 1, ⟨4096, 4096⟩, "main.cpp"⟩, ⟨20, 1, ⟨4128, 4128⟩, "main.cpp"⟩]

def mainRange : SymbolRange := ⟨⟨4096, 4128⟩, by decide⟩

theorem tiles_of_readDwarfEntries_fourLines :
    Succeeds mainRange fourLines ∧ (∃ result, ReadDwarfEntries mainRange fourLines result) ∧
      ∀ result, ReadDwarfEntries mainRange fourLines result → Tiles mainRange fourLines result := by
  refine tiles_of_readDwarfEntries mainRange fourLines fun d hd => ?_
  simp only [fourLines, List.mem_cons, List.not_mem_nil, or_false] at hd
  rcases hd with rfl | rfl | rfl | rfl <;> rfl

end Binary
end Rocprofsys
