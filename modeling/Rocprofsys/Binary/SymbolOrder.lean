import Rocprofsys.Base.WeakOrder
import Rocprofsys.Binary.AddressRanges

namespace Rocprofsys
namespace Binary

open Base
open Causal (AddressRange)

/-! ## Comparing symbols -/

/-- The fields of a symbol that are compared, and those that tell whether it is one. -/
structure Symbol where
  binding : Int
  visibility : Int
  name : String
  line : UInt32
  loadAddress : UInt64
  address : AddressRange
  func : String
  file : String
  deriving DecidableEq

namespace Symbol

/-- `operator bool`. -/
def isValid (s : Symbol) : Bool :=
  s.address.isValid && 0 < s.file.utf8ByteSize + s.func.utf8ByteSize + s.line.toNat

/-- `operator==`. -/
def Same (s rhs : Symbol) : Prop := s.address = rhs.address ∧ s.name = rhs.name

instance : DecidableRel Same := fun _ _ => inferInstanceAs (Decidable (_ ∧ _))

/-- `operator<`. The visibility and the name of the left symbol stand on both sides of the last
comparison. -/
def lt (s rhs : Symbol) : Bool :=
  if 0 < s.loadAddress && 0 < rhs.loadAddress && s.loadAddress != rhs.loadAddress then
    s.loadAddress < rhs.loadAddress
  else if s.address == rhs.address && s.name == rhs.name then s.loadAddress > rhs.loadAddress
  else
    s.address.lt rhs.address || !rhs.address.lt s.address &&
      (s.binding < rhs.binding || !(rhs.binding < s.binding) &&
        (s.visibility < s.visibility || !(s.visibility < s.visibility) && s.name < s.name))

end Symbol

/-- `filter_sort_unique` of the symbols of a binary. -/
def FilterSortUnique (symbols result : List Symbol) : Prop :=
  ∃ sorted, SortedOf (fun s rhs => s.lt rhs = true) (symbols.filter Symbol.isValid) sorted ∧
    result = unique Symbol.Same sorted

/-- The comparison is one that a sort may use, one of each of the symbols that compare equal is
left and none is dropped. -/
structure SortsToDistinct (symbols : List Symbol) : Prop where
  order : StrictWeakOn (fun s rhs => s.lt rhs = true) (symbols.filter Symbol.isValid)
  distinct : ∀ result, FilterSortUnique symbols result → result.Pairwise fun s t => ¬ s.Same t
  kept : ∀ result, FilterSortUnique symbols result →
    ∀ s ∈ symbols, s.isValid = true → ∃ t ∈ result, s.Same t

/-! ## Where it is an ordering -/

namespace Symbol

/-- The address and the binding. -/
def key (s : Symbol) : (ℕ ×ₗ ℕ ×ₗ ℕ) ×ₗ ℤ := toLex (s.address.rank, s.binding)

/-- By different load addresses, if there are two, or else by address and binding. -/
def Below (s t : Symbol) : Prop :=
  if 0 < s.loadAddress.toNat ∧ 0 < t.loadAddress.toNat ∧
      s.loadAddress.toNat ≠ t.loadAddress.toNat then
    s.loadAddress.toNat < t.loadAddress.toNat
  else s.key < t.key

end Symbol

/-- Every other symbol is on one side of two copies, and a symbol without a load address is above
the one or below the other of two with different ones. -/
structure Separable (symbols : List Symbol) : Prop where
  copies : ∀ a b c, [a, b].Subperm symbols → c ∈ symbols → a.Same b → ¬ c.Same a →
    c.Below a ∧ c.Below b ∨ a.Below c ∧ b.Below c
  loads : ∀ a ∈ symbols, ∀ b ∈ symbols, ∀ c ∈ symbols,
    0 < a.loadAddress.toNat → a.loadAddress.toNat < b.loadAddress.toNat →
    c.loadAddress.toNat = 0 → ¬ a.Same b → ¬ a.Same c → ¬ b.Same c →
    a.key < c.key ∨ c.key < b.key

section Symbols

variable {a b c s t : Symbol} {symbols : List Symbol}

theorem equivalence_same : Equivalence Symbol.Same where
  refl _ := ⟨rfl, rfl⟩
  symm h := ⟨h.1.symm, h.2.symm⟩
  trans h h' := ⟨h.1.trans h'.1, h.2.trans h'.2⟩

theorem lt_of_same (h : s.Same t) : s.lt t = true ↔
    if 0 < s.loadAddress.toNat ∧ 0 < t.loadAddress.toNat then
      s.loadAddress.toNat < t.loadAddress.toNat
    else t.loadAddress.toNat < s.loadAddress.toNat := by
  have hne : s.loadAddress = t.loadAddress ↔ s.loadAddress.toNat = t.loadAddress.toNat :=
    UInt64.toNat_inj.symm
  simp only [Symbol.lt, h.1, h.2, BEq.rfl, Bool.and_self, if_true, Bool.and_eq_true,
    decide_eq_true_eq, bne_iff_ne, UInt64.lt_iff_toNat_lt, gt_iff_lt, ne_eq, hne,
    UInt64.toNat_zero]
  split <;> split <;> simp only [decide_eq_true_eq] <;> omega

theorem lt_of_not_same (h : ¬ s.Same t) : s.lt t = true ↔ s.Below t := by
  have hne : s.loadAddress = t.loadAddress ↔ s.loadAddress.toNat = t.loadAddress.toNat :=
    UInt64.toNat_inj.symm
  have hsame : ¬ ((s.address == t.address && s.name == t.name) = true) := by
    rw [Bool.and_eq_true, beq_iff_eq, beq_iff_eq]
    exact h
  rw [Symbol.lt, Symbol.Below, if_neg hsame]
  simp only [Bool.and_eq_true, decide_eq_true_eq, bne_iff_ne, UInt64.lt_iff_toNat_lt, ne_eq, hne,
    UInt64.toNat_zero, and_assoc]
  split
  · rw [decide_eq_true_eq]
  · rw [Symbol.key, Symbol.key, toLex_lt_iff, ← AddressRange.lt_iff_rank_lt,
      ← AddressRange.lt_iff_rank_lt]
    simp only [Bool.or_eq_true, Bool.and_eq_true, Bool.not_eq_true', decide_eq_true_eq,
      Int.lt_irrefl, String.lt_irrefl, decide_false, Bool.false_eq_true, and_false, or_false,
      Bool.not_eq_true]

theorem lt_asymm (h : s.lt t = true) : ¬ t.lt s = true := by
  by_cases hsame : s.Same t
  · rw [lt_of_same hsame] at h
    rw [lt_of_same (equivalence_same.symm hsame)]
    split at h <;> split <;> omega
  · rw [lt_of_not_same hsame, Symbol.Below] at h
    rw [lt_of_not_same fun h => hsame (equivalence_same.symm h), Symbol.Below]
    split at h
    · rw [if_pos (by omega)]
      omega
    · rw [if_neg (by omega)]
      exact h.asymm

/-- Two elements of a list that differ stand at two positions. -/
theorem subperm_pair (ha : a ∈ symbols) (hb : b ∈ symbols) (hne : a ≠ b) :
    [a, b].Subperm symbols := by
  refine List.subperm_of_subset ?_ ?_
  · rw [List.nodup_cons, List.mem_singleton]
    exact ⟨hne, List.nodup_singleton b⟩
  · intro x hx
    rcases List.mem_pair.mp hx with rfl | rfl
    · exact ha
    · exact hb

theorem ne_of_lt (h : s.lt t = true) : s ≠ t := by
  intro heq
  rw [heq] at h
  exact lt_asymm h h

/-- Among symbols without copies the load addresses decide. -/
theorem Separable.below_cotrans (h : Separable symbols) (ha : a ∈ symbols) (hb : b ∈ symbols)
    (hc : c ∈ symbols) (hab : ¬ a.Same b) (hac : ¬ a.Same c) (hbc : ¬ b.Same c)
    (hbelow : a.Below c) : a.Below b ∨ b.Below c := by
  have hba (h : b.Same a) : False := hab (equivalence_same.symm h)
  have hca (h : c.Same a) : False := hac (equivalence_same.symm h)
  have hcb (h : c.Same b) : False := hbc (equivalence_same.symm h)
  have hmiddle := h.loads a ha c hc b hb
  have hright := h.loads a ha b hb c hc
  have hright' := h.loads b hb a ha c hc
  have hleft := h.loads c hc b hb a ha
  have hkeys (hlt : a.key < c.key) : a.key < b.key ∨ b.key < c.key :=
    (lt_or_ge a.key b.key).imp_right fun hle => hle.trans_lt hlt
  simp only [hab, hac, hbc, not_false_eq_true, forall_const] at hmiddle hright hright' hleft
  simp only [Symbol.Below] at hbelow ⊢
  -- the keys have to help where one load address is zero and the other two differ
  generalize a.loadAddress.toNat = la, b.loadAddress.toNat = lb, c.loadAddress.toNat = lc at *
  generalize a.key = ka, b.key = kb, c.key = kc at *
  grind

theorem Separable.order (h : Separable symbols) :
    StrictWeakOn (fun s rhs => s.lt rhs = true) symbols := by
  refine .of_cotrans (fun s _ t _ => lt_asymm) fun a ha b hb c hc hlt => ?_
  have hne := ne_of_lt hlt
  by_cases hab : a.Same b
  · by_cases hbc : b.Same c
    · -- copies of one symbol are compared by their load addresses alone
      rw [lt_of_same (equivalence_same.trans hab hbc)] at hlt
      rw [lt_of_same hab, lt_of_same hbc]
      split at hlt <;> split <;> split <;> omega
    · by_cases heq : a = b
      · exact Or.inr (heq ▸ hlt)
      · have hca (h : c.Same a) : False :=
          hbc (equivalence_same.symm (equivalence_same.trans h hab))
        have hcb (h : c.Same b) : False := hbc (equivalence_same.symm h)
        rcases h.copies a b c (subperm_pair ha hb heq) hc hab hca with h | h
        · exact absurd ((lt_of_not_same hca).mpr h.1) (lt_asymm hlt)
        · exact Or.inr ((lt_of_not_same hbc).mpr h.2)
  · have hba (h : b.Same a) : False := hab (equivalence_same.symm h)
    by_cases hac : a.Same c
    · have hbc (h : b.Same c) : False :=
        hab (equivalence_same.trans hac (equivalence_same.symm h))
      rcases h.copies a c b (subperm_pair ha hc hne) hb hac hba with h | h
      · exact Or.inr ((lt_of_not_same hbc).mpr h.2)
      · exact Or.inl ((lt_of_not_same hab).mpr h.1)
    · by_cases hbc : b.Same c
      · by_cases heq : b = c
        · exact Or.inl (heq ▸ hlt)
        · have hca (h : c.Same a) : False := hac (equivalence_same.symm h)
          rcases h.copies b c a (subperm_pair hb hc heq) ha hbc hab with h | h
          · exact Or.inl ((lt_of_not_same hab).mpr h.1)
          · exact absurd ((lt_of_not_same hca).mpr h.2) (lt_asymm hlt)
      · rw [lt_of_not_same hac] at hlt
        rw [lt_of_not_same hab, lt_of_not_same hbc]
        exact h.below_cotrans ha hb hc hab hac hbc hlt

/-- In a sorted list nothing stands between copies. -/
theorem Separable.contiguous (h : Separable symbols) {sorted : List Symbol}
    (hsorted : SortedOf (fun s rhs => s.lt rhs = true) symbols sorted) :
    Contiguous Symbol.Same sorted := by
  intro a b c hsub hac
  by_contra hab
  obtain ⟨hperm, hpairwise⟩ := hsorted
  have hba (h : b.Same a) : False := hab (equivalence_same.symm h)
  have hbc (h : b.Same c) : False := hab (equivalence_same.trans hac (equivalence_same.symm h))
  have hcb (h : c.Same b) : False := hbc (equivalence_same.symm h)
  have hb : b ∈ symbols := hperm.subset (hsub.subset (by simp))
  have hpair : [a, c].Subperm symbols :=
    ((((List.sublist_cons_self b [c]).cons_cons a).trans hsub).subperm).trans hperm.subperm
  have hordered := hpairwise.sublist hsub
  simp only [List.pairwise_cons, List.mem_cons, List.not_mem_nil, or_false, forall_eq_or_imp,
    forall_eq] at hordered
  obtain ⟨⟨hnotba, -⟩, hnotcb, -⟩ := hordered
  rcases h.copies a c b hpair hb hac hba with h | h
  · exact hnotba ((lt_of_not_same hba).mpr h.1)
  · exact hnotcb ((lt_of_not_same hcb).mpr h.2)

/-- The conditions are needed. -/
theorem separable_of_contiguous
    (horder : StrictWeakOn (fun s rhs => s.lt rhs = true) symbols)
    (hcontiguous : ∀ sorted, SortedOf (fun s rhs => s.lt rhs = true) symbols sorted →
      Contiguous Symbol.Same sorted) : Separable symbols where
  copies a b c hsub hc hab hca := by
    have ha : a ∈ symbols := hsub.subset (by simp)
    have hb : b ∈ symbols := hsub.subset (by simp)
    have hcb (h : c.Same b) : False :=
      hca (equivalence_same.trans h (equivalence_same.symm hab))
    have hac (h : a.Same c) : False := hca (equivalence_same.symm h)
    have hbc (h : b.Same c) : False := hcb (equivalence_same.symm h)
    rw [← lt_of_not_same hca, ← lt_of_not_same hcb, ← lt_of_not_same hac, ← lt_of_not_same hbc]
    by_contra hbetween
    have hne : c ∉ [a, b] := by
      intro hmem
      rcases List.mem_pair.mp hmem with rfl | rfl
      · exact hca (equivalence_same.refl c)
      · exact hcb (equivalence_same.refl c)
    have hthree : (c :: [a, b]).Subperm symbols := List.cons_subperm_of_not_mem_of_mem hne hc hsub
    rcases horder.pairwise_between ha hb hc hbetween with hordered | hordered
    · have hperm : [a, c, b].Perm (c :: [a, b]) := List.Perm.swap c a [b]
      obtain ⟨sorted, hsorted, hsub'⟩ :=
        horder.exists_sortedOf (hperm.subperm.trans hthree) hordered
      exact hac (hcontiguous sorted hsorted a c b hsub' hab)
    · have hperm : [b, c, a].Perm (c :: [a, b]) :=
        (List.Perm.swap c b [a]).trans ((List.Perm.swap a b []).cons c)
      obtain ⟨sorted, hsorted, hsub'⟩ :=
        horder.exists_sortedOf (hperm.subperm.trans hthree) hordered
      exact hbc (hcontiguous sorted hsorted b c a hsub' (equivalence_same.symm hab))
  loads a ha b hb c hc hpos hlt hzero hab hac hbc := by
    have hca (h : c.Same a) : False := hac (equivalence_same.symm h)
    have hcb (h : c.Same b) : False := hbc (equivalence_same.symm h)
    have hload : a.lt b = true := by
      rw [lt_of_not_same hab, Symbol.Below, if_pos (by omega)]
      exact hlt
    have hside := horder.cotrans ha hc hb hload
    rwa [lt_of_not_same hac, lt_of_not_same hcb, Symbol.Below, Symbol.Below,
      if_neg (by omega), if_neg (by omega)] at hside

end Symbols

/-- The symbols that are left after sorting are one of each exactly if the valid ones are
separable. -/
theorem sortsToDistinct_iff (symbols : List Symbol) :
    SortsToDistinct symbols ↔ Separable (symbols.filter Symbol.isValid) := by
  constructor
  · intro h
    refine separable_of_contiguous h.order fun sorted hsorted => ?_
    exact (pairwise_unique_iff equivalence_same).mp (h.distinct _ ⟨sorted, hsorted, rfl⟩)
  · intro h
    refine ⟨h.order, fun result hresult => ?_, fun result hresult s hs hvalid => ?_⟩
    · obtain ⟨sorted, hsorted, rfl⟩ := hresult
      exact (pairwise_unique_iff equivalence_same).mpr (h.contiguous hsorted)
    · obtain ⟨sorted, hsorted, rfl⟩ := hresult
      exact exists_same_unique equivalence_same
        (hsorted.1.symm.subset (List.mem_filter.mpr ⟨hs, hvalid⟩))

/-- A function with a name, at an address and with a load address. -/
def functionAt (name : String) (low high loadAddress : UInt64) : Symbol where
  binding := 1
  visibility := 0
  name := name
  line := 10
  loadAddress := loadAddress
  address := ⟨low, high⟩
  func := name
  file := "main.cpp"

/-- Two symbols that are loaded, the first one at the higher address, and one in between that is
not. -/
def oneUnloaded : List Symbol :=
  [functionAt "f" 768 800 4096, functionAt "g" 256 288 8192, functionAt "h" 512 544 0]

/-- A symbol twice, and one with another name at the same address. -/
def aliased : List Symbol :=
  [functionAt "f" 256 288 0, functionAt "g" 256 288 0, functionAt "f" 256 288 0]

/-- With symbols of which some are loaded the comparison runs in a circle, and copies with an
alias between them are both left. -/
theorem not_sortsToDistinct_oneUnloaded :
    ¬ SortsToDistinct oneUnloaded ∧ ¬ SortsToDistinct aliased := by
  constructor
  · intro h
    have hvalid : oneUnloaded.filter Symbol.isValid = oneUnloaded := by decide +kernel
    have htrans := h.order.trans
    rw [hvalid] at htrans
    have hlt := htrans _ List.mem_cons_self _ (List.mem_cons_of_mem _ List.mem_cons_self) _
      (List.mem_cons_of_mem _ (List.mem_cons_of_mem _ List.mem_cons_self)) (by decide +kernel)
      (by decide +kernel)
    exact absurd hlt (by decide +kernel)
  · intro h
    have hvalid : aliased.filter Symbol.isValid = aliased := by decide +kernel
    have hsorted : SortedOf (fun s rhs => s.lt rhs = true) (aliased.filter Symbol.isValid)
        aliased := by
      rw [hvalid]
      exact ⟨List.Perm.refl _, by decide +kernel⟩
    have hdistinct := h.distinct _ ⟨aliased, hsorted, rfl⟩
    exact absurd hdistinct (by decide +kernel)

end Binary
end Rocprofsys
