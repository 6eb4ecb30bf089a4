import Rocprofsys.Causal.BinaryInfo

namespace Rocprofsys
namespace Causal

variable (lib : Library) (mode : CausalMode) (filters : List ScopeFilter) (addr : UInt64)
  (includeDiscarded : Bool)

/-! ## The entries that cover an address -/

def Covers (s : Symbol) : Prop := ¬addr < s.loadAddress ∧ s.ipaddr.contains addr

instance (s : Symbol) : Decidable (Covers addr s) := inferInstanceAs (Decidable (_ ∧ _))

/-- The symbol and its inlined functions. -/
def functionEntries (s : Symbol) : List Symbol :=
  if includeDiscarded ∨ mode = .function then
    (if s.satisfies lib filters then [s] else []) ++ s.getInlineSymbols lib filters
  else []

def lineEntries (s : Symbol) : List Symbol :=
  if includeDiscarded ∨ mode = .line then
    (s.getDebugLineInfo lib filters).filter fun d => d.ipaddr.contains addr
  else []

/-- The entries of a binary that satisfy the filters and cover the address. -/
def coveringEntries (b : BinaryInfo) : List Symbol :=
  (b.symbols.filter fun s => Covers addr s).flatMap fun s =>
    functionEntries lib mode filters includeDiscarded s ++
      lineEntries lib mode filters addr includeDiscarded s

/-- The line entries looked at are inside of the symbol. -/
def SymbolConsistent (s : Symbol) : Prop :=
  includeDiscarded ∨ mode = .line →
    ∀ d ∈ s.getDebugLineInfo lib filters, s.ipaddr.containsRange d.ipaddr

def Consistent (symbols : List Symbol) : Prop :=
  ∀ s ∈ symbols, Covers addr s → SymbolConsistent lib mode filters includeDiscarded s

/-- Of all binaries mapped at the address, those with discarded ones included, else the
first that has any. -/
def expected (bs : List BinaryInfo) : List Symbol :=
  let found := ((bs.filter fun b => b.isMapped addr).map
    (coveringEntries lib mode filters addr includeDiscarded)).filter fun entries => entries ≠ []
  if includeDiscarded then found.flatten else found.head?.getD []

/-- A binary reached behind mapped ones (without entries, unless discarded ones are included)
passes the check of its line entries, and when it is not mapped no mapped binary behind it
has an entry. -/
def Reaches (bs : List BinaryInfo) : Prop :=
  ∀ front b back, bs = front ++ b :: back →
    (∀ p ∈ front, p.isMapped addr = true ∧
      (includeDiscarded = false →
        coveringEntries lib mode filters addr includeDiscarded p = [])) →
    (b.isMapped addr = true → Consistent lib mode filters addr includeDiscarded b.symbols) ∧
      (b.isMapped addr = false → ∀ b' ∈ back, b'.isMapped addr = true →
        coveringEntries lib mode filters addr includeDiscarded b' = [])

variable {lib mode filters addr includeDiscarded}

/-! ## The loops -/

theorem debugData_of_contained {r : AddressRange} {ss : List Symbol}
    (h : ∀ d ∈ ss, r.containsRange d.ipaddr) :
    debugData addr r ss = .ok (ss.filter fun d => d.ipaddr.contains addr) := by
  induction ss with
  | nil => rfl
  | cons s ss ih =>
    have hs := h s List.mem_cons_self
    rw [debugData, hs, ih fun d hd => h d (List.mem_cons_of_mem s hd), List.filter_cons]
    rfl

theorem debugData_of_not_contained {r : AddressRange} {ss : List Symbol}
    (h : ¬∀ d ∈ ss, r.containsRange d.ipaddr) : ∃ e, debugData addr r ss = .error e := by
  induction ss with
  | nil => exact absurd (fun d hd => absurd hd List.not_mem_nil) h
  | cons s ss ih =>
    rw [debugData]
    by_cases hs : r.containsRange s.ipaddr = true
    · obtain ⟨e, he⟩ := ih fun hss => h fun d hd => by
        rcases List.mem_cons.mp hd with rfl | hd
        · exact hs
        · exact hss d hd
      rw [hs, he]
      exact ⟨e, rfl⟩
    · rw [Bool.eq_false_iff.mpr hs]
      exact ⟨_, rfl⟩

theorem symbolData_of_consistent {s : Symbol}
    (h : SymbolConsistent lib mode filters includeDiscarded s) :
    symbolData lib mode filters addr includeDiscarded s =
      .ok (functionEntries lib mode filters includeDiscarded s ++
        lineEntries lib mode filters addr includeDiscarded s) := by
  rw [symbolData, lineEntries]
  by_cases hline : includeDiscarded ∨ mode = .line
  · rw [if_pos hline, if_pos hline, debugData_of_contained (h hline)]
    rfl
  · rw [if_neg hline, if_neg hline, List.append_nil]
    rfl

theorem symbolData_of_not_consistent {s : Symbol}
    (h : ¬SymbolConsistent lib mode filters includeDiscarded s) :
    ∃ e, symbolData lib mode filters addr includeDiscarded s = .error e := by
  obtain ⟨hline, hnot⟩ := Classical.not_imp.mp h
  obtain ⟨e, he⟩ := debugData_of_not_contained hnot
  rw [symbolData, if_pos hline, he]
  exact ⟨e, rfl⟩

theorem covers_iff {s : Symbol} :
    ¬(addr < s.loadAddress ∨ ¬s.ipaddr.contains addr = true) ↔ Covers addr s := by
  rw [Covers, not_or, not_not]

theorem localData_of_consistent {symbols : List Symbol}
    (h : Consistent lib mode filters addr includeDiscarded symbols) :
    localData lib mode filters addr includeDiscarded symbols =
      .ok ((symbols.filter fun s => Covers addr s).flatMap fun s =>
        functionEntries lib mode filters includeDiscarded s ++
          lineEntries lib mode filters addr includeDiscarded s) := by
  induction symbols with
  | nil => rfl
  | cons s ss ih =>
    have hrest := ih fun t ht => h t (List.mem_cons_of_mem s ht)
    rw [localData]
    by_cases hcovers : Covers addr s
    · have hentries := @symbolData_of_consistent _ _ _ addr _ _ (h s List.mem_cons_self hcovers)
      rw [if_neg (covers_iff.mpr hcovers), hentries, hrest, List.filter_cons,
        if_pos (decide_eq_true hcovers), List.flatMap_cons]
      rfl
    · rw [if_pos (not_not.mp fun hnot => hcovers (covers_iff.mp hnot)), hrest, List.filter_cons,
        if_neg fun hyes => hcovers (of_decide_eq_true hyes)]

theorem localData_of_not_consistent {symbols : List Symbol}
    (h : ¬Consistent lib mode filters addr includeDiscarded symbols) :
    ∃ e, localData lib mode filters addr includeDiscarded symbols = .error e := by
  induction symbols with
  | nil => exact absurd (fun s hs => absurd hs List.not_mem_nil) h
  | cons s ss ih =>
    rw [localData]
    by_cases hcovers : Covers addr s
    · rw [if_neg (covers_iff.mpr hcovers)]
      by_cases hs : SymbolConsistent lib mode filters includeDiscarded s
      · obtain ⟨e, he⟩ := ih fun hss => h fun t ht => by
          rcases List.mem_cons.mp ht with rfl | ht
          · exact fun _ => hs
          · exact hss t ht
        rw [symbolData_of_consistent hs, he]
        exact ⟨e, rfl⟩
      · obtain ⟨e, he⟩ := @symbolData_of_not_consistent _ _ _ addr _ _ hs
        rw [he]
        exact ⟨e, rfl⟩
    · rw [if_pos (not_not.mp fun hnot => hcovers (covers_iff.mp hnot))]
      refine ih fun hss => h fun t ht => ?_
      rcases List.mem_cons.mp ht with rfl | ht
      · exact fun hyes => absurd hyes hcovers
      · exact hss t ht

/-! ## The search -/

section Search

variable {b : BinaryInfo} {bs : List BinaryInfo}

theorem expected_of_not_mapped (h : b.isMapped addr = false) :
    expected lib mode filters addr includeDiscarded (b :: bs) =
      expected lib mode filters addr includeDiscarded bs := by
  rw [expected, expected, List.filter_cons_of_neg (by rw [h]; exact Bool.false_ne_true)]

theorem expected_of_no_entries (h : b.isMapped addr = true)
    (hnone : coveringEntries lib mode filters addr includeDiscarded b = []) :
    expected lib mode filters addr includeDiscarded (b :: bs) =
      expected lib mode filters addr includeDiscarded bs := by
  rw [expected, expected, List.filter_cons_of_pos h, List.map_cons, hnone]
  rfl

theorem expected_of_entries (h : b.isMapped addr = true)
    (hsome : coveringEntries lib mode filters addr includeDiscarded b ≠ []) :
    expected lib mode filters addr includeDiscarded (b :: bs) =
      coveringEntries lib mode filters addr includeDiscarded b ++
        if includeDiscarded then expected lib mode filters addr includeDiscarded bs else [] := by
  rw [expected, expected, List.filter_cons_of_pos h, List.map_cons, List.filter_cons,
    if_pos (decide_eq_true hsome)]
  cases includeDiscarded with
  | true => rfl
  | false => exact (List.append_nil _).symm

/-- Nothing is expected exactly when no mapped binary has an entry. -/
theorem expected_eq_nil_iff :
    expected lib mode filters addr includeDiscarded bs = [] ↔
      ∀ b ∈ bs, b.isMapped addr = true →
        coveringEntries lib mode filters addr includeDiscarded b = [] := by
  induction bs with
  | nil =>
    refine ⟨fun _ b hb => absurd hb List.not_mem_nil, fun _ => ?_⟩
    cases includeDiscarded <;> rfl
  | cons b bs ih =>
    rw [List.forall_mem_cons]
    cases hmapped : b.isMapped addr with
    | false =>
      rw [expected_of_not_mapped hmapped, ih]
      exact ⟨fun h => ⟨fun hyes => Bool.noConfusion hyes, h⟩, fun h => h.2⟩
    | true =>
      by_cases hnone : coveringEntries lib mode filters addr includeDiscarded b = []
      · rw [expected_of_no_entries hmapped hnone, ih]
        exact ⟨fun h => ⟨fun _ => hnone, h⟩, fun h => h.2⟩
      · rw [expected_of_entries hmapped hnone]
        exact ⟨fun h => absurd (List.append_eq_nil_iff.mp h).1 hnone,
          fun h => absurd (h.1 rfl) hnone⟩

/-- Behind a mapped binary the search goes on unless it stops at its entries. -/
theorem reaches_cons (hmapped : b.isMapped addr = true)
    (hconsistent : Consistent lib mode filters addr includeDiscarded b.symbols) :
    Reaches lib mode filters addr includeDiscarded (b :: bs) ↔
      ((includeDiscarded = false →
          coveringEntries lib mode filters addr includeDiscarded b = []) →
        Reaches lib mode filters addr includeDiscarded bs) := by
  constructor
  · intro h hpassed front c back heq hfront
    refine h (b :: front) c back (by rw [heq]; rfl) fun p hp => ?_
    rcases List.mem_cons.mp hp with rfl | hp
    · exact ⟨hmapped, hpassed⟩
    · exact hfront p hp
  · intro h front c back heq hfront
    cases front with
    | nil =>
      obtain ⟨rfl, rfl⟩ := List.cons.inj heq
      exact ⟨fun _ => hconsistent, fun hnot => absurd (hmapped.symm.trans hnot) Bool.noConfusion⟩
    | cons p front =>
      obtain ⟨rfl, rfl⟩ := List.cons.inj heq
      exact h (hfront b List.mem_cons_self).2 front c back rfl fun p hp =>
        hfront p (List.mem_cons_of_mem b hp)

theorem reaches_of_not_mapped (h : b.isMapped addr = false) :
    Reaches lib mode filters addr includeDiscarded (b :: bs) ↔
      ∀ c ∈ bs, c.isMapped addr = true →
        coveringEntries lib mode filters addr includeDiscarded c = [] := by
  constructor
  · intro hreaches
    exact (hreaches [] b bs rfl fun p hp => absurd hp List.not_mem_nil).2 h
  · intro hnone front c back heq hfront
    cases front with
    | nil =>
      obtain ⟨rfl, rfl⟩ := List.cons.inj heq
      exact ⟨fun hyes => absurd (hyes.symm.trans h) Bool.noConfusion, fun _ => hnone⟩
    | cons p front =>
      obtain ⟨rfl, rfl⟩ := List.cons.inj heq
      exact absurd ((hfront b List.mem_cons_self).1.symm.trans h) Bool.noConfusion

theorem searchBinaries_iff (data : List Symbol) :
    searchBinaries lib mode filters addr includeDiscarded bs data =
        .ok (data ++ expected lib mode filters addr includeDiscarded bs) ↔
      Reaches lib mode filters addr includeDiscarded bs := by
  induction bs generalizing data with
  | nil =>
    have hnil : expected lib mode filters addr includeDiscarded [] = [] :=
      expected_eq_nil_iff.mpr fun b hb => absurd hb List.not_mem_nil
    rw [hnil, List.append_nil]
    refine ⟨fun _ front b back heq => ?_, fun _ => rfl⟩
    cases front <;> cases heq
  | cons b bs ih =>
    rw [searchBinaries]
    cases hmapped : b.isMapped addr with
    | false =>
      rw [reaches_of_not_mapped hmapped, ← expected_eq_nil_iff, expected_of_not_mapped hmapped]
      show Except.ok data = Except.ok _ ↔ _
      constructor
      · intro h
        injection h with h
        exact List.self_eq_append_right.mp h
      · intro h
        rw [h, List.append_nil]
    | true =>
      show (localData lib mode filters addr includeDiscarded b.symbols).bind _ = _ ↔ _
      by_cases hconsistent : Consistent lib mode filters addr includeDiscarded b.symbols
      · have hlocal : localData lib mode filters addr includeDiscarded b.symbols =
            .ok (coveringEntries lib mode filters addr includeDiscarded b) :=
          localData_of_consistent hconsistent
        rw [hlocal, reaches_cons hmapped hconsistent]
        show (if coveringEntries lib mode filters addr includeDiscarded b = [] then _ else _) = _ ↔ _
        by_cases hnone : coveringEntries lib mode filters addr includeDiscarded b = []
        · rw [if_pos hnone, expected_of_no_entries hmapped hnone, ih data]
          exact ⟨fun h _ => h, fun h => h fun _ => hnone⟩
        · rw [if_neg hnone, expected_of_entries hmapped hnone]
          cases includeDiscarded with
          | true =>
            rw [if_pos rfl, if_pos rfl, ← List.append_assoc, ih]
            exact ⟨fun h _ => h, fun h => h fun hoff => Bool.noConfusion hoff⟩
          | false =>
            rw [if_neg Bool.false_ne_true, if_neg Bool.false_ne_true, List.append_nil]
            exact ⟨fun _ hpassed => absurd (hpassed rfl) hnone, fun _ => rfl⟩
      · obtain ⟨e, he⟩ := localData_of_not_consistent hconsistent
        rw [he]
        constructor
        · intro h
          cases h
        · intro h
          have hreached := (h [] b bs rfl fun p hp => absurd hp List.not_mem_nil).1 hmapped
          exact absurd hreached hconsistent

end Search

/-! ## get_line_info -/

/-- The filters and the list of binaries a call works on. -/
def searched (globFilters scopeFilters : List ScopeFilter) (cached : CachedBinaryInfo)
    (includeDiscarded : Bool) : List ScopeFilter × List BinaryInfo :=
  if includeDiscarded then (globFilters, cached.requested) else (scopeFilters, cached.inScope)

/-- The search finds what the mapped binaries have exactly when no entry stands behind an
unmapped binary that it reaches, and the line entries it looks at are consistent. -/
theorem getLineInfo_iff (lib : Library) (mode : CausalMode)
    (globFilters scopeFilters : List ScopeFilter) (cached : CachedBinaryInfo) (addr : UInt64)
    (includeDiscarded : Bool) :
    let search := searched globFilters scopeFilters cached includeDiscarded
    getLineInfo lib mode globFilters scopeFilters cached addr includeDiscarded =
        .ok (expected lib mode search.1 addr includeDiscarded search.2) ↔
      Reaches lib mode search.1 addr includeDiscarded search.2 := by
  cases includeDiscarded with
  | true => exact searchBinaries_iff []
  | false => exact searchBinaries_iff []

/-- One function of 16 bytes in a mapping at `0x1000`. -/
def mappedBinary : BinaryInfo where
  mappings := [⟨0x1000, 0x2000, by decide⟩]
  symbols := [⟨7, 0x1000, ⟨0x10, 0x20⟩, "f", "f.cpp", [], []⟩]

/-- A binary in front that the address is not in. -/
theorem not_getLineInfo_second :
    ¬∀ (lib : Library) (mode : CausalMode) (globFilters scopeFilters : List ScopeFilter)
      (cached : CachedBinaryInfo) (addr : UInt64) (includeDiscarded : Bool),
      let search := searched globFilters scopeFilters cached includeDiscarded
      getLineInfo lib mode globFilters scopeFilters cached addr includeDiscarded =
        .ok (expected lib mode search.1 addr includeDiscarded search.2) := by
  intro h
  have hsearch := h ⟨fun _ _ => false, id⟩ .function [] [] ⟨[], [⟨[], []⟩, mappedBinary]⟩ 0x1010
    false
  exact absurd hsearch (by decide)

end Causal
end Rocprofsys
