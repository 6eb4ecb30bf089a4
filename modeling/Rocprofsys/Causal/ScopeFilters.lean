import Mathlib.Data.List.Infix
import Rocprofsys.Causal.BinaryInfo

namespace Rocprofsys
namespace Causal

/-! ## What filters ask for -/

section Meaning

variable (lib : Library) (filters : List ScopeFilter)

namespace ScopeFilter

/-- The expression is found. An empty one is found everywhere. -/
def Finds (f : ScopeFilter) (value : String) : Prop :=
  f.expression = "" ∨ lib.regexSearch f.expression value = true

/-- The filter is for one of these scopes. -/
def HasScope (f : ScopeFilter) (scope : UInt8) : Prop := 0 < f.scope &&& scope

end ScopeFilter

/-- A filter of the scope and the mode finds its expression, or its expressions, in this way. -/
def SomeFilter (mode : FilterMode) (scope : UInt8) (found : ScopeFilter → Prop) : Prop :=
  ∃ f ∈ filters, f.mode = mode ∧ f.HasScope scope ∧ found f

/-- No exclude filter matches, and every include filter does. -/
def Passes (scope : UInt8) (found : ScopeFilter → Prop) : Prop :=
  ¬ SomeFilter filters .filterExclude scope found ∧
    ¬ SomeFilter filters .filterInclude scope fun f => ¬ found f

def PassesFunction (func : String) : Prop :=
  Passes filters functionFilter fun f => f.Finds lib (lib.demangle func)

/-- The text `file:line`. -/
def sourceLine (file : String) (line : UInt32) : String := file ++ ":" ++ toString line.toNat

/-- A source filter matches a location by its file or by its file and line. -/
def PassesSource (file : String) (line : UInt32) : Prop :=
  Passes filters sourceFilter fun f => f.Finds lib file ∨ f.Finds lib (sourceLine file line)

/-- A function at a location. -/
structure Entry where
  func : String
  file : String
  line : UInt32

def Entry.Passes (e : Entry) : Prop :=
  PassesFunction lib filters e.func ∧ PassesSource lib filters e.file e.line

def Symbol.entry (s : Symbol) : Entry := ⟨s.func, s.file, s.line⟩

def InlinedSymbol.entry (i : InlinedSymbol) : Entry := ⟨i.func, i.file, i.line⟩

/-- The function of the symbol, at the location of a line entry. -/
def Symbol.debugEntry (s : Symbol) (d : DwarfEntry) : Entry := ⟨s.func, d.file, d.line⟩

instance (f : ScopeFilter) (value : String) : Decidable (f.Finds lib value) :=
  inferInstanceAs (Decidable (_ ∨ _))

instance (f : ScopeFilter) (scope : UInt8) : Decidable (f.HasScope scope) :=
  inferInstanceAs (Decidable (_ < _))

instance (mode : FilterMode) (scope : UInt8) (found : ScopeFilter → Prop)
    [DecidablePred found] : Decidable (SomeFilter filters mode scope found) :=
  inferInstanceAs (Decidable (∃ f ∈ filters, _))

instance (scope : UInt8) (found : ScopeFilter → Prop) [DecidablePred found] :
    Decidable (Passes filters scope found) :=
  inferInstanceAs (Decidable (_ ∧ _))

instance (e : Entry) : Decidable (e.Passes lib filters) :=
  inferInstanceAs (Decidable (Passes filters _ _ ∧ Passes filters _ _))

def Symbol.inlinedSymbol (s : Symbol) (i : InlinedSymbol) : Symbol :=
  { s.clone with func := i.func, line := i.line, file := i.file }

def Symbol.debugSymbol (s : Symbol) (d : DwarfEntry) : Symbol :=
  { s.clone with address := d.address, file := d.file, line := d.line }

/-- The symbol itself, its inlined functions and its line entries pass as the filters ask. -/
structure FiltersExactly (s : Symbol) : Prop where
  symbol : s.satisfies lib filters = decide (s.entry.Passes lib filters)
  inlines : s.getInlineSymbols lib filters =
    (s.inlines.filter fun i => i.entry.Passes lib filters).map s.inlinedSymbol
  debug : s.getDebugLineInfo lib filters =
    (s.dwarfInfo.filter fun d => (s.debugEntry d).Passes lib filters).map s.debugSymbol

/-! ## Where the source filters fail -/

/-- One of the two texts satisfies the source filters, and an exclude filter finds its expression
in the other. -/
def Leaks (file : String) (line : UInt32) : Prop :=
  let leaksBy (value other : String) : Prop :=
    Passes filters sourceFilter (fun f => f.Finds lib value) ∧
      SomeFilter filters .filterExclude sourceFilter fun f => f.Finds lib other
  leaksBy file (sourceLine file line) ∨ leaksBy (sourceLine file line) file

/-- Every include filter finds its expression in one of the two texts, and no exclude filter does,
but neither text is enough for all of the include filters. -/
def Splits (file : String) (line : UInt32) : Prop :=
  PassesSource lib filters file line ∧
    (SomeFilter filters .filterInclude sourceFilter fun f => ¬ f.Finds lib file) ∧
    SomeFilter filters .filterInclude sourceFilter fun f => ¬ f.Finds lib (sourceLine file line)

/-- The functions and locations that a symbol has. -/
def Symbol.entries (s : Symbol) : List Entry :=
  s.entry :: (s.inlines.map InlinedSymbol.entry ++ s.dwarfInfo.map s.debugEntry)

end Meaning

/-! ## The filters of one location -/

section Location

variable {lib : Library} {filters : List ScopeFilter} {scope : UInt8} {value func file : String}
  {line : UInt32} {found found' : ScopeFilter → Prop}

theorem accepts_iff (f : ScopeFilter) : f.accepts lib value = true ↔
    (f.mode = .filterExclude → ¬ f.Finds lib value) ∧
      (f.mode = .filterInclude → f.Finds lib value) := by
  rw [ScopeFilter.accepts, ScopeFilter.Finds]
  cases f.mode with
  | filterInclude => by_cases h : f.expression = "" <;> simp [h]
  | filterExclude => by_cases h : f.expression = "" <;> simp [h]

theorem satisfiesFilter_iff :
    ScopeFilter.satisfiesFilter lib filters scope value = true ↔
      Passes filters scope fun f => f.Finds lib value := by
  have hfilter (f : ScopeFilter) :
      (!(decide (0 < f.scope &&& scope) && !f.accepts lib value)) = true ↔
        (f.HasScope scope → f.accepts lib value = true) := by
    rw [ScopeFilter.HasScope]
    cases f.accepts lib value <;> simp
  rw [ScopeFilter.satisfiesFilter, List.all_eq_true]
  simp only [hfilter, accepts_iff, Passes, SomeFilter, not_exists, not_and, not_not]
  constructor
  · intro h
    exact ⟨fun f hf hmode hscope => (h f hf hscope).1 hmode,
      fun f hf hmode hscope => (h f hf hscope).2 hmode⟩
  · intro h f hf hscope
    exact ⟨fun hmode => h.1 f hf hmode hscope, fun hmode => h.2 f hf hmode hscope⟩

theorem functionSatisfies_iff :
    Symbol.functionSatisfies lib filters func = true ↔ PassesFunction lib filters func :=
  satisfiesFilter_iff

theorem sourceSatisfies_iff :
    Symbol.sourceSatisfies lib filters file line = true ↔
      (Passes filters sourceFilter fun f => f.Finds lib file) ∨
        Passes filters sourceFilter fun f => f.Finds lib (sourceLine file line) := by
  rw [Symbol.sourceSatisfies, Bool.or_eq_true, satisfiesFilter_iff, satisfiesFilter_iff]
  rfl

theorem SomeFilter.mono {mode : FilterMode} (hfound : ∀ f, found f → found' f)
    (h : SomeFilter filters mode scope found) : SomeFilter filters mode scope found' := by
  obtain ⟨f, hf, hmode, hscope, hfinds⟩ := h
  exact ⟨f, hf, hmode, hscope, hfound f hfinds⟩

theorem someFilter_or {mode : FilterMode} :
    (SomeFilter filters mode scope fun f => found f ∨ found' f) ↔
      SomeFilter filters mode scope found ∨ SomeFilter filters mode scope found' := by
  constructor
  · intro h
    obtain ⟨f, hf, hmode, hscope, h | h⟩ := h
    · exact Or.inl ⟨f, hf, hmode, hscope, h⟩
    · exact Or.inr ⟨f, hf, hmode, hscope, h⟩
  · intro h
    rcases h with h | h
    · exact h.mono fun _ => Or.inl
    · exact h.mono fun _ => Or.inr

/-- The two tests, joined by a disjunction, agree with the filters exactly if nothing leaks or
splits. -/
theorem sourceSatisfies_iff_passesSource :
    (Symbol.sourceSatisfies lib filters file line = true ↔ PassesSource lib filters file line) ↔
      ¬ Leaks lib filters file line ∧ ¬ Splits lib filters file line := by
  rw [sourceSatisfies_iff]
  have hmisses (value : String)
      (h : SomeFilter filters .filterInclude sourceFilter fun f =>
        ¬ (f.Finds lib file ∨ f.Finds lib (sourceLine file line))) :
      value = file ∨ value = sourceLine file line →
        SomeFilter filters .filterInclude sourceFilter fun f => ¬ f.Finds lib value := by
    intro hvalue
    refine h.mono fun f hf => ?_
    rcases hvalue with rfl | rfl
    · exact fun h => hf (Or.inl h)
    · exact fun h => hf (Or.inr h)
  have hfile := hmisses file
  have hline := hmisses (sourceLine file line)
  simp only [Leaks, Splits, PassesSource, Passes, someFilter_or] at hfile hline ⊢
  clear hmisses
  -- what is left is propositional in who finds and who misses which text
  generalize (SomeFilter filters .filterExclude sourceFilter fun f => f.Finds lib file) = findsFile
  generalize (SomeFilter filters .filterExclude sourceFilter fun f =>
    f.Finds lib (sourceLine file line)) = findsLine
  generalize (SomeFilter filters .filterInclude sourceFilter fun f => ¬ f.Finds lib file) =
    missesFile at *
  generalize (SomeFilter filters .filterInclude sourceFilter fun f =>
    ¬ f.Finds lib (sourceLine file line)) = missesLine at *
  grind

end Location

/-! ## All locations of a symbol -/

section Symbols

variable {lib : Library} {filters : List ScopeFilter} {s : Symbol} {e : Entry}

/-- The test that the code makes of an entry. -/
def Entry.accepted (lib : Library) (filters : List ScopeFilter) (e : Entry) : Bool :=
  Symbol.functionSatisfies lib filters e.func && Symbol.sourceSatisfies lib filters e.file e.line

theorem accepted_eq_iff : e.accepted lib filters = decide (e.Passes lib filters) ↔
    (PassesFunction lib filters e.func →
      ¬ Leaks lib filters e.file e.line ∧ ¬ Splits lib filters e.file e.line) := by
  rw [← sourceSatisfies_iff_passesSource, Bool.eq_iff_iff, decide_eq_true_iff, Entry.accepted,
    Bool.and_eq_true, functionSatisfies_iff, Entry.Passes]
  grind

theorem map_filter_eq_iff {α β : Type} {f : α → β} (hf : ∀ x y, f x = f y → x = y)
    {p q : α → Bool} {xs : List α} :
    (xs.filter p).map f = (xs.filter q).map f ↔ ∀ x ∈ xs, p x = q x := by
  rw [List.map_inj_right hf]
  constructor
  · intro h x hx
    have hmem := congrArg (x ∈ ·) h
    simp only [List.mem_filter, hx, true_and, eq_iff_iff] at hmem
    exact Bool.eq_iff_iff.mpr hmem
  · exact List.filter_congr

theorem getDebugLineInfo_eq : s.getDebugLineInfo lib filters =
    (s.dwarfInfo.filter fun d => (s.debugEntry d).accepted lib filters).map s.debugSymbol := by
  rw [Symbol.getDebugLineInfo]
  simp only [Entry.accepted, Symbol.debugEntry]
  split
  · rename_i h
    simp only [h, Bool.true_and]
    rfl
  · rename_i h
    simp only [Bool.not_eq_true] at h
    simp only [h, Bool.false_and, List.filter_false, List.map_nil]

theorem inlinedSymbol_inj (i j : InlinedSymbol) (h : s.inlinedSymbol i = s.inlinedSymbol j) :
    i = j := by
  rw [Symbol.inlinedSymbol, Symbol.inlinedSymbol, Symbol.mk.injEq] at h
  obtain ⟨hline, -, -, hfunc, hfile, -⟩ := h
  cases i
  cases j
  congr

theorem debugSymbol_inj (d d' : DwarfEntry) (h : s.debugSymbol d = s.debugSymbol d') :
    d = d' := by
  rw [Symbol.debugSymbol, Symbol.debugSymbol, Symbol.mk.injEq] at h
  obtain ⟨hline, -, haddress, -, hfile, -⟩ := h
  cases d
  cases d'
  congr

end Symbols

/-- The filters do what they ask for exactly if at no location of a function that passes an
exclusion leaks, or the include filters are split over the two texts. -/
theorem filtersExactly_iff (lib : Library) (filters : List ScopeFilter) (s : Symbol) :
    FiltersExactly lib filters s ↔ ∀ e ∈ s.entries, PassesFunction lib filters e.func →
      ¬ Leaks lib filters e.file e.line ∧ ¬ Splits lib filters e.file e.line := by
  have hsymbol : s.satisfies lib filters = s.entry.accepted lib filters := rfl
  have hinlines : s.getInlineSymbols lib filters =
      (s.inlines.filter fun i => i.entry.accepted lib filters).map s.inlinedSymbol := rfl
  simp only [← accepted_eq_iff, Symbol.entries, List.forall_mem_cons, List.forall_mem_append,
    List.forall_mem_map]
  constructor
  · intro h
    refine ⟨h.symbol, ?_, ?_⟩
    · have heq := h.inlines
      rwa [hinlines, map_filter_eq_iff inlinedSymbol_inj] at heq
    · have heq := h.debug
      rwa [getDebugLineInfo_eq, map_filter_eq_iff debugSymbol_inj] at heq
  · intro h
    obtain ⟨hself, hinlined, hdebug⟩ := h
    refine ⟨hself, ?_, ?_⟩
    · rwa [hinlines, map_filter_eq_iff inlinedSymbol_inj]
    · rwa [getDebugLineInfo_eq, map_filter_eq_iff debugSymbol_inj]

/-- A search that looks for the expression itself. -/
def literally : Library where
  regexSearch expression value := decide (expression.toList <:+: value.toList)
  demangle name := name

/-- Line 12 of a file is excluded. -/
def excludeLine : ScopeFilter := ⟨.filterExclude, sourceFilter, "main.cpp:12"⟩

def atLine : Symbol where
  line := 12
  loadAddress := 0
  address := ⟨4096, 4160⟩
  func := "main"
  file := "main.cpp"
  inlines := []
  dwarfInfo := []

/-- The excluded line passes, since the expression is not found in the file alone. -/
theorem not_filtersExactly_excludeLine :
    atLine.satisfies literally [excludeLine] = true ∧
      ¬ FiltersExactly literally [excludeLine] atLine := by
  have hsatisfies : atLine.satisfies literally [excludeLine] = true := by decide +kernel
  refine ⟨hsatisfies, fun h => ?_⟩
  have hpasses := h.symbol
  rw [hsatisfies, eq_comm, decide_eq_true_iff] at hpasses
  refine hpasses.2.1 ⟨excludeLine, List.mem_singleton_self _, rfl, ?_, Or.inr (Or.inr ?_)⟩
  · show 0 < excludeLine.scope &&& sourceFilter
    decide
  · decide +kernel

end Causal
end Rocprofsys
