import Mathlib.Data.Finset.Sort
import Mathlib.Data.String.Basic
import Rocprofsys.Base.Gather
import Rocprofsys.Base.Merging

namespace Rocprofsys
namespace Coverage

open Base

/-! ## Sets of what is covered -/

section Sets

variable {κ : Type} [LinearOrder κ] {s t covered possible : Finset κ} {k : κ}

/-- `for(auto&& itr : t) s.emplace(itr)`. -/
def emplaceAll (s t : Finset κ) : Finset κ :=
  gather (fun _ => true) id (t.sort fun a b => a ≤ b) s

/-- `get_uncovered`. -/
def getUncovered (covered possible : Finset κ) : Finset κ :=
  gather (fun k => decide (k ∉ covered)) id (possible.sort fun a b => a ≤ b) ∅

theorem mem_emplaceAll : k ∈ emplaceAll s t ↔ k ∈ s ∨ k ∈ t := by
  rw [emplaceAll, mem_gather]
  refine or_congr_right ⟨fun h => ?_, fun h => ⟨k, (Finset.mem_sort _).mpr h, rfl, rfl⟩⟩
  obtain ⟨a, ha, -, rfl⟩ := h
  exact (Finset.mem_sort _).mp ha

theorem mem_getUncovered : k ∈ getUncovered covered possible ↔ k ∈ possible ∧ k ∉ covered := by
  rw [getUncovered, mem_gather, or_iff_right (Finset.notMem_empty k)]
  constructor
  · intro h
    obtain ⟨a, ha, hcovered, rfl⟩ := h
    exact ⟨(Finset.mem_sort _).mp ha, of_decide_eq_true hcovered⟩
  · intro ⟨hpossible, hcovered⟩
    exact ⟨k, (Finset.mem_sort _).mpr hpossible, decide_eq_true hcovered, rfl⟩

end Sets

/-- `code_coverage::data`. -/
structure Data where
  addresses : Finset Nat := ∅
  modules : Finset String := ∅
  functions : Finset String := ∅
  deriving DecidableEq

namespace Data

/-- `operator+=`. The modules of `rhs` are inserted twice, its functions never. -/
def addAssign (d rhs : Data) : Data :=
  let d := { d with addresses := emplaceAll d.addresses rhs.addresses }
  let d := { d with modules := emplaceAll d.modules rhs.modules }
  { d with modules := emplaceAll d.modules rhs.modules }

/-- `operator+`. -/
def add (d rhs : Data) : Data := d.addAssign rhs

theorem mem_addresses_addAssign {d rhs : Data} {a : Nat} :
    a ∈ (d.addAssign rhs).addresses ↔ a ∈ d.addresses ∨ a ∈ rhs.addresses := mem_emplaceAll

theorem mem_modules_addAssign {d rhs : Data} {name : String} :
    name ∈ (d.addAssign rhs).modules ↔ name ∈ d.modules ∨ name ∈ rhs.modules := by
  show name ∈ emplaceAll (emplaceAll d.modules rhs.modules) rhs.modules ↔ _
  rw [mem_emplaceAll, mem_emplaceAll, or_assoc, or_self]

theorem functions_addAssign (d rhs : Data) : (d.addAssign rhs).functions = d.functions := rfl

end Data

/-- `code_coverage`. -/
structure CodeCoverage where
  count : Nat := 0
  size : Nat := 0
  covered : Data := {}
  possible : Data := {}
  deriving DecidableEq

namespace CodeCoverage

def getUncoveredAddresses (c : CodeCoverage) : Finset Nat :=
  getUncovered c.covered.addresses c.possible.addresses

def getUncoveredModules (c : CodeCoverage) : Finset String :=
  getUncovered c.covered.modules c.possible.modules

def getUncoveredFunctions (c : CodeCoverage) : Finset String :=
  getUncovered c.covered.functions c.possible.functions

end CodeCoverage

/-! ## Merging -/

/-- One of the sets of a merged value is the union of those of the parts. -/
def IsUnion {κ : Type} (field : Data → Finset κ) (m : Merging Data) : Prop :=
  ∀ k, k ∈ field (m.value Data.addAssign) ↔ ∃ d ∈ m.parts, k ∈ field d

/-- With the merged value as what is covered, the possible entries that are not covered are those
that no part covers. -/
def IsMissed {κ : Type} (field : Data → Finset κ) (uncovered : CodeCoverage → Finset κ)
    (m : Merging Data) : Prop :=
  ∀ c : CodeCoverage, c.covered = m.value Data.addAssign →
    ∀ k, k ∈ uncovered c ↔ k ∈ field c.possible ∧ ∀ d ∈ m.parts, k ∉ field d

/-- Parts are united by merging them. -/
structure Unites (m : Merging Data) : Prop where
  addresses : IsUnion Data.addresses m
  modules : IsUnion Data.modules m
  functions : IsUnion Data.functions m
  missedAddresses : IsMissed Data.addresses CodeCoverage.getUncoveredAddresses m
  missedModules : IsMissed Data.modules CodeCoverage.getUncoveredModules m
  missedFunctions : IsMissed Data.functions CodeCoverage.getUncoveredFunctions m

section Merging

variable {κ : Type} [LinearOrder κ] {field : Data → Finset κ} {m : Merging Data}

/-- A field of a union is missing where all parts miss it. -/
theorem IsUnion.isMissed (h : IsUnion field m) :
    IsMissed field (fun c => getUncovered (field c.covered) (field c.possible)) m := by
  intro c hc k
  have hunion : k ∉ field c.covered ↔ ∀ d ∈ m.parts, k ∉ field d := by
    rw [hc, h k]
    constructor
    · exact fun hnone d hd hk => hnone ⟨d, hd, hk⟩
    · intro hnone ⟨d, hd, hk⟩
      exact hnone d hd hk
  rw [mem_getUncovered, hunion]

theorem isUnion_addresses (m : Merging Data) : IsUnion Data.addresses m :=
  fun a => Merging.value_iff_exists (p := fun d => a ∈ d.addresses)
    (fun _ _ => Data.mem_addresses_addAssign) m

theorem isUnion_modules (m : Merging Data) : IsUnion Data.modules m :=
  fun name => Merging.value_iff_exists (p := fun d => name ∈ d.modules)
    (fun _ _ => Data.mem_modules_addAssign) m

/-- The functions of the first part are all that is left. -/
theorem isUnion_functions_iff (m : Merging Data) :
    IsUnion Data.functions m ↔ ∀ d ∈ m.parts, d.functions ⊆ m.first.functions := by
  have hfirst := Merging.value_eq_first Data.functions_addAssign m
  constructor
  · intro h d hd name hname
    rw [← hfirst]
    exact (h name).mpr ⟨d, hd, hname⟩
  · intro h name
    rw [hfirst]
    constructor
    · exact fun hname => ⟨m.first, m.first_mem_parts, hname⟩
    · intro ⟨d, hd, hname⟩
      exact h d hd hname

end Merging

/-- Parts are united exactly if none covers a function that the first one does not. -/
theorem unites_iff (m : Merging Data) :
    Unites m ↔ ∀ d ∈ m.parts, d.functions ⊆ m.first.functions := by
  rw [← isUnion_functions_iff]
  constructor
  · exact fun h => h.functions
  · intro h
    exact
      { addresses := isUnion_addresses m
        modules := isUnion_modules m
        functions := h
        missedAddresses := (isUnion_addresses m).isMissed
        missedModules := (isUnion_modules m).isMissed
        missedFunctions := h.isMissed }

/-- Two runs that cover one function each. -/
def twoRuns : Merging Data :=
  .join (.part { addresses := {256}, modules := {"main.cpp"}, functions := {"f"} })
    (.part { addresses := {512}, modules := {"main.cpp"}, functions := {"g"} })

theorem not_unites_twoRuns : ¬ Unites twoRuns := by
  intro h
  have hmem := (h.functions "g").mpr ⟨_, List.mem_cons_of_mem _ (List.mem_singleton_self _),
    Finset.mem_singleton_self "g"⟩
  exact absurd hmem (by decide)

end Coverage
end Rocprofsys
