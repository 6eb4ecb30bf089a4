import Mathlib.Algebra.Order.Ring.Nat
import Rocprofsys.Instrument.UserSelection

namespace Rocprofsys
namespace Instrument

open Base Reported

/-! ## The instructions of a function -/

/-- `debug_print`, `verbose_level` and `instr_print`. -/
structure Reporting where
  debugPrint : Bool
  verboseLevel : ℤ
  instrPrint : Bool
  deriving DecidableEq, Repr

def Reporting.keepsInstructions (r : Reporting) : Bool :=
  r.debugPrint || decide (r.verboseLevel > 3) || r.instrPrint

/-- The instructions in their printed form: none may be found, or an exception thrown. -/
structure BasicBlock where
  instructions : Except Unit (Option (List String))
  startAddress : UInt64
  endAddress : UInt64

structure FlowGraph where
  basicBlocks : List BasicBlock
  hasOuterLoops : Bool
  dynamicCallsites : Bool

/-- What the constructor of a `module_function` reads. -/
structure Procedure where
  moduleName : String
  functionName : String
  signature : String
  instrumentable : Bool
  systemLib : Bool
  addressRange : ℕ
  flowGraph : Option FlowGraph
  entryPoints : Points
  exitPoints : Points
  overlapping : Bool
  calledFunctions : List String
  symbols : Option (List Symbol)

/-- Without its instructions, a block is taken to have one for every four bytes. -/
def BasicBlock.numInstructions (b : BasicBlock) : ℕ :=
  match b.instructions with
  | .ok (some instructions) => instructions.length
  | .ok none => ((b.endAddress - b.startAddress) / 4).toNat
  | .error _ => 0

def BasicBlock.found (b : BasicBlock) : Option (List String) :=
  match b.instructions with
  | .ok instructions => instructions
  | .error _ => none

/-- The blocks are only asked for in an instrumentable function. -/
def Procedure.basicBlocks (p : Procedure) : List BasicBlock :=
  if p.instrumentable then (p.flowGraph.map FlowGraph.basicBlocks).getD [] else []

namespace ModuleFunction

/-- The constructor. -/
def new (r : Reporting) (p : Procedure) : ModuleFunction where
  moduleName := p.moduleName
  functionName := p.functionName
  signature := p.signature
  instrumentable := p.instrumentable
  systemLib := p.systemLib
  addressRange := p.addressRange
  numInstructions := (p.basicBlocks.map BasicBlock.numInstructions).sum
  hasLoopBlocks := p.instrumentable && (p.flowGraph.map FlowGraph.hasOuterLoops).getD false
  entryPoints := p.entryPoints
  exitPoints := p.exitPoints
  overlapping := p.overlapping
  dynamicCallsites := p.flowGraph.map FlowGraph.dynamicCallsites
  calledFunctions := p.calledFunctions
  symbols := if p.instrumentable then p.symbols else none
  instructions :=
    if r.keepsInstructions then p.basicBlocks.filterMap BasicBlock.found else []

end ModuleFunction

/-! ## Two runs -/

open ModuleFunction

def quiet : Reporting := ⟨false, 0, false⟩

def printing : Reporting := ⟨false, 0, true⟩

section Selection

variable (env : Environment) (opts : Options) (p : Procedure)

/-- The text of a basic block matches an instruction expression. -/
def BlockMatches : Prop :=
  ∃ block ∈ p.basicBlocks, ∃ instructions, block.found = some instructions ∧
    instructions ≠ [] ∧
    checkRegexRestrictions env (blockText instructions) opts.instructionExclude = true

/-- The choices of the user decide before the instructions are looked at. -/
def DecidedByUser (f : ModuleFunction) (coverage : Bool) : Prop :=
  f.Forced opts coverage ∨ Restricting opts ∨ f.Included env opts

/-- The same functions are selected whatever is reported; one with a block that matches is not
selected, unless the user decides it. -/
structure SelectsAlike : Prop where
  alike : ∀ r r' coverage, ((new r p).shouldSelect env opts coverage).value =
    ((new r' p).shouldSelect env opts coverage).value
  excludes : BlockMatches env opts p → ∀ r coverage,
    ¬ DecidedByUser env opts (new r p) coverage →
      ((new r p).shouldSelect env opts coverage).value = false

/-- No earlier test decides on the function. -/
structure ReachesInstructions (f : ModuleFunction) (coverage : Bool) : Prop where
  eligible : f.Eligible env opts coverage
  notExcluded : ¬ f.Excluded env opts
  undecided : ¬ DecidedByUser env opts f coverage
  heuristics : f.PassesHeuristics opts coverage

variable {env opts p} {r r' : Reporting} {coverage : Bool}

/-- Instructions that are not kept constrain nothing. -/
theorem isInstructionConstrained_new :
    ((new r p).isInstructionConstrained env opts).value = true ↔
      r.keepsInstructions = true ∧ BlockMatches env opts p := by
  have hany : (new r p).instructions.any (fun block =>
      decide (block ≠ []) && checkRegexRestrictions env (blockText block) opts.instructionExclude) =
        true ↔ r.keepsInstructions = true ∧ BlockMatches env opts p := by
    cases hkeeps : r.keepsInstructions with
    | false => simp [new, hkeeps]
    | true =>
      simp only [new, hkeeps, if_true, List.any_eq_true, List.mem_filterMap, Bool.and_eq_true,
        decide_eq_true_eq, true_and]
      constructor
      · intro ⟨instructions, ⟨block, hblock, hfound⟩, hne, hmatch⟩
        exact ⟨block, hblock, instructions, hfound, hne, hmatch⟩
      · intro ⟨block, hblock, instructions, hfound, hne, hmatch⟩
        exact ⟨instructions, ⟨block, hblock, hfound⟩, hne, hmatch⟩
  rw [← hany]
  unfold isInstructionConstrained
  simp only [value_ite, value_bind, value_pure]
  rw [ite_eq_left_iff]
  simp only [Bool.false_eq_true, imp_false, not_not]
  refine and_iff_right_of_imp fun h hempty => ?_
  obtain ⟨-, block, -, instructions, -, -, hmatch⟩ := hany.mp h
  rw [hempty] at hmatch
  exact not_matches_nil _ hmatch

/-! Only the instructions depend on what is reported. -/

theorem eligible_new (h : (new r p).Eligible env opts coverage) :
    (new r' p).Eligible env opts coverage :=
  ⟨h.instrumentable, h.entry, h.exit, h.internal, h.module, h.routine, h.instructions,
    h.overlapping, h.entryTrap, h.exitTrap⟩

theorem passesHeuristics_new (h : (new r p).PassesHeuristics opts coverage) :
    (new r' p).PassesHeuristics opts coverage :=
  ⟨h.linkage, h.visibility, h.addressRange, h.numInstructions⟩

theorem reachesInstructions_new (h : ReachesInstructions env opts (new r p) coverage) :
    ReachesInstructions env opts (new r' p) coverage :=
  ⟨eligible_new h.eligible, h.notExcluded, h.undecided, passesHeuristics_new h.heuristics⟩

/-- What is selected is selected by the user, or reaches the last test and passes it. -/
theorem shouldSelect_cases {f : ModuleFunction}
    (h : (f.shouldSelect env opts coverage).value = true) :
    DecidedByUser env opts f coverage ∨
      (ReachesInstructions env opts f coverage ∧
        (f.isInstructionConstrained env opts).value = false) := by
  by_cases hdecided : DecidedByUser env opts f coverage
  · exact Or.inl hdecided
  · obtain ⟨helig, hexcl, hcause⟩ := shouldSelect_iff.mp h
    rcases hcause with hforced | ⟨hrestrict, -⟩ | ⟨-, hincluded | ⟨hheur, hfree⟩⟩
    · exact absurd (Or.inl hforced) hdecided
    · exact absurd (Or.inr (Or.inl hrestrict)) hdecided
    · exact absurd (Or.inr (Or.inr hincluded)) hdecided
    · exact Or.inr ⟨⟨helig, hexcl, hdecided, hheur⟩, hfree⟩

theorem shouldSelect_of_reaches {f : ModuleFunction}
    (h : ReachesInstructions env opts f coverage) :
    (f.shouldSelect env opts coverage).value = true ↔
      (f.isInstructionConstrained env opts).value = false := by
  constructor
  · intro hselect
    rcases shouldSelect_cases hselect with hdecided | ⟨-, hfree⟩
    · exact absurd hdecided h.undecided
    · exact hfree
  · intro hfree
    have hnone : ¬ Restricting opts := fun hrestrict => h.undecided (Or.inr (Or.inl hrestrict))
    exact shouldSelect_iff.mpr
      ⟨h.eligible, h.notExcluded, Or.inr (Or.inr ⟨hnone, Or.inr ⟨h.heuristics, hfree⟩⟩)⟩

/-- A selection by the user does not depend on what is reported. -/
theorem shouldSelect_new_of_decided (hdecided : DecidedByUser env opts (new r p) coverage)
    (h : ((new r p).shouldSelect env opts coverage).value = true) :
    ((new r' p).shouldSelect env opts coverage).value = true := by
  obtain ⟨helig, hexcl, hcause⟩ := shouldSelect_iff.mp h
  refine shouldSelect_iff.mpr ⟨eligible_new helig, hexcl, ?_⟩
  rcases hcause with hforced | hasked | ⟨hnone, hincluded | _⟩
  · exact Or.inl hforced
  · exact Or.inr (Or.inl hasked)
  · exact Or.inr (Or.inr ⟨hnone, Or.inl hincluded⟩)
  · rcases hdecided with hforced | hrestrict | hincluded
    · exact Or.inl hforced
    · exact absurd hrestrict hnone
    · exact Or.inr (Or.inr ⟨hnone, Or.inl hincluded⟩)

/-- Where the instructions do not come into it, the selection does not depend on what is
reported. -/
theorem shouldSelect_new
    (hunread : BlockMatches env opts p → ¬ ReachesInstructions env opts (new r p) coverage)
    (h : ((new r p).shouldSelect env opts coverage).value = true) :
    ((new r' p).shouldSelect env opts coverage).value = true := by
  rcases shouldSelect_cases h with hdecided | ⟨hreaches, -⟩
  · exact shouldSelect_new_of_decided hdecided h
  · rw [shouldSelect_of_reaches (reachesInstructions_new hreaches), ← Bool.not_eq_true,
      isInstructionConstrained_new]
    exact fun hconstrained => hunread hconstrained.2 hreaches

/-- The selection does not depend on what is reported exactly for the functions without a block
that matches, and for those on which an earlier test decides. -/
theorem selectsAlike_iff (env : Environment) (opts : Options) (p : Procedure) :
    SelectsAlike env opts p ↔
      (BlockMatches env opts p →
        ∀ coverage, ¬ ReachesInstructions env opts (new quiet p) coverage) := by
  constructor
  · intro h hmatch coverage hreaches
    have hquiet : ((new quiet p).shouldSelect env opts coverage).value = true := by
      rw [shouldSelect_of_reaches hreaches, ← Bool.not_eq_true, isInstructionConstrained_new]
      exact fun hkept => Bool.false_ne_true hkept.1
    have hprinting : ((new printing p).shouldSelect env opts coverage).value ≠ true := by
      rw [ne_eq, shouldSelect_of_reaches (reachesInstructions_new hreaches), Bool.not_eq_false,
        isInstructionConstrained_new]
      exact ⟨rfl, hmatch⟩
    exact hprinting ((h.alike printing quiet coverage).trans hquiet)
  · intro h
    have hunread (r : Reporting) (coverage : Bool) (hmatch : BlockMatches env opts p) :
        ¬ ReachesInstructions env opts (new r p) coverage :=
      fun hreaches => h hmatch coverage (reachesInstructions_new hreaches)
    constructor
    · intro r r' coverage
      rw [Bool.eq_iff_iff]
      exact ⟨shouldSelect_new (hunread r coverage), shouldSelect_new (hunread r' coverage)⟩
    · intro hmatch r coverage hundecided
      rw [← Bool.not_eq_true]
      intro hselect
      rcases shouldSelect_cases hselect with hdecided | ⟨hreaches, -⟩
      · exact hundecided hdecided
      · exact hunread r coverage hmatch hreaches

end Selection

/-! A function with a trap instruction that is to be excluded. -/

def trapExcluded : Options := { instructionExclude := ["ud2"] }

def trappingProcedure : Procedure where
  moduleName := "app.cpp"
  functionName := "fail"
  signature := "fail()"
  instrumentable := true
  systemLib := false
  addressRange := 16
  flowGraph := some ⟨[⟨.ok (some ["nop", "ud2"]), 0, 16⟩], false, false⟩
  entryPoints := ⟨1, 0⟩
  exitPoints := ⟨1, 0⟩
  overlapping := false
  calledFunctions := []
  symbols := none

theorem not_selectsAlike_trap :
    ¬ SelectsAlike plainEnvironment trapExcluded trappingProcedure := by
  intro h
  have hquiet : ((new quiet trappingProcedure).shouldSelect plainEnvironment trapExcluded
      false).value = true := by decide +kernel
  have hprinting := (h.alike printing quiet false).trans hquiet
  rcases shouldSelect_cases hquiet with hdecided | ⟨hreaches, -⟩
  · rcases hdecided with hforced | hrestrict | hincluded
    · exact Bool.false_ne_true hforced.2
    · rcases hrestrict with hfile | hfunc
      · exact hfile rfl
      · exact hfunc rfl
    · rcases hincluded with hmodule | hfunction | hcaller
      · exact not_matches_nil _ hmodule
      · rcases hfunction with hname | hsignature
        · exact not_matches_nil _ hname
        · exact not_matches_nil _ hsignature
      · obtain ⟨called, hcalled, -⟩ := hcaller
        exact List.not_mem_nil hcalled
  · have hconstrained : ((new printing trappingProcedure).isInstructionConstrained
        plainEnvironment trapExcluded).value = true := by decide +kernel
    rw [shouldSelect_of_reaches (reachesInstructions_new hreaches), hconstrained] at hprinting
    cases hprinting

end Instrument
end Rocprofsys
