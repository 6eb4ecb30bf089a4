import Rocprofsys.Instrument.ModuleFunction

namespace Rocprofsys
namespace Instrument

open Base Reported

namespace ModuleFunction

variable (env : Environment) (opts : Options) (f : ModuleFunction)

/-! ## What decides -/

def MatchesModule (regexes : List String) : Prop :=
  checkRegexRestrictions env f.moduleName regexes = true

/-- By its name or by its signature. -/
def MatchesFunction (regexes : List String) : Prop :=
  checkRegexRestrictions env f.functionName regexes = true ∨
    checkRegexRestrictions env f.signature regexes = true

def MatchesCaller (regexes : List String) : Prop :=
  ∃ called ∈ f.calledFunctions, checkRegexRestrictions env called regexes = true

def Excluded : Prop :=
  f.MatchesModule env opts.fileExclude ∨ f.MatchesFunction env opts.funcExclude

def Included : Prop :=
  f.MatchesModule env opts.fileInclude ∨ f.MatchesFunction env opts.funcInclude ∨
    f.MatchesCaller env opts.callerInclude

/-- Each restrict list that is not empty has an expression that matches. -/
structure RestrictsMatch : Prop where
  file : opts.fileRestrict ≠ [] → f.MatchesModule env opts.fileRestrict
  func : opts.funcRestrict ≠ [] → f.MatchesFunction env opts.funcRestrict

/-- Some restrict or include expression matches. -/
def Named : Prop :=
  f.MatchesModule env opts.fileRestrict ∨ f.MatchesFunction env opts.funcRestrict ∨
    f.Included env opts

/-- The constraints on functions to be instrumented, or to be covered, that come before all
choices of the user. -/
structure Eligible (coverage : Bool) : Prop where
  instrumentable : f.isInstrumentable.value = true
  entry : f.canInstrumentEntry.value = true
  exit : coverage = false → f.canInstrumentExit.value = true
  internal : (f.isInternalConstrained env).value = false
  module : (f.isModuleConstrained env).value = false
  routine : (f.isRoutineConstrained env).value = false
  instructions : 2 ≤ f.numInstructions
  overlapping : (f.isOverlappingConstrained opts).value = false
  entryTrap : (f.isEntryTrapConstrained opts).value = false
  exitTrap : coverage = false → (f.isExitTrapConstrained opts).value = false

/-- Dynamic call sites are not looked for in code coverage. -/
def Forced (coverage : Bool) : Prop :=
  coverage = false ∧ (f.isDynamicCallsiteForced opts).value = true

def Restricting : Prop := opts.fileRestrict ≠ [] ∨ opts.funcRestrict ≠ []

/-- Linkage and visibility do not matter for code coverage. -/
structure PassesHeuristics (coverage : Bool) : Prop where
  linkage : coverage = false → f.isLinkageConstrained opts = false
  visibility : coverage = false → f.isVisibilityConstrained opts = false
  addressRange : (f.isAddressRangeConstrained opts).value = false
  numInstructions : (f.isNumInstructionsConstrained opts).value = false

/-- One decision for each kind of instrumentation. -/
def shouldSelect (coverage : Bool) : Reported Message Bool :=
  if coverage then f.shouldCoverageInstrument env opts else f.shouldInstrument env opts

variable {env opts f} {coverage : Bool}

/-- The tests for empty lists make no difference. -/
theorem ne_nil_and_check {name : String} {regexes : List String} :
    regexes ≠ [] ∧ checkRegexRestrictions env name regexes = true ↔
      checkRegexRestrictions env name regexes = true := by
  refine and_iff_right_of_imp fun h hempty => ?_
  rw [hempty] at h
  cases h

theorem isUserExcluded_iff : (f.isUserExcluded env opts).value = true ↔ f.Excluded env opts := by
  unfold isUserExcluded Excluded MatchesModule MatchesFunction
  simp only [ne_nil_and_check, value_ite, value_bind, value_pure]
  grind

theorem containsUserCallsite_iff :
    (f.containsUserCallsite env opts).value = true ↔
      f.MatchesCaller env opts.callerInclude := by
  unfold containsUserCallsite MatchesCaller
  by_cases hempty : opts.callerInclude = []
  · rw [if_pos hempty, hempty]
    refine iff_of_false Bool.false_ne_true ?_
    intro ⟨called, _, h⟩
    cases h
  · rw [if_neg hempty, ← List.any_eq_true]
    simp

theorem isUserIncluded_iff : (f.isUserIncluded env opts).value = true ↔ f.Included env opts := by
  unfold isUserIncluded Included MatchesModule MatchesFunction
  rw [← containsUserCallsite_iff]
  simp only [ne_nil_and_check, value_ite, value_bind, value_pure]
  grind

/-- Functions are tested only if there is no expression for modules. -/
theorem isUserRestricted_iff :
    (f.isUserRestricted env opts).value = false ↔
      (opts.fileRestrict ≠ [] → f.MatchesModule env opts.fileRestrict) ∧
        (opts.fileRestrict = [] → opts.funcRestrict ≠ [] →
          f.MatchesFunction env opts.funcRestrict) := by
  unfold isUserRestricted MatchesModule MatchesFunction
  simp only [value_ite, value_bind, value_pure]
  grind

theorem hasFewInstructions_iff :
    f.hasFewInstructions.value = false ↔ 2 ≤ f.numInstructions := by
  unfold hasFewInstructions
  by_cases h : f.numInstructions < 2
  · rw [if_pos h]
    refine iff_of_false ?_ (by omega)
    intro hvalue
    cases hvalue
  · rw [if_neg h]
    exact iff_of_true rfl (by omega)

theorem eligible_iff :
    f.Eligible env opts coverage ↔
      f.isInstrumentable.value = true ∧ f.canInstrumentEntry.value = true ∧
        (coverage = false → f.canInstrumentExit.value = true) ∧
        (f.isInternalConstrained env).value = false ∧ (f.isModuleConstrained env).value = false ∧
        (f.isRoutineConstrained env).value = false ∧ f.hasFewInstructions.value = false ∧
        (f.isOverlappingConstrained opts).value = false ∧
        (f.isEntryTrapConstrained opts).value = false ∧
        (coverage = false → (f.isExitTrapConstrained opts).value = false) := by
  rw [hasFewInstructions_iff]
  exact ⟨fun ⟨a, b, c, d, e, g, h, i, j, k⟩ => ⟨a, b, c, d, e, g, h, i, j, k⟩,
    fun ⟨a, b, c, d, e, g, h, i, j, k⟩ => ⟨a, b, c, d, e, g, h, i, j, k⟩⟩

theorem passesHeuristics_iff :
    f.PassesHeuristics opts coverage ↔
      (coverage = false → f.isLinkageConstrained opts = false) ∧
        (coverage = false → f.isVisibilityConstrained opts = false) ∧
        (f.isAddressRangeConstrained opts).value = false ∧
        (f.isNumInstructionsConstrained opts).value = false :=
  ⟨fun ⟨a, b, c, d⟩ => ⟨a, b, c, d⟩, fun ⟨a, b, c, d⟩ => ⟨a, b, c, d⟩⟩

/-! ## The decisions -/

/-- The order of the tests: the user excludes first, then dynamic call sites force, then the
restrict lists decide alone if there are any, then the includes, and last the heuristics. -/
theorem shouldSelect_iff :
    (f.shouldSelect env opts coverage).value = true ↔
      f.Eligible env opts coverage ∧ ¬ f.Excluded env opts ∧
        (f.Forced opts coverage ∨
          (Restricting opts ∧ (f.isUserRestricted env opts).value = false) ∨
          (¬ Restricting opts ∧ (f.Included env opts ∨
            (f.PassesHeuristics opts coverage ∧
              (f.isInstructionConstrained env opts).value = false)))) := by
  rw [eligible_iff, passesHeuristics_iff, ← isUserExcluded_iff, ← isUserIncluded_iff]
  cases coverage with
  | false =>
    show (f.shouldInstrument env opts).value = true ↔ _
    unfold shouldInstrument shouldInstrumentWith Forced Restricting
    simp
    grind
  | true =>
    show (f.shouldCoverageInstrument env opts).value = true ↔ _
    unfold shouldCoverageInstrument Forced Restricting
    simp
    grind

/-- A function is only selected as the user allows it, and it is selected if the user names
it. -/
structure RespectsUser (env : Environment) (opts : Options) (f : ModuleFunction) : Prop where
  sound : ∀ coverage, (f.shouldSelect env opts coverage).value = true →
    ¬ f.Excluded env opts ∧ f.RestrictsMatch env opts
  complete : ∀ coverage, f.Eligible env opts coverage → ¬ f.Excluded env opts →
    f.RestrictsMatch env opts → f.Named env opts →
      (f.shouldSelect env opts coverage).value = true

/-- The function expressions match where the module expressions do, and all match where dynamic
call sites force. -/
structure RestrictsAgree (env : Environment) (opts : Options) (f : ModuleFunction) : Prop where
  func : f.Eligible env opts true → ¬ f.Excluded env opts →
    f.MatchesModule env opts.fileRestrict → opts.funcRestrict ≠ [] →
      f.MatchesFunction env opts.funcRestrict
  forced : f.Eligible env opts false → ¬ f.Excluded env opts → f.Forced opts false →
    f.RestrictsMatch env opts

/-- Fewer constraints hold for code coverage. -/
theorem Eligible.toCoverage (h : f.Eligible env opts coverage) : f.Eligible env opts true :=
  { h with exit := nofun, exitTrap := nofun }

theorem RestrictsMatch.unrestricted (h : f.RestrictsMatch env opts) :
    (f.isUserRestricted env opts).value = false :=
  isUserRestricted_iff.mpr ⟨h.file, fun _ => h.func⟩

theorem not_matches_nil (name : String) : ¬ checkRegexRestrictions env name [] = true := nofun

/-- What is named without restrict lists is included. -/
theorem included_of_named (hnone : ¬ Restricting opts) (h : f.Named env opts) :
    f.Included env opts := by
  obtain ⟨hfile, hfunc⟩ := not_or.mp hnone
  rw [not_not] at hfile hfunc
  rcases h with h | h | h
  · rw [hfile] at h
    exact absurd h (not_matches_nil _)
  · rw [hfunc] at h
    rcases h with h | h
    · exact absurd h (not_matches_nil _)
    · exact absurd h (not_matches_nil _)
  · exact h

theorem shouldSelect_of_named (helig : f.Eligible env opts coverage)
    (hexcl : ¬ f.Excluded env opts) (hmatch : f.RestrictsMatch env opts)
    (hnamed : f.Named env opts) : (f.shouldSelect env opts coverage).value = true := by
  refine shouldSelect_iff.mpr ⟨helig, hexcl, Or.inr ?_⟩
  by_cases hrestrict : Restricting opts
  · exact Or.inl ⟨hrestrict, hmatch.unrestricted⟩
  · exact Or.inr ⟨hrestrict, Or.inl (included_of_named hrestrict hnamed)⟩

/-- The restrict lists match wherever they are asked, if the function expressions are not passed
over. -/
theorem restrictsMatch_of_unrestricted (h : (f.isUserRestricted env opts).value = false)
    (hfunc : f.MatchesModule env opts.fileRestrict → opts.funcRestrict ≠ [] →
      f.MatchesFunction env opts.funcRestrict) : f.RestrictsMatch env opts := by
  obtain ⟨hfile, halone⟩ := isUserRestricted_iff.mp h
  refine ⟨hfile, ?_⟩
  by_cases hempty : opts.fileRestrict = []
  · exact halone hempty
  · exact hfunc (hfile hempty)

theorem restrictsMatch_of_not_restricting (h : ¬ Restricting opts) :
    f.RestrictsMatch env opts :=
  ⟨fun hfile => absurd (Or.inl hfile) h, fun hfunc => absurd (Or.inr hfunc) h⟩

theorem RestrictsAgree.restrictsMatch (h : f.RestrictsAgree env opts)
    (hselect : (f.shouldSelect env opts coverage).value = true) :
    f.RestrictsMatch env opts := by
  obtain ⟨helig, hexcl, hcause⟩ := shouldSelect_iff.mp hselect
  rcases hcause with hforced | ⟨-, hasked⟩ | ⟨hnone, -⟩
  · obtain ⟨rfl, -⟩ := id hforced
    exact h.forced helig hexcl hforced
  · exact restrictsMatch_of_unrestricted hasked (h.func helig.toCoverage hexcl)
  · exact restrictsMatch_of_not_restricting hnone

/-- The selection respects the user exactly if no function passes the module expressions but not
the function expressions, or is forced without passing both. -/
theorem respectsUser_iff (env : Environment) (opts : Options) (f : ModuleFunction) :
    f.RespectsUser env opts ↔ f.RestrictsAgree env opts := by
  constructor
  · intro h
    constructor
    · intro helig hexcl hmodule hne
      have hfile : opts.fileRestrict ≠ [] := by
        intro hempty
        rw [hempty] at hmodule
        exact not_matches_nil _ hmodule
      have hasked : (f.isUserRestricted env opts).value = false :=
        isUserRestricted_iff.mpr ⟨fun _ => hmodule, fun hempty => absurd hempty hfile⟩
      have hselect := shouldSelect_iff.mpr
        ⟨helig, hexcl, Or.inr (Or.inl ⟨Or.inl hfile, hasked⟩)⟩
      exact (h.sound true hselect).2.func hne
    · intro helig hexcl hforced
      exact (h.sound false (shouldSelect_iff.mpr ⟨helig, hexcl, Or.inl hforced⟩)).2
  · intro h
    constructor
    · intro coverage hselect
      exact ⟨(shouldSelect_iff.mp hselect).2.1, h.restrictsMatch hselect⟩
    · exact fun _ => shouldSelect_of_named

/-! A function of the module that the user asks for, but not the one he asks for. -/

/-- Expressions without special characters; no file is a link, and no library is internal. -/
def plainEnvironment : Environment where
  regexSearch := fun _ regex text => occursIn regex text
  regexMatch := fun _ regex text => regex == text
  basename := id
  realpath := id
  internalLibs := []

def bothRestricted : Options := { fileRestrict := ["app"], funcRestrict := ["solve"] }

def otherFunction : ModuleFunction where
  moduleName := "app.cpp"
  functionName := "step"
  signature := "step(int)"
  numInstructions := 5

theorem not_respectsUser_bothRestricted :
    ¬ otherFunction.RespectsUser plainEnvironment bothRestricted := by
  intro h
  have hselected : (otherFunction.shouldSelect plainEnvironment bothRestricted false).value =
      true := by decide +kernel
  rcases (h.sound false hselected).2.func (by decide) with hmatch | hmatch
  · revert hmatch
    decide +kernel
  · revert hmatch
    decide +kernel

end ModuleFunction

end Instrument
end Rocprofsys
