import Mathlib.Data.List.Infix
import Rocprofsys.Base.Reported

namespace Rocprofsys
namespace Instrument

open Base Reported

/-! ## Functions of a module -/

/-- `str_msg_t`: the verbosity, what is done, to what, why, and its name. -/
structure Message where
  level : Int
  action : String
  type : String
  reason : String
  name : String
  deriving DecidableEq, Repr

inductive Grammar where
  | ecmaScript
  | egrep
  deriving DecidableEq, Repr

/-- The regular expressions, the paths and the internal libraries, each with its modules and
their functions. -/
structure Environment where
  regexSearch : Grammar → String → String → Bool
  regexMatch : Grammar → String → String → Bool
  basename : String → String
  realpath : String → String
  internalLibs : List (String × List (String × List String))

structure Options where
  fileRestrict : List String := []
  funcRestrict : List String := []
  fileInclude : List String := []
  funcInclude : List String := []
  fileExclude : List String := []
  funcExclude : List String := []
  callerInclude : List String := []
  instructionExclude : List String := []
  allowOverlapping : Bool := false
  instrDynamicCallsites : Bool := false
  instrTraps : Bool := false
  minAddressRange : ℕ := 0
  minLoopAddressRange : ℕ := 0
  minInstructions : ℕ := 0
  minLoopInstructions : ℕ := 0
  enabledLinkage : List ℕ := []
  enabledVisibility : List ℕ := []

/-- Of a symbol of a function; 0 is unknown. -/
structure Symbol where
  linkage : ℕ
  visibility : ℕ
  deriving DecidableEq, Repr

/-- What `query_instr` counts. -/
structure Points where
  numPoints : UInt64
  numTraps : UInt64
  deriving DecidableEq, Repr

/-- A function as its predicates see it; `symbols` and `dynamicCallsites` are `none` without a
symbol table function and without a flow graph. -/
structure ModuleFunction where
  moduleName : String
  functionName : String
  signature : String
  instrumentable : Bool := true
  systemLib : Bool := false
  addressRange : ℕ := 0
  numInstructions : ℕ := 0
  hasLoopBlocks : Bool := false
  entryPoints : Points := ⟨1, 0⟩
  exitPoints : Points := ⟨1, 0⟩
  overlapping : Bool := false
  dynamicCallsites : Option Bool := none
  /-- The names of the functions that its call points call. -/
  calledFunctions : List String := []
  symbols : Option (List Symbol) := none
  /-- The instructions of each basic block, in their printed form. -/
  instructions : List (List String) := []
  deriving DecidableEq, Repr

/-- `get_whole_function_names`. -/
def wholeFunctionNames : List String :=
  ["sem_init", "sem_destroy", "sem_open", "sem_close", "sem_post", "sem_wait", "sem_getvalue",
    "sem_clockwait", "sem_timedwait", "sem_trywait", "sem_unlink", "fork", "do_futex_wait",
    "dl_iterate_phdr", "dlinfo", "dlopen", "dlmopen", "dlvsym", "dlsym", "dlerror", "dladdr",
    "_dl_sym", "_dl_vsym", "_dl_addr", "_dl_relocate_static_pie", "getenv", "setenv", "unsetenv",
    "printf", "fprintf", "vprintf", "buffered_vfprintf", "vfprintf", "printf_positional", "puts",
    "fputs", "vfputs", "fflush", "fwrite", "malloc", "malloc_stats", "malloc_trim", "mallopt",
    "calloc", "free", "pvalloc", "valloc", "sysmalloc", "posix_memalign", "freehook", "mallochook",
    "memalignhook", "mprobe", "reallochook", "mmap", "munmap", "fopen", "fclose", "fmemopen",
    "fmemclose", "backtrace", "backtrace_symbols", "backtrace_symbols_fd", "sigaddset", "sigandset",
    "sigdelset", "sigemptyset", "sigfillset", "sighold", "sigisemptyset", "sigismember", "sigorset",
    "sigrelse", "sigvec", "strtok", "strstr", "sbrk", "strxfrm", "atexit", "ompt_start_tool",
    "nanosleep", "cfree", "tolower", "toupper", "fileno", "fileno_unlocked", "exit", "quick_exit",
    "abort", "mbind", "migrate_pages", "move_pages", "numa_migrate_pages", "numa_move_pages",
    "numa_alloc", "numa_alloc_local", "numa_alloc_interleaved", "numa_alloc_onnode", "numa_realloc",
    "numa_free", "round_and_return", "_init", "_fini", "_start", "__do_global_dtors_aux",
    "__libc_csu_init", "__libc_csu_fini", "__hip_module_ctor", "__hip_module_dtor",
    "__hipRegisterManagedVar", "__hipRegisterFunction", "__hipPushCallConfiguration",
    "__hipPopCallConfiguration", "hipApiName", "enlarge_userbuf", "rocr::core::Signal::WaitAny",
    "rocr::core::Runtime::AsyncEventsLoop", "rocr::core::BusyWaitSignal::WaitAcquire",
    "rocr::core::BusyWaitSignal::WaitRelaxed", "rocr::HSA::hsa_signal_wait_scacquire",
    "rocr::os::ThreadTrampoline", "rocr::image::ImageRuntime::CreateImageManager",
    "rocr::AMD::GpuAgent::GetInfo", "rocr::HSA::hsa_agent_get_info", "event_base_loop",
    "bootstrapRoot", "bootstrapNetAccept", "ncclCommInitRank", "ncclCommInitAll", "ncclCommDestroy",
    "ncclCommCount", "ncclCommCuDevice", "ncclCommUserRank", "ncclReduce", "ncclBcast",
    "ncclBroadcast", "ncclAllReduce", "ncclReduceScatter", "ncclAllGather", "ncclGroupStart",
    "ncclGroupEnd", "ncclSend", "ncclRecv", "ncclGather", "ncclScatter", "ncclAllToAll",
    "ncclAllToAllv", "ncclSocketAccept", "vaBeginPicture", "vaCreateBuffer", "vaCreateConfig",
    "vaCreateContext", "vaCreateSurfaces", "vaDestroySurfaces", "vaSyncSurface", "vaDestroyBuffer",
    "vaDestroyConfig", "vaDestroyContext", "vaEndPicture", "vaExportSurfaceHandle",
    "vaGetConfigAttributes", "vaInitialize", "vaQueryConfigEntrypoints", "vaQuerySurfaceAttributes",
    "vaQuerySurfaceStatus", "vaRenderPicture", "vaTerminate", "vaDisplayIsValid"]

/-- The same names with the suffixes of their variants. -/
def wholeNames : List String :=
  wholeFunctionNames ++
    ["64", "_l", "_r"].flatMap fun ext => wholeFunctionNames.map fun itr => itr ++ ext

/-- `find` with a result. -/
def occursIn (key name : String) : Bool := decide (key.toList <:+: name.toList)

namespace ModuleFunction

variable (env : Environment) (opts : Options) (f : ModuleFunction)

/-- `check_regex_restrictions`. -/
def checkRegexRestrictions (name : String) (regexes : List String) : Bool :=
  regexes.any fun itr => env.regexSearch .egrep itr name

/-! ### Hard constraints -/

def isInstrumentable : Reported Message Bool := do
  if !f.instrumentable then
    report ⟨2, "Skipping", "module", "not-instrumentable", f.moduleName⟩
    return false
  return true

def canInstrumentEntry : Reported Message Bool := do
  if f.entryPoints.numPoints = 0 then
    report ⟨3, "Skipping", "function", "no-instrumentable-entry-point", f.functionName⟩
    return false
  return true

def canInstrumentExit : Reported Message Bool := do
  if f.exitPoints.numPoints = 0 then
    report ⟨3, "Skipping", "function", "no-instrumentable-exit-point", f.functionName⟩
    return false
  return true

/-- The loop over the internal libraries: what is reported at the first that the module or the
function belongs to. -/
def findInternalLibrary : Option (String × String) :=
  let moduleBase := env.basename f.moduleName
  let moduleReal := env.realpath f.moduleName
  env.internalLibs.findSome? fun litr =>
    let modules := litr.2.map Prod.fst
    if moduleBase = env.basename litr.1 ∨ moduleBase ∈ modules ∨ moduleReal = litr.1 ∨
        moduleReal ∈ modules ∨ f.moduleName ∈ modules then
      some ("module", "internal library " ++ litr.1)
    else if litr.2.any fun fitr => fitr.2.contains f.functionName then
      some ("function", "internal library " ++ litr.1)
    else none

def isInternalConstrained : Reported Message Bool := do
  let excluding (type reason : String) : Reported Message Bool := do
    report ⟨3, "Excluding", type, reason, f.moduleName⟩
    return true
  let gnuLibs := env.internalLibs.map Prod.fst
  if env.regexSearch .ecmaScript "lib(rocprof-sys|rocprofsys|timemory|perfetto)" f.moduleName then
    excluding "module" "rocprofsys"
  else if env.regexMatch .ecmaScript
      (".*/source/lib/(core|common|binary|rocprofsys|rocprofsys-dl|rocprofsys-user)/.*/.*" ++
        "\\.(h|c|cpp|hpp)$") f.moduleName then
    excluding "module" "rocprofsys"
  else if env.regexSearch .ecmaScript "10rocprofsys|rocprofsys|rocprofsys(::|_)"
      f.functionName then
    excluding "function" "rocprofsys"
  else if env.regexSearch .ecmaScript "3tim|tim::|timemory(::|_)" f.functionName then
    excluding "function" "timemory"
  else if env.regexSearch .ecmaScript "9perfetto|perfetto(::|_)" f.functionName then
    excluding "function" "perfetto"
  else if f.moduleName ∈ gnuLibs ∨ env.realpath f.moduleName ∈ gnuLibs ∨
      env.basename f.moduleName ∈ gnuLibs then
    excluding "module" "internal library"
  else
    match f.findInternalLibrary env with
    | some (type, reason) => excluding type reason
    | none => return false

def isModuleConstrained : Reported Message Bool := do
  let excluding (reason : String) : Reported Message Bool := do
    report ⟨3, "Excluding", "module", reason, f.moduleName⟩
    return true
  if f.systemLib then excluding "system library"
  else if f.moduleName = "DEFAULT_MODULE" ∨ f.moduleName = "LIBRARY_MODULE" then return false
  else if env.regexSearch .egrep "\\.(s|S)$" f.moduleName then excluding "file extension"
  else if env.regexSearch .egrep "^(s|k|e|w)_[A-Za-z_0-9\\-]+\\.(c|C)$" f.moduleName ||
      env.regexSearch .egrep "^(\\.\\./sysdeps/|/build/)" f.moduleName then
    excluding "system module"
  else if env.regexSearch .egrep "(dyninst|DYNINST|(^|/)RT[[:graph:]]+\\.c$)" f.moduleName then
    excluding "dyninst module"
  else if env.regexSearch .egrep "lib(elf)(-|\\.)" f.moduleName ||
      env.regexSearch .ecmaScript "^(malloc|(f|)lock|sig|sem)[a-z_]+(|64|_r|_l)\\.c$"
        f.moduleName then
    excluding "core module"
  else if env.regexSearch .egrep ("^(lib|)(rocprof-sys|rocprofsys|pthread|caliper|gotcha|papi|" ++
      "cupti|TAU|likwid|pfm|nvperf|unwind)") f.moduleName then
    excluding "dependency module"
  else return false

def isRoutineConstrained : Reported Message Bool := do
  let reported (action reason : String) (level : Int) : Reported Message Bool := do
    report ⟨level, action, "function", reason, f.functionName⟩
    return true
  if occursIn "rocprofsys" f.functionName then reported "Skipping" "rocprofsys-function" 1
  else if occursIn "FunctionInfo" f.functionName || occursIn "_L_lock" f.functionName ||
      occursIn "_L_unlock" f.functionName then
    reported "Skipping" "function-constraint" 2
  else if env.regexSearch .egrep
        "(rocprofsys|rocprof-sys|tim::|MPI_Init|MPI_Finalize|dyninst|DYNINST|tm_clones)"
        f.functionName ||
      env.regexSearch .egrep ("(std::_Sp_counted_base|std::(use|has)_facet|std::locale|" ++
        "::sentry|^std::_|::_(M|S)_|::basic_string[a-zA-Z,<>: ]+::_M_create|::__|" ++
        "::_(Alloc|State)|std::(basic_|)(ifstream|ios|istream|ostream|stream))")
        f.functionName ||
      env.regexSearch .egrep "(log2visit|Log2VisitHelper)" f.functionName then
    reported "Excluding" "critical" 3
  else if wholeNames.contains f.functionName then reported "Excluding" "critical-whole-match" 3
  else if env.regexSearch .egrep ("^(\\.|frame_dummy|transaction clone|virtual thunk|" ++
      "non-virtual thunk|\\(|targ|kmp_threadprivate_|Kokkos::Profiling::|_IO_|___|" ++
      "__(GI|cxa|libc|IO|rpc|run|call|pthread|dl|nl|nss|new|old|internal|argp|malloc|" ++
      "libio|printf)_)") f.functionName then
    reported "Excluding" "recommended-leading-match" 3
  else if env.regexSearch .egrep "(_internal)$" f.functionName then
    reported "Excluding" "recommended-trailing-match" 3
  else return false

/-! ### User selection -/

def isUserRestricted : Reported Message Bool := do
  if opts.fileRestrict ≠ [] then
    if checkRegexRestrictions env f.moduleName opts.fileRestrict then
      report ⟨2, "Forcing", "module", "module-restrict-regex", f.moduleName⟩
      return false
    else
      report ⟨3, "Skipping", "module", "module-restrict-regex", f.moduleName⟩
      return true
  else if opts.funcRestrict ≠ [] then
    if checkRegexRestrictions env f.functionName opts.funcRestrict then
      report ⟨2, "Forcing", "function", "function-restrict-regex", f.functionName⟩
      return false
    else if checkRegexRestrictions env f.signature opts.funcRestrict then
      report ⟨2, "Forcing", "function", "function-restrict-regex", f.signature⟩
      return false
    else
      report ⟨3, "Skipping", "function", "function-restrict-regex", f.functionName⟩
      return true
  else return false

def containsUserCallsite : Reported Message Bool := do
  if opts.callerInclude = [] then return false
  else if f.calledFunctions.any fun called =>
      checkRegexRestrictions env called opts.callerInclude then
    report ⟨2, "Forcing", "function", "caller-include-regex", f.functionName⟩
    return true
  else return false

def isUserIncluded : Reported Message Bool := do
  if opts.fileInclude ≠ [] ∧ checkRegexRestrictions env f.moduleName opts.fileInclude then
    report ⟨2, "Forcing", "module", "module-include-regex", f.moduleName⟩
    return true
  else if opts.funcInclude ≠ [] ∧
      checkRegexRestrictions env f.functionName opts.funcInclude then
    report ⟨2, "Forcing", "function", "function-include-regex", f.functionName⟩
    return true
  else if opts.funcInclude ≠ [] ∧ checkRegexRestrictions env f.signature opts.funcInclude then
    report ⟨2, "Forcing", "function", "function-include-regex", f.signature⟩
    return true
  else f.containsUserCallsite env opts

def isUserExcluded : Reported Message Bool := do
  if opts.fileExclude ≠ [] ∧ checkRegexRestrictions env f.moduleName opts.fileExclude then
    report ⟨2, "Skipping", "module", "module-exclude-regex", f.moduleName⟩
    return true
  else if opts.funcExclude ≠ [] ∧
      checkRegexRestrictions env f.functionName opts.funcExclude then
    report ⟨2, "Skipping", "function", "function-exclude-regex", f.functionName⟩
    return true
  else if opts.funcExclude ≠ [] ∧ checkRegexRestrictions env f.signature opts.funcExclude then
    report ⟨2, "Skipping", "function", "function-exclude-regex", f.signature⟩
    return true
  else return false

/-! ### Heuristics -/

def isOverlappingConstrained : Reported Message Bool := do
  if !opts.allowOverlapping && f.overlapping then
    report ⟨2, "Skipping", "function", "overlapping", f.functionName⟩
    return true
  return false

def isEntryTrapConstrained : Reported Message Bool := do
  if opts.instrTraps then return false
  else if f.entryPoints.numPoints - f.entryPoints.numTraps = 0 then
    report ⟨3, "Skipping", "function", "entry-point-trap-instrumentation", f.functionName⟩
    return true
  else return false

def isExitTrapConstrained : Reported Message Bool := do
  if opts.instrTraps then return false
  else if f.exitPoints.numPoints - f.exitPoints.numTraps = 0 then
    report ⟨3, "Skipping", "function", "exit-point-trap-instrumentation", f.functionName⟩
    return true
  else return false

def containsDynamicCallsites : Bool := f.dynamicCallsites.getD false

def isDynamicCallsiteForced : Reported Message Bool := do
  if opts.instrDynamicCallsites && f.containsDynamicCallsites then
    report ⟨2, "Forcing", "function", "dynamic-callsites", f.functionName⟩
    return true
  return false

/-- The least value that is known. -/
def leastKnown (values : List ℕ) : ℕ :=
  values.foldl (fun least v => if v > 0 then if least = 0 then v else min least v else least) 0

def getLinkage : ℕ :=
  match f.symbols with
  | none => 0
  | some symbols => leastKnown (symbols.map Symbol.linkage)

def getVisibility : ℕ :=
  match f.symbols with
  | none => 0
  | some symbols => leastKnown (symbols.map Symbol.visibility)

def isLinkageConstrained : Bool :=
  f.getLinkage ≠ 0 && !opts.enabledLinkage.contains f.getLinkage

def isVisibilityConstrained : Bool :=
  f.getVisibility ≠ 0 && !opts.enabledVisibility.contains f.getVisibility

/-- A bound that is lower for functions with loops, or higher. -/
def belowMinimum (value minimum minimumLoop : ℕ) (reason : String) : Reported Message Bool := do
  if f.hasLoopBlocks then
    if value < minimumLoop then
      report ⟨2, "Skipping", "function", reason ++ "-loop", f.functionName⟩
      return true
    else return false
  else if value < minimum then
    report ⟨2, "Skipping", "function", reason, f.functionName⟩
    return true
  else return false

def isAddressRangeConstrained : Reported Message Bool :=
  f.belowMinimum f.addressRange opts.minAddressRange opts.minLoopAddressRange "min-address-range"

def isNumInstructionsConstrained : Reported Message Bool :=
  f.belowMinimum f.numInstructions opts.minInstructions opts.minLoopInstructions
    "min-instructions"

/-- The text of a basic block that the instruction expressions are searched in. -/
def blockText (block : List String) : String := String.intercalate " " block

def isInstructionConstrained : Reported Message Bool := do
  if opts.instructionExclude ≠ [] ∧ f.instructions.any fun block =>
      block ≠ [] && checkRegexRestrictions env (blockText block) opts.instructionExclude then
    report ⟨2, "Skipping", "function", "instruction-exclude-regex", f.functionName⟩
    return true
  else return false

/-! ### The decisions -/

def hasFewInstructions : Reported Message Bool := do
  if f.numInstructions < 2 then
    report ⟨2, "Skipping", "function", "less-than-2-instructions", f.functionName⟩
    return true
  return false

def shouldCoverageInstrument : Reported Message Bool := do
  if !(← f.isInstrumentable) then return false
  if !(← f.canInstrumentEntry) then return false
  if ← f.isInternalConstrained env then return false
  if ← f.isModuleConstrained env then return false
  if ← f.isRoutineConstrained env then return false
  if ← f.hasFewInstructions then return false
  if ← f.isUserExcluded env opts then return false
  if ← f.isOverlappingConstrained opts then return false
  if ← f.isEntryTrapConstrained opts then return false
  if opts.fileRestrict ≠ [] ∨ opts.funcRestrict ≠ [] then
    return !(← f.isUserRestricted env opts)
  if ← f.isUserIncluded env opts then return true
  if ← f.isAddressRangeConstrained opts then return false
  if ← f.isNumInstructionsConstrained opts then return false
  if ← f.isInstructionConstrained env opts then return false
  return true

/-- `should_instrument(bool)`. -/
def shouldInstrumentWith (coverage : Bool) : Reported Message Bool := do
  if !(← f.isInstrumentable) then return false
  if !(← f.canInstrumentEntry) then return false
  if !coverage then
    if !(← f.canInstrumentExit) then return false
  if ← f.isInternalConstrained env then return false
  if ← f.isModuleConstrained env then return false
  if ← f.isRoutineConstrained env then return false
  if ← f.hasFewInstructions then return false
  if ← f.isUserExcluded env opts then return false
  if ← f.isOverlappingConstrained opts then return false
  if ← f.isEntryTrapConstrained opts then return false
  if !coverage then
    if ← f.isExitTrapConstrained opts then return false
  if ← f.isDynamicCallsiteForced opts then return true
  if opts.fileRestrict ≠ [] ∨ opts.funcRestrict ≠ [] then
    return !(← f.isUserRestricted env opts)
  if ← f.isUserIncluded env opts then return true
  if !coverage then
    if f.isLinkageConstrained opts then return false
    if f.isVisibilityConstrained opts then return false
  if ← f.isAddressRangeConstrained opts then return false
  if ← f.isNumInstructionsConstrained opts then return false
  if ← f.isInstructionConstrained env opts then return false
  return true

def shouldInstrument : Reported Message Bool := f.shouldInstrumentWith env opts false

end ModuleFunction

end Instrument
end Rocprofsys
