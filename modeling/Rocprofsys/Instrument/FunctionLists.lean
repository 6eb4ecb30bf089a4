import Mathlib.Data.String.Basic
import Rocprofsys.Base.Archive
import Rocprofsys.Base.LastOf
import Rocprofsys.Base.OrderedSet
import Rocprofsys.Instrument.ModuleFunction

namespace Rocprofsys
namespace Instrument

open Base
open Node (Codec object)

/-! ## Signatures -/

/-- The flags that signatures and lists of functions are written under; the names of a linkage
and of a visibility are the symbol table library's. -/
structure Printing where
  useReturnInfo : Bool := false
  useArgsInfo : Bool := false
  useFileInfo : Bool := false
  useLineInfo : Bool := false
  debugPrint : Bool := false
  instrPrint : Bool := false
  werror : Bool := false
  verboseLevel : ℤ := 0
  linkageName : ℕ → String
  visibilityName : ℕ → String

/-- The greatest `uint32_t`. -/
def loopMax : ℕ := 4294967295

structure FunctionSignature where
  loop : Bool := false
  infoBeg : Bool := false
  infoEnd : Bool := false
  loopNum : ℕ := loopMax
  row : ℕ × ℕ := (0, 0)
  col : ℕ × ℕ := (0, 0)
  returnType : String := ""
  name : String := ""
  params : String := "()"
  file : String := ""
  /-- The text that `get` has saved. -/
  signature : String := ""
  deriving DecidableEq, Repr

namespace FunctionSignature

def rowColText (row col : ℕ) : String :=
  if row = 0 ∧ col = 0 then ""
  else if col > 0 then "\x7b" ++ toString row ++ "," ++ toString col ++ "\x7d"
  else "\x7b" ++ toString row ++ "\x7d"

/-- The first and the last position of a loop, as far as they are known. -/
def span (s : FunctionSignature) : Option String :=
  let first := rowColText s.row.1 s.col.1
  let last := rowColText s.row.2 s.col.2
  if s.infoEnd ∧ first ≠ "" ∧ last ≠ "" ∧ first ≠ last then
    some (" [" ++ first ++ "-" ++ last ++ "]")
  else if s.infoEnd ∧ first ≠ "" ∧ last ≠ "" ∧ first = last then some (" [" ++ first ++ "]")
  else if s.infoEnd ∧ first ≠ "" ∧ last = "" then some (" [" ++ first ++ "]")
  else if !s.infoEnd ∧ first ≠ "" then some (" [" ++ first ++ "]")
  else none

/-- The part of a loop's signature that locates it, if something does. -/
def location (s : FunctionSignature) : Option String :=
  match s.span with
  | some text => some text
  | none => if s.loopNum < loopMax then some (" [loop#" ++ toString s.loopNum ++ "]") else none

/-- What `get` writes between the parameters and the file; an empty location is an error, or a
warning and no text. -/
def loopText (opts : Printing) (s : FunctionSignature) : Except String String :=
  if s.loop then
    match s.location with
    | some located => .ok located
    | none =>
      if opts.werror then
        .error ("[rocprof-sys][exe] Error! line info for " ++ s.name ++ " is empty! [\x7b" ++
          rowColText s.row.1 s.col.1 ++ "\x7d] [\x7b" ++ rowColText s.row.2 s.col.2 ++ "\x7d]\n")
      else .ok ""
  else .ok ""

/-- The text with the location of the loop in it. -/
def compose (opts : Printing) (s : FunctionSignature) (located : String) : String :=
  (if opts.useReturnInfo ∧ s.returnType ≠ "" then s.returnType ++ " " else "") ++ s.name ++
    (if opts.useArgsInfo then s.params else "") ++ located ++
    (if opts.useFileInfo ∧ s.file ≠ "" then " [" ++ s.file else "") ++
    (if opts.useLineInfo ∧ s.row.1 > 0 then ":" ++ toString s.row.1 else "") ++
    (if opts.useFileInfo ∧ s.file ≠ "" then "]" else "")

def get (opts : Printing) (s : FunctionSignature) : Except String String :=
  if s.signature ≠ "" then .ok s.signature
  else s.compose opts <$> s.loopText opts

/-- What is left of a signature in an archive, with its text. -/
def reload (s : FunctionSignature) (written : String) : FunctionSignature :=
  { s with loopNum := loopMax, signature := written }

theorem span_ne_empty {s : FunctionSignature} {located : String} (h : s.span = some located) :
    located ≠ "" := by
  intro hempty
  rw [hempty] at h
  simp only [span] at h
  split_ifs at h <;> simp [String.append_eq_empty_iff] at h

theorem location_ne_empty {s : FunctionSignature} {located : String}
    (h : s.location = some located) : located ≠ "" := by
  unfold location at h
  cases hspan : s.span with
  | some text =>
    rw [hspan] at h
    rw [← Option.some.inj h]
    exact span_ne_empty hspan
  | none =>
    rw [hspan] at h
    split_ifs at h with hnum
    rw [← Option.some.inj h]
    intro hempty
    exact absurd (String.append_eq_empty_iff.mp hempty).2 (by decide)

theorem location_reload {s : FunctionSignature} (h : s.location = none) (written : String) :
    (s.reload written).location = none := by
  unfold location at h ⊢
  show (match s.span with | some text => some text | none => _) = none
  cases hspan : s.span with
  | some text => rw [hspan] at h; cases h
  | none => exact if_neg (lt_irrefl loopMax)

/-- A located loop has a text, so none is lost with the number of the loop. -/
theorem loopText_reload {opts : Printing} {s : FunctionSignature} (h : s.loopText opts = .ok "")
    (written : String) : (s.reload written).loopText opts = .ok "" := by
  unfold loopText at h ⊢
  show (if s.loop then _ else _) = _
  cases hloop : s.loop with
  | false => rfl
  | true =>
    simp only [hloop, if_true] at h ⊢
    cases hlocation : s.location with
    | some located =>
      rw [hlocation] at h
      exact absurd (Except.ok.inj h) (location_ne_empty hlocation)
    | none =>
      rw [hlocation] at h
      rw [location_reload hlocation]
      exact h

theorem get_reload {opts : Printing} {s : FunctionSignature} {written : String}
    (h : s.get opts = .ok written) : (s.reload written).get opts = .ok written := by
  by_cases hwritten : written = ""
  · subst hwritten
    rw [get] at h
    split_ifs at h with hsaved
    · exact absurd (Except.ok.inj h) hsaved
    cases hlocated : s.loopText opts with
    | error e => rw [hlocated] at h; cases h
    | ok located =>
      rw [hlocated] at h
      have hcompose : s.compose opts located = "" := Except.ok.inj h
      have hempty : located = "" := by
        simp only [compose, String.append_eq_empty_iff] at hcompose
        exact hcompose.1.1.1.2
      subst hempty
      have hunsaved : ¬ (s.reload "").signature ≠ "" := not_not.mpr rfl
      rw [get, if_neg hunsaved, loopText_reload hlocated]
      exact h
  · exact if_pos hwritten

/-- `serialize` with an output archive. -/
def save (opts : Printing) (s : FunctionSignature) : Except String Node := do
  let written ← s.get opts
  return object
    [("loop", .flag s.loop), ("info_beg", .flag s.infoBeg), ("info_end", .flag s.infoEnd),
      ("row", object [("first", .number s.row.1), ("second", .number s.row.2)]),
      ("col", object [("first", .number s.col.1), ("second", .number s.col.2)]),
      ("return", .text s.returnType), ("name", .text s.name), ("params", .text s.params),
      ("file", .text s.file), ("signature", .text written)]

/-- `serialize` of a new signature with an input archive. -/
def load (opts : Printing) (node : Node) : Except String FunctionSignature := do
  let read : FunctionSignature := {
    loop := ← Codec.flag.named "loop" node
    infoBeg := ← Codec.flag.named "info_beg" node
    infoEnd := ← Codec.flag.named "info_end" node
    row := ← (Codec.number.pair .number).named "row" node
    col := ← (Codec.number.pair .number).named "col" node
    returnType := ← Codec.text.named "return" node
    name := ← Codec.text.named "name" node
    params := ← Codec.text.named "params" node
    file := ← Codec.text.named "file" node
    signature := ← Codec.text.named "signature" node }
  let written ← read.get opts
  return { read with signature := written }

theorem load_save {opts : Printing} {s : FunctionSignature} {written : String} {node : Node}
    (hget : s.get opts = .ok written) (hsave : s.save opts = .ok node) :
    load opts node = .ok (s.reload written) := by
  have hrow : ∀ at_ : ℕ × ℕ, (Codec.number.pair .number).save at_ =
      .ok (object [("first", .number at_.1), ("second", .number at_.2)]) := fun _ => rfl
  unfold save at hsave
  rw [hget] at hsave
  cases hsave
  unfold load
  rw [Codec.named_object (a := s.loop) rfl rfl, Codec.named_object (a := s.infoBeg) rfl rfl,
    Codec.named_object (a := s.infoEnd) rfl rfl, Codec.named_object rfl (hrow s.row),
    Codec.named_object rfl (hrow s.col), Codec.named_object (a := s.returnType) rfl rfl,
    Codec.named_object (a := s.name) rfl rfl, Codec.named_object (a := s.params) rfl rfl,
    Codec.named_object (a := s.file) rfl rfl, Codec.named_object (a := written) rfl rfl]
  show ((s.reload written).get opts >>= _) = _
  rw [get_reload hget]
  rfl

/-- A signature in an archive. -/
def codec (opts : Printing) : Codec FunctionSignature where
  save := save opts
  load := load opts
  reload s := match s.get opts with
    | .ok written => s.reload written
    | .error _ => s
  load_save := by
    intro s node hsave
    cases hget : s.get opts with
    | error e =>
      rw [save, hget] at hsave
      cases hsave
    | ok written => exact load_save hget hsave

end FunctionSignature

/-! ## Functions -/

/-- A function with what is listed of it.  Its `signature` is not used: the text is that of
`functionSignature`. -/
structure ListedFunction extends ModuleFunction where
  startAddress : ℕ := 0
  functionSignature : FunctionSignature := {}
  numBasicBlocks : ℕ := 0
  numOuterLoops : ℕ := 0
  /-- The counts by the names of the categories. -/
  instructionTypes : List (String × ℤ) := []
  /-- The addresses of `instructions`. -/
  instructionAddresses : List (List ℕ) := []
  deriving DecidableEq, Repr

/-- `0x` and the hexadecimal digits. -/
def hexText (n : ℕ) : String := "0x" ++ String.ofList (Nat.toDigits 16 n)

namespace ListedFunction

/-- A default constructed function, which has no procedure. -/
def blank : ListedFunction where
  moduleName := ""
  functionName := ""
  signature := ""
  instrumentable := false

/-- What `operator<` compares. -/
def sortKey (f : ListedFunction) : String ×ₗ String ×ₗ ℕ ×ₗ ℕ ×ₗ ℕ :=
  toLex (f.moduleName, toLex (f.functionName, toLex (f.startAddress,
    toLex (f.addressRange, f.numInstructions))))

/-- `operator<`. -/
def lt (f g : ListedFunction) : Prop := f.sortKey < g.sortKey

/-- `operator==`. -/
def eq (f g : ListedFunction) : Prop :=
  (f.startAddress, f.addressRange, f.numInstructions, f.moduleName, f.functionName) =
    (g.startAddress, g.addressRange, g.numInstructions, g.moduleName, g.functionName)

/-- The function as the predicates see it. -/
def seen (f : ListedFunction) (written : String) : ModuleFunction :=
  { f.toModuleFunction with
    signature := written
    hasLoopBlocks := decide (f.numOuterLoops ≠ 0) }

section Heuristics

variable (env : Environment) (opts : Options) (f : ModuleFunction)

def isLoopAddressRangeConstrained : Bool :=
  f.hasLoopBlocks && decide (f.addressRange < opts.minLoopAddressRange)

def isLoopNumInstructionsConstrained : Bool :=
  f.hasLoopBlocks && decide (f.numInstructions < opts.minLoopInstructions)

def heuristics : List (String × Bool) :=
  [("should_instrument", (f.shouldInstrument env opts).value),
    ("should_coverage_instrument", (f.shouldCoverageInstrument env opts).value),
    ("is_instrumentable", f.isInstrumentable.value),
    ("can_instrument_entry", f.canInstrumentEntry.value),
    ("can_instrument_exit", f.canInstrumentExit.value),
    ("contains_dynamic_callsites", f.containsDynamicCallsites),
    ("is_internal_constrained", (f.isInternalConstrained env).value),
    ("is_module_constrained", (f.isModuleConstrained env).value),
    ("is_routine_constrained", (f.isRoutineConstrained env).value),
    ("is_user_restricted", (f.isUserRestricted env opts).value),
    ("is_user_included", (f.isUserIncluded env opts).value),
    ("contains_user_callsite", (f.containsUserCallsite env opts).value),
    ("is_user_excluded", (f.isUserExcluded env opts).value),
    ("is_overlapping_constrained", (f.isOverlappingConstrained opts).value),
    ("is_entry_trap_constrained", (f.isEntryTrapConstrained opts).value),
    ("is_exit_trap_constrained", (f.isExitTrapConstrained opts).value),
    ("is_dynamic_callsite_forced", (f.isDynamicCallsiteForced opts).value),
    ("is_linkage_constrained", f.isLinkageConstrained opts),
    ("is_visibility_constrained", f.isVisibilityConstrained opts),
    ("is_address_range_constrained", (f.isAddressRangeConstrained opts).value),
    ("is_num_instructions_constrained", (f.isNumInstructionsConstrained opts).value),
    ("is_instruction_constrained", (f.isInstructionConstrained env opts).value),
    ("is_loop_address_range_constrained", isLoopAddressRangeConstrained opts f),
    ("is_loop_num_instructions_constrained", isLoopNumInstructionsConstrained opts f)]

end Heuristics

variable (env : Environment) (opts : Options) (print : Printing)

/-- The instructions of each basic block under their addresses. -/
def instructionNodes (f : ListedFunction) : Node :=
  .array ((f.instructions.zip f.instructionAddresses).map fun block =>
    object ((block.1.zip block.2).map fun itr => (hexText itr.2, .text itr.1)))

/-- `serialize` with an output archive. -/
def save (f : ListedFunction) : Except String Node := do
  let signature ← f.functionSignature.save print
  let written ← f.functionSignature.get print
  let seen := f.seen written
  return object ([("start_address", .text (hexText f.startAddress)),
    ("address_range", .number f.addressRange), ("num_instructions", .number f.numInstructions),
    ("module", .text f.moduleName), ("function", .text f.functionName), ("signature", signature),
    ("linkage", .text (print.linkageName seen.getLinkage)),
    ("visibility", .text (print.visibilityName seen.getVisibility)),
    ("num_basic_blocks", .number f.numBasicBlocks), ("num_outer_loops", .number f.numOuterLoops),
    ("heuristics", object ((heuristics env opts seen).map fun itr => (itr.1, .flag itr.2))),
    ("instruction_breakdown",
      object (f.instructionTypes.map fun itr => (itr.1, .integer itr.2)))] ++
    if print.debugPrint ∨ print.verboseLevel > 3 ∨ print.instrPrint then
      [("instructions", f.instructionNodes)]
    else [])

/-- `serialize` of a new function with an input archive. -/
def load (node : Node) : Except String ListedFunction := do
  return { blank with
    addressRange := ← Codec.number.named "address_range" node
    numInstructions := ← Codec.number.named "num_instructions" node
    moduleName := ← Codec.text.named "module" node
    functionName := ← Codec.text.named "function" node
    functionSignature := ← (FunctionSignature.codec print).named "signature" node }

/-- What is left of a function in an archive. -/
def reload (f : ListedFunction) : ListedFunction :=
  { blank with
    addressRange := f.addressRange
    numInstructions := f.numInstructions
    moduleName := f.moduleName
    functionName := f.functionName
    functionSignature := (FunctionSignature.codec print).reload f.functionSignature }

theorem load_save {f : ListedFunction} {node : Node} (h : f.save env opts print = .ok node) :
    load print node = .ok (f.reload print) := by
  unfold save at h
  cases hsave : f.functionSignature.save print with
  | error e => rw [hsave] at h; cases h
  | ok signature =>
    cases hget : f.functionSignature.get print with
    | error e => rw [hsave, hget] at h; cases h
    | ok written =>
      rw [hsave, hget] at h
      cases h
      have hsignature : (FunctionSignature.codec print).save f.functionSignature = .ok signature :=
        hsave
      unfold load
      rw [Codec.named_object (a := f.addressRange) rfl rfl,
        Codec.named_object (a := f.numInstructions) rfl rfl,
        Codec.named_object (a := f.moduleName) rfl rfl,
        Codec.named_object (a := f.functionName) rfl rfl,
        Codec.named_object rfl hsignature]
      rfl

def codec : Codec ListedFunction where
  save := save env opts print
  load := load print
  reload := reload print
  load_save := load_save env opts print

theorem eq_iff {f g : ListedFunction} : f.eq g ↔ f.sortKey = g.sortKey := by
  unfold eq sortKey
  simp only [Prod.mk.injEq, EmbeddingLike.apply_eq_iff_eq]
  constructor
  · intro ⟨h₁, h₂, h₃, h₄, h₅⟩
    exact ⟨h₄, h₅, h₁, h₂, h₃⟩
  · intro ⟨h₄, h₅, h₁, h₂, h₃⟩
    exact ⟨h₁, h₂, h₃, h₄, h₅⟩

/-- Without its start address, a function has its key if and only if it has none. -/
theorem sortKey_reload (f : ListedFunction) :
    (f.reload print).sortKey = ({ f with startAddress := 0 } : ListedFunction).sortKey := rfl

end ListedFunction

/-! ## Files -/

/-- `fmodset_t`. -/
abbrev FunctionSet := OrderedSet ListedFunction.sortKey

/-- Function by function, the sets are equal under `operator==` and `operator<`. -/
def FunctionSet.Equal (s t : FunctionSet) : Prop :=
  List.Forall₂ (fun f g => f.eq g ∧ ¬ f.lt g ∧ ¬ g.lt f) s.items t.items

/-- The content of a file: a listing for the reader, or an archive. -/
inductive Document where
  | listing (lines : List ListedFunction)
  | archive (node : Node)

/-- What follows the last dot of a name. -/
def extensionOf (iname : String) : String :=
  match lastOf '.' iname.toList with
  | some pos => String.ofList (iname.toList.drop (pos + 1))
  | none => ""

section Files

variable (env : Environment) (opts : Options) (print : Printing)

/-- The archive of a set under a label. -/
def archiveOf (label : String) (data : FunctionSet) : Except String Node := do
  let items ← (ListedFunction.codec env opts print).saveItems data.items
  return object [("rocprofsys", object [(label, object [("module_functions", items)])])]

/-- A file that does not open is an exception, or is not written. -/
def openError (oname : String) (fail : Bool) : Except String (Option Document) :=
  if fail then .error ("[rocprof-sys][exe][dump_info] Error opening '" ++ oname ++ " for output")
  else .ok none

/-- `dump_info`: the file `oname` as it is written, if it is; `opened` says that it opens. -/
def dumpInfo (label oname ext : String) (data : FunctionSet) (level : ℤ) (fail opened : Bool) :
    Except String (Option Document) :=
  if !print.debugPrint ∧ print.verboseLevel < level then .ok none
  else if ext = "txt" then
    if opened then .ok (some (.listing data.items)) else openError oname fail
  else if ext = "xml" ∨ ext = "json" then do
    let node ← archiveOf env opts print label data
    if opened then .ok (some (.archive node)) else openError oname fail
  else
    .error ("[rocprof-sys][exe] Error in dump_info :: filename '" ++ oname ++
      "' does not have one of recognized file extensions: txt, json, xml")

/-- `load_info` of one label; a file that does not open is `none`. -/
def loadInfo (label iname : String) (file : Option Document) : Except String FunctionSet :=
  let ext := extensionOf iname
  if ext = "xml" ∨ ext = "json" then
    match file with
    | none => .error ("[rocprof-sys][exe][load_info] Error opening '" ++ iname ++ " for input")
    | some (.listing _) => .error "the file is no archive"
    | some (.archive node) => do
      let top ← node.enter "rocprofsys"
      let group ← top.enter label
      let items ← group.enter "module_functions"
      (∅ : FunctionSet).insertAll <$> (ListedFunction.codec env opts print).loadItems items
  else
    .error ("[rocprof-sys][exe] Error in load_info :: filename '" ++ iname ++
      "' does not have one of recognized extentions: txt, json, xml :: " ++ ext)

/-- `load_info` of the sets of several labels: the first label that the file has. -/
def loadInfoMap (inp : String) (file : Option Document) (exceptions : String) :
    List (String × FunctionSet) → Except String (List (String × FunctionSet))
  | [] => if exceptions = "" then .ok [] else .error exceptions
  | (label, data) :: rest =>
    match loadInfo env opts print label inp file with
    | .ok tmp => .ok ((label, data.insertAll tmp.items) :: rest)
    | .error e =>
      ((label, data) :: ·) <$>
        loadInfoMap inp file (exceptions ++ "[rocprof-sys][exe] " ++ e ++ "\n") rest

variable {env opts print}

/-- An archive comes from a set that could be written, to a file of one of two kinds. -/
theorem dumpInfo_eq_archive {label oname ext : String} {data : FunctionSet} {level : ℤ}
    {fail opened : Bool} {node : Node}
    (h : dumpInfo env opts print label oname ext data level fail opened =
      .ok (some (.archive node))) :
    (ext = "xml" ∨ ext = "json") ∧ archiveOf env opts print label data = .ok node := by
  have hopen : openError oname fail ≠ .ok (some (.archive node)) := by
    unfold openError
    split_ifs <;> exact nofun
  unfold dumpInfo at h
  split_ifs at h with hlevel htxt htxtOpened hext hopened
  -- What is not written, a listing and a file that does not open are no archives.
  · cases h
  · cases h
  · exact absurd h hopen
  · refine ⟨hext, ?_⟩
    cases harchive : archiveOf env opts print label data with
    | error e => rw [harchive] at h; cases h
    | ok written =>
      rw [harchive] at h
      cases h
      rfl
  · cases harchive : archiveOf env opts print label data with
    | error e => rw [harchive] at h; cases h
    | ok written =>
      rw [harchive] at h
      exact absurd h hopen

/-- What is read of an archive: the functions without their start addresses. -/
theorem loadInfo_archiveOf {label iname : String} {data : FunctionSet} {node : Node}
    (hext : extensionOf iname = "xml" ∨ extensionOf iname = "json")
    (h : archiveOf env opts print label data = .ok node) :
    loadInfo env opts print label iname (some (.archive node)) =
      .ok ((∅ : FunctionSet).insertAll (data.items.map (ListedFunction.reload print))) := by
  unfold archiveOf at h
  cases hitems : (ListedFunction.codec env opts print).saveItems data.items with
  | error e => rw [hitems] at h; cases h
  | ok items =>
    rw [hitems] at h
    cases h
    have hlabel : List.lookup label [(label, object [("module_functions", items)])] =
        some (object [("module_functions", items)]) := by
      rw [List.lookup_cons, beq_self_eq_true]
    unfold loadInfo
    rw [if_pos hext]
    show (object [("rocprofsys", _)]).enter "rocprofsys" >>= _ = _
    rw [Node.enter_object rfl]
    show (object [(label, _)]).enter label >>= _ = _
    rw [Node.enter_object hlabel]
    show (object [("module_functions", _)]).enter "module_functions" >>= _ = _
    rw [Node.enter_object rfl]
    show _ <$> (ListedFunction.codec env opts print).loadItems items = _
    rw [Codec.loadItems_saveItems hitems]
    rfl

/-- A file has no set under another label. -/
theorem exists_loadInfo_error {label other iname : String} {data : FunctionSet} {node : Node}
    (hext : extensionOf iname = "xml" ∨ extensionOf iname = "json")
    (h : archiveOf env opts print label data = .ok node) (hother : other ≠ label) :
    ∃ e, loadInfo env opts print other iname (some (.archive node)) = .error e := by
  unfold archiveOf at h
  cases hitems : (ListedFunction.codec env opts print).saveItems data.items with
  | error e => rw [hitems] at h; cases h
  | ok items =>
    rw [hitems] at h
    cases h
    have hlabel : List.lookup other [(label, object [("module_functions", items)])] = none := by
      rw [List.lookup_cons, beq_eq_false_iff_ne.mpr hother]
      rfl
    unfold loadInfo
    rw [if_pos hext]
    show ∃ e, (object [("rocprofsys", _)]).enter "rocprofsys" >>= _ = .error e
    rw [Node.enter_object rfl]
    show ∃ e, (object [(label, _)]).enter other >>= _ = .error e
    rw [Node.enter_object_of_none hlabel]
    exact ⟨_, rfl⟩

theorem FunctionSet.equal_iff_same {s t : FunctionSet} : s.Equal t ↔ OrderedSet.Same s t := by
  have heach : ∀ f g : ListedFunction,
      (f.eq g ∧ ¬ f.lt g ∧ ¬ g.lt f) ↔ f.sortKey = g.sortKey := by
    intro f g
    rw [ListedFunction.eq_iff]
    refine ⟨fun h => h.1, fun h => ⟨h, ?_, ?_⟩⟩
    · exact fun hlt => absurd h (ne_of_lt hlt)
    · exact fun hlt => absurd h.symm (ne_of_lt hlt)
  unfold FunctionSet.Equal OrderedSet.Same OrderedSet.keys
  simp only [heach]
  rw [← List.forall₂_eq_eq_eq, List.forall₂_map_left_iff, List.forall₂_map_right_iff]

/-- What is read back is the set that was written if and only if no function has an address. -/
theorem loadInfo_dumpInfo_iff {label oname ext : String} {data : FunctionSet} {level : ℤ}
    {fail opened : Bool} {node : Node}
    (hdump : dumpInfo env opts print label oname ext data level fail opened =
      .ok (some (.archive node)))
    (hname : extensionOf oname = ext) :
    (∃ loaded, loadInfo env opts print label oname (some (.archive node)) = .ok loaded ∧
      loaded.Equal data ∧ loaded.items.length = data.items.length) ↔
      ∀ f ∈ data, f.startAddress = 0 := by
  obtain ⟨hext, harchive⟩ := dumpInfo_eq_archive hdump
  rw [← hname] at hext
  rw [loadInfo_archiveOf hext harchive]
  have hload : (∃ loaded : FunctionSet,
      (Except.ok ((∅ : FunctionSet).insertAll (data.items.map (ListedFunction.reload print))) :
        Except String FunctionSet) = .ok loaded ∧
      loaded.Equal data ∧ loaded.items.length = data.items.length) ↔
      OrderedSet.Same
        ((∅ : FunctionSet).insertAll (data.items.map (ListedFunction.reload print))) data := by
    constructor
    · intro ⟨loaded, hloaded, hequal, _⟩
      cases hloaded
      exact FunctionSet.equal_iff_same.mp hequal
    · intro hsame
      exact ⟨_, rfl, FunctionSet.equal_iff_same.mpr hsame, hsame.length_eq⟩
  rw [hload, OrderedSet.same_insertAll_iff]
  constructor
  · intro hkeys f hf
    -- Some function that is read back has the key of `f`, so `f` has no address.
    obtain ⟨g, _, hg⟩ := (hkeys f.sortKey).mpr ⟨f, hf, rfl⟩
    have hstart := congrArg (fun k => (ofLex (ofLex (ofLex k).2).2).1) hg
    exact hstart.symm
  · intro hzero k
    have hkeep : ∀ f ∈ data, (f.reload print).sortKey = f.sortKey := by
      intro f hf
      rw [ListedFunction.sortKey_reload, ← hzero f hf]
    constructor
    · intro ⟨f, hf, hk⟩
      exact ⟨f, hf, (hkeep f hf).symm.trans hk⟩
    · intro ⟨f, hf, hk⟩
      exact ⟨f, hf, (hkeep f hf).trans hk⟩

/-- Of the sets of several labels, that of the file's label gets what is read, and the others
stay as they are. -/
theorem loadInfoMap_archiveOf {label inp : String} {data written : FunctionSet} {node : Node}
    {before after : List (String × FunctionSet)} {exceptions : String}
    (hext : extensionOf inp = "xml" ∨ extensionOf inp = "json")
    (h : archiveOf env opts print label written = .ok node)
    (hbefore : ∀ itr ∈ before, itr.1 ≠ label) :
    loadInfoMap env opts print inp (some (.archive node)) exceptions
        (before ++ (label, data) :: after) =
      .ok (before ++ (label, data.insertAll ((∅ : FunctionSet).insertAll
        (written.items.map (ListedFunction.reload print))).items) :: after) := by
  induction before generalizing exceptions with
  | nil => rw [List.nil_append, loadInfoMap, loadInfo_archiveOf hext h, List.nil_append]
  | cons itr before ih =>
    obtain ⟨e, he⟩ := exists_loadInfo_error hext h (hbefore itr List.mem_cons_self)
    rw [List.cons_append, loadInfoMap, he]
    simp only []
    rw [ih fun other hother => hbefore other (List.mem_cons_of_mem itr hother)]
    rfl

end Files

/-! ### Two clones of a function -/

/-- Functions of one name and one size, told apart by where they start. -/
def clone (startAddress : ℕ) : ListedFunction where
  moduleName := "libfoo.so"
  functionName := "helper"
  signature := ""
  startAddress := startAddress
  addressRange := 32
  numInstructions := 8

def blankEnvironment : Environment where
  regexSearch _ _ _ := false
  regexMatch _ _ _ := false
  basename := id
  realpath := id
  internalLibs := []

def plainPrinting : Printing where
  linkageName _ := "unknown"
  visibilityName _ := "unknown"

def clones : FunctionSet := (∅ : FunctionSet).insertAll [clone 4096, clone 8192]

/-- A function whose address range is not known. -/
def unlocated : FunctionSet := (∅ : FunctionSet).insertAll [clone 0]

theorem dumpInfo_json {data : FunctionSet} {node : Node}
    (h : archiveOf blankEnvironment {} plainPrinting "available_module_functions" data =
      .ok node) :
    dumpInfo blankEnvironment {} plainPrinting "available_module_functions" "available.json" "json"
      data 0 false true = .ok (some (.archive node)) := by
  show (archiveOf blankEnvironment {} plainPrinting "available_module_functions" data >>= _) = _
  rw [h]
  rfl

theorem extensionOf_json : extensionOf "available.json" = "json" := by decide +kernel

theorem unlocated_read_back : ∃ node loaded,
    dumpInfo blankEnvironment {} plainPrinting "available_module_functions" "available.json" "json"
      unlocated 0 false true = .ok (some (.archive node)) ∧
    loadInfo blankEnvironment {} plainPrinting "available_module_functions" "available.json"
      (some (.archive node)) = .ok loaded ∧ loaded.Equal unlocated := by
  have hsaved : ∃ node, archiveOf blankEnvironment {} plainPrinting "available_module_functions"
      unlocated = .ok node := ⟨_, rfl⟩
  obtain ⟨node, hnode⟩ := hsaved
  obtain ⟨loaded, hloaded, hequal, _⟩ :=
    (loadInfo_dumpInfo_iff (dumpInfo_json hnode) extensionOf_json).mpr (by decide +kernel)
  exact ⟨node, loaded, dumpInfo_json hnode, hloaded, hequal⟩

/-- Two static functions with one name are read back as one. -/
theorem clones_merged : ∃ node loaded,
    dumpInfo blankEnvironment {} plainPrinting "available_module_functions" "available.json" "json"
      clones 0 false true = .ok (some (.archive node)) ∧
    loadInfo blankEnvironment {} plainPrinting "available_module_functions" "available.json"
      (some (.archive node)) = .ok loaded ∧
    clones.items.length = 2 ∧ loaded.items.length = 1 ∧ ¬ loaded.Equal clones := by
  have hsaved : ∃ node, archiveOf blankEnvironment {} plainPrinting "available_module_functions"
      clones = .ok node := ⟨_, rfl⟩
  obtain ⟨node, hnode⟩ := hsaved
  refine ⟨node, _, dumpInfo_json hnode,
    loadInfo_archiveOf (Or.inr extensionOf_json) hnode, by decide +kernel, by decide +kernel, ?_⟩
  rw [FunctionSet.equal_iff_same]
  decide +kernel

end Instrument
end Rocprofsys
