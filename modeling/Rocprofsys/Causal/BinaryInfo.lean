import Mathlib.Data.List.Basic

namespace Rocprofsys
namespace Causal

/-! ## Address ranges -/

structure AddressRange where
  low : UInt64
  high : UInt64
  deriving DecidableEq, Repr

namespace AddressRange

def isRange (r : AddressRange) : Bool := r.low < r.high

def isValid (r : AddressRange) : Bool := r.low ≤ r.high && 1 < r.low + 1

def contains (r : AddressRange) (v : UInt64) : Bool :=
  if r.isRange then r.low ≤ v && v < r.high else v == r.low

def containsRange (r v : AddressRange) : Bool :=
  r == v || (r.contains v.low && (r.contains v.high || v.high == r.high))

/-- `operator+=`. -/
def add (r : AddressRange) (v : UInt64) : AddressRange :=
  if r.isValid then ⟨r.low + v, r.high + v⟩ else ⟨v, v⟩

end AddressRange

/-- A mapping of `/proc/self/maps`, for which `address_range` can be constructed. -/
structure Mapping where
  loadAddress : UInt64
  lastAddress : UInt64
  ordered : loadAddress ≤ lastAddress

/-! ## Filters -/

inductive FilterMode where
  | filterInclude
  | filterExclude
  deriving DecidableEq, Repr

structure ScopeFilter where
  mode : FilterMode
  scope : UInt8
  expression : String
  deriving DecidableEq, Repr

def universalFilter : UInt8 := 1

def binaryFilter : UInt8 := 2

def sourceFilter : UInt8 := 4

def functionFilter : UInt8 := 8

/-- `std::regex_search` for a pattern, and the demangler. -/
structure Library where
  regexSearch : String → String → Bool
  demangle : String → String

namespace ScopeFilter

variable (lib : Library)

/-- `operator()`. -/
def accepts (f : ScopeFilter) (value : String) : Bool :=
  match f.mode with
  | .filterInclude => if f.expression = "" then true else lib.regexSearch f.expression value
  | .filterExclude => if f.expression = "" then false else !lib.regexSearch f.expression value

def satisfiesFilter (filters : List ScopeFilter) (scope : UInt8) (value : String) : Bool :=
  filters.all fun f => !(0 < f.scope &&& scope && !f.accepts lib value)

end ScopeFilter

/-! ## Symbols -/

structure InlinedSymbol where
  line : UInt32
  file : String
  func : String
  deriving DecidableEq, Repr

structure DwarfEntry where
  line : UInt32
  address : AddressRange
  file : String
  deriving DecidableEq, Repr

structure Symbol where
  line : UInt32
  loadAddress : UInt64
  address : AddressRange
  func : String
  file : String
  inlines : List InlinedSymbol
  dwarfInfo : List DwarfEntry
  deriving DecidableEq, Repr

structure BinaryInfo where
  mappings : List Mapping
  symbols : List Symbol

inductive CausalMode where
  | line
  | function
  deriving DecidableEq, Repr

namespace Symbol

def ipaddr (s : Symbol) : AddressRange := s.address.add s.loadAddress

def clone (s : Symbol) : Symbol := { s with inlines := [], dwarfInfo := [] }

variable (lib : Library) (filters : List ScopeFilter)

/-- The source filters on the file, or on file and line. -/
def sourceSatisfies (file : String) (line : UInt32) : Bool :=
  ScopeFilter.satisfiesFilter lib filters sourceFilter file ||
    ScopeFilter.satisfiesFilter lib filters sourceFilter
      (file ++ ":" ++ toString line.toNat)

def functionSatisfies (func : String) : Bool :=
  ScopeFilter.satisfiesFilter lib filters functionFilter (lib.demangle func)

/-- `operator()`. -/
def satisfies (s : Symbol) : Bool :=
  functionSatisfies lib filters s.func && sourceSatisfies lib filters s.file s.line

def getInlineSymbols (s : Symbol) : List Symbol :=
  (s.inlines.filter fun i =>
    functionSatisfies lib filters i.func && sourceSatisfies lib filters i.file i.line).map
    fun i => { s.clone with func := i.func, line := i.line, file := i.file }

def getDebugLineInfo (s : Symbol) : List Symbol :=
  if functionSatisfies lib filters s.func then
    (s.dwarfInfo.filter fun d => sourceSatisfies lib filters d.file d.line).map
      fun d => { s.clone with address := d.address, file := d.file, line := d.line }
  else []

end Symbol

/-! ## get_line_info -/

inductive LineInfoError where
  | notContained (ipaddr symbol : AddressRange)
  deriving DecidableEq, Repr

section GetLineInfo

variable (lib : Library) (mode : CausalMode) (filters : List ScopeFilter) (addr : UInt64)
  (includeDiscarded : Bool)

def BinaryInfo.isMapped (b : BinaryInfo) : Bool :=
  b.mappings.any fun m => (AddressRange.mk m.loadAddress m.lastAddress).contains addr

/-- The loop over the line entries of a symbol. -/
def debugData (ipaddr : AddressRange) : List Symbol → Except LineInfoError (List Symbol)
  | [] => .ok []
  | s :: ss =>
    if !ipaddr.containsRange s.ipaddr then .error (.notContained s.ipaddr ipaddr)
    else (debugData ipaddr ss).map fun rest =>
      if s.ipaddr.contains addr then s :: rest else rest

/-- The entries of a symbol that is not skipped. -/
def symbolData (s : Symbol) : Except LineInfoError (List Symbol) :=
  let primary :=
    if includeDiscarded ∨ mode = .function then
      (if s.satisfies lib filters then [s] else []) ++ s.getInlineSymbols lib filters
    else []
  if includeDiscarded ∨ mode = .line then
    (debugData addr s.ipaddr (s.getDebugLineInfo lib filters)).map fun debug => primary ++ debug
  else .ok primary

/-- The loop over the symbols of a binary. -/
def localData : List Symbol → Except LineInfoError (List Symbol)
  | [] => .ok []
  | s :: ss =>
    if addr < s.loadAddress ∨ ¬s.ipaddr.contains addr then localData ss
    else
      (symbolData lib mode filters addr includeDiscarded s).bind fun entries =>
        (localData ss).map fun rest => entries ++ rest

/-- The loop over the binaries. -/
def searchBinaries : List BinaryInfo → List Symbol → Except LineInfoError (List Symbol)
  | [], data => .ok data
  | b :: bs, data =>
    if !b.isMapped addr then .ok data
    else
      (localData lib mode filters addr includeDiscarded b.symbols).bind fun entries =>
        if entries = [] then searchBinaries bs data
        else if includeDiscarded then searchBinaries bs (data ++ entries)
        else .ok (data ++ entries)

end GetLineInfo

/-- The analysed binaries, and those reduced to the scope. -/
structure CachedBinaryInfo where
  requested : List BinaryInfo
  inScope : List BinaryInfo

def getLineInfo (lib : Library) (mode : CausalMode) (globFilters scopeFilters : List ScopeFilter)
    (cached : CachedBinaryInfo) (addr : UInt64) (includeDiscarded : Bool) :
    Except LineInfoError (List Symbol) :=
  if includeDiscarded then
    searchBinaries lib mode globFilters addr includeDiscarded cached.requested []
  else searchBinaries lib mode scopeFilters addr includeDiscarded cached.inScope []

end Causal
end Rocprofsys
