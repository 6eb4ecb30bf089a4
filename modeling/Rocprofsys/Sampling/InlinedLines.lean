import Rocprofsys.Base.Emission
import Rocprofsys.Base.Json
import Rocprofsys.ThreadData.ThreadInfo
import Rocprofsys.TraceCache.SampleType

namespace Rocprofsys
namespace Sampling

open Base
open TraceCache (Bytes BacktraceRegionSample)
open ThreadData (ThreadInfo ThreadIndexData)

/-! ## Entries of a stack -/

/-- A source line that is inlined into an entry. -/
structure Line where
  name : Bytes
  location : Bytes
  line : Nat
  deriving DecidableEq

/-- `lineinfo` of a processed entry, which is true where `found`. -/
structure EntryLines where
  found : Bool
  lines : List Line
  deriving DecidableEq

/-- `tim::unwind::processed_entry`. -/
structure ProcessedEntry where
  address : UInt64
  lineAddress : UInt64
  name : Bytes
  location : Bytes
  lineinfo : EntryLines
  deriving DecidableEq

def ProcessedEntry.inlinedLines (e : ProcessedEntry) : List Line :=
  if e.lineinfo.found then e.lineinfo.lines else []

def encode (text : List Char) : Bytes := text.flatMap String.utf8EncodeChar

theorem isUtf8_encode (text : List Char) : IsUtf8 (encode text) := ⟨text, rfl⟩

/-- `fmt::format("\x7b:X\x7d", address)`. -/
def formatHex (address : UInt64) : Bytes :=
  encode ((Nat.toDigits 16 address.toNat).map Char.toUpper)

/-- `std::to_string`. -/
def toDecimal (n : Nat) : Bytes := encode (Nat.toDigits 10 n)

/-- What is written of an inlined line. -/
structure Inlined where
  name : Bytes
  location : Bytes
  line : Bytes
  deriving DecidableEq

section Output

variable (demangle : Bytes → Bytes)

def Line.inlined (line : Line) : Inlined := ⟨demangle line.name, line.location, toDecimal line.line⟩

/-! ## The direct output -/

/-- `JOIN(':', line.location, line.line)`. -/
def Inlined.info (i : Inlined) : Bytes := i.location ++ encode [':'] ++ i.line

/-- The region of a line, its name and `lineinfo`. -/
def Inlined.region (i : Inlined) : Bytes × Bytes := (i.name, i.info)

/-- The annotation of the line at a position. -/
def Inlined.annotate (i : Inlined) (n : Nat) : Bytes × Bytes :=
  (encode "lineinfo-".toList ++ toDecimal n, i.name ++ encode ['@'] ++ i.info)

/-- The regions of the lines of an entry, where inlined lines are included. -/
def directRegions (e : ProcessedEntry) : List (Bytes × Bytes) :=
  e.inlinedLines.reverse.map fun line => (line.inlined demangle).region

/-- The annotations of an entry, where they are not. -/
def directAnnotations (e : ProcessedEntry) : List (Bytes × Bytes) :=
  e.inlinedLines.reverse.zipIdx.map fun (line, n) => (line.inlined demangle).annotate n

/-! ## The cached output -/

def callStackFields (e : ProcessedEntry) : List (String × Json) :=
  [("name", .string (demangle e.name)), ("pc", .string (formatHex e.address)),
    ("file", .string e.location)]

def generateCallStackJson (e : ProcessedEntry) : Json := .ofFields (callStackFields demangle e)

def Inlined.fields (i : Inlined) : List (String × Json) :=
  [("name", .string i.name), ("location", .string i.location), ("line", .string i.line)]

def Inlined.toJson (i : Inlined) : Json := .ofFields i.fields

/-- Each line of the loop is assigned to the same field. -/
def generateLineInfoJson (e : ProcessedEntry) : Json :=
  let lineInfo := Json.assign "line_address" (.string (formatHex e.lineAddress)) []
  let lineInfo := Json.assign "name" (.string (demangle e.name)) lineInfo
  if e.lineinfo.found && !e.lineinfo.lines.isEmpty then
    .object (e.lineinfo.lines.reverse.foldl
      (fun lineInfo line => Json.assign "inlined" (line.inlined demangle).toJson lineInfo) lineInfo)
  else .object lineInfo

inductive Kind where
  | timer
  | overflow
  deriving DecidableEq

/-- The number of a category. -/
def Kind.categoryId : Kind → UInt32
  | .timer => 62
  | .overflow => 63

def Kind.category : Kind → String
  | .timer => "timer_sampling"
  | .overflow => "overflow_sampling"

def Kind.label : Kind → String
  | .timer => "Timer"
  | .overflow => "Overflow"

/-- What is cached of `timer_sampling_data` and `overflow_sampling_data`. -/
structure StackSample where
  kind : Kind
  beg : UInt64
  stop : UInt64
  stack : List ProcessedEntry

/-- A thread whose index data is known. -/
structure SampledThread where
  info : ThreadInfo
  index : ThreadIndexData

namespace SampledThread

def isValidTime (t : SampledThread) (ts : UInt64) : Bool :=
  t.info.lifetime.1 ≤ ts && ts ≤ t.info.lifetime.2

def isValidLifetime (t : SampledThread) (s : StackSample) : Bool :=
  t.isValidTime s.beg && t.isValidTime s.stop

/-- `get_track_name`. -/
def trackName (t : SampledThread) (kind : Kind) : Bytes :=
  encode "Thread ".toList ++ toDecimal t.index.sequentValue.toUInt64.toNat ++
    encode (" " ++ kind.label ++ " (S) ").toList ++ toDecimal t.index.systemValue.toUInt64.toNat

end SampledThread

/-- The entries that are stored, each with its sample, the samples of the timer first. -/
def storedEntries (t : SampledThread) (timer overflow : List StackSample) :
    List (StackSample × ProcessedEntry) :=
  ((timer ++ overflow).filter t.isValidLifetime).flatMap fun s => s.stack.map (s, ·)

variable (dump : Json → Option Bytes)

/-- The sample of an entry. `dump` throws where a text is not UTF-8. -/
def cacheEntry (t : SampledThread) (s : StackSample) (e : ProcessedEntry) :
    Option BacktraceRegionSample := do
  let callStack ← dump (generateCallStackJson demangle e)
  let lineInfo ← dump (generateLineInfoJson demangle e)
  return { type := s.kind.categoryId, threadId := t.index.systemValue.toUInt64,
           trackName := t.trackName s.kind, name := demangle e.name, startTimestamp := s.beg,
           endTimestamp := s.stop, category := encode s.kind.category.toList,
           callStack, lineInfo, extdata := encode ['{', '}'] }

def cacheSamplingData (t : SampledThread) (timer overflow : List StackSample) :
    Option (List BacktraceRegionSample) :=
  (storedEntries t timer overflow).mapM fun (s, e) => cacheEntry demangle dump t s e

end Output

/-! ## Reading the line information -/

def readInlined (json : Json) : Option Inlined := do
  let name ← json.field "name" Json.getString
  let location ← json.field "location" Json.getString
  let line ← json.field "line" Json.getString
  return ⟨name, location, line⟩

/-- The inlined lines, one or an array of them. -/
def readInlines (json : Json) : Option (List Inlined) :=
  match json.get? "inlined" with
  | none => some []
  | some (.array items) => items.mapM readInlined
  | some inlined => (readInlined inlined).map ([·])

section Agreement

variable (demangle : Bytes → Bytes) (dump : Json → Option Bytes) (parse : Bytes → Option Json)

/-- The line information has each inlined line once, in the order of the direct output. -/
def Lists (e : ProcessedEntry) (lineInfo : Bytes) : Prop :=
  ∃ json inlines, parse lineInfo = some json ∧ readInlines json = some inlines ∧
    inlines.Perm (e.inlinedLines.map (Line.inlined demangle)) ∧
    inlines.map Inlined.region = directRegions demangle e ∧
    inlines.zipIdx.map (fun (i, n) => i.annotate n) = directAnnotations demangle e

/-- The entries are cached with all their lines. -/
def CachesInlines (t : SampledThread) (timer overflow : List StackSample) : Prop :=
  ∃ samples, cacheSamplingData demangle dump t timer overflow = some samples ∧
    List.Forall₂ (fun entry sample => Lists demangle parse entry.2 sample.lineInfo)
      (storedEntries t timer overflow) samples

/-- At most one inlined line, and texts that can be dumped. -/
structure Plain (e : ProcessedEntry) : Prop where
  single : e.inlinedLines.length ≤ 1
  name : IsUtf8 (demangle e.name)
  location : IsUtf8 e.location
  lines : ∀ line ∈ e.inlinedLines, IsUtf8 (demangle line.name) ∧ IsUtf8 line.location

end Agreement

section Lines

variable {demangle : Bytes → Bytes} {e : ProcessedEntry} {line : Line} {lines : List Line}

theorem Inlined.nodup_fields (i : Inlined) : (i.fields.map Prod.fst).Nodup := by
  show (["name", "location", "line"] : List String).Nodup
  decide

theorem nodup_callStackFields : ((callStackFields demangle e).map Prod.fst).Nodup := by
  show (["name", "pc", "file"] : List String).Nodup
  decide

theorem readInlined_toJson (i : Inlined) : readInlined i.toJson = some i := by
  simp only [readInlined, Inlined.toJson, Json.field_ofFields i.nodup_fields]
  rfl

theorem found_of_inlinedLines (h : e.inlinedLines = line :: lines) :
    e.lineinfo.found = true ∧ e.lineinfo.lines = line :: lines := by
  rw [ProcessedEntry.inlinedLines] at h
  split at h
  · exact ⟨‹_›, h⟩
  · cases h

/-- The fields of the line information without inlined lines. -/
def entryFields (demangle : Bytes → Bytes) (e : ProcessedEntry) : List (String × Json) :=
  [("line_address", .string (formatHex e.lineAddress)), ("name", .string (demangle e.name))]

/-- The field of the line that is assigned last is the one that is left. -/
theorem foldl_assign_inlined (line : Line) (lines : List Line) :
    (line :: lines).reverse.foldl
      (fun lineInfo line => Json.assign "inlined" (line.inlined demangle).toJson lineInfo)
      (entryFields demangle e) =
        ("inlined", (line.inlined demangle).toJson) :: entryFields demangle e := by
  induction lines generalizing line with
  | nil =>
    show Json.assign "inlined" _ (entryFields demangle e) = _
    rw [entryFields, Json.assign, if_pos (by decide)]
  | cons line' lines ih =>
    rw [List.reverse_cons, List.foldl_append, ih line']
    show Json.assign "inlined" (line.inlined demangle).toJson
      (("inlined", (line'.inlined demangle).toJson) :: entryFields demangle e) = _
    rw [Json.assign, if_neg (String.lt_irrefl _), if_pos rfl]

theorem assign_entryFields :
    Json.assign "name" (.string (demangle e.name))
      (Json.assign "line_address" (.string (formatHex e.lineAddress)) []) =
        entryFields demangle e := by
  rw [Json.assign, Json.assign, if_neg (by decide), if_neg (by decide), Json.assign]
  rfl

theorem generateLineInfoJson_of_cons (h : e.inlinedLines = line :: lines) :
    generateLineInfoJson demangle e =
      .object (("inlined", (line.inlined demangle).toJson) :: entryFields demangle e) := by
  obtain ⟨hfound, hlines⟩ := found_of_inlinedLines h
  rw [generateLineInfoJson, assign_entryFields, hfound, hlines, foldl_assign_inlined]
  rfl

theorem generateLineInfoJson_of_nil (h : e.inlinedLines = []) :
    generateLineInfoJson demangle e = .object (entryFields demangle e) := by
  have hnone : ¬ (e.lineinfo.found && !e.lineinfo.lines.isEmpty) = true := by
    rw [ProcessedEntry.inlinedLines] at h
    split at h
    · simp [h]
    · simp_all
  rw [generateLineInfoJson, assign_entryFields, if_neg hnone]

/-! What is read from the line information, and when it can be dumped. -/

theorem readInlines_generateLineInfoJson :
    readInlines (generateLineInfoJson demangle e) =
      some ((e.inlinedLines.take 1).map (Line.inlined demangle)) := by
  cases h : e.inlinedLines with
  | nil =>
    rw [generateLineInfoJson_of_nil h]
    rfl
  | cons line lines =>
    rw [generateLineInfoJson_of_cons h]
    show (readInlined (line.inlined demangle).toJson).map ([·]) = _
    rw [readInlined_toJson]
    rfl

theorem validText_entryFields :
    (∀ entry ∈ entryFields demangle e, entry.2.ValidText) ↔ IsUtf8 (demangle e.name) := by
  simp only [entryFields, List.forall_mem_cons, Json.validText_string, formatHex, isUtf8_encode,
    true_and]
  exact and_iff_left nofun

theorem validText_inlined :
    (line.inlined demangle).toJson.ValidText ↔
      IsUtf8 (demangle line.name) ∧ IsUtf8 line.location := by
  rw [Inlined.toJson, Json.validText_ofFields (Inlined.nodup_fields _)]
  simp only [Inlined.fields, Line.inlined, List.forall_mem_cons, Json.validText_string, toDecimal,
    isUtf8_encode, true_and]
  exact and_congr_right fun _ => and_iff_left nofun

theorem validText_callStack :
    (generateCallStackJson demangle e).ValidText ↔
      IsUtf8 (demangle e.name) ∧ IsUtf8 e.location := by
  rw [generateCallStackJson, Json.validText_ofFields nodup_callStackFields]
  simp only [callStackFields, List.forall_mem_cons, Json.validText_string, formatHex,
    isUtf8_encode, true_and]
  exact and_congr_right fun _ => and_iff_left nofun

theorem validText_lineInfo :
    (generateLineInfoJson demangle e).ValidText ↔ IsUtf8 (demangle e.name) ∧
      ∀ line ∈ e.inlinedLines.take 1, IsUtf8 (demangle line.name) ∧ IsUtf8 line.location := by
  cases h : e.inlinedLines with
  | nil =>
    rw [generateLineInfoJson_of_nil h, Json.validText_object, validText_entryFields]
    exact (and_iff_left nofun).symm
  | cons line lines =>
    rw [generateLineInfoJson_of_cons h, Json.validText_object, List.forall_mem_cons,
      validText_entryFields, validText_inlined, and_comm]
    refine and_congr_right fun _ => ?_
    show _ ↔ ∀ line' ∈ [line], _
    rw [List.forall_mem_singleton]

end Lines

/-! ## Where the two outputs agree -/

section Library

/-! The JSON library throws when a string is not UTF-8, and reads back what it wrote. -/

variable {demangle : Bytes → Bytes} {dump : Json → Option Bytes} {parse : Bytes → Option Json}
  {t : SampledThread} {s : StackSample} {e : ProcessedEntry}

theorem lists_iff {text : Bytes} (hparse : parse text = some (generateLineInfoJson demangle e)) :
    Lists demangle parse e text ↔ e.inlinedLines.length ≤ 1 := by
  constructor
  · intro ⟨json, inlines, hjson, hread, hperm, _⟩
    rw [hparse] at hjson
    cases hjson
    rw [readInlines_generateLineInfoJson, Option.some.injEq] at hread
    have hlength := hperm.length_eq
    rw [← hread, List.length_map, List.length_map, List.length_take] at hlength
    omega
  · intro hle
    have htake : e.inlinedLines.take 1 = e.inlinedLines := List.take_of_length_le hle
    have hreverse : e.inlinedLines.reverse = e.inlinedLines := by
      cases h : e.inlinedLines with
      | nil => rfl
      | cons line lines =>
        rw [h, List.length_cons] at hle
        have hnil : lines = [] := List.eq_nil_of_length_eq_zero (by omega)
        rw [hnil]
        rfl
    refine ⟨_, _, hparse, readInlines_generateLineInfoJson, ?_, ?_, ?_⟩
    · rw [htake]
    · rw [directRegions, hreverse, htake, List.map_map]
      rfl
    · rw [directAnnotations, hreverse, htake, List.zipIdx_map, List.map_map]
      rfl

/-- An entry is cached with its lines exactly if it is plain. -/
theorem cacheEntry_lists_iff
    (hcallStack : (dump (generateCallStackJson demangle e)).isSome ↔
      (generateCallStackJson demangle e).ValidText)
    (hlineInfo : (dump (generateLineInfoJson demangle e)).isSome ↔
      (generateLineInfoJson demangle e).ValidText)
    (hparse : ∀ text, dump (generateLineInfoJson demangle e) = some text →
      parse text = some (generateLineInfoJson demangle e)) :
    (∃ sample, cacheEntry demangle dump t s e = some sample ∧
      Lists demangle parse e sample.lineInfo) ↔ Plain demangle e := by
  rw [validText_callStack] at hcallStack
  rw [validText_lineInfo] at hlineInfo
  constructor
  · intro ⟨sample, hsample, hlists⟩
    obtain ⟨callStack, hdumped, hrest⟩ := Option.bind_eq_some_iff.mp hsample
    obtain ⟨lineInfo, hdumped', hsample⟩ := Option.bind_eq_some_iff.mp hrest
    cases hsample
    have hsingle := (lists_iff (hparse _ hdumped')).mp hlists
    obtain ⟨hname, hlocation⟩ := hcallStack.mp (Option.isSome_of_eq_some hdumped)
    have hlines := (hlineInfo.mp (Option.isSome_of_eq_some hdumped')).2
    rw [List.take_of_length_le hsingle] at hlines
    exact ⟨hsingle, hname, hlocation, hlines⟩
  · intro h
    obtain ⟨callStack, hdumped⟩ := Option.isSome_iff_exists.mp (hcallStack.mpr ⟨h.name, h.location⟩)
    obtain ⟨lineInfo, hdumped'⟩ := Option.isSome_iff_exists.mp (hlineInfo.mpr ⟨h.name, by
      rw [List.take_of_length_le h.single]
      exact h.lines⟩)
    have hlists := (lists_iff (hparse _ hdumped')).mpr h.single
    obtain ⟨sample, hsample, hstored⟩ : ∃ sample, cacheEntry demangle dump t s e = some sample ∧
        sample.lineInfo = lineInfo := by
      rw [cacheEntry, hdumped, hdumped']
      exact ⟨_, rfl, rfl⟩
    exact ⟨sample, hsample, by rw [hstored]; exact hlists⟩

/-- The entries are cached with all their lines exactly if each has at most one, and texts that
are UTF-8. -/
theorem cachesInlines_iff {timer overflow : List StackSample}
    (hcallStack : ∀ entry ∈ storedEntries t timer overflow,
      ((dump (generateCallStackJson demangle entry.2)).isSome ↔
        (generateCallStackJson demangle entry.2).ValidText))
    (hlineInfo : ∀ entry ∈ storedEntries t timer overflow,
      ((dump (generateLineInfoJson demangle entry.2)).isSome ↔
        (generateLineInfoJson demangle entry.2).ValidText))
    (hparse : ∀ entry ∈ storedEntries t timer overflow,
      ∀ text, dump (generateLineInfoJson demangle entry.2) = some text →
        parse text = some (generateLineInfoJson demangle entry.2)) :
    CachesInlines demangle dump parse t timer overflow ↔
      ∀ entry ∈ storedEntries t timer overflow, Plain demangle entry.2 := by
  rw [CachesInlines, cacheSamplingData, exists_mapM_forall₂_iff]
  refine forall₂_congr fun entry hentry => ?_
  exact cacheEntry_lists_iff (hcallStack entry hentry) (hlineInfo entry hentry)
    (hparse entry hentry)

end Library

/-! An entry with lines of `main.cpp`, and the texts that are dumped of it. -/

def mainThread : SampledThread where
  info := ⟨false, none, (0, 1000)⟩
  index := ⟨0, 4242, 0, 0, 0⟩

def lineOf (name : String) (line : Nat) : Line :=
  ⟨encode name.toList, encode "main.cpp".toList, line⟩

def mainEntry (lines : List Line) : ProcessedEntry where
  address := 4096
  lineAddress := 4100
  name := encode "main".toList
  location := encode "main.cpp".toList
  lineinfo := ⟨true, lines⟩

def mainSample (lines : List Line) : StackSample := ⟨.timer, 10, 20, [mainEntry lines]⟩

def callStackText : Bytes :=
  encode "\x7b\"file\":\"main.cpp\",\"name\":\"main\",\"pc\":\"1000\"\x7d".toList

/-- The text with the line in `inlined`. -/
def lineInfoText (name line : String) : Bytes :=
  encode ("\x7b\"inlined\":\x7b\"line\":\"" ++ line ++ "\",\"location\":\"main.cpp\",\"name\":\"" ++
    name ++ "\"\x7d,\"line_address\":\"1004\",\"name\":\"main\"\x7d").toList

/-- `dump` and `parse` on these documents. -/
def mainDump (lineInfo : Bytes) (json : Json) : Option Bytes :=
  if (json.get? "pc").isSome then some callStackText else some lineInfo

def mainParse (lineInfo : Bytes) (lines : List Line) (text : Bytes) : Option Json :=
  if text = lineInfo then some (generateLineInfoJson id (mainEntry lines)) else none

section Main

variable {lineInfo : Bytes} {lines : List Line} {entry : StackSample × ProcessedEntry}

theorem storedEntries_main :
    storedEntries mainThread [mainSample lines] [] = [(mainSample lines, mainEntry lines)] := rfl

theorem isSome_mainDump_callStack :
    (mainDump lineInfo (generateCallStackJson id (mainEntry lines))).isSome ↔
      (generateCallStackJson id (mainEntry lines)).ValidText := by
  refine iff_of_true ?_ (validText_callStack.mpr ⟨isUtf8_encode _, isUtf8_encode _⟩)
  rw [mainDump]
  split <;> rfl

theorem isSome_mainDump_lineInfo
    (h : ∀ line ∈ lines, IsUtf8 line.name ∧ IsUtf8 line.location) :
    (mainDump lineInfo (generateLineInfoJson id (mainEntry lines))).isSome ↔
      (generateLineInfoJson id (mainEntry lines)).ValidText := by
  refine iff_of_true ?_ (validText_lineInfo.mpr ⟨isUtf8_encode _, fun line hline => ?_⟩)
  · rw [mainDump]
    split <;> rfl
  · exact h line (List.mem_of_mem_take hline)

theorem mainParse_of_mainDump {text : Bytes}
    (hlines : (generateLineInfoJson id (mainEntry lines)).get? "pc" = none)
    (h : mainDump lineInfo (generateLineInfoJson id (mainEntry lines)) = some text) :
    mainParse lineInfo lines text = some (generateLineInfoJson id (mainEntry lines)) := by
  rw [mainDump, hlines] at h
  rw [mainParse, if_pos (Option.some.inj h).symm]

theorem get?_pc_lineInfo (line : Line) (lines : List Line) :
    (generateLineInfoJson id (mainEntry (line :: lines))).get? "pc" = none := by
  have hlines : (mainEntry (line :: lines)).inlinedLines = line :: lines := rfl
  rw [generateLineInfoJson_of_cons hlines]
  rfl

theorem isUtf8_lineOf {name : String} {line : Nat} :
    IsUtf8 (lineOf name line).name ∧ IsUtf8 (lineOf name line).location :=
  ⟨isUtf8_encode _, isUtf8_encode _⟩

end Main

/-- One inlined line is cached. -/
theorem cachesInlines_single :
    CachesInlines id (mainDump (lineInfoText "solve" "7"))
      (mainParse (lineInfoText "solve" "7") [lineOf "solve" 7]) mainThread
      [mainSample [lineOf "solve" 7]] [] := by
  refine (cachesInlines_iff ?_ ?_ ?_).mpr ?_
  all_goals rw [storedEntries_main]
  all_goals refine List.forall_mem_singleton.mpr ?_
  · exact isSome_mainDump_callStack
  · exact isSome_mainDump_lineInfo (List.forall_mem_singleton.mpr isUtf8_lineOf)
  · exact fun text => mainParse_of_mainDump (get?_pc_lineInfo _ _)
  · exact ⟨Nat.le_refl 1, isUtf8_encode _, isUtf8_encode _,
      List.forall_mem_singleton.mpr isUtf8_lineOf⟩

/-- Of two inlined lines one is cached. -/
theorem not_cachesInlines_two : ¬ ∀ (demangle : Bytes → Bytes) (dump : Json → Option Bytes)
    (parse : Bytes → Option Json) (t : SampledThread) (timer overflow : List StackSample),
    (∀ entry ∈ storedEntries t timer overflow,
      ((dump (generateCallStackJson demangle entry.2)).isSome ↔
        (generateCallStackJson demangle entry.2).ValidText)) →
    (∀ entry ∈ storedEntries t timer overflow,
      ((dump (generateLineInfoJson demangle entry.2)).isSome ↔
        (generateLineInfoJson demangle entry.2).ValidText)) →
    (∀ entry ∈ storedEntries t timer overflow,
      ∀ text, dump (generateLineInfoJson demangle entry.2) = some text →
        parse text = some (generateLineInfoJson demangle entry.2)) →
    CachesInlines demangle dump parse t timer overflow := by
  intro h
  have hutf8 : ∀ line ∈ [lineOf "solve" 7, lineOf "step" 9],
      IsUtf8 line.name ∧ IsUtf8 line.location := by
    intro line hline
    rcases List.mem_pair.mp hline with rfl | rfl
    · exact isUtf8_lineOf
    · exact isUtf8_lineOf
  have hcaches := h id (mainDump (lineInfoText "solve" "7"))
    (mainParse (lineInfoText "solve" "7") [lineOf "solve" 7, lineOf "step" 9]) mainThread
    [mainSample [lineOf "solve" 7, lineOf "step" 9]] []
  simp only [storedEntries_main, List.forall_mem_singleton] at hcaches
  obtain ⟨samples, -, hforall⟩ := hcaches isSome_mainDump_callStack
    (isSome_mainDump_lineInfo hutf8) fun text => mainParse_of_mainDump (get?_pc_lineInfo _ _)
  rw [storedEntries_main] at hforall
  cases hforall with
  | cons hlists _ =>
    obtain ⟨json, inlines, hjson, hread, hperm, -⟩ := hlists
    rw [mainParse] at hjson
    split at hjson
    · cases hjson
      rw [readInlines_generateLineInfoJson, Option.some.injEq] at hread
      have hlength := hperm.length_eq
      rw [← hread] at hlength
      exact absurd hlength (by decide)
    · cases hjson

end Sampling
end Rocprofsys
