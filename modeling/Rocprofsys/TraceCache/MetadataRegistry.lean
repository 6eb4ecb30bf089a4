import Mathlib.Data.List.TakeWhile
import Rocprofsys.Base.Json
import Rocprofsys.Base.KeyedSet
import Rocprofsys.TraceCache.Cacheable

namespace Rocprofsys
namespace TraceCache

open Base

/-- `agent_type`, an enumeration over `uint8_t`. -/
abbrev AgentType := UInt8

/-! ## Integers on their way through a document

Counts and handles are cast to `int` or `long long` when they are saved.  A number
that is loaded is read as a signed type and then cast to the type of its field. -/

/-- `static_cast<int>(n)`. -/
def castInt (n : Nat) : Int := (Int32.ofInt n).toInt

/-- `static_cast<long long>(n)`. -/
def castLongLong (n : Nat) : Int := (Int64.ofInt n).toInt

def castAgentType (x : Int32) : AgentType := UInt8.ofInt x.toInt
def castUInt32 (x : Int32) : UInt32 := UInt32.ofInt x.toInt
def castSize (x : Int32) : UInt64 := UInt64.ofInt x.toInt
def castUInt64 (x : Int64) : UInt64 := UInt64.ofInt x.toInt

/-- What is loaded of a `size_t` that passes through 32 bits. -/
def narrow (x : UInt64) : UInt64 := castSize (Int32.ofInt x.toNat)

/-- The number is an `int`, or a negative one converted to `size_t`. -/
def FitsInt (x : UInt64) : Prop := x.toNat < 2 ^ 31 ∨ 2 ^ 64 - 2 ^ 31 ≤ x.toNat

theorem toInt_ofInt32 (n : Int) : (Int32.ofInt n).toInt = n.bmod 4294967296 := Int32.toInt_ofInt

theorem toInt_ofInt64 (n : Int) : (Int64.ofInt n).toInt = n.bmod 18446744073709551616 :=
  Int64.toInt_ofInt

@[simp] theorem castAgentType_ofInt (x : AgentType) : castAgentType (Int32.ofInt x.toNat) = x := by
  have hlt : x.toNat < 2 ^ 8 := x.toNat_lt
  have hmod : (x.toNat : Int).bmod 4294967296 % 2 ^ 8 = x.toNat := by
    rw [Int.bmod_def]
    omega
  rw [castAgentType, UInt8.ofInt, toInt_ofInt32, hmod, Int.toNat_natCast, UInt8.ofNat_toNat]

@[simp] theorem castUInt32_ofInt (x : UInt32) : castUInt32 (Int32.ofInt x.toNat) = x := by
  have hlt : x.toNat < 2 ^ 32 := x.toNat_lt
  have hmod : (x.toNat : Int).bmod 4294967296 % 2 ^ 32 = x.toNat := by
    rw [Int.bmod_def]
    omega
  rw [castUInt32, UInt32.ofInt, toInt_ofInt32, hmod, Int.toNat_natCast, UInt32.ofNat_toNat]

@[simp] theorem castUInt64_ofInt (x : UInt64) : castUInt64 (Int64.ofInt x.toNat) = x := by
  have hlt : x.toNat < 2 ^ 64 := x.toNat_lt
  have hmod : (x.toNat : Int).bmod 18446744073709551616 % 2 ^ 64 = x.toNat := by
    rw [Int.bmod_def]
    omega
  rw [castUInt64, UInt64.ofInt, toInt_ofInt64, hmod, Int.toNat_natCast, UInt64.ofNat_toNat]

@[simp] theorem castSize_ofInt (x : UInt64) : castSize (Int32.ofInt x.toNat) = narrow x := rfl

theorem toNat_narrow (x : UInt64) :
    (narrow x).toNat = ((x.toNat : Int).bmod 4294967296 % 2 ^ 64).toNat := by
  have hlt : ((x.toNat : Int).bmod 4294967296 % 2 ^ 64).toNat < 2 ^ 64 := by omega
  rw [narrow, castSize, UInt64.ofInt, toInt_ofInt32, UInt64.toNat_ofNat', Nat.mod_eq_of_lt hlt]

theorem narrow_eq_self_iff {x : UInt64} : narrow x = x ↔ FitsInt x := by
  have hlt : x.toNat < 2 ^ 64 := x.toNat_lt
  rw [← UInt64.toNat_inj, toNat_narrow, Int.bmod_def, FitsInt]
  omega

@[simp] theorem narrow_narrow (x : UInt64) : narrow (narrow x) = narrow x := by
  rw [narrow_eq_self_iff, FitsInt, toNat_narrow, Int.bmod_def]
  omega

/-! What the getters read of a number that was saved. -/

@[simp] theorem getInt32_toInt (x : Int32) : Json.getInt32 (.number x.toInt) = some x := by
  rw [Json.getInt32, Int32.ofInt_toInt]

@[simp] theorem getInt32_castInt (n : Nat) :
    Json.getInt32 (.number (castInt n)) = some (Int32.ofInt n) := by
  rw [castInt, getInt32_toInt]

@[simp] theorem getInt32_natCast (n : Nat) : Json.getInt32 (.number n) = some (Int32.ofInt n) := rfl

@[simp] theorem getInt64_toInt (x : Int64) : Json.getInt64 (.number x.toInt) = some x := by
  rw [Json.getInt64, Int64.ofInt_toInt]

@[simp] theorem getInt64_castLongLong (n : Nat) :
    Json.getInt64 (.number (castLongLong n)) = some (Int64.ofInt n) := by
  rw [castLongLong, getInt64_toInt]

@[simp] theorem getUInt8_toNat (x : UInt8) : Json.getUInt8 (.number x.toNat) = some x := by
  have hlt : x.toNat < 2 ^ 8 := x.toNat_lt
  have hmod : (x.toNat : Int) % 2 ^ 8 = x.toNat := by omega
  rw [Json.getUInt8, UInt8.ofInt, hmod, Int.toNat_natCast, UInt8.ofNat_toNat]

@[simp] theorem getUInt64_toNat (x : UInt64) : Json.getUInt64 (.number x.toNat) = some x := by
  have hlt : x.toNat < 2 ^ 64 := x.toNat_lt
  have hmod : (x.toNat : Int) % 2 ^ 64 = x.toNat := by omega
  rw [Json.getUInt64, UInt64.ofInt, hmod, Int.toNat_natCast, UInt64.ofNat_toNat]

/-! ## Strings -/

/-- What a `const char*` points at, without the terminator. -/
structure CString where
  bytes : Bytes
  noNul : 0 ∉ bytes

theorem zero_not_mem_takeWhile (bytes : Bytes) : 0 ∉ bytes.takeWhile (· != 0) := by
  intro h
  have hne := List.mem_takeWhile_imp h
  simp at hne

/-- `g_string_pool.store`: the pointer that `c_str()` gives sees the bytes up to the
first NUL. -/
def CString.store (bytes : Bytes) : CString :=
  ⟨bytes.takeWhile (· != 0), zero_not_mem_takeWhile bytes⟩

@[simp] theorem CString.store_bytes (text : CString) : CString.store text.bytes = text := by
  obtain ⟨bytes, noNul⟩ := text
  have htake : bytes.takeWhile (· != 0) = bytes := by
    rw [List.takeWhile_eq_self_iff]
    intro byte hbyte
    rw [bne_iff_ne]
    intro heq
    subst heq
    exact noNul hbyte
  simp only [store, htake]

/-! ## Records -/

structure Process where
  pid : Int32
  ppid : Int32
  command : Bytes
  start : UInt32
  «end» : UInt32

structure Pmc where
  type : AgentType
  agentTypeIndex : UInt64
  targetArch : Bytes
  eventCode : UInt64
  instanceId : UInt64
  name : Bytes
  symbol : Bytes
  description : Bytes
  longDescription : Bytes
  component : Bytes
  units : Bytes
  valueType : Bytes
  block : Bytes
  expression : Bytes
  isConstant : UInt32
  isDerived : UInt32
  extdata : Bytes

structure Thread where
  parentProcessId : Int32
  processId : Int32
  threadId : UInt64
  start : UInt32
  «end» : UInt32
  extdata : Bytes

structure Track where
  trackName : Bytes
  threadId : Option UInt64
  extdata : Bytes

structure CodeObject where
  codeObjectId : UInt64
  uri : CString
  loadBase : UInt64
  loadSize : UInt64
  loadDelta : Int64
  storageType : Int32
  agentIdHandle : UInt64

structure KernelSymbol where
  kernelId : UInt64
  codeObjectId : UInt64
  kernelName : CString
  kernelObject : UInt64
  kernargSegmentSize : UInt32
  kernargSegmentAlignment : UInt32
  groupSegmentSize : UInt32
  privateSegmentSize : UInt32
  sgprCount : UInt32
  archVgprCount : UInt32
  accumVgprCount : UInt32

structure Agent where
  type : AgentType
  handle : UInt64
  deviceId : UInt64
  nodeId : UInt32
  logicalNodeId : Int32
  logicalNodeTypeId : Int32
  name : Bytes
  modelName : Bytes
  vendorName : Bytes
  productName : Bytes
  deviceTypeIndex : UInt64 := 0
  baseId : UInt64 := 0
  agentInfo : Bytes := []

/-- What `pmc_info_equal` compares. -/
def Pmc.key (pmc : Pmc) : AgentType × UInt64 × Bytes := (pmc.type, pmc.agentTypeIndex, pmc.name)

/-! ## Conversions

Each record has its `to_json` and its `from_json`, written field by field. -/

namespace Process

def toJson (process : Process) : Json :=
  .ofFields [
    ("pid", .number process.pid.toInt),
    ("ppid", .number process.ppid.toInt),
    ("command", .string process.command),
    ("start", .number process.start.toNat),
    ("end", .number process.end.toNat)]

def fromJson (json : Json) : Option Process := do
  let pid ← json.field "pid" Json.getInt32
  let ppid ← json.field "ppid" Json.getInt32
  let command ← json.field "command" Json.getString
  let start ← json.field "start" Json.getInt32
  let «end» ← json.field "end" Json.getInt32
  return {
    pid
    ppid
    command
    start := castUInt32 start
    «end» := castUInt32 «end» }

end Process

namespace Pmc

def toJson (pmc : Pmc) : Json :=
  .ofFields [
    ("type", .number pmc.type.toNat),
    ("agent_type_index", .number (castInt pmc.agentTypeIndex.toNat)),
    ("target_arch", .string pmc.targetArch),
    ("event_code", .number (castInt pmc.eventCode.toNat)),
    ("instance_id", .number (castInt pmc.instanceId.toNat)),
    ("name", .string pmc.name),
    ("symbol", .string pmc.symbol),
    ("description", .string pmc.description),
    ("long_description", .string pmc.longDescription),
    ("component", .string pmc.component),
    ("units", .string pmc.units),
    ("value_type", .string pmc.valueType),
    ("block", .string pmc.block),
    ("expression", .string pmc.expression),
    ("is_constant", .number pmc.isConstant.toNat),
    ("is_derived", .number pmc.isDerived.toNat),
    ("extdata", .string pmc.extdata)]

def fromJson (json : Json) : Option Pmc := do
  let type ← json.field "type" Json.getInt32
  let agentTypeIndex ← json.field "agent_type_index" Json.getInt32
  let targetArch ← json.field "target_arch" Json.getString
  let eventCode ← json.field "event_code" Json.getInt32
  let instanceId ← json.field "instance_id" Json.getInt32
  let name ← json.field "name" Json.getString
  let symbol ← json.field "symbol" Json.getString
  let description ← json.field "description" Json.getString
  let longDescription ← json.field "long_description" Json.getString
  let component ← json.field "component" Json.getString
  let units ← json.field "units" Json.getString
  let valueType ← json.field "value_type" Json.getString
  let block ← json.field "block" Json.getString
  let expression ← json.field "expression" Json.getString
  let isConstant ← json.field "is_constant" Json.getInt32
  let isDerived ← json.field "is_derived" Json.getInt32
  let extdata ← json.field "extdata" Json.getString
  return {
    type := castAgentType type
    agentTypeIndex := castSize agentTypeIndex
    targetArch
    eventCode := castSize eventCode
    instanceId := castSize instanceId
    name
    symbol
    description
    longDescription
    component
    units
    valueType
    block
    expression
    isConstant := castUInt32 isConstant
    isDerived := castUInt32 isDerived
    extdata }

end Pmc

namespace Thread

def toJson (thread : Thread) : Json :=
  .ofFields [
    ("parent_process_id", .number thread.parentProcessId.toInt),
    ("process_id", .number thread.processId.toInt),
    ("thread_id", .number (castInt thread.threadId.toNat)),
    ("start", .number thread.start.toNat),
    ("end", .number thread.end.toNat),
    ("extdata", .string thread.extdata)]

def fromJson (json : Json) : Option Thread := do
  let parentProcessId ← json.field "parent_process_id" Json.getInt32
  let processId ← json.field "process_id" Json.getInt32
  let threadId ← json.field "thread_id" Json.getInt32
  let start ← json.field "start" Json.getInt32
  let «end» ← json.field "end" Json.getInt32
  let extdata ← json.field "extdata" Json.getString
  return {
    parentProcessId
    processId
    threadId := castSize threadId
    start := castUInt32 start
    «end» := castUInt32 «end»
    extdata }

end Thread

namespace Track

def toJson (track : Track) : Json :=
  .ofFields [
    ("track_name", .string track.trackName),
    ("thread_id", track.threadId.elim .null fun threadId => .number (castInt threadId.toNat)),
    ("extdata", .string track.extdata)]

def fromJson (json : Json) : Option Track := do
  let trackName ← json.field "track_name" Json.getString
  let threadId ← json.field "thread_id" (Json.getNullable Json.getInt32)
  let extdata ← json.field "extdata" Json.getString
  return {
    trackName
    threadId := threadId.map castSize
    extdata }

end Track

namespace CodeObject

def toJson (codeObject : CodeObject) : Json :=
  .ofFields [
    ("code_object_id", .number (castLongLong codeObject.codeObjectId.toNat)),
    ("uri", .string codeObject.uri.bytes),
    ("load_base", .number (castLongLong codeObject.loadBase.toNat)),
    ("load_size", .number (castLongLong codeObject.loadSize.toNat)),
    ("load_delta", .number codeObject.loadDelta.toInt),
    ("storage_type", .number codeObject.storageType.toInt),
    ("agent_id_handle", .number (castLongLong codeObject.agentIdHandle.toNat))]

def fromJson (json : Json) : Option CodeObject := do
  let codeObjectId ← json.field "code_object_id" Json.getInt64
  let uri ← json.field "uri" Json.getString
  let loadBase ← json.field "load_base" Json.getInt64
  let loadSize ← json.field "load_size" Json.getInt64
  let loadDelta ← json.field "load_delta" Json.getInt64
  let storageType ← json.field "storage_type" Json.getInt32
  let agentIdHandle ← json.field "agent_id_handle" Json.getInt64
  return {
    codeObjectId := castUInt64 codeObjectId
    uri := .store uri
    loadBase := castUInt64 loadBase
    loadSize := castUInt64 loadSize
    loadDelta
    storageType
    agentIdHandle := castUInt64 agentIdHandle }

end CodeObject

namespace KernelSymbol

def toJson (kernelSymbol : KernelSymbol) : Json :=
  .ofFields [
    ("kernel_id", .number (castLongLong kernelSymbol.kernelId.toNat)),
    ("code_object_id", .number (castLongLong kernelSymbol.codeObjectId.toNat)),
    ("kernel_name", .string kernelSymbol.kernelName.bytes),
    ("kernel_object", .number (castLongLong kernelSymbol.kernelObject.toNat)),
    ("kernarg_segment_size", .number (castInt kernelSymbol.kernargSegmentSize.toNat)),
    ("kernarg_segment_alignment", .number (castInt kernelSymbol.kernargSegmentAlignment.toNat)),
    ("group_segment_size", .number (castInt kernelSymbol.groupSegmentSize.toNat)),
    ("private_segment_size", .number (castInt kernelSymbol.privateSegmentSize.toNat)),
    ("sgpr_count", .number (castInt kernelSymbol.sgprCount.toNat)),
    ("arch_vgpr_count", .number (castInt kernelSymbol.archVgprCount.toNat)),
    ("accum_vgpr_count", .number (castInt kernelSymbol.accumVgprCount.toNat))]

def fromJson (json : Json) : Option KernelSymbol := do
  let kernelId ← json.field "kernel_id" Json.getInt64
  let codeObjectId ← json.field "code_object_id" Json.getInt64
  let kernelName ← json.field "kernel_name" Json.getString
  let kernelObject ← json.field "kernel_object" Json.getInt64
  let kernargSegmentSize ← json.field "kernarg_segment_size" Json.getInt32
  let kernargSegmentAlignment ← json.field "kernarg_segment_alignment" Json.getInt32
  let groupSegmentSize ← json.field "group_segment_size" Json.getInt32
  let privateSegmentSize ← json.field "private_segment_size" Json.getInt32
  let sgprCount ← json.field "sgpr_count" Json.getInt32
  let archVgprCount ← json.field "arch_vgpr_count" Json.getInt32
  let accumVgprCount ← json.field "accum_vgpr_count" Json.getInt32
  return {
    kernelId := castUInt64 kernelId
    codeObjectId := castUInt64 codeObjectId
    kernelName := .store kernelName
    kernelObject := castUInt64 kernelObject
    kernargSegmentSize := castUInt32 kernargSegmentSize
    kernargSegmentAlignment := castUInt32 kernargSegmentAlignment
    groupSegmentSize := castUInt32 groupSegmentSize
    privateSegmentSize := castUInt32 privateSegmentSize
    sgprCount := castUInt32 sgprCount
    archVgprCount := castUInt32 archVgprCount
    accumVgprCount := castUInt32 accumVgprCount }

end KernelSymbol

namespace Agent

def toJson (agent : Agent) : Json :=
  .ofFields [
    ("type", .number agent.type.toNat),
    ("handle", .number agent.handle.toNat),
    ("device_id", .number agent.deviceId.toNat),
    ("node_id", .number agent.nodeId.toNat),
    ("logical_node_id", .number agent.logicalNodeId.toInt),
    ("logical_node_type_id", .number agent.logicalNodeTypeId.toInt),
    ("name", .string agent.name),
    ("model_name", .string agent.modelName),
    ("vendor_name", .string agent.vendorName),
    ("product_name", .string agent.productName),
    ("device_type_index", .number agent.deviceTypeIndex.toNat)]

def fromJson (json : Json) : Option Agent := do
  let type ← json.field "type" Json.getUInt8
  let handle ← json.field "handle" Json.getUInt64
  let deviceId ← json.field "device_id" Json.getInt32
  let nodeId ← json.field "node_id" Json.getInt32
  let logicalNodeId ← json.field "logical_node_id" Json.getInt32
  let logicalNodeTypeId ← json.field "logical_node_type_id" Json.getInt32
  let name ← json.field "name" Json.getString
  let modelName ← json.field "model_name" Json.getString
  let vendorName ← json.field "vendor_name" Json.getString
  let productName ← json.field "product_name" Json.getString
  let deviceTypeIndex ← json.field "device_type_index" Json.getInt32
  return {
    type
    handle
    deviceId := castSize deviceId
    nodeId := castUInt32 nodeId
    logicalNodeId
    logicalNodeTypeId
    name
    modelName
    vendorName
    productName
    deviceTypeIndex := castSize deviceTypeIndex }

end Agent

/-- A queue or stream handle. -/
def handleToJson (handle : UInt64) : Json := .number (castLongLong handle.toNat)

def handleFromJson (json : Json) : Option UInt64 :=
  json.getInt64.map castUInt64

/-! ## The registry -/

structure MetadataRegistry where
  process : Process
  pmcInfos : KeyedSet Pmc.key
  threads : KeyedSet Thread.threadId
  tracks : KeyedSet Track.trackName
  streams : KeyedSet (id : UInt64 → UInt64)
  queues : KeyedSet (id : UInt64 → UInt64)
  strings : KeyedSet (id : Bytes → Bytes)
  codeObjects : KeyedSet CodeObject.codeObjectId
  kernelSymbols : KeyedSet KernelSymbol.kernelId

/-- A vector of `std::shared_ptr<agent>`, with `none` for a null pointer. -/
abbrev Agents := List (Option Agent)

/-- The agents behind the pointers that are not null. -/
def presentAgents (agents : Agents) : List Agent := agents.filterMap id

/-- `result[key].push_back(item)` for each item: the field appears with the first. -/
def pushBackAll (key : String) : List Json → List (String × Json)
  | [] => []
  | item :: items => [(key, .array (item :: items))]

/-- The `fill_from_json` lambda. -/
def fillFromJson {σ : Type} (json : Json) (key : String) (transformAndAdd : σ → Json → Option σ)
    (s : σ) : Option σ :=
  match json.get? key with
  | some value => value.items.foldlM transformAndAdd s
  | none => some s

namespace MetadataRegistry

/-- A registry right after its construction. -/
def empty : MetadataRegistry :=
  ⟨⟨0, 0, [], 0, 0⟩, ∅, ∅, ∅, ∅, ∅, ∅, ∅, ∅⟩

def setProcess (registry : MetadataRegistry) (process : Process) : MetadataRegistry :=
  { registry with process }

def addPmcInfo (registry : MetadataRegistry) (pmcInfo : Pmc) : MetadataRegistry :=
  { registry with pmcInfos := registry.pmcInfos.add pmcInfo }

def addThreadInfo (registry : MetadataRegistry) (threadInfo : Thread) : MetadataRegistry :=
  { registry with threads := registry.threads.add threadInfo }

def addTrack (registry : MetadataRegistry) (trackInfo : Track) : MetadataRegistry :=
  { registry with tracks := registry.tracks.add trackInfo }

def addQueue (registry : MetadataRegistry) (queueHandle : UInt64) : MetadataRegistry :=
  { registry with queues := registry.queues.add queueHandle }

def addStream (registry : MetadataRegistry) (streamHandle : UInt64) : MetadataRegistry :=
  { registry with streams := registry.streams.add streamHandle }

def addString (registry : MetadataRegistry) (stringValue : Bytes) : MetadataRegistry :=
  { registry with strings := registry.strings.add stringValue }

def addCodeObject (registry : MetadataRegistry) (codeObject : CodeObject) : MetadataRegistry :=
  { registry with codeObjects := registry.codeObjects.add codeObject }

def addKernelSymbol (registry : MetadataRegistry) (kernelSymbol : KernelSymbol) :
    MetadataRegistry :=
  { registry with kernelSymbols := registry.kernelSymbols.add kernelSymbol }

/-- The fields of the document, in the order of their assignments. -/
def fields (registry : MetadataRegistry) (agents : Agents) : List (String × Json) :=
  [("process", registry.process.toJson),
    ("pmc_infos", .array (registry.pmcInfos.entries.map Pmc.toJson)),
    ("threads", .array (registry.threads.entries.map Thread.toJson)),
    ("tracks", .array (registry.tracks.entries.map Track.toJson))] ++
  pushBackAll "queues" (registry.queues.entries.map handleToJson) ++
  pushBackAll "streams" (registry.streams.entries.map handleToJson) ++
  pushBackAll "strings" (registry.strings.entries.map Json.string) ++
  [("code_objects", .array (registry.codeObjects.entries.map CodeObject.toJson)),
    ("kernel_symbols", .array (registry.kernelSymbols.entries.map KernelSymbol.toJson))] ++
  pushBackAll "agents" ((presentAgents agents).map Agent.toJson)

def toJson (registry : MetadataRegistry) (agents : Agents) : Json :=
  .ofFields (registry.fields agents)

/-- `from_json`.  Nothing is returned when an exception leaves it. -/
def fromJson (registry : MetadataRegistry) (json : Json) : Option (MetadataRegistry × Agents) := do
  let process ← json.field "process" Process.fromJson
  let registry := registry.setProcess process
  let registry ← fillFromJson json "pmc_infos"
    (fun registry item => (Pmc.fromJson item).map registry.addPmcInfo) registry
  let registry ← fillFromJson json "threads"
    (fun registry item => (Thread.fromJson item).map registry.addThreadInfo) registry
  let registry ← fillFromJson json "tracks"
    (fun registry item => (Track.fromJson item).map registry.addTrack) registry
  let registry ← fillFromJson json "queues"
    (fun registry item => (handleFromJson item).map registry.addQueue) registry
  let registry ← fillFromJson json "streams"
    (fun registry item => (handleFromJson item).map registry.addStream) registry
  let registry ← fillFromJson json "strings"
    (fun registry item => item.getString.map registry.addString) registry
  let registry ← fillFromJson json "code_objects"
    (fun registry item => (CodeObject.fromJson item).map registry.addCodeObject) registry
  let registry ← fillFromJson json "kernel_symbols"
    (fun registry item => (KernelSymbol.fromJson item).map registry.addKernelSymbol) registry
  -- agents that the caller passed in are cleared first
  let agents ← fillFromJson json "agents"
    (fun agents item => (Agent.fromJson item).map fun agent => agents ++ [some agent]) []
  return (registry, agents)

/-! `dump` and `parse` are the JSON library's.  `none` stands for an exception, which
both operations catch and report as `false`. -/

/-- The text that `save_to_file` writes. -/
def saveToFile (dump : Json → Option Bytes) (registry : MetadataRegistry) (agents : Agents) :
    Option Bytes :=
  dump (registry.toJson agents)

/-- `load_from_file` on a file with this text. -/
def loadFromFile (parse : Bytes → Option Json) (registry : MetadataRegistry) (text : Bytes) :
    Option (MetadataRegistry × Agents) :=
  (parse text).bind registry.fromJson

end MetadataRegistry

end TraceCache
end Rocprofsys
