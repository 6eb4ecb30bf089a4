import Rocprofsys.Core.AgentManager
import Rocprofsys.CpuFreq.Frequencies
import Rocprofsys.CpuFreq.ProcessUsage
import Rocprofsys.Gpu.AmdSmiCounters
import Rocprofsys.Rocpd.Schema
import Rocprofsys.TraceCache.ArgumentString

namespace Rocprofsys
namespace Rocpd

open Base Base.Fallible
open TraceCache (Bytes CString MetadataRegistry)
open Gpu.AmdSmi (Category Metric)

/-! ## Texts -/

def text (s : String) : Bytes := s.toUTF8.toList

/-- What a callee sees of `c_str()`. -/
def cStr (bytes : Bytes) : Bytes := (CString.store bytes).bytes

/-- The default of `extdata`, and of the JSON columns of an event. -/
def noData : Bytes := text "\x7b\x7d"

/-- `trait::name` of a category. -/
def categoryName : Category → String
  | .gfxBusy => "device_busy_gfx"
  | .umcBusy => "device_busy_umc"
  | .mmBusy => "device_busy_mm"
  | .temp => "device_temp"
  | .power => "device_power"
  | .memoryUsage => "device_memory_usage"
  | .vcnActivity => "device_vcn_activity"
  | .jpegActivity => "device_jpeg_activity"
  | .xgmiLinkWidth => "device_xgmi_link_width"
  | .xgmiLinkSpeed => "device_xgmi_link_speed"
  | .xgmiReadData => "device_xgmi_read_data"
  | .xgmiWriteData => "device_xgmi_write_data"
  | .pcieLinkWidth => "device_pcie_link_width"
  | .pcieLinkSpeed => "device_pcie_link_speed"
  | .pcieBandwidthAcc => "device_pcie_bandwidth_acc"
  | .pcieBandwidthInst => "device_pcie_bandwidth_inst"

def counterName : CpuFreq.Counter → String
  | .processPage => "process_physical_memory"
  | .processVirt => "process_virtual_memory"
  | .processPeak => "process_memory_hwm"
  | .processContextSwitch => "process_context_switch"
  | .processPageFault => "process_page_fault"
  | .processUserModeTime => "process_user_cpu_time"
  | .processKernelModeTime => "process_kernel_cpu_time"

/-- The sections of a name, each behind an underscore. -/
def sections (first second : Option Nat) : Bytes :=
  (first.toList ++ second.toList).flatMap fun n => text "_" ++ decimal n

def annotateCategory (category : Category) (first second : Option Nat) : Bytes :=
  text (categoryName category) ++ sections first second

def annotateWithDeviceId (category : Category) (deviceId : UInt32) (first second : Option Nat) :
    Bytes :=
  text (categoryName category) ++ text " [" ++ decimal deviceId.toNat ++ text "]" ++
    sections first second

/-- The metrics of a vector have their indices in their names. -/
def isVector : Category → Bool
  | .vcnActivity => true
  | .jpegActivity => true
  | .xgmiReadData => true
  | .xgmiWriteData => true
  | _ => false

def pmcName (metric : Metric) : Bytes :=
  if isVector metric.category then annotateCategory metric.category metric.xcp (some metric.index)
  else text (categoryName metric.category)

def trackName (deviceId : UInt32) (metric : Metric) : Bytes :=
  if isVector metric.category then
    annotateWithDeviceId metric.category deviceId metric.xcp (some metric.index)
  else annotateWithDeviceId metric.category deviceId none none

/-- The operation and the memory type by the name of the memory operation. -/
def parsingMap : List (String × String × String) := [
  ("MEMORY_ALLOCATION_NONE", "NONE", "REAL"),
  ("MEMORY_ALLOCATION_ALLOCATE", "ALLOC", "REAL"),
  ("MEMORY_ALLOCATION_VMEM_ALLOCATE", "ALLOC", "VIRTUAL"),
  ("MEMORY_ALLOCATION_FREE", "FREE", "REAL"),
  ("MEMORY_ALLOCATION_VMEM_FREE", "FREE", "VIRTUAL"),
  ("SCRATCH_MEMORY_NONE", "NONE", "SCRATCH"),
  ("SCRATCH_MEMORY_ALLOC", "ALLOC", "SCRATCH"),
  ("SCRATCH_MEMORY_FREE", "FREE", "SCRATCH"),
  ("SCRATCH_MEMORY_ASYNC_RECLAIM", "ASYNC_RECLAIM", "SCRATCH")]

def parseMemoryOperationName (name : Bytes) : String × String :=
  match parsingMap.find? fun item => text item.1 == name with
  | some item => item.2
  | none => ("UNKNOWN", "UNKNOWN")

/-! ## rocpd_processor_t -/

/-- What the processor gets from outside: the database's row ids, the node, the names and the
threads of the SDK and of the process. -/
structure Host where
  rowId : Database → Table → Nat
  nodeId : Nat
  nodeInfo : NodeInfo
  demangle : Bytes → Bytes
  /-- `at` of the buffer names, which throws for a kind or an operation without a name. -/
  nameAt : Int32 → Int32 → Option Bytes
  bufferNames : List Bytes
  callbackNames : List Bytes
  /-- `get_start` and `get_stop` of the thread with this system id. -/
  threadTimes : UInt64 → Option (UInt64 × UInt64)
  /-- `ROCPROFILER_CONTEXT_NONE.handle`. -/
  invalidContext : UInt64
  fileStorage : Int32
  memoryStorage : Int32
  toDouble : ℚ → Double
  widen : CpuFreq.Single → Double

/-- A signed number that is passed as a `size_t`. -/
def sizeOf (n : Int32) : Nat := (TraceCache.castSize n).toNat

/-- The agents, each with the `base_id` that it got. -/
abbrev StoredAgents := List (TraceCache.Agent × Nat)

def StoredAgents.baseIdOf (stored : StoredAgents) (is : TraceCache.Agent → Bool) : Option Nat :=
  (stored.find? fun entry => is entry.1).map Prod.snd

section Processor

variable (host : Host) (registry : MetadataRegistry)

def pid : Nat := sizeOf registry.process.pid

def insertString (str : Bytes) : Inserting Nat := inserting fun d => d.insertString host.rowId str

/-- An event without ids of its own. -/
def insertEvent (columns : Event) : Inserting Nat :=
  inserting fun d => d.insertEvent host.rowId columns

/-! ### Metadata -/

def agentColumns (counter : Nat) (agent : TraceCache.Agent) : AgentInfo where
  nid := host.nodeId
  pid := pid registry
  type := text (if agent.type = Core.agentTypeGpu then "GPU" else "CPU")
  absoluteIndex := counter
  logicalIndex := sizeOf agent.logicalNodeId
  typeIndex := sizeOf agent.logicalNodeTypeId
  uuid := agent.deviceId.toNat
  name := cStr agent.name
  modelName := cStr agent.modelName
  vendorName := cStr agent.vendorName
  productName := cStr agent.productName
  userName := cStr agent.productName
  extdata := cStr agent.agentInfo

/-- The loop over the agents, with its counter. -/
def insertAgents : Nat → List TraceCache.Agent → Inserting StoredAgents
  | _, [] => pure []
  | counter, agent :: agents => do
    let baseId ← inserting fun d =>
      d.insertAgent host.rowId (agentColumns host registry counter agent)
    let stored ← insertAgents (counter + 1) agents
    return (agent, baseId) :: stored

def insertStringInfo (str : Bytes) : Inserting Unit :=
  inserting' fun d => (d.insertString host.rowId str).1

def threadColumns (thread : TraceCache.Thread) : ThreadInfo :=
  let times := match host.threadTimes thread.threadId with
    | some times => (times.1.toUInt32, times.2.toUInt32)
    | none => (thread.start, thread.end)
  { nid := host.nodeId
    ppid := sizeOf registry.process.ppid
    pid := pid registry
    tid := thread.threadId.toNat
    name := text "Thread " ++ decimal thread.threadId.toNat
    startTime := times.1.toNat
    endTime := times.2.toNat
    extdata := noData }

/-- `insert_thread_id`. -/
def insertThreadId (thread : TraceCache.Thread) : Inserting Unit :=
  inserting' fun d => (d.insertThreadInfo host.rowId (threadColumns host registry thread)).1

def insertTrackInfo (track : TraceCache.Track) : Inserting Unit := do
  let threadId ← match track.threadId with
    | some threadId => some <$> mapThreadId threadId.toNat
    | none => pure none
  inserting' fun d =>
    d.insertTrack host.rowId (cStr track.trackName) host.nodeId (pid registry) threadId noData

def storageText (storageType : Int32) : String :=
  if storageType = host.fileStorage then "FILE"
  else if storageType = host.memoryStorage then "MEMORY"
  else "UNKNOWN"

def insertCodeObjectInfo (stored : StoredAgents) (codeObject : TraceCache.CodeObject) :
    Inserting Unit := do
  let devId ← ofOption (stored.baseIdOf fun agent => agent.handle == codeObject.agentIdHandle)
  inserting' fun d => d.insertCodeObject codeObject.codeObjectId.toNat {
    nid := host.nodeId
    pid := pid registry
    agentId := devId
    uri := codeObject.uri.bytes
    loadBase := codeObject.loadBase.toNat
    loadSize := codeObject.loadSize.toNat
    loadDelta := codeObject.loadDelta.toUInt64.toNat
    storageType := text (storageText host codeObject.storageType)
    extdata := noData }

def insertKernelSymbolInfo (kernelSymbol : TraceCache.KernelSymbol) : Inserting Unit := do
  let kernelName := cStr (host.demangle kernelSymbol.kernelName.bytes)
  inserting' fun d => d.insertKernelSymbol kernelSymbol.kernelId.toNat {
    nid := host.nodeId
    pid := pid registry
    codeObjectId := kernelSymbol.codeObjectId.toNat
    kernelName := kernelSymbol.kernelName.bytes
    displayName := kernelName
    kernelObject := kernelSymbol.kernelObject.toUInt32
    kernargSegmentSize := kernelSymbol.kernargSegmentSize
    kernargSegmentAlignment := kernelSymbol.kernargSegmentAlignment
    groupSegmentSize := kernelSymbol.groupSegmentSize
    privateSegmentSize := kernelSymbol.privateSegmentSize
    sgprCount := kernelSymbol.sgprCount
    archVgprCount := kernelSymbol.archVgprCount
    accumVgprCount := kernelSymbol.accumVgprCount
    extdata := noData }
  insertStringInfo host kernelName

def insertQueueInfo (handle : UInt64) : Inserting Unit :=
  inserting' fun d => d.insertQueueInfo handle.toNat
    ⟨host.nodeId, pid registry, text "Queue " ++ decimal handle.toNat, noData⟩

def insertStreamInfo (handle : UInt64) : Inserting Unit :=
  inserting' fun d => d.insertStreamInfo handle.toNat
    ⟨host.nodeId, pid registry, text "Stream " ++ decimal handle.toNat, noData⟩

def insertPmcInfo (stored : StoredAgents) (pmc : TraceCache.Pmc) : Inserting Unit := do
  let agentPrimaryKey ← ofOption (stored.baseIdOf fun agent =>
    agent.type == pmc.type && agent.deviceTypeIndex == pmc.agentTypeIndex)
  inserting' fun d => d.insertPmcDescription host.rowId {
    nid := host.nodeId
    pid := pid registry
    agentId := agentPrimaryKey
    targetArch := cStr pmc.targetArch
    eventCode := pmc.eventCode.toNat
    instanceId := pmc.instanceId.toNat
    name := cStr pmc.name
    symbol := cStr pmc.symbol
    description := cStr pmc.description
    longDescription := cStr pmc.longDescription
    component := cStr pmc.component
    units := cStr pmc.units
    valueType := cStr pmc.valueType
    block := cStr pmc.block
    expression := cStr pmc.expression
    isConstant := pmc.isConstant
    isDerived := pmc.isDerived
    extdata := noData }

def processColumns : ProcessInfo where
  nid := host.nodeId
  ppid := sizeOf registry.process.ppid
  pid := pid registry
  init := 0
  fini := 0
  startTime := registry.process.start.toNat
  endTime := registry.process.end.toNat
  command := cStr registry.process.command
  environment := noData
  extdata := noData

/-- The loops of `post_process_metadata` behind that over the agents. -/
def insertRegistry (stored : StoredAgents) : Inserting Unit := do
  each (fun str => insertStringInfo host (cStr str)) registry.strings.entries
  each (insertThreadId host registry) registry.threads.entries
  each (insertTrackInfo host registry) registry.tracks.entries
  each (insertCodeObjectInfo host registry stored) registry.codeObjects.entries
  each (insertKernelSymbolInfo host registry) registry.kernelSymbols.entries
  each (insertQueueInfo host registry) registry.queues.entries
  each (insertStreamInfo host registry) registry.streams.entries
  each (insertStringInfo host) host.bufferNames
  each (insertStringInfo host) host.callbackNames
  each (insertPmcInfo host registry stored) registry.pmcInfos.entries

def postProcessMetadata (agents : List TraceCache.Agent) : Inserting StoredAgents := do
  inserting' fun d => d.insertNodeInfo host.nodeId host.nodeInfo
  inserting' fun d => d.insertProcessInfo (processColumns host registry)
  let stored ← insertAgents host registry 0 agents
  insertRegistry host registry stored
  return stored

/-! ### Samples -/

section Handle

variable (stored : StoredAgents)

def baseIdByHandle (handle : UInt64) : Inserting Nat :=
  ofOption (stored.baseIdOf fun agent => agent.handle == handle)

def dispatchColumns (kds : TraceCache.KernelDispatchSample)
    (threadPrimaryKey agentPrimaryKey regionNamePrimaryKey eventId : Nat) : KernelDispatch where
  nid := host.nodeId
  pid := pid registry
  tid := threadPrimaryKey
  agentId := agentPrimaryKey
  kernelId := kds.kernelId.toNat
  dispatchId := kds.dispatchId.toNat
  queueId := kds.queueIdHandle.toNat
  streamId := kds.streamHandle.toNat
  startTime := kds.startTimestamp.toNat
  endTime := kds.endTimestamp.toNat
  privateSegmentSize := kds.privateSegmentSize.toNat
  groupSegmentSize := kds.groupSegmentSize.toNat
  workgroupSizeX := kds.workgroupSizeX.toNat
  workgroupSizeY := kds.workgroupSizeY.toNat
  workgroupSizeZ := kds.workgroupSizeZ.toNat
  gridSizeX := kds.gridSizeX.toNat
  gridSizeY := kds.gridSizeY.toNat
  gridSizeZ := kds.gridSizeZ.toNat
  regionNameId := regionNamePrimaryKey
  eventId
  extdata := noData

def handleKernelDispatch (kds : TraceCache.KernelDispatchSample) : Inserting Unit := do
  let agentPrimaryKey ← baseIdByHandle stored kds.agentIdHandle
  let threadPrimaryKey ← mapThreadId kds.threadId.toNat
  let categoryId ← insertString host (text "rocm_kernel_dispatch")
  -- "Kernel symbol is missing for kernel dispatch"
  let kernelSymbol ← ofOption
    (registry.kernelSymbols.entries.find? fun symbol => symbol.kernelId == kds.kernelId)
  let regionNamePrimaryKey ← insertString host (cStr (host.demangle kernelSymbol.kernelName.bytes))
  let eventId ← insertEvent host ⟨categoryId, kds.correlationIdInternal.toNat,
    kds.correlationIdAncestor.toNat, 0, noData, noData, noData⟩
  inserting' fun d => d.insertKernelDispatch host.rowId (dispatchColumns host registry kds
    threadPrimaryKey agentPrimaryKey regionNamePrimaryKey eventId)

def scratchColumns (sms : TraceCache.ScratchMemorySample) (name : Bytes)
    (threadPrimaryKey agentPrimaryKey eventPrimaryKey : Nat) : MemoryAllocate :=
  let operation := parseMemoryOperationName name
  { nid := host.nodeId
    pid := pid registry
    tid := threadPrimaryKey
    agentId := some agentPrimaryKey
    type := text operation.1
    level := text operation.2
    startTime := sms.startTimestamp.toNat
    endTime := sms.endTimestamp.toNat
    address := 0
    size := sms.allocationSize.toNat
    queueId := sms.queueIdHandle.toNat
    streamId := sms.streamHandle.toNat
    eventId := eventPrimaryKey
    extdata := text "\x7b\"flags\": " ++ printNumber (.signed sms.flags.toInt64) ++ text "\x7d" }

def handleScratchMemory (sms : TraceCache.ScratchMemorySample) : Inserting Unit := do
  let name ← ofOption (host.nameAt sms.kind sms.operation)
  let agentPrimaryKey ← baseIdByHandle stored sms.agentIdHandle
  let threadPrimaryKey ← mapThreadId sms.threadId.toNat
  let categoryPrimaryKey ← insertString host (text "rocm_scratch_memory")
  let eventPrimaryKey ← insertEvent host ⟨categoryPrimaryKey, sms.correlationIdInternal.toNat,
    sms.correlationIdAncestor.toNat, 0, noData, noData, noData⟩
  inserting' fun d => d.insertMemoryAlloc host.rowId (scratchColumns host registry sms name
    threadPrimaryKey agentPrimaryKey eventPrimaryKey)

def copyColumns (mcs : TraceCache.MemoryCopySample)
    (threadPrimaryKey namePrimaryKey dstAgentPrimaryKey srcAgentPrimaryKey eventPrimaryKey : Nat) :
    MemoryCopy where
  nid := host.nodeId
  pid := pid registry
  tid := threadPrimaryKey
  startTime := mcs.startTimestamp.toNat
  endTime := mcs.endTimestamp.toNat
  nameId := namePrimaryKey
  dstAgentId := dstAgentPrimaryKey
  dstAddress := mcs.dstAddressValue.toNat
  srcAgentId := srcAgentPrimaryKey
  srcAddress := mcs.srcAddressValue.toNat
  size := mcs.bytes.toNat
  queueId := 0
  streamId := mcs.streamHandle.toNat
  regionNameId := namePrimaryKey
  eventId := eventPrimaryKey
  extdata := noData

def handleMemoryCopy (mcs : TraceCache.MemoryCopySample) : Inserting Unit := do
  let name ← ofOption (host.nameAt mcs.kind mcs.operation)
  let namePrimaryKey ← insertString host name
  let categoryPrimaryKey ← insertString host (text "rocm_memory_copy")
  let threadPrimaryKey ← mapThreadId mcs.threadId.toNat
  let dstAgentPrimaryKey ← baseIdByHandle stored mcs.dstAgentIdHandle
  let srcAgentPrimaryKey ← baseIdByHandle stored mcs.srcAgentIdHandle
  let eventPrimaryKey ← insertEvent host ⟨categoryPrimaryKey, mcs.correlationIdInternal.toNat,
    mcs.correlationIdAncestor.toNat, 0, noData, noData, noData⟩
  inserting' fun d => d.insertMemoryCopy host.rowId (copyColumns host registry mcs
    threadPrimaryKey namePrimaryKey dstAgentPrimaryKey srcAgentPrimaryKey eventPrimaryKey)

def allocateColumns (mas : TraceCache.MemoryAllocateSample) (name : Bytes)
    (threadPrimaryKey agentPrimaryKey eventPrimaryKey : Nat) : MemoryAllocate :=
  let operation := parseMemoryOperationName name
  { nid := host.nodeId
    pid := pid registry
    tid := threadPrimaryKey
    agentId := some agentPrimaryKey
    type := text operation.1
    level := text operation.2
    startTime := mas.startTimestamp.toNat
    endTime := mas.endTimestamp.toNat
    address := mas.addressValue.toNat
    size := mas.allocationSize.toNat
    queueId := 0
    streamId := mas.streamHandle.toNat
    eventId := eventPrimaryKey
    extdata := noData }

def handleMemoryAllocate (mas : TraceCache.MemoryAllocateSample) : Inserting Unit := do
  let threadPrimaryKey ← mapThreadId mas.threadId.toNat
  if mas.agentIdHandle = host.invalidContext then return
  let agentPrimaryKey ← baseIdByHandle stored mas.agentIdHandle
  let name ← ofOption (host.nameAt mas.kind mas.operation)
  let categoryPrimaryKey ← insertString host (text "rocm_memory_allocate")
  let eventPrimaryKey ← insertEvent host ⟨categoryPrimaryKey, mas.correlationIdInternal.toNat,
    mas.correlationIdAncestor.toNat, 0, noData, noData, noData⟩
  inserting' fun d => d.insertMemoryAlloc host.rowId (allocateColumns host registry mas name
    threadPrimaryKey agentPrimaryKey eventPrimaryKey)

def regionColumns (threadPrimaryKey startTime endTime namePrimaryKey eventPrimaryKey : Nat) :
    Region :=
  ⟨host.nodeId, pid registry, threadPrimaryKey, startTime, endTime, namePrimaryKey,
    eventPrimaryKey, noData⟩

def insertRegion (threadPrimaryKey startTime endTime namePrimaryKey eventPrimaryKey : Nat) :
    Inserting Unit :=
  inserting' fun d => d.insertRegion host.rowId (regionColumns host registry threadPrimaryKey
    startTime endTime namePrimaryKey eventPrimaryKey)

def argColumns (eventPrimaryKey : Nat) (arg : TraceCache.ArgumentInfo) : Arg :=
  ⟨eventPrimaryKey, arg.argNumber.toNat, cStr arg.argType, cStr arg.argName, cStr arg.argValue,
    noData⟩

def handleRegion (rs : TraceCache.RegionSample) : Inserting Unit := do
  let threadPrimaryKey ← mapThreadId rs.threadId.toNat
  let namePrimaryKey ← insertString host (cStr rs.name)
  let categoryPrimaryKey ← insertString host (cStr rs.category)
  let eventPrimaryKey ← insertEvent host ⟨categoryPrimaryKey, rs.correlationIdInternal.toNat,
    rs.correlationIdAncestor.toNat, 0, cStr rs.callStack, noData, noData⟩
  let args ← ofOption (TraceCache.processArgumentsString rs.argsStr).toOption
  each (fun arg => inserting' fun d => d.insertArgs host.rowId (argColumns eventPrimaryKey arg)) args
  insertRegion host registry threadPrimaryKey rs.startTimestamp.toNat rs.endTimestamp.toNat
    namePrimaryKey eventPrimaryKey

def insertSample (track : Bytes) (timestamp eventId : Nat) : Inserting Unit :=
  inserting' fun d => d.insertSample host.rowId track timestamp eventId noData

def handleBacktraceRegion (bts : TraceCache.BacktraceRegionSample) : Inserting Unit := do
  let threadPrimaryKey ← mapThreadId bts.threadId.toNat
  let namePrimaryKey ← insertString host (cStr bts.name)
  let categoryPrimaryKey ← insertString host (cStr bts.category)
  let eventPrimaryKey ← insertEvent host
    ⟨categoryPrimaryKey, 0, 0, 0, cStr bts.callStack, cStr bts.lineInfo, cStr bts.extdata⟩
  insertRegion host registry threadPrimaryKey bts.startTimestamp.toNat bts.endTimestamp.toNat
    namePrimaryKey eventPrimaryKey
  insertSample host (cStr bts.trackName) bts.startTimestamp.toNat eventPrimaryKey

def handleInTime (its : TraceCache.InTimeSample) : Inserting Unit := do
  let trackPrimaryKey ← insertString host (cStr its.trackName)
  let eventId ← insertEvent host
    ⟨trackPrimaryKey, its.stackId.toNat, its.parentStackId.toNat, its.correlationId.toNat,
      cStr its.callStack, cStr its.lineInfo, cStr its.eventMetadata⟩
  insertSample host (cStr its.trackName) its.timestampNs.toNat eventId

def insertPmcEvent (eventId agentId : Nat) (name : Bytes) (value : Double) : Inserting Unit :=
  inserting' fun d => d.insertPmcEvent host.rowId eventId agentId name value noData

def handlePmcEventWith (pmc : TraceCache.PmcEventWithSample) : Inserting Unit := do
  let trackPrimaryKey ← insertString host (cStr pmc.trackName)
  let agentPrimaryKey ← ofOption (stored.baseIdOf fun agent =>
    agent.type == pmc.deviceType && agent.deviceId == pmc.deviceId.toUInt64)
  let eventId ← insertEvent host
    ⟨trackPrimaryKey, pmc.stackId.toNat, pmc.parentStackId.toNat, pmc.correlationId.toNat,
      cStr pmc.callStack, cStr pmc.lineInfo, cStr pmc.eventMetadata⟩
  insertSample host (cStr pmc.trackName) pmc.timestampNs.toNat eventId
  insertPmcEvent host eventId agentPrimaryKey (cStr pmc.pmcInfoName) ⟨pmc.value.bits⟩

/-- `insert_event_and_sample` of both counter handlers. -/
def insertEventAndSample (eventId baseId timestamp : Nat) (pmc track : Bytes) (value : Double) :
    Inserting Unit := do
  insertPmcEvent host eventId baseId pmc value
  insertSample host track timestamp eventId

def handleAmdSmi (amdSmi : TraceCache.AmdSmiSample) : Inserting Unit := do
  let namePrimaryKey ← insertString host (text "amd_smi")
  let eventId ← insertEvent host ⟨namePrimaryKey, 0, 0, 0, noData, noData, noData⟩
  let baseId ← ofOption (stored.baseIdOf fun agent =>
    agent.type == Core.agentTypeGpu && agent.deviceTypeIndex == amdSmi.deviceId.toUInt64)
  let values ← ofOption (Gpu.AmdSmi.insertedSamples amdSmi)
  each (fun value : Metric × ℚ => insertEventAndSample host eventId baseId
    amdSmi.timestamp.toNat (pmcName value.1) (trackName amdSmi.deviceId value.1)
    (host.toDouble value.2)) values

def handleCpuFreq (cpuFreq : TraceCache.CpuFreqSample) : Inserting Unit := do
  let namePrimaryKey ← insertString host (text "cpu_frequency")
  let eventId ← insertEvent host ⟨namePrimaryKey, 0, 0, 0, noData, noData, noData⟩
  let baseId ← ofOption (stored.baseIdOf fun agent =>
    agent.type == Core.agentTypeCpu && agent.deviceTypeIndex == 0)
  each (fun value : CpuFreq.Counter × ℚ => insertEventAndSample host eventId baseId
    cpuFreq.timestamp.toNat (text (counterName value.1)) (text (counterName value.1))
    (host.toDouble value.2)) (CpuFreq.rocpdHandle cpuFreq)
  each (fun core : CpuFreq.CoreFreqSample =>
    let name := text "cpu_frequency [" ++ decimal core.id.toNat ++ text "]"
    insertEventAndSample host eventId baseId cpuFreq.timestamp.toNat name name
      (host.widen core.value)) (CpuFreq.deserializeFreqs cpuFreq.freqs.elements)

def handle : TraceCache.Sample → Inserting Unit
  | .kernelDispatch item => handleKernelDispatch host registry stored item
  | .scratchMemory item => handleScratchMemory host registry stored item
  | .memoryCopy item => handleMemoryCopy host registry stored item
  | .memoryAllocate item => handleMemoryAllocate host registry stored item
  | .region item => handleRegion host registry item
  | .inTime item => handleInTime host item
  | .pmcEventWith item => handlePmcEventWith host stored item
  | .amdSmi item => handleAmdSmi host stored item
  | .cpuFreq item => handleCpuFreq host stored item
  | .backtraceRegion item => handleBacktraceRegion host registry item

end Handle

/-- `prepare_for_processing`, and the samples as the parser hands them over. The functions that
the coordinator calls are `noexcept`: what is thrown ends the process. -/
def process (agents : List TraceCache.Agent) (samples : List TraceCache.Sample) :
    Inserting Unit := do
  let stored ← postProcessMetadata host registry agents
  each (handle host registry stored) samples

end Processor

end Rocpd
end Rocprofsys
