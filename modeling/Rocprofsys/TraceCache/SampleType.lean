import Rocprofsys.TraceCache.Cacheable

namespace Rocprofsys
namespace TraceCache

open Base

/-- `type_identifier_t`. -/
inductive TypeIdentifier where
  | inTimeSample
  | pmcEventWithSample
  | region
  | kernelDispatch
  | memoryCopy
  | memoryAlloc
  | amdSmiSample
  | cpuFreqSample
  | backtraceRegionSample
  | scratchMemory
  | fragmentedSpace
  deriving DecidableEq, Repr

/-- The enumerator's value. -/
def TypeIdentifier.value : TypeIdentifier → Nat
  | .inTimeSample => 0x0000
  | .pmcEventWithSample => 0x0001
  | .region => 0x0002
  | .kernelDispatch => 0x0003
  | .memoryCopy => 0x0004
  | .memoryAlloc => 0x0005
  | .amdSmiSample => 0x0006
  | .cpuFreqSample => 0x0007
  | .backtraceRegionSample => 0x0008
  | .scratchMemory => 0x0009
  | .fragmentedSpace => 0xFFFF

/- Each sample type lists its fields three times, in `serialize`, `deserialize`
and `get_size`.  The three lists are kept apart here as they are in the source.
`containers` collects the fields of unbounded length, and `layout` the widths
that `deserialize` steps over. -/

/-! ## KernelDispatchSample -/

structure KernelDispatchSample where
  startTimestamp : UInt64
  endTimestamp : UInt64
  threadId : UInt64
  agentIdHandle : UInt64
  kernelId : UInt64
  dispatchId : UInt64
  queueIdHandle : UInt64
  correlationIdInternal : UInt64
  correlationIdAncestor : UInt64
  privateSegmentSize : UInt32
  groupSegmentSize : UInt32
  workgroupSizeX : UInt32
  workgroupSizeY : UInt32
  workgroupSizeZ : UInt32
  gridSizeX : UInt32
  gridSizeY : UInt32
  gridSizeZ : UInt32
  streamHandle : UInt64
  deriving DecidableEq, Repr

namespace KernelDispatchSample

def serialize (item : KernelDispatchSample) : Bytes :=
  storeValues [storeValue item.startTimestamp, storeValue item.endTimestamp,
    storeValue item.threadId, storeValue item.agentIdHandle, storeValue item.kernelId,
    storeValue item.dispatchId, storeValue item.queueIdHandle,
    storeValue item.correlationIdInternal, storeValue item.correlationIdAncestor,
    storeValue item.privateSegmentSize, storeValue item.groupSegmentSize,
    storeValue item.workgroupSizeX, storeValue item.workgroupSizeY,
    storeValue item.workgroupSizeZ, storeValue item.gridSizeX, storeValue item.gridSizeY,
    storeValue item.gridSizeZ, storeValue item.streamHandle]

def deserialize : Reader KernelDispatchSample := do
  let startTimestamp : UInt64 ← parseValue
  let endTimestamp : UInt64 ← parseValue
  let threadId : UInt64 ← parseValue
  let agentIdHandle : UInt64 ← parseValue
  let kernelId : UInt64 ← parseValue
  let dispatchId : UInt64 ← parseValue
  let queueIdHandle : UInt64 ← parseValue
  let correlationIdInternal : UInt64 ← parseValue
  let correlationIdAncestor : UInt64 ← parseValue
  let privateSegmentSize : UInt32 ← parseValue
  let groupSegmentSize : UInt32 ← parseValue
  let workgroupSizeX : UInt32 ← parseValue
  let workgroupSizeY : UInt32 ← parseValue
  let workgroupSizeZ : UInt32 ← parseValue
  let gridSizeX : UInt32 ← parseValue
  let gridSizeY : UInt32 ← parseValue
  let gridSizeZ : UInt32 ← parseValue
  let streamHandle : UInt64 ← parseValue
  return ⟨startTimestamp, endTimestamp, threadId, agentIdHandle, kernelId, dispatchId,
    queueIdHandle, correlationIdInternal, correlationIdAncestor, privateSegmentSize,
    groupSegmentSize, workgroupSizeX, workgroupSizeY, workgroupSizeZ, gridSizeX, gridSizeY,
    gridSizeZ, streamHandle⟩

def getSize (item : KernelDispatchSample) : Nat :=
  getSizes [Supported.getSize item.startTimestamp, Supported.getSize item.endTimestamp,
    Supported.getSize item.threadId, Supported.getSize item.agentIdHandle,
    Supported.getSize item.kernelId, Supported.getSize item.dispatchId,
    Supported.getSize item.queueIdHandle, Supported.getSize item.correlationIdInternal,
    Supported.getSize item.correlationIdAncestor, Supported.getSize item.privateSegmentSize,
    Supported.getSize item.groupSegmentSize, Supported.getSize item.workgroupSizeX,
    Supported.getSize item.workgroupSizeY, Supported.getSize item.workgroupSizeZ,
    Supported.getSize item.gridSizeX, Supported.getSize item.gridSizeY,
    Supported.getSize item.gridSizeZ, Supported.getSize item.streamHandle]

def containers (_ : KernelDispatchSample) : List Bytes :=
  []

def layout : List Field :=
  [.fixed 8, .fixed 8, .fixed 8, .fixed 8, .fixed 8, .fixed 8, .fixed 8, .fixed 8, .fixed 8,
    .fixed 4, .fixed 4, .fixed 4, .fixed 4, .fixed 4, .fixed 4, .fixed 4, .fixed 4, .fixed 8]

end KernelDispatchSample

/-! ## ScratchMemorySample -/

structure ScratchMemorySample where
  startTimestamp : UInt64
  endTimestamp : UInt64
  threadId : UInt64
  agentIdHandle : UInt64
  queueIdHandle : UInt64
  kind : Int32
  operation : Int32
  flags : Int32
  allocationSize : UInt64
  correlationIdInternal : UInt64
  correlationIdAncestor : UInt64
  streamHandle : UInt64
  deriving DecidableEq, Repr

namespace ScratchMemorySample

def serialize (item : ScratchMemorySample) : Bytes :=
  storeValues [storeValue item.startTimestamp, storeValue item.endTimestamp,
    storeValue item.threadId, storeValue item.agentIdHandle, storeValue item.queueIdHandle,
    storeValue item.kind, storeValue item.operation, storeValue item.flags,
    storeValue item.allocationSize, storeValue item.correlationIdInternal,
    storeValue item.correlationIdAncestor, storeValue item.streamHandle]

def deserialize : Reader ScratchMemorySample := do
  let startTimestamp : UInt64 ← parseValue
  let endTimestamp : UInt64 ← parseValue
  let threadId : UInt64 ← parseValue
  let agentIdHandle : UInt64 ← parseValue
  let queueIdHandle : UInt64 ← parseValue
  let kind : Int32 ← parseValue
  let operation : Int32 ← parseValue
  let flags : Int32 ← parseValue
  let allocationSize : UInt64 ← parseValue
  let correlationIdInternal : UInt64 ← parseValue
  let correlationIdAncestor : UInt64 ← parseValue
  let streamHandle : UInt64 ← parseValue
  return ⟨startTimestamp, endTimestamp, threadId, agentIdHandle, queueIdHandle, kind, operation,
    flags, allocationSize, correlationIdInternal, correlationIdAncestor, streamHandle⟩

def getSize (item : ScratchMemorySample) : Nat :=
  getSizes [Supported.getSize item.startTimestamp, Supported.getSize item.endTimestamp,
    Supported.getSize item.threadId, Supported.getSize item.agentIdHandle,
    Supported.getSize item.queueIdHandle, Supported.getSize item.kind,
    Supported.getSize item.operation, Supported.getSize item.flags,
    Supported.getSize item.allocationSize, Supported.getSize item.correlationIdInternal,
    Supported.getSize item.correlationIdAncestor, Supported.getSize item.streamHandle]

def containers (_ : ScratchMemorySample) : List Bytes :=
  []

def layout : List Field :=
  [.fixed 8, .fixed 8, .fixed 8, .fixed 8, .fixed 8, .fixed 4, .fixed 4, .fixed 4, .fixed 8,
    .fixed 8, .fixed 8, .fixed 8]

end ScratchMemorySample

/-! ## MemoryCopySample -/

structure MemoryCopySample where
  startTimestamp : UInt64
  endTimestamp : UInt64
  threadId : UInt64
  dstAgentIdHandle : UInt64
  srcAgentIdHandle : UInt64
  kind : Int32
  operation : Int32
  bytes : UInt64
  correlationIdInternal : UInt64
  correlationIdAncestor : UInt64
  dstAddressValue : UInt64
  srcAddressValue : UInt64
  streamHandle : UInt64
  deriving DecidableEq, Repr

namespace MemoryCopySample

def serialize (item : MemoryCopySample) : Bytes :=
  storeValues [storeValue item.startTimestamp, storeValue item.endTimestamp,
    storeValue item.threadId, storeValue item.dstAgentIdHandle,
    storeValue item.srcAgentIdHandle, storeValue item.kind, storeValue item.operation,
    storeValue item.bytes, storeValue item.correlationIdInternal,
    storeValue item.correlationIdAncestor, storeValue item.dstAddressValue,
    storeValue item.srcAddressValue, storeValue item.streamHandle]

def deserialize : Reader MemoryCopySample := do
  let startTimestamp : UInt64 ← parseValue
  let endTimestamp : UInt64 ← parseValue
  let threadId : UInt64 ← parseValue
  let dstAgentIdHandle : UInt64 ← parseValue
  let srcAgentIdHandle : UInt64 ← parseValue
  let kind : Int32 ← parseValue
  let operation : Int32 ← parseValue
  let bytes : UInt64 ← parseValue
  let correlationIdInternal : UInt64 ← parseValue
  let correlationIdAncestor : UInt64 ← parseValue
  let dstAddressValue : UInt64 ← parseValue
  let srcAddressValue : UInt64 ← parseValue
  let streamHandle : UInt64 ← parseValue
  return ⟨startTimestamp, endTimestamp, threadId, dstAgentIdHandle, srcAgentIdHandle, kind,
    operation, bytes, correlationIdInternal, correlationIdAncestor, dstAddressValue,
    srcAddressValue, streamHandle⟩

def getSize (item : MemoryCopySample) : Nat :=
  getSizes [Supported.getSize item.startTimestamp, Supported.getSize item.endTimestamp,
    Supported.getSize item.threadId, Supported.getSize item.dstAgentIdHandle,
    Supported.getSize item.srcAgentIdHandle, Supported.getSize item.kind,
    Supported.getSize item.operation, Supported.getSize item.bytes,
    Supported.getSize item.correlationIdInternal, Supported.getSize item.correlationIdAncestor,
    Supported.getSize item.dstAddressValue, Supported.getSize item.srcAddressValue,
    Supported.getSize item.streamHandle]

def containers (_ : MemoryCopySample) : List Bytes :=
  []

def layout : List Field :=
  [.fixed 8, .fixed 8, .fixed 8, .fixed 8, .fixed 8, .fixed 4, .fixed 4, .fixed 8, .fixed 8,
    .fixed 8, .fixed 8, .fixed 8, .fixed 8]

end MemoryCopySample

/-! ## MemoryAllocateSample -/

structure MemoryAllocateSample where
  startTimestamp : UInt64
  endTimestamp : UInt64
  threadId : UInt64
  agentIdHandle : UInt64
  kind : Int32
  operation : Int32
  allocationSize : UInt64
  correlationIdInternal : UInt64
  correlationIdAncestor : UInt64
  addressValue : UInt64
  streamHandle : UInt64
  deriving DecidableEq, Repr

namespace MemoryAllocateSample

def serialize (item : MemoryAllocateSample) : Bytes :=
  storeValues [storeValue item.startTimestamp, storeValue item.endTimestamp,
    storeValue item.threadId, storeValue item.agentIdHandle, storeValue item.kind,
    storeValue item.operation, storeValue item.allocationSize,
    storeValue item.correlationIdInternal, storeValue item.correlationIdAncestor,
    storeValue item.addressValue, storeValue item.streamHandle]

def deserialize : Reader MemoryAllocateSample := do
  let startTimestamp : UInt64 ← parseValue
  let endTimestamp : UInt64 ← parseValue
  let threadId : UInt64 ← parseValue
  let agentIdHandle : UInt64 ← parseValue
  let kind : Int32 ← parseValue
  let operation : Int32 ← parseValue
  let allocationSize : UInt64 ← parseValue
  let correlationIdInternal : UInt64 ← parseValue
  let correlationIdAncestor : UInt64 ← parseValue
  let addressValue : UInt64 ← parseValue
  let streamHandle : UInt64 ← parseValue
  return ⟨startTimestamp, endTimestamp, threadId, agentIdHandle, kind, operation,
    allocationSize, correlationIdInternal, correlationIdAncestor, addressValue, streamHandle⟩

def getSize (item : MemoryAllocateSample) : Nat :=
  getSizes [Supported.getSize item.startTimestamp, Supported.getSize item.endTimestamp,
    Supported.getSize item.threadId, Supported.getSize item.agentIdHandle,
    Supported.getSize item.kind, Supported.getSize item.operation,
    Supported.getSize item.allocationSize, Supported.getSize item.correlationIdInternal,
    Supported.getSize item.correlationIdAncestor, Supported.getSize item.addressValue,
    Supported.getSize item.streamHandle]

def containers (_ : MemoryAllocateSample) : List Bytes :=
  []

def layout : List Field :=
  [.fixed 8, .fixed 8, .fixed 8, .fixed 8, .fixed 4, .fixed 4, .fixed 8, .fixed 8, .fixed 8,
    .fixed 8, .fixed 8]

end MemoryAllocateSample

/-! ## RegionSample -/

structure RegionSample where
  threadId : UInt64
  name : Bytes
  correlationIdInternal : UInt64
  correlationIdAncestor : UInt64
  startTimestamp : UInt64
  endTimestamp : UInt64
  callStack : Bytes
  argsStr : Bytes
  category : Bytes
  deriving DecidableEq, Repr

namespace RegionSample

def serialize (item : RegionSample) : Bytes :=
  storeValues [storeValue item.threadId, storeValue item.name,
    storeValue item.correlationIdInternal, storeValue item.correlationIdAncestor,
    storeValue item.startTimestamp, storeValue item.endTimestamp, storeValue item.callStack,
    storeValue item.argsStr, storeValue item.category]

def deserialize : Reader RegionSample := do
  let threadId : UInt64 ← parseValue
  let name : Bytes ← parseValue
  let correlationIdInternal : UInt64 ← parseValue
  let correlationIdAncestor : UInt64 ← parseValue
  let startTimestamp : UInt64 ← parseValue
  let endTimestamp : UInt64 ← parseValue
  let callStack : Bytes ← parseValue
  let argsStr : Bytes ← parseValue
  let category : Bytes ← parseValue
  return ⟨threadId, name, correlationIdInternal, correlationIdAncestor, startTimestamp,
    endTimestamp, callStack, argsStr, category⟩

def getSize (item : RegionSample) : Nat :=
  getSizes [Supported.getSize item.threadId, Supported.getSize item.name,
    Supported.getSize item.correlationIdInternal, Supported.getSize item.correlationIdAncestor,
    Supported.getSize item.startTimestamp, Supported.getSize item.endTimestamp,
    Supported.getSize item.callStack, Supported.getSize item.argsStr,
    Supported.getSize item.category]

def containers (item : RegionSample) : List Bytes :=
  [item.name, item.callStack, item.argsStr, item.category]

def layout : List Field :=
  [.fixed 8, .counted 8, .fixed 8, .fixed 8, .fixed 8, .fixed 8, .counted 8, .counted 8,
    .counted 8]

end RegionSample

/-! ## InTimeSample -/

structure InTimeSample where
  categoryEnumId : UInt64
  trackName : Bytes
  timestampNs : UInt64
  eventMetadata : Bytes
  stackId : UInt64
  parentStackId : UInt64
  correlationId : UInt64
  callStack : Bytes
  lineInfo : Bytes
  deriving DecidableEq, Repr

namespace InTimeSample

def serialize (item : InTimeSample) : Bytes :=
  storeValues [storeValue item.categoryEnumId, storeValue item.trackName,
    storeValue item.timestampNs, storeValue item.eventMetadata, storeValue item.stackId,
    storeValue item.parentStackId, storeValue item.correlationId, storeValue item.callStack,
    storeValue item.lineInfo]

def deserialize : Reader InTimeSample := do
  let categoryEnumId : UInt64 ← parseValue
  let trackName : Bytes ← parseValue
  let timestampNs : UInt64 ← parseValue
  let eventMetadata : Bytes ← parseValue
  let stackId : UInt64 ← parseValue
  let parentStackId : UInt64 ← parseValue
  let correlationId : UInt64 ← parseValue
  let callStack : Bytes ← parseValue
  let lineInfo : Bytes ← parseValue
  return ⟨categoryEnumId, trackName, timestampNs, eventMetadata, stackId, parentStackId,
    correlationId, callStack, lineInfo⟩

def getSize (item : InTimeSample) : Nat :=
  getSizes [Supported.getSize item.categoryEnumId, Supported.getSize item.trackName,
    Supported.getSize item.timestampNs, Supported.getSize item.eventMetadata,
    Supported.getSize item.stackId, Supported.getSize item.parentStackId,
    Supported.getSize item.correlationId, Supported.getSize item.callStack,
    Supported.getSize item.lineInfo]

def containers (item : InTimeSample) : List Bytes :=
  [item.trackName, item.eventMetadata, item.callStack, item.lineInfo]

def layout : List Field :=
  [.fixed 8, .counted 8, .fixed 8, .counted 8, .fixed 8, .fixed 8, .fixed 8, .counted 8,
    .counted 8]

end InTimeSample

/-! ## PmcEventWithSample -/

structure PmcEventWithSample extends InTimeSample where
  deviceId : UInt32
  deviceType : UInt8
  pmcInfoName : Bytes
  value : Double
  deriving DecidableEq, Repr

namespace PmcEventWithSample

def serialize (item : PmcEventWithSample) : Bytes :=
  storeValues [storeValue item.categoryEnumId, storeValue item.trackName,
    storeValue item.timestampNs, storeValue item.eventMetadata, storeValue item.stackId,
    storeValue item.parentStackId, storeValue item.correlationId, storeValue item.callStack,
    storeValue item.lineInfo, storeValue item.deviceId, storeValue item.deviceType,
    storeValue item.pmcInfoName, storeValue item.value]

def deserialize : Reader PmcEventWithSample := do
  let categoryEnumId : UInt64 ← parseValue
  let trackName : Bytes ← parseValue
  let timestampNs : UInt64 ← parseValue
  let eventMetadata : Bytes ← parseValue
  let stackId : UInt64 ← parseValue
  let parentStackId : UInt64 ← parseValue
  let correlationId : UInt64 ← parseValue
  let callStack : Bytes ← parseValue
  let lineInfo : Bytes ← parseValue
  let deviceId : UInt32 ← parseValue
  let deviceType : UInt8 ← parseValue
  let pmcInfoName : Bytes ← parseValue
  let value : Double ← parseValue
  return { categoryEnumId, trackName, timestampNs, eventMetadata, stackId, parentStackId,
           correlationId, callStack, lineInfo, deviceId, deviceType, pmcInfoName, value }

def getSize (item : PmcEventWithSample) : Nat :=
  getSizes [Supported.getSize item.categoryEnumId, Supported.getSize item.trackName,
    Supported.getSize item.timestampNs, Supported.getSize item.eventMetadata,
    Supported.getSize item.stackId, Supported.getSize item.parentStackId,
    Supported.getSize item.correlationId, Supported.getSize item.callStack,
    Supported.getSize item.lineInfo, Supported.getSize item.deviceId,
    Supported.getSize item.deviceType, Supported.getSize item.pmcInfoName,
    Supported.getSize item.value]

def containers (item : PmcEventWithSample) : List Bytes :=
  [item.trackName, item.eventMetadata, item.callStack, item.lineInfo, item.pmcInfoName]

def layout : List Field :=
  [.fixed 8, .counted 8, .fixed 8, .counted 8, .fixed 8, .fixed 8, .fixed 8, .counted 8,
    .counted 8, .fixed 4, .fixed 1, .counted 8, .fixed 8]

end PmcEventWithSample

/-! ## AmdSmiSample -/

structure AmdSmiSample where
  settings : UInt64
  deviceId : UInt32
  timestamp : UInt64
  gfxActivity : UInt32
  umcActivity : UInt32
  mmActivity : UInt32
  power : UInt32
  temperature : Int64
  memUsage : UInt64
  gpuActivity : ByteVector
  deriving DecidableEq, Repr

namespace AmdSmiSample

def serialize (item : AmdSmiSample) : Bytes :=
  storeValues [storeValue item.settings, storeValue item.deviceId, storeValue item.timestamp,
    storeValue item.gfxActivity, storeValue item.umcActivity, storeValue item.mmActivity,
    storeValue item.power, storeValue item.temperature, storeValue item.memUsage,
    storeValue item.gpuActivity]

def deserialize : Reader AmdSmiSample := do
  let settings : UInt64 ← parseValue
  let deviceId : UInt32 ← parseValue
  let timestamp : UInt64 ← parseValue
  let gfxActivity : UInt32 ← parseValue
  let umcActivity : UInt32 ← parseValue
  let mmActivity : UInt32 ← parseValue
  let power : UInt32 ← parseValue
  let temperature : Int64 ← parseValue
  let memUsage : UInt64 ← parseValue
  let gpuActivity : ByteVector ← parseValue
  return ⟨settings, deviceId, timestamp, gfxActivity, umcActivity, mmActivity, power,
    temperature, memUsage, gpuActivity⟩

def getSize (item : AmdSmiSample) : Nat :=
  getSizes [Supported.getSize item.settings, Supported.getSize item.deviceId,
    Supported.getSize item.timestamp, Supported.getSize item.gfxActivity,
    Supported.getSize item.umcActivity, Supported.getSize item.mmActivity,
    Supported.getSize item.power, Supported.getSize item.temperature,
    Supported.getSize item.memUsage, Supported.getSize item.gpuActivity]

def containers (item : AmdSmiSample) : List Bytes :=
  [item.gpuActivity.elements]

def layout : List Field :=
  [.fixed 8, .fixed 4, .fixed 8, .fixed 4, .fixed 4, .fixed 4, .fixed 4, .fixed 8, .fixed 8,
    .collected 8]

end AmdSmiSample

/-! ## CpuFreqSample -/

structure CpuFreqSample where
  timestamp : UInt64
  pageRss : Int64
  virtMemUsage : Int64
  peakRss : Int64
  contextSwitchCount : Int64
  pageFaults : Int64
  userModeTime : Int64
  kernelModeTime : Int64
  freqs : ByteVector
  deriving DecidableEq, Repr

namespace CpuFreqSample

def serialize (item : CpuFreqSample) : Bytes :=
  storeValues [storeValue item.timestamp, storeValue item.pageRss, storeValue item.virtMemUsage,
    storeValue item.peakRss, storeValue item.contextSwitchCount, storeValue item.pageFaults,
    storeValue item.userModeTime, storeValue item.kernelModeTime, storeValue item.freqs]

def deserialize : Reader CpuFreqSample := do
  let timestamp : UInt64 ← parseValue
  let pageRss : Int64 ← parseValue
  let virtMemUsage : Int64 ← parseValue
  let peakRss : Int64 ← parseValue
  let contextSwitchCount : Int64 ← parseValue
  let pageFaults : Int64 ← parseValue
  let userModeTime : Int64 ← parseValue
  let kernelModeTime : Int64 ← parseValue
  let freqs : ByteVector ← parseValue
  return ⟨timestamp, pageRss, virtMemUsage, peakRss, contextSwitchCount, pageFaults,
    userModeTime, kernelModeTime, freqs⟩

def getSize (item : CpuFreqSample) : Nat :=
  getSizes [Supported.getSize item.timestamp, Supported.getSize item.pageRss,
    Supported.getSize item.virtMemUsage, Supported.getSize item.peakRss,
    Supported.getSize item.contextSwitchCount, Supported.getSize item.pageFaults,
    Supported.getSize item.userModeTime, Supported.getSize item.kernelModeTime,
    Supported.getSize item.freqs]

def containers (item : CpuFreqSample) : List Bytes :=
  [item.freqs.elements]

def layout : List Field :=
  [.fixed 8, .fixed 8, .fixed 8, .fixed 8, .fixed 8, .fixed 8, .fixed 8, .fixed 8, .collected 8]

end CpuFreqSample

/-! ## BacktraceRegionSample -/

structure BacktraceRegionSample where
  type : UInt32
  threadId : UInt64
  trackName : Bytes
  name : Bytes
  startTimestamp : UInt64
  endTimestamp : UInt64
  category : Bytes
  callStack : Bytes
  lineInfo : Bytes
  extdata : Bytes
  deriving DecidableEq, Repr

namespace BacktraceRegionSample

def serialize (item : BacktraceRegionSample) : Bytes :=
  storeValues [storeValue item.type, storeValue item.threadId, storeValue item.trackName,
    storeValue item.name, storeValue item.startTimestamp, storeValue item.endTimestamp,
    storeValue item.category, storeValue item.callStack, storeValue item.lineInfo,
    storeValue item.extdata]

def deserialize : Reader BacktraceRegionSample := do
  let type : UInt32 ← parseValue
  let threadId : UInt64 ← parseValue
  let trackName : Bytes ← parseValue
  let name : Bytes ← parseValue
  let startTimestamp : UInt64 ← parseValue
  let endTimestamp : UInt64 ← parseValue
  let category : Bytes ← parseValue
  let callStack : Bytes ← parseValue
  let lineInfo : Bytes ← parseValue
  let extdata : Bytes ← parseValue
  return ⟨type, threadId, trackName, name, startTimestamp, endTimestamp, category, callStack,
    lineInfo, extdata⟩

def getSize (item : BacktraceRegionSample) : Nat :=
  getSizes [Supported.getSize item.type, Supported.getSize item.threadId,
    Supported.getSize item.trackName, Supported.getSize item.name,
    Supported.getSize item.startTimestamp, Supported.getSize item.endTimestamp,
    Supported.getSize item.category, Supported.getSize item.callStack,
    Supported.getSize item.lineInfo, Supported.getSize item.extdata]

def containers (item : BacktraceRegionSample) : List Bytes :=
  [item.trackName, item.name, item.category, item.callStack, item.lineInfo, item.extdata]

def layout : List Field :=
  [.fixed 4, .fixed 8, .counted 8, .counted 8, .fixed 8, .fixed 8, .counted 8, .counted 8,
    .counted 8, .counted 8]

end BacktraceRegionSample

/-! ## Any sample -/

/-- A value of one of the registered types. -/
inductive Sample where
  | kernelDispatch (item : KernelDispatchSample)
  | scratchMemory (item : ScratchMemorySample)
  | memoryCopy (item : MemoryCopySample)
  | memoryAllocate (item : MemoryAllocateSample)
  | region (item : RegionSample)
  | inTime (item : InTimeSample)
  | pmcEventWith (item : PmcEventWithSample)
  | amdSmi (item : AmdSmiSample)
  | cpuFreq (item : CpuFreqSample)
  | backtraceRegion (item : BacktraceRegionSample)
  deriving DecidableEq, Repr

namespace Sample

def typeIdentifier : Sample → TypeIdentifier
  | kernelDispatch _ => .kernelDispatch
  | scratchMemory _ => .scratchMemory
  | memoryCopy _ => .memoryCopy
  | memoryAllocate _ => .memoryAlloc
  | region _ => .region
  | inTime _ => .inTimeSample
  | pmcEventWith _ => .pmcEventWithSample
  | amdSmi _ => .amdSmiSample
  | cpuFreq _ => .cpuFreqSample
  | backtraceRegion _ => .backtraceRegionSample

def serialize : Sample → Bytes
  | kernelDispatch item => item.serialize
  | scratchMemory item => item.serialize
  | memoryCopy item => item.serialize
  | memoryAllocate item => item.serialize
  | region item => item.serialize
  | inTime item => item.serialize
  | pmcEventWith item => item.serialize
  | amdSmi item => item.serialize
  | cpuFreq item => item.serialize
  | backtraceRegion item => item.serialize

def getSize : Sample → Nat
  | kernelDispatch item => item.getSize
  | scratchMemory item => item.getSize
  | memoryCopy item => item.getSize
  | memoryAllocate item => item.getSize
  | region item => item.getSize
  | inTime item => item.getSize
  | pmcEventWith item => item.getSize
  | amdSmi item => item.getSize
  | cpuFreq item => item.getSize
  | backtraceRegion item => item.getSize

def containers : Sample → List Bytes
  | kernelDispatch item => item.containers
  | scratchMemory item => item.containers
  | memoryCopy item => item.containers
  | memoryAllocate item => item.containers
  | region item => item.containers
  | inTime item => item.containers
  | pmcEventWith item => item.containers
  | amdSmi item => item.containers
  | cpuFreq item => item.containers
  | backtraceRegion item => item.containers

end Sample

/-- The `deserialize` registered under a type identifier. -/
def deserialize : TypeIdentifier → Option (Reader Sample)
  | .inTimeSample => some (Sample.inTime <$> InTimeSample.deserialize)
  | .pmcEventWithSample => some (Sample.pmcEventWith <$> PmcEventWithSample.deserialize)
  | .region => some (Sample.region <$> RegionSample.deserialize)
  | .kernelDispatch => some (Sample.kernelDispatch <$> KernelDispatchSample.deserialize)
  | .memoryCopy => some (Sample.memoryCopy <$> MemoryCopySample.deserialize)
  | .memoryAlloc => some (Sample.memoryAllocate <$> MemoryAllocateSample.deserialize)
  | .amdSmiSample => some (Sample.amdSmi <$> AmdSmiSample.deserialize)
  | .cpuFreqSample => some (Sample.cpuFreq <$> CpuFreqSample.deserialize)
  | .backtraceRegionSample => some (Sample.backtraceRegion <$> BacktraceRegionSample.deserialize)
  | .scratchMemory => some (Sample.scratchMemory <$> ScratchMemorySample.deserialize)
  | .fragmentedSpace => none

def layout : TypeIdentifier → List Field
  | .inTimeSample => InTimeSample.layout
  | .pmcEventWithSample => PmcEventWithSample.layout
  | .region => RegionSample.layout
  | .kernelDispatch => KernelDispatchSample.layout
  | .memoryCopy => MemoryCopySample.layout
  | .memoryAlloc => MemoryAllocateSample.layout
  | .amdSmiSample => AmdSmiSample.layout
  | .cpuFreqSample => CpuFreqSample.layout
  | .backtraceRegionSample => BacktraceRegionSample.layout
  | .scratchMemory => ScratchMemorySample.layout
  | .fragmentedSpace => []

end TraceCache
end Rocprofsys
