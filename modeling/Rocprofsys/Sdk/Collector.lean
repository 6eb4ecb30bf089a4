import Rocprofsys.Rocpd.SampleIntegrity
import Rocprofsys.TraceCache.CategoryRegion

namespace Rocprofsys
namespace Sdk

open Base
open Rocpd (text)
open TraceCache (Bytes EntryKey MetadataRegistry)

/-! ## Records -/

structure KernelRenameAndStreamData where
  regionId : UInt64
  streamId : UInt64

/-- The parent is what `get_parent_stack_id` returns; the external data may be null. -/
structure CorrelationId where
  internal : UInt64
  parentStackId : UInt64
  external : Option KernelRenameAndStreamData

/-- `get_stream_id`. -/
def CorrelationId.streamId (correlationId : CorrelationId) : UInt64 :=
  match correlationId.external with
  | some data => data.streamId
  | none => 0

structure KernelDispatchRecord where
  startTimestamp : UInt64
  endTimestamp : UInt64
  threadId : UInt64
  agentId : UInt64
  kernelId : UInt64
  dispatchId : UInt64
  queueId : UInt64
  correlationId : CorrelationId
  privateSegmentSize : UInt32
  groupSegmentSize : UInt32
  workgroupSizeX : UInt32
  workgroupSizeY : UInt32
  workgroupSizeZ : UInt32
  gridSizeX : UInt32
  gridSizeY : UInt32
  gridSizeZ : UInt32

structure ScratchMemoryRecord where
  startTimestamp : UInt64
  endTimestamp : UInt64
  threadId : UInt64
  agentId : UInt64
  queueId : UInt64
  kind : Int32
  operation : Int32
  flags : Int32
  allocationSize : UInt64
  correlationId : CorrelationId

structure MemoryCopyRecord where
  startTimestamp : UInt64
  endTimestamp : UInt64
  threadId : UInt64
  dstAgentId : UInt64
  srcAgentId : UInt64
  kind : Int32
  operation : Int32
  bytes : UInt64
  correlationId : CorrelationId
  dstAddress : UInt64
  srcAddress : UInt64

structure MemoryAllocationRecord where
  startTimestamp : UInt64
  endTimestamp : UInt64
  threadId : UInt64
  agentId : UInt64
  kind : Int32
  operation : Int32
  allocationSize : UInt64
  correlationId : CorrelationId
  address : UInt64

/-- A callback that has come to its end, with the name and the category it is cached under. -/
structure CallbackRegion where
  threadId : UInt64
  name : Bytes
  correlationId : CorrelationId
  begTs : UInt64
  endTs : UInt64
  callStack : Bytes
  args : TraceCache.FunctionArgs
  category : Bytes

/-! The samples that are stored for them. -/

def CallbackRegion.sample (region : CallbackRegion) : TraceCache.RegionSample where
  threadId := region.threadId
  name := region.name
  correlationIdInternal := region.correlationId.internal
  correlationIdAncestor := region.correlationId.parentStackId
  startTimestamp := region.begTs
  endTimestamp := region.endTs
  callStack := region.callStack
  argsStr := TraceCache.getArgsString region.args
  category := region.category

def KernelDispatchRecord.sample (record : KernelDispatchRecord) (streamHandle : UInt64) :
    TraceCache.KernelDispatchSample where
  startTimestamp := record.startTimestamp
  endTimestamp := record.endTimestamp
  threadId := record.threadId
  agentIdHandle := record.agentId
  kernelId := record.kernelId
  dispatchId := record.dispatchId
  queueIdHandle := record.queueId
  correlationIdInternal := record.correlationId.internal
  correlationIdAncestor := record.correlationId.parentStackId
  privateSegmentSize := record.privateSegmentSize
  groupSegmentSize := record.groupSegmentSize
  workgroupSizeX := record.workgroupSizeX
  workgroupSizeY := record.workgroupSizeY
  workgroupSizeZ := record.workgroupSizeZ
  gridSizeX := record.gridSizeX
  gridSizeY := record.gridSizeY
  gridSizeZ := record.gridSizeZ
  streamHandle

def ScratchMemoryRecord.sample (record : ScratchMemoryRecord) (streamHandle : UInt64) :
    TraceCache.ScratchMemorySample where
  startTimestamp := record.startTimestamp
  endTimestamp := record.endTimestamp
  threadId := record.threadId
  agentIdHandle := record.agentId
  queueIdHandle := record.queueId
  kind := record.kind
  operation := record.operation
  flags := record.flags
  allocationSize := record.allocationSize
  correlationIdInternal := record.correlationId.internal
  correlationIdAncestor := record.correlationId.parentStackId
  streamHandle

def MemoryCopyRecord.sample (record : MemoryCopyRecord) (streamHandle : UInt64) :
    TraceCache.MemoryCopySample where
  startTimestamp := record.startTimestamp
  endTimestamp := record.endTimestamp
  threadId := record.threadId
  dstAgentIdHandle := record.dstAgentId
  srcAgentIdHandle := record.srcAgentId
  kind := record.kind
  operation := record.operation
  bytes := record.bytes
  correlationIdInternal := record.correlationId.internal
  correlationIdAncestor := record.correlationId.parentStackId
  dstAddressValue := record.dstAddress
  srcAddressValue := record.srcAddress
  streamHandle

def MemoryAllocationRecord.sample (record : MemoryAllocationRecord) (streamHandle : UInt64) :
    TraceCache.MemoryAllocateSample where
  startTimestamp := record.startTimestamp
  endTimestamp := record.endTimestamp
  threadId := record.threadId
  agentIdHandle := record.agentId
  kind := record.kind
  operation := record.operation
  allocationSize := record.allocationSize
  correlationIdInternal := record.correlationId.internal
  correlationIdAncestor := record.correlationId.parentStackId
  addressValue := record.address
  streamHandle

/-! ## The callbacks -/

/-- What the callbacks get from outside. -/
structure Tool where
  ppid : Int32
  pid : Int32
  agentManager : Core.AgentManager
  /-- `at` of the buffer names, which throws for a kind or an operation without a name. -/
  nameAt : Int32 → Int32 → Option Bytes

/-- The metadata, the kernel symbols of the tool, and the samples in the buffer storage. -/
structure Collector where
  registry : MetadataRegistry
  kernelSymbolRecords : List TraceCache.KernelSymbol
  samples : List TraceCache.Sample

namespace Collector

section Cache

variable (tool : Tool) (c : Collector)

def cacheCategory (name : String) : Collector :=
  { c with registry := c.registry.addString (text name) }

def cacheAddThreadInfo (tid : UInt64) : Collector :=
  { c with registry := c.registry.addThreadInfo ⟨tool.ppid, tool.pid, tid, 0, 0, Rocpd.noData⟩ }

def cacheAddTrack (trackName : Bytes) (tid : UInt64) : Collector :=
  { c with registry := c.registry.addTrack ⟨trackName, some tid, Rocpd.noData⟩ }

def addQueue (queueHandle : UInt64) : Collector :=
  { c with registry := c.registry.addQueue queueHandle }

def addStream (streamHandle : UInt64) : Collector :=
  { c with registry := c.registry.addStream streamHandle }

def store (sample : TraceCache.Sample) : Collector := { c with samples := c.samples ++ [sample] }

def cacheRegion (region : CallbackRegion) : Collector := c.store (.region region.sample)

def cacheKernelDispatch (record : KernelDispatchRecord) (streamHandle : UInt64) : Collector :=
  ((c.addQueue record.queueId).addStream streamHandle).store
    (.kernelDispatch (record.sample streamHandle))

def cacheScratchMemory (record : ScratchMemoryRecord) (streamHandle : UInt64) : Collector :=
  (c.addStream streamHandle).store (.scratchMemory (record.sample streamHandle))

def cacheMemoryCopy (record : MemoryCopyRecord) (streamHandle : UInt64) : Collector :=
  (c.addStream streamHandle).store (.memoryCopy (record.sample streamHandle))

def cacheMemoryAllocation (record : MemoryAllocationRecord) (streamHandle : UInt64) : Collector :=
  (c.addStream streamHandle).store (.memoryAllocate (record.sample streamHandle))

end Cache

def getKernelSymbolInfo (c : Collector) (kernelId : UInt64) : Option TraceCache.KernelSymbol :=
  c.kernelSymbolRecords.find? fun itr => itr.kernelId == kernelId

end Collector

/-- `get_gpu_tool_agent`, whose `device_id` is the index of the agent in its type. -/
def Tool.getGpuToolAgent (tool : Tool) (id : UInt64) : Option TraceCache.Agent :=
  (tool.agentManager.getAgentsByType Core.agentTypeGpu).find? fun agent => id == agent.handle

/-- `get_agent`, which throws where there is none. -/
def Tool.getAgent (tool : Tool) (id : UInt64) : Option TraceCache.Agent :=
  tool.agentManager.getAgentByHandle id

/-- What reaches the callbacks: the records of a buffer, one by one, and the ends of callbacks and
of regions. -/
inductive Event where
  | codeObjectLoad (data : TraceCache.CodeObject)
  | kernelSymbolRegister (data : TraceCache.KernelSymbol)
  | kernelDispatch (record : KernelDispatchRecord)
  | scratchMemory (record : ScratchMemoryRecord)
  | memoryCopy (record : MemoryCopyRecord)
  | memoryAllocation (record : MemoryAllocationRecord)
  /-- Of the HSA API, which is not handled. -/
  | hsaApi
  /-- Of any other kind or category. -/
  | unexpected
  | callbackStop (region : CallbackRegion)
  /-- A region of `category_region` that `cache_stop` or the flush ends, with the system id of
  its thread if the thread has one. -/
  | cacheStop (systemValue : Option UInt64) (key : EntryKey) (startTs endTs : UInt64)

def dispatchTrack (deviceId queueId : UInt64) : Bytes :=
  text "GPU Kernel Dispatch [" ++ decimal deviceId.toNat ++ text "] Queue " ++
    decimal queueId.toNat

def scratchTrack (deviceId : UInt32) (threadId : UInt64) : Bytes :=
  text "GPU Scratch Memory [" ++ decimal deviceId.toNat ++ text "] Thread " ++
    decimal threadId.toNat

def copyTrack (logicalNodeId : Int32) (threadId : UInt64) : Bytes :=
  text "GPU Memory Copy to Agent [" ++ Rocpd.printNumber (.signed logicalNodeId.toInt64) ++
    text "] Thread " ++ decimal threadId.toNat

section Collect

variable (tool : Tool)

/-- `none` where the callback throws or reads through a null pointer. -/
def collect (c : Collector) : Event → Option Collector
  | .codeObjectLoad data => some { c with registry := c.registry.addCodeObject data }
  | .kernelSymbolRegister data =>
    some { c with
      kernelSymbolRecords := c.kernelSymbolRecords ++ [data]
      registry := c.registry.addKernelSymbol data }
  | .kernelDispatch record => do
    let _ ← c.getKernelSymbolInfo record.kernelId
    let agent ← tool.getGpuToolAgent record.agentId
    let c := c.cacheCategory "rocm_kernel_dispatch"
    let c := c.cacheAddThreadInfo tool record.threadId
    let c := c.cacheAddTrack (dispatchTrack agent.deviceTypeIndex record.queueId) record.threadId
    return c.cacheKernelDispatch record record.correlationId.streamId
  | .scratchMemory record => do
    let agent ← tool.getGpuToolAgent record.agentId
    let _ ← tool.nameAt record.kind record.operation
    let c := c.cacheCategory "rocm_scratch_memory"
    let c := c.cacheAddThreadInfo tool record.threadId
    let c := c.cacheAddTrack (scratchTrack agent.deviceTypeIndex.toUInt32 record.threadId)
      record.threadId
    return c.cacheScratchMemory record record.correlationId.streamId
  | .memoryCopy record => do
    let dstAgent ← tool.getAgent record.dstAgentId
    let _ ← tool.getAgent record.srcAgentId
    let _ ← tool.nameAt record.kind record.operation
    let c := c.cacheCategory "rocm_memory_copy"
    let c := c.cacheAddTrack (copyTrack dstAgent.logicalNodeId record.threadId) record.threadId
    return c.cacheMemoryCopy record record.correlationId.streamId
  | .memoryAllocation record =>
    let c := c.cacheCategory "rocm_memory_allocate"
    let c := c.cacheAddThreadInfo tool record.threadId
    some (c.cacheMemoryAllocation record record.correlationId.streamId)
  | .hsaApi => some c
  | .unexpected => none
  | .callbackStop region =>
    let c := { c with registry := c.registry.addString region.category }
    let c := c.cacheAddThreadInfo tool region.threadId
    some (c.cacheRegion region)
  | .cacheStop systemValue key startTs endTs =>
    let c := match systemValue with
      | some threadId => c.cacheAddThreadInfo tool threadId
      | none => c
    some (c.store (.region (TraceCache.cacheRegion (systemValue.getD 0) key startTs endTs)))

/-- After `tool_init`, which adds the default stream and the default queue. -/
def toolInit (process : TraceCache.Process) : Collector :=
  ⟨((MetadataRegistry.empty.setProcess process).addStream 0).addQueue 0, [], []⟩

def collectAll (process : TraceCache.Process) (events : List Event) : Option Collector :=
  runFrom (collect tool) (toolInit process) events

end Collect

/-! ## What a run collects -/

namespace Event

/-- The threads whose information is added. -/
def threads : Event → List UInt64
  | .kernelDispatch record => [record.threadId]
  | .scratchMemory record => [record.threadId]
  | .memoryAllocation record => [record.threadId]
  | .callbackStop region => [region.threadId]
  | .cacheStop systemValue _ _ _ => systemValue.toList
  | _ => []

/-- The threads that own a track. -/
def trackThreads : Event → List UInt64
  | .kernelDispatch record => [record.threadId]
  | .scratchMemory record => [record.threadId]
  | .memoryCopy record => [record.threadId]
  | _ => []

def queues : Event → List UInt64
  | .kernelDispatch record => [record.queueId]
  | _ => []

def streams : Event → List UInt64
  | .kernelDispatch record => [record.correlationId.streamId]
  | .scratchMemory record => [record.correlationId.streamId]
  | .memoryCopy record => [record.correlationId.streamId]
  | .memoryAllocation record => [record.correlationId.streamId]
  | _ => []

def codeObjects : Event → List TraceCache.CodeObject
  | .codeObjectLoad data => [data]
  | _ => []

def kernelSymbols : Event → List TraceCache.KernelSymbol
  | .kernelSymbolRegister data => [data]
  | _ => []

def samples : Event → List TraceCache.Sample
  | .kernelDispatch record => [.kernelDispatch (record.sample record.correlationId.streamId)]
  | .scratchMemory record => [.scratchMemory (record.sample record.correlationId.streamId)]
  | .memoryCopy record => [.memoryCopy (record.sample record.correlationId.streamId)]
  | .memoryAllocation record => [.memoryAllocate (record.sample record.correlationId.streamId)]
  | .callbackStop region => [.region region.sample]
  | .cacheStop systemValue key startTs endTs =>
    [.region (TraceCache.cacheRegion (systemValue.getD 0) key startTs endTs)]
  | _ => []

/-- What the callback looks up is there. -/
def Found (tool : Tool) (kernelSymbols : List TraceCache.KernelSymbol) : Event → Prop
  | .kernelDispatch record =>
    (∃ symbol ∈ kernelSymbols, symbol.kernelId = record.kernelId) ∧
      ∃ agent ∈ tool.agentManager.agents, agent.handle = record.agentId
  | .scratchMemory record => ∃ agent ∈ tool.agentManager.agents, agent.handle = record.agentId
  | .memoryCopy record =>
    (tool.nameAt record.kind record.operation).isSome = true ∧
      (∃ agent ∈ tool.agentManager.agents, agent.handle = record.dstAgentId) ∧
        ∃ agent ∈ tool.agentManager.agents, agent.handle = record.srcAgentId
  | _ => True

end Event

def Tool.threadInfo (tool : Tool) (tid : UInt64) : TraceCache.Thread :=
  ⟨tool.ppid, tool.pid, tid, 0, 0, Rocpd.noData⟩

/-- What one event adds. -/
structure Collects (tool : Tool) (c : Collector) (e : Event) (c' : Collector) : Prop where
  found : e.Found tool c.kernelSymbolRecords
  threads : c'.registry.threads = c.registry.threads.addAll (e.threads.map tool.threadInfo)
  tracks : ∀ track ∈ c'.registry.tracks.entries, track ∈ c.registry.tracks.entries ∨
    ∃ threadId ∈ e.trackThreads, track.threadId = some threadId
  codeObjects : c'.registry.codeObjects = c.registry.codeObjects.addAll e.codeObjects
  kernelSymbols : c'.registry.kernelSymbols = c.registry.kernelSymbols.addAll e.kernelSymbols
  kernelSymbolRecords : c'.kernelSymbolRecords = c.kernelSymbolRecords ++ e.kernelSymbols
  queues : c'.registry.queues = c.registry.queues.addAll e.queues
  streams : c'.registry.streams = c.registry.streams.addAll e.streams
  pmcInfos : c'.registry.pmcInfos = c.registry.pmcInfos
  samples : c'.samples = c.samples ++ e.samples

section Run

variable {tool : Tool} {c c' : Collector} {e : Event}

theorem exists_of_getGpuToolAgent {id : UInt64} {agent : TraceCache.Agent}
    (h : tool.getGpuToolAgent id = some agent) :
    ∃ agent ∈ tool.agentManager.agents, agent.handle = id := by
  have hmem := List.mem_of_find?_eq_some h
  have hhandle := List.find?_some h
  exact ⟨agent, (List.mem_filter.mp hmem).1, (eq_of_beq hhandle).symm⟩

theorem exists_of_getAgent {id : UInt64} {agent : TraceCache.Agent}
    (h : tool.getAgent id = some agent) :
    ∃ agent ∈ tool.agentManager.agents, agent.handle = id := by
  have hmem := List.mem_of_find?_eq_some h
  have hhandle := List.find?_some h
  exact ⟨agent, hmem, eq_of_beq hhandle⟩

theorem exists_of_getKernelSymbolInfo {kernelId : UInt64} {symbol : TraceCache.KernelSymbol}
    (h : c.getKernelSymbolInfo kernelId = some symbol) :
    ∃ symbol ∈ c.kernelSymbolRecords, symbol.kernelId = kernelId := by
  have hmem := List.mem_of_find?_eq_some h
  have hkernelId := List.find?_some h
  exact ⟨symbol, hmem, eq_of_beq hkernelId⟩

theorem mem_tracks_of_add {tracks : KeyedSet TraceCache.Track.trackName} {name : Bytes}
    {threadId : UInt64} {track : TraceCache.Track}
    (h : track ∈ (tracks.add ⟨name, some threadId, Rocpd.noData⟩).entries) :
    track ∈ tracks.entries ∨ ∃ id ∈ [threadId], track.threadId = some id := by
  rcases KeyedSet.mem_of_mem_add h with h | h
  · exact Or.inl h
  · rw [h]
    exact Or.inr ⟨threadId, List.mem_cons_self, rfl⟩

theorem collects_of_collect (h : collect tool c e = some c') : Collects tool c e c' := by
  have hold : ∀ track ∈ c.registry.tracks.entries, track ∈ c.registry.tracks.entries ∨
      ∃ threadId ∈ ([] : List UInt64), track.threadId = some threadId := fun _ => Or.inl
  have hnone {α : Type} (l : List α) : l = l ++ [] := (List.append_nil l).symm
  cases e with
  | codeObjectLoad data =>
    cases h
    exact ⟨trivial, rfl, hold, rfl, rfl, hnone _, rfl, rfl, rfl, hnone _⟩
  | kernelSymbolRegister data =>
    cases h
    exact ⟨trivial, rfl, hold, rfl, rfl, rfl, rfl, rfl, rfl, hnone _⟩
  | kernelDispatch record =>
    obtain ⟨symbol, hsymbol, h⟩ := Option.bind_eq_some_iff.mp h
    obtain ⟨agent, hagent, h⟩ := Option.bind_eq_some_iff.mp h
    cases h
    exact ⟨⟨exists_of_getKernelSymbolInfo hsymbol, exists_of_getGpuToolAgent hagent⟩, rfl,
      fun _ => mem_tracks_of_add, rfl, rfl, hnone _, rfl, rfl, rfl, rfl⟩
  | scratchMemory record =>
    obtain ⟨agent, hagent, h⟩ := Option.bind_eq_some_iff.mp h
    obtain ⟨name, _, h⟩ := Option.bind_eq_some_iff.mp h
    cases h
    exact ⟨exists_of_getGpuToolAgent hagent, rfl, fun _ => mem_tracks_of_add, rfl, rfl, hnone _,
      rfl, rfl, rfl, rfl⟩
  | memoryCopy record =>
    obtain ⟨dstAgent, hdst, h⟩ := Option.bind_eq_some_iff.mp h
    obtain ⟨srcAgent, hsrc, h⟩ := Option.bind_eq_some_iff.mp h
    obtain ⟨name, hname, h⟩ := Option.bind_eq_some_iff.mp h
    cases h
    exact ⟨⟨Option.isSome_of_eq_some hname, exists_of_getAgent hdst, exists_of_getAgent hsrc⟩,
      rfl, fun _ => mem_tracks_of_add, rfl, rfl, hnone _, rfl, rfl, rfl, rfl⟩
  | memoryAllocation record =>
    cases h
    exact ⟨trivial, rfl, hold, rfl, rfl, hnone _, rfl, rfl, rfl, rfl⟩
  | hsaApi =>
    cases h
    exact ⟨trivial, rfl, hold, rfl, rfl, hnone _, rfl, rfl, rfl, hnone _⟩
  | unexpected => cases h
  | callbackStop region =>
    cases h
    exact ⟨trivial, rfl, hold, rfl, rfl, hnone _, rfl, rfl, rfl, rfl⟩
  | cacheStop systemValue key startTs endTs =>
    cases h
    cases systemValue with
    | none => exact ⟨trivial, rfl, hold, rfl, rfl, hnone _, rfl, rfl, rfl, rfl⟩
    | some threadId => exact ⟨trivial, rfl, hold, rfl, rfl, hnone _, rfl, rfl, rfl, rfl⟩

theorem Event.Found.mono {symbols : List TraceCache.KernelSymbol} (h : e.Found tool symbols)
    (more : List TraceCache.KernelSymbol) : e.Found tool (symbols ++ more) := by
  cases e with
  | kernelDispatch record =>
    obtain ⟨symbol, hsymbol, hid⟩ := h.1
    exact ⟨⟨symbol, List.mem_append_left _ hsymbol, hid⟩, h.2⟩
  | _ => exact h

/-- What a run leaves in the collector. -/
structure Collected (tool : Tool) (events : List Event) (c : Collector) : Prop where
  found : ∀ e ∈ events, e.Found tool c.kernelSymbolRecords
  threads : c.registry.threads =
    (∅ : KeyedSet _).addAll ((events.flatMap Event.threads).map tool.threadInfo)
  tracks : ∀ track ∈ c.registry.tracks.entries,
    ∃ e ∈ events, ∃ threadId ∈ e.trackThreads, track.threadId = some threadId
  codeObjects : c.registry.codeObjects =
    (∅ : KeyedSet _).addAll (events.flatMap Event.codeObjects)
  kernelSymbols : c.registry.kernelSymbols =
    (∅ : KeyedSet _).addAll (events.flatMap Event.kernelSymbols)
  kernelSymbolRecords : c.kernelSymbolRecords = events.flatMap Event.kernelSymbols
  queues : c.registry.queues = (∅ : KeyedSet _).addAll (0 :: events.flatMap Event.queues)
  streams : c.registry.streams = (∅ : KeyedSet _).addAll (0 :: events.flatMap Event.streams)
  pmcInfos : c.registry.pmcInfos = ∅
  samples : c.samples = events.flatMap Event.samples

theorem collected_toolInit (process : TraceCache.Process) :
    Collected tool [] (toolInit process) :=
  ⟨fun _ he => absurd he List.not_mem_nil, rfl, fun _ ht => absurd ht List.not_mem_nil, rfl, rfl,
    rfl, rfl, rfl, rfl, rfl⟩

theorem Collected.step {events : List Event} (h : Collected tool events c)
    (he : Collects tool c e c') : Collected tool (events ++ [e]) c' := by
  have hsnoc {β : Type} (f : Event → List β) :
      (events ++ [e]).flatMap f = events.flatMap f ++ f e := by
    rw [List.flatMap_append, List.flatMap_singleton]
  constructor
  · intro e' he'
    rw [he.kernelSymbolRecords]
    rcases List.mem_append.mp he' with he' | he'
    · exact (h.found e' he').mono _
    · rw [List.mem_singleton.mp he']
      exact he.found.mono _
  · rw [he.threads, h.threads, ← KeyedSet.addAll_append, hsnoc, List.map_append]
  · intro track htrack
    rcases he.tracks track htrack with hold | hnew
    · obtain ⟨e', he', hthread⟩ := h.tracks track hold
      exact ⟨e', List.mem_append_left _ he', hthread⟩
    · exact ⟨e, List.mem_append_right _ List.mem_cons_self, hnew⟩
  · rw [he.codeObjects, h.codeObjects, ← KeyedSet.addAll_append, hsnoc]
  · rw [he.kernelSymbols, h.kernelSymbols, ← KeyedSet.addAll_append, hsnoc]
  · rw [he.kernelSymbolRecords, h.kernelSymbolRecords, hsnoc]
  · rw [he.queues, h.queues, ← KeyedSet.addAll_append, hsnoc, List.cons_append]
  · rw [he.streams, h.streams, ← KeyedSet.addAll_append, hsnoc, List.cons_append]
  · rw [he.pmcInfos, h.pmcInfos]
  · rw [he.samples, h.samples, hsnoc]

/-- Every run of the callbacks. -/
theorem collected_of_collectAll {process : TraceCache.Process} {events : List Event}
    (h : collectAll tool process events = some c) : Collected tool events c :=
  history_of_run (fun _ _ _ _ hinv hstep => hinv.step (collects_of_collect hstep))
    (collected_toolInit process) h

end Run

/-! ## Processing of what is collected -/

section Processing

variable {tool : Tool} {host : Rocpd.Host} {agents : List TraceCache.Agent} {events : List Event}
  {c : Collector}

/-- What no callback has checked: the agent and the storage of the code object that is found
under its id, the code object of a symbol, the kind of an allocation, the queue of a scratch
allocation, the thread of a copy and of a region outside, and the delimiters in arguments. -/
def Event.Fits (host : Rocpd.Host) (agents : List TraceCache.Agent) (events : List Event) :
    Event → Prop
  | .codeObjectLoad data =>
    (events.flatMap codeObjects).find? (fun o => o.codeObjectId == data.codeObjectId) =
        some data →
      Rocpd.AgentKnown agents data.agentIdHandle ∧
        (data.storageType = host.fileStorage ∨ data.storageType = host.memoryStorage)
  | .kernelSymbolRegister data =>
    (events.flatMap kernelSymbols).find? (fun s => s.kernelId == data.kernelId) = some data →
      ∃ o ∈ events.flatMap codeObjects, o.codeObjectId = data.codeObjectId
  | .scratchMemory record =>
    Rocpd.OperationStored host record.kind record.operation ∧
      (record.queueId = 0 ∨ ∃ e ∈ events, record.queueId ∈ e.queues)
  | .memoryCopy record => ∃ e ∈ events, record.threadId ∈ e.threads
  | .memoryAllocation record =>
    record.agentId = host.invalidContext ∨
      Rocpd.AgentKnown agents record.agentId ∧
        Rocpd.OperationStored host record.kind record.operation
  | .callbackStop region =>
    (TraceCache.processArgumentsString
      (TraceCache.getArgsString region.args)).toOption.isSome = true
  | .cacheStop none _ _ _ => ∃ e ∈ events, 0 ∈ e.threads
  | _ => True

section Membership

variable (h : Collected tool events c)

include h

theorem mem_threads_iff (threadId : UInt64) :
    Rocpd.ThreadKnown c.registry threadId ↔ ∃ e ∈ events, threadId ∈ e.threads := by
  rw [Rocpd.ThreadKnown, h.threads, KeyedSet.mem_keys_empty_addAll, List.map_map]
  simp [Tool.threadInfo]

theorem mem_queues_iff (queueId : UInt64) :
    queueId ∈ c.registry.queues.entries ↔ queueId = 0 ∨ ∃ e ∈ events, queueId ∈ e.queues := by
  have hkeys := @KeyedSet.mem_keys_empty_addAll _ _ (id : UInt64 → UInt64) _
    (0 :: events.flatMap Event.queues) queueId
  rw [← h.queues] at hkeys
  simpa using hkeys

theorem mem_streams_iff (streamId : UInt64) :
    streamId ∈ c.registry.streams.entries ↔ streamId = 0 ∨ ∃ e ∈ events, streamId ∈ e.streams := by
  have hkeys := @KeyedSet.mem_keys_empty_addAll _ _ (id : UInt64 → UInt64) _
    (0 :: events.flatMap Event.streams) streamId
  rw [← h.streams] at hkeys
  simpa using hkeys

theorem mem_codeObjects_iff (object : TraceCache.CodeObject) :
    object ∈ c.registry.codeObjects.entries ↔
      (events.flatMap Event.codeObjects).find?
        (fun o => o.codeObjectId == object.codeObjectId) = some object := by
  rw [h.codeObjects, KeyedSet.mem_iff_find, KeyedSet.find_addAll]
  rfl

theorem mem_kernelSymbols_iff (symbol : TraceCache.KernelSymbol) :
    symbol ∈ c.registry.kernelSymbols.entries ↔
      (events.flatMap Event.kernelSymbols).find?
        (fun s => s.kernelId == symbol.kernelId) = some symbol := by
  rw [h.kernelSymbols, KeyedSet.mem_iff_find, KeyedSet.find_addAll]
  rfl

theorem mem_codeObjectIds_iff (id : UInt64) :
    id ∈ c.registry.codeObjects.entries.map TraceCache.CodeObject.codeObjectId ↔
      ∃ o ∈ events.flatMap Event.codeObjects, o.codeObjectId = id := by
  rw [h.codeObjects, KeyedSet.mem_keys_empty_addAll, List.mem_map]

theorem mem_kernelIds_iff (kernelId : UInt64) :
    kernelId ∈ c.registry.kernelSymbols.entries.map TraceCache.KernelSymbol.kernelId ↔
      ∃ s ∈ c.kernelSymbolRecords, s.kernelId = kernelId := by
  rw [h.kernelSymbols, h.kernelSymbolRecords, KeyedSet.mem_keys_empty_addAll, List.mem_map]

end Membership

theorem mem_codeObjects_events (object : TraceCache.CodeObject) :
    object ∈ events.flatMap Event.codeObjects ↔ .codeObjectLoad object ∈ events := by
  rw [List.mem_flatMap]
  constructor
  · intro hex
    obtain ⟨e, he, hobject⟩ := hex
    cases e with
    | codeObjectLoad data =>
      rw [List.mem_singleton.mp hobject]
      exact he
    | _ => cases hobject
  · exact fun he => ⟨_, he, List.mem_cons_self⟩

theorem mem_kernelSymbols_events (symbol : TraceCache.KernelSymbol) :
    symbol ∈ events.flatMap Event.kernelSymbols ↔ .kernelSymbolRegister symbol ∈ events := by
  rw [List.mem_flatMap]
  constructor
  · intro hex
    obtain ⟨e, he, hsymbol⟩ := hex
    cases e with
    | kernelSymbolRegister data =>
      rw [List.mem_singleton.mp hsymbol]
      exact he
    | _ => cases hsymbol
  · exact fun he => ⟨_, he, List.mem_cons_self⟩

theorem processArgumentsString_nil : TraceCache.processArgumentsString [] = .ok [] := by
  have htokens := @TraceCache.tokensOf_getArgsString [] fun _ harg => absurd harg List.not_mem_nil
  rw [TraceCache.processArgumentsString]
  show (if (TraceCache.tokensOf (TraceCache.getArgsString [])).length % 4 ≠ 0 then _ else
    TraceCache.argumentsOfTokens (TraceCache.tokensOf (TraceCache.getArgsString []))) = _
  rw [htokens]
  rfl

/-- Of the samples of an event. -/
def SamplesFit (host : Rocpd.Host) (registry : MetadataRegistry) (agents : List TraceCache.Agent)
    (e : Event) : Prop :=
  ∀ s ∈ e.samples, Rocpd.SampleFits host registry agents s

/-- The agents have the handles of those that the callbacks know. -/
def SameHandles (tool : Tool) (agents : List TraceCache.Agent) : Prop :=
  ∀ handle, Rocpd.AgentKnown tool.agentManager.agents handle ↔ Rocpd.AgentKnown agents handle

theorem samplesFit_iff (h : Collected tool events c) (hnames : host.nameAt = tool.nameAt)
    (hagents : SameHandles tool agents) {e : Event} (he : e ∈ events)
    (hobject : ∀ data, e ≠ .codeObjectLoad data)
    (hsymbol : ∀ data, e ≠ .kernelSymbolRegister data) :
    SamplesFit host c.registry agents e ↔ e.Fits host agents events := by
  have hfound := h.found e he
  have hdefault : (0 : UInt64) ∈ c.registry.queues.entries :=
    (mem_queues_iff h 0).mpr (Or.inl rfl)
  have hqueue (queueId : UInt64) (hmem : queueId ∈ e.queues) :
      queueId ∈ c.registry.queues.entries :=
    (mem_queues_iff h queueId).mpr (Or.inr ⟨e, he, hmem⟩)
  have hstream (streamId : UInt64) (hmem : streamId ∈ e.streams) :
      streamId ∈ c.registry.streams.entries :=
    (mem_streams_iff h streamId).mpr (Or.inr ⟨e, he, hmem⟩)
  have hthread (threadId : UInt64) (hmem : threadId ∈ e.threads) :
      Rocpd.ThreadKnown c.registry threadId :=
    (mem_threads_iff h threadId).mpr ⟨e, he, hmem⟩
  unfold SamplesFit
  cases e with
  | codeObjectLoad data => exact absurd rfl (hobject data)
  | kernelSymbolRegister data => exact absurd rfl (hsymbol data)
  | hsaApi => exact ⟨fun _ => trivial, fun _ _ hs => absurd hs List.not_mem_nil⟩
  | unexpected => exact ⟨fun _ => trivial, fun _ _ hs => absurd hs List.not_mem_nil⟩
  | kernelDispatch record =>
    refine ⟨fun _ => trivial, fun _ s hs => ?_⟩
    rw [List.mem_singleton.mp hs]
    exact ⟨(hagents _).mp hfound.2, hthread _ List.mem_cons_self, (mem_kernelIds_iff h _).mpr hfound.1,
      hqueue _ List.mem_cons_self, hstream _ List.mem_cons_self⟩
  | scratchMemory record =>
    refine List.forall_mem_singleton.trans ⟨fun hfits => ?_, fun hfits => ?_⟩
    · exact ⟨hfits.1, (mem_queues_iff h _).mp hfits.2.2.2.1⟩
    · exact ⟨hfits.1, (hagents _).mp hfound, hthread _ List.mem_cons_self, (mem_queues_iff h _).mpr hfits.2,
        hstream _ List.mem_cons_self⟩
  | memoryCopy record =>
    refine List.forall_mem_singleton.trans ⟨fun hfits => ?_, fun hfits => ?_⟩
    · exact (mem_threads_iff h _).mp hfits.2.1
    · have hname : (host.nameAt record.kind record.operation).isSome = true := by
        rw [hnames]
        exact hfound.1
      exact ⟨hname, (mem_threads_iff h _).mpr hfits, (hagents _).mp hfound.2.1,
        (hagents _).mp hfound.2.2, hdefault, hstream _ List.mem_cons_self⟩
  | memoryAllocation record =>
    refine List.forall_mem_singleton.trans ⟨fun hfits => ?_, fun hfits => ?_⟩
    · exact hfits.2.imp_right fun hknown => ⟨hknown.1, hknown.2.1⟩
    · exact ⟨hthread _ List.mem_cons_self, hfits.imp_right fun hknown =>
        ⟨hknown.1, hknown.2, hdefault, hstream _ List.mem_cons_self⟩⟩
  | callbackStop region =>
    exact List.forall_mem_singleton.trans (and_iff_right (hthread _ List.mem_cons_self))
  | cacheStop systemValue key startTs endTs =>
    have hargs : (TraceCache.processArgumentsString []).toOption.isSome = true := by
      rw [processArgumentsString_nil]
      rfl
    cases systemValue with
    | none =>
      exact List.forall_mem_singleton.trans ((and_iff_left hargs).trans (mem_threads_iff h 0))
    | some threadId =>
      exact List.forall_mem_singleton.trans ⟨fun _ => trivial,
        fun _ => ⟨hthread _ List.mem_cons_self, hargs⟩⟩

theorem samplesFit_of_metadata {registry : MetadataRegistry} {e : Event}
    (h : e.samples = []) : SamplesFit host registry agents e := by
  intro s hs
  rw [h] at hs
  exact absurd hs List.not_mem_nil

/-- The samples of all events fit, and so do the metadata. -/
theorem fits_iff (h : Collected tool events c) (hnames : host.nameAt = tool.nameAt)
    (hagents : SameHandles tool agents) :
    (Rocpd.MetadataFits host c.registry agents ∧
        ∀ s ∈ c.samples, Rocpd.SampleFits host c.registry agents s) ↔
      ∀ e ∈ events, e.Fits host agents events := by
  have hsamples : (∀ s ∈ c.samples, Rocpd.SampleFits host c.registry agents s) ↔
      ∀ e ∈ events, SamplesFit host c.registry agents e := by
    rw [h.samples]
    exact List.forall_mem_flatMap
  rw [hsamples]
  constructor
  · intro hboth e he
    cases e with
    | codeObjectLoad data =>
      exact fun hfound => hboth.1.codeObjects data ((mem_codeObjects_iff h data).mpr hfound)
    | kernelSymbolRegister data =>
      exact fun hfound => (mem_codeObjectIds_iff h _).mp
        (hboth.1.kernelSymbols data ((mem_kernelSymbols_iff h data).mpr hfound))
    | _ => exact (samplesFit_iff h hnames hagents he (fun _ heq => by cases heq)
        fun _ heq => by cases heq).mp (hboth.2 _ he)
  · intro hfits
    have hfit : ∀ e ∈ events, SamplesFit host c.registry agents e := by
      intro e he
      cases e with
      | codeObjectLoad data => exact samplesFit_of_metadata rfl
      | kernelSymbolRegister data => exact samplesFit_of_metadata rfl
      | _ => exact (samplesFit_iff h hnames hagents he (fun _ heq => by cases heq)
          fun _ heq => by cases heq).mpr (hfits _ he)
    refine ⟨⟨?_, ?_, ?_, ?_⟩, hfit⟩
    · intro track htrack threadId hthread
      obtain ⟨e, he, id, hid, hsome⟩ := h.tracks track htrack
      rw [hsome] at hthread
      cases hthread
      cases e with
      | kernelDispatch record =>
        rw [List.mem_singleton.mp hid]
        exact (hfit _ he _ List.mem_cons_self).2.1
      | scratchMemory record =>
        rw [List.mem_singleton.mp hid]
        exact (hfit _ he _ List.mem_cons_self).2.2.1
      | memoryCopy record =>
        rw [List.mem_singleton.mp hid]
        exact (hfit _ he _ List.mem_cons_self).2.1
      | _ => cases hid
    · intro object hobject
      have hfound := (mem_codeObjects_iff h object).mp hobject
      exact hfits _ ((mem_codeObjects_events object).mp (List.mem_of_find?_eq_some hfound)) hfound
    · intro symbol hsymbol
      have hfound := (mem_kernelSymbols_iff h symbol).mp hsymbol
      exact (mem_codeObjectIds_iff h _).mpr (hfits _
        ((mem_kernelSymbols_events symbol).mp (List.mem_of_find?_eq_some hfound)) hfound)
    · intro before pmc behind hsplit
      rw [h.pmcInfos] at hsplit
      cases before <;> cases hsplit

end Processing

def copyTool : Tool where
  ppid := 1
  pid := 2
  agentManager := .ofAgents Rocpd.copyAgents
  nameAt := Rocpd.copyHost.nameAt

/-- A copy by the thread 5. -/
def copyEvent : Event := .memoryCopy ⟨10, 20, 5, 8, 7, 2, 1, 64, ⟨3, 0, none⟩, 0, 0⟩

end Sdk
end Rocprofsys
