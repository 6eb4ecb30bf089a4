import Rocprofsys.Rocpd.ProcessorIntegrity

namespace Rocprofsys
namespace Rocpd

open Base Base.Fallible
open TraceCache (Bytes MetadataRegistry)

/-! ## Samples that can be stored -/

/-- The operations whose type and level pass the checks of the table. -/
def storedOperations : List String :=
  ["MEMORY_ALLOCATION_ALLOCATE", "MEMORY_ALLOCATION_VMEM_ALLOCATE", "MEMORY_ALLOCATION_FREE",
    "MEMORY_ALLOCATION_VMEM_FREE", "SCRATCH_MEMORY_ALLOC", "SCRATCH_MEMORY_FREE"]

section Fits

variable (host : Host) (registry : MetadataRegistry) (agents : List TraceCache.Agent)

def ThreadKnown (threadId : UInt64) : Prop :=
  threadId ∈ registry.threads.entries.map TraceCache.Thread.threadId

def AgentKnown (handle : UInt64) : Prop := ∃ agent ∈ agents, agent.handle = handle

/-- The operation has a name, and one of those that are stored. -/
def OperationStored (kind operation : Int32) : Prop :=
  ∃ name ∈ storedOperations, host.nameAt kind operation = some (text name)

/-- What a sample refers to is there, and what it says can be read and stored. -/
def SampleFits : TraceCache.Sample → Prop
  | .kernelDispatch kds =>
    AgentKnown agents kds.agentIdHandle ∧ ThreadKnown registry kds.threadId ∧
      kds.kernelId ∈ registry.kernelSymbols.entries.map TraceCache.KernelSymbol.kernelId ∧
        kds.queueIdHandle ∈ registry.queues.entries ∧ kds.streamHandle ∈ registry.streams.entries
  | .scratchMemory sms =>
    OperationStored host sms.kind sms.operation ∧ AgentKnown agents sms.agentIdHandle ∧
      ThreadKnown registry sms.threadId ∧ sms.queueIdHandle ∈ registry.queues.entries ∧
        sms.streamHandle ∈ registry.streams.entries
  | .memoryCopy mcs =>
    (host.nameAt mcs.kind mcs.operation).isSome = true ∧ ThreadKnown registry mcs.threadId ∧
      AgentKnown agents mcs.dstAgentIdHandle ∧ AgentKnown agents mcs.srcAgentIdHandle ∧
        0 ∈ registry.queues.entries ∧ mcs.streamHandle ∈ registry.streams.entries
  | .memoryAllocate mas =>
    ThreadKnown registry mas.threadId ∧ (mas.agentIdHandle = host.invalidContext ∨
      AgentKnown agents mas.agentIdHandle ∧ OperationStored host mas.kind mas.operation ∧
        0 ∈ registry.queues.entries ∧ mas.streamHandle ∈ registry.streams.entries)
  | .region rs =>
    ThreadKnown registry rs.threadId ∧
      (TraceCache.processArgumentsString rs.argsStr).toOption.isSome = true
  | .inTime _ => True
  | .pmcEventWith pmc =>
    ∃ agent ∈ agents, agent.type = pmc.deviceType ∧ agent.deviceId = pmc.deviceId.toUInt64
  | .amdSmi amdSmi =>
    (∃ agent ∈ agents, agent.type = Core.agentTypeGpu ∧
      agent.deviceTypeIndex = amdSmi.deviceId.toUInt64) ∧
        (Gpu.AmdSmi.insertedSamples amdSmi).isSome = true
  | .cpuFreq _ => ∃ agent ∈ agents, agent.type = Core.agentTypeCpu ∧ agent.deviceTypeIndex = 0
  | .backtraceRegion bts => ThreadKnown registry bts.threadId

end Fits

/-- The `CHECK` constraints of an allocation. -/
def operationPasses (operation : String × String) : Bool :=
  isOneOf ["ALLOC", "FREE", "REALLOC", "RECLAIM"] (text operation.1) &&
    isOneOf ["REAL", "VIRTUAL", "SCRATCH"] (text operation.2)

theorem parsingMap_passes_iff : ∀ item ∈ parsingMap,
    operationPasses item.2 = true ↔ ∃ operation ∈ storedOperations, text item.1 = text operation := by
  decide +kernel

theorem storedOperations_parsed : ∀ operation ∈ storedOperations,
    ∃ item ∈ parsingMap, text item.1 = text operation := by
  decide +kernel

/-- They pass exactly for the stored operations. -/
theorem operationPasses_iff (name : Bytes) : operationPasses (parseMemoryOperationName name) = true ↔
    ∃ operation ∈ storedOperations, name = text operation := by
  unfold parseMemoryOperationName
  cases hfind : parsingMap.find? fun item => text item.1 == name with
  | some item =>
    have hmatch := List.find?_some hfind
    rw [← eq_of_beq hmatch]
    exact parsingMap_passes_iff item (List.mem_of_find?_eq_some hfind)
  | none =>
    have hunknown : operationPasses ("UNKNOWN", "UNKNOWN") = false := by decide +kernel
    rw [hunknown]
    refine ⟨fun h => (by cases h), fun h => ?_⟩
    obtain ⟨operation, hstored, hname⟩ := h
    obtain ⟨item, hitem, heq⟩ := storedOperations_parsed operation hstored
    have hnot := List.find?_eq_none.mp hfind item hitem
    rw [hname, heq] at hnot
    exact absurd (beq_self_eq_true _) hnot

/-! ## Handlers -/

section Handlers

variable {host : Host} {registry : MetadataRegistry} {agents : List TraceCache.Agent}
  {stored : StoredAgents} {listed : Listed} {held held' : List (Table × Nat)} {d : DataProcessor}

/-- The ids that the samples find, among others. -/
def Holds (host : Host) (registry : MetadataRegistry) (stored : StoredAgents)
    (held : List (Table × Nat)) : Prop :=
  ∀ r ∈ agentIds stored ++ ownerHeld host registry, r ∈ held

theorem Holds.cons (h : Holds host registry stored held) (r : Table × Nat) :
    Holds host registry stored (r :: held) := fun r' hr' => List.mem_cons_of_mem _ (h r' hr')

theorem Holds.owner (h : Holds host registry stored held) {r : Table × Nat}
    (hr : r ∈ owner host.nodeId (pid registry)) : r ∈ held :=
  h r (List.mem_append_right _ (mem_ownerHeld hr))

theorem Holds.agent (h : Holds host registry stored held) {id : Nat}
    (hid : (Table.agent, id) ∈ agentIds stored) : (Table.agent, id) ∈ held :=
  h _ (List.mem_append_left _ hid)

theorem finishes_mapKnownThread (h : Ready (listedOf registry stored) held d) (threadId : UInt64) :
    Finishes (mapThreadId threadId.toNat) d (ThreadKnown registry threadId)
      fun id t => Ready (listedOf registry stored) ((.thread, id) :: held) t :=
  (finishes_mapThreadId h threadId.toNat).congr mem_map_toNat_iff

theorem finishes_baseIdOf (is : TraceCache.Agent → Bool) :
    Finishes (ofOption (stored.baseIdOf is)) d (∃ agent ∈ stored.map Prod.fst, is agent = true)
      fun id t => (Table.agent, id) ∈ agentIds stored ∧ t = d :=
  (finishes_ofOption _).imp (isSome_baseIdOf rfl is) fun _ _ _ hid => ⟨mem_agentIds hid.1, hid.2⟩

theorem finishes_baseIdByHandle (handle : UInt64) :
    Finishes (baseIdByHandle stored handle) d (AgentKnown (stored.map Prod.fst) handle)
      fun id t => (Table.agent, id) ∈ agentIds stored ∧ t = d := by
  refine (finishes_baseIdOf fun agent => agent.handle == handle).congr ?_
  simp only [AgentKnown, beq_iff_eq]

/-- The `base_id` of what `get_agent_by_type_index` returns. -/
theorem finishes_baseIdByTypeIndex (type : UInt8) (index : UInt64) :
    Finishes (ofOption (stored.baseIdOf fun agent =>
        agent.type == type && agent.deviceTypeIndex == index)) d
      (∃ agent ∈ stored.map Prod.fst, agent.type = type ∧ agent.deviceTypeIndex = index)
      fun id t => (Table.agent, id) ∈ agentIds stored ∧ t = d := by
  refine (finishes_baseIdOf fun agent =>
    agent.type == type && agent.deviceTypeIndex == index).congr ?_
  simp only [Bool.and_eq_true, beq_iff_eq]

theorem mem_map_toNat (handles : List UInt64) (handle : UInt64) :
    handle.toNat ∈ handles.map UInt64.toNat ↔ handle ∈ handles := by
  simp only [List.mem_map, UInt64.toNat_inj, exists_eq_right]

/-- A plain row, with all that it refers to held but for the handles. -/
theorem finishes_plain (hfresh : FreshRowIds host.rowId) (h : Ready listed held' d)
    (hsub : ∀ r ∈ held, r ∈ held') {row : Row} (hplain : row.isPlain = true)
    (hheld : ∀ r ∈ row.references, r.1.isHandle = false → r ∈ held') :
    Finishes (inserting' fun d => (d.execute host.rowId row).1) d
      ((∀ r ∈ row.references, r.1.isHandle = true → r.2 ∈ listed.ids r.1) ∧ row.passesChecks = true)
      fun _ t => Ready listed held t :=
  (finishes_execute' hfresh h hplain).imp (and_congr (h.forall_mem_iff hheld) Iff.rfl)
    fun _ _ _ ht => ht.weaken hsub

theorem finishes_insertKernelDispatch (hfresh : FreshRowIds host.rowId) (h : Ready listed held' d)
    (hsub : ∀ r ∈ held, r ∈ held') {columns : KernelDispatch}
    (howner : ∀ r ∈ owner columns.nid columns.pid, r ∈ held')
    (hthread : (Table.thread, columns.tid) ∈ held')
    (hagent : (Table.agent, columns.agentId) ∈ held')
    (hname : (Table.string, columns.regionNameId) ∈ held')
    (hevent : (Table.event, columns.eventId) ∈ held') :
    Finishes (inserting' fun d => d.insertKernelDispatch host.rowId columns) d
      (columns.kernelId ∈ listed.ids .kernelSymbol ∧ columns.queueId ∈ listed.ids .queue ∧
        columns.streamId ∈ listed.ids .stream)
      fun _ t => Ready listed held t := by
  refine (@finishes_plain host listed held held' d hfresh h hsub (.kernelDispatch columns) rfl
    ?_).congr ?_
  · simp only [owner, List.forall_mem_cons] at howner
    simp [Row.references, owner, howner, hthread, hagent, hname, hevent, Table.isHandle]
  · simp [Row.references, owner, Row.passesChecks, Table.isHandle]

theorem finishes_insertMemoryCopy (hfresh : FreshRowIds host.rowId) (h : Ready listed held' d)
    (hsub : ∀ r ∈ held, r ∈ held') {columns : MemoryCopy}
    (howner : ∀ r ∈ owner columns.nid columns.pid, r ∈ held')
    (hthread : (Table.thread, columns.tid) ∈ held')
    (hname : (Table.string, columns.nameId) ∈ held')
    (hdst : (Table.agent, columns.dstAgentId) ∈ held')
    (hsrc : (Table.agent, columns.srcAgentId) ∈ held')
    (hregionName : (Table.string, columns.regionNameId) ∈ held')
    (hevent : (Table.event, columns.eventId) ∈ held') :
    Finishes (inserting' fun d => d.insertMemoryCopy host.rowId columns) d
      (columns.queueId ∈ listed.ids .queue ∧ columns.streamId ∈ listed.ids .stream)
      fun _ t => Ready listed held t := by
  refine (@finishes_plain host listed held held' d hfresh h hsub (.memoryCopy columns) rfl
    ?_).congr ?_
  · simp only [owner, List.forall_mem_cons] at howner
    simp [Row.references, owner, howner, hthread, hname, hdst, hsrc, hregionName, hevent,
      Table.isHandle]
  · simp [Row.references, owner, Row.passesChecks, Table.isHandle, and_comm]

theorem finishes_insertMemoryAlloc (hfresh : FreshRowIds host.rowId) (h : Ready listed held' d)
    (hsub : ∀ r ∈ held, r ∈ held') {columns : MemoryAllocate}
    (howner : ∀ r ∈ owner columns.nid columns.pid, r ∈ held')
    (hthread : (Table.thread, columns.tid) ∈ held') {agentId : Nat}
    (hagentId : columns.agentId = some agentId) (hagent : (Table.agent, agentId) ∈ held')
    (hevent : (Table.event, columns.eventId) ∈ held') :
    Finishes (inserting' fun d => d.insertMemoryAlloc host.rowId columns) d
      ((Row.memoryAllocate columns).passesChecks = true ∧ columns.queueId ∈ listed.ids .queue ∧
        columns.streamId ∈ listed.ids .stream)
      fun _ t => Ready listed held t := by
  refine (@finishes_plain host listed held held' d hfresh h hsub (.memoryAllocate columns) rfl
    ?_).congr ?_
  · simp only [owner, List.forall_mem_cons] at howner
    simp [Row.references, owner, howner, hthread, hagentId, hagent, hevent, Table.isHandle]
  · rw [and_comm]
    refine and_congr Iff.rfl ?_
    simp [Row.references, owner, Table.isHandle, hagentId, and_comm]

theorem finishes_insertRegion (hfresh : FreshRowIds host.rowId) (h : Ready listed held' d)
    (hsub : ∀ r ∈ held, r ∈ held') (howner : ∀ r ∈ owner host.nodeId (pid registry), r ∈ held')
    (startTime endTime : Nat) {threadId nameId eventId : Nat}
    (hthread : (Table.thread, threadId) ∈ held') (hname : (Table.string, nameId) ∈ held')
    (hevent : (Table.event, eventId) ∈ held') :
    Finishes (insertRegion host registry threadId startTime endTime nameId eventId) d True
      fun _ t => Ready listed held t := by
  refine (@finishes_plain host listed held held' d hfresh h hsub (.region ⟨host.nodeId,
    pid registry, threadId, startTime, endTime, nameId, eventId, noData⟩) rfl ?_).congr ?_
  · simp only [owner, List.forall_mem_cons] at howner
    simp [Row.references, owner, howner, hthread, hname, hevent, Table.isHandle]
  · simp [Row.references, owner, Row.passesChecks, Table.isHandle]

theorem finishes_insertArgs (hfresh : FreshRowIds host.rowId) (h : Ready listed held d)
    {columns : Arg} (hevent : (Table.event, columns.eventId) ∈ held) :
    Finishes (inserting' fun d => d.insertArgs host.rowId columns) d True
      fun _ t => Ready listed held t := by
  refine (@finishes_plain host listed held held d hfresh h (fun _ hr => hr) (.arg columns) rfl
    ?_).congr ?_
  · simp [Row.references, hevent]
  · simp [Row.references, Row.passesChecks, Table.isHandle]

/-! ### Handlers -/

theorem isSome_find_kernelSymbol (kernelId : UInt64) :
    (registry.kernelSymbols.entries.find? fun symbol => symbol.kernelId == kernelId).isSome = true ↔
      kernelId ∈ registry.kernelSymbols.entries.map TraceCache.KernelSymbol.kernelId := by
  simp [List.find?_isSome]

theorem finishes_handleKernelDispatch (hfresh : FreshRowIds host.rowId)
    (h : Ready (listedOf registry stored) held d) (hholds : Holds host registry stored held)
    (kds : TraceCache.KernelDispatchSample) :
    Finishes (handleKernelDispatch host registry stored kds) d
      (SampleFits host registry (stored.map Prod.fst) (.kernelDispatch kds))
      fun _ t => Ready (listedOf registry stored) held t := by
  unfold handleKernelDispatch
  refine (finishes_baseIdByHandle kds.agentIdHandle).bind_same fun agent hagent => ?_
  refine (finishes_mapKnownThread h kds.threadId).bind fun thread t _ ht => ?_
  refine (finishes_insertString hfresh ht _).bind_always fun category t ht => ?_
  refine ((finishes_ofOption _).congr (isSome_find_kernelSymbol kds.kernelId)).bind
    fun symbol t' hknown hsame => ?_
  rw [hsame.2]
  refine (finishes_insertString hfresh ht _).bind_always fun name t ht => ?_
  refine (finishes_insertEvent hfresh ht (by simp)).bind_always fun event t ht => ?_
  have hmem := hholds.agent hagent
  refine (finishes_insertKernelDispatch hfresh ht (fun r hr => by simp [hr])
    (fun r hr => by simp [hholds.owner hr]) (by simp [dispatchColumns])
    (by simp [dispatchColumns, hmem]) (by simp [dispatchColumns])
    (by simp [dispatchColumns])).congr ?_
  refine (and_iff_right (mem_map_toNat_iff.mpr hknown)).trans ?_
  exact and_congr (mem_map_toNat _ _) (mem_map_toNat _ _)

/-- With its name known, the checks say whether the operation is stored. -/
theorem passesChecks_iff {kind operation : Int32} {name : Bytes}
    (h : host.nameAt kind operation = some name) :
    operationPasses (parseMemoryOperationName name) = true ↔ OperationStored host kind operation := by
  rw [operationPasses_iff]
  refine exists_congr fun stored => and_congr Iff.rfl ?_
  rw [h, Option.some_inj]

theorem OperationStored.isSome {kind operation : Int32} (h : OperationStored host kind operation) :
    (host.nameAt kind operation).isSome = true := by
  obtain ⟨name, _, heq⟩ := h
  rw [heq]
  rfl

theorem finishes_handleScratchMemory (hfresh : FreshRowIds host.rowId)
    (h : Ready (listedOf registry stored) held d) (hholds : Holds host registry stored held)
    (sms : TraceCache.ScratchMemorySample) :
    Finishes (handleScratchMemory host registry stored sms) d
      (SampleFits host registry (stored.map Prod.fst) (.scratchMemory sms))
      fun _ t => Ready (listedOf registry stored) held t := by
  let allowed : Prop := (host.nameAt sms.kind sms.operation).isSome = true ∧
    AgentKnown (stored.map Prod.fst) sms.agentIdHandle ∧ ThreadKnown registry sms.threadId ∧
      OperationStored host sms.kind sms.operation ∧
        sms.queueIdHandle ∈ registry.queues.entries ∧ sms.streamHandle ∈ registry.streams.entries
  suffices hrun : Finishes (handleScratchMemory host registry stored sms) d allowed
      fun _ t => Ready (listedOf registry stored) held t from
    hrun.congr ⟨fun hall => ⟨hall.2.2.2.1, hall.2.1, hall.2.2.1, hall.2.2.2.2⟩,
      fun hall => ⟨hall.1.isSome, hall.2.1, hall.2.2.1, hall.1, hall.2.2.2⟩⟩
  unfold handleScratchMemory
  refine (finishes_ofOption _).bind_same fun name hname => ?_
  refine (finishes_baseIdByHandle sms.agentIdHandle).bind_same fun agent hagent => ?_
  refine (finishes_mapKnownThread h sms.threadId).bind fun thread t _ ht => ?_
  refine (finishes_insertString hfresh ht _).bind_always fun category t ht => ?_
  refine (finishes_insertEvent hfresh ht (by simp)).bind_always fun event t ht => ?_
  have hmem := hholds.agent hagent
  refine (finishes_insertMemoryAlloc hfresh ht (fun r hr => by simp [hr])
    (fun r hr => by simp [hholds.owner hr]) (by simp [scratchColumns]) rfl (by simp [hmem])
    (by simp [scratchColumns])).congr ?_
  exact and_congr (passesChecks_iff hname) (and_congr (mem_map_toNat _ _) (mem_map_toNat _ _))

theorem finishes_handleMemoryCopy (hfresh : FreshRowIds host.rowId)
    (h : Ready (listedOf registry stored) held d) (hholds : Holds host registry stored held)
    (mcs : TraceCache.MemoryCopySample) :
    Finishes (handleMemoryCopy host registry stored mcs) d
      (SampleFits host registry (stored.map Prod.fst) (.memoryCopy mcs))
      fun _ t => Ready (listedOf registry stored) held t := by
  unfold handleMemoryCopy
  refine (finishes_ofOption _).bind_same fun name _ => ?_
  refine (finishes_insertString hfresh h _).bind_always fun nameId t ht => ?_
  refine (finishes_insertString hfresh ht _).bind_always fun category t ht => ?_
  refine (finishes_mapKnownThread ht mcs.threadId).bind fun thread t _ ht => ?_
  refine (finishes_baseIdByHandle mcs.dstAgentIdHandle).bind_same fun dst hdst => ?_
  refine (finishes_baseIdByHandle mcs.srcAgentIdHandle).bind_same fun src hsrc => ?_
  refine (finishes_insertEvent hfresh ht (by simp)).bind_always fun event t ht => ?_
  have hdstMem := hholds.agent hdst
  have hsrcMem := hholds.agent hsrc
  refine (finishes_insertMemoryCopy hfresh ht (fun r hr => by simp [hr])
    (fun r hr => by simp [hholds.owner hr]) (by simp [copyColumns]) (by simp [copyColumns])
    (by simp [copyColumns, hdstMem]) (by simp [copyColumns, hsrcMem]) (by simp [copyColumns])
    (by simp [copyColumns])).congr ?_
  exact and_congr (mem_map_toNat _ 0) (mem_map_toNat _ _)

theorem finishes_handleMemoryAllocate (hfresh : FreshRowIds host.rowId)
    (h : Ready (listedOf registry stored) held d) (hholds : Holds host registry stored held)
    (mas : TraceCache.MemoryAllocateSample) :
    Finishes (handleMemoryAllocate host registry stored mas) d
      (SampleFits host registry (stored.map Prod.fst) (.memoryAllocate mas))
      fun _ t => Ready (listedOf registry stored) held t := by
  unfold handleMemoryAllocate
  refine (finishes_mapKnownThread h mas.threadId).bind fun thread t _ ht => ?_
  by_cases hnone : mas.agentIdHandle = host.invalidContext
  · rw [if_pos hnone]
    exact (finishes_pure ht.drop).congr ⟨fun _ => Or.inl hnone, fun _ => trivial⟩
  rw [if_neg hnone, or_iff_right hnone]
  let allowed : Prop := AgentKnown (stored.map Prod.fst) mas.agentIdHandle ∧
    (host.nameAt mas.kind mas.operation).isSome = true ∧
      OperationStored host mas.kind mas.operation ∧
        0 ∈ registry.queues.entries ∧ mas.streamHandle ∈ registry.streams.entries
  have hallowed : allowed ↔ AgentKnown (stored.map Prod.fst) mas.agentIdHandle ∧
      OperationStored host mas.kind mas.operation ∧
        0 ∈ registry.queues.entries ∧ mas.streamHandle ∈ registry.streams.entries :=
    and_congr Iff.rfl (and_iff_right_of_imp fun hall => hall.1.isSome)
  rw [← hallowed]
  refine (finishes_baseIdByHandle mas.agentIdHandle).bind_same fun agent hagent => ?_
  refine (finishes_ofOption _).bind_same fun name hname => ?_
  refine (finishes_insertString hfresh ht _).bind_always fun category t ht => ?_
  refine (finishes_insertEvent hfresh ht (by simp)).bind_always fun event t ht => ?_
  have hmem := hholds.agent hagent
  refine (finishes_insertMemoryAlloc hfresh ht (fun r hr => by simp [hr])
    (fun r hr => by simp [hholds.owner hr]) (by simp [allocateColumns]) rfl (by simp [hmem])
    (by simp [allocateColumns])).congr ?_
  exact and_congr (passesChecks_iff hname) (and_congr (mem_map_toNat _ 0) (mem_map_toNat _ _))

theorem finishes_handleRegion (hfresh : FreshRowIds host.rowId)
    (h : Ready (listedOf registry stored) held d) (hholds : Holds host registry stored held)
    (rs : TraceCache.RegionSample) :
    Finishes (handleRegion host registry rs) d
      (SampleFits host registry (stored.map Prod.fst) (.region rs))
      fun _ t => Ready (listedOf registry stored) held t := by
  unfold handleRegion
  refine (finishes_mapKnownThread h rs.threadId).bind fun thread t _ ht => ?_
  refine (finishes_insertString hfresh ht _).bind_always fun name t ht => ?_
  refine (finishes_insertString hfresh ht _).bind_always fun category t ht => ?_
  refine (finishes_insertEvent hfresh ht (by simp)).bind_always fun event t ht => ?_
  refine ((finishes_ofOption _).bind_same fun args _ => ?_).congr (and_iff_left trivial)
  refine (finishes_each_always ht fun arg t ht =>
    finishes_insertArgs hfresh ht (by simp [argColumns])).bind_always fun _ t ht => ?_
  exact finishes_insertRegion hfresh ht (fun r hr => by simp [hr])
    (fun r hr => by simp [hholds.owner hr]) _ _ (by simp) (by simp) (by simp)

theorem finishes_handleBacktraceRegion (hfresh : FreshRowIds host.rowId)
    (h : Ready (listedOf registry stored) held d) (hholds : Holds host registry stored held)
    (bts : TraceCache.BacktraceRegionSample) :
    Finishes (handleBacktraceRegion host registry bts) d
      (SampleFits host registry (stored.map Prod.fst) (.backtraceRegion bts))
      fun _ t => Ready (listedOf registry stored) held t := by
  unfold handleBacktraceRegion
  refine ((finishes_mapKnownThread h bts.threadId).bind fun thread t _ ht => ?_).congr
    (and_iff_left trivial)
  refine (finishes_insertString hfresh ht _).bind_always fun name t ht => ?_
  refine (finishes_insertString hfresh ht _).bind_always fun category t ht => ?_
  refine (finishes_insertEvent hfresh ht (by simp)).bind_always fun event t ht => ?_
  refine (finishes_insertRegion hfresh ht (fun r hr => hr)
    (fun r hr => by simp [hholds.owner hr]) _ _ (by simp) (by simp) (by simp)).bind_always
      fun _ t ht => ?_
  exact (finishes_insertSample hfresh ht _ _ (by simp)).mono fun _ t ht =>
    ht.weaken fun r hr => by simp [hr]

theorem finishes_handleInTime (hfresh : FreshRowIds host.rowId) (h : Ready listed held d)
    (its : TraceCache.InTimeSample) :
    Finishes (handleInTime host its) d True fun _ t => Ready listed held t := by
  unfold handleInTime
  refine (finishes_insertString hfresh h _).bind_always fun track t ht => ?_
  refine (finishes_insertEvent hfresh ht (by simp)).bind_always fun event t ht => ?_
  exact (finishes_insertSample hfresh ht _ _ (by simp)).mono fun _ t ht => ht.drop.drop

theorem finishes_handlePmcEventWith (hfresh : FreshRowIds host.rowId)
    (h : Ready listed held d) (pmc : TraceCache.PmcEventWithSample) :
    Finishes (handlePmcEventWith host stored pmc) d
      (SampleFits host registry (stored.map Prod.fst) (.pmcEventWith pmc))
      fun _ t => Ready listed held t := by
  unfold handlePmcEventWith
  refine (finishes_insertString hfresh h _).bind_always fun track t ht => ?_
  refine (((finishes_baseIdOf fun agent => agent.type == pmc.deviceType &&
    agent.deviceId == pmc.deviceId.toUInt64).bind_same fun agent _ => ?_).congr
      (and_iff_left trivial)).congr ?_
  · refine (finishes_insertEvent hfresh ht (by simp)).bind_always fun event t ht => ?_
    refine (finishes_insertSample hfresh ht _ _ (by simp)).bind_always fun _ t ht => ?_
    exact (finishes_insertPmcEvent hfresh ht _ _ _ (by simp)).mono fun _ t ht => ht.drop.drop
  · simp only [SampleFits, Bool.and_eq_true, beq_iff_eq]

theorem finishes_insertEventAndSample (hfresh : FreshRowIds host.rowId) (h : Ready listed held d)
    {eventId : Nat} (hevent : (Table.event, eventId) ∈ held) (baseId timestamp : Nat)
    (pmc track : Bytes) (value : Double) :
    Finishes (insertEventAndSample host eventId baseId timestamp pmc track value) d True
      fun _ t => Ready listed held t := by
  unfold insertEventAndSample
  refine (finishes_insertPmcEvent hfresh h _ _ _ hevent).bind_always fun _ t ht => ?_
  exact finishes_insertSample hfresh ht _ _ hevent

theorem finishes_handleAmdSmi (hfresh : FreshRowIds host.rowId) (h : Ready listed held d)
    (amdSmi : TraceCache.AmdSmiSample) :
    Finishes (handleAmdSmi host stored amdSmi) d
      (SampleFits host registry (stored.map Prod.fst) (.amdSmi amdSmi))
      fun _ t => Ready listed held t := by
  unfold handleAmdSmi
  refine (finishes_insertString hfresh h _).bind_always fun name t ht => ?_
  refine (finishes_insertEvent hfresh ht (by simp)).bind_always fun event t ht => ?_
  refine (finishes_baseIdByTypeIndex _ _).bind_same fun agent _ => ?_
  refine ((finishes_ofOption _).bind_same fun values _ => ?_).congr (and_iff_left trivial)
  exact (finishes_each_always ht fun value t ht => finishes_insertEventAndSample hfresh ht
    (by simp) _ _ _ _ _).mono fun _ t ht => ht.drop.drop

theorem finishes_handleCpuFreq (hfresh : FreshRowIds host.rowId) (h : Ready listed held d)
    (cpuFreq : TraceCache.CpuFreqSample) :
    Finishes (handleCpuFreq host stored cpuFreq) d
      (SampleFits host registry (stored.map Prod.fst) (.cpuFreq cpuFreq))
      fun _ t => Ready listed held t := by
  unfold handleCpuFreq
  refine (finishes_insertString hfresh h _).bind_always fun name t ht => ?_
  refine (finishes_insertEvent hfresh ht (by simp)).bind_always fun event t ht => ?_
  refine ((finishes_baseIdByTypeIndex _ _).bind_same fun agent _ => ?_).congr
    (and_iff_left trivial)
  refine (finishes_each_always ht fun value t ht => finishes_insertEventAndSample hfresh ht
    (by simp) _ _ _ _ _).bind_always fun _ t ht => ?_
  exact (finishes_each_always ht fun core t ht => finishes_insertEventAndSample hfresh ht
    (by simp) _ _ _ _ _).mono fun _ t ht => ht.drop.drop

/-- Each sample gets in exactly if it fits, and the processor is ready for the next. -/
theorem finishes_handle (hfresh : FreshRowIds host.rowId)
    (h : Ready (listedOf registry stored) held d) (hholds : Holds host registry stored held)
    (sample : TraceCache.Sample) :
    Finishes (handle host registry stored sample) d
      (SampleFits host registry (stored.map Prod.fst) sample)
      fun _ t => Ready (listedOf registry stored) held t :=
  match sample with
  | .kernelDispatch item => finishes_handleKernelDispatch hfresh h hholds item
  | .scratchMemory item => finishes_handleScratchMemory hfresh h hholds item
  | .memoryCopy item => finishes_handleMemoryCopy hfresh h hholds item
  | .memoryAllocate item => finishes_handleMemoryAllocate hfresh h hholds item
  | .region item => finishes_handleRegion hfresh h hholds item
  | .inTime item => finishes_handleInTime hfresh h item
  | .pmcEventWith item => finishes_handlePmcEventWith hfresh h item
  | .amdSmi item => finishes_handleAmdSmi hfresh h item
  | .cpuFreq item => finishes_handleCpuFreq hfresh h item
  | .backtraceRegion item => finishes_handleBacktraceRegion hfresh h hholds item

end Handlers

/-! ## The whole processing -/

theorem finishes_process {host : Host} (hfresh : FreshRowIds host.rowId)
    (registry : MetadataRegistry) (agents : List TraceCache.Agent)
    (samples : List TraceCache.Sample) :
    Finishes (process host registry agents samples) .empty
      (MetadataFits host registry agents ∧ ∀ s ∈ samples, SampleFits host registry agents s)
      fun _ d => Valid d.database := by
  refine (finishes_postProcessMetadata hfresh agents).bind fun stored t _ hprepared => ?_
  rw [← hprepared.agents]
  exact (finishes_each_same hprepared.ready fun sample t ht =>
    finishes_handle hfresh ht (fun _ hr => hr) sample).mono fun _ t ht =>
      valid_of_consistent ht.consistent

/-- A host that knows the names of the copies only. -/
def copyHost : Host where
  rowId := autoincrement
  nodeId := 1
  nodeInfo := ⟨0, [], [], [], [], [], [], []⟩
  demangle := id
  nameAt kind _ := if kind = 2 then some (text "MEMORY_COPY_HOST_TO_DEVICE") else none
  bufferNames := []
  callbackNames := []
  threadTimes _ := none
  invalidContext := 0
  fileStorage := 1
  memoryStorage := 2
  toDouble _ := ⟨0⟩
  widen _ := ⟨0⟩

def copyRegistry : MetadataRegistry :=
  ((MetadataRegistry.empty.addThreadInfo ⟨1, 2, 5, 0, 0, noData⟩).addQueue 0).addStream 0

def copyBy (threadId : UInt64) : TraceCache.Sample :=
  .memoryCopy ⟨10, 20, threadId, 8, 7, 2, 1, 64, 0, 0, 0, 0, 0⟩

def copyAgents : List TraceCache.Agent :=
  [Core.AgentManager.bare 0 7, Core.AgentManager.bare 1 8]

theorem metadataFits_copyRegistry : MetadataFits copyHost copyRegistry copyAgents where
  tracks _ h := absurd h List.not_mem_nil
  codeObjects _ h := absurd h List.not_mem_nil
  kernelSymbols _ h := absurd h List.not_mem_nil
  pmcInfos before _ _ h := by cases before <;> cases h

theorem sampleFits_copyBy : SampleFits copyHost copyRegistry copyAgents (copyBy 5) :=
  ⟨rfl, List.mem_cons_self, ⟨Core.AgentManager.bare 1 8, by simp [copyAgents], rfl⟩,
    ⟨Core.AgentManager.bare 0 7, by simp [copyAgents], rfl⟩, List.mem_cons_self,
      List.mem_cons_self⟩

end Rocpd
end Rocprofsys
