import Mathlib.Algebra.BigOperators.Group.List.Basic
import Mathlib.Algebra.Order.Ring.Rat
import Rocprofsys.Base.Aggregate
import Rocprofsys.Base.Decimal
import Rocprofsys.Base.Emission
import Rocprofsys.Sdk.AgentProfile
import Rocprofsys.TraceCache.MetadataRegistry
import Rocprofsys.TraceCache.SampleType

namespace Rocprofsys
namespace Sdk

open Base TraceCache

/-! ## Names -/

/-- `[digits]` at the front of a name: the digits. -/
def indexAtFront : List UInt8 → Option (List UInt8)
  | 91 :: rest =>
    let digits := rest.takeWhile isDigit
    if digits ≠ [] ∧ (rest.dropWhile isDigit).head? = some 93 then some digits else none
  | _ => none

/-- Whether an index starts in the rest of the line. -/
def indexInLine : List UInt8 → Bool
  | [] => false
  | b :: rest => (indexAtFront (b :: rest)).isSome || (!isLineBreak b && indexInLine rest)

/-- Replaces the last index of each line, `[n]` by `_n`, after leaving out some bytes that are
written already. -/
def replaceIndexFrom : ℕ → List UInt8 → List UInt8
  | _, [] => []
  | skip + 1, _ :: rest => replaceIndexFrom skip rest
  | 0, b :: rest =>
    if !isLineBreak b && indexInLine rest then b :: replaceIndexFrom 0 rest
    else
      match indexAtFront (b :: rest) with
      | none => b :: replaceIndexFrom 0 rest
      | some digits => 95 :: (digits ++ replaceIndexFrom (digits.length + 1) rest)

/-- `std::regex_replace` of `(.*)\[([0-9]+)\]` by `$1_$2`. -/
def replaceIndex (name : List UInt8) : List UInt8 := replaceIndexFrom 0 name

/-- `GPU <metric> [<device>]`. -/
def counterTrackName (deviceId : UInt64) (name : List UInt8) : List UInt8 :=
  [71, 80, 85, 32] ++ replaceIndex name ++ [32, 91] ++ decimal deviceId.toNat ++ [93]

example : counterTrackName 1 [84, 91, 49, 50, 93] =
    [71, 80, 85, 32, 84, 95, 49, 50, 32, 91, 49, 93] := by decide +kernel

/-! ## Records -/

/-- `rocprofiler_record_counter_t`. The value is an exact number. -/
structure RecordCounter where
  id : UInt64
  counterValue : ℚ
  agentId : UInt64
  deriving DecidableEq

structure DispatchInfo where
  dispatchId : UInt64
  agentId : UInt64
  kernelId : UInt64
  queueId : UInt64

structure KernelSymbol where
  kernelId : UInt64
  kernelName : List UInt8

structure TimingInterval where
  start : UInt64
  «end» : UInt64
  deriving DecidableEq

structure CounterStorage where
  deviceId : UInt32
  metricName : List UInt8
  trackName : List UInt8
  deriving DecidableEq

/-- What the callback looks things up in. -/
structure CounterTool extends ClientData where
  kernelSymbolRecords : List KernelSymbol
  agents : List Agent
  /-- Of the SDK: the counter that the id of a record belongs to. -/
  queryRecordCounterId : UInt64 → UInt64
  demangle : List UInt8 → List UInt8

/-- `pmc_event_with_sample`, with the double as an exact number. -/
structure CounterSample extends InTimeSample where
  deviceId : UInt32
  deviceType : UInt8
  pmcInfoName : List UInt8
  value : ℚ
  deriving DecidableEq

inductive CounterOutput where
  | bundle (name : List UInt8) (queueId : UInt64) (value : ℚ)
  | traceCounter (track : List UInt8) (timestamp : UInt64) (value : ℚ)
  | sample (s : CounterSample)
  deriving DecidableEq

structure CounterState where
  kernelDispatchTimestamps : UInt64 → Option TimingInterval
  /-- By agent and counter; `none` once the tool is finalized. -/
  agentCounterStorage : Option (UInt64 → UInt64 → Option CounterStorage)
  written : List CounterOutput

namespace CounterTool

variable (tool : CounterTool)

def getKernelSymbolInfo (kernelId : UInt64) : Option KernelSymbol :=
  tool.kernelSymbolRecords.find? fun itr => itr.kernelId == kernelId

def getToolCounterInfo (agentId counterId : UInt64) : Option CounterInfo :=
  (tool.agentCounterInfo.lookup agentId).bind fun infos => infos.find? fun itr => itr.id == counterId

def getAgentByHandle (deviceHandle : UInt64) : Option Agent :=
  tool.agents.find? fun agent => agent.handle == deviceHandle

end CounterTool

/-! ## counter_event -/

/-- The conversion of a `double` to `size_t`, towards zero; it is undefined outside of the
range of the type. -/
def toSizeT (value : ℚ) : Option ℕ :=
  let whole := value.num.tdiv value.den
  if 0 ≤ whole ∧ whole < 2 ^ 64 then some whole.toNat else none

/-- `{}`. -/
def emptyObject : List UInt8 := [123, 125]

def counterSample (agent : Agent) (trackName : List UInt8) (start : UInt64) (value : ℕ) :
    CounterSample where
  categoryEnumId := 13
  trackName := trackName
  timestampNs := start
  eventMetadata := emptyObject
  stackId := 0
  parentStackId := 0
  correlationId := 0
  callStack := emptyObject
  lineInfo := emptyObject
  deviceId := agent.deviceId.toUInt32
  deviceType := agent.type
  pmcInfoName := trackName
  value := value

def counterBundle (tool : CounterTool) (kernSymData : KernelSymbol) (info : DispatchInfo)
    (record : RecordCounter) : CounterOutput :=
  .bundle (tool.demangle kernSymData.kernelName) info.queueId record.counterValue

def timedOutputs (record : RecordCounter) (trackName : List UInt8) (timing : TimingInterval)
    (value : ℕ) (agent : Agent) : List CounterOutput :=
  [.traceCounter trackName timing.start record.counterValue,
    .traceCounter trackName timing.end 0,
    .sample (counterSample agent trackName timing.start value)]

/-- `counter_event::operator()` for a track that exists; `none` when an unknown kernel or agent
is used, or a value that `size_t` cannot have. -/
def counterEvent (tool : CounterTool) (info : DispatchInfo) (record : RecordCounter)
    (trackName : List UInt8) (timing : TimingInterval) : Option (List CounterOutput) :=
  (tool.getKernelSymbolInfo info.kernelId).bind fun kernSymData =>
    if timing.start > 0 ∧ timing.end > timing.start then
      (toSizeT record.counterValue).bind fun value =>
        (tool.getAgentByHandle record.agentId).map fun agent =>
          counterBundle tool kernSymData info record ::
            timedOutputs record trackName timing value agent
    else some [counterBundle tool kernSymData info record]

/-! ## counter_record_callback -/

def addRecord (stored record : RecordCounter) : RecordCounter :=
  { stored with counterValue := stored.counterValue + record.counterValue }

/-- `_aggregate`. -/
def aggregateRecords (tool : CounterTool) (records : List RecordCounter) :
    List (UInt64 × RecordCounter) :=
  aggregate addRecord (records.map fun record => (tool.queryRecordCounterId record.id, record))

/-- The storage that a counter has, or gets at its first record. -/
def counterStorage (tool : CounterTool) (storages : UInt64 → UInt64 → Option CounterStorage)
    (agentId counterId : UInt64) : Option CounterStorage :=
  match storages agentId counterId with
  | some storage => some storage
  | none =>
    (tool.getGpuToolAgent agentId).bind fun agent =>
      (tool.getToolCounterInfo agentId counterId).map fun info =>
        ⟨agent.deviceId.toUInt32, info.name,
          counterTrackName agent.deviceId.toUInt32.toUInt64 info.name⟩

def emplaceStorage (storages : UInt64 → UInt64 → Option CounterStorage) (agentId counterId : UInt64)
    (storage : CounterStorage) : UInt64 → UInt64 → Option CounterStorage :=
  fun agent counter => if agent = agentId ∧ counter = counterId then some storage
    else storages agent counter

/-- One turn of the loop over `_aggregate`; `none` when it aborts. -/
def recordCounter (tool : CounterTool) (info : DispatchInfo) (timing : TimingInterval)
    (s : CounterState) (itr : UInt64 × RecordCounter) : Option CounterState :=
  s.agentCounterStorage.bind fun storages =>
    (counterStorage tool storages info.agentId itr.1).bind fun storage =>
      (counterEvent tool info itr.2 storage.trackName timing).map fun outputs =>
        { s with
          agentCounterStorage := some (emplaceStorage storages info.agentId itr.1 storage)
          written := s.written ++ outputs }

/-- `counter_record_callback`; the order in which `_aggregate` is iterated is that of
`order`. -/
def counterRecordCallback (tool : CounterTool) (s : CounterState) (info : DispatchInfo)
    (order : List (UInt64 × RecordCounter)) : Option CounterState :=
  if s.agentCounterStorage.isNone then some s
  else
    let timing := (s.kernelDispatchTimestamps info.dispatchId).getD ⟨0, 0⟩
    let erased := { s with
      kernelDispatchTimestamps := fun id =>
        if id = info.dispatchId then none else s.kernelDispatchTimestamps id }
    runFrom (recordCounter tool info timing) erased order

/-! ## What a dispatch writes -/

variable {tool : CounterTool} {s : CounterState} {info : DispatchInfo} {timing : TimingInterval}
  {records : List RecordCounter} {order : List (UInt64 × RecordCounter)}

/-- The counters of the records, each once. -/
def counterIds (tool : CounterTool) (records : List RecordCounter) : List UInt64 :=
  (records.map fun record => tool.queryRecordCounterId record.id).eraseDups

/-- The records of a counter. -/
def recordsOf (tool : CounterTool) (records : List RecordCounter) (counterId : UInt64) :
    List RecordCounter :=
  records.filter fun record => tool.queryRecordCounterId record.id == counterId

def counterSum (tool : CounterTool) (records : List RecordCounter) (counterId : UInt64) : ℚ :=
  ((recordsOf tool records counterId).map RecordCounter.counterValue).sum

/-- The track of a counter, also if it is yet to be made. -/
def CounterState.trackName (tool : CounterTool) (s : CounterState) (agentId counterId : UInt64) :
    Option (List UInt8) :=
  s.agentCounterStorage.bind fun storages =>
    (counterStorage tool storages agentId counterId).map CounterStorage.trackName

/-- The track and the value of a sample in the trace cache. -/
def CounterOutput.stored : CounterOutput → Option (Option (List UInt8) × ℚ)
  | .sample s => some (some s.trackName, s.value)
  | _ => none

/-- The track and the value of what is written at a time. -/
def CounterOutput.tracedAt (time : UInt64) : CounterOutput → Option (Option (List UInt8) × ℚ)
  | .traceCounter track timestamp value =>
    if timestamp = time then some (some track, value) else none
  | _ => none

/-- The trace cache gets the sum of each counter once, and so do the tracks at the start. -/
def CountersAgree (tool : CounterTool) (s : CounterState) (info : DispatchInfo)
    (timing : TimingInterval) (records : List RecordCounter)
    (order : List (UInt64 × RecordCounter)) : Prop :=
  let totals := (counterIds tool records).map fun counterId =>
    (s.trackName tool info.agentId counterId, counterSum tool records counterId)
  ∃ s' outputs, counterRecordCallback tool s info order = some s' ∧
    s'.written = s.written ++ outputs ∧
    (outputs.filterMap CounterOutput.stored).Perm totals ∧
    (outputs.filterMap (CounterOutput.tracedAt timing.start)).Perm totals

/-- The kernel, the track and the agent of a counter can be looked up, and its sum is a whole
number of 64 bits. -/
structure Recordable (tool : CounterTool) (s : CounterState) (info : DispatchInfo)
    (records : List RecordCounter) (counterId : UInt64) : Prop where
  kernel : (tool.getKernelSymbolInfo info.kernelId).isSome
  track : (s.trackName tool info.agentId counterId).isSome
  agent : ∃ record, (recordsOf tool records counterId).head? = some record ∧
    (tool.getAgentByHandle record.agentId).isSome
  whole : ∃ n : ℕ, n < 2 ^ 64 ∧ counterSum tool records counterId = n

/-! ### The aggregate -/

theorem keys_records (records : List RecordCounter) :
    keys (records.map fun record => (tool.queryRecordCounterId record.id, record)) =
      counterIds tool records := by
  rw [keys, List.map_map]
  rfl

theorem group_records (records : List RecordCounter) (counterId : UInt64) :
    group counterId (records.map fun record => (tool.queryRecordCounterId record.id, record)) =
      recordsOf tool records counterId := by
  rw [group, List.filter_map, List.map_map]
  exact List.map_id _

theorem map_fst_aggregateRecords (records : List RecordCounter) :
    (aggregateRecords tool records).map Prod.fst = counterIds tool records := by
  rw [aggregateRecords, map_fst_aggregate, keys_records]

theorem counterValue_of_mem {entry : UInt64 × RecordCounter}
    (h : entry ∈ aggregateRecords tool records) :
    entry.2.counterValue = counterSum tool records entry.1 := by
  rw [counterSum, ← group_records]
  exact @aggregate_sum _ _ _ addRecord _ _ RecordCounter.counterValue (fun _ _ => rfl) _ _ h

/-- The agent of the first record of a counter. -/
theorem agentId_of_mem {entry : UInt64 × RecordCounter}
    (h : entry ∈ aggregateRecords tool records) :
    (recordsOf tool records entry.1).head?.map RecordCounter.agentId = some entry.2.agentId := by
  rw [← group_records]
  exact @aggregate_head? _ _ _ addRecord _ RecordCounter.agentId (fun _ _ => rfl) _ _ h

/-! ### One counter -/

theorem toSizeT_lt {value : ℚ} {n : ℕ} (h : toSizeT value = some n) : n < 2 ^ 64 := by
  rw [toSizeT] at h
  by_cases hrange : 0 ≤ value.num.tdiv value.den ∧ value.num.tdiv value.den < 2 ^ 64
  · rw [if_pos hrange, Option.some_inj] at h
    omega
  · rw [if_neg hrange] at h
    cases h

theorem toSizeT_natCast {n : ℕ} (h : n < 2 ^ 64) : toSizeT n = some n := by
  have hwhole : (n : ℚ).num.tdiv (n : ℚ).den = n := by
    rw [Rat.num_natCast, Rat.den_natCast]
    exact Int.tdiv_one _
  unfold toSizeT
  rw [hwhole, if_pos ⟨by omega, by omega⟩]
  rfl

section Timed

variable (hstart : timing.start > 0) (hend : timing.end > timing.start)

include hstart hend

theorem counterEvent_eq_some_iff {record : RecordCounter} {track : List UInt8}
    {outputs : List CounterOutput} :
    counterEvent tool info record track timing = some outputs ↔
      ∃ kernSymData value agent, tool.getKernelSymbolInfo info.kernelId = some kernSymData ∧
        toSizeT record.counterValue = some value ∧
        tool.getAgentByHandle record.agentId = some agent ∧
        counterBundle tool kernSymData info record ::
          timedOutputs record track timing value agent = outputs := by
  simp only [counterEvent, if_pos (And.intro hstart hend), Option.bind_eq_some_iff,
    Option.map_eq_some_iff, exists_and_left]

/-- What an entry has written is its value on its track. -/
theorem traced_of_counterEvent {record : RecordCounter} {track : List UInt8}
    {outputs : List CounterOutput}
    (h : counterEvent tool info record track timing = some outputs) :
    outputs.filterMap (CounterOutput.tracedAt timing.start) =
      [(some track, record.counterValue)] := by
  have hne : timing.end ≠ timing.start := by
    intro heq
    rw [heq] at hend
    exact absurd hend (UInt64.lt_irrefl _)
  obtain ⟨kernSymData, value, agent, -, -, -, rfl⟩ :=
    (counterEvent_eq_some_iff hstart hend).mp h
  simp [List.filterMap_cons, counterBundle, timedOutputs, CounterOutput.tracedAt, hne]

/-- What an entry has stored is the whole part of its value. -/
theorem stored_of_counterEvent {record : RecordCounter} {track : List UInt8}
    {outputs : List CounterOutput}
    (h : counterEvent tool info record track timing = some outputs) :
    ∃ n : ℕ, toSizeT record.counterValue = some n ∧
      outputs.filterMap CounterOutput.stored = [(some track, (n : ℚ))] := by
  obtain ⟨kernSymData, value, agent, -, hvalue, -, rfl⟩ :=
    (counterEvent_eq_some_iff hstart hend).mp h
  exact ⟨value, hvalue, rfl⟩

end Timed

/-! ### The loop -/

/-- What the turn of an entry writes. -/
def entryOutputs (tool : CounterTool) (s : CounterState) (info : DispatchInfo)
    (timing : TimingInterval) (itr : UInt64 × RecordCounter) : Option (List CounterOutput) :=
  (s.trackName tool info.agentId itr.1).bind fun track => counterEvent tool info itr.2 track timing

theorem counterStorage_emplaceStorage {storages : UInt64 → UInt64 → Option CounterStorage}
    {agentId counterId : UInt64} {storage : CounterStorage}
    (h : counterStorage tool storages agentId counterId = some storage) (counterId' : UInt64) :
    counterStorage tool (emplaceStorage storages agentId counterId storage) agentId counterId' =
      counterStorage tool storages agentId counterId' := by
  by_cases heq : counterId' = counterId
  · subst heq
    rw [h, counterStorage, emplaceStorage, if_pos ⟨rfl, rfl⟩]
  · have hkept : emplaceStorage storages agentId counterId storage agentId counterId' =
        storages agentId counterId' := if_neg fun hand => heq hand.2
    rw [counterStorage, hkept, ← counterStorage]

/-- A turn leaves the tracks as they are, and its outputs do not depend on earlier turns. -/
theorem recordCounter_cases (s₀ : CounterState)
    (hs : ∀ counterId, s.trackName tool info.agentId counterId =
      s₀.trackName tool info.agentId counterId) (itr : UInt64 × RecordCounter) :
    (entryOutputs tool s₀ info timing itr = none ∧ recordCounter tool info timing s itr = none) ∨
      ∃ outputs s', entryOutputs tool s₀ info timing itr = some outputs ∧
        recordCounter tool info timing s itr = some s' ∧
        (∀ counterId, s'.trackName tool info.agentId counterId =
          s₀.trackName tool info.agentId counterId) ∧ s'.written = s.written ++ outputs := by
  have htrack := hs itr.1
  unfold CounterState.trackName at htrack
  rw [entryOutputs, ← hs itr.1, recordCounter, CounterState.trackName]
  cases hstorages : s.agentCounterStorage with
  | none => exact Or.inl ⟨rfl, rfl⟩
  | some storages =>
    simp only [Option.bind_some]
    cases hstorage : counterStorage tool storages info.agentId itr.1 with
    | none => exact Or.inl ⟨rfl, rfl⟩
    | some storage =>
      simp only [Option.bind_some, Option.map_some]
      cases counterEvent tool info itr.2 storage.trackName timing with
      | none => exact Or.inl ⟨rfl, rfl⟩
      | some outputs =>
        refine Or.inr ⟨outputs, _, rfl, rfl, fun counterId => ?_, rfl⟩
        rw [← hs counterId, CounterState.trackName, CounterState.trackName, hstorages]
        simp only [Option.bind_some, counterStorage_emplaceStorage hstorage]

/-- The loop writes what its entries write, if each of them can be written. -/
theorem counterRecordCallback_spec (hlive : s.agentCounterStorage.isSome)
    (htiming : s.kernelDispatchTimestamps info.dispatchId = some timing) :
    ((counterRecordCallback tool s info order).isSome ↔
        ∀ itr ∈ order, (entryOutputs tool s info timing itr).isSome) ∧
      ∀ s', counterRecordCallback tool s info order = some s' →
        s'.written = s.written ++
          order.flatMap fun itr => (entryOutputs tool s info timing itr).getD [] := by
  have hnone : s.agentCounterStorage.isNone = false := by
    rw [← Option.not_isSome, hlive]
    rfl
  rw [counterRecordCallback, hnone, htiming]
  let erased : CounterState := { s with
    kernelDispatchTimestamps := fun id =>
      if id = info.dispatchId then none else s.kernelDispatchTimestamps id }
  have h := runFrom_writes CounterState.written (s := erased) (l := order)
    (fun _ hs₁ itr _ => @recordCounter_cases tool _ info timing s hs₁ itr) (fun _ => rfl)
  exact ⟨h.1, fun s' hs' => (h.2 s' hs').2⟩

/-! ### The outputs of a dispatch -/

/-- The values of all entries, by track, are the totals of the counters. -/
theorem map_order_perm (horder : order.Perm (aggregateRecords tool records))
    (tracks : UInt64 → Option (List UInt8)) :
    (order.map fun itr => (tracks itr.1, itr.2.counterValue)).Perm
      ((counterIds tool records).map fun counterId =>
        (tracks counterId, counterSum tool records counterId)) := by
  have heq : (aggregateRecords tool records).map
      (fun itr => (tracks itr.1, itr.2.counterValue)) =
        (counterIds tool records).map fun counterId =>
          (tracks counterId, counterSum tool records counterId) := by
    rw [← map_fst_aggregateRecords, List.map_map]
    apply List.map_congr_left
    intro itr hitr
    rw [counterValue_of_mem hitr]
    rfl
  rw [← heq]
  exact horder.map _

section Dispatch

variable (hstart : timing.start > 0) (hend : timing.end > timing.start)

include hstart hend

/-- The entry of a recordable counter is written, and its value is stored as it is. -/
theorem entryOutputs_of_recordable {itr : UInt64 × RecordCounter}
    (hitr : itr ∈ aggregateRecords tool records) (h : Recordable tool s info records itr.1) :
    ∃ outputs, entryOutputs tool s info timing itr = some outputs ∧
      outputs.filterMap CounterOutput.stored =
        [(s.trackName tool info.agentId itr.1, itr.2.counterValue)] ∧
      outputs.filterMap (CounterOutput.tracedAt timing.start) =
        [(s.trackName tool info.agentId itr.1, itr.2.counterValue)] := by
  obtain ⟨kernSymData, hkernel⟩ := Option.isSome_iff_exists.mp h.kernel
  obtain ⟨track, htrack⟩ := Option.isSome_iff_exists.mp h.track
  obtain ⟨record, hfirst, hagent⟩ := h.agent
  obtain ⟨n, hn, hsum⟩ := h.whole
  have hid := agentId_of_mem hitr
  rw [hfirst, Option.map_some, Option.some_inj] at hid
  rw [hid] at hagent
  obtain ⟨agent, hagent⟩ := Option.isSome_iff_exists.mp hagent
  have hvalue : itr.2.counterValue = n := (counterValue_of_mem hitr).trans hsum
  have hconverted : toSizeT itr.2.counterValue = some n := by
    rw [hvalue]
    exact toSizeT_natCast hn
  have hevent : counterEvent tool info itr.2 track timing = some _ :=
    (counterEvent_eq_some_iff hstart hend).mpr
      ⟨kernSymData, n, agent, hkernel, hconverted, hagent, rfl⟩
  refine ⟨_, by rw [entryOutputs, htrack]; exact hevent, ?_, ?_⟩
  · obtain ⟨n', hn', hstored⟩ := stored_of_counterEvent hstart hend hevent
    rw [hconverted, Option.some_inj] at hn'
    rw [hstored, htrack, hvalue, hn']
  · rw [traced_of_counterEvent hstart hend hevent, htrack]

/-- What is stored for an entry is a whole number of 64 bits. -/
theorem whole_of_mem_stored {itr : UInt64 × RecordCounter} {outputs : List CounterOutput}
    (h : entryOutputs tool s info timing itr = some outputs) {pair : Option (List UInt8) × ℚ}
    (hpair : pair ∈ outputs.filterMap CounterOutput.stored) : ∃ n : ℕ, n < 2 ^ 64 ∧ pair.2 = n := by
  obtain ⟨track, -, hevent⟩ := Option.bind_eq_some_iff.mp h
  obtain ⟨n, hn, hstored⟩ := stored_of_counterEvent hstart hend hevent
  rw [hstored, List.mem_singleton] at hpair
  exact ⟨n, toSizeT_lt hn, by rw [hpair]⟩

/-- An entry that is written has its kernel, its track and its agent. -/
theorem recordable_of_entryOutputs {itr : UInt64 × RecordCounter}
    (hitr : itr ∈ aggregateRecords tool records) {outputs : List CounterOutput}
    (h : entryOutputs tool s info timing itr = some outputs)
    (hwhole : ∃ n : ℕ, n < 2 ^ 64 ∧ counterSum tool records itr.1 = n) :
    Recordable tool s info records itr.1 := by
  obtain ⟨track, htrack, hevent⟩ := Option.bind_eq_some_iff.mp h
  obtain ⟨kernSymData, value, agent, hkernel, -, hagent, -⟩ :=
    (counterEvent_eq_some_iff hstart hend).mp hevent
  obtain ⟨record, hfirst, hid⟩ := Option.map_eq_some_iff.mp (agentId_of_mem hitr)
  exact ⟨by rw [hkernel]; rfl, by rw [htrack]; rfl, ⟨record, hfirst, by rw [hid, hagent]; rfl⟩,
    hwhole⟩

/-- While the tool is not finalized. -/
theorem recordable_of_countersAgree (hlive : s.agentCounterStorage.isSome)
    (htiming : s.kernelDispatchTimestamps info.dispatchId = some timing)
    (horder : order.Perm (aggregateRecords tool records))
    (h : CountersAgree tool s info timing records order) {counterId : UInt64}
    (hmem : counterId ∈ counterIds tool records) : Recordable tool s info records counterId := by
  obtain ⟨s', outputs, hrun, hwritten, hstored, -⟩ := h
  obtain ⟨hsome, hspec⟩ := @counterRecordCallback_spec tool s info timing order hlive htiming
  rw [hrun] at hsome
  have hall := hsome.mp rfl
  have houtputs : outputs =
      order.flatMap fun itr => (entryOutputs tool s info timing itr).getD [] :=
    List.append_cancel_left (hwritten.symm.trans (hspec s' hrun))
  have hwhole : ∃ n : ℕ, n < 2 ^ 64 ∧ counterSum tool records counterId = n := by
    have htotal : (s.trackName tool info.agentId counterId, counterSum tool records counterId) ∈
        outputs.filterMap CounterOutput.stored := by
      rw [hstored.mem_iff]
      exact List.mem_map_of_mem hmem
    rw [houtputs, List.filterMap_flatMap] at htotal
    obtain ⟨itr, hitr, hpair⟩ := List.mem_flatMap.mp htotal
    obtain ⟨outs, houts⟩ := Option.isSome_iff_exists.mp (hall itr hitr)
    rw [houts, Option.getD_some] at hpair
    exact whole_of_mem_stored hstart hend houts hpair
  rw [← map_fst_aggregateRecords] at hmem
  obtain ⟨itr, hitr, rfl⟩ := List.mem_map.mp hmem
  obtain ⟨outs, houts⟩ := Option.isSome_iff_exists.mp (hall itr (horder.mem_iff.mpr hitr))
  exact recordable_of_entryOutputs hstart hend hitr houts hwhole

theorem countersAgree_of_recordable (hlive : s.agentCounterStorage.isSome)
    (htiming : s.kernelDispatchTimestamps info.dispatchId = some timing)
    (horder : order.Perm (aggregateRecords tool records))
    (h : ∀ counterId ∈ counterIds tool records, Recordable tool s info records counterId) :
    CountersAgree tool s info timing records order := by
  have hentry : ∀ itr ∈ order, ∃ outputs, entryOutputs tool s info timing itr = some outputs ∧
      outputs.filterMap CounterOutput.stored =
        [(s.trackName tool info.agentId itr.1, itr.2.counterValue)] ∧
      outputs.filterMap (CounterOutput.tracedAt timing.start) =
        [(s.trackName tool info.agentId itr.1, itr.2.counterValue)] := by
    intro itr hitr
    have hmem := horder.mem_iff.mp hitr
    apply entryOutputs_of_recordable hstart hend hmem
    apply h
    rw [← map_fst_aggregateRecords]
    exact List.mem_map_of_mem hmem
  have hperm := map_order_perm horder fun counterId => s.trackName tool info.agentId counterId
  obtain ⟨hsome, hspec⟩ := @counterRecordCallback_spec tool s info timing order hlive htiming
  have hall : ∀ itr ∈ order, (entryOutputs tool s info timing itr).isSome := by
    intro itr hitr
    obtain ⟨outputs, houtputs, -⟩ := hentry itr hitr
    rw [houtputs]
    rfl
  obtain ⟨s', hrun⟩ := Option.isSome_iff_exists.mp (hsome.mpr hall)
  refine ⟨s', _, hrun, hspec s' hrun, ?_, ?_⟩
  · rw [filterMap_flatMap_eq_map (h := fun itr =>
      (s.trackName tool info.agentId itr.1, itr.2.counterValue)) fun itr hitr => ?_]
    · exact hperm
    · obtain ⟨outputs, houtputs, hstored, -⟩ := hentry itr hitr
      rw [houtputs, Option.getD_some, hstored]
  · rw [filterMap_flatMap_eq_map (h := fun itr =>
      (s.trackName tool info.agentId itr.1, itr.2.counterValue)) fun itr hitr => ?_]
    · exact hperm
    · obtain ⟨outputs, houtputs, -, htraced⟩ := hentry itr hitr
      rw [houtputs, Option.getD_some, htraced]

end Dispatch

/-- A finalized tool writes nothing, and it has no tracks. -/
theorem countersAgree_iff_of_finalized (hnone : s.agentCounterStorage = none) :
    CountersAgree tool s info timing records order ↔
      ∀ counterId ∈ counterIds tool records, Recordable tool s info records counterId := by
  have hrun : counterRecordCallback tool s info order = some s := by
    rw [counterRecordCallback, hnone]
    rfl
  have hsilent : (∀ counterId ∈ counterIds tool records,
      Recordable tool s info records counterId) ↔ counterIds tool records = [] := by
    rw [List.eq_nil_iff_forall_not_mem]
    apply forall₂_congr
    intro counterId _
    refine iff_of_false (fun h => ?_) id
    have htrack := h.track
    rw [CounterState.trackName, hnone] at htrack
    cases htrack
  rw [hsilent]
  constructor
  · intro ⟨s', outputs, hrun', hwritten, hstored, _⟩
    rw [hrun, Option.some_inj] at hrun'
    subst hrun'
    have hempty : outputs = [] := by simpa using hwritten
    rw [hempty] at hstored
    exact List.map_eq_nil_iff.mp (List.nil_perm.mp hstored)
  · intro hnocounter
    refine ⟨s, [], hrun, (List.append_nil _).symm, ?_⟩
    rw [hnocounter]
    exact ⟨List.Perm.nil, List.Perm.nil⟩

/-- The cache and the tracks get the sums of the counters if and only if these are whole numbers
of 64 bits, and all that the callback looks up is there. -/
theorem countersAgree_iff
    (htiming : s.kernelDispatchTimestamps info.dispatchId = some timing)
    (hstart : timing.start > 0) (hend : timing.end > timing.start)
    (horder : order.Perm (aggregateRecords tool records)) :
    CountersAgree tool s info timing records order ↔
      ∀ counterId ∈ counterIds tool records, Recordable tool s info records counterId := by
  cases hstorages : s.agentCounterStorage with
  | none => exact countersAgree_iff_of_finalized hstorages
  | some storages =>
    have hlive : s.agentCounterStorage.isSome := by
      rw [hstorages]
      rfl
    constructor
    · intro h counterId
      exact recordable_of_countersAgree hstart hend hlive htiming horder h
    · exact countersAgree_of_recordable hstart hend hlive htiming horder

/-! One GPU with one counter, and a dispatch of its kernel. -/

def oneCounterTool : CounterTool where
  gpuAgents := [⟨7, 0⟩]
  agentCounterInfo := [(7, [⟨3, [65]⟩])]
  agentCounterProfiles := []
  kernelSymbolRecords := [⟨1, [107]⟩]
  agents := [{ type := 1, handle := 7, deviceId := 0, nodeId := 1, logicalNodeId := 1,
               logicalNodeTypeId := 0, name := [], modelName := [], vendorName := [],
               productName := [] }]
  queryRecordCounterId := fun id => id >>> 48
  demangle := id

def timedState : CounterState where
  kernelDispatchTimestamps := fun id => if id = 5 then some ⟨10, 20⟩ else none
  agentCounterStorage := some fun _ _ => none
  written := []

def oneDispatch : DispatchInfo := ⟨5, 7, 1, 2⟩

/-- Two instances of the counter. -/
def twoInstances (a b : ℚ) : List RecordCounter :=
  [⟨0x3000000000000, a, 7⟩, ⟨0x3000000000001, b, 7⟩]

theorem countersAgree_wholeSum :
    CountersAgree oneCounterTool timedState oneDispatch ⟨10, 20⟩ (twoInstances 1 2)
      (aggregateRecords oneCounterTool (twoInstances 1 2)) := by
  refine (countersAgree_iff rfl (by decide) (by decide) (List.Perm.refl _)).mpr ?_
  intro counterId hmem
  have hids : counterIds oneCounterTool (twoInstances 1 2) = [3] := by decide +kernel
  rw [hids, List.mem_singleton] at hmem
  subst hmem
  exact ⟨by decide +kernel, by decide +kernel,
    ⟨⟨0x3000000000000, 1, 7⟩, by decide +kernel, by decide +kernel⟩, ⟨3, by decide, by decide +kernel⟩⟩

/-- The track gets 3/2 and the cache 1. -/
theorem not_countersAgree_fraction :
    timedState.kernelDispatchTimestamps oneDispatch.dispatchId = some ⟨10, 20⟩ ∧
      (10 : UInt64) > 0 ∧ (20 : UInt64) > 10 ∧
      ¬ CountersAgree oneCounterTool timedState oneDispatch ⟨10, 20⟩ (twoInstances 1 (1 / 2))
        (aggregateRecords oneCounterTool (twoInstances 1 (1 / 2))) := by
  refine ⟨rfl, by decide, by decide, fun h => ?_⟩
  obtain ⟨s', outputs, hrun, hwritten, hstored, -⟩ := h
  have hoccurs : ((counterRecordCallback oneCounterTool timedState oneDispatch
      (aggregateRecords oneCounterTool (twoInstances 1 (1 / 2)))).map CounterState.written).map
        (List.filterMap CounterOutput.stored) =
          some [(some [71, 80, 85, 32, 65, 32, 91, 48, 93], 1)] := by decide +kernel
  rw [hrun, Option.map_some, Option.map_some, Option.some_inj, hwritten] at hoccurs
  rw [show timedState.written ++ outputs = outputs from rfl] at hoccurs
  rw [hoccurs] at hstored
  have htotal := hstored.mem_iff.mpr (List.mem_map_of_mem
    (show (3 : UInt64) ∈ counterIds oneCounterTool (twoInstances 1 (1 / 2)) by decide +kernel))
  revert htotal
  decide +kernel

end Sdk
end Rocprofsys
