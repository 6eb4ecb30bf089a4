import Mathlib.Data.List.AList
import Rocprofsys.Base.Run
import Rocprofsys.Base.Tables
import Rocprofsys.Rocpd.InsertQuery

namespace Rocprofsys
namespace Rocpd

open Base
open TraceCache (Bytes)

/-! ## Columns -/

structure NodeInfo where
  hash : Nat
  machineId : Bytes
  systemName : Bytes
  hostname : Bytes
  release : Bytes
  version : Bytes
  hardwareName : Bytes
  domainName : Bytes

structure ProcessInfo where
  nid : Nat
  ppid : Nat
  pid : Nat
  init : Nat
  fini : Nat
  startTime : Nat
  endTime : Nat
  command : Bytes
  environment : Bytes
  extdata : Bytes

structure ThreadInfo where
  nid : Nat
  ppid : Nat
  pid : Nat
  tid : Nat
  name : Bytes
  startTime : Nat
  endTime : Nat
  extdata : Bytes

structure AgentInfo where
  nid : Nat
  pid : Nat
  type : Bytes
  absoluteIndex : Nat
  logicalIndex : Nat
  typeIndex : Nat
  uuid : Nat
  name : Bytes
  modelName : Bytes
  vendorName : Bytes
  productName : Bytes
  userName : Bytes
  extdata : Bytes

/-- A queue or a stream. -/
structure HandleInfo where
  nid : Nat
  pid : Nat
  name : Bytes
  extdata : Bytes

structure PmcInfo where
  nid : Nat
  pid : Nat
  agentId : Nat
  targetArch : Bytes
  eventCode : Nat
  instanceId : Nat
  name : Bytes
  symbol : Bytes
  description : Bytes
  longDescription : Bytes
  component : Bytes
  units : Bytes
  valueType : Bytes
  block : Bytes
  expression : Bytes
  isConstant : UInt32
  isDerived : UInt32
  extdata : Bytes

structure CodeObject where
  nid : Nat
  pid : Nat
  agentId : Nat
  uri : Bytes
  loadBase : Nat
  loadSize : Nat
  loadDelta : Nat
  storageType : Bytes
  extdata : Bytes

structure KernelSymbol where
  nid : Nat
  pid : Nat
  codeObjectId : Nat
  kernelName : Bytes
  displayName : Bytes
  kernelObject : UInt32
  kernargSegmentSize : UInt32
  kernargSegmentAlignment : UInt32
  groupSegmentSize : UInt32
  privateSegmentSize : UInt32
  sgprCount : UInt32
  archVgprCount : UInt32
  accumVgprCount : UInt32
  extdata : Bytes

structure Track where
  nid : Nat
  pid : Nat
  tid : Option Nat
  nameId : Nat
  extdata : Bytes

structure Event where
  categoryId : Nat
  stackId : Nat
  parentStackId : Nat
  correlationId : Nat
  callStack : Bytes
  lineInfo : Bytes
  extdata : Bytes

structure Arg where
  eventId : Nat
  position : Nat
  type : Bytes
  name : Bytes
  value : Bytes
  extdata : Bytes

structure PmcEvent where
  eventId : Nat
  pmcId : Nat
  value : Double
  extdata : Bytes

structure Region where
  nid : Nat
  pid : Nat
  tid : Nat
  startTime : Nat
  endTime : Nat
  nameId : Nat
  eventId : Nat
  extdata : Bytes

structure Sample where
  trackId : Nat
  timestamp : Nat
  eventId : Nat
  extdata : Bytes

structure KernelDispatch where
  nid : Nat
  pid : Nat
  tid : Nat
  agentId : Nat
  kernelId : Nat
  dispatchId : Nat
  queueId : Nat
  streamId : Nat
  startTime : Nat
  endTime : Nat
  privateSegmentSize : Nat
  groupSegmentSize : Nat
  workgroupSizeX : Nat
  workgroupSizeY : Nat
  workgroupSizeZ : Nat
  gridSizeX : Nat
  gridSizeY : Nat
  gridSizeZ : Nat
  regionNameId : Nat
  eventId : Nat
  extdata : Bytes

structure MemoryCopy where
  nid : Nat
  pid : Nat
  tid : Nat
  startTime : Nat
  endTime : Nat
  nameId : Nat
  dstAgentId : Nat
  dstAddress : Nat
  srcAgentId : Nat
  srcAddress : Nat
  size : Nat
  queueId : Nat
  streamId : Nat
  regionNameId : Nat
  eventId : Nat
  extdata : Bytes

/-- Without an agent the statement has no such column. -/
structure MemoryAllocate where
  nid : Nat
  pid : Nat
  tid : Nat
  agentId : Option Nat
  type : Bytes
  level : Bytes
  startTime : Nat
  endTime : Nat
  address : Nat
  size : Nat
  queueId : Nat
  streamId : Nat
  eventId : Nat
  extdata : Bytes

/-! ## Tables -/

inductive Table where
  | string
  | node
  | process
  | thread
  | agent
  | queue
  | stream
  | pmc
  | codeObject
  | kernelSymbol
  | track
  | event
  | arg
  | pmcEvent
  | region
  | sample
  | kernelDispatch
  | memoryCopy
  | memoryAllocate
  deriving DecidableEq, Repr

inductive Row where
  | string (string : Bytes)
  | node (columns : NodeInfo)
  | process (columns : ProcessInfo)
  | thread (columns : ThreadInfo)
  | agent (columns : AgentInfo)
  | queue (columns : HandleInfo)
  | stream (columns : HandleInfo)
  | pmc (columns : PmcInfo)
  | codeObject (columns : CodeObject)
  | kernelSymbol (columns : KernelSymbol)
  | track (columns : Track)
  | event (columns : Event)
  | arg (columns : Arg)
  | pmcEvent (columns : PmcEvent)
  | region (columns : Region)
  | sample (columns : Sample)
  | kernelDispatch (columns : KernelDispatch)
  | memoryCopy (columns : MemoryCopy)
  | memoryAllocate (columns : MemoryAllocate)

def Row.table : Row → Table
  | .string _ => .string
  | .node _ => .node
  | .process _ => .process
  | .thread _ => .thread
  | .agent _ => .agent
  | .queue _ => .queue
  | .stream _ => .stream
  | .pmc _ => .pmc
  | .codeObject _ => .codeObject
  | .kernelSymbol _ => .kernelSymbol
  | .track _ => .track
  | .event _ => .event
  | .arg _ => .arg
  | .pmcEvent _ => .pmcEvent
  | .region _ => .region
  | .sample _ => .sample
  | .kernelDispatch _ => .kernelDispatch
  | .memoryCopy _ => .memoryCopy
  | .memoryAllocate _ => .memoryAllocate

/-- The node and the process that most rows belong to. -/
def owner (nid pid : Nat) : List (Table × Nat) := [(.node, nid), (.process, pid)]

/-- The foreign keys of `rocpd_tables.sql`. -/
def Row.references : Row → List (Table × Nat)
  | .string _ => []
  | .node _ => []
  | .process r => [(.node, r.nid)]
  | .thread r => owner r.nid r.pid
  | .agent r => owner r.nid r.pid
  | .queue r => owner r.nid r.pid
  | .stream r => owner r.nid r.pid
  | .pmc r => owner r.nid r.pid ++ [(.agent, r.agentId)]
  | .codeObject r => owner r.nid r.pid ++ [(.agent, r.agentId)]
  | .kernelSymbol r => owner r.nid r.pid ++ [(.codeObject, r.codeObjectId)]
  | .track r =>
    owner r.nid r.pid ++ r.tid.toList.map (fun tid => (.thread, tid)) ++ [(.string, r.nameId)]
  | .event r => [(.string, r.categoryId)]
  | .arg r => [(.event, r.eventId)]
  | .pmcEvent r => [(.pmc, r.pmcId), (.event, r.eventId)]
  | .region r =>
    owner r.nid r.pid ++ [(.thread, r.tid), (.string, r.nameId), (.event, r.eventId)]
  | .sample r => [(.track, r.trackId), (.event, r.eventId)]
  | .kernelDispatch r =>
    owner r.nid r.pid ++ [(.thread, r.tid), (.agent, r.agentId), (.kernelSymbol, r.kernelId),
      (.queue, r.queueId), (.stream, r.streamId), (.string, r.regionNameId), (.event, r.eventId)]
  | .memoryCopy r =>
    owner r.nid r.pid ++ [(.thread, r.tid), (.string, r.nameId), (.agent, r.dstAgentId),
      (.agent, r.srcAgentId), (.stream, r.streamId), (.queue, r.queueId),
      (.string, r.regionNameId), (.event, r.eventId)]
  | .memoryAllocate r =>
    owner r.nid r.pid ++ [(.thread, r.tid)] ++ r.agentId.toList.map (fun agent => (.agent, agent)) ++
      [(.stream, r.streamId), (.queue, r.queueId), (.event, r.eventId)]

abbrev Database := Rows Row

/-- What a row is registered under. -/
inductive Key where
  | string (string : Bytes)
  | track (name : Bytes)
  | pmc (agentId : Nat) (name : Bytes)
  | thread (threadId : Nat)
  deriving DecidableEq, Repr

def Row.isString (string : Bytes) : Row → Bool
  | .string s => s == string
  | _ => false

/-- A track has the name whose row its `name_id` is. -/
def Row.hasKey (db : Database) : Row → Key → Bool
  | .string s, .string s' => s == s'
  | .track r, .track name => db.any fun e => e.1 == r.nameId && e.2.isString name
  | .pmc r, .pmc agentId name => r.agentId == agentId && r.name == name
  | .thread r, .thread threadId => r.tid == threadId
  | _, _ => false

/-! ## data_processor -/

structure TrackNameMap where
  trackId : Nat
  nameId : Nat

structure PmcIdentifier where
  agentId : Nat
  name : Bytes
  deriving DecidableEq

structure DataProcessor where
  database : Database
  tracks : AList fun _ : Bytes => TrackNameMap
  pmcDescriptorMap : AList fun _ : PmcIdentifier => Nat
  threadIdMap : AList fun _ : Nat => Nat
  stringMap : AList fun _ : Bytes => Nat

namespace DataProcessor

def empty : DataProcessor := ⟨[], ∅, ∅, ∅, ∅⟩

/-- A statement that gives the id of the row itself. -/
def executeWithId (d : DataProcessor) (id : Nat) (row : Row) : DataProcessor :=
  { d with database := (id, row) :: d.database }

def insertNodeInfo (d : DataProcessor) (id : Nat) (columns : NodeInfo) : DataProcessor :=
  d.executeWithId id (.node columns)

/-- The id is the process id. -/
def insertProcessInfo (d : DataProcessor) (columns : ProcessInfo) : DataProcessor :=
  d.executeWithId columns.pid (.process columns)

def insertStreamInfo (d : DataProcessor) (id : Nat) (columns : HandleInfo) : DataProcessor :=
  d.executeWithId id (.stream columns)

def insertQueueInfo (d : DataProcessor) (id : Nat) (columns : HandleInfo) : DataProcessor :=
  d.executeWithId id (.queue columns)

def insertCodeObject (d : DataProcessor) (id : Nat) (columns : CodeObject) : DataProcessor :=
  d.executeWithId id (.codeObject columns)

def insertKernelSymbol (d : DataProcessor) (id : Nat) (columns : KernelSymbol) : DataProcessor :=
  d.executeWithId id (.kernelSymbol columns)

section RowId

variable (rowId : Database → Table → Nat)

/-- A statement, and `get_last_insert_id` after it. -/
def execute (d : DataProcessor) (row : Row) : DataProcessor × Nat :=
  (d.executeWithId (rowId d.database row.table) row, rowId d.database row.table)

def insertString (d : DataProcessor) (str : Bytes) : DataProcessor × Nat :=
  match d.stringMap.lookup str with
  | some id => (d, id)
  | none =>
    let (d, id) := d.execute rowId (.string str)
    ({ d with stringMap := d.stringMap.insert str id }, id)

def insertAgent (d : DataProcessor) (columns : AgentInfo) : DataProcessor × Nat :=
  d.execute rowId (.agent columns)

/-- A track that is there already stays as it is. -/
def insertTrack (d : DataProcessor) (name : Bytes) (nid pid : Nat) (tid : Option Nat)
    (extdata : Bytes) : DataProcessor :=
  match d.tracks.lookup name with
  | some _ => d
  | none =>
    let (d, nameId) := d.insertString rowId name
    let (d, trackId) := d.execute rowId (.track ⟨nid, pid, tid, nameId, extdata⟩)
    { d with tracks := d.tracks.insert name ⟨trackId, nameId⟩ }

def insertPmcDescription (d : DataProcessor) (columns : PmcInfo) : DataProcessor :=
  match d.pmcDescriptorMap.lookup ⟨columns.agentId, columns.name⟩ with
  | some _ => d
  | none =>
    let (d, id) := d.execute rowId (.pmc columns)
    { d with pmcDescriptorMap := d.pmcDescriptorMap.insert ⟨columns.agentId, columns.name⟩ id }

/-- Without a description there is no event. -/
def insertPmcEvent (d : DataProcessor) (eventId agentId : Nat) (name : Bytes) (value : Double)
    (extdata : Bytes) : DataProcessor :=
  match d.pmcDescriptorMap.lookup ⟨agentId, name⟩ with
  | none => d
  | some pmcId => (d.execute rowId (.pmcEvent ⟨eventId, pmcId, value, extdata⟩)).1

/-- Without a track there is no sample. -/
def insertSample (d : DataProcessor) (track : Bytes) (timestamp eventId : Nat) (extdata : Bytes) :
    DataProcessor :=
  match d.tracks.lookup track with
  | none => d
  | some info => (d.execute rowId (.sample ⟨info.trackId, timestamp, eventId, extdata⟩)).1

def insertEvent (d : DataProcessor) (columns : Event) : DataProcessor × Nat :=
  d.execute rowId (.event columns)

def insertArgs (d : DataProcessor) (columns : Arg) : DataProcessor :=
  (d.execute rowId (.arg columns)).1

def insertRegion (d : DataProcessor) (columns : Region) : DataProcessor :=
  (d.execute rowId (.region columns)).1

def insertKernelDispatch (d : DataProcessor) (columns : KernelDispatch) : DataProcessor :=
  (d.execute rowId (.kernelDispatch columns)).1

def insertMemoryCopy (d : DataProcessor) (columns : MemoryCopy) : DataProcessor :=
  (d.execute rowId (.memoryCopy columns)).1

def insertMemoryAlloc (d : DataProcessor) (columns : MemoryAllocate) : DataProcessor :=
  (d.execute rowId (.memoryAllocate columns)).1

def insertThreadInfo (d : DataProcessor) (columns : ThreadInfo) : DataProcessor × Nat :=
  match d.threadIdMap.lookup columns.tid with
  | some id => (d, id)
  | none =>
    let (d, id) := d.execute rowId (.thread columns)
    ({ d with threadIdMap := d.threadIdMap.insert columns.tid id }, id)

end RowId

/-- An unknown thread is an `invalid_argument`: "Given thread id don't exist". -/
def mapThreadIdToPrimaryKey (d : DataProcessor) (threadId : Nat) : Option Nat :=
  d.threadIdMap.lookup threadId

end DataProcessor

end Rocpd
end Rocprofsys
