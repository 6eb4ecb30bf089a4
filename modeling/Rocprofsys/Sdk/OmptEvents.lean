import Rocprofsys.Base.Pairing
import Rocprofsys.TraceCache.ArgumentString
import Rocprofsys.TraceCache.SampleType

namespace Rocprofsys
namespace Sdk

open Base TraceCache

/-! ## Callbacks -/

/-- A callback record. The arguments are listed with pointers followed at most once, and at
most twice. -/
structure OmptRecord where
  threadId : UInt64
  correlationId : UInt64
  ancestor : UInt64
  name : Bytes
  /-- Of the payload of parallel callbacks. -/
  parallelData : UInt64
  args : FunctionArgs
  dereferencedArgs : FunctionArgs

/-- The phase of a callback; without one, it begins or ends a parallel region or is an
instant event. -/
inductive OmptPhase where
  | enter
  | exit
  | parallelBegin
  | parallelEnd
  | instant
  deriving DecidableEq, Repr

structure OmptCallback where
  phase : OmptPhase
  record : OmptRecord
  ts : UInt64
  callStack : Bytes

/-- `rocprofsys_ompt_data_storage_t`. -/
structure OmptDataStorage where
  record : OmptRecord
  begTs : UInt64
  args : FunctionArgs

/-- Which of the two maps. -/
inductive OmptStorage where
  | standard
  | parallel
  deriving DecidableEq, Repr

/-- A key in a map of a thread: the maps are local to their thread. -/
structure OmptKey where
  threadId : UInt64
  storage : OmptStorage
  id : UInt64
  deriving DecidableEq, Repr

/-- The maps of all threads, and the regions in the trace cache. -/
abbrev OmptState := Progress OmptKey OmptDataStorage RegionSample

/-! ## Regions -/

/-- `"rocm_ompt_api"`. -/
def omptCategory : Bytes :=
  [114, 111, 99, 109, 95, 111, 109, 112, 116, 95, 97, 112, 105]

/-- `null`, the dump of a backtrace without frames. -/
def emptyCallStack : Bytes := [110, 117, 108, 108]

def cacheRegion (record : OmptRecord) (begTs endTs : UInt64) (callStack : Bytes)
    (args : FunctionArgs) : RegionSample where
  threadId := record.threadId
  name := record.name
  correlationIdInternal := record.correlationId
  correlationIdAncestor := record.ancestor
  startTimestamp := begTs
  endTimestamp := endTs
  callStack := callStack
  argsStr := getArgsString args
  category := omptCategory

def omptCacheInstantEvent (c : OmptCallback) : RegionSample :=
  cacheRegion c.record c.ts c.ts c.callStack c.record.dereferencedArgs

def omptCacheOrphanEvent (stored : OmptDataStorage) (callStack : Bytes) : RegionSample :=
  cacheRegion stored.record stored.begTs stored.begTs callStack stored.args

/-! ## The callbacks with a begin and an end -/

def standardKey (record : OmptRecord) : OmptKey :=
  ⟨record.threadId, .standard, record.correlationId⟩

def parallelKey (record : OmptRecord) : OmptKey :=
  ⟨record.threadId, .parallel, record.parallelData⟩

def storedData (c : OmptCallback) : OmptDataStorage := ⟨c.record, c.ts, c.record.args⟩

/-- `emplace` leaves an entry that is there as it is. -/
def omptPush (key : OmptKey) (st : OmptState) (c : OmptCallback) : OmptState :=
  if key ∈ st.pending then st
  else { st with pending := st.pending.insert key (storedData c) }

def omptPop (key : OmptKey) (st : OmptState) (c : OmptCallback) : OmptState :=
  match st.pending.lookup key with
  | none =>
    { st with written := st.written ++
        [omptCacheOrphanEvent ⟨c.record, c.ts, c.record.dereferencedArgs⟩ c.callStack] }
  | some stored =>
    ⟨st.pending.erase key,
      st.written ++ [cacheRegion c.record stored.begTs c.ts c.callStack stored.args]⟩

def omptPushStandardCallback (st : OmptState) (c : OmptCallback) : OmptState :=
  omptPush (standardKey c.record) st c

def omptPopStandardCallback (st : OmptState) (c : OmptCallback) : OmptState :=
  omptPop (standardKey c.record) st c

def omptPushParallelCallback (st : OmptState) (c : OmptCallback) : OmptState :=
  omptPush (parallelKey c.record) st c

def omptPopParallelCallback (st : OmptState) (c : OmptCallback) : OmptState :=
  omptPop (parallelKey c.record) st c

/-- The callbacks of OMPT in `tool_tracing_callback`. -/
def omptCallback (st : OmptState) (c : OmptCallback) : OmptState :=
  match c.phase with
  | .enter => omptPushStandardCallback st c
  | .exit => omptPopStandardCallback st c
  | .parallelBegin => omptPushParallelCallback st c
  | .parallelEnd => omptPopParallelCallback st c
  | .instant => { st with written := st.written ++ [omptCacheInstantEvent c] }

/-- The entries of one map of a thread as orphans. -/
def orphanEvents (threadId : UInt64) (storage : OmptStorage) (st : OmptState) :
    List RegionSample :=
  (st.pending.entries.filter fun e => e.1.threadId = threadId ∧ e.1.storage = storage).map
    fun e => omptCacheOrphanEvent e.2 emptyCallStack

/-- The regions of `ompt_finalize_orphan_events`, from the maps of the thread that runs it. -/
def omptFinalizeOrphanEvents (threadId : UInt64) (st : OmptState) : List RegionSample :=
  orphanEvents threadId .parallel st ++ orphanEvents threadId .standard st

/-- What the trace cache has received once `tool_fini` has run on a thread. -/
def toolFini (threadId : UInt64) (callbacks : List OmptCallback) : List RegionSample :=
  let st := callbacks.foldl omptCallback {}
  st.written ++ omptFinalizeOrphanEvents threadId st

/-! ## What is to be received -/

def OmptCallback.role (c : OmptCallback) : Role OmptKey :=
  match c.phase with
  | .enter => .opens (standardKey c.record)
  | .exit => .closes (standardKey c.record)
  | .parallelBegin => .opens (parallelKey c.record)
  | .parallelEnd => .closes (parallelKey c.record)
  | .instant => .alone

/-- A pair has the arguments of its begin and both times, and an event without a counterpart
has no length. -/
def omptPairing : Pairing OmptCallback OmptKey OmptDataStorage RegionSample where
  role := OmptCallback.role
  stored := storedData
  pair stored c := cacheRegion c.record stored.begTs c.ts c.callStack stored.args
  orphan stored := cacheRegion stored.record stored.begTs stored.begTs emptyCallStack stored.args
  single c := cacheRegion c.record c.ts c.ts c.callStack c.record.dereferencedArgs

/-- One region for each pair and each event without a counterpart, in some order. -/
def ReceivesAll (threadId : UInt64) (callbacks : List OmptCallback) : Prop :=
  (toolFini threadId callbacks).Perm (omptPairing.records [] callbacks)

/-- After every begin, the next callback of its thread with its key is an end, or there is
none and the thread is the one that runs `tool_fini`. -/
def AllEnd (threadId : UInt64) (callbacks : List OmptCallback) : Prop :=
  omptPairing.AllAnswered (fun key => key.threadId = threadId) callbacks

/-! ## The maps as a pairing -/

theorem omptPush_eq_step {c : OmptCallback} {key : OmptKey} (hrole : c.role = .opens key)
    (st : OmptState) : omptPush key st c = omptPairing.step st c := by
  rw [Pairing.step, show omptPairing.role c = .opens key from hrole]
  rfl

theorem omptPop_eq_step {c : OmptCallback} {key : OmptKey} (hrole : c.role = .closes key)
    (st : OmptState) : omptPop key st c = omptPairing.step st c := by
  have hrole : omptPairing.role c = .closes key := hrole
  cases hlookup : st.pending.lookup key with
  | none =>
    rw [Pairing.step_closes_of_notMem hrole (AList.lookup_eq_none.mp hlookup), omptPop, hlookup]
    rfl
  | some stored =>
    rw [Pairing.step_closes_of_some hrole hlookup, omptPop, hlookup]
    rfl

theorem omptCallback_eq_step (st : OmptState) (c : OmptCallback) :
    omptCallback st c = omptPairing.step st c := by
  cases hphase : c.phase with
  | enter =>
    rw [← @omptPush_eq_step c (standardKey c.record) (by rw [OmptCallback.role, hphase]),
      omptCallback, hphase]
    rfl
  | exit =>
    rw [← @omptPop_eq_step c (standardKey c.record) (by rw [OmptCallback.role, hphase]),
      omptCallback, hphase]
    rfl
  | parallelBegin =>
    rw [← @omptPush_eq_step c (parallelKey c.record) (by rw [OmptCallback.role, hphase]),
      omptCallback, hphase]
    rfl
  | parallelEnd =>
    rw [← @omptPop_eq_step c (parallelKey c.record) (by rw [OmptCallback.role, hphase]),
      omptCallback, hphase]
    rfl
  | instant =>
    have hrole : omptPairing.role c = .alone := by
      show c.role = .alone
      rw [OmptCallback.role, hphase]
    rw [Pairing.step_alone hrole, omptCallback, hphase]
    rfl

/-- The two passes of the finalizer meet each entry of the thread once. -/
theorem omptFinalizeOrphanEvents_perm (threadId : UInt64) (st : OmptState) :
    (omptFinalizeOrphanEvents threadId st).Perm
      (omptPairing.collect (fun key => key.threadId = threadId) st) := by
  have hsplit := List.filter_append_perm
    (fun e : Sigma fun _ : OmptKey => OmptDataStorage => decide (e.1.storage = .parallel))
    (st.pending.entries.filter fun e => e.1.threadId = threadId)
  rw [List.filter_filter, List.filter_filter] at hsplit
  have hmap := hsplit.map fun e => omptCacheOrphanEvent e.2 emptyCallStack
  rw [List.map_append] at hmap
  have hparallel : ∀ e ∈ st.pending.entries,
      decide (e.1.threadId = threadId ∧ e.1.storage = .parallel) =
        (decide (e.1.storage = .parallel) && decide (e.1.threadId = threadId)) := by
    intro e _
    rw [Bool.decide_and, Bool.and_comm]
  have hstandard : ∀ e ∈ st.pending.entries,
      decide (e.1.threadId = threadId ∧ e.1.storage = .standard) =
        (!decide (e.1.storage = .parallel) && decide (e.1.threadId = threadId)) := by
    intro e _
    rw [Bool.decide_and, Bool.and_comm]
    cases e.1.storage <;> rfl
  rw [omptFinalizeOrphanEvents, orphanEvents, orphanEvents, List.filter_congr hparallel,
    List.filter_congr hstandard]
  exact hmap

/-! ## The callbacks of all threads -/

/-- The trace cache receives one region for each pair and for each begin and end without a
counterpart exactly if every begin has its end as the next callback with its key, or is still
open on the thread that runs `tool_fini`. -/
theorem receivesAll_iff_allEnd (threadId : UInt64) (callbacks : List OmptCallback) :
    ReceivesAll threadId callbacks ↔ AllEnd threadId callbacks := by
  have hstep : omptCallback = omptPairing.step :=
    funext fun st => funext fun c => omptCallback_eq_step st c
  rw [ReceivesAll, AllEnd, ← Pairing.perm_records_iff, toolFini, hstep]
  have hfinal := (omptFinalizeOrphanEvents_perm threadId
    (callbacks.foldl omptPairing.step {})).append_left
      (callbacks.foldl omptPairing.step {}).written
  exact ⟨hfinal.symm.trans, hfinal.trans⟩

/-- A worker thread that enters a task whose end never comes. -/
def workerEnter : OmptCallback where
  phase := .enter
  record := ⟨2, 7, 0, [], 0, [], []⟩
  ts := 5
  callStack := emptyCallStack

/-- Its begin does not reach the trace cache if thread 1 runs `tool_fini`. -/
theorem not_receivesAll_worker :
    toolFini 1 [workerEnter] = [] ∧ ¬ ReceivesAll 1 [workerEnter] := by
  refine ⟨rfl, fun h => ?_⟩
  exact absurd h.length_eq (by decide)

end Sdk
end Rocprofsys
