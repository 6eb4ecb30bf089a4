import Mathlib.Data.List.AList
import Mathlib.Data.List.Sort
import Rocprofsys.TraceCache.SampleType

namespace Rocprofsys
namespace TraceCache

/-! ## Pending regions -/

structure EntryKey where
  name : Bytes
  category : Bytes
  deriving DecidableEq, Repr

/-- `operator<`, the order of the map. -/
def EntryKey.less (lhs rhs : EntryKey) : Prop :=
  if lhs.name ≠ rhs.name then lhs.name < rhs.name else lhs.category < rhs.category

instance (lhs rhs : EntryKey) : Decidable (lhs.less rhs) := by
  unfold EntryKey.less
  infer_instance

/-- `map_name_to_args` of the thread. -/
abbrev PendingMap := AList fun _ : EntryKey => UInt64

def EntryKey.precedes (x y : Sigma fun _ : EntryKey => UInt64) : Prop := ¬y.1.less x.1

instance : DecidableRel EntryKey.precedes := fun x y =>
  inferInstanceAs (Decidable (¬y.1.less x.1))

def cacheRegion (threadId : UInt64) (key : EntryKey) (startTs endTs : UInt64) : RegionSample where
  threadId := threadId
  name := key.name
  correlationIdInternal := 0
  correlationIdAncestor := 0
  startTimestamp := startTs
  endTimestamp := endTs
  callStack := []
  argsStr := []
  category := key.category

def cacheStart (m : PendingMap) (key : EntryKey) (startTs : UInt64) : PendingMap :=
  m.insert key startTs

/-- The value is read through the erased iterator; it is the one that was there. -/
def cacheStop (threadId : UInt64) (m : PendingMap) (key : EntryKey) (endTs : UInt64) :
    PendingMap × List RegionSample :=
  match m.lookup key with
  | none => (m, [])
  | some startTs => (m.erase key, [cacheRegion threadId key startTs endTs])

def flushPendingCachedEntries (threadId : UInt64) (m : PendingMap) (endTs : UInt64) :
    List RegionSample :=
  (m.entries.insertionSort EntryKey.precedes).map fun x => cacheRegion threadId x.1 x.2 endTs

/-! ## category_region -/

inductive ProcessState where
  | preInit
  | init
  | active
  | finalized
  | disabled
  deriving DecidableEq, Repr

def ProcessState.value : ProcessState → Nat
  | .preInit => 0
  | .init => 1
  | .active => 2
  | .finalized => 3
  | .disabled => 4

inductive ThreadState where
  | enabled
  | internal
  | completed
  | disabled
  deriving DecidableEq, Repr

/-- What `start` and `stop` ask for before they reach the cache. `toolingInit` is what
`rocprofsys_init_tooling_hidden` returns, `threadStatus` the state behind it, `stackDepth` the
profile and tracing stack of a category. -/
structure Runtime where
  enabled : Bytes → Bool
  stackDepth : Bytes → Int
  state : ProcessState
  threadState : ThreadState
  toolingInit : Bool
  threadStatus : ThreadState
  systemValue : Option UInt64

namespace Runtime

def threadId (rt : Runtime) : UInt64 := rt.systemValue.getD 0

def start (rt : Runtime) (m : PendingMap) (key : EntryKey) (startTs : UInt64) : PendingMap :=
  if !rt.enabled key.category then m
  else if rt.threadState = .disabled then m
  else if ProcessState.finalized.value ≤ rt.state.value then m
  else if key.name = [] then m
  else if rt.state ≠ .active ∧ !rt.toolingInit then m
  else if rt.threadStatus = .disabled then m
  else cacheStart m key startTs

def stop (rt : Runtime) (m : PendingMap) (key : EntryKey) (endTs : UInt64) :
    PendingMap × List RegionSample :=
  if !rt.enabled key.category ∧ rt.stackDepth key.category ≤ 0 then (m, [])
  else if rt.threadState = .disabled then (m, [])
  else if rt.state = .active then cacheStop rt.threadId m key endTs
  else (m, [])

/-- Nothing keeps a call of the thread from the cache. -/
structure Active (rt : Runtime) : Prop where
  enabled : ∀ category, rt.enabled category = true
  state : rt.state = .active
  threadState : rt.threadState ≠ .disabled
  threadStatus : rt.threadStatus ≠ .disabled

end Runtime

/-! ## Runs -/

/-- A call and the time that it records. -/
inductive RegionCall where
  | start (key : EntryKey) (ts : UInt64)
  | stop (key : EntryKey) (ts : UInt64)
  deriving DecidableEq, Repr

/-- The samples of the calls of a thread, and of the finalization when this thread runs it. -/
def Runtime.cached (rt : Runtime) (finalizes : Bool) (endTs : UInt64) :
    PendingMap → List RegionCall → List RegionSample
  | m, [] => if finalizes then flushPendingCachedEntries rt.threadId m endTs else []
  | m, .start key ts :: calls => rt.cached finalizes endTs (rt.start m key ts) calls
  | m, .stop key ts :: calls =>
    (rt.stop m key ts).2 ++ rt.cached finalizes endTs (rt.stop m key ts).1 calls

/-! ## The call tree -/

/-- One sample for each start, ended by the stop that matches it by nesting or by the
finalization; `none` when the calls are not properly nested. -/
def byNesting (threadId : UInt64) (endTs : UInt64) :
    List (EntryKey × UInt64) → List RegionCall → Option (List RegionSample)
  | stack, [] => some (stack.map fun region => cacheRegion threadId region.1 region.2 endTs)
  | stack, .start key ts :: calls => byNesting threadId endTs ((key, ts) :: stack) calls
  | [], .stop _ _ :: _ => none
  | region :: stack, .stop key ts :: calls =>
    if region.1 = key then
      (byNesting threadId endTs stack calls).map fun samples =>
        cacheRegion threadId key region.2 ts :: samples
    else none

/-- Every name is non-empty, no name and category is started again while it is open, and what
is open at the end is on the thread that finalizes. -/
def StartedOnce (finalizes : Bool) : List EntryKey → List RegionCall → Prop
  | opened, [] => finalizes = true ∨ opened = []
  | opened, .start key _ :: calls =>
    key.name ≠ [] ∧ key ∉ opened ∧ StartedOnce finalizes (key :: opened) calls
  | opened, .stop _ _ :: calls => StartedOnce finalizes opened.tail calls

end TraceCache
end Rocprofsys
