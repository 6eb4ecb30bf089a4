import Mathlib.Data.Finset.Sort
import Rocprofsys.Base.SortedBy

namespace Rocprofsys
namespace Sampling

open Base

/-! ## Samples -/

/-- `backtrace_timestamp`. -/
structure BacktraceTimestamp where
  tid : Int
  real : UInt64
  deriving DecidableEq, Repr

/-- A bundle of the sampler: the number of its components and those that the processing
looks at. -/
structure Bundle (Frame Metrics : Type) where
  size : Nat
  backtrace : Option (List Frame)
  callchain : Option (List (UInt64 × List Frame))
  timestamp : Option BacktraceTimestamp
  metrics : Option Metrics
  two_le_size : backtrace.isSome → timestamp.isSome → 2 ≤ size

/-- `timer_sampling_data`. -/
structure TimerSamplingData (Entry Metrics : Type) where
  tid : Int
  beg : UInt64
  stop : UInt64
  stack : List Entry
  metrics : Metrics

/-- What the processing uses of the backtraces and of the metrics. -/
structure Environment (Frame Entry Metrics : Type) where
  filterAndPatch : List Frame → List Entry
  hwCountersAvailable : Bool
  hwCountersEnabled : Metrics → Bool
  sub : Metrics → Metrics → Metrics
  noMetrics : Metrics

/-! ## Offloading -/

section Offload

variable {Frame Metrics : Type}

/-- The offload file as the list of its records, each a thread with a buffer, and the
positions of the records of each thread. -/
structure OffloadFile (Frame Metrics : Type) where
  records : List (Int × List (Bundle Frame Metrics))
  seqData : Int → Finset Nat

namespace OffloadFile

def empty : OffloadFile Frame Metrics where
  records := []
  seqData := fun _ => ∅

/-- `offload_buffer`. -/
def offloadBuffer (file : OffloadFile Frame Metrics) (seq : Int)
    (buffer : List (Bundle Frame Metrics)) : OffloadFile Frame Metrics where
  records := file.records ++ [(seq, buffer)]
  seqData := Function.update file.seqData seq (insert file.records.length (file.seqData seq))

/-- The file after buffers of any threads. -/
def offloadAll (offloads : List (Int × List (Bundle Frame Metrics))) : OffloadFile Frame Metrics :=
  offloads.foldl (fun file offload => file.offloadBuffer offload.1 offload.2) empty

/-- The body of the loop of `load_offload_buffer`. -/
def loadAt (file : OffloadFile Frame Metrics) (threadIdx : Int) (position : Nat) :
    List (List (Bundle Frame Metrics)) :=
  match file.records[position]? with
  | none => []
  | some (seq, buffer) => if seq ≠ threadIdx then [] else [buffer]

/-- `load_offload_buffer`. -/
def loadOffloadBuffer (file : OffloadFile Frame Metrics) (threadIdx : Int) :
    List (List (Bundle Frame Metrics)) :=
  (file.seqData threadIdx).sort.flatMap (file.loadAt threadIdx)

end OffloadFile

end Offload

/-! ## Post-processing -/

section PostProcess

variable {Frame Entry Metrics : Type}

/-- The samples of `post_process`: what the sampler returns, then what was offloaded. A
single sample of at most one component is dropped. -/
def rawData (file : OffloadFile Frame Metrics) (threadIdx : Int)
    (inMemory : List (Bundle Frame Metrics)) : List (Bundle Frame Metrics) :=
  let raw := inMemory ++ (file.loadOffloadBuffer threadIdx).flatten
  if raw.length = 1 ∧ (raw.head?.map Bundle.size).getD 0 ≤ 1 then [] else raw

/-- `is_valid_time` of the thread's lifetime, if there is one. -/
def isValidTime (lifetime : Option (UInt64 × UInt64)) (ts : UInt64) : Bool :=
  match lifetime with
  | none => false
  | some (start, stop) => decide (start ≤ ts) && decide (ts ≤ stop)

/-- The samples that `post_process` keeps. -/
def isKept (lifetime : Option (UInt64 × UInt64)) (bundle : Bundle Frame Metrics) : Bool :=
  (((bundle.backtrace.map fun frames => !frames.isEmpty).getD false) ||
    ((bundle.callchain.map fun calls => !calls.isEmpty).getD false)) &&
  (bundle.timestamp.map fun ts => isValidTime lifetime ts.real).getD false

/-- The difference of the metrics of a sample to those of the one before. -/
def metricsSince (env : Environment Frame Entry Metrics) (last metrics : Option Metrics) : Metrics :=
  match metrics, last with
  | some metrics, some last =>
    if env.hwCountersAvailable && env.hwCountersEnabled metrics && env.hwCountersEnabled last then
      env.sub metrics last
    else env.noMetrics
  | _, _ => env.noMetrics

/-- The loop of `parse_timer_data`, with the time and the metrics of the last sample. -/
def timerIntervals (env : Environment Frame Entry Metrics) (tid : Int) :
    UInt64 × Option Metrics → List (Bundle Frame Metrics) → List (TimerSamplingData Entry Metrics)
  | _, [] => []
  | last, bundle :: data =>
    match bundle.backtrace, bundle.timestamp with
    | some frames, some ts =>
      if frames.isEmpty || ts.tid != tid then timerIntervals env tid last data
      else
        { tid := ts.tid
          beg := last.1
          stop := ts.real
          stack := env.filterAndPatch frames
          metrics := metricsSince env last.2 bundle.metrics } ::
        timerIntervals env tid (ts.real, bundle.metrics) data
    | _, _ => timerIntervals env tid last data

/-- What `parse_timer_data` may return for the samples of a thread, `std::sort` not being
stable. -/
def TimerData (env : Environment Frame Entry Metrics) (lifetime : Option (UInt64 × UInt64))
    (tid : Int) (init : UInt64 × Option Metrics) (file : OffloadFile Frame Metrics)
    (inMemory : List (Bundle Frame Metrics)) (out : List (TimerSamplingData Entry Metrics)) :
    Prop :=
  SortedBy (fun data => data.beg.toNat)
    (timerIntervals env tid init ((rawData file tid inMemory).filter (isKept lifetime))) out

end PostProcess

end Sampling
end Rocprofsys
