import Rocprofsys.Gpu.AmdSmi

namespace Rocprofsys
namespace Gpu
namespace AmdSmi

open Base TraceCache

/-! ## Counter tracks -/

/-- The categories of the counters, in the order in which both paths write them. -/
inductive Category where
  | gfxBusy
  | umcBusy
  | mmBusy
  | temp
  | power
  | memoryUsage
  | vcnActivity
  | jpegActivity
  | xgmiLinkWidth
  | xgmiLinkSpeed
  | xgmiReadData
  | xgmiWriteData
  | pcieLinkWidth
  | pcieLinkSpeed
  | pcieBandwidthAcc
  | pcieBandwidthInst
  deriving DecidableEq, Repr

/-- What the name of a counter track tells: the category, the XCP and the index. -/
structure Metric where
  category : Category
  xcp : Option Nat := none
  index : Nat := 0
  deriving DecidableEq, Repr

structure Track where
  metric : Metric
  unit : String
  deriving DecidableEq, Repr

/-- A `TRACE_COUNTER` event. -/
structure Counter where
  track : Track
  timestamp : UInt64
  value : ℚ
  deriving DecidableEq

/-- `perfetto_counter_track`: the tracks at each index. -/
abbrev CounterTracks (κ : Type) := κ → List Track

namespace CounterTracks

variable {κ : Type} [DecidableEq κ]

def empty : CounterTracks κ := fun _ => []

/-- `exists`: an index is there from its first track on. -/
def existsAt (tracks : CounterTracks κ) (idx : κ) : Bool := !(tracks idx).isEmpty

def emplace (tracks : CounterTracks κ) (idx : κ) (track : Track) : CounterTracks κ :=
  Function.update tracks idx (tracks idx ++ [track])

/-- `at`; `none` is the `std::out_of_range` that leaves its caller too. -/
def trackAt (tracks : CounterTracks κ) (idx : κ) (n : Nat) : Option Track := (tracks idx)[n]?

end CounterTracks

/-- The metrics that need nothing of the GPU metrics. -/
def basicMetrics (settings : Settings) : List Metric :=
  (if settings.busy then
    [{ category := .gfxBusy }, { category := .umcBusy }, { category := .mmBusy }] else []) ++
  (if settings.temp then [{ category := .temp }] else []) ++
  (if settings.power then [{ category := .power }] else []) ++
  (if settings.memUsage then [{ category := .memoryUsage }] else [])

/-- The memory usage in megabytes, as doubles divide. -/
def megabytes (megabyte memUsage : UInt64) : ℚ :=
  nearestDouble (nearestDouble memUsage.toNat / nearestDouble megabyte.toNat)

/-! ## The direct path -/

/-- The units of `setup_perfetto_counter_tracks`. -/
def directUnit : Category → String
  | .gfxBusy => "%"
  | .umcBusy => "%"
  | .mmBusy => "%"
  | .temp => "deg C"
  | .power => "watts"
  | .memoryUsage => "megabytes"
  | .vcnActivity => "%"
  | .jpegActivity => "%"
  | .xgmiLinkWidth => "bits"
  | .xgmiLinkSpeed => "GT/s"
  | .xgmiReadData => "KB"
  | .xgmiWriteData => "KB"
  | .pcieLinkWidth => ""
  | .pcieLinkSpeed => "GT/s"
  | .pcieBandwidthAcc => "MB"
  | .pcieBandwidthInst => "MB/s"

/-- The tracks for an engine: one for each value of the device or of each XCP. -/
def engineMetrics (category : Category) (isDeviceLevelOnly : Bool) (activity : List UInt16)
    (busy : List (List UInt16)) : List Metric :=
  if isDeviceLevelOnly then
    (List.range activity.length).map fun i => { category, index := i }
  else
    busy.zipIdx.flatMap fun xcp =>
      (List.range xcp.1.length).map fun i => { category, xcp := some xcp.2, index := i }

def xgmiMetrics (category : Category) (data : List UInt64) : List Metric :=
  (List.range data.length).map fun i => { category, index := i }

def gpuMetricsTracks (settings : Settings) (device : Device) (metrics : GpuMetrics) : List Metric :=
  (if settings.vcnActivity then
    engineMetrics .vcnActivity device.vcnIsDeviceLevelOnly metrics.vcnActivity metrics.vcnBusy
    else []) ++
  (if settings.jpegActivity then
    engineMetrics .jpegActivity device.jpegIsDeviceLevelOnly metrics.jpegActivity metrics.jpegBusy
    else []) ++
  (if settings.xgmi then
    [{ category := .xgmiLinkWidth }, { category := .xgmiLinkSpeed }] ++
    xgmiMetrics .xgmiReadData metrics.xgmiReadDataAcc ++
    xgmiMetrics .xgmiWriteData metrics.xgmiWriteDataAcc else []) ++
  (if settings.pcie then
    [{ category := .pcieLinkWidth }, { category := .pcieLinkSpeed },
      { category := .pcieBandwidthAcc }, { category := .pcieBandwidthInst }] else [])

/-- `setup_perfetto_counter_tracks`. Without GPU metrics in the data there are only the basic
tracks. -/
def setupPerfettoCounterTracks (settings : Settings) (device : Device) (data : Data)
    (tracks : CounterTracks UInt32) : CounterTracks UInt32 :=
  if tracks.existsAt device.id then tracks
  else
    let metrics := basicMetrics settings ++
      (data.gpuMetrics.head?.map (gpuMetricsTracks settings device)).getD []
    metrics.foldl (fun tracks metric =>
      tracks.emplace device.id ⟨metric, directUnit metric.category⟩) tracks

def gpuMetricsValues (settings : Settings) (device : Device) (metrics : GpuMetrics) : List ℚ :=
  (if settings.vcnActivity then
    (dataFlat device.vcnIsDeviceLevelOnly metrics.vcnActivity metrics.vcnBusy).map
      fun value => (value.toNat : ℚ) else []) ++
  (if settings.jpegActivity then
    (dataFlat device.jpegIsDeviceLevelOnly metrics.jpegActivity metrics.jpegBusy).map
      fun value => (value.toNat : ℚ) else []) ++
  (if settings.xgmi then
    [(metrics.xgmiLinkWidth.toNat : ℚ), (metrics.xgmiLinkSpeed.toNat : ℚ)] ++
    (metrics.xgmiReadDataAcc.map fun value => (value.toNat : ℚ)) ++
    (metrics.xgmiWriteDataAcc.map fun value => (value.toNat : ℚ)) else []) ++
  (if settings.pcie then
    [(metrics.pcieLinkWidth.toNat : ℚ), (metrics.pcieLinkSpeed.toNat : ℚ),
      (metrics.pcieBandwidthAcc.toNat : ℚ), (metrics.pcieBandwidthInst.toNat : ℚ)] else [])

/-- The values in the order of `track_index`. -/
def writtenValues (megabyte : UInt64) (settings : Settings) (device : Device) (data : Data) :
    List ℚ :=
  (if settings.busy then
    [nearestDouble data.gfxActivity.toNat, nearestDouble data.umcActivity.toNat,
      nearestDouble data.mmActivity.toNat] else []) ++
  (if settings.temp then [nearestDouble data.temp.toInt] else []) ++
  (if settings.power then [nearestDouble data.currentSocketPower.toNat] else []) ++
  (if settings.memUsage then [megabytes megabyte data.memUsage] else []) ++
  (data.gpuMetrics.head?.map (gpuMetricsValues settings device)).getD []

/-- `write_perfetto_metrics`: the `k`-th value goes to the `k`-th track. -/
def writePerfettoMetrics (megabyte : UInt64) (settings : Settings) (device : Device) (data : Data)
    (tracks : CounterTracks UInt32) : Option (List Counter) :=
  (writtenValues megabyte settings device data).zipIdx.mapM fun value =>
    (tracks.trackAt device.id value.2).map fun track => ⟨track, data.ts, value.1⟩

/-- `thread_info::is_valid_time`. -/
def isValidTime (lifetime : UInt64 × UInt64) (ts : UInt64) : Bool :=
  decide (lifetime.1 ≤ ts) && decide (ts ≤ lifetime.2)

/-- The body of the loop of `post_process`. -/
def postProcessData (megabyte : UInt64) (settings : Settings) (device : Device)
    (lifetime : UInt64 × UInt64) (tracks : CounterTracks UInt32) (data : Data) :
    Option (CounterTracks UInt32 × List Counter) :=
  if data.devId ≠ device.id then some (tracks, [])
  else if isValidTime lifetime data.ts then
    let tracks := setupPerfettoCounterTracks settings device data tracks
    (writePerfettoMetrics megabyte settings device data tracks).map fun counters =>
      (tracks, counters)
  else some (tracks, [])

/-- `data::post_process`. -/
def Session.postProcess (session : Session) (samples : List Data) : Option (List Counter) :=
  match session.lifetime with
  | none => some []
  | some lifetime =>
    emitAll (postProcessData session.megabyte session.settings session.device lifetime)
      CounterTracks.empty samples

/-! ## The cached path -/

/-- The units of `setup_amd_smi_tracks` and of `handle`. -/
def cachedUnit : Category → String
  | .gfxBusy => "%"
  | .umcBusy => "%"
  | .mmBusy => "%"
  | .temp => "deg C"
  | .power => "W"
  | .memoryUsage => "MB"
  | .vcnActivity => "%"
  | .jpegActivity => "%"
  | .xgmiLinkWidth => ""
  | .xgmiLinkSpeed => "MT/s"
  | .xgmiReadData => "bytes"
  | .xgmiWriteData => "bytes"
  | .pcieLinkWidth => ""
  | .pcieLinkSpeed => "MT/s"
  | .pcieBandwidthAcc => "bytes"
  | .pcieBandwidthInst => "bytes"

/-- The index of a metric's track among those of its category. -/
def trackKey (deviceId : UInt32) (metric : Metric) : Nat :=
  match metric.category with
  | .vcnActivity => deviceId.toNat <<< 16 ||| metric.xcp.getD 0 <<< 8 ||| metric.index
  | .jpegActivity => deviceId.toNat <<< 16 ||| metric.xcp.getD 0 <<< 8 ||| metric.index
  | .xgmiReadData => (deviceId <<< 8).toNat ||| metric.index
  | .xgmiWriteData => (deviceId <<< 8).toNat ||| metric.index
  | _ => deviceId.toNat

/-- The category's counter tracks and the index there. -/
def slot (deviceId : UInt32) (metric : Metric) : Category × Nat :=
  (metric.category, trackKey deviceId metric)

abbrev CachedTracks := CounterTracks (Category × Nat)

def emplaceMetric (deviceId : UInt32) (tracks : CachedTracks) (metric : Metric) : CachedTracks :=
  tracks.emplace (slot deviceId metric) ⟨metric, cachedUnit metric.category⟩

/-- `setup_amd_smi_tracks`, which only looks at the first category. -/
def setupAmdSmiTracks (settings : Settings) (deviceId : UInt32) (tracks : CachedTracks) :
    CachedTracks :=
  if tracks.existsAt (slot deviceId { category := .gfxBusy }) then tracks
  else (basicMetrics settings).foldl (emplaceMetric deviceId) tracks

/-- The values of the basic metrics. -/
def basicValues (megabyte : UInt64) (settings : Settings) (amdSmi : AmdSmiSample) : List ℚ :=
  (if settings.busy then
    [(amdSmi.gfxActivity.toNat : ℚ), (amdSmi.umcActivity.toNat : ℚ),
      (amdSmi.mmActivity.toNat : ℚ)] else []) ++
  (if settings.temp then [(amdSmi.temperature.toInt : ℚ)] else []) ++
  (if settings.power then [(amdSmi.power.toNat : ℚ)] else []) ++
  (if settings.memUsage then [megabytes megabyte amdSmi.memUsage] else [])

/-- `insert_decode_vector_metrics`. -/
def decodeVectorMetrics (category : Category) (isEnabled : Bool) (data : List UInt16)
    (idx : Option Nat) : List (Metric × ℚ) :=
  if isEnabled then
    (data.zipIdx.filter fun value => value.1 != uint16Max).map fun value =>
      ({ category, xcp := idx, index := value.2 }, nearestDouble value.1.toNat)
  else []

/-- The counters of an engine, of the device or XCP by XCP. -/
def engineValues (category : Category) (isEnabled isDeviceLevelOnly : Bool)
    (activity : List UInt16) (busy : List (List UInt16)) : List (Metric × ℚ) :=
  if isDeviceLevelOnly then decodeVectorMetrics category isEnabled activity none
  else busy.zipIdx.flatMap fun xcp => decodeVectorMetrics category isEnabled xcp.1 (some xcp.2)

/-- `insert_xgmi_vector_metrics`. -/
def xgmiVectorMetrics (category : Category) (data : List UInt64) : List (Metric × ℚ) :=
  (data.zipIdx.filter fun value => value.1 != uint64Max).map fun value =>
    ({ category, index := value.2 }, nearestDouble value.1.toNat)

def insertedValues (settings : Settings) (metrics : GpuMetrics)
    (capabilities : GpuMetricsCapabilities) : List (Metric × ℚ) :=
  engineValues .vcnActivity settings.vcnActivity capabilities.vcnIsDeviceLevelOnly
    metrics.vcnActivity metrics.vcnBusy ++
  engineValues .jpegActivity settings.jpegActivity capabilities.jpegIsDeviceLevelOnly
    metrics.jpegActivity metrics.jpegBusy ++
  (if settings.xgmi then
    [({ category := .xgmiLinkWidth }, nearestDouble metrics.xgmiLinkWidth.toNat),
      ({ category := .xgmiLinkSpeed }, nearestDouble metrics.xgmiLinkSpeed.toNat)] ++
    xgmiVectorMetrics .xgmiReadData metrics.xgmiReadDataAcc ++
    xgmiVectorMetrics .xgmiWriteData metrics.xgmiWriteDataAcc else []) ++
  (if settings.pcie then
    [({ category := .pcieLinkWidth }, nearestDouble metrics.pcieLinkWidth.toNat),
      ({ category := .pcieLinkSpeed }, nearestDouble metrics.pcieLinkSpeed.toNat),
      ({ category := .pcieBandwidthAcc }, nearestDouble metrics.pcieBandwidthAcc.toNat),
      ({ category := .pcieBandwidthInst }, nearestDouble metrics.pcieBandwidthInst.toNat)]
    else [])

/-- A counter on the first track of its metric's slot. -/
def traceCounter (deviceId : UInt32) (timestamp : UInt64) (tracks : CachedTracks)
    (value : Metric × ℚ) : Option Counter :=
  (tracks.trackAt (slot deviceId value.1) 0).map fun track => ⟨track, timestamp, value.2⟩

/-- A metric of the GPU metrics gets its track with its first counter. -/
def insertValue (deviceId : UInt32) (timestamp : UInt64) (tracks : CachedTracks)
    (value : Metric × ℚ) : Option (CachedTracks × Counter) :=
  let tracks := if tracks.existsAt (slot deviceId value.1) then tracks
    else emplaceMetric deviceId tracks value.1
  (traceCounter deviceId timestamp tracks value).map fun counter => (tracks, counter)

def insertValues (deviceId : UInt32) (timestamp : UInt64) :
    CachedTracks → List (Metric × ℚ) → Option (CachedTracks × List Counter)
  | tracks, [] => some (tracks, [])
  | tracks, value :: values =>
    (insertValue deviceId timestamp tracks value).bind fun r =>
      (insertValues deviceId timestamp r.1 values).map fun rest => (rest.1, r.2 :: rest.2)

/-- `perfetto_processor_t::handle`. -/
def handle (megabyte : UInt64) (tracks : CachedTracks) (amdSmi : AmdSmiSample) :
    Option (CachedTracks × List Counter) := do
  let settings := Settings.ofBits amdSmi.settings
  let tracks := setupAmdSmiTracks settings amdSmi.deviceId tracks
  let basic ← ((basicMetrics settings).zip (basicValues megabyte settings amdSmi)).mapM
    (traceCounter amdSmi.deviceId amdSmi.timestamp tracks)
  if settings.gpuMetricsNeeded then
    let loaded ← (deserializeGpuMetrics amdSmi.gpuActivity.elements {}
      settings.toGpuMetricsSettings).toOption
    let inserted ← insertValues amdSmi.deviceId amdSmi.timestamp tracks
      (insertedValues settings loaded.1 loaded.2)
    return (inserted.1, basic ++ inserted.2)
  else return (tracks, basic)

/-- The parser hands the bytes of a stored sample to the processor. -/
def handleStored (megabyte : UInt64) (tracks : CachedTracks) (payload : Bytes) :
    Option (CachedTracks × List Counter) :=
  (AmdSmiSample.deserialize.run payload.length payload).toOption.bind fun parsed =>
    handle megabyte tracks parsed.1

def Session.replay (session : Session) (payloads : List Bytes) : Option (List Counter) :=
  emitAll (handleStored session.megabyte) CounterTracks.empty payloads

/-! ## The database -/

/-- The values of the basic metrics as `insert_event_and_sample` takes them. -/
def insertedBasicValues (settings : Settings) (amdSmi : AmdSmiSample) : List ℚ :=
  (if settings.busy then
    [nearestDouble amdSmi.gfxActivity.toNat, nearestDouble amdSmi.umcActivity.toNat,
      nearestDouble amdSmi.mmActivity.toNat] else []) ++
  (if settings.temp then [nearestDouble amdSmi.temperature.toInt] else []) ++
  (if settings.power then [nearestDouble amdSmi.power.toNat] else []) ++
  (if settings.memUsage then [nearestDouble amdSmi.memUsage.toNat] else [])

/-- `rocpd_processor_t::handle`: the values that go to the database, each on the track of its
metric. -/
def insertedSamples (amdSmi : AmdSmiSample) : Option (List (Metric × ℚ)) :=
  let settings := Settings.ofBits amdSmi.settings
  let basic := (basicMetrics settings).zip (insertedBasicValues settings amdSmi)
  if settings.gpuMetricsNeeded then
    (deserializeGpuMetrics amdSmi.gpuActivity.elements {}
      settings.toGpuMetricsSettings).toOption.map fun loaded =>
        basic ++ insertedValues settings loaded.1 loaded.2
  else some basic

/-- The parser hands the bytes of a stored sample to the processor. -/
def insertedOfStored (payload : Bytes) : Option (List (Metric × ℚ)) :=
  (AmdSmiSample.deserialize.run payload.length payload).toOption.bind fun parsed =>
    insertedSamples parsed.1

/-! ## Agreement -/

/-- One spelling for each unit. -/
def unitSymbol (unit : String) : String :=
  if unit = "watts" then "W" else if unit = "megabytes" then "MB" else unit

/-- What a counter reports, whatever its place in the trace. -/
def Counter.report (counter : Counter) : Metric × String × UInt64 × ℚ :=
  (counter.track.metric, unitSymbol counter.track.unit, counter.timestamp, counter.value)

namespace Session

variable (session : Session)

def direct (readings : List Reading) : Option (List Counter) :=
  session.postProcess (readings.map session.sample)

def stored (readings : List Reading) : List AmdSmiSample :=
  (readings.filter session.isStored).map session.storedSample

def cached (readings : List Reading) : Option (List Counter) :=
  session.replay ((session.stored readings).map AmdSmiSample.serialize)

/-- Both paths finish, with the same values and units for each metric and time. -/
def Agree (readings : List Reading) : Prop :=
  ∃ direct cached, session.direct readings = some direct ∧ session.cached readings = some cached ∧
    (direct.map Counter.report).Perm (cached.map Counter.report)

end Session

end AmdSmi
end Gpu
end Rocprofsys
