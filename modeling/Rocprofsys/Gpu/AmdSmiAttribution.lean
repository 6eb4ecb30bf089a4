import Rocprofsys.Base.Compaction
import Rocprofsys.Gpu.AmdSmiLabels
import Rocprofsys.Gpu.AmdSmiLayout

namespace Rocprofsys
namespace Gpu
namespace AmdSmi

open Base TraceCache

/-! ## Values and their engines -/

def IsEngine (metric : Metric) : Prop :=
  metric.category = .vcnActivity ∨ metric.category = .jpegActivity

/-- The value of an engine of the device, or of an engine of an XCP. -/
def engineValue (activity : List UInt16) (busy : List (List UInt16)) (metric : Metric) :
    Option UInt16 :=
  match metric.xcp with
  | none => activity[metric.index]?
  | some x => elementAt busy x metric.index

/-- What the library reports for the engine that a metric names. -/
def physicalValue (raw : AmdsmiGpuMetrics) (metric : Metric) : Option UInt16 :=
  match metric.category with
  | .vcnActivity => engineValue raw.vcnActivity (raw.xcpStats.map XcpStats.vcnBusy) metric
  | .jpegActivity => engineValue raw.jpegActivity (raw.xcpStats.map XcpStats.jpegBusy) metric
  | _ => none

/-- What stands in the collected metrics in that engine's place. -/
def collectedValue (metrics : GpuMetrics) (metric : Metric) : Option UInt16 :=
  match metric.category with
  | .vcnActivity => engineValue metrics.vcnActivity metrics.vcnBusy metric
  | .jpegActivity => engineValue metrics.jpegActivity metrics.jpegBusy metric
  | _ => none

/-- A value on an engine's track is the value of that engine. -/
def CountsEngine (raw : AmdsmiGpuMetrics) (metric : Metric) (counted : ℚ) : Prop :=
  IsEngine metric → ∃ value, physicalValue raw metric = some value ∧ counted = value.toNat

namespace Session

variable (session : Session)

/-- The replay of a stored reading. -/
def replayReading (tracks : CachedTracks) (reading : Reading) :
    Option (CachedTracks × List Counter) :=
  handleStored session.megabyte tracks (session.storedSample reading).serialize

/-- The tracks that a replay can have. -/
def ReachesTracks (tracks : CachedTracks) : Prop :=
  ∃ readings, runFrom (fun tracks reading => (session.replayReading tracks reading).map Prod.fst)
    CounterTracks.empty readings = some tracks

/-- The values of a reading are those of the engines they are reported for: in the collected
metrics, on the tracks set up for them, on those of a replay, and in the database. -/
structure Attributed (reading : Reading) : Prop where
  collected : ∀ metric value, collectedValue (session.metrics reading) metric = some value →
    physicalValue reading.gpuMetrics metric = some value
  direct : ∀ counters, session.direct [reading] = some counters →
    ∀ counter ∈ counters, CountsEngine reading.gpuMetrics counter.track.metric counter.value
  cached : ∀ tracks tracks' counters, session.ReachesTracks tracks →
    session.replayReading tracks reading = some (tracks', counters) →
    ∀ counter ∈ counters, CountsEngine reading.gpuMetrics counter.track.metric counter.value
  inserted : ∀ values, insertedOfStored (session.storedSample reading).serialize = some values →
    ∀ value ∈ values, CountsEngine reading.gpuMetrics value.1 value.2

/-- The value is one of a supported engine. -/
def isSupported (value : UInt16) : Bool := value != uint16Max

/-- If the engine is sampled, no supported value comes after an unsupported one, and no XCP
with a supported value after one without. -/
def SupportedFirst (isEnabled isDeviceLevelOnly : Bool) (activity : List UInt16)
    (xcps : List (List UInt16)) : Prop :=
  isEnabled = true →
    (isDeviceLevelOnly = true → KeptFirst isSupported activity) ∧
    (isDeviceLevelOnly = false → (∀ xcp ∈ xcps, KeptFirst isSupported xcp) ∧
      KeptFirst (fun xcp : List UInt16 => xcp.any isSupported) xcps)

/-- Both engines of a reading. -/
structure WithoutHoles (reading : Reading) : Prop where
  vcn : SupportedFirst session.settings.vcnActivity session.device.vcnIsDeviceLevelOnly
    reading.gpuMetrics.vcnActivity (reading.gpuMetrics.xcpStats.map XcpStats.vcnBusy)
  jpeg : SupportedFirst session.settings.jpegActivity session.device.jpegIsDeviceLevelOnly
    reading.gpuMetrics.jpegActivity (reading.gpuMetrics.xcpStats.map XcpStats.jpegBusy)

end Session

/-! ## Collected values -/

section Collected

variable {isEnabled isDeviceLevelOnly : Bool} {activity : List UInt16} {xcps : List (List UInt16)}

/-- What is filled in for an engine stays in place exactly if what is left out comes last. -/
theorem filled_inPlace_iff :
    ((∀ (i : Nat) value, (filledActivity isEnabled isDeviceLevelOnly activity)[i]? = some value →
        activity[i]? = some value) ∧
      InPlace (filledBusy isEnabled isDeviceLevelOnly xcps) xcps) ↔
      Session.SupportedFirst isEnabled isDeviceLevelOnly activity xcps := by
  have hnil : ∀ (i : Nat) (value : UInt16), ([] : List UInt16)[i]? = some value →
      activity[i]? = some value := fun _ _ h => nomatch h
  cases isEnabled with
  | false => exact iff_of_true ⟨hnil, inPlace_nil xcps⟩ fun h => nomatch h
  | true =>
    cases isDeviceLevelOnly with
    | true =>
      have hprefix : (∀ (i : Nat) value, (activity.filter Session.isSupported)[i]? = some value →
          activity[i]? = some value) ↔ activity.filter Session.isSupported <+: activity := by
        rw [List.prefix_iff_getElem?]
        constructor
        · exact fun h i hi => h i _ (List.getElem?_eq_getElem hi)
        · intro h i value hvalue
          obtain ⟨hi, rfl⟩ := List.getElem?_eq_some_iff.mp hvalue
          exact h i hi
      show (∀ (i : Nat) value, (activity.filter Session.isSupported)[i]? = some value → _) ∧
        InPlace [] xcps ↔ _
      rw [and_iff_left (inPlace_nil xcps), hprefix, filter_prefix_iff]
      exact ⟨fun h _ => ⟨fun _ => h, fun h' => nomatch h'⟩, fun h => (h rfl).1 rfl⟩
    | false =>
      have hactivity : ∀ (i : Nat) value, (filledActivity true false activity)[i]? = some value →
          activity[i]? = some value := hnil
      show _ ∧ InPlace (compact Session.isSupported xcps) xcps ↔ _
      rw [and_iff_right hactivity, inPlace_compact_iff]
      exact ⟨fun h _ => ⟨fun h' => (nomatch h'), fun _ => h⟩, fun h => (h rfl).2 rfl⟩

theorem engineValue_inPlace_iff {filled : List UInt16} {busy : List (List UInt16)}
    (category : Category) :
    (∀ xcp index value, engineValue filled busy ⟨category, xcp, index⟩ = some value →
      engineValue activity xcps ⟨category, xcp, index⟩ = some value) ↔
      (∀ (i : Nat) value, filled[i]? = some value → activity[i]? = some value) ∧
        InPlace busy xcps := by
  constructor
  · exact fun h => ⟨fun i => h none i, fun x i => h (some x) i⟩
  · rintro ⟨hactivity, hbusy⟩ xcp index value
    cases xcp with
    | none => exact hactivity index value
    | some x => exact hbusy x index value

end Collected

namespace Session

variable {session : Session} {reading : Reading}

/-- The engines of the collected metrics, enabled or not. -/
theorem metrics_engines (session : Session) (reading : Reading) :
    ((session.metrics reading).vcnActivity = filledActivity session.settings.vcnActivity
        session.device.vcnIsDeviceLevelOnly reading.gpuMetrics.vcnActivity ∧
      (session.metrics reading).vcnBusy = filledBusy session.settings.vcnActivity
        session.device.vcnIsDeviceLevelOnly (reading.gpuMetrics.xcpStats.map XcpStats.vcnBusy)) ∧
    (session.metrics reading).jpegActivity = filledActivity session.settings.jpegActivity
        session.device.jpegIsDeviceLevelOnly reading.gpuMetrics.jpegActivity ∧
      (session.metrics reading).jpegBusy = filledBusy session.settings.jpegActivity
        session.device.jpegIsDeviceLevelOnly
          (reading.gpuMetrics.xcpStats.map XcpStats.jpegBusy) := by
  by_cases h : session.settings.gpuMetricsNeeded = true
  · rw [session.metrics_of_needed reading h]
    exact ⟨⟨rfl, rfl⟩, rfl, rfl⟩
  · rw [session.metrics_of_not_needed reading h]
    rw [Settings.gpuMetricsNeeded, Bool.or_eq_true, Bool.or_eq_true, Bool.or_eq_true, not_or,
      not_or, not_or, Bool.not_eq_true, Bool.not_eq_true] at h
    rw [h.1.1.1, h.1.1.2]
    exact ⟨⟨rfl, rfl⟩, rfl, rfl⟩

theorem collected_iff :
    (∀ metric value, collectedValue (session.metrics reading) metric = some value →
      physicalValue reading.gpuMetrics metric = some value) ↔ session.WithoutHoles reading := by
  obtain ⟨⟨hvcnActivity, hvcnBusy⟩, hjpegActivity, hjpegBusy⟩ := session.metrics_engines reading
  have hvcn := (engineValue_inPlace_iff .vcnActivity).trans (@filled_inPlace_iff
    session.settings.vcnActivity session.device.vcnIsDeviceLevelOnly
    reading.gpuMetrics.vcnActivity (reading.gpuMetrics.xcpStats.map XcpStats.vcnBusy))
  have hjpeg := (engineValue_inPlace_iff .jpegActivity).trans (@filled_inPlace_iff
    session.settings.jpegActivity session.device.jpegIsDeviceLevelOnly
    reading.gpuMetrics.jpegActivity (reading.gpuMetrics.xcpStats.map XcpStats.jpegBusy))
  rw [← hvcnActivity, ← hvcnBusy] at hvcn
  rw [← hjpegActivity, ← hjpegBusy] at hjpeg
  constructor
  · intro h
    exact ⟨hvcn.mp fun xcp index => h ⟨.vcnActivity, xcp, index⟩,
      hjpeg.mp fun xcp index => h ⟨.jpegActivity, xcp, index⟩⟩
  · rintro h ⟨category, xcp, index⟩ value hvalue
    cases category with
    | vcnActivity => exact hvcn.mpr h.vcn xcp index value hvalue
    | jpegActivity => exact hjpeg.mpr h.jpeg xcp index value hvalue
    | _ => cases hvalue

end Session

/-! ## Counters of collected values -/

/-- A value for a metric that the collected metrics hold, if the metric is one of an engine. -/
def Collected (metrics : GpuMetrics) (value : Metric × ℚ) : Prop :=
  IsEngine value.1 → ∃ v, collectedValue metrics value.1 = some v ∧ value.2 = v.toNat

theorem collected_of_category {metrics : GpuMetrics} {value : Metric × ℚ} (category : Category)
    (hcategory : value.1.category = category)
    (hne : ¬ (category = .vcnActivity ∨ category = .jpegActivity)) : Collected metrics value := by
  intro h
  rw [IsEngine, hcategory] at h
  exact absurd h hne

/-- One of the values of a vector, for its index there. -/
def AtIndex (category : Category) (xcp : Option Nat) (data : List UInt16) (value : Metric × ℚ) :
    Prop :=
  ∃ i v, value.1 = ⟨category, xcp, i⟩ ∧ data[i]? = some v ∧ value.2 = v.toNat

section AtIndex

variable {category : Category} {isEnabled isDeviceLevelOnly : Bool} {activity : List UInt16}
  {busy : List (List UInt16)} {value : Metric × ℚ}

theorem AtIndex.device (h : AtIndex category none activity value) :
    value.1.category = category ∧
      ∃ v, engineValue activity busy value.1 = some v ∧ value.2 = v.toNat := by
  obtain ⟨i, v, hmetric, hv, hvalue⟩ := h
  rw [hmetric]
  exact ⟨rfl, v, hv, hvalue⟩

theorem AtIndex.xcp {xcp : List UInt16 × Nat} (hxcp : xcp ∈ busy.zipIdx)
    (h : AtIndex category (some xcp.2) xcp.1 value) :
    value.1.category = category ∧
      ∃ v, engineValue activity busy value.1 = some v ∧ value.2 = v.toNat := by
  obtain ⟨i, v, hmetric, hv, hvalue⟩ := h
  have hbusy : busy[xcp.2]? = some xcp.1 := List.mk_mem_zipIdx_iff_getElem?.mp hxcp
  rw [hmetric]
  refine ⟨rfl, v, ?_, hvalue⟩
  show (busy[xcp.2]?).bind (fun l => l[i]?) = some v
  rw [hbusy]
  exact hv

theorem atIndex_of_mem_decodeVectorMetrics {xcp : Option Nat}
    (h : value ∈ decodeVectorMetrics category isEnabled activity xcp) :
    AtIndex category xcp activity value := by
  rw [decodeVectorMetrics] at h
  split at h
  · obtain ⟨entry, hentry, rfl⟩ := List.mem_map.mp h
    have hmem : (entry.1, entry.2) ∈ activity.zipIdx := (List.mem_filter.mp hentry).1
    exact ⟨entry.2, entry.1, rfl, List.mk_mem_zipIdx_iff_getElem?.mp hmem,
      nearestDouble_uint16 entry.1⟩
  · exact absurd h List.not_mem_nil

theorem atIndex_of_mem_zipIdx {xcp : Option Nat}
    (h : value ∈ activity.zipIdx.map fun entry =>
      ((⟨category, xcp, entry.2⟩ : Metric), (entry.1.toNat : ℚ))) :
    AtIndex category xcp activity value := by
  obtain ⟨entry, hentry, rfl⟩ := List.mem_map.mp h
  have hmem : (entry.1, entry.2) ∈ activity.zipIdx := hentry
  exact ⟨entry.2, entry.1, rfl, List.mk_mem_zipIdx_iff_getElem?.mp hmem, rfl⟩

theorem engineValue_of_mem (h : value ∈ engineValues category isEnabled isDeviceLevelOnly
    activity busy) :
    value.1.category = category ∧
      ∃ v, engineValue activity busy value.1 = some v ∧ value.2 = v.toNat := by
  cases isDeviceLevelOnly with
  | true => exact (atIndex_of_mem_decodeVectorMetrics h).device
  | false =>
    obtain ⟨xcp, hxcp, hmem⟩ := List.mem_flatMap.mp h
    exact (atIndex_of_mem_decodeVectorMetrics hmem).xcp hxcp

theorem engineValue_of_mem_writes (h : value ∈ engineWrites category isDeviceLevelOnly activity
    busy) :
    value.1.category = category ∧
      ∃ v, engineValue activity busy value.1 = some v ∧ value.2 = v.toNat := by
  cases isDeviceLevelOnly with
  | true => exact (atIndex_of_mem_zipIdx h).device
  | false =>
    obtain ⟨xcp, hxcp, hmem⟩ := List.mem_flatMap.mp h
    exact (atIndex_of_mem_zipIdx hmem).xcp hxcp

end AtIndex

theorem collected_of_basicMetrics {metrics : GpuMetrics} {settings : Settings}
    {value : Metric × ℚ} (h : value.1 ∈ basicMetrics settings) : Collected metrics value := by
  have hcategory := category_basicMetrics h
  refine collected_of_category _ rfl ?_
  rintro (heq | heq) <;> rw [heq] at hcategory <;> exact absurd hcategory (by decide)

namespace Session

variable {session : Session} {reading : Reading}

/-- A value that came back of an engine is one of the engine's. -/
theorem engineValue_of_restored {isDeviceLevelOnly : Bool} {activity : List UInt16}
    {busy : List (List UInt16)} {back : List UInt16 × List (List UInt16)}
    (hback : restoredEngine isDeviceLevelOnly activity busy = .ok back) {metric : Metric}
    {v : UInt16} (h : engineValue back.1 back.2 metric = some v) :
    engineValue activity busy metric = some v := by
  rcases restoredEngine_eq_ok hback with ⟨-, rfl⟩ | ⟨-, -, rfl⟩
  · exact h
  · obtain ⟨category, xcp, index⟩ := metric
    cases xcp <;> cases h

/-- What both processors find in the metrics of a stored reading. -/
theorem collected_of_deserialize (hneeded : session.settings.gpuMetricsNeeded = true)
    {loaded : GpuMetrics × GpuMetricsCapabilities}
    (hload : deserializeGpuMetrics (session.storedSample reading).gpuActivity.elements {}
      session.settings.toGpuMetricsSettings = .ok loaded) :
    ∀ value ∈ insertedValues session.settings loaded.1 loaded.2,
      Collected (session.metrics reading) value := by
  intro value hvalue
  obtain ⟨metrics, capabilities⟩ := loaded
  obtain ⟨hvcnFlag, hjpegFlag⟩ := capabilitiesOf_flags session.device
  have hcapabilities : session.capabilities = capabilitiesOf session.device := if_pos hneeded
  obtain ⟨hvcnBack, hjpegBack⟩ := engines_of_deserialize
    (session.agrees_metrics reading hneeded) (session.engineFilled_vcn reading)
    (session.engineFilled_jpeg reading) hload
  have hread : capabilities = session.capabilities := (bound_of_deserialize hload).1
  rw [hcapabilities] at hread hvcnBack hjpegBack
  subst hread
  rw [hvcnFlag] at hvcnBack
  rw [hjpegFlag] at hjpegBack
  simp only [insertedValues, List.mem_append, List.mem_ite_nil_right, List.mem_cons,
    List.not_mem_nil, or_false] at hvalue
  rcases hvalue with ((hengine | hengine) | ⟨-, ((rfl | rfl) | hxgmi) | hxgmi⟩) |
    ⟨-, rfl | rfl | rfl | rfl⟩
  · obtain ⟨hcategory, v, hv, hcounter⟩ := engineValue_of_mem hengine
    refine fun _ => ⟨v, ?_, hcounter⟩
    rw [collectedValue, hcategory]
    exact engineValue_of_restored hvcnBack hv
  · obtain ⟨hcategory, v, hv, hcounter⟩ := engineValue_of_mem hengine
    refine fun _ => ⟨v, ?_, hcounter⟩
    rw [collectedValue, hcategory]
    exact engineValue_of_restored hjpegBack hv
  · exact collected_of_category .xgmiLinkWidth rfl (by decide)
  · exact collected_of_category .xgmiLinkSpeed rfl (by decide)
  · obtain ⟨i, -, hmetric⟩ := mem_xgmiVectorMetrics hxgmi
    exact collected_of_category .xgmiReadData (by rw [hmetric]) (by decide)
  · obtain ⟨i, -, hmetric⟩ := mem_xgmiVectorMetrics hxgmi
    exact collected_of_category .xgmiWriteData (by rw [hmetric]) (by decide)
  all_goals rintro (hengine | hengine) <;> cases hengine

/-- A processor that adds what it finds there to the basic metrics. -/
theorem collected_of_processor {basic : List ℚ} {values : List (Metric × ℚ)}
    (h : (if session.settings.gpuMetricsNeeded then
        (deserializeGpuMetrics (session.storedSample reading).gpuActivity.elements {}
          session.settings.toGpuMetricsSettings).toOption.map fun loaded =>
            (basicMetrics session.settings).zip basic ++
              insertedValues session.settings loaded.1 loaded.2
      else some ((basicMetrics session.settings).zip basic)) = some values) :
    ∀ value ∈ values, Collected (session.metrics reading) value := by
  intro value hvalue
  have hbasic (hmem : value ∈ (basicMetrics session.settings).zip basic) :
      Collected (session.metrics reading) value :=
    collected_of_basicMetrics (List.of_mem_zip (show (value.1, value.2) ∈ _ from hmem)).1
  split at h
  · rename_i hneeded
    cases hload : deserializeGpuMetrics (session.storedSample reading).gpuActivity.elements {}
      session.settings.toGpuMetricsSettings with
    | error failure =>
      rw [hload] at h
      cases h
    | ok loaded =>
      rw [hload] at h
      cases h
      rcases List.mem_append.mp hvalue with hmem | hinserted
      · exact hbasic hmem
      · exact collected_of_deserialize hneeded hload value hinserted
  · cases h
    exact hbasic hvalue

theorem collected_of_insertedOfStored {values : List (Metric × ℚ)}
    (h : insertedOfStored (session.storedSample reading).serialize = some values) :
    ∀ value ∈ values, Collected (session.metrics reading) value := by
  have hsettings : Settings.ofBits (session.storedSample reading).settings = session.settings :=
    session.settings.ofBits_serialize
  rw [insertedOfStored, deserialize_storedSample, Option.bind_some, insertedSamples,
    hsettings] at h
  exact collected_of_processor h

/-- What the direct path writes of the metrics. -/
theorem collected_of_gpuMetricsWrites {settings : Settings} {device : Device}
    {metrics : GpuMetrics} : ∀ value ∈ gpuMetricsWrites settings device metrics,
      Collected metrics value := by
  intro value hvalue
  simp only [gpuMetricsWrites, xgmiWrites, List.mem_append, List.mem_ite_nil_right, List.mem_cons,
    List.not_mem_nil, or_false, List.mem_map] at hvalue
  rcases hvalue with ((⟨-, hengine⟩ | ⟨-, hengine⟩) | ⟨-, ((rfl | rfl) | ⟨entry, -, rfl⟩) |
    ⟨entry, -, rfl⟩⟩) | ⟨-, rfl | rfl | rfl | rfl⟩
  · obtain ⟨hcategory, v, hv, hcounter⟩ := engineValue_of_mem_writes hengine
    refine fun _ => ⟨v, ?_, hcounter⟩
    rw [collectedValue, hcategory]
    exact hv
  · obtain ⟨hcategory, v, hv, hcounter⟩ := engineValue_of_mem_writes hengine
    refine fun _ => ⟨v, ?_, hcounter⟩
    rw [collectedValue, hcategory]
    exact hv
  all_goals rintro (hengine | hengine) <;> cases hengine

theorem collected_of_writes : ∀ value ∈ session.writes reading,
    Collected (session.metrics reading) value := by
  intro value hvalue
  rw [writes, metricWrites, head?_gpuMetrics, List.mem_append, List.mem_ite_nil_right] at hvalue
  rcases hvalue with hbasic | ⟨-, hgpu⟩
  · simp only [List.mem_append, List.mem_ite_nil_right, List.mem_cons, List.not_mem_nil,
      or_false] at hbasic
    rcases hbasic with ((⟨-, rfl | rfl | rfl⟩ | ⟨-, rfl⟩) | ⟨-, rfl⟩) | ⟨-, rfl⟩
    all_goals rintro (hengine | hengine) <;> cases hengine
  · exact collected_of_gpuMetricsWrites value hgpu

theorem reachesTracks_ready {tracks : CachedTracks} (h : session.ReachesTracks tracks) :
    TracksReady session tracks := by
  obtain ⟨readings, hrun⟩ := h
  have hallows := @along_of_forall _ _ (fun tracks reading =>
    (session.replayReading tracks reading).map Prod.fst) (fun _ _ => True) (fun _ _ => trivial)
    CounterTracks.empty readings
  refine invariant_of_run (fun tracks reading tracks' hready _ hstep => ?_)
    (tracksReady_empty session) hallows hrun
  obtain ⟨tracks'', hready', heq⟩ := session.handle_storedSample reading hready
  obtain ⟨result, hresult, rfl⟩ := Option.map_eq_some_iff.mp hstep
  rw [replayReading, handleStored_serialize, heq] at hresult
  obtain ⟨values, -, rfl⟩ := Option.map_eq_some_iff.mp hresult
  exact hready'

/-- The counters of a replayed reading. -/
theorem replayReading_collected {tracks tracks' : CachedTracks} {counters : List Counter}
    (hready : TracksReady session tracks)
    (h : session.replayReading tracks reading = some (tracks', counters)) :
    ∃ values : List (Metric × ℚ), counters = values.map (cachedCounter reading.timestamp) ∧
      ∀ value ∈ values, Collected (session.metrics reading) value := by
  obtain ⟨tracks'', -, heq⟩ := session.handle_storedSample reading hready
  rw [replayReading, handleStored_serialize, heq] at h
  obtain ⟨values, hvalues, heq⟩ := Option.map_eq_some_iff.mp h
  cases heq
  exact ⟨values, rfl, collected_of_processor hvalues⟩

/-- The counters of a reading on the tracks set up for it. -/
theorem direct_collected {counters : List Counter} (h : session.direct [reading] = some counters)
    {counter : Counter} (hcounter : counter ∈ counters) :
    ∃ value, counter = directCounter reading.timestamp value ∧
      Collected (session.metrics reading) value := by
  obtain ⟨hsome, rfl⟩ := direct_eq_some_iff.mp h
  rw [List.flatMap_singleton] at hcounter
  by_cases hnone : session.isValidAt reading.timestamp = true → session.metricsOf reading = []
  · rw [directCounters_of_nil hnone] at hcounter
    exact absurd hcounter List.not_mem_nil
  · obtain ⟨hv, hne⟩ := Classical.not_imp.mp hnone
    rw [layout_cons_of_valid hv hne, directCounters, if_pos hv,
      if_pos (session.length_values reading).le, Option.getD_some] at hcounter
    obtain ⟨value, hvalue, rfl⟩ := List.mem_map.mp hcounter
    exact ⟨value, rfl, collected_of_writes value (session.writes_eq_zip reading ▸ hvalue)⟩

/-- The values are those of their engines exactly if each sampled engine has its unsupported
entries last. -/
theorem attributed_iff (session : Session) (reading : Reading) :
    session.Attributed reading ↔ session.WithoutHoles reading := by
  constructor
  · exact fun h => collected_iff.mp h.collected
  · intro h
    have hcollected := collected_iff.mpr h
    have hcounts {value : Metric × ℚ} (hvalue : Collected (session.metrics reading) value) :
        CountsEngine reading.gpuMetrics value.1 value.2 := by
      intro hengine
      obtain ⟨v, hv, heq⟩ := hvalue hengine
      exact ⟨v, hcollected value.1 v hv, heq⟩
    refine ⟨hcollected, fun counters hdirect counter hmem => ?_,
      fun tracks tracks' counters htracks hreplay counter hmem => ?_,
      fun values hvalues value hmem => hcounts (collected_of_insertedOfStored hvalues value hmem)⟩
    · obtain ⟨value, rfl, hvalue⟩ := direct_collected hdirect hmem
      exact hcounts hvalue
    · obtain ⟨values, rfl, hvalues⟩ := replayReading_collected (reachesTracks_ready htracks) hreplay
      obtain ⟨value, hvalue, rfl⟩ := List.mem_map.mp hmem
      exact hcounts (hvalues value hvalue)

/-- A device whose VCN engines are sampled XCP by XCP. -/
def vcnByXcp : Session where
  megabyte := 1000000
  device := ⟨0, false, false⟩
  settings := { jpegActivity := false, xgmi := false, pcie := false }
  lifetime := some (0, 100)

/-- Only the second engine of the second XCP is supported. -/
def readingWithHoles : Reading :=
  Reading.ofXcps 10 [⟨[65535, 65535], [], Nat.lt_of_sub_eq_succ rfl, nil_lt⟩,
    ⟨[65535, 7], [], Nat.lt_of_sub_eq_succ rfl, nil_lt⟩] (Nat.lt_of_sub_eq_succ rfl)

/-- The engine's value is collected as one of the first engine of the first XCP. -/
theorem not_attributed_vcnByXcp : ¬ vcnByXcp.Attributed readingWithHoles := by
  intro h
  have hcollected : collectedValue (vcnByXcp.metrics readingWithHoles)
      ⟨.vcnActivity, some 0, 0⟩ = some 7 := rfl
  have hphysical := h.collected _ _ hcollected
  have hunsupported : physicalValue readingWithHoles.gpuMetrics ⟨.vcnActivity, some 0, 0⟩ =
      some 65535 := rfl
  rw [hunsupported] at hphysical
  exact absurd (Option.some.inj hphysical) (by decide)

end Session

end AmdSmi
end Gpu
end Rocprofsys
