import Rocprofsys.Base.Blocks
import Rocprofsys.Base.Positions
import Rocprofsys.Gpu.AmdSmiDirect

namespace Rocprofsys
namespace Gpu
namespace AmdSmi

open Base TraceCache

/-! ## What is written -/

/-- The values of an engine, each for its index, and for its XCP if they are sampled so. -/
def engineWrites (category : Category) (isDeviceLevelOnly : Bool) (activity : List UInt16)
    (busy : List (List UInt16)) : List (Metric × ℚ) :=
  if isDeviceLevelOnly then
    activity.zipIdx.map fun value => ({ category, index := value.2 }, (value.1.toNat : ℚ))
  else
    busy.zipIdx.flatMap fun xcp => xcp.1.zipIdx.map fun value =>
      ({ category, xcp := some xcp.2, index := value.2 }, (value.1.toNat : ℚ))

def xgmiWrites (category : Category) (data : List UInt64) : List (Metric × ℚ) :=
  data.zipIdx.map fun value => ({ category, index := value.2 }, (value.1.toNat : ℚ))

def gpuMetricsWrites (settings : Settings) (device : Device) (metrics : GpuMetrics) :
    List (Metric × ℚ) :=
  (if settings.vcnActivity then
    engineWrites .vcnActivity device.vcnIsDeviceLevelOnly metrics.vcnActivity metrics.vcnBusy
    else []) ++
  (if settings.jpegActivity then
    engineWrites .jpegActivity device.jpegIsDeviceLevelOnly metrics.jpegActivity metrics.jpegBusy
    else []) ++
  (if settings.xgmi then
    [({ category := .xgmiLinkWidth }, (metrics.xgmiLinkWidth.toNat : ℚ)),
      ({ category := .xgmiLinkSpeed }, (metrics.xgmiLinkSpeed.toNat : ℚ))] ++
    xgmiWrites .xgmiReadData metrics.xgmiReadDataAcc ++
    xgmiWrites .xgmiWriteData metrics.xgmiWriteDataAcc else []) ++
  (if settings.pcie then
    [({ category := .pcieLinkWidth }, (metrics.pcieLinkWidth.toNat : ℚ)),
      ({ category := .pcieLinkSpeed }, (metrics.pcieLinkSpeed.toNat : ℚ)),
      ({ category := .pcieBandwidthAcc }, (metrics.pcieBandwidthAcc.toNat : ℚ)),
      ({ category := .pcieBandwidthInst }, (metrics.pcieBandwidthInst.toNat : ℚ))] else [])

/-- The values that `write_perfetto_metrics` writes, each with the metric it is written for. -/
def metricWrites (megabyte : UInt64) (settings : Settings) (device : Device) (data : Data) :
    List (Metric × ℚ) :=
  (if settings.busy then
    [({ category := .gfxBusy }, nearestDouble data.gfxActivity.toNat),
      ({ category := .umcBusy }, nearestDouble data.umcActivity.toNat),
      ({ category := .mmBusy }, nearestDouble data.mmActivity.toNat)] else []) ++
  (if settings.temp then [({ category := .temp }, nearestDouble data.temp.toInt)] else []) ++
  (if settings.power then
    [({ category := .power }, nearestDouble data.currentSocketPower.toNat)] else []) ++
  (if settings.memUsage then
    [({ category := .memoryUsage }, megabytes megabyte data.memUsage)] else []) ++
  (data.gpuMetrics.head?.map (gpuMetricsWrites settings device)).getD []

/-- A counter's value with the metric of its track. -/
def labelOf (counter : Counter) : Metric × ℚ := (counter.track.metric, counter.value)

/-! ## Tracks by category and XCP -/

/-- The XCP of an engine, if it is one of an XCP, and its category. -/
abbrev Group := Category × Option Nat

def metricAt (element : Group × Nat) : Metric := ⟨element.1.1, element.1.2, element.2⟩

def engineCounts (category : Category) (isDeviceLevelOnly : Bool) (activity : List UInt16)
    (busy : List (List UInt16)) : List (Group × Nat) :=
  if isDeviceLevelOnly then [((category, none), activity.length)]
  else busy.zipIdx.map fun xcp => ((category, some xcp.2), xcp.1.length)

def gpuMetricsCounts (settings : Settings) (device : Device) (metrics : GpuMetrics) :
    List (Group × Nat) :=
  (if settings.vcnActivity then
    engineCounts .vcnActivity device.vcnIsDeviceLevelOnly metrics.vcnActivity metrics.vcnBusy
    else []) ++
  (if settings.jpegActivity then
    engineCounts .jpegActivity device.jpegIsDeviceLevelOnly metrics.jpegActivity metrics.jpegBusy
    else []) ++
  (if settings.xgmi then
    [((.xgmiLinkWidth, none), 1), ((.xgmiLinkSpeed, none), 1),
      ((.xgmiReadData, none), metrics.xgmiReadDataAcc.length),
      ((.xgmiWriteData, none), metrics.xgmiWriteDataAcc.length)] else []) ++
  (if settings.pcie then
    [((.pcieLinkWidth, none), 1), ((.pcieLinkSpeed, none), 1), ((.pcieBandwidthAcc, none), 1),
      ((.pcieBandwidthInst, none), 1)] else [])

namespace Session

variable (session : Session)

def writes (reading : Reading) : List (Metric × ℚ) :=
  metricWrites session.megabyte session.settings session.device (session.sample reading)

/-- Every index that is written to has a track of the device, the one of the metric that is
written. -/
structure Labelled (readings : List Reading) : Prop where
  emplaced : (session.direct readings).isSome = true
  labelled : ∀ counters, session.direct readings = some counters →
    counters.map labelOf =
      (readings.filter fun reading => session.isValidAt reading.timestamp).flatMap session.writes

/-- How many values a reading has in each category and XCP that has any. -/
def counts (reading : Reading) : List (Group × Nat) :=
  ((basicMetrics session.settings).map (fun metric : Metric =>
      ((metric.category, metric.xcp), 1)) ++
    if hasData (session.metrics reading) then
      gpuMetricsCounts session.settings session.device (session.metrics reading)
    else []).filter fun group => 0 < group.2

/-- Those of the first reading in the lifetime that has any. -/
def firstCounts (readings : List Reading) : List (Group × Nat) :=
  ((readings.find? fun reading => session.isValidAt reading.timestamp &&
    !(session.counts reading).isEmpty).map session.counts).getD []

/-- No reading in the lifetime has other values than the first, but it may end before. -/
def SameCounts (readings : List Reading) : Prop :=
  ∀ reading ∈ readings, session.isValidAt reading.timestamp = true →
    Within (session.counts reading) (session.firstCounts readings)

end Session

/-! ## Writes and tracks -/

theorem map_zipIdx_index (category : Category) (xcp : Option Nat) {α : Type} (data : List α)
    (f : α → ℚ) :
    (data.zipIdx.map fun value => ((⟨category, xcp, value.2⟩ : Metric), f value.1)).map Prod.fst =
        (List.range data.length).map (fun i => ⟨category, xcp, i⟩) ∧
      (data.zipIdx.map fun value => ((⟨category, xcp, value.2⟩ : Metric), f value.1)).map Prod.snd =
        data.map f := by
  constructor
  · rw [List.map_map, List.range_eq_range', ← List.zipIdx_map_snd, List.map_map]
    rfl
  · conv_rhs => rw [← List.zipIdx_map_fst 0 data]
    rw [List.map_map, List.map_map]
    rfl

theorem engineWrites_map (category : Category) (isDeviceLevelOnly : Bool) (activity : List UInt16)
    (busy : List (List UInt16)) :
    (engineWrites category isDeviceLevelOnly activity busy).map Prod.fst =
        engineMetrics category isDeviceLevelOnly activity busy ∧
      (engineWrites category isDeviceLevelOnly activity busy).map Prod.snd =
        (dataFlat isDeviceLevelOnly activity busy).map fun value => (value.toNat : ℚ) := by
  cases isDeviceLevelOnly with
  | true => exact map_zipIdx_index category none activity fun value => (value.toNat : ℚ)
  | false =>
    show (busy.zipIdx.flatMap _).map _ = busy.zipIdx.flatMap _ ∧
      (busy.zipIdx.flatMap _).map _ = busy.flatten.map _
    rw [List.map_flatMap, List.map_flatMap]
    have hxcp (xcp : List UInt16 × Nat) := map_zipIdx_index category (some xcp.2) xcp.1
      fun value => (value.toNat : ℚ)
    refine ⟨List.flatMap_congr fun xcp _ => (hxcp xcp).1, ?_⟩
    rw [map_flatten_zipIdx]
    exact List.flatMap_congr fun xcp _ => (hxcp xcp).2

theorem map_ite_nil {α β : Type} (f : α → β) (p : Prop) [Decidable p] (l : List α) :
    (if p then l else []).map f = if p then l.map f else [] := by
  split <;> rfl

theorem xgmiWrites_map (category : Category) (data : List UInt64) :
    (xgmiWrites category data).map Prod.fst = xgmiMetrics category data ∧
      (xgmiWrites category data).map Prod.snd = data.map fun value => (value.toNat : ℚ) :=
  map_zipIdx_index category none data fun value => (value.toNat : ℚ)

/-- The writes go through the metrics as the tracks do. -/
theorem gpuMetricsWrites_map (settings : Settings) (device : Device) (metrics : GpuMetrics) :
    (gpuMetricsWrites settings device metrics).map Prod.fst =
        gpuMetricsTracks settings device metrics ∧
      (gpuMetricsWrites settings device metrics).map Prod.snd =
        gpuMetricsValues settings device metrics := by
  obtain ⟨hvcn, hvcn'⟩ := engineWrites_map .vcnActivity device.vcnIsDeviceLevelOnly
    metrics.vcnActivity metrics.vcnBusy
  obtain ⟨hjpeg, hjpeg'⟩ := engineWrites_map .jpegActivity device.jpegIsDeviceLevelOnly
    metrics.jpegActivity metrics.jpegBusy
  have hlinks := fun category data => (xgmiWrites_map category data).1
  have hlinks' := fun category data => (xgmiWrites_map category data).2
  simp only [gpuMetricsWrites, List.map_append, map_ite_nil, hvcn, hvcn', hjpeg, hjpeg', hlinks,
    hlinks']
  exact ⟨rfl, rfl⟩

namespace Session

variable (session : Session) (reading : Reading)

theorem map_fst_writes : (session.writes reading).map Prod.fst = session.metricsOf reading := by
  have hgpu := gpuMetricsWrites_map session.settings session.device (session.metrics reading)
  rw [writes, metricWrites, metricsOf, basicMetrics, head?_gpuMetrics]
  simp only [List.map_append, map_ite_nil, hgpu.1]
  rfl

theorem map_snd_writes : (session.writes reading).map Prod.snd = session.values reading := by
  have hgpu := gpuMetricsWrites_map session.settings session.device (session.metrics reading)
  rw [writes, metricWrites, values, writtenValues, head?_gpuMetrics, head?_gpuMetrics]
  simp only [List.map_append, map_ite_nil, hgpu.2]
  rfl

theorem writes_eq_zip :
    session.writes reading = (session.metricsOf reading).zip (session.values reading) :=
  List.zip_of_prod (session.map_fst_writes reading) (session.map_snd_writes reading)

variable {session} {readings : List Reading}

section Chunk

variable {reading : Reading} {layout : List Metric}

theorem directCounters_of_valid (hvalid : session.isValidAt reading.timestamp = true) :
    session.directCounters reading layout =
      if (session.metricsOf reading).length ≤ layout.length then
        some ((layout.zip (session.values reading)).map (directCounter reading.timestamp))
      else none := by
  rw [directCounters, if_pos hvalid, length_values]

theorem map_labelOf_directCounters (hvalid : session.isValidAt reading.timestamp = true)
    (hle : (session.metricsOf reading).length ≤ layout.length) :
    ((session.directCounters reading layout).getD []).map labelOf =
      layout.zip (session.values reading) := by
  rw [directCounters_of_valid hvalid, if_pos hle, Option.getD_some, List.map_map]
  exact List.map_id _

/-- The labels are those of what is written exactly if the tracks begin with its metrics. -/
theorem zip_values_eq_writes_iff (hle : (session.metricsOf reading).length ≤ layout.length) :
    layout.zip (session.values reading) = session.writes reading ↔
      session.metricsOf reading <+: layout := by
  have hlength : (session.values reading).length =
      (layout.take (session.metricsOf reading).length).length := by
    rw [List.length_take, Nat.min_eq_left hle, length_values]
  rw [writes_eq_zip]
  constructor
  · intro h
    have hfst := congrArg (List.map Prod.fst) h
    rw [zip_prefix_eq (List.take_prefix _ layout) hlength, List.map_fst_zip hlength.ge,
      List.map_fst_zip (session.length_values reading).ge] at hfst
    exact hfst ▸ List.take_prefix _ layout
  · exact fun h => zip_prefix_eq h (session.length_values reading)

end Chunk

/-- If no index is out of range, the labels are right exactly if every reading in the lifetime
has its metrics on the tracks. -/
theorem labels_eq_iff
    (hle : ∀ reading ∈ readings, session.isValidAt reading.timestamp = true →
      (session.metricsOf reading).length ≤ (session.layout readings).length) :
    (readings.flatMap fun reading =>
        (session.directCounters reading (session.layout readings)).getD []).map labelOf =
      (readings.filter fun reading => session.isValidAt reading.timestamp).flatMap
        session.writes ↔
    ∀ reading ∈ readings, session.isValidAt reading.timestamp = true →
      session.metricsOf reading <+: session.layout readings := by
  have hnone : ∀ reading ∈ readings, session.isValidAt reading.timestamp = false →
      ((session.directCounters reading (session.layout readings)).getD []).map labelOf = [] := by
    intro reading _ hvalid
    rw [directCounters, hvalid]
    rfl
  have hvalues {reading : Reading} (hmem : reading ∈ readings)
      (hvalid : session.isValidAt reading.timestamp = true) :=
    map_labelOf_directCounters hvalid (hle reading hmem hvalid)
  rw [List.map_flatMap, ← flatMap_filter_of_nil hnone, flatMap_eq_flatMap_iff]
  · constructor
    · intro h reading hmem hvalid
      refine (zip_values_eq_writes_iff (hle reading hmem hvalid)).mp ?_
      rw [← hvalues hmem hvalid]
      exact h reading (List.mem_filter.mpr ⟨hmem, hvalid⟩)
    · intro h reading hreading
      obtain ⟨hmem, hvalid⟩ := List.mem_filter.mp hreading
      rw [hvalues hmem hvalid]
      exact (zip_values_eq_writes_iff (hle reading hmem hvalid)).mpr (h reading hmem hvalid)
  · intro reading hreading
    obtain ⟨hmem, hvalid⟩ := List.mem_filter.mp hreading
    have hshort := hle reading hmem hvalid
    rw [hvalues hmem hvalid, writes_eq_zip, List.length_zip, List.length_zip, length_values,
      Nat.min_eq_right hshort, Nat.min_self]

theorem isSome_directCounters_iff {reading : Reading} {layout : List Metric} :
    (session.directCounters reading layout).isSome = true ↔
      (session.isValidAt reading.timestamp = true →
        (session.metricsOf reading).length ≤ layout.length) := by
  by_cases hvalid : session.isValidAt reading.timestamp = true
  · rw [directCounters_of_valid hvalid]
    split
    · rename_i hle
      exact iff_of_true rfl fun _ => hle
    · rename_i hgt
      exact iff_of_false Bool.false_ne_true fun hle => hgt (hle hvalid)
  · rw [directCounters, if_neg hvalid]
    exact iff_of_true rfl fun h => absurd h hvalid

/-- Every reading in the lifetime has its metrics on the tracks. -/
theorem labelled_iff_prefix : session.Labelled readings ↔
    ∀ reading ∈ readings, session.isValidAt reading.timestamp = true →
      session.metricsOf reading <+: session.layout readings := by
  constructor
  · intro h
    obtain ⟨hsome, hlabelled⟩ := h
    obtain ⟨counters, hdirect⟩ := Option.isSome_iff_exists.mp hsome
    obtain ⟨hemplaced, rfl⟩ := direct_eq_some_iff.mp hdirect
    exact (labels_eq_iff fun reading hmem => isSome_directCounters_iff.mp
      (hemplaced reading hmem)).mp (hlabelled _ hdirect)
  · intro h
    have hle : ∀ reading ∈ readings, session.isValidAt reading.timestamp = true →
        (session.metricsOf reading).length ≤ (session.layout readings).length :=
      fun reading hmem hvalid => (h reading hmem hvalid).length_le
    have hdirect := direct_eq_some_iff.mpr
      ⟨fun reading hmem => isSome_directCounters_iff.mpr (hle reading hmem), rfl⟩
    refine ⟨Option.isSome_of_eq_some hdirect, fun counters hcounters => ?_⟩
    rw [hdirect] at hcounters
    cases hcounters
    exact (labels_eq_iff hle).mpr h

end Session

/-! ## Counts -/

theorem metricAt_injective : Function.Injective metricAt := by
  rintro ⟨⟨category, xcp⟩, i⟩ ⟨⟨category', xcp'⟩, i'⟩ h
  cases h
  rfl

theorem engineMetrics_eq_numbered (category : Category) (isDeviceLevelOnly : Bool)
    (activity : List UInt16) (busy : List (List UInt16)) :
    engineMetrics category isDeviceLevelOnly activity busy =
      (numbered (engineCounts category isDeviceLevelOnly activity busy)).map metricAt := by
  cases isDeviceLevelOnly with
  | true =>
    show _ = ((_ ++ []) : List (Group × Nat)).map metricAt
    rw [List.append_nil, List.map_map]
    rfl
  | false =>
    show _ = (List.flatMap _ (List.map _ busy.zipIdx)).map metricAt
    rw [List.flatMap_map, List.map_flatMap]
    refine List.flatMap_congr fun xcp _ => ?_
    rw [List.map_map]
    rfl

theorem gpuMetricsTracks_eq_numbered (settings : Settings) (device : Device)
    (metrics : GpuMetrics) :
    gpuMetricsTracks settings device metrics =
      (numbered (gpuMetricsCounts settings device metrics)).map metricAt := by
  have hite (p : Prop) [Decidable p] {l : List Metric} {blocks : List (Group × Nat)}
      (h : l = (numbered blocks).map metricAt) :
      (if p then l else []) = (numbered (if p then blocks else [])).map metricAt := by
    split
    · exact h
    · rfl
  rw [gpuMetricsTracks, gpuMetricsCounts, numbered_append, numbered_append, numbered_append,
    List.map_append, List.map_append, List.map_append]
  refine congrArg₂ _ (congrArg₂ _ (congrArg₂ _ (hite _ (engineMetrics_eq_numbered _ _ _ _))
    (hite _ (engineMetrics_eq_numbered _ _ _ _))) (hite _ ?_)) (hite _ rfl)
  rw [numbered_cons, numbered_cons, numbered_cons, numbered_cons, xgmiMetrics, xgmiMetrics]
  simp only [List.map_append, List.map_map, List.append_assoc]
  show _ = _ ++ (_ ++ (_ ++ (_ ++ [])))
  rw [List.append_nil]
  rfl

/-- A metric with the index 0 is the only one of its group. -/
theorem eq_numbered_of_index {metrics : List Metric} (h : ∀ metric ∈ metrics, metric.index = 0) :
    metrics =
      (numbered (metrics.map fun metric => ((metric.category, metric.xcp), 1))).map metricAt := by
  induction metrics with
  | nil => rfl
  | cons metric metrics ih =>
    obtain ⟨category, xcp, index⟩ := metric
    rw [List.forall_mem_cons] at h
    obtain ⟨rfl, hrest⟩ := h
    rw [List.map_cons, numbered_cons, List.map_append, ← ih hrest]
    rfl

theorem index_basicMetrics {settings : Settings} : ∀ metric ∈ basicMetrics settings,
    metric.index = 0 := by
  intro metric h
  simp only [basicMetrics, List.mem_append, List.mem_ite_nil_right, List.mem_cons,
    List.not_mem_nil, or_false] at h
  rcases h with ((⟨-, rfl | rfl | rfl⟩ | ⟨-, rfl⟩) | ⟨-, rfl⟩) | ⟨-, rfl⟩ <;> rfl

namespace Session

variable {session : Session} {reading : Reading} {readings : List Reading}

theorem metricsOf_eq_numbered :
    session.metricsOf reading = (numbered (session.counts reading)).map metricAt := by
  have hgpu : (if hasData (session.metrics reading) then
      gpuMetricsTracks session.settings session.device (session.metrics reading) else []) =
        (numbered (if hasData (session.metrics reading) then
          gpuMetricsCounts session.settings session.device (session.metrics reading)
        else [])).map metricAt := by
    split
    · exact gpuMetricsTracks_eq_numbered _ _ _
    · rfl
  rw [counts, numbered_filter, numbered_append, List.map_append, metricsOf, hgpu,
    ← eq_numbered_of_index index_basicMetrics]

theorem counts_pos : ∀ group ∈ session.counts reading, 0 < group.2 :=
  fun _ h => of_decide_eq_true (List.mem_filter.mp h).2

theorem metricsOf_eq_nil_iff : session.metricsOf reading = [] ↔ session.counts reading = [] := by
  rw [metricsOf_eq_numbered, List.map_eq_nil_iff, numbered_eq_nil_iff counts_pos]

theorem firstCounts_pos : ∀ group ∈ session.firstCounts readings, 0 < group.2 := by
  rw [firstCounts]
  cases readings.find? fun reading => session.isValidAt reading.timestamp &&
    !(session.counts reading).isEmpty with
  | none => exact fun _ h => absurd h List.not_mem_nil
  | some reading => exact counts_pos

theorem layout_eq_numbered :
    session.layout readings = (numbered (session.firstCounts readings)).map metricAt := by
  induction readings with
  | nil => rfl
  | cons reading readings ih =>
    by_cases hnone : session.isValidAt reading.timestamp = true → session.metricsOf reading = []
    · rw [layout_cons_of_not hnone, ih, firstCounts, firstCounts, List.find?_cons_of_neg]
      rw [Bool.and_eq_true, Bool.not_eq_true', List.isEmpty_eq_false_iff, not_and, not_not]
      exact fun hvalid => metricsOf_eq_nil_iff.mp (hnone hvalid)
    · obtain ⟨hvalid, hne⟩ := Classical.not_imp.mp hnone
      rw [layout_cons_of_valid hvalid hne, metricsOf_eq_numbered, firstCounts,
        List.find?_cons_of_pos]
      · rfl
      · rw [hvalid, Bool.true_and, Bool.not_eq_true', List.isEmpty_eq_false_iff]
        exact fun h => hne (metricsOf_eq_nil_iff.mpr h)

/-- The labels are right exactly if the readings have the same counts. -/
theorem labelled_iff (session : Session) (readings : List Reading) :
    session.Labelled readings ↔ session.SameCounts readings := by
  refine labelled_iff_prefix.trans (forall₃_congr fun reading _ _ => ?_)
  rw [metricsOf_eq_numbered, layout_eq_numbered, List.prefix_map_iff_of_injective
    metricAt_injective, numbered_prefix_iff counts_pos firstCounts_pos]

/-- A device of which only the VCN engines are enabled, XCP by XCP. -/
def vcnOnly : Session where
  megabyte := 1000000
  device := ⟨0, false, false⟩
  settings := { busy := false, temp := false, power := false, memUsage := false,
                jpegActivity := false, xgmi := false, pcie := false }
  lifetime := some (0, 100)

/-- A reading of two engines of one XCP. -/
def vcnReading (first second : UInt16) : Reading :=
  Reading.ofXcps 10 [⟨[first, second], [], Nat.lt_of_sub_eq_succ rfl, nil_lt⟩]
    (Nat.lt_of_sub_eq_succ rfl)

/-- An engine that is supported from the second reading on has no track. -/
theorem not_labelled_vcnOnly : ¬ vcnOnly.Labelled [vcnReading 7 65535, vcnReading 7 8] := by
  intro h
  have hnone : (vcnOnly.direct [vcnReading 7 65535, vcnReading 7 8]).isSome = false := rfl
  rw [h.emplaced] at hnone
  cases hnone

end Session

end AmdSmi
end Gpu
end Rocprofsys
