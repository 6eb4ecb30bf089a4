import Rocprofsys.Gpu.AmdSmiTracks
import Rocprofsys.Gpu.GpuMetricsOverflow
import Rocprofsys.TraceCache.CacheFile

namespace Rocprofsys
namespace Gpu
namespace AmdSmi

open Base TraceCache

/-! ## What a stored sample holds -/

theorem Settings.ofBits_serialize (settings : Settings) :
    Settings.ofBits settings.serialize = settings := by
  have hlt := Nat.ofBits_lt_two_pow settings.bits
  have hvalue : settings.serialize.toNat = Nat.ofBits settings.bits := by
    rw [Settings.serialize, UInt64.toNat_ofNat']
    omega
  have hbit (i : Nat) (h : i < 8) :
      settings.serialize.toNat.testBit i = settings.bits ⟨i, h⟩ := by
    rw [hvalue, Nat.testBit_ofBits_lt _ _ h]
  simp only [Settings.ofBits, hbit 0 (by omega), hbit 1 (by omega), hbit 2 (by omega),
    hbit 3 (by omega), hbit 4 (by omega), hbit 5 (by omega), hbit 6 (by omega), hbit 7 (by omega)]
  rfl

theorem capabilitiesOf_flags (device : Device) :
    (capabilitiesOf device).vcnIsDeviceLevelOnly = device.vcnIsDeviceLevelOnly ∧
      (capabilitiesOf device).jpegIsDeviceLevelOnly = device.jpegIsDeviceLevelOnly := by
  have hflags : ∀ vcn jpeg : Bool,
      (GpuMetricsCapabilities.mk (UInt8.ofNat (vcn.toNat + 2 * jpeg.toNat))).vcnIsDeviceLevelOnly =
        vcn ∧
      (GpuMetricsCapabilities.mk (UInt8.ofNat (vcn.toNat + 2 * jpeg.toNat))).jpegIsDeviceLevelOnly =
        jpeg := by decide
  exact hflags device.vcnIsDeviceLevelOnly device.jpegIsDeviceLevelOnly

theorem mem_fillGpuMetrics {α : Type} [DecidableEq α] {src : List α} {maxVal value : α}
    (h : value ∈ fillGpuMetrics src maxVal) : value ≠ maxVal :=
  bne_iff_ne.mp (List.mem_filter.mp h).2

theorem length_fillGpuMetrics_le {α : Type} [DecidableEq α] (src : List α) (maxVal : α) :
    (fillGpuMetrics src maxVal).length ≤ src.length := List.length_filter_le _ _

theorem mem_fillXcps {xcps : List (List UInt16)} {xcp : List UInt16} (h : xcp ∈ fillXcps xcps) :
    xcp ≠ [] ∧ ∃ src ∈ xcps, xcp = fillGpuMetrics src uint16Max := by
  obtain ⟨hmem, hne⟩ := List.mem_filter.mp h
  obtain ⟨src, hsrc, rfl⟩ := List.mem_map.mp hmem
  rw [Bool.not_eq_true', List.isEmpty_eq_false_iff] at hne
  exact ⟨hne, src, hsrc, rfl⟩

/-- The device's values of an engine as `sample` fills them in. -/
def filledActivity (isEnabled isDeviceLevelOnly : Bool) (activity : List UInt16) : List UInt16 :=
  if isEnabled && isDeviceLevelOnly then fillGpuMetrics activity uint16Max else []

/-- The values of an engine's XCPs as `sample` fills them in. -/
def filledBusy (isEnabled isDeviceLevelOnly : Bool) (xcps : List (List UInt16)) :
    List (List UInt16) :=
  if isEnabled && !isDeviceLevelOnly then fillXcps xcps else []

section Engine

variable {isEnabled isDeviceLevelOnly : Bool} {activity : List UInt16} {xcps : List (List UInt16)}

theorem engineAgrees_filled :
    EngineAgrees isEnabled isDeviceLevelOnly (filledActivity isEnabled isDeviceLevelOnly activity)
      (filledBusy isEnabled isDeviceLevelOnly xcps) := by
  cases isEnabled with
  | false => exact ⟨fun h => absurd rfl h, fun h => absurd rfl h⟩
  | true =>
    cases isDeviceLevelOnly with
    | true => exact ⟨fun _ => ⟨rfl, rfl⟩, fun h => absurd rfl h⟩
    | false => exact ⟨fun h => absurd rfl h, fun _ => ⟨rfl, rfl⟩⟩

theorem mem_filledActivity {value : UInt16}
    (h : value ∈ filledActivity isEnabled isDeviceLevelOnly activity) : value ≠ uint16Max := by
  rw [filledActivity] at h
  split at h
  · exact mem_fillGpuMetrics h
  · exact absurd h List.not_mem_nil

theorem mem_filledBusy {xcp : List UInt16} (h : xcp ∈ filledBusy isEnabled isDeviceLevelOnly xcps) :
    xcp ≠ [] ∧ ∃ src ∈ xcps, xcp = fillGpuMetrics src uint16Max := by
  rw [filledBusy] at h
  split at h
  · exact mem_fillXcps h
  · exact absurd h List.not_mem_nil

theorem length_filledActivity_le :
    (filledActivity isEnabled isDeviceLevelOnly activity).length ≤ activity.length := by
  rw [filledActivity]
  split
  · exact length_fillGpuMetrics_le _ _
  · exact Nat.zero_le _

theorem length_filledBusy_le :
    (filledBusy isEnabled isDeviceLevelOnly xcps).length ≤ xcps.length := by
  rw [filledBusy]
  split
  · refine (List.length_filter_le _ _).trans ?_
    rw [List.length_map]
  · exact Nat.zero_le _

theorem engineFilled_filled (hactivity : activity.length < 256) (hxcps : xcps.length < 256)
    (hsizes : ∀ xcp ∈ xcps, xcp.length < 256) :
    EngineFilled (filledActivity isEnabled isDeviceLevelOnly activity)
      (filledBusy isEnabled isDeviceLevelOnly xcps) := by
  refine ⟨length_filledActivity_le.trans_lt hactivity, length_filledBusy_le.trans_lt hxcps,
    fun xcp hxcp => ?_, fun xcp hxcp => (mem_filledBusy hxcp).1⟩
  obtain ⟨-, src, hsrc, rfl⟩ := mem_filledBusy hxcp
  exact (length_fillGpuMetrics_le _ _).trans_lt (hsizes src hsrc)

end Engine

namespace Session

variable (session : Session) (reading : Reading)

/-- The capabilities that go with the metrics. -/
def capabilities : GpuMetricsCapabilities :=
  if session.settings.gpuMetricsNeeded then capabilitiesOf session.device else {}

theorem metrics_of_needed (h : session.settings.gpuMetricsNeeded = true) :
    session.metrics reading =
      filledMetrics session.settings session.device reading.gpuMetrics := if_pos h

theorem metrics_of_not_needed (h : ¬session.settings.gpuMetricsNeeded = true) :
    session.metrics reading = {} := if_neg h

theorem engineFilled_vcn :
    EngineFilled (session.metrics reading).vcnActivity (session.metrics reading).vcnBusy := by
  by_cases h : session.settings.gpuMetricsNeeded = true
  · rw [metrics_of_needed session reading h]
    refine engineFilled_filled reading.gpuMetrics.vcnActivity_lt ?_ fun xcp hxcp => ?_
    · rw [List.length_map]
      exact reading.gpuMetrics.xcpStats_lt
    · obtain ⟨stats, -, rfl⟩ := List.mem_map.mp hxcp
      exact stats.vcnBusy_lt
  · rw [metrics_of_not_needed session reading h]
    exact ⟨Nat.zero_lt_succ 255, Nat.zero_lt_succ 255, fun _ h => absurd h List.not_mem_nil,
      fun _ h => absurd h List.not_mem_nil⟩

theorem engineFilled_jpeg :
    EngineFilled (session.metrics reading).jpegActivity (session.metrics reading).jpegBusy := by
  by_cases h : session.settings.gpuMetricsNeeded = true
  · rw [metrics_of_needed session reading h]
    refine engineFilled_filled reading.gpuMetrics.jpegActivity_lt ?_ fun xcp hxcp => ?_
    · rw [List.length_map]
      exact reading.gpuMetrics.xcpStats_lt
    · obtain ⟨stats, -, rfl⟩ := List.mem_map.mp hxcp
      exact stats.jpegBusy_lt
  · rw [metrics_of_not_needed session reading h]
    exact ⟨Nat.zero_lt_succ 255, Nat.zero_lt_succ 255, fun _ h => absurd h List.not_mem_nil,
      fun _ h => absurd h List.not_mem_nil⟩

theorem agrees_metrics (h : session.settings.gpuMetricsNeeded = true) :
    Agrees (session.metrics reading) session.capabilities
      session.settings.toGpuMetricsSettings := by
  obtain ⟨hvcn, hjpeg⟩ := capabilitiesOf_flags session.device
  rw [metrics_of_needed session reading h, capabilities, if_pos h]
  refine ⟨?_, ?_, fun hxgmi => ?_, fun hpcie => ?_⟩
  · rw [hvcn]
    exact engineAgrees_filled
  · rw [hjpeg]
    exact engineAgrees_filled
  · have hoff : session.settings.xgmi = false := hxgmi
    simp only [filledMetrics, hoff]
    exact ⟨rfl, rfl, rfl, rfl⟩
  · have hoff : session.settings.pcie = false := hpcie
    simp only [filledMetrics, hoff]
    exact ⟨rfl, rfl, rfl, rfl⟩

end Session

/-! ## The metrics of a handled sample -/

theorem indexed_basicMetrics (device : Device) {settings : Settings} :
    ∀ metric ∈ basicMetrics settings, Indexed device metric := by
  intro metric hmetric
  simp only [basicMetrics, List.mem_append, List.mem_ite_nil_right, List.mem_cons,
    List.not_mem_nil, or_false] at hmetric
  rcases hmetric with ((⟨-, rfl | rfl | rfl⟩ | ⟨-, rfl⟩) | ⟨-, rfl⟩) | ⟨-, rfl⟩ <;> exact ⟨rfl, rfl⟩

theorem mem_decodeVectorMetrics {category : Category} {isEnabled : Bool} {data : List UInt16}
    {idx : Option Nat} {value : Metric × ℚ}
    (h : value ∈ decodeVectorMetrics category isEnabled data idx) :
    ∃ i < data.length, value.1 = ⟨category, idx, i⟩ := by
  rw [decodeVectorMetrics] at h
  split at h
  · obtain ⟨entry, hentry, rfl⟩ := List.mem_map.mp h
    exact ⟨entry.2, List.snd_lt_of_mem_zipIdx (List.mem_filter.mp hentry).1, rfl⟩
  · exact absurd h List.not_mem_nil

theorem mem_xgmiVectorMetrics {category : Category} {data : List UInt64} {value : Metric × ℚ}
    (h : value ∈ xgmiVectorMetrics category data) :
    ∃ i < data.length, value.1 = ⟨category, none, i⟩ := by
  obtain ⟨entry, hentry, rfl⟩ := List.mem_map.mp h
  exact ⟨entry.2, List.snd_lt_of_mem_zipIdx (List.mem_filter.mp hentry).1, rfl⟩

/-- An engine within one-byte counts has indexes of one byte. -/
theorem mem_engineValues {category : Category} {isEnabled isDeviceLevelOnly : Bool} {count : UInt8}
    {xcpCount : Nat} {activity : List UInt16} {busy : List (List UInt16)}
    (hbound : EngineBound count xcpCount (activity, busy)) (hxcps : xcpCount < 256)
    {value : Metric × ℚ}
    (h : value ∈ engineValues category isEnabled isDeviceLevelOnly activity busy) :
    value.1.category = category ∧ value.1.xcp.isNone = isDeviceLevelOnly ∧
      value.1.xcp.getD 0 < 256 ∧ value.1.index < 256 := by
  have hcount : count.toNat < 256 := count.toNat_lt
  have hactivity : activity.length ≤ count.toNat := hbound.activity
  have hbusy : busy.length ≤ xcpCount := hbound.xcps
  have hvalues : busy.flatten.length ≤ count.toNat := hbound.values
  cases isDeviceLevelOnly with
  | true =>
    obtain ⟨i, hi, heq⟩ := mem_decodeVectorMetrics h
    have hindex : i < 256 := by omega
    rw [heq]
    exact ⟨rfl, rfl, Nat.zero_lt_succ 255, hindex⟩
  | false =>
    obtain ⟨xcp, hxcp, hvalue⟩ := List.mem_flatMap.mp h
    obtain ⟨i, hi, heq⟩ := mem_decodeVectorMetrics hvalue
    have hidx : xcp.2 < busy.length := List.snd_lt_of_mem_zipIdx hxcp
    have hlength := length_le_flatten (List.fst_mem_of_mem_zipIdx hxcp)
    rw [heq]
    refine ⟨rfl, rfl, ?_, ?_⟩
    · show xcp.2 < 256
      omega
    · show i < 256
      omega

theorem indexed_insertedValues {device : Device} {settings : Settings} {header : Header}
    {metrics : GpuMetrics} (hbound : SectionsBound header metrics) :
    ∀ value ∈ insertedValues settings metrics (capabilitiesOf device), Indexed device value.1 := by
  intro value hvalue
  obtain ⟨hvcn, hjpeg⟩ := capabilitiesOf_flags device
  have hbyte (b : UInt8) : b.toNat < 256 := b.toNat_lt
  simp only [insertedValues, List.mem_append, List.mem_ite_nil_right, List.mem_cons,
    List.not_mem_nil, or_false, hvcn, hjpeg] at hvalue
  rcases hvalue with ((hengine | hengine) | ⟨-, ((rfl | rfl) | hxgmi) | hxgmi⟩) |
    ⟨-, rfl | rfl | rfl | rfl⟩
  · obtain ⟨hcategory, hindexes⟩ := mem_engineValues hbound.vcn (hbyte _) hengine
    rw [Indexed, hcategory]
    exact hindexes
  · obtain ⟨hcategory, hindexes⟩ := mem_engineValues hbound.jpeg (hbyte _) hengine
    rw [Indexed, hcategory]
    exact hindexes
  · exact ⟨rfl, rfl⟩
  · exact ⟨rfl, rfl⟩
  · obtain ⟨i, hi, heq⟩ := mem_xgmiVectorMetrics hxgmi
    rw [heq]
    exact ⟨rfl, hi.trans_le (hbound.xgmiRead.trans (hbyte _).le)⟩
  · obtain ⟨i, hi, heq⟩ := mem_xgmiVectorMetrics hxgmi
    rw [heq]
    exact ⟨rfl, hi.trans_le (hbound.xgmiWrite.trans (hbyte _).le)⟩
  all_goals exact ⟨rfl, rfl⟩

/-! ## Tracks of the basic metrics -/

/-- The tracks as the processor finds them: named, and complete if the first is there. -/
structure TracksReady (session : Session) (tracks : CachedTracks) : Prop where
  named : Named session.device tracks
  basic : tracks.existsAt (slot session.device.id { category := .gfxBusy }) = true →
    ∀ metric ∈ basicMetrics session.settings, tracks (slot session.device.id metric) ≠ []

theorem tracksReady_empty (session : Session) : TracksReady session CounterTracks.empty :=
  ⟨named_empty, fun h => absurd rfl (CounterTracks.existsAt_iff.mp h)⟩

theorem named_foldl_emplaceMetric {device : Device} {metrics : List Metric} :
    ∀ {tracks : CachedTracks}, Named device tracks → (∀ metric ∈ metrics, Indexed device metric) →
      Named device (metrics.foldl (emplaceMetric device.id) tracks) ∧
        (∀ idx, tracks idx ≠ [] → metrics.foldl (emplaceMetric device.id) tracks idx ≠ []) ∧
        ∀ metric ∈ metrics,
          metrics.foldl (emplaceMetric device.id) tracks (slot device.id metric) ≠ [] := by
  induction metrics with
  | nil => exact fun hnamed _ => ⟨hnamed, fun _ h => h, fun _ h => absurd h List.not_mem_nil⟩
  | cons metric metrics ih =>
    intro tracks hnamed hmetrics
    rw [List.forall_mem_cons] at hmetrics
    obtain ⟨hfold, hkeeps, hall⟩ := ih (hnamed.emplaceMetric hmetrics.1) hmetrics.2
    refine ⟨hfold, fun idx h => hkeeps idx (CounterTracks.emplace_ne_nil h _), ?_⟩
    rw [List.forall_mem_cons]
    exact ⟨hkeeps _ (emplaceMetric_ne_nil tracks metric), hall⟩

/-- After the setup every enabled basic metric has its track. -/
theorem TracksReady.setup {session : Session} {tracks : CachedTracks}
    (h : TracksReady session tracks) :
    Named session.device (setupAmdSmiTracks session.settings session.device.id tracks) ∧
      ∀ metric ∈ basicMetrics session.settings, setupAmdSmiTracks session.settings
        session.device.id tracks (slot session.device.id metric) ≠ [] := by
  rw [setupAmdSmiTracks]
  by_cases hexists : tracks.existsAt (slot session.device.id { category := .gfxBusy }) = true
  · rw [if_pos hexists]
    exact ⟨h.named, h.basic hexists⟩
  · rw [if_neg hexists]
    obtain ⟨hnamed, -, hall⟩ := named_foldl_emplaceMetric h.named (indexed_basicMetrics session.device)
    exact ⟨hnamed, hall⟩

/-! ## Handling a stored sample -/

theorem length_flatMap_le {α β : Type} {f : α → List β} {n : Nat} (h : ∀ a, (f a).length ≤ n)
    (l : List α) : (l.flatMap f).length ≤ l.length * n := by
  induction l with
  | nil => exact Nat.zero_le _
  | cons a l ih =>
    have hhead := h a
    rw [List.flatMap_cons, List.length_append, List.length_cons, Nat.succ_mul]
    omega

theorem length_serializeUInt16Vector_le (vec : List UInt16) (count : UInt8) :
    (serializeUInt16Vector vec count).length ≤ 510 := by
  have hcount : count.toNat < 256 := count.toNat_lt
  have hlength := @length_flatMap_le _ _ serializeUInt16 2 (fun _ => le_rfl) (vec.take count.toNat)
  rw [List.length_take] at hlength
  exact hlength.trans (by omega)

theorem length_serializeUInt64Vector_le (vec : List UInt64) (count : UInt8) :
    (serializeUInt64Vector vec count).length ≤ 2040 := by
  have hcount : count.toNat < 256 := count.toNat_lt
  have hlength := @length_flatMap_le _ _ serializeUInt64 8 (fun _ => le_rfl) (vec.take count.toNat)
  rw [List.length_take] at hlength
  exact hlength.trans (by omega)

theorem length_ite_nil_le {β : Type} {l : List β} {n : Nat} (h : l.length ≤ n) (p : Prop)
    [Decidable p] : (if p then l else []).length ≤ n := by
  split
  · exact h
  · exact Nat.zero_le _

theorem length_serializeGpuMetrics_lt {metrics : GpuMetrics}
    (hvcn : EngineFilled metrics.vcnActivity metrics.vcnBusy)
    (hjpeg : EngineFilled metrics.jpegActivity metrics.jpegBusy)
    (capabilities : GpuMetricsCapabilities) (settings : GpuMetricsSettings) :
    (serializeGpuMetrics metrics capabilities settings).length < sizeLimit := by
  have hvcnSizes := xcpSizes_length_lt capabilities.vcnIsDeviceLevelOnly hvcn.xcps
  have hjpegSizes := xcpSizes_length_lt capabilities.jpegIsDeviceLevelOnly hjpeg.xcps
  have hxgmi : (serializeUInt16 metrics.xgmiLinkWidth ++ serializeUInt16 metrics.xgmiLinkSpeed ++
      serializeUInt64Vector metrics.xgmiReadDataAcc (sizeByte metrics.xgmiReadDataAcc) ++
      serializeUInt64Vector metrics.xgmiWriteDataAcc
        (sizeByte metrics.xgmiWriteDataAcc)).length ≤ 4 + 2040 + 2040 := by
    rw [List.length_append, List.length_append]
    exact Nat.add_le_add (Nat.add_le_add_left (length_serializeUInt64Vector_le _ _) 4)
      (length_serializeUInt64Vector_le _ _)
  have hsections : (serializeGpuMetrics metrics capabilities settings).length ≤
      7 + 256 + 256 + 510 + 510 + (4 + 2040 + 2040) + 20 := by
    simp only [serializeGpuMetrics]
    iterate 6 rw [List.length_append]
    exact Nat.add_le_add (Nat.add_le_add (Nat.add_le_add (Nat.add_le_add
      (Nat.add_le_add (Nat.add_le_add_left hvcnSizes.le 7) hjpegSizes.le)
      (length_ite_nil_le (length_serializeUInt16Vector_le _ _) _))
      (length_ite_nil_le (length_serializeUInt16Vector_le _ _) _))
      (length_ite_nil_le hxgmi _)) (length_ite_nil_le le_rfl _)
  exact hsections.trans_lt (by decide)

namespace Session

variable (session : Session) (reading : Reading)

/-- The values that the processor finds for a stored reading; `none` when its metrics
cannot be deserialized. -/
def cachedValues : Option (List (Metric × ℚ)) :=
  let basic := (basicMetrics session.settings).zip
    (basicValues session.megabyte session.settings (session.storedSample reading))
  if session.settings.gpuMetricsNeeded then
    (deserializeGpuMetrics (session.storedSample reading).gpuActivity.elements {}
      session.settings.toGpuMetricsSettings).toOption.map fun loaded =>
        basic ++ insertedValues session.settings loaded.1 loaded.2
  else some basic

theorem handle_storedSample {tracks : CachedTracks} (hready : TracksReady session tracks) :
    ∃ tracks', TracksReady session tracks' ∧
      handle session.megabyte tracks (session.storedSample reading) =
        (session.cachedValues reading).map fun values =>
          (tracks', values.map (cachedCounter reading.timestamp)) := by
  obtain ⟨hnamed, hbasic⟩ := hready.setup
  have hcounters : ((basicMetrics session.settings).zip (basicValues session.megabyte
      session.settings (session.storedSample reading))).mapM
        (traceCounter session.device.id reading.timestamp
          (setupAmdSmiTracks session.settings session.device.id tracks)) =
      some (((basicMetrics session.settings).zip (basicValues session.megabyte
        session.settings (session.storedSample reading))).map
          (cachedCounter reading.timestamp)) := by
    refine mapM_eq_some_map fun value hvalue => ?_
    have hmetric : value.1 ∈ basicMetrics session.settings :=
      (List.of_mem_zip (show (value.1, value.2) ∈ _ from hvalue)).1
    exact hnamed.traceCounter_eq (indexed_basicMetrics _ _ hmetric) (hbasic _ hmetric) _
  have hsettings : Settings.ofBits (session.storedSample reading).settings = session.settings :=
    session.settings.ofBits_serialize
  have hsetup : TracksReady session
      (setupAmdSmiTracks session.settings session.device.id tracks) := ⟨hnamed, fun _ => hbasic⟩
  have hdevice : (session.storedSample reading).deviceId = session.device.id := rfl
  have htimestamp : (session.storedSample reading).timestamp = reading.timestamp := rfl
  unfold handle cachedValues
  simp only [hsettings, hdevice, htimestamp, hcounters, Option.bind_eq_bind, Option.bind_some]
  by_cases hneeded : session.settings.gpuMetricsNeeded = true
  · rw [if_pos hneeded, if_pos hneeded]
    cases hload : deserializeGpuMetrics (session.storedSample reading).gpuActivity.elements {}
      session.settings.toGpuMetricsSettings with
    | error failure => exact ⟨_, hsetup, rfl⟩
    | ok loaded =>
      obtain ⟨metrics, capabilities⟩ := loaded
      obtain ⟨hcapabilities, hbound⟩ := bound_of_deserialize hload
      rw [if_pos hneeded] at hcapabilities
      cases hcapabilities
      obtain ⟨tracks', hnamed', hkeeps, hinsert⟩ := hnamed.insertValues_eq reading.timestamp
        (@indexed_insertedValues session.device session.settings _ _ hbound)
      refine ⟨tracks', ⟨hnamed', fun _ metric hmetric => hkeeps _ (hbasic metric hmetric)⟩, ?_⟩
      simp only [Except.toOption, Option.bind_some, hinsert, Option.map_some, List.map_append]
      rfl
  · rw [if_neg hneeded, if_neg hneeded]
    exact ⟨_, hsetup, rfl⟩

/-- The bytes of a stored sample are read back as they were written. -/
theorem deserialize_storedSample :
    (AmdSmiSample.deserialize.run (session.storedSample reading).serialize.length
      (session.storedSample reading).serialize).toOption =
        some (session.storedSample reading, []) := by
  have hbounded : ∀ value ∈ (session.storedSample reading).containers,
      value.length < sizeLimit := by
    intro value hvalue
    rw [List.mem_singleton.mp hvalue]
    exact length_serializeGpuMetrics_lt (session.engineFilled_vcn reading)
      (session.engineFilled_jpeg reading) _ _
  have hgranted : (session.storedSample reading).gpuActivity.elements.length ≤
      (session.storedSample reading).serialize.length :=
    @Sample.Granted.of_length (.amdSmi (session.storedSample reading)) hbounded _ le_rfl
  have hparse := AmdSmiSample.deserialize_serialize hbounded hgranted []
  rw [List.append_nil] at hparse
  rw [hparse]
  rfl

theorem handleStored_serialize (tracks : CachedTracks) :
    handleStored session.megabyte tracks (session.storedSample reading).serialize =
      handle session.megabyte tracks (session.storedSample reading) := by
  rw [handleStored, deserialize_storedSample]
  rfl

/-- The counters of the cached path, reading by reading. -/
theorem cached_eq_some_iff {readings : List Reading} {counters : List Counter} :
    session.cached readings = some counters ↔
      (∀ reading ∈ readings.filter session.isStored, (session.cachedValues reading).isSome) ∧
        counters = (readings.filter session.isStored).flatMap fun reading =>
          ((session.cachedValues reading).getD []).map (cachedCounter reading.timestamp) := by
  have hstep (tracks : CachedTracks) (hready : TracksReady session tracks) (reading : Reading) :
      ∃ tracks', TracksReady session tracks' ∧
        handleStored session.megabyte tracks (session.storedSample reading).serialize =
          ((session.cachedValues reading).map
            (·.map (cachedCounter reading.timestamp))).map fun counters => (tracks', counters) := by
    rw [handleStored_serialize]
    obtain ⟨tracks', hready', heq⟩ := session.handle_storedSample reading hready
    refine ⟨tracks', hready', heq.trans ?_⟩
    rw [Option.map_map]
    rfl
  rw [cached, replay, stored, List.map_map, emitAll_map]
  refine (emitAll_eq_some_iff (fun tracks hready reading _ => hstep tracks hready reading)
    (tracksReady_empty session)).trans ?_
  have hgetD (reading : Reading) : ((session.cachedValues reading).map
      (·.map (cachedCounter reading.timestamp))).getD [] =
        ((session.cachedValues reading).getD []).map (cachedCounter reading.timestamp) := by
    cases session.cachedValues reading <;> rfl
  simp only [Option.isSome_map, hgetD]

end Session

end AmdSmi
end Gpu
end Rocprofsys
