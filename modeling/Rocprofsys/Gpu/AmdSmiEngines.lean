import Rocprofsys.Base.Positions
import Rocprofsys.Gpu.AmdSmiDirect
import Rocprofsys.Gpu.AmdSmiReplay

namespace Rocprofsys
namespace Gpu
namespace AmdSmi

open Base TraceCache

/-! ## The counters of an engine on both paths -/

theorem nearestDouble_uint16 (value : UInt16) :
    nearestDouble (value.toNat : ℚ) = value.toNat := by
  have hlt : value.toNat < 65536 := value.toNat_lt
  exact nearestDouble_natCast (by omega)

theorem nearestDouble_uint32 (value : UInt32) :
    nearestDouble (value.toNat : ℚ) = value.toNat := by
  have hlt : value.toNat < 4294967296 := value.toNat_lt
  exact nearestDouble_natCast (by omega)

/-- Without missing values a vector's counters are its values on its tracks. -/
theorem decodeVectorMetrics_eq (category : Category) (idx : Option Nat) {data : List UInt16}
    (h : ∀ value ∈ data, value ≠ uint16Max) :
    decodeVectorMetrics category true data idx =
      ((List.range data.length).map fun i => (⟨category, idx, i⟩ : Metric)).zip
        (data.map fun value => (value.toNat : ℚ)) := by
  have hfilter : data.zipIdx.filter (fun value => value.1 != uint16Max) = data.zipIdx :=
    List.filter_eq_self.mpr fun value hvalue =>
      bne_iff_ne.mpr (h value.1 (List.fst_mem_of_mem_zipIdx hvalue))
  have hindexes : (List.range data.length).map (fun i => (⟨category, idx, i⟩ : Metric)) =
      data.zipIdx.map fun value => ⟨category, idx, value.2⟩ := by
    rw [List.range_eq_range', ← List.zipIdx_map_snd, List.map_map]
    rfl
  have hvalues : data.map (fun value => (value.toNat : ℚ)) =
      data.zipIdx.map fun value => nearestDouble value.1.toNat := by
    simp only [nearestDouble_uint16]
    conv_lhs => rw [← List.zipIdx_map_fst 0 data]
    rw [List.map_map]
    rfl
  rw [hindexes, hvalues, List.zip_map', decodeVectorMetrics, if_pos rfl, hfilter]

section Engine

variable {category : Category} {isEnabled isDeviceLevelOnly : Bool} {activity : List UInt16}
  {busy : List (List UInt16)}

theorem engineValues_eq (hagrees : EngineAgrees isEnabled isDeviceLevelOnly activity busy)
    (hactivity : ∀ value ∈ activity, value ≠ uint16Max)
    (hbusy : ∀ xcp ∈ busy, ∀ value ∈ xcp, value ≠ uint16Max) :
    engineValues category isEnabled isDeviceLevelOnly activity busy =
      (engineMetrics category isDeviceLevelOnly activity busy).zip
        ((dataFlat isDeviceLevelOnly activity busy).map fun value => (value.toNat : ℚ)) := by
  cases isEnabled with
  | false =>
    have hnil : activity = [] := by_contra fun hne => absurd (hagrees.1 hne).1 (by decide)
    have hnil' : busy = [] := by_contra fun hne => absurd (hagrees.2 hne).1 (by decide)
    subst hnil
    subst hnil'
    cases isDeviceLevelOnly <;> rfl
  | true =>
    cases isDeviceLevelOnly with
    | true => exact decodeVectorMetrics_eq category none hactivity
    | false =>
      show busy.zipIdx.flatMap _ = (busy.zipIdx.flatMap _).zip (busy.flatten.map _)
      rw [map_flatten_zipIdx, zip_flatMap fun xcp _ => by
        rw [List.length_map, List.length_map, List.length_range]]
      refine List.flatMap_congr fun xcp hxcp => ?_
      exact decodeVectorMetrics_eq category (some xcp.2)
        (hbusy xcp.1 (List.fst_mem_of_mem_zipIdx hxcp))

theorem engineValues_nil : engineValues category isEnabled isDeviceLevelOnly [] [] = [] := by
  cases isEnabled <;> cases isDeviceLevelOnly <;> rfl

/-- An engine comes back whole, or not at all. -/
theorem restoredEngine_eq_ok {restored : List UInt16 × List (List UInt16)}
    (h : restoredEngine isDeviceLevelOnly activity busy = .ok restored) :
    ((dataFlat isDeviceLevelOnly activity busy).length < 256 ∧ restored = (activity, busy)) ∨
      (256 ≤ (dataFlat isDeviceLevelOnly activity busy).length ∧
        (dataFlat isDeviceLevelOnly activity busy).length % 256 = 0 ∧ restored = ([], [])) := by
  rw [restoredEngine] at h
  split at h
  · rename_i hlt
    cases h
    exact .inl ⟨hlt, rfl⟩
  · rename_i hlt
    split at h
    · rename_i hmod
      cases h
      exact .inr ⟨Nat.not_lt.mp hlt, hmod, rfl⟩
    · cases h

theorem restoredEngine_of_mod (hagrees : EngineAgrees isEnabled isDeviceLevelOnly activity busy)
    (hfilled : EngineFilled activity busy)
    (h : (dataFlat isDeviceLevelOnly activity busy).length % 256 = 0) :
    restoredEngine isDeviceLevelOnly activity busy = .ok ([], []) := by
  rw [restoredEngine]
  by_cases hlt : (dataFlat isDeviceLevelOnly activity busy).length < 256
  · have hflat : dataFlat isDeviceLevelOnly activity busy = [] :=
      List.length_eq_zero_iff.mp (by omega)
    have hbusy : busy.flatten.length < 256 := by
      cases isDeviceLevelOnly with
      | true =>
        have hnil : busy = [] := by_contra fun hne => absurd (hagrees.2 hne).2 (by decide)
        rw [hnil]
        exact Nat.zero_lt_succ 255
      | false => exact hlt
    obtain ⟨hactivity, hbusy⟩ :=
      eq_nil_of_dataFlat_eq_nil hagrees (hfilled.fits hbusy) hflat
    rw [if_pos hlt, hactivity, hbusy]
  · rw [if_neg hlt, if_pos h]

theorem length_engineValues (hagrees : EngineAgrees isEnabled isDeviceLevelOnly activity busy)
    (hactivity : ∀ value ∈ activity, value ≠ uint16Max)
    (hbusy : ∀ xcp ∈ busy, ∀ value ∈ xcp, value ≠ uint16Max) :
    (engineValues category isEnabled isDeviceLevelOnly activity busy).length =
      (dataFlat isDeviceLevelOnly activity busy).length := by
  rw [engineValues_eq hagrees hactivity hbusy, List.length_zip, Session.length_engineMetrics,
    List.length_map, Nat.min_self]

theorem engineValues_of_disabled :
    engineValues category false isDeviceLevelOnly activity busy = [] := by
  cases isDeviceLevelOnly with
  | true => rfl
  | false => exact List.flatMap_eq_nil_iff.mpr fun _ _ => rfl

/-- The metrics and the values of an engine's counters, as the direct path lists them. -/
theorem engineValues_map (hagrees : EngineAgrees isEnabled isDeviceLevelOnly activity busy)
    (hactivity : ∀ value ∈ activity, value ≠ uint16Max)
    (hbusy : ∀ xcp ∈ busy, ∀ value ∈ xcp, value ≠ uint16Max) :
    (engineValues category isEnabled isDeviceLevelOnly activity busy).map Prod.fst =
      (if isEnabled then engineMetrics category isDeviceLevelOnly activity busy else []) ∧
    (engineValues category isEnabled isDeviceLevelOnly activity busy).map Prod.snd =
      (if isEnabled then
        (dataFlat isDeviceLevelOnly activity busy).map fun value => (value.toNat : ℚ) else []) := by
  cases isEnabled with
  | false =>
    rw [engineValues_of_disabled]
    exact ⟨rfl, rfl⟩
  | true =>
    have hlength := Session.length_engineMetrics category isDeviceLevelOnly activity busy
    rw [engineValues_eq hagrees hactivity hbusy, if_pos rfl, if_pos rfl]
    refine ⟨List.map_fst_zip ?_, List.map_snd_zip ?_⟩
    · rw [List.length_map, hlength]
    · rw [List.length_map, hlength]

/-- The counters of what came back of an engine: all of them, or fewer, and none only if
the count byte is zero. -/
theorem engineValues_of_restored (hagrees : EngineAgrees isEnabled isDeviceLevelOnly activity busy)
    (hactivity : ∀ value ∈ activity, value ≠ uint16Max)
    (hbusy : ∀ xcp ∈ busy, ∀ value ∈ xcp, value ≠ uint16Max)
    {back : List UInt16 × List (List UInt16)}
    (h : restoredEngine isDeviceLevelOnly activity busy = .ok back) :
    ((dataFlat isDeviceLevelOnly activity busy).length < 256 ∧ back = (activity, busy) ∨
      (engineValues category isEnabled isDeviceLevelOnly back.1 back.2).length <
        (dataFlat isDeviceLevelOnly activity busy).length) ∧
    (engineValues category isEnabled isDeviceLevelOnly back.1 back.2 = [] →
      (dataFlat isDeviceLevelOnly activity busy).length % 256 = 0) := by
  rcases restoredEngine_eq_ok h with ⟨hlt, rfl⟩ | ⟨hge, hmod, rfl⟩
  · refine ⟨.inl ⟨hlt, rfl⟩, fun hnil => ?_⟩
    rw [← @length_engineValues category _ _ _ _ hagrees hactivity hbusy]
    show (engineValues category isEnabled isDeviceLevelOnly activity busy).length % 256 = 0
    rw [show engineValues category isEnabled isDeviceLevelOnly activity busy = [] from hnil]
    rfl
  · refine ⟨.inr ?_, fun _ => hmod⟩
    rw [engineValues_nil]
    exact Nat.lt_of_lt_of_le (Nat.zero_lt_succ 255) hge

end Engine

/-! ## Readings without link metrics -/

namespace Session

variable (session : Session) (reading : Reading)

def vcnValues : List UInt16 :=
  dataFlat session.device.vcnIsDeviceLevelOnly (session.metrics reading).vcnActivity
    (session.metrics reading).vcnBusy

def jpegValues : List UInt16 :=
  dataFlat session.device.jpegIsDeviceLevelOnly (session.metrics reading).jpegActivity
    (session.metrics reading).jpegBusy

/-- The engines' metrics with their values. -/
def vcnPairs : List (Metric × ℚ) :=
  engineValues .vcnActivity session.settings.vcnActivity session.device.vcnIsDeviceLevelOnly
    (session.metrics reading).vcnActivity (session.metrics reading).vcnBusy

def jpegPairs : List (Metric × ℚ) :=
  engineValues .jpegActivity session.settings.jpegActivity session.device.jpegIsDeviceLevelOnly
    (session.metrics reading).jpegActivity (session.metrics reading).jpegBusy

/-- The basic metrics with the values that the processor reports. -/
def basicPairs : List (Metric × ℚ) :=
  (basicMetrics session.settings).zip
    (basicValues session.megabyte session.settings (session.storedSample reading))

theorem engineAgrees_vcn :
    EngineAgrees session.settings.vcnActivity session.device.vcnIsDeviceLevelOnly
      (session.metrics reading).vcnActivity (session.metrics reading).vcnBusy := by
  by_cases h : session.settings.gpuMetricsNeeded = true
  · rw [metrics_of_needed session reading h]
    exact engineAgrees_filled
  · rw [metrics_of_not_needed session reading h]
    exact ⟨fun h => absurd rfl h, fun h => absurd rfl h⟩

theorem engineAgrees_jpeg :
    EngineAgrees session.settings.jpegActivity session.device.jpegIsDeviceLevelOnly
      (session.metrics reading).jpegActivity (session.metrics reading).jpegBusy := by
  by_cases h : session.settings.gpuMetricsNeeded = true
  · rw [metrics_of_needed session reading h]
    exact engineAgrees_filled
  · rw [metrics_of_not_needed session reading h]
    exact ⟨fun h => absurd rfl h, fun h => absurd rfl h⟩

/-- No engine holds the value for a missing one. -/
theorem ne_uint16Max :
    ((∀ value ∈ (session.metrics reading).vcnActivity, value ≠ uint16Max) ∧
      ∀ xcp ∈ (session.metrics reading).vcnBusy, ∀ value ∈ xcp, value ≠ uint16Max) ∧
    (∀ value ∈ (session.metrics reading).jpegActivity, value ≠ uint16Max) ∧
      ∀ xcp ∈ (session.metrics reading).jpegBusy, ∀ value ∈ xcp, value ≠ uint16Max := by
  have hbusy {isEnabled isDeviceLevelOnly : Bool} {xcps : List (List UInt16)} :
      ∀ xcp ∈ filledBusy isEnabled isDeviceLevelOnly xcps, ∀ value ∈ xcp,
        value ≠ uint16Max := by
    intro xcp hxcp value hvalue
    obtain ⟨-, src, -, rfl⟩ := mem_filledBusy hxcp
    exact mem_fillGpuMetrics hvalue
  by_cases h : session.settings.gpuMetricsNeeded = true
  · rw [metrics_of_needed session reading h]
    exact ⟨⟨fun _ => mem_filledActivity, hbusy⟩, fun _ => mem_filledActivity, hbusy⟩
  · rw [metrics_of_not_needed session reading h]
    exact ⟨⟨fun _ h => absurd h List.not_mem_nil, fun _ h => absurd h List.not_mem_nil⟩,
      fun _ h => absurd h List.not_mem_nil, fun _ h => absurd h List.not_mem_nil⟩

theorem length_vcnPairs :
    (session.vcnPairs reading).length = (session.vcnValues reading).length :=
  length_engineValues (session.engineAgrees_vcn reading) (session.ne_uint16Max reading).1.1
    (session.ne_uint16Max reading).1.2

theorem length_jpegPairs :
    (session.jpegPairs reading).length = (session.jpegValues reading).length :=
  length_engineValues (session.engineAgrees_jpeg reading) (session.ne_uint16Max reading).2.1
    (session.ne_uint16Max reading).2.2

/-- The engines as the processor finds them. -/
def restored : Except Failure (List (Metric × ℚ)) :=
  (restoredEngine session.device.vcnIsDeviceLevelOnly (session.metrics reading).vcnActivity
    (session.metrics reading).vcnBusy).bind fun vcn =>
  (restoredEngine session.device.jpegIsDeviceLevelOnly (session.metrics reading).jpegActivity
    (session.metrics reading).jpegBusy).map fun jpeg =>
  engineValues .vcnActivity session.settings.vcnActivity session.device.vcnIsDeviceLevelOnly
    vcn.1 vcn.2 ++
  engineValues .jpegActivity session.settings.jpegActivity session.device.jpegIsDeviceLevelOnly
    jpeg.1 jpeg.2

theorem cachedValues_eq (hxgmi : session.settings.xgmi = false)
    (hpcie : session.settings.pcie = false) :
    session.cachedValues reading =
      (session.restored reading).toOption.map (session.basicPairs reading ++ ·) := by
  by_cases h : session.settings.gpuMetricsNeeded = true
  · obtain ⟨hvcn, hjpeg⟩ := capabilitiesOf_flags session.device
    have hcapabilities : session.capabilities = capabilitiesOf session.device := if_pos h
    have hload : deserializeGpuMetrics (session.storedSample reading).gpuActivity.elements {}
        session.settings.toGpuMetricsSettings =
          (restoredEngines (session.metrics reading) session.capabilities).map
            fun result => (result, session.capabilities) :=
      deserialize_engines (session.agrees_metrics reading h) hxgmi hpcie
        (session.engineFilled_vcn reading) (session.engineFilled_jpeg reading)
    rw [cachedValues, if_pos h, hload, restored, restoredEngines, hcapabilities, hvcn, hjpeg]
    cases restoredEngine session.device.vcnIsDeviceLevelOnly (session.metrics reading).vcnActivity
      (session.metrics reading).vcnBusy with
    | error failure => rfl
    | ok vcn =>
      cases restoredEngine session.device.jpegIsDeviceLevelOnly
        (session.metrics reading).jpegActivity (session.metrics reading).jpegBusy with
      | error failure => rfl
      | ok jpeg =>
        show some (_ ++ insertedValues _ _ _) = some (_ ++ _)
        rw [insertedValues, hvcn, hjpeg, hxgmi, hpcie, if_neg Bool.false_ne_true,
          if_neg Bool.false_ne_true, List.append_nil, List.append_nil]
        rfl
  · have hempty := session.metrics_of_not_needed reading h
    have hnone (isDeviceLevelOnly : Bool) :
        restoredEngine isDeviceLevelOnly [] [] = .ok ([], []) := by
      cases isDeviceLevelOnly <;> rfl
    rw [cachedValues, if_neg h, restored, hempty, hnone, hnone]
    show _ = some (_ ++ (engineValues _ _ _ [] [] ++ engineValues _ _ _ [] []))
    rw [engineValues_nil, engineValues_nil, List.append_nil, List.append_nil]
    rfl

theorem restored_of_lt (hvcn : (session.vcnValues reading).length < 256)
    (hjpeg : (session.jpegValues reading).length < 256) :
    session.restored reading = .ok (session.vcnPairs reading ++ session.jpegPairs reading) := by
  have hvcn' : restoredEngine _ _ _ = _ := if_pos hvcn
  have hjpeg' : restoredEngine _ _ _ = _ := if_pos hjpeg
  rw [restored, hvcn', hjpeg']
  rfl

theorem restored_of_mod (hvcn : (session.vcnValues reading).length % 256 = 0)
    (hjpeg : (session.jpegValues reading).length % 256 = 0) :
    session.restored reading = .ok [] := by
  rw [restored, restoredEngine_of_mod (session.engineAgrees_vcn reading)
    (session.engineFilled_vcn reading) hvcn, restoredEngine_of_mod
    (session.engineAgrees_jpeg reading) (session.engineFilled_jpeg reading) hjpeg]
  show Except.ok (engineValues _ _ _ [] [] ++ engineValues _ _ _ [] []) = _
  rw [engineValues_nil, engineValues_nil]
  rfl

/-- What comes back of the engines is all of them or less, and nothing only if the count
bytes are zero. -/
theorem of_restored_eq_ok {rest : List (Metric × ℚ)} (h : session.restored reading = .ok rest) :
    ((session.vcnValues reading).length < 256 ∧ (session.jpegValues reading).length < 256 ∧
        rest = session.vcnPairs reading ++ session.jpegPairs reading ∨
      rest.length < (session.vcnPairs reading ++ session.jpegPairs reading).length) ∧
    (rest = [] → (session.vcnValues reading).length % 256 = 0 ∧
      (session.jpegValues reading).length % 256 = 0) := by
  have hvcnLength := session.length_vcnPairs reading
  have hjpegLength := session.length_jpegPairs reading
  rw [restored] at h
  cases hvcn : restoredEngine session.device.vcnIsDeviceLevelOnly
    (session.metrics reading).vcnActivity (session.metrics reading).vcnBusy with
  | error failure =>
    rw [hvcn] at h
    cases h
  | ok vcn =>
    cases hjpeg : restoredEngine session.device.jpegIsDeviceLevelOnly
      (session.metrics reading).jpegActivity (session.metrics reading).jpegBusy with
    | error failure =>
      rw [hvcn, hjpeg] at h
      cases h
    | ok jpeg =>
      rw [hvcn, hjpeg] at h
      cases h
      obtain ⟨hvcnMissing, hjpegMissing⟩ := session.ne_uint16Max reading
      obtain ⟨hvcnBack, hvcnNil⟩ := @engineValues_of_restored .vcnActivity _ _ _ _
        (session.engineAgrees_vcn reading) hvcnMissing.1 hvcnMissing.2 _ hvcn
      obtain ⟨hjpegBack, hjpegNil⟩ := @engineValues_of_restored .jpegActivity _ _ _ _
        (session.engineAgrees_jpeg reading) hjpegMissing.1 hjpegMissing.2 _ hjpeg
      refine ⟨?_, fun hnil => ?_⟩
      · rw [List.length_append, List.length_append, hvcnLength, hjpegLength]
        rcases hvcnBack with ⟨hlt, rfl⟩ | hless
        · rcases hjpegBack with ⟨hlt', rfl⟩ | hless'
          · exact .inl ⟨hlt, hlt', rfl⟩
          · exact .inr (Nat.add_lt_add_of_le_of_lt hvcnLength.le hless')
        · refine .inr (Nat.add_lt_add_of_lt_of_le hless ?_)
          rcases hjpegBack with ⟨-, rfl⟩ | hless'
          · exact hjpegLength.le
          · exact hless'.le
      · obtain ⟨hnil, hnil'⟩ := List.append_eq_nil_iff.mp hnil
        exact ⟨hvcnNil hnil, hjpegNil hnil'⟩

/-- The engines' metrics with their values. -/
def enginePairs : List (Metric × ℚ) := session.vcnPairs reading ++ session.jpegPairs reading

/-- The values of the basic metrics, the memory usage and temperature apart. -/
def basicValuesWith (temp memUsage : ℚ) : List ℚ :=
  (if session.settings.busy then
    [(reading.gfxActivity.toNat : ℚ), (reading.umcActivity.toNat : ℚ),
      (reading.mmActivity.toNat : ℚ)] else []) ++
  (if session.settings.temp then [temp] else []) ++
  (if session.settings.power then [(reading.currentSocketPower.toNat : ℚ)] else []) ++
  (if session.settings.memUsage then [memUsage] else [])

/-- The basic metrics with the values of the direct path. -/
def directBasicPairs : List (Metric × ℚ) :=
  (basicMetrics session.settings).zip (session.basicValuesWith reading
    (nearestDouble reading.temp.toInt) (megabytes session.megabyte reading.memUsage))

theorem enginePairs_of_not_hasData (h : ¬hasData (session.metrics reading) = true) :
    session.enginePairs reading = [] := by
  have hempty : ((((session.metrics reading).vcnActivity = [] ∧
      (session.metrics reading).vcnBusy = []) ∧ (session.metrics reading).jpegActivity = []) ∧
      (session.metrics reading).jpegBusy = []) := by
    simp only [hasData, Bool.or_eq_true, not_or, Bool.not_eq_true', Bool.not_eq_false,
      List.isEmpty_iff] at h
    exact h.1.1.1.1.1.1.1.1
  rw [enginePairs, vcnPairs, jpegPairs, hempty.1.1.1, hempty.1.1.2, hempty.1.2, hempty.2,
    engineValues_nil, engineValues_nil]
  rfl

/-- The metrics and the values of the engines, as the direct path lists them. -/
theorem enginePairs_map (hxgmi : session.settings.xgmi = false)
    (hpcie : session.settings.pcie = false) :
    (session.enginePairs reading).map Prod.fst =
      gpuMetricsTracks session.settings session.device (session.metrics reading) ∧
    (session.enginePairs reading).map Prod.snd =
      gpuMetricsValues session.settings session.device (session.metrics reading) := by
  obtain ⟨hvcnMissing, hjpegMissing⟩ := session.ne_uint16Max reading
  obtain ⟨hvcn, hvcn'⟩ := @engineValues_map .vcnActivity _ _ _ _
    (session.engineAgrees_vcn reading) hvcnMissing.1 hvcnMissing.2
  obtain ⟨hjpeg, hjpeg'⟩ := @engineValues_map .jpegActivity _ _ _ _
    (session.engineAgrees_jpeg reading) hjpegMissing.1 hjpegMissing.2
  rw [enginePairs, vcnPairs, jpegPairs, List.map_append, List.map_append, hvcn, hvcn', hjpeg,
    hjpeg', gpuMetricsTracks, gpuMetricsValues, hxgmi, hpcie, if_neg Bool.false_ne_true,
    if_neg Bool.false_ne_true, if_neg Bool.false_ne_true, if_neg Bool.false_ne_true,
    List.append_nil, List.append_nil, List.append_nil, List.append_nil]
  exact ⟨rfl, rfl⟩

theorem ite_hasData_map {β : Type} (f : Metric × ℚ → β) :
    (if hasData (session.metrics reading) then (session.enginePairs reading).map f else []) =
      (session.enginePairs reading).map f := by
  by_cases h : hasData (session.metrics reading) = true
  · exact if_pos h
  · rw [if_neg h, session.enginePairs_of_not_hasData reading h]
    rfl

theorem metricsOf_eq (hxgmi : session.settings.xgmi = false)
    (hpcie : session.settings.pcie = false) :
    session.metricsOf reading =
      basicMetrics session.settings ++ (session.enginePairs reading).map Prod.fst := by
  rw [metricsOf, ← (session.enginePairs_map reading hxgmi hpcie).1, ite_hasData_map]

theorem ite_nil_congr {β : Type} {p : Prop} [Decidable p] {l l' : List β} (h : p → l = l') :
    (if p then l else []) = if p then l' else [] := by
  by_cases hp : p
  · rw [if_pos hp, if_pos hp, h hp]
  · rw [if_neg hp, if_neg hp]

/-- What `sample` keeps of the enabled basic metrics. -/
theorem sample_basic :
    (session.settings.busy = true → (session.sample reading).gfxActivity = reading.gfxActivity ∧
      (session.sample reading).umcActivity = reading.umcActivity ∧
      (session.sample reading).mmActivity = reading.mmActivity) ∧
    (session.settings.temp = true → (session.sample reading).temp = reading.temp) ∧
    (session.settings.power = true →
      (session.sample reading).currentSocketPower = reading.currentSocketPower) ∧
    (session.settings.memUsage = true → (session.sample reading).memUsage = reading.memUsage) :=
  ⟨fun h => ⟨if_pos h, if_pos h, if_pos h⟩, fun h => if_pos h, fun h => if_pos h,
    fun h => if_pos h⟩

theorem basicPairs_eq :
    session.basicPairs reading = (basicMetrics session.settings).zip
      (session.basicValuesWith reading reading.temp.toInt
        (megabytes session.megabyte (reading.memUsage / session.megabyte))) := by
  obtain ⟨hbusy, htemp, hpower, hmemUsage⟩ := session.sample_basic reading
  rw [basicPairs, basicValues, basicValuesWith]
  congr 1
  refine congrArg₂ _ (congrArg₂ _ (congrArg₂ _ (ite_nil_congr fun h => ?_)
    (ite_nil_congr fun h => ?_)) (ite_nil_congr fun h => ?_)) (ite_nil_congr fun h => ?_)
  · obtain ⟨hgfx, humc, hmm⟩ := hbusy h
    rw [← hgfx, ← humc, ← hmm]
    rfl
  · rw [← htemp h]
    rfl
  · rw [← hpower h]
    rfl
  · rw [← hmemUsage h]
    rfl

theorem values_eq (hxgmi : session.settings.xgmi = false)
    (hpcie : session.settings.pcie = false) :
    session.values reading =
      session.basicValuesWith reading (nearestDouble reading.temp.toInt)
        (megabytes session.megabyte reading.memUsage) ++
      (session.enginePairs reading).map Prod.snd := by
  obtain ⟨hbusy, htemp, hpower, hmemUsage⟩ := session.sample_basic reading
  rw [values, writtenValues, head?_gpuMetrics, ← (session.enginePairs_map reading hxgmi hpcie).2,
    ite_hasData_map, basicValuesWith]
  refine congrArg₂ _ (congrArg₂ _ (congrArg₂ _ (congrArg₂ _ (ite_nil_congr fun h => ?_)
    (ite_nil_congr fun h => ?_)) (ite_nil_congr fun h => ?_)) (ite_nil_congr fun h => ?_)) rfl
  · obtain ⟨hgfx, humc, hmm⟩ := hbusy h
    rw [hgfx, humc, hmm, nearestDouble_uint32, nearestDouble_uint32, nearestDouble_uint32]
  · rw [htemp h]
  · rw [hpower h, nearestDouble_uint32]
  · rw [hmemUsage h]

theorem length_basicValuesWith (temp memUsage : ℚ) :
    (session.basicValuesWith reading temp memUsage).length =
      (basicMetrics session.settings).length := (length_basicMetrics _ _ _ _ _ _ _).symm

/-- What the direct path writes for a reading on its own metrics. -/
theorem zip_metricsOf_values (hxgmi : session.settings.xgmi = false)
    (hpcie : session.settings.pcie = false) :
    (session.metricsOf reading).zip (session.values reading) =
      session.directBasicPairs reading ++ session.enginePairs reading := by
  rw [session.metricsOf_eq reading hxgmi hpcie, session.values_eq reading hxgmi hpcie,
    List.zip_append (session.length_basicValuesWith reading _ _).symm, ← List.zip_of_prod rfl rfl]
  rfl

end Session

end AmdSmi
end Gpu
end Rocprofsys
