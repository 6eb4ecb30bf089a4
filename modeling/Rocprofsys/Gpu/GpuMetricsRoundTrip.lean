import Mathlib.Data.List.Basic
import Rocprofsys.Gpu.GpuMetrics

namespace Rocprofsys
namespace Gpu

open Base Decoder

/-! ## Words -/

theorem reads_uint8 (val : UInt8) : Reads deserializeUInt8 [val] val := fun _ => rfl

theorem and_0xFF (n : Nat) : n &&& 255 = n % 256 := Nat.and_two_pow_sub_one_eq_mod n 8

theorem reads_uint16 (val : UInt16) : Reads deserializeUInt16 (serializeUInt16 val) val := by
  intro rest
  have hvalue : (val &&& 0xFF).toUInt8.toUInt16 ||| (val >>> 8 &&& 0xFF).toUInt8.toUInt16 <<< 8 =
      val := by
    have hlt : val.toNat < 65536 := val.toNat_lt
    rw [← UInt16.toNat_inj]
    simp only [UInt16.toNat_or, UInt16.toNat_shiftLeft, UInt8.toNat_toUInt16,
      UInt16.toNat_toUInt8, UInt16.toNat_and, UInt16.toNat_shiftRight]
    show (val.toNat &&& 255) % 256 ||| ((val.toNat >>> 8 &&& 255) % 256) <<< (1 * 8) % 65536 =
      val.toNat
    have hhigh : (val.toNat / 2 ^ 8 % 256) <<< (1 * 8) % 65536 =
        (val.toNat / 2 ^ 8 % 256) <<< (1 * 8) := by
      rw [Nat.shiftLeft_eq]
      omega
    rw [and_0xFF, and_0xFF, Nat.mod_mod, Nat.mod_mod, Nat.shiftRight_eq_div_pow, hhigh,
      or_shiftLeft (by omega)]
    omega
  show Except.ok (_, rest) = _
  rw [hvalue]

theorem toNat_byte (val : UInt64) {i : Nat} (h : i < 8) :
    (val >>> UInt64.ofNat (i * 8) &&& 0xFF).toUInt8.toNat = val.toNat / 256 ^ i % 256 := by
  have hpow : 256 ^ i = 2 ^ (i * 8) := by
    rw [Nat.mul_comm, Nat.pow_mul]
  have hshift : (UInt64.ofNat (i * 8)).toNat % 64 = i * 8 := by
    rw [UInt64.toNat_ofNat']
    omega
  rw [UInt64.toNat_toUInt8, UInt64.toNat_and, UInt64.toNat_shiftRight, hshift,
    Nat.shiftRight_eq_div_pow, hpow]
  show (_ &&& 255) % 256 = _
  rw [and_0xFF, Nat.mod_mod]

/-- The loop of `deserialize_uint64` after `w` bytes. -/
theorem toNat_foldl_bytes (val : UInt64) {w : Nat} (h : w ≤ 8) :
    ((List.range w).foldl (fun value i => value |||
      (val >>> UInt64.ofNat (i * 8) &&& 0xFF).toUInt8.toUInt64 <<< UInt64.ofNat (i * 8)) 0).toNat =
        val.toNat % 256 ^ w := by
  induction w with
  | zero =>
    rw [Nat.pow_zero, Nat.mod_one]
    rfl
  | succ w ih =>
    have hpos : 0 < 256 ^ w := Nat.pow_pos (by decide)
    have hpow : 256 ^ w = 2 ^ (w * 8) := by
      rw [Nat.mul_comm, Nat.pow_mul]
    have hshift : (UInt64.ofNat (w * 8)).toNat % 64 = w * 8 := by
      rw [UInt64.toNat_ofNat']
      omega
    have hbyte : val.toNat / 256 ^ w % 256 < 256 := Nat.mod_lt _ (by decide)
    have hfits : (val.toNat / 256 ^ w % 256) <<< (w * 8) < 2 ^ 64 := by
      rw [Nat.shiftLeft_eq, ← hpow]
      calc val.toNat / 256 ^ w % 256 * 256 ^ w < 256 * 256 ^ w :=
            Nat.mul_lt_mul_of_pos_right hbyte hpos
        _ = 256 ^ (w + 1) := by rw [Nat.pow_succ, Nat.mul_comm]
        _ ≤ 256 ^ 8 := Nat.pow_le_pow_right (by decide) h
    rw [List.range_succ, List.foldl_append, List.foldl_cons, List.foldl_nil, UInt64.toNat_or,
      ih (by omega), UInt64.toNat_shiftLeft, hshift, UInt8.toNat_toUInt64, toNat_byte val (by omega),
      Nat.mod_eq_of_lt hfits, or_shiftLeft (Nat.mod_lt _ hpos), Nat.pow_succ, Nat.mod_mul]

theorem reads_uint64 (val : UInt64) : Reads deserializeUInt64 (serializeUInt64 val) val := by
  intro rest
  have hlength : (serializeUInt64 val).length = 8 := by
    rw [serializeUInt64, List.length_map, List.length_range]
  have hbyte : ∀ i ∈ List.range 8, (serializeUInt64 val ++ rest).getD i 0 =
      (val >>> UInt64.ofNat (i * 8) &&& 0xFF).toUInt8 := by
    intro i hi
    rw [List.mem_range] at hi
    rw [List.getD_eq_getElem?_getD, List.getElem?_append_left (by omega), serializeUInt64,
      List.getElem?_map, List.getElem?_range hi]
    rfl
  have hvalue : (List.range 8).foldl (fun value i => value |||
      ((serializeUInt64 val ++ rest).getD i 0).toUInt64 <<< UInt64.ofNat (i * 8)) 0 = val := by
    rw [List.foldl_ext _ (fun value i => value |||
      (val >>> UInt64.ofNat (i * 8) &&& 0xFF).toUInt8.toUInt64 <<< UInt64.ofNat (i * 8)) 0
      fun value i hi => by rw [hbyte i hi]]
    rw [← UInt64.toNat_inj, toNat_foldl_bytes val (Nat.le_refl 8)]
    exact Nat.mod_eq_of_lt val.toNat_lt
  show deserializeUInt64 _ = _
  rw [deserializeUInt64, if_pos (by rw [List.length_append]; omega), hvalue,
    List.drop_left' hlength]

/-! ## Vectors -/

theorem toNat_sizeByte {α : Type} (vec : List α) : (sizeByte vec).toNat = vec.length % 256 :=
  UInt8.toNat_ofNat'

theorem toNat_sizeByte_of_lt {α : Type} {vec : List α} (h : vec.length < 256) :
    (sizeByte vec).toNat = vec.length := by
  rw [toNat_sizeByte, Nat.mod_eq_of_lt h]

theorem reads_uint16Vector {vec : List UInt16} (h : vec.length < 256) :
    Reads (deserializeUInt16Vector (sizeByte vec)) (serializeUInt16Vector vec (sizeByte vec))
      vec := by
  rw [deserializeUInt16Vector, serializeUInt16Vector, toNat_sizeByte_of_lt h, List.take_length]
  exact reads_times reads_uint16 vec

theorem reads_uint64Vector {vec : List UInt64} (h : vec.length < 256) :
    Reads (deserializeUInt64Vector (sizeByte vec)) (serializeUInt64Vector vec (sizeByte vec))
      vec := by
  rw [deserializeUInt64Vector, serializeUInt64Vector, toNat_sizeByte_of_lt h, List.take_length]
  exact reads_times reads_uint64 vec

theorem reads_sizes {sizes : List UInt8} (h : sizes.length < 256) :
    Reads (deserializeUInt8.times (sizeByte sizes).toNat) sizes sizes := by
  have hreads := reads_times reads_uint8 sizes
  rwa [List.flatMap_singleton', ← toNat_sizeByte_of_lt h] at hreads

/-! ## Engines -/

theorem splitXcps_flatten {busy : List (List UInt16)} (h : ∀ xcp ∈ busy, xcp.length < 256) :
    splitXcps busy.flatten (busy.map sizeByte) = .ok busy := by
  induction busy with
  | nil => rfl
  | cons xcp busy ih =>
    have hsize : (sizeByte xcp).toNat = xcp.length :=
      toNat_sizeByte_of_lt (h xcp List.mem_cons_self)
    have hle : xcp.length ≤ (xcp ++ busy.flatten).length := by
      rw [List.length_append]
      omega
    rw [List.flatten_cons, List.map_cons, splitXcps, hsize, if_pos hle, List.drop_left,
      List.take_left, ih fun xcp' hxcp' => h xcp' (List.mem_cons_of_mem xcp hxcp')]
    rfl

/-- The vectors of a split hold no more than the flat data. -/
theorem splitXcps_bounds {sizes : List UInt8} {flatData : List UInt16}
    {xcps : List (List UInt16)} (h : splitXcps flatData sizes = .ok xcps) :
    xcps.length = sizes.length ∧ xcps.flatten.length ≤ flatData.length := by
  induction sizes generalizing flatData xcps with
  | nil =>
    cases h
    exact ⟨rfl, Nat.zero_le _⟩
  | cons size sizes ih =>
    rw [splitXcps] at h
    by_cases hle : size.toNat ≤ flatData.length
    · rw [if_pos hle] at h
      cases hrest : splitXcps (flatData.drop size.toNat) sizes with
      | error e =>
        rw [hrest] at h
        cases h
      | ok rest =>
        rw [hrest] at h
        cases h
        obtain ⟨hlength, hflatten⟩ := ih hrest
        rw [List.length_drop] at hflatten
        rw [List.length_cons, List.length_cons, hlength, List.flatten_cons, List.length_append,
          List.length_take, Nat.min_eq_left hle]
        exact ⟨rfl, by omega⟩
    · rw [if_neg hle] at h
      cases h

/-- The metrics of an engine are where its settings and capability put them. -/
def EngineAgrees (isEnabled isDeviceLevelOnly : Bool) (activity : List UInt16)
    (busy : List (List UInt16)) : Prop :=
  (activity ≠ [] → isEnabled = true ∧ isDeviceLevelOnly = true) ∧
    (busy ≠ [] → isEnabled = true ∧ isDeviceLevelOnly = false)

/-- One-byte counts hold every size, and not all of the XCPs are empty. -/
structure EngineFits (activity : List UInt16) (busy : List (List UInt16)) : Prop where
  activity : activity.length < 256
  xcps : busy.length < 256
  values : busy.flatten.length < 256
  nonempty : busy.flatten = [] → busy = []

section Engine

variable {isEnabled isDeviceLevelOnly : Bool} {activity : List UInt16} {busy : List (List UInt16)}

theorem sizeByte_pos_iff {α : Type} {vec : List α} (h : vec.length < 256) :
    sizeByte vec > 0 ↔ vec ≠ [] := by
  show 0 < sizeByte vec ↔ _
  rw [UInt8.lt_iff_toNat_lt, toNat_sizeByte_of_lt h]
  exact List.length_pos_iff

theorem dataFlat_length_lt (hfits : EngineFits activity busy) :
    (dataFlat isDeviceLevelOnly activity busy).length < 256 := by
  cases isDeviceLevelOnly with
  | true => exact hfits.activity
  | false => exact hfits.values

/-- Without data there is nothing to read. -/
theorem eq_nil_of_dataFlat_eq_nil
    (hagrees : EngineAgrees isEnabled isDeviceLevelOnly activity busy)
    (hfits : EngineFits activity busy) (h : dataFlat isDeviceLevelOnly activity busy = []) :
    activity = [] ∧ busy = [] := by
  cases isDeviceLevelOnly with
  | true => exact ⟨h, by_contra fun hne => absurd (hagrees.2 hne).2 (by decide)⟩
  | false => exact ⟨by_contra fun hne => absurd (hagrees.1 hne).2 (by decide), hfits.nonempty h⟩

theorem length_le_flatten {xcp : List UInt16} (h : xcp ∈ busy) :
    xcp.length ≤ busy.flatten.length :=
  (List.sublist_flatten_of_mem h).length_le

theorem reads_engine (hagrees : EngineAgrees isEnabled isDeviceLevelOnly activity busy)
    (hfits : EngineFits activity busy) :
    let flat := dataFlat isDeviceLevelOnly activity busy
    Reads (deserializeEngine isEnabled isDeviceLevelOnly (sizeByte flat)
        (xcpSizes isDeviceLevelOnly busy) [] [])
      (if isEnabled && sizeByte flat > 0 then serializeUInt16Vector flat (sizeByte flat) else [])
      (activity, busy) := by
  intro flat
  have hlt : flat.length < 256 := dataFlat_length_lt hfits
  rw [deserializeEngine]
  by_cases hread : (isEnabled && decide (sizeByte flat > 0)) = true
  · rw [if_pos hread, if_pos hread]
    refine (reads_uint16Vector hlt).bind_of_nil ?_
    cases isDeviceLevelOnly with
    | true =>
      have hbusy : busy = [] := by_contra fun hne => absurd (hagrees.2 hne).2 (by decide)
      rw [hbusy]
      exact reads_pure _
    | false =>
      have hactivity : activity = [] := by_contra fun hne => absurd (hagrees.1 hne).2 (by decide)
      have hsizes : ∀ xcp ∈ busy, xcp.length < 256 := fun xcp hxcp =>
        Nat.lt_of_le_of_lt (length_le_flatten hxcp) hfits.values
      rw [hactivity]
      exact (reads_ofExcept (splitXcps_flatten hsizes)).bind_nil (reads_pure _)
  · rw [if_neg hread, if_neg hread]
    have hnil : activity = [] ∧ busy = [] := by
      rw [Bool.and_eq_true, decide_eq_true_eq, sizeByte_pos_iff hlt, not_and, not_not] at hread
      cases isEnabled with
      | true => exact eq_nil_of_dataFlat_eq_nil hagrees hfits (hread rfl)
      | false =>
        exact ⟨by_contra fun hne => absurd (hagrees.1 hne).1 (by decide),
          by_contra fun hne => absurd (hagrees.2 hne).1 (by decide)⟩
    rw [hnil.1, hnil.2]
    exact reads_pure _

/-- What an engine's section can hold at all under its header. -/
structure EngineBound (count : UInt8) (xcpCount : Nat) (r : List UInt16 × List (List UInt16)) :
    Prop where
  activity : r.1.length ≤ count.toNat
  xcps : r.2.length ≤ xcpCount
  values : r.2.flatten.length ≤ count.toNat
  nonempty : count = 0 → r.2 = []

theorem yields_engine (count : UInt8) (sizes : List UInt8) :
    Yields (deserializeEngine isEnabled isDeviceLevelOnly count sizes [] [])
      (EngineBound count sizes.length) := by
  have hnone : EngineBound count sizes.length ([], []) :=
    ⟨Nat.zero_le _, Nat.zero_le _, Nat.zero_le _, fun _ => rfl⟩
  rw [deserializeEngine]
  by_cases hread : (isEnabled && decide (count > 0)) = true
  · rw [if_pos hread]
    rw [Bool.and_eq_true, decide_eq_true_eq] at hread
    have hcount : count ≠ 0 := by
      intro heq
      subst heq
      exact absurd hread.2 (by decide)
    refine (yields_times _ _).bind fun flatData hflat => ?_
    cases isDeviceLevelOnly with
    | true => exact yields_pure ⟨Nat.le_of_eq hflat, Nat.zero_le _, Nat.zero_le _, fun _ => rfl⟩
    | false =>
      refine (yields_ofExcept fun xcps => splitXcps_bounds).bind fun xcps hxcps => yields_pure ?_
      exact ⟨Nat.zero_le _, Nat.le_of_eq hxcps.1, hflat ▸ hxcps.2, fun h => absurd h hcount⟩
  · rw [if_neg hread]
    exact yields_pure hnone

/-- An engine that was read back equals what was written only if it fits. -/
theorem EngineBound.fits (hagrees : EngineAgrees isEnabled isDeviceLevelOnly activity busy)
    (h : EngineBound (sizeByte (dataFlat isDeviceLevelOnly activity busy))
      (sizeByte (xcpSizes isDeviceLevelOnly busy)).toNat (activity, busy)) :
    EngineFits activity busy := by
  obtain ⟨hactivity, hxcps, hvalues, hnonempty⟩ := h
  rw [toNat_sizeByte] at hactivity hxcps hvalues
  cases isDeviceLevelOnly with
  | true =>
    have hbusy : busy = [] := by_contra fun hne => absurd (hagrees.2 hne).2 (by decide)
    subst hbusy
    have hmod : activity.length % 256 < 256 := Nat.mod_lt _ (by decide)
    exact ⟨Nat.lt_of_le_of_lt hactivity hmod, by decide, by decide, fun _ => rfl⟩
  | false =>
    have hnil : activity = [] := by_contra fun hne => absurd (hagrees.1 hne).2 (by decide)
    subst hnil
    have hmod (n : Nat) : n % 256 < 256 := Nat.mod_lt n (by decide)
    have hlength : (xcpSizes false busy).length = busy.length := List.length_map _
    rw [hlength] at hxcps
    refine ⟨by decide, Nat.lt_of_le_of_lt hxcps (hmod _), Nat.lt_of_le_of_lt hvalues (hmod _), ?_⟩
    intro hflat
    apply hnonempty
    show sizeByte busy.flatten = 0
    rw [hflat]
    rfl

end Engine

/-! ## All sections -/

/-- The settings and capabilities have a section for everything that the metrics hold. -/
structure Agrees (metrics : GpuMetrics) (capabilities : GpuMetricsCapabilities)
    (settings : GpuMetricsSettings) : Prop where
  vcn : EngineAgrees settings.vcnActivity capabilities.vcnIsDeviceLevelOnly metrics.vcnActivity
    metrics.vcnBusy
  jpeg : EngineAgrees settings.jpegActivity capabilities.jpegIsDeviceLevelOnly
    metrics.jpegActivity metrics.jpegBusy
  xgmi : settings.xgmi = false → metrics.xgmiLinkWidth = 0 ∧ metrics.xgmiLinkSpeed = 0 ∧
    metrics.xgmiReadDataAcc = [] ∧ metrics.xgmiWriteDataAcc = []
  pcie : settings.pcie = false → metrics.pcieLinkWidth = 0 ∧ metrics.pcieLinkSpeed = 0 ∧
    metrics.pcieBandwidthAcc = 0 ∧ metrics.pcieBandwidthInst = 0

/-- Every count of the metrics fits its byte, and no engine has only empty XCPs. -/
structure Fits (metrics : GpuMetrics) : Prop where
  vcn : EngineFits metrics.vcnActivity metrics.vcnBusy
  jpeg : EngineFits metrics.jpegActivity metrics.jpegBusy
  xgmiRead : metrics.xgmiReadDataAcc.length < 256
  xgmiWrite : metrics.xgmiWriteDataAcc.length < 256

def headerBytes (header : Header) : List UInt8 :=
  [header.capabilities.value, header.vcnCount, header.jpegCount, header.vcnXcpCount,
    header.jpegXcpCount, header.xgmiReadCount, header.xgmiWriteCount]

theorem reads_header (header : Header) : Reads deserializeHeader (headerBytes header) header :=
  fun _ => rfl

section Sections

variable {metrics : GpuMetrics} {capabilities : GpuMetricsCapabilities}
  {settings : GpuMetricsSettings}

/-- The header that is written for the metrics. -/
def headerOf (metrics : GpuMetrics) (capabilities : GpuMetricsCapabilities) : Header where
  capabilities := capabilities
  vcnCount := sizeByte
    (dataFlat capabilities.vcnIsDeviceLevelOnly metrics.vcnActivity metrics.vcnBusy)
  jpegCount := sizeByte
    (dataFlat capabilities.jpegIsDeviceLevelOnly metrics.jpegActivity metrics.jpegBusy)
  vcnXcpCount := sizeByte (xcpSizes capabilities.vcnIsDeviceLevelOnly metrics.vcnBusy)
  jpegXcpCount := sizeByte (xcpSizes capabilities.jpegIsDeviceLevelOnly metrics.jpegBusy)
  xgmiReadCount := sizeByte metrics.xgmiReadDataAcc
  xgmiWriteCount := sizeByte metrics.xgmiWriteDataAcc

theorem xcpSizes_length_lt (isDeviceLevelOnly : Bool) {busy : List (List UInt16)}
    (h : busy.length < 256) : (xcpSizes isDeviceLevelOnly busy).length < 256 := by
  cases isDeviceLevelOnly with
  | true => exact Nat.zero_lt_succ 255
  | false =>
    show (busy.map sizeByte).length < 256
    rwa [List.length_map]

/-- `result` with the XGMI fields of `metrics`, if they are enabled. -/
def withXgmi (isEnabled : Bool) (metrics result : GpuMetrics) : GpuMetrics :=
  if isEnabled then
    { result with
      xgmiLinkWidth := metrics.xgmiLinkWidth
      xgmiLinkSpeed := metrics.xgmiLinkSpeed
      xgmiReadDataAcc := metrics.xgmiReadDataAcc
      xgmiWriteDataAcc := metrics.xgmiWriteDataAcc }
  else result

/-- `result` with the PCIe fields of `metrics`, if they are enabled. -/
def withPcie (isEnabled : Bool) (metrics result : GpuMetrics) : GpuMetrics :=
  if isEnabled then
    { result with
      pcieLinkWidth := metrics.pcieLinkWidth
      pcieLinkSpeed := metrics.pcieLinkSpeed
      pcieBandwidthAcc := metrics.pcieBandwidthAcc
      pcieBandwidthInst := metrics.pcieBandwidthInst }
  else result

theorem reads_xgmi (capabilities : GpuMetricsCapabilities) (hfits : Fits metrics)
    (isEnabled : Bool) (result : GpuMetrics) :
    Reads (deserializeXgmi isEnabled (headerOf metrics capabilities) result)
      (if isEnabled then
        serializeUInt16 metrics.xgmiLinkWidth ++ serializeUInt16 metrics.xgmiLinkSpeed ++
        serializeUInt64Vector metrics.xgmiReadDataAcc (sizeByte metrics.xgmiReadDataAcc) ++
        serializeUInt64Vector metrics.xgmiWriteDataAcc (sizeByte metrics.xgmiWriteDataAcc)
      else [])
      (withXgmi isEnabled metrics result) := by
  cases isEnabled with
  | true =>
    simp only [deserializeXgmi, if_true, List.append_assoc]
    exact (reads_uint16 _).bind ((reads_uint16 _).bind ((reads_uint64Vector hfits.xgmiRead).bind
      ((reads_uint64Vector hfits.xgmiWrite).bind_of_nil (reads_pure _))))
  | false => exact reads_pure result

theorem reads_pcie (isEnabled : Bool) (result : GpuMetrics) :
    Reads (deserializePcie isEnabled result)
      (if isEnabled then
        serializeUInt16 metrics.pcieLinkWidth ++ serializeUInt16 metrics.pcieLinkSpeed ++
        serializeUInt64 metrics.pcieBandwidthAcc ++ serializeUInt64 metrics.pcieBandwidthInst
      else [])
      (withPcie isEnabled metrics result) := by
  cases isEnabled with
  | true =>
    simp only [deserializePcie, if_true, List.append_assoc]
    exact (reads_uint16 _).bind ((reads_uint16 _).bind ((reads_uint64 _).bind
      ((reads_uint64 _).bind_of_nil (reads_pure _))))
  | false => exact reads_pure result

/-- Metrics that agree with the settings are their enabled fields over the defaults. -/
theorem Agrees.withPcie_withXgmi (hagrees : Agrees metrics capabilities settings) :
    withPcie settings.pcie metrics (withXgmi settings.xgmi metrics
      { vcnActivity := metrics.vcnActivity, vcnBusy := metrics.vcnBusy,
        jpegActivity := metrics.jpegActivity, jpegBusy := metrics.jpegBusy }) = metrics := by
  obtain ⟨-, -, hxgmi, hpcie⟩ := hagrees
  obtain ⟨_, _, _, _, width, speed, readAcc, writeAcc, pcieWidth, pcieSpeed, acc, inst⟩ := metrics
  obtain ⟨_, _, xgmi, pcie⟩ := settings
  cases xgmi with
  | true =>
    cases pcie with
    | true => rfl
    | false =>
      obtain ⟨rfl, rfl, rfl, rfl⟩ := hpcie rfl
      rfl
  | false =>
    obtain ⟨rfl, rfl, rfl, rfl⟩ := hxgmi rfl
    cases pcie with
    | true => rfl
    | false =>
      obtain ⟨rfl, rfl, rfl, rfl⟩ := hpcie rfl
      rfl

/-- The sections of fitting metrics read back as these metrics. -/
theorem reads_metrics (hagrees : Agrees metrics capabilities settings) (hfits : Fits metrics) :
    Reads (do
        let header ← deserializeHeader
        let result ← deserializeSections settings {} header
        return (result, header.capabilities))
      (serializeGpuMetrics metrics capabilities settings) (metrics, capabilities) := by
  simp only [serializeGpuMetrics, List.append_assoc]
  refine (reads_header (headerOf metrics capabilities)).bind
    (Reads.bind_of_nil ?_ (reads_pure _))
  refine (reads_sizes (xcpSizes_length_lt _ hfits.vcn.xcps)).bind
    ((reads_sizes (xcpSizes_length_lt _ hfits.jpeg.xcps)).bind
      ((reads_engine hagrees.vcn hfits.vcn).bind ((reads_engine hagrees.jpeg hfits.jpeg).bind
        ((reads_xgmi capabilities hfits _ _).bind ?_))))
  have hpcie := @reads_pcie metrics settings.pcie (withXgmi settings.xgmi metrics
    { vcnActivity := metrics.vcnActivity, vcnBusy := metrics.vcnBusy,
      jpegActivity := metrics.jpegActivity, jpegBusy := metrics.jpegBusy })
  rwa [hagrees.withPcie_withXgmi] at hpcie

/-- What the sections can hold at all under a header. -/
structure SectionsBound (header : Header) (metrics : GpuMetrics) : Prop where
  vcn : EngineBound header.vcnCount header.vcnXcpCount.toNat
    (metrics.vcnActivity, metrics.vcnBusy)
  jpeg : EngineBound header.jpegCount header.jpegXcpCount.toNat
    (metrics.jpegActivity, metrics.jpegBusy)
  xgmiRead : metrics.xgmiReadDataAcc.length ≤ header.xgmiReadCount.toNat
  xgmiWrite : metrics.xgmiWriteDataAcc.length ≤ header.xgmiWriteCount.toNat

theorem yields_xgmi (isEnabled : Bool) {header : Header} {result : GpuMetrics}
    (h : SectionsBound header result) :
    Yields (deserializeXgmi isEnabled header result) (SectionsBound header) := by
  cases isEnabled with
  | true =>
    refine (yields_true _).bind fun _ _ => (yields_true _).bind fun _ _ =>
      (yields_times _ _).bind fun _ hread => (yields_times _ _).bind fun _ hwrite =>
        yields_pure ?_
    exact ⟨h.vcn, h.jpeg, Nat.le_of_eq hread, Nat.le_of_eq hwrite⟩
  | false => exact yields_pure h

theorem yields_pcie (isEnabled : Bool) {header : Header} {result : GpuMetrics}
    (h : SectionsBound header result) :
    Yields (deserializePcie isEnabled result) (SectionsBound header) := by
  cases isEnabled with
  | true =>
    refine (yields_true _).bind fun _ _ => (yields_true _).bind fun _ _ =>
      (yields_true _).bind fun _ _ => (yields_true _).bind fun _ _ => yields_pure ?_
    exact ⟨h.vcn, h.jpeg, h.xgmiRead, h.xgmiWrite⟩
  | false => exact yields_pure h

theorem yields_sections (settings : GpuMetricsSettings) (header : Header) :
    Yields (deserializeSections settings {} header) (SectionsBound header) := by
  refine (yields_times _ _).bind fun vcnSizes hvcnSizes =>
    (yields_times _ _).bind fun jpegSizes hjpegSizes =>
      (yields_engine _ vcnSizes).bind fun vcn hvcn =>
        (yields_engine _ jpegSizes).bind fun jpeg hjpeg => ?_
  rw [hvcnSizes] at hvcn
  rw [hjpegSizes] at hjpeg
  exact (yields_xgmi settings.xgmi ⟨hvcn, hjpeg, Nat.zero_le _, Nat.zero_le _⟩).bind
    fun _ h => yields_pcie settings.pcie h

theorem SectionsBound.fits (hagrees : Agrees metrics capabilities settings)
    (h : SectionsBound (headerOf metrics capabilities) metrics) : Fits metrics := by
  obtain ⟨hvcn, hjpeg, hread, hwrite⟩ := h
  have hbyte (b : UInt8) : b.toNat < 256 := b.toNat_lt
  exact ⟨hvcn.fits hagrees.vcn, hjpeg.fits hagrees.jpeg, Nat.lt_of_le_of_lt hread (hbyte _),
    Nat.lt_of_le_of_lt hwrite (hbyte _)⟩

/-- Deserializing what was serialized gives the metrics and the capabilities back. -/
def RoundTrips (metrics : GpuMetrics) (capabilities : GpuMetricsCapabilities)
    (settings : GpuMetricsSettings) : Prop :=
  deserializeGpuMetrics (serializeGpuMetrics metrics capabilities settings) {} settings =
    .ok (metrics, capabilities)

theorem roundTrips_of_fits (hagrees : Agrees metrics capabilities settings)
    (hfits : Fits metrics) : RoundTrips metrics capabilities settings := by
  have hread := reads_metrics hagrees hfits []
  rw [List.append_nil] at hread
  have hne : (serializeGpuMetrics metrics capabilities settings).isEmpty = false := rfl
  rw [RoundTrips, deserializeGpuMetrics, hne, if_neg (by decide)]
  simp only [hread]
  rfl

/-- Whatever is read back has the capabilities and is within what the header announces. -/
theorem bound_of_deserialize {result : GpuMetrics} {restored : GpuMetricsCapabilities}
    (h : deserializeGpuMetrics (serializeGpuMetrics metrics capabilities settings) {} settings =
      .ok (result, restored)) :
    restored = capabilities ∧ SectionsBound (headerOf metrics capabilities) result := by
  have hne : (serializeGpuMetrics metrics capabilities settings).isEmpty = false := rfl
  obtain ⟨sections, hsections⟩ : ∃ sections,
      serializeGpuMetrics metrics capabilities settings =
        headerBytes (headerOf metrics capabilities) ++ sections := by
    simp only [serializeGpuMetrics, List.append_assoc]
    exact ⟨_, rfl⟩
  have hyields : Yields (do
      let result ← deserializeSections settings {} (headerOf metrics capabilities)
      return (result, capabilities)) fun r =>
        r.2 = capabilities ∧ SectionsBound (headerOf metrics capabilities) r.1 :=
    (yields_sections settings _).bind fun _ hbound => yields_pure ⟨rfl, hbound⟩
  rw [deserializeGpuMetrics, hne, if_neg (by decide), hsections] at h
  simp only [(reads_header (headerOf metrics capabilities)).run_bind] at h
  generalize hrun : Decoder.run _ sections = loaded at h
  cases loaded with
  | error e => cases h
  | ok loaded =>
    obtain ⟨read, rest⟩ := loaded
    cases h
    exact hyields _ _ _ hrun

theorem fits_of_roundTrips (hagrees : Agrees metrics capabilities settings)
    (h : RoundTrips metrics capabilities settings) : Fits metrics :=
  (bound_of_deserialize h).2.fits hagrees

/-- The round trip needs counts that fit their bytes and an engine with some value. -/
theorem roundTrips_iff_fits (hagrees : Agrees metrics capabilities settings) :
    RoundTrips metrics capabilities settings ↔ Fits metrics :=
  ⟨fits_of_roundTrips hagrees, roundTrips_of_fits hagrees⟩

/-- Two XCPs, one of them without a busy engine. -/
def twoXcps : GpuMetrics where
  vcnBusy := [[10, 20], []]
  jpegActivity := [7]
  xgmiLinkWidth := 16
  xgmiReadDataAcc := [1099511627776]

theorem twoXcps_roundTrips : RoundTrips twoXcps ⟨2⟩ { pcie := false } := by
  refine (roundTrips_iff_fits ⟨?_, ?_, fun h => absurd h (by decide), fun _ => by decide⟩).mpr
    ⟨?_, ?_, ?_, ?_⟩
  · exact ⟨fun h => absurd rfl h, fun _ => by decide⟩
  · exact ⟨fun _ => by decide, fun h => absurd rfl h⟩
  · exact ⟨by decide, by decide, by decide, by decide⟩
  · exact ⟨by decide, by decide, by decide, by decide⟩
  · decide
  · decide

/-- Eight XCPs with 32 busy JPEG engines each: 256 values. -/
def manyJpegs : GpuMetrics where
  jpegBusy := List.replicate 8 (List.replicate 32 50)

theorem not_roundTrips_manyJpegs : ¬∀ (metrics : GpuMetrics)
    (capabilities : GpuMetricsCapabilities) (settings : GpuMetricsSettings),
    Agrees metrics capabilities settings → RoundTrips metrics capabilities settings := by
  intro h
  have hagrees : Agrees manyJpegs {} {} :=
    ⟨⟨fun h => absurd rfl h, fun h => absurd rfl h⟩, ⟨fun h => absurd rfl h, fun _ => by decide⟩,
      fun h => absurd h (by decide), fun h => absurd h (by decide)⟩
  have hvalues := (fits_of_roundTrips hagrees (h _ _ _ hagrees)).jpeg.values
  have hlength : manyJpegs.jpegBusy.flatten.length = 256 := by
    rw [manyJpegs, List.flatten_replicate_replicate, List.length_replicate]
  omega

end Sections

end Gpu
end Rocprofsys
