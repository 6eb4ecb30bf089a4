import Rocprofsys.Base.Cursor
import Rocprofsys.Gpu.GpuMetrics

namespace Rocprofsys
namespace Gpu

open Base

/-! ## Deserialization with an offset

The functions here index `serialized_data` as the code does. An index outside of the vector is
`outOfRange`, so that the checks in front of each read have something to prevent. -/

abbrev MetricsCursor := Cursor Failure

def readUInt8 : MetricsCursor UInt8 := fun data offset =>
  if offset ≥ data.length then .error unexpectedEnd
  else do
    let b ← Cursor.element .outOfRange data offset
    return (b, offset + 1)

def readUInt16 : MetricsCursor UInt16 := fun data offset =>
  if offset + 1 ≥ data.length then .error unexpectedEnd
  else do
    let b₀ ← Cursor.element .outOfRange data offset
    let b₁ ← Cursor.element .outOfRange data (offset + 1)
    return (b₀.toUInt16 ||| b₁.toUInt16 <<< 8, offset + 2)

/-- The loop of `deserialize_uint64` over its bytes. -/
def readBytes (data : List UInt8) (offset : Nat) : List Nat → UInt64 → Except Failure UInt64
  | [], value => .ok value
  | i :: is, value => do
    let b ← Cursor.element .outOfRange data (offset + i)
    readBytes data offset is (value ||| b.toUInt64 <<< UInt64.ofNat (i * 8))

def readUInt64 : MetricsCursor UInt64 := fun data offset =>
  if offset + 7 ≥ data.length then .error unexpectedEnd
  else do
    let value ← readBytes data offset (List.range 8) 0
    return (value, offset + 8)

def readUInt16Vector (count : UInt8) : MetricsCursor (List UInt16) := readUInt16.times count.toNat

def readUInt64Vector (count : UInt8) : MetricsCursor (List UInt64) := readUInt64.times count.toNat

def readEngine (isEnabled isDeviceLevelOnly : Bool) (count : UInt8) (sizes : List UInt8)
    (activity : List UInt16) (busy : List (List UInt16)) :
    MetricsCursor (List UInt16 × List (List UInt16)) :=
  if isEnabled && count > 0 then do
    let flatData ← readUInt16Vector count
    if isDeviceLevelOnly then return (flatData, busy)
    else
      let xcps ← Cursor.ofExcept (splitXcps flatData sizes)
      return (activity, busy ++ xcps)
  else return (activity, busy)

def readHeader : MetricsCursor Header := do
  let value ← readUInt8
  let vcnCount ← readUInt8
  let jpegCount ← readUInt8
  let vcnXcpCount ← readUInt8
  let jpegXcpCount ← readUInt8
  let xgmiReadCount ← readUInt8
  let xgmiWriteCount ← readUInt8
  return ⟨⟨value⟩, vcnCount, jpegCount, vcnXcpCount, jpegXcpCount, xgmiReadCount, xgmiWriteCount⟩

def readXgmi (isEnabled : Bool) (header : Header) (result : GpuMetrics) :
    MetricsCursor GpuMetrics :=
  if isEnabled then do
    let xgmiLinkWidth ← readUInt16
    let xgmiLinkSpeed ← readUInt16
    let xgmiReadDataAcc ← readUInt64Vector header.xgmiReadCount
    let xgmiWriteDataAcc ← readUInt64Vector header.xgmiWriteCount
    return { result with xgmiLinkWidth, xgmiLinkSpeed, xgmiReadDataAcc, xgmiWriteDataAcc }
  else return result

def readPcie (isEnabled : Bool) (result : GpuMetrics) : MetricsCursor GpuMetrics :=
  if isEnabled then do
    let pcieLinkWidth ← readUInt16
    let pcieLinkSpeed ← readUInt16
    let pcieBandwidthAcc ← readUInt64
    let pcieBandwidthInst ← readUInt64
    return { result with pcieLinkWidth, pcieLinkSpeed, pcieBandwidthAcc, pcieBandwidthInst }
  else return result

def readSections (settings : GpuMetricsSettings) (result : GpuMetrics) (header : Header) :
    MetricsCursor GpuMetrics := do
  let vcnXcpSizes ← readUInt8.times header.vcnXcpCount.toNat
  let jpegXcpSizes ← readUInt8.times header.jpegXcpCount.toNat
  let (vcnActivity, vcnBusy) ← readEngine settings.vcnActivity
    header.capabilities.vcnIsDeviceLevelOnly header.vcnCount vcnXcpSizes result.vcnActivity
    result.vcnBusy
  let (jpegActivity, jpegBusy) ← readEngine settings.jpegActivity
    header.capabilities.jpegIsDeviceLevelOnly header.jpegCount jpegXcpSizes result.jpegActivity
    result.jpegBusy
  let result ← readXgmi settings.xgmi header
    { result with vcnActivity, vcnBusy, jpegActivity, jpegBusy }
  readPcie settings.pcie result

/-- `deserialize_gpu_metrics` with its offset, from the start of the vector. -/
def readGpuMetrics (serializedData : List UInt8) (result : GpuMetrics)
    (settings : GpuMetricsSettings) :
    Except Failure (GpuMetrics × GpuMetricsCapabilities) :=
  if serializedData.isEmpty then .error insufficientHeader
  else
    let cursor : MetricsCursor (GpuMetrics × GpuMetricsCapabilities) := do
      let header ← readHeader
      let result ← readSections settings result header
      return (result, header.capabilities)
    (cursor.run serializedData 0).map Prod.fst

/-! ## The checks keep the reads inside -/

open Cursor

theorem simulates_uint8 : Simulates readUInt8 deserializeUInt8 := by
  intro data offset h
  by_cases hlt : offset < data.length
  · refine Or.inl ⟨data[offset], offset + 1, hlt, ?_, ?_⟩
    · show readUInt8 data offset = _
      rw [readUInt8, if_neg (by omega), element_of_lt _ hlt]
      rfl
    · rw [List.drop_eq_getElem_cons hlt]
      rfl
  · refine Or.inr ⟨unexpectedEnd, ?_, ?_⟩
    · show readUInt8 data offset = _
      rw [readUInt8, if_pos (by omega)]
    · rw [List.drop_of_length_le (by omega)]
      rfl

theorem simulates_uint16 : Simulates readUInt16 deserializeUInt16 := by
  intro data offset h
  by_cases hlt : offset + 1 < data.length
  · have hfirst : offset < data.length := by omega
    refine Or.inl ⟨data[offset].toUInt16 ||| data[offset + 1].toUInt16 <<< 8, offset + 2, hlt, ?_,
      ?_⟩
    · show readUInt16 data offset = _
      rw [readUInt16, if_neg (by omega), element_of_lt _ hfirst, element_of_lt _ hlt]
      rfl
    · rw [List.drop_eq_getElem_cons hfirst, List.drop_eq_getElem_cons hlt]
      rfl
  · refine Or.inr ⟨unexpectedEnd, ?_, ?_⟩
    · show readUInt16 data offset = _
      rw [readUInt16, if_pos (by omega)]
    · have hlength : (data.drop offset).length ≤ 1 := by
        rw [List.length_drop]
        omega
      match hdata : data.drop offset with
      | [] => rfl
      | [_] => rfl
      | _ :: _ :: _ =>
        rw [hdata, List.length_cons, List.length_cons] at hlength
        omega

theorem readBytes_of_lt {data : List UInt8} {offset : Nat} {is : List Nat} {value : UInt64}
    (h : ∀ i ∈ is, offset + i < data.length) :
    readBytes data offset is value = .ok (is.foldl (fun value i =>
      value ||| ((data.drop offset).getD i 0).toUInt64 <<< UInt64.ofNat (i * 8)) value) := by
  induction is generalizing value with
  | nil => rfl
  | cons i is ih =>
    rw [List.forall_mem_cons] at h
    have hbyte : (data.drop offset).getD i 0 = data[offset + i] := by
      rw [List.getD_eq_getElem?_getD, List.getElem?_drop, List.getElem?_eq_getElem h.1,
        Option.getD_some]
    rw [readBytes, element_of_lt _ h.1, List.foldl_cons, hbyte]
    exact ih h.2

theorem simulates_uint64 : Simulates readUInt64 deserializeUInt64 := by
  intro data offset h
  by_cases hlt : offset + 7 < data.length
  · have hinside : ∀ i ∈ List.range 8, offset + i < data.length := by
      intro i hi
      rw [List.mem_range] at hi
      omega
    refine Or.inl ⟨(List.range 8).foldl (fun value i => value |||
      ((data.drop offset).getD i 0).toUInt64 <<< UInt64.ofNat (i * 8)) 0, offset + 8, hlt, ?_, ?_⟩
    · show readUInt64 data offset = _
      rw [readUInt64, if_neg (by omega), readBytes_of_lt hinside]
      rfl
    · show deserializeUInt64 (data.drop offset) = _
      rw [deserializeUInt64, if_pos (by rw [List.length_drop]; omega), List.drop_drop]
  · refine Or.inr ⟨unexpectedEnd, ?_, ?_⟩
    · show readUInt64 data offset = _
      rw [readUInt64, if_pos (by omega)]
    · show deserializeUInt64 (data.drop offset) = _
      rw [deserializeUInt64, if_neg (by rw [List.length_drop]; omega)]

theorem simulates_engine (isEnabled isDeviceLevelOnly : Bool) (count : UInt8)
    (sizes : List UInt8) (activity : List UInt16) (busy : List (List UInt16)) :
    Simulates (readEngine isEnabled isDeviceLevelOnly count sizes activity busy)
      (deserializeEngine isEnabled isDeviceLevelOnly count sizes activity busy) := by
  rw [readEngine, deserializeEngine]
  split
  · refine (simulates_times simulates_uint16 _).bind fun flatData => ?_
    cases isDeviceLevelOnly with
    | true => exact simulates_pure _
    | false => exact (simulates_ofExcept _).bind fun xcps => simulates_pure _
  · exact simulates_pure _

theorem simulates_header : Simulates readHeader deserializeHeader :=
  simulates_uint8.bind fun _ => simulates_uint8.bind fun _ => simulates_uint8.bind fun _ =>
    simulates_uint8.bind fun _ => simulates_uint8.bind fun _ => simulates_uint8.bind fun _ =>
      simulates_uint8.bind fun _ => simulates_pure _

theorem simulates_xgmi (isEnabled : Bool) (header : Header) (result : GpuMetrics) :
    Simulates (readXgmi isEnabled header result) (deserializeXgmi isEnabled header result) := by
  cases isEnabled with
  | true =>
    exact simulates_uint16.bind fun _ => simulates_uint16.bind fun _ =>
      (simulates_times simulates_uint64 _).bind fun _ =>
        (simulates_times simulates_uint64 _).bind fun _ => simulates_pure _
  | false => exact simulates_pure result

theorem simulates_pcie (isEnabled : Bool) (result : GpuMetrics) :
    Simulates (readPcie isEnabled result) (deserializePcie isEnabled result) := by
  cases isEnabled with
  | true =>
    exact simulates_uint16.bind fun _ => simulates_uint16.bind fun _ =>
      simulates_uint64.bind fun _ => simulates_uint64.bind fun _ => simulates_pure _
  | false => exact simulates_pure result

theorem simulates_sections (settings : GpuMetricsSettings) (result : GpuMetrics)
    (header : Header) :
    Simulates (readSections settings result header)
      (deserializeSections settings result header) :=
  (simulates_times simulates_uint8 _).bind fun _ =>
    (simulates_times simulates_uint8 _).bind fun _ =>
      (simulates_engine _ _ _ _ _ _).bind fun _ => (simulates_engine _ _ _ _ _ _).bind fun _ =>
        (simulates_xgmi _ _ _).bind fun _ => simulates_pcie _ _

/-- With the offset the code reads what the decoders do. -/
theorem readGpuMetrics_eq (serializedData : List UInt8) (result : GpuMetrics)
    (settings : GpuMetricsSettings) :
    readGpuMetrics serializedData result settings =
      deserializeGpuMetrics serializedData result settings := by
  rw [readGpuMetrics, deserializeGpuMetrics]
  split
  · rfl
  · exact (simulates_header.bind fun header => (simulates_sections settings result header).bind
      fun _ => simulates_pure _).run_eq serializedData

end Gpu
end Rocprofsys
