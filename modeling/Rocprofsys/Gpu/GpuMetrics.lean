import Rocprofsys.Base.Decoder

namespace Rocprofsys
namespace Gpu

open Base

/-- `gpu_metrics_t`. -/
structure GpuMetrics where
  vcnActivity : List UInt16 := []
  vcnBusy : List (List UInt16) := []
  jpegActivity : List UInt16 := []
  jpegBusy : List (List UInt16) := []
  xgmiLinkWidth : UInt16 := 0
  xgmiLinkSpeed : UInt16 := 0
  xgmiReadDataAcc : List UInt64 := []
  xgmiWriteDataAcc : List UInt64 := []
  pcieLinkWidth : UInt16 := 0
  pcieLinkSpeed : UInt16 := 0
  pcieBandwidthAcc : UInt64 := 0
  pcieBandwidthInst : UInt64 := 0
  deriving DecidableEq, Repr

/-- `gpu_metrics_settings_t`. -/
structure GpuMetricsSettings where
  vcnActivity : Bool := true
  jpegActivity : Bool := true
  xgmi : Bool := true
  pcie : Bool := true
  deriving DecidableEq, Repr

/-- `gpu_metrics_capabilities_t`: a byte with two flags in its low bits. -/
structure GpuMetricsCapabilities where
  value : UInt8 := 0
  deriving DecidableEq, Repr

namespace GpuMetricsCapabilities

def vcnIsDeviceLevelOnly (capabilities : GpuMetricsCapabilities) : Bool :=
  capabilities.value &&& 1 != 0

def jpegIsDeviceLevelOnly (capabilities : GpuMetricsCapabilities) : Bool :=
  capabilities.value >>> 1 &&& 1 != 0

end GpuMetricsCapabilities

/-! ## Serialization -/

def serializeUInt16 (val : UInt16) : List UInt8 :=
  [(val &&& 0xFF).toUInt8, (val >>> 8 &&& 0xFF).toUInt8]

def serializeUInt64 (val : UInt64) : List UInt8 :=
  (List.range 8).map fun i => (val >>> UInt64.ofNat (i * 8) &&& 0xFF).toUInt8

/-- The first `count` elements. -/
def serializeUInt16Vector (vec : List UInt16) (count : UInt8) : List UInt8 :=
  (vec.take count.toNat).flatMap serializeUInt16

def serializeUInt64Vector (vec : List UInt64) (count : UInt8) : List UInt8 :=
  (vec.take count.toNat).flatMap serializeUInt64

/-- `static_cast<uint8_t>(vec.size())`. -/
def sizeByte {α : Type} (vec : List α) : UInt8 := UInt8.ofNat vec.length

/-- The values of an engine in one vector: the device's own, or those of all XCPs. -/
def dataFlat (isDeviceLevelOnly : Bool) (activity : List UInt16) (busy : List (List UInt16)) :
    List UInt16 :=
  if isDeviceLevelOnly then activity else busy.flatten

/-- The size of each XCP's vector. -/
def xcpSizes (isDeviceLevelOnly : Bool) (busy : List (List UInt16)) : List UInt8 :=
  if isDeviceLevelOnly then [] else busy.map sizeByte

def serializeGpuMetrics (metrics : GpuMetrics) (capabilities : GpuMetricsCapabilities)
    (settings : GpuMetricsSettings) : List UInt8 :=
  let vcnDataFlat := dataFlat capabilities.vcnIsDeviceLevelOnly metrics.vcnActivity metrics.vcnBusy
  let jpegDataFlat :=
    dataFlat capabilities.jpegIsDeviceLevelOnly metrics.jpegActivity metrics.jpegBusy
  let vcnXcpSizes := xcpSizes capabilities.vcnIsDeviceLevelOnly metrics.vcnBusy
  let jpegXcpSizes := xcpSizes capabilities.jpegIsDeviceLevelOnly metrics.jpegBusy
  let vcnCount := sizeByte vcnDataFlat
  let jpegCount := sizeByte jpegDataFlat
  let xgmiReadCount := sizeByte metrics.xgmiReadDataAcc
  let xgmiWriteCount := sizeByte metrics.xgmiWriteDataAcc
  [capabilities.value, vcnCount, jpegCount, sizeByte vcnXcpSizes, sizeByte jpegXcpSizes,
    xgmiReadCount, xgmiWriteCount] ++
  vcnXcpSizes ++ jpegXcpSizes ++
  (if settings.vcnActivity && vcnCount > 0 then
    serializeUInt16Vector vcnDataFlat vcnCount else []) ++
  (if settings.jpegActivity && jpegCount > 0 then
    serializeUInt16Vector jpegDataFlat jpegCount else []) ++
  (if settings.xgmi then
    serializeUInt16 metrics.xgmiLinkWidth ++ serializeUInt16 metrics.xgmiLinkSpeed ++
    serializeUInt64Vector metrics.xgmiReadDataAcc xgmiReadCount ++
    serializeUInt64Vector metrics.xgmiWriteDataAcc xgmiWriteCount else []) ++
  (if settings.pcie then
    serializeUInt16 metrics.pcieLinkWidth ++ serializeUInt16 metrics.pcieLinkSpeed ++
    serializeUInt64 metrics.pcieBandwidthAcc ++ serializeUInt64 metrics.pcieBandwidthInst else [])

/-! ## Deserialization

The decoders see the bytes behind `offset`. -/

/-- A thrown exception, or an iterator moved past its vector. -/
inductive Failure where
  | runtimeError (message : String)
  | outOfRange
  deriving DecidableEq, Repr

def unexpectedEnd : Failure := .runtimeError "Invalid serialized data: unexpected end"

def insufficientHeader : Failure :=
  .runtimeError "Invalid serialized data: insufficient header size"

abbrev MetricsDecoder := Decoder Failure

def deserializeUInt8 : MetricsDecoder UInt8
  | b :: rest => .ok (b, rest)
  | [] => .error unexpectedEnd

def deserializeUInt16 : MetricsDecoder UInt16
  | b₀ :: b₁ :: rest => .ok (b₀.toUInt16 ||| b₁.toUInt16 <<< 8, rest)
  | _ => .error unexpectedEnd

def deserializeUInt64 : MetricsDecoder UInt64 := fun data =>
  if 7 < data.length then
    let value := (List.range 8).foldl
      (fun value i => value ||| (data.getD i 0).toUInt64 <<< UInt64.ofNat (i * 8)) 0
    .ok (value, data.drop 8)
  else .error unexpectedEnd

def deserializeUInt16Vector (count : UInt8) : MetricsDecoder (List UInt16) :=
  deserializeUInt16.times count.toNat

def deserializeUInt64Vector (count : UInt8) : MetricsDecoder (List UInt64) :=
  deserializeUInt64.times count.toNat

/-- The flat data behind `flat_offset`, cut to the sizes of the XCPs. -/
def splitXcps (flatData : List UInt16) : List UInt8 → Except Failure (List (List UInt16))
  | [] => .ok []
  | xcpSize :: xcpSizes =>
    if xcpSize.toNat ≤ flatData.length then
      (splitXcps (flatData.drop xcpSize.toNat) xcpSizes).map (flatData.take xcpSize.toNat :: ·)
    else .error .outOfRange

/-- One engine's section: its data as the device's activity, or split up for the XCPs. -/
def deserializeEngine (isEnabled isDeviceLevelOnly : Bool) (count : UInt8) (sizes : List UInt8)
    (activity : List UInt16) (busy : List (List UInt16)) :
    MetricsDecoder (List UInt16 × List (List UInt16)) :=
  if isEnabled && count > 0 then do
    let flatData ← deserializeUInt16Vector count
    if isDeviceLevelOnly then return (flatData, busy)
    else
      let xcps ← Decoder.ofExcept (splitXcps flatData sizes)
      return (activity, busy ++ xcps)
  else return (activity, busy)

/-- The capability flags and the counts. -/
structure Header where
  capabilities : GpuMetricsCapabilities
  vcnCount : UInt8
  jpegCount : UInt8
  vcnXcpCount : UInt8
  jpegXcpCount : UInt8
  xgmiReadCount : UInt8
  xgmiWriteCount : UInt8

def deserializeHeader : MetricsDecoder Header := do
  let value ← deserializeUInt8
  let vcnCount ← deserializeUInt8
  let jpegCount ← deserializeUInt8
  let vcnXcpCount ← deserializeUInt8
  let jpegXcpCount ← deserializeUInt8
  let xgmiReadCount ← deserializeUInt8
  let xgmiWriteCount ← deserializeUInt8
  return ⟨⟨value⟩, vcnCount, jpegCount, vcnXcpCount, jpegXcpCount, xgmiReadCount, xgmiWriteCount⟩

def deserializeXgmi (isEnabled : Bool) (header : Header) (result : GpuMetrics) :
    MetricsDecoder GpuMetrics :=
  if isEnabled then do
    let xgmiLinkWidth ← deserializeUInt16
    let xgmiLinkSpeed ← deserializeUInt16
    let xgmiReadDataAcc ← deserializeUInt64Vector header.xgmiReadCount
    let xgmiWriteDataAcc ← deserializeUInt64Vector header.xgmiWriteCount
    return { result with xgmiLinkWidth, xgmiLinkSpeed, xgmiReadDataAcc, xgmiWriteDataAcc }
  else return result

def deserializePcie (isEnabled : Bool) (result : GpuMetrics) : MetricsDecoder GpuMetrics :=
  if isEnabled then do
    let pcieLinkWidth ← deserializeUInt16
    let pcieLinkSpeed ← deserializeUInt16
    let pcieBandwidthAcc ← deserializeUInt64
    let pcieBandwidthInst ← deserializeUInt64
    return { result with pcieLinkWidth, pcieLinkSpeed, pcieBandwidthAcc, pcieBandwidthInst }
  else return result

/-- What follows the header. -/
def deserializeSections (settings : GpuMetricsSettings) (result : GpuMetrics) (header : Header) :
    MetricsDecoder GpuMetrics := do
  let vcnXcpSizes ← deserializeUInt8.times header.vcnXcpCount.toNat
  let jpegXcpSizes ← deserializeUInt8.times header.jpegXcpCount.toNat
  let (vcnActivity, vcnBusy) ← deserializeEngine settings.vcnActivity
    header.capabilities.vcnIsDeviceLevelOnly header.vcnCount vcnXcpSizes result.vcnActivity
    result.vcnBusy
  let (jpegActivity, jpegBusy) ← deserializeEngine settings.jpegActivity
    header.capabilities.jpegIsDeviceLevelOnly header.jpegCount jpegXcpSizes result.jpegActivity
    result.jpegBusy
  let result ← deserializeXgmi settings.xgmi header
    { result with vcnActivity, vcnBusy, jpegActivity, jpegBusy }
  deserializePcie settings.pcie result

/-- `deserialize_gpu_metrics` into `result`, with the enable flags of `settings`. -/
def deserializeGpuMetrics (serializedData : List UInt8) (result : GpuMetrics)
    (settings : GpuMetricsSettings) :
    Except Failure (GpuMetrics × GpuMetricsCapabilities) :=
  if serializedData.isEmpty then .error insufficientHeader
  else
    let decoder : MetricsDecoder (GpuMetrics × GpuMetricsCapabilities) := do
      let header ← deserializeHeader
      let result ← deserializeSections settings result header
      return (result, header.capabilities)
    (decoder.run serializedData).map Prod.fst

end Gpu
end Rocprofsys
